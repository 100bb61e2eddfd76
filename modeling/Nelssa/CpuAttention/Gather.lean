import Mathlib.Order.Lattice.Nat
import Nelssa.Foundation.RankScatter

/-!
# Sparse gather of the selected clusters

The prefill node keeps the offloaded keys and values of a request ordered by cluster. For every KV head a
selection of cluster ids is turned into one contiguous run of tokens by one of three routines: the C++
gather of a single request, the C++ gather of a whole batch into a buffer of fixed width, and the PyTorch
fallback, which ranks the slots of equally wide clusters and scatters their positions. All of them work on
the rectangular id matrix that `_normalize_cluster_ids` makes of the selection, whose short rows are padded
with the id of cluster zero.
-/

namespace Nelssa.CpuAttention

open Foundation RankScatter
open List hiding max min not_le not_lt max_le_iff

variable {κ : Type*} {numKvHeads : ℕ}

/-- The row of one KV head in a reorganised buffer of `numTokens` tokens and the place of its clusters. -/
structure HeadClusters where
  numTokens : ℕ
  offsets : List ℕ
  sizes : List ℕ
  numTokens_pos : 0 < numTokens
  offsets_ne_nil : offsets ≠ []
  within : ∀ cluster, offsets.getD cluster 0 + sizes.getD cluster 0 ≤ numTokens

namespace HeadClusters

variable (head : HeadClusters) (source : ℕ → κ)

def nCentroids : ℕ := head.offsets.length

def offset (cluster : ℕ) : ℕ := head.offsets.getD cluster 0

def size (cluster : ℕ) : ℕ := head.sizes.getD cluster 0

theorem nCentroids_pos : 0 < head.nCentroids := length_pos_iff.2 head.offsets_ne_nil

theorem offset_add_size_le (cluster : ℕ) : head.offset cluster + head.size cluster ≤ head.numTokens :=
  head.within cluster

/-- The positions of the selected clusters' tokens, in the order of the selection. -/
def positions (ids : List ℕ) : List ℕ :=
  ids.flatMap fun cluster ↦ range' (head.offset cluster) (head.size cluster)

def selected (ids : List ℕ) : List κ := (head.positions ids).map source

/-- `sizes.sum(dim=1)`: the number of selected tokens. -/
def selectedLen (ids : List ℕ) : ℕ := (ids.map head.size).sum

@[simp] theorem positions_nil : head.positions [] = [] := rfl

@[simp] theorem positions_cons (cluster : ℕ) (ids : List ℕ) :
    head.positions (cluster :: ids) =
      range' (head.offset cluster) (head.size cluster) ++ head.positions ids := rfl

@[simp] theorem selectedLen_cons (cluster : ℕ) (ids : List ℕ) :
    head.selectedLen (cluster :: ids) = head.size cluster + head.selectedLen ids :=
  sum_cons

theorem positions_append (ids others : List ℕ) :
    head.positions (ids ++ others) = head.positions ids ++ head.positions others := by
  exact flatMap_append

theorem length_positions (ids : List ℕ) : (head.positions ids).length = head.selectedLen ids := by
  induction ids with
  | nil => rfl
  | cons cluster ids ih => rw [positions_cons, length_append, length_range', ih, selectedLen_cons]

theorem positions_lt {ids : List ℕ} {pos : ℕ} (hpos : pos ∈ head.positions ids) : pos < head.numTokens := by
  obtain ⟨cluster, -, hmem⟩ := mem_flatMap.1 hpos
  have hle := head.offset_add_size_le cluster
  rw [mem_range'_1] at hmem
  omega

end HeadClusters

open HeadClusters

/-! ## The id matrix -/

/-- The forms in which the handler receives the cluster ids of a request: a decoded matrix or vector, a
list of rows, or a plain list. -/
inductive ClusterIds where
  | tensor (rows : List (List ℕ))
  | vector (ids : List ℕ)
  | nested (rows : List (List ℕ))
  | flat (ids : List ℕ)

def maxNprobe (rows : List (List ℕ)) : ℕ := (rows.map length).foldr max 0

/-- The rows of a ragged list, right-padded with zero; heads without a row get zeros only. -/
def padRows (rows : List (List ℕ)) (head : Fin numKvHeads) : List ℕ :=
  rows.getD head [] ++ replicate (maxNprobe rows - (rows.getD head []).length) 0

/-- `_normalize_cluster_ids`. -/
def normalizeClusterIds : ClusterIds → Fin numKvHeads → List ℕ
  | .tensor rows => fun head ↦ rows.getD head []
  | .vector ids => fun _ ↦ ids
  | .nested rows =>
    if rows = [] then fun _ ↦ [0]
    else if rows.length = numKvHeads ∧ ∀ row ∈ rows, row.length = (rows.headD []).length then
      fun head ↦ rows.getD head []
    else padRows rows
  | .flat ids => if ids = [] then fun _ ↦ [0] else padRows [ids]

/-- A per-head selection as the handler can receive it: the list of its rows, or their matrix when all
rows are equally long. -/
def ClusterIds.Encodes (ids : ClusterIds) (selection : Fin numKvHeads → List ℕ) : Prop :=
  ids = .nested (ofFn selection) ∨
    ids = .tensor (ofFn selection) ∧ ∀ head other, (selection head).length = (selection other).length

section

variable (selection : Fin numKvHeads → List ℕ)

def nprobe : ℕ :=
  Finset.univ.sup fun head ↦ (selection head).length

/-- The selection with every row filled up with cluster zero. -/
def filled (head : Fin numKvHeads) : List ℕ :=
  selection head ++ replicate (nprobe selection - (selection head).length) 0

theorem length_le_nprobe (head : Fin numKvHeads) : (selection head).length ≤ nprobe selection :=
  Finset.le_sup (f := fun other ↦ (selection other).length) (Finset.mem_univ head)

end

theorem le_foldr_max {items : List ℕ} {item : ℕ} (hitem : item ∈ items) : item ≤ items.foldr max 0 := by
  induction items with
  | nil => exact absurd hitem not_mem_nil
  | cons first items ih =>
    rcases mem_cons.1 hitem with rfl | hrest
    · exact le_max_left _ _
    · exact (ih hrest).trans (le_max_right _ _)

theorem maxNprobe_ofFn (selection : Fin numKvHeads → List ℕ) :
    maxNprobe (ofFn selection) = nprobe selection := by
  have hle (rows : List (List ℕ)) (bound : ℕ) :
      maxNprobe rows ≤ bound ↔ ∀ row ∈ rows, row.length ≤ bound := by
    induction rows with
    | nil => simp [maxNprobe]
    | cons row rows ih =>
      have hcons : maxNprobe (row :: rows) = max row.length (maxNprobe rows) := rfl
      rw [hcons, max_le_iff, ih, forall_mem_cons]
  apply eq_of_forall_ge_iff
  intro bound
  rw [hle, nprobe]
  simp

theorem getD_ofFn (selection : Fin numKvHeads → List ℕ) (head : Fin numKvHeads) :
    (ofFn selection).getD head [] = selection head := by
  simp [getD_eq_getElem?_getD]

variable {selection : Fin numKvHeads → List ℕ}

theorem filled_of_length_eq (heq : ∀ head other, (selection head).length = (selection other).length)
    (head : Fin numKvHeads) : filled selection head = selection head := by
  have hle : nprobe selection ≤ (selection head).length := by
    apply Finset.sup_le
    intro other _
    exact (heq other head).le
  rw [filled, Nat.sub_eq_zero_of_le hle, replicate_zero, append_nil]

theorem normalizeClusterIds_of_encodes {ids : ClusterIds} (hencodes : ids.Encodes selection)
    (head : Fin numKvHeads) : normalizeClusterIds ids head = filled selection head := by
  rcases hencodes with rfl | ⟨rfl, hlens⟩
  · have hne : ofFn selection ≠ [] := by
      rw [ne_eq, ← length_eq_zero_iff, length_ofFn]
      exact (Fin.pos head).ne'
    rw [normalizeClusterIds, if_neg hne]
    split
    next hrectangular =>
      have hlens (first second : Fin numKvHeads) : (selection first).length = (selection second).length := by
        rw [hrectangular.2 _ (mem_ofFn.2 ⟨first, rfl⟩), hrectangular.2 _ (mem_ofFn.2 ⟨second, rfl⟩)]
      rw [filled_of_length_eq hlens]
      exact getD_ofFn selection head
    next =>
      rw [padRows, filled, maxNprobe_ofFn, getD_ofFn]
  · rw [filled_of_length_eq hlens]
    exact getD_ofFn selection head

/-! ## The C++ gathers -/

section Copy

variable (head : HeadClusters) (source : ℕ → κ) (width : ℕ)

/-- One iteration of the copy loop over the tokens `copied` so far: ids outside the metadata and empty
clusters are skipped, and a slice is clamped to the source row and to the destination row. -/
def copyCluster (copied : List κ) (cluster : ℕ) : List κ :=
  if head.nCentroids ≤ cluster then copied
  else if head.size cluster = 0 then copied
  else
    let start := head.offset cluster
    let copy := head.size cluster
    let copy := if head.numTokens < start + copy then head.numTokens - start else copy
    let copy := if width < copied.length + copy then width - copied.length else copy
    copied ++ (range' start copy).map source

/-- The tokens that the copy loop leaves at the front of a destination row of `width` tokens. -/
def copyClusters (ids : List ℕ) : List κ := ids.foldl (copyCluster head source width) []

variable {head} in
theorem copyCluster_eq {cluster : ℕ} (hcluster : cluster < head.nCentroids) {copied : List κ}
    (hcopied : copied.length ≤ width) :
    copyCluster head source width copied cluster =
      (copied ++ (range' (head.offset cluster) (head.size cluster)).map source).take width := by
  have htake := take_of_length_le hcopied
  have hsource := not_lt.2 (head.offset_add_size_le cluster)
  rw [copyCluster, if_neg (not_le.2 hcluster), take_append, htake]
  by_cases hsize : head.size cluster = 0
  · rw [if_pos hsize, hsize, range'_zero, map_nil, take_nil, append_nil]
  · rw [if_neg hsize]
    simp only [if_neg hsource]
    rw [← map_take, take_range']
    congr 3
    split <;> omega

theorem take_take_append (front back : List κ) :
    (front.take width ++ back).take width = (front ++ back).take width := by
  rw [take_append, take_append, take_take, min_self, length_take]
  congr 2
  omega

variable {head} in
theorem copyClusters_eq {ids : List ℕ} (hids : ∀ cluster ∈ ids, cluster < head.nCentroids) :
    copyClusters head source width ids = (head.selected source ids).take width := by
  have hloop (copied : List κ) (hcopied : copied.length ≤ width) :
      ids.foldl (copyCluster head source width) copied = (copied ++ head.selected source ids).take width := by
    induction ids generalizing copied with
    | nil =>
      rw [selected, positions_nil, map_nil, append_nil]
      exact (take_of_length_le hcopied).symm
    | cons cluster ids ih =>
      rw [forall_mem_cons] at hids
      rw [foldl_cons, copyCluster_eq source width hids.1 hcopied, ih hids.2 _ (length_take_le _ _)]
      rw [selected, selected, positions_cons, map_append, ← append_assoc, take_take_append]
  rw [copyClusters, hloop [] (Nat.zero_le _), nil_append]

end Copy

/-- The reorganised buffer of a request and the rectangular id matrix `ids_t` to gather from it. -/
structure GatherInput (numKvHeads : ℕ) where
  heads : Fin numKvHeads → HeadClusters
  idsT : Fin numKvHeads → List ℕ

namespace GatherInput

variable (input : GatherInput numKvHeads)

/-- All ids name clusters of the metadata. -/
def Valid : Prop := ∀ head, ∀ cluster ∈ input.idsT head, cluster < (input.heads head).nCentroids

instance : Decidable input.Valid :=
  inferInstanceAs (Decidable (∀ head, ∀ cluster ∈ input.idsT head, cluster < (input.heads head).nCentroids))

/-- `per_head_lens` of the paths that add up the sizes of the id matrix. -/
def perHeadLens (head : Fin numKvHeads) : ℕ := (input.heads head).selectedLen (input.idsT head)

def maxSelected : ℕ := max (Finset.univ.sup input.perHeadLens) 1

theorem perHeadLens_le (head : Fin numKvHeads) : input.perHeadLens head ≤ input.maxSelected :=
  (Finset.le_sup (f := input.perHeadLens) (Finset.mem_univ head)).trans (le_max_left _ _)

/-- `_gather_selected_clusters` with the C++ extension: reused buffers of at least the needed width serve
as destination, and the row behind the copied tokens is cleared. -/
def gatherSelectedClusters (blank : κ) (reuseWidth : Option ℕ) (source : Fin numKvHeads → ℕ → κ) :
    Option (Fin numKvHeads → List κ × ℕ) :=
  -- `torch.gather` refuses ids outside the metadata.
  if input.Valid then
    let width := max (reuseWidth.getD 0) input.maxSelected
    some fun head ↦
      let copied := copyClusters (input.heads head) (source head) width (input.idsT head)
      (copied ++ replicate (width - copied.length) blank, input.perHeadLens head)
  else none

/-- The row of one head in the batched gather: the row of the pooled buffer behind the copied tokens is
left as it was. -/
def gatherRow (maxTokens : ℕ) (source previous : Fin numKvHeads → ℕ → κ) (head : Fin numKvHeads) :
    List κ × ℕ :=
  let copied := copyClusters (input.heads head) (source head) maxTokens (input.idsT head)
  (copied ++ (range' copied.length (maxTokens - copied.length)).map (previous head), copied.length)

theorem length_selected_idsT (head : Fin numKvHeads) (source : ℕ → κ) :
    ((input.heads head).selected source (input.idsT head)).length = input.perHeadLens head := by
  rw [selected, length_map, length_positions, perHeadLens]

variable {input}

section

variable (hvalid : input.Valid) (maxTokens : ℕ) (source previous : Fin numKvHeads → ℕ → κ)
  (head : Fin numKvHeads)
include hvalid maxTokens source previous head

theorem Valid.gatherRow_fst :
    (input.gatherRow maxTokens source previous head).1 =
      ((input.heads head).selected (source head) (input.idsT head)).take maxTokens ++
        (range' (min maxTokens (input.perHeadLens head))
          (maxTokens - min maxTokens (input.perHeadLens head))).map (previous head) := by
  rw [gatherRow, copyClusters_eq _ _ (hvalid head)]
  simp [length_selected_idsT]

theorem Valid.gatherRow_snd :
    (input.gatherRow maxTokens source previous head).2 = min maxTokens (input.perHeadLens head) := by
  rw [gatherRow, copyClusters_eq _ _ (hvalid head), length_take, length_selected_idsT]

theorem Valid.length_gatherRow : (input.gatherRow maxTokens source previous head).1.length = maxTokens := by
  rw [hvalid.gatherRow_fst, length_append, length_take, length_selected_idsT, length_map,
    length_range', Nat.add_sub_of_le (min_le_left _ _)]

end

variable (input)

/-! ## The PyTorch fallback -/

/-- The selected clusters of a head as segments of its row. -/
def segments (head : Fin numKvHeads) : List RankScatter.Segment :=
  (input.idsT head).map fun cluster ↦ ((input.heads head).offset cluster, (input.heads head).size cluster)

/-- `C`: the size of the largest selected cluster. -/
def slotWidth : ℕ :=
  max (Finset.univ.sup fun head ↦ ((input.segments head).map Prod.snd).foldr max 0) 1

/-- `idx`: the positions scattered to the ranks of their slots. -/
def idx (head : Fin numKvHeads) : List ℕ :=
  compact input.slotWidth input.maxSelected (input.segments head)

/-- `_gather_selected_clusters_torch`. -/
def gatherSelectedClustersTorch (source : Fin numKvHeads → ℕ → κ) : Option (Fin numKvHeads → List κ × ℕ) :=
  if input.Valid ∧ ∀ head, ∀ pos ∈ input.idx head, pos < (input.heads head).numTokens then
    some fun head ↦ ((input.idx head).map (source head), input.perHeadLens head)
  else none

end GatherInput

open GatherInput

/-- A selection of clusters of a request, with the form in which its ids arrive. -/
structure GatherRequest (numKvHeads : ℕ) extends GatherInput numKvHeads where
  selection : Fin numKvHeads → List ℕ
  clusterIds : ClusterIds
  normalized : idsT = normalizeClusterIds clusterIds
  encodes : clusterIds.Encodes selection
  nodup : ∀ head, (selection head).Nodup
  valid : ∀ head, ∀ cluster ∈ selection head, cluster < (heads head).nCentroids

namespace GatherRequest

variable (req : GatherRequest numKvHeads)

theorem idsT_eq (head : Fin numKvHeads) : req.idsT head = filled req.selection head := by
  rw [req.normalized, normalizeClusterIds_of_encodes req.encodes]

theorem valid_idsT : req.Valid := by
  intro head cluster hcluster
  rw [idsT_eq, filled, mem_append] at hcluster
  rcases hcluster with hsel | hfill
  · exact req.valid head cluster hsel
  · rw [eq_of_mem_replicate hfill]
    exact (req.heads head).nCentroids_pos

end GatherRequest

open GatherRequest

/-- `gather_selected_clusters_batch_cpu`: every request and head has a row of its own in the pooled
buffer. -/
def gatherSelectedClustersBatchCpu (maxTokens : ℕ) (batch : List (GatherInput numKvHeads))
    (source previous : ℕ → Fin numKvHeads → ℕ → κ) : Option (List (Fin numKvHeads → List κ × ℕ)) :=
  if batch = [] ∨ maxTokens = 0 then none
  else some (batch.mapIdx fun n input ↦ input.gatherRow maxTokens (source n) (previous n))

/-! ## Gathering exactly the selection -/

/-- A gathered row starts with the selected tokens, and its reported length is their number. -/
def Places (row : List κ × ℕ) (head : HeadClusters) (source : ℕ → κ) (selection : List ℕ) : Prop :=
  row.1.take row.2 = head.selected source selection ∧ row.2 = head.selectedLen selection

variable (κ) in
/-- For all buffer contents the three routines gather exactly the selected clusters of every request. -/
structure GathersSelected (maxTokens : ℕ) (batch : List (GatherRequest numKvHeads)) : Prop where
  single : ∀ req ∈ batch, ∀ (blank : κ) (reuseWidth : Option ℕ) (source : Fin numKvHeads → ℕ → κ),
    ∃ rows, req.gatherSelectedClusters blank reuseWidth source = some rows ∧
      ∀ head, Places (rows head) (req.heads head) (source head) (req.selection head)
  batched : ∀ source previous : ℕ → Fin numKvHeads → ℕ → κ,
    ∃ rows, gatherSelectedClustersBatchCpu maxTokens (batch.map (·.toGatherInput)) source previous =
        some rows ∧
      ∀ n req, batch[n]? = some req → ∃ row, rows[n]? = some row ∧
        ∀ head, Places (row head) (req.heads head) (source n head) (req.selection head)
  torch : ∀ req ∈ batch, ∀ source : Fin numKvHeads → ℕ → κ,
    ∃ rows, req.gatherSelectedClustersTorch source = some rows ∧
      ∀ head, Places (rows head) (req.heads head) (source head) (req.selection head)

/-- A request whose selection all routines can gather: rows shorter than the longest one are filled up with
an empty cluster, the selected tokens of a head fit the pooled row, and the invalid slots of the fallback,
as wide as the largest selected cluster, neither write over a selected position nor point behind the row. -/
structure GatherRequest.Gatherable (req : GatherRequest numKvHeads) (maxTokens : ℕ) : Prop where
  filled : ∀ head, (req.selection head).length = nprobe req.selection ∨
    (req.heads head).size 0 = 0
  fits : ∀ head, (req.heads head).selectedLen (req.selection head) ≤ maxTokens
  runs : ∀ head, RankScatter.RunsFull req.slotWidth (req.segments head)
  empties : ∀ head, (req.heads head).selectedLen (req.selection head) = 0 →
    RankScatter.EmptyFits req.slotWidth (req.heads head).numTokens (req.segments head)

variable {req : GatherRequest numKvHeads}

namespace GatherRequest

/-- Filling a row up with cluster zero adds nothing exactly when there is nothing to fill or cluster zero
is empty. -/
theorem perHeadLens_eq_iff (head : Fin numKvHeads) :
    req.perHeadLens head = (req.heads head).selectedLen (req.selection head) ↔
      (req.selection head).length = nprobe req.selection ∨ (req.heads head).size 0 = 0 := by
  have hle := length_le_nprobe req.selection head
  have hlens : req.perHeadLens head =
      (req.heads head).selectedLen (req.selection head) +
        (nprobe req.selection - (req.selection head).length) * (req.heads head).size 0 := by
    rw [perHeadLens, idsT_eq, filled, selectedLen, map_append, sum_append, map_replicate, sum_replicate_nat]
    rfl
  rw [hlens, add_eq_left, mul_eq_zero]
  omega

variable (filled : ∀ head, (req.selection head).length = nprobe req.selection ∨
  (req.heads head).size 0 = 0)

include filled

theorem positions_idsT (head : Fin numKvHeads) :
    (req.heads head).positions (req.idsT head) = (req.heads head).positions (req.selection head) := by
  rw [idsT_eq, CpuAttention.filled, positions_append]
  refine append_right_eq_self.2 ?_
  rcases filled head with hlen | hempty
  · rw [hlen, Nat.sub_self, replicate_zero, positions_nil]
  · rw [← length_eq_zero_iff, length_positions, selectedLen,
      map_replicate, hempty, sum_replicate_nat, mul_zero]

theorem copyClusters_idsT (source : ℕ → κ) (width : ℕ) (head : Fin numKvHeads) :
    copyClusters (req.heads head) source width (req.idsT head) =
      ((req.heads head).selected source (req.selection head)).take width := by
  rw [copyClusters_eq source width (req.valid_idsT head), selected, positions_idsT filled, selected]

theorem places_single (blank : κ) (reuseWidth : Option ℕ) (source : Fin numKvHeads → ℕ → κ) :
    ∃ rows, req.gatherSelectedClusters blank reuseWidth source = some rows ∧
      ∀ head, Places (rows head) (req.heads head) (source head) (req.selection head) := by
  refine ⟨_, if_pos req.valid_idsT, fun head ↦ ?_⟩
  have hlens := (perHeadLens_eq_iff head).2 (filled head)
  have hlen : ((req.heads head).selected (source head) (req.selection head)).length =
      req.perHeadLens head := by
    rw [selected, length_map, length_positions, hlens]
  have hwidth : req.perHeadLens head ≤ max (reuseWidth.getD 0) req.maxSelected :=
    (req.perHeadLens_le head).trans (le_max_right _ _)
  refine ⟨?_, hlens⟩
  rw [copyClusters_idsT filled, take_of_length_le (hlen.trans_le hwidth), ← hlen]
  exact take_left

theorem gatherRow_places_iff (maxTokens : ℕ) (source previous : Fin numKvHeads → ℕ → κ)
    (head : Fin numKvHeads) :
    Places (req.gatherRow maxTokens source previous head) (req.heads head) (source head)
        (req.selection head) ↔
      (req.heads head).selectedLen (req.selection head) ≤ maxTokens := by
  have hlen : ((req.heads head).selected (source head) (req.selection head)).length =
      (req.heads head).selectedLen (req.selection head) := by
    rw [selected, length_map, length_positions]
  rw [gatherRow, copyClusters_idsT filled]
  rw [length_take, hlen]
  constructor
  · intro hplaces
    exact min_eq_right_iff.1 hplaces.2
  · intro hle
    refine ⟨?_, min_eq_right hle⟩
    rw [min_eq_right hle, take_of_length_le (hlen.trans_le hle), ← hlen]
    exact take_left

theorem idx_iff (head : Fin numKvHeads) :
    (req.idx head).take (req.perHeadLens head) = (req.heads head).positions (req.selection head) ∧
        (∀ pos ∈ req.idx head, pos < (req.heads head).numTokens) ↔
      RankScatter.RunsFull req.slotWidth (req.segments head) ∧
        ((req.heads head).selectedLen (req.selection head) = 0 →
          RankScatter.EmptyFits req.slotWidth (req.heads head).numTokens (req.segments head)) := by
  have hpositions : segmentPositions (req.segments head) = (req.heads head).positions (req.idsT head) := by
    rw [segmentPositions, segments, flatMap_map]
    rfl
  have htotal : total (req.segments head) = req.perHeadLens head := by
    rw [total, segments, map_map]
    rfl
  have hsizes : ∀ segment ∈ req.segments head, segment.2 ≤ req.slotWidth := by
    intro segment hsegment
    calc segment.2 ≤ ((req.segments head).map Prod.snd).foldr max 0 := le_foldr_max (mem_map_of_mem hsegment)
      _ ≤ Finset.univ.sup fun other ↦ ((req.segments other).map Prod.snd).foldr max 0 :=
          Finset.le_sup (f := fun other ↦ ((req.segments other).map Prod.snd).foldr max 0)
            (Finset.mem_univ head)
      _ ≤ req.slotWidth := le_max_left _ _
  have hiff := compact_iff hsizes (htotal.trans_le (req.perHeadLens_le head))
    (lt_of_lt_of_le one_pos (le_max_right _ _)) (lt_of_lt_of_le one_pos (le_max_right _ _))
    (req.heads head).numTokens_pos (by rw [hpositions]; exact fun _ ↦ positions_lt _)
  rw [htotal, hpositions, positions_idsT filled, (perHeadLens_eq_iff head).2 (filled head)] at hiff
  rw [← hiff, (perHeadLens_eq_iff head).2 (filled head), idx]

end GatherRequest

theorem eq_of_forall_map_eq [Nontrivial κ] {items others : List ℕ}
    (hmap : ∀ source : ℕ → κ, items.map source = others.map source) : items = others := by
  obtain ⟨marked, blank, hne⟩ := exists_pair_ne κ
  have hlen : items.length = others.length := by
    rw [← length_map fun _ ↦ marked, hmap, length_map]
  apply ext_getElem hlen
  intro index hidx hother
  by_contra hdiffer
  have hat : (items.map fun item ↦ if item = others[index] then marked else blank)[index]? =
      (others.map fun item ↦ if item = others[index] then marked else blank)[index]? := by
    rw [hmap]
  rw [getElem?_map, getElem?_map, getElem?_eq_getElem hidx,
    getElem?_eq_getElem hother, Option.map_some, Option.map_some, if_neg hdiffer, if_pos rfl] at hat
  exact hne (Option.some.inj hat).symm

namespace GatherRequest

variable (filled : ∀ head, (req.selection head).length = nprobe req.selection ∨ (req.heads head).size 0 = 0)

include filled

theorem places_torch (hidx : ∀ head,
      (req.idx head).take (req.perHeadLens head) = (req.heads head).positions (req.selection head) ∧
        ∀ pos ∈ req.idx head, pos < (req.heads head).numTokens) (source : Fin numKvHeads → ℕ → κ) :
    ∃ rows, req.gatherSelectedClustersTorch source = some rows ∧
      ∀ head, Places (rows head) (req.heads head) (source head) (req.selection head) := by
  refine ⟨_, if_pos ⟨req.valid_idsT, fun head ↦ (hidx head).2⟩, fun head ↦ ⟨?_, ?_⟩⟩
  · rw [selected, ← (hidx head).1, map_take]
  · exact (perHeadLens_eq_iff head).2 (filled head)

omit filled in
theorem idx_of_places_torch [Nontrivial κ] (htorch : ∀ source : Fin numKvHeads → ℕ → κ,
      ∃ rows, req.gatherSelectedClustersTorch source = some rows ∧
        ∀ head, Places (rows head) (req.heads head) (source head) (req.selection head))
    (head : Fin numKvHeads) :
    (req.idx head).take (req.perHeadLens head) = (req.heads head).positions (req.selection head) ∧
      ∀ pos ∈ req.idx head, pos < (req.heads head).numTokens := by
  have hread (source : ℕ → κ) :
      ((req.idx head).take (req.perHeadLens head)).map source =
          ((req.heads head).positions (req.selection head)).map source ∧
        ∀ pos ∈ req.idx head, pos < (req.heads head).numTokens := by
    obtain ⟨_, hrows, hplaces⟩ := htorch fun _ ↦ source
    rw [gatherSelectedClustersTorch, Option.ite_none_right_eq_some] at hrows
    obtain ⟨hchecks, hrows⟩ := hrows
    rw [← Option.some.inj hrows] at hplaces
    refine ⟨?_, hchecks.2 head⟩
    rw [map_take]
    exact (hplaces head).1
  have hsource : ℕ → κ := fun _ ↦ Classical.arbitrary κ
  exact ⟨eq_of_forall_map_eq fun source ↦ (hread source).1, (hread hsource).2⟩

end GatherRequest

theorem places_batched {maxTokens : ℕ} {batch : List (GatherRequest numKvHeads)} (hbatch : batch ≠ [])
    (hcap : 0 < maxTokens) (hreqs : ∀ req ∈ batch, req.Gatherable maxTokens)
    (source previous : ℕ → Fin numKvHeads → ℕ → κ) :
    ∃ rows, gatherSelectedClustersBatchCpu maxTokens (batch.map (·.toGatherInput)) source previous =
        some rows ∧
      ∀ n req, batch[n]? = some req → ∃ row, rows[n]? = some row ∧
        ∀ head, Places (row head) (req.heads head) (source n head) (req.selection head) := by
  have hinputs : batch.map (·.toGatherInput) ≠ [] := by simpa using hbatch
  refine ⟨_, if_neg (not_or.2 ⟨hinputs, hcap.ne'⟩), fun n req hn ↦ ?_⟩
  have hreq := hreqs req (mem_of_getElem? hn)
  refine ⟨req.gatherRow maxTokens (source n) (previous n), by simp [hn], fun head ↦ ?_⟩
  exact (gatherRow_places_iff hreq.filled _ _ _ head).2 (hreq.fits head)

/-- The three routines gather exactly the selected clusters of all requests of a batch, whatever the
buffers hold, if and only if every request is `Gatherable`. -/
theorem gathersSelected_iff [Nontrivial κ] (maxTokens : ℕ) (batch : List (GatherRequest numKvHeads))
    (hbatch : batch ≠ []) :
    GathersSelected κ maxTokens batch ↔ 0 < maxTokens ∧ ∀ req ∈ batch, req.Gatherable maxTokens := by
  constructor
  · intro hgathers
    have hsource : ℕ → Fin numKvHeads → ℕ → κ := fun _ _ _ ↦ Classical.arbitrary κ
    obtain ⟨rows, hrows, hplaces⟩ := hgathers.batched hsource hsource
    rw [gatherSelectedClustersBatchCpu, Option.ite_none_left_eq_some, not_or] at hrows
    obtain ⟨⟨-, hcap⟩, hrows⟩ := hrows
    refine ⟨Nat.pos_of_ne_zero hcap, fun req hrequest ↦ ?_⟩
    -- The single gather reports the filled rows' lengths, so filling has added nothing.
    have hfilled (head : Fin numKvHeads) :
        (req.selection head).length = nprobe req.selection ∨ (req.heads head).size 0 = 0 := by
      obtain ⟨_, hrows, hplaces⟩ := hgathers.single req hrequest (hsource 0 head 0) none (hsource 0)
      rw [gatherSelectedClusters, if_pos req.valid_idsT] at hrows
      rw [← Option.some.inj hrows] at hplaces
      exact (perHeadLens_eq_iff head).1 (hplaces head).2
    have hidx := idx_of_places_torch (hgathers.torch req hrequest)
    refine ⟨hfilled, fun head ↦ ?_, fun head ↦ ((idx_iff hfilled head).1 (hidx head)).1,
      fun head ↦ ((idx_iff hfilled head).1 (hidx head)).2⟩
    obtain ⟨n, hn⟩ := mem_iff_getElem?.1 hrequest
    obtain ⟨_, hrow, hplaces⟩ := hplaces n req hn
    rw [← Option.some.inj hrows, getElem?_mapIdx, getElem?_map, hn] at hrow
    rw [← Option.some.inj hrow] at hplaces
    exact (gatherRow_places_iff hfilled _ _ _ head).1 (hplaces head)
  · rintro ⟨hcap, hrequests⟩
    refine ⟨fun req hrequest ↦ places_single (hrequests req hrequest).filled,
      places_batched hbatch hcap hrequests, fun req hrequest ↦ ?_⟩
    have hgatherable := hrequests req hrequest
    exact places_torch hgatherable.filled fun head ↦
      (idx_iff hgatherable.filled head).2 ⟨hgatherable.runs head, hgatherable.empties head⟩

/-! ## Two heads with two clusters of two tokens -/

theorem twoOffsets_ne_nil : [0, 2] ≠ [] := cons_ne_nil 0 [2]

def twoClusters : HeadClusters where
  numTokens := 4
  offsets := [0, 2]
  sizes := [2, 2]
  numTokens_pos := Nat.succ_pos _
  offsets_ne_nil := twoOffsets_ne_nil
  within := by
    intro cluster
    rcases cluster with _ | _ | cluster
    · decide
    · decide
    · exact Nat.zero_le _

/-- Both clusters for the first head, and the given ones for the second. -/
def twoHeads (second : List ℕ) (hnodup : second.Nodup) (hvalid : ∀ cluster ∈ second, cluster < 2) :
    GatherRequest 2 where
  heads _ := twoClusters
  idsT := normalizeClusterIds (.nested (ofFn fun head : Fin 2 ↦ if head.val = 0 then [0, 1] else second))
  selection head := if head.val = 0 then [0, 1] else second
  clusterIds := .nested (ofFn fun head : Fin 2 ↦ if head.val = 0 then [0, 1] else second)
  normalized := rfl
  encodes := Or.inl rfl
  nodup head := by
    split
    · decide
    · exact hnodup
  valid head := by
    split
    · decide
    · exact hvalid

/-- `M_CAP_DEFAULT` -/
def mCapDefault : ℕ := 2304

theorem gathersSelected_twoHeads :
    GathersSelected Bool mCapDefault [twoHeads [1, 0] (by decide) (by decide)] := by
  refine (gathersSelected_iff mCapDefault _ (by simp)).2 ⟨by decide, ?_⟩
  intro req hrequest
  rw [mem_singleton] at hrequest
  subst hrequest
  exact ⟨by decide, by decide, by decide, by decide⟩

/-- When the second head selects the second cluster only, its row is filled up with the first cluster, whose
tokens are gathered as well. -/
theorem not_gathersSelected_ragged :
    ¬ GathersSelected Bool mCapDefault [twoHeads [1] (by decide) (by decide)] := by
  intro hgathers
  obtain ⟨_, hrows, hplaces⟩ := hgathers.single _ mem_cons_self false none fun _ _ ↦ false
  rw [← Option.some.inj hrows] at hplaces
  exact absurd (hplaces 1).2 (by decide)

end Nelssa.CpuAttention
