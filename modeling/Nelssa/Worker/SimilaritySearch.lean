import Mathlib.Algebra.GroupWithZero.Nat
import Mathlib.Data.List.Range
import Mathlib.Logic.Nontrivial.Basic
import Nelssa.Foundation.Runs

/-!
# Centroids scored by the similarity search

Every layer of a decode step scores the queries of the long requests against centroid and cluster-size
matrices. These reach the native search in one of three ways: indexed by staging slot, stacked by the
caller, or already copied into persistent batch buffers. The native code tells the cases apart by
which of its arguments are empty. Columns at or behind the number of centroids of a request are
masked, so a matrix is the request's own when its first columns are.

The main theorem says for which steps every long request is scored against its own matrices whatever
the persistent buffers held before.
-/

namespace Nelssa.Worker.Similarity

open Foundation.Runs Function
open List hiding max

/-! ## Clustering metadata -/

/-- Clustering of one layer. A column holds the data of all heads: `C` for a centroid and `S` for a
cluster size. -/
structure LayerMeta (C S : Type*) where
  centroids : List C
  clusterSize : Option (List S)

/-- Missing cluster sizes count as zero. -/
def LayerMeta.sizes {C S : Type*} [Zero S] (layer : LayerMeta C S) : List S :=
  layer.clusterSize.getD (replicate layer.centroids.length 0)

/-- Clustering metadata of one request. All layers are clustered with the same number of centroids and
stored with the same width. -/
structure RequestMeta (C S : Type*) where
  nCentroids : ℕ
  width : ℕ
  layers : ℕ → Option (LayerMeta C S)
  nCentroids_pos : 0 < nCentroids
  nCentroids_le : nCentroids ≤ width
  length_centroids : ∀ layer clustering, layers layer = some clustering →
    clustering.centroids.length = width
  length_clusterSize : ∀ layer clustering sizes, layers layer = some clustering →
    clustering.clusterSize = some sizes → sizes.length = width

/-- The staging buffers, indexed by slot and layer. -/
structure Staging (C S : Type*) where
  width : ℕ
  centroids : ℕ → ℕ → List C
  clusterSize : ℕ → ℕ → List S
  length_centroids : ∀ slot layer, (centroids slot layer).length = width
  length_clusterSize : ∀ slot layer, (clusterSize slot layer).length = width

/-- A row of the batch; `key` is the request id under which its metadata is stored. -/
structure SearchRow (Key : Type*) where
  key : Key
  isLong : Bool
  numTokens : ℕ

/-- What the search of one decode step reads. An absent or empty staging buffer is `none`. -/
structure SearchStep (Key C S : Type*) where
  rows : List (SearchRow Key)
  isPdDisaggregated : Bool
  metadata : Key → Option (RequestMeta C S)
  staging : Option (Staging C S)
  slotByReq : Key → Option ℕ

/-- The persistent batch buffers, allocated together with one row per long request. -/
structure Buffers (C S : Type*) where
  maxLong : ℕ
  width : ℕ
  width_pos : 0 < width
  centroids : ℕ → ℕ → C
  clusterSize : ℕ → ℕ → S

/-- Centroids and cluster sizes of one request and layer. -/
abbrev Matrices (C S : Type*) := List C × List S

/-! ## The pre-filter -/

inductive RowKind (C S : Type*) where
  | skip
  | dummy
  | search (request : RequestMeta C S)

/-- A request that is searched, with its row of the batch. -/
structure LongReq (Key C S : Type*) where
  reqIdx : ℕ
  key : Key
  request : RequestMeta C S

variable {S C : Type*} {Key : Type*}

section Prefilter

variable (step : SearchStep Key C S)

/-- The loop body of `_build_prefilter`: the first layer stands for all of them. -/
def classify (row : SearchRow Key) : RowKind C S :=
  let layer0 := (step.metadata row.key).bind fun request ↦ request.layers 0
  let skipped := if step.isPdDisaggregated then !row.isLong else layer0.isNone
  if skipped then .skip
  else if row.numTokens ≠ 1 then .skip
  else match step.metadata row.key, layer0 with
    | some request, some clustering => if clustering.centroids.isEmpty then .dummy else .search request
    | _, _ => .dummy

def longReq (entry : SearchRow Key × ℕ) : Option (LongReq Key C S) :=
  match classify step entry.1 with
  | .search request => some ⟨entry.2, entry.1.key, request⟩
  | _ => none

/-- The requests that are searched, in batch order. -/
def longReqs : List (LongReq Key C S) :=
  step.rows.zipIdx.filterMap (longReq step)

/-- Staging is used only when every searched request has a slot. -/
def useStagingBatch : Bool :=
  step.staging.isSome && (longReqs step).all fun req ↦ (step.slotByReq req.key).isSome

def maxNcPrestack : ℕ :=
  (longReqs step).foldr (fun req widest ↦ max req.request.width widest) 0

end Prefilter

/-! ## Filling the buffers -/

section Search

variable [Zero C] [Zero S]

/-- Copy a row into the leading columns of a wider one. -/
def overlay {α : Type*} (source : List α) (cells : ℕ → α) : ℕ → α := fun column ↦
  (source[column]?).getD (cells column)

/-- Copy the matrices of one request into a buffer row, keeping the columns behind them; `none` is the
index error of a missing row or the shape error of a matrix that is too wide. -/
def writeRow (buffers : Buffers C S) (row : ℕ) (matrices : Matrices C S) : Option (Buffers C S) :=
  if buffers.maxLong ≤ row ∨ buffers.width < matrices.1.length ∨ buffers.width < matrices.2.length then none
  else some
    { buffers with
      centroids := update buffers.centroids row (overlay matrices.1 (buffers.centroids row))
      clusterSize := update buffers.clusterSize row (overlay matrices.2 (buffers.clusterSize row)) }

def fillRows (buffers : Buffers C S) (row : ℕ) : List (Matrices C S) → Option (Buffers C S)
  | [] => some buffers
  | matrices :: rest => (writeRow buffers row matrices).bind fun written ↦ fillRows written (row + 1) rest

def readRows (buffers : Buffers C S) (count : ℕ) : List (Matrices C S) :=
  (range count).map fun row ↦
    ((range buffers.width).map (buffers.centroids row),
      (range buffers.width).map (buffers.clusterSize row))

/-- Stack matrices; `none` is the shape error of different widths. -/
def stack (rows : List (Matrices C S)) : Option (List (Matrices C S)) :=
  if rows.all fun row ↦ row.1.length == (rows.head?.elim 0 (·.1.length)) then some rows else none

/-- The matrices of a request at one layer. A layer without metadata is filled with zeros. -/
def layerMatrices (request : RequestMeta C S) (layer fillWidth : ℕ) : Matrices C S :=
  match request.layers layer with
  | some clustering => (clustering.centroids, clustering.sizes)
  | none => (replicate fillWidth 0, replicate fillWidth 0)

def padTo (width : ℕ) (matrices : Matrices C S) : Matrices C S :=
  (matrices.1 ++ replicate (width - matrices.1.length) 0,
    matrices.2 ++ replicate (width - matrices.2.length) 0)

variable (step : SearchStep Key C S)

/-- `_restack_per_layer`: with buffers the matrices are copied into them and empty stacks, `none`, are
returned; otherwise they are padded and stacked. The zero slice of a missing layer has head dimension
one and cannot be stacked. -/
def restackPerLayer (layer : ℕ) (buffers : Option (Buffers C S)) :
    Option (Option (List (Matrices C S)) × Option (Buffers C S)) :=
  match buffers with
  | some buffers =>
    (fillRows buffers 0 ((longReqs step).map fun req ↦
      layerMatrices req.request layer buffers.width)).map fun filled ↦ (none, some filled)
  | none =>
    if (longReqs step).all fun req ↦ (req.request.layers layer).isSome then
      (stack ((longReqs step).map fun req ↦
        padTo (maxNcPrestack step) (layerMatrices req.request layer 0))).map fun rows ↦ (some rows, none)
    else none

/-- The slices indexed by staging slot, or the stacked ones. -/
def slices (layer : ℕ) (prestacked : Option (List (Matrices C S))) : Option (List (Matrices C S)) :=
  match step.staging with
  | some staging =>
    if useStagingBatch step then
      some ((longReqs step).map fun req ↦
        let slot := (step.slotByReq req.key).getD 0
        (staging.centroids slot layer, staging.clusterSize slot layer))
    else prestacked
  | none => prestacked

/-- The buffers are used when they have a row for every searched request. -/
def usePersistent (buffers : Option (Buffers C S)) : Option (Buffers C S) :=
  buffers.filter fun buffers ↦ (longReqs step).length ≤ buffers.maxLong

/-- The part of `perform_similarity_search` that assembles the scored matrices: empty stacks are taken
for buffers that the caller has filled. -/
def performSimilaritySearch (layer : ℕ) (prestacked : Option (List (Matrices C S)))
    (buffers : Option (Buffers C S)) : Option (List (Matrices C S) × Option (Buffers C S)) :=
  let numLong := (longReqs step).length
  match usePersistent step buffers with
  | some persistent =>
    if prestacked.isNone then some (readRows persistent numLong, some persistent)
    else (slices step layer prestacked).bind fun rows ↦
      (fillRows persistent 0 rows).map fun filled ↦ (readRows filled numLong, some filled)
  | none => (slices step layer prestacked).bind fun rows ↦
      (stack rows).map fun stacked ↦ (stacked, buffers)

/-- The matrices scored by `_perform_cpp` for the searched requests of a step at one layer. Without
staging an empty batch fails in the pre-filter, which takes the maximum of no widths. -/
def performCpp (layer : ℕ) (buffers : Option (Buffers C S)) :
    Option (List (Matrices C S) × Option (Buffers C S)) :=
  if (longReqs step).isEmpty then (if useStagingBatch step then some ([], buffers) else none)
  else if useStagingBatch step then performSimilaritySearch step layer none buffers
  else (restackPerLayer step layer buffers).bind fun result ↦
    performSimilaritySearch step layer result.1 result.2

end Search

/-! ## Rows of the batch and rows of the buffers -/

variable {step : SearchStep Key C S} {rows : List (Matrices C S)} {buffers filled : Buffers C S}

section Buffers

variable {row : ℕ}

theorem take_overlay {α : Type*} {source : List α} {width count : ℕ} (cells : ℕ → α)
    (hcount : count ≤ source.length) (hwidth : source.length ≤ width) :
    ((range width).map (overlay source cells)).take count = source.take count := by
  apply ext_getElem
  · simp only [length_take, length_map, length_range]
    omega
  · intro column _ hright
    have hcol : column < source.length := by
      rw [length_take] at hright
      omega
    simp [overlay, getElem?_eq_getElem hcol]

/-- Matrices that fit into the buffer row `row + index` of their position. -/
def Fits (buffers : Buffers C S) (row : ℕ) (rows : List (Matrices C S)) : Prop :=
  row + rows.length ≤ buffers.maxLong ∧
    ∀ matrices ∈ rows, matrices.1.length ≤ buffers.width ∧ matrices.2.length ≤ buffers.width

/-- What filling rows leaves in the buffers. -/
structure Filled (buffers filled : Buffers C S) (row : ℕ) (rows : List (Matrices C S)) : Prop where
  maxLong : filled.maxLong = buffers.maxLong
  width : filled.width = buffers.width
  before : ∀ other < row, filled.centroids other = buffers.centroids other ∧
    filled.clusterSize other = buffers.clusterSize other
  written : ∀ index matrices, rows[index]? = some matrices →
    filled.centroids (row + index) = overlay matrices.1 (buffers.centroids (row + index)) ∧
      filled.clusterSize (row + index) = overlay matrices.2 (buffers.clusterSize (row + index))

theorem writeRow_eq_none_iff {matrices : Matrices C S} :
    writeRow buffers row matrices = none ↔
      ¬ (row < buffers.maxLong ∧ matrices.1.length ≤ buffers.width ∧ matrices.2.length ≤ buffers.width) := by
  unfold writeRow
  split <;> simp <;> omega

theorem fillRows_eq_none_of_not_fits (hrows : rows ≠ []) (hfits : ¬ Fits buffers row rows) :
    fillRows buffers row rows = none := by
  induction rows generalizing buffers row with
  | nil => exact absurd rfl hrows
  | cons matrices rest ih =>
    unfold fillRows
    cases hwrite : writeRow buffers row matrices with
    | none => rfl
    | some written =>
      have hhead : row < buffers.maxLong ∧ matrices.1.length ≤ buffers.width ∧
          matrices.2.length ≤ buffers.width := by
        by_contra hnot
        rw [writeRow_eq_none_iff.2 hnot] at hwrite
        cases hwrite
      have hshape : written.maxLong = buffers.maxLong ∧ written.width = buffers.width := by
        unfold writeRow at hwrite
        split at hwrite
        · cases hwrite
        · rw [← Option.some.inj hwrite]
          exact ⟨rfl, rfl⟩
      by_cases hrest : rest = []
      · subst rest
        exact absurd ⟨Nat.succ_le_of_lt hhead.1, by simpa using hhead.2⟩ hfits
      · apply ih hrest
        rintro ⟨hroom, hwidths⟩
        rw [hshape.2] at hwidths
        apply hfits
        refine ⟨by rw [length_cons]; omega, ?_⟩
        exact forall_mem_cons.2 ⟨hhead.2, hwidths⟩

theorem fillRows_of_fits (hfits : Fits buffers row rows) :
    ∃ filled, fillRows buffers row rows = some filled ∧ Filled buffers filled row rows := by
  induction rows generalizing buffers row with
  | nil => exact ⟨buffers, rfl, ⟨rfl, rfl, fun _ _ ↦ ⟨rfl, rfl⟩, by simp⟩⟩
  | cons matrices rest ih =>
    obtain ⟨hroom, hwidths⟩ := hfits
    obtain ⟨hhead, hrest⟩ := forall_mem_cons.1 hwidths
    rw [length_cons] at hroom
    have hwrite : ¬ (buffers.maxLong ≤ row ∨ buffers.width < matrices.1.length ∨
        buffers.width < matrices.2.length) := by omega
    let written : Buffers C S :=
      { buffers with
        centroids := update buffers.centroids row (overlay matrices.1 (buffers.centroids row))
        clusterSize := update buffers.clusterSize row (overlay matrices.2 (buffers.clusterSize row)) }
    have hnext : Fits written (row + 1) rest := by
      refine ⟨?_, hrest⟩
      change row + 1 + rest.length ≤ buffers.maxLong
      omega
    obtain ⟨filled, hfill, hfilled⟩ := ih hnext
    refine ⟨filled, ?_, hfilled.maxLong, hfilled.width, ?_, ?_⟩
    · rw [fillRows, writeRow, if_neg hwrite]
      exact hfill
    · intro other hother
      obtain ⟨hcent, hsizes⟩ := hfilled.before other (by omega)
      rw [hcent, hsizes]
      exact ⟨update_of_ne hother.ne _ _, update_of_ne hother.ne _ _⟩
    · intro index entry hentry
      cases index with
      | zero =>
        obtain rfl : matrices = entry := by simpa using hentry
        obtain ⟨hcent, hsizes⟩ := hfilled.before row (by omega)
        rw [Nat.add_zero, hcent, hsizes]
        exact ⟨update_self _ _ _, update_self _ _ _⟩
      | succ index =>
        obtain ⟨hcent, hsizes⟩ := hfilled.written index entry (by simpa using hentry)
        have hidx : row + (index + 1) = row + 1 + index := by omega
        have hne : row + 1 + index ≠ row := by omega
        rw [hidx, hcent, hsizes]
        simp [written, update_of_ne hne]

end Buffers

/-! ## Whose matrices are scored -/

section Own

variable [Zero C] [Zero S] {req : LongReq Key C S} {own : Matrices C S}

/-- The matrices of a request at a layer: the slice of its slot on the staging path and its metadata
otherwise. -/
def ownMatrices (step : SearchStep Key C S) (layer : ℕ) (req : LongReq Key C S) : Option (Matrices C S) :=
  if useStagingBatch step then
    step.staging.bind fun staging ↦ (step.slotByReq req.key).map fun slot ↦
      (staging.centroids slot layer, staging.clusterSize slot layer)
  else (req.request.layers layer).map fun clustering ↦ (clustering.centroids, clustering.sizes)

/-- Two matrices agree on the columns of the request that are not masked as padding. -/
def SameColumns (req : LongReq Key C S) (first second : Matrices C S) : Prop :=
  first.1.take req.request.nCentroids = second.1.take req.request.nCentroids ∧
    first.2.take req.request.nCentroids = second.2.take req.request.nCentroids

/-- The search at a layer scores every searched request against its own matrices. -/
def ScoresOwn (step : SearchStep Key C S) (layer : ℕ) (buffers : Option (Buffers C S)) : Prop :=
  ∀ (index : ℕ) req, (longReqs step)[index]? = some req → ∀ own, ownMatrices step layer req = some own →
    ∃ scored result matrices, performCpp step layer buffers = some (scored, result) ∧
      scored[index]? = some matrices ∧ SameColumns req matrices own

/-- Number of rows and width of the persistent buffers. -/
def shape (buffers : Option (Buffers C S)) : Option (ℕ × ℕ) :=
  buffers.map fun buffers ↦ (buffers.maxLong, buffers.width)

/-- The condition on a step and the size of the buffers: with staging the buffers are too small to be
used, and otherwise they have room for all requests. -/
def BuffersSuit (step : SearchStep Key C S) (size : Option (ℕ × ℕ)) : Prop :=
  match size with
  | none => True
  | some (maxLong, width) =>
    longReqs step = [] ∨
      if useStagingBatch step then maxLong < (longReqs step).length
      else (longReqs step).length ≤ maxLong ∧ ∀ req ∈ longReqs step, req.request.width ≤ width

/-- Every searched request has been clustered at the layer. -/
def HasLayer (step : SearchStep Key C S) (layer : ℕ) : Prop :=
  ∀ req ∈ longReqs step, (req.request.layers layer).isSome

variable {layer : ℕ}

omit [Zero C] in
theorem LayerMeta.length_sizes {clustering : LayerMeta C S}
    (hlayer : req.request.layers layer = some clustering) :
    clustering.sizes.length = req.request.width := by
  have hcent := req.request.length_centroids layer clustering hlayer
  unfold sizes
  cases hsizes : clustering.clusterSize with
  | none => simp [hcent]
  | some sizes => exact req.request.length_clusterSize layer clustering sizes hlayer hsizes

theorem layerMatrices_eq (hstaging : useStagingBatch step = false)
    (hown : ownMatrices step layer req = some own) (fillWidth : ℕ) :
    layerMatrices req.request layer fillWidth = own ∧ own.1.length = req.request.width ∧
      own.2.length = req.request.width := by
  simp only [ownMatrices, hstaging, Bool.false_eq_true, if_false] at hown
  obtain ⟨clustering, hlayer, rfl⟩ := Option.map_eq_some_iff.1 hown
  simp only [layerMatrices, hlayer, true_and]
  exact ⟨req.request.length_centroids layer clustering hlayer, LayerMeta.length_sizes hlayer⟩

section

omit [Zero C] [Zero S]

theorem le_maxNcPrestack (hreq : req ∈ longReqs step) : req.request.width ≤ maxNcPrestack step := by
  unfold maxNcPrestack
  generalize longReqs step = reqs at hreq ⊢
  induction reqs with
  | nil => exact absurd hreq not_mem_nil
  | cons first rest ih =>
    rcases mem_cons.1 hreq with rfl | hrest
    · exact le_max_left _ _
    · exact (ih hrest).trans (le_max_right _ _)

theorem stack_eq_some (width : ℕ) (hrows : ∀ matrices ∈ rows, matrices.1.length = width) :
    stack rows = some rows := by
  unfold stack
  rw [if_pos]
  cases rows with
  | nil => rfl
  | cons first rest =>
    rw [all_eq_true]
    intro matrices hmatrices
    rw [hrows matrices hmatrices, head?_cons, Option.elim_some, hrows first mem_cons_self]
    exact beq_self_eq_true width

theorem getElem_readRows (buffers : Buffers C S) {row count : ℕ} (hrow : row < count) :
    (readRows buffers count)[row]? = some ((range buffers.width).map (buffers.centroids row),
      (range buffers.width).map (buffers.clusterSize row)) := by
  rw [readRows, getElem?_map, getElem?_range hrow, Option.map_some]

theorem sameColumns_of_filled {index : ℕ} (hfilled : Filled buffers filled 0 rows)
    (hown : rows[index]? = some own) (hfirst : own.1.length = req.request.width)
    (hsecond : own.2.length = req.request.width) (hwidth : req.request.width ≤ buffers.width) :
    SameColumns req ((range filled.width).map (filled.centroids index),
      (range filled.width).map (filled.clusterSize index)) own := by
  obtain ⟨hcent, hsizes⟩ := hfilled.written index own hown
  have hcount := req.request.nCentroids_le
  rw [zero_add] at hcent hsizes
  rw [hcent, hsizes, hfilled.width]
  exact ⟨take_overlay _ (by omega) (by omega), take_overlay _ (by omega) (by omega)⟩

/-! ### The staging path -/

theorem usePersistent_eq (step : SearchStep Key C S) (buffers : Buffers C S) :
    usePersistent step (some buffers) =
      if (longReqs step).length ≤ buffers.maxLong then some buffers else none := by
  simp [usePersistent, Option.filter]

theorem slices_of_staging (layer : ℕ) (hstaging : useStagingBatch step = true) :
    ∃ staging, step.staging = some staging ∧ ∀ prestacked, slices step layer prestacked =
      some ((longReqs step).map fun req ↦ (staging.centroids ((step.slotByReq req.key).getD 0) layer,
        staging.clusterSize ((step.slotByReq req.key).getD 0) layer)) := by
  cases hsome : step.staging with
  | none => simp [useStagingBatch, hsome] at hstaging
  | some staging =>
    simp [slices, hsome, hstaging]

end

omit [Zero C] in
theorem ownMatrices_of_staging (layer : ℕ) (hstaging : useStagingBatch step = true) {staging : Staging C S}
    (hsome : step.staging = some staging) (hreq : req ∈ longReqs step) :
    ownMatrices step layer req =
      some (staging.centroids ((step.slotByReq req.key).getD 0) layer,
        staging.clusterSize ((step.slotByReq req.key).getD 0) layer) := by
  have hslots : ∀ other ∈ longReqs step, (step.slotByReq other.key).isSome = true := by
    have hall := hstaging
    rw [useStagingBatch, Bool.and_eq_true] at hall
    exact all_eq_true.1 hall.2
  obtain ⟨_, hslot⟩ := Option.isSome_iff_exists.1 (hslots req hreq)
  simp [ownMatrices, hstaging, hsome, hslot]

theorem scoresOwn_of_staging (hstaging : useStagingBatch step = true) {buffers : Option (Buffers C S)}
    (hunused : usePersistent step buffers = none) : ScoresOwn step layer buffers := by
  intro index req hreq own hown
  have hmem := mem_of_getElem? hreq
  have hne : (longReqs step).isEmpty = false := by
    rw [isEmpty_eq_false_iff]
    exact ne_nil_of_mem hmem
  obtain ⟨staging, hsome, hslices⟩ := slices_of_staging layer hstaging
  rw [ownMatrices_of_staging layer hstaging hsome hmem] at hown
  refine ⟨(longReqs step).map fun req ↦ (staging.centroids ((step.slotByReq req.key).getD 0) layer,
    staging.clusterSize ((step.slotByReq req.key).getD 0) layer), buffers, own, ?_, ?_, rfl, rfl⟩
  · simp only [performCpp, hne, Bool.false_eq_true, if_false, hstaging, if_true,
      performSimilaritySearch, hunused, hslices, Option.bind_some]
    rw [stack_eq_some _, Option.map_some]
    intro matrices hmatrices
    obtain ⟨_, _, rfl⟩ := mem_map.1 hmatrices
    exact staging.length_centroids _ _
  · rw [getElem?_map, hreq]
    exact hown

theorem not_scoresOwn_of_persistent [Nontrivial C] (layer : ℕ) (hstaging : useStagingBatch step = true)
    (hsome : longReqs step ≠ []) (hroom : (longReqs step).length ≤ buffers.maxLong) :
    ∃ contents, shape (some contents) = shape (some buffers) ∧ ¬ ScoresOwn step layer (some contents) := by
  obtain ⟨req, _, hreqs⟩ := exists_cons_of_ne_nil hsome
  have hreq : (longReqs step)[0]? = some req := by rw [hreqs, getElem?_cons_zero]
  obtain ⟨staging, hstage, -⟩ := slices_of_staging layer hstaging
  have hown := ownMatrices_of_staging layer hstaging hstage (mem_of_getElem? hreq)
  obtain ⟨own, hslice⟩ : ∃ own, own = staging.centroids ((step.slotByReq req.key).getD 0) layer := ⟨_, rfl⟩
  obtain ⟨stale, hstale⟩ := exists_ne (own.headD 0)
  refine ⟨{ buffers with centroids := fun _ _ ↦ stale }, rfl, fun hscores ↦ ?_⟩
  obtain ⟨_, _, _, hperform, hidx, hsame, -⟩ := hscores 0 req hreq _ hown
  have hne : (longReqs step).isEmpty = false := by simpa using hsome
  simp only [performCpp, hne, Bool.false_eq_true, if_false, hstaging, if_true, performSimilaritySearch,
    usePersistent_eq, if_pos hroom, Option.isNone_none, Option.some.injEq, Prod.mk.injEq] at hperform
  rw [← hperform.1, getElem_readRows _ (by rw [hreqs]; exact Nat.succ_pos _), Option.some.injEq] at hidx
  -- The first column is never masked.
  have hpos := req.request.nCentroids_pos
  have hwidth := buffers.width_pos
  rw [← hidx, ← hslice] at hsame
  have hhead := congrArg (fun columns ↦ columns.headD 0) hsame
  obtain ⟨count, hcount⟩ : ∃ count, req.request.nCentroids = count + 1 :=
    ⟨_, (Nat.succ_pred_eq_of_pos hpos).symm⟩
  obtain ⟨width, hbuffer⟩ : ∃ width, buffers.width = width + 1 := ⟨_, (Nat.succ_pred_eq_of_pos hwidth).symm⟩
  cases own with
  | nil => simp [hcount, hbuffer, range_succ_eq_map] at hsame
  | cons first columns =>
    simp [hcount, hbuffer, range_succ_eq_map] at hhead
    exact hstale (by simpa using hhead)

/-! ### The stacked and the pre-filled path -/

/-- The rows that the caller copies into the buffers. -/
def layerRows (step : SearchStep Key C S) (layer fillWidth : ℕ) : List (Matrices C S) :=
  (longReqs step).map fun req ↦ layerMatrices req.request layer fillWidth

theorem length_layerMatrices (hlayer : HasLayer step layer) (hreq : req ∈ longReqs step) (fillWidth : ℕ) :
    (layerMatrices req.request layer fillWidth).1.length = req.request.width ∧
      (layerMatrices req.request layer fillWidth).2.length = req.request.width := by
  obtain ⟨clustering, hsome⟩ := Option.isSome_iff_exists.1 (hlayer req hreq)
  simp only [layerMatrices, hsome]
  exact ⟨req.request.length_centroids layer clustering hsome, LayerMeta.length_sizes hsome⟩

theorem fits_layerRows_iff (hlayer : HasLayer step layer) (buffers : Buffers C S) (fillWidth : ℕ) :
    Fits buffers 0 (layerRows step layer fillWidth) ↔ (longReqs step).length ≤ buffers.maxLong ∧
      ∀ req ∈ longReqs step, req.request.width ≤ buffers.width := by
  unfold Fits layerRows
  rw [length_map, zero_add, forall_mem_map]
  apply and_congr_right
  intro _
  apply forall₂_congr
  intro req hreq
  rw [(length_layerMatrices hlayer hreq fillWidth).1, (length_layerMatrices hlayer hreq fillWidth).2,
    and_self]

section

variable (hstaging : useStagingBatch step = false)
include hstaging

theorem performCpp_of_restack (hsome : longReqs step ≠ []) (buffers : Option (Buffers C S)) :
    performCpp step layer buffers = (restackPerLayer step layer buffers).bind fun result ↦
      performSimilaritySearch step layer result.1 result.2 := by
  have hne : (longReqs step).isEmpty = false := by simpa using hsome
  simp [performCpp, hne, Bool.false_eq_true, hstaging]

variable (hlayer : HasLayer step layer)
include hlayer

/-- Buffers with room for all requests are filled by the caller and read as they are. -/
theorem scoresOwn_of_prefilled (hroom : (longReqs step).length ≤ buffers.maxLong)
    (hwidth : ∀ req ∈ longReqs step, req.request.width ≤ buffers.width) :
    ScoresOwn step layer (some buffers) := by
  intro index req hreq own hown
  have hmem := mem_of_getElem? hreq
  obtain ⟨filled, hfill, hfilled⟩ :=
    fillRows_of_fits ((fits_layerRows_iff hlayer buffers _).2 ⟨hroom, hwidth⟩)
  obtain ⟨hmatrices, hfirst, hsecond⟩ := layerMatrices_eq hstaging hown _
  have hrow : (layerRows step layer buffers.width)[index]? = some own := by
    rw [layerRows, getElem?_map, hreq, Option.map_some, hmatrices]
  have hidx := (List.getElem?_eq_some_iff.1 hreq).1
  refine ⟨readRows filled _, some filled, _, ?_, getElem_readRows filled hidx,
    sameColumns_of_filled hfilled hrow hfirst hsecond (hwidth req hmem)⟩
  rw [performCpp_of_restack hstaging (ne_nil_of_mem hmem)]
  change fillRows buffers 0 ((longReqs step).map fun req ↦
    layerMatrices req.request layer buffers.width) = some filled at hfill
  simp only [restackPerLayer, hfill, Option.map_some, Option.bind_some, performSimilaritySearch,
    usePersistent_eq, hfilled.maxLong, if_pos hroom, Option.isNone_none, if_true]

theorem not_scoresOwn_of_not_fits (hsome : longReqs step ≠ [])
    (hfits : ¬ ((longReqs step).length ≤ buffers.maxLong ∧
      ∀ req ∈ longReqs step, req.request.width ≤ buffers.width)) :
    ¬ ScoresOwn step layer (some buffers) := by
  intro hscores
  obtain ⟨req, _, hreqs⟩ := exists_cons_of_ne_nil hsome
  have hreq : (longReqs step)[0]? = some req := by rw [hreqs, getElem?_cons_zero]
  obtain ⟨clustering, hclustering⟩ := Option.isSome_iff_exists.1 (hlayer req (mem_of_getElem? hreq))
  have hown : ownMatrices step layer req = some (clustering.centroids, clustering.sizes) := by
    simp [ownMatrices, hstaging, Bool.false_eq_true, hclustering, Option.map_some]
  obtain ⟨_, _, _, hperform, -⟩ := hscores 0 req hreq _ hown
  have hrows : layerRows step layer buffers.width ≠ [] := by
    simpa [layerRows] using hsome
  have hfill := fillRows_eq_none_of_not_fits hrows (mt (fits_layerRows_iff hlayer buffers _).1 hfits)
  change fillRows buffers 0 ((longReqs step).map fun req ↦
    layerMatrices req.request layer buffers.width) = none at hfill
  rw [performCpp_of_restack hstaging hsome] at hperform
  simp [restackPerLayer, hfill] at hperform

end

theorem sameColumns_padTo (hfirst : own.1.length = req.request.width)
    (hsecond : own.2.length = req.request.width) (width : ℕ) : SameColumns req (padTo width own) own := by
  have hcount := req.request.nCentroids_le
  exact ⟨take_append_of_le_length (by omega), take_append_of_le_length (by omega)⟩

theorem scoresOwn_of_stacked (hstaging : useStagingBatch step = false) (hlayer : HasLayer step layer) :
    ScoresOwn step layer none := by
  intro index req hreq own hown
  have hmem := mem_of_getElem? hreq
  obtain ⟨hmatrices, hfirst, hsecond⟩ := layerMatrices_eq hstaging hown 0
  let rows := (longReqs step).map fun req ↦ padTo (maxNcPrestack step) (layerMatrices req.request layer 0)
  have hstack : stack rows = some rows := by
    apply stack_eq_some (maxNcPrestack step)
    intro matrices hrow
    obtain ⟨_, hother, rfl⟩ := mem_map.1 hrow
    have hwidth := (length_layerMatrices hlayer hother 0).1
    have hle := le_maxNcPrestack hother
    simp only [padTo, length_append, length_replicate]
    omega
  have hall := all_eq_true.2 hlayer
  have hslices : slices step layer (some rows) = some rows := by
    unfold slices
    cases step.staging with
    | none => rfl
    | some staging => simp [hstaging]
  refine ⟨rows, none, padTo (maxNcPrestack step) own, ?_, ?_, sameColumns_padTo hfirst hsecond _⟩
  · rw [performCpp_of_restack hstaging (ne_nil_of_mem hmem)]
    simp only [restackPerLayer, hall, if_true, rows, hstack, Option.map_some, Option.bind_some,
      performSimilaritySearch]
    exact (congrArg (Option.bind · _) hslices).trans (by
      rw [Option.bind_some, hstack, Option.map_some])
  · simp [rows, getElem?_map, hreq, hmatrices]

theorem scoresOwn_of_buffersSuit (hlayer : HasLayer step layer) {buffers : Option (Buffers C S)}
    (hsuit : BuffersSuit step (shape buffers)) : ScoresOwn step layer buffers := by
  cases buffers with
  | none =>
    cases hstaging : useStagingBatch step with
    | false => exact scoresOwn_of_stacked hstaging hlayer
    | true => exact scoresOwn_of_staging hstaging rfl
  | some buffers =>
    rcases hsuit with hnone | hsuit
    · intro index req hreq
      rw [hnone] at hreq
      cases hreq
    · cases hstaging : useStagingBatch step with
      | true =>
        simp only [hstaging, if_true] at hsuit
        apply scoresOwn_of_staging hstaging
        rw [usePersistent_eq, if_neg (not_le.2 hsuit)]
      | false =>
        simp only [hstaging, Bool.false_eq_true, if_false] at hsuit
        exact scoresOwn_of_prefilled hstaging hlayer hsuit.1 hsuit.2

/-- At every layer of every step, and whatever the persistent buffers held before, all searched
requests are scored against their own matrices exactly when the size of the buffers suits the step. -/
theorem scoresOwn_iff [Nontrivial C] (hlayer : HasLayer step layer) (buffers : Option (Buffers C S)) :
    (∀ contents, shape contents = shape buffers → ScoresOwn step layer contents) ↔
      BuffersSuit step (shape buffers) := by
  constructor
  · intro hscores
    cases buffers with
    | none => exact trivial
    | some buffers =>
      by_cases hnone : longReqs step = []
      · exact .inl hnone
      · refine .inr ?_
        cases hstaging : useStagingBatch step with
        | true =>
          by_contra hroom
          obtain ⟨contents, hshape, hnot⟩ := not_scoresOwn_of_persistent layer hstaging hnone (not_lt.1 hroom)
          exact hnot (hscores _ hshape)
        | false =>
          by_contra hfits
          exact not_scoresOwn_of_not_fits hstaging hlayer hnone hfits (hscores _ rfl)
  · intro hsuit contents hshape
    rw [← hshape] at hsuit
    exact scoresOwn_of_buffersSuit hlayer hsuit

end Own

/-! ## Two requests with and without staging slots -/

/-- The clustering of a request with one centroid more than its key. -/
def clustering (key : ℕ) : RequestMeta ℕ ℕ where
  nCentroids := key + 1
  width := key + 1
  layers := fun layer ↦ some ⟨replicate (key + 1) (10 * layer + key), some (replicate (key + 1) key)⟩
  nCentroids_pos := key.succ_pos
  nCentroids_le := le_rfl
  length_centroids := by
    rintro layer clustering ⟨⟩
    exact length_replicate
  length_clusterSize := by
    rintro layer clustering sizes ⟨⟩ ⟨⟩
    exact length_replicate

def slotStaging : Staging ℕ ℕ where
  width := 3
  centroids := fun slot layer ↦ replicate 3 (10 * layer + slot)
  clusterSize := fun slot _ ↦ replicate 3 slot
  length_centroids := fun _ _ ↦ rfl
  length_clusterSize := fun _ _ ↦ rfl

/-- Two long requests decode one token each, with a short one between them. -/
def mixedStep (staging : Option (Staging ℕ ℕ)) : SearchStep ℕ ℕ ℕ where
  rows := [⟨0, true, 1⟩, ⟨1, false, 1⟩, ⟨2, true, 1⟩]
  isPdDisaggregated := true
  metadata := fun key ↦ some (clustering key)
  staging := staging
  slotByReq := some

/-- Buffers for four requests that nothing has been copied into. -/
def unfilledBuffers : Buffers ℕ ℕ where
  maxLong := 4
  width := 3
  width_pos := by decide
  centroids := fun _ _ ↦ 0
  clusterSize := fun _ _ ↦ 0

theorem longReqs_mixedStep (staging : Option (Staging ℕ ℕ)) :
    longReqs (mixedStep staging) = [⟨0, 0, clustering 0⟩, ⟨2, 2, clustering 2⟩] := rfl

theorem hasLayer_mixedStep (staging : Option (Staging ℕ ℕ)) : HasLayer (mixedStep staging) 3 := by
  simp [HasLayer, longReqs_mixedStep, clustering]

theorem scoresOwn_without_staging :
    BuffersSuit (mixedStep none) (shape (some unfilledBuffers)) ∧
      ∀ contents, shape contents = shape (some unfilledBuffers) → ScoresOwn (mixedStep none) 3 contents := by
  have hsuit : BuffersSuit (mixedStep none) (shape (some unfilledBuffers)) := by
    refine .inr ⟨by decide, ?_⟩
    simp [longReqs_mixedStep, clustering, unfilledBuffers]
  exact ⟨hsuit, (scoresOwn_iff (hasLayer_mixedStep none) _).2 hsuit⟩

/-- With staging slots the search scores what the buffers happen to hold. -/
theorem not_scoresOwn_with_staging : HasLayer (mixedStep (some slotStaging)) 3 ∧
    ¬ ∀ contents, shape contents = shape (some unfilledBuffers) →
      ScoresOwn (mixedStep (some slotStaging)) 3 contents := by
  refine ⟨hasLayer_mixedStep _, fun h ↦ ?_⟩
  obtain ⟨scored, result, matrices, hperform, hidx, hsame, -⟩ := h (some unfilledBuffers) rfl 0 _ rfl _ rfl
  have hzero : (performCpp (mixedStep (some slotStaging)) 3 (some unfilledBuffers)).map Prod.fst =
      some [([0, 0, 0], [0, 0, 0]), ([0, 0, 0], [0, 0, 0])] := by
    decide
  rw [hperform, Option.map_some, Option.some.injEq] at hzero
  dsimp only at hzero
  rw [hzero] at hidx
  cases hidx
  exact absurd hsame (by decide)

end Nelssa.Worker.Similarity
