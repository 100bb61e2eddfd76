import Nelssa.Foundation.LogSumExp
import Nelssa.Foundation.Runs
import Nelssa.Foundation.Scatter
import Nelssa.Worker.SlotMapping

/-!
# Merging the CPU attention of long requests

Queries of long requests are gathered at the first token of each request and answered by the remote
CPU attention. The answers are merged into the GPU attention output, a tensor with one row per token,
by one of three paths: a static merge padded to the maximal number of long requests, its replay from
a captured CUDA graph, and an eager merge under a mask. All three address the output by the rows of
the requests. The main theorem says for which batches and module states the merge reaches the tokens
whose queries were answered, and only those.

The weights are computed in exact arithmetic, each path with its own formula. A row for which neither
the GPU nor the CPU has a key becomes a row of NaN in the torch versions and stays as it is in the kernel.
-/

namespace Nelssa.Worker

open Foundation.LogSumExp Foundation.Runs Foundation.Scatter
open List hiding max lt_irrefl

/-! ## Batches with long requests -/

/-- A batch in which every request has at least one token; `numTokens` counts the rows of the
attention output, padding included. -/
structure LongBatch extends QueryBatch where
  nelssaLongMask : ℕ → Bool
  start_zero : queryStartLoc 0 = 0
  scheduled_pos : ∀ row < numReqs, queryStartLoc row < queryStartLoc (row + 1)

namespace LongBatch

section

variable (batch : LongBatch)

/-- Rows of the long requests, as `torch.nonzero` lists them. -/
def longIdx : List ℕ := (List.range batch.numReqs).filter batch.nelssaLongMask

def numLong : ℕ := batch.longIdx.length

def padCount (maxNumLong : ℕ) : ℕ := maxNumLong - batch.numLong

/-- Short rows that fill the unused slots. -/
def padIdx (maxNumLong : ℕ) : List ℕ :=
  ((List.range batch.numReqs).filter fun row ↦ !batch.nelssaLongMask row).take
    (batch.padCount maxNumLong)

def longIndicesStatic (maxNumLong : ℕ) : List ℕ :=
  batch.padIdx maxNumLong ++ batch.longIdx

/-- The slots that hold a CPU result. -/
def validMask (maxNumLong slot : ℕ) : Bool := batch.padCount maxNumLong ≤ slot

def IsLong (row : ℕ) : Prop :=
  row < batch.numReqs ∧ batch.nelssaLongMask row = true

end

instance (batch : LongBatch) (row : ℕ) : Decidable (batch.IsLong row) :=
  inferInstanceAs (Decidable (_ ∧ _))

end LongBatch

open LongBatch

/-! ## Tensors of one attention layer -/

abbrev Head (H D : ℕ) (R : Type*) := Fin H → Fin D → R

/-- The attention of one query and head over some of the tokens: output and normaliser, which is minus
infinity for no tokens. -/
abbrev Part (D : ℕ) (R : Type*) := (Fin D → R) × WithBot R

/-- The rows of an output by token and head; `none` is a row of NaN. -/
abbrev Rows (H D : ℕ) (R : Type*) := ℕ → Fin H → Option (Fin D → R)

/-- The GPU attention output with its normalisers. -/
structure GpuResult (H D : ℕ) (R : Type*) where
  out : ℕ → Head H D R
  lse : ℕ → Fin H → WithBot R

/-- The CPU attention of one query; an empty selection of clusters has normaliser minus infinity. -/
structure CpuResult (H D : ℕ) (R : Type*) where
  out : Head H D R
  lse : Fin H → WithBot R

variable {R : Type*} {H D : ℕ}

namespace GpuResult

variable (gpu : GpuResult H D R)

def rows : Rows H D R := fun row head ↦ some (gpu.out row head)

def part (row : ℕ) (head : Fin H) : Part D R := (gpu.out row head, gpu.lse row head)

/-- Every query attends to its own key. -/
def Finite : Prop := ∀ row head, gpu.lse row head ≠ ⊥

end GpuResult

def CpuResult.part (cpu : CpuResult H D R) (head : Fin H) : Part D R := (cpu.out head, cpu.lse head)

section

variable (batch : LongBatch) (queryStates : ℕ → Head H D R)

/-- What `_schedule_remote_attention` gathers: the query at the first token of every long request. -/
def gatherQueries : List (ℕ × Head H D R) :=
  batch.longIdx.map fun row ↦ (row, queryStates (batch.queryStartLoc row))

/-- The answers of the remote attention, in the order of the queries. -/
def cpuAttention (remote : ℕ → Head H D R → CpuResult H D R) : List (CpuResult H D R) :=
  (gatherQueries batch queryStates).map fun query ↦ remote query.1 query.2

end

/-- The order in which the blocks of a merge kernel run, one block per slot and head. -/
structure LaunchOrder (slots H : ℕ) where
  blocks : List (ℕ × Fin H)
  perm : blocks.Perm (List.range slots ×ˢ List.finRange H)

/-! ## The merge paths -/

section Paths

variable [Field R] [LinearOrder R] (arith : ExpArithmetic R)

/-- The two weights as `merge_lse_kernel` computes them. A sum that is NaN is not positive. -/
def kernelWeights (gpuLse cpuLse : WithBot R) : R × R :=
  let mx := max gpuLse cpuLse
  match arith.expSub gpuLse mx, arith.expSub cpuLse mx with
  | some gpuExp, some cpuExp =>
    let s := gpuExp + cpuExp
    (if 0 < s then gpuExp / s else 1, if 0 < s then cpuExp / s else 0)
  | _, _ => (1, 0)

/-- The two weights as the torch operations compute them. -/
def torchWeights (gpuLse cpuLse : WithBot R) : Option (R × R) :=
  let globalLse := arith.logSumExp gpuLse cpuLse
  do return (← arith.expSub gpuLse globalLse, ← arith.expSub cpuLse globalLse)

/-- The normaliser of a slot; unused slots count as empty. -/
def effectiveLse (pad : ℕ → CpuResult H D R) (valid : ℕ → Bool) (slot : ℕ) (head : Fin H) : WithBot R :=
  if valid slot then (pad slot).lse head else ⊥

section

variable (gpu : GpuResult H D R) (pad : ℕ → CpuResult H D R) (indices : List ℕ) (valid : ℕ → Bool)

/-- The fused kernel, which updates the output in place. -/
def mergeLse (order : LaunchOrder indices.length H) : Rows H D R :=
  Function.curry (scatter (fun block : ℕ × Fin H ↦ (indices.getD block.1 0, block.2))
    (fun block row ↦
      let weights := kernelWeights arith (gpu.lse (indices.getD block.1 0) block.2)
        (effectiveLse pad valid block.1 block.2)
      row.map fun out dim ↦ out dim * weights.1 + (pad block.1).out block.2 dim * weights.2)
    (Function.uncurry gpu.rows) order.blocks)

/-- The torch fallback of the static merge: select the rows, merge them and copy them back. -/
def mergeWithMaskStaticTorch : Rows H D R :=
  scatter (fun slot ↦ indices.getD slot 0)
    (fun slot _ head ↦
      let row := indices.getD slot 0
      (torchWeights arith (gpu.lse row head) (effectiveLse pad valid slot head)).map fun weights dim ↦
        gpu.out row head dim * weights.1 + (pad slot).out head dim * weights.2)
    gpu.rows (List.range indices.length)

end

/-- The eager merge. The mask has one entry per request and is viewed with one entry per output row:
`none` is the shape error when these differ. -/
def mergeWithMask (batch : LongBatch) (gpu : GpuResult H D R) (results : List (CpuResult H D R)) :
    Option (Rows H D R) :=
  if batch.numReqs ≠ batch.numTokens then none
  else some (scatter (fun result : ℕ × CpuResult H D R ↦ result.1)
    (fun result _ head ↦
      (torchWeights arith (gpu.lse result.1 head) (result.2.lse head)).map fun weights dim ↦
        gpu.out result.1 head dim * weights.1 + result.2.out head dim * weights.2)
    gpu.rows (batch.longIdx.zip results))

/-- What a layer keeps between steps: the padded CPU results, the rows of its static output buffer,
which allocation that buffer is, and the allocation that the captured graph works on. -/
structure MergeState (H D : ℕ) (R : Type*) where
  cpuPad : ℕ → CpuResult H D R
  bufRows : Option ℕ
  bufId : ℕ
  graphBuf : Option ℕ

/-- `maxNumReqs` is the optional attribute of that name on the layer. -/
structure MergeConfig where
  maxNumLong : ℕ
  mergeGraph : Bool
  kernelLoaded : Bool
  maxNumReqs : Option ℕ

/-- Copy the results into the last slots; the slots in front keep what they held. -/
def fillPad (pad : ℕ → CpuResult H D R) (off : ℕ) (results : List (CpuResult H D R)) :
    ℕ → CpuResult H D R := fun slot ↦
  if off ≤ slot then (results[slot - off]?).getD (pad slot) else pad slot

/-- Allocate the static output buffer when it is missing or too small. -/
def ensureBuffers (config : MergeConfig) (state : MergeState H D R) (numTokens : ℕ) : MergeState H D R :=
  let maxNumReqs := config.maxNumReqs.getD numTokens
  if state.bufRows.all (· < maxNumReqs) then
    { state with bufRows := some maxNumReqs, bufId := state.bufId + 1 }
  else state

/-- Capture the merge once, on the buffers of that moment. -/
def captureOnce (state : MergeState H D R) : MergeState H D R :=
  if state.graphBuf = none then { state with graphBuf := some state.bufId } else state

/-- The replay path. The output is copied into the static buffer, the captured graph is replayed and
the buffer is viewed with the rows of the output; `none` is a shape error of the copy or of the view.
A graph captured on an earlier allocation leaves the current buffer alone. -/
def mergeGraphReplay (config : MergeConfig) (state : MergeState H D R) (numTokens : ℕ)
    (gpu : GpuResult H D R) (indices : List ℕ) (valid : ℕ → Bool)
    (order : LaunchOrder indices.length H) : Option (Rows H D R) × MergeState H D R :=
  let allocated := ensureBuffers config state numTokens
  let rows := allocated.bufRows.getD 0
  if rows < numTokens then (none, allocated)
  else
    let captured := captureOnce allocated
    let buffer := if captured.graphBuf = some captured.bufId then
      mergeLse arith gpu captured.cpuPad indices valid order else gpu.rows
    (if rows = numTokens then some buffer else none, captured)

/-- The merge part of `LlamaAttention.forward` in a step whose long requests have been answered. -/
def forwardMerge (config : MergeConfig) (batch : LongBatch)
    (order : LaunchOrder (batch.longIndicesStatic config.maxNumLong).length H)
    (state : MergeState H D R) (gpu : GpuResult H D R) (results : List (CpuResult H D R)) :
    Option (Rows H D R) × MergeState H D R :=
  if batch.longIdx = [] then (some gpu.rows, state)
  else if config.maxNumLong ≤ batch.numReqs then
    -- More long rows than slots do not fit into the static index buffer.
    if config.maxNumLong < batch.numLong then (none, state) else
    let indices := batch.longIndicesStatic config.maxNumLong
    let valid := batch.validMask config.maxNumLong
    let filled := { state with cpuPad := fillPad state.cpuPad (config.maxNumLong - results.length) results }
    if config.mergeGraph && config.kernelLoaded then
      mergeGraphReplay arith config filled batch.numTokens gpu indices valid order
    else if config.kernelLoaded then (some (mergeLse arith gpu filled.cpuPad indices valid order), filled)
    else (some (mergeWithMaskStaticTorch arith gpu filled.cpuPad indices valid), filled)
  else (mergeWithMask arith batch gpu results, state)

/-! ## What a merge should do -/

/-- The softmax over the keys of two parts. -/
def lseMerge (first second : Part D R) : Fin D → R := fun dim ↦
  first.1 dim * arith.weight first.2 second.2 + second.1 dim * arith.weight second.2 first.2

/-- The softmax over the keys of two parts, or `empty` if neither has a key. -/
def mergePart (empty : Option (Fin D → R)) (first second : Part D R) : Option (Fin D → R) :=
  if first.2 = ⊥ ∧ second.2 = ⊥ then empty else some (lseMerge arith first second)

variable (batch : LongBatch) (gpu : GpuResult H D R) (answer : ℕ → CpuResult H D R)

/-- The output in which every long request's answer is merged at the token of its query and every
other token is left alone. -/
structure MergedAtQueries (output : Rows H D R) : Prop where
  merged : ∀ row, batch.IsLong row → ∀ head, output (batch.queryStartLoc row) head =
    some (lseMerge arith (gpu.part (batch.queryStartLoc row) head) ((answer row).part head))
  unchanged : ∀ token < batch.numTokens, (∀ row, batch.IsLong row → batch.queryStartLoc row ≠ token) →
    output token = gpu.rows token

/-- What the paths compute: the answers merged at the rows of the requests. A version leaves `empty` in
such a row or in one of the `padded` rows if it finds no key for it. -/
def mergeAtRows (empty : (Fin D → R) → Option (Fin D → R)) (padded : List ℕ) : Rows H D R := fun row head ↦
  if batch.IsLong row then
    mergePart arith (empty (gpu.out row head)) (gpu.part row head) ((answer row).part head)
  else if row ∈ padded ∧ gpu.lse row head = ⊥ then empty (gpu.out row head)
  else some (gpu.out row head)

/-- The answers merged at the rows of the requests if every row has a key. -/
def mergedRows : Rows H D R := fun row head ↦
  some (if batch.IsLong row then lseMerge arith (gpu.part row head) ((answer row).part head)
    else gpu.out row head)

end Paths

/-! ## Slots and rows -/

variable {batch : LongBatch} {maxNumLong row : ℕ} {slot : ℕ}

namespace LongBatch

theorem mem_longIdx : row ∈ batch.longIdx ↔ batch.IsLong row := by
  simp [longIdx, IsLong]

theorem nodup_longIdx (batch : LongBatch) : batch.longIdx.Nodup := nodup_range.filter _

theorem not_isLong_of_mem_padIdx (hrow : row ∈ batch.padIdx maxNumLong) : ¬ batch.IsLong row := by
  have hshort := mem_of_mem_take hrow
  simp only [mem_filter, Bool.not_eq_true'] at hshort
  simp [IsLong, hshort.2]

theorem nodup_longIndicesStatic (batch : LongBatch) (maxNumLong : ℕ) :
    (batch.longIndicesStatic maxNumLong).Nodup := by
  apply Nodup.append
  · exact (nodup_range.filter _).sublist (take_sublist _ _)
  · exact batch.nodup_longIdx
  · intro row hpad hlong
    exact not_isLong_of_mem_padIdx hpad (mem_longIdx.1 hlong)

theorem length_padIdx (hroom : maxNumLong ≤ batch.numReqs) :
    (batch.padIdx maxNumLong).length = batch.padCount maxNumLong := by
  have hsplit := length_eq_length_filter_add (l := range batch.numReqs) batch.nelssaLongMask
  rw [length_range] at hsplit
  have hlong : batch.numLong = ((List.range batch.numReqs).filter batch.nelssaLongMask).length := rfl
  rw [padIdx, length_take, padCount]
  omega

theorem exists_slot_of_isLong (maxNumLong : ℕ) (hlong : batch.IsLong row) :
    ∃ slot < (batch.longIndicesStatic maxNumLong).length,
      (batch.longIndicesStatic maxNumLong).getD slot 0 = row := by
  have hmem : row ∈ batch.longIndicesStatic maxNumLong := mem_append_right _ (mem_longIdx.2 hlong)
  obtain ⟨slot, hslot, hrow⟩ := getElem_of_mem hmem
  exact ⟨slot, hslot, by rw [getD_eq_getElem _ _ hslot, hrow]⟩

theorem isLong_getD_iff (hroom : maxNumLong ≤ batch.numReqs)
    (hslot : slot < (batch.longIndicesStatic maxNumLong).length) :
    batch.IsLong ((batch.longIndicesStatic maxNumLong).getD slot 0) ↔
      batch.validMask maxNumLong slot = true := by
  have hlen := length_padIdx hroom
  rw [validMask, decide_eq_true_iff, getD_eq_getElem _ _ hslot]
  unfold longIndicesStatic at hslot ⊢
  by_cases hpad : slot < batch.padCount maxNumLong
  · have hmem : (batch.padIdx maxNumLong ++ batch.longIdx)[slot] ∈ batch.padIdx maxNumLong := by
      rw [getElem_append_left (by omega)]
      exact getElem_mem _
    exact iff_of_false (not_isLong_of_mem_padIdx hmem) (by omega)
  · have hmem : (batch.padIdx maxNumLong ++ batch.longIdx)[slot] ∈ batch.longIdx := by
      rw [getElem_append_right (by omega)]
      exact getElem_mem _
    exact iff_of_true (mem_longIdx.1 hmem) (by omega)

end LongBatch

section Slots

/-- The answer for the query of the long request in `row`. -/
def answer (batch : LongBatch) (queryStates : ℕ → Head H D R)
    (remote : ℕ → Head H D R → CpuResult H D R) (row : ℕ) : CpuResult H D R :=
  remote row (queryStates (batch.queryStartLoc row))

theorem cpuAttention_eq (queryStates : ℕ → Head H D R) (remote : ℕ → Head H D R → CpuResult H D R) :
    cpuAttention batch queryStates remote = batch.longIdx.map (answer batch queryStates remote) := by
  simp only [cpuAttention, gatherQueries, map_map]
  rfl

theorem fillPad_of_valid (hroom : maxNumLong ≤ batch.numReqs) (pad : ℕ → CpuResult H D R)
    (answers : ℕ → CpuResult H D R) (hslot : slot < (batch.longIndicesStatic maxNumLong).length)
    (hvalid : batch.validMask maxNumLong slot = true) :
    fillPad pad (maxNumLong - (batch.longIdx.map answers).length) (batch.longIdx.map answers) slot =
      answers ((batch.longIndicesStatic maxNumLong).getD slot 0) := by
  have hlen := length_padIdx hroom
  have hoff : maxNumLong - (batch.longIdx.map answers).length = batch.padCount maxNumLong := by
    rw [length_map]
    rfl
  rw [validMask, decide_eq_true_iff] at hvalid
  have hidx : slot - batch.padCount maxNumLong < batch.longIdx.length := by
    rw [longIndicesStatic, length_append] at hslot
    omega
  rw [fillPad, hoff, if_pos hvalid, getElem?_map, getElem?_eq_getElem hidx, getD_eq_getElem _ _ hslot]
  simp only [longIndicesStatic, Option.map_some, Option.getD_some]
  rw [getElem_append_right (by omega)]
  simp [hlen]

end Slots

/-! ## The paths merge at the rows of the requests -/

variable {answers : ℕ → CpuResult H D R}

section Paths

variable [Field R] [LinearOrder R] [IsStrictOrderedRing R] (arith : ExpArithmetic R) (gpu : GpuResult H D R)

theorem kernelWeights_eq (gpuLse cpuLse : WithBot R) : kernelWeights arith gpuLse cpuLse =
    if gpuLse = ⊥ ∧ cpuLse = ⊥ then (1, 0) else (arith.weight gpuLse cpuLse, arith.weight cpuLse gpuLse) := by
  unfold kernelWeights
  split_ifs with hnone
  · simp [hnone]
  · obtain ⟨mx, hmx⟩ := WithBot.ne_bot_iff_exists.1 fun hbot ↦ hnone (max_eq_bot.1 hbot)
    have hpos := div_pos (arith.sum_pos gpuLse cpuLse hnone) (arith.exp_pos mx)
    rw [add_div] at hpos
    have hsecond := arith.weight_shifted cpuLse gpuLse mx
    rw [add_comm] at hsecond
    simp [← hmx, hpos, arith.weight_shifted, hsecond]

theorem torchWeights_eq (gpuLse cpuLse : WithBot R) : torchWeights arith gpuLse cpuLse =
    if gpuLse = ⊥ ∧ cpuLse = ⊥ then none
    else some (arith.weight gpuLse cpuLse, arith.weight cpuLse gpuLse) := by
  unfold torchWeights
  split_ifs with hnone
  · simp [hnone, ExpArithmetic.logSumExp]
  · simp [arith.expSub_logSumExp gpuLse cpuLse hnone, ExpArithmetic.weight, add_comm]

section

variable (out cpuOut : Fin D → R) (gpuLse cpuLse : WithBot R)

theorem kernel_eq_mergePart :
    (some fun dim ↦ out dim * (kernelWeights arith gpuLse cpuLse).1 +
      cpuOut dim * (kernelWeights arith gpuLse cpuLse).2) =
      mergePart arith (some out) (out, gpuLse) (cpuOut, cpuLse) := by
  rw [kernelWeights_eq, mergePart]
  split_ifs
  · simp
  · rfl

theorem torch_eq_mergePart :
    ((torchWeights arith gpuLse cpuLse).map fun weights dim ↦ out dim * weights.1 + cpuOut dim * weights.2) =
      mergePart arith none (out, gpuLse) (cpuOut, cpuLse) := by
  rw [torchWeights_eq, mergePart]
  split_ifs <;> rfl

end

variable {pad : ℕ → CpuResult H D R}

omit [IsStrictOrderedRing R] in
theorem slot_eq_mergeAtRows (hroom : maxNumLong ≤ batch.numReqs)
    (hslot : slot < (batch.longIndicesStatic maxNumLong).length)
    (hpad : batch.validMask maxNumLong slot = true →
      pad slot = answers ((batch.longIndicesStatic maxNumLong).getD slot 0)) (head : Fin H)
    (empty : (Fin D → R) → Option (Fin D → R)) :
    let row := (batch.longIndicesStatic maxNumLong).getD slot 0
    mergePart arith (empty (gpu.out row head)) (gpu.out row head, gpu.lse row head)
        ((pad slot).out head, effectiveLse pad (batch.validMask maxNumLong) slot head) =
      mergeAtRows arith batch gpu answers empty (batch.padIdx maxNumLong) row head := by
  intro row
  have hlong := isLong_getD_iff hroom hslot
  by_cases hvalid : batch.validMask maxNumLong slot = true
  · simp only [mergeAtRows, row, if_pos (hlong.2 hvalid), effectiveLse, hvalid, if_true, hpad]
    rfl
  · have hshort : ¬ batch.IsLong row := mt hlong.1 hvalid
    have hmem : row ∈ batch.padIdx maxNumLong := by
      have hmem : row ∈ batch.longIndicesStatic maxNumLong := by
        rw [show row = _ from getD_eq_getElem _ _ hslot]
        exact getElem_mem _
      exact (mem_append.1 hmem).resolve_right (mt mem_longIdx.1 hshort)
    simp only [mergeAtRows, if_neg hshort, effectiveLse, hvalid, Bool.false_eq_true, if_false, mergePart,
      hmem, true_and, and_true]
    cases hlse : gpu.lse row head with
    | bot => rfl
    | coe lse => simp [funext_iff, lseMerge]

section

variable {slots : ℕ} (order : LaunchOrder slots H)

theorem LaunchOrder.mem_blocks {block : ℕ × Fin H} : block ∈ order.blocks ↔ block.1 < slots := by
  rw [order.perm.mem_iff, mem_product]
  simp

theorem LaunchOrder.nodup_blocks : order.blocks.Nodup :=
  order.perm.nodup_iff.2 (nodup_range.product (nodup_finRange H))

end

theorem LongBatch.getD_longIndicesStatic_inj {first second : ℕ}
    (hfirst : first < (batch.longIndicesStatic maxNumLong).length)
    (hsecond : second < (batch.longIndicesStatic maxNumLong).length)
    (heq : (batch.longIndicesStatic maxNumLong).getD first 0 =
      (batch.longIndicesStatic maxNumLong).getD second 0) : first = second := by
  rwa [getD_eq_getElem _ _ hfirst, getD_eq_getElem _ _ hsecond,
    (batch.nodup_longIndicesStatic maxNumLong).getElem_inj_iff] at heq

section Static

variable (hroom : maxNumLong ≤ batch.numReqs)
  (hpad : ∀ slot < (batch.longIndicesStatic maxNumLong).length,
    batch.validMask maxNumLong slot = true →
      pad slot = answers ((batch.longIndicesStatic maxNumLong).getD slot 0))

include hroom hpad

/-- The fused kernel merges at the rows of the requests, in whatever order its blocks run. -/
theorem mergeLse_eq_mergeAtRows (order : LaunchOrder (batch.longIndicesStatic maxNumLong).length H) :
    mergeLse arith gpu pad (batch.longIndicesStatic maxNumLong) (batch.validMask maxNumLong) order =
      mergeAtRows arith batch gpu answers some (batch.padIdx maxNumLong) := by
  unfold mergeLse
  rw [scatter_eq, Function.curry_uncurry]
  · apply order.nodup_blocks.map_on
    intro first hfirst second hsecond heq
    rw [order.mem_blocks] at hfirst hsecond
    rw [Prod.mk.injEq] at heq
    exact Prod.ext (getD_longIndicesStatic_inj hfirst hsecond heq.1) heq.2
  · rintro ⟨slot, head⟩ hblock
    rw [order.mem_blocks] at hblock
    exact (kernel_eq_mergePart ..).trans
      (slot_eq_mergeAtRows arith gpu hroom hblock (hpad slot hblock) head some)
  · rintro ⟨row, head⟩ hcell
    have hshort : ¬ batch.IsLong row := by
      intro hlong
      obtain ⟨slot, hslot, rfl⟩ := exists_slot_of_isLong maxNumLong hlong
      exact hcell (mem_map.2 ⟨(slot, head), order.mem_blocks.2 hslot, rfl⟩)
    simp [mergeAtRows, if_neg hshort, GpuResult.rows]

theorem mergeWithMaskStaticTorch_eq_mergeAtRows :
    mergeWithMaskStaticTorch arith gpu pad (batch.longIndicesStatic maxNumLong)
      (batch.validMask maxNumLong) =
      mergeAtRows arith batch gpu answers (fun _ ↦ none) (batch.padIdx maxNumLong) := by
  apply scatter_eq
  · apply nodup_range.map_on
    intro first hfirst second hsecond heq
    exact getD_longIndicesStatic_inj (mem_range.1 hfirst) (mem_range.1 hsecond) heq
  · intro slot hslot
    rw [mem_range] at hslot
    funext head
    exact (torch_eq_mergePart ..).trans
      (slot_eq_mergeAtRows arith gpu hroom hslot (hpad slot hslot) head fun _ ↦ none)
  · intro row hcell
    have hnotMem : row ∉ batch.longIndicesStatic maxNumLong := by
      intro hmem
      obtain ⟨slot, hslot, hrow⟩ := getElem_of_mem hmem
      exact hcell (mem_map.2 ⟨slot, mem_range.2 hslot, (getD_eq_getElem _ _ hslot).trans hrow⟩)
    rw [longIndicesStatic, mem_append, not_or, mem_longIdx] at hnotMem
    simp [mergeAtRows, hnotMem, funext_iff, GpuResult.rows]

end Static

theorem mergeWithMask_eq (answers : ℕ → CpuResult H D R) :
    mergeWithMask arith batch gpu (batch.longIdx.map answers) =
      if batch.numReqs = batch.numTokens then some (mergeAtRows arith batch gpu answers (fun _ ↦ none) [])
      else none := by
  have hzip : batch.longIdx.zip (batch.longIdx.map answers) =
      batch.longIdx.map fun row ↦ (row, answers row) :=
    map_prod_left_eq_zip.symm
  have hrows : (batch.longIdx.map fun row ↦ (row, answers row)).map Prod.fst = batch.longIdx := by
    rw [map_map]
    exact map_id _
  unfold mergeWithMask
  by_cases hshape : batch.numReqs = batch.numTokens
  · rw [if_neg (not_not.2 hshape), if_pos hshape, Option.some_inj, hzip]
    apply scatter_eq
    · exact hrows.symm ▸ batch.nodup_longIdx
    · rintro ⟨row, result⟩ hres
      obtain ⟨_, hlong, heq⟩ := mem_map.1 hres
      cases heq
      funext head
      exact (torch_eq_mergePart ..).trans (if_pos (mem_longIdx.1 hlong)).symm
    · intro row hcell
      have hshort : ¬ batch.IsLong row := by
        rw [← mem_longIdx, ← hrows]
        exact hcell
      simp [mergeAtRows, hshort, funext_iff, GpuResult.rows]
  · rw [if_pos hshape, if_neg hshape]

omit [IsStrictOrderedRing R] in
variable {gpu} in
theorem mergeAtRows_of_finite (hfinite : gpu.Finite) (empty : (Fin D → R) → Option (Fin D → R))
    (padded : List ℕ) :
    mergeAtRows arith batch gpu answers empty padded = mergedRows arith batch gpu answers := by
  funext row head
  have hlse := hfinite row head
  unfold mergeAtRows mergedRows mergePart
  split_ifs with hlong hnone hpadded
  · exact absurd hnone.1 hlse
  · rfl
  · exact absurd hpadded.2 hlse
  · rfl

end Paths

/-! ## Requests whose query is at their own row -/

namespace LongBatch

/-- The query token of every long request has the index of the request's row. -/
def Aligned (batch : LongBatch) : Prop :=
  ∀ row < batch.numReqs, batch.nelssaLongMask row = true → batch.queryStartLoc row = row

instance (batch : LongBatch) : Decidable batch.Aligned :=
  inferInstanceAs (Decidable (∀ row < batch.numReqs, _ → _))

theorem queryStartLoc_add_le (batch : LongBatch) (row count : ℕ) (hcount : row + count ≤ batch.numReqs) :
    batch.queryStartLoc row + count ≤ batch.queryStartLoc (row + count) := by
  induction count with
  | zero => exact le_rfl
  | succ count ih =>
    calc batch.queryStartLoc row + (count + 1)
        ≤ batch.queryStartLoc (row + count) + 1 := Nat.add_le_add_right (ih (by omega)) 1
      _ ≤ batch.queryStartLoc (row + (count + 1)) := batch.scheduled_pos _ (by omega)

theorem le_queryStartLoc (batch : LongBatch) (hrow : row ≤ batch.numReqs) :
    row ≤ batch.queryStartLoc row := by
  have hbound := batch.queryStartLoc_add_le 0 row (by omega)
  rwa [batch.start_zero, zero_add] at hbound

theorem aligned_of_numTokens_eq (hshape : batch.numReqs = batch.numTokens) : batch.Aligned := by
  intro row hrow _
  have hlower := batch.le_queryStartLoc hrow.le
  have hupper := batch.queryStartLoc_add_le row (batch.numReqs - row) (by omega)
  rw [Nat.add_sub_cancel' hrow.le] at hupper
  have hcov := batch.covered
  omega

end LongBatch

/-! ## The replay path -/

variable {state : MergeState H D R} {config : MergeConfig}

section Replay

variable {numTokens : ℕ}

/-- The static buffer has the rows of the output and the graph, once captured, works on it. -/
def ReplayFits (config : MergeConfig) (state : MergeState H D R) (numTokens : ℕ) : Prop :=
  let allocated := ensureBuffers config state numTokens
  allocated.bufRows = some numTokens ∧
    (allocated.graphBuf = none ∨ allocated.graphBuf = some allocated.bufId)

instance : Decidable (ReplayFits config state numTokens) :=
  inferInstanceAs (Decidable (_ ∧ _))

section

variable (config : MergeConfig) (state : MergeState H D R) (numTokens : ℕ)

theorem exists_bufRows_ensureBuffers :
    ∃ rows, (ensureBuffers config state numTokens).bufRows = some rows := by
  unfold ensureBuffers
  cases hrows : state.bufRows with
  | none => exact ⟨_, rfl⟩
  | some rows =>
    by_cases hsmall : rows < config.maxNumReqs.getD numTokens
    · exact ⟨_, by rw [if_pos (by simpa using hsmall)]⟩
    · exact ⟨rows, by rw [if_neg (by simpa using hsmall), hrows]⟩

@[simp]
theorem cpuPad_ensureBuffers : (ensureBuffers config state numTokens).cpuPad = state.cpuPad := by
  simp only [ensureBuffers]
  split <;> rfl

end

@[simp]
theorem cpuPad_captureOnce (state : MergeState H D R) : (captureOnce state).cpuPad = state.cpuPad := by
  unfold captureOnce
  split <;> rfl

theorem bufRows_fillPad (pad : ℕ → CpuResult H D R) :
    (ensureBuffers config { state with cpuPad := pad } numTokens).bufRows =
      (ensureBuffers config state numTokens).bufRows := by
  simp only [ensureBuffers]
  split <;> rfl

theorem replayFits_fillPad (pad : ℕ → CpuResult H D R) :
    ReplayFits config { state with cpuPad := pad } numTokens ↔ ReplayFits config state numTokens := by
  unfold ReplayFits ensureBuffers
  by_cases hsmall : state.bufRows.all (· < config.maxNumReqs.getD numTokens)
  · simp [hsmall]
  · simp [hsmall]

theorem captureOnce_current (state : MergeState H D R) :
    (captureOnce state).graphBuf = some (captureOnce state).bufId ↔
      state.graphBuf = none ∨ state.graphBuf = some state.bufId := by
  unfold captureOnce
  by_cases hnone : state.graphBuf = none <;> simp [hnone]

end Replay

/-! ## When the merge reaches the queries -/

section Probe

variable (H D : ℕ) (R : Type*) [Field R]

/-- A zero GPU output. Together with answers that name their row it tells the tokens apart. -/
def probeGpu : GpuResult H D R := ⟨fun _ _ _ ↦ 0, fun _ _ ↦ ((0 : R) : WithBot R)⟩

theorem finite_probeGpu : (probeGpu H D R).Finite := fun _ _ ↦ WithBot.coe_ne_bot

def probeAnswer (row : ℕ) : CpuResult H D R := ⟨fun _ _ ↦ row + 1, fun _ ↦ ((0 : R) : WithBot R)⟩

end Probe

section Main

variable [Field R] [LinearOrder R] [IsStrictOrderedRing R] (arith : ExpArithmetic R)
    
theorem mergeGraphReplay_eq (order : LaunchOrder (batch.longIndicesStatic config.maxNumLong).length H)
    (gpu : GpuResult H D R) (hroom : config.maxNumLong ≤ batch.numReqs)
    (hpad : ∀ slot < (batch.longIndicesStatic config.maxNumLong).length,
      batch.validMask config.maxNumLong slot = true →
        state.cpuPad slot = answers ((batch.longIndicesStatic config.maxNumLong).getD slot 0)) :
    (mergeGraphReplay arith config state batch.numTokens gpu
        (batch.longIndicesStatic config.maxNumLong) (batch.validMask config.maxNumLong) order).1 =
      if (ensureBuffers config state batch.numTokens).bufRows = some batch.numTokens then
        some (if ReplayFits config state batch.numTokens then
            mergeAtRows arith batch gpu answers some (batch.padIdx config.maxNumLong)
          else gpu.rows)
      else none := by
  obtain ⟨rows, hrows⟩ := exists_bufRows_ensureBuffers config state batch.numTokens
  have hmerge := mergeLse_eq_mergeAtRows arith gpu hroom hpad order
  simp only [mergeGraphReplay, cpuPad_captureOnce, cpuPad_ensureBuffers, hmerge, hrows, Option.getD_some,
    Option.some_inj, captureOnce_current, ReplayFits]
  by_cases hsmall : rows < batch.numTokens
  · simp [hsmall, hsmall.ne]
  · by_cases hequal : rows = batch.numTokens
    · simp [hequal]
    · simp [hsmall, hequal]

/-- The condition on batch and layer state under which the merge reaches the right tokens. -/
def MergeFits (config : MergeConfig) (batch : LongBatch) (state : MergeState H D R) : Prop :=
  batch.longIdx = [] ∨
    if config.maxNumLong ≤ batch.numReqs then
      batch.Aligned ∧ ((config.mergeGraph && config.kernelLoaded) = true →
        ReplayFits config state batch.numTokens)
    else batch.numReqs = batch.numTokens

instance (config : MergeConfig) (batch : LongBatch) (state : MergeState H D R) :
    Decidable (MergeFits config batch state) := by
  unfold MergeFits
  infer_instance

/-- Whatever the GPU computed, the queries are and the remote attention answers, the step returns an
output with the answers merged at the tokens of their queries. -/
def MergesAtQueries (config : MergeConfig) (batch : LongBatch)
    (order : LaunchOrder (batch.longIndicesStatic config.maxNumLong).length H)
    (state : MergeState H D R) : Prop :=
  ∀ gpu : GpuResult H D R, gpu.Finite → ∀ (queryStates : ℕ → Head H D R)
    (remote : ℕ → Head H D R → CpuResult H D R), ∃ output,
    (forwardMerge arith config batch order state gpu (cpuAttention batch queryStates remote)).1 =
        some output ∧
      MergedAtQueries arith batch gpu (answer batch queryStates remote) output

theorem forwardMerge_eq (hcap : batch.numLong ≤ config.maxNumLong) (hsome : batch.longIdx ≠ [])
    (order : LaunchOrder (batch.longIndicesStatic config.maxNumLong).length H)
    {gpu : GpuResult H D R} (hfinite : gpu.Finite) (answers : ℕ → CpuResult H D R) :
    (forwardMerge arith config batch order state gpu (batch.longIdx.map answers)).1 =
      if config.maxNumLong ≤ batch.numReqs then
        if (config.mergeGraph && config.kernelLoaded) = true then
          if (ensureBuffers config state batch.numTokens).bufRows = some batch.numTokens then
            some (if ReplayFits config state batch.numTokens then mergedRows arith batch gpu answers
              else gpu.rows)
          else none
        else some (mergedRows arith batch gpu answers)
      else if batch.numReqs = batch.numTokens then some (mergedRows arith batch gpu answers)
      else none := by
  unfold forwardMerge
  rw [if_neg hsome]
  by_cases hroom : config.maxNumLong ≤ batch.numReqs
  · rw [if_pos hroom, if_pos hroom, if_neg (Nat.not_lt.2 hcap)]
    have hpad (slot : ℕ) (hslot : slot < (batch.longIndicesStatic config.maxNumLong).length)
        (hvalid : batch.validMask config.maxNumLong slot = true) :=
      fillPad_of_valid hroom state.cpuPad answers hslot hvalid
    by_cases hgraph : (config.mergeGraph && config.kernelLoaded) = true
    · rw [if_pos hgraph, if_pos hgraph, mergeGraphReplay_eq arith order gpu hroom hpad, bufRows_fillPad,
        mergeAtRows_of_finite arith hfinite]
      simp [replayFits_fillPad]
    · rw [if_neg hgraph, if_neg hgraph]
      by_cases hkernel : config.kernelLoaded = true
      · rw [if_pos hkernel, mergeLse_eq_mergeAtRows arith gpu hroom hpad, mergeAtRows_of_finite arith hfinite]
      · rw [if_neg hkernel, mergeWithMaskStaticTorch_eq_mergeAtRows arith gpu hroom hpad,
          mergeAtRows_of_finite arith hfinite]
  · rw [if_neg hroom, if_neg hroom, mergeWithMask_eq, mergeAtRows_of_finite arith hfinite]

omit [IsStrictOrderedRing R] in
theorem mergedAtQueries_of_aligned (halign : batch.Aligned) (gpu : GpuResult H D R)
    (answers : ℕ → CpuResult H D R) :
    MergedAtQueries arith batch gpu answers (mergedRows arith batch gpu answers) where
  merged := by
    intro row hlong head
    rw [halign row hlong.1 hlong.2, mergedRows, if_pos hlong]
  unchanged := by
    intro token _ hother
    funext head
    rw [mergedRows, if_neg]
    · rfl
    · intro hlong
      exact hother token hlong (halign token hlong.1 hlong.2)

omit [IsStrictOrderedRing R] in
theorem lseMerge_probe (row token : ℕ) (head : Fin H) (dim : Fin D) :
    lseMerge arith ((probeGpu H D R).part token head) ((probeAnswer H D R row).part head) dim =
      ((row : R) + 1) * (1 / 2) := by
  simp only [lseMerge, GpuResult.part, CpuResult.part, probeGpu, probeAnswer, zero_mul, zero_add,
    arith.weight_self]

theorem probe_pos (row : ℕ) : 0 < ((row : R) + 1) * (1 / 2) := mul_pos (Nat.cast_add_one_pos row) one_half_pos

omit [IsStrictOrderedRing R] in
/-- The row that was merged can be read off at its query. -/
theorem MergedAtQueries.probe [NeZero H] [NeZero D] {output : ℕ → Head H D R}
    (hmerged : MergedAtQueries arith batch (probeGpu H D R) (probeAnswer H D R)
      fun row head ↦ some (output row head)) {row : ℕ} (hlong : batch.IsLong row) :
    output (batch.queryStartLoc row) 0 0 = ((row : R) + 1) * (1 / 2) := by
  rw [Option.some.inj (hmerged.merged row hlong 0), lseMerge_probe]

theorem aligned_of_mergedAtQueries [NeZero H] [NeZero D]
    (hmerged : MergedAtQueries arith batch (probeGpu H D R) (probeAnswer H D R)
      (mergedRows arith batch (probeGpu H D R) (probeAnswer H D R))) : batch.Aligned := by
  intro row hrow hmask
  have hvalue := hmerged.probe arith ⟨hrow, hmask⟩
  split_ifs at hvalue with hlong
  · rw [lseMerge_probe] at hvalue
    have hcast := mul_right_cancel₀ one_half_pos.ne' hvalue
    exact Nat.cast_injective (add_right_cancel hcast)
  · exact absurd hvalue (probe_pos row).ne

theorem not_mergedAtQueries_unchanged [NeZero H] [NeZero D] (hsome : batch.longIdx ≠ []) :
    ¬ MergedAtQueries arith batch (probeGpu H D R) (probeAnswer H D R) (probeGpu H D R).rows := by
  intro hmerged
  obtain ⟨row, hrow⟩ := exists_mem_of_ne_nil _ hsome
  exact (probe_pos row).ne (hmerged.probe arith (mem_longIdx.1 hrow))

section

variable (hcap : batch.numLong ≤ config.maxNumLong)
  (order : LaunchOrder (batch.longIndicesStatic config.maxNumLong).length H)
include hcap order

theorem mergesAtQueries_of_mergeFits
    (hfits : MergeFits config batch state) : MergesAtQueries arith config batch order state := by
  intro gpu hfinite queryStates remote
  rw [cpuAttention_eq]
  by_cases hnone : batch.longIdx = []
  · refine ⟨gpu.rows, by rw [forwardMerge, if_pos hnone], ?_⟩
    have hshort (row : ℕ) : ¬ batch.IsLong row := by
      rw [← mem_longIdx, hnone]
      exact not_mem_nil
    exact ⟨fun row hlong ↦ absurd hlong (hshort row), fun _ _ _ ↦ rfl⟩
  · have hshape := hfits.resolve_left hnone
    refine ⟨mergedRows arith batch gpu (answer batch queryStates remote), ?_, ?_⟩
    · rw [forwardMerge_eq arith hcap hnone order hfinite]
      split_ifs at hshape ⊢ with hroom hgraph hrows hreplay
      · rfl
      · exact absurd (hshape.2 hgraph) hreplay
      · exact absurd (hshape.2 hgraph).1 hrows
      · rfl
      · rfl
    · apply mergedAtQueries_of_aligned
      split_ifs at hshape with hroom
      · exact hshape.1
      · exact aligned_of_numTokens_eq hshape

theorem mergeFits_of_mergesAtQueries [NeZero H] [NeZero D]
    (hmerges : MergesAtQueries arith config batch order state) : MergeFits config batch state := by
  by_cases hnone : batch.longIdx = []
  · exact .inl hnone
  · obtain ⟨_, houtput, hmerged⟩ := hmerges _ (finite_probeGpu H D R) (fun _ _ _ ↦ 0)
      fun row _ ↦ probeAnswer H D R row
    rw [cpuAttention_eq, forwardMerge_eq arith hcap hnone order (finite_probeGpu H D R)] at houtput
    refine .inr ?_
    split_ifs at houtput ⊢ with hroom hgraph hrows hfits hshape
    · cases houtput
      exact ⟨aligned_of_mergedAtQueries arith hmerged, fun _ ↦ hfits⟩
    · cases houtput
      exact absurd hmerged (not_mergedAtQueries_unchanged arith hnone)
    · cases houtput
      exact ⟨aligned_of_mergedAtQueries arith hmerged, fun h ↦ absurd h hgraph⟩
    · exact hshape

end

/-- For every batch with at most the configured number of long requests and every state of the layer,
the merge reaches exactly the tokens whose queries were answered when the batch and the buffers fit,
and otherwise misses them for some values. -/
theorem mergesAtQueries_iff [NeZero H] [NeZero D] (hcap : batch.numLong ≤ config.maxNumLong)
    (order : LaunchOrder (batch.longIndicesStatic config.maxNumLong).length H) :
    MergesAtQueries arith config batch order state ↔ MergeFits config batch state :=
  ⟨mergeFits_of_mergesAtQueries arith hcap order, mergesAtQueries_of_mergeFits arith hcap order⟩

end Main

/-! ## A chunked short request in front of a long one -/

/-- A short request with `chunk` tokens in row 0 and the long request in row 1. -/
def mixedBatch (chunk : ℕ) (hchunk : 0 < chunk) : LongBatch where
  numReqs := 2
  numTokens := chunk + 1
  queryStartLoc := fun row ↦ if row = 0 then 0 else if row = 1 then chunk else chunk + 1
  positions := fun token ↦ token
  monotone := by
    apply monotone_nat_of_le_succ
    intro row
    rcases row with _ | _ | row
    · exact Nat.zero_le chunk
    · exact Nat.le_succ chunk
    · exact le_rfl
  covered := le_rfl
  nelssaLongMask := fun row ↦ row == 1
  start_zero := rfl
  scheduled_pos := by
    intro row hrow
    have hcases : row = 0 ∨ row = 1 := by
      change row < 2 at hrow
      omega
    rcases hcases with rfl | rfl
    · exact hchunk
    · exact Nat.lt_succ_self chunk

def graphConfig : MergeConfig where
  maxNumLong := 1
  mergeGraph := true
  kernelLoaded := true
  maxNumReqs := none

/-- A layer before its first merge. -/
noncomputable def freshLayer : MergeState 1 1 ℝ where
  cpuPad := fun _ ↦ ⟨fun _ _ ↦ 0, fun _ ↦ ((0 : ℝ) : WithBot ℝ)⟩
  bufRows := none
  bufId := 0
  graphBuf := none

def singleBlock (chunk : ℕ) (hchunk : 0 < chunk) :
    LaunchOrder ((mixedBatch chunk hchunk).longIndicesStatic graphConfig.maxNumLong).length 1 where
  blocks := [(0, 0)]
  perm := .refl _

theorem mergesAtQueries_singleTokens :
    MergeFits graphConfig (mixedBatch 1 Nat.one_pos) freshLayer ∧
      MergesAtQueries realArithmetic graphConfig (mixedBatch 1 Nat.one_pos)
        (singleBlock 1 Nat.one_pos) freshLayer := by
  have hfits : MergeFits graphConfig (mixedBatch 1 Nat.one_pos) freshLayer := by decide
  exact ⟨hfits, (mergesAtQueries_iff realArithmetic (by decide) _).2 hfits⟩

/-- The answer for the query at token 3 is merged into token 1 of the short request's chunk. -/
theorem not_mergesAtQueries : (mixedBatch 3 (by decide)).numLong ≤ graphConfig.maxNumLong ∧
    ¬ MergesAtQueries realArithmetic graphConfig (mixedBatch 3 (by decide)) (singleBlock 3 (by decide))
      freshLayer := by
  refine ⟨by decide, fun hmerges ↦ ?_⟩
  have hfits := mergeFits_of_mergesAtQueries realArithmetic (by decide) _ hmerges
  exact absurd hfits (by decide)

end Nelssa.Worker
