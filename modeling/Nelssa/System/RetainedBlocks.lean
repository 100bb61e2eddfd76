import Nelssa.Core.Admission
import Nelssa.Core.MiddleBlocks
import Nelssa.Worker.Compaction

/-!
# The blocks that scheduler and worker retain

When the prompt of a long request is computed, the worker compacts the row of the request, and the
scheduler frees the middle blocks of its list. Both sides derive the layout on their own: the worker
from the length of the prompt and the row of its step, the scheduler from the tokens that the request
had at its last allocation and the list that it has now. The main theorem says exactly when the two
sides retain the same blocks.
-/

variable {table : BlockTable}

namespace Nelssa.Worker.BlockTable

open Foundation.Windows

/-- The number of kernel blocks that one block of the scheduler becomes. -/
def splitFactor (table : BlockTable) : ℕ := if table.useHybridBlocks then table.blocksPerKvBlock else 1

/-- The kernel blocks of one block of the scheduler. -/
def kernelBlocksOf (table : BlockTable) (blockId : ℕ) : List ℕ :=
  (List.range table.splitFactor).map fun offset ↦ blockId * table.splitFactor + offset

theorem kernelBlocksOf_of_eq {factor : ℕ} (hfactor : table.splitFactor = factor) :
    table.kernelBlocksOf = fun blockId ↦ (List.range factor).map fun offset ↦ blockId * factor + offset := by
  subst hfactor
  rfl

variable {blockIds : List ℕ}

section

variable (table : BlockTable)

theorem kernelIds_eq_flatMap (blockIds : List ℕ) :
    table.kernelIds blockIds = blockIds.flatMap table.kernelBlocksOf := by
  by_cases hhybrid : table.useHybridBlocks = true
  · rw [kernelIds, if_pos hhybrid, mapToKernelBlocks, kernelBlocksOf_of_eq (if_pos hhybrid)]
    split
    · next hone => simp [hone]
    · rfl
  · rw [kernelIds, if_neg hhybrid, kernelBlocksOf_of_eq (if_neg hhybrid)]
    simp

theorem length_kernelBlocksOf (blockId : ℕ) : (table.kernelBlocksOf blockId).length = table.splitFactor := by
  simp [kernelBlocksOf]

theorem length_kernelIds (blockIds : List ℕ) :
    (table.kernelIds blockIds).length = table.splitFactor * blockIds.length := by
  rw [kernelIds_eq_flatMap]
  exact length_flatMap_of_forall _ table.length_kernelBlocksOf blockIds

theorem kernelIds_append (blockIds others : List ℕ) :
    table.kernelIds (blockIds ++ others) = table.kernelIds blockIds ++ table.kernelIds others := by
  simp [kernelIds_eq_flatMap]

theorem kernelIds_cut {low high : ℕ} (hlow : low ≤ blockIds.length) (hhigh : high ≤ blockIds.length) :
    table.kernelIds (cut low high blockIds) =
      cut (table.splitFactor * low) (table.splitFactor * high) (table.kernelIds blockIds) := by
  rw [kernelIds_eq_flatMap, kernelIds_eq_flatMap]
  exact flatMap_cut _ table.length_kernelBlocksOf hlow hhigh

end

theorem div_splitFactor {blockId kernelBlock : ℕ}
    (hmem : kernelBlock ∈ table.kernelBlocksOf blockId) : kernelBlock / table.splitFactor = blockId := by
  obtain ⟨_, hoff, rfl⟩ := List.mem_map.1 hmem
  have hlt := List.mem_range.1 hoff
  rw [mul_comm, Nat.mul_add_div (Nat.zero_lt_of_lt hlt), Nat.div_eq_of_lt hlt, add_zero]

theorem nodup_kernelIds (table : BlockTable) (hnodup : blockIds.Nodup) :
    (table.kernelIds blockIds).Nodup := by
  rw [kernelIds_eq_flatMap, List.nodup_flatMap]
  refine ⟨fun blockId _ ↦ ?_, hnodup.imp fun hne ↦ ?_⟩
  · exact List.nodup_range.map fun first second hsame ↦ add_left_cancel hsame
  · intro kernelBlock hfirst hsecond
    exact hne ((div_splitFactor hfirst).symm.trans (div_splitFactor hsecond))

/-- The runner leaves the row of a request as it is: it holds no more than the retained blocks, or
it is marked as compacted already. -/
def LeavesRow (table : BlockTable) (firstN lastM promptLen row : ℕ) : Prop :=
  table.numBlocksPerRow row ≤
      headBlocks firstN table.blockSize + tailBlocks lastM promptLen table.blockSize ∨
    table.nelssaCompacted row = true

instance (table : BlockTable) (firstN lastM promptLen row : ℕ) :
    Decidable (table.LeavesRow firstN lastM promptLen row) :=
  inferInstanceAs (Decidable (_ ∨ _))

variable {firstN lastM promptLen row : ℕ}

theorem rowBlocks_afterPrefill_of_leavesRow (hleaves : table.LeavesRow firstN lastM promptLen row)
    (appended : List (List ℕ)) :
    (table.afterPrefill firstN lastM promptLen row appended).rowBlocks row =
      table.requestBlocks row appended := by
  by_cases hroom : table.numBlocksPerRow row ≤
      headBlocks firstN table.blockSize + tailBlocks lastM promptLen table.blockSize
  · rw [afterPrefill_of_le hroom, rowBlocks_appendRows]
    rfl
  · have hcompacted := hleaves.resolve_left hroom
    have hpos : table.numBlocksPerRow row ≠ 0 := by omega
    simp only [afterPrefill, clearMiddleBlocksForPrefillComplete, hroom, if_false, clearMiddleBlocks,
      hpos, hcompacted, if_true]
    rw [rowBlocks_appendRows]
    rfl

theorem rowBlocks_afterPrefill_of_not_leavesRow (hcuts : ¬ table.LeavesRow firstN lastM promptLen row)
    (appended : List (List ℕ)) :
    (table.afterPrefill firstN lastM promptLen row appended).rowBlocks row =
      cut (headBlocks firstN table.blockSize)
        (table.numBlocksPerRow row - tailBlocks lastM promptLen table.blockSize)
        (table.requestBlocks row appended) := by
  rw [LeavesRow, not_or, Bool.not_eq_true] at hcuts
  exact (afterPrefill_of_gt hcuts.2 (not_le.1 hcuts.1) appended).2

end Nelssa.Worker.BlockTable

namespace Nelssa.System

open Nelssa.Core Worker Worker.BlockTable Foundation.Windows

variable {ρ : Type*} [DecidableEq ρ]

/-- A long request whose last prompt chunk has run. The row of the worker holds the blocks that the
scheduler had when it issued the step. With asynchronous scheduling the next step may have appended
further blocks to the scheduler's list before the output of this one arrives; the worker appends them
to the row when it runs that step. -/
structure PrefillDone (base : ManagerBase ρ) (pool : BlockPool) (table : BlockTable) (reqId : ρ)
    (row : ℕ) (blocks appended : List ℕ) : Prop where
  refs : ∃ held free, pool.Refs held free ∧ ∀ block ∈ blocks ++ appended, 0 < held block
  nullBlock : pool.nullBlock = 0
  stored : base.reqToBlocks reqId = some (blocks ++ appended)
  nodup : (blocks ++ appended).Nodup
  nonnull : 0 ∉ blocks ++ appended
  bound : ∀ block ∈ blocks ++ appended, block < pool.numGpuBlocks
  splits : 0 < table.splitFactor
  rowBlocks_eq : table.rowBlocks row = table.kernelIds blocks

section

variable (state : NelssaState ρ) (base : ManagerBase ρ)

/-- The blocks other than the null block that `free_middle_blocks` leaves in the list of a request
which had `numTokens` tokens at its last allocation. -/
def retainedBlocks (pool : BlockPool) (reqId : ρ) (numTokens : ℕ) : List ℕ :=
  (((state.markLongRequest base.blockSize reqId numTokens).freeMiddleBlocks base pool
    reqId).2.1.blocksOf reqId).filter (· ≠ pool.nullBlock)

/-- The row of the worker after its compaction and the next append holds the kernel blocks of the
blocks that the scheduler retains, in the same order. -/
def RowAgrees (pool : BlockPool) (table : BlockTable) (reqId : ρ) (row numTokens numPromptTokens : ℕ)
    (appended : List ℕ) : Prop :=
  (table.afterPrefill state.headSize state.tailSize numPromptTokens row [appended]).rowBlocks row =
    table.kernelIds (retainedBlocks state base pool reqId numTokens)

/-- The scheduler's list holds no more than the retained blocks. -/
def LeavesList (reqId : ρ) (numTokens : ℕ) : Prop :=
  (base.blocksOf reqId).length ≤
    headBlocks state.headSize base.blockSize + tailBlocks state.tailSize numTokens base.blockSize

end

instance (state : NelssaState ρ) (base : ManagerBase ρ) (reqId : ρ) (numTokens : ℕ) :
    Decidable (LeavesList state base reqId numTokens) :=
  inferInstanceAs (Decidable (_ ≤ _))

/-- Both sides leave everything, or both compact with the same number of kernel blocks in the head,
and the scheduler's tail has room for the worker's tail and the blocks appended since. -/
def LayoutsAgree (state : NelssaState ρ) (base : ManagerBase ρ) (table : BlockTable)
    (reqId : ρ) (row numTokens numPromptTokens : ℕ) (appended : List ℕ) : Prop :=
  if table.LeavesRow state.headSize state.tailSize numPromptTokens row then
    LeavesList state base reqId numTokens
  else ¬ LeavesList state base reqId numTokens ∧
    headBlocks state.headSize table.blockSize =
      table.splitFactor * headBlocks state.headSize base.blockSize ∧
    tailBlocks state.tailSize numPromptTokens table.blockSize + table.splitFactor * appended.length =
      table.splitFactor * tailBlocks state.tailSize numTokens base.blockSize

namespace PrefillDone

variable {state : NelssaState ρ} {base : ManagerBase ρ} {pool : BlockPool} {reqId : ρ} {row : ℕ}
  {blocks appended : List ℕ}

section

variable (hdone : PrefillDone base pool table reqId row blocks appended)
include hdone

omit [DecidableEq ρ] in
theorem holds : base.HoldsBlocks pool reqId (blocks ++ appended) :=
  { hdone with }

theorem retainedBlocks_eq (numTokens : ℕ) :
    retainedBlocks state base pool reqId numTokens =
      if LeavesList state base reqId numTokens then blocks ++ appended
      else cut (headBlocks state.headSize base.blockSize)
        ((blocks ++ appended).length - tailBlocks state.tailSize numTokens base.blockSize)
        (blocks ++ appended) := by
  have hnull := hdone.nullBlock ▸ hdone.nonnull
  have hiff : LeavesList state base reqId numTokens ↔ (blocks ++ appended).length ≤
      headBlocks state.headSize base.blockSize + tailBlocks state.tailSize numTokens base.blockSize := by
    rw [LeavesList, hdone.holds.blocksOf_eq]
  rw [if_congr hiff rfl rfl, retainedBlocks, hdone.holds.blocksOf_freeMiddleBlocks, filter_clearMiddle hnull]
  rfl

end

/-- Scheduler and worker retain the same blocks exactly if their layouts agree. -/
theorem rowAgrees_iff_layoutsAgree (hdone : PrefillDone base pool table reqId row blocks appended)
    (numTokens numPromptTokens : ℕ) :
    RowAgrees state base pool table reqId row numTokens numPromptTokens appended ↔
      LayoutsAgree state base table reqId row numTokens numPromptTokens appended := by
  have hrequest : table.requestBlocks row [appended] = table.kernelIds (blocks ++ appended) := by
    rw [requestBlocks, hdone.rowBlocks_eq, List.flatMap_singleton, kernelIds_append]
  have hlength : (table.kernelIds (blocks ++ appended)).length =
      table.splitFactor * blocks.length + table.splitFactor * appended.length := by
    rw [length_kernelIds, List.length_append, mul_add]
  have hrow : table.numBlocksPerRow row = table.splitFactor * blocks.length := by
    rw [← length_rowBlocks, hdone.rowBlocks_eq, length_kernelIds]
  have hcutRow (hcuts : ¬ table.LeavesRow state.headSize state.tailSize numPromptTokens row) :
      headBlocks state.headSize table.blockSize + tailBlocks state.tailSize numPromptTokens table.blockSize <
        table.splitFactor * blocks.length := by
    rw [LeavesRow, not_or, hrow] at hcuts
    exact not_le.1 hcuts.1
  have hcutList (hcuts : ¬ LeavesList state base reqId numTokens) :
      headBlocks state.headSize base.blockSize + tailBlocks state.tailSize numTokens base.blockSize <
        blocks.length + appended.length := by
    rw [LeavesList, hdone.holds.blocksOf_eq, List.length_append] at hcuts
    exact not_le.1 hcuts
  rw [RowAgrees, LayoutsAgree, hdone.retainedBlocks_eq]
  by_cases hrowLeft : table.LeavesRow state.headSize state.tailSize numPromptTokens row <;>
    by_cases hlistLeft : LeavesList state base reqId numTokens
  · simp only [rowBlocks_afterPrefill_of_leavesRow, hrowLeft, hlistLeft, hrequest, if_true]
  · have hlist := hcutList hlistLeft
    rw [if_pos hrowLeft, if_neg hlistLeft, rowBlocks_afterPrefill_of_leavesRow hrowLeft, hrequest,
      kernelIds_cut _ (by rw [List.length_append]; omega) (Nat.sub_le _ _)]
    refine iff_of_false (cut_ne_self ?_ ?_).symm hlistLeft
    · exact (Nat.mul_lt_mul_left hdone.splits).2 (by rw [List.length_append]; omega)
    · rw [length_kernelIds]
      exact Nat.mul_le_mul_left _ (Nat.sub_le _ _)
  · have hcut := hcutRow hrowLeft
    rw [if_neg hrowLeft, if_pos hlistLeft, rowBlocks_afterPrefill_of_not_leavesRow hrowLeft, hrequest]
    exact iff_of_false (cut_ne_self (by omega) (by omega)) fun h ↦ h.1 hlistLeft
  · have hlist := hcutList hlistLeft
    have hcut := hcutRow hrowLeft
    rw [if_neg hrowLeft, if_neg hlistLeft, rowBlocks_afterPrefill_of_not_leavesRow hrowLeft, hrequest,
      kernelIds_cut _ (by rw [List.length_append]; omega) (Nat.sub_le _ _),
      cut_eq_cut_iff (table.nodup_kernelIds hdone.nodup) (by omega) (by omega)
        ((Nat.mul_lt_mul_left hdone.splits).2 (by rw [List.length_append]; omega))
        (by rw [length_kernelIds]; exact Nat.mul_le_mul_left _ (Nat.sub_le _ _)),
      List.length_append, Nat.mul_sub, mul_add]
    refine (and_congr_right fun _ ↦ ?_).trans (and_iff_right hlistLeft).symm
    omega

omit [DecidableEq ρ] in
/-- A first prefill whose output arrives before the next step is scheduled: the request has its prompt
tokens only, nothing was appended, and worker and scheduler use the same blocks. -/
theorem layoutsAgree_of_synchronous (hdone : PrefillDone base pool table reqId row blocks [])
    (hfresh : table.nelssaCompacted row = false) (hfactor : table.splitFactor = 1)
    (hsize : table.blockSize = base.blockSize) (numPromptTokens : ℕ) :
    LayoutsAgree state base table reqId row numPromptTokens numPromptTokens [] := by
  have hrow : table.numBlocksPerRow row = (base.blocksOf reqId).length := by
    rw [← length_rowBlocks, hdone.rowBlocks_eq, length_kernelIds, hfactor, one_mul,
      hdone.holds.blocksOf_eq, List.append_nil]
  have hsame : table.LeavesRow state.headSize state.tailSize numPromptTokens row ↔
      LeavesList state base reqId numPromptTokens := by
    rw [LeavesRow, LeavesList, hrow, hfresh, hsize]
    exact or_iff_left Bool.false_ne_true
  rw [LayoutsAgree]
  split
  · next hleaves => exact hsame.1 hleaves
  · next hcuts =>
    refine ⟨fun h ↦ hcuts (hsame.2 h), ?_, ?_⟩
    · rw [hfactor, hsize, one_mul]
    · rw [hfactor, hsize, one_mul, one_mul, List.length_nil, add_zero]

end PrefillDone

/-! ## A prompt of eight blocks -/

section

open KVCacheManager

/-- The worker's table with blocks of one token and the blocks of a request in its first row. -/
def tokenRow (blocks : List ℕ) : BlockTable :=
  BlockTable.addRow
    { blockSize := 1, blocksPerKvBlock := 1, useHybridBlocks := false
      pcpWorldSize := 1, pcpRank := 0, dcpWorldSize := 1, dcpRank := 0, cpKvCacheInterleaveSize := 1
      blockTable := fun _ _ ↦ 0, numBlocksPerRow := fun _ ↦ 0, nelssaCompacted := fun _ ↦ false
      nelssaHeadBlocks := fun _ ↦ 0, nelssaTailBlocks := fun _ ↦ 0, nelssaTailStartPos := fun _ ↦ 0 }
    blocks 0

/-- One head and one tail token stay on the device. -/
def tokenState : NelssaState ℕ :=
  .init { enabled := true, firstN := 1, lastM := 1, promptLengthThreshold := 8 }

/-- The list of a request in a group with blocks of one token. -/
def tokenBase (blocks : List ℕ) : ManagerBase ℕ :=
  (ManagerBase.init ⟨.fullAttention, 1, Nat.one_pos⟩ false 0 1 1 none).setBlocks 0 blocks

theorem prefillDone_tokenRow {pool : BlockPool} (hinit : BlockPool.init 16 false 1 = .ok pool) :
    PrefillDone (tokenBase (List.range' 1 8)) (pool.getNewBlocks 8).2 (tokenRow (List.range' 1 8)) 0 0
      (List.range' 1 8) [] where
  refs := by
    obtain ⟨-, -, -, _, hrefs⟩ := BlockPool.init_spec hinit
    cases hinit
    obtain ⟨hblocks, htaken⟩ := hrefs.getNewBlocks (show 8 ≤ _ by decide)
    have hfree := (Except.ok.inj hblocks).symm.trans (by rfl)
    rw [hfree] at htaken
    exact ⟨_, _, htaken, by decide⟩
  nullBlock := by obtain rfl := Except.ok.inj hinit; rfl
  stored := rfl
  nodup := by decide
  nonnull := by decide
  bound := by obtain rfl := Except.ok.inj hinit; decide
  splits := by decide
  rowBlocks_eq := by decide

/-- The whole prompt in one step: both sides keep blocks 1 and 8. -/
theorem rowAgrees_tokenRow : ∃ pool, BlockPool.init 16 false 1 = .ok pool ∧
    RowAgrees tokenState (tokenBase (List.range' 1 8)) (pool.getNewBlocks 8).2
      (tokenRow (List.range' 1 8)) 0 0 8 8 [] :=
  ⟨_, rfl, ((prefillDone_tokenRow rfl).rowAgrees_iff_layoutsAgree 8 8).2
    ((prefillDone_tokenRow rfl).layoutsAgree_of_synchronous rfl rfl rfl 8)⟩

/-- The next step is scheduled before the output of the prefill arrives and appends block 9. The
scheduler then keeps blocks 1 and 9 and frees block 8, the tail that the worker keeps in its row. -/
theorem asyncAppend_disagrees : ∃ pool base state, BlockPool.init 16 false 1 = .ok pool ∧
    let prefill := (smallKv pool).allocateSlots (longRequest 0) { numNewTokens := 8 }
    let decode := prefill.2.allocateSlots (longRequest 8) { numNewTokens := 1 }
    prefill.1 = .ok (some [List.range' 1 8]) ∧ decode.1 = .ok (some [[9]]) ∧
    decode.2.singleTypeManagers = [.nelssa base state] ∧
    ¬ RowAgrees state base decode.2.blockPool (tokenRow (List.range' 1 8)) 0 0 8 8 [9] ∧
    ((tokenRow (List.range' 1 8)).afterPrefill 1 1 8 0 [[9]]).rowBlocks 0 = [1, 8, 9] ∧
    retainedBlocks state base decode.2.blockPool 0 8 = [1, 9] ∧
    (decode.2.freeSparseKv 0).2.blockPool.refCnt 8 = 0 := by
  refine ⟨_, _, _, rfl, rfl, rfl, rfl, ?_, rfl, rfl, rfl⟩
  intro hagrees
  have hlists : [1, 8, 9] = [1, 9] := hagrees
  exact absurd hlists (by decide)

end

end Nelssa.System
