import Mathlib.Data.List.GetD
import Nelssa.Core.KVCacheManager
import Nelssa.Core.PoolRefs
import Nelssa.Foundation.Windows

/-!
# The list of a long request after its prefill

`free_middle_blocks` gives the blocks between head and tail of a long request back to the pool and puts
the null block in their place. The length of the list stays, so that the index of a block still says
which tokens it holds.
-/

namespace Nelssa.Core

open Foundation.Windows List

variable {ρ : Type*} [DecidableEq ρ]

/-- The blocks of a request in a pool whose null block is the first one: distinct blocks that the request
holds. -/
structure ManagerBase.HoldsBlocks (base : ManagerBase ρ) (pool : BlockPool) (reqId : ρ)
    (blocks : List ℕ) : Prop where
  refs : ∃ held free, pool.Refs held free ∧ ∀ block ∈ blocks, 0 < held block
  nullBlock : pool.nullBlock = 0
  stored : base.reqToBlocks reqId = some blocks
  nodup : blocks.Nodup
  nonnull : 0 ∉ blocks
  bound : ∀ block ∈ blocks, block < pool.numGpuBlocks

section

variable (headBlocks tailBlocks nullBlock : ℕ) (blocks : List ℕ)

/-- The list with the null block in the places of the middle ones. -/
def clearMiddle : List ℕ :=
  if blocks.length ≤ headBlocks + tailBlocks then blocks
  else blocks.take headBlocks ++ List.replicate (blocks.length - tailBlocks - headBlocks) nullBlock ++
    blocks.drop (blocks.length - tailBlocks)

theorem length_clearMiddle : (clearMiddle headBlocks tailBlocks nullBlock blocks).length = blocks.length := by
  unfold clearMiddle
  split
  · rfl
  · simp only [length_append, length_take, length_replicate, length_drop]
    omega

end

theorem filter_clearMiddle {headBlocks tailBlocks nullBlock : ℕ} {blocks : List ℕ}
    (hnull : nullBlock ∉ blocks) :
    (clearMiddle headBlocks tailBlocks nullBlock blocks).filter (· ≠ nullBlock) =
      if blocks.length ≤ headBlocks + tailBlocks then blocks
      else cut headBlocks (blocks.length - tailBlocks) blocks := by
  have hkeep (part : List ℕ) (hpart : ∀ block ∈ part, block ∈ blocks) : part.filter (· ≠ nullBlock) = part :=
    filter_eq_self.2 fun block hblock ↦ decide_eq_true fun hsame ↦ hnull (hsame ▸ hpart block hblock)
  unfold clearMiddle
  split
  · exact hkeep blocks fun _ ↦ id
  · rw [filter_append, filter_append, hkeep _ fun _ ↦ mem_of_mem_take, hkeep _ fun _ ↦ mem_of_mem_drop, cut]
    simp

theorem map_getD_range' (items : List ℕ) (low count : ℕ) (hcount : low + count ≤ items.length) :
    (List.range' low count).map (fun index ↦ items.getD index 0) = (items.drop low).take count := by
  apply ext_getElem
  · rw [length_map, length_range', length_take, length_drop]
    omega
  · intro index hleft _
    rw [length_map, length_range'] at hleft
    rw [getElem_map, getElem_range', getElem_take, getElem_drop, one_mul, getD_eq_getElem]

namespace NelssaState

def headBlocks (state : NelssaState ρ) (blockSize : ℕ) : ℕ :=
  (state.headSize + blockSize - 1) / blockSize

end NelssaState

namespace ManagerBase.HoldsBlocks

variable {state : NelssaState ρ} {base : ManagerBase ρ} {pool : BlockPool} {reqId : ρ}
  {blocks : List ℕ}

section

variable (hholds : base.HoldsBlocks pool reqId blocks)
include hholds

omit [DecidableEq ρ] in
theorem used {block : ℕ} (hblock : block ∈ blocks) : block ≠ pool.nullBlock ∧ 0 < pool.refCnt block := by
  obtain ⟨_, _, hrefs, hheld⟩ := hholds.refs
  have hne : block ≠ 0 := fun h ↦ hholds.nonnull (h ▸ hblock)
  refine ⟨hholds.nullBlock ▸ hne, ?_⟩
  rw [hrefs.refs block hne]
  exact Int.natCast_pos.2 (hheld block hblock)

omit [DecidableEq ρ] in
theorem blocksOf_eq : base.blocksOf reqId = blocks := by
  rw [blocksOf, hholds.stored, Option.getD_some]

variable (state : NelssaState ρ) (numTokens : ℕ)

theorem middleBlocks_eq {tail : ℕ} (htail : (state.computeTailLayout base.blockSize numTokens).1 = tail) :
    (state.markLongRequest base.blockSize reqId numTokens).middleBlocks base pool reqId blocks =
      List.range' (state.headBlocks base.blockSize)
        (blocks.length - tail - state.headBlocks base.blockSize) := by
  have hend : (if 0 < tail then blocks.length - tail else blocks.length) = blocks.length - tail := by
    split <;> omega
  subst htail
  simp only [NelssaState.middleBlocks, NelssaState.markLongRequest, Function.update_self, Option.getD_some]
  refine (filter_eq_self.2 fun index hidx ↦ ?_).trans
    (congrArg (fun last ↦ range' _ (last - state.headBlocks _)) hend)
  rw [mem_range'_1] at hidx
  have hlt : index < blocks.length := by
    have hlast := hidx.2
    split at hlast <;> omega
  rw [getD_eq_getElem _ _ hlt]
  exact decide_eq_true (hholds.used (getElem_mem hlt))

/-- The list of a long request that had `numTokens` tokens at its last allocation. -/
theorem blocksOf_freeMiddleBlocks :
    ((state.markLongRequest base.blockSize reqId numTokens).freeMiddleBlocks base pool
        reqId).2.1.blocksOf reqId =
      clearMiddle (state.headBlocks base.blockSize) (state.computeTailLayout base.blockSize numTokens).1
        pool.nullBlock blocks := by
  have hmiddle := hholds.middleBlocks_eq state numTokens rfl
  have hlong : (state.markLongRequest base.blockSize reqId numTokens).longRequests reqId = true :=
    Function.update_self ..
  simp only [NelssaState.freeMiddleBlocks, hlong, hholds.stored, hmiddle, clearMiddle]
  generalize state.headBlocks base.blockSize = head
  generalize (state.computeTailLayout base.blockSize numTokens).1 = tail
  by_cases hleaves : blocks.length ≤ head + tail
  · have hnone : blocks.length - tail - head = 0 := by omega
    rw [if_pos hleaves, hnone, range'_zero, if_pos rfl, hholds.blocksOf_eq]
  · have hsome : List.range' head (blocks.length - tail - head) ≠ [] := by
      rw [Ne, range'_eq_nil_iff]
      omega
    have hwindow := map_getD_range' blocks head (blocks.length - tail - head) (by omega)
    obtain ⟨_, _, hrefs, hheld⟩ := hholds.refs
    have hsub : ∀ block ∈ (blocks.drop head).take (blocks.length - tail - head), block ∈ blocks :=
      fun block hblock ↦ mem_of_mem_drop (mem_of_mem_take hblock)
    have hfreed := (hrefs.freeBlocks (fun block hblock ↦ hholds.bound block (hsub block hblock))
      ((hholds.nodup.sublist ((take_sublist _ _).trans (drop_sublist _ _))).filter _)
      fun block hblock _ ↦ hheld block (hsub block hblock)).1
    have hset := foldl_set_range' pool.nullBlock _
      (by omega : head + (blocks.length - tail - head) ≤ blocks.length)
    have hlast : head + (blocks.length - tail - head) = blocks.length - tail := by omega
    rw [if_neg hleaves, if_neg hsome, hwindow, hfreed]
    rw [blocksOf_setBlocks, hset, hlast]

end

end ManagerBase.HoldsBlocks

end Nelssa.Core
