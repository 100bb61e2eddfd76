import Nelssa.Core.HybridAdmission

/-!
# Admission for managers that recycle blocks

The managers of sliding-window and chunked-local attention release blocks that attention skips, and their
estimates are capped by the blocks that one request can need at a time. The cap bounds the real blocks of
a request, but the estimate subtracts the length of the block list from it, with the null blocks that
stand for released ones. The allocation fills the list up to the last token whatever the cap. So the
estimate covers the allocation exactly if the last token needs no more blocks than the cap or the list
has.
-/

namespace Nelssa.Core

open Foundation.BlockArithmetic Foundation.IndexedLists

variable {ρ : Type*} [DecidableEq ρ]

namespace Manager

variable {manager : Manager ρ} {group : GroupCall ρ}

def isMamba : Manager ρ → Bool
  | mamba _ _ => true
  | _ => false

/-- The last token needs no more blocks than the admission cap, or than the request has. -/
def WithinCap (manager : Manager ρ) (group : GroupCall ρ) : Prop :=
  ∀ maxBlocks, manager.base.maxAdmissionBlocksPerRequest = some maxBlocks →
    manager.numNeededBlocks group ≤ max maxBlocks (manager.numLocalBlocks group)

section

omit [DecidableEq ρ]

section

variable (hmamba : manager.isMamba = false)
include hmamba

theorem ne_mamba (base : ManagerBase ρ) (state : MambaState ρ) : manager ≠ mamba base state := by
  rintro rfl
  cases hmamba

theorem needsBlocks_of_ne_mamba : manager.NeedsBlocks group := by
  cases manager with
  | mamba base state => cases hmamba
  | _ => trivial

theorem isAligned_of_ne_mamba : manager.isAligned = false := by
  cases manager with
  | mamba base state => cases hmamba
  | _ => rfl

end

/-- A capped estimate never exceeds what is popped, and reaches it exactly within the cap. -/
theorem Serves.numEstimatedBlocks_bounds (hserves : manager.Serves group) (hfits : group.Fits)
    (hmamba : manager.isMamba = false) :
    manager.numEstimatedBlocks group ≤ manager.numNewBlocks group ∧
      (manager.numNewBlocks group ≤ manager.numEstimatedBlocks group ↔ manager.WithinCap group) := by
  rw [hserves.numNewBlocks_eq hfits (isAligned_of_ne_mamba hmamba), numEstimatedBlocks,
    ManagerBase.cappedBlocks]
  unfold WithinCap
  cases manager.base.maxAdmissionBlocksPerRequest with
  | none => simp
  | some maxBlocks =>
    simp only [Option.some.injEq, forall_eq']
    omega

variable {after : Manager ρ}

theorem Trimmed.withinCap_iff (htrimmed : manager.Trimmed group.requestId after) :
    after.WithinCap group ↔ manager.WithinCap group := by
  have hlen := htrimmed.length_eq
  obtain ⟨table, rfl, -⟩ := htrimmed
  have hskipped : (manager.withBase { manager.base with reqToBlocks := table }).numSkippedBlocks group =
      manager.numSkippedBlocks group := by
    cases manager <;> rfl
  have hneeded : (manager.withBase { manager.base with reqToBlocks := table }).numNeededBlocks group =
      manager.numNeededBlocks group := by
    cases manager <;> rfl
  unfold WithinCap numLocalBlocks
  rw [hneeded, hskipped, hlen, base_withBase]

theorem Trimmed.isMamba_eq {reqId : ρ} (htrimmed : manager.Trimmed reqId after) :
    after.isMamba = manager.isMamba := by
  obtain ⟨_, rfl, -⟩ := htrimmed
  cases manager <;> rfl

end

end Manager

namespace KVCacheManager

variable {kv : KVCacheManager ρ} {req : SlotRequest ρ} {call : SlotCall}

/-- Whatever pool a call meets, if it passes the comparison with the free blocks then the allocation
never asks for more blocks than are free. -/
def NeverOverdraws (kv : KVCacheManager ρ) (req : SlotRequest ρ) (call : SlotCall) : Prop :=
  ∀ pool, (kv.preparedSlots req call).PoolFits req call pool → ∀ estimate,
    ((kv.preparedSlots req call).onPool pool).numBlocksToAllocate req call = .ok estimate →
    estimate ≤ (pool.getNumFreeBlocks : ℤ) →
    ∃ blocks, (((kv.preparedSlots req call).onPool pool).allocateBlocks req call).1 = .ok blocks

section

variable (hpromise : kv.SlotPromise req call) (hmamba : ∀ entry ∈ kv.entries, entry.1.isMamba = false)
include hpromise hmamba

omit [DecidableEq ρ] in
theorem SlotPromise.numBlocksToAllocate_eq (pool : BlockPool) :
    (kv.onPool pool).numBlocksToAllocate req call =
      .ok ((kv.entries.map fun entry ↦ entry.1.numEstimatedBlocks (kv.groupCall req call entry) +
        entry.1.numEvictableBlocks (kv.groupCall req call entry) pool).sum : ℕ) := by
  rw [Nat.cast_list_sum, List.map_map]
  refine getNumBlocksToAllocate_eq_sum hpromise _ 0 (fun _ h ↦ h) fun entry hentry ↦ ?_
  exact (hpromise.serves entry hentry).estimate_eq (Manager.ne_mamba (hmamba entry hentry)) pool

theorem SlotPromise.succeeds_of_withinCap
    (hcap : ∀ entry ∈ kv.entries, entry.1.WithinCap (kv.groupCall req call entry))
    {pool : BlockPool} (hfits : kv.PoolFits req call pool) {estimate : ℤ}
    (hest : (kv.onPool pool).numBlocksToAllocate req call = .ok estimate)
    (hadmitted : estimate ≤ pool.getNumFreeBlocks) :
    ∃ blocks, ((kv.onPool pool).allocateBlocks req call).1 = .ok blocks := by
  obtain ⟨_, _, hrefs⟩ := hfits.refs
  have hspends := hpromise.allocateBlocks_spends hrefs
    (fun entry hentry ↦ Manager.needsBlocks_of_ne_mamba (hmamba entry hentry)) hfits.computed
  refine hspends.succeeds ?_
  rw [hpromise.numBlocksToAllocate_eq hmamba, Except.ok.injEq] at hest
  rw [← hest, Nat.cast_le] at hadmitted
  refine le_trans (List.sum_le_sum fun entry hentry ↦ ?_) hadmitted
  have hnew := ((hpromise.serves entry hentry).numEstimatedBlocks_bounds (hpromise.groupCall_fits entry)
    (hmamba entry hentry)).2.2 (hcap entry hentry)
  omega

variable {entry : Manager ρ × ℕ}

/-- A pool with as many free blocks as estimated, none of them computed, shows a group beyond its cap. -/
theorem SlotPromise.fails_beyond_cap (hentry : entry ∈ kv.entries)
    (hbeyond : ¬ entry.1.WithinCap (kv.groupCall req call entry)) :
    ∃ pool, kv.PoolFits req call pool ∧ ∃ estimate : ℤ,
      (kv.onPool pool).numBlocksToAllocate req call = .ok estimate ∧
      estimate ≤ pool.getNumFreeBlocks ∧
      ∀ blocks, ((kv.onPool pool).allocateBlocks req call).1 ≠ .ok blocks := by
  let estimated := (kv.entries.map fun entry ↦ entry.1.numEstimatedBlocks (kv.groupCall req call entry)).sum
  obtain ⟨pool, hfits, hcount, hheld⟩ := exists_poolFits kv req call estimated
  obtain ⟨_, _, hrefs⟩ := hfits.refs
  have hbounds (entry : Manager ρ × ℕ) (hentry : entry ∈ kv.entries) :=
    (hpromise.serves entry hentry).numEstimatedBlocks_bounds (hpromise.groupCall_fits entry)
      (hmamba entry hentry)
  have hevictable : ∀ entry ∈ kv.entries,
      entry.1.numEvictableBlocks (kv.groupCall req call entry) pool = 0 := by
    intro entry hentry
    refine List.countP_eq_zero.2 fun block hblock ↦ ?_
    simp only [decide_eq_true_eq, not_and]
    by_cases hnull : block = 0
    · simp [(hrefs.isNull_iff block).2 hnull]
    · have hpos := hheld entry hentry block (List.mem_of_mem_drop hblock) hnull
      omega
  refine ⟨pool, hfits, estimated, ?_, by rw [hcount], fun blocks hblocks ↦ ?_⟩
  · rw [hpromise.numBlocksToAllocate_eq hmamba]
    congr 3
    refine List.map_congr_left fun entry hentry ↦ ?_
    rw [hevictable entry hentry, add_zero]
  · have hspends := hpromise.allocateBlocks_spends hrefs
      (fun entry hentry ↦ Manager.needsBlocks_of_ne_mamba (hmamba entry hentry)) hfits.computed
    have hpopped := hspends.lower_le blocks hblocks
    have hstrict := List.sum_lt_sum _ _ (fun other hother ↦ (hbounds other hother).1)
        ⟨entry, hentry, not_le.1 (mt (hbounds entry hentry).2.1 hbeyond)⟩
    omega

theorem SlotPromise.isMamba_prepared :
    ∀ entry ∈ (kv.preparedSlots req call).entries, entry.1.isMamba = false := by
  intro entry hentry
  obtain ⟨_, hmem, hmgr⟩ := exists_mem_zipIdx hpromise.preparedSlots_trimmed.2 hentry
  rw [hmgr.isMamba_eq]
  exact hmamba _ hmem

theorem SlotPromise.neverOverdraws_of_withinCap
    (hcap : ∀ entry ∈ kv.entries, entry.1.WithinCap (kv.groupCall req call entry)) :
    kv.NeverOverdraws req call := by
  obtain ⟨hlen, htrimmed⟩ := hpromise.preparedSlots_trimmed
  have hcapPrepared : ∀ entry ∈ (kv.preparedSlots req call).entries,
      entry.1.WithinCap ((kv.preparedSlots req call).groupCall req call entry) := by
    intro entry hentry
    obtain ⟨_, hmem, hmgr⟩ := exists_mem_zipIdx htrimmed hentry
    rw [groupCall_of_trimmed hlen hmgr]
    exact (Manager.Trimmed.withinCap_iff (by rwa [groupCall_requestId])).2 (hcap _ hmem)
  intro pool hfits estimate hest hadmitted
  exact hpromise.prepared.succeeds_of_withinCap (hpromise.isMamba_prepared hmamba) hcapPrepared hfits
    hest hadmitted

theorem SlotPromise.withinCap_of_neverOverdraws (hnever : kv.NeverOverdraws req call)
    (hentry : entry ∈ kv.entries) : entry.1.WithinCap (kv.groupCall req call entry) := by
  by_contra hbeyond
  obtain ⟨hlen, htrimmed⟩ := hpromise.preparedSlots_trimmed
  obtain ⟨after, hafter, hmgr⟩ := exists_mem_zipIdx htrimmed.flip hentry
  have hbeyondAfter : ¬ after.WithinCap
      ((kv.preparedSlots req call).groupCall req call (after, entry.2)) := by
    rw [groupCall_of_trimmed hlen hmgr, Manager.Trimmed.withinCap_iff]
    · exact hbeyond
    · rwa [groupCall_requestId]
  obtain ⟨pool, hfits, estimate, hest, hadmitted, hfails⟩ :=
    hpromise.prepared.fails_beyond_cap (hpromise.isMamba_prepared hmamba) hafter hbeyondAfter
  obtain ⟨blocks, hblocks⟩ := hnever pool hfits estimate hest hadmitted
  exact hfails blocks hblocks

end

/-- For managers that recycle blocks, and others but Mamba beside them, an allocation that passes the
comparison never asks for more blocks than are free exactly if in every group with a cap the last token
needs no more blocks than the cap, or than the request's block list has. -/
theorem neverOverdraws_iff (hpromise : kv.SlotPromise req call)
    (hmamba : ∀ entry ∈ kv.entries, entry.1.isMamba = false) :
    kv.NeverOverdraws req call ↔ ∀ entry ∈ kv.entries, entry.1.WithinCap (kv.groupCall req call entry) :=
  ⟨fun hnever _ hentry ↦ hpromise.withinCap_of_neverOverdraws hmamba hnever hentry,
    hpromise.neverOverdraws_of_withinCap hmamba⟩

/-! ## A block list as long as the cap -/

/-- A manager that the factory builds for a window of two tokens and blocks of two tokens, with a budget
of two tokens a step. Its cap is three blocks. -/
def windowKv (pool : BlockPool) (manager : Manager ℕ) : KVCacheManager ℕ :=
  { maxModelLen := 64, enableCaching := false, blockPool := pool, singleTypeManagers := [manager] }

def windowRequest (requestId numComputedTokens : ℕ) : SlotRequest ℕ :=
  { requestId, blockHashes := [], numComputedTokens, numTokens := numComputedTokens + 2
    nelssaLongMask := false }

theorem promise_firstChunk (pool : BlockPool) (base : ManagerBase ℕ) :
    (windowKv pool (.slidingWindow base 2)).SlotPromise (windowRequest 0 0) { numNewTokens := 2 } where
  indexed := fun _ _ ↦ ⟨[], rfl⟩
  fits := Nat.zero_le _
  counted := by decide
  short := rfl
  serves := by
    intro entry hentry
    obtain rfl := List.mem_singleton.1 hentry
    exact ⟨nofun, fun _ ↦ ⟨rfl, rfl⟩, fun _ ↦ Nat.zero_le _, .inr rfl, le_rfl, two_pos⟩

theorem neverOverdraws_firstChunk : ∃ pool manager, BlockPool.init 4 false 2 = .ok pool ∧
    getManagerForKvCacheSpec ⟨.slidingWindow 2, 2, by decide⟩ 2 64 pool false 0 1 1 none =
      (.ok manager, pool) ∧
    (windowKv pool manager).NeverOverdraws (windowRequest 0 0) { numNewTokens := 2 } := by
  refine ⟨_, _, rfl, rfl, (neverOverdraws_iff (promise_firstChunk _ _) ?_).2 ?_⟩
  all_goals
    intro entry hentry
    obtain rfl := List.mem_singleton.1 hentry
  · rfl
  · intro maxBlocks hcap
    exact le_max_of_le_left (Option.some.inj hcap ▸ by decide)

/-- The steps of two requests up to the point where the block list of the first is as long as the cap:
the prompt of five tokens and one more token, and then two chunks of the other request. -/
def sharedWindow (pool : BlockPool) (manager : Manager ℕ) : KVCacheManager ℕ :=
  [(0, 0, 2), (0, 2, 2), (0, 4, 1), (0, 5, 1), (1, 0, 2), (1, 2, 2)].foldl
    (fun kv step ↦ (kv.allocateSlots (windowRequest step.1 step.2.1)
      { numNewTokens := (step.2.2 : ℕ) }).2)
    (windowKv pool manager)

/-- The first request has three entries in its block list, two of them null. The other request has taken
the blocks that were released. The next token passes the comparison with no free block, because the cap
less the length of the list is nothing, and then asks for one. -/
theorem blockList_of_cap_raises : ∃ pool manager, BlockPool.init 4 false 2 = .ok pool ∧
    getManagerForKvCacheSpec ⟨.slidingWindow 2, 2, by decide⟩ 2 64 pool false 0 1 1 none =
      (.ok manager, pool) ∧
    manager.base.maxAdmissionBlocksPerRequest = some 3 ∧
    (sharedWindow pool manager).getBlocks 0 = [[0, 0, 3]] ∧
    (sharedWindow pool manager).getBlocks 1 = [[1, 2]] ∧
    ((sharedWindow pool manager).preparedSlots (windowRequest 0 6)
      { numNewTokens := 1 }).numBlocksToAllocate (windowRequest 0 6) { numNewTokens := 1 } = .ok 0 ∧
    ((sharedWindow pool manager).preparedSlots (windowRequest 0 6)
      { numNewTokens := 1 }).blockPool.getNumFreeBlocks = 0 ∧
    ((sharedWindow pool manager).allocateSlots (windowRequest 0 6) { numNewTokens := 1 }).1 =
      .error (.valueError "Cannot get 1 free blocks from the pool") :=
  ⟨_, _, rfl, rfl, rfl, rfl, rfl, rfl, rfl, rfl⟩

end KVCacheManager

end Nelssa.Core
