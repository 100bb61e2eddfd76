import Mathlib.Algebra.BigOperators.Ring.Finset
import Nelssa.Core.GroupCosts
import Nelssa.Foundation.IndexedLists

/-!
# Admission over several groups

`allocate_slots` compares the sum of the managers' estimates with the free blocks and then runs both
phases of the allocation over all groups. For managers without an admission cap the estimate covers what
is taken from every pool, except for a Mamba group in align mode that has more blocks than the step
needs: after draft tokens are rejected its estimate is negative and its assertion fails. A call that
returns nothing has changed nothing but what `remove_skipped_blocks` freed.
-/

namespace Nelssa.Core

open Foundation.BlockArithmetic Foundation.IndexedLists Manager
open List hiding min not_le not_lt exists_mem_zipIdx

variable {ρ : Type*} [DecidableEq ρ]

/-! ## Releasing skipped blocks -/

/-- The same manager with null blocks in the place of some blocks of a request. -/
def Manager.Trimmed (reqId : ρ) (manager after : Manager ρ) : Prop :=
  ∃ table, after = manager.withBase { manager.base with reqToBlocks := table } ∧
    ((table reqId).getD []).length = (manager.base.blocksOf reqId).length

theorem ManagerBase.removeSkippedBlocks_table (base : ManagerBase ρ) (pool : BlockPool)
    (numSkippedTokens : ℕ → ℕ) (reqId : ρ) (totalComputedTokens : ℕ) :
    ∃ table, (base.removeSkippedBlocks pool numSkippedTokens reqId totalComputedTokens).2.1 =
        { base with reqToBlocks := table } ∧
      ((table reqId).getD []).length = (base.blocksOf reqId).length := by
  unfold removeSkippedBlocks
  dsimp only
  split
  · exact ⟨_, rfl, rfl⟩
  · refine ⟨_, rfl, ?_⟩
    have hwhile := (takeWhile_sublist (· ≠ pool.nullBlock)
      (l := ((base.blocksOf reqId).take (min (numSkippedTokens totalComputedTokens / base.blockSize)
        (base.blocksOf reqId).length)).reverse)).length_le
    rw [length_reverse, length_take] at hwhile
    simp only [Function.update_self, Option.getD_some, length_append, length_take,
      length_replicate, length_drop]
    omega

theorem MambaState.removeSkippedBlocks_table (state : MambaState ρ) (base : ManagerBase ρ)
    (pool : BlockPool) (reqId : ρ) (totalComputedTokens : ℕ) :
    ∃ table, (state.removeSkippedBlocks base pool reqId totalComputedTokens).2.1 =
        { base with reqToBlocks := table } ∧
      ((table reqId).getD []).length = (base.blocksOf reqId).length := by
  obtain ⟨table, htable, hlen⟩ := base.removeSkippedBlocks_table pool getNumSkippedTokens reqId _
  unfold removeSkippedBlocks
  dsimp only
  have hset (blockIdx : ℕ) : ∃ table', ({ base with reqToBlocks := table }.setBlocks reqId
      (({ base with reqToBlocks := table } : ManagerBase ρ).blocksOf reqId |>.set blockIdx
        pool.nullBlock)) = { base with reqToBlocks := table' } ∧
      ((table' reqId).getD []).length = (base.blocksOf reqId).length := by
    refine ⟨_, rfl, ?_⟩
    rw [← hlen]
    simp [ManagerBase.blocksOf]
  rw [htable]
  repeat' split
  all_goals first
    | exact ⟨table, rfl, hlen⟩
    | exact ⟨table, htable, hlen⟩
    | exact hset _

theorem Manager.removeSkippedBlocks_trimmed (manager : Manager ρ) (pool : BlockPool) (reqId : ρ)
    (totalComputedTokens : ℕ) :
    manager.Trimmed reqId (manager.removeSkippedBlocks pool reqId totalComputedTokens).2.1 := by
  obtain ⟨table, htable, hlen⟩ := manager.base.removeSkippedBlocks_table pool _ reqId totalComputedTokens
  have hafter := congrArg manager.withBase htable
  cases manager with
  | mamba base state =>
    obtain ⟨table, htable, hlen⟩ := state.removeSkippedBlocks_table base pool reqId totalComputedTokens
    exact ⟨table, congrArg (withBase (.mamba base state)) htable, hlen⟩
  | _ => exact ⟨table, hafter, hlen⟩

namespace Manager.Trimmed

variable {manager after : Manager ρ} {group : GroupCall ρ}

section

omit [DecidableEq ρ]

theorem refl (reqId : ρ) (manager : Manager ρ) : manager.Trimmed reqId manager :=
  ⟨manager.base.reqToBlocks, (manager.withBase_base).symm, rfl⟩

theorem length_eq {reqId : ρ} (htrimmed : manager.Trimmed reqId after) :
    (after.base.blocksOf reqId).length = (manager.base.blocksOf reqId).length := by
  obtain ⟨_, rfl, hlen⟩ := htrimmed
  rw [base_withBase]
  exact hlen

variable (htrimmed : manager.Trimmed group.requestId after)
include htrimmed

theorem serves (hserves : manager.Serves group) : after.Serves group := by
  have hlen := htrimmed.length_eq
  obtain ⟨table, rfl, -⟩ := htrimmed
  have hkind : (manager.withBase { manager.base with reqToBlocks := table }).ServesKind group := by
    have hkind := hserves.kind
    cases manager with
    | mamba base state =>
      exact ⟨hkind.1, fun hmode ↦ (hkind.2 hmode).imp_right fun h hserved ↦ (h hserved).trans_eq hlen.symm⟩
    | _ => exact hkind
  rw [base_withBase] at hlen
  constructor
  · intro htakes
    obtain ⟨hnew, hempty⟩ := hserves.fresh htakes
    rw [base_withBase]
    rw [hempty] at hlen
    exact ⟨hnew, eq_nil_of_length_eq_zero hlen⟩
  · exact hserves.running
  · intro hrun
    rw [base_withBase, hlen]
    exact hserves.held hrun
  · rw [base_withBase]
    exact hserves.caching
  · rw [base_withBase]
    exact hserves.full
  · exact hkind

theorem needsBlocks_iff : after.NeedsBlocks group ↔ manager.NeedsBlocks group := by
  have hlen := htrimmed.length_eq
  obtain ⟨_, rfl, -⟩ := htrimmed
  cases manager with
  | mamba base state =>
    exact imp_congr_right fun _ ↦ iff_of_eq (congrArg (· ≤ state.numRequiredBlocks base _) hlen)
  | _ => exact .rfl

end

end Manager.Trimmed

namespace KVCacheManager

open Manager (Serves NeedsBlocks)

section

variable (kv : KVCacheManager ρ)

/-- What a call of `allocate_slots` asks one manager for. Cross attention is asked for the encoder
tokens, none of which are computed. -/
def groupCall (req : SlotRequest ρ) (call : SlotCall) (entry : Manager ρ × ℕ) : GroupCall ρ :=
  let requestId := req.requestId
  let takesComputed := call.newComputedBlocks.isSome || decide (0 < call.numExternalComputedTokens)
  let computed := (computedBlocksAt call entry.2).toOption.getD []
  match entry.1 with
  | .crossAttention _ =>
    { requestId, takesComputed, computed
      numLocalComputedTokens := 0
      numExternalComputedTokens := 0
      numTokens := call.numEncoderTokens
      numTokensMainModel := call.numEncoderTokens }
  | _ =>
    { requestId, takesComputed, computed
      numLocalComputedTokens := req.numComputedTokens + call.numNewComputedTokens
      numExternalComputedTokens := call.numExternalComputedTokens
      numTokens := kv.numTokensNeedSlot req call
      numTokensMainModel := kv.numTokensMainModel req call }

def entries : List (Manager ρ × ℕ) := kv.singleTypeManagers.zipIdx

/-- What callers of `allocate_slots` promise: computed blocks for every group, computed tokens within the
model length, a count of new tokens, no long NELSSA request, and what the managers rely on. -/
structure SlotPromise (req : SlotRequest ρ) (call : SlotCall) : Prop where
  indexed : ∀ entry ∈ kv.entries, ∃ blocks, computedBlocksAt call entry.2 = .ok blocks
  fits : totalComputedTokens req call ≤ kv.maxModelLen
  counted : 0 ≤ call.numNewTokens
  short : req.nelssaLongMask = false
  serves : ∀ entry ∈ kv.entries, entry.1.Serves (kv.groupCall req call entry)

def onPool (pool : BlockPool) : KVCacheManager ρ := { kv with blockPool := pool }

end

variable {kv : KVCacheManager ρ} {req : SlotRequest ρ} {call : SlotCall} {entry : Manager ρ × ℕ}

section

omit [DecidableEq ρ]

theorem SlotPromise.groupCall_fits (hpromise : kv.SlotPromise req call) (entry : Manager ρ × ℕ) :
    (kv.groupCall req call entry).Fits := by
  have hfits := hpromise.fits
  have hcounted := hpromise.counted
  have htotal : totalComputedTokens req call ≤ kv.numTokensMainModel req call := by
    unfold numTokensMainModel
    omega
  have hslots : totalComputedTokens req call ≤ kv.numTokensNeedSlot req call := by
    unfold numTokensNeedSlot
    omega
  obtain ⟨manager, _⟩ := entry
  cases manager with
  | crossAttention base => exact ⟨Nat.zero_le _, Nat.zero_le _⟩
  | _ => exact ⟨hslots, htotal⟩

theorem groupCall_takesComputed (entry : Manager ρ × ℕ) :
    (kv.groupCall req call entry).takesComputed =
      (call.newComputedBlocks.isSome || decide (0 < call.numExternalComputedTokens)) := by
  obtain ⟨manager, _⟩ := entry
  cases manager <;> rfl

theorem groupCall_requestId (entry : Manager ρ × ℕ) :
    (kv.groupCall req call entry).requestId = req.requestId := by
  obtain ⟨manager, _⟩ := entry
  cases manager <;> rfl

theorem groupCall_computed {blocks : List ℕ} (hblocks : computedBlocksAt call entry.2 = .ok blocks) :
    (kv.groupCall req call entry).computed = blocks := by
  obtain ⟨manager, _⟩ := entry
  cases manager <;> simp only [groupCall, hblocks] <;> rfl

end

def computedCall (req : SlotRequest ρ) (call : SlotCall) (index : ℕ) (manager : Manager ρ)
    (pool : BlockPool) : Except Exn Unit × Manager ρ × BlockPool :=
  match computedBlocksAt call index with
  | .error exn => (.error exn, manager, pool)
  | .ok blocks => manager.allocateNewComputedBlocks pool req.requestId blocks
      (req.numComputedTokens + call.numNewComputedTokens) call.numExternalComputedTokens

theorem computedCall_eq {blocks : List ℕ} (hblocks : computedBlocksAt call entry.2 = .ok blocks)
    (pool : BlockPool) :
    computedCall req call entry.2 entry.1 pool =
      entry.1.allocateNewComputedBlocks pool (kv.groupCall req call entry).requestId
        (kv.groupCall req call entry).computed
        (kv.groupCall req call entry).numLocalComputedTokens
        (kv.groupCall req call entry).numExternalComputedTokens := by
  rw [groupCall_computed hblocks, computedCall, hblocks]
  obtain ⟨manager, _⟩ := entry
  cases manager <;> rfl

section

variable (kv : KVCacheManager ρ) (req : SlotRequest ρ) (call : SlotCall)

def newCall (manager : Manager ρ) (pool : BlockPool) : Except Exn (List ℕ) × Manager ρ × BlockPool :=
  let numTokens := match manager with
    | .crossAttention _ => call.numEncoderTokens
    | _ => kv.numTokensNeedSlot req call
  manager.allocateNewBlocks pool req.requestId numTokens (kv.numTokensMainModel req call)

theorem newCall_eq (manager : Manager ρ) (index : ℕ) (base : ManagerBase ρ) (pool : BlockPool) :
    kv.newCall req call (manager.withBase base) pool =
      (manager.withBase base).allocateNewBlocks pool (kv.groupCall req call (manager, index)).requestId
        (kv.groupCall req call (manager, index)).numTokens
        (kv.groupCall req call (manager, index)).numTokensMainModel := by
  cases manager <;> rfl

def numMissingAt (entry : Manager ρ × ℕ) : ℕ :=
  let group := kv.groupCall req call entry
  entry.1.numMissingBlocks group (entry.1.numLocalBlocks group + entry.1.numExternalBlocks group)

end

variable {pool : BlockPool}

section

variable {held : ℕ → ℕ} {free : List ℕ} (hpromise : kv.SlotPromise req call) (hrefs : pool.Refs held free)
include hpromise hrefs

/-- The first phase leaves managers of which the costs of the second are known. -/
theorem SlotPromise.firstPhase_spends
    (htakes : call.newComputedBlocks.isSome ∨ 0 < call.numExternalComputedTokens)
    (hbound : ∀ entry ∈ kv.entries, ∀ block ∈ (kv.groupCall req call entry).computed,
      block < pool.numGpuBlocks) :
    Spends pool pool (kv.entries.map fun entry ↦ entry.1.numExternalBlocks (kv.groupCall req call entry)).sum
      (kv.entries.map fun entry ↦ entry.1.numEvictableBlocks (kv.groupCall req call entry) pool +
        entry.1.numExternalBlocks (kv.groupCall req call entry)).sum
      (List.Forall₂ (fun entry after ↦ ∀ middle, pool.Grown middle →
        Spends pool middle (kv.numMissingAt req call entry) (kv.numMissingAt req call entry)
          (fun _ ↦ True) (kv.newCall req call after middle)) kv.entries)
      (forEachManager (computedCall req call) 0 kv.singleTypeManagers pool) := by
  have hflag (entry : Manager ρ × ℕ) : (kv.groupCall req call entry).takesComputed = true := by
    rw [groupCall_takesComputed]
    simpa using htakes
  refine forEachManager_spends (forall₂_same.2 fun entry hentry middle hmiddle ↦ ?_) (.refl hrefs)
  obtain ⟨_, hblocks⟩ := hpromise.indexed entry hentry
  have hserves := hpromise.serves entry hentry
  rw [computedCall_eq hblocks]
  refine (allocateNewComputedBlocks_spends hserves (hflag entry) hmiddle
    (hbound entry hentry)).imp fun after hafter later hlater ↦ ?_
  have hsecond := hafter.allocateNewBlocks_spends hserves (hflag entry) (hpromise.groupCall_fits entry) hlater
  obtain ⟨_, rfl, -⟩ := hafter
  rw [newCall_eq]
  exact hsecond

variable (hneeds : ∀ entry ∈ kv.entries, entry.1.NeedsBlocks (kv.groupCall req call entry))
include hneeds

theorem SlotPromise.secondPhase_spends
    (hrun : ¬ (call.newComputedBlocks.isSome ∨ 0 < call.numExternalComputedTokens)) :
    Spends pool pool (kv.entries.map fun entry ↦ entry.1.numNewBlocks (kv.groupCall req call entry)).sum
      (kv.entries.map fun entry ↦ entry.1.numEvictableBlocks (kv.groupCall req call entry) pool +
        entry.1.numNewBlocks (kv.groupCall req call entry)).sum
      (List.Forall₂ (fun _ _ ↦ True) kv.entries)
      (forEachManager (fun _ ↦ kv.newCall req call) 0 kv.singleTypeManagers pool) := by
  refine forEachManager_spends (forall₂_same.2 fun entry hentry middle hmiddle ↦ ?_) (.refl hrefs)
  have hserves := hpromise.serves entry hentry
  have hflag : (kv.groupCall req call entry).takesComputed = false := by
    rw [groupCall_takesComputed]
    simpa using hrun
  obtain ⟨hevictable, hnew⟩ := hserves.costs_of_running hflag pool
  rw [hevictable, hnew, zero_add, ← entry.1.withBase_base, newCall_eq, entry.1.withBase_base]
  exact allocateNewBlocks_spends hmiddle (hneeds entry hentry) hserves.hasSpeculative

/-- What an allocation takes from the free queue: the blocks that it pops, and computed blocks that
nobody held. -/
theorem SlotPromise.allocateBlocks_spends (hbound : ∀ entry ∈ kv.entries,
      ∀ block ∈ (kv.groupCall req call entry).computed, block < pool.numGpuBlocks) :
    Spends pool pool (kv.entries.map fun entry ↦ entry.1.numNewBlocks (kv.groupCall req call entry)).sum
      (kv.entries.map fun entry ↦ entry.1.numEvictableBlocks (kv.groupCall req call entry) pool +
        entry.1.numNewBlocks (kv.groupCall req call entry)).sum
      (fun _ ↦ True)
      (((kv.onPool pool).allocateBlocks req call).1, ((kv.onPool pool).allocateBlocks req call).2,
        ((kv.onPool pool).allocateBlocks req call).2.blockPool) := by
  by_cases htakes : call.newComputedBlocks.isSome ∨ 0 < call.numExternalComputedTokens
  · have hfirst := hpromise.firstPhase_spends hrefs htakes hbound
    have hsum (cost : Manager ρ × ℕ → ℕ) : (kv.entries.map fun entry ↦ cost entry +
        entry.1.numNewBlocks (kv.groupCall req call entry)).sum =
        (kv.entries.map fun entry ↦ cost entry +
          entry.1.numExternalBlocks (kv.groupCall req call entry)).sum +
        (kv.entries.map (kv.numMissingAt req call)).sum := by
      rw [← sum_map_add]
      exact congrArg sum (map_congr_left fun entry _ ↦ (add_assoc _ _ _).symm)
    have hnew := hsum fun _ ↦ 0
    simp only [zero_add] at hnew
    rw [hnew, hsum, allocateBlocks, if_pos htakes]
    generalize hrun : (kv.onPool pool).runManagers _ = computed
    have hcalled : computed.1 = (forEachManager (computedCall req call) 0 kv.singleTypeManagers pool).1 := by
      rw [← hrun]
      rfl
    have hafter : computed.2 = { kv with
        singleTypeManagers := (forEachManager (computedCall req call) 0 kv.singleTypeManagers pool).2.1
        blockPool := (forEachManager (computedCall req call) 0 kv.singleTypeManagers pool).2.2 } := by
      rw [← hrun]
      rfl
    cases hres : computed.1 with
    | error exn =>
      rw [hcalled] at hres
      refine .failed (fun hupper ↦ ?_) _ _ _
      obtain ⟨value, hvalue⟩ := hfirst.succeeds (by omega)
      rw [hres] at hvalue
      cases hvalue
    | ok value =>
      rw [hcalled] at hres
      rw [hafter]
      refine .behind (hfirst.lower_le value hres) (hfirst.le_upper value hres) ?_
      exact (forEachManager_spends (forall₂_zipIdx (hfirst.result value hres) 0)
        (hfirst.grown value hres)).forget fun managers ↦ _
  · rw [allocateBlocks, if_neg htakes]
    have hsecond := hpromise.secondPhase_spends hrefs hneeds htakes
    exact hsecond.forget fun managers ↦ _

/-! ## The estimate of all managers -/

omit [DecidableEq ρ] hrefs hneeds in
theorem getNumBlocksToAllocate_eq_sum {value : Manager ρ × ℕ → ℤ} (managers : List (Manager ρ)) (first : ℕ)
    (hentries : ∀ entry ∈ managers.zipIdx first, entry ∈ kv.entries)
    (hvalue : ∀ entry ∈ kv.entries, entry.1.estimate pool (kv.groupCall req call entry) = .ok (value entry)) :
    getNumBlocksToAllocate pool req.requestId call (kv.numTokensNeedSlot req call)
        (totalComputedTokens req call) (kv.numTokensMainModel req call) first managers =
      .ok ((managers.zipIdx first).map value).sum := by
  induction managers generalizing first with
  | nil => rfl
  | cons manager rest ih =>
    rw [zipIdx_cons] at hentries ⊢
    have hmem := hentries _ mem_cons_self
    obtain ⟨blocks, hblocks⟩ := hpromise.indexed _ hmem
    have hcomp : (kv.groupCall req call (manager, first)).computed = blocks := groupCall_computed hblocks
    have hhead := hvalue _ hmem
    have hkind := (hpromise.serves _ hmem).kind
    have hrest := ih _ fun entry hentry ↦ hentries entry (mem_cons_of_mem _ hentry)
    rw [estimate, hcomp] at hhead
    unfold getNumBlocksToAllocate
    rw [hrest, map_cons, sum_cons]
    cases manager with
    | crossAttention base =>
      obtain rfl : blocks = [] := hcomp.symm.trans hkind.1
      simp only [groupCall, GroupCall.totalComputedTokens] at hhead
      simp only [hhead]
      rfl
    | _ =>
      simp only [groupCall, GroupCall.totalComputedTokens] at hhead
      simp only [hblocks, totalComputedTokens, hhead]
      rfl

end

/-! ## Soundness -/

variable {α : Type*}

omit [DecidableEq ρ] in
theorem forEachManager_forall₂_of_refl {R : Manager ρ → Manager ρ → Prop}
    {method : ℕ → Manager ρ → BlockPool → Except Exn α × Manager ρ × BlockPool}
    (hrefl : ∀ manager, R manager manager)
    (hmethod : ∀ index manager pool, R manager (method index manager pool).2.1) (index : ℕ)
    (managers : List (Manager ρ)) (pool : BlockPool) :
    List.Forall₂ R managers (forEachManager method index managers pool).2.1 := by
  induction managers generalizing index pool with
  | nil => exact .nil
  | cons manager rest ih =>
    unfold forEachManager
    dsimp only
    split
    · exact .cons (hmethod _ _ _) (forall₂_same.2 fun other _ ↦ hrefl other)
    · exact .cons (hmethod _ _ _) (ih _ _)

theorem SlotPromise.preparedSlots_trimmed (hpromise : kv.SlotPromise req call) :
    (kv.preparedSlots req call).maxModelLen = kv.maxModelLen ∧
      List.Forall₂ (Manager.Trimmed req.requestId) kv.singleTypeManagers
        (kv.preparedSlots req call).singleTypeManagers := by
  unfold preparedSlots
  rw [hpromise.short]
  exact ⟨rfl, forEachManager_forall₂_of_refl (.refl _)
    (fun _ manager pool ↦ manager.removeSkippedBlocks_trimmed pool _ _) _ _ _⟩

omit [DecidableEq ρ] in
theorem groupCall_of_trimmed {other : KVCacheManager ρ} (hlen : other.maxModelLen = kv.maxModelLen)
    {manager after : Manager ρ} (htrimmed : manager.Trimmed req.requestId after) (index : ℕ) :
    other.groupCall req call (after, index) = kv.groupCall req call (manager, index) := by
  obtain ⟨_, rfl, -⟩ := htrimmed
  have hmain : other.numTokensMainModel req call = kv.numTokensMainModel req call := by
    rw [numTokensMainModel, hlen]
    rfl
  have hslots : other.numTokensNeedSlot req call = kv.numTokensNeedSlot req call := by
    rw [numTokensNeedSlot, hmain, hlen]
    rfl
  cases manager <;> simp only [groupCall, withBase, hmain, hslots]

theorem SlotPromise.prepared (hpromise : kv.SlotPromise req call) :
    (kv.preparedSlots req call).SlotPromise req call := by
  obtain ⟨hlen, htrimmed⟩ := hpromise.preparedSlots_trimmed
  refine ⟨fun entry hentry ↦ ?_, hlen ▸ hpromise.fits, hpromise.counted, hpromise.short,
    fun entry hentry ↦ ?_⟩
  · obtain ⟨manager, hmem, -⟩ := exists_mem_zipIdx htrimmed hentry
    exact hpromise.indexed (manager, entry.2) hmem
  · obtain ⟨_, hmem, hmgr⟩ := exists_mem_zipIdx htrimmed hentry
    have hserves := hpromise.serves _ hmem
    rw [← groupCall_of_trimmed hlen hmgr] at hserves
    exact Trimmed.serves (by rwa [groupCall_requestId]) hserves

section

variable (kv : KVCacheManager ρ) (req : SlotRequest ρ) (call : SlotCall)

/-- A pool that a call can meet: it is consistent, the blocks of the request are held, and its computed
blocks are blocks of the pool. -/
structure PoolFits (pool : BlockPool) :
    Prop where
  refs : ∃ held free, pool.Refs held free
  held : ∀ entry ∈ kv.entries, ∀ block ∈ entry.1.base.blocksOf req.requestId, block ≠ 0 →
    0 < pool.refCnt block
  computed : ∀ entry ∈ kv.entries, ∀ block ∈ (kv.groupCall req call entry).computed,
    block < pool.numGpuBlocks

/-- Admission is sound and failure-atomic for a call. Whatever pool it meets, unless the call returns
nothing the allocation succeeds and takes no more blocks than estimated; and if it returns nothing, all
that has happened is the release of skipped blocks. -/
structure AdmissionSound : Prop where
  covered : ∀ pool, (kv.preparedSlots req call).PoolFits req call pool →
    (((kv.preparedSlots req call).onPool pool).allocatePrepared kv req call).1 ≠ .ok none →
    ∃ estimate blocks,
      ((kv.preparedSlots req call).onPool pool).numBlocksToAllocate req call = .ok estimate ∧
      (((kv.preparedSlots req call).onPool pool).allocateBlocks req call).1 = .ok blocks ∧
      (pool.getNumFreeBlocks : ℤ) -
        (((kv.preparedSlots req call).onPool pool).allocatePrepared kv req
          call).2.blockPool.getNumFreeBlocks ≤ estimate
  atomic : (kv.allocateSlots req call).1 = .ok none →
    (kv.allocateSlots req call).2 = kv.preparedSlots req call

end

/-- An admitted allocation succeeds and takes no more blocks than estimated. -/
theorem SlotPromise.admitted (hpromise : kv.SlotPromise req call)
    (hneeds : ∀ entry ∈ kv.entries, entry.1.NeedsBlocks (kv.groupCall req call entry))
    (hcap : ∀ entry ∈ kv.entries, entry.1.base.maxAdmissionBlocksPerRequest = none)
    (hfits : kv.PoolFits req call pool) :
    ∃ estimate, (kv.onPool pool).numBlocksToAllocate req call = .ok estimate ∧
      (estimate ≤ pool.getNumFreeBlocks →
        ∃ blocks, ((kv.onPool pool).allocateBlocks req call).1 = .ok blocks ∧
          (pool.getNumFreeBlocks : ℤ) -
            ((kv.onPool pool).allocateBlocks req call).2.blockPool.getNumFreeBlocks ≤ estimate) := by
  obtain ⟨_, _, hrefs⟩ := hfits.refs
  have hcovers (entry : Manager ρ × ℕ) (hentry : entry ∈ kv.entries) :=
    (hpromise.serves entry hentry).covers (hpromise.groupCall_fits entry) (hneeds entry hentry)
      (hcap entry hentry) hrefs
  let value (entry : Manager ρ × ℕ) : ℤ :=
    (entry.1.estimate pool (kv.groupCall req call entry)).toOption.getD 0
  have hvalue : ∀ entry ∈ kv.entries, entry.1.estimate pool (kv.groupCall req call entry) =
      .ok (value entry) := by
    intro entry hentry
    obtain ⟨amount, hamount, -⟩ := hcovers entry hentry
    simp only [value, hamount]
    rfl
  refine ⟨_, getNumBlocksToAllocate_eq_sum hpromise kv.singleTypeManagers 0 (fun _ h ↦ h) hvalue,
    fun hadmitted ↦ ?_⟩
  have hspends := hpromise.allocateBlocks_spends hrefs hneeds hfits.computed
  have hsum := sum_le_of_covers kv.entries _
    (fun entry hentry ↦ by
      obtain ⟨_, hamount, hcov⟩ := hcovers entry hentry
      rwa [← Except.ok.inj (hamount.symm.trans (hvalue entry hentry))]) hadmitted
  have hcast (items : List (Manager ρ × ℕ)) (cost : Manager ρ × ℕ → ℕ) :
      (items.map fun entry ↦ (cost entry : ℤ)).sum = ((items.map cost).sum : ℕ) := by
    rw [Nat.cast_list_sum, map_map]
    rfl
  rw [hcast] at hsum
  obtain ⟨blocks, hblocks⟩ := hspends.succeeds (by exact_mod_cast hsum.trans hadmitted)
  have hupper := hspends.le_upper blocks hblocks
  refine ⟨blocks, hblocks, ?_⟩
  dsimp only at hupper
  unfold entries at hsum hupper
  omega

/-! ## Caching after the allocation -/

omit [DecidableEq ρ] in
theorem forEachManager_pool {R : BlockPool → BlockPool → Prop}
    {method : ℕ → Manager ρ → BlockPool → Except Exn α × Manager ρ × BlockPool}
    (hrefl : ∀ pool, R pool pool)
    (htrans : ∀ pool middle after, R pool middle → R middle after → R pool after)
    (hmethod : ∀ index manager pool, R pool (method index manager pool).2.2) (index : ℕ)
    (managers : List (Manager ρ)) (pool : BlockPool) :
    R pool (forEachManager method index managers pool).2.2 := by
  induction managers generalizing index pool with
  | nil => exact hrefl pool
  | cons manager rest ih =>
    unfold forEachManager
    dsimp only
    split
    · exact hmethod _ _ _
    · exact htrans _ _ _ (hmethod _ _ _) (ih _ _)

theorem sameBlocks_cacheBlocks (manager : Manager ρ) (pool : BlockPool) (cached : CacheRequest ρ)
    (numTokens : ℕ) : pool.SameBlocks (manager.cacheBlocks pool cached numTokens).2.2 := by
  have hbase (base : ManagerBase ρ) : pool.SameBlocks (base.cacheBlocks pool cached numTokens).2.2 := by
    unfold ManagerBase.cacheBlocks
    dsimp only
    split
    · exact .refl pool
    · split <;> exact pool.sameBlocks_cacheFullBlocks _ _ _ _ _ _
  cases manager with
  | mamba base state =>
    have hmamba := hbase base
    simp only [Manager.cacheBlocks, MambaState.cacheBlocks]
    split <;> exact hmamba
  | crossAttention base => exact .refl pool
  | _ => exact hbase _

section

variable {prepared : KVCacheManager ρ} {estimate : ℤ}
  (hest : prepared.numBlocksToAllocate req call = .ok estimate)
include hest

theorem allocatePrepared_of_le (hadmitted : estimate ≤ prepared.blockPool.getNumFreeBlocks) :
    (prepared.allocatePrepared kv req call).1 ≠ .ok none ∧
      (prepared.allocatePrepared kv req call).2.blockPool.getNumFreeBlocks =
        (prepared.allocateBlocks req call).2.blockPool.getNumFreeBlocks := by
  unfold allocatePrepared
  rw [hest]
  dsimp only
  rw [if_neg (not_lt.2 hadmitted)]
  cases hallocated : (prepared.allocateBlocks req call).1 with
  | error exn => exact ⟨nofun, rfl⟩
  | ok newBlocks =>
    dsimp only
    split
    · exact ⟨nofun, rfl⟩
    · constructor
      · intro hnone
        obtain ⟨_, _, hsome⟩ := Foundation.Loops.map_eq_ok_iff.1 hnone
        cases hsome
      · obtain ⟨_, _, hsame⟩ := forEachManager_pool BlockPool.SameBlocks.refl (fun _ _ _ ↦ .trans)
          (fun _ manager pool ↦ sameBlocks_cacheBlocks manager pool req.toCacheRequest
            (min (kv.numTokensMainModel req call) req.numTokens)) 0
          (prepared.allocateBlocks req call).2.singleTypeManagers
          (prepared.allocateBlocks req call).2.blockPool
        simp only [runManagers, hsame]
        rfl

theorem allocatePrepared_of_lt (hrejected : (prepared.blockPool.getNumFreeBlocks : ℤ) < estimate) :
    prepared.allocatePrepared kv req call = (.ok none, prepared) := by
  unfold allocatePrepared
  rw [hest]
  exact if_pos hrejected

end

/-! ## Blocks to spare -/

omit [DecidableEq ρ] in
theorem exists_ok_of_forEachManager
    {method : ℕ → Manager ρ → BlockPool → Except Exn α × Manager ρ × BlockPool} {index : ℕ}
    {managers : List (Manager ρ)} {results : List α}
    (hresults : (forEachManager method index managers pool).1 = .ok results)
    (hentry : entry ∈ managers.zipIdx index) :
    ∃ met result, (method entry.2 entry.1 met).1 = .ok result := by
  induction managers generalizing index pool results with
  | nil => cases hentry
  | cons manager rest ih =>
    unfold forEachManager at hresults
    dsimp only at hresults
    cases hcalled : (method index manager pool).1 with
    | error exn => rw [hcalled] at hresults; cases hresults
    | ok result =>
      rw [hcalled] at hresults
      obtain ⟨_, hothers, -⟩ := Foundation.Loops.map_eq_ok_iff.1 hresults
      rcases mem_cons.1 hentry with rfl | hrest
      · exact ⟨pool, result, hcalled⟩
      · exact ih hothers hrest

section

variable (hpromise : kv.SlotPromise req call) (hentry : entry ∈ kv.entries)
  (hspare : ¬ entry.1.NeedsBlocks (kv.groupCall req call entry))
include hpromise hentry hspare

omit [DecidableEq ρ] in
theorem SlotPromise.running_of_spare :
    ¬ (call.newComputedBlocks.isSome ∨ 0 < call.numExternalComputedTokens) := by
  intro htakes
  have hflag : (kv.groupCall req call entry).takesComputed = true := by
    rw [groupCall_takesComputed]
    simpa using htakes
  obtain ⟨-, hempty⟩ := (hpromise.serves entry hentry).fresh hflag
  refine hspare ?_
  obtain ⟨manager, _⟩ := entry
  cases manager with
  | mamba base state =>
    intro _
    rw [show base.blocksOf _ = [] from hempty]
    exact Nat.zero_le _
  | _ => trivial

theorem SlotPromise.allocateBlocks_fails (pool : BlockPool) (blocks : List (List ℕ)) :
    ((kv.onPool pool).allocateBlocks req call).1 ≠ .ok blocks := by
  intro hblocks
  rw [allocateBlocks, if_neg (hpromise.running_of_spare hentry hspare)] at hblocks
  obtain ⟨met, _, hres⟩ := exists_ok_of_forEachManager
    (show (forEachManager (fun _ ↦ kv.newCall req call) 0 _ pool).1 = _ from
      hblocks) hentry
  obtain ⟨manager, _⟩ := entry
  cases manager with
  | mamba base state =>
    simp only [NeedsBlocks, Classical.not_imp, not_le] at hspare
    obtain ⟨hmode, hlt⟩ := hspare
    obtain ⟨_, hexn⟩ := MambaState.allocateAligned_of_lt hlt met
    simp only [newCall, allocateNewBlocks, MambaState.allocateNewBlocks, hmode, ne_eq,
      not_true_eq_false, if_false] at hres
    cases hexn.symm.trans hres
  | _ => exact hspare trivial

end

omit [DecidableEq ρ] in
/-- A call can meet pools with any number of free blocks, none of them computed for it. -/
theorem exists_poolFits (kv : KVCacheManager ρ) (req : SlotRequest ρ) (call : SlotCall) (count : ℕ) :
    ∃ pool, kv.PoolFits req call pool ∧ pool.getNumFreeBlocks = count ∧
      ∀ entry ∈ kv.entries, ∀ block ∈ (kv.groupCall req call entry).computed, block ≠ 0 →
        0 < pool.refCnt block := by
  let known := kv.entries.flatMap fun entry ↦
    entry.1.base.blocksOf req.requestId ++ (kv.groupCall req call entry).computed
  have hknown {block : ℕ} (hblock : block ∈ known) :=
    single_le_sum (fun _ _ ↦ Nat.zero_le _) _ hblock
  obtain ⟨pool, hrefs, hcount, hnum, hheld⟩ := BlockPool.exists_refs known.sum count
  have hcomp {entry : Manager ρ × ℕ} (hentry : entry ∈ kv.entries) {block : ℕ}
      (hblock : block ∈ (kv.groupCall req call entry).computed) : block ∈ known :=
    mem_flatMap.2 ⟨entry, hentry, mem_append_right _ hblock⟩
  refine ⟨pool, ⟨hrefs, fun entry hentry block hblock hne ↦ hheld block hne (hknown ?_),
    fun entry hentry block hblock ↦ (hknown (hcomp hentry hblock)).trans_lt hnum⟩, hcount,
    fun entry hentry block hblock hne ↦ hheld block hne (hknown (hcomp hentry hblock))⟩
  exact mem_flatMap.2 ⟨entry, hentry, mem_append_left _ hblock⟩

section

variable (hpromise : kv.SlotPromise req call)
include hpromise

omit [DecidableEq ρ] in
/-- The estimate of a call that takes no computed blocks is the same for every pool. -/
theorem SlotPromise.exists_estimate_of_running
    (hrun : ¬ (call.newComputedBlocks.isSome ∨ 0 < call.numExternalComputedTokens)) :
    ∃ estimate, ∀ pool, (kv.onPool pool).numBlocksToAllocate req call = .ok estimate := by
  let value (entry : Manager ρ × ℕ) : ℤ :=
    (entry.1.estimate kv.blockPool (kv.groupCall req call entry)).toOption.getD 0
  refine ⟨(kv.entries.map value).sum, fun pool ↦ ?_⟩
  refine getNumBlocksToAllocate_eq_sum hpromise _ 0 (fun _ h ↦ h) fun entry hentry ↦ ?_
  have hserves := hpromise.serves entry hentry
  have hflag : (kv.groupCall req call entry).takesComputed = false := by
    rw [groupCall_takesComputed]
    simpa using hrun
  obtain ⟨_, hamount⟩ := hserves.exists_estimate kv.blockPool
  rw [estimate_congr (hserves.running hflag).1 entry.1 _ kv.blockPool]
  simp only [value, hamount]
  rfl

theorem SlotPromise.admissionSound_of_needsBlocks
    (hcap : ∀ entry ∈ kv.entries, entry.1.base.maxAdmissionBlocksPerRequest = none)
    (hneeds : ∀ entry ∈ kv.entries, entry.1.NeedsBlocks (kv.groupCall req call entry)) :
    kv.AdmissionSound req call := by
  obtain ⟨hlen, htrimmed⟩ := hpromise.preparedSlots_trimmed
  refine ⟨fun pool hfits hsome ↦ ?_, allocateSlots_atomic⟩
  have hneedsPrepared : ∀ entry ∈ (kv.preparedSlots req call).entries,
      entry.1.NeedsBlocks ((kv.preparedSlots req call).groupCall req call entry) := by
    intro entry hentry
    obtain ⟨manager, hmem, hmgr⟩ := exists_mem_zipIdx htrimmed hentry
    rw [groupCall_of_trimmed hlen hmgr]
    exact (Trimmed.needsBlocks_iff (by rwa [groupCall_requestId])).2 (hneeds _ hmem)
  have hcapPrepared : ∀ entry ∈ (kv.preparedSlots req call).entries,
      entry.1.base.maxAdmissionBlocksPerRequest = none := by
    intro entry hentry
    obtain ⟨_, hmem, _, hmgr, -⟩ := exists_mem_zipIdx htrimmed hentry
    rw [hmgr, base_withBase]
    exact hcap _ hmem
  obtain ⟨estimate, hest, hcov⟩ := hpromise.prepared.admitted hneedsPrepared hcapPrepared hfits
  have hadmitted : estimate ≤ pool.getNumFreeBlocks := by
    by_contra hrejected
    exact hsome (congrArg Prod.fst (allocatePrepared_of_lt hest (not_le.1 hrejected)))
  obtain ⟨blocks, hblocks, htaken⟩ := hcov hadmitted
  refine ⟨estimate, blocks, hest, hblocks, ?_⟩
  rw [(allocatePrepared_of_le hest hadmitted).2]
  exact htaken

theorem SlotPromise.needsBlocks_of_admissionSound (hsound : kv.AdmissionSound req call)
    (hentry : entry ∈ kv.entries) : entry.1.NeedsBlocks (kv.groupCall req call entry) := by
  by_contra hspare
  obtain ⟨hlen, htrimmed⟩ := hpromise.preparedSlots_trimmed
  obtain ⟨after, hafter, hmgr⟩ := exists_mem_zipIdx htrimmed.flip hentry
  have hspareAfter : ¬ after.NeedsBlocks
      ((kv.preparedSlots req call).groupCall req call (after, entry.2)) := by
    rw [groupCall_of_trimmed hlen hmgr, Trimmed.needsBlocks_iff]
    · exact hspare
    · rwa [groupCall_requestId]
  obtain ⟨estimate, hest⟩ := hpromise.prepared.exists_estimate_of_running
    (hpromise.running_of_spare hentry hspare)
  obtain ⟨pool, hfits, hcount, -⟩ := exists_poolFits _ req call _
  have hadmitted : estimate ≤ pool.getNumFreeBlocks := by
    rw [hcount]
    exact Int.self_le_toNat estimate
  obtain ⟨-, blocks, -, hblocks, -⟩ :=
    hsound.covered pool hfits (allocatePrepared_of_le (hest pool) hadmitted).1
  exact hpromise.prepared.allocateBlocks_fails hafter hspareAfter pool blocks hblocks

end

/-- Without admission caps, admission is sound and failure-atomic exactly if no Mamba group in align mode
has more blocks than the step needs. -/
theorem admissionSound_iff (hpromise : kv.SlotPromise req call)
    (hcap : ∀ entry ∈ kv.entries, entry.1.base.maxAdmissionBlocksPerRequest = none) :
    kv.AdmissionSound req call ↔ ∀ entry ∈ kv.entries, entry.1.NeedsBlocks (kv.groupCall req call entry) :=
  ⟨fun hsound _ hentry ↦ hpromise.needsBlocks_of_admissionSound hsound hentry,
    hpromise.admissionSound_of_needsBlocks hcap⟩

/-! ## Rejected draft tokens -/

/-- Full attention and a Mamba group in align mode with two speculative blocks, of four tokens each. -/
def alignedKv (pool : BlockPool) : KVCacheManager ℕ :=
  { maxModelLen := 64, enableCaching := true, blockPool := pool
    singleTypeManagers := [
      .fullAttention (.init ⟨.fullAttention, 4, by decide⟩ true 0 1 1 none),
      .mamba (.init ⟨.mamba .align 2, 4, by decide⟩ true 1 1 1 none) (.init .align 2)] }

def draftRequest (numComputedTokens numTokens : ℕ) : SlotRequest ℕ :=
  { requestId := 0, blockHashes := [], numComputedTokens, numTokens, nelssaLongMask := false }

theorem promise_prompt (pool : BlockPool) :
    (alignedKv pool).SlotPromise (draftRequest 0 2) { numNewTokens := 2 } where
  indexed := fun _ _ ↦ ⟨[], rfl⟩
  fits := Nat.zero_le _
  counted := by decide
  short := rfl
  serves := by
    intro entry hentry
    simp only [entries, alignedKv, zipIdx_cons, zipIdx_nil, mem_cons, not_mem_nil, or_false] at hentry
    rcases hentry with rfl | rfl
    · exact ⟨nofun, fun _ ↦ ⟨rfl, rfl⟩, fun _ ↦ Nat.zero_le _, .inl rfl, le_rfl, trivial⟩
    · exact ⟨nofun, fun _ ↦ ⟨rfl, rfl⟩, fun _ ↦ Nat.zero_le _, .inl rfl, le_rfl, rfl,
        fun _ ↦ ⟨.inl rfl, nofun⟩⟩

theorem admissionSound_prompt : ∃ pool, BlockPool.init 8 true 4 = .ok pool ∧
    (alignedKv pool).AdmissionSound (draftRequest 0 2) { numNewTokens := 2 } := by
  refine ⟨_, rfl, (admissionSound_iff (promise_prompt _) ?_).2 ?_⟩
  all_goals
    intro entry hentry
    simp only [entries, alignedKv, zipIdx_cons, zipIdx_nil, mem_cons, not_mem_nil, or_false] at hentry
    rcases hentry with rfl | rfl
  · rfl
  · rfl
  · trivial
  · exact fun _ ↦ Nat.zero_le _

/-- The prompt of two tokens, and then one token with two drafts. -/
def draftedKv (pool : BlockPool) : KVCacheManager ℕ :=
  let prefilled := ((alignedKv pool).allocateSlots (draftRequest 0 2) { numNewTokens := 2 }).2
  (prefilled.allocateSlots (draftRequest 2 3) { numNewTokens := 3 }).2

/-- After both drafts are rejected, a step with one token needs fewer blocks than the Mamba group has. The
estimate is negative, the call is admitted, and the assertion of the group fails. -/
theorem rejectedDrafts_raise : ∃ pool, BlockPool.init 8 true 4 = .ok pool ∧
    (draftedKv pool).getBlocks 0 = [[1, 5], [2, 3, 4, 6]] ∧
    ((draftedKv pool).preparedSlots (draftRequest 3 4) { numNewTokens := 1 }).numBlocksToAllocate
      (draftRequest 3 4) { numNewTokens := 1 } = .ok (-1) ∧
    ((draftedKv pool).allocateSlots (draftRequest 3 4) { numNewTokens := 1 }).1 =
      .error (.assertionError "num_required_blocks 3 < len(req_blocks) 4") ∧
    ((draftedKv pool).allocateSlots (draftRequest 3 4) { numNewTokens := 1 }).2.blockPool.getNumFreeBlocks =
      ((draftedKv pool).preparedSlots (draftRequest 3 4) { numNewTokens := 1 }).blockPool.getNumFreeBlocks :=
  ⟨_, rfl, rfl, rfl, rfl, rfl⟩

end KVCacheManager

end Nelssa.Core
