import Nelssa.Core.KVCacheManager
import Nelssa.Core.PoolRefs

/-!
# Admission of long requests

`allocate_slots` compares an estimate with the number of free blocks before it allocates. For a long
request the estimate is head, tail and the blocks of the new tokens, less the blocks that the request
has. The allocation takes the computed blocks that lie in the free queue and then fills the block list
up to the last token. The estimate covers what is taken exactly under an arithmetic condition, which
fails for a later chunk of a prefill and for cached blocks that nobody holds.
-/

namespace Nelssa.Core

open Foundation.BlockArithmetic ManagerBase BlockPool
open List hiding max not_le

variable {ρ : Type*} [DecidableEq ρ]

/-! ## What is taken from the free queue -/

variable {pool : BlockPool} {held : ℕ → ℕ} {free : List ℕ}

theorem BlockPool.Refs.getNumFreeBlocks_eq (hpool : pool.Refs held free) :
    pool.getNumFreeBlocks = free.length :=
  hpool.represents.count

theorem BlockPool.Refs.getNumFreeBlocks_touch {blocks : List ℕ} (hpool : pool.Refs held free)
    (hblocks : ∀ block ∈ blocks, block < pool.numGpuBlocks) (hnodup : blocks.Nodup) :
    (pool.touch blocks).2.getNumFreeBlocks + getNumEvictableBlocks pool blocks =
      pool.getNumFreeBlocks := by
  induction blocks generalizing pool held free with
  | nil => rfl
  | cons block rest ih =>
    obtain ⟨hnew, hrest⟩ := nodup_cons.1 hnodup
    obtain ⟨queue, _, htouch, hnext, hlen⟩ := hpool.touch_cons (hblocks block mem_cons_self) rest
    have hothers := ih hnext (fun other hother ↦ hblocks other (mem_cons_of_mem block hother)) hrest
    have hsame : getNumEvictableBlocks ({ pool with freeBlockQueue := queue }.addRef block 1) rest =
        getNumEvictableBlocks pool rest := by
      refine countP_congr fun other hother ↦ ?_
      have hne : other ≠ block := fun h ↦ hnew (h ▸ hother)
      simp [addRef, hne]
    have hcons : getNumEvictableBlocks pool (block :: rest) =
        getNumEvictableBlocks pool rest +
          if pool.refCnt block = 0 ∧ pool.isNull block = false then 1 else 0 := by
      simp [getNumEvictableBlocks, countP_cons]
    rw [htouch, hcons, ← hsame, ← add_assoc, hothers, hnext.getNumFreeBlocks_eq, hlen,
      hpool.getNumFreeBlocks_eq]

variable {computed : List ℕ}

namespace ManagerBase

section

variable (hpool : pool.Refs held free) (base : ManagerBase ρ) (reqId : ρ)
include hpool base reqId

theorem extendBlocks_isOk (numBlocks : ℕ) :
    (base.extendBlocks pool reqId numBlocks).1.isOk = true ↔ numBlocks ≤ pool.getNumFreeBlocks := by
  by_cases hnum : numBlocks ≤ pool.getNumFreeBlocks
  · simp [extendBlocks, (hpool.getNewBlocks hnum).1, hnum, Except.isOk, Except.toBool]
  · simp [extendBlocks, getNewBlocks_of_lt (Nat.cast_lt.2 (not_le.1 hnum)), hnum, Except.isOk, Except.toBool]

theorem extendBlocks_spec {numBlocks : ℕ} (hnum : numBlocks ≤ pool.getNumFreeBlocks) :
    ((base.extendBlocks pool reqId numBlocks).2.1.blocksOf reqId).length =
        (base.blocksOf reqId).length + numBlocks ∧
      (base.extendBlocks pool reqId numBlocks).2.1.blockSize = base.blockSize ∧
      (∃ held' free', (base.extendBlocks pool reqId numBlocks).2.2.Refs held' free') ∧
      (base.extendBlocks pool reqId numBlocks).2.2.getNumFreeBlocks + numBlocks =
        pool.getNumFreeBlocks := by
  obtain ⟨hok, hnext⟩ := hpool.getNewBlocks hnum
  have hlen : numBlocks ≤ free.length := by rwa [← hpool.getNumFreeBlocks_eq]
  have hrecord (other : ManagerBase ρ) (blocks : List ℕ) :
      (other.recordNewBlocks blocks).reqToBlocks = other.reqToBlocks ∧
        (other.recordNewBlocks blocks).blockSize = other.blockSize := by
    unfold recordNewBlocks
    split <;> exact ⟨rfl, rfl⟩
  simp only [extendBlocks, hok]
  refine ⟨?_, (hrecord _ _).2, ⟨_, _, hnext⟩, ?_⟩
  · rw [blocksOf, (hrecord _ _).1]
    simp [setBlocks, hlen]
  · rw [hnext.getNumFreeBlocks_eq, hpool.getNumFreeBlocks_eq, length_drop]
    omega

theorem allocateNewBlocks_isOk (numTokens : ℕ) :
    (base.allocateNewBlocks pool reqId numTokens).1.isOk = true ↔
      cdiv numTokens base.blockSize - (base.blocksOf reqId).length ≤ pool.getNumFreeBlocks := by
  unfold allocateNewBlocks
  dsimp only
  split
  · exact iff_of_true rfl (by omega)
  · exact extendBlocks_isOk hpool _ reqId _

end

/-- A new request takes its computed blocks and then blocks for the tokens computed elsewhere. -/
theorem allocateNewComputedBlocks_eq (hpool : pool.Refs held free) {base : ManagerBase ρ} {reqId : ρ}
    (hnew : base.numCachedBlock reqId = none) (hempty : base.blocksOf reqId = [])
    (hcaching : base.enableCaching = true ∨ computed = [])
    (hbound : ∀ block ∈ computed, block < pool.numGpuBlocks) (hnodup : computed.Nodup)
    {numLocalComputedTokens : ℕ} (hfull : base.blockSize * computed.length ≤ numLocalComputedTokens)
    (numExternalComputedTokens : ℕ) :
    ∃ marked touched, marked.blockSize = base.blockSize ∧ marked.blocksOf reqId = computed ∧
      (∃ held' free', BlockPool.Refs touched held' free') ∧
      touched.getNumFreeBlocks + getNumEvictableBlocks pool computed = pool.getNumFreeBlocks ∧
      base.allocateNewComputedBlocks pool (fun _ ↦ 0) reqId computed numLocalComputedTokens
          numExternalComputedTokens =
        if 0 < numExternalComputedTokens then
          let extended := marked.extendBlocks touched reqId
            (cdiv (numLocalComputedTokens + numExternalComputedTokens) base.blockSize - computed.length : ℕ)
          (extended.1.map fun _ ↦ (), extended.2)
        else (.ok (), marked, touched) := by
  have htouch : ∃ touched, (if base.enableCaching then pool.touch computed
      else if computed ≠ [] then (.error (.assertionError
        "Computed blocks should be empty when prefix caching is disabled"), pool)
      else (.ok (), pool)) = (.ok (), touched) ∧
      (∃ held' free', BlockPool.Refs touched held' free') ∧
      touched.getNumFreeBlocks + getNumEvictableBlocks pool computed = pool.getNumFreeBlocks := by
    cases hflag : base.enableCaching with
    | true =>
      obtain ⟨hok, _, hnext⟩ := hpool.touch hbound
      exact ⟨_, Prod.ext hok rfl, ⟨_, _, hnext⟩, hpool.getNumFreeBlocks_touch hbound hnodup⟩
    | false =>
      have hnone : computed = [] := by simpa [hflag] using hcaching
      subst hnone
      exact ⟨pool, rfl, ⟨_, _, hpool⟩, rfl⟩
  obtain ⟨touched, htouched, hrefs, hfree⟩ := htouch
  let opened := (base.setBlocks reqId (base.blocksOf reqId)).setBlocks reqId computed
  refine ⟨{ opened with
    numCachedBlock := Function.update opened.numCachedBlock reqId (some computed.length) },
    touched, rfl, ?_, hrefs, hfree, ?_⟩
  · simp [blocksOf, opened, setBlocks]
  · simp only [allocateNewComputedBlocks, hnew, hempty, ne_eq, not_true_eq_false, if_false,
      Nat.zero_div, drop_zero, replicate_zero, nil_append, lt_self_iff_false]
    rw [htouched]
    have hcover := le_mul_cdiv base.blockSize_pos (numLocalComputedTokens + numExternalComputedTokens)
    have hlocal :=
      le_of_mul_le_mul_left ((hfull.trans (Nat.le_add_right _ _)).trans hcover) base.blockSize_pos
    simp [opened, hempty, Nat.cast_sub hlocal]

end ManagerBase

theorem isOk_map {α β : Type*} (result : Except Exn α) (f : α → β) : (result.map f).isOk = result.isOk := by
  cases result <;> rfl

namespace KVCacheManager

variable {kv : KVCacheManager ρ}

omit [DecidableEq ρ] in
theorem runManagers_singleton {α : Type*} {manager : Manager ρ}
    (hmanagers : kv.singleTypeManagers = [manager])
    (method : ℕ → Manager ρ → BlockPool → Except Exn α × Manager ρ × BlockPool) :
    kv.runManagers method =
      ((method 0 manager kv.blockPool).1.map fun result ↦ [result],
        { kv with
          singleTypeManagers := [(method 0 manager kv.blockPool).2.1]
          blockPool := (method 0 manager kv.blockPool).2.2 }) := by
  rw [runManagers, hmanagers, forEachManager]
  cases hcalled : (method 0 manager kv.blockPool).1 with
  | error exn => simp [Except.map]
  | ok result => simp [forEachManager, Except.map]

/-! ## Long requests -/

section

variable (kv : KVCacheManager ρ) (base : ManagerBase ρ)

/-- A call of `allocate_slots` for a request of the only group, which the NELSSA manager serves. Only a
new request comes with computed blocks or external tokens. Its computed blocks are distinct blocks of
the pool, full of computed tokens; computed tokens stay within the model length, and the new tokens are
a count. -/
structure LongCall (state : NelssaState ρ) (req : SlotRequest ρ) (call : SlotCall) (computed : List ℕ)
    : Prop where
  managers : kv.singleTypeManagers = [.nelssa base state]
  refs : ∃ held free, kv.blockPool.Refs held free
  computed_eq : computedBlocksAt call 0 = .ok computed
  fresh : (call.newComputedBlocks = none ∧ call.numExternalComputedTokens = 0) ∨
    (base.numCachedBlock req.requestId = none ∧ base.blocksOf req.requestId = [])
  caching : base.enableCaching = true ∨ computed = []
  bound : ∀ block ∈ computed, block < kv.blockPool.numGpuBlocks
  nodup : computed.Nodup
  full : base.blockSize * computed.length ≤ call.numNewComputedTokens
  fits : totalComputedTokens req call ≤ kv.maxModelLen
  counted : 0 ≤ call.numNewTokens

/-- The blocks that an allocation takes out of the free queue. -/
def numTakenBlocks (req : SlotRequest ρ) (call : SlotCall) (computed : List ℕ) : ℕ :=
  getNumEvictableBlocks kv.blockPool computed +
    (cdiv (kv.numTokensNeedSlot req call) base.blockSize -
      ((base.blocksOf req.requestId).length + computed.length))

end

/-- Head and tail blocks of a request with its current tokens. -/
def numRetainedBlocks (base : ManagerBase ρ) (state : NelssaState ρ) (req : SlotRequest ρ) : ℕ :=
  cdiv state.headSize base.blockSize + (state.computeTailLayout base.blockSize req.numTokens).1

namespace LongCall

variable {base : ManagerBase ρ} {state : NelssaState ρ} {req : SlotRequest ρ} {call : SlotCall}
    
section

variable (hcall : LongCall kv base state req call computed)
include hcall

section

omit [DecidableEq ρ]

theorem computed_eq_nil (hnone : call.newComputedBlocks = none) : computed = [] := by
  have hcomp := hcall.computed_eq
  rw [computedBlocksAt, hnone] at hcomp
  exact (Except.ok.inj hcomp).symm

theorem totalComputedTokens_le : totalComputedTokens req call ≤ kv.numTokensNeedSlot req call := by
  have hfits := hcall.fits
  have hcounted := hcall.counted
  unfold numTokensNeedSlot numTokensMainModel
  omega

theorem length_computed_le : computed.length ≤ cdiv (kv.numTokensNeedSlot req call) base.blockSize := by
  have hfull := hcall.full
  have htotal := hcall.totalComputedTokens_le
  have hcover := le_mul_cdiv base.blockSize_pos (kv.numTokensNeedSlot req call)
  refine le_of_mul_le_mul_left ?_ base.blockSize_pos
  unfold totalComputedTokens at htotal
  omega

end

theorem mark (promptLen : ℕ) :
    LongCall (kv.markLongRequest req.requestId promptLen) base
      (state.markLongRequest base.blockSize req.requestId promptLen) req call computed :=
  { hcall with managers := by rw [markLongRequest, hcall.managers]; rfl }

theorem numBlocksToAllocate_eq :
    (kv.markLongRequest req.requestId req.numTokens).numBlocksToAllocate req call =
      .ok ((numRetainedBlocks base state req +
        cdiv (kv.numTokensNeedSlot req call - totalComputedTokens req call) base.blockSize -
          (base.blocksOf req.requestId).length : ℕ) : ℤ) := by
  have hmarked := (hcall.mark req.numTokens).managers
  simp only [numBlocksToAllocate, hmarked, getNumBlocksToAllocate, hcall.computed_eq,
    Manager.getNumBlocksToAllocate, NelssaState.getNumBlocksToAllocate, NelssaState.markLongRequest,
    Function.update_self, if_true, Option.getD_some, Except.map, add_zero]
  rfl

theorem allocateBlocks_isOk_iff (hcomp : call.newComputedBlocks.isSome ∨ 0 < call.numExternalComputedTokens)
    {stage : Except Exn Unit × ManagerBase ρ × BlockPool}
    (hstaged : base.allocateNewComputedBlocks kv.blockPool (fun _ ↦ 0) req.requestId computed
      (req.numComputedTokens + call.numNewComputedTokens) call.numExternalComputedTokens = stage) :
    (kv.allocateBlocks req call).1.isOk = true ↔ stage.1.isOk = true ∧
      (stage.2.1.allocateNewBlocks stage.2.2 req.requestId (kv.numTokensNeedSlot req call)).1.isOk = true := by
  have hskip : (Manager.nelssa base state).getNumSkippedTokens = fun _ ↦ 0 := rfl
  rw [allocateBlocks, if_pos hcomp, runManagers_singleton hcall.managers]
  simp only [hcall.computed_eq, Manager.allocateNewComputedBlocks, Manager.base, hskip, hstaged]
  cases hstage : stage.1 with
  | error exn => simp [Except.map, Except.isOk, Except.toBool]
  | ok result =>
    simp only [Except.map]
    rw [runManagers_singleton rfl, isOk_map]
    exact (and_iff_right rfl).symm

/-- A long request gets its blocks exactly if as many are free as are taken. -/
theorem allocateBlocks_isOk :
    (kv.allocateBlocks req call).1.isOk = true ↔
      kv.numTakenBlocks base req call computed ≤ kv.blockPool.getNumFreeBlocks := by
  obtain ⟨_, _, hrefs⟩ := hcall.refs
  by_cases hplain : call.newComputedBlocks = none ∧ call.numExternalComputedTokens = 0
  · obtain rfl := hcall.computed_eq_nil hplain.1
    have hskip : ¬ (call.newComputedBlocks.isSome ∨ 0 < call.numExternalComputedTokens) := by
      simp [hplain.1, hplain.2]
    rw [allocateBlocks, if_neg hskip]
    rw [runManagers_singleton hcall.managers, isOk_map]
    refine (allocateNewBlocks_isOk hrefs base _ _).trans ?_
    rw [numTakenBlocks, getNumEvictableBlocks, countP_nil, length_nil, zero_add, add_zero]
  · obtain ⟨hnone, hempty⟩ := hcall.fresh.resolve_left hplain
    have hstage : call.newComputedBlocks.isSome ∨ 0 < call.numExternalComputedTokens := by
      rw [not_and_or, ← Ne, Option.ne_none_iff_isSome] at hplain
      exact hplain.imp_right pos_of_ne_zero
    have hmono : cdiv (req.numComputedTokens + call.numNewComputedTokens +
        call.numExternalComputedTokens) base.blockSize ≤
        cdiv (kv.numTokensNeedSlot req call) base.blockSize :=
      cdiv_mono base.blockSize_pos hcall.totalComputedTokens_le
    obtain ⟨marked, touched, hsize, hblocks, ⟨heldTouched, _, htouched⟩, hfree, hcomp⟩ :=
      allocateNewComputedBlocks_eq hrefs hnone hempty hcall.caching hcall.bound hcall.nodup
        (hcall.full.trans (Nat.le_add_left _ req.numComputedTokens)) _
    rw [hcall.allocateBlocks_isOk_iff hstage hcomp, numTakenBlocks, hempty, length_nil]
    split
    · -- Blocks for external tokens come first; they are part of what the last token needs.
      rw [isOk_map, extendBlocks_isOk htouched]
      by_cases hext : cdiv (req.numComputedTokens + call.numNewComputedTokens +
          call.numExternalComputedTokens) base.blockSize - computed.length ≤ touched.getNumFreeBlocks
      · obtain ⟨hlen, hextendedSize, ⟨heldNext, _, hnext⟩, hrest⟩ :=
          extendBlocks_spec htouched marked _ hext
        rw [allocateNewBlocks_isOk hnext, hlen, hextendedSize, hsize, hblocks]
        omega
      · omega
    · rw [allocateNewBlocks_isOk htouched, hsize, hblocks]
      refine (and_iff_right rfl).trans ?_
      omega

end

/-- The estimate covers what the allocation takes exactly if the blocks of all tokens and the cached
blocks that nobody holds fit into the cached blocks and the larger of the blocks that the request has
and its head, tail and new blocks; and the allocation succeeds exactly if what it takes is free. -/
theorem estimate_covers_iff (hcall : LongCall kv base state req call computed) :
    (∃ estimate, (kv.markLongRequest req.requestId req.numTokens).numBlocksToAllocate
        req call = .ok estimate ∧
      ((kv.numTakenBlocks base req call computed : ℤ) ≤ estimate ↔
        cdiv (kv.numTokensNeedSlot req call) base.blockSize + getNumEvictableBlocks kv.blockPool computed ≤
          computed.length + max (base.blocksOf req.requestId).length
            (numRetainedBlocks base state req +
              cdiv (kv.numTokensNeedSlot req call - totalComputedTokens req call) base.blockSize))) ∧
    (((kv.markLongRequest req.requestId req.numTokens).allocateBlocks req call).1.isOk = true ↔
      kv.numTakenBlocks base req call computed ≤ kv.blockPool.getNumFreeBlocks) := by
  refine ⟨⟨_, hcall.numBlocksToAllocate_eq, ?_⟩, (hcall.mark _).allocateBlocks_isOk⟩
  have hcover := hcall.length_computed_le
  rw [numTakenBlocks]
  rcases hcall.fresh with hplain | hnew
  · obtain rfl := hcall.computed_eq_nil hplain.1
    simp only [getNumEvictableBlocks, countP_nil, length_nil]
    omega
  · rw [hnew.2, length_nil]
    omega

end LongCall

/-! ## Two chunks of a prefill -/

/-- A group with blocks of one token, one head and one tail token and no prefix caching. -/
def smallKv (pool : BlockPool) : KVCacheManager ℕ :=
  { maxModelLen := 64, enableCaching := false, blockPool := pool
    singleTypeManagers := [.nelssa
      (.init ⟨.fullAttention, 1, Nat.one_pos⟩ false 0 1 1 none)
      (.init { enabled := true, firstN := 1, lastM := 1, promptLengthThreshold := 8 })] }

def longRequest (numComputedTokens : ℕ) : SlotRequest ℕ :=
  { requestId := 0, blockHashes := [], numComputedTokens, numTokens := 8, nelssaLongMask := true }

def halfPrompt : SlotCall := { numNewTokens := 4 }

theorem longCall_firstChunk (hinit : init 7 false 1 = .ok pool) :
    LongCall (smallKv pool) (.init ⟨.fullAttention, 1, Nat.one_pos⟩ false 0 1 1 none)
      (.init { enabled := true, firstN := 1, lastM := 1, promptLengthThreshold := 8 })
      (longRequest 0) halfPrompt [] where
  managers := rfl
  refs := ⟨_, (init_spec hinit).2.2.2⟩
  computed_eq := rfl
  fresh := .inl ⟨rfl, rfl⟩
  caching := .inr rfl
  bound := by simp
  nodup := nodup_nil
  full := by decide
  fits := (Nat.zero_le 64)
  counted := by decide

theorem estimate_covers_firstChunk : ∃ pool, init 7 false 1 = .ok pool ∧
    ∃ estimate, ((smallKv pool).markLongRequest 0 8).numBlocksToAllocate (longRequest 0) halfPrompt =
      .ok estimate ∧
    ((smallKv pool).numTakenBlocks (.init ⟨.fullAttention, 1, Nat.one_pos⟩ false 0 1 1 none)
      (longRequest 0) halfPrompt [] : ℤ) ≤ estimate := by
  obtain ⟨estimate, hestimate, hcovers⟩ := (LongCall.estimate_covers_iff (longCall_firstChunk rfl)).1
  exact ⟨_, rfl, estimate, hestimate, hcovers.2 (by decide)⟩

/-- The second half of the prompt passes the comparison with two free blocks and then asks for four. -/
theorem secondChunk_raises : ∃ pool, init 7 false 1 = .ok pool ∧
    ((smallKv pool).allocateSlots (longRequest 0) halfPrompt).1 = .ok (some [[1, 2, 3, 4]]) ∧
    ((smallKv pool).allocateSlots (longRequest 0) halfPrompt).2.blockPool.getNumFreeBlocks = 2 ∧
    (((smallKv pool).allocateSlots (longRequest 0) halfPrompt).2.markLongRequest 0 8).numBlocksToAllocate
      (longRequest 4) halfPrompt = .ok 2 ∧
    (((smallKv pool).allocateSlots (longRequest 0) halfPrompt).2.allocateSlots (longRequest 4)
      halfPrompt).1 = .error (.valueError "Cannot get 4 free blocks from the pool") :=
  ⟨_, rfl, rfl, rfl, rfl, rfl⟩

end KVCacheManager

end Nelssa.Core
