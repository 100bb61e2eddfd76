import Nelssa.Core.Managers
import Nelssa.Core.PoolRefs

/-!
# NELSSA when it is disabled

The coordinator passes the NELSSA options of the cache configuration to the factory of the managers.
These options always exist, so that the factory builds the NELSSA manager for every group, also with
`enabled = False`. Without long requests that manager behaves like the one for full attention. The two
are compared with the managers of the spec types by what can be observed of them: the results of all
operations and the pool after each of them.
-/

namespace Nelssa.Core

open Foundation.BlockArithmetic HitQuery ManagerBase

variable {ρ : Type*} [DecidableEq ρ] {pool : BlockPool} {spec : KVCacheSpec}

inductive ManagerOp (ρ : Type*) where
  | getNumBlocksToAllocate (reqId : ρ) (numTokens : ℕ) (newComputedBlocks : List ℕ)
      (totalComputedTokens numTokensMainModel : ℕ)
  | allocateNewComputedBlocks (reqId : ρ) (newComputedBlocks : List ℕ)
      (numLocalComputedTokens numExternalComputedTokens : ℕ)
  | allocateNewBlocks (reqId : ρ) (numTokens numTokensMainModel : ℕ)
  | cacheBlocks (req : CacheRequest ρ) (numTokens : ℕ)
  | removeSkippedBlocks (reqId : ρ) (totalComputedTokens : ℕ)
  | free (reqId : ρ)
  | findLongestCacheHit (query : HitQuery)

inductive ManagerResult where
  | numBlocks (result : Except Exn ℤ)
  | done (result : Except Exn Unit)
  | blocks (result : Except Exn (List ℕ))
  | hits (result : Except Exn (List (List ℕ)))

variable {state : NelssaState ρ}

namespace Manager

def step (manager : Manager ρ) (pool : BlockPool) :
    ManagerOp ρ → ManagerResult × Manager ρ × BlockPool
  | .getNumBlocksToAllocate reqId numTokens newComputedBlocks totalComputedTokens
      numTokensMainModel =>
    (.numBlocks (manager.getNumBlocksToAllocate pool reqId numTokens newComputedBlocks
      totalComputedTokens numTokensMainModel), manager, pool)
  | .allocateNewComputedBlocks reqId newComputedBlocks numLocalComputedTokens
      numExternalComputedTokens =>
    let allocated := manager.allocateNewComputedBlocks pool reqId newComputedBlocks
      numLocalComputedTokens numExternalComputedTokens
    (.done allocated.1, allocated.2)
  | .allocateNewBlocks reqId numTokens numTokensMainModel =>
    let allocated := manager.allocateNewBlocks pool reqId numTokens numTokensMainModel
    (.blocks allocated.1, allocated.2)
  | .cacheBlocks req numTokens =>
    let cached := manager.cacheBlocks pool req numTokens
    (.done cached.1, cached.2)
  | .removeSkippedBlocks reqId totalComputedTokens =>
    let removed := manager.removeSkippedBlocks pool reqId totalComputedTokens
    (.done removed.1, removed.2)
  | .free reqId =>
    let freed := manager.free pool reqId
    (.done freed.1, freed.2)
  | .findLongestCacheHit query => (.hits (manager.findLongestCacheHit pool query), manager, pool)

/-- The results of a sequence of operations with the pool after each of them. -/
def trace (manager : Manager ρ) (pool : BlockPool) : List (ManagerOp ρ) → List (ManagerResult × BlockPool)
  | [] => []
  | op :: rest =>
    let next := manager.step pool op
    (next.1, next.2.2) :: next.2.1.trace next.2.2 rest

variable (hshort : ∀ reqId, state.longRequests reqId = false) (base : ManagerBase ρ) (pool : BlockPool)
include hshort

/-- Without long requests a step of the NELSSA manager is a step of the manager for full attention. -/
theorem step_nelssa (op : ManagerOp ρ) :
    ∃ base', (nelssa base state).step pool op =
        (((fullAttention base).step pool op).1, nelssa base' state, ((fullAttention base).step pool op).2.2) ∧
      ((fullAttention base).step pool op).2.1 = fullAttention base' := by
  cases op with
  | getNumBlocksToAllocate reqId numTokens newComputedBlocks totalComputedTokens numTokensMainModel =>
    refine ⟨base, ?_, rfl⟩
    simp only [step, getNumBlocksToAllocate, NelssaState.getNumBlocksToAllocate, hshort,
      Bool.false_eq_true, if_false]
    rfl
  | allocateNewComputedBlocks => exact ⟨_, rfl, rfl⟩
  | allocateNewBlocks => exact ⟨_, rfl, rfl⟩
  | cacheBlocks => exact ⟨_, rfl, rfl⟩
  | removeSkippedBlocks => exact ⟨_, rfl, rfl⟩
  | free => exact ⟨_, rfl, rfl⟩
  | findLongestCacheHit => exact ⟨_, rfl, rfl⟩

theorem trace_nelssa (ops : List (ManagerOp ρ)) :
    (nelssa base state).trace pool ops = (fullAttention base).trace pool ops := by
  induction ops generalizing base pool with
  | nil => rfl
  | cons op rest ih =>
    obtain ⟨base', hstep, hfull⟩ := step_nelssa hshort base pool op
    rw [trace, trace, hstep, hfull]
    exact congrArg _ (ih base' _)

end Manager

/-- What can be seen of a manager: the pool that its construction leaves and its trace. -/
def observe (created : Except Exn (Manager ρ) × BlockPool) (ops : List (ManagerOp ρ)) :
    BlockPool × Except Exn (List (ManagerResult × BlockPool)) :=
  (created.2, created.1.map fun manager ↦ manager.trace created.2 ops)

theorem result_eq_of_observe_eq {left right : Manager ρ} {op : ManagerOp ρ}
    (hsame : observe (.ok left, pool) [op] = observe (.ok right, pool) [op]) :
    (left.step pool op).1 = (right.step pool op).1 := by
  simp only [observe, Manager.trace, Except.map, Prod.mk.injEq, Except.ok.injEq, List.cons.injEq] at hsame
  exact hsame.2.1.1

/-- A search for a request of one token. -/
def shortQuery (kvCacheGroupId alignmentTokens : ℕ) : HitQuery :=
  { blockHashes := [], maxLength := 0, kvCacheGroupIds := [kvCacheGroupId], useEagle := false
    alignmentTokens, dcpWorldSize := 1, pcpWorldSize := 1 }

variable {base : ManagerBase ρ} {manager : Manager ρ}

/-- A search separates the NELSSA manager from one whose search does not fail an assertion. -/
theorem observe_nelssa_ne {query : HitQuery} (hfull : base.kvCacheSpec.kind.isFullAttention = false)
    (hchunked : base.kvCacheSpec.kind.isChunkedLocal = false)
    (hhit : ∀ message, manager.findLongestCacheHit pool query ≠ .error (.assertionError message)) :
    observe (.ok (.nelssa base state), pool) [.findLongestCacheHit query] ≠
      observe (.ok manager, pool) [.findLongestCacheHit query] := by
  intro hsame
  have hfails : ∃ message, query.fullAttention pool base.kvCacheSpec = .error (.assertionError message) := by
    simp [fullAttention, hfull, hchunked]
  obtain ⟨message, hfails⟩ := hfails
  exact hhit message ((ManagerResult.hits.inj (result_eq_of_observe_eq hsame)).symm.trans hfails)

theorem slidingWindow_hit_shortQuery {window : ℕ}
    (hkind : spec.kind = .slidingWindow window ∨ spec.kind = .slidingWindowMLA window)
    (kvCacheGroupId : ℕ) (pool : BlockPool) :
    (shortQuery kvCacheGroupId spec.blockSize).slidingWindow pool spec = .ok [[]] := by
  have hpop : (shortQuery kvCacheGroupId spec.blockSize).popUnaligned spec.blockSize [] = [] := by
    unfold popUnaligned
    exact if_neg fun h ↦ h.1 rfl
  rcases hkind with hkind | hkind <;>
    simp [slidingWindow, hkind, shortQuery, windowHits, perGroup] <;>
    simpa [shortQuery] using hpop

theorem mamba_hit_shortQuery {mode : MambaCacheMode} {numSpeculativeBlocks : ℕ}
    (hkind : spec.kind = .mamba mode numSpeculativeBlocks) (kvCacheGroupId : ℕ) (pool : BlockPool) :
    (shortQuery kvCacheGroupId spec.blockSize).mamba pool spec = .ok [[]] := by
  simp [mamba, hkind, shortQuery, lastHit, perGroup, Except.map]

omit [DecidableEq ρ] in
/-- A request whose first chunks were computed elsewhere needs a block for every token under full
attention, but only one block under chunked-local attention. -/
theorem chunkedLocal_numBlocks_ne (base other : ManagerBase ρ) (hsize : base.blockSize = other.blockSize)
    (hbase : base.maxAdmissionBlocksPerRequest = none) (hunknown : ∀ reqId,
      base.reqToBlocks reqId = none ∧ base.numCachedBlock reqId = none ∧
      other.reqToBlocks reqId = none ∧ other.numCachedBlock reqId = none)
    (chunkSize : ℕ+) (pool : BlockPool) (reqId : ρ) :
    base.getNumBlocksToAllocate pool (fun _ ↦ 0) reqId (chunkSize * base.blockSize + 1) []
        (chunkSize * base.blockSize) ≠
      other.getNumBlocksToAllocate pool (fun count ↦ count / chunkSize * chunkSize) reqId
        (chunkSize * base.blockSize + 1) [] (chunkSize * base.blockSize) := by
  obtain ⟨hblocks, hcached, hotherBlocks, hotherCached⟩ := hunknown reqId
  have hpos := base.blockSize_pos
  have hchunk := chunkSize.pos
  have hneeded : cdiv (chunkSize * base.blockSize + 1) base.blockSize = chunkSize + 1 := by
    have hone := le_antisymm ((cdiv_le_iff hpos 1 1).2 (by omega)) ((cdiv_pos_iff hpos 1).2 one_pos)
    rw [add_comm, mul_comm, cdiv_add_mul hpos, hone, add_comm]
  have hskipped : (chunkSize : ℕ) * base.blockSize / chunkSize * chunkSize / base.blockSize = chunkSize := by
    rw [Nat.mul_div_cancel_left _ hchunk, Nat.mul_div_cancel_left _ hpos]
  have hzero : 0 / base.blockSize = 0 := Nat.zero_div _
  simp only [getNumBlocksToAllocate, blocksOf, hbase, hblocks, hcached,
    hotherBlocks, hotherCached, ← hsize, hneeded, hskipped, hzero, getNumEvictableBlocks,
    Option.getD_none, List.length_nil, List.drop_nil, List.countP_nil, ne_eq, Except.ok.injEq,
    Nat.cast_inj]
  split <;> omega

section

variable {sinkLen : Option ℕ} (hkind : spec.kind = .sinkFullAttention sinkLen)
include hkind

omit [DecidableEq ρ] in
theorem pool_ne_of_sinkManager {result : BlockPool}
    (hmgr : specManager spec base pool = (.ok manager, result)) : result ≠ pool := by
  cases sinkLen with
  | none => simp [specManager, hkind] at hmgr
  | some sinkLen =>
    simp only [specManager, hkind] at hmgr
    split at hmgr
    · simp at hmgr
    · rename_i hlen
      rw [not_or, not_not] at hlen
      have hcount : sinkLen / base.blockSize ≠ 0 := by
        have hle := Nat.le_of_dvd (pos_of_ne_zero hlen.1) (Nat.dvd_of_mod_eq_zero hlen.2)
        exact (Nat.div_pos hle base.blockSize_pos).ne'
      cases hpop : pool.freeBlockQueue.popleftN (sinkLen / base.blockSize) with
      | error exn => simp [hpop] at hmgr
      | ok popped =>
        have hnum := FreeKVCacheBlockQueue.numFreeBlocks_popleftN hcount hpop
        simp only [hpop, Prod.mk.injEq] at hmgr
        rintro rfl
        have hqueue := congrArg (fun current ↦ current.freeBlockQueue.numFreeBlocks) hmgr.2
        dsimp only at hqueue
        omega

theorem observe_sinkManager_ne (manager : Manager ρ) (base : ManagerBase ρ) (pool : BlockPool) :
    observe (.ok manager, pool) [] ≠ observe (specManager spec base pool) [] := by
  intro hsame
  cases hcreated : specManager spec base pool with
  | mk created result =>
    rw [hcreated] at hsame
    cases created with
    | error exn => simp [observe, Except.map] at hsame
    | ok other => exact pool_ne_of_sinkManager hkind hcreated (congrArg Prod.fst hsame).symm

end

section

variable [Inhabited ρ]

/-- The managers that are built with disabled NELSSA behave as those of the spec types exactly for the
specs that are served by the manager for full attention. -/
theorem disabled_inert_iff (spec : KVCacheSpec) (maxNumBatchedTokens maxModelLen : ℕ) (pool : BlockPool)
    (enableCaching : Bool) (kvCacheGroupId dcpWorldSize pcpWorldSize : ℕ) :
    (∀ ops : List (ManagerOp ρ),
      observe (getManagerForKvCacheSpec spec maxNumBatchedTokens maxModelLen pool enableCaching
        kvCacheGroupId dcpWorldSize pcpWorldSize (some {})) ops =
      observe (getManagerForKvCacheSpec spec maxNumBatchedTokens maxModelLen pool enableCaching
        kvCacheGroupId dcpWorldSize pcpWorldSize none) ops) ↔
    spec.kind = .fullAttention ∨ spec.kind = .tqFullAttention ∨ spec.kind = .mlaAttention := by
  constructor
  · intro hsame
    simp only [getManagerForKvCacheSpec] at hsame
    -- One search of a short request separates the types that full attention does not accept.
    have hhit := hsame [.findLongestCacheHit (shortQuery kvCacheGroupId spec.blockSize)]
    cases hkind : spec.kind with
    | fullAttention => exact .inl rfl
    | tqFullAttention => exact .inr (.inl rfl)
    | mlaAttention => exact .inr (.inr rfl)
    | slidingWindow window =>
      simp only [specManager, hkind] at hhit
      refine absurd hhit (observe_nelssa_ne (congrArg _ hkind) (congrArg _ hkind) fun _ h ↦ ?_)
      cases (slidingWindow_hit_shortQuery (.inl hkind) kvCacheGroupId pool).symm.trans h
    | slidingWindowMLA window =>
      simp only [specManager, hkind] at hhit
      refine absurd hhit (observe_nelssa_ne (congrArg _ hkind) (congrArg _ hkind) fun _ h ↦ ?_)
      cases (slidingWindow_hit_shortQuery (.inr hkind) kvCacheGroupId pool).symm.trans h
    | chunkedLocal chunkSize =>
      simp only [specManager, hkind] at hsame
      let base : ManagerBase ρ := .init spec enableCaching kvCacheGroupId dcpWorldSize pcpWorldSize none
      let other : ManagerBase ρ := .init spec enableCaching kvCacheGroupId dcpWorldSize pcpWorldSize
        (spec.maxAdmissionBlocksPerRequest maxNumBatchedTokens maxModelLen)
      have hne := chunkedLocal_numBlocks_ne base other rfl rfl (fun _ ↦ ⟨rfl, rfl, rfl, rfl⟩) chunkSize
        pool default
      exact (hne (ManagerResult.numBlocks.inj (result_eq_of_observe_eq (hsame
        [.getNumBlocksToAllocate default _ [] _ 0])))).elim
    | mamba mode numSpeculativeBlocks =>
      simp only [specManager, hkind] at hhit
      refine absurd hhit (observe_nelssa_ne (congrArg _ hkind) (congrArg _ hkind) fun _ h ↦ ?_)
      cases (mamba_hit_shortQuery hkind kvCacheGroupId pool).symm.trans h
    | crossAttention =>
      simp only [specManager, hkind] at hhit
      refine absurd hhit (observe_nelssa_ne (congrArg _ hkind) (congrArg _ hkind) fun _ h ↦ ?_)
      simp [Manager.findLongestCacheHit, crossAttention, Manager.base, init, hkind] at h
    | sinkFullAttention sinkLen =>
      exact absurd (hsame []) (observe_sinkManager_ne hkind _ _ pool)
  · intro hkind ops
    have hspec : specManager spec (init spec enableCaching kvCacheGroupId dcpWorldSize
        pcpWorldSize (spec.maxAdmissionBlocksPerRequest maxNumBatchedTokens maxModelLen)) pool =
        (.ok (Manager.fullAttention (init (ρ := ρ) spec enableCaching kvCacheGroupId dcpWorldSize
          pcpWorldSize none)), pool) := by
      rcases hkind with hkind | hkind | hkind <;>
        simp [specManager, KVCacheSpec.maxAdmissionBlocksPerRequest, hkind]
    simp only [getManagerForKvCacheSpec, hspec, observe, Except.map]
    rw [Manager.trace_nelssa fun _ ↦ rfl]

end

/-- A sliding-window group with the default block size. -/
def windowSpec : KVCacheSpec := ⟨.slidingWindow 128, 16, by decide⟩

/-- The search for cached blocks of a sliding-window group fails an assertion with disabled NELSSA and
finds no blocks without it. -/
theorem disabled_differs_windowSpec : ∃ pool, BlockPool.init 4 true 16 = .ok pool ∧
    observe (ρ := ℕ) (getManagerForKvCacheSpec windowSpec 8192 4096 pool true 0 1 1 (some {}))
        [.findLongestCacheHit (shortQuery 0 16)] ≠
      observe (ρ := ℕ) (getManagerForKvCacheSpec windowSpec 8192 4096 pool true 0 1 1 none)
        [.findLongestCacheHit (shortQuery 0 16)] := by
  refine ⟨_, rfl, observe_nelssa_ne rfl rfl fun _ h ↦ ?_⟩
  cases (slidingWindow_hit_shortQuery (.inl (rfl : windowSpec.kind = .slidingWindow 128)) 0 _).symm.trans h

end Nelssa.Core
