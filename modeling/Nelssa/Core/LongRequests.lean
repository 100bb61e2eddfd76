import Mathlib.Data.Set.Card
import Nelssa.Core.Managers
import Nelssa.Foundation.Runs

/-!
# The bookkeeping of long requests

`NELSSACacheManager` keeps three maps over the long requests. `mark_long_request` fills them and
`free_request_resources` empties them, but `free`, which ends the life of a request, is inherited from a
base class that knows nothing of the maps. The main theorem says in which runs every request that is not
long any more is served like one of `FullAttentionManager`.
-/

namespace Nelssa.Core

open Foundation.Runs Function

variable {ρ : Type*} [DecidableEq ρ]

namespace NelssaState

def freeRequestResources (state : NelssaState ρ) (reqId : ρ) : NelssaState ρ :=
  { state with
    longRequests := update state.longRequests reqId false
    nelssaTailBlocks := update state.nelssaTailBlocks reqId none
    nelssaTailStartPos := update state.nelssaTailStartPos reqId none }

/-- No map has an entry for the request. -/
def NoEntry (state : NelssaState ρ) (reqId : ρ) : Prop :=
  state.longRequests reqId = false ∧ state.nelssaTailBlocks reqId = none ∧
    state.nelssaTailStartPos reqId = none

end NelssaState

open NelssaState

/-- The manager estimates and allocates for the request as `FullAttentionManager` does, and
`free_sparse_kv`, which passes over that manager, leaves the blocks alone. -/
structure ServesAsFullAttention (base : ManagerBase ρ) (state : NelssaState ρ) (pool : BlockPool)
    (reqId : ρ) : Prop where
  estimates : ∀ numTokens computed total main,
    (Manager.nelssa base state).getNumBlocksToAllocate pool reqId numTokens computed total main =
      (Manager.fullAttention base).getNumBlocksToAllocate pool reqId numTokens computed total main
  computedBlocks : ∀ computed numLocal numExternal,
    Prod.map id (Prod.map Manager.base id)
        ((Manager.nelssa base state).allocateNewComputedBlocks pool reqId computed numLocal numExternal) =
      Prod.map id (Prod.map Manager.base id)
        ((Manager.fullAttention base).allocateNewComputedBlocks pool reqId computed numLocal numExternal)
  newBlocks : ∀ numTokens main,
    Prod.map id (Prod.map Manager.base id)
        ((Manager.nelssa base state).allocateNewBlocks pool reqId numTokens main) =
      Prod.map id (Prod.map Manager.base id)
        ((Manager.fullAttention base).allocateNewBlocks pool reqId numTokens main)
  middleBlocks : state.freeMiddleBlocks base pool reqId = (.ok (), base, pool)

theorem servesAsFullAttention_of_not_long {state : NelssaState ρ} {reqId : ρ}
    (hshort : state.longRequests reqId = false) (base : ManagerBase ρ) (pool : BlockPool) :
    ServesAsFullAttention base state pool reqId where
  estimates := by
    intro numTokens computed total main
    simp only [Manager.getNumBlocksToAllocate, getNumBlocksToAllocate, hshort]
    rfl
  computedBlocks := fun _ _ _ ↦ rfl
  newBlocks := fun _ _ ↦ rfl
  middleBlocks := by rw [freeMiddleBlocks, hshort]

/-! ## Runs of the manager -/

/-- The calls of the manager that change its state. -/
inductive NelssaCall (ρ : Type*) where
  | markLongRequest (reqId : ρ) (promptLen : ℕ)
  | freeMiddleBlocks (reqId : ρ)
  | freeRequestResources (reqId : ρ)
  | free (reqId : ρ)
  | removeSkippedBlocks (reqId : ρ) (total : ℕ)
  | allocateNewComputedBlocks (reqId : ρ) (computed : List ℕ) (numLocal numExternal : ℕ)
  | allocateNewBlocks (reqId : ρ) (numTokens main : ℕ)
  | cacheBlocks (req : CacheRequest ρ) (numTokens : ℕ)

/-- A manager with its pool, and the requests that were marked as long and not freed since. -/
structure NelssaRun (ρ : Type*) where
  base : ManagerBase ρ
  state : NelssaState ρ
  pool : BlockPool
  live : ρ → Bool

namespace NelssaRun

def start (base : ManagerBase ρ) (config : NELSSAConfig) (pool : BlockPool) : NelssaRun ρ :=
  ⟨base, .init config, pool, fun _ ↦ false⟩

/-- The run behind an inherited call, which leaves the maps alone. -/
def inherit {α : Type*} (run : NelssaRun ρ) (method : Manager ρ → BlockPool → α × Manager ρ × BlockPool) :
    NelssaRun ρ :=
  let called := method (.nelssa run.base run.state) run.pool
  { run with base := called.2.1.base, pool := called.2.2 }

def apply (run : NelssaRun ρ) : NelssaCall ρ → NelssaRun ρ
  | .markLongRequest reqId promptLen =>
    { run with
      state := run.state.markLongRequest run.base.blockSize reqId promptLen
      live := update run.live reqId true }
  | .freeMiddleBlocks reqId =>
    let freed := run.state.freeMiddleBlocks run.base run.pool reqId
    { run with base := freed.2.1, pool := freed.2.2 }
  | .freeRequestResources reqId => { run with state := run.state.freeRequestResources reqId }
  | .free reqId => { run.inherit (·.free · reqId) with live := update run.live reqId false }
  | .removeSkippedBlocks reqId total => run.inherit (·.removeSkippedBlocks · reqId total)
  | .allocateNewComputedBlocks reqId computed numLocal numExternal =>
    run.inherit (·.allocateNewComputedBlocks · reqId computed numLocal numExternal)
  | .allocateNewBlocks reqId numTokens main => run.inherit (·.allocateNewBlocks · reqId numTokens main)
  | .cacheBlocks req numTokens => run.inherit (·.cacheBlocks · req numTokens)

/-- A request that is not long any more has left nothing behind: the maps have entries for live long
requests only, and every other request is served as by `FullAttentionManager`. -/
structure Released (run : NelssaRun ρ) : Prop where
  agree : ∀ reqId, run.state.longRequests reqId = false → run.state.NoEntry reqId
  noEntry : ∀ reqId, run.live reqId = false → run.state.NoEntry reqId
  bounded : {reqId | ¬ run.state.NoEntry reqId}.encard ≤ {reqId | run.live reqId = true}.encard
  served : ∀ reqId, run.live reqId = false → ServesAsFullAttention run.base run.state run.pool reqId

/-- Only requests that are not in `long_requests` are freed. -/
def FreesShort (run : NelssaRun ρ) : NelssaCall ρ → Prop
  | .free reqId => run.state.longRequests reqId = false
  | _ => True

variable {run : NelssaRun ρ}

theorem released_iff : run.Released ↔ ∀ reqId,
    (run.state.longRequests reqId = false → run.state.NoEntry reqId) ∧
      (run.live reqId = false → run.state.longRequests reqId = false) := by
  constructor
  · intro hreleased reqId
    exact ⟨hreleased.agree reqId, fun hlive ↦ (hreleased.noEntry reqId hlive).1⟩
  · intro h
    have hnoEntry (reqId : ρ) (hlive : run.live reqId = false) : run.state.NoEntry reqId :=
      (h reqId).1 ((h reqId).2 hlive)
    refine ⟨fun reqId ↦ (h reqId).1, hnoEntry, Set.encard_le_encard fun reqId hentry ↦ ?_,
      fun reqId hlive ↦ servesAsFullAttention_of_not_long ((h reqId).2 hlive) run.base run.pool⟩
    by_contra hlive
    exact hentry (hnoEntry reqId (Bool.eq_false_iff.2 hlive))

/-- One call keeps the maps clean exactly if it frees no request that is in `long_requests`. -/
theorem released_apply_iff (hreleased : run.Released) (call : NelssaCall ρ) :
    (run.apply call).Released ↔ run.FreesShort call := by
  have hbefore := released_iff.1 hreleased
  cases call with
  | markLongRequest reqId promptLen =>
    refine iff_of_true (released_iff.2 fun other ↦ ?_) trivial
    by_cases hsame : other = reqId
    · simp [apply, markLongRequest, hsame]
    · simpa [apply, markLongRequest, NoEntry, hsame] using hbefore other
  | freeRequestResources reqId =>
    refine iff_of_true (released_iff.2 fun other ↦ ?_) trivial
    by_cases hsame : other = reqId
    · simp [apply, freeRequestResources, NoEntry, hsame]
    · simpa [apply, freeRequestResources, NoEntry, hsame] using hbefore other
  | free reqId =>
    rw [released_iff]
    constructor
    · intro hafter
      exact (hafter reqId).2 (update_self ..)
    · intro hshort other
      by_cases hsame : other = reqId
      · exact ⟨(hbefore other).1, fun _ ↦ hsame ▸ hshort⟩
      · simpa [apply, inherit, hsame] using hbefore other
  | _ => exact iff_of_true (released_iff.2 hbefore) trivial

/-- In every run of a new manager the bookkeeping is released with the requests exactly if no request is
freed that is in `long_requests` at that time. -/
theorem holdsAlong_released_iff (base : ManagerBase ρ) (config : NELSSAConfig) (pool : BlockPool)
    (calls : List (NelssaCall ρ)) :
    HoldsAlong apply Released (start base config pool) calls ↔
      StepsMeet apply FreesShort (start base config pool) calls := by
  have hstart : (start base config pool).Released :=
    released_iff.2 fun _ ↦ ⟨fun _ ↦ ⟨rfl, rfl, rfl⟩, fun _ ↦ rfl⟩
  refine holdsAlong_iff_stepsMeet ?_ hstart calls
  intro run call hreleased
  exact released_apply_iff hreleased call

/-- A long request with 2000 tokens is freed. A new request with the same id and 16 tokens needs one block
and is asked for six: one for the head, four for the tail of the first request, and its own. -/
theorem not_released_reusedId :
    ∃ pool, BlockPool.init 20 true 16 = .ok pool ∧
      (let new : NelssaRun ℕ := start (.init ⟨.fullAttention, 16, Nat.succ_pos 15⟩ true 0 1 1 none) { } pool
        let run := (new.apply (.markLongRequest 0 2000)).apply (.free 0)
        ¬ HoldsAlong apply Released new [.markLongRequest 0 2000, .free 0] ∧
          (Manager.nelssa run.base run.state).getNumBlocksToAllocate run.pool 0 16 [] 0 16 = .ok 6 ∧
          (Manager.fullAttention run.base).getNumBlocksToAllocate run.pool 0 16 [] 0 16 = .ok 1) := by
  refine ⟨_, rfl, ?_, rfl, rfl⟩
  intro hreleased
  cases (hreleased.2.2.noEntry 0 rfl).1

end NelssaRun

end Nelssa.Core
