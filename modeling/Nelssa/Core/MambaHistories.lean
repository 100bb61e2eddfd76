import Nelssa.Core.HybridAdmission
import Nelssa.Foundation.Runs

/-!
# Histories of a Mamba group in align mode

The list of a request in a Mamba group mixes null blocks, the state and blocks for speculative tokens,
and its length follows the tokens that were scheduled, accepted or not. Over every run of a group, with
all calls that change its lists and any other use of the pool in between, a request that has been served
keeps its state and its speculative blocks. The estimate then covers what the allocation takes in exactly
the calls that need at least the blocks the request has: after rejected draft tokens a call can need
fewer, and then the estimate is negative and an assertion fails.
-/

namespace Nelssa.Core

open Foundation.BlockArithmetic Foundation.Runs ManagerBase BlockPool Function

variable {ρ : Type*} [DecidableEq ρ]

omit [DecidableEq ρ] in
theorem MambaState.rememberCached_eq (state : MambaState ρ) (pool : BlockPool) (blocks : List ℕ) :
    ∃ keys, (state.rememberCached pool blocks).2 = { state with cachedBlocksThisStep := keys } := by
  induction blocks generalizing state with
  | nil => exact ⟨_, rfl⟩
  | cons block rest ih =>
    unfold rememberCached
    repeat' split
    · exact ih state
    · exact ⟨_, rfl⟩
    · exact ih _

namespace Manager

section

variable (manager : Manager ρ) (pool : BlockPool) (group : GroupCall ρ)

/-- Both phases of an allocation in one group. -/
def allocateCall : Except Exn (List ℕ) × Manager ρ × BlockPool :=
  let taken := if group.takesComputed then
      manager.allocateNewComputedBlocks pool group.requestId group.computed
        group.numLocalComputedTokens group.numExternalComputedTokens
    else (.ok (), manager, pool)
  match taken.1 with
  | .error exn => (.error exn, taken.2)
  | .ok () =>
    taken.2.1.allocateNewBlocks taken.2.2 group.requestId group.numTokens group.numTokensMainModel

/-- The estimate is not negative, and if there are as many free blocks the allocation succeeds and takes
at most as many. -/
def MatchesEstimate : Prop :=
  ∃ value, manager.estimate pool group = .ok value ∧ 0 ≤ value ∧
    (value ≤ pool.getNumFreeBlocks → ∃ blocks, (manager.allocateCall pool group).1 = .ok blocks ∧
      (pool.getNumFreeBlocks : ℤ) ≤ (manager.allocateCall pool group).2.2.getNumFreeBlocks + value)

/-- What the callers of a Mamba group in align mode promise. Unlike `Serves` this says nothing about the
blocks of requests that have been served. -/
structure Asks : Prop where
  fresh : group.takesComputed = true → manager.base.numCachedBlock group.requestId = none ∧
    manager.base.blocksOf group.requestId = []
  running : group.takesComputed = false → group.computed = [] ∧ group.numExternalComputedTokens = 0
  held : group.takesComputed = false → group.numLocalComputedTokens ≤
    manager.base.blockSize * (manager.base.blocksOf group.requestId).length
  caching : manager.base.enableCaching = true ∨ group.computed = []
  full : manager.base.blockSize * group.computed.length ≤ group.numLocalComputedTokens
  external : group.numExternalComputedTokens = 0 ∨ group.numTokensMainModel = group.totalComputedTokens
  fits : group.Fits
  tokens : 0 < group.numTokensMainModel
  refs : ∃ held free, pool.Refs held free
  bound : ∀ block ∈ group.computed, block < pool.numGpuBlocks

end

/-- A Mamba group in align mode in which every request that has been served has its state and its
speculative blocks. -/
def KeepsSpeculative : Manager ρ → Prop
  | mamba base state =>
    (base.blockSize = base.kvCacheSpec.blockSize ∧ base.maxAdmissionBlocksPerRequest = none) ∧
      state.mambaCacheMode = .align ∧ ∀ reqId, state.allocatedBlockReqs reqId = true →
        state.numSpeculativeBlocks < (base.blocksOf reqId).length
  | _ => False

variable {base after : ManagerBase ρ} {state : MambaState ρ} {manager : Manager ρ} {pool : BlockPool}
  {group : GroupCall ρ}

namespace KeepsSpeculative

omit [DecidableEq ρ] in
theorem changed (hkeeps : (mamba base state).KeepsSpeculative) (hcfg : base.SameConfig after)
    {keys : List BlockHashWithGroupId} {last : ρ → Option ℕ} {allocated : ρ → Bool}
    (hserved : ∀ reqId, allocated reqId = true → state.numSpeculativeBlocks < (after.blocksOf reqId).length) :
    (mamba after { state with
      cachedBlocksThisStep := keys, lastStateBlockIdx := last
      allocatedBlockReqs := allocated }).KeepsSpeculative := by
  obtain ⟨_, _, _, rfl⟩ := hcfg
  exact ⟨hkeeps.1, hkeeps.2.1, hserved⟩

section

variable (hkeeps : manager.KeepsSpeculative)
include hkeeps

omit [DecidableEq ρ] in
theorem serves (hasks : manager.Asks pool group) : manager.Serves group := by
  refine { hasks with kind := ?_ }
  cases manager with
  | mamba base state => exact ⟨hkeeps.1.1, fun _ ↦ ⟨hasks.external, hkeeps.2.2 _⟩⟩
  | _ => exact hkeeps.elim

/-! ## One call -/

theorem continues (hempty : manager.base.blocksOf group.requestId = [])
    {after : Manager ρ} (hafter : manager.Continues group after)
    (hothers : KeepsOthers group.requestId manager.base after.base) : after.KeepsSpeculative := by
  obtain ⟨_, rfl, hcfg, -⟩ := hafter
  cases manager with
  | mamba base state =>
    refine hkeeps.changed hcfg fun other hserved ↦ ?_
    have hheld := hkeeps.2.2 other hserved
    by_cases hother : other = group.requestId
    · rw [hother, show base.blocksOf _ = [] from hempty] at hheld
      exact (Nat.not_lt_zero _ hheld).elim
    · exact hheld.trans_eq (congrArg List.length (hothers other hother)).symm
  | _ => exact hkeeps.elim

theorem allocateNewBlocks {reqId : ρ}
    {numTokens numTokensMainModel : ℕ} (htokens : 0 < numTokensMainModel) {blocks : List ℕ}
    (hok : (manager.allocateNewBlocks pool reqId numTokens numTokensMainModel).1 = .ok blocks) :
    (manager.allocateNewBlocks pool reqId numTokens numTokensMainModel).2.1.KeepsSpeculative := by
  cases manager with
  | mamba base state =>
    simp only [allocateNewBlocks, MambaState.allocateNewBlocks, hkeeps.2.1, ne_eq,
      not_true_eq_false, if_false] at hok ⊢
    obtain ⟨stored, _, _, hafter, hothers, hres⟩ :=
      state.allocateAligned_stores base pool reqId numTokensMainModel
    obtain ⟨-, hlen⟩ := hres blocks hok
    rw [hafter]
    refine hkeeps.changed (sameConfig_setBlocks base reqId stored) fun other hserved ↦ ?_
    by_cases hother : other = reqId
    · have hstate := (cdiv_pos_iff base.blockSize_pos numTokensMainModel).2 htokens
      rw [hother, blocksOf_setBlocks]
      omega
    · rw [hothers other hother] at hserved
      rw [keepsOthers_setBlocks base reqId stored other hother]
      exact hkeeps.2.2 other hserved
  | _ => exact hkeeps.elim

section

variable (hasks : manager.Asks pool group) (hneeds : manager.NeedsBlocks group)
include hasks hneeds

theorem allocateCall_spends :
    ∃ lower, Spends pool pool lower (manager.numEvictableBlocks group pool + manager.numNewBlocks group)
      KeepsSpeculative (manager.allocateCall pool group) := by
  obtain ⟨_, _, hrefs⟩ := hasks.refs
  have hserves := hkeeps.serves hasks
  have hgrown := Grown.refl hrefs
  unfold allocateCall numNewBlocks
  cases htakes : group.takesComputed with
  | true =>
    have htaken := allocateNewComputedBlocks_spends hserves htakes hgrown hasks.bound
    have hothers := keepsOthers_allocateNewComputedBlocks manager pool group.requestId group.computed
      group.numLocalComputedTokens group.numExternalComputedTokens
    rw [← add_assoc]
    generalize manager.allocateNewComputedBlocks pool group.requestId group.computed
      group.numLocalComputedTokens group.numExternalComputedTokens = taken at htaken hothers ⊢
    obtain ⟨result, _, _⟩ := taken
    cases result with
    | error exn =>
      refine ⟨0, .failed (fun hupper ↦ ?_) _ _ _⟩
      obtain ⟨_, hres⟩ := htaken.succeeds (le_of_add_le_left hupper)
      cases hres
    | ok value =>
      have hafter := htaken.result value rfl
      have hnew := (hafter.allocateNewBlocks_spends hserves htakes hasks.fits
        (htaken.grown value rfl)).behind (htaken.lower_le value rfl) (htaken.le_upper value rfl)
      have hmiddle := hkeeps.continues (hasks.fresh htakes).2 hafter hothers
      exact ⟨_, { hnew with result := fun _ hok ↦ hmiddle.allocateNewBlocks hasks.tokens hok }⟩
  | false =>
    have hnew := allocateNewBlocks_spends hgrown hneeds hserves.hasSpeculative
    obtain ⟨hcomp, hext⟩ := hserves.running htakes
    rw [numExternalBlocks_of_none hext,
      hserves.numLocalBlocks_of_running htakes, numEvictableBlocks, hcomp, List.drop_nil]
    simp only [zero_add, add_zero, getNumEvictableBlocks, List.countP_nil]
    exact ⟨_, { hnew with result := fun _ hok ↦ hkeeps.allocateNewBlocks hasks.tokens hok }⟩

theorem matchesEstimate : manager.MatchesEstimate pool group := by
  obtain ⟨_, _, hrefs⟩ := hasks.refs
  obtain ⟨_, hspends⟩ := hkeeps.allocateCall_spends hasks hneeds
  have hcovers : manager.Covers pool group := by
    have hserves := hkeeps.serves hasks
    cases manager with
    | mamba base state => exact hserves.mamba_covers hasks.fits hneeds hkeeps.1.2 hrefs
    | _ => exact hkeeps.elim
  obtain ⟨value, hvalue, hnonneg, hcovers⟩ := hcovers
  refine ⟨value, hvalue, hnonneg, fun hfree ↦ ?_⟩
  obtain ⟨blocks, hblocks⟩ := hspends.succeeds (by omega)
  have htaken := hspends.le_upper blocks hblocks
  exact ⟨blocks, hblocks, by omega⟩

end

omit [DecidableEq ρ] in
/-- A request with blocks to spare is running, and nothing outweighs the negative estimate. -/
theorem needsBlocks (hasks : manager.Asks pool group) {value : ℤ}
    (hvalue : manager.estimate pool group = .ok value) (hnonneg : 0 ≤ value) :
    manager.NeedsBlocks group := by
  cases manager with
  | mamba base state =>
    intro hmode
    by_contra hspare
    have hrun : group.takesComputed = false := by
      by_contra htakes
      rw [show base.blocksOf _ = [] from (hasks.fresh (Bool.eq_true_of_not_eq_false htakes)).2] at hspare
      exact hspare (Nat.zero_le _)
    have hcomp := (hasks.running hrun).1
    rcases mamba_estimate_cases base state pool group with
      ⟨hcached, -⟩ | ⟨hother, -⟩ | ⟨-, _, hmissing, hest⟩
    · exact hcached hcomp
    · exact hother hmode
    · rw [hcomp, if_neg (by omega), hvalue] at hest
      cases hest
      simp only [getNumEvictableBlocks, List.countP_nil] at hnonneg
      omega
  | _ => exact hkeeps.elim

variable (pool : BlockPool)

theorem removeSkippedBlocks (reqId : ρ) (totalComputedTokens : ℕ) :
    (manager.removeSkippedBlocks pool reqId totalComputedTokens).2.1.KeepsSpeculative := by
  have hothers := keepsOthers_removeSkippedBlocks manager pool reqId totalComputedTokens
  have htrimmed := manager.removeSkippedBlocks_trimmed pool reqId totalComputedTokens
  have hlen := htrimmed.length_eq
  obtain ⟨table, hafter, -⟩ := htrimmed
  rw [hafter] at hothers hlen ⊢
  cases manager with
  | mamba base state =>
    refine hkeeps.changed ⟨_, table, _, rfl⟩ fun other hserved ↦ ?_
    have hheld := hkeeps.2.2 other hserved
    by_cases hother : other = reqId
    · rw [hother] at hheld ⊢
      exact hheld.trans_eq hlen.symm
    · exact hheld.trans_eq (congrArg List.length (hothers other hother)).symm
  | _ => exact hkeeps.elim

theorem cacheBlocks (req : CacheRequest ρ) (numTokens : ℕ) :
    (manager.cacheBlocks pool req numTokens).2.1.KeepsSpeculative := by
  cases manager with
  | mamba base state =>
    have hcfg : base.SameConfig (base.cacheBlocks pool req numTokens).2.1 := by
      unfold ManagerBase.cacheBlocks
      dsimp only
      repeat' split
      all_goals exact ⟨_, _, _, rfl⟩
    have hserved (reqId : ρ) (h : state.allocatedBlockReqs reqId = true) : state.numSpeculativeBlocks <
        ((base.cacheBlocks pool req numTokens).2.1.blocksOf reqId).length := by
      rw [ManagerBase.blocksOf_cacheBlocks]
      exact hkeeps.2.2 reqId h
    simp only [cacheBlocks, MambaState.cacheBlocks]
    split
    · exact hkeeps.changed hcfg hserved
    · obtain ⟨_, hkeys⟩ := state.rememberCached_eq _ _
      rw [hkeys]
      exact hkeeps.changed hcfg hserved
  | _ => exact hkeeps.elim

theorem free (reqId : ρ) : (manager.free pool reqId).2.1.KeepsSpeculative := by
  cases manager with
  | mamba base state =>
    have hcfg : base.SameConfig (base.free pool reqId).2.1 := by
      unfold ManagerBase.free
      dsimp only
      split <;> exact ⟨_, _, _, rfl⟩
    simp only [free, MambaState.free, if_pos hkeeps.2.1]
    refine hkeeps.changed hcfg fun other hserved ↦ ?_
    by_cases hother : other = reqId
    · rw [hother, update_self] at hserved
      cases hserved
    · rw [update_of_ne hother] at hserved
      rw [base.keepsOthers_free pool reqId other hother]
      exact hkeeps.2.2 other hserved
  | _ => exact hkeeps.elim

end

end KeepsSpeculative

end Manager

/-! ## Runs -/

/-- The calls that change the lists of a group, and what others do with the pool. -/
inductive MambaOp (ρ : Type*) where
  | allocate (group : GroupCall ρ)
  | removeSkippedBlocks (reqId : ρ) (totalComputedTokens : ℕ)
  | cacheBlocks (req : CacheRequest ρ) (numTokens : ℕ)
  | free (reqId : ρ)
  | others (pool : BlockPool)

namespace MambaOp

section

variable (run : Manager ρ × BlockPool)

/-- One call. An allocation is made if its estimate does not exceed the free blocks. -/
def apply : MambaOp ρ → Manager ρ × BlockPool
  | allocate group =>
    match run.1.estimate run.2 group with
    | .error _ => run
    | .ok value =>
      if value ≤ run.2.getNumFreeBlocks then (run.1.allocateCall run.2 group).2 else run
  | removeSkippedBlocks reqId totalComputedTokens =>
    (run.1.removeSkippedBlocks run.2 reqId totalComputedTokens).2
  | cacheBlocks req numTokens => (run.1.cacheBlocks run.2 req numTokens).2
  | free reqId => (run.1.free run.2 reqId).2
  | others pool => (run.1, pool)

/-- The callers keep their promise, and the allocation matches its estimate. -/
def Matches : MambaOp ρ → Prop
  | allocate group => run.1.Asks run.2 group ∧ run.1.MatchesEstimate run.2 group
  | _ => True

/-- The callers keep their promise, and the allocation needs at least the blocks of the request. -/
def Needs : MambaOp ρ → Prop
  | allocate group => run.1.Asks run.2 group ∧ run.1.NeedsBlocks group
  | _ => True

end

variable {run : Manager ρ × BlockPool} {op : MambaOp ρ}

theorem matches_iff (hkeeps : run.1.KeepsSpeculative) : op.Matches run ↔ op.Needs run := by
  cases op with
  | allocate group =>
    refine and_congr_right fun hasks ↦ ⟨?_, hkeeps.matchesEstimate hasks⟩
    rintro ⟨value, hvalue, hnonneg, -⟩
    exact hkeeps.needsBlocks hasks hvalue hnonneg
  | _ => exact .rfl

theorem keeps_allocate (hkeeps : run.1.KeepsSpeculative) {group : GroupCall ρ}
    (hop : (allocate group).Needs run) : (apply run (allocate group)).1.KeepsSpeculative ∧
      ∃ held free, (apply run (allocate group)).2.Refs held free := by
  obtain ⟨hasks, hneeds⟩ := hop
  obtain ⟨_, hvalue, -, hmatches⟩ := hkeeps.matchesEstimate hasks hneeds
  obtain ⟨_, hspends⟩ := hkeeps.allocateCall_spends hasks hneeds
  unfold apply
  dsimp only
  rw [hvalue]
  dsimp only
  split
  · next hfree =>
    obtain ⟨blocks, hblocks, -⟩ := hmatches hfree
    exact ⟨hspends.result blocks hblocks, (hspends.grown blocks hblocks).refs⟩
  · exact ⟨hkeeps, hasks.refs⟩

theorem keepsSpeculative_apply (hkeeps : run.1.KeepsSpeculative) (hop : op.Needs run) :
    (apply run op).1.KeepsSpeculative := by
  cases op with
  | allocate group => exact (keeps_allocate hkeeps hop).1
  | removeSkippedBlocks reqId totalComputedTokens => exact hkeeps.removeSkippedBlocks _ _ _
  | cacheBlocks req numTokens => exact hkeeps.cacheBlocks _ _ _
  | free reqId => exact hkeeps.free _ _
  | others pool => exact hkeeps

/-- In every run of a group all estimates are matched exactly if no allocation needs fewer blocks than
its request has. -/
theorem stepsMeet_matches_iff (hkeeps : run.1.KeepsSpeculative) (ops : List (MambaOp ρ)) :
    StepsMeet apply (fun run op ↦ op.Matches run) run ops ↔
      StepsMeet apply (fun run op ↦ op.Needs run) run ops := by
  induction ops generalizing run with
  | nil => exact .rfl
  | cons op rest ih =>
    refine (and_congr_left' (matches_iff hkeeps)).trans (and_congr_right fun hneeds ↦ ?_)
    exact ih (keepsSpeculative_apply hkeeps hneeds)

/-- A group with two speculative blocks, before its first request. -/
def alignedRun (spec : KVCacheSpec) (pool : BlockPool) : Manager ℕ × BlockPool :=
  (.mamba (.init spec true 0 1 1 none) (.init .align 2), pool)

/-- A call for a request without computed blocks. -/
def callFor (takesComputed : Bool) (numComputedTokens numTokens : ℕ) : GroupCall ℕ :=
  ⟨0, takesComputed, [], numComputedTokens, 0, numTokens, numTokens⟩

theorem asks_callFor {run : Manager ℕ × BlockPool} {numComputedTokens numTokens : ℕ}
    (hrefs : ∃ held free, run.2.Refs held free) (hpos : 0 < numTokens) (hle : numComputedTokens ≤ numTokens)
    (hheld : numComputedTokens ≤ run.1.base.blockSize * (run.1.base.blocksOf 0).length) :
    run.1.Asks run.2 (callFor false numComputedTokens numTokens) :=
  ⟨nofun, fun _ ↦ ⟨rfl, rfl⟩, fun _ ↦ hheld, .inr rfl, Nat.zero_le _, .inl rfl, ⟨hle, hle⟩, hpos, hrefs,
    nofun⟩

/-- A prompt of two tokens, two steps of one token with two drafts, of which one and both are accepted, and a
step without drafts. -/
theorem stepsMeet_matches_drafts : ∃ pool, BlockPool.init 8 true 4 = .ok pool ∧
    StepsMeet apply (fun run op ↦ op.Matches run) (alignedRun ⟨.mamba .align 2, 4, Nat.succ_pos 3⟩ pool)
      [allocate (callFor true 0 2), allocate (callFor false 2 5), allocate (callFor false 4 7),
        allocate (callFor false 7 8)] := by
  obtain ⟨pool, hinit, -⟩ := exists_init 7 true 4
  obtain ⟨-, -, -, free, hrefs⟩ := init_spec hinit
  have hkeeps : (alignedRun ⟨.mamba .align 2, 4, Nat.succ_pos 3⟩ pool).1.KeepsSpeculative :=
    ⟨⟨rfl, rfl⟩, rfl, nofun⟩
  refine ⟨pool, hinit, (stepsMeet_matches_iff hkeeps _).2 ?_⟩
  obtain rfl := Except.ok.inj hinit
  have hprompt : (allocate (callFor true 0 2)).Needs (alignedRun ⟨.mamba .align 2, 4, Nat.succ_pos 3⟩ _) :=
    ⟨⟨fun _ ↦ ⟨rfl, rfl⟩, nofun, nofun, .inl rfl, le_rfl, .inl rfl, ⟨Nat.zero_le _, Nat.zero_le _⟩,
      Nat.succ_pos 1, ⟨_, free, hrefs⟩, nofun⟩, fun _ ↦ Nat.zero_le _⟩
  obtain ⟨hkeeps, hrefs⟩ := keeps_allocate hkeeps hprompt
  have hfirst : (allocate (callFor false 2 5)).Needs _ :=
    ⟨asks_callFor hrefs (by decide) (by decide) (by decide), fun _ ↦ by decide⟩
  obtain ⟨hkeeps, hrefs⟩ := keeps_allocate hkeeps hfirst
  have hsecond : (allocate (callFor false 4 7)).Needs _ :=
    ⟨asks_callFor hrefs (by decide) (by decide) (by decide), fun _ ↦ by decide⟩
  obtain ⟨hkeeps, hrefs⟩ := keeps_allocate hkeeps hsecond
  exact ⟨hprompt, hfirst, hsecond,
    ⟨asks_callFor hrefs (by decide) (by decide) (by decide), fun _ ↦ by decide⟩,
    trivial⟩

/-- A prompt of two tokens and one token with two drafts, both of which are rejected: the next token needs
one block less than the request has. -/
theorem rejectedDrafts_spare : ∃ pool, BlockPool.init 8 true 4 = .ok pool ∧
    let run := [allocate (callFor true 0 2), removeSkippedBlocks 0 2, allocate (callFor false 2 5),
      removeSkippedBlocks 0 3].foldl apply (alignedRun ⟨.mamba .align 2, 4, Nat.succ_pos 3⟩ pool)
    run.1.estimate run.2 (callFor false 3 4) = .ok (-1) ∧
      (run.1.allocateCall run.2 (callFor false 3 4)).1 =
        .error (.assertionError "num_required_blocks 3 < len(req_blocks) 4") :=
  ⟨_, rfl, rfl, rfl⟩

end MambaOp

end Nelssa.Core
