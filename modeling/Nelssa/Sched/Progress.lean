import Nelssa.Sched.StepConsistency

/-!
# Progress of running requests

The running loop caps the tokens of a request so that the last position of the model stays free, and skips
the request only if nothing is left. So a request makes progress up to the last position but one. A prompt
that fills the whole model and is processed in chunks stops there. A request that has computed all positions
gets a negative number of tokens, and so does one of which more is computed than it knows, drafts and awaits.
-/

namespace Nelssa.Sched

open Nelssa.Core Foundation.Loops List Pass Request

variable {ρ ε : Type*} {config : SchedulerConfig} {env : Environment ε ρ} {id : ρ}

namespace Request

variable (config) (req : Request)

/-- A request at its maximum has to miss no known token. Otherwise no more may be computed than it knows,
drafts and awaits, and there has to be a position in front of the last one, which may be missing only if
all known tokens are computed. -/
def HasRoom : Prop :=
  if req.ReachesMaxTokens then req.numTokens ≤ req.numComputedTokens
  else req.numComputedTokens ≤ req.numTokensWithSpec + req.numOutputPlaceholders ∧
    (req.numComputedTokens + 1 < config.maxModelLen ∨
      req.numComputedTokens + 1 = config.maxModelLen ∧ req.numTokens ≤ req.numComputedTokens)

instance : Decidable (req.HasRoom config) := by
  unfold HasRoom
  infer_instance

variable {config req} {tokenBudget : ℤ}

theorem numNewTokens_le (config : SchedulerConfig) (req : Request) (tokenBudget : ℤ) :
    req.numNewTokens config tokenBudget ≤ tokenBudget ∧
    req.numComputedTokens + req.numNewTokens config tokenBudget < config.maxModelLen := by
  unfold numNewTokens
  dsimp only
  omega

/-- Below the maximum, a request with room asks for no negative number of tokens, and for none only if all
known tokens are computed; a request without room asks for a negative number, or for none. -/
theorem hasRoom_iff (hbudget : 0 < tokenBudget) (hreaches : ¬ req.ReachesMaxTokens) :
    req.HasRoom config ↔ 0 ≤ req.numNewTokens config tokenBudget ∧
      (req.numNewTokens config tokenBudget = 0 → req.numTokens ≤ req.numComputedTokens) := by
  unfold HasRoom numNewTokens firstChunk numTokensWithSpec
  rw [if_neg hreaches]
  dsimp only
  split <;> omega

end Request

namespace Pass

variable {pass next : Pass ε ρ}

/-- A visit offers the request a positive number of tokens within the budget and the model, or passes it
over; without an encoder and Mamba it passes over no request that misses known tokens. -/
structure Progresses (config : SchedulerConfig) (env : Environment ε ρ) (pass : Pass ε ρ) (id : ρ) :
    Prop where
  bounded : ∀ next numNewTokens plan, pass.visitRunning config env id = .ok next →
    next.phase = .allocate id numNewTokens plan → 0 < numNewTokens ∧ numNewTokens ≤ pass.tokenBudget ∧
      (pass.sched.requests id).numComputedTokens + numNewTokens ≤ config.maxModelLen
  reached : config.needMambaBlockAlignedSplit = false → (pass.sched.requests id).hasEncoderInputs = false →
    (pass.sched.requests id).numComputedTokens < (pass.sched.requests id).numTokens →
    ∃ next numNewTokens plan, pass.visitRunning config env id = .ok next ∧
      next.phase = .allocate id numNewTokens plan

/-- Without an encoder and Mamba a visit passes a request over only if it reaches its maximum or asks for
no token. -/
theorem visitRunning_plain (hmamba : config.needMambaBlockAlignedSplit = false)
    (hplain : (pass.sched.requests id).hasEncoderInputs = false) :
    ∃ next, pass.visitRunning config env id = .ok next ∧
      if (pass.sched.requests id).ReachesMaxTokens ∨
          (pass.sched.requests id).numNewTokens config pass.tokenBudget = 0 then next.phase = pass.phase
      else ∃ plan, next.phase =
        .allocate id ((pass.sched.requests id).numNewTokens config pass.tokenBudget) plan := by
  unfold visitRunning planRunning
  simp only [hmamba, hplain, Bool.false_eq_true, if_false]
  by_cases hreaches : (pass.sched.requests id).ReachesMaxTokens
  · simp only [hreaches, true_or, if_true]
    exact ⟨_, rfl, rfl⟩
  · by_cases hzero : (pass.sched.requests id).numNewTokens config pass.tokenBudget = 0
    · simp only [hreaches, hzero, or_true, if_true, if_false]
      exact ⟨_, rfl, rfl⟩
    · simp only [hreaches, hzero, or_false, if_false]
      exact ⟨_, rfl, _, rfl⟩

section

variable (hphase : pass.phase = .visit) (hbudget : 0 < pass.tokenBudget)
include hphase hbudget

theorem progresses_of_hasRoom (hencoder : env.EncoderNonneg)
    (hroom : (pass.sched.requests id).HasRoom config) : pass.Progresses config env id := by
  refine ⟨fun next numNewTokens plan hvisit hnext ↦ ?_, fun hmamba hplain hmissing ↦ ?_⟩
  · obtain ⟨_, -, rfl | ⟨_, _, ⟨-, hne, hreaches, hplan⟩, rfl⟩⟩ := visitRunning_cases hbudget hvisit
    · cases hphase.symm.trans hnext
    cases hnext
    have hasked := ((hasRoom_iff hbudget hreaches).1 hroom).1
    obtain ⟨hle, hnonneg⟩ := planRunning_bounds hplan
    obtain ⟨hfits, hpos⟩ := numNewTokens_le config (pass.sched.requests id) pass.tokenBudget
    have hpositive := hnonneg hencoder hasked
    omega
  · have hreaches : ¬ (pass.sched.requests id).ReachesMaxTokens := by
      intro hreaches
      rw [HasRoom, if_pos hreaches] at hroom
      omega
    have hasked := ((hasRoom_iff hbudget hreaches).1 hroom).2
    obtain ⟨next, hvisit, hnext⟩ := visitRunning_plain hmamba hplain
    rw [if_neg (not_or.2 ⟨hreaches, fun hzero ↦ absurd (hasked hzero) (by omega)⟩)] at hnext
    exact ⟨next, _, hnext.choose, hvisit, hnext.choose_spec⟩

theorem hasRoom_of_progresses (hmamba : config.needMambaBlockAlignedSplit = false)
    (hplain : (pass.sched.requests id).hasEncoderInputs = false) (hprogress : pass.Progresses config env id) :
    (pass.sched.requests id).HasRoom config := by
  obtain ⟨next, hvisit, hnext⟩ := visitRunning_plain hmamba hplain
  by_cases hskipped : (pass.sched.requests id).ReachesMaxTokens ∨
      (pass.sched.requests id).numNewTokens config pass.tokenBudget = 0
  · rw [if_pos hskipped, hphase] at hnext
    have hdone : (pass.sched.requests id).numTokens ≤ (pass.sched.requests id).numComputedTokens := by
      by_contra hmissing
      obtain ⟨_, _, plan, hlast, halloc⟩ := hprogress.reached hmamba hplain (not_le.1 hmissing)
      rw [hvisit] at hlast
      cases hlast
      rw [hnext] at halloc
      cases halloc
    by_cases hreaches : (pass.sched.requests id).ReachesMaxTokens
    · rwa [HasRoom, if_pos hreaches]
    · exact (hasRoom_iff hbudget hreaches).2 ⟨(hskipped.resolve_left hreaches).ge, fun _ ↦ hdone⟩
  · rw [if_neg hskipped] at hnext
    obtain ⟨plan, halloc⟩ := hnext
    obtain ⟨hpositive, -⟩ := hprogress.bounded next _ plan hvisit halloc
    rw [not_or] at hskipped
    exact (hasRoom_iff hbudget hskipped.1).2 ⟨hpositive.le, fun hzero ↦ absurd hzero hskipped.2⟩

end

theorem planAdmission_bounds (hencoder : env.EncoderNonneg) {plan : AdmissionPlan} {environment : ε}
    (hplan : pass.planAdmission config env id = .ok (.take plan, environment))
    (hload : plan.loadKvAsync = false) :
    0 < plan.numNewTokens ∧ plan.numNewTokens ≤ pass.tokenBudget ∧
      plan.numComputedTokens + plan.numNewTokens ≤ (pass.sched.requests id).numTokens := by
  obtain ⟨_, _, -, ⟨-, ⟨⟩⟩ | ⟨_, -, result, htokens, htaken⟩⟩ :=
    WaitingPass.planAdmission_cases hplan
  have hkept : ∀ kept ∈ result, kept.loadKvAsync = false → 0 < kept.numNewTokens ∧
      kept.numNewTokens ≤ pass.tokenBudget ∧
      kept.numComputedTokens + kept.numNewTokens ≤ (pass.sched.requests id).numTokens := by
    intro kept hmem hsync
    obtain ⟨_, _, rfl, ⟨hasync, -⟩ | ⟨-, hle, hpos, hknown⟩⟩ :=
      (WaitingPass.waitingTokens_cases htokens).2 kept hmem
    · exact absurd (hasync.symm.trans hsync) nofun
    · exact ⟨hpos hencoder, hle, hknown⟩
  rcases htaken plan rfl with htaken | ⟨kept, hmem, _, hsplit, hsome, rfl⟩
  · exact hkept plan htaken hload
  · obtain ⟨hpos, hle, hknown⟩ := hkept kept hmem hload
    obtain ⟨-, hless, hnonneg⟩ := mambaBlockAlignedSplit_cases hsplit
    have hsplitNonneg := hnonneg hpos.le
    exact ⟨lt_of_le_of_ne hsplitNonneg (.symm hsome), hless.trans hle,
      (Int.add_le_add_left hless _).trans hknown⟩

end Pass

namespace Scheduler

variable [LinearOrder ρ]

/-- The running loop lets a request that it visits progress exactly if the request has room; with an encoder
or Mamba this is sufficient. The tokens of a successful allocation are scheduled, the waiting loop plans a
positive number of known tokens within the budget, and all tokens together fit the step. -/
theorem progresses_iff_hasRoom (hencoder : env.EncoderNonneg) :
    (∀ (pass : Pass ε ρ) id, pass.phase = .visit → 0 < pass.tokenBudget →
      ((pass.sched.requests id).HasRoom config → pass.Progresses config env id) ∧
      (config.needMambaBlockAlignedSplit = false → (pass.sched.requests id).hasEncoderInputs = false →
        (pass.Progresses config env id ↔ (pass.sched.requests id).HasRoom config))) ∧
    (∀ (pass : Pass ε ρ) id numNewTokens plan newBlocks kv, pass.phase = .allocate id numNewTokens plan →
      pass.sched.kvCacheManager.allocateSlots ((pass.sched.requests id).slotRequest id)
        { numNewTokens, numLookaheadTokens := config.numLookaheadTokens } = (.ok (some newBlocks), kv) →
      ∃ next, pass.runningStep config env = .ok (some next) ∧
        next.numScheduledTokens.lookup id = some numNewTokens) ∧
    (∀ (pass : Pass ε ρ) id plan environment, (pass.sched.requests id).numTokens ≤ config.maxModelLen →
      pass.planAdmission config env id = .ok (.take plan, environment) → plan.loadKvAsync = false →
        0 < plan.numNewTokens ∧ plan.numNewTokens ≤ pass.tokenBudget ∧
        plan.numComputedTokens + plan.numNewTokens ≤ config.maxModelLen) ∧
    ∀ (sched : Scheduler ε ρ) final after, sched.schedule config env = .ok (final, after) →
      final.totalNumScheduledTokens ≤ config.maxNumScheduledTokens := by
  refine ⟨?_, ?_, ?_, ?_⟩
  · intro pass id hphase hbudget
    have hprogress : _ → pass.Progresses config env id := progresses_of_hasRoom hphase hbudget hencoder
    exact ⟨hprogress, fun hmamba hplain ↦ ⟨hasRoom_of_progresses hphase hbudget hmamba hplain, hprogress⟩⟩
  · intro pass id numNewTokens plan newBlocks kv hphase hnew
    refine ⟨(pass.setKv kv).commitRunning env id numNewTokens plan newBlocks, ?_, ?_⟩
    · unfold runningStep
      rw [hphase]
      dsimp only
      rw [hnew]
    · obtain ⟨_, _, _, _, _, -, hcommit⟩ := commitRunning_eq env _ id numNewTokens plan newBlocks
      rw [hcommit]
      exact AList.lookup_insert _
  · intro pass id plan environment hfits hplan hload
    obtain ⟨hpositive, hbudget, hknown⟩ := planAdmission_bounds hencoder hplan hload
    exact ⟨hpositive, hbudget, hknown.trans (Int.ofNat_le.2 hfits)⟩
  · intro sched final after hschedule
    obtain ⟨-, -, -, hchecked, -⟩ := schedule_cases hschedule
    unfold checkConstraints at hchecked
    split at hchecked
    · next hfits => exact hfits.1
    · cases hchecked

/-! ## A prompt that fills the model -/

/-- Two tokens a step and four positions. -/
def chunkedConfig : SchedulerConfig :=
  { policy := .fcfs, maxNumRunningReqs := 4, maxNumScheduledTokens := 2, maxModelLen := 4, blockSize := 1
    blockSize_pos := Nat.one_pos
    nelssaConfig := { enabled := false, firstN := 1, lastM := 1, promptLengthThreshold := 2 } }

/-- A pooling request of four tokens after the given number of steps. -/
def chunkedRun (pool : BlockPool) (numSteps : ℕ) : Scheduler Unit ℕ :=
  ((.enqueue 0 : SchedulerOp Unit ℕ) :: List.replicate numSteps .schedule).foldl
    (apply chunkedConfig plainEnvironment)
    (init chunkedConfig (fun _ ↦ { numPromptTokens := 4, numTokens := 4, maxTokens := 1 })
      { maxModelLen := 4, enableCaching := false, blockPool := pool
        singleTypeManagers := [.nelssa (.init ⟨.fullAttention, 1, Nat.one_pos⟩ false 0 1 1 none)
          (.init chunkedConfig.nelssaConfig)] } ())

/-- The first chunk lets the request go on. -/
theorem progresses_chunkedRun : ∃ pool, BlockPool.init 9 false 1 = .ok pool ∧
    (start chunkedConfig (chunkedRun pool 1)).Progresses chunkedConfig plainEnvironment 0 :=
  ⟨_, rfl, ((progresses_iff_hasRoom fun _ _ _ _ _ _ _ ↦ le_rfl).1 _ 0 rfl (by decide)).1 (by decide)⟩

/-- After the second chunk one token is missing, and no step schedules it. -/
theorem not_progresses_chunkedRun : ∃ pool, BlockPool.init 9 false 1 = .ok pool ∧
    ((chunkedRun pool 2).requests 0).numComputedTokens = 3 ∧
    (∃ final after, (chunkedRun pool 2).schedule chunkedConfig plainEnvironment = .ok (final, after) ∧
      final.numScheduledTokens.keys = [] ∧ final.tokenBudget = 2 ∧
      (after.requests 0).numComputedTokens = 3 ∧ after.running = [0]) ∧
    ¬ (start chunkedConfig (chunkedRun pool 2)).Progresses chunkedConfig plainEnvironment 0 := by
  refine ⟨_, rfl, rfl, ⟨_, _, rfl, rfl, rfl, rfl, rfl⟩, fun hprogress ↦ ?_⟩
  exact absurd (hasRoom_of_progresses rfl (by decide) rfl rfl hprogress) (by decide)

end Scheduler

end Nelssa.Sched
