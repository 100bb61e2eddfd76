import Mathlib.Algebra.GroupWithZero.Nat
import Mathlib.Algebra.Order.BigOperators.Group.List
import Mathlib.Algebra.Order.Group.Nat
import Nelssa.Foundation.Runs
import Nelssa.Sched.RequestQueue

/-!
# Asynchronous output accounting

The asynchronous scheduler schedules a request again before the tokens of the steps in flight are known.
It counts the awaited tokens as placeholders, takes rejected draft tokens back when an output arrives,
and after a forced preemption discards the next output of the request by means of one flag.

The model follows the numbers of every request through `schedule()`, `update_from_output()` and
`reset_prefix_cache()`. Beside them it keeps, for every step in flight, the position for which the worker
samples the first token: the worker corrects a step for the draft tokens that an earlier step rejected,
as long as the request was in every step between the two.
-/

namespace Nelssa.Sched

open Foundation.Runs
open List hiding min

/-- A request's part in a step that is in flight. -/
structure InFlightStep where
  numSpecTokens : ℕ
  /-- The step is no prefill chunk, so the worker returns tokens. -/
  samples : Bool
  /-- The position of the first sampled token. -/
  position : ℤ
  /-- How often the request was left out or preempted before the step. -/
  chain : ℕ
  /-- The request was forcibly preempted after the step was scheduled. -/
  forced : Bool
  deriving DecidableEq

/-- The numbers of a request that asynchronous scheduling maintains, and its steps in flight, the oldest
one first. Of the draft tokens only their number matters. -/
structure AsyncRequest where
  status : RequestStatus
  numTokens : ℕ
  numComputedTokens : ℤ
  numOutputPlaceholders : ℤ
  numSpecTokens : ℕ
  discardLatestAsyncTokens : Bool
  chain : ℕ
  inFlight : List InFlightStep

/-- What `schedule()` does with a request. -/
inductive Decision where
  | leave
  | run (numNewTokens : ℕ)
  | resume (numCachedTokens numNewTokens : ℕ)
  | load (numLoadedTokens : ℕ)
  | preempt

/-- The output of a step for a request: the number of accepted draft tokens, and the token, counted from
one, that stops the request. -/
structure StepOutcome where
  numAccepted : ℕ
  stopAfter : Option ℕ

namespace InFlightStep

/-- Account for rejected draft tokens of an earlier step. -/
def correct (chain numRejected : ℕ) (step : InFlightStep) : InFlightStep :=
  if step.chain = chain then { step with position := step.position - numRejected } else step

def force (step : InFlightStep) : InFlightStep := { step with forced := true }

/-- The number of sampled and draft positions of a step. -/
def numPositions (step : InFlightStep) : ℕ := 1 + step.numSpecTokens

section

variable (chain numRejected : ℕ) (step : InFlightStep)
include chain numRejected step

@[simp]
theorem samples_correct : (step.correct chain numRejected).samples = step.samples := by
  unfold correct
  split <;> rfl

@[simp]
theorem forced_correct : (step.correct chain numRejected).forced = step.forced := by
  unfold correct
  split <;> rfl

@[simp]
theorem numSpecTokens_correct : (step.correct chain numRejected).numSpecTokens = step.numSpecTokens := by
  unfold correct
  split <;> rfl

@[simp]
theorem chain_correct : (step.correct chain numRejected).chain = step.chain := by
  unfold correct
  split <;> rfl

end

end InFlightStep

open InFlightStep

namespace AsyncRequest

def create (numPromptTokens : ℕ) : AsyncRequest :=
  { status := .waiting, numTokens := numPromptTokens, numComputedTokens := 0, numOutputPlaceholders := 0
    numSpecTokens := 0, discardLatestAsyncTokens := false, chain := 0, inFlight := [] }

variable (req : AsyncRequest)

/-- `_update_after_schedule` of both classes. -/
def updateAfterSchedule (numSpecTokens numScheduledTokens curNumSpecTokens : ℕ) : AsyncRequest :=
  let numComputedTokens := req.numComputedTokens + numScheduledTokens
  let isPrefillChunk := numComputedTokens < req.numTokens + req.numOutputPlaceholders
  let step : InFlightStep :=
    { numSpecTokens := curNumSpecTokens, samples := !decide isPrefillChunk
      position := numComputedTokens - curNumSpecTokens, chain := req.chain, forced := false }
  let scheduled := { req with numComputedTokens, inFlight := req.inFlight ++ [step] }
  if isPrefillChunk then scheduled
  else { scheduled with
    numOutputPlaceholders := req.numOutputPlaceholders + (1 + curNumSpecTokens : ℕ)
    numSpecTokens }

/-- The draft tokens among the new tokens. -/
def numScheduledSpecTokens (numNewTokens : ℕ) : ℕ :=
  min req.numSpecTokens
    (numNewTokens + req.numComputedTokens - req.numTokens - req.numOutputPlaceholders).toNat

/-- The tokens that a waiting request does not have to compute. After a full load the last token is
computed anew. -/
def numStartTokens (numCachedTokens : ℕ) : ℤ :=
  if req.status = .waitingForRemoteKvs ∧ req.numComputedTokens = req.numTokens then
    req.numTokens - 1
  else if req.numComputedTokens = 0 then numCachedTokens else req.numComputedTokens

/-- The bounds that `schedule()` sees to. -/
def Permits : Decision → Prop
  | .leave => True
  | .run numNewTokens => req.status = .running ∧ 0 < numNewTokens ∧
      req.numComputedTokens + numNewTokens ≤
        req.numTokens + req.numSpecTokens + req.numOutputPlaceholders
  | .resume numCachedTokens numNewTokens =>
      (req.status = .waiting ∨ req.status = .preempted ∨ req.status = .waitingForRemoteKvs) ∧
        0 < numNewTokens ∧ req.numStartTokens numCachedTokens + numNewTokens ≤ req.numTokens
  | .load numLoadedTokens => (req.status = .waiting ∨ req.status = .preempted) ∧
      req.numComputedTokens = 0 ∧ numLoadedTokens ≤ req.numTokens
  | .preempt => req.status = .running

instance : (decision : Decision) → Decidable (req.Permits decision)
  | .leave => inferInstanceAs (Decidable True)
  | .run _ => inferInstanceAs (Decidable (_ ∧ _ ∧ _))
  | .resume _ _ => inferInstanceAs (Decidable ((_ ∨ _ ∨ _) ∧ _ ∧ _))
  | .load _ => inferInstanceAs (Decidable ((_ ∨ _) ∧ _ ∧ _))
  | .preempt => inferInstanceAs (Decidable (_ = _))

/-- A request that is not in a step, or no longer. -/
def leave : AsyncRequest := { req with chain := req.chain + 1 }

def preemptRequest : AsyncRequest :=
  { req.leave with status := .preempted, numComputedTokens := 0, numSpecTokens := 0 }

/-- One request in a call of `schedule()`. -/
def schedule (numSpecTokens : ℕ) (decision : Decision) : AsyncRequest :=
  if req.Permits decision then
    match decision with
    | .leave => req.leave
    | .run numNewTokens => { req with numSpecTokens := 0 }.updateAfterSchedule numSpecTokens numNewTokens
        (req.numScheduledSpecTokens numNewTokens)
    | .resume numCachedTokens numNewTokens => { req with
        status := .running
        numComputedTokens := req.numStartTokens numCachedTokens }.updateAfterSchedule
          numSpecTokens numNewTokens 0
    | .load numLoadedTokens =>
      { req.leave with status := .waitingForRemoteKvs, numComputedTokens := numLoadedTokens }
    | .preempt => req.preemptRequest
  else req.leave

def isScheduled (decision : Decision) : Bool :=
  match decision with
  | .run _ | .resume _ _ => req.Permits decision
  | _ => false

/-- Append the generated tokens up to the one that stops the request. -/
def updateRequestWithOutput (numGenerated : ℕ) (stopAfter : Option ℕ) : AsyncRequest :=
  if req.discardLatestAsyncTokens then { req with discardLatestAsyncTokens := false }
  else
    let append (numNewTokens : ℕ) (status : RequestStatus) : AsyncRequest := { req with
      status
      numTokens := req.numTokens + numNewTokens
      numOutputPlaceholders := req.numOutputPlaceholders - numNewTokens }
    match stopAfter with
    | none => append numGenerated req.status
    | some index =>
      if 0 < index ∧ index ≤ numGenerated then append index .finished else append numGenerated req.status

/-- The output of the oldest step in flight. Draft tokens that are not accepted are rejected. -/
def updateFromOutput (outcome : StepOutcome) : AsyncRequest :=
  match req.inFlight with
  | [] => req
  | step :: rest =>
    if req.status = .finished ∨ step.samples = false then { req with inFlight := rest }
    else
      let numAccepted := min outcome.numAccepted step.numSpecTokens
      let numRejected := step.numSpecTokens - numAccepted
      let corrected := { req with
        numComputedTokens :=
          if 0 < req.numComputedTokens then req.numComputedTokens - numRejected
          else req.numComputedTokens
        numOutputPlaceholders :=
          if 0 < req.numOutputPlaceholders then req.numOutputPlaceholders - numRejected
          else req.numOutputPlaceholders
        inFlight := rest.map (correct step.chain numRejected) }
      corrected.updateRequestWithOutput (numAccepted + 1) outcome.stopAfter

/-- The forced preemption of `reset_prefix_cache`. -/
def resetRunning : AsyncRequest :=
  if req.status = .running then
    { req.preemptRequest with
      numOutputPlaceholders := 0
      discardLatestAsyncTokens := true
      inFlight := req.inFlight.map force }
  else req

end AsyncRequest

/-- All requests, and the requests in each of the steps in flight. -/
structure AsyncScheduler (ρ : Type*) where
  requests : ρ → AsyncRequest
  steps : List (ρ → Bool)

/-- The calls of the engine. -/
inductive AsyncOp (ρ : Type*) where
  | schedule (decision : ρ → Decision)
  | updateFromOutput (outcome : ρ → StepOutcome)
  | resetPrefixCache

namespace AsyncScheduler

variable {ρ : Type*}

def create (numPromptTokens : ρ → ℕ) : AsyncScheduler ρ :=
  { requests := fun id ↦ .create (numPromptTokens id), steps := [] }

/-- A call that schedules nothing is a step as well. -/
def apply (numSpecTokens : ℕ) (sched : AsyncScheduler ρ) : AsyncOp ρ → AsyncScheduler ρ
  | .schedule decision =>
    { requests := fun id ↦ (sched.requests id).schedule numSpecTokens (decision id)
      steps := sched.steps ++ [fun id ↦ (sched.requests id).isScheduled (decision id)] }
  | .updateFromOutput outcome => match sched.steps with
    | [] => sched
    | step :: rest =>
      { requests := fun id ↦
          if step id then (sched.requests id).updateFromOutput (outcome id) else sched.requests id
        steps := rest }
  | .resetPrefixCache => { sched with requests := fun id ↦ (sched.requests id).resetRunning }

end AsyncScheduler

/-! ## Exact accounts -/

namespace AsyncRequest

variable (req : AsyncRequest) {step : InFlightStep} {steps : List InFlightStep}
  {numSpecTokens numNewTokens : ℕ}

/-- The steps in flight whose tokens will be appended. -/
def awaited : List InFlightStep := req.inFlight.filter fun step ↦ step.samples && !step.forced

/-- The steps in flight whose tokens are out of date. -/
def stale : List InFlightStep := req.inFlight.filter fun step ↦ step.samples && step.forced

def Counted : Prop :=
  0 ≤ req.numOutputPlaceholders ∧ (req.status ≠ .finished →
    req.numOutputPlaceholders = ((req.awaited.map numPositions).sum : ℕ))

/-- No draft tokens are in flight from before the request was left out or preempted. -/
def CanSchedule : Decision → Prop
  | .run _ | .resume _ _ => ∀ step ∈ req.awaited, 0 < step.numSpecTokens → step.chain = req.chain
  | _ => True

/-- An output that is out of date rejects no draft tokens, or no output is awaited. -/
def CanUpdate (outcome : StepOutcome) : Prop :=
  ∀ step ∈ req.inFlight.head?, step.samples = true → step.forced = true →
    step.numSpecTokens ≤ outcome.numAccepted ∨ req.numOutputPlaceholders = 0

/-- One step that returns tokens is in flight for a running request. -/
def CanReset : Prop :=
  req.status = .running → (req.inFlight.filter samples).length = 1

/-! ## The invariant of a request -/

/-- The steps sample for consecutive positions from `position` on. -/
def InPlace : ℤ → List InFlightStep → Prop
  | _, [] => True
  | position, step :: rest => step.position = position ∧ InPlace (position + step.numPositions) rest

/-- The steps in flight and the numbers that count them. -/
structure Lined : Prop where
  staleFirst : req.inFlight.filter samples = req.stale ++ req.awaited
  flag : req.stale.length = if req.discardLatestAsyncTokens then 1 else 0
  placeholders : req.numOutputPlaceholders =
    ((req.awaited.map numPositions).sum : ℕ)
  inPlace : InPlace req.numTokens req.awaited
  corrected : req.awaited.Pairwise fun step later ↦ 0 < step.numSpecTokens → later.chain = step.chain
  chains : ∀ step ∈ req.awaited, step.chain ≤ req.chain
  staleChains : ∀ step ∈ req.stale, step.chain < req.chain ∧
    ∀ later ∈ req.awaited, step.chain < later.chain

/-- What holds for a request that is not finished. -/
structure Accounted : Prop extends req.Lined where
  computed : req.status = .running →
    req.numComputedTokens ≤ req.numTokens + req.numOutputPlaceholders ∧
      ((∃ step ∈ req.awaited, 0 < step.numSpecTokens) →
        req.numComputedTokens = req.numTokens + req.numOutputPlaceholders - 1)
  interrupted : req.status ≠ .running → ∀ step ∈ req.awaited, step.chain < req.chain

def Inv : Prop := 0 ≤ req.numOutputPlaceholders ∧ (req.status ≠ .finished → req.Accounted)

variable {req}

theorem Inv.counted (hinv : req.Inv) : req.Counted := ⟨hinv.1, fun hstat ↦ (hinv.2 hstat).placeholders⟩

theorem Accounted.inv (hacc : req.Accounted) : req.Inv :=
  ⟨by rw [hacc.placeholders]; exact Int.natCast_nonneg _, fun _ ↦ hacc⟩

section

variable {position : ℤ} (hplace : InPlace position steps)
include hplace

theorem inPlace_append (hstep : step.position = position + ((steps.map numPositions).sum : ℕ)) :
    InPlace position (steps ++ [step]) := by
  induction steps generalizing position with
  | nil => exact ⟨by simpa using hstep, trivial⟩
  | cons first rest ih =>
    refine ⟨hplace.1, ih hplace.2 ?_⟩
    rw [hstep, map_cons, sum_cons]
    omega

theorem inPlace_correct (chain numRejected : ℕ)
    (hchain : 0 < numRejected → ∀ step ∈ steps, step.chain = chain) :
    InPlace (position - numRejected) (steps.map (correct chain numRejected)) := by
  induction steps generalizing position with
  | nil => trivial
  | cons first rest ih =>
    have hrest := ih hplace.2 fun hpos step hstep ↦ hchain hpos step (mem_cons_of_mem _ hstep)
    have hpositions : (first.correct chain numRejected).numPositions = first.numPositions := by
      unfold correct
      split <;> rfl
    refine ⟨?_, ?_⟩
    · unfold correct
      split
      · rw [← hplace.1]
      · next hother =>
        have hnone : numRejected = 0 := by
          by_contra hpos
          exact hother (hchain (pos_of_ne_zero hpos) first mem_cons_self)
        rw [hplace.1]
        omega
    · have hmoved : position - numRejected + first.numPositions =
          position + first.numPositions - numRejected := by omega
      rwa [hpositions, hmoved]

end

theorem Accounted.leave (hacc : req.Accounted) : req.leave.Accounted where
  toLined := { hacc.toLined with
    chains := fun step hstep ↦ (hacc.chains step hstep).trans (Nat.le_succ _)
    staleChains := fun step hstep ↦
      ⟨(hacc.staleChains step hstep).1.trans (Nat.lt_succ_self _), (hacc.staleChains step hstep).2⟩ }
  computed := hacc.computed
  interrupted _ step hstep := Nat.lt_succ_of_le (hacc.chains step hstep)

theorem Accounted.leaveAs (hacc : req.Accounted) {status : RequestStatus}
    (hstat : status ≠ .running) (numComputedTokens : ℤ) (numSpecTokens : ℕ) :
    Accounted { req.leave with status, numComputedTokens, numSpecTokens } where
  toLined := { hacc.leave.toLined with }
  computed hrun := absurd hrun hstat
  interrupted _ step hstep := Nat.lt_succ_of_le (hacc.chains step hstep)

/-! The steps that return tokens decide which ones are awaited and which ones are out of date. -/

theorem awaited_eq (req : AsyncRequest) :
    req.awaited = (req.inFlight.filter samples).filter fun step ↦ !step.forced := by
  simp [awaited, Bool.and_comm]

theorem stale_eq (req : AsyncRequest) : req.stale = (req.inFlight.filter samples).filter forced := by
  simp [stale, Bool.and_comm]

variable {next : AsyncRequest}

section

variable (hsame : next.inFlight.filter samples = req.inFlight.filter samples)
include hsame

theorem awaited_congr : next.awaited = req.awaited := by
  rw [awaited_eq, hsame, ← awaited_eq]

theorem stale_congr : next.stale = req.stale := by
  rw [stale_eq, hsame, ← stale_eq]

end

/-- Prefill chunks come and go. -/
theorem Lined.of_samples (hlined : req.Lined) (hsame : steps.filter samples = req.inFlight.filter samples)
    (numComputedTokens : ℤ) : Lined { req with numComputedTokens, inFlight := steps } := by
  let next : AsyncRequest := { req with numComputedTokens, inFlight := steps }
  have hawaited : next.awaited = req.awaited := awaited_congr hsame
  have hstale : next.stale = req.stale := stale_congr hsame
  exact {
    staleFirst := by rw [hawaited, hstale, ← hlined.staleFirst]; exact hsame
    flag := by rw [hstale]; exact hlined.flag
    placeholders := by rw [hawaited]; exact hlined.placeholders
    inPlace := by rw [hawaited]; exact hlined.inPlace
    corrected := by rw [hawaited]; exact hlined.corrected
    chains := by rw [hawaited]; exact hlined.chains
    staleChains := by rw [hawaited, hstale]; exact hlined.staleChains }

variable {curNumSpecTokens : ℕ}

section

variable (hlined : req.Lined)
  (hchain : ∀ step ∈ req.awaited, 0 < step.numSpecTokens → step.chain = req.chain)
include hlined hchain

theorem Lined.addSampling (hsamples : step.samples = true) (hforced : step.forced = false)
    (hstep : step.chain = req.chain) (hpos : step.position = req.numTokens + req.numOutputPlaceholders)
    (numComputedTokens : ℤ) (numSpecTokens : ℕ) :
    Lined { req with
      numComputedTokens, numSpecTokens
      numOutputPlaceholders := req.numOutputPlaceholders + step.numPositions
      inFlight := req.inFlight ++ [step] } := by
  let next : AsyncRequest := { req with
    numComputedTokens, numSpecTokens
    numOutputPlaceholders := req.numOutputPlaceholders + step.numPositions
    inFlight := req.inFlight ++ [step] }
  have hawaited : next.awaited = req.awaited ++ [step] := by
    simp [awaited, next, hsamples, hforced]
  have hstale : next.stale = req.stale := by
    simp [stale, next, hforced]
  exact {
    staleFirst := by
      rw [hawaited, hstale, ← append_assoc, ← hlined.staleFirst]
      simp [hsamples]
    flag := by rw [hstale]; exact hlined.flag
    placeholders := by
      have hplaceholders := hlined.placeholders
      change req.numOutputPlaceholders + step.numPositions = _
      rw [hawaited, map_append, sum_append, map_singleton, sum_singleton]
      omega
    inPlace := by
      rw [hawaited]
      exact inPlace_append hlined.inPlace (by rw [hpos, hlined.placeholders])
    corrected := by
      rw [hawaited]
      refine pairwise_append.2 ⟨hlined.corrected, pairwise_singleton _ _, ?_⟩
      rintro earlier hearlier later hlater hdraft
      rw [mem_singleton.1 hlater, hstep, hchain earlier hearlier hdraft]
    chains := by
      rw [hawaited]
      intro other hother
      rcases mem_append.1 hother with hold | hnew
      · exact hlined.chains other hold
      · rw [mem_singleton.1 hnew, hstep]
    staleChains := by
      rw [hawaited, hstale]
      intro other hother
      obtain ⟨hlt, hlater⟩ := hlined.staleChains other hother
      refine ⟨hlt, fun later hmem ↦ ?_⟩
      rcases mem_append.1 hmem with hold | hnew
      · exact hlater later hold
      · rwa [mem_singleton.1 hnew, hstep] }

/-- A request that is scheduled up to its last token or a draft token samples behind its tokens. -/
theorem Lined.updateAfterSchedule
    (hlast : ¬ req.numComputedTokens + numNewTokens < req.numTokens + req.numOutputPlaceholders →
      req.numComputedTokens + numNewTokens = req.numTokens + req.numOutputPlaceholders + curNumSpecTokens) :
    (req.updateAfterSchedule numSpecTokens numNewTokens curNumSpecTokens).Lined := by
  unfold AsyncRequest.updateAfterSchedule
  dsimp only
  split
  · next hchunk => exact hlined.of_samples (by simp [hchunk]) _
  · next hchunk =>
    let step : InFlightStep :=
      { numSpecTokens := curNumSpecTokens
        samples := !decide (req.numComputedTokens + numNewTokens < req.numTokens + req.numOutputPlaceholders)
        position := req.numComputedTokens + numNewTokens - curNumSpecTokens
        chain := req.chain, forced := false }
    have hsamples : step.samples = true := by simpa [step] using hchunk
    have hplace : step.position = req.numTokens + req.numOutputPlaceholders := by
      dsimp only [step]
      omega
    exact hlined.addSampling hchain hsamples rfl rfl hplace _ _

end

theorem Lined.sum_le (hlined : req.Lined) (hstep : step ∈ req.awaited) :
    (step.numPositions : ℤ) ≤ req.numOutputPlaceholders := by
  rw [hlined.placeholders]
  have hle : step.numPositions ≤ (req.awaited.map numPositions).sum :=
    single_le_sum (fun count _ ↦ Nat.zero_le count) _ (mem_map_of_mem hstep)
  omega

theorem status_updateAfterSchedule (req : AsyncRequest) (numSpecTokens numNewTokens curNumSpecTokens : ℕ) :
    (req.updateAfterSchedule numSpecTokens numNewTokens curNumSpecTokens).status = req.status := by
  unfold updateAfterSchedule
  dsimp only
  split <;> rfl

/-- The computed tokens of a request that is scheduled. If draft tokens are in flight, the request goes on
with them. -/
theorem computed_updateAfterSchedule (req : AsyncRequest)
    (hdraft : (∃ step ∈ req.awaited, 0 < step.numSpecTokens) →
      req.numTokens + req.numOutputPlaceholders ≤ req.numComputedTokens + numNewTokens)
    (hlast : ¬ req.numComputedTokens + numNewTokens < req.numTokens + req.numOutputPlaceholders →
      req.numComputedTokens + numNewTokens = req.numTokens + req.numOutputPlaceholders + curNumSpecTokens)
    (hnext : req.updateAfterSchedule numSpecTokens numNewTokens curNumSpecTokens = next) :
    next.numComputedTokens ≤ next.numTokens + next.numOutputPlaceholders ∧
      ((∃ step ∈ next.awaited, 0 < step.numSpecTokens) →
        next.numComputedTokens = next.numTokens + next.numOutputPlaceholders - 1) := by
  unfold updateAfterSchedule at hnext
  dsimp only at hnext
  split at hnext
  · next hchunk =>
    have hawaited : next.awaited = req.awaited := by
      rw [← hnext]
      exact awaited_congr (by simp [hchunk])
    have hnone : ¬ ∃ step ∈ next.awaited, 0 < step.numSpecTokens := by
      rw [hawaited]
      intro hsome
      have := hdraft hsome
      omega
    refine ⟨?_, fun hsome ↦ absurd hsome hnone⟩
    rw [← hnext]
    exact hchunk.le
  · next =>
    rw [← hnext]
    dsimp only
    constructor
    · omega
    · omega

theorem Accounted.run (hacc : req.Accounted)
    (hpermits : req.Permits (.run numNewTokens)) (hcan : req.CanSchedule (.run numNewTokens)) :
    ({ req with numSpecTokens := 0 }.updateAfterSchedule numSpecTokens numNewTokens
      (req.numScheduledSpecTokens numNewTokens)).Accounted := by
  obtain ⟨hstat, hpos, hle⟩ := hpermits
  obtain ⟨hcomp, hdraft⟩ := hacc.computed hstat
  have hlined : Lined { req with numSpecTokens := 0 } := { hacc.toLined with }
  have hlast : ¬ req.numComputedTokens + numNewTokens < req.numTokens + req.numOutputPlaceholders →
      req.numComputedTokens + numNewTokens = req.numTokens + req.numOutputPlaceholders +
        req.numScheduledSpecTokens numNewTokens := by
    unfold numScheduledSpecTokens
    omega
  have hbehind : (∃ step ∈ req.awaited, 0 < step.numSpecTokens) →
      req.numTokens + req.numOutputPlaceholders ≤ req.numComputedTokens + numNewTokens := by
    intro hsome
    have := hdraft hsome
    omega
  exact ⟨hlined.updateAfterSchedule hcan hlast,
    fun _ ↦ computed_updateAfterSchedule { req with numSpecTokens := 0 } hbehind hlast rfl,
    absurd ((status_updateAfterSchedule { req with numSpecTokens := 0 } _ _ _).trans hstat)⟩

theorem Accounted.resume (hacc : req.Accounted) {numCachedTokens : ℕ}
    (hpermits : req.Permits (.resume numCachedTokens numNewTokens))
    (hcan : req.CanSchedule (.resume numCachedTokens numNewTokens)) :
    ({ req with
      status := .running
      numComputedTokens := req.numStartTokens numCachedTokens }.updateAfterSchedule
        numSpecTokens numNewTokens 0).Accounted := by
  obtain ⟨hstat, hpos, hle⟩ := hpermits
  have hwait : req.status ≠ .running := by
    rintro hrun
    simp [hrun] at hstat
  have hnone : ¬ ∃ step ∈ req.awaited, 0 < step.numSpecTokens := by
    rintro ⟨step, hstep, hspec⟩
    have hlt := hacc.interrupted hwait step hstep
    have heq := hcan step hstep hspec
    omega
  have hlined : Lined { req with
      status := .running, numComputedTokens := req.numStartTokens numCachedTokens } :=
    { hacc.toLined with }
  have hplaceholders := hacc.inv.1
  have hlast : ¬ req.numStartTokens numCachedTokens + numNewTokens <
      req.numTokens + req.numOutputPlaceholders →
      req.numStartTokens numCachedTokens + numNewTokens =
        req.numTokens + req.numOutputPlaceholders + (0 : ℕ) := by omega
  exact ⟨hlined.updateAfterSchedule hcan hlast,
    fun _ ↦ computed_updateAfterSchedule { req with
      status := .running, numComputedTokens := req.numStartTokens numCachedTokens }
      (fun hsome ↦ absurd hsome hnone) hlast rfl,
    absurd (status_updateAfterSchedule _ _ _ _)⟩

theorem Inv.schedule (hinv : req.Inv) {decision : Decision}
    (hcan : req.CanSchedule decision) : (req.schedule numSpecTokens decision).Inv := by
  by_cases hfin : req.status = .finished
  · -- A finished request is in no queue.
    have hsame : req.schedule numSpecTokens decision = req.leave := by
      unfold AsyncRequest.schedule
      cases decision <;> simp [Permits, hfin]
    rw [hsame]
    exact ⟨hinv.1, absurd hfin⟩
  · have hacc := hinv.2 hfin
    unfold AsyncRequest.schedule
    split
    · next hpermits =>
      cases decision with
      | leave => exact hacc.leave.inv
      | run numNewTokens => exact (hacc.run hpermits hcan).inv
      | resume numCachedTokens numNewTokens => exact (hacc.resume hpermits hcan).inv
      | load numLoadedTokens => exact (hacc.leaveAs (by decide) _ _).inv
      | preempt => exact (hacc.leaveAs (by decide) _ _).inv
    · exact hacc.leave.inv

theorem forced_of_mem_stale (hstep : step ∈ req.stale) : step.forced = true :=
  ((Bool.and_eq_true _ _).mp (mem_filter.1 hstep).2).2

/-- The worker's number for a step in flight was not given after the last interruption. -/
theorem Lined.chain_le (hlined : req.Lined) (hstep : step ∈ req.inFlight)
    (hsamples : step.samples = true) : step.chain ≤ req.chain := by
  have hmem : step ∈ req.stale ++ req.awaited := by
    rw [← hlined.staleFirst]
    exact mem_filter.2 ⟨hstep, hsamples⟩
  rcases mem_append.1 hmem with hstale | hawaited
  · exact (hlined.staleChains step hstale).1.le
  · exact hlined.chains step hawaited

theorem Inv.resetRunning (hinv : req.Inv) (hcan : req.CanReset) : req.resetRunning.Inv := by
  unfold AsyncRequest.resetRunning
  split
  · next hstat =>
    have hacc := hinv.2 (by rw [hstat]; decide)
    let next : AsyncRequest := { req.preemptRequest with
      numOutputPlaceholders := 0
      discardLatestAsyncTokens := true
      inFlight := req.inFlight.map force }
    have hawaited : next.awaited = [] := by
      simp [awaited, next, force]
    have hstale : next.stale = (req.inFlight.filter samples).map force := by
      simp [stale, next, filter_map, Function.comp_def, force]
    refine Accounted.inv ⟨⟨?_, ?_, ?_, ?_, ?_, ?_, ?_⟩, nofun, ?_⟩
    · rw [hawaited, hstale, append_nil, filter_map]
      rfl
    · rw [hstale, length_map]
      exact hcan hstat
    · rw [hawaited]
      rfl
    · rw [hawaited]
      trivial
    · rw [hawaited]
      exact .nil
    · rw [hawaited]
      nofun
    · rw [hawaited, hstale]
      intro step hstep
      obtain ⟨_, horiginal, rfl⟩ := mem_map.1 hstep
      obtain ⟨hmem, hsamples⟩ := mem_filter.1 horiginal
      have hle := hacc.toLined.chain_le hmem hsamples
      exact ⟨Nat.lt_succ_of_le hle, nofun⟩
    · rw [hawaited]
      nofun
  · exact hinv

/-! ## Outputs -/

variable {rest : List InFlightStep}

section Outputs

variable (hsteps : req.inFlight = step :: rest)
include hsteps

variable (hlined : req.Lined) (hsamples : step.samples = true)
include hlined hsamples

/-- With the flag set, the oldest output is out of date and it is the only one. -/
theorem Lined.head_of_discard (hflag : req.discardLatestAsyncTokens = true) :
    step ∈ req.stale ∧ req.awaited = rest.filter samples := by
  have hlen := hlined.flag
  rw [if_pos hflag] at hlen
  obtain ⟨_, honly⟩ := length_eq_one_iff.1 hlen
  have hfirst := hlined.staleFirst
  rw [hsteps, filter_cons_of_pos hsamples, honly] at hfirst
  obtain ⟨rfl, hrest⟩ := cons.inj hfirst
  rw [honly]
  exact ⟨mem_singleton_self _, hrest.symm⟩

theorem Lined.head_of_keep (hflag : req.discardLatestAsyncTokens = false) :
    req.awaited = step :: rest.filter samples := by
  have hlen := hlined.flag
  rw [hflag] at hlen
  have hfirst := hlined.staleFirst
  rw [hsteps, filter_cons_of_pos hsamples, length_eq_zero_iff.1 hlen] at hfirst
  exact hfirst.symm

end Outputs

/-- What has to be shown for the request behind an output: no step that is left is out of date. -/
structure Remains (req : AsyncRequest) (steps : List InFlightStep) : Prop where
  placeholders : req.numOutputPlaceholders = ((steps.map numPositions).sum : ℕ)
  inPlace : InPlace req.numTokens steps
  corrected : steps.Pairwise fun step later ↦ 0 < step.numSpecTokens → later.chain = step.chain
  chains : ∀ step ∈ steps, step.chain ≤ req.chain
  computed : req.status = .running →
    req.numComputedTokens ≤ req.numTokens + req.numOutputPlaceholders ∧
      ((∃ step ∈ steps, 0 < step.numSpecTokens) →
        req.numComputedTokens = req.numTokens + req.numOutputPlaceholders - 1)
  interrupted : req.status ≠ .running → ∀ step ∈ steps, step.chain < req.chain

variable {numRejected : ℕ}

theorem Remains.accounted {chain : ℕ} (hsteps : next.inFlight = steps.map (correct chain numRejected))
    (hfresh : steps.filter samples ⊆ req.awaited)
    (hflag : next.discardLatestAsyncTokens = false)
    (hremains : next.Remains ((steps.filter samples).map (correct chain numRejected))) : next.Accounted := by
  have hsampling : next.inFlight.filter samples = (steps.filter samples).map (correct chain numRejected) := by
    rw [hsteps, filter_map]
    simp [Function.comp_def]
  have hforced : ∀ later ∈ next.inFlight.filter samples, later.forced = false := by
    rw [hsampling]
    intro later hlater
    obtain ⟨_, horiginal, rfl⟩ := mem_map.1 hlater
    have hawaited := (mem_filter.1 (hfresh horiginal)).2
    simp only [Bool.and_eq_true, Bool.not_eq_true'] at hawaited
    rw [forced_correct]
    exact hawaited.2
  have hawaited : next.awaited = next.inFlight.filter samples := by
    rw [awaited_eq]
    exact filter_eq_self.2 fun later hlater ↦ by rw [hforced later hlater]; rfl
  have hstale : next.stale = [] := by
    rw [stale_eq]
    exact filter_eq_nil_iff.2 fun later hlater ↦ by rw [hforced later hlater]; decide
  rw [← hsampling, ← hawaited] at hremains
  exact {
    staleFirst := by rw [hstale, nil_append, hawaited]
    flag := by rw [hstale, hflag]; rfl
    placeholders := hremains.placeholders
    inPlace := hremains.inPlace
    corrected := hremains.corrected
    chains := hremains.chains
    staleChains := by rw [hstale]; nofun
    computed := hremains.computed
    interrupted := hremains.interrupted }

theorem Accounted.discard (hacc : req.Accounted) (hsteps : req.inFlight = step :: rest)
    (hsamples : step.samples = true) (hflag : req.discardLatestAsyncTokens = true)
    (hrejected : numRejected = 0 ∨ req.numOutputPlaceholders = 0) :
    Accounted { req with
      numComputedTokens :=
        if 0 < req.numComputedTokens then req.numComputedTokens - numRejected
        else req.numComputedTokens
      numOutputPlaceholders :=
        if 0 < req.numOutputPlaceholders then req.numOutputPlaceholders - numRejected
        else req.numOutputPlaceholders
      inFlight := rest.map (correct step.chain numRejected)
      discardLatestAsyncTokens := false } := by
  obtain ⟨hstale, hawaited⟩ := hacc.head_of_discard hsteps hsamples hflag
  have hsame : (rest.filter samples).map (correct step.chain numRejected) =
      req.awaited := by
    rw [← hawaited]
    refine (map_congr_left fun later hlater ↦ ?_).trans (map_id _)
    have hlt := (hacc.staleChains step hstale).2 later hlater
    exact if_neg (by omega)
  have hplaceholders : (if 0 < req.numOutputPlaceholders then req.numOutputPlaceholders - numRejected
      else req.numOutputPlaceholders) = req.numOutputPlaceholders := by
    split <;> omega
  have hfresh : rest.filter samples ⊆ req.awaited := by
    rw [hawaited]
    exact .refl _
  refine Remains.accounted rfl hfresh rfl ?_
  rw [hsame]
  exact {
    placeholders := by rw [← hacc.placeholders]; exact hplaceholders
    inPlace := hacc.inPlace
    corrected := hacc.corrected
    chains := hacc.chains
    computed := fun hstat ↦ by
      obtain ⟨hle, hdraft⟩ := hacc.computed hstat
      dsimp only
      refine ⟨by split <;> omega, fun hsome ↦ ?_⟩
      obtain ⟨other, hother, hspec⟩ := hsome
      have hpos := hacc.sum_le hother
      have hcomp := hdraft ⟨other, hother, hspec⟩
      have hzero : numRejected = 0 := by
        unfold numPositions at hpos
        omega
      split <;> omega
    interrupted := hacc.interrupted }

section Appends

section

variable (hacc : req.Accounted) (hsteps : req.inFlight = step :: rest)
  (hsamples : step.samples = true) (hflag : req.discardLatestAsyncTokens = false)
include hacc hsteps hsamples hflag

/-- The numbers of a request when the output of an awaited step with `numRejected` rejected draft tokens
has been corrected for. -/
theorem Accounted.corrected_of_keep (numRejected : ℕ) (hle : numRejected ≤ step.numSpecTokens) :
    step.position = req.numTokens ∧
      (if 0 < req.numOutputPlaceholders then req.numOutputPlaceholders - numRejected
        else req.numOutputPlaceholders) = req.numOutputPlaceholders - numRejected ∧
      1 + step.numSpecTokens ≤ req.numOutputPlaceholders ∧
      (req.status = .running →
        (if 0 < req.numComputedTokens then req.numComputedTokens - numRejected
          else req.numComputedTokens) ≤ req.numTokens + (req.numOutputPlaceholders - numRejected)) := by
  have hawaited := hacc.head_of_keep hsteps hsamples hflag
  have hmem : step ∈ req.awaited := by
    rw [hawaited]
    exact mem_cons_self
  have hpositions := hacc.sum_le hmem
  have hplace := hacc.inPlace
  rw [hawaited] at hplace
  unfold numPositions at hpositions
  refine ⟨hplace.1, if_pos (by omega), by omega, fun hstat ↦ ?_⟩
  obtain ⟨hcomp, hdraft⟩ := hacc.computed hstat
  by_cases hspec : 0 < step.numSpecTokens
  · split <;> omega
  · split <;> omega

theorem Accounted.append {numAccepted : ℕ} (hsum : numAccepted + numRejected = step.numSpecTokens) :
    Accounted { req with
      numTokens := req.numTokens + (numAccepted + 1)
      numComputedTokens :=
        if 0 < req.numComputedTokens then req.numComputedTokens - numRejected
        else req.numComputedTokens
      numOutputPlaceholders := (if 0 < req.numOutputPlaceholders then
        req.numOutputPlaceholders - numRejected
        else req.numOutputPlaceholders) - (numAccepted + 1 : ℕ)
      inFlight := rest.map (correct step.chain numRejected) } := by
  have hawaited := hacc.head_of_keep hsteps hsamples hflag
  obtain ⟨-, -, -, hcomp⟩ :=
    hacc.corrected_of_keep hsteps hsamples hflag numRejected (by omega)
  have hsumAll := hacc.placeholders
  have hplace := hacc.inPlace
  have hpairs := hacc.corrected
  rw [hawaited] at hsumAll hplace hpairs
  rw [map_cons, sum_cons, numPositions] at hsumAll
  obtain ⟨hchains, hpairs⟩ := pairwise_cons.1 hpairs
  have hmem : rest.filter samples ⊆ req.awaited := by
    rw [hawaited]
    exact subset_cons_self _ _
  refine Remains.accounted rfl hmem hflag ?_
  exact {
    placeholders := by
      have hsame : numPositions ∘ correct step.chain numRejected =
          numPositions := by
        funext later
        simp [numPositions]
      dsimp only
      rw [map_map, hsame]
      omega
    inPlace := by
      have hmoved := inPlace_correct hplace.2 step.chain numRejected
        fun hpos later hlater ↦ hchains later hlater (by omega)
      have hposition : (req.numTokens + step.numPositions - numRejected : ℤ) =
          ((req.numTokens + (numAccepted + 1) : ℕ) : ℤ) := by
        unfold numPositions
        omega
      rwa [hposition] at hmoved
    corrected := pairwise_map.2 (hpairs.imp fun hpair ↦ by simpa using hpair)
    chains := fun later hlater ↦ by
      obtain ⟨original, horiginal, rfl⟩ := mem_map.1 hlater
      rw [chain_correct]
      exact hacc.chains original (hmem horiginal)
    computed := fun hstat ↦ by
      have hle := hcomp hstat
      obtain ⟨-, hdraft⟩ := hacc.computed hstat
      dsimp only
      refine ⟨by omega, fun hsome ↦ ?_⟩
      obtain ⟨later, hlater, hspec⟩ := hsome
      obtain ⟨original, horiginal, rfl⟩ := mem_map.1 hlater
      rw [numSpecTokens_correct] at hspec
      have hbehind := hdraft ⟨original, hmem horiginal, hspec⟩
      split <;> omega
    interrupted := fun hstat later hlater ↦ by
      obtain ⟨original, horiginal, rfl⟩ := mem_map.1 hlater
      rw [chain_correct]
      exact hacc.interrupted hstat original (hmem horiginal) }

end

/-- An output whose tokens are appended, all of them or up to the one that stops the request. -/
theorem updateFromOutput_of_keep (hsteps : req.inFlight = step :: rest) (hstat : req.status ≠ .finished)
    (hsamples : step.samples = true) (hflag : req.discardLatestAsyncTokens = false) (outcome : StepOutcome) :
    ∃ numAccepted numRejected numKept status, numAccepted + numRejected = step.numSpecTokens ∧
      numKept ≤ numAccepted + 1 ∧
      (status = req.status ∧ numKept = numAccepted + 1 ∨ status = .finished) ∧
      req.updateFromOutput outcome = { req with
        status
        numTokens := req.numTokens + numKept
        numComputedTokens :=
          if 0 < req.numComputedTokens then req.numComputedTokens - numRejected
          else req.numComputedTokens
        numOutputPlaceholders := (if 0 < req.numOutputPlaceholders then
          req.numOutputPlaceholders - numRejected
          else req.numOutputPlaceholders) - numKept
        inFlight := rest.map (correct step.chain numRejected) } := by
  have hsum : min outcome.numAccepted step.numSpecTokens +
      (step.numSpecTokens - min outcome.numAccepted step.numSpecTokens) = step.numSpecTokens := by omega
  have hcontinue : ¬ (req.status = .finished ∨ step.samples = false) := by simp [hstat, hsamples]
  unfold updateFromOutput
  simp only [hsteps, if_neg hcontinue, updateRequestWithOutput, hflag, Bool.false_eq_true, if_false]
  cases outcome.stopAfter with
  | none => exact ⟨_, _, _, _, hsum, le_rfl, .inl ⟨rfl, rfl⟩, rfl⟩
  | some index =>
    by_cases hidx : 0 < index ∧ index ≤ min outcome.numAccepted step.numSpecTokens + 1
    · simp only [if_pos hidx]
      exact ⟨_, _, index, .finished, hsum, hidx.2, .inr rfl, rfl⟩
    · simp only [if_neg hidx]
      exact ⟨_, _, _, _, hsum, le_rfl, .inl ⟨rfl, rfl⟩, rfl⟩

end Appends

theorem Accounted.skipChunk (hacc : req.Accounted) (hsteps : req.inFlight = step :: rest)
    (hsamples : step.samples = false) : Accounted { req with inFlight := rest } := by
  have hsame : rest.filter samples = req.inFlight.filter samples := by
    simp [hsteps, hsamples]
  have hawaited : awaited { req with inFlight := rest } = req.awaited := awaited_congr hsame
  exact ⟨hacc.toLined.of_samples hsame _, by rw [hawaited]; exact hacc.computed,
    by rw [hawaited]; exact hacc.interrupted⟩

theorem Inv.updateFromOutput (hinv : req.Inv) {outcome : StepOutcome} (hcan : req.CanUpdate outcome) :
    (req.updateFromOutput outcome).Inv := by
  cases hsteps : req.inFlight with
  | nil =>
    unfold AsyncRequest.updateFromOutput
    rwa [hsteps]
  | cons step rest =>
    by_cases hskip : req.status = .finished ∨ step.samples = false
    · have hafter : req.updateFromOutput outcome = { req with inFlight := rest } := by
        unfold AsyncRequest.updateFromOutput
        simp [hsteps, if_pos hskip]
      rw [hafter]
      by_cases hstat : req.status = .finished
      · exact ⟨hinv.1, absurd hstat⟩
      · exact ((hinv.2 hstat).skipChunk hsteps (hskip.resolve_left hstat)).inv
    · obtain ⟨hstat, hsamples⟩ := not_or.1 hskip
      rw [Bool.not_eq_false] at hsamples
      have hacc := hinv.2 hstat
      cases hflag : req.discardLatestAsyncTokens with
      | true =>
        have hforced := forced_of_mem_stale (hacc.head_of_discard hsteps hsamples hflag).1
        have hrejected : step.numSpecTokens - min outcome.numAccepted step.numSpecTokens = 0 ∨
            req.numOutputPlaceholders = 0 := by
          refine (hcan step (by rw [hsteps]; rfl) hsamples hforced).imp_left fun hle ↦ ?_
          omega
        unfold AsyncRequest.updateFromOutput
        simp only [hsteps, if_neg hskip, updateRequestWithOutput, hflag, if_true]
        exact (hacc.discard hsteps hsamples hflag hrejected).inv
      | false =>
        obtain ⟨_, numRejected, _, _, hsum, hkept, hstopped, hafter⟩ :=
          updateFromOutput_of_keep hsteps hstat hsamples hflag outcome
        rw [hafter]
        rcases hstopped with ⟨rfl, rfl⟩ | rfl
        · exact (hacc.append hsteps hsamples hflag hsum).inv
        · obtain ⟨-, hplaceholders, hmany, -⟩ :=
            hacc.corrected_of_keep hsteps hsamples hflag numRejected (by omega)
          refine ⟨?_, absurd rfl⟩
          dsimp only
          omega

end AsyncRequest

/-! ## Runs of the scheduler -/

namespace AsyncScheduler

variable {ρ : Type*} (sched : AsyncScheduler ρ)

/-- The placeholders of every request are exact. -/
def Counted : Prop := ∀ id, (sched.requests id).Counted

/-- What the operations must meet. -/
def Meets : AsyncOp ρ → Prop
  | .schedule decision => ∀ id, (sched.requests id).CanSchedule (decision id)
  | .updateFromOutput outcome => ∀ step ∈ sched.steps.head?, ∀ id, step id = true →
      (sched.requests id).CanUpdate (outcome id)
  | .resetPrefixCache => ∀ id, (sched.requests id).CanReset

variable {sched}

end AsyncScheduler

end Nelssa.Sched
