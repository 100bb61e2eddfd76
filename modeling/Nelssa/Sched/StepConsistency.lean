import Nelssa.Foundation.Runs
import Nelssa.Sched.Accounts

/-!
# Consistent scheduler steps

What one call of `schedule()` has to deliver: no scheduled request is preempted, all of them run and
hold the blocks reported for them, the token counts fit the budget, the running loop skips nobody, and
the assertions at the end hold. A call does so in every reachable state in which its preemptions do not
move the current request. Runs consist of the elementary changes that the methods of the scheduler
make.
-/

namespace Nelssa.Sched

open Nelssa.Core Foundation.Loops Foundation.Runs List Pass

variable {ρ ε : Type*} [LinearOrder ρ] {config : SchedulerConfig} {env : Environment ε ρ}

/-! ## One call -/

/-- The result of a call that started with the budget `limit` and left the scheduler `after`. -/
structure Pass.Consistent (limit : ℤ) (final : Pass ε ρ) (after : Scheduler ε ρ) : Prop where
  notPreempted : ∀ id ∈ final.numScheduledTokens, id ∉ final.preemptedReqs
  running : ∀ id ∈ final.numScheduledTokens,
    id ∈ after.running ∧ (after.requests id).status = .running
  reported : ∀ id ∈ final.numScheduledTokens, ∃ newBlocks, final.reqToNewBlocks.lookup id = some newBlocks ∧
    List.Forall₂ (· ⊆ ·) newBlocks (after.kvCacheManager.getBlocks id)
  total : final.totalNumScheduledTokens = limit - final.tokenBudget

/-- If the two loops raise no exception, then the running loop has skipped nobody and the call returns
with a consistent result; so the assertions at its end hold. -/
def Scheduler.StepConsistent (config : SchedulerConfig) (env : Environment ε ρ)
    (sched : Scheduler ε ρ) : Prop :=
  ∀ afterRunning, sched.scheduleRunning config env = .ok afterRunning →
    afterRunning.VisitsInOrder ∧ ∀ final, afterRunning.scheduleWaiting config env = .ok final →
      ∃ after, sched.schedule config env = .ok (final, after) ∧
        final.Consistent (start config sched).tokenBudget after

variable {sched after : Scheduler ε ρ}

section

variable {limit : ℤ} {final : Pass ε ρ}

theorem checkConstraints_of_accounts (hacc : final.Accounts limit)
    (hlimit : limit ≤ config.maxNumScheduledTokens) (hsched : final.sched.WellFormed config) :
    final.checkConstraints config = .ok () := by
  have hlen := (hacc.nodup.subperm hacc.running).length_le
  have htotal := hacc.total
  have hbudget := hacc.budget
  refine if_pos ⟨by omega, hbudget, hsched.bounded, ?_⟩
  simp only [scheduledReqs, length_append] at hlen
  omega

theorem wellFormed_updateAfterSchedule (hsched : sched.WellFormed config)
    (numScheduledTokens : AList (fun _ : ρ ↦ ℤ)) :
    (sched.updateAfterSchedule numScheduledTokens).WellFormed config := by
  refine { hsched with running := fun id hid ↦ ?_ }
  unfold Scheduler.updateAfterSchedule
  dsimp only
  split <;> exact hsched.running id hid

theorem consistent_of_accounts (hacc : final.Accounts limit) (hsched : final.sched.WellFormed config) :
    final.Consistent limit (final.sched.updateAfterSchedule final.numScheduledTokens) := by
  have hrun (id : ρ) (hid : id ∈ final.numScheduledTokens) :=
    hacc.running id ((hacc.tokens id).1 hid)
  refine ⟨?_, ?_, ?_, ?_⟩
  · exact fun id hid hpreempted ↦ hacc.preempted id hpreempted (hrun id hid)
  · intro id hid
    exact ⟨hrun id hid, (wellFormed_updateAfterSchedule hsched _).running id (hrun id hid)⟩
  · intro id hid
    have hreported := (hacc.blocks id).2 ((hacc.tokens id).1 hid)
    obtain ⟨newBlocks, hlookup⟩ := Option.isSome_iff_exists.1 (AList.lookup_isSome.2 hreported)
    exact ⟨newBlocks, hlookup, hacc.held id newBlocks hlookup⟩
  · have htotal := hacc.total
    omega

theorem Scheduler.schedule_cases (hschedule : sched.schedule config env = .ok (final, after)) :
    ∃ afterRunning, sched.scheduleRunning config env = .ok afterRunning ∧
      afterRunning.scheduleWaiting config env = .ok final ∧ final.checkConstraints config = .ok () ∧
      after = final.sched.updateAfterSchedule final.numScheduledTokens := by
  unfold schedule at hschedule
  split at hschedule
  · cases hschedule
  · next afterRunning hrun =>
    split at hschedule
    · cases hschedule
    · next last hwait =>
      obtain ⟨_, hchecked, ⟨⟩⟩ := map_eq_ok_iff.1 hschedule
      exact ⟨afterRunning, hrun, hwait, hchecked, rfl⟩

variable (hsched : sched.WellFormed config)
include hsched

theorem stepConsistent_of_keepsPositions (hkeeps : sched.KeepsPositions config env) :
    sched.StepConsistent config env := by
  intro afterRunning hrun
  have hbooks := books_scheduleRunning hsched hkeeps hrun
  have hmiddle := wellFormed_scheduleRunning hsched hrun
  refine ⟨hbooks.visitsInOrder (runningStep_scheduleRunning hrun), fun final hwait ↦ ?_⟩
  have hacc := accounts_scheduleWaiting hmiddle hbooks.accounts hwait
  have hfinal := wellFormed_scheduleWaiting hmiddle hwait
  have hlimit : (start config sched).tokenBudget ≤ config.maxNumScheduledTokens := by
    unfold start
    split
    · exact Int.natCast_nonneg _
    · exact le_rfl
  refine ⟨_, ?_, consistent_of_accounts hacc hfinal⟩
  simp [Scheduler.schedule, hrun, hwait, checkConstraints_of_accounts hacc hlimit hfinal, Except.map]

theorem wellFormed_schedule (hschedule : sched.schedule config env = .ok (final, after)) :
    after.WellFormed config := by
  obtain ⟨_, hrun, hwait, -, rfl⟩ := Scheduler.schedule_cases hschedule
  have hmiddle := wellFormed_scheduleRunning hsched hrun
  exact wellFormed_updateAfterSchedule (wellFormed_scheduleWaiting hmiddle hwait) _

end

/-! ## Runs of the scheduler -/

namespace Scheduler

variable (sched : Scheduler ε ρ)

def enqueueWaitingRequest (id : ρ) : Scheduler ε ρ :=
  let name := if isBlockedWaitingStatus (sched.requests id).status then .skippedWaiting else .waiting
  sched.setQueue ((sched.queue name).addRequest (requestLt sched.requests) id) name

/-- The loop body of `reset_prefix_cache`: the last running request is preempted. -/
def preemptLast (env : Environment ε ρ) : Except Exn (Scheduler ε ρ) :=
  match sched.running.getLast? with
  | none => .ok sched
  | some id => { sched with running := sched.running.dropLast }.preemptRequest env id

end Scheduler

/-- The changes from which the methods of the scheduler are built. `add_request` is an `update` and an
`enqueue`; `finish_requests` lets requests leave their queues and updates them; `update_from_output`
updates requests, lets the stopped ones leave their queue and enqueues the streaming sessions that go
on; `reset_prefix_cache` repeats `preemptLast`. An `update` changes requests and caches at will. -/
inductive SchedulerOp (ε ρ : Type*) where
  | update (requests : ρ → Request) (kvCacheManager : KVCacheManager ρ) (environment : ε)
      (finishedRecvingKvReqIds failedRecvingKvReqIds : ρ → Bool)
  | enqueue (id : ρ)
  | leaveRunning (ids : List ρ)
  | leaveWaiting (name : QueueName) (ids : List ρ)
  | preemptLast
  | setPauseState (pauseState : PauseState)
  | schedule

namespace Scheduler

/-- One change of the scheduler. After an exception the engine stops, and the scheduler stays as it
was. -/
def apply (config : SchedulerConfig) (env : Environment ε ρ) (sched : Scheduler ε ρ) :
    SchedulerOp ε ρ → Scheduler ε ρ
  | .update requests kvCacheManager environment finishedRecvingKvReqIds failedRecvingKvReqIds =>
    { sched with requests, kvCacheManager, environment, finishedRecvingKvReqIds, failedRecvingKvReqIds }
  | .enqueue id => sched.enqueueWaitingRequest id
  | .leaveRunning ids => { sched with running := removeAll sched.running ids }
  | .leaveWaiting name ids =>
    sched.setQueue ((sched.queue name).removeRequests (requestLt sched.requests) ids) name
  | .preemptLast => match sched.preemptLast env with
    | .error _ => sched
    | .ok after => after
  | .setPauseState pauseState => { sched with pauseState }
  | .schedule => match sched.schedule config env with
    | .error _ => sched
    | .ok (_, after) => after

/-- What the methods see to: a request is enqueued when it is in no queue, and the requests of the
running list have the status of running ones. -/
def Legal (sched : Scheduler ε ρ) : SchedulerOp ε ρ → Prop
  | .update requests _ _ _ _ => ∀ id ∈ sched.running, (requests id).status = .running
  | .enqueue id =>
    id ∉ sched.running ++ (sched.waiting.members ++ sched.skippedWaiting.members)
  | _ => True

instance (sched : Scheduler ε ρ) (op : SchedulerOp ε ρ) : Decidable (sched.Legal op) :=
  match op with
  | .update requests _ _ _ _ =>
    inferInstanceAs (Decidable (∀ id ∈ sched.running, (requests id).status = .running))
  | .enqueue id => inferInstanceAs
      (Decidable (id ∉ sched.running ++ (sched.waiting.members ++ sched.skippedWaiting.members)))
  | .leaveRunning _ | .leaveWaiting _ _ | .preemptLast | .setPauseState _ | .schedule => isTrue trivial

section

variable (config : SchedulerConfig) (requests : ρ → Request) (kvCacheManager : KVCacheManager ρ)
  (environment : ε)

def init : Scheduler ε ρ :=
  { requests, running := [], waiting := .create config.policy, skippedWaiting := .create config.policy
    kvCacheManager, environment, finishedRecvingKvReqIds := fun _ ↦ false
    failedRecvingKvReqIds := fun _ ↦ false, pauseState := .unpaused }

omit [LinearOrder ρ] in
theorem wellFormed_init : (init config requests kvCacheManager environment).WellFormed config := by
  have hempty : (RequestQueue.create config.policy : RequestQueue ρ).members = [] := by
    cases config.policy <;> rfl
  refine ⟨?_, fun id hid ↦ absurd hid not_mem_nil, Nat.zero_le _⟩
  simp only [init, hempty]
  exact nodup_nil

end

namespace WellFormed

section

variable (hsched : sched.WellFormed config)
include hsched

theorem enqueue {id : ρ} (hlegal : sched.Legal (.enqueue id)) :
    (sched.enqueueWaitingRequest id).WellFormed config := by
  have hfresh := nodup_cons.2 ⟨hlegal, hsched.nodup⟩
  unfold enqueueWaitingRequest
  split
  · refine { hsched with nodup := (Perm.nodup_iff ?_).2 hfresh }
    have hadded := sched.skippedWaiting.addRequest_perm (requestLt sched.requests) id
    refine ((hadded.append_left _).append_left _).trans ?_
    exact (perm_middle.append_left _).trans perm_middle
  · refine { hsched with nodup := (Perm.nodup_iff ?_).2 hfresh }
    have hadded := sched.waiting.addRequest_perm (requestLt sched.requests) id
    exact ((hadded.append_right _).append_left _).trans perm_middle

theorem leaveRunning (ids : List ρ) :
    { sched with running := removeAll sched.running ids }.WellFormed config := by
  have hsublist : (removeAll sched.running ids).Sublist sched.running := by
    unfold removeAll
    split
    · exact .refl _
    · exact erase_sublist
    · exact filter_sublist
  refine ⟨hsched.nodup.sublist (hsublist.append_right _), ?_, hsublist.length_le.trans hsched.bounded⟩
  exact fun id hid ↦ hsched.running id (hsublist.subset hid)

theorem leaveWaiting (name : QueueName) (ids : List ρ) :
    (sched.setQueue ((sched.queue name).removeRequests (requestLt sched.requests) ids) name).WellFormed
      config := by
  have hremoved := (sched.queue name).removeRequests_perm (requestLt sched.requests) ids
  cases name with
  | waiting =>
    refine { hsched with nodup := (Perm.nodup_iff ((hremoved.append_right _).append_left _)).2 ?_ }
    exact hsched.nodup.sublist ((filter_sublist.append_right _).append_left _)
  | skippedWaiting =>
    refine { hsched with nodup := (Perm.nodup_iff ((hremoved.append_left _).append_left _)).2 ?_ }
    exact hsched.nodup.sublist ((filter_sublist.append_left _).append_left _)

theorem preemptLast (hpreempt : sched.preemptLast env = .ok after) : after.WellFormed config := by
  unfold Scheduler.preemptLast at hpreempt
  split at hpreempt
  · cases hpreempt
    exact hsched
  · next id hlast =>
    obtain ⟨_, waiting, _, -, hreqs, hwait, rfl⟩ := preemptRequest_cases hpreempt
    have hrun := dropLast_append_getLast? id hlast
    have hnodup := hrun.symm ▸ hsched.nodup_running
    have hmoved : (sched.running.dropLast ++ (waiting.members ++ sched.skippedWaiting.members)).Perm
        (sched.running ++ (sched.waiting.members ++ sched.skippedWaiting.members)) := by
      conv_rhs => rw [← hrun, append_assoc]
      exact (hwait.append_right _).append_left _
    refine ⟨hmoved.nodup_iff.2 hsched.nodup, fun other hother ↦ ?_, ?_⟩
    · have hne := fun h ↦ disjoint_of_nodup_append hnodup hother (mem_singleton.2 h)
      exact (congrArg Request.status (hreqs other hne)).trans
        (hsched.running other (dropLast_subset _ hother))
    · exact (dropLast_sublist _).length_le.trans hsched.bounded

theorem apply {op : SchedulerOp ε ρ} (hlegal : sched.Legal op) :
    (sched.apply config env op).WellFormed config := by
  cases op with
  | update requests kvCacheManager environment finished failed =>
    exact { hsched with running := hlegal }
  | enqueue id => exact hsched.enqueue hlegal
  | leaveRunning ids => exact hsched.leaveRunning ids
  | leaveWaiting name ids => exact hsched.leaveWaiting name ids
  | preemptLast =>
    unfold Scheduler.apply
    dsimp only
    split
    · exact hsched
    · next hpreempt => exact hsched.preemptLast hpreempt
  | setPauseState pauseState => exact { hsched with }
  | schedule =>
    unfold Scheduler.apply
    dsimp only
    split
    · exact hsched
    · next hschedule => exact wellFormed_schedule hsched hschedule

end

end WellFormed

/-- In every reachable state a call of `schedule()` whose preemptions do not move the current request is
consistent, under both policies, for every budget, every mix of requests and every environment. -/
theorem stepConsistent_of_run (config : SchedulerConfig) (env : Environment ε ρ)
    (requests : ρ → Request) (kvCacheManager : KVCacheManager ρ) (environment : ε)
    {ops : List (SchedulerOp ε ρ)}
    (hops : StepsMeet (apply config env) Legal (init config requests kvCacheManager environment) ops) :
    HoldsAlong (apply config env)
      (fun sched ↦ sched.KeepsPositions config env → sched.StepConsistent config env)
      (init config requests kvCacheManager environment) ops := by
  have hstep (sched : Scheduler ε ρ) (op : SchedulerOp ε ρ) (hsched : sched.WellFormed config)
      (hlegal : sched.Legal op) : (sched.apply config env op).WellFormed config :=
    hsched.apply hlegal
  refine holdsAlong_of_stepsMeet hstep ?_ (wellFormed_init config requests kvCacheManager environment) hops
  intro sched hsched hkeeps
  exact stepConsistent_of_keepsPositions hsched hkeeps

/-! ## A short request in front of long ones -/

/-- Blocks of one token, and prompts of two tokens are long. -/
def smallConfig : SchedulerConfig :=
  { policy := .fcfs, maxNumRunningReqs := 4, maxNumScheduledTokens := 8, maxModelLen := 64, blockSize := 1
    nelssaConfig := { enabled := true, firstN := 1, lastM := 1, promptLengthThreshold := 2 } }

/-- No encoder, no connector and no prefix caching. -/
def plainEnvironment : Environment Unit ℕ :=
  { tryScheduleEncoderInputs := fun state _ _ _ _ budget ↦
      ({ inputs := [], numNewTokens := 0, computeBudget := budget, externalLoads := [] }, state)
    numNewTokens_le := fun _ _ _ _ _ _ ↦ le_max_right _ _
    allocateEncoder := fun state _ _ ↦ state
    freeEncoder := fun state _ ↦ state
    grammarReady := fun _ _ ↦ false
    getComputedBlocks := fun _ _ _ ↦ .ok (some [[]], 0)
    connector := none }

/-- The requests 0 and 1 are short and the others long. -/
def smallStart (pool : BlockPool) : Scheduler Unit ℕ :=
  init smallConfig (fun id ↦
      let numPromptTokens := if id < 2 then 1 else 2
      { numPromptTokens, numTokens := numPromptTokens, maxTokens := 8 })
    { maxModelLen := 64, enableCaching := false, blockPool := pool
      singleTypeManagers := [.nelssa (.init ⟨.fullAttention, 1, Nat.one_pos⟩ false 0 1 1 none)
        (.init smallConfig.nelssaConfig)] } ()

/-- The step of the worker: each of the requests gets a token. -/
def appendTokens (sched : Scheduler Unit ℕ) (ids : List ℕ) : SchedulerOp Unit ℕ :=
  .update (fun id ↦ { sched.requests id with
      numTokens := (sched.requests id).numTokens + if id ∈ ids then 1 else 0 })
    sched.kvCacheManager () sched.finishedRecvingKvReqIds sched.failedRecvingKvReqIds

/-- A long request in front of a short one; the worker has run the first step. -/
def longFirstOps (pool : BlockPool) : List (SchedulerOp Unit ℕ) :=
  let scheduled : List (SchedulerOp Unit ℕ) := [.enqueue 2, .enqueue 0, .schedule]
  scheduled ++
    [appendTokens (scheduled.foldl (apply smallConfig plainEnvironment) (smallStart pool)) [0, 2]]

/-- With four blocks the next step preempts the short request behind the long one. -/
theorem stepConsistent_longFirst : ∃ pool, BlockPool.init 5 false 1 = .ok pool ∧
    StepsMeet (apply smallConfig plainEnvironment) Legal (smallStart pool) (longFirstOps pool) ∧
    (∃ final after, ((longFirstOps pool).foldl (apply smallConfig plainEnvironment)
      (smallStart pool)).schedule smallConfig plainEnvironment = .ok (final, after) ∧
      final.preemptedReqs = [0]) ∧
    ((longFirstOps pool).foldl (apply smallConfig plainEnvironment) (smallStart pool)).StepConsistent
      smallConfig plainEnvironment := by
  refine ⟨_, rfl, by decide, ⟨_, _, rfl, rfl⟩, ?_⟩
  refine (stepConsistent_of_run smallConfig plainEnvironment _ _ _ (by decide)).final ?_
  refine (victimsBehind_of_victimsLast ⟨by decide, by decide, by decide⟩ ?_).keepsPositions
  unfold VictimsLast
  decide

/-- Two steps in flight: the tokens of the first one arrive after the second one was scheduled. -/
def pipelinedOps (pool : BlockPool) : List (SchedulerOp Unit ℕ) :=
  let scheduled : List (SchedulerOp Unit ℕ) :=
    [.enqueue 0, .enqueue 1, .enqueue 2, .schedule, .enqueue 3, .schedule]
  scheduled ++
    [appendTokens (scheduled.foldl (apply smallConfig plainEnvironment) (smallStart pool)) [0, 1, 2]]

/-- With eight blocks the next step schedules the short requests and preempts the second one for the long
request behind it. The victim stays scheduled with a block that the long request gets, too, and the last
request is skipped. -/
theorem not_stepConsistent_pipelined : ∃ pool, BlockPool.init 9 false 1 = .ok pool ∧
    StepsMeet (apply smallConfig plainEnvironment) Legal (smallStart pool) (pipelinedOps pool) ∧
    (∃ final after, ((pipelinedOps pool).foldl (apply smallConfig plainEnvironment)
      (smallStart pool)).schedule smallConfig plainEnvironment = .ok (final, after) ∧
      final.numScheduledTokens.keys = [2, 1, 0] ∧ final.preemptedReqs = [1] ∧ after.running = [0, 2, 3] ∧
      final.reqToNewBlocks.lookup 1 = some [[8]] ∧ final.reqToNewBlocks.lookup 2 = some [[8]] ∧
      after.kvCacheManager.getBlocks 1 = [[]] ∧ final.considered = [0, 1, 2] ∧ final.tokenBudget = 5) ∧
    ¬ ((pipelinedOps pool).foldl (apply smallConfig plainEnvironment) (smallStart pool)).StepConsistent
      smallConfig plainEnvironment := by
  refine ⟨_, rfl, by decide, ⟨_, _, rfl, rfl, rfl, rfl, rfl, rfl, rfl, rfl, rfl⟩, fun hconsistent ↦ ?_⟩
  obtain ⟨-, hfinal⟩ := hconsistent _ rfl
  obtain ⟨_, -, hresult⟩ := hfinal _ rfl
  exact hresult.notPreempted 1 (by decide) (by decide)

end Scheduler

end Nelssa.Sched
