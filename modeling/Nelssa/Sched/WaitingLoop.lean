import Nelssa.Sched.Scheduler

/-!
# Admitting waiting requests

The second half of `schedule()`: as long as nothing was preempted, waiting requests are taken into the
running list. Each round looks at the head of one of the two waiting queues and puts it aside for this
call, starts to load its KV cache, admits it, or ends the loop. The end of the call checks the
constraints of the step and advances the computed tokens.
-/

namespace Nelssa.Sched

open Nelssa.Core Foundation.Loops

variable {ρ ε : Type*} [LinearOrder ρ]

/-- The variables of the loop over the waiting requests; `stopped` is set by a `break`. -/
structure WaitingPass (ε ρ : Type*) where
  pass : Pass ε ρ
  stepSkippedWaiting : RequestQueue ρ
  scheduledLoras : List ℕ
  stopped : Bool := false

/-- One of the two waiting queues. -/
inductive QueueName where
  | waiting
  | skippedWaiting
  deriving DecidableEq, Repr

namespace Scheduler

variable (sched : Scheduler ε ρ)

def queue : QueueName → RequestQueue ρ
  | .waiting => sched.waiting
  | .skippedWaiting => sched.skippedWaiting

def setQueue (queue : RequestQueue ρ) : QueueName → Scheduler ε ρ
  | .waiting => { sched with waiting := queue }
  | .skippedWaiting => { sched with skippedWaiting := queue }

def isBlockedWaitingStatus : RequestStatus → Bool
  | .waitingForStructuredOutputGrammar | .waitingForRemoteKvs | .waitingForStreamingReq => true
  | _ => false

/-- The queue whose head comes next. The branch for a long request at the head of the skipped queue
returns what the line after it returns. -/
def selectWaitingQueueForScheduling (policy : SchedulingPolicy) : QueueName :=
  match policy with
  | .fcfs => if sched.skippedWaiting.isEmpty then .waiting else .skippedWaiting
  | .priority => match sched.waiting.peekRequest, sched.skippedWaiting.peekRequest with
    | some waiting, some skipped =>
      let waitingIsLong := (sched.requests waiting).nelssaLongMask
      let skippedIsLong := (sched.requests skipped).nelssaLongMask
      if skippedIsLong && !waitingIsLong then .skippedWaiting
      else if waitingIsLong && !skippedIsLong then .waiting
      else if requestLt sched.requests waiting skipped then .waiting else .skippedWaiting
    | some _, none => .waiting
    | none, _ => .skippedWaiting

/-- Cache what was received for a request, or release its blocks after a failed load. -/
def updateWaitingForRemoteKv (id : ρ) : Except Exn (Scheduler ε ρ) :=
  let req := sched.requests id
  let received : Except Exn Unit × KVCacheManager ρ :=
    if sched.failedRecvingKvReqIds id ∧ req.numComputedTokens = 0 then sched.kvCacheManager.free id
    else sched.kvCacheManager.cacheBlocks (req.slotRequest id).toCacheRequest req.numComputedTokens
  match received.1 with
  | .error exn => .error exn
  | .ok () =>
    let updated := { sched with
      kvCacheManager := received.2
      failedRecvingKvReqIds := Function.update sched.failedRecvingKvReqIds id false
      finishedRecvingKvReqIds := Function.update sched.finishedRecvingKvReqIds id false }
    if sched.failedRecvingKvReqIds id = false ∧ req.numComputedTokens = req.numTokens then
      .ok (updated.setRequest id fun req ↦ { req with numComputedTokens := req.numTokens - 1 })
    else .ok updated

/-- Whether a blocked request can be scheduled again, and the scheduler after the change of its
status. -/
def tryPromoteBlockedWaitingRequest (env : Environment ε ρ) (id : ρ) : Except Exn (Bool × Scheduler ε ρ) :=
  let req := sched.requests id
  match req.status with
  | .waitingForRemoteKvs =>
    if sched.finishedRecvingKvReqIds id then
      (sched.updateWaitingForRemoteKv id).map fun updated ↦ (true, updated.setRequest id fun req ↦
        { req with status := if req.numPreemptions = 0 then .waiting else .preempted })
    else .ok (false, sched)
  | .waitingForStructuredOutputGrammar =>
    if env.grammarReady sched.environment id then
      .ok (true, sched.setRequest id fun req ↦ { req with status := .waiting })
    else .ok (false, sched)
  | .waitingForStreamingReq => .ok (false, sched)
  | _ => .error (.assertionError "Unexpected blocked waiting status in promotion")

/-- The requests of `nelssa_long_mask` that are running. -/
def numRunningLongRequests : ℕ := sched.running.countP fun id ↦ (sched.requests id).nelssaLongMask

/-- Mark a waiting request as long if its prompt is, with the sizes of its head and tail. -/
def markLong (config : SchedulerConfig) (id : ρ) : Scheduler ε ρ :=
  if config.nelssaConfig.nelssaCheck (sched.requests id).numPromptTokens then
    sched.setRequest id fun req ↦ { req with
      nelssaLongMask := true
      headSize := some config.nelssaConfig.firstN
      tailSize := some config.nelssaConfig.lastM }
  else sched

end Scheduler

/-- What the step knows about a waiting request before the allocation. -/
structure AdmissionPlan where
  newComputedBlocks : Option (List (List ℕ))
  numNewLocalComputedTokens : ℕ
  numExternalComputedTokens : ℕ
  numComputedTokens : ℕ
  loadKvAsync : Bool
  numNewTokens : ℤ
  encoder : EncoderPlan

/-- The head of a waiting queue is put aside, ends the loop, or may get its slots. -/
inductive Admission where
  | skip
  | stop
  | take (plan : AdmissionPlan)

namespace Pass

variable (config : SchedulerConfig) (env : Environment ε ρ) (pass : Pass ε ρ) (id : ρ)

/-- Look up the tokens of a request that are computed already, here or behind the connector. No plan
means that the connector does not know yet. -/
def computedTokens : Except Exn (Option AdmissionPlan × ε) :=
  let req := pass.sched.requests id
  let plan (blocks : Option (List (List ℕ))) (numLocal numExternal numComputed : ℕ) (loadAsync : Bool) :
      AdmissionPlan :=
    { newComputedBlocks := blocks, numNewLocalComputedTokens := numLocal
      numExternalComputedTokens := numExternal, numComputedTokens := numComputed
      loadKvAsync := loadAsync, numNewTokens := 0
      encoder := { inputs := [], numNewTokens := 0, computeBudget := pass.encoderComputeBudget,
                   externalLoads := [] } }
  if req.numComputedTokens ≠ 0 then
    .ok (some (plan none 0 0 req.numComputedTokens false), pass.sched.environment)
  else match env.getComputedBlocks pass.sched.kvCacheManager id req with
    | .error exn => .error exn
    | .ok (blocks, numLocal) =>
      let matched := match env.connector with
        | none => ((some 0, false), pass.sched.environment)
        | some connector =>
          connector.getNumNewMatchedTokens pass.sched.environment id req numLocal
      match matched.1.1 with
      | none => .ok (none, matched.2)
      | some numExternal =>
        if req.numTokens < numLocal + numExternal then .error (.assertionError "")
        else .ok (some (plan blocks numLocal numExternal (numLocal + numExternal) matched.1.2), matched.2)

/-- The number of tokens for a waiting request; `none` ends the loop. -/
def waitingTokens (plan : AdmissionPlan) (environment : ε) : Except Exn (Option AdmissionPlan × ε) :=
  let req := pass.sched.requests id
  if plan.loadKvAsync then
    if plan.numExternalComputedTokens = 0 then .error (.assertionError "")
    else .ok (some plan, environment)
  else
    let chunk := Request.firstChunk config ((req.numTokens : ℤ) - plan.numComputedTokens)
    if config.enableChunkedPrefill = false ∧ pass.tokenBudget < chunk then .ok (none, environment)
    else
      let numTokens := min chunk pass.tokenBudget
      if numTokens ≤ 0 then .error (.assertionError "")
      else if req.hasEncoderInputs then
        let planned := env.tryScheduleEncoderInputs environment id req plan.numComputedTokens numTokens
          pass.encoderComputeBudget
        if planned.1.numNewTokens = 0 then .ok (none, planned.2)
        else .ok (some { plan with
          numNewTokens := planned.1.numNewTokens, encoder := planned.1 }, planned.2)
      else .ok (some { plan with numNewTokens := numTokens }, environment)

/-- All that happens to the head of a waiting queue before its slots are allocated. -/
def planAdmission : Except Exn (Admission × ε) :=
  match pass.computedTokens env id with
  | .error exn => .error exn
  | .ok (none, environment) => .ok (.skip, environment)
  | .ok (some computed, environment) => match pass.waitingTokens config env id computed environment with
    | .error exn => .error exn
    | .ok (none, environment) => .ok (.stop, environment)
    | .ok (some plan, environment) =>
      if config.needMambaBlockAlignedSplit then
        match (pass.sched.requests id).mambaBlockAlignedSplit config plan.numNewTokens
            plan.numNewLocalComputedTokens plan.numExternalComputedTokens with
        | .error exn => .error exn
        | .ok numNewTokens =>
          if numNewTokens = 0 then .ok (.stop, environment)
          else .ok (.take { plan with numNewTokens }, environment)
      else .ok (.take plan, environment)

/-- The arguments of `allocate_slots` for a waiting request. -/
def waitingCall (plan : AdmissionPlan) : SlotCall :=
  let req := pass.sched.requests id
  { numNewTokens := plan.numNewTokens
    numNewComputedTokens := plan.numNewLocalComputedTokens
    newComputedBlocks := plan.newComputedBlocks
    numLookaheadTokens := if req.numComputedTokens = 0 then 0 else config.numLookaheadTokens
    numExternalComputedTokens := plan.numExternalComputedTokens
    delayCacheBlocks := plan.loadKvAsync
    numEncoderTokens :=
      if config.isEncoderDecoder ∧ req.hasEncoderInputs then
        (plan.encoder.inputs.map fun input ↦ req.encoderEmbeds.getD input 0).sum
      else 0 }

/-- Leave the encoder cache when a request with encoder inputs cannot be scheduled. -/
def releaseEncoder : Pass ε ρ :=
  if (pass.sched.requests id).hasEncoderInputs then
    pass.setEnvironment (env.freeEncoder pass.sched.environment id)
  else pass

/-- Tell the connector the blocks of a request that got its slots. -/
def informConnector (plan : AdmissionPlan) : Pass ε ρ :=
  match env.connector with
  | none => pass
  | some connector => pass.setEnvironment (connector.updateStateAfterAlloc pass.sched.environment id
      (pass.sched.kvCacheManager.getBlocks id) plan.numExternalComputedTokens)

/-- A request that got its slots joins the running list. -/
def commitWaiting (plan : AdmissionPlan) : Except Exn (Pass ε ρ) :=
  let joined := { pass with sched := { pass.sched with running := pass.sched.running ++ [id] } }
  let listed : Except Exn (Pass ε ρ) := match (pass.sched.requests id).status with
    | .waiting => .ok { joined with scheduledNewReqs := pass.scheduledNewReqs ++ [id] }
    | .preempted => .ok { joined with scheduledResumedReqs := pass.scheduledResumedReqs ++ [id] }
    | _ => .error (.runtimeError "Invalid request status")
  listed.map fun current ↦
    { current with
      sched := current.sched.setRequest id fun req ↦ { req with
        status := .running, numComputedTokens := plan.numComputedTokens }
      reqToNewBlocks := current.reqToNewBlocks.insert id (current.sched.kvCacheManager.getBlocks id)
      numScheduledTokens := current.numScheduledTokens.insert id plan.numNewTokens
      tokenBudget := current.tokenBudget - plan.numNewTokens : Pass ε ρ
      }.scheduleEncoder env id plan.encoder

end Pass

namespace WaitingPass

variable (config : SchedulerConfig) (env : Environment ε ρ) (state : WaitingPass ε ρ)

def setSched (sched : Scheduler ε ρ) : WaitingPass ε ρ :=
  { state with pass := { state.pass with sched } }

/-- Take the head out of a queue. -/
def popFrom (name : QueueName) : Except Exn (ρ × WaitingPass ε ρ) :=
  match (state.pass.sched.queue name).popRequest (requestLt state.pass.sched.requests) with
  | none => .error .indexError
  | some (id, rest) => .ok (id, state.setSched (state.pass.sched.setQueue rest name))

def putAside (id : ρ) : WaitingPass ε ρ :=
  { state with stepSkippedWaiting :=
      state.stepSkippedWaiting.prependRequest (requestLt state.pass.sched.requests) id }

/-- Put the head of a queue aside until the end of the call. -/
def skipHead (name : QueueName) : Except Exn (WaitingPass ε ρ) :=
  (state.popFrom name).map fun popped ↦ popped.2.putAside popped.1

/-- The constraint on the number of adapters in one step. -/
def exceedsLoras (id : ρ) : Bool :=
  match config.maxLoras, (state.pass.sched.requests id).loraIntId with
  | some maxLoras, some lora =>
    decide (state.scheduledLoras.length = maxLoras) && !decide (lora ∈ state.scheduledLoras)
  | _, _ => false

/-- The adapters of the step with the one of an admitted request. -/
def addLora (id : ρ) : List ℕ :=
  match config.maxLoras, (state.pass.sched.requests id).loraIntId with
  | some _, some lora => state.scheduledLoras.insert lora
  | _, _ => state.scheduledLoras

/-- Allocate the slots of the head of a queue and let it run. -/
def allocateHead (name : QueueName) (id : ρ) (plan : AdmissionPlan) : Except Exn (WaitingPass ε ρ) :=
  let req := (state.pass.sched.requests id).slotRequest id
  let call := state.pass.waitingCall config id plan
  let fits : Except Exn Bool :=
    if config.schedulerReserveFullIsl then
      state.pass.sched.kvCacheManager.canFitFullSequence req call
    else .ok true
  match fits with
  | .error exn => .error exn
  | .ok false => .ok { state with pass := state.pass.releaseEncoder env id, stopped := true }
  | .ok true =>
    let allocated := state.pass.sched.kvCacheManager.allocateSlots req call
    let tried := state.pass.setKv allocated.2
    match allocated.1 with
    | .error exn => .error exn
    | .ok none => .ok { state with pass := tried.releaseEncoder env id, stopped := true }
    | .ok (some _) =>
      match { state with pass := tried.informConnector env id plan }.popFrom name with
      | .error exn => .error exn
      | .ok (id, popped) =>
        if plan.loadKvAsync then
          .ok ((popped.setSched (popped.pass.sched.setRequest id fun req ↦ { req with
            status := .waitingForRemoteKvs
            numComputedTokens := plan.numComputedTokens })).putAside id)
        else (popped.pass.commitWaiting env id plan).map fun pass ↦
          { popped with pass, scheduledLoras := popped.addLora config id }

/-- The part of a round behind the blocked statuses. -/
def scheduleHead (name : QueueName) (id : ρ) : Except Exn (WaitingPass ε ρ) :=
  if state.exceedsLoras config id then state.skipHead name
  else
    let marked :=
      if 0 < config.nelssaConfig.maxNumLongRequests then
        state.setSched (state.pass.sched.markLong config id)
      else state
    if 0 < config.nelssaConfig.maxNumLongRequests ∧ (marked.pass.sched.requests id).nelssaLongMask ∧
        config.nelssaConfig.maxNumLongRequests ≤ state.pass.sched.numRunningLongRequests then
      marked.skipHead name
    else match marked.pass.planAdmission config env id with
      | .error exn => .error exn
      | .ok (decision, environment) =>
        let informed := { marked with pass := marked.pass.setEnvironment environment }
        match decision with
        | .skip => informed.skipHead name
        | .stop => .ok { informed with stopped := true }
        | .take plan => informed.allocateHead config env name id plan

/-- One round of the loop over the waiting requests. -/
def waitingStep : Except Exn (Option (WaitingPass ε ρ)) :=
  let sched := state.pass.sched
  if state.stopped ∨ (sched.waiting.isEmpty ∧ sched.skippedWaiting.isEmpty) ∨ state.pass.tokenBudget ≤ 0 ∨
      sched.running.length = config.maxNumRunningReqs then .ok none
  else
    let name := sched.selectWaitingQueueForScheduling config.policy
    match (sched.queue name).peekRequest with
    | none => .error (.assertionError "")
    | some id =>
      if Scheduler.isBlockedWaitingStatus (sched.requests id).status then
        match sched.tryPromoteBlockedWaitingRequest env id with
        | .error exn => .error exn
        | .ok (false, sched) => ((state.setSched sched).skipHead name).map some
        | .ok (true, sched) => ((state.setSched sched).scheduleHead config env name id).map some
      else (state.scheduleHead config env name id).map some

end WaitingPass

namespace Pass

variable (config : SchedulerConfig) (env : Environment ε ρ) (pass : Pass ε ρ)

/-- The adapters of the running requests that are scheduled; there may not be too many. -/
def runningLoras : Except Exn (List ℕ) :=
  match config.maxLoras with
  | none => .ok []
  | some maxLoras =>
    let loras := (pass.scheduledRunningReqs.filterMap fun id ↦
      (pass.sched.requests id).loraIntId.filter (0 < ·)).dedup
    if loras.length ≤ maxLoras then .ok loras else .error (.assertionError "")

/-- Give tokens to waiting requests unless a request was preempted. Every round takes a request out of
the two queues or is the last one. -/
def scheduleWaiting : Except Exn (Pass ε ρ) :=
  match pass.runningLoras config with
  | .error exn => .error exn
  | .ok scheduledLoras =>
    if pass.preemptedReqs = [] ∧ pass.sched.pauseState = .unpaused then
      (loop (WaitingPass.waitingStep config env)
        (pass.sched.waiting.members.length + pass.sched.skippedWaiting.members.length + 2)
        { pass, stepSkippedWaiting := .create config.policy, scheduledLoras }).map fun state ↦
          { state.pass with sched := { state.pass.sched with
              skippedWaiting := state.pass.sched.skippedWaiting.prependRequests
                (requestLt state.pass.sched.requests) state.stepSkippedWaiting } }
    else .ok pass

def totalNumScheduledTokens : ℤ := (pass.numScheduledTokens.entries.map Sigma.snd).sum

/-- The assertions at the end of the scheduling pass. -/
def checkConstraints : Except Exn Unit :=
  if pass.totalNumScheduledTokens ≤ config.maxNumScheduledTokens ∧ 0 ≤ pass.tokenBudget ∧
      pass.sched.running.length ≤ config.maxNumRunningReqs ∧
      pass.scheduledNewReqs.length + pass.scheduledResumedReqs.length +
        pass.scheduledRunningReqs.length ≤ pass.sched.running.length then .ok ()
  else .error (.assertionError "")

end Pass

namespace Scheduler

/-- Advance the computed tokens of the scheduled requests. -/
def updateAfterSchedule (sched : Scheduler ε ρ) (numScheduledTokens : AList (fun _ : ρ ↦ ℤ)) :
    Scheduler ε ρ :=
  { sched with requests := fun id ↦
      let req := sched.requests id
      match numScheduledTokens.lookup id with
      | none => req
      | some numTokens => { req with
          numComputedTokens := (req.numComputedTokens + numTokens).toNat
          isPrefillChunk := decide (req.numComputedTokens + numTokens <
            (req.numTokens : ℤ) + req.numOutputPlaceholders) } }

/-- One call of `schedule()`: the local variables at its end and the scheduler that it leaves. -/
def schedule (sched : Scheduler ε ρ) (config : SchedulerConfig) (env : Environment ε ρ) :
    Except Exn (Pass ε ρ × Scheduler ε ρ) :=
  match sched.scheduleRunning config env with
  | .error exn => .error exn
  | .ok afterRunning => match afterRunning.scheduleWaiting config env with
    | .error exn => .error exn
    | .ok final => (final.checkConstraints config).map fun _ ↦
        (final, final.sched.updateAfterSchedule final.numScheduledTokens)

end Scheduler

end Nelssa.Sched
