import Nelssa.Sched.InvalidBlocks

/-!
# The life of a request in the scheduler

The methods of the scheduler around `schedule()`: a request is added, it gets the outputs of the steps
in which it ran, it stops or is finished from outside, and it leaves the table of requests once nobody
needs its blocks. A resumable request is a streaming session: when it stops, it takes its next input from
its queue or waits for one.

What an output does to the counters of a request, to the KV cache and to the encoder cache is a
parameter; only the status of the request is not touched by it.
-/

namespace Nelssa.Sched

open Nelssa.Core Foundation.Loops Function

variable {ρ ε : Type*} [LinearOrder ρ]

attribute [local instance] lawfulBEq_of_linearOrder

/-- The next input of a streaming session: its prompt tokens, with the hashes of the blocks that they
fill, and its encoder inputs. -/
structure SessionUpdate where
  numPromptTokens : ℕ
  blockHashes : List BlockHash := []
  encoderEmbeds : List ℕ := []
  arrivalTime : ℕ := 0

/-- A request as the engine hands it to the scheduler, also read as the next input of a session. -/
structure NewRequest where
  request : Request
  structuredOutput : Bool := false
  resumable : Bool := false
  update : SessionUpdate

/-- `StreamingUpdate.from_request`. -/
def NewRequest.streamingUpdate (new : NewRequest) : Option SessionUpdate :=
  if new.resumable then some new.update else none

def NewRequest.initial (new : NewRequest) : Request :=
  { new.request with
    status := if new.structuredOutput then .waitingForStructuredOutputGrammar else .waiting }

/-- What the output of a step says about a request. It stops by a stop condition or with its pooling
output, and also when the grammar rejects its tokens. -/
structure RequestOutput (ε ρ : Type*) where
  change : Request → Request := fun request ↦ request
  status_change : ∀ request, (change request).status = request.status := by exact fun _ ↦ rfl
  changeKv : KVCacheManager ρ → KVCacheManager ρ := fun kv ↦ kv
  changeEnvironment : ε → ε := fun environment ↦ environment
  stopped : Bool := false
  grammarRejects : Bool := false

def RequestOutput.stops (output : RequestOutput ε ρ) : Bool := output.stopped || output.grammarRejects

/-- The arguments of `update_from_output`. -/
structure StepOutput (ε ρ : Type*) where
  numScheduledTokens : AList (fun _ : ρ ↦ ℤ)
  outputs : ρ → RequestOutput ε ρ
  invalidBlockIds : List ℕ := []
  finishedRecving : List ρ := []
  finishedSending : List ρ := []

/-- The scheduler with its table of requests and its streaming sessions. The keys of the table are
`requestIds`; a request without a streaming queue is no session. -/
structure RequestScheduler (ε ρ : Type*) extends Scheduler ε ρ where
  requestIds : List ρ
  resumable : ρ → Bool
  streamingQueue : ρ → Option (List (Option SessionUpdate))
  numWaitingForStreamingInput : ℤ

/-- The session keeps its computed tokens, and the new prompt follows them. -/
def Request.extend (request : Request) (update : SessionUpdate) : Request :=
  let kept := min request.numTokens request.numComputedTokens
  { request with
    status := .waiting
    numTokens := kept + update.numPromptTokens
    numPromptTokens :=
      request.numPromptTokens + (kept - request.numPromptTokens) + update.numPromptTokens
    blockHashes := request.blockHashes ++ update.blockHashes
    encoderEmbeds := request.encoderEmbeds ++ update.encoderEmbeds
    arrivalTime := update.arrivalTime }

namespace RequestScheduler

variable (env : Environment ε ρ) (sched : RequestScheduler ε ρ)

/-- Is the request in the table and not finished? -/
def IsLive (id : ρ) : Prop := id ∈ sched.requestIds ∧ (sched.requests id).status ≠ .finished

instance (id : ρ) : Decidable (sched.IsLive id) := inferInstanceAs (Decidable (_ ∧ _))

/-! ## Freeing a request -/

/-- Free the blocks of a finished request and delete it from the table. -/
def freeBlocks (id : ρ) : Except Exn (RequestScheduler ε ρ) :=
  if (sched.requests id).status ≠ .finished then .error (.assertionError "")
  else
    let freed := sched.kvCacheManager.free id
    match freed.1 with
    | .error exn => .error exn
    | .ok () => .ok { sched with kvCacheManager := freed.2, requestIds := sched.requestIds.erase id }

/-- Free a finished request. `connectorDelays` is the answer of the connector, which may still send the
blocks. -/
def freeRequest (connectorDelays : ρ → Bool) (id : ρ) (delayFreeBlocks : Bool) :
    Except Exn (RequestScheduler ε ρ) :=
  if (sched.requests id).status ≠ .finished then .error (.assertionError "")
  else
    let skipped : Except Exn (List Unit) × KVCacheManager ρ := match env.connector with
      | none => (.ok [], sched.kvCacheManager)
      | some _ => sched.kvCacheManager.runManagers fun _ manager pool ↦
          manager.removeSkippedBlocks pool id (sched.requests id).numComputedTokens
    match skipped.1 with
    | .error exn => .error exn
    | .ok _ =>
      let released := { sched with
        kvCacheManager := skipped.2, environment := env.freeEncoder sched.environment id }
      if delayFreeBlocks || (env.connector.isSome && connectorDelays id) then .ok released
      else released.freeBlocks id

/-! ## Streaming sessions -/

def updateRequestAsSession (id : ρ) (update : SessionUpdate) : RequestScheduler ε ρ :=
  { sched with
    toScheduler := sched.setRequest id fun request ↦ request.extend update
    numWaitingForStreamingInput := sched.numWaitingForStreamingInput -
      if (sched.requests id).status = .waitingForStreamingReq then 1 else 0 }

/-- The flag is true if the request is finished; a session goes on with its next input. -/
def handleStoppedRequest (id : ρ) : Bool × RequestScheduler ε ρ :=
  if sched.resumable id = false then (true, sched)
  else match sched.streamingQueue id with
    | some (none :: rest) =>
      (true, { sched with streamingQueue := update sched.streamingQueue id (some rest) })
    | some (some update :: rest) =>
      let session := { sched with
        streamingQueue := Function.update sched.streamingQueue id (some rest)
        : RequestScheduler ε ρ }.updateRequestAsSession id update
      (false, { session with toScheduler := session.enqueueWaitingRequest id })
    | some [] | none =>
      let waits := sched.setRequest id fun request ↦ { request with status := .waitingForStreamingReq }
      (false, { sched with
        toScheduler := waits.enqueueWaitingRequest id
        numWaitingForStreamingInput := sched.numWaitingForStreamingInput + 1 })

/-! ## Finishing requests from outside -/

/-- The second pass for one request. -/
def finishRequest (connectorDelays : ρ → Bool) (id : ρ) : Except Exn (RequestScheduler ε ρ) :=
  let loads := decide ((sched.requests id).status = .waitingForRemoteKvs)
  let finished := { sched with
    toScheduler := { sched.setRequest id fun request ↦ { request with status := .finished } with
      finishedRecvingKvReqIds :=
        if loads then update sched.finishedRecvingKvReqIds id false
        else sched.finishedRecvingKvReqIds
      failedRecvingKvReqIds :=
        if loads then update sched.failedRecvingKvReqIds id false
        else sched.failedRecvingKvReqIds } }
  finished.freeRequest env connectorDelays id (loads && !sched.finishedRecvingKvReqIds id)

/-- Take requests out of their queues, the first pass of `finish_requests`. -/
def leaveQueues (ids : List ρ) : RequestScheduler ε ρ :=
  let runningRequests := ids.filter fun id ↦ (sched.requests id).status = .running
  let waitingRequests := ids.filter fun id ↦ (sched.requests id).status ≠ .running
  let streaming := ids.filter fun id ↦ (sched.requests id).status = .waitingForStreamingReq
  { sched with
    running := removeAll sched.running runningRequests
    waiting := if waitingRequests = [] then sched.waiting
      else sched.waiting.removeRequests (requestLt sched.requests) waitingRequests
    skippedWaiting := if waitingRequests = [] then sched.skippedWaiting
      else sched.skippedWaiting.removeRequests (requestLt sched.requests) waitingRequests
    numWaitingForStreamingInput := sched.numWaitingForStreamingInput - streaming.length }

/-- No list of ids means all requests. -/
def finishRequests (connectorDelays : ρ → Bool) (requestIds : Option (List ρ)) :
    Except Exn (RequestScheduler ε ρ) :=
  let validRequests := ((requestIds.getD sched.requestIds).dedup).filter fun id ↦ sched.IsLive id
  validRequests.foldlM (fun current id ↦ current.finishRequest env connectorDelays id)
    (sched.leaveQueues validRequests)

/-! ## Adding a request -/

def addRequest (connectorDelays : ρ → Bool) (id : ρ) (new : NewRequest) :
    Except Exn (RequestScheduler ε ρ) :=
  if id ∈ sched.requestIds then
    if (sched.requests id).status ≠ .waitingForStreamingReq then
      match sched.streamingQueue id with
      | none => .error (.assertionError "duplicate request id")
      | some queue => .ok { sched with
          streamingQueue :=
            update sched.streamingQueue id (some (queue ++ [new.streamingUpdate])) }
    else match new.streamingUpdate with
      | some update => .ok (sched.updateRequestAsSession id update)
      | none => sched.finishRequests env connectorDelays (some [id])
  else
    let placed := sched.setRequest id fun _ ↦ new.initial
    .ok { sched with
      toScheduler := placed.enqueueWaitingRequest id
      requestIds := sched.requestIds ++ [id]
      resumable := update sched.resumable id new.resumable
      streamingQueue :=
        update sched.streamingQueue id (if new.resumable then some [] else none) }

end RequestScheduler

/-! ## The output of a step -/

/-- The variables of the loop of `update_from_output`. -/
structure OutputPass (ε ρ : Type*) where
  sched : RequestScheduler ε ρ
  stoppedRunningReqs : List ρ := []
  stoppedPreemptedReqs : List ρ := []

namespace OutputPass

/-- The request with the output of its step. -/
def applyOutput (sched : RequestScheduler ε ρ) (id : ρ) (output : RequestOutput ε ρ) :
    RequestScheduler ε ρ :=
  { sched with
    toScheduler := { sched.setRequest id fun request ↦
        let changed := output.change request
        if output.stops then { changed with status := .finished } else changed with
      kvCacheManager := output.changeKv sched.kvCacheManager
      environment := output.changeEnvironment sched.environment }
    resumable :=
      if output.grammarRejects then update sched.resumable id false else sched.resumable }

/-- One round of the loop over the scheduled requests. -/
def takeOutput (env : Environment ε ρ) (connectorDelays : ρ → Bool) (failedKvLoadReqIds : List ρ)
    (outputs : ρ → RequestOutput ε ρ) (pass : OutputPass ε ρ) (entry : Σ _ : ρ, ℤ) :
    Except Exn (OutputPass ε ρ) :=
  let id := entry.1
  if entry.2 ≤ 0 then .error (.assertionError "")
  else if id ∈ failedKvLoadReqIds ∨ ¬ pass.sched.IsLive id then .ok pass
  else
    let updated := applyOutput pass.sched id (outputs id)
    if (outputs id).stops then
      let handled := updated.handleStoppedRequest id
      let freed := if handled.1 then handled.2.freeRequest env connectorDelays id false else .ok handled.2
      freed.map fun sched ↦
        if (pass.sched.requests id).status = .running then
          { pass with sched, stoppedRunningReqs := pass.stoppedRunningReqs ++ [id] }
        else { pass with sched, stoppedPreemptedReqs := pass.stoppedPreemptedReqs ++ [id] }
    else .ok { pass with sched := updated }

/-- Remove the stopped requests from the running list and the waiting queue. -/
def removeStopped (pass : OutputPass ε ρ) : RequestScheduler ε ρ :=
  { pass.sched with
    running := removeAll pass.sched.running pass.stoppedRunningReqs
    waiting := if pass.stoppedPreemptedReqs = [] then pass.sched.waiting
      else pass.sched.waiting.removeRequests (requestLt pass.sched.requests) pass.stoppedPreemptedReqs }

end OutputPass

namespace RequestScheduler

variable (config : SchedulerConfig) (env : Environment ε ρ) (sched : RequestScheduler ε ρ)

def finishRecving (id : ρ) : Except Exn (RequestScheduler ε ρ) :=
  if id ∉ sched.requestIds then .error (.assertionError "")
  else if (sched.requests id).status = .waitingForRemoteKvs then
    .ok { sched with finishedRecvingKvReqIds := update sched.finishedRecvingKvReqIds id true }
  else sched.freeBlocks id

def finishSending (id : ρ) : Except Exn (RequestScheduler ε ρ) :=
  if id ∉ sched.requestIds then .error (.assertionError "") else sched.freeBlocks id

def updateFromKvXferFinished (finishedRecving finishedSending : List ρ) :
    Except Exn (RequestScheduler ε ρ) :=
  match finishedRecving.foldlM (fun current id ↦ current.finishRecving id) sched with
  | .error exn => .error exn
  | .ok received => finishedSending.foldlM (fun current id ↦ current.finishSending id) received

def updateFromOutput (recomputeKvLoadFailures : Bool) (connectorDelays : ρ → Bool)
    (output : StepOutput ε ρ) : Except Exn (RequestScheduler ε ρ) :=
  let handled : Except Exn (List ρ × Scheduler ε ρ) :=
    if output.invalidBlockIds = [] then .ok ([], sched.toScheduler)
    else sched.handleInvalidBlocks config recomputeKvLoadFailures output.invalidBlockIds
      output.numScheduledTokens
  match handled with
  | .error exn => .error exn
  | .ok (failedKvLoadReqIds, toScheduler) =>
    let looped := output.numScheduledTokens.entries.foldlM
      (OutputPass.takeOutput env connectorDelays failedKvLoadReqIds output.outputs)
      { sched := { sched with toScheduler } }
    match looped with
    | .error exn => .error exn
    | .ok pass =>
      let failed :=
        if failedKvLoadReqIds ≠ [] ∧ recomputeKvLoadFailures = false then
          pass.removeStopped.finishRequests env connectorDelays (some failedKvLoadReqIds)
        else .ok pass.removeStopped
      match failed with
      | .error exn => .error exn
      | .ok after => after.updateFromKvXferFinished output.finishedRecving output.finishedSending

/-! ## Resetting the prefix cache -/

/-- The loop that preempts all running requests, the last one first. -/
def preemptAll : ℕ → Scheduler ε ρ → Except Exn (Scheduler ε ρ)
  | 0, sched => .ok sched
  | rounds + 1, sched => match sched.running.getLast? with
    | none => .ok sched
    | some id => match sched.preemptLast env with
      | .error exn => .error exn
      | .ok preempted => preemptAll rounds
          (preempted.setRequest id fun request ↦ { request with numOutputPlaceholders := 0 })

/-- The flag says whether the cache was reset. That it was not, although no request runs any more, is a
runtime error for the caller, but the requests stay preempted. -/
def resetPrefixCache (resetRunningRequests : Bool) : Except Exn (Bool × RequestScheduler ε ρ) :=
  let preempted : Except Exn (Scheduler ε ρ) :=
    if resetRunningRequests then preemptAll env sched.running.length sched.toScheduler
    else .ok sched.toScheduler
  preempted.map fun toScheduler ↦
    let reset := toScheduler.kvCacheManager.blockPool.resetPrefixCache
    (reset.1, { sched with
      toScheduler := { toScheduler with
        kvCacheManager := { toScheduler.kvCacheManager with blockPool := reset.2 } } })

end RequestScheduler

/-! ## Runs -/

/-- The calls of the engine. -/
inductive RequestOp (ε ρ : Type*) where
  | addRequest (id : ρ) (new : NewRequest)
  | schedule
  | updateFromOutput (output : StepOutput ε ρ)
  | finishRequests (requestIds : Option (List ρ))
  | resetPrefixCache (resetRunningRequests : Bool)

namespace RequestScheduler

/-- One call, with the answers of the connector. A call that raises leaves the scheduler as it was. -/
def apply (config : SchedulerConfig) (env : Environment ε ρ) (recomputeKvLoadFailures : Bool)
    (sched : RequestScheduler ε ρ) (call : RequestOp ε ρ × (ρ → Bool)) : RequestScheduler ε ρ :=
  let result : Except Exn (RequestScheduler ε ρ) := match call.1 with
    | .addRequest id new => sched.addRequest env call.2 id new
    | .schedule => (sched.schedule config env).map fun result ↦ { sched with toScheduler := result.2 }
    | .updateFromOutput output =>
      sched.updateFromOutput config env recomputeKvLoadFailures call.2 output
    | .finishRequests requestIds => sched.finishRequests env call.2 requestIds
    | .resetPrefixCache resetRunningRequests =>
      (sched.resetPrefixCache env resetRunningRequests).map Prod.snd
  match result with
  | .error _ => sched
  | .ok after => after

def init (config : SchedulerConfig) (requests : ρ → Request) (kvCacheManager : KVCacheManager ρ)
    (environment : ε) : RequestScheduler ε ρ :=
  { toScheduler := .init config requests kvCacheManager environment
    requestIds := [], resumable := fun _ ↦ false, streamingQueue := fun _ ↦ none
    numWaitingForStreamingInput := 0 }

end RequestScheduler

end Nelssa.Sched
