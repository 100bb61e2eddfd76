import Mathlib.Data.List.AList
import Nelssa.Core.KVCacheManager
import Nelssa.Foundation.Loops
import Nelssa.Sched.RequestQueue

/-!
# The scheduler

State and configuration of the scheduler, and the part of `schedule()` that gives tokens to running
requests. The loop over the running requests is a machine: it visits the request at the current index,
tries to allocate its slots, and preempts a running request each time the allocation fails. A `Pass`
holds the local variables of one call.

The encoder cache, the structured-output grammars, the lookup in the prefix cache and the KV connector
belong to an `Environment`. All results hold for every environment; of the encoder the scheduler only
needs that it never asks for more tokens than it is offered.
-/

namespace Nelssa.Sched

open Nelssa.Core Foundation.Loops

variable {ρ ε : Type*} [LinearOrder ρ]

inductive PauseState where
  | unpaused
  | pausedNew
  | pausedAll
  deriving DecidableEq, Repr

structure SchedulerConfig where
  policy : SchedulingPolicy
  maxNumRunningReqs : ℕ
  maxNumScheduledTokens : ℕ
  maxModelLen : ℕ
  blockSize : ℕ
  blockSize_pos : 0 < blockSize := by decide
  longPrefillTokenThreshold : ℕ := 0
  enableChunkedPrefill : Bool := true
  maxLoras : Option ℕ := none
  maxNumEncoderInputTokens : ℕ := 0
  isEncoderDecoder : Bool := false
  numLookaheadTokens : ℕ := 0
  useEagle : Bool := false
  needMambaBlockAlignedSplit : Bool := false
  schedulerReserveFullIsl : Bool := false
  nelssaConfig : NELSSAConfig := {}

/-- The result of `_try_schedule_encoder_inputs`. -/
structure EncoderPlan where
  inputs : List ℕ
  numNewTokens : ℤ
  computeBudget : ℤ
  externalLoads : List ℕ

/-- The scheduler side of a KV connector; no number of matched tokens means that it is not known yet,
and the flag says whether they are loaded asynchronously. -/
structure Connector (ε ρ : Type*) where
  getNumNewMatchedTokens : ε → ρ → Request → ℕ → (Option ℕ × Bool) × ε
  updateStateAfterAlloc : ε → ρ → List (List ℕ) → ℕ → ε

structure Environment (ε ρ : Type*) where
  tryScheduleEncoderInputs : ε → ρ → Request → ℕ → ℤ → ℤ → EncoderPlan × ε
  numNewTokens_le : ∀ state id req numComputed numNew budget,
    (tryScheduleEncoderInputs state id req numComputed numNew budget).1.numNewTokens ≤ max numNew 0
  allocateEncoder : ε → ρ → ℕ → ε
  freeEncoder : ε → ρ → ε
  grammarReady : ε → ρ → Bool
  getComputedBlocks : KVCacheManager ρ → ρ → Request → Except Exn (Option (List (List ℕ)) × ℕ)
  connector : Option (Connector ε ρ)

/-- The attributes of the scheduler; `requests` is the table of all request objects. -/
structure Scheduler (ε ρ : Type*) where
  requests : ρ → Request
  running : List ρ
  waiting : RequestQueue ρ
  skippedWaiting : RequestQueue ρ
  kvCacheManager : KVCacheManager ρ
  environment : ε
  finishedRecvingKvReqIds : ρ → Bool
  failedRecvingKvReqIds : ρ → Bool
  pauseState : PauseState

namespace Request

/-- The previous step certainly reaches the last token. -/
def ReachesMaxTokens (req : Request) : Prop :=
  0 < req.numOutputPlaceholders ∧
    req.numPromptTokens + req.maxTokens + req.numOutputPlaceholders ≤
      req.numComputedTokens + 2

instance (req : Request) : Decidable req.ReachesMaxTokens := inferInstanceAs (Decidable (_ ∧ _))

/-- The first chunk of tokens that a request still needs. -/
def firstChunk (config : SchedulerConfig) (missing : ℤ) : ℤ :=
  if 0 < config.longPrefillTokenThreshold ∧ config.longPrefillTokenThreshold < missing then
    config.longPrefillTokenThreshold
  else missing

variable (req : Request)

/-- The tokens a running request asks for. -/
def numNewTokens (config : SchedulerConfig) (tokenBudget : ℤ) : ℤ :=
  let missing : ℤ :=
    req.numTokensWithSpec + req.numOutputPlaceholders - req.numComputedTokens
  min (min (firstChunk config missing) tokenBudget)
    ((config.maxModelLen : ℤ) - 1 - req.numComputedTokens)

def mambaBlockAlignedSplit (config : SchedulerConfig) (numNewTokens : ℤ)
    (numNewLocalComputedTokens numExternalComputedTokens : ℕ) : Except Exn ℤ :=
  if numExternalComputedTokens ≠ 0 then
    .error (.assertionError "External KV connector is not verified yet")
  else
    let numComputedTokens :=
      req.numComputedTokens + numNewLocalComputedTokens + numExternalComputedTokens
    if numComputedTokens < max req.numPromptTokens (req.numTokens - 1) then
      let lastFullBlock := req.numTokens - req.numTokens % config.blockSize
      let lastCachePosition : ℤ :=
        if config.useEagle then (lastFullBlock - config.blockSize : ℕ) else lastFullBlock
      if numComputedTokens + numNewTokens < lastCachePosition then
        .ok (numNewTokens / config.blockSize * config.blockSize)
      else if numComputedTokens < lastCachePosition ∧
          lastCachePosition < numComputedTokens + numNewTokens then
        .ok (lastCachePosition - numComputedTokens)
      else .ok numNewTokens
    else .ok numNewTokens

/-- Long requests in their decode phase are not preempted as long as there is another request. -/
def isNelssaPreemptProtected : Bool :=
  req.nelssaLongMask && decide (req.numPromptTokens ≤ req.numComputedTokens)

/-- What `allocate_slots` reads of a request. -/
def slotRequest (id : ρ) : SlotRequest ρ :=
  { requestId := id, blockHashes := req.blockHashes
    numComputedTokens := req.numComputedTokens, numTokens := req.numTokens
    nelssaLongMask := req.nelssaLongMask }

end Request

/-- The function `remove_all`. -/
def removeAll (items itemsToRemove : List ρ) : List ρ :=
  match itemsToRemove with
  | [] => items
  | [item] => items.erase item
  | _ => items.filter (· ∉ itemsToRemove)

namespace Scheduler

section

variable (sched : Scheduler ε ρ)

def isRunning (id : ρ) : Bool := id ∈ sched.running

def setRequest (id : ρ) (change : Request → Request) : Scheduler ε ρ :=
  { sched with requests := Function.update sched.requests id (change (sched.requests id)) }

/-- Put a request that was taken out of the running list back to the waiting queue. -/
def preemptRequest (env : Environment ε ρ) (id : ρ) : Except Exn (Scheduler ε ρ) :=
  if (sched.requests id).status ≠ .running then
    .error (.assertionError "Only running requests can be preempted")
  else
    let freed := sched.kvCacheManager.free id
    match freed.1 with
    | .error exn => .error exn
    | .ok () => .ok { sched.setRequest id fun req ↦ { req with
          status := .preempted, numComputedTokens := 0, specTokenIds := []
          numPreemptions := req.numPreemptions + 1 } with
        kvCacheManager := freed.2
        environment := env.freeEncoder sched.environment id
        waiting := sched.waiting.prependRequest (requestLt sched.requests) id }

def Protected (id : ρ) : Prop :=
  (sched.requests id).isNelssaPreemptProtected = true

end

instance (sched : Scheduler ε ρ) (id : ρ) : Decidable (sched.Protected id) :=
  inferInstanceAs (Decidable (_ = _))

variable (sched : Scheduler ε ρ)

/-- The last running request that is not protected, or the last one if all are. -/
def fcfsVictim : Option ρ :=
  match sched.running.reverse.find? fun id ↦ ¬ sched.Protected id with
  | some id => some id
  | none => sched.running.getLast?

/-- The order of the key `(priority, arrival_time)`. -/
def hasLowerKey (first second : ρ) : Bool :=
  let left := sched.requests first
  let right := sched.requests second
  left.priority < right.priority ||
    (left.priority == right.priority && left.arrivalTime < right.arrivalTime)

/-- The first request of the largest key. -/
def maxByKey : List ρ → Option ρ
  | [] => none
  | first :: rest =>
    some (rest.foldl (fun best id ↦ if sched.hasLowerKey best id then id else best) first)

/-- The first request of largest priority value and arrival time among the running requests that are
not protected, or among all if all are. -/
def priorityVictim : Option ρ :=
  match sched.running.filter fun id ↦ ¬ sched.Protected id with
  | [] => sched.maxByKey sched.running
  | preemptable => sched.maxByKey preemptable

end Scheduler

/-! ## The pass over the running requests -/

/-- Where the loop over the running requests is: at its head, trying to allocate the slots of a
request, or left by a `break`. -/
inductive Phase (ρ : Type*) where
  | visit
  | allocate (id : ρ) (numNewTokens : ℤ) (plan : EncoderPlan)
  | stopped

/-- The local variables of `schedule()`. The dictionaries are keyed by request ids. `considered` records
the requests at which the running loop looked, in this order. -/
structure Pass (ε ρ : Type*) where
  sched : Scheduler ε ρ
  phase : Phase ρ := .visit
  reqIndex : ℕ := 0
  tokenBudget : ℤ
  encoderComputeBudget : ℤ
  scheduledNewReqs : List ρ := []
  scheduledResumedReqs : List ρ := []
  scheduledRunningReqs : List ρ := []
  preemptedReqs : List ρ := []
  reqToNewBlocks : AList (fun _ : ρ ↦ List (List ℕ)) := ∅
  numScheduledTokens : AList (fun _ : ρ ↦ ℤ) := ∅
  scheduledSpecDecodeTokens : AList (fun _ : ρ ↦ List ℤ) := ∅
  scheduledEncoderInputs : AList (fun _ : ρ ↦ List ℕ) := ∅
  considered : List ρ := []

namespace Pass

def start (config : SchedulerConfig) (sched : Scheduler ε ρ) : Pass ε ρ :=
  { sched := { sched with kvCacheManager := sched.kvCacheManager.newStepStarts }
    tokenBudget := if sched.pauseState = .pausedAll then 0 else config.maxNumScheduledTokens
    encoderComputeBudget := config.maxNumEncoderInputTokens }

variable (config : SchedulerConfig) (env : Environment ε ρ) (pass : Pass ε ρ)

def setEnvironment (environment : ε) : Pass ε ρ :=
  { pass with sched := { pass.sched with environment } }

def setKv (kv : KVCacheManager ρ) : Pass ε ρ :=
  { pass with sched := { pass.sched with kvCacheManager := kv } }

/-- The tokens of a running request in this step, with the plan for its encoder inputs. -/
def planRunning (id : ρ) : Except Exn ℤ × EncoderPlan × ε :=
  let req := pass.sched.requests id
  let numTokens := req.numNewTokens config pass.tokenBudget
  let planned :=
    if req.hasEncoderInputs then
      env.tryScheduleEncoderInputs pass.sched.environment id req req.numComputedTokens numTokens
        pass.encoderComputeBudget
    else ({ inputs := [], numNewTokens := numTokens, computeBudget := pass.encoderComputeBudget,
            externalLoads := [] }, pass.sched.environment)
  (if config.needMambaBlockAlignedSplit then
    req.mambaBlockAlignedSplit config planned.1.numNewTokens 0 0
  else .ok planned.1.numNewTokens, planned)

/-- One round of the running loop up to the allocation. -/
def visitRunning (id : ρ) : Except Exn (Pass ε ρ) :=
  let visited := { pass with considered := pass.considered ++ [id] }
  if (pass.sched.requests id).ReachesMaxTokens then .ok { visited with reqIndex := pass.reqIndex + 1 }
  else
    let planned := pass.planRunning config env id
    match planned.1 with
    | .error exn => .error exn
    | .ok numNewTokens =>
      if numNewTokens = 0 then
        .ok { visited.setEnvironment planned.2.2 with reqIndex := pass.reqIndex + 1 }
      else .ok { visited.setEnvironment planned.2.2 with phase := .allocate id numNewTokens planned.2.1 }

/-- Record the encoder inputs of a scheduled request and allocate their cache. -/
def scheduleEncoder (id : ρ) (plan : EncoderPlan) : Pass ε ρ :=
  let allocate (environment : ε) (inputs : List ℕ) : ε :=
    inputs.foldl (fun current input ↦ env.allocateEncoder current id input) environment
  let allocated := if plan.inputs = [] then pass else
    { pass.setEnvironment (allocate pass.sched.environment plan.inputs) with
      scheduledEncoderInputs := pass.scheduledEncoderInputs.insert id plan.inputs
      encoderComputeBudget := plan.computeBudget }
  allocated.setEnvironment (allocate allocated.sched.environment plan.externalLoads)

/-- Take the speculative tokens of a running request into the step. -/
def scheduleSpecTokens (id : ρ) (numNewTokens : ℤ) : Pass ε ρ :=
  let req := pass.sched.requests id
  if req.specTokenIds = [] then pass
  else
    let numScheduledSpecTokens := numNewTokens + req.numComputedTokens - req.numTokens -
      req.numOutputPlaceholders
    { pass with
      scheduledSpecDecodeTokens :=
        if 0 < numScheduledSpecTokens then
          pass.scheduledSpecDecodeTokens.insert id (req.specTokenIds.take numScheduledSpecTokens.toNat)
        else pass.scheduledSpecDecodeTokens
      sched := pass.sched.setRequest id fun req ↦ { req with specTokenIds := [] } }

/-- The request gets its tokens and the blocks allocated for them. -/
def commitRunning (id : ρ) (numNewTokens : ℤ) (plan : EncoderPlan) (newBlocks : List (List ℕ)) : Pass ε ρ :=
  let scheduled := { pass with
    phase := .visit
    scheduledRunningReqs := pass.scheduledRunningReqs ++ [id]
    reqToNewBlocks := pass.reqToNewBlocks.insert id newBlocks
    numScheduledTokens := pass.numScheduledTokens.insert id numNewTokens
    tokenBudget := pass.tokenBudget - numNewTokens
    reqIndex := pass.reqIndex + 1 }
  (scheduled.scheduleSpecTokens id numNewTokens).scheduleEncoder env id plan

/-- Take back what the pass has given to a victim, as the branch for priority scheduling does. A
scheduled request has an entry in both dictionaries. -/
def undoScheduled (victim : ρ) : Pass ε ρ :=
  if victim ∈ pass.scheduledRunningReqs then
    let embeds := (pass.sched.requests victim).encoderEmbeds
    { pass with
      scheduledRunningReqs := pass.scheduledRunningReqs.erase victim
      tokenBudget := pass.tokenBudget + (pass.numScheduledTokens.lookup victim).getD 0
      numScheduledTokens := pass.numScheduledTokens.erase victim
      reqToNewBlocks := pass.reqToNewBlocks.erase victim
      scheduledSpecDecodeTokens := pass.scheduledSpecDecodeTokens.erase victim
      scheduledEncoderInputs := pass.scheduledEncoderInputs.erase victim
      encoderComputeBudget := pass.encoderComputeBudget +
        (((pass.scheduledEncoderInputs.lookup victim).getD []).map fun input ↦ embeds.getD input 0).sum
      reqIndex := pass.reqIndex - 1 }
  else pass

/-- Only the branch for priority scheduling takes anything back. -/
def takeBack (victim : ρ) : Pass ε ρ :=
  match config.policy with
  | .priority => pass.undoScheduled victim
  | .fcfs => pass

def victim : Option ρ :=
  match config.policy with
  | .priority => pass.sched.priorityVictim
  | .fcfs => pass.sched.fcfsVictim

/-- Preempt a running request for `id`. A request is in the running list once, so taking it out by its
index is taking it out by its id. The loop is left when there is nobody else to preempt. -/
def preempt (id : ρ) : Except Exn (Pass ε ρ) :=
  match pass.victim config with
  | none => .error .indexError
  | some victim =>
    let removed :=
      { pass with sched := { pass.sched with running := pass.sched.running.erase victim } }
    let undone := removed.takeBack config victim
    match undone.sched.preemptRequest env victim with
    | .error exn => .error exn
    | .ok sched => .ok { undone with
        sched, preemptedReqs := pass.preemptedReqs ++ [victim]
        phase := if victim = id then .stopped else pass.phase }

/-- One step of the loop over the running requests. -/
def runningStep : Except Exn (Option (Pass ε ρ)) :=
  match pass.phase with
  | .stopped => .ok none
  | .visit => match pass.sched.running[pass.reqIndex]? with
    | none => .ok none
    | some id => if 0 < pass.tokenBudget then (pass.visitRunning config env id).map some else .ok none
  | .allocate id numNewTokens plan =>
    let allocated := pass.sched.kvCacheManager.allocateSlots ((pass.sched.requests id).slotRequest id)
      { numNewTokens, numLookaheadTokens := config.numLookaheadTokens }
    match allocated.1 with
    | .error exn => .error exn
    | .ok (some newBlocks) =>
      .ok (some ((pass.setKv allocated.2).commitRunning env id numNewTokens plan newBlocks))
    | .ok none => ((pass.setKv allocated.2).preempt config env id).map some

end Pass

/-- Give tokens to the running requests. Every request is visited at most once and every preemption
makes the running list shorter, which bounds the number of steps. -/
def Scheduler.scheduleRunning (sched : Scheduler ε ρ) (config : SchedulerConfig)
    (env : Environment ε ρ) : Except Exn (Pass ε ρ) :=
  loop (Pass.runningStep config env) (5 * sched.running.length + 1) (.start config sched)

end Nelssa.Sched
