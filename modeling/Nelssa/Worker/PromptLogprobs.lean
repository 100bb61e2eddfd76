import Nelssa.Foundation.Runs
import Nelssa.Foundation.Slices

/-!
# Prompt logprobs over chunks

A request may ask for the logprobs of its own prompt. Row `i` of the result comes from the hidden state at
prompt position `i` and is about the token at `i + 1`. The model runner fills one tensor for the whole
prompt slice by slice as the chunks of the prefill are computed, and returns it with the last chunk. The
tensor belongs to the persistent batch: it is dropped when the request leaves the batch, which happens in
every step that does not schedule it. A tensor that is created when a chunk behind the first one is
computed has rows that nobody writes.
-/

namespace Nelssa.Worker.PromptLogprobs

open Foundation.Runs Foundation.Slices List Option

/-! ## The scheduler output -/

/-- `NewRequestData`. A prompt given by embeddings has no token ids; −1 asks for the whole vocabulary. -/
structure NewRequestData where
  promptTokenIds : Option (List ℕ)
  promptLogprobs : Option ℤ
  numComputedTokens : ℕ

/-- The entry of a scheduled request in `scheduled_new_reqs` or `scheduled_cached_reqs`. -/
inductive RequestData where
  | new (data : NewRequestData)
  | cached (numComputedTokens : ℕ) (resumed : Bool)

def RequestData.numComputedTokens : RequestData → ℕ
  | .new data => data.numComputedTokens
  | .cached numComputedTokens _ => numComputedTokens

/-- A request that is scheduled, with its number of tokens. -/
structure Scheduled where
  numTokens : ℕ
  data : RequestData

def Scheduled.computedAfter (scheduled : Scheduled) : ℕ :=
  scheduled.data.numComputedTokens + scheduled.numTokens

/-- What the scheduler decides for one step. `rows` is the order of the requests in the persistent batch
after it has been condensed and reordered; it has one row for each scheduled request. -/
structure SchedulerOutput (ρ : Type*) where
  finishedReqIds : ρ → Bool
  scheduled : ρ → Option Scheduled
  rows : List ρ
  mem_rows : ∀ reqId, (scheduled reqId).isSome = true → reqId ∈ rows

variable {ρ : Type*}

namespace SchedulerOutput

variable (output : SchedulerOutput ρ)

/-- The positions of a request that are computed in the step. -/
def positions (reqId : ρ) : List (ρ × ℕ) :=
  match output.scheduled reqId with
  | none => []
  | some scheduled =>
    (range' scheduled.data.numComputedTokens scheduled.numTokens).map
      fun pos ↦ (reqId, pos)

/-- The hidden states of the step, each named by its request and position. -/
def hiddenStates : List (ρ × ℕ) := output.rows.flatMap output.positions

/-- `query_start_loc`. -/
def queryStartLoc (row : ℕ) : ℕ := partStart output.positions output.rows row

end SchedulerOutput

/-! ## The model runner -/

structure CachedRequestState where
  promptTokenIds : Option (List ℕ)
  numComputedTokens : ℕ

/-- A tensor in host memory; `none` is a row that has not been written. -/
abbrev LogprobsTensor (Row : Type*) := List (Option Row)

/-- What has happened to a request that asked for the logprobs of its prompt since it was added: the
position behind the last chunk, whether its prefill has been completed, and the returned tensors. -/
structure History (Row : Type*) where
  promptTokenIds : List ℕ
  numPromptLogprobs : ℕ
  computed : ℕ := 0
  completed : Bool := false
  returned : List (LogprobsTensor Row) := []

/-- The part of the model runner and of its `InputBatch` that prompt logprobs depend on. `logprobs` stands
for the language model head, the sampler and the gathering of the top logprobs. -/
structure Runner (ρ Row : Type*) where
  vocabSize : ℕ
  logprobs : ℕ → ρ × ℕ → ℕ → Row
  requests : ρ → Option CachedRequestState := fun _ ↦ none
  numPromptLogprobs : ρ → Option ℕ := fun _ ↦ none
  inBatch : ρ → Bool := fun _ ↦ false
  inProgressPromptLogprobs : ρ → Option (LogprobsTensor Row) := fun _ ↦ none
  history : ρ → Option (History Row) := fun _ ↦ none

variable {Row : Type*}

namespace Runner

variable (runner : Runner ρ Row) (output : SchedulerOutput ρ)

/-- The request was scheduled in the last step and stays in the batch. A request that is added again under
its own id is a new turn of a streaming session and leaves the batch before. -/
def stays (reqId : ρ) : Bool :=
  runner.inBatch reqId && !output.finishedReqIds reqId &&
    match output.scheduled reqId with
    | some ⟨_, .cached _ false⟩ => true
    | _ => false

/-- The cached state is still there when new requests are added. -/
def known (reqId : ρ) : Bool :=
  (runner.requests reqId).isSome && !output.finishedReqIds reqId

/-- The number of logprobs for each position that a new request asks for. -/
def askedLogprobs (data : NewRequestData) : Option ℕ :=
  data.promptLogprobs.map fun count ↦ if count = -1 then runner.vocabSize else count.toNat

def startHistory (data : NewRequestData) : Option (History Row) :=
  match data.promptTokenIds, runner.askedLogprobs data with
  | some promptTokenIds, some numPromptLogprobs => some { promptTokenIds, numPromptLogprobs }
  | _, _ => none

/-- `_update_states`. -/
def updateStates : Runner ρ Row where
  vocabSize := runner.vocabSize
  logprobs := runner.logprobs
  requests reqId :=
    match output.scheduled reqId with
    | some ⟨_, .new data⟩ => some ⟨data.promptTokenIds, data.numComputedTokens⟩
    | some ⟨_, .cached numComputedTokens _⟩ =>
      if runner.known output reqId then
        (runner.requests reqId).map fun request ↦ { request with numComputedTokens }
      else none
    | none => if runner.known output reqId then runner.requests reqId else none
  numPromptLogprobs reqId :=
    match output.scheduled reqId with
    | some ⟨_, .new data⟩ =>
      if runner.known output reqId then runner.numPromptLogprobs reqId else runner.askedLogprobs data
    | _ => if output.finishedReqIds reqId then none else runner.numPromptLogprobs reqId
  inBatch reqId := (output.scheduled reqId).isSome
  inProgressPromptLogprobs reqId :=
    if runner.inBatch reqId && !runner.stays output reqId then none
    else runner.inProgressPromptLogprobs reqId
  history reqId :=
    match output.scheduled reqId with
    | some ⟨_, .new data⟩ =>
      if runner.known output reqId then runner.history reqId else runner.startHistory data
    | _ => if output.finishedReqIds reqId then none else runner.history reqId

variable [DecidableEq ρ]

/-- The tensor of a request after the chunk of this step, and whether it is the last chunk. -/
def promptLogprobsChunk (reqId : ρ) (numPromptLogprobs startIdx numTokens : ℕ)
    (promptTokenIds : List ℕ) : LogprobsTensor Row × Bool :=
  let numPromptTokens := promptTokenIds.length
  let tensor := (runner.inProgressPromptLogprobs reqId).getD (replicate (numPromptTokens - 1) none)
  let isLast := numPromptTokens < numTokens + (startIdx + 1)
  let numLogits := if isLast then numPromptTokens - (startIdx + 1) else numTokens
  let offset := output.queryStartLoc (output.rows.idxOf reqId)
  let promptHiddenStates := (output.hiddenStates.drop offset).take numLogits
  let targetTokenIds := (promptTokenIds.drop (startIdx + 1)).take numLogits
  let rows := promptHiddenStates.zipWith (runner.logprobs numPromptLogprobs) targetTokenIds
  (if numLogits = 0 then tensor else writeSlice tensor startIdx (rows.map some), isLast)

/-- The tensor of a request that asks for prompt logprobs and is scheduled. -/
def promptLogprobsOf (reqId : ρ) : Option (LogprobsTensor Row × Bool) :=
  match runner.numPromptLogprobs reqId, output.scheduled reqId, runner.requests reqId with
  | some numPromptLogprobs, some scheduled, some ⟨some promptTokenIds, numComputedTokens⟩ =>
    some (runner.promptLogprobsChunk output reqId numPromptLogprobs numComputedTokens
      scheduled.numTokens promptTokenIds)
  | _, _, _ => none

/-- `_get_prompt_logprobs_dict`, with the tensors it returns appended to the history. -/
def getPromptLogprobsDict : Runner ρ Row :=
  { runner with
    numPromptLogprobs := fun reqId ↦ match runner.promptLogprobsOf output reqId with
      | some (_, true) => none
      | _ => runner.numPromptLogprobs reqId
    inProgressPromptLogprobs := fun reqId ↦ match runner.promptLogprobsOf output reqId with
      | some (_, true) => none
      | some (tensor, false) => some tensor
      | none => runner.inProgressPromptLogprobs reqId
    history := fun reqId ↦ (runner.history reqId).map fun history ↦
      let returned := match runner.promptLogprobsOf output reqId with
        | some (tensor, true) => history.returned ++ [tensor]
        | _ => history.returned
      match output.scheduled reqId with
      | none => { history with returned }
      | some scheduled =>
        { history with
          returned
          computed := scheduled.computedAfter
          completed := history.completed || history.promptTokenIds.length ≤ scheduled.computedAfter } }

/-- One step of the model runner. -/
def step {ρ Row : Type*} [DecidableEq ρ] (runner : Runner ρ Row) (output : SchedulerOutput ρ) :
    Runner ρ Row :=
  (runner.updateStates output).getPromptLogprobsDict output

end Runner

/-! ## Rows that are written -/

section Rows

variable (logprobs : ℕ → ρ × ℕ → ℕ → Row) (reqId : ρ) (history : History Row)

/-- The row of a prompt position: its hidden state and the token behind it. -/
def History.row (pos : ℕ) : Row :=
  logprobs history.numPromptLogprobs (reqId, pos) (history.promptTokenIds.getD (pos + 1) 0)

def History.promptLogprobs : LogprobsTensor Row :=
  (range (history.promptTokenIds.length - 1)).map fun pos ↦
    some (history.row logprobs reqId pos)

/-- The returned tensors: one, with all rows, if the prefill has been completed, and else none. -/
def History.Complete : Prop :=
  history.returned = if history.completed then [history.promptLogprobs logprobs reqId] else []

/-- The tensor has a row for each position but the last, and the rows before `computed` are written. -/
structure History.Filled (tensor : LogprobsTensor Row) (computed : ℕ) : Prop where
  length_eq : tensor.length = history.promptTokenIds.length - 1
  written : ∀ pos < history.promptTokenIds.length - 1, pos < computed →
    tensor[pos]? = some (some (history.row logprobs reqId pos))

variable {logprobs reqId history} {tensor : LogprobsTensor Row} {computed : ℕ}

theorem History.Filled.mono {earlier : ℕ} (hfilled : history.Filled logprobs reqId tensor computed)
    (hearlier : earlier ≤ computed) : history.Filled logprobs reqId tensor earlier :=
  ⟨hfilled.length_eq, fun pos hpos hbefore ↦ hfilled.written pos hpos (Nat.lt_of_lt_of_le hbefore hearlier)⟩

theorem History.filled_replicate :
    history.Filled logprobs reqId (replicate (history.promptTokenIds.length - 1) none) 0 :=
  ⟨length_replicate, fun _ _ hnone ↦ absurd hnone (Nat.not_lt_zero _)⟩

theorem History.Filled.eq_promptLogprobs (hfilled : history.Filled logprobs reqId tensor computed)
    (hall : history.promptTokenIds.length ≤ computed) : tensor = history.promptLogprobs logprobs reqId := by
  apply ext_getElem?
  intro pos
  by_cases hpos : pos < history.promptTokenIds.length - 1
  · rw [hfilled.written pos hpos (by omega), promptLogprobs, getElem?_map, getElem?_range hpos, map_some]
  · rw [getElem?_eq_none (by rw [hfilled.length_eq]; omega), getElem?_eq_none]
    rw [promptLogprobs, length_map, length_range]
    omega

end Rows

namespace Runner

variable [DecidableEq ρ] {runner : Runner ρ Row} {output : SchedulerOutput ρ} {reqId : ρ}
  {history : History Row} {scheduled : Scheduled} {count : ℕ} {next : History Row}

theorem take_hiddenStates (hscheduled : output.scheduled reqId = some scheduled)
    (hcount : count ≤ scheduled.numTokens) :
    (output.hiddenStates.drop (output.queryStartLoc (output.rows.idxOf reqId))).take count =
      (range' scheduled.data.numComputedTokens count).map fun pos ↦ (reqId, pos) := by
  have hpositions : output.positions reqId =
      (range' scheduled.data.numComputedTokens scheduled.numTokens).map fun pos ↦ (reqId, pos) := by
    rw [SchedulerOutput.positions, hscheduled]
  have hrow := output.mem_rows reqId (by rw [hscheduled, isSome_some])
  have hlen : count ≤ (output.positions reqId).length := by
    rw [hpositions, length_map, length_range']
    exact hcount
  rw [SchedulerOutput.hiddenStates, SchedulerOutput.queryStartLoc,
    take_drop_partStart _ hrow hlen, hpositions, ← map_take,
    take_range'_of_length_ge hcount]

omit [DecidableEq ρ] in
theorem zipWith_rows (hrows : scheduled.data.numComputedTokens + 1 + count ≤ history.promptTokenIds.length) :
    ((range' scheduled.data.numComputedTokens count).map fun pos ↦ (reqId, pos)).zipWith
        (runner.logprobs history.numPromptLogprobs)
        ((history.promptTokenIds.drop (scheduled.data.numComputedTokens + 1)).take count) =
      (range' scheduled.data.numComputedTokens count).map (history.row runner.logprobs reqId) := by
  apply ext_getElem?
  intro offset
  by_cases hoff : offset < count
  · have htoken : (history.promptTokenIds.drop (scheduled.data.numComputedTokens + 1))[offset]? =
        some (history.promptTokenIds.getD (scheduled.data.numComputedTokens + offset + 1) 0) := by
      have hbound : scheduled.data.numComputedTokens + offset + 1 < history.promptTokenIds.length := by omega
      rw [getElem?_drop, add_right_comm, getD_eq_getElem?_getD, getElem?_eq_getElem hbound, getD_some]
    rw [getElem?_zipWith, getElem?_map, getElem?_map, getElem?_range' hoff,
      getElem?_take_of_lt hoff, htoken, one_mul]
    rfl
  · rw [getElem?_eq_none, getElem?_eq_none]
    · rw [length_map, length_range']
      omega
    · rw [length_zipWith, length_map, length_range']
      omega

theorem filled_promptLogprobsChunk (hscheduled : output.scheduled reqId = some scheduled)
    (hfilled : history.Filled runner.logprobs reqId
      ((runner.inProgressPromptLogprobs reqId).getD
        (replicate (history.promptTokenIds.length - 1) none)) scheduled.data.numComputedTokens) :
    history.Filled runner.logprobs reqId
      (runner.promptLogprobsChunk output reqId history.numPromptLogprobs
        scheduled.data.numComputedTokens scheduled.numTokens history.promptTokenIds).1
      scheduled.computedAfter := by
  unfold promptLogprobsChunk
  dsimp only
  generalize hlogits : (if history.promptTokenIds.length <
      scheduled.numTokens + (scheduled.data.numComputedTokens + 1) then
    history.promptTokenIds.length - (scheduled.data.numComputedTokens + 1)
    else scheduled.numTokens) = numLogits
  have hcases : numLogits ≤ scheduled.numTokens ∧
      (numLogits = scheduled.numTokens ∧
          scheduled.data.numComputedTokens + 1 + numLogits ≤ history.promptTokenIds.length ∨
        numLogits = history.promptTokenIds.length - (scheduled.data.numComputedTokens + 1)) := by
    rw [← hlogits]
    split <;> omega
  obtain ⟨hle, hcases⟩ := hcases
  have hlen := hfilled.length_eq
  split
  · next =>
    -- no row is left, or the chunk is empty
    refine ⟨hlen, fun pos hposition hbefore ↦ hfilled.written pos hposition ?_⟩
    rw [Scheduled.computedAfter] at hbefore
    omega
  · next =>
    rw [take_hiddenStates hscheduled hle, zipWith_rows (by omega)]
    generalize hrows : ((range' scheduled.data.numComputedTokens numLogits).map
      (history.row runner.logprobs reqId)).map some = rows
    have hrowsLength : rows.length = numLogits := by
      rw [← hrows, length_map, length_map, length_range']
    have hbound : scheduled.data.numComputedTokens + rows.length ≤
        ((runner.inProgressPromptLogprobs reqId).getD
          (replicate (history.promptTokenIds.length - 1) none)).length := by
      omega
    refine ⟨(length_writeSlice hbound).trans hlen, fun pos hposition hbefore ↦ ?_⟩
    rcases Nat.lt_or_ge pos _ with hold | hnew
    · rw [getElem?_writeSlice_of_lt hbound hold]
      exact hfilled.written pos hposition hold
    · obtain ⟨offset, rfl⟩ := Nat.exists_eq_add_of_le hnew
      rw [Scheduled.computedAfter] at hbefore
      have hoff : offset < numLogits := by omega
      rw [getElem?_writeSlice_of_mem hbound (by omega), ← hrows, getElem?_map, getElem?_map,
        getElem?_range' hoff, one_mul]
      rfl

/-! ## Runs -/

section

variable (runner : Runner ρ Row)

/-- New requests start at their first token, and a further turn of a session comes after its prefill. A
prefill that is not complete starts again at the first token, or goes on at most where it has ended in the
last step. -/
def Continues (output : SchedulerOutput ρ) : Prop :=
  ∀ reqId scheduled, output.scheduled reqId = some scheduled → match scheduled.data with
    | .new data =>
      if runner.known output reqId then
        ∀ history, runner.history reqId = some history → history.completed = true
      else (runner.startHistory data).isSome = true → data.numComputedTokens = 0
    | .cached numComputedTokens _ => ∀ history, runner.history reqId = some history →
        history.completed = true ∨ numComputedTokens = 0 ∨
          runner.stays output reqId = true ∧ numComputedTokens ≤ history.computed

/-- All requests that have asked for prompt logprobs have them once if their prefill is complete. -/
def AllComplete : Prop :=
  ∀ reqId history, runner.history reqId = some history →
    history.Complete runner.logprobs reqId

/-- What the runner holds for a request that has asked for prompt logprobs. -/
structure Tracks (reqId : ρ) (history : History Row) : Prop where
  request : ∃ request, runner.requests reqId = some request ∧
    (history.completed = false → request.promptTokenIds = some history.promptTokenIds)
  asks : runner.numPromptLogprobs reqId =
    if history.completed then none else some history.numPromptLogprobs
  complete : history.Complete runner.logprobs reqId
  filled : history.completed = false → runner.inBatch reqId = true →
    ∃ tensor, runner.inProgressPromptLogprobs reqId = some tensor ∧
      history.Filled runner.logprobs reqId tensor history.computed

/-- The invariant of a run. -/
structure Tracked : Prop where
  unbatched : ∀ reqId, runner.inBatch reqId = false →
    runner.inProgressPromptLogprobs reqId = none
  tracks : ∀ reqId history, runner.history reqId = some history → runner.Tracks reqId history

end

section

variable (hscheduled : output.scheduled reqId = some scheduled)
  (hcomplete : history.Complete runner.logprobs reqId) (hhistory : runner.history reqId = some history)
  (hnext : (runner.getPromptLogprobsDict output).history reqId = some next)
include hscheduled hcomplete hhistory hnext

theorem tracks_of_completed (hcompleted : history.completed = true)
    (hnone : runner.numPromptLogprobs reqId = none) {request : CachedRequestState}
    (hreq : runner.requests reqId = some request) :
    (runner.getPromptLogprobsDict output).Tracks reqId next := by
  have hof : runner.promptLogprobsOf output reqId = none := by
    rw [promptLogprobsOf, hnone]
  obtain rfl : { history with computed := scheduled.computedAfter } = next := by
    simpa [getPromptLogprobsDict, hhistory, hof, hscheduled, hcompleted] using hnext
  have hclosed : history.completed ≠ false := ne_of_eq_of_ne hcompleted Bool.false_ne_true.symm
  exact ⟨⟨request, hreq, fun hopen ↦ absurd hopen hclosed⟩,
    by simp [getPromptLogprobsDict, hof, hnone, hcompleted], hcomplete, fun hopen ↦ absurd hopen hclosed⟩

theorem tracks_of_filled (hopen : history.completed = false)
    (hasks : runner.numPromptLogprobs reqId = some history.numPromptLogprobs)
    (hreq : runner.requests reqId = some ⟨some history.promptTokenIds, scheduled.data.numComputedTokens⟩)
    (hfilled : history.Filled runner.logprobs reqId
      ((runner.inProgressPromptLogprobs reqId).getD
        (replicate (history.promptTokenIds.length - 1) none)) scheduled.data.numComputedTokens) :
    (runner.getPromptLogprobsDict output).Tracks reqId next := by
  have hchunk := filled_promptLogprobsChunk hscheduled hfilled
  generalize hres : runner.promptLogprobsChunk output reqId history.numPromptLogprobs
    scheduled.data.numComputedTokens scheduled.numTokens history.promptTokenIds = result at hchunk
  have hlast : result.2 = decide (history.promptTokenIds.length ≤ scheduled.computedAfter) := by
    rw [← hres]
    apply decide_eq_decide.2
    rw [Scheduled.computedAfter]
    omega
  obtain ⟨tensor, last⟩ := result
  have hof : runner.promptLogprobsOf output reqId = some (tensor, last) := by
    simp [promptLogprobsOf, hasks, hscheduled, hreq, hres]
  have hreturned : history.returned = [] := by
    rw [hcomplete, if_neg (by rw [hopen]; exact Bool.false_ne_true)]
  cases last with
  | true =>
    have hall := of_decide_eq_true hlast.symm
    obtain rfl : { history with
        returned := [tensor], computed := scheduled.computedAfter, completed := true } = next := by
      simpa [getPromptLogprobsDict, hhistory, hof, hscheduled, hreturned, hall] using hnext
    refine ⟨⟨_, hreq, fun _ ↦ rfl⟩, by simp [getPromptLogprobsDict, hof], ?_, fun hfalse ↦ by simp at hfalse⟩
    exact congrArg (fun rows ↦ [rows]) (hchunk.eq_promptLogprobs hall)
  | false =>
    have hmore := of_decide_eq_false hlast.symm
    obtain rfl : { history with computed := scheduled.computedAfter } = next := by
      simpa [getPromptLogprobsDict, hhistory, hof, hscheduled, hmore] using hnext
    refine ⟨⟨_, hreq, fun _ ↦ rfl⟩, by simp [getPromptLogprobsDict, hof, hasks, hopen], hcomplete,
      fun _ _ ↦ ?_⟩
    exact ⟨tensor, by simp [getPromptLogprobsDict, hof], hchunk.1, hchunk.2⟩

end

omit [DecidableEq ρ] in
theorem Tracked.known (htracked : runner.Tracked) (hhistory : runner.history reqId = some history)
    (hrun : output.finishedReqIds reqId = false) : runner.known output reqId = true := by
  obtain ⟨_, hreq, -⟩ := (htracked.tracks reqId history hhistory).request
  rw [Runner.known, hreq, hrun]
  rfl

omit [DecidableEq ρ] in
/-- A request that does not stay in the batch has no tensor when it is added. -/
theorem Tracked.inProgress_of_not_stays (htracked : runner.Tracked)
    (hstays : runner.stays output reqId = false) :
    (runner.updateStates output).inProgressPromptLogprobs reqId = none := by
  rw [updateStates]
  dsimp only
  cases hbatch : runner.inBatch reqId with
  | true => rw [hstays, Bool.not_false, Bool.and_true, if_pos rfl]
  | false =>
    exact htracked.unbatched reqId hbatch

theorem promptLogprobsOf_of_unscheduled (hscheduled : output.scheduled reqId = none) :
    runner.promptLogprobsOf output reqId = none := by
  unfold promptLogprobsOf
  rw [hscheduled]
  split
  · next heq _ => cases heq
  · rfl

omit [DecidableEq ρ] in
theorem updateStates_of_not_new
    (hold : ∀ numTokens data, output.scheduled reqId ≠ some ⟨numTokens, .new data⟩) :
    (runner.updateStates output).history reqId =
        (if output.finishedReqIds reqId then none else runner.history reqId) ∧
      (runner.updateStates output).numPromptLogprobs reqId =
        (if output.finishedReqIds reqId then none else runner.numPromptLogprobs reqId) := by
  unfold updateStates
  dsimp only
  split
  · next numTokens data hscheduled => exact absurd hscheduled (hold numTokens data)
  · exact ⟨rfl, rfl⟩

section

variable (htracked : runner.Tracked)
include htracked

theorem Tracked.step_unscheduled (hscheduled : output.scheduled reqId = none)
    (hnext : (runner.step output).history reqId = some next) : (runner.step output).Tracks reqId next := by
  have hof : (runner.updateStates output).promptLogprobsOf output reqId = none :=
    promptLogprobsOf_of_unscheduled hscheduled
  obtain ⟨hhistory, hnumber⟩ := @updateStates_of_not_new ρ Row runner output reqId (by simp [hscheduled])
  have hkept : (runner.updateStates output).history reqId = some next := by
    simpa [step, getPromptLogprobsDict, hof, hscheduled] using hnext
  obtain ⟨hrun, hbefore⟩ : output.finishedReqIds reqId = false ∧ runner.history reqId = some next := by
    rw [hhistory, ite_none_left_eq_some, Bool.not_eq_true] at hkept
    exact hkept
  have htracks := htracked.tracks reqId next hbefore
  have hknown := htracked.known hbefore hrun
  refine ⟨?_, ?_, htracks.complete, ?_⟩
  · simpa [step, getPromptLogprobsDict, updateStates, hscheduled, hknown] using htracks.request
  · rw [← htracks.asks, step, getPromptLogprobsDict]
    simp only [hof]
    rw [hnumber, hrun, if_neg Bool.false_ne_true]
  · intro _ hbatch
    simp [step, getPromptLogprobsDict, updateStates, hscheduled] at hbatch

section

variable (hcontinues : runner.Continues output)
include hcontinues

theorem Tracked.step_cached {numTokens numComputedTokens : ℕ} {resumed : Bool}
    (hscheduled : output.scheduled reqId = some ⟨numTokens, .cached numComputedTokens resumed⟩)
    (hnext : (runner.step output).history reqId = some next) : (runner.step output).Tracks reqId next := by
  obtain ⟨hhistory, hnumber⟩ := @updateStates_of_not_new ρ Row runner output reqId (by simp [hscheduled])
  obtain ⟨history, hkept, -⟩ := map_eq_some_iff.1 hnext
  obtain ⟨hrun, hbefore⟩ : output.finishedReqIds reqId = false ∧ runner.history reqId = some history := by
    rw [hhistory, ite_none_left_eq_some, Bool.not_eq_true] at hkept
    exact hkept
  have htracks := htracked.tracks reqId history hbefore
  obtain ⟨request, hrequest, hprompt⟩ := htracks.request
  have hreq : (runner.updateStates output).requests reqId = some { request with numComputedTokens } := by
    simp [updateStates, hscheduled, htracked.known hbefore hrun, hrequest]
  rw [hrun, htracks.asks] at hnumber
  cases hcompleted : history.completed with
  | true =>
    rw [hcompleted] at hnumber
    exact tracks_of_completed hscheduled htracks.complete hkept hnext hcompleted hnumber hreq
  | false =>
    rw [hcompleted] at hnumber
    rw [hprompt hcompleted] at hreq
    refine tracks_of_filled hscheduled htracks.complete hkept hnext hcompleted hnumber hreq ?_
    -- the tensor holds the rows before the chunk: it was filled in the last step, or there are none
    cases hstays : runner.stays output reqId with
    | false =>
      have hzero : numComputedTokens = 0 := by
        have hstart := hcontinues reqId _ hscheduled history hbefore
        rw [hcompleted, hstays] at hstart
        simpa using hstart
      rw [htracked.inProgress_of_not_stays hstays]
      exact History.filled_replicate.mono (Nat.le_of_eq hzero)
    | true =>
      have hbatch : runner.inBatch reqId = true := by
        simp only [stays, Bool.and_eq_true] at hstays
        exact hstays.1.1
      obtain ⟨tensor, htensor, hfilled⟩ := htracks.filled hcompleted hbatch
      have hsame : (runner.updateStates output).inProgressPromptLogprobs reqId = some tensor := by
        simp [updateStates, hstays, htensor]
      rw [hsame]
      apply hfilled.mono
      have hstart := hcontinues reqId _ hscheduled history hbefore
      rw [hcompleted] at hstart
      rcases hstart with hfalse | hzero | ⟨-, hle⟩
      · cases hfalse
      · exact hzero ▸ Nat.zero_le _
      · exact hle

theorem Tracked.step_new {numTokens : ℕ}
    {data : NewRequestData} (hscheduled : output.scheduled reqId = some ⟨numTokens, .new data⟩)
    (hnext : (runner.step output).history reqId = some next) : (runner.step output).Tracks reqId next := by
  have hstart := hcontinues reqId _ hscheduled
  dsimp only at hstart
  obtain ⟨history, hkept, -⟩ := map_eq_some_iff.1 hnext
  cases hknown : runner.known output reqId with
  | true =>
    -- a further turn of a session, which asks for nothing any more
    have hbefore : runner.history reqId = some history := by
      simpa [updateStates, hscheduled, hknown] using hkept
    rw [hknown, if_pos rfl] at hstart
    have htracks := htracked.tracks reqId history hbefore
    have hcompleted := hstart history hbefore
    have hreq : (runner.updateStates output).requests reqId =
        some ⟨data.promptTokenIds, data.numComputedTokens⟩ := by
      simp only [updateStates, hscheduled]
    refine tracks_of_completed hscheduled htracks.complete hkept hnext hcompleted ?_ hreq
    simpa [updateStates, hscheduled, hknown, hcompleted] using htracks.asks
  | false =>
    have hstarted : runner.startHistory data = some history := by
      simpa [updateStates, hscheduled, hknown] using hkept
    have hstays : runner.stays output reqId = false := by
      simp [stays, hscheduled]
    rw [hknown, if_neg Bool.false_ne_true] at hstart
    have hzero := hstart (by rw [hstarted, isSome_some])
    unfold startHistory at hstarted
    split at hstarted
    · next promptTokenIds numPromptLogprobs hprompt hasked =>
      cases hstarted
      refine tracks_of_filled hscheduled ?_ hkept hnext rfl ?_ ?_ ?_
      · rfl
      · simp [updateStates, hscheduled, hknown, hasked]
      · simp [updateStates, hscheduled, hprompt, RequestData.numComputedTokens]
      · rw [htracked.inProgress_of_not_stays hstays]
        exact History.filled_replicate.mono (Nat.le_of_eq hzero)
    · cases hstarted

theorem Tracked.step : (runner.step output).Tracked := by
  constructor
  · intro reqId hbatch
    have hscheduled : output.scheduled reqId = none := by
      simpa [Runner.step, getPromptLogprobsDict, updateStates] using hbatch
    rw [Runner.step, getPromptLogprobsDict]
    simp only [promptLogprobsOf_of_unscheduled hscheduled]
    apply htracked.inProgress_of_not_stays
    simp [stays, hscheduled]
  · intro reqId next hnext
    match hscheduled : output.scheduled reqId with
    | none => exact htracked.step_unscheduled hscheduled hnext
    | some ⟨numTokens, .new data⟩ => exact htracked.step_new hcontinues hscheduled hnext
    | some ⟨numTokens, .cached numComputedTokens resumed⟩ =>
      exact htracked.step_cached hcontinues hscheduled hnext

end

end

/-- In every run in which an unfinished prefill starts at the first token whenever its request enters the
batch, each prefill that is completed has returned its prompt logprobs once and completely. -/
theorem promptLogprobs_complete (vocabSize : ℕ) (logprobs : ℕ → ρ × ℕ → ℕ → Row)
    (outputs : List (SchedulerOutput ρ))
    (hcontinues : StepsMeet Runner.step Continues { vocabSize, logprobs } outputs) :
    HoldsAlong Runner.step AllComplete { vocabSize, logprobs } outputs := by
  have hkept : ∀ (runner : Runner ρ Row) (output : SchedulerOutput ρ), runner.Tracked →
      runner.Continues output → (runner.step output).Tracked :=
    fun runner output htracked houtput ↦ htracked.step houtput
  have hcomplete : ∀ runner : Runner ρ Row, runner.Tracked → runner.AllComplete :=
    fun runner htracked reqId history hhistory ↦ (htracked.tracks reqId history hhistory).complete
  have hstart : Tracked ({ vocabSize, logprobs } : Runner ρ Row) :=
    ⟨fun _ _ ↦ rfl, fun _ _ hnone ↦ by cases hnone⟩
  exact holdsAlong_of_stepsMeet hkept hcomplete hstart hcontinues

end Runner

/-! ## A prompt of three tokens -/

/-- A step that schedules one request. -/
def chunkOutput (numTokens : ℕ) (data : RequestData) : SchedulerOutput Unit where
  finishedReqIds _ := false
  scheduled _ := some ⟨numTokens, data⟩
  rows := [()]
  mem_rows _ _ := mem_singleton_self ()

def idleOutput : SchedulerOutput Unit where
  finishedReqIds _ := false
  scheduled _ := none
  rows := []
  mem_rows _ hnone := absurd hnone Bool.false_ne_true

/-- Three prompt tokens, for which one logprob is asked. -/
def threeTokens : NewRequestData := ⟨some [7, 8, 9], some 1, 0⟩

/-- A runner whose rows tell the position and the token they are about. -/
def labelRunner : Runner Unit (ℕ × ℕ) where
  vocabSize := 16
  logprobs _ hidden token := (hidden.2, token)

/-- Two chunks in consecutive steps, and a further turn of the session. -/
theorem promptLogprobs_complete_twoChunks :
    HoldsAlong Runner.step Runner.AllComplete labelRunner [chunkOutput 1 (.new threeTokens),
        chunkOutput 2 (.cached 1 false), chunkOutput 2 (.new ⟨some [7, 8, 9, 4, 5], some 1, 3⟩)] ∧
      (([chunkOutput 1 (.new threeTokens), chunkOutput 2 (.cached 1 false)].foldl Runner.step
        labelRunner).history ()).map History.returned = some [[some (0, 8), some (1, 9)]] := by
  refine ⟨Runner.promptLogprobs_complete 16 _ _ ⟨?_, ?_, ?_, trivial⟩, by decide⟩
  · intro reqId scheduled hscheduled
    cases hscheduled
    exact fun _ ↦ rfl
  · intro reqId scheduled hscheduled
    cases hscheduled
    intro history hhistory
    cases hhistory
    exact .inr (.inr ⟨rfl, Nat.le_refl 1⟩)
  · intro reqId scheduled hscheduled
    cases hscheduled
    intro history hhistory
    cases hhistory
    rfl

/-- A step between the chunks that does not schedule the request loses the rows of the first chunk. -/
theorem not_promptLogprobs_complete_idle :
    (([chunkOutput 1 (.new threeTokens), idleOutput, chunkOutput 2 (.cached 1 false)].foldl Runner.step
        labelRunner).history ()).map History.returned = some [[none, some (1, 9)]] ∧
      ¬ HoldsAlong Runner.step Runner.AllComplete labelRunner
        [chunkOutput 1 (.new threeTokens), idleOutput, chunkOutput 2 (.cached 1 false)] := by
  refine ⟨by decide, fun hcomplete ↦ ?_⟩
  have hreturned := hcomplete.final () _ rfl
  revert hreturned
  unfold History.Complete
  decide

end Nelssa.Worker.PromptLogprobs
