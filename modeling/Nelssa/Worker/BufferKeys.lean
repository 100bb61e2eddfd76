import Nelssa.Worker.OffloadWorker

/-!
# The buffer that a remote attention request reads

The prefill worker finds the buffer for a request id of the decode side by the part of the ids behind the
first dash, in a map that holds every request that was ever set up. The first entry with the same part
wins. The lookup is right for the requests in front of which no request with the same part was set up.
-/

namespace Nelssa.Worker.Offload

open Foundation.Runs Function List

abbrev RequestId := List Char

/-- `req_id.split('-')[1]`, or the whole id if it has no dash. -/
def requestUuid (reqId : RequestId) : RequestId :=
  match reqId.splitOn '-' with
  | _ :: second :: _ => second
  | _ => reqId

def resolveBufferKey (reqId : RequestId) (requestIdToBufferKey : List (RequestId × RequestId)) : RequestId :=
  match requestIdToBufferKey.find? fun entry ↦ requestUuid entry.1 = requestUuid reqId with
  | some entry => entry.2
  | none => reqId

/-! ## The map of the ids -/

namespace OffloadWorker

section

variable {ρ κ : Type*} [DecidableEq ρ] {config : OffloadConfig} {worker : OffloadWorker ρ κ}

/-- The requests of the map have their own ids as keys, each once, and so do those with a CPU buffer. -/
structure OwnKeys (worker : OffloadWorker ρ κ) : Prop where
  ownId : ∀ reqId, CachedParams.OwnId (worker.requests reqId)
  own : ∀ entry ∈ worker.requestIdToBufferKey, entry.2 = entry.1
  nodup : (worker.requestIdToBufferKey.map Prod.fst).Nodup
  known : ∀ reqId, (worker.sparseKvCpuBuffers reqId).isSome →
    reqId ∈ worker.requestIdToBufferKey.map Prod.fst

variable {next : OffloadWorker ρ κ}

omit [DecidableEq ρ] in
theorem OwnKeys.of_same (hown : worker.OwnKeys) (hreqs : next.requests = worker.requests)
    (hmap : next.requestIdToBufferKey = worker.requestIdToBufferKey)
    (hcpu : ∀ reqId, (next.sparseKvCpuBuffers reqId).isSome → (worker.sparseKvCpuBuffers reqId).isSome) :
    next.OwnKeys where
  ownId := by
    rw [hreqs]
    exact hown.ownId
  own := by
    rw [hmap]
    exact hown.own
  nodup := by
    rw [hmap]
    exact hown.nodup
  known := by
    intro reqId hsome
    rw [hmap]
    exact hown.known reqId (hcpu reqId hsome)

theorem map_fst_dictSet (entries : List (ρ × ρ)) (key value : ρ) :
    (dictSet entries key value).map Prod.fst =
      if key ∈ entries.map Prod.fst then entries.map Prod.fst else entries.map Prod.fst ++ [key] := by
  unfold dictSet
  split
  · rw [map_map]
    apply map_congr_left
    intro entry _
    simp only [comp_apply]
    split <;> simp_all
  · rw [map_append, map_singleton]

theorem OwnKeys.setupRequest (hown : worker.OwnKeys) (step : OffloadStep κ ρ)
    (entry : ρ × Bool) : (setupRequest config step worker entry).OwnKeys := by
  have hkey : bufferKey config.isPdDisaggregated worker.requests entry.1 = entry.1 :=
    bufferKey_of_ownId (hown.ownId entry.1)
  unfold OffloadWorker.setupRequest
  split
  · exact hown
  · split
    · exact hown
    · rw [hkey]
      refine ⟨hown.ownId, ?_, ?_, ?_⟩
      · intro other hother
        dsimp only [dictSet] at hother
        split at hother
        · obtain ⟨old, hold, rfl⟩ := mem_map.1 hother
          split
          · rfl
          · exact hown.own old hold
        · rcases mem_append.1 hother with hold | hnew
          · exact hown.own other hold
          · rw [mem_singleton.1 hnew]
      · rw [map_fst_dictSet]
        split
        · exact hown.nodup
        · next hfresh =>
          exact .append hown.nodup (nodup_singleton _) (disjoint_singleton.2 hfresh)
      · intro reqId hsome
        rw [map_fst_dictSet]
        by_cases hreq : reqId = entry.1
        · subst hreq
          split
          · assumption
          · exact mem_append_right _ (mem_singleton_self _)
        · simp only [update_of_ne hreq] at hsome
          have hmem := hown.known reqId hsome
          split
          · exact hmem
          · exact mem_append_left _ hmem

variable {step : OffloadStep κ ρ}

theorem OwnKeys.offloadChunk (hown : worker.OwnKeys) {entry : ρ × ChunkInfo}
    (hchunk : worker.offloadChunk config step entry = .ok next) : next.OwnKeys := by
  revert hchunk
  fun_cases worker.offloadChunk config step entry
  case case1 | case2 | case7 =>
    rintro ⟨⟩
    exact hown
  case case3 key _ _ hcpu _ _ _ _ _ _ _ =>
    rintro ⟨⟩
    refine hown.of_same rfl rfl fun reqId hsome ↦ ?_
    by_cases hreq : reqId = key
    · rw [hreq, hcpu]
      rfl
    · simpa [update_of_ne hreq] using hsome
  all_goals nofun

theorem OwnKeys.callback (entries : List (ρ × ChunkInfo)) (hown : worker.OwnKeys) :
    (sparseKvOffloadCallback config step entries worker).2.OwnKeys := by
  induction entries generalizing worker with
  | nil => exact hown
  | cons entry rest ih =>
    unfold sparseKvOffloadCallback
    split
    · exact hown
    · next hchunk => exact ih (hown.offloadChunk hchunk)

theorem OwnKeys.apply (hown : worker.OwnKeys) {event : OffloadEvent ρ κ}
    (hevent : KeepsIds event) : (worker.apply config event).OwnKeys := by
  cases event with
  | setRequest reqId params =>
    refine { hown with ownId := fun other ↦ ?_ }
    by_cases hother : other = reqId
    · subst hother
      simp only [OffloadWorker.apply, update_self]
      exact hevent
    · simp only [OffloadWorker.apply, update_of_ne hother]
      exact hown.ownId other
  | forward step =>
    apply callback
    unfold setupSparseKvOffloading
    induction step.nelssaLongMask generalizing worker with
    | nil => exact hown
    | cons entry rest ih => exact ih (hown.setupRequest step entry)
  | cluster reorganize requestIds =>
    clear hevent
    induction requestIds generalizing worker with
    | nil => exact hown
    | cons reqId rest ih =>
      refine ih (hown.of_same rfl rfl fun other hsome ↦ ?_)
      by_cases hother : other = bufferKey config.isPdDisaggregated worker.requests reqId
      · subst hother
        simpa [clusterRequest] using hsome
      · simpa [clusterRequest, update_of_ne hother] using hsome
  | cleanup reqId =>
    refine hown.of_same rfl rfl fun other hsome ↦ ?_
    by_cases hother : other = bufferKey config.isPdDisaggregated worker.requests reqId
    · subst hother
      simp [OffloadWorker.apply, cleanupSparseKvCache] at hsome
    · simpa [OffloadWorker.apply, cleanupSparseKvCache, update_of_ne hother] using hsome

theorem ownKeys_of_run (config : OffloadConfig) {events : List (OffloadEvent ρ κ)}
    (hevents : ∀ event ∈ events, KeepsIds event) : (events.foldl (apply config) init).OwnKeys := by
  have hstart : (init : OffloadWorker ρ κ).OwnKeys := by
    refine ⟨?_, ?_, ?_, ?_⟩ <;> simp [init, CachedParams.OwnId]
  generalize init = worker at hstart
  induction events generalizing worker with
  | nil => exact hstart
  | cons event rest ih =>
    exact ih (fun other hother ↦ hevents other (mem_cons_of_mem event hother)) _
      (hstart.apply (hevents event mem_cons_self))

end

/-! ## The lookup -/

variable {κ : Type*}

/-- A request of the decode side and the prefill request that it continues. Both ids were made from one id
of the client; usually the decode side sends the id of the prefill request itself. -/
structure Pair where
  decodeId : RequestId
  prefillId : RequestId
  shared : requestUuid decodeId = requestUuid prefillId

/-- Every request reads the buffer of its own prefill request, and requests with different prefill requests
read different buffers. -/
structure ReadsOwnBuffers (config : OffloadConfig) (worker : OffloadWorker RequestId κ)
    (pairs : List Pair) : Prop where
  own : ∀ pair ∈ pairs, resolveBufferKey pair.decodeId worker.requestIdToBufferKey =
    bufferKey config.isPdDisaggregated worker.requests pair.prefillId
  apart : ∀ pair ∈ pairs, ∀ other ∈ pairs, pair.prefillId ≠ other.prefillId →
    resolveBufferKey pair.decodeId worker.requestIdToBufferKey ≠
      resolveBufferKey other.decodeId worker.requestIdToBufferKey

/-- No request that was set up before the prefill request of a pair, live or not, shares its part. -/
def FirstOfTheirPart (worker : OffloadWorker RequestId κ) (pairs : List Pair) : Prop :=
  ∀ pair ∈ pairs, ∀ reqId ∈ (worker.requestIdToBufferKey.map Prod.fst).takeWhile (· ≠ pair.prefillId),
    requestUuid reqId ≠ requestUuid pair.prefillId

theorem find?_eq_some_iff_takeWhile {ids : List RequestId} {reqId : RequestId} (hmem : reqId ∈ ids)
    {test : RequestId → Bool} (htest : test reqId = true) :
    ids.find? test = some reqId ↔ ∀ other ∈ ids.takeWhile (· ≠ reqId), test other = false := by
  induction ids with
  | nil => exact absurd hmem not_mem_nil
  | cons first rest ih =>
    by_cases hfirst : first = reqId
    · subst hfirst
      simp [htest]
    · have hrest := (mem_cons.1 hmem).resolve_left (Ne.symm hfirst)
      have htake : (first :: rest).takeWhile (· ≠ reqId) = first :: rest.takeWhile (· ≠ reqId) := by
        simp [hfirst]
      rw [htake, forall_mem_cons, ← ih hrest]
      cases hcase : test first with
      | true => simp [hcase, hfirst]
      | false => simp [hcase]

theorem resolveBufferKey_eq_iff {worker : OffloadWorker RequestId κ} (hown : worker.OwnKeys) {pair : Pair}
    (hlive : (worker.sparseKvCpuBuffers pair.prefillId).isSome) :
    resolveBufferKey pair.decodeId worker.requestIdToBufferKey = pair.prefillId ↔
      ∀ reqId ∈ (worker.requestIdToBufferKey.map Prod.fst).takeWhile (· ≠ pair.prefillId),
        requestUuid reqId ≠ requestUuid pair.prefillId := by
  have hmem := hown.known _ hlive
  have htest : decide (requestUuid pair.prefillId = requestUuid pair.decodeId) = true := by
    rw [pair.shared]
    exact decide_eq_true rfl
  have hfind := @find?_eq_some_iff_takeWhile _ _ hmem
    (fun reqId ↦ decide (requestUuid reqId = requestUuid _)) htest
  have hmap : (worker.requestIdToBufferKey.map Prod.fst).find?
      (fun reqId ↦ decide (requestUuid reqId = requestUuid pair.decodeId)) =
      (worker.requestIdToBufferKey.find?
        fun entry ↦ decide (requestUuid entry.1 = requestUuid pair.decodeId)).map Prod.fst := by
    rw [find?_map]
    rfl
  simp only [decide_eq_false_iff_not, pair.shared] at hfind hmap
  rw [← hfind, hmap]
  unfold resolveBufferKey
  simp only [pair.shared]
  cases hentry : worker.requestIdToBufferKey.find?
      fun entry ↦ decide (requestUuid entry.1 = requestUuid pair.prefillId) with
  | none =>
    have hnone := find?_eq_none.1 hentry
    obtain ⟨entry, hentryMem, hfst⟩ := mem_map.1 hmem
    have hsame : decide (requestUuid entry.1 = requestUuid pair.prefillId) = true := by
      rw [hfst]
      exact decide_eq_true rfl
    exact absurd hsame (hnone entry hentryMem)
  | some entry =>
    simp only [Option.map_some, Option.some.injEq]
    rw [hown.own entry (mem_of_find?_eq_some hentry)]

/-- When remote attention reads only the buffer of the requester. -/
theorem readsOwnBuffers_iff (config : OffloadConfig) {events : List (OffloadEvent RequestId κ)}
    (hevents : ∀ event ∈ events, KeepsIds event) {pairs : List Pair}
    (hlive : ∀ pair ∈ pairs, ((events.foldl (apply config) init).sparseKvCpuBuffers pair.prefillId).isSome) :
    ReadsOwnBuffers config (events.foldl (apply config) init) pairs ↔
      (events.foldl (apply config) init).FirstOfTheirPart pairs := by
  have hown := ownKeys_of_run config hevents
  generalize events.foldl (apply config) init = worker at *
  have hkey (reqId : RequestId) : bufferKey config.isPdDisaggregated worker.requests reqId = reqId :=
    bufferKey_of_ownId (hown.ownId reqId)
  constructor
  · intro hreads pair hpair
    apply (resolveBufferKey_eq_iff hown (hlive pair hpair)).1
    rw [hreads.own pair hpair, hkey]
  · intro hfirst
    have hresolve (pair : Pair) (hpair : pair ∈ pairs) :=
      (resolveBufferKey_eq_iff hown (hlive pair hpair)).2 (hfirst pair hpair)
    refine ⟨fun pair hpair ↦ ?_, fun pair hpair other hother hne ↦ ?_⟩
    · rw [hresolve pair hpair, hkey]
    · rw [hresolve pair hpair, hresolve other hother]
      exact hne

def pairConfig : OffloadConfig :=
  { isPdDisaggregated := true, isConsumer := false, firstN := 16, lastM := 64, maxModelLen := 128 }

/-- A step that sets long requests up. -/
def setupStep (ids : List RequestId) : OffloadStep Unit RequestId where
  chunkInfo := []
  reqIdToIdx := fun _ ↦ none
  batch :=
    { numReqs := 0, numTokens := 0, queryStartLoc := fun _ ↦ 0, positions := fun _ ↦ 0
      monotone := monotone_const, covered := le_rfl }
  keyStates := fun _ ↦ ()
  nelssaLongMask := ids.map fun reqId ↦ (reqId, true)
  maxTotalLen := fun _ ↦ 128

/-- An id with a part of the client and a number. -/
def sampleId (part number : Char) : RequestId := ['c', 'm', 'p', 'l', '-', part, '-', number]

/-- The decode side sends the id of the prefill request. -/
def samplePair (part number : Char) : Pair := ⟨sampleId part number, sampleId part number, rfl⟩

/-- Two requests of different clients, the first one cleaned up and set up again. -/
theorem readsOwnBuffers_clients : ReadsOwnBuffers pairConfig
    ([.forward (setupStep [sampleId 'a' '0', sampleId 'b' '0']), .cleanup (sampleId 'a' '0'),
      .forward (setupStep [sampleId 'a' '0'])].foldl (apply pairConfig) init)
    [samplePair 'a' '0', samplePair 'b' '0'] := by
  apply (readsOwnBuffers_iff pairConfig _ _).2
  · unfold FirstOfTheirPart
    decide
  · simp [KeepsIds]
  · decide

/-- Two samples of one client: both read the buffer of the first one, also after it has finished. -/
theorem not_readsOwnBuffers_samples :
    resolveBufferKey (sampleId 'a' '1') (([.forward (setupStep [sampleId 'a' '0', sampleId 'a' '1'])] :
      List (OffloadEvent RequestId Unit)).foldl (apply pairConfig) init).requestIdToBufferKey =
        sampleId 'a' '0' ∧
    ¬ ReadsOwnBuffers pairConfig (([.forward (setupStep [sampleId 'a' '0', sampleId 'a' '1'])] :
      List (OffloadEvent RequestId Unit)).foldl (apply pairConfig) init)
      [samplePair 'a' '0', samplePair 'a' '1'] := by
  refine ⟨by decide, fun hreads ↦ ?_⟩
  have hown := hreads.own (samplePair 'a' '1') (by simp)
  exact absurd hown (by decide)

end OffloadWorker

end Nelssa.Worker.Offload
