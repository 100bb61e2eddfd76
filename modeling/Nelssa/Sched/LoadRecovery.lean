import Mathlib.Data.List.ProdSigma
import Nelssa.Sched.SlotGrants

/-!
# Recovery from failed loads

Runs of the scheduler in which workers report blocks that they could not load. With the recompute policy
the affected requests compute the blocks again in later steps, and the blocks keep their entries in the
prefix cache. Until a step writes all slots of such a block, no request may be given a token behind it
and no lookup may find it.

This holds along every run in which only blocks outside of the prefix cache fail, each of them in the
table of one request, and in which no call preempts a request that it has scheduled. A cached block that
failed is found by the next request with the same tokens, before the affected request has computed it.
-/

namespace Nelssa.Sched

open Nelssa.Core Foundation.Loops Foundation.Runs Foundation.SlotViews
open List hiding min

variable {ρ ε : Type*} [LinearOrder ρ]

attribute [local instance] lawfulBEq_of_linearOrder

/-! ## Runs with failed loads -/

/-- A change of the scheduler, or a report about the step that was given the tokens. -/
inductive RecoveryOp (ε ρ : Type*) where
  | change (op : SchedulerOp (ε × Loads ρ) ρ)
  | invalidBlocks (invalidBlockIds : List ℕ) (numScheduledTokens : AList (fun _ : ρ ↦ ℤ))

namespace Scheduler

/-- A step writes the slots of its tokens. -/
def writeSlots (sched : Scheduler (ε × Loads ρ) ρ) (written : List (ℕ × ℕ)) : Scheduler (ε × Loads ρ) ρ :=
  { sched with environment := (sched.environment.1, sched.environment.2.write written) }

/-- The data of the blocks is invalid. -/
def failBlocks (sched : Scheduler (ε × Loads ρ) ρ) (blockSize : ℕ) (invalidBlockIds : List ℕ) :
    Scheduler (ε × Loads ρ) ρ :=
  { sched with environment := (sched.environment.1, { sched.environment.2 with
      invalid := (invalidBlockIds ×ˢ List.range blockSize) ++ sched.environment.2.invalid }) }

variable (config : SchedulerConfig) (env : Environment ε ρ) (sched : Scheduler (ε × Loads ρ) ρ)

/-- One change, with the record of invalid slots. -/
def applyRecovery : RecoveryOp ε ρ → Scheduler (ε × Loads ρ) ρ
  | .change .schedule => match sched.schedule config (env.tracked config.blockSize) with
    | .error _ => sched
    | .ok (final, after) =>
      after.writeSlots (final.sched.scheduledSlots config final.numScheduledTokens)
  | .change op => sched.apply config (env.tracked config.blockSize) op
  | .invalidBlocks invalidBlockIds numScheduledTokens =>
    match sched.handleInvalidBlocks config true invalidBlockIds numScheduledTokens with
    | .error _ => sched
    | .ok (_, after) => after.failBlocks config.blockSize invalidBlockIds

/-- A call gives no request a token behind a block with an invalid slot that the step does not write. The
other requests, among them those that found blocks and wait for a load, count no such block as
computed. -/
structure ReadsValid (scheduled : AList (fun _ : ρ ↦ ℤ)) : Prop where
  tokens : ∀ id numTokens, scheduled.lookup id = some numTokens → ∀ index block,
    (sched.kvCacheManager.table id)[index]? = some block →
    ((index + 1) * config.blockSize : ℕ) < (sched.requests id).numComputedTokens + numTokens →
    ∀ offset < config.blockSize, (block, offset) ∈ sched.environment.2.invalid →
      (block, offset) ∈ sched.scheduledSlots config scheduled
  computed : ∀ id, id ∉ scheduled → ∀ index block, (sched.kvCacheManager.table id)[index]? = some block →
    (index + 1) * config.blockSize ≤ (sched.requests id).numComputedTokens →
    ∀ offset < config.blockSize, (block, offset) ∈ sched.environment.2.invalid →
      (block, offset) ∈ sched.scheduledSlots config scheduled

/-- What a change may do: no lookup finds an invalid block, a call reads valid data, and a report takes
the affected requests back. -/
structure RecoverySafe (op : RecoveryOp ε ρ) : Prop where
  lookups : ∀ id req blocks numFound,
    env.getComputedBlocks sched.kvCacheManager id req = .ok (some blocks, numFound) →
    ∀ column ∈ blocks, ∀ block ∈ column, ∀ offset < config.blockSize,
      (block, offset) ∉ sched.environment.2.invalid
  calls : op = .change .schedule → ∀ final after,
    sched.schedule config (env.tracked config.blockSize) = .ok (final, after) →
    final.sched.ReadsValid config final.numScheduledTokens
  reports : ∀ invalidBlockIds numScheduledTokens, op = .invalidBlocks invalidBlockIds numScheduledTokens →
    ∀ failed after, sched.handleInvalidBlocks config true invalidBlockIds numScheduledTokens =
      .ok (failed, after) →
    sched.ResetsAffected config sched.asyncLoadReqs invalidBlockIds numScheduledTokens after.requests ∧
      sched.ResetsAffected config sched.running invalidBlockIds numScheduledTokens after.requests

/-! ## When a report can be recovered from -/

/-- The blocks are not in the prefix cache and no two requests share one of them. The requests that count
tokens of such a block as computed are scanned up to it. -/
structure Recoverable (invalidBlockIds : List ℕ) (numScheduledTokens : AList (fun _ : ρ ↦ ℤ)) : Prop where
  unpublished : ∀ block ∈ invalidBlockIds, ¬ sched.kvCacheManager.blockPool.Published block
  unshared : ∀ id other, id ≠ other → ∀ block ∈ invalidBlockIds,
    block ∈ sched.kvCacheManager.table id → block ∉ sched.kvCacheManager.table other
  scanned : ∀ id, ∀ entry ∈ (sched.kvCacheManager.table id).zipIdx, entry.1 ∈ invalidBlockIds →
    entry.2 * config.blockSize < (sched.requests id).numComputedTokens →
    (id ∈ sched.asyncLoadReqs ∨ id ∈ sched.running) ∧
      entry.2 < numBlocksOf config (reqNumComputedTokens numScheduledTokens (sched.requests id) id)
  counts : ∀ entry ∈ numScheduledTokens.entries, 0 ≤ entry.2

/-- The changes that keep invalid data from being read. The updates of the other methods hand out no
block and add no computed tokens. -/
def Recovers : RecoveryOp ε ρ → Prop
  | .change .schedule => sched.VictimsBehind config (env.tracked config.blockSize)
  | .change (.update requests kvCacheManager environment finished failed) =>
    sched.Legal (.update requests kvCacheManager environment finished failed) ∧
      Eases config ∅ sched { sched with
        requests, kvCacheManager, environment
        finishedRecvingKvReqIds := finished, failedRecvingKvReqIds := failed }
  | .change op => sched.Legal op
  | .invalidBlocks invalidBlockIds numScheduledTokens =>
    sched.Recoverable config invalidBlockIds numScheduledTokens

/-! ## One change -/

variable {config env sched} {useEagle : Bool} {skipReadingPrefixCache : ρ → Bool}
  {after : Scheduler (ε × Loads ρ) ρ} {scheduled : AList (fun _ : ρ ↦ ℤ)}

theorem written_empty (sched : Scheduler (ε × Loads ρ) ρ) (id : ρ) :
    (sched.slotView config ∅).written id = (sched.requests id).numComputedTokens :=
  written_of_notMem (AList.notMem_empty id)

theorem invalid_empty {slot : ℕ × ℕ} :
    (sched.slotView config ∅).invalid slot ↔ slot ∈ sched.environment.2.invalid := by
  refine and_iff_left fun hslot ↦ ?_
  obtain ⟨_, _, hlookup, -⟩ := mem_scheduledSlots.1 hslot
  cases hlookup

theorem computed_updateAfterSchedule (id : ρ) :
    ((sched.updateAfterSchedule scheduled).requests id).numComputedTokens =
      (sched.slotView config scheduled).written id := by
  simp only [updateAfterSchedule, slotView]
  cases scheduled.lookup id with
  | none => simp
  | some numTokens => rfl

section

variable (hsound : sched.SlotsSound config scheduled)
include hsound

theorem SlotsSound.writeSlots :
    ((sched.updateAfterSchedule scheduled).writeSlots
      (sched.scheduledSlots config scheduled)).SlotsSound config ∅ := by
  let final := (sched.updateAfterSchedule scheduled).writeSlots (sched.scheduledSlots config scheduled)
  have hwritten (id : ρ) :
      (final.slotView config ∅).written id = (sched.slotView config scheduled).written id :=
    (written_empty final id).trans (computed_updateAfterSchedule id)
  have hinval (slot : ℕ × ℕ) (hslot : (final.slotView config ∅).invalid slot) :
      (sched.slotView config scheduled).invalid slot := by
    obtain ⟨hmem, hkept⟩ := mem_filter.1 (invalid_empty.1 hslot)
    exact ⟨hmem, of_decide_eq_true hkept⟩
  refine ⟨hsound.unitary, hsound.clean.change hinval (fun id ↦ ?_) fun _ ↦ .inl, fun id ↦ ?_⟩
  · exact (hsound.clean.readable id).of_le hinval rfl (hwritten id).le
  · rw [hwritten]
    exact hsound.backed id

theorem SlotsSound.readsValid : sched.ReadsValid config scheduled := by
  have hread {id : ρ} {index block offset : ℕ} (hblock : (sched.kvCacheManager.table id)[index]? = some block)
      (hfull : (index + 1) * config.blockSize ≤ (sched.slotView config scheduled).written id)
      (hoff : offset < config.blockSize) (hinval : (block, offset) ∈ sched.environment.2.invalid) :
      (block, offset) ∈ sched.scheduledSlots config scheduled := by
    by_contra hkept
    exact (hsound.clean.readable id).block hblock hfull hoff ⟨hinval, hkept⟩
  constructor
  · intro id numTokens hlookup index block hblock _ offset hoff hinval
    refine hread hblock ?_ hoff hinval
    simp only [slotView, hlookup, Option.getD_some]
    omega
  · intro id hid index block hblock hcomp offset hoff hinval
    refine hread hblock ?_ hoff hinval
    rw [written_of_notMem hid]
    exact hcomp

end

/-- The requests that are affected by a report go back in front of its blocks. -/
theorem SlotsSound.handleInvalidBlocks (hsched : sched.WellFormed config)
    (hsound : sched.SlotsSound config ∅) {invalidBlockIds : List ℕ}
    (hreport : sched.Recoverable config invalidBlockIds scheduled) {failed : List ρ}
    (hhandle : sched.handleInvalidBlocks config true invalidBlockIds scheduled = .ok (failed, after)) :
    (after.failBlocks config.blockSize invalidBlockIds).SlotsSound config ∅ := by
  obtain ⟨hkv, henv, hasync, hrun, hcomp⟩ := resetsAffected_handleInvalidBlocks hsched hhandle
  have hcounts (id : ρ) (numTokens : ℤ) (hlookup : scheduled.lookup id = some numTokens) :
      0 ≤ numTokens := hreport.counts ⟨id, numTokens⟩ (AList.mem_lookup_iff.1 hlookup)
  have hle := hcomp hcounts
  let final := after.failBlocks config.blockSize invalidBlockIds
  have htable (id : ρ) := congrArg (fun kv ↦ kv.table id) hkv
  have hinval (slot : ℕ × ℕ) (hslot : (final.slotView config ∅).invalid slot) :
      slot.1 ∈ invalidBlockIds ∨ slot ∈ sched.environment.2.invalid := by
    rcases mem_append.1 (invalid_empty.1 hslot) with hnew | hold
    · exact .inl (mem_product.1 hnew).1
    · rw [henv] at hold
      exact .inr hold
  -- An affected request that is scanned up to a reported block does not count it any more.
  have hreset (id : ρ) (index block : ℕ) (hblock : (sched.kvCacheManager.table id)[index]? = some block)
      (hmem : block ∈ invalidBlockIds) :
      (after.requests id).numComputedTokens ≤ index * config.blockSize := by
    by_contra hlong
    have hentry := mk_mem_zipIdx_iff_getElem?.2 hblock
    obtain ⟨hscanned, hidx⟩ := hreport.scanned id (block, index) hentry hmem
      (lt_of_lt_of_le (not_le.1 hlong) (hle id))
    have hscan : (sched.scannedBlocks config scheduled id)[index]? = some block := by
      rw [scannedBlocks, getElem?_take_of_lt hidx]
      exact hblock
    have hfirst (other : ρ) (hne : other ≠ id) : block ∉ sched.scannedBlocks config scheduled other :=
      fun hother ↦ hreport.unshared other id hne block hmem (mem_of_mem_take hother) (mem_of_getElem? hblock)
    have hearlier {ids earlier later : List ρ} (hnodup : ids.Nodup) (hids : ids = earlier ++ id :: later)
        (other : ρ) (hother : other ∈ earlier) : block ∉ sched.scannedBlocks config scheduled other := by
      refine hfirst other fun hsame ↦ ?_
      rw [hids] at hnodup
      exact disjoint_of_nodup_append hnodup hother (hsame ▸ mem_cons_self)
    rcases hscanned with hid | hid
    · obtain ⟨earlier, later, hids⟩ := append_of_mem hid
      exact hlong (hasync earlier id later hids index block hscan hmem
        (hearlier (nodup_asyncLoadReqs hsched) hids))
    · obtain ⟨earlier, later, hids⟩ := append_of_mem hid
      exact hlong (hrun earlier id later hids index block hscan hmem (hearlier hsched.nodup_running hids))
  refine ⟨hkv ▸ hsound.unitary, ⟨fun id pos block hpos hblock hslot ↦ ?_,
    fun block offset hpublished hoff hslot ↦ ?_⟩, fun id ↦ ?_⟩
  · have hidx : (sched.kvCacheManager.table id)[pos / config.blockSize]? = some block := by
      rw [← htable]
      exact hblock
    rcases hinval _ hslot with hnew | hold
    · have hstart := hreset id _ block hidx hnew
      exact absurd (hpos.trans_le hstart) (not_lt.2 (Nat.div_mul_le_self _ _))
    · refine hsound.clean.readable id pos block ?_ hidx (invalid_empty.2 hold)
      exact hpos.trans_le (hle id)
  · have hkept : sched.kvCacheManager.blockPool.Published block := by
      rw [← hkv]
      exact hpublished
    rcases hinval _ hslot with hnew | hold
    · exact hreport.unpublished block hnew hkept
    · exact hsound.clean.published block offset hkept hoff (invalid_empty.2 hold)
  · have hbacked := hsound.backed id
    change min (after.requests id).numComputedTokens after.kvCacheManager.maxModelLen ≤
      (after.kvCacheManager.table id).length * config.blockSize
    rw [hkv]
    exact (min_le_min_right _ (hle id)).trans hbacked

variable {op : SchedulerOp (ε × Loads ρ) ρ}

theorem eases_apply (hsound : sched.SlotsSound config ∅) (hop : sched.Recovers config env (.change op))
    (hcall : op ≠ .schedule) :
    Eases config ∅ sched (sched.apply config (env.tracked config.blockSize) op) := by
  have hsame (after : Scheduler (ε × Loads ρ) ρ) (hafter : sched.SameSlots after) :
      Eases config ∅ sched after := hafter.eases hsound.unitary
  cases op with
  | update requests kvCacheManager environment finished failed => exact hop.2
  | enqueue id =>
    apply hsame
    unfold Scheduler.apply enqueueWaitingRequest
    dsimp only
    split <;> exact ⟨rfl, fun _ ↦ rfl, rfl⟩
  | leaveRunning ids => exact hsame _ ⟨rfl, fun _ ↦ rfl, rfl⟩
  | leaveWaiting name ids =>
    apply hsame
    cases name <;> exact ⟨rfl, fun _ ↦ rfl, rfl⟩
  | setPauseState pauseState => exact hsame _ ⟨rfl, fun _ ↦ rfl, rfl⟩
  | preemptLast =>
    have hkept := hsame sched ⟨rfl, fun _ ↦ rfl, rfl⟩
    unfold Scheduler.apply preemptLast
    cases hlast : sched.running.getLast? with
    | none => exact hkept
    | some id =>
      dsimp only
      cases hpreempt : { sched with running := sched.running.dropLast }.preemptRequest
          (env.tracked config.blockSize) id with
      | error exn => exact hkept
      | ok after =>
        have hunitary : { sched with running := sched.running.dropLast }.kvCacheManager.IsUnitary
            config.blockSize := hsound.unitary
        exact { eases_preemptRequest hunitary (AList.notMem_empty id) hpreempt with }
  | schedule => exact absurd rfl hcall

/-- The queues are well formed and nobody reads invalid slots. -/
structure RecoveryInvariant (config : SchedulerConfig) (sched : Scheduler (ε × Loads ρ) ρ) : Prop where
  wellFormed : sched.WellFormed config
  sound : sched.SlotsSound config ∅

theorem RecoveryInvariant.change (hinv : sched.RecoveryInvariant config)
    (hop : sched.Recovers config env (.change op)) (hcall : op ≠ .schedule) :
    (sched.apply config (env.tracked config.blockSize) op).RecoveryInvariant config := by
  have hlegal : sched.Legal op := by
    cases op with
    | update requests kvCacheManager environment finished failed => exact hop.1
    | schedule => exact absurd rfl hcall
    | enqueue id => exact hop
    | leaveRunning ids => exact hop
    | leaveWaiting name ids => exact hop
    | preemptLast => exact hop
    | setPauseState pauseState => exact hop
  exact ⟨hinv.wellFormed.apply hlegal, hinv.sound.of_eases (eases_apply hinv.sound hop hcall)⟩

section

variable (henv : env.LooksUp useEagle skipReadingPrefixCache) (hencoder : env.EncoderNonneg)
  {op : RecoveryOp ε ρ} (hinv : sched.RecoveryInvariant config) (hop : sched.Recovers config env op)
include henv hencoder hinv hop

theorem RecoveryInvariant.apply : (sched.applyRecovery config env op).RecoveryInvariant config := by
  cases op with
  | change op =>
    by_cases hcall : op = .schedule
    · subst hcall
      unfold applyRecovery
      cases hschedule : sched.schedule config (env.tracked config.blockSize) with
      | error exn => exact hinv
      | ok result =>
        obtain ⟨hfinal, hafter⟩ := slotsSound_schedule henv hencoder hinv.wellFormed hop hinv.sound hschedule
        refine ⟨{ wellFormed_schedule hinv.wellFormed hschedule with }, ?_⟩
        dsimp only
        rw [hafter]
        exact hfinal.writeSlots
    · have happly : sched.applyRecovery config env (.change op) =
          sched.apply config (env.tracked config.blockSize) op := by
        cases op with
        | schedule => exact absurd rfl hcall
        | _ => rfl
      rw [happly]
      exact hinv.change hop hcall
  | invalidBlocks invalidBlockIds numScheduledTokens =>
    unfold applyRecovery
    dsimp only
    cases hhandle : sched.handleInvalidBlocks config true invalidBlockIds numScheduledTokens with
    | error exn => exact hinv
    | ok result =>
      obtain ⟨hstat, hrun, hwait, hskipped⟩ := handleInvalidBlocks_cases hhandle
      refine ⟨⟨?_, fun id hid ↦ ?_, ?_⟩, hinv.sound.handleInvalidBlocks hinv.wellFormed hop hhandle⟩
      · change (result.2.running ++ (result.2.waiting.members ++ result.2.skippedWaiting.members)).Nodup
        rw [hrun, hwait, hskipped]
        exact hinv.wellFormed.nodup
      · change (result.2.requests id).status = .running
        rw [hstat]
        exact hinv.wellFormed.running id (hrun ▸ hid)
      · change result.2.running.length ≤ config.maxNumRunningReqs
        rw [hrun]
        exact hinv.wellFormed.bounded

theorem RecoveryInvariant.safe : sched.RecoverySafe config env op := by
  refine ⟨?_, ?_, ?_⟩
  · intro id req blocks numFound hlookup column hcol block hblock offset hoff hslot
    rw [henv] at hlookup
    obtain ⟨found, hfound, -, hpublished⟩ :=
      KVCacheManager.published_of_getComputedBlocks hinv.sound.unitary hlookup
    have hblocks : blocks = [found] := by
      rcases hfound with ⟨hnone, -⟩ | hsome
      · cases hnone
      · exact Option.some.inj hsome
    rw [hblocks, mem_singleton] at hcol
    exact hinv.sound.clean.published block offset (hpublished block (hcol ▸ hblock)) hoff
      (invalid_empty.2 hslot)
  · rintro rfl final after hschedule
    exact (slotsSound_schedule henv hencoder hinv.wellFormed hop hinv.sound hschedule).1.readsValid
  · rintro invalidBlockIds numScheduledTokens - failed after hhandle
    obtain ⟨-, -, hasync, hrun, -⟩ := resetsAffected_handleInvalidBlocks hinv.wellFormed hhandle
    exact ⟨hasync, hrun⟩

end

/-! ## Whole runs -/

theorem recoveryInvariant_init {requests : ρ → Request}
    (hreqs : ∀ id, (requests id).numComputedTokens = 0) {kvCacheManager : KVCacheManager ρ}
    (hkv : kvCacheManager.IsUnitary config.blockSize) (environment : ε) :
    (init config requests kvCacheManager (environment, {})).RecoveryInvariant config := by
  let start : Scheduler (ε × Loads ρ) ρ := init config requests kvCacheManager (environment, {})
  have hvalid (slot : ℕ × ℕ) : ¬ (start.slotView config ∅).invalid slot := fun hslot ↦
    not_mem_nil (invalid_empty.1 hslot)
  refine ⟨wellFormed_init config requests kvCacheManager _, hkv,
    ⟨fun id pos block _ _ ↦ hvalid _, fun block offset _ _ ↦ hvalid _⟩, fun id ↦ ?_⟩
  change min (requests id).numComputedTokens _ ≤ _
  rw [hreqs]
  exact Nat.zero_le _

/-- Along every run whose reports can be recovered from and whose calls preempt no request that they have
scheduled, invalid data is neither found nor read, for every budget, policy, connector and encoder. -/
theorem recoverySafe_of_run (config : SchedulerConfig) {env : Environment ε ρ}
    (henv : env.LooksUp useEagle skipReadingPrefixCache) (hencoder : env.EncoderNonneg)
    {requests : ρ → Request} (hrequests : ∀ id, (requests id).numComputedTokens = 0)
    {kvCacheManager : KVCacheManager ρ} (hkv : kvCacheManager.IsUnitary config.blockSize)
    (environment : ε) {ops : List (RecoveryOp ε ρ)}
    (hops : StepsMeet (applyRecovery config env) (Recovers config env)
      (init config requests kvCacheManager (environment, {})) ops) :
    StepsMeet (applyRecovery config env) (RecoverySafe config env)
      (init config requests kvCacheManager (environment, {})) ops := by
  apply stepsMeet_of_stepsMeet ?_ ?_ (recoveryInvariant_init hrequests hkv environment) hops
  · intro sched op hinv hop
    exact hinv.apply henv hencoder hop
  · intro sched op hinv hop
    exact hinv.safe henv hencoder hop

/-! ## A load that fails -/

/-- Blocks of two tokens, and one token of a long prompt in a step. -/
def recoveryConfig : SchedulerConfig :=
  { policy := .fcfs, maxNumRunningReqs := 2, maxNumScheduledTokens := 8, maxModelLen := 64, blockSize := 2
    blockSize_pos := Nat.two_pos, longPrefillTokenThreshold := 1 }

/-- The connector loads two blocks for the request 0 while the step runs. -/
def loadingEnvironment : Environment Unit (Fin 2) :=
  { tryScheduleEncoderInputs := fun state _ _ _ _ budget ↦
      ({ inputs := [], numNewTokens := 0, computeBudget := budget, externalLoads := [] }, state)
    numNewTokens_le := fun _ _ _ _ _ _ ↦ le_max_right _ _
    allocateEncoder := fun state _ _ ↦ state
    freeEncoder := fun state _ ↦ state
    grammarReady := fun _ _ ↦ false
    getComputedBlocks := fun kv _ req ↦
      kv.getComputedBlocks false false req.blockHashes req.numTokens
    connector := some
      { getNumNewMatchedTokens := fun state id _ _ ↦ ((some (if id = 0 then 4 else 0), false), state)
        updateStateAfterAlloc := fun state _ _ _ ↦ state } }

/-- Two requests with the same six tokens. -/
def loadingRequest : Request :=
  { numPromptTokens := 6, numTokens := 6, maxTokens := 8, blockHashes := [[1], [2], [3]] }

def loadingManager (enableCaching : Bool) (pool : BlockPool) : KVCacheManager (Fin 2) :=
  { maxModelLen := 64, enableCaching, blockPool := pool
    singleTypeManagers :=
      [.nelssa (.init ⟨.fullAttention, 2, Nat.two_pos⟩ enableCaching 0 1 1 none)
        (.init recoveryConfig.nelssaConfig)] }

def loadingStart (enableCaching : Bool) (pool : BlockPool) : Scheduler (Unit × Loads (Fin 2)) (Fin 2) :=
  init recoveryConfig (fun _ ↦ loadingRequest) (loadingManager enableCaching pool) ((), {})

/-- The request 0 is scheduled one token behind the loaded ones, and its first block turns out to be
invalid. Then the request 1 arrives. -/
def failedLoadOps : List (RecoveryOp Unit (Fin 2)) :=
  [.change (.enqueue 0), .change .schedule,
    .invalidBlocks [1] ((∅ : AList (fun _ : Fin 2 ↦ ℤ)).insert 0 1), .change (.enqueue 1)]

/-- The state in which the next step is scheduled. -/
def failedLoadState (enableCaching : Bool) (pool : BlockPool) : Scheduler (Unit × Loads (Fin 2)) (Fin 2) :=
  failedLoadOps.foldl (applyRecovery recoveryConfig loadingEnvironment) (loadingStart enableCaching pool)

/-- Without prefix caching both requests start in front of their first block. -/
theorem recoverySafe_uncached : ∃ pool, BlockPool.init 9 false 2 = .ok pool ∧
    (∃ final after, (failedLoadState false pool).schedule recoveryConfig
      (loadingEnvironment.tracked recoveryConfig.blockSize) = .ok (final, after) ∧
      final.sched.scheduledSlots recoveryConfig final.numScheduledTokens = [(4, 0), (1, 0)] ∧
      final.sched.environment.2.invalid = [(1, 0), (1, 1)]) ∧
    StepsMeet (applyRecovery recoveryConfig loadingEnvironment)
      (RecoverySafe recoveryConfig loadingEnvironment) (loadingStart false pool)
      (failedLoadOps ++ [.change .schedule]) := by
  refine ⟨_, rfl, ⟨_, _, rfl, by decide, by decide⟩, ?_⟩
  have henv : loadingEnvironment.LooksUp false fun _ ↦ false := fun _ _ _ ↦ rfl
  have hunitary (pool : BlockPool) : (loadingManager false pool).IsUnitary recoveryConfig.blockSize :=
    ⟨_, rfl, trivial, rfl⟩
  refine recoverySafe_of_run recoveryConfig henv (fun _ _ _ _ _ _ _ ↦ le_rfl) (fun _ ↦ rfl) (hunitary _) ()
    ⟨?_, ?_, ⟨?_, ?_, ?_, ?_⟩, ?_, ?_, trivial⟩
  · unfold Recovers
    decide
  · refine victimsBehind_of_victimsLast ⟨by decide, by decide, by decide⟩ ?_
    unfold VictimsLast
    decide
  · rintro block - ⟨key, hkey⟩
    exact absurd hkey not_mem_nil
  · decide
  · decide
  · decide
  · unfold Recovers
    decide
  · refine victimsBehind_of_victimsLast ⟨by decide, by decide, by decide⟩ ?_
    unfold VictimsLast
    decide

/-- With prefix caching the block that failed is found by the request 1. The next step recomputes one
token of it and gives the request 1 a token behind it. -/
theorem not_recoverySafe_cached : ∃ pool, BlockPool.init 9 true 2 = .ok pool ∧
    (∃ call, (failedLoadState true pool).schedule recoveryConfig
      (loadingEnvironment.tracked recoveryConfig.blockSize) = .ok call ∧
      call.1.sched.kvCacheManager.table 1 = [1, 2, 4] ∧
      (call.1.sched.requests 1).numComputedTokens = 4 ∧ call.1.numScheduledTokens.lookup 1 = some 1 ∧
      call.1.sched.scheduledSlots recoveryConfig call.1.numScheduledTokens = [(4, 0), (1, 0)] ∧
      call.1.sched.environment.2.invalid = [(1, 0), (1, 1)]) ∧
    ¬ StepsMeet (applyRecovery recoveryConfig loadingEnvironment)
      (RecoverySafe recoveryConfig loadingEnvironment) (loadingStart true pool)
      (failedLoadOps ++ [.change .schedule]) := by
  refine ⟨_, rfl, ?_⟩
  rw [and_iff_left_of_imp]
  · apply exists_ok_of_test
    decide +kernel
  · rintro ⟨call, hschedule, htable, hcomputed, htokens, hslots, hinvalid⟩ hsafe
    have hread := hsafe.2.2.2.2.1.calls rfl call.1 call.2 hschedule
    have hwritten := hread.tokens 1 1 htokens 0 1 (by rw [htable]; rfl) (by rw [hcomputed]; decide) 1
      (by decide) (by rw [hinvalid]; decide)
    rw [hslots] at hwritten
    exact absurd hwritten (by decide)

end Scheduler

end Nelssa.Sched
