import Nelssa.Sched.RequestLifecycle
import Nelssa.Sched.Rosters

/-!
# Every request is in its queue

The calls of the engine keep the roster of the scheduler valid, except for one: an output that stops a
request which does not run any more is handled as if the request were finished and in the waiting queue.
In every run in which outputs stop requests in place, every unfinished request is in exactly one queue
after every call.
-/

namespace Nelssa.Sched

open Nelssa.Core Foundation.Loops Foundation.Runs Function List RequestScheduler Scheduler Roster

variable {ρ ε : Type*} [LinearOrder ρ] {config : SchedulerConfig} {env : Environment ε ρ}

attribute [local instance] lawfulBEq_of_linearOrder

/-! ## The roster of a scheduler -/

def RequestScheduler.roster (sched : RequestScheduler ε ρ) : Roster ρ :=
  { status := fun id ↦ (sched.requests id).status
    running := sched.running
    waiting := sched.waiting.members
    skippedWaiting := sched.skippedWaiting.members
    requestIds := sched.requestIds
    numWaitingForStreamingInput := sched.numWaitingForStreamingInput }

/-- Every unfinished request is in one queue once, and it is in the running list if and only if it has
the status of a running request. No finished request is in a queue, and the sessions that wait for input
are counted. -/
structure RequestScheduler.Membership (sched : RequestScheduler ε ρ) : Prop where
  once : ∀ id, sched.IsLive id → sched.queued.count id = 1
  running : ∀ id, sched.IsLive id → (id ∈ sched.running ↔ (sched.requests id).status = .running)
  finished : ∀ id ∈ sched.queued, (sched.requests id).status ≠ .finished
  streaming : sched.numWaitingForStreamingInput =
    sched.requestIds.countP fun id ↦ (sched.requests id).status = .waitingForStreamingReq

variable {sched after : RequestScheduler ε ρ} {limit : ℕ} {moved : Scheduler ε ρ}

namespace Roster.Valid

theorem count_queued (sched : RequestScheduler ε ρ) (id : ρ) :
    sched.queued.count id = sched.roster.places id := by
  simp [queued, Roster.places, roster, add_assoc]

theorem membership (hvalid : sched.roster.Valid limit) : sched.Membership := by
  have hrun {id : ρ} (hmem : id ∈ sched.running) := (hvalid.sorted id).running hmem
  refine ⟨fun id hlive ↦ ?_, fun id hlive ↦ ⟨hrun, fun hstat ↦ ?_⟩, fun id hid hfin ↦ ?_, hvalid.streaming⟩
  · rw [count_queued, hvalid.places]
    exact if_pos hlive
  · have hcounts := hvalid.counts_of_running hlive hstat
    exact count_pos_iff.1 (by rw [show sched.running.count id = 1 from hcounts.1]; exact one_pos)
  · have hcount := count_pos_iff.2 hid
    rw [count_queued, hvalid.places] at hcount
    by_cases hlive : sched.roster.IsLive id
    · exact hlive.2 hfin
    · rw [if_neg hlive] at hcount
      exact lt_irrefl 0 hcount

theorem wellFormed (hvalid : sched.roster.Valid config.maxNumRunningReqs) :
    sched.toScheduler.WellFormed config := by
  refine ⟨nodup_iff_count_le_one.2 fun id ↦ ?_, fun id ↦ (hvalid.sorted id).running, hvalid.bounded⟩
  change sched.queued.count id ≤ 1
  rw [count_queued, hvalid.places]
  split
  · exact le_refl 1
  · exact Nat.zero_le 1

variable (hvalid : sched.roster.Valid limit)
include hvalid

theorem schedulerSorted : sched.toScheduler.Sorted :=
  ⟨fun id ↦ (hvalid.sorted id).running, fun id ↦ (hvalid.sorted id).waiting,
    fun id ↦ (hvalid.sorted id).skippedWaiting⟩

theorem of_moves (hmoves : sched.toScheduler.Moves moved) (hsorted : moved.Sorted)
    (hbounded : moved.running.length ≤ limit) :
    roster { sched with toScheduler := moved } |>.Valid limit := by
  let after : RequestScheduler ε ρ := { sched with toScheduler := moved }
  have hcount (id : ρ) : after.roster.places id = sched.roster.places id := by
    rw [← count_queued, ← count_queued]
    exact hmoves.queued.count_eq id
  have hlive (id : ρ) : after.roster.IsLive id ↔ sched.roster.IsLive id := by
    by_cases hid : id ∈ sched.queued
    · have hbefore : sched.roster.IsLive id := by
        by_contra hdead
        have hzero := hvalid.places id
        rw [if_neg hdead, ← count_queued] at hzero
        exact count_eq_zero.1 hzero hid
      refine iff_of_true ⟨hbefore.1, ?_⟩ hbefore
      rcases mem_queued.1 (hmoves.queued.mem_iff.2 hid) with hrun | hwait | hskip
      · change (moved.requests id).status ≠ _
        rw [hsorted.running id hrun]
        nofun
      · exact (hsorted.waiting id hwait).parked.2
      · exact (hsorted.skippedWaiting id hskip).2
    · change id ∈ sched.requestIds ∧ (moved.requests id).status ≠ _ ↔ _
      rw [hmoves.status id hid]
      rfl
  refine ⟨fun id ↦ ?_, fun id ↦ ?_, hvalid.keys, hbounded, ?_⟩
  · change after.roster.places id = if after.roster.IsLive id then 1 else 0
    simp only [hcount, hlive]
    exact hvalid.places id
  · exact ⟨hsorted.running id, hsorted.waiting id, hsorted.skippedWaiting id⟩
  · refine hvalid.streaming.trans (congrArg _ (countP_congr fun id _ ↦ ?_))
    simp only [decide_eq_true_eq]
    exact (hmoves.streaming id).symm

end Roster.Valid

/-! ## Finishing requests -/

variable {connectorDelays : ρ → Bool} {id : ρ}

namespace RequestScheduler

theorem freeBlocks_cases (hfree : sched.freeBlocks id = .ok after) :
    (sched.requests id).status = .finished ∧
      after.roster = { sched.roster with requestIds := sched.requestIds.erase id } ∧
      after.resumable = sched.resumable ∧ after.streamingQueue = sched.streamingQueue := by
  unfold freeBlocks at hfree
  split at hfree
  · cases hfree
  · next hfin =>
    dsimp only at hfree
    split at hfree
    · cases hfree
    · cases hfree
      exact ⟨not_not.1 hfin, rfl, rfl, rfl⟩

theorem freeRequest_cases {delayFreeBlocks : Bool}
    (hfree : sched.freeRequest env connectorDelays id delayFreeBlocks = .ok after) :
    (after.roster = sched.roster ∨
        after.roster = { sched.roster with requestIds := sched.requestIds.erase id }) ∧
      after.resumable = sched.resumable ∧ after.streamingQueue = sched.streamingQueue := by
  unfold freeRequest at hfree
  split at hfree
  · cases hfree
  · dsimp only at hfree
    split at hfree
    · cases hfree
    · split at hfree
      · cases hfree
        exact ⟨.inl rfl, rfl, rfl⟩
      · obtain ⟨-, hroster, hsessions⟩ := freeBlocks_cases hfree
        exact ⟨.inr hroster, hsessions⟩

theorem roster_setRequest (sched : RequestScheduler ε ρ) (id : ρ) (change : Request → Request) :
    roster { sched with toScheduler := sched.setRequest id change } =
      { sched.roster with
        status := update sched.roster.status id (change (sched.requests id)).status } := by
  have hstat : (fun other ↦ ((sched.setRequest id change).requests other).status) =
      update sched.roster.status id (change (sched.requests id)).status := by
    funext other
    by_cases hsame : other = id
    · rw [hsame, requests_setRequest_self, update_self]
    · rw [update_of_ne hsame]
      exact congrArg Request.status (update_of_ne hsame _ _)
  unfold roster
  rw [hstat]
  rfl

theorem roster_updateRequestAsSession (sched : RequestScheduler ε ρ) (id : ρ) (update : SessionUpdate) :
    (sched.updateRequestAsSession id update).roster = { sched.roster with
      status := Function.update sched.roster.status id .waiting
      numWaitingForStreamingInput := sched.numWaitingForStreamingInput -
        if (sched.requests id).status = .waitingForStreamingReq then 1 else 0 } :=
  congrArg (fun roster : Roster ρ ↦ { roster with
    numWaitingForStreamingInput := sched.numWaitingForStreamingInput -
      if (sched.requests id).status = RequestStatus.waitingForStreamingReq then 1 else 0 })
    (roster_setRequest sched id fun req ↦ req.extend update)

variable {ids : List ρ}

theorem valid_finishRequest (hvalid : (sched.roster.retire (id :: ids)).Valid limit)
    (hfinish : sched.finishRequest env connectorDelays id = .ok after) :
    (after.roster.retire ids).Valid limit := by
  obtain ⟨hroster, -⟩ := freeRequest_cases hfinish
  have hset := roster_setRequest sched id fun req ↦ { req with status := .finished }
  have hretire := sched.roster.retire_update id ids
  rcases hroster with hkept | herased
  · have hsame : after.roster.retire ids = sched.roster.retire (id :: ids) := by
      rw [hkept, ← hretire]
      exact congrArg (fun roster ↦ roster.retire ids) hset
    exact hsame ▸ hvalid
  · have hsame : after.roster.retire ids = { sched.roster.retire (id :: ids) with
        requestIds := sched.requestIds.erase id } := by
      rw [herased, ← hretire]
      exact congrArg (fun roster ↦ { roster.retire ids with requestIds := sched.requestIds.erase id }) hset
    exact hsame ▸ hvalid.erase (if_pos mem_cons_self)

section

variable (hvalid : sched.roster.Valid limit)
include hvalid

theorem nodup_running : sched.running.Nodup := by
  refine nodup_iff_count_le_one.2 fun id ↦ ?_
  have hplaces := hvalid.places id
  change sched.running.count id + _ + _ = _ at hplaces
  split at hplaces <;> omega

theorem count_leaveQueues (hlive : ∀ id ∈ ids, sched.IsLive id) (id : ρ) :
    (sched.leaveQueues ids).running.count id = (if id ∈ ids then 0 else sched.running.count id) ∧
    (sched.leaveQueues ids).waiting.members.count id =
      (if id ∈ ids then 0 else sched.waiting.members.count id) ∧
    (sched.leaveQueues ids).skippedWaiting.members.count id =
      (if id ∈ ids then 0 else sched.skippedWaiting.members.count id) := by
  have hrun := count_removeAll (nodup_running hvalid)
    (ids.filter fun id ↦ (sched.requests id).status = .running) id
  have hwait := (removeRequests_perm_of_ne_nil sched.waiting (requestLt sched.requests)
    (ids.filter fun id ↦ (sched.requests id).status ≠ .running)).count_eq id
  have hskipped := (removeRequests_perm_of_ne_nil sched.skippedWaiting (requestLt sched.requests)
    (ids.filter fun id ↦ (sched.requests id).status ≠ .running)).count_eq id
  rw [count_filter_notMem] at hwait hskipped
  simp only [mem_filter, decide_eq_true_eq] at hrun hwait hskipped
  by_cases hid : id ∈ ids
  · simp only [hid, true_and, if_true] at hrun hwait hskipped ⊢
    by_cases hstat : (sched.requests id).status = .running
    · obtain ⟨-, hnone, hnowhere⟩ := hvalid.counts_of_running (hlive id hid) hstat
      simp only [hstat, ne_eq, not_true_eq_false, if_true, if_false] at hrun hwait hskipped
      exact ⟨hrun, hwait.trans hnone, hskipped.trans hnowhere⟩
    · have hnone := count_eq_zero.2 fun h ↦ hstat ((hvalid.sorted id).running h)
      simp only [hstat, ne_eq, not_false_eq_true, if_true, if_false] at hrun hwait hskipped
      exact ⟨hrun.trans hnone, hwait, hskipped⟩
  · simp only [hid, false_and, if_false] at hrun hwait hskipped ⊢
    exact ⟨hrun, hwait, hskipped⟩

theorem valid_leaveQueues (hnodup : ids.Nodup) (hlive : ∀ id ∈ ids, sched.IsLive id) :
    ((sched.leaveQueues ids).roster.retire ids).Valid limit := by
  have hcounts := count_leaveQueues hvalid hlive
  refine ⟨fun id ↦ ?_, fun id ↦ ?_, hvalid.keys, (length_removeAll_le _ _).trans hvalid.bounded, ?_⟩
  · obtain ⟨hrun, hwait, hskipped⟩ := hcounts id
    change (sched.leaveQueues ids).running.count id + (sched.leaveQueues ids).waiting.members.count id +
      (sched.leaveQueues ids).skippedWaiting.members.count id = _
    rw [hrun, hwait, hskipped]
    by_cases hid : id ∈ ids
    · have hdead : ¬ ((sched.leaveQueues ids).roster.retire ids).IsLive id := fun h ↦ h.2 (if_pos hid)
      rw [if_pos hid, if_pos hid, if_pos hid, if_neg hdead]
    · have hsame : ((sched.leaveQueues ids).roster.retire ids).IsLive id ↔ sched.roster.IsLive id := by
        simp only [Roster.IsLive, retire, if_neg hid]
        rfl
      rw [if_neg hid, if_neg hid, if_neg hid]
      simp only [hsame]
      exact hvalid.places id
  · obtain ⟨hrun, hwait, hskipped⟩ := hcounts id
    by_cases hid : id ∈ ids
    · rw [if_pos hid] at hrun hwait hskipped
      exact ⟨fun h ↦ absurd h (count_eq_zero.1 hrun), fun h ↦ absurd h (count_eq_zero.1 hwait),
        fun h ↦ absurd h (count_eq_zero.1 hskipped)⟩
    · rw [if_neg hid] at hrun hwait hskipped
      have hstat : ((sched.leaveQueues ids).roster.retire ids).status id = sched.roster.status id :=
        if_neg hid
      have hsorted := hvalid.sorted id
      refine ⟨fun h ↦ ?_, fun h ↦ ?_, fun h ↦ ?_⟩
      · exact hstat.trans (hsorted.running (mem_of_count_eq hrun h))
      · exact hstat ▸ hsorted.waiting (mem_of_count_eq hwait h)
      · exact hstat ▸ hsorted.skippedWaiting (mem_of_count_eq hskipped h)
  · have hkeys : sched.requestIds.Nodup := hvalid.keys
    have hsplit := countP_add_countP_notMem hkeys hnodup (fun id hid ↦ (hlive id hid).1)
      fun id ↦ (sched.requests id).status = .waitingForStreamingReq
    have hretired : ((sched.leaveQueues ids).roster.retire ids).numStreaming =
        sched.requestIds.countP fun id ↦
          decide (id ∉ ids) && decide ((sched.requests id).status = .waitingForStreamingReq) := by
      refine countP_congr fun id _ ↦ ?_
      by_cases hid : id ∈ ids
      · simp [retire, hid]
      · simp [retire, hid, roster, leaveQueues]
    have hstreaming : sched.numWaitingForStreamingInput = sched.requestIds.countP fun id ↦
        (sched.requests id).status = .waitingForStreamingReq := hvalid.streaming
    change sched.numWaitingForStreamingInput - ((ids.filter fun id ↦
      (sched.requests id).status = .waitingForStreamingReq).length : ℤ) = _
    rw [← countP_eq_length_filter]
    omega

theorem valid_finishRequests {requestIds : Option (List ρ)}
    (hfinish : sched.finishRequests env connectorDelays requestIds = .ok after) :
    after.roster.Valid limit := by
  have hloop (ids : List ρ) (start : RequestScheduler ε ρ) (hstart : (start.roster.retire ids).Valid limit)
      (hfold : ids.foldlM (fun current id ↦ current.finishRequest env connectorDelays id) start = .ok after) :
      after.roster.Valid limit := by
    induction ids generalizing start with
    | nil =>
      cases hfold
      simpa [retire] using hstart
    | cons id rest ih =>
      obtain ⟨next, hnext, hrest⟩ := foldlM_cons_eq_ok_iff.1 hfold
      exact ih next (valid_finishRequest hstart hnext) hrest
  refine hloop _ _ (valid_leaveQueues hvalid ?_ ?_) hfinish
  · exact (nodup_dedup _).filter _
  · intro id hid
    exact of_decide_eq_true (mem_filter.1 hid).2

end

/-! ## Stopping a request -/

/-- The input with which a session goes on. -/
def nextUpdate (sched : RequestScheduler ε ρ) (id : ρ) : Option SessionUpdate :=
  ((sched.streamingQueue id).getD []).head?.join

/-- The request goes on with its next input when its output stops it. -/
def Continues (sched : RequestScheduler ε ρ) (id : ρ) (output : RequestOutput ε ρ) : Prop :=
  sched.resumable id = true ∧ output.grammarRejects = false ∧ (sched.nextUpdate id).isSome = true

instance (sched : RequestScheduler ε ρ) (id : ρ) (output : RequestOutput ε ρ) :
    Decidable (sched.Continues id output) := inferInstanceAs (Decidable (_ ∧ _))

/-- An output that stops a request which does not run finds it in the waiting queue, where it does not go
on with its next input, or in the other queue, where it does. -/
def StopsInPlace (sched : RequestScheduler ε ρ) (id : ρ) (output : RequestOutput ε ρ) : Prop :=
  sched.IsLive id → (sched.requests id).status ≠ .running → output.stops = true →
    if id ∈ sched.waiting.members then ¬ sched.Continues id output
    else sched.Continues id output ∧ (sched.requests id).status ≠ .waitingForStreamingReq

instance (sched : RequestScheduler ε ρ) (id : ρ) (output : RequestOutput ε ρ) :
    Decidable (sched.StopsInPlace id output) :=
  inferInstanceAs (Decidable (_ → _ → _ → ite _ _ _))

variable (sched : RequestScheduler ε ρ) (id : ρ)

theorem roster_enqueue_ready (hstat : isBlockedWaitingStatus (sched.requests id).status = false) :
    ∃ waiting : List ρ, waiting.Perm (id :: sched.roster.waiting) ∧
      roster { sched with toScheduler := sched.enqueueWaitingRequest id } =
        { sched.roster with waiting } := by
  refine ⟨_, sched.waiting.addRequest_perm (requestLt sched.requests) id, ?_⟩
  simp only [enqueueWaitingRequest, hstat]
  rfl

theorem roster_enqueue_blocked (hstat : isBlockedWaitingStatus (sched.requests id).status = true) :
    ∃ skippedWaiting : List ρ, skippedWaiting.Perm (id :: sched.roster.skippedWaiting) ∧
      roster { sched with toScheduler := sched.enqueueWaitingRequest id } =
        { sched.roster with skippedWaiting } := by
  refine ⟨_, sched.skippedWaiting.addRequest_perm (requestLt sched.requests) id, ?_⟩
  simp only [enqueueWaitingRequest, hstat]
  rfl

end RequestScheduler

namespace RequestScheduler

section

variable (hres : (if (sched.handleStoppedRequest id).1 then
  (sched.handleStoppedRequest id).2.freeRequest env connectorDelays id false
    else .ok (sched.handleStoppedRequest id).2) = .ok after)
include hres

theorem stopStep_of_handled (hfin : (sched.requests id).status = .finished) :
    sched.roster.StopStep (sched.resumable id = true ∧ (sched.nextUpdate id).isSome = true) id
      after.roster := by
  have hfree {handled : RequestScheduler ε ρ} (hsame : handled.roster = sched.roster)
      (hstop : ¬ (sched.resumable id = true ∧ (sched.nextUpdate id).isSome = true))
      (hres : handled.freeRequest env connectorDelays id false = .ok after) :
      sched.roster.StopStep (sched.resumable id = true ∧ (sched.nextUpdate id).isSome = true) id
        after.roster := by
    have hself : { sched.roster with status := update sched.roster.status id .finished } = sched.roster := by
      rw [← hfin]
      exact congrArg (fun status ↦ { sched.roster with status }) (update_eq_self id _)
    rw [← hsame] at hself ⊢
    obtain ⟨hkept | herased, -⟩ := freeRequest_cases hres
    · rw [hkept]
      nth_rewrite 2 [← hself]
      exact .finished hstop (.inl rfl)
    · rw [herased]
      nth_rewrite 2 [← hself]
      exact .finished hstop (.inr rfl)
  revert hres
  fun_cases sched.handleStoppedRequest id
  case case1 hresumable => exact hfree rfl fun h ↦ by simp [hresumable] at h
  case case2 hqueue => exact hfree rfl fun h ↦ by simp [nextUpdate, hqueue] at h
  case case3 hresumable update rest hqueue session =>
    rintro ⟨⟩
    have hroster : session.roster = { sched.roster with
        status := Function.update sched.roster.status id .waiting } := by
      unfold session
      rw [roster_updateRequestAsSession]
      simp [roster, hfin]
    have hstat : (session.requests id).status = .waiting := by
      change session.roster.status id = .waiting
      rw [hroster]
      exact update_self id _ _
    obtain ⟨_, hwait, hlast⟩ := roster_enqueue_ready session id (by rw [hstat]; rfl)
    rw [hlast, hroster]
    rw [hroster] at hwait
    exact .continued ⟨Bool.not_eq_false _ ▸ hresumable, by simp [nextUpdate, hqueue]⟩ hwait
  case case4 hqueue _ | case5 hqueue _ =>
    rintro ⟨⟩
    let waits : RequestScheduler ε ρ := { sched with
      toScheduler := sched.setRequest id fun req ↦ { req with status := .waitingForStreamingReq }
      numWaitingForStreamingInput := sched.numWaitingForStreamingInput + 1 }
    have hroster : waits.roster = { sched.roster with
        status := update sched.roster.status id .waitingForStreamingReq
        numWaitingForStreamingInput := sched.numWaitingForStreamingInput + 1 } :=
      congrArg (fun roster : Roster ρ ↦ { roster with
        numWaitingForStreamingInput := sched.numWaitingForStreamingInput + 1 })
        (roster_setRequest sched id fun req ↦ { req with status := .waitingForStreamingReq })
    have hstat : (waits.requests id).status = .waitingForStreamingReq := by
      change waits.roster.status id = .waitingForStreamingReq
      rw [hroster]
      exact update_self id _ _
    obtain ⟨_, hskipped, hlast⟩ := roster_enqueue_blocked waits id (by rw [hstat]; rfl)
    change StopStep _ _ _ (roster { waits with toScheduler := waits.enqueueWaitingRequest id })
    rw [hlast, hroster]
    rw [hroster] at hskipped
    exact .suspended (fun h ↦ by simp [nextUpdate, hqueue] at h) hskipped

theorem sessions_of_handled {other : ρ} (hne : other ≠ id) :
    after.resumable other = sched.resumable other ∧
      after.streamingQueue other = sched.streamingQueue other := by
  revert hres
  fun_cases sched.handleStoppedRequest id
  case case1 | case2 =>
    intro hres
    obtain ⟨-, hresumable, hstreaming⟩ := freeRequest_cases hres
    rw [hresumable, hstreaming]
    simp [hne]
  case case3 =>
    rintro ⟨⟩
    exact ⟨rfl, update_of_ne hne _ _⟩
  case case4 | case5 =>
    rintro ⟨⟩
    exact ⟨rfl, rfl⟩

end

end RequestScheduler

/-! ## The loop over the outputs -/

namespace OutputPass

variable {pass next : OutputPass ε ρ} {failedKvLoadReqIds : List ρ} {outputs : ρ → RequestOutput ε ρ}
  {numTokens : ℤ}

section

variable (sched : RequestScheduler ε ρ) (id : ρ) (output : RequestOutput ε ρ)

theorem roster_applyOutput :
    (applyOutput sched id output).roster = { sched.roster with
      status := if output.stops then update sched.roster.status id .finished
        else sched.roster.status } := by
  have hset := roster_setRequest sched id fun req ↦
    if output.stops then { output.change req with status := .finished } else output.change req
  refine .trans hset ?_
  by_cases hstops : output.stops = true
  · simp [hstops]
  · simp only [hstops, Bool.false_eq_true, if_false, output.status_change]
    have hself : update sched.roster.status id (sched.requests id).status =
        sched.roster.status := update_eq_self id _
    rw [hself]

theorem continues_applyOutput :
    ((applyOutput sched id output).resumable id = true ∧
      ((applyOutput sched id output).nextUpdate id).isSome = true) ↔ sched.Continues id output := by
  unfold applyOutput Continues
  cases output.grammarRejects with
  | true => simp
  | false => simp [nextUpdate]

end

/-- The roster once the stopped requests are removed. -/
def settled (pass : OutputPass ε ρ) : Roster ρ :=
  pass.sched.roster.settled pass.stoppedRunningReqs pass.stoppedPreemptedReqs

section

variable (hround : takeOutput env connectorDelays failedKvLoadReqIds outputs pass ⟨id, numTokens⟩ = .ok next)
include hround

theorem takeOutput_cases :
    (∀ other, other ≠ id → next.sched.resumable other = pass.sched.resumable other ∧
      next.sched.streamingQueue other = pass.sched.streamingQueue other) ∧
    ((next.sched.roster = pass.sched.roster ∧ next.stoppedRunningReqs = pass.stoppedRunningReqs ∧
      next.stoppedPreemptedReqs = pass.stoppedPreemptedReqs) ∨
    pass.sched.IsLive id ∧ (outputs id).stops = true ∧
      pass.sched.roster.StopStep (pass.sched.Continues id (outputs id)) id next.sched.roster ∧
      ((pass.sched.requests id).status = .running ∧
          next.stoppedRunningReqs = pass.stoppedRunningReqs ++ [id] ∧
          next.stoppedPreemptedReqs = pass.stoppedPreemptedReqs ∨
        (pass.sched.requests id).status ≠ .running ∧ next.stoppedRunningReqs = pass.stoppedRunningReqs ∧
          next.stoppedPreemptedReqs = pass.stoppedPreemptedReqs ++ [id])) := by
  have happlied (other : ρ) (hne : other ≠ id) :
      (applyOutput pass.sched id (outputs id)).resumable other = pass.sched.resumable other := by
    unfold applyOutput
    dsimp only
    split
    · exact update_of_ne hne _ _
    · rfl
  unfold takeOutput at hround
  dsimp only at hround
  split at hround
  · cases hround
  · split at hround
    · cases hround
      exact ⟨fun _ _ ↦ ⟨rfl, rfl⟩, .inl ⟨rfl, rfl, rfl⟩⟩
    · next hskip =>
      rw [not_or, not_not] at hskip
      have hroster := roster_applyOutput pass.sched id (outputs id)
      split at hround
      · next hstops =>
        obtain ⟨sched, hhandled, hnext⟩ := map_eq_ok_iff.1 hround
        rw [if_pos hstops] at hroster
        have hstat : ((applyOutput pass.sched id (outputs id)).requests id).status = .finished := by
          change (applyOutput pass.sched id (outputs id)).roster.status id = .finished
          rw [hroster]
          exact update_self id _ _
        have hstep := stopStep_of_handled hhandled hstat
        rw [hroster] at hstep
        have hstopped := hstep.of_finished (continues_applyOutput pass.sched id _)
        have hsessions (other : ρ) (hne : other ≠ id) :
            sched.resumable other = pass.sched.resumable other ∧
              sched.streamingQueue other = pass.sched.streamingQueue other :=
          (sessions_of_handled hhandled hne).imp_left fun hsame ↦ hsame.trans (happlied other hne)
        rw [← hnext]
        split
        · next hrun =>
          exact ⟨hsessions, .inr ⟨hskip.2, hstops, hstopped, .inl ⟨hrun, rfl, rfl⟩⟩⟩
        · next hrun =>
          exact ⟨hsessions, .inr ⟨hskip.2, hstops, hstopped, .inr ⟨hrun, rfl, rfl⟩⟩⟩
      · next hstops =>
        cases hround
        rw [if_neg hstops] at hroster
        exact ⟨fun other hne ↦ ⟨happlied other hne, rfl⟩, .inl ⟨hroster, rfl, rfl⟩⟩

theorem valid_takeOutput (hvalid : pass.settled.Valid limit) (hfresh : id ∉ pass.stoppedPreemptedReqs)
    (hplace : pass.sched.StopsInPlace id (outputs id)) : next.settled.Valid limit := by
  unfold settled at hvalid ⊢
  rcases (takeOutput_cases hround).2 with ⟨hroster, hrun, hpreempted⟩ |
    ⟨hlive, hstops, hstep, ⟨hstat, hrun, hpreempted⟩ | ⟨hstat, hrun, hpreempted⟩⟩
  · rw [hroster, hrun, hpreempted]
    exact hvalid
  · rw [hrun, hpreempted]
    exact hvalid.stop_running hlive hfresh hstat hstep
  · rw [hrun, hpreempted]
    exact hvalid.stop_preempted hlive hfresh hstat (hplace hlive hstat hstops) hstep

theorem stopsInPlace_takeOutput {other : ρ} (hne : other ≠ id)
    (hplace : pass.sched.StopsInPlace other (outputs other)) :
    next.sched.StopsInPlace other (outputs other) := by
  obtain ⟨hsessions, hcases⟩ := takeOutput_cases hround
  obtain ⟨hresumable, hqueue⟩ := hsessions other hne
  have hcontinues : next.sched.Continues other (outputs other) ↔
      pass.sched.Continues other (outputs other) := by
    unfold Continues nextUpdate
    rw [hresumable, hqueue]
  have hagree : AgreesOff id pass.sched.roster next.sched.roster := by
    rcases hcases with ⟨hroster, -⟩ | ⟨-, -, hstep, -⟩
    · rw [hroster]
      exact ⟨fun _ _ ↦ rfl, fun _ _ ↦ rfl, fun _ _ ↦ rfl, fun _ _ ↦ rfl, fun _ _ ↦ .rfl⟩
    · have hsettled : AgreesOff id (pass.sched.roster.settled [] []) (next.sched.roster.settled [] []) :=
        hstep.agreesOff (fun _ _ ↦ .rfl) fun _ _ ↦ .rfl
      rwa [settled_nil, settled_nil] at hsettled
  have hstat : (next.sched.requests other).status = (pass.sched.requests other).status :=
    hagree.status other hne
  have hwait : other ∈ next.sched.waiting.members ↔ other ∈ pass.sched.waiting.members := by
    rw [← count_pos_iff, ← count_pos_iff]
    exact (congrArg (0 < ·) (hagree.waiting other hne)).to_iff
  intro hlive hrun hstops
  have hbefore := hplace ((hagree.isLive hne).1 hlive) (hstat ▸ hrun) hstops
  simp only [hwait, hcontinues, hstat]
  exact hbefore

theorem stopped_takeOutput {taken : List ρ} (hstopped : pass.stoppedPreemptedReqs ⊆ taken) :
    next.stoppedPreemptedReqs ⊆ id :: taken := by
  have hold : pass.stoppedPreemptedReqs ⊆ id :: taken := fun other h ↦ mem_cons_of_mem _ (hstopped h)
  rcases (takeOutput_cases hround).2 with ⟨-, -, hpreempted⟩ |
    ⟨-, -, -, ⟨-, -, hpreempted⟩ | ⟨-, -, hpreempted⟩⟩
  · rw [hpreempted]
    exact hold
  · rw [hpreempted]
    exact hold
  · rw [hpreempted]
    exact append_subset.2 ⟨hold, fun other h ↦ mem_singleton.1 h ▸ mem_cons_self⟩

end

variable {entries : List (Σ _ : ρ, ℤ)}

/-- The loop keeps the roster valid, since every request is stopped once at most. -/
theorem valid_loop (hnodup : (entries.map Sigma.fst).Nodup) (hvalid : pass.settled.Valid limit)
    (hfresh : ∀ id ∈ entries.map Sigma.fst, id ∉ pass.stoppedPreemptedReqs)
    (hplace : ∀ id ∈ entries.map Sigma.fst, pass.sched.StopsInPlace id (outputs id))
    (hloop : entries.foldlM (takeOutput env connectorDelays failedKvLoadReqIds outputs) pass = .ok next) :
    next.settled.Valid limit := by
  induction entries generalizing pass with
  | nil =>
    cases hloop
    exact hvalid
  | cons entry rest ih =>
    obtain ⟨id, _⟩ := entry
    rw [map_cons, nodup_cons] at hnodup
    obtain ⟨_, hround, hrest⟩ := foldlM_cons_eq_ok_iff.1 hloop
    refine ih hnodup.2 ?_ (fun other hother ↦ ?_) (fun other hother ↦ ?_) hrest
    · exact valid_takeOutput hround hvalid (hfresh id mem_cons_self) (hplace id mem_cons_self)
    · intro hstopped
      rcases mem_cons.1 (stopped_takeOutput hround (.refl _) hstopped) with rfl | hold
      · exact hnodup.1 hother
      · exact hfresh other (mem_cons_of_mem _ hother) hold
    · have hne : other ≠ id := by
        rintro rfl
        exact hnodup.1 hother
      exact stopsInPlace_takeOutput hround hne (hplace other (mem_cons_of_mem _ hother))

theorem running_loop
    (hloop : entries.foldlM (takeOutput env connectorDelays failedKvLoadReqIds outputs) pass = .ok next) :
    next.sched.running = pass.sched.running := by
  have hround (state : OutputPass ε ρ) (entry : Σ _ : ρ, ℤ) (middle : OutputPass ε ρ)
      (hstate : state.sched.running = pass.sched.running)
      (htake : takeOutput env connectorDelays failedKvLoadReqIds outputs state entry = .ok middle) :
      middle.sched.running = pass.sched.running := by
    refine .trans ?_ hstate
    rcases (takeOutput_cases htake).2 with ⟨hroster, -⟩ | ⟨-, -, hstep, -⟩
    · exact congrArg Roster.running hroster
    · exact hstep.running
  exact foldlM_invariant hround rfl hloop

theorem valid_removeStopped (hvalid : pass.settled.Valid limit)
    (hrun : pass.sched.running.Nodup) : pass.removeStopped.roster.Valid limit := by
  have hruns : (removeAll pass.sched.running pass.stoppedRunningReqs).Perm
      pass.settled.running := by
    refine perm_iff_count.2 fun id ↦ ?_
    rw [count_removeAll hrun]
    exact (count_filter_notMem _ _ _).symm
  have hwaits := removeRequests_perm_of_ne_nil pass.sched.waiting (requestLt pass.sched.requests)
    pass.stoppedPreemptedReqs
  exact hvalid.of_perm hruns hwaits (.refl _)

end OutputPass

/-! ## The calls -/

namespace RequestScheduler

theorem valid_updateFromKvXferFinished (hvalid : sched.roster.Valid limit)
    {finishedRecving finishedSending : List ρ}
    (hxfer : sched.updateFromKvXferFinished finishedRecving finishedSending = .ok after) :
    after.roster.Valid limit := by
  have hfreed (state : RequestScheduler ε ρ) (id : ρ) (next : RequestScheduler ε ρ)
      (hstate : state.roster.Valid limit) (hfree : state.freeBlocks id = .ok next) :
      next.roster.Valid limit := by
    obtain ⟨hfin, hroster, -⟩ := freeBlocks_cases hfree
    rw [hroster]
    exact hstate.erase hfin
  have hrecv (state : RequestScheduler ε ρ) (id : ρ) (next : RequestScheduler ε ρ)
      (hstate : state.roster.Valid limit) (hstep : state.finishRecving id = .ok next) :
      next.roster.Valid limit := by
    unfold finishRecving at hstep
    split at hstep
    · cases hstep
    · split at hstep
      · cases hstep
        exact hstate
      · exact hfreed state id next hstate hstep
  have hsend (state : RequestScheduler ε ρ) (id : ρ) (next : RequestScheduler ε ρ)
      (hstate : state.roster.Valid limit) (hstep : state.finishSending id = .ok next) :
      next.roster.Valid limit := by
    unfold finishSending at hstep
    split at hstep
    · cases hstep
    · exact hfreed state id next hstate hstep
  unfold updateFromKvXferFinished at hxfer
  split at hxfer
  · cases hxfer
  · next received hreceived =>
    exact foldlM_invariant hsend (foldlM_invariant hrecv hvalid hreceived) hxfer

variable {recomputeKvLoadFailures : Bool}

theorem valid_updateFromOutput (hvalid : sched.roster.Valid limit) {output : StepOutput ε ρ}
    (hplace : ∀ id ∈ output.numScheduledTokens, sched.StopsInPlace id (output.outputs id))
    (hupdate : sched.updateFromOutput config env recomputeKvLoadFailures connectorDelays output = .ok after) :
    after.roster.Valid limit := by
  unfold updateFromOutput at hupdate
  dsimp only at hupdate
  split at hupdate
  · cases hupdate
  · next failedKvLoadReqIds toScheduler hhandled =>
    -- what the scan for invalid blocks changes does not concern the queues
    obtain ⟨hstat, hrun, hwait, hskipped⟩ :
        (∀ id, (toScheduler.requests id).status = (sched.requests id).status) ∧
          toScheduler.running = sched.running ∧ toScheduler.waiting = sched.waiting ∧
          toScheduler.skippedWaiting = sched.skippedWaiting := by
      split at hhandled
      · cases hhandled
        exact ⟨fun _ ↦ rfl, rfl, rfl, rfl⟩
      · exact handleInvalidBlocks_cases hhandled
    let scanned : RequestScheduler ε ρ := { sched with toScheduler }
    have hroster : scanned.roster = sched.roster := by
      have hstatuses := funext hstat
      simp [scanned, roster, hstatuses, hrun, hwait, hskipped]
    have hscanned := hroster ▸ hvalid
    have hplaces (id : ρ) (hid : id ∈ output.numScheduledTokens) :
        scanned.StopsInPlace id (output.outputs id) := by
      have hbefore := hplace id hid
      unfold StopsInPlace IsLive at hbefore ⊢
      simp only [scanned, hstat, hwait]
      exact hbefore
    split at hupdate
    · cases hupdate
    · next pass hloop =>
      have hsettled : pass.settled.Valid limit := by
        refine OutputPass.valid_loop output.numScheduledTokens.nodupKeys ?_ (fun _ _ ↦ not_mem_nil)
          (fun id hid ↦ hplaces id hid) hloop
        change (scanned.roster.settled [] []).Valid limit
        rw [settled_nil]
        exact hscanned
      have hnodup : pass.sched.running.Nodup := by
        rw [OutputPass.running_loop hloop]
        exact nodup_running hscanned
      have hremoved := OutputPass.valid_removeStopped hsettled hnodup
      split at hupdate
      · cases hupdate
      · next finished hfin =>
        refine valid_updateFromKvXferFinished ?_ hupdate
        split at hfin
        · exact valid_finishRequests hremoved hfin
        · cases hfin
          exact hremoved

theorem moves_preemptAll {rounds : ℕ} {start final : Scheduler ε ρ} (hsched : start.WellFormed config)
    (hsorted : start.Sorted) (hpreempt : preemptAll env rounds start = .ok final) :
    start.Moves final ∧ final.Sorted ∧ final.running.length ≤ start.running.length := by
  induction rounds generalizing start with
  | zero =>
    cases hpreempt
    exact ⟨.of_status (.refl _) fun _ ↦ rfl, hsorted, le_refl _⟩
  | succ rounds ih =>
    unfold preemptAll at hpreempt
    split at hpreempt
    · cases hpreempt
      exact ⟨.of_status (.refl _) fun _ ↦ rfl, hsorted, le_refl _⟩
    · next id _ =>
      split at hpreempt
      · cases hpreempt
      · next preempted hstep =>
        obtain ⟨hfirst, hmiddle, hlen⟩ := moves_preemptLast hsched hsorted hstep
        have hwell := hsched.preemptLast hstep
        have hstat (other : ρ) : ((preempted.setRequest id fun req ↦
            { req with numOutputPlaceholders := 0 }).requests other).status =
              (preempted.requests other).status := by
          by_cases hsame : other = id
          · rw [hsame, requests_setRequest_self]
          · exact congrArg Request.status (update_of_ne hsame _ _)
        have hnext : (preempted.setRequest id fun req ↦
            { req with numOutputPlaceholders := 0 }).WellFormed config :=
          { hwell with running := fun other hother ↦ (hstat other).trans (hwell.running other hother) }
        obtain ⟨hmoves, hfits, hshorter⟩ := ih hnext (hmiddle.of_status rfl rfl rfl hstat) hpreempt
        have hreset : preempted.Moves (preempted.setRequest id fun req ↦
            { req with numOutputPlaceholders := 0 }) := .of_status (.refl _) hstat
        exact ⟨hfirst.trans (hreset.trans hmoves), hfits, hshorter.trans hlen⟩

section

variable (hvalid : sched.roster.Valid config.maxNumRunningReqs)
include hvalid

theorem valid_resetPrefixCache {resetRunningRequests : Bool} {successful : Bool}
    (hreset : sched.resetPrefixCache env resetRunningRequests = .ok (successful, after)) :
    after.roster.Valid config.maxNumRunningReqs := by
  obtain ⟨_, hpreempted, ⟨⟩⟩ := map_eq_ok_iff.1 hreset
  split at hpreempted
  · obtain ⟨hmoves, hsorted, hlen⟩ := moves_preemptAll hvalid.wellFormed hvalid.schedulerSorted hpreempted
    have hmoved := hvalid.of_moves hmoves hsorted (hlen.trans hvalid.bounded)
    exact hmoved
  · cases hpreempted
    exact hvalid

theorem valid_schedule {final : Pass ε ρ} (hschedule : sched.schedule config env = .ok (final, moved)) :
    (roster { sched with toScheduler := moved }).Valid config.maxNumRunningReqs := by
  obtain ⟨hmoves, hsorted⟩ := moves_schedule hvalid.wellFormed hvalid.schedulerSorted hschedule
  exact hvalid.of_moves hmoves hsorted (wellFormed_schedule hvalid.wellFormed hschedule).bounded

end

section

variable (hvalid : sched.roster.Valid limit) 
include hvalid

theorem valid_updateRequestAsSession (hid : id ∈ sched.requestIds)
    (hstat : (sched.requests id).status = .waitingForStreamingReq) (update : SessionUpdate) :
    (sched.updateRequestAsSession id update).roster.Valid limit := by
  have hself : Function.update sched.roster.status id .waiting id = .waiting := update_self id _ _
  have hlive : sched.roster.IsLive id := by
    refine ⟨hid, ?_⟩
    change (sched.requests id).status ≠ .finished
    rw [hstat]
    nofun
  have hsorted := hvalid.sorted id
  have hstreaming : sched.roster.status id = .waitingForStreamingReq := hstat
  rw [roster_updateRequestAsSession, if_pos hstat]
  have hagree : AgreesOff id sched.roster { sched.roster with
      status := Function.update sched.roster.status id .waiting
      numWaitingForStreamingInput := sched.numWaitingForStreamingInput - 1 } :=
    ⟨fun _ _ ↦ rfl, fun _ _ ↦ rfl, fun _ _ ↦ rfl, fun _ hne ↦ update_of_ne hne _ _, fun _ _ ↦ .rfl⟩
  refine hvalid.of_move hagree hid rfl ?_ ⟨fun hmem ↦ ?_, fun _ ↦ .inl hself, fun _ ↦ ?_⟩ (le_refl _) ?_
  · refine (hvalid.places id).trans ?_
    rw [if_pos hlive]
    simp only [hself]
    rfl
  · have hrun := hsorted.running hmem
    rw [hstreaming] at hrun
    cases hrun
  · simp only [hself]
    exact ⟨nofun, nofun⟩
  · simp [roster, hstat]

theorem valid_addRequest {new : NewRequest} (hadd : sched.addRequest env connectorDelays id new = .ok after) :
    after.roster.Valid limit := by
  unfold addRequest at hadd
  split at hadd
  · next hid =>
    split at hadd
    · split at hadd
      · cases hadd
      · cases hadd
        exact hvalid
    · next hstat =>
      split at hadd
      · next update _ =>
        cases hadd
        exact valid_updateRequestAsSession hvalid hid (not_not.1 hstat) update
      · exact valid_finishRequests hvalid hadd
  · next hid =>
    cases hadd
    let placed : RequestScheduler ε ρ := { sched with
      toScheduler := sched.setRequest id fun _ ↦ new.initial }
    have hroster : placed.roster = { sched.roster with
        status := update sched.roster.status id new.initial.status } :=
      roster_setRequest sched id fun _ ↦ new.initial
    have hstat : (placed.requests id).status = new.initial.status := by
      change placed.roster.status id = _
      rw [hroster]
      exact update_self id _ _
    have hwithId {roster : Roster ρ} (hplaced : RequestScheduler.roster { placed with
          toScheduler := placed.enqueueWaitingRequest id } = roster)
        (hnext : { roster with requestIds := sched.requestIds ++ [id] }.Valid limit) :
        (RequestScheduler.roster { sched with
          toScheduler := placed.enqueueWaitingRequest id
          requestIds := sched.requestIds ++ [id] }).Valid limit := by
      rw [← hplaced] at hnext
      exact hnext
    cases hstructured : new.structuredOutput with
    | false =>
      have hinitial : new.initial.status = .waiting := by simp [NewRequest.initial, hstructured]
      obtain ⟨_, hwait, henqueued⟩ := roster_enqueue_ready placed id (by rw [hstat, hinitial]; rfl)
      rw [hroster] at hwait henqueued
      refine hwithId henqueued ?_
      rw [hinitial]
      exact hvalid.add hid ⟨nofun, nofun⟩ nofun (.inl ⟨.inl rfl, hwait, .refl _⟩)
    | true =>
      have hinitial : new.initial.status = .waitingForStructuredOutputGrammar := by
        simp [NewRequest.initial, hstructured]
      obtain ⟨_, hskipped, henqueued⟩ :=
        roster_enqueue_blocked placed id (by rw [hstat, hinitial]; rfl)
      rw [hroster] at hskipped henqueued
      refine hwithId henqueued ?_
      rw [hinitial]
      exact hvalid.add hid ⟨nofun, nofun⟩ nofun (.inr ⟨.refl _, hskipped⟩)

end

/-! ## Runs -/

/-- The condition on a call: the outputs that it brings stop requests in place. -/
def Meets (sched : RequestScheduler ε ρ) (call : RequestOp ε ρ × (ρ → Bool)) : Prop :=
  match call.1 with
  | .updateFromOutput output =>
    ∀ id ∈ output.numScheduledTokens.keys, sched.StopsInPlace id (output.outputs id)
  | _ => True

instance (sched : RequestScheduler ε ρ) (call : RequestOp ε ρ × (ρ → Bool)) : Decidable (sched.Meets call) :=
  match call with
  | (.updateFromOutput output, _) => inferInstanceAs
      (Decidable (∀ id ∈ output.numScheduledTokens.keys, sched.StopsInPlace id (output.outputs id)))
  | (.addRequest _ _, _) | (.schedule, _) | (.finishRequests _, _) | (.resetPrefixCache _, _) =>
    isTrue trivial

theorem valid_apply (hvalid : sched.roster.Valid config.maxNumRunningReqs)
    {call : RequestOp ε ρ × (ρ → Bool)} (hmeets : sched.Meets call) :
    (sched.apply config env recomputeKvLoadFailures call).roster.Valid config.maxNumRunningReqs := by
  obtain ⟨op, _⟩ := call
  unfold apply
  dsimp only
  split
  · exact hvalid
  · next next hres =>
    cases op with
    | addRequest id new => exact valid_addRequest hvalid hres
    | schedule =>
      obtain ⟨⟨_, _⟩, hschedule, rfl⟩ := map_eq_ok_iff.1 hres
      exact valid_schedule hvalid hschedule
    | updateFromOutput output => exact valid_updateFromOutput hvalid hmeets hres
    | finishRequests requestIds => exact valid_finishRequests hvalid hres
    | resetPrefixCache resetRunningRequests =>
      obtain ⟨⟨_, _⟩, hreset, rfl⟩ := map_eq_ok_iff.1 hres
      exact valid_resetPrefixCache hvalid hreset

theorem valid_init (config : SchedulerConfig) (requests : ρ → Request) (kvCacheManager : KVCacheManager ρ)
    (environment : ε) :
    (init config requests kvCacheManager environment).roster.Valid config.maxNumRunningReqs := by
  have hempty : (RequestQueue.create config.policy : RequestQueue ρ).members = [] := by
    cases config.policy <;> rfl
  refine ⟨fun id ↦ ?_, fun id ↦ ?_, nodup_nil, Nat.zero_le _, rfl⟩
  · simp [places, Roster.IsLive, roster, init, Scheduler.init, hempty]
  · refine ⟨fun h ↦ absurd h not_mem_nil, fun h ↦ ?_, fun h ↦ ?_⟩
    all_goals simp [roster, init, Scheduler.init, hempty] at h

/-- In every run in which outputs stop requests in place, every request is in its queue after every
call. -/
theorem membership_of_meets (config : SchedulerConfig) (env : Environment ε ρ)
    (recomputeKvLoadFailures : Bool) (requests : ρ → Request) (kvCacheManager : KVCacheManager ρ)
    (environment : ε) {calls : List (RequestOp ε ρ × (ρ → Bool))}
    (hcalls : StepsMeet (apply config env recomputeKvLoadFailures) Meets
      (init config requests kvCacheManager environment) calls) :
    HoldsAlong (apply config env recomputeKvLoadFailures) Membership
      (init config requests kvCacheManager environment) calls := by
  have hstep (sched : RequestScheduler ε ρ) (call : RequestOp ε ρ × (ρ → Bool))
      (hvalid : sched.roster.Valid config.maxNumRunningReqs) (hmeets : sched.Meets call) :
      (sched.apply config env recomputeKvLoadFailures call).roster.Valid config.maxNumRunningReqs :=
    valid_apply hvalid hmeets
  exact holdsAlong_of_stepsMeet hstep (fun _ hvalid ↦ hvalid.membership)
    (valid_init config requests kvCacheManager environment) hcalls

/-! ## A session that stops after its preemption -/

open Scheduler (smallConfig plainEnvironment)

/-- A session of one token is scheduled and preempted, and then the output of its step stops it. Its next
input may have arrived before. -/
def sessionCalls (queued : Bool) : List (RequestOp Unit ℕ × (ℕ → Bool)) :=
  let input : NewRequest :=
    { request := { numPromptTokens := 1, numTokens := 1, maxTokens := 8 }, resumable := true
      update := { numPromptTokens := 1 } }
  let calls : List (RequestOp Unit ℕ) :=
    [.addRequest 0 input, .schedule] ++ (if queued then [.addRequest 0 input] else []) ++
      [.resetPrefixCache true, .updateFromOutput
        { numScheduledTokens := AList.singleton 0 1, outputs := fun _ ↦ { stopped := true } }]
  calls.map fun call ↦ (call, fun _ ↦ false)

def sessionStart (pool : BlockPool) : RequestScheduler Unit ℕ :=
  init smallConfig (fun _ ↦ { numPromptTokens := 1, numTokens := 1, maxTokens := 8 })
    { maxModelLen := 64, enableCaching := false, blockPool := pool
      singleTypeManagers := [.fullAttention (.init ⟨.fullAttention, 1, Nat.one_pos⟩ false 0 1 1 none)] } ()

/-- Without a next input the session waits for one. -/
theorem membership_session : ∃ pool, BlockPool.init 5 false 1 = .ok pool ∧
    StepsMeet (apply smallConfig plainEnvironment true) Meets (sessionStart pool) (sessionCalls false) ∧
    ((sessionCalls false).foldl (apply smallConfig plainEnvironment true)
      (sessionStart pool)).skippedWaiting.members = [0] ∧
    ((sessionCalls false).foldl (apply smallConfig plainEnvironment true) (sessionStart pool)).Membership := by
  refine ⟨_, rfl, by decide, rfl, ?_⟩
  exact (membership_of_meets smallConfig plainEnvironment true _ _ _ (by decide)).final

/-- With a next input the session is in no queue any more, although it waits. -/
theorem not_membership_session : ∃ pool, BlockPool.init 5 false 1 = .ok pool ∧
    ((sessionCalls true).foldl (apply smallConfig plainEnvironment true)
      (sessionStart pool)).requestIds = [0] ∧
    (((sessionCalls true).foldl (apply smallConfig plainEnvironment true)
      (sessionStart pool)).requests 0).status = .waiting ∧
    ((sessionCalls true).foldl (apply smallConfig plainEnvironment true) (sessionStart pool)).queued = [] ∧
    ¬ ((sessionCalls true).foldl (apply smallConfig plainEnvironment true)
      (sessionStart pool)).Membership := by
  refine ⟨_, rfl, rfl, rfl, rfl, fun hmembership ↦ ?_⟩
  have hcount := hmembership.once 0 (by decide)
  cases hcount

end RequestScheduler

end Nelssa.Sched
