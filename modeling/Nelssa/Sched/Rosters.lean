import Mathlib.Algebra.Order.BigOperators.Group.List
import Nelssa.Sched.QueueMoves

/-!
# Rosters

A roster is what the queues know: the statuses, the three queues, the keys of the table of requests and
the number of sessions that wait for input. In a valid roster every unfinished request of the table is in
exactly one queue, which fits its status, and nobody else is in a queue. A change of one request keeps a
roster valid if this request is in place again; a request that stops is in place again once the stopped
requests have left the running list and the waiting queue.
-/

namespace Nelssa.Sched

open Function List

variable {ρ : Type*} [LinearOrder ρ]

attribute [local instance] lawfulBEq_of_linearOrder

/-! ## Valid rosters -/

structure Roster (ρ : Type*) where
  status : ρ → RequestStatus
  running : List ρ
  waiting : List ρ
  skippedWaiting : List ρ
  requestIds : List ρ
  numWaitingForStreamingInput : ℤ

variable {items : List ρ} {roster : Roster ρ} {limit : ℕ} {id other : ρ}

namespace Roster

variable {after : Roster ρ}

def IsLive (roster : Roster ρ) (id : ρ) : Prop :=
  id ∈ roster.requestIds ∧ roster.status id ≠ .finished

instance (roster : Roster ρ) (id : ρ) : Decidable (roster.IsLive id) := inferInstanceAs (Decidable (_ ∧ _))

/-- How often a request is in the queues. -/
def places (roster : Roster ρ) (id : ρ) : ℕ :=
  roster.running.count id + roster.waiting.count id + roster.skippedWaiting.count id

def numStreaming (roster : Roster ρ) : ℕ :=
  roster.requestIds.countP fun id ↦ roster.status id = .waitingForStreamingReq

/-- The queue of a request fits its status. -/
structure SortedAt (roster : Roster ρ) (id : ρ) : Prop where
  running : id ∈ roster.running → roster.status id = .running
  waiting : id ∈ roster.waiting → (roster.status id).Ready
  skippedWaiting : id ∈ roster.skippedWaiting → (roster.status id).Parked

structure Valid (maxNumRunningReqs : ℕ) (roster : Roster ρ) : Prop where
  places : ∀ id, roster.places id = if roster.IsLive id then 1 else 0
  sorted : ∀ id, roster.SortedAt id
  keys : roster.requestIds.Nodup
  bounded : roster.running.length ≤ maxNumRunningReqs
  streaming : roster.numWaitingForStreamingInput = roster.numStreaming

/-- The rosters agree about all requests but `id`. -/
structure AgreesOff (id : ρ) (roster after : Roster ρ) : Prop where
  running : ∀ other, other ≠ id → after.running.count other = roster.running.count other
  waiting : ∀ other, other ≠ id → after.waiting.count other = roster.waiting.count other
  skippedWaiting : ∀ other, other ≠ id →
    after.skippedWaiting.count other = roster.skippedWaiting.count other
  status : ∀ other, other ≠ id → after.status other = roster.status other
  requestIds : ∀ other, other ≠ id → (other ∈ after.requestIds ↔ other ∈ roster.requestIds)

theorem mem_of_count_eq {first second : List ρ} (hcount : first.count id = second.count id)
    (hid : id ∈ first) : id ∈ second :=
  count_pos_iff.1 (hcount ▸ count_pos_iff.2 hid)

theorem AgreesOff.isLive (hagree : AgreesOff id roster after) (hne : other ≠ id) :
    after.IsLive other ↔ roster.IsLive other := by
  unfold IsLive
  rw [hagree.status other hne, hagree.requestIds other hne]

theorem Valid.of_agreesOff (hvalid : roster.Valid limit) (hagree : AgreesOff id roster after)
    (hplaces : after.places id = if after.IsLive id then 1 else 0) (hsorted : after.SortedAt id)
    (hkeys : after.requestIds.Nodup) (hbounded : after.running.length ≤ roster.running.length)
    (hstreaming : after.numWaitingForStreamingInput = after.numStreaming) : after.Valid limit := by
  refine ⟨fun other ↦ ?_, fun other ↦ ?_, hkeys, hbounded.trans hvalid.bounded, hstreaming⟩
  · by_cases hsame : other = id
    · exact hsame ▸ hplaces
    · have hother := hvalid.places other
      simp only [Roster.places, hagree.running other hsame, hagree.waiting other hsame,
        hagree.skippedWaiting other hsame, hagree.isLive hsame] at hother ⊢
      exact hother
  · by_cases hsame : other = id
    · exact hsame ▸ hsorted
    · have hother := hvalid.sorted other
      refine ⟨fun hmem ↦ ?_, fun hmem ↦ ?_, fun hmem ↦ ?_⟩
      · rw [hagree.status other hsame]
        exact hother.running (mem_of_count_eq (hagree.running other hsame) hmem)
      · rw [hagree.status other hsame]
        exact hother.waiting (mem_of_count_eq (hagree.waiting other hsame) hmem)
      · rw [hagree.status other hsame]
        exact hother.skippedWaiting (mem_of_count_eq (hagree.skippedWaiting other hsame) hmem)

variable {skippedWaiting : List ρ}

theorem Valid.of_perm (hvalid : roster.Valid limit) {running waiting : List ρ}
    (hrun : running.Perm roster.running) (hwait : waiting.Perm roster.waiting)
    (hskipped : skippedWaiting.Perm roster.skippedWaiting) :
    { roster with running, waiting, skippedWaiting }.Valid limit := by
  refine { hvalid with
    places := fun id ↦ ?_, sorted := fun id ↦ ?_, bounded := hrun.length_eq.le.trans hvalid.bounded }
  · have hplaces := hvalid.places id
    simp only [Roster.places, hrun.count_eq, hwait.count_eq, hskipped.count_eq] at hplaces ⊢
    exact hplaces
  · have hsorted := hvalid.sorted id
    exact ⟨fun h ↦ hsorted.running (hrun.mem_iff.1 h), fun h ↦ hsorted.waiting (hwait.mem_iff.1 h),
      fun h ↦ hsorted.skippedWaiting (hskipped.mem_iff.1 h)⟩

/-! ## The number of waiting sessions -/

omit [LinearOrder ρ] in
theorem countP_eq_of_agree [DecidableEq ρ] (hnodup : items.Nodup) (hid : id ∈ items)
    (first second : ρ → Bool) (hagree : ∀ other, other ≠ id → first other = second other) :
    (items.countP first : ℤ) = items.countP second - (second id).toNat + (first id).toNat := by
  have hsplit := perm_cons_erase hid
  have hrest : (items.erase id).countP first = (items.erase id).countP second := by
    refine countP_congr fun other hother ↦ ?_
    have hne : other ≠ id := fun h ↦ Nodup.not_mem_erase hnodup (h ▸ hother)
    rw [hagree other hne]
  rw [hsplit.countP_eq, hsplit.countP_eq, countP_cons, countP_cons, hrest]
  cases first id <;> cases second id <;> simp

theorem Valid.of_move (hvalid : roster.Valid limit) (hagree : AgreesOff id roster after)
    (hid : id ∈ roster.requestIds) (hids : after.requestIds = roster.requestIds)
    (hplaces : after.places id = if after.status id = .finished then 0 else 1)
    (hsorted : after.SortedAt id) (hbounded : after.running.length ≤ roster.running.length)
    (hcounter : after.numWaitingForStreamingInput = roster.numWaitingForStreamingInput -
      (decide (roster.status id = .waitingForStreamingReq)).toNat +
      (decide (after.status id = .waitingForStreamingReq)).toNat) : after.Valid limit := by
  refine hvalid.of_agreesOff hagree ?_ hsorted (hids ▸ hvalid.keys) hbounded ?_
  · have hlive : after.IsLive id ↔ after.status id ≠ .finished := by
      unfold IsLive
      rw [hids]
      exact and_iff_right hid
    rw [hplaces]
    simp [hlive]
  · rw [hcounter, hvalid.streaming, numStreaming, numStreaming, hids]
    refine (countP_eq_of_agree hvalid.keys hid (fun id ↦ after.status id = .waitingForStreamingReq)
      _ fun other hne ↦ ?_).symm
    rw [hagree.status other hne]

theorem Valid.erase (hvalid : roster.Valid limit) (hfin : roster.status id = .finished) :
    { roster with requestIds := roster.requestIds.erase id }.Valid limit := by
  have hlive (other : ρ) : ({ roster with requestIds := roster.requestIds.erase id } : Roster ρ).IsLive other ↔
      roster.IsLive other := by
    unfold IsLive
    by_cases hsame : other = id
    · rw [hsame]
      simp [hfin]
    · rw [mem_erase_of_ne hsame]
  refine ⟨fun other ↦ ?_, fun other ↦ ?_, hvalid.keys.erase id, hvalid.bounded, ?_⟩
  · simp only [hlive]
    exact hvalid.places other
  · exact { hvalid.sorted other with }
  · have hstreaming := hvalid.streaming
    unfold numStreaming at hstreaming ⊢
    rw [hstreaming]
    by_cases hid : id ∈ roster.requestIds
    · rw [(perm_cons_erase hid).countP_eq]
      simp [hfin]
    · rw [erase_of_not_mem hid]

/-- The roster once the given requests are finished. -/
def retire (roster : Roster ρ) (ids : List ρ) : Roster ρ :=
  { roster with status := fun id ↦ if id ∈ ids then .finished else roster.status id }

theorem retire_update (roster : Roster ρ) (id : ρ) (ids : List ρ) :
    { roster with status := update roster.status id .finished }.retire ids = roster.retire (id :: ids) := by
  unfold retire
  congr 1
  funext other
  by_cases hsame : other = id
  · simp [hsame]
  · simp [hsame]

theorem countP_add_countP_notMem {part : List ρ} (hitems : items.Nodup) (hpart : part.Nodup)
    (hsubset : part ⊆ items) (p : ρ → Bool) :
    part.countP p + items.countP (fun id ↦ decide (id ∉ part) && p id) = items.countP p := by
  have hmembers : (items.filter (· ∈ part)).Perm part := by
    refine (perm_ext_iff_of_nodup (hitems.filter _) hpart).2 fun id ↦ ?_
    rw [mem_filter, decide_eq_true_eq]
    exact ⟨fun h ↦ h.2, fun h ↦ ⟨hsubset h, h⟩⟩
  rw [countP_eq_countP_filter_add items p, hmembers.countP_eq, countP_filter]
  congr 1
  refine countP_congr fun id _ ↦ ?_
  simp [and_comm]

theorem Valid.add (hvalid : roster.Valid limit) (hid : id ∉ roster.requestIds) {status : RequestStatus}
    {waiting : List ρ} (hparked : status.Parked) (hstreaming : status ≠ .waitingForStreamingReq)
    (hcase : status.Ready ∧ waiting.Perm (id :: roster.waiting) ∧ skippedWaiting.Perm roster.skippedWaiting ∨
      waiting.Perm roster.waiting ∧ skippedWaiting.Perm (id :: roster.skippedWaiting)) :
    { roster with
      status := update roster.status id status
      waiting, skippedWaiting
      requestIds := roster.requestIds ++ [id] }.Valid limit := by
  have hself : update roster.status id status id = status := update_self id _ _
  have hothers (other : ρ) (hne : other ≠ id) : update roster.status id status other =
      roster.status other := update_of_ne hne _ _
  have hplaces := hvalid.places id
  rw [if_neg fun hlive ↦ hid hlive.1, Roster.places] at hplaces
  have hnowhere : id ∉ roster.running := count_eq_zero.1 (by omega)
  have hmem : id ∈ roster.requestIds ++ [id] := mem_append_right _ (mem_singleton_self id)
  have hlist {items others : List ρ} (hperm : items.Perm others ∨ items.Perm (id :: others)) (other : ρ)
      (hne : other ≠ id) : items.count other = others.count other := by
    rcases hperm with hsame | hadded
    · exact hsame.count_eq other
    · rw [hadded.count_eq, count_cons_of_ne hne.symm]
  have hagree : AgreesOff id roster { roster with
      status := update roster.status id status
      waiting, skippedWaiting
      requestIds := roster.requestIds ++ [id] } := by
    refine ⟨fun _ _ ↦ rfl, hlist ?_, hlist ?_, hothers, fun other hne ↦ ?_⟩
    · exact hcase.elim (fun h ↦ .inr h.2.1) fun h ↦ .inl h.1
    · exact hcase.elim (fun h ↦ .inl h.2.2) fun h ↦ .inr h.2
    · simp [hne]
  refine hvalid.of_agreesOff hagree ?_
    ⟨fun hrun ↦ absurd hrun hnowhere, fun hwait ↦ ?_, fun _ ↦ ?_⟩ ?_ (le_refl _) ?_
  · rw [if_pos ⟨hmem, by simpa using hparked.2⟩]
    change roster.running.count id + waiting.count id + skippedWaiting.count id = 1
    rcases hcase with ⟨-, hwait, hskipped⟩ | ⟨hwait, hskipped⟩
    all_goals
      rw [hwait.count_eq, hskipped.count_eq, count_cons_self]
      omega
  · simp only [hself]
    rcases hcase with ⟨hready, -⟩ | ⟨hsame, -⟩
    · exact hready
    · have hzero : roster.waiting.count id = 0 := by omega
      exact absurd (hsame.mem_iff.1 hwait) (count_eq_zero.1 hzero)
  · simp only [hself]
    exact hparked
  · exact nodup_append.2 ⟨hvalid.keys, nodup_singleton id, fun first hfirst second hsecond h ↦
      hid (mem_singleton.1 hsecond ▸ h ▸ hfirst)⟩
  · have hcount : (roster.requestIds ++ [id]).countP
        (fun other ↦ update roster.status id status other = .waitingForStreamingReq) =
          roster.numStreaming := by
      rw [countP_append, countP_singleton, if_neg (by simp [hstreaming])]
      refine countP_congr fun other hother ↦ ?_
      rw [hothers other fun h ↦ hid (h ▸ hother)]
    exact hvalid.streaming.trans (congrArg _ hcount.symm)

/-! ## Where a request is -/

section

variable (hvalid : roster.Valid limit) (hlive : roster.IsLive id)
include hvalid hlive

theorem Valid.counts_of_running (hstat : roster.status id = .running) :
    roster.running.count id = 1 ∧ roster.waiting.count id = 0 ∧ roster.skippedWaiting.count id = 0 := by
  have hplaces := hvalid.places id
  rw [if_pos hlive, Roster.places] at hplaces
  have hwait : roster.waiting.count id = 0 := by
    refine count_eq_zero.2 fun hmem ↦ ?_
    have hready := (hvalid.sorted id).waiting hmem
    rw [hstat] at hready
    exact hready.parked.1 rfl
  have hskipped : roster.skippedWaiting.count id = 0 := by
    refine count_eq_zero.2 fun hmem ↦ ?_
    exact ((hvalid.sorted id).skippedWaiting hmem).1 hstat
  omega

theorem Valid.counts_of_mem_waiting (hmem : id ∈ roster.waiting) :
    roster.running.count id = 0 ∧ roster.waiting.count id = 1 ∧ roster.skippedWaiting.count id = 0 := by
  have hplaces := hvalid.places id
  rw [if_pos hlive, Roster.places] at hplaces
  have hpos := count_pos_iff.2 hmem
  omega

theorem Valid.counts_of_skipped (hstat : roster.status id ≠ .running) (hmem : id ∉ roster.waiting) :
    roster.running.count id = 0 ∧ roster.waiting.count id = 0 ∧ roster.skippedWaiting.count id = 1 := by
  have hplaces := hvalid.places id
  rw [if_pos hlive, Roster.places] at hplaces
  have hrun := count_eq_zero.2 fun h ↦ hstat ((hvalid.sorted id).running h)
  have hwait := count_eq_zero.2 hmem
  omega

end

end Roster

/-! ## Taking requests out of queues -/

theorem count_filter_notMem (items gone : List ρ) (id : ρ) :
    (items.filter (· ∉ gone)).count id = if id ∈ gone then 0 else items.count id := by
  by_cases hid : id ∈ gone
  · rw [if_pos hid]
    refine count_eq_zero.2 fun hmem ↦ ?_
    have hkept := (mem_filter.1 hmem).2
    exact of_decide_eq_true hkept hid
  · rw [if_neg hid]
    exact count_filter (decide_eq_true hid)

theorem count_removeAll (hnodup : items.Nodup) (gone : List ρ) (id : ρ) :
    (removeAll items gone).count id = if id ∈ gone then 0 else items.count id := by
  unfold removeAll
  split
  · rw [if_neg not_mem_nil]
  · next item =>
    by_cases hsame : id = item
    · rw [hsame, if_pos (mem_singleton_self item)]
      exact count_eq_zero.2 (Nodup.not_mem_erase hnodup)
    · rw [if_neg (fun h ↦ hsame (mem_singleton.1 h)), count_erase_of_ne hsame]
  · exact count_filter_notMem items gone id

theorem length_removeAll_le (items gone : List ρ) : (removeAll items gone).length ≤ items.length := by
  unfold removeAll
  split
  · exact le_refl _
  · exact length_erase_le
  · exact length_filter_le _ _

theorem removeRequests_perm_of_ne_nil (queue : RequestQueue ρ) (lt : ρ → ρ → Bool) (gone : List ρ) :
    (if gone = [] then queue else queue.removeRequests lt gone).members.Perm
      (queue.members.filter (· ∉ gone)) := by
  split
  · next hnil =>
    rw [hnil, filter_eq_self.2 fun _ _ ↦ decide_eq_true not_mem_nil]
  · exact queue.removeRequests_perm lt gone

/-! ## Stops -/

/-- What a stop does to the roster: the request is finished, or it is queued again and goes on or waits
for input. -/
inductive Roster.StopStep (continues : Prop) (id : ρ) (roster : Roster ρ) : Roster ρ → Prop where
  | finished (hstop : ¬ continues) {requestIds : List ρ}
      (hids : requestIds = roster.requestIds ∨ requestIds = roster.requestIds.erase id) :
      StopStep continues id roster
        { roster with status := update roster.status id .finished, requestIds }
  | continued (hgo : continues) {waiting : List ρ} (hwaiting : waiting.Perm (id :: roster.waiting)) :
      StopStep continues id roster
        { roster with status := update roster.status id .waiting, waiting }
  | suspended (hstop : ¬ continues) {skippedWaiting : List ρ}
      (hskipped : skippedWaiting.Perm (id :: roster.skippedWaiting)) :
      StopStep continues id roster
        { roster with
          status := update roster.status id .waitingForStreamingReq
          skippedWaiting
          numWaitingForStreamingInput := roster.numWaitingForStreamingInput + 1 }

variable {next : Roster ρ} {continues : Prop}

theorem Roster.StopStep.running (hstep : roster.StopStep continues id next) :
    next.running = roster.running := by
  cases hstep <;> rfl

theorem Roster.StopStep.of_finished {goes : Prop}
    (hstep : { roster with status := update roster.status id .finished }.StopStep continues id next)
    (hiff : continues ↔ goes) : roster.StopStep goes id next := by
  cases hstep with
  | finished hstop hids =>
    rw [update_idem]
    exact .finished (fun h ↦ hstop (hiff.2 h)) hids
  | continued hgo hwait =>
    rw [update_idem]
    exact .continued (hiff.1 hgo) hwait
  | suspended hstop hskipped =>
    rw [update_idem]
    exact .suspended (fun h ↦ hstop (hiff.2 h)) hskipped

namespace Roster

variable {after : Roster ρ}

/-- The roster once the stopped requests are removed. -/
def settled (roster : Roster ρ) (stoppedRunningReqs stoppedPreemptedReqs : List ρ) : Roster ρ :=
  { roster with
    running := roster.running.filter (· ∉ stoppedRunningReqs)
    waiting := roster.waiting.filter (· ∉ stoppedPreemptedReqs) }

theorem Valid.of_stop (hvalid : roster.Valid limit) (hagree : AgreesOff id roster after)
    (hid : id ∈ roster.requestIds) (hids : after.requestIds = roster.requestIds)
    (hbefore : roster.status id ≠ .waitingForStreamingReq) (hrun : after.running.count id = 0)
    (hbounded : after.running.length ≤ roster.running.length)
    (hcase : after.status id = .finished ∧ after.waiting.count id = 0 ∧ after.skippedWaiting.count id = 0 ∧
        after.numWaitingForStreamingInput = roster.numWaitingForStreamingInput ∨
      after.status id = .waiting ∧ after.waiting.count id + after.skippedWaiting.count id = 1 ∧
        after.numWaitingForStreamingInput = roster.numWaitingForStreamingInput ∨
      after.status id = .waitingForStreamingReq ∧ after.waiting.count id = 0 ∧
        after.skippedWaiting.count id = 1 ∧
        after.numWaitingForStreamingInput = roster.numWaitingForStreamingInput + 1) :
    after.Valid limit := by
  have hnowhere := count_eq_zero.1 hrun
  refine hvalid.of_move hagree hid hids ?_ ⟨fun h ↦ absurd h hnowhere, ?_, ?_⟩ hbounded ?_
  · unfold Roster.places
    rcases hcase with ⟨hstat, hwait, hskipped, -⟩ | ⟨hstat, hplace, -⟩ | ⟨hstat, hwait, hskipped, -⟩
    · rw [hstat, hrun, hwait, hskipped]
      rfl
    · rw [hstat, hrun, zero_add, hplace]
      rfl
    · rw [hstat, hrun, hwait, hskipped]
      rfl
  · intro hmem
    rcases hcase with ⟨-, hwait, -⟩ | ⟨hstat, -⟩ | ⟨-, hwait, -⟩
    · exact absurd hmem (count_eq_zero.1 hwait)
    · exact .inl hstat
    · exact absurd hmem (count_eq_zero.1 hwait)
  · intro hmem
    rcases hcase with ⟨-, -, hskipped, -⟩ | ⟨hstat, -⟩ | ⟨hstat, -⟩
    · exact absurd hmem (count_eq_zero.1 hskipped)
    · rw [hstat]
      exact ⟨nofun, nofun⟩
    · rw [hstat]
      exact ⟨nofun, nofun⟩
  · rcases hcase with ⟨hstat, -, -, hcounter⟩ | ⟨hstat, -, hcounter⟩ | ⟨hstat, -, -, hcounter⟩
    all_goals simp [hstat, hcounter, hbefore]

theorem count_filter_append (items gone : List ρ) (id other : ρ) :
    (items.filter (· ∉ gone ++ [id])).count other =
      if other = id then 0 else (items.filter (· ∉ gone)).count other := by
  rw [count_filter_notMem, count_filter_notMem]
  by_cases hsame : other = id
  · simp [hsame]
  · simp [hsame]

variable {gone : List ρ}

theorem count_filter_of_perm {others : List ρ} (hperm : items.Perm (id :: others)) (hid : id ∉ gone)
    (other : ρ) :
    (items.filter (· ∉ gone)).count other =
      (others.filter (· ∉ gone)).count other + if other = id then 1 else 0 := by
  rw [count_filter_notMem, count_filter_notMem, hperm.count_eq]
  by_cases hsame : other = id
  · simp [hsame, hid]
  · simp [hsame, Ne.symm]

theorem count_filter_of_mem_iff {left : List ρ} (hgone : other ∈ left ↔ other ∈ gone) :
    (items.filter (· ∉ left)).count other = (items.filter (· ∉ gone)).count other := by
  rw [count_filter_notMem, count_filter_notMem]
  simp [hgone]

variable {stoppedPreempted stoppedRunning : List ρ}

section

variable {nextRunning nextPreempted : List ρ}
  (hrun : ∀ other, other ≠ id → (other ∈ nextRunning ↔ other ∈ stoppedRunning))
  (hpreempted : ∀ other, other ≠ id → (other ∈ nextPreempted ↔ other ∈ stoppedPreempted))
include hrun hpreempted

theorem StopStep.agreesOff (hstep : roster.StopStep continues id next) :
    AgreesOff id (roster.settled stoppedRunning stoppedPreempted)
      (next.settled nextRunning nextPreempted) := by
  have hruns (other : ρ) (hne : other ≠ id) : (roster.running.filter (· ∉ nextRunning)).count other =
      (roster.running.filter (· ∉ stoppedRunning)).count other :=
    count_filter_of_mem_iff (hrun other hne)
  have hwaits (other : ρ) (hne : other ≠ id) : (roster.waiting.filter (· ∉ nextPreempted)).count other =
      (roster.waiting.filter (· ∉ stoppedPreempted)).count other :=
    count_filter_of_mem_iff (hpreempted other hne)
  have hstat (status : RequestStatus) (other : ρ) (hne : other ≠ id) :
      update roster.status id status other = roster.status other :=
    update_of_ne hne _ _
  cases hstep with
  | finished _ hids =>
    refine ⟨hruns, hwaits, fun _ _ ↦ rfl, hstat _, fun other hne ↦ ?_⟩
    rcases hids with rfl | rfl
    · exact .rfl
    · exact mem_erase_of_ne hne
  | continued _ hwait =>
    refine ⟨hruns, fun other hne ↦ ?_, fun _ _ ↦ rfl, hstat _, fun _ _ ↦ .rfl⟩
    refine .trans ?_ (hwaits other hne)
    change List.count other (List.filter _ _) = _
    rw [count_filter_notMem, count_filter_notMem, hwait.count_eq, count_cons_of_ne hne.symm]
  | suspended _ hskipped =>
    refine ⟨hruns, hwaits, fun other hne ↦ ?_, hstat _, fun _ _ ↦ .rfl⟩
    exact (hskipped.count_eq other).trans (count_cons_of_ne hne.symm)

open StopStep

theorem Valid.stop (hvalid : (roster.settled stoppedRunning stoppedPreempted).Valid limit)
    (hlive : roster.IsLive id) (hstep : roster.StopStep continues id next)
    (hbefore : roster.status id ≠ .waitingForStreamingReq)
    (hleft : (roster.running.filter (· ∉ nextRunning)).count id = 0)
    (hbounded : (roster.running.filter (· ∉ nextRunning)).length ≤
      (roster.running.filter (· ∉ stoppedRunning)).length)
    (hstopped : ¬ continues → (roster.waiting.filter (· ∉ nextPreempted)).count id = 0 ∧
      roster.skippedWaiting.count id = 0)
    (hcontinued : continues → ∀ waiting : List ρ, waiting.Perm (id :: roster.waiting) →
      (waiting.filter (· ∉ nextPreempted)).count id + roster.skippedWaiting.count id = 1) :
    (next.settled nextRunning nextPreempted).Valid limit := by
  have hself (status : RequestStatus) : update roster.status id status id = status := update_self id _ _
  cases hstep with
  | finished hstop hids =>
    obtain ⟨hwait, hskipped⟩ := hstopped hstop
    have hagree := agreesOff hrun hpreempted (finished hstop (Or.inl (Eq.refl roster.requestIds)))
    have hkept := hvalid.of_stop hagree hlive.1 rfl hbefore hleft hbounded
      (.inl ⟨hself _, hwait, hskipped, rfl⟩)
    rcases hids with rfl | rfl
    · exact hkept
    · exact hkept.erase (hself _)
  | continued hgo hwait =>
    have hagree := agreesOff hrun hpreempted (continued hgo hwait)
    exact hvalid.of_stop hagree hlive.1 rfl hbefore hleft hbounded
      (.inr (.inl ⟨hself _, hcontinued hgo _ hwait, rfl⟩))
  | suspended hstop hskips =>
    obtain ⟨hwait, hskipped⟩ := hstopped hstop
    have hagree := agreesOff hrun hpreempted (suspended hstop hskips)
    have hone := hskips.count_eq id
    rw [count_cons_self, hskipped] at hone
    exact hvalid.of_stop hagree hlive.1 rfl hbefore hleft hbounded (.inr (.inr ⟨hself _, hwait, hone, rfl⟩))

end

theorem settled_nil (roster : Roster ρ) : roster.settled [] [] = roster := by
  simp [settled]

omit [LinearOrder ρ] in
theorem mem_append_singleton_iff (hne : other ≠ id) : other ∈ gone ++ [id] ↔ other ∈ gone := by
  simp [hne]

theorem length_filter_append_le (items gone : List ρ) (id : ρ) :
    (items.filter (· ∉ gone ++ [id])).length ≤ (items.filter (· ∉ gone)).length := by
  refine Sublist.length_le (monotone_filter_right items fun other hother ↦ ?_)
  simp only [mem_append, not_or, decide_eq_true_eq] at hother ⊢
  exact hother.1

variable (hvalid : (roster.settled stoppedRunning stoppedPreempted).Valid limit) (hlive : roster.IsLive id)
  (hfresh : id ∉ stoppedPreempted)
include hvalid hlive hfresh

theorem Valid.stop_running (hstat : roster.status id = .running) (hstep : roster.StopStep continues id next) :
    (next.settled (stoppedRunning ++ [id]) stoppedPreempted).Valid limit := by
  obtain ⟨-, hwait, hskipped⟩ := hvalid.counts_of_running hlive hstat
  refine hvalid.stop (fun _ ↦ mem_append_singleton_iff) (fun _ _ ↦ .rfl) hlive hstep ?_ ?_
    (length_filter_append_le _ _ _) (fun _ ↦ ⟨hwait, hskipped⟩) fun _ waiting hperm ↦ ?_
  · rw [hstat]
    nofun
  · rw [count_filter_append, if_pos rfl]
  · have hzero : (roster.waiting.filter (· ∉ stoppedPreempted)).count id = 0 := hwait
    have hnone : roster.skippedWaiting.count id = 0 := hskipped
    rw [count_filter_of_perm hperm hfresh, hzero, hnone, if_pos rfl]

/-- A request that does not run and stops is taken out of the waiting queue, where it has to be unless it
goes on with its next input. -/
theorem Valid.stop_preempted (hstat : roster.status id ≠ .running)
    (hplace : if id ∈ roster.waiting then ¬ continues
      else continues ∧ roster.status id ≠ .waitingForStreamingReq)
    (hstep : roster.StopStep continues id next) :
    (next.settled stoppedRunning (stoppedPreempted ++ [id])).Valid limit := by
  have hremoved (waiting : List ρ) : (waiting.filter (· ∉ stoppedPreempted ++ [id])).count id = 0 := by
    rw [count_filter_append, if_pos rfl]
  by_cases hmem : id ∈ roster.waiting
  · rw [if_pos hmem] at hplace
    have hkept : id ∈ (roster.settled stoppedRunning stoppedPreempted).waiting :=
      mem_filter.2 ⟨hmem, decide_eq_true hfresh⟩
    obtain ⟨hrun, -, hskipped⟩ := hvalid.counts_of_mem_waiting hlive hkept
    refine hvalid.stop (fun _ _ ↦ .rfl) (fun _ ↦ mem_append_singleton_iff) hlive hstep ?_ hrun
      (le_refl _) (fun _ ↦ ⟨hremoved _, hskipped⟩) fun hgo ↦ absurd hgo hplace
    intro hstreaming
    have hready := (hvalid.sorted id).waiting hkept
    change (roster.status id).Ready at hready
    rw [hstreaming] at hready
    rcases hready with h | h <;> cases h
  · rw [if_neg hmem] at hplace
    have hgone : id ∉ (roster.settled stoppedRunning stoppedPreempted).waiting :=
      fun h ↦ hmem (mem_filter.1 h).1
    obtain ⟨hrun, -, hskipped⟩ := hvalid.counts_of_skipped hlive hstat hgone
    refine hvalid.stop (fun _ _ ↦ .rfl) (fun _ ↦ mem_append_singleton_iff) hlive hstep hplace.2 hrun
      (le_refl _) (absurd hplace.1) fun _ waiting _ ↦ ?_
    rw [hremoved, zero_add]
    exact hskipped

end Roster

end Nelssa.Sched
