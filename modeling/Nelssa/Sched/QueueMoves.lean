import Nelssa.Sched.StepConsistency

/-!
# How requests move between the queues

Every step of `schedule()` changes the status and the queue of at most one request. A call therefore
neither loses nor copies a request, it leaves every request in a queue that fits its status, and it
neither starts nor ends the wait of a streaming session for its next input.
-/

namespace Nelssa.Sched

open Nelssa.Core Foundation.Loops Function List Pass

variable {ρ ε : Type*} {config : SchedulerConfig} {env : Environment ε ρ}

theorem lawfulBEq_of_linearOrder [LinearOrder ρ] : LawfulBEq ρ := inferInstance

/-- The status of a request that can be scheduled. -/
def RequestStatus.Ready (status : RequestStatus) : Prop := status = .waiting ∨ status = .preempted

/-- The status of a request that neither runs nor is finished. -/
def RequestStatus.Parked (status : RequestStatus) : Prop := status ≠ .running ∧ status ≠ .finished

variable {status : RequestStatus}

theorem RequestStatus.Ready.parked (hready : status.Ready) : status.Parked := by
  rcases hready with rfl | rfl
  · exact ⟨nofun, nofun⟩
  · exact ⟨nofun, nofun⟩

theorem StatusTurn.streaming {after : RequestStatus} (hturn : StatusTurn status after) :
    after = .waitingForStreamingReq ↔ status = .waitingForStreamingReq := by
  rcases hturn with rfl | ⟨rfl | rfl, rfl | rfl⟩ <;> simp

variable {sched after : Scheduler ε ρ}

namespace Scheduler

def queued (sched : Scheduler ε ρ) : List ρ :=
  sched.running ++ (sched.waiting.members ++ sched.skippedWaiting.members)

theorem mem_queued {id : ρ} :
    id ∈ sched.queued ↔
      id ∈ sched.running ∨ id ∈ sched.waiting.members ∨ id ∈ sched.skippedWaiting.members := by
  rw [queued, mem_append, mem_append]

/-- Every request is in a queue that fits its status. -/
structure Sorted (sched : Scheduler ε ρ) : Prop where
  running : ∀ id ∈ sched.running, (sched.requests id).status = .running
  waiting : ∀ id ∈ sched.waiting.members, (sched.requests id).status.Ready
  skippedWaiting : ∀ id ∈ sched.skippedWaiting.members, (sched.requests id).status.Parked

theorem Sorted.of_status (hsorted : sched.Sorted) (hrun : after.running = sched.running)
    (hwait : after.waiting = sched.waiting) (hskipped : after.skippedWaiting = sched.skippedWaiting)
    (hstat : ∀ id, (after.requests id).status = (sched.requests id).status) : after.Sorted := by
  refine ⟨fun id hid ↦ ?_, fun id hid ↦ ?_, fun id hid ↦ ?_⟩
  · rw [hstat]
    exact hsorted.running id (hrun ▸ hid)
  · rw [hstat]
    exact hsorted.waiting id (hwait ▸ hid)
  · rw [hstat]
    exact hsorted.skippedWaiting id (hskipped ▸ hid)

/-- No request leaves or enters the queues, and no session starts or ends its wait for input. -/
structure Moves (sched after : Scheduler ε ρ) : Prop where
  queued : after.queued.Perm sched.queued
  status : ∀ id, id ∉ sched.queued → (after.requests id).status = (sched.requests id).status
  streaming : ∀ id, (after.requests id).status = .waitingForStreamingReq ↔
    (sched.requests id).status = .waitingForStreamingReq

namespace Moves

variable {middle : Scheduler ε ρ}

theorem trans (hfirst : sched.Moves middle) (hsecond : middle.Moves after) : sched.Moves after := by
  refine ⟨hsecond.queued.trans hfirst.queued, fun id hid ↦ ?_, fun id ↦ ?_⟩
  · exact (hsecond.status id fun h ↦ hid (hfirst.queued.mem_iff.1 h)).trans (hfirst.status id hid)
  · exact (hsecond.streaming id).trans (hfirst.streaming id)

theorem of_status (hqueued : after.queued.Perm sched.queued)
    (hstat : ∀ id, (after.requests id).status = (sched.requests id).status) : sched.Moves after :=
  ⟨hqueued, fun id _ ↦ hstat id, fun id ↦ by rw [hstat]⟩

end Moves

/-- Only the request `id` changes its status or its queue, and its new queue fits its new status. -/
structure Relocates (id : ρ) (sched after : Scheduler ε ρ) : Prop where
  queued : after.queued.Perm sched.queued
  mem : id ∈ sched.queued
  status : ∀ other, other ≠ id → (after.requests other).status = (sched.requests other).status
  streaming : (after.requests id).status = .waitingForStreamingReq ↔
    (sched.requests id).status = .waitingForStreamingReq
  running : ∀ other ∈ after.running, other ≠ id → other ∈ sched.running
  waiting : ∀ other ∈ after.waiting.members, other ≠ id → other ∈ sched.waiting.members
  skippedWaiting : ∀ other ∈ after.skippedWaiting.members, other ≠ id →
    other ∈ sched.skippedWaiting.members
  selfRunning : id ∈ after.running → (after.requests id).status = .running
  selfWaiting : id ∈ after.waiting.members → (after.requests id).status.Ready
  selfSkipped : id ∈ after.skippedWaiting.members → (after.requests id).status.Parked

namespace Relocates

variable {id : ρ} (hmove : sched.Relocates id after)
include hmove

theorem moves : sched.Moves after := by
  refine ⟨hmove.queued, fun other hother ↦ ?_, fun other ↦ ?_⟩
  · exact hmove.status other fun h ↦ hother (h ▸ hmove.mem)
  · by_cases hsame : other = id
    · exact hsame ▸ hmove.streaming
    · rw [hmove.status other hsame]

theorem sorted (hsorted : sched.Sorted) : after.Sorted := by
  refine ⟨fun other hother ↦ ?_, fun other hother ↦ ?_, fun other hother ↦ ?_⟩
  · by_cases hsame : other = id
    · exact hsame ▸ hmove.selfRunning (hsame ▸ hother)
    · rw [hmove.status other hsame]
      exact hsorted.running other (hmove.running other hother hsame)
  · by_cases hsame : other = id
    · exact hsame ▸ hmove.selfWaiting (hsame ▸ hother)
    · rw [hmove.status other hsame]
      exact hsorted.waiting other (hmove.waiting other hother hsame)
  · by_cases hsame : other = id
    · exact hsame ▸ hmove.selfSkipped (hsame ▸ hother)
    · rw [hmove.status other hsame]
      exact hsorted.skippedWaiting other (hmove.skippedWaiting other hother hsame)

end Relocates

end Scheduler

open Scheduler

/-! ## The running loop -/

theorem relocates_preempted {victim : ρ} {requests : ρ → Request} {waiting : RequestQueue ρ}
    {running : List ρ} (environment : ε) (kvCacheManager : KVCacheManager ρ)
    (hsched : sched.WellFormed config) (hrun : sched.running.Perm (victim :: running))
    (hstat : (requests victim).status = .preempted)
    (hreqs : ∀ other, other ≠ victim → requests other = sched.requests other)
    (hwait : waiting.members.Perm (victim :: sched.waiting.members)) :
    sched.Relocates victim { sched with running, requests, waiting, environment, kvCacheManager } := by
  have hmoved : (running ++ (waiting.members ++ sched.skippedWaiting.members)).Perm sched.queued := by
    refine ((hwait.append_right _).append_left _).trans ?_
    exact perm_middle.trans (hrun.symm.append_right _)
  have hvictim := hrun.mem_iff.2 mem_cons_self
  have hnodup := hmoved.nodup_iff.2 hsched.nodup
  have hwaits := hwait.mem_iff.2 mem_cons_self
  refine ⟨hmoved, ?_, ?_, ?_, ?_, ?_, fun other hother _ ↦ hother, fun hself ↦ ?_, fun _ ↦ ?_, fun hself ↦ ?_⟩
  · exact mem_queued.2 (.inl hvictim)
  · exact fun other hne ↦ congrArg Request.status (hreqs other hne)
  · rw [hsched.running victim hvictim]
    simp [hstat]
  · exact fun other hother _ ↦ hrun.mem_iff.2 (mem_cons_of_mem _ hother)
  · exact fun other hother hne ↦ mem_of_ne_of_mem hne (hwait.mem_iff.1 hother)
  · exact absurd (mem_append_left _ hwaits) (disjoint_of_nodup_append hnodup hself)
  · exact .inr hstat
  · exact absurd hself (disjoint_of_nodup_append (nodup_append.1 hnodup).2.1 hwaits)

variable [LinearOrder ρ] {pass : Pass ε ρ}

theorem moves_runningStep {next : Pass ε ρ} (hsched : pass.sched.WellFormed config)
    (hsorted : pass.sched.Sorted) (hstep : pass.runningStep config env = .ok (some next)) :
    pass.sched.Moves next.sched ∧ next.sched.Sorted := by
  obtain ⟨requests, environment, kvCacheManager, ⟨hreqs, hnext⟩ |
    ⟨victim, hmem, waiting, hstat, hreqs, hwait, hnext⟩⟩ := runningStep_moves hstep
  all_goals rw [hnext]
  · have hstat (other : ρ) := (congrArg Request.status (hreqs other)).trans rfl
    exact ⟨.of_status (.refl _) hstat, hsorted.of_status rfl rfl rfl hstat⟩
  · have hmove := relocates_preempted environment kvCacheManager hsched (perm_cons_erase hmem) hstat
      hreqs hwait
    exact ⟨hmove.moves, hmove.sorted hsorted⟩

variable {final : Pass ε ρ}

theorem moves_scheduleRunning (hsched : sched.WellFormed config) (hsorted : sched.Sorted)
    (hfinal : sched.scheduleRunning config env = .ok final) :
    sched.Moves final.sched ∧ final.sched.Sorted := by
  have hinv : final.sched.WellFormed config ∧ sched.Moves final.sched ∧ final.sched.Sorted := by
    have hreaches := reaches_of_loop hfinal
    apply hreaches.invariant
    · exact ⟨{ hsched with }, .of_status (.refl _) fun _ ↦ rfl, { hsorted with }⟩
    · intro current next _ hinv hstep
      obtain ⟨hcur, hmoves, hfits⟩ := hinv
      obtain ⟨hnext, hafter⟩ := moves_runningStep hcur hfits hstep
      exact ⟨wellFormed_runningStep hcur hstep, hmoves.trans hnext, hafter⟩
  exact hinv.2

/-! ## The waiting loop -/

omit [LinearOrder ρ] in
theorem RequestQueue.peekRequest_of_popRequest {lt : ρ → ρ → Bool} {queue rest : RequestQueue ρ} {head : ρ}
    (hpop : queue.popRequest lt = some (head, rest)) : queue.peekRequest = some head := by
  cases queue with
  | fcfs deque =>
    cases deque with
    | nil => cases hpop
    | cons first others =>
      cases hpop
      rfl
  | priority _ =>
    obtain ⟨_, hpopped, hsame⟩ := Option.map_eq_some_iff.1 hpop
    cases hsame
    exact Foundation.BinaryHeap.head_of_pop lt hpopped

open RequestQueue

namespace WaitingPass

variable {name : QueueName} {id head : ρ} {state popped next : WaitingPass ε ρ}

theorem peekRequest_of_popFrom (hpop : state.popFrom name = .ok (head, popped)) :
    (state.pass.sched.queue name).peekRequest = some head := by
  unfold popFrom at hpop
  split at hpop
  · cases hpop
  · next first rest hfirst =>
    cases hpop
    exact peekRequest_of_popRequest hfirst

/-- The scheduler with the requests that the loop has put aside. -/
def merged (state : WaitingPass ε ρ) : Scheduler ε ρ :=
  { state.pass.sched with
    skippedWaiting := .fcfs
      (state.pass.sched.skippedWaiting.members ++ state.stepSkippedWaiting.members) }

omit [LinearOrder ρ] in
theorem mem_merged (hid : id ∈ (state.pass.sched.queue name).members) : id ∈ state.merged.queued := by
  cases name with
  | waiting => exact mem_queued.2 (.inr (.inl hid))
  | skippedWaiting => exact mem_queued.2 (.inr (.inr (mem_append_left _ hid)))

omit [LinearOrder ρ] in
theorem relocates_turns (hqueued : state.Queued config []) (hsorted : state.merged.Sorted)
    (hid : id ∈ (state.pass.sched.queue name).members) (hturn : state.pass.sched.Turns id sched) :
    state.merged.Relocates id (state.setSched sched).merged := by
  have hrun := hqueued.notMem_running hid
  have hlists : (state.setSched sched).merged.queued = state.merged.queued := by
    simp [merged, Scheduler.queued, setSched, hturn.running, hturn.waiting, hturn.skippedWaiting]
  have hskipped : (state.setSched sched).merged.skippedWaiting = state.merged.skippedWaiting := by
    simp [merged, setSched, hturn.skippedWaiting]
  refine ⟨.of_eq hlists, mem_merged hid, ?_, hturn.status.streaming, ?_, ?_, ?_, ?_, ?_, ?_⟩
  · exact fun other hne ↦ congrArg Request.status (hturn.requests other hne)
  · exact fun other hother _ ↦ hturn.running ▸ hother
  · exact fun other hother _ ↦ hturn.waiting ▸ hother
  · exact fun other hother _ ↦ hskipped ▸ hother
  · exact fun hself ↦ absurd (hturn.running ▸ hself) hrun
  · intro hself
    rcases hturn.status with hsame | ⟨-, hready⟩
    · exact (congrArg RequestStatus.Ready hsame).mpr (hsorted.waiting id (hturn.waiting ▸ hself))
    · exact hready
  · intro hself
    rcases hturn.status with hsame | ⟨-, hready⟩
    · exact (congrArg RequestStatus.Parked hsame).mpr (hsorted.skippedWaiting id (hskipped ▸ hself))
    · exact RequestStatus.Ready.parked hready

section

variable (hpop : state.popFrom name = .ok (head, popped))
include hpop

theorem subset_popFrom :
    popped.pass.sched.waiting.members ⊆ state.pass.sched.waiting.members ∧
      popped.pass.sched.skippedWaiting.members ⊆ state.pass.sched.skippedWaiting.members := by
  obtain ⟨rest, hrest, rfl⟩ := popFrom_cases hpop
  have hsubset : rest.members ⊆ (state.pass.sched.queue name).members :=
    fun id hid ↦ hrest.mem_iff.2 (mem_cons_of_mem _ hid)
  cases name with
  | waiting => exact ⟨hsubset, .refl _⟩
  | skippedWaiting => exact ⟨.refl _, hsubset⟩

theorem requests_popFrom : popped.pass.sched.requests = state.pass.sched.requests := by
  obtain ⟨_, -, rfl⟩ := popFrom_cases hpop
  cases name <;> rfl

theorem stepSkippedWaiting_popFrom : popped.stepSkippedWaiting = state.stepSkippedWaiting := by
  obtain ⟨_, -, rfl⟩ := popFrom_cases hpop
  rfl

end

theorem relocates_putAside (requests : ρ → Request) (hqueued : state.Queued config [])
    (hpop : state.popFrom name = .ok (head, popped)) (hstat : ∀ other, other ≠ head →
      (requests other).status = (state.pass.sched.requests other).status)
    (hstreaming : (requests head).status = .waitingForStreamingReq ↔
      (state.pass.sched.requests head).status = .waitingForStreamingReq)
    (hparked : (requests head).status.Parked) :
    state.merged.Relocates head
      ((popped.setSched { popped.pass.sched with requests }).putAside head).merged := by
  have hfresh := (nodup_cons.1 (hqueued.pop hpop).nodup).1
  obtain ⟨hwait, hskipped⟩ := subset_popFrom hpop
  let after := popped.setSched { popped.pass.sched with requests }
  have haside : (after.putAside head).stepSkippedWaiting.members.Perm
      (head :: state.stepSkippedWaiting.members) := by
    rw [← stepSkippedWaiting_popFrom hpop]
    exact prependRequest_perm _ _ _
  refine ⟨(after.queued_putAside head).trans (queued_popFrom hpop).symm, ?_, hstat, hstreaming, ?_, ?_,
    ?_, fun hself ↦ ?_, fun hself ↦ ?_, fun _ ↦ hparked⟩
  · exact (queued_popFrom hpop).mem_iff.2 mem_cons_self
  · exact fun other hother _ ↦ running_popFrom hpop ▸ hother
  · exact fun other hother _ ↦ hwait hother
  · intro other hother hne
    rcases mem_append.1 hother with hold | hnew
    · exact mem_append_left _ (hskipped hold)
    · exact mem_append_right _ (mem_of_ne_of_mem hne (haside.mem_iff.1 hnew))
  · exact absurd (mem_append_left _ hself) hfresh
  · exact absurd (mem_append_right _ (mem_append_left _ hself)) hfresh

theorem relocates_admitted {plan : AdmissionPlan} (scheduledLoras : List ℕ)
    (hqueued : state.Queued config []) (hpop : state.popFrom name = .ok (head, popped))
    (hcommit : popped.pass.commitWaiting env head plan = .ok pass) :
    state.merged.Relocates head { popped with pass, scheduledLoras : WaitingPass ε ρ }.merged := by
  have hfresh := (nodup_cons.1 (hqueued.pop hpop).nodup).1
  obtain ⟨hwaiting, hskipped⟩ := subset_popFrom hpop
  obtain ⟨requests, _, _, _, _, _, hready, ⟨hrun, -⟩, hreqs, -, rfl⟩ := commitWaiting_cases hcommit
  rw [requests_popFrom hpop] at hready hreqs
  refine ⟨?_, ?_, fun other hne ↦ congrArg Request.status (hreqs other hne), ?_, ?_, ?_, ?_,
    fun _ ↦ hrun, fun hself ↦ ?_, fun hself ↦ ?_⟩
  · refine .trans ?_ (queued_popFrom hpop).symm
    change ((popped.pass.sched.running ++ [head]) ++ _).Perm _
    rw [append_assoc]
    exact perm_middle
  · exact (queued_popFrom hpop).mem_iff.2 mem_cons_self
  · change (requests head).status = _ ↔ (state.pass.sched.requests head).status = _
    rcases hready with hwait | hpreempted
    · simp [hrun, hwait]
    · simp [hrun, hpreempted]
  · intro other hother hne
    rcases mem_append.1 hother with hold | hnew
    · exact running_popFrom hpop ▸ hold
    · exact absurd (mem_singleton.1 hnew) hne
  · exact fun other hother _ ↦ hwaiting hother
  · intro other hother _
    rcases mem_append.1 hother with hold | hnew
    · exact mem_append_left _ (hskipped hold)
    · exact mem_append_right _ (stepSkippedWaiting_popFrom hpop ▸ hnew)
  · exact absurd (mem_append_right _ (mem_append_left _ hself)) hfresh
  · exact absurd (mem_append_right _ (mem_append_right _ hself)) hfresh

theorem moves_turn (hqueued : state.Queued config []) (hsorted : state.merged.Sorted)
    (hid : (state.pass.sched.queue name).peekRequest = some id) (hturn : Turn env name id state next) :
    state.merged.Moves next.merged ∧ next.merged.Sorted := by
  have hmem := mem_of_head? hid
  have hrun := hqueued.notMem_running hmem
  have hturned {sched : Scheduler ε ρ} (hafter : state.pass.sched.Turns id sched) :
      state.merged.Moves (state.setSched sched).merged ∧ (state.setSched sched).merged.Sorted ∧
        (state.setSched sched).Queued config [] := by
    have hmove := relocates_turns hqueued hsorted hmem hafter
    exact ⟨hmove.moves, hmove.sorted hsorted, hqueued.touch hrun hafter.toTouches⟩
  have hhead {sched : Scheduler ε ρ} {head : ρ} {popped : WaitingPass ε ρ}
      (hafter : state.pass.sched.Turns id sched)
      (hpop : (state.setSched sched).popFrom name = .ok (head, popped)) : head = id := by
    have hpeek := peekRequest_of_popFrom hpop
    have hqueue : sched.queue name = state.pass.sched.queue name := by
      cases name with
      | waiting => exact hafter.waiting
      | skippedWaiting => exact hafter.skippedWaiting
    rw [setSched, hqueue, hid] at hpeek
    exact (Option.some.inj hpeek).symm
  cases hturn with
  | @skipped sched head popped hafter hpop =>
    obtain ⟨hmoves, hfits, hlists⟩ := hturned hafter
    have hparked : (sched.requests head).status.Parked := by
      cases name with
      | waiting => exact (hfits.waiting head (mem_of_head? (peekRequest_of_popFrom hpop))).parked
      | skippedWaiting =>
        exact hfits.skippedWaiting head (mem_append_left _ (mem_of_head? (peekRequest_of_popFrom hpop)))
    have hmove := relocates_putAside popped.pass.sched.requests hlists hpop
      (fun other _ ↦ by rw [requests_popFrom hpop]) (by rw [requests_popFrom hpop])
      (by rw [requests_popFrom hpop]; exact hparked)
    exact ⟨hmoves.trans hmove.moves, hmove.sorted hfits⟩
  | stopped hafter =>
    obtain ⟨hmoves, hfits, -⟩ := hturned hafter
    exact ⟨hmoves, hfits⟩
  | @loading sched head popped numComputedTokens hafter hready hpop =>
    obtain ⟨hmoves, hfits, hlists⟩ := hturned hafter
    obtain rfl := hhead hafter hpop
    have hmove := relocates_putAside (update popped.pass.sched.requests head
      { popped.pass.sched.requests head with status := .waitingForRemoteKvs, numComputedTokens }) hlists hpop
      (fun other hne ↦ by rw [update_of_ne hne, requests_popFrom hpop]) ?_ ?_
    · exact ⟨hmoves.trans hmove.moves, hmove.sorted hfits⟩
    · refine iff_of_false (by simp) fun hstreaming ↦ ?_
      rw [setSched] at hstreaming
      rw [hstreaming] at hready
      cases hready
    · exact ⟨by simp, by simp⟩
  | @admitted _ _ _ _ _ scheduledLoras hafter hpop _ hcommit =>
    obtain ⟨hmoves, hfits, hlists⟩ := hturned hafter
    have hmove := relocates_admitted scheduledLoras hlists hpop hcommit
    exact ⟨hmoves.trans hmove.moves, hmove.sorted hfits⟩

end WaitingPass

theorem moves_scheduleWaiting (hsched : pass.sched.WellFormed config) (hsorted : pass.sched.Sorted)
    (hfinal : pass.scheduleWaiting config env = .ok final) :
    pass.sched.Moves final.sched ∧ final.sched.Sorted := by
  rcases scheduleWaiting_cases hfinal with
    rfl | ⟨loras, state, _, -, hreaches, -, hskipped, rfl⟩
  · exact ⟨.of_status (.refl _) fun _ ↦ rfl, hsorted⟩
  · have hempty : (create config.policy : RequestQueue ρ).members = [] := by
      cases config.policy <;> rfl
    have hinv : pass.sched.Moves state.merged ∧ state.merged.Sorted := by
      apply hreaches.invariant
      · have hskips : pass.sched.skippedWaiting.members ++
            (create config.policy : RequestQueue ρ).members =
              pass.sched.skippedWaiting.members := by
          rw [hempty, append_nil]
        refine ⟨.of_status ?_ fun _ ↦ rfl, { hsorted with skippedWaiting := fun id hid ↦ ?_ }⟩
        · exact ((Perm.of_eq hskips).append_left _).append_left _
        · exact hsorted.skippedWaiting id (hskips ▸ hid)
      · intro current next hcur hinv hstep
        have hqueued := queued_reaches (queued_start hsched loras) hcur
        obtain ⟨_, id, hid, -, -, -, hturn⟩ := WaitingPass.turn_of_waitingStep hstep
        obtain ⟨hmoves, hfits⟩ := WaitingPass.moves_turn hqueued hinv.2 hid hturn
        exact ⟨hinv.1.trans hmoves, hfits⟩
    have hback := hskipped.trans perm_append_comm
    exact ⟨hinv.1.trans (.of_status ((hback.append_left _).append_left _) fun _ ↦ rfl),
      { hinv.2 with skippedWaiting := fun id hid ↦ hinv.2.skippedWaiting id (hback.mem_iff.1 hid) }⟩

/-- A call of `schedule()` keeps every request in one queue, and its queue fits its status. -/
theorem moves_schedule (hsched : sched.WellFormed config) (hsorted : sched.Sorted)
    (hschedule : sched.schedule config env = .ok (final, after)) : sched.Moves after ∧ after.Sorted := by
  obtain ⟨_, hrun, hwait, -, rfl⟩ := schedule_cases hschedule
  obtain ⟨hfirst, hmiddle⟩ := moves_scheduleRunning hsched hsorted hrun
  obtain ⟨hsecond, hlast⟩ := moves_scheduleWaiting (wellFormed_scheduleRunning hsched hrun) hmiddle hwait
  have hstat (id : ρ) : ((final.sched.updateAfterSchedule final.numScheduledTokens).requests id).status =
      (final.sched.requests id).status := by
    unfold updateAfterSchedule
    dsimp only
    split <;> rfl
  exact ⟨hfirst.trans (hsecond.trans (.of_status (.refl _) hstat)), hlast.of_status rfl rfl rfl hstat⟩

theorem moves_preemptLast (hsched : sched.WellFormed config) (hsorted : sched.Sorted)
    (hpreempt : sched.preemptLast env = .ok after) :
    sched.Moves after ∧ after.Sorted ∧ after.running.length ≤ sched.running.length := by
  unfold preemptLast at hpreempt
  split at hpreempt
  · cases hpreempt
    exact ⟨.of_status (.refl _) fun _ ↦ rfl, hsorted, le_refl _⟩
  · next id hlast =>
    obtain ⟨_, _, environment, hstat, hreqs, hwait, rfl⟩ := preemptRequest_cases hpreempt
    have hrun : sched.running.Perm (id :: sched.running.dropLast) := by
      have hsplit := dropLast_append_getLast? id hlast
      conv_lhs => rw [← hsplit]
      exact perm_append_singleton id _
    have hmove := relocates_preempted environment (sched.kvCacheManager.free id).2 hsched hrun hstat
      hreqs hwait
    exact ⟨hmove.moves, hmove.sorted hsorted, (dropLast_sublist _).length_le⟩

end Nelssa.Sched
