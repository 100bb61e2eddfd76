import Nelssa.Sched.RunningLoop

/-!
# What the waiting loop keeps

The accounts of a whole call: the scheduled requests are distinct running requests, each with its tokens
and blocks, and tokens and budget add up. They follow from the books of the running loop, and every
round of the loop over the waiting requests keeps them, because a round only touches the request at the
head of a waiting queue before it joins the running list.
-/

namespace Nelssa.Sched

open Nelssa.Core Foundation.Loops Function Scheduler WaitingPass Pass
open List hiding min

variable {ρ ε : Type*} [LinearOrder ρ] {config : SchedulerConfig} {env : Environment ε ρ} {pass : Pass ε ρ}
  {limit : ℤ}

namespace Pass

/-- All requests that get tokens in a call. -/
def scheduledReqs (pass : Pass ε ρ) : List ρ :=
  pass.scheduledNewReqs ++ (pass.scheduledResumedReqs ++ pass.scheduledRunningReqs)

/-- The accounts of a call that started with the budget `limit`. -/
structure Accounts (limit : ℤ) (pass : Pass ε ρ) : Prop where
  nodup : pass.scheduledReqs.Nodup
  running : ∀ id ∈ pass.scheduledReqs, id ∈ pass.sched.running
  tokens : ∀ id, id ∈ pass.numScheduledTokens ↔ id ∈ pass.scheduledReqs
  blocks : ∀ id, id ∈ pass.reqToNewBlocks ↔ id ∈ pass.scheduledReqs
  total : pass.totalNumScheduledTokens + pass.tokenBudget = limit
  budget : 0 ≤ pass.tokenBudget
  held : ∀ id newBlocks, pass.reqToNewBlocks.lookup id = some newBlocks →
    List.Forall₂ (· ⊆ ·) newBlocks (pass.sched.kvCacheManager.getBlocks id)
  preempted : ∀ id ∈ pass.preemptedReqs, id ∉ pass.sched.running

theorem Books.accounts (hbooks : pass.Books limit) : pass.Accounts limit := by
  have hscheduled : pass.scheduledReqs = pass.scheduledRunningReqs := by
    rw [scheduledReqs, hbooks.admitted.1, hbooks.admitted.2]
    rfl
  refine ⟨?_, ?_, ?_, ?_, hbooks.total, hbooks.budget, hbooks.held, hbooks.preempted⟩
  · rw [hscheduled]
    exact hbooks.nodup
  · rw [hscheduled]
    exact fun id hid ↦ mem_of_mem_take (hbooks.before id hid)
  · rw [hscheduled]
    exact hbooks.tokens
  · rw [hscheduled]
    exact hbooks.blocks

end Pass

/-! ## Changes of one waiting request -/

/-- Only the request `id` and its blocks may differ; the queues are the same. -/
structure Scheduler.Touches (id : ρ) (sched after : Scheduler ε ρ) : Prop where
  running : after.running = sched.running
  waiting : after.waiting = sched.waiting
  skippedWaiting : after.skippedWaiting = sched.skippedWaiting
  requests : ∀ other, other ≠ id → after.requests other = sched.requests other
  blocks : ∀ other, other ≠ id →
    after.kvCacheManager.getBlocks other = sched.kvCacheManager.getBlocks other

theorem requests_setRequest_self (sched : Scheduler ε ρ) (id : ρ) (change : Request → Request) :
    (sched.setRequest id change).requests id = change (sched.requests id) :=
  update_self id _ _

variable {sched : Scheduler ε ρ} {id : ρ} {middle after : Scheduler ε ρ}
  {kv : KVCacheManager ρ}

namespace Scheduler.Touches

omit [LinearOrder ρ] in
theorem trans (hfirst : sched.Touches id middle) (hsecond : middle.Touches id after) :
    sched.Touches id after where
  running := hsecond.running.trans hfirst.running
  waiting := hsecond.waiting.trans hfirst.waiting
  skippedWaiting := hsecond.skippedWaiting.trans hfirst.skippedWaiting
  requests := fun other hne ↦ (hsecond.requests other hne).trans (hfirst.requests other hne)
  blocks := fun other hne ↦ (hsecond.blocks other hne).trans (hfirst.blocks other hne)

omit [LinearOrder ρ] in
theorem refl (id : ρ) (sched : Scheduler ε ρ) : sched.Touches id sched :=
  ⟨rfl, rfl, rfl, fun _ _ ↦ rfl, fun _ _ ↦ rfl⟩

theorem setRequest (sched : Scheduler ε ρ) (id : ρ) (change : Request → Request) :
    sched.Touches id (sched.setRequest id change) :=
  ⟨rfl, rfl, rfl, fun _ hne ↦ update_of_ne hne _ _, fun _ _ ↦ rfl⟩

omit [LinearOrder ρ] in
theorem setEnvironment (id : ρ) (sched : Scheduler ε ρ) (environment : ε) :
    sched.Touches id { sched with environment } :=
  ⟨rfl, rfl, rfl, fun _ _ ↦ rfl, fun _ _ ↦ rfl⟩

omit [LinearOrder ρ] in
theorem setKv (hblocks : ∀ other, other ≠ id → kv.getBlocks other = sched.kvCacheManager.getBlocks other) :
    sched.Touches id { sched with kvCacheManager := kv } :=
  ⟨rfl, rfl, rfl, fun _ _ ↦ rfl, hblocks⟩

end Scheduler.Touches

/-- The head of a waiting queue keeps its status, or it is no longer blocked. -/
def StatusTurn (status after : RequestStatus) : Prop :=
  after = status ∨ (status = .waitingForRemoteKvs ∨ status = .waitingForStructuredOutputGrammar) ∧
    (after = .waiting ∨ after = .preempted)

theorem StatusTurn.trans {status middle after : RequestStatus} (hfirst : StatusTurn status middle)
    (hsecond : StatusTurn middle after) : StatusTurn status after := by
  rcases hsecond with rfl | ⟨hblocked, hready⟩
  · exact hfirst
  · rcases hfirst with rfl | ⟨-, rfl | rfl⟩
    · exact .inr ⟨hblocked, hready⟩
    · simp at hblocked
    · simp at hblocked

/-- Only the request `id` and its blocks may differ, and the request may be unblocked. -/
structure Scheduler.Turns (id : ρ) (sched after : Scheduler ε ρ) : Prop extends sched.Touches id after where
  status : StatusTurn (sched.requests id).status (after.requests id).status

namespace Scheduler.Turns

omit [LinearOrder ρ] in
theorem trans (hfirst : sched.Turns id middle) (hsecond : middle.Turns id after) : sched.Turns id after :=
  ⟨hfirst.toTouches.trans hsecond.toTouches, hfirst.status.trans hsecond.status⟩

omit [LinearOrder ρ] in
theorem refl (id : ρ) (sched : Scheduler ε ρ) : sched.Turns id sched := ⟨.refl id sched, .inl rfl⟩

theorem setRequest (sched : Scheduler ε ρ) (id : ρ) {change : Request → Request}
    (hchange : StatusTurn (sched.requests id).status (change (sched.requests id)).status) :
    sched.Turns id (sched.setRequest id change) := by
  refine ⟨.setRequest sched id change, ?_⟩
  rwa [requests_setRequest_self]

omit [LinearOrder ρ] in
theorem setEnvironment (id : ρ) (sched : Scheduler ε ρ) (environment : ε) :
    sched.Turns id { sched with environment } :=
  ⟨.setEnvironment id sched environment, .inl rfl⟩

omit [LinearOrder ρ] in
theorem setKv (hblocks : ∀ other, other ≠ id → kv.getBlocks other = sched.kvCacheManager.getBlocks other) :
    sched.Turns id { sched with kvCacheManager := kv } :=
  ⟨.setKv hblocks, .inl rfl⟩

theorem markLong (config : SchedulerConfig) (sched : Scheduler ε ρ) (id : ρ) :
    sched.Turns id (sched.markLong config id) := by
  unfold Scheduler.markLong
  split
  · exact setRequest sched id (.inl rfl)
  · exact refl id sched

theorem updateWaitingForRemoteKv (hupdate : sched.updateWaitingForRemoteKv id = .ok after) :
    sched.Turns id after := by
  have hblocks {failed : Prop} [Decidable failed] {req : CacheRequest ρ} {numTokens : ℕ} (other : ρ)
      (hne : other ≠ id) : (if failed then sched.kvCacheManager.free id
        else sched.kvCacheManager.cacheBlocks req numTokens).2.getBlocks other =
      sched.kvCacheManager.getBlocks other := by
    split
    · exact sched.kvCacheManager.getBlocks_free hne
    · exact sched.kvCacheManager.getBlocks_cacheBlocks _ _ other
  revert hupdate
  fun_cases Scheduler.updateWaitingForRemoteKv sched id with
  | case1 => nofun
  | case2 _ _ _ updated =>
    rintro ⟨⟩
    have hupdated : sched.Turns id updated := ⟨⟨rfl, rfl, rfl, fun _ _ ↦ rfl, hblocks⟩, .inl rfl⟩
    exact hupdated.trans (setRequest _ id (.inl rfl))
  | case3 =>
    intro hupdate
    rw [← Except.ok.inj hupdate]
    exact ⟨⟨rfl, rfl, rfl, fun _ _ ↦ rfl, hblocks⟩, .inl rfl⟩

theorem tryPromote {promoted : Bool}
    (hpromote : sched.tryPromoteBlockedWaitingRequest env id = .ok (promoted, after)) :
    sched.Turns id after ∧ (promoted = true → isBlockedWaitingStatus (after.requests id).status = false) := by
  revert hpromote
  fun_cases tryPromoteBlockedWaitingRequest sched env id with
  | case1 req hstat =>
    intro hpromote
    obtain ⟨updated, hupdated, ⟨⟩⟩ := map_eq_ok_iff.1 hpromote
    refine ⟨⟨(updateWaitingForRemoteKv hupdated).toTouches.trans (.setRequest _ id _), ?_⟩, fun _ ↦ ?_⟩
    all_goals rw [requests_setRequest_self]
    · refine .inr ⟨.inl hstat, ?_⟩
      by_cases hfirst : (updated.requests id).numPreemptions = 0 <;> simp [hfirst]
    · split <;> rfl
  | case3 req hstat =>
    rintro ⟨⟩
    refine ⟨setRequest _ id (.inr ⟨.inr hstat, .inl rfl⟩), fun _ ↦ ?_⟩
    rw [requests_setRequest_self]
    rfl
  | case2 | case4 | case5 =>
    rintro ⟨⟩
    exact ⟨refl id _, nofun⟩
  | case6 => nofun

end Scheduler.Turns

theorem Pass.Accounts.setSched (hacc : pass.Accounts limit)
    (hrun : sched.running = pass.sched.running) (hblocks : ∀ id ∈ pass.sched.running,
      sched.kvCacheManager.getBlocks id = pass.sched.kvCacheManager.getBlocks id) :
    { pass with sched }.Accounts limit := by
  refine { hacc with running := ?_, held := ?_, preempted := ?_ }
  · intro id hid
    exact hrun.symm ▸ hacc.running id hid
  · intro id newBlocks hlookup
    have hid := hacc.running id
      ((hacc.blocks id).1 (AList.lookup_isSome.1 (Option.isSome_of_mem hlookup)))
    exact (hblocks id hid).symm ▸ hacc.held id newBlocks hlookup
  · intro id hid
    exact hrun.symm ▸ hacc.preempted id hid

/-! ## The rounds of the waiting loop -/

variable {plan : AdmissionPlan} {state popped : WaitingPass ε ρ}
  {next : WaitingPass ε ρ}

namespace WaitingPass

variable {name : QueueName} {head : ρ}

theorem popFrom_cases (hpop : state.popFrom name = .ok (head, popped)) :
    ∃ rest, (state.pass.sched.queue name).members.Perm (head :: rest.members) ∧
      popped = state.setSched (state.pass.sched.setQueue rest name) := by
  unfold popFrom at hpop
  split at hpop
  · cases hpop
  · next first rest hfirst =>
    cases hpop
    exact ⟨rest, RequestQueue.popRequest_perm _ hfirst, rfl⟩

theorem skipHead_cases (hskip : state.skipHead name = .ok next) :
    ∃ head popped, state.popFrom name = .ok (head, popped) ∧ next = popped.putAside head := by
  obtain ⟨⟨head, popped⟩, hpop, hsame⟩ := map_eq_ok_iff.1 hskip
  exact ⟨head, popped, hpop, hsame.symm⟩

/-- What a round of the waiting loop does with the head `id` of the queue `name`. Before it takes a
request out of the queue, it changes at most this request and its blocks. -/
inductive Round (env : Environment ε ρ) (name : QueueName) (id : ρ) (state : WaitingPass ε ρ) :
    WaitingPass ε ρ → Prop where
  | skipped {sched : Scheduler ε ρ} {head : ρ} {popped : WaitingPass ε ρ}
      (htouch : state.pass.sched.Touches id sched)
      (hpop : (state.setSched sched).popFrom name = .ok (head, popped)) :
      Round env name id state (popped.putAside head)
  | stopped {sched : Scheduler ε ρ} (htouch : state.pass.sched.Touches id sched) :
      Round env name id state { state.setSched sched with stopped := true }
  | loading {sched : Scheduler ε ρ} {head : ρ} {popped : WaitingPass ε ρ} {change : Request → Request}
      (htouch : state.pass.sched.Touches id sched)
      (hpop : (state.setSched sched).popFrom name = .ok (head, popped)) :
      Round env name id state
        ((popped.setSched (popped.pass.sched.setRequest head change)).putAside head)
  | admitted {sched : Scheduler ε ρ} {head : ρ} {popped : WaitingPass ε ρ} {plan : AdmissionPlan}
      {pass : Pass ε ρ} {scheduledLoras : List ℕ} (htouch : state.pass.sched.Touches id sched)
      (hpop : (state.setSched sched).popFrom name = .ok (head, popped))
      (hfits : plan.numNewTokens ≤ state.pass.tokenBudget)
      (hcommit : popped.pass.commitWaiting env head plan = .ok pass) :
      Round env name id state { popped with pass, scheduledLoras }

/-- The same with the statuses: the head keeps its status or is unblocked, and it starts to load or joins
the running list only if it is not blocked. -/
inductive Turn (env : Environment ε ρ) (name : QueueName) (id : ρ) (state : WaitingPass ε ρ) :
    WaitingPass ε ρ → Prop where
  | skipped {sched : Scheduler ε ρ} {head : ρ} {popped : WaitingPass ε ρ}
      (hturn : state.pass.sched.Turns id sched)
      (hpop : (state.setSched sched).popFrom name = .ok (head, popped)) :
      Turn env name id state (popped.putAside head)
  | stopped {sched : Scheduler ε ρ} (hturn : state.pass.sched.Turns id sched) :
      Turn env name id state { state.setSched sched with stopped := true }
  | loading {sched : Scheduler ε ρ} {head : ρ} {popped : WaitingPass ε ρ} {numComputedTokens : ℕ}
      (hturn : state.pass.sched.Turns id sched)
      (hready : isBlockedWaitingStatus (sched.requests id).status = false)
      (hpop : (state.setSched sched).popFrom name = .ok (head, popped)) :
      Turn env name id state ((popped.setSched (popped.pass.sched.setRequest head fun req ↦
        { req with status := .waitingForRemoteKvs, numComputedTokens })).putAside head)
  | admitted {sched : Scheduler ε ρ} {head : ρ} {popped : WaitingPass ε ρ} {plan : AdmissionPlan}
      {pass : Pass ε ρ} {scheduledLoras : List ℕ} (hturn : state.pass.sched.Turns id sched)
      (hpop : (state.setSched sched).popFrom name = .ok (head, popped))
      (hfits : plan.numNewTokens ≤ state.pass.tokenBudget)
      (hcommit : popped.pass.commitWaiting env head plan = .ok pass) :
      Turn env name id state { popped with pass, scheduledLoras }

namespace Turn

theorem round (hturn : Turn env name id state next) : Round env name id state next := by
  cases hturn with
  | skipped hafter hpop => exact .skipped hafter.toTouches hpop
  | stopped hafter => exact .stopped hafter.toTouches
  | loading hafter _ hpop => exact .loading hafter.toTouches hpop
  | admitted hafter hpop hfits hcommit => exact .admitted hafter.toTouches hpop hfits hcommit

variable (hturn : state.pass.sched.Turns id sched)
include hturn

theorem of_skipHead (hskip : (state.setSched sched).skipHead name = .ok next) :
    Turn env name id state next := by
  obtain ⟨_, _, hpop, rfl⟩ := skipHead_cases hskip
  exact .skipped hturn hpop

theorem of_turned (hafter : Turn env name id (state.setSched sched) next) : Turn env name id state next := by
  cases hafter with
  | skipped hafter hpop => exact .skipped (hturn.trans hafter) hpop
  | stopped hafter => exact .stopped (hturn.trans hafter)
  | loading hafter hready hpop => exact .loading (hturn.trans hafter) hready hpop
  | admitted hafter hpop hfits hcommit => exact .admitted (hturn.trans hafter) hpop hfits hcommit

end Turn

section

omit [LinearOrder ρ]

variable {environment : ε}

/-- A plan that is kept gets a number of tokens: what it has if it is loaded asynchronously, and otherwise
a positive number, at most what is left. -/
theorem waitingTokens_cases {result : Option AdmissionPlan} {after : ε}
    (htokens : pass.waitingTokens config env id plan environment = .ok (result, after)) :
    (after = environment ∨ ∃ req numComputed numNew budget,
      after = (env.tryScheduleEncoderInputs environment id req numComputed numNew budget).2) ∧
    ∀ kept ∈ result, ∃ numNewTokens encoder, kept = { plan with numNewTokens, encoder } ∧
      (plan.loadKvAsync = true ∧ numNewTokens = plan.numNewTokens ∧ plan.numExternalComputedTokens ≠ 0 ∨
        plan.loadKvAsync ≠ true ∧ numNewTokens ≤ pass.tokenBudget ∧ (env.EncoderNonneg → 0 < numNewTokens) ∧
          plan.numComputedTokens + numNewTokens ≤ (pass.sched.requests id).numTokens) := by
  have hknown {numTokens : ℤ} (hle : numTokens ≤ Request.firstChunk config
      ((pass.sched.requests id).numTokens - plan.numComputedTokens)) :
      plan.numComputedTokens + numTokens ≤ (pass.sched.requests id).numTokens := by
    have hchunk := (Request.firstChunk_bounds config
      ((pass.sched.requests id).numTokens - plan.numComputedTokens)).1
    omega
  revert htokens
  fun_cases pass.waitingTokens config env id plan environment
  case case1 | case4 => nofun
  case case2 hload hext =>
    rintro ⟨⟩
    refine ⟨.inl rfl, fun kept hkept ↦ ?_⟩
    cases hkept
    exact ⟨_, _, rfl, .inl ⟨hload, rfl, hext⟩⟩
  case case3 =>
    rintro ⟨⟩
    exact ⟨.inl rfl, nofun⟩
  case case5 =>
    rintro ⟨⟩
    exact ⟨.inr ⟨_, _, _, _, rfl⟩, nofun⟩
  case case6 hload _ _ numTokens hpos _ planned hsome =>
    rintro ⟨⟩
    refine ⟨.inr ⟨_, _, _, _, rfl⟩, fun kept hkept ↦ ?_⟩
    cases hkept
    have hle : planned.1.numNewTokens ≤ max numTokens 0 := env.numNewTokens_le _ _ _ _ _ _
    rw [not_le] at hpos
    rw [max_eq_left hpos.le] at hle
    refine ⟨_, _, rfl, .inr ⟨hload, hle.trans (min_le_right _ _), fun hencoder ↦ ?_, ?_⟩⟩
    · exact lt_of_le_of_ne (hencoder _ _ _ _ _ _ hpos.le) (.symm hsome)
    · exact hknown (hle.trans (min_le_left _ _))
  case case7 hload _ _ numTokens hpos _ =>
    rintro ⟨⟩
    refine ⟨.inl rfl, fun kept hkept ↦ ?_⟩
    cases hkept
    exact ⟨_, _, rfl, .inr ⟨hload, min_le_right _ _, fun _ ↦ not_le.1 hpos, hknown (min_le_left _ _)⟩⟩

/-- A request is skipped without a plan, and otherwise the plan of `waitingTokens` is taken, perhaps with
fewer tokens, or the loop ends. -/
theorem planAdmission_cases {decision : Admission}
    (hplan : pass.planAdmission config env id = .ok (decision, environment)) :
    ∃ found middle, pass.computedTokens env id = .ok (found, middle) ∧
      (environment = middle ∧ decision = .skip ∨ ∃ computed ∈ found, ∃ result,
        pass.waitingTokens config env id computed middle = .ok (result, environment) ∧
        ∀ plan, decision = .take plan → plan ∈ result ∨ ∃ kept ∈ result, ∃ numNewTokens,
          (pass.sched.requests id).mambaBlockAlignedSplit config kept.numNewTokens
            kept.numNewLocalComputedTokens kept.numExternalComputedTokens = .ok numNewTokens ∧
          numNewTokens ≠ 0 ∧ plan = { kept with numNewTokens }) := by
  unfold planAdmission at hplan
  split at hplan
  · cases hplan
  · next hfound =>
    cases hplan
    exact ⟨none, _, hfound, .inl ⟨rfl, rfl⟩⟩
  · next computed _ hfound =>
    refine ⟨some computed, _, hfound, .inr ⟨computed, rfl, ?_⟩⟩
    split at hplan
    · cases hplan
    · next hres =>
      cases hplan
      exact ⟨none, hres, nofun⟩
    · next kept _ hres =>
      split at hplan
      · split at hplan
        · cases hplan
        · next numNewTokens hsplit =>
          split at hplan
          · cases hplan
            exact ⟨_, hres, nofun⟩
          · next hsome =>
            cases hplan
            refine ⟨_, hres, fun plan hplan ↦ .inr ⟨kept, rfl, numNewTokens, hsplit, hsome, ?_⟩⟩
            exact (Admission.take.inj hplan).symm
      · cases hplan
        refine ⟨_, hres, fun plan hplan ↦ .inl ?_⟩
        exact congrArg some (Admission.take.inj hplan)

theorem planAdmission_le (hplan : state.pass.planAdmission config env id = .ok (.take plan, environment)) :
    plan.loadKvAsync = true ∨ plan.numNewTokens ≤ state.pass.tokenBudget := by
  obtain ⟨_, _, -, ⟨-, ⟨⟩⟩ | ⟨_, -, result, htokens, htaken⟩⟩ := planAdmission_cases hplan
  have hkept : ∀ kept ∈ result, kept.loadKvAsync = true ∨ kept.numNewTokens ≤ state.pass.tokenBudget := by
    intro kept hkept
    obtain ⟨_, _, rfl, ⟨hload, -⟩ | ⟨-, hle, -⟩⟩ := (waitingTokens_cases htokens).2 kept hkept
    · exact .inl hload
    · exact .inr hle
  rcases htaken plan rfl with htaken | ⟨kept, hmem, _, hsplit, -, rfl⟩
  · exact hkept plan htaken
  · exact (hkept kept hmem).imp_right (mambaBlockAlignedSplit_cases hsplit).2.1.trans

variable (env : Environment ε ρ) (pass : Pass ε ρ) (id : ρ)

theorem turns_releaseEncoder :
    ∃ sched, pass.sched.Turns id sched ∧ sched.requests = pass.sched.requests ∧
      pass.releaseEncoder env id = { pass with sched } := by
  unfold releaseEncoder
  split
  · exact ⟨_, .setEnvironment id pass.sched (env.freeEncoder _ id), rfl, rfl⟩
  · exact ⟨_, .refl id pass.sched, rfl, rfl⟩

theorem turns_informConnector (plan : AdmissionPlan) :
    ∃ sched, pass.sched.Turns id sched ∧ sched.requests = pass.sched.requests ∧
      pass.informConnector env id plan = { pass with sched } := by
  unfold informConnector
  split
  · exact ⟨_, .refl id pass.sched, rfl, rfl⟩
  · next connector _ =>
    exact ⟨_, .setEnvironment id pass.sched (connector.updateStateAfterAlloc _ id _ _), rfl, rfl⟩

end

theorem turn_of_allocateHead (hready : isBlockedWaitingStatus (state.pass.sched.requests id).status = false)
    (hfits : plan.loadKvAsync = true ∨ plan.numNewTokens ≤ state.pass.tokenBudget)
    (halloc : state.allocateHead config env name id plan = .ok next) : Turn env name id state next := by
  have htried {kv : KVCacheManager ρ} (hkv : (state.pass.sched.kvCacheManager.allocateSlots
      ((state.pass.sched.requests id).slotRequest id) (state.pass.waitingCall config id plan)).2 = kv) :
      state.pass.sched.Turns id { state.pass.sched with kvCacheManager := kv } :=
    .setKv fun other hne ↦ hkv ▸ state.pass.sched.kvCacheManager.getBlocks_allocateSlots _ _ hne
  revert halloc
  fun_cases allocateHead config env state name id plan with
  | case1 | case3 | case5 => nofun
  | case2 =>
    rintro ⟨⟩
    obtain ⟨sched, hturn, -, hreleased⟩ := turns_releaseEncoder env state.pass id
    rw [hreleased]
    exact .stopped hturn
  | case4 _ _ _ _ _ tried =>
    rintro ⟨⟩
    obtain ⟨sched, hturn, -, hreleased⟩ := turns_releaseEncoder env tried id
    rw [hreleased]
    exact .of_turned (htried rfl) (.stopped hturn)
  | case6 _ _ _ _ _ tried _ _ head popped hpop =>
    rintro ⟨⟩
    obtain ⟨sched, hturn, hreqs, hinformed⟩ := turns_informConnector env tried id plan
    rw [hinformed] at hpop
    refine .of_turned (htried rfl) (.loading hturn ?_ hpop)
    rw [hreqs]
    exact hready
  | case7 _ _ _ _ _ tried _ _ head popped hpop hload =>
    intro halloc
    obtain ⟨_, hturn, -, hinformed⟩ := turns_informConnector env tried id plan
    rw [hinformed] at hpop
    obtain ⟨_, hcommit, rfl⟩ := map_eq_ok_iff.1 halloc
    exact .of_turned (htried rfl) (.admitted hturn hpop (hfits.resolve_left hload) hcommit)

theorem status_markLong (config : SchedulerConfig) (sched : Scheduler ε ρ) (id : ρ) :
    ((sched.markLong config id).requests id).status = (sched.requests id).status := by
  unfold markLong
  split
  · rw [requests_setRequest_self]
  · rfl

theorem turn_of_scheduleHead (hready : isBlockedWaitingStatus (state.pass.sched.requests id).status = false)
    (hschedule : state.scheduleHead config env name id = .ok next) : Turn env name id state next := by
  unfold scheduleHead at hschedule
  dsimp only at hschedule
  split at hschedule
  · exact .of_skipHead (.refl id _) hschedule
  · obtain ⟨sched, hturn, hstat, hmarked⟩ : ∃ sched, state.pass.sched.Turns id sched ∧
        (sched.requests id).status = (state.pass.sched.requests id).status ∧
        (if 0 < config.nelssaConfig.maxNumLongRequests then
          state.setSched (state.pass.sched.markLong config id) else state) = state.setSched sched := by
      split
      · exact ⟨_, .markLong config _ id, status_markLong config _ id, rfl⟩
      · exact ⟨_, .refl id _, rfl, rfl⟩
    rw [hmarked] at hschedule
    refine .of_turned hturn ?_
    split at hschedule
    · exact .of_skipHead (.refl id _) hschedule
    · split at hschedule
      · cases hschedule
      · next decision environment hplan =>
        refine .of_turned (.setEnvironment id _ environment) ?_
        split at hschedule
        · exact .of_skipHead (.refl id _) hschedule
        · cases hschedule
          exact .stopped (.refl id _)
        · have hfits := planAdmission_le hplan
          refine turn_of_allocateHead ?_ hfits hschedule
          exact (congrArg isBlockedWaitingStatus hstat).trans hready

variable (hstep : state.waitingStep config env = .ok (some next))
include hstep

theorem turn_of_waitingStep :
    ∃ name id, (state.pass.sched.queue name).peekRequest = some id ∧ state.stopped = false ∧
      0 < state.pass.tokenBudget ∧ state.pass.sched.running.length ≠ config.maxNumRunningReqs ∧
      Turn env name id state next := by
  unfold waitingStep at hstep
  dsimp only at hstep
  split at hstep
  · cases hstep
  · next hgo =>
    rw [not_or, not_or, not_or, Bool.not_eq_true, not_le] at hgo
    obtain ⟨hrun, -, hbudget, hroom⟩ := hgo
    split at hstep
    · cases hstep
    · next id hid =>
      refine ⟨_, id, hid, hrun, hbudget, hroom, ?_⟩
      split at hstep
      · split at hstep
        · cases hstep
        · next hpromote =>
          obtain ⟨after, hskip, ⟨⟩⟩ := map_eq_ok_iff.1 hstep
          exact .of_skipHead (Turns.tryPromote hpromote).1 hskip
        · next hpromote =>
          obtain ⟨hturn, hready⟩ := Turns.tryPromote hpromote
          obtain ⟨after, hschedule, ⟨⟩⟩ := map_eq_ok_iff.1 hstep
          exact .of_turned hturn (turn_of_scheduleHead (hready rfl) hschedule)
      · next hready =>
        obtain ⟨_, hschedule, ⟨⟩⟩ := map_eq_ok_iff.1 hstep
        exact turn_of_scheduleHead (Bool.not_eq_true _ ▸ hready) hschedule

end WaitingPass

theorem Pass.commitWaiting_cases {next : Pass ε ρ} (hcommit : pass.commitWaiting env id plan = .ok next) :
    ∃ requests environment inputs budget newReqs resumedReqs,
      ((pass.sched.requests id).status = .waiting ∨ (pass.sched.requests id).status = .preempted) ∧
      ((requests id).status = .running ∧ (requests id).numComputedTokens = plan.numComputedTokens ∧
        environment = env.allocateAll id (plan.encoder.inputs ++ plan.encoder.externalLoads)
          pass.sched.environment) ∧
      (∀ other, other ≠ id → requests other = pass.sched.requests other) ∧
      (newReqs ++ (resumedReqs ++ pass.scheduledRunningReqs)).Perm (id :: pass.scheduledReqs) ∧
      next = { pass with
        sched := { pass.sched with running := pass.sched.running ++ [id], requests, environment }
        scheduledNewReqs := newReqs
        scheduledResumedReqs := resumedReqs
        reqToNewBlocks := pass.reqToNewBlocks.insert id (pass.sched.kvCacheManager.getBlocks id)
        numScheduledTokens := pass.numScheduledTokens.insert id plan.numNewTokens
        tokenBudget := pass.tokenBudget - plan.numNewTokens
        scheduledEncoderInputs := inputs
        encoderComputeBudget := budget } := by
  obtain ⟨_, hlisted, rfl⟩ := map_eq_ok_iff.1 hcommit
  rw [scheduleEncoder_eq]
  split at hlisted
  · next hwait =>
    cases hlisted
    refine ⟨_, _, _, _, _, _, .inl hwait, ⟨?_, ?_, rfl⟩, fun other hne ↦ update_of_ne hne _ _, ?_, rfl⟩
    · rw [requests_setRequest_self]
    · rw [requests_setRequest_self]
    · rw [append_assoc]
      exact perm_middle
  · next hpreempted =>
    cases hlisted
    refine ⟨_, _, _, _, _, _, .inr hpreempted, ⟨?_, ?_, rfl⟩, fun other hne ↦ update_of_ne hne _ _, ?_, rfl⟩
    · rw [requests_setRequest_self]
    · rw [requests_setRequest_self]
    · rw [append_assoc]
      exact (perm_middle.append_left _).trans perm_middle
  · cases hlisted

/-! ## The queues during the waiting loop -/

namespace WaitingPass

/-- The requests of all queues, with those put aside. -/
def queued (state : WaitingPass ε ρ) : List ρ :=
  state.pass.sched.running ++ (state.pass.sched.waiting.members ++
    (state.pass.sched.skippedWaiting.members ++ state.stepSkippedWaiting.members))

/-- The queues during the waiting loop, where `loose` holds a request between its queue and the place it
goes to. -/
structure Queued (config : SchedulerConfig) (loose : List ρ) (state : WaitingPass ε ρ) : Prop where
  nodup : (loose ++ (state.pass.sched.running ++ (state.pass.sched.waiting.members ++
    (state.pass.sched.skippedWaiting.members ++ state.stepSkippedWaiting.members)))).Nodup
  running : ∀ id ∈ state.pass.sched.running, (state.pass.sched.requests id).status = .running
  bounded : state.pass.sched.running.length ≤ config.maxNumRunningReqs

variable {name : QueueName} {head : ρ}

theorem queued_popFrom (hpop : state.popFrom name = .ok (head, popped)) :
    state.queued.Perm (head :: popped.queued) := by
  obtain ⟨_, hrest, rfl⟩ := popFrom_cases hpop
  cases name with
  | waiting => exact ((hrest.append_right _).append_left _).trans perm_middle
  | skippedWaiting =>
    refine (((hrest.append_right _).append_left _).append_left _).trans ?_
    exact (perm_middle.append_left _).trans perm_middle

theorem queued_putAside (state : WaitingPass ε ρ) (id : ρ) :
    (state.putAside id).queued.Perm (id :: state.queued) := by
  have haside := RequestQueue.prependRequest_perm (requestLt state.pass.sched.requests)
    state.stepSkippedWaiting id
  refine (((haside.append_left _).append_left _).append_left _).trans ?_
  refine ((perm_middle.append_left _).append_left _).trans ?_
  exact (perm_middle.append_left _).trans perm_middle

theorem running_popFrom (hpop : state.popFrom name = .ok (head, popped)) :
    popped.pass.sched.running = state.pass.sched.running := by
  obtain ⟨_, -, rfl⟩ := popFrom_cases hpop
  cases name <;> rfl

namespace Queued

section

omit [LinearOrder ρ]

theorem touch {loose : List ρ} (hqueued : state.Queued config loose) (hid : id ∉ state.pass.sched.running)
    (htouch : state.pass.sched.Touches id sched) : (state.setSched sched).Queued config loose := by
  refine ⟨?_, ?_, htouch.running.symm ▸ hqueued.bounded⟩
  · have hsame := hqueued.nodup
    rw [← htouch.running, ← htouch.waiting, ← htouch.skippedWaiting] at hsame
    exact hsame
  · intro other hother
    have hold := htouch.running ▸ hother
    have hne : other ≠ id := fun h ↦ hid (h ▸ hold)
    exact (congrArg Request.status (htouch.requests other hne)).trans (hqueued.running other hold)

theorem notMem_running (hqueued : state.Queued config [])
    (hid : id ∈ (state.pass.sched.queue name).members) : id ∉ state.pass.sched.running := by
  have hnodup := hqueued.nodup
  rw [nil_append] at hnodup
  refine fun hrun ↦ disjoint_of_nodup_append hnodup hrun ?_
  cases name with
  | waiting => exact mem_append_left _ hid
  | skippedWaiting => exact mem_append_right _ (mem_append_left _ hid)

theorem loose_notMem_running (hqueued : state.Queued config [id]) : id ∉ state.pass.sched.running :=
  fun h ↦ disjoint_of_nodup_append hqueued.nodup (mem_singleton_self id) (mem_append_left _ h)

end

theorem pop (hqueued : state.Queued config [])
    (hpop : state.popFrom name = .ok (head, popped)) : popped.Queued config [head] := by
  have hnodup := (queued_popFrom hpop).nodup_iff.1 hqueued.nodup
  obtain ⟨_, -, rfl⟩ := popFrom_cases hpop
  cases name with
  | waiting => exact { hqueued with nodup := hnodup }
  | skippedWaiting => exact { hqueued with nodup := hnodup }

theorem putAside (hqueued : state.Queued config [id]) : (state.putAside id).Queued config [] :=
  { hqueued with nodup := (state.queued_putAside id).nodup_iff.2 hqueued.nodup }

theorem commit (hqueued : state.Queued config [id]) {scheduledLoras : List ℕ}
    (hroom : state.pass.sched.running.length ≠ config.maxNumRunningReqs)
    (hcommit : state.pass.commitWaiting env id plan = .ok pass) :
    { state with pass, scheduledLoras }.Queued config [] := by
  obtain ⟨_, _, _, _, _, _, -, ⟨hstat, -⟩, hreqs, -, rfl⟩ := commitWaiting_cases hcommit
  refine ⟨(Perm.nodup_iff ?_).2 hqueued.nodup, ?_, ?_⟩
  · rw [append_assoc]
    exact perm_middle
  · intro other hother
    rcases mem_append.1 hother with hold | hnew
    · have hne : other ≠ id := fun h ↦ hqueued.loose_notMem_running (h ▸ hold)
      exact (congrArg Request.status (hreqs other hne)).trans (hqueued.running other hold)
    · rw [mem_singleton.1 hnew]
      exact hstat
  · rw [length_append]
    exact lt_of_le_of_ne hqueued.bounded hroom

theorem round (hqueued : state.Queued config []) (hid : id ∉ state.pass.sched.running)
    (hroom : state.pass.sched.running.length ≠ config.maxNumRunningReqs)
    (hround : Round env name id state next) : next.Queued config [] := by
  cases hround with
  | skipped htouch hpop => exact ((hqueued.touch hid htouch).pop hpop).putAside
  | stopped htouch => exact { hqueued.touch hid htouch with }
  | loading htouch hpop =>
    have hpopped := (hqueued.touch hid htouch).pop hpop
    exact (hpopped.touch hpopped.loose_notMem_running (.setRequest _ _ _)).putAside
  | admitted htouch hpop _ hcommit =>
    refine ((hqueued.touch hid htouch).pop hpop).commit ?_ hcommit
    rw [running_popFrom hpop]
    exact htouch.running.symm ▸ hroom

end Queued

/-! ## The accounts during the waiting loop -/

theorem accounts_commitWaiting (hacc : state.pass.Accounts limit) (hid : id ∉ state.pass.sched.running)
    (hnone : state.pass.preemptedReqs = []) (hfits : plan.numNewTokens ≤ state.pass.tokenBudget)
    (hcommit : state.pass.commitWaiting env id plan = .ok pass) : pass.Accounts limit := by
  obtain ⟨_, _, _, _, newReqs, resumedReqs, -, -, -, hlisted, rfl⟩ :=
    commitWaiting_cases hcommit
  have hunscheduled := fun h ↦ hid (hacc.running id h)
  have hkeys (other : ρ) : other ∈ newReqs ++ (resumedReqs ++ state.pass.scheduledRunningReqs) ↔
      other = id ∨ other ∈ state.pass.scheduledReqs := by
    rw [hlisted.mem_iff, mem_cons]
  refine ⟨?_, ?_, ?_, ?_, ?_, ?_, ?_, ?_⟩
  · exact hlisted.nodup_iff.2 (nodup_cons.2 ⟨hunscheduled, hacc.nodup⟩)
  · intro other hother
    rcases (hkeys other).1 hother with rfl | hold
    · exact mem_append_right _ (mem_singleton_self _)
    · exact mem_append_left _ (hacc.running other hold)
  · intro other
    rw [AList.mem_insert, hacc.tokens]
    exact (hkeys other).symm
  · intro other
    rw [AList.mem_insert, hacc.blocks]
    exact (hkeys other).symm
  · have htotal := hacc.total
    have hsum := sum_entries_insert (fun h ↦ hunscheduled ((hacc.tokens id).1 h)) plan.numNewTokens
    simp only [totalNumScheduledTokens, hsum] at htotal ⊢
    omega
  · simp only
    omega
  · intro other otherBlocks hlookup
    by_cases hsame : other = id
    · rw [hsame, AList.lookup_insert] at hlookup
      cases hlookup
      rw [hsame]
      exact forall₂_same.2 fun _ _ ↦ .refl _
    · rw [AList.lookup_insert_ne hsame] at hlookup
      exact hacc.held other otherBlocks hlookup
  · intro other hother
    exact absurd (hnone ▸ hother) not_mem_nil

theorem accounts_popFrom (hacc : state.pass.Accounts limit)
    (hpop : state.popFrom name = .ok (head, popped)) : popped.pass.Accounts limit := by
  obtain ⟨_, -, rfl⟩ := popFrom_cases hpop
  cases name with
  | waiting => exact hacc.setSched rfl fun _ _ ↦ rfl
  | skippedWaiting => exact hacc.setSched rfl fun _ _ ↦ rfl

theorem accounts_round (hqueued : state.Queued config []) (hacc : state.pass.Accounts limit)
    (hnone : state.pass.preemptedReqs = []) (hid : id ∉ state.pass.sched.running)
    (hround : Round env name id state next) : next.pass.Accounts limit ∧ next.pass.preemptedReqs = [] := by
  have htouched {sched : Scheduler ε ρ} (htouch : state.pass.sched.Touches id sched) :
      (state.setSched sched).pass.Accounts limit :=
    hacc.setSched htouch.running fun other hother ↦ htouch.blocks other fun h ↦ hid (h ▸ hother)
  cases hround with
  | skipped htouch hpop =>
    have hpopped := accounts_popFrom (htouched htouch) hpop
    obtain ⟨rest, -, rfl⟩ := popFrom_cases hpop
    exact ⟨hpopped, hnone⟩
  | stopped htouch => exact ⟨htouched htouch, hnone⟩
  | loading htouch hpop =>
    have hpopped := accounts_popFrom (htouched htouch) hpop
    obtain ⟨rest, -, rfl⟩ := popFrom_cases hpop
    exact ⟨hpopped.setSched rfl fun _ _ ↦ rfl, hnone⟩
  | admitted htouch hpop hfits hcommit =>
    have hfresh := ((hqueued.touch hid htouch).pop hpop).loose_notMem_running
    have hpopped := accounts_popFrom (htouched htouch) hpop
    obtain ⟨_, -, rfl⟩ := popFrom_cases hpop
    refine ⟨accounts_commitWaiting hpopped hfresh hnone hfits hcommit, ?_⟩
    obtain ⟨_, _, _, _, _, _, -, -, -, -, rfl⟩ := commitWaiting_cases hcommit
    exact hnone

/-! ## The end of the waiting loop -/

/-- Every round takes a request out of a queue or ends the loop. -/
def waitingMeasure (state : WaitingPass ε ρ) : ℕ :=
  state.pass.sched.waiting.members.length + state.pass.sched.skippedWaiting.members.length +
    (!state.stopped).toNat

theorem waitingMeasure_popFrom (hpop : state.popFrom name = .ok (head, popped)) :
    popped.waitingMeasure + 1 = state.waitingMeasure := by
  obtain ⟨_, hrest, rfl⟩ := popFrom_cases hpop
  have hlen := hrest.length_eq
  cases name with
  | waiting =>
    simp only [waitingMeasure, setSched, setQueue, queue, length_cons] at hlen ⊢
    omega
  | skippedWaiting =>
    simp only [waitingMeasure, setSched, setQueue, queue, length_cons] at hlen ⊢
    omega

theorem waitingMeasure_lt (hstep : state.waitingStep config env = .ok (some next)) :
    next.waitingMeasure < state.waitingMeasure := by
  obtain ⟨_, id, -, hgo, -, -, hturn⟩ := turn_of_waitingStep hstep
  have htouched {sched : Scheduler ε ρ} (htouch : state.pass.sched.Touches id sched) :
      (state.setSched sched).waitingMeasure = state.waitingMeasure := by
    simp [waitingMeasure, setSched, htouch.waiting, htouch.skippedWaiting]
  cases hturn.round with
  | skipped htouch hpop =>
    rw [← htouched htouch, ← waitingMeasure_popFrom hpop]
    exact Nat.lt_succ_self _
  | stopped htouch =>
    rw [← htouched htouch]
    simp [waitingMeasure, setSched, hgo]
  | loading htouch hpop =>
    rw [← htouched htouch, ← waitingMeasure_popFrom hpop]
    exact Nat.lt_succ_self _
  | admitted htouch hpop _ hcommit =>
    rw [← htouched htouch, ← waitingMeasure_popFrom hpop]
    obtain ⟨_, _, _, _, _, _, -, -, -, -, rfl⟩ := commitWaiting_cases hcommit
    exact Nat.lt_succ_self _

end WaitingPass

/-! ## The whole loop -/

namespace Pass

variable {final : Pass ε ρ}

theorem scheduleWaiting_cases (hfinal : pass.scheduleWaiting config env = .ok final) :
    final = pass ∨ ∃ scheduledLoras state skippedWaiting, pass.preemptedReqs = [] ∧
      Reaches (waitingStep config env)
        { pass, stepSkippedWaiting := .create config.policy, scheduledLoras } state ∧
      state.waitingStep config env = .ok none ∧
      skippedWaiting.members.Perm
        (state.stepSkippedWaiting.members ++ state.pass.sched.skippedWaiting.members) ∧
      final = { state.pass with sched := { state.pass.sched with skippedWaiting } } := by
  unfold scheduleWaiting at hfinal
  split at hfinal
  · cases hfinal
  · next scheduledLoras _ =>
    split at hfinal
    · next hnone =>
      obtain ⟨state, hloop, rfl⟩ := map_eq_ok_iff.1 hfinal
      refine .inr ⟨scheduledLoras, state, _, hnone.1, reaches_of_loop hloop, ?_,
        RequestQueue.prependRequests_perm _ _ _, rfl⟩
      refine ended_of_loop waitingMeasure (fun _ _ ↦ waitingMeasure_lt) ?_ hloop
      exact Nat.lt_succ_self _
    · exact .inl (Except.ok.inj hfinal).symm

omit [LinearOrder ρ] in
theorem queued_start (hsched : pass.sched.WellFormed config) (scheduledLoras : List ℕ) :
    WaitingPass.Queued config [] { pass, stepSkippedWaiting := .create config.policy, scheduledLoras } := by
  refine { hsched with nodup := ?_ }
  have hempty : (RequestQueue.create config.policy : RequestQueue ρ).members = [] := by
    cases config.policy <;> rfl
  rw [hempty, append_nil]
  exact hsched.nodup

theorem queued_reaches {start : WaitingPass ε ρ} (hstart : start.Queued config [])
    (hreaches : Reaches (waitingStep config env) start state) : state.Queued config [] := by
  refine hreaches.invariant hstart fun current next _ hqueued hstep ↦ ?_
  obtain ⟨_, _, hid, -, -, hroom, hturn⟩ := turn_of_waitingStep hstep
  exact hqueued.round (hqueued.notMem_running (mem_of_head? hid)) hroom hturn.round

theorem wellFormed_scheduleWaiting (hsched : pass.sched.WellFormed config)
    (hfinal : pass.scheduleWaiting config env = .ok final) : final.sched.WellFormed config := by
  rcases scheduleWaiting_cases hfinal with rfl | ⟨loras, _, _, -, hreaches, -, hskipped, rfl⟩
  · exact hsched
  · have hqueued := queued_reaches (queued_start hsched loras) hreaches
    refine { hqueued with nodup := (Perm.nodup_iff ?_).2 hqueued.nodup }
    exact ((hskipped.trans perm_append_comm).append_left _).append_left _

theorem accounts_scheduleWaiting (hsched : pass.sched.WellFormed config) (hacc : pass.Accounts limit)
    (hfinal : pass.scheduleWaiting config env = .ok final) : final.Accounts limit := by
  rcases scheduleWaiting_cases hfinal with rfl | ⟨loras, state, _, hnone, hreaches, -, -, rfl⟩
  · exact hacc
  · have hinv : state.pass.Accounts limit ∧ state.pass.preemptedReqs = [] := by
      apply hreaches.invariant
      · exact ⟨hacc, hnone⟩
      · intro current next hcur hinv hstep
        have hqueued := queued_reaches (queued_start hsched loras) hcur
        obtain ⟨_, _, hid, -, -, -, hturn⟩ := turn_of_waitingStep hstep
        exact accounts_round hqueued hinv.1 hinv.2 (hqueued.notMem_running (mem_of_head? hid)) hturn.round
    exact hinv.1.setSched rfl fun _ _ ↦ rfl

end Pass

end Nelssa.Sched
