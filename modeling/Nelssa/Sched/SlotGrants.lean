import Nelssa.Sched.SlotRecord

/-!
# Invalid slots and waiting requests

A waiting request takes blocks out of the prefix cache, has tokens loaded by the connector, and gets slots
for its first tokens. None of them holds invalid data that the request would read: published blocks are
valid, loads write their slots, and the step computes the rest.
-/

namespace Nelssa.Sched

open Nelssa.Core Foundation.Loops Foundation.SlotViews Function Environment KVCacheManager Request Option

variable {ρ ε : Type*} [LinearOrder ρ]

attribute [local instance] lawfulBEq_of_linearOrder

/-! ## Before the allocation -/

variable {config : SchedulerConfig} {env : Environment ε ρ} {sched : Scheduler (ε × Loads ρ) ρ}
  {after : Scheduler (ε × Loads ρ) ρ}

namespace Scheduler

variable {scheduled : AList (fun _ : ρ ↦ ℤ)} {id : ρ}

theorem eases_updateWaitingForRemoteKv (hunitary : sched.kvCacheManager.IsUnitary config.blockSize)
    (hid : id ∉ scheduled) (hupdate : sched.updateWaitingForRemoteKv id = .ok after) :
    Eases config scheduled sched after := by
  unfold updateWaitingForRemoteKv at hupdate
  dsimp only at hupdate
  generalize hrecv : (if sched.failedRecvingKvReqIds id = true ∧
      (sched.requests id).numComputedTokens = 0 then sched.kvCacheManager.free id
    else sched.kvCacheManager.cacheBlocks ((sched.requests id).slotRequest id).toCacheRequest
      (sched.requests id).numComputedTokens) = received at hupdate
  obtain ⟨result, kv⟩ := received
  cases result with
  | error exn => cases hupdate
  | ok _ =>
    obtain ⟨hrevises, hown⟩ : Revises config.blockSize id sched.kvCacheManager kv
          (sched.requests id).numComputedTokens ∧
        (kv.table id = sched.kvCacheManager.table id ∨ (sched.requests id).numComputedTokens = 0) := by
      split at hrecv
      · next hfailed =>
        obtain rfl : (sched.kvCacheManager.free id).2 = kv := by rw [hrecv]
        exact ⟨revises_free hunitary id _, .inr hfailed.2⟩
      · obtain ⟨hrevises, htable⟩ := tables_cacheBlocks hunitary hrecv
        exact ⟨hrevises, .inl htable⟩
    dsimp only at hupdate
    split at hupdate
    · next hall =>
      cases hupdate
      refine .of_request hid hrevises rfl (fun other hne ↦ ?_) ?_
      · exact congrArg numComputedTokens (update_of_ne hne _ _)
      · change _ ∧ (update sched.requests id _ id).numComputedTokens ≤ _ ∨
          (update sched.requests id _ id).numComputedTokens = 0
        rw [update_self]
        rw [hall.2] at hown ⊢
        exact hown.imp (fun htable ↦ ⟨htable, Nat.sub_le _ _⟩) fun hzero ↦ by rw [hzero]
    · cases hupdate
      exact .of_request hid hrevises rfl (fun _ _ ↦ rfl) (hown.imp_left fun htable ↦ ⟨htable, le_refl _⟩)

theorem sameSlots_setRequest (sched : Scheduler (ε × Loads ρ) ρ) (id : ρ) {change : Request → Request}
    (hchange : ∀ req, (change req).numComputedTokens = req.numComputedTokens) :
    sched.SameSlots (sched.setRequest id change) := by
  refine ⟨rfl, fun other ↦ ?_, rfl⟩
  by_cases hsame : other = id
  · rw [hsame, requests_setRequest_self]
    exact hchange _
  · exact congrArg numComputedTokens (update_of_ne hsame _ _)

theorem sameSlots_markLong (config : SchedulerConfig) (sched : Scheduler (ε × Loads ρ) ρ) (id : ρ) :
    sched.SameSlots (sched.markLong config id) := by
  unfold markLong
  split
  · exact sameSlots_setRequest sched id fun _ ↦ rfl
  · exact ⟨rfl, fun _ ↦ rfl, rfl⟩

theorem slotsSound_tryPromote (hsound : sched.SlotsSound config scheduled) (hid : id ∉ scheduled)
    {promoted : Bool} (hpromote : sched.tryPromoteBlockedWaitingRequest (env.tracked config.blockSize) id =
      .ok (promoted, after)) : after.SlotsSound config scheduled := by
  revert hpromote
  fun_cases tryPromoteBlockedWaitingRequest sched (env.tracked config.blockSize) id with
  | case1 =>
    intro hpromote
    obtain ⟨updated, hupdated, ⟨⟩⟩ := map_eq_ok_iff.1 hpromote
    have hmiddle := hsound.of_eases (eases_updateWaitingForRemoteKv hsound.unitary hid hupdated)
    exact hmiddle.of_same (sameSlots_setRequest updated id fun _ ↦ rfl)
  | case3 =>
    rintro ⟨⟩
    exact hsound.of_same (sameSlots_setRequest sched id fun _ ↦ rfl)
  | case2 | case4 | case5 =>
    rintro ⟨⟩
    exact hsound
  | case6 => rintro ⟨⟩

end Scheduler

/-! ### What is known about a waiting request -/

variable {plan : AdmissionPlan} {pass : Pass (ε × Loads ρ) ρ}

namespace Pass

variable {id : ρ}

/-- Before the allocation, a waiting request has computed tokens, or it was looked up in the prefix cache
and behind the connector. -/
structure Known (env : Environment ε ρ) (pass : Pass (ε × Loads ρ) ρ) (id : ρ) (plan : AdmissionPlan)
    (loads : Loads ρ) : Prop where
  invalid : loads.invalid = pass.sched.environment.2.invalid
  nonneg : 0 ≤ plan.numNewTokens
  async : plan.loadKvAsync = true → plan.numNewTokens = 0
  computed : ((pass.sched.requests id).numComputedTokens = plan.numComputedTokens ∧
      plan.newComputedBlocks = none ∧ plan.numNewLocalComputedTokens = 0 ∧
      plan.numExternalComputedTokens = 0 ∧ plan.loadKvAsync = false) ∨
    (pass.sched.requests id).numComputedTokens = 0 ∧
      env.getComputedBlocks pass.sched.kvCacheManager id (pass.sched.requests id) =
        .ok (plan.newComputedBlocks, plan.numNewLocalComputedTokens) ∧
      plan.numComputedTokens = plan.numNewLocalComputedTokens + plan.numExternalComputedTokens ∧
      (plan.numExternalComputedTokens = 0 ∨
        env.connector.isSome ∧ loads.numLocal id = plan.numNewLocalComputedTokens)

variable {environment : ε × Loads ρ}

theorem known_computedTokens {found : Option AdmissionPlan}
    (hcomp : pass.computedTokens (env.tracked config.blockSize) id = .ok (found, environment)) :
    environment.2.invalid = pass.sched.environment.2.invalid ∧
      ∀ plan ∈ found, Known env pass id plan environment.2 ∧ plan.numNewTokens = 0 := by
  unfold computedTokens at hcomp
  dsimp only at hcomp
  split at hcomp
  · cases hcomp
    refine ⟨rfl, fun plan hplan ↦ ?_⟩
    cases hplan
    exact ⟨⟨rfl, le_rfl, fun _ ↦ rfl, .inl ⟨rfl, rfl, rfl, rfl, rfl⟩⟩, rfl⟩
  · next hzero =>
    rw [not_not] at hzero
    split at hcomp
    · cases hcomp
    · next blocks numLocal hlookup =>
      cases hconnector : env.connector with
      | none =>
        simp only [tracked, hconnector, map_none] at hcomp
        split at hcomp
        · cases hcomp
        · cases hcomp
          refine ⟨rfl, fun plan hplan ↦ ?_⟩
          cases hplan
          exact ⟨⟨rfl, le_rfl, fun _ ↦ rfl, .inr ⟨hzero, hlookup, rfl, .inl rfl⟩⟩, rfl⟩
      | some connector =>
        simp only [tracked, hconnector, map_some] at hcomp
        split at hcomp
        · cases hcomp
          exact ⟨rfl, nofun⟩
        · split at hcomp
          · cases hcomp
          · cases hcomp
            refine ⟨rfl, fun plan hplan ↦ ?_⟩
            cases hplan
            refine ⟨⟨rfl, le_rfl, fun _ ↦ rfl, .inr ⟨hzero, hlookup, rfl, .inr ⟨?_, ?_⟩⟩⟩, rfl⟩
            · rw [hconnector]
              rfl
            · simp

theorem loads_waitingTokens {result : Option AdmissionPlan} {after : ε × Loads ρ}
    (htokens : pass.waitingTokens config (env.tracked config.blockSize) id plan environment =
      .ok (result, after)) : after.2 = environment.2 := by
  rcases (WaitingPass.waitingTokens_cases htokens).1 with rfl | ⟨_, _, _, _, rfl⟩ <;> rfl

theorem known_planAdmission (hencoder : env.EncoderNonneg)
    (hplan : pass.planAdmission config (env.tracked config.blockSize) id = .ok (.take plan, environment)) :
    Known env pass id plan environment.2 := by
  obtain ⟨_, _, hfound, ⟨-, ⟨⟩⟩ | ⟨computed, hcomp, result, htokens, htaken⟩⟩ :=
    WaitingPass.planAdmission_cases hplan
  obtain ⟨hknown, -⟩ := (known_computedTokens hfound).2 computed hcomp
  have hkept : ∀ kept ∈ result, Known env pass id kept environment.2 ∧
      (kept.loadKvAsync = true → kept.numExternalComputedTokens ≠ 0) := by
    intro kept hkept
    rw [loads_waitingTokens htokens]
    obtain ⟨numNewTokens, _, rfl, ⟨-, rfl, hext⟩ | ⟨hload, -, hnonneg⟩⟩ :=
      (WaitingPass.waitingTokens_cases htokens).2 kept hkept
    · exact ⟨{ hknown with }, fun _ ↦ hext⟩
    · have hpos := hnonneg.1 fun state ↦ hencoder state.1
      exact ⟨{ hknown with nonneg := hpos.le, async := fun h ↦ absurd h hload }, fun h ↦ absurd h hload⟩
  rcases htaken plan rfl with htaken | ⟨kept, hmem, _, hsplit, -, rfl⟩
  · exact (hkept plan htaken).1
  · obtain ⟨hext, -, hnonneg⟩ := mambaBlockAlignedSplit_cases hsplit
    obtain ⟨hknown, hload⟩ := hkept kept hmem
    exact { hknown with nonneg := hnonneg hknown.nonneg, async := fun h ↦ absurd hext (hload h) }

theorem invalid_planAdmission {decision : Admission}
    (hplan : pass.planAdmission config (env.tracked config.blockSize) id = .ok (decision, environment)) :
    environment.2.invalid = pass.sched.environment.2.invalid := by
  obtain ⟨_, _, hfound, ⟨rfl, -⟩ | ⟨_, -, _, htokens, -⟩⟩ :=
    WaitingPass.planAdmission_cases hplan
  · exact (known_computedTokens hfound).1
  · rw [loads_waitingTokens htokens]
    exact (known_computedTokens hfound).1

theorem slots_commitWaiting {next : Pass (ε × Loads ρ) ρ} {blockSize : ℕ}
    (hcommit : pass.commitWaiting (env.tracked blockSize) id plan = .ok next) :
    next.sched.kvCacheManager = pass.sched.kvCacheManager ∧
      next.sched.environment.2.invalid = pass.sched.environment.2.invalid ∧
      (∀ other, other ≠ id →
        (next.sched.requests other).numComputedTokens = (pass.sched.requests other).numComputedTokens) ∧
      (next.sched.requests id).numComputedTokens = plan.numComputedTokens ∧
      next.numScheduledTokens = pass.numScheduledTokens.insert id plan.numNewTokens := by
  obtain ⟨_, environment, _, _, _, _, -, ⟨-, hcomp, henv⟩, hreqs, -, rfl⟩ :=
    commitWaiting_cases hcommit
  have hloads : environment.2 = pass.sched.environment.2 := by
    rw [henv]
    exact loads_allocateAll env blockSize id _ _
  exact ⟨rfl, congrArg Loads.invalid hloads, fun other hne ↦ congrArg numComputedTokens (hreqs other hne),
    hcomp, rfl⟩

variable (env : Environment ε ρ) (blockSize : ℕ) (pass : Pass (ε × Loads ρ) ρ) (id : ρ)

theorem sameSlots_releaseEncoder :
    pass.sched.SameSlots (pass.releaseEncoder (env.tracked blockSize) id).sched ∧
      (pass.releaseEncoder (env.tracked blockSize) id).numScheduledTokens = pass.numScheduledTokens := by
  unfold releaseEncoder
  split <;> exact ⟨⟨rfl, fun _ ↦ rfl, rfl⟩, rfl⟩

theorem informConnector_loads {informed : Pass (ε × Loads ρ) ρ}
    (hinformed : pass.informConnector (env.tracked blockSize) id plan = informed)
    (hlocal : plan.numExternalComputedTokens = 0 ∨ env.connector.isSome ∧
      pass.sched.environment.2.numLocal id = plan.numNewLocalComputedTokens) :
    informed.sched.kvCacheManager = pass.sched.kvCacheManager ∧
      informed.sched.requests = pass.sched.requests ∧
      (∀ name, informed.sched.queue name = pass.sched.queue name) ∧
      informed.numScheduledTokens = pass.numScheduledTokens ∧
      (∀ slot ∈ informed.sched.environment.2.invalid, slot ∈ pass.sched.environment.2.invalid) ∧
      ∀ slot ∈ slots blockSize (pass.sched.kvCacheManager.table id) plan.numNewLocalComputedTokens
          plan.numExternalComputedTokens, slot ∉ informed.sched.environment.2.invalid := by
  cases hconnector : env.connector with
  | none =>
    simp only [tracked, hconnector, map_none] at hinformed
    subst hinformed
    refine ⟨rfl, rfl, fun _ ↦ rfl, rfl, fun _ h ↦ h, ?_⟩
    rw [hlocal.resolve_right (by rw [hconnector]; simp)]
    exact fun slot hslot ↦ absurd hslot List.not_mem_nil
  | some connector =>
    simp only [tracked, hconnector, map_some] at hinformed
    subst hinformed
    refine ⟨rfl, rfl, fun name ↦ by cases name <;> rfl, rfl, fun slot hslot ↦ ?_, fun slot hslot hkept ↦ ?_⟩
    · exact (List.mem_filter.1 hslot).1
    · rcases hlocal with hzero | ⟨-, hstart⟩
      · rw [hzero] at hslot
        exact List.not_mem_nil hslot
      · have hremoved := of_decide_eq_true (List.mem_filter.1 hkept).2
        rw [hstart] at hremoved
        exact hremoved hslot

end Pass

/-- The lookup of the environment is the one of the KV cache manager. -/
def Environment.LooksUp (env : Environment ε ρ) (useEagle : Bool) (skipReadingPrefixCache : ρ → Bool) :
    Prop :=
  ∀ kv id req, env.getComputedBlocks kv id req =
    kv.getComputedBlocks useEagle (skipReadingPrefixCache id) req.blockHashes req.numTokens

variable {skipReadingPrefixCache : ρ → Bool} {useEagle : Bool}

namespace WaitingPass

variable {state next popped : WaitingPass (ε × Loads ρ) ρ} {name : QueueName} {id head : ρ}

theorem sameSlots_popFrom (hpop : state.popFrom name = .ok (head, popped)) :
    state.pass.sched.SameSlots popped.pass.sched ∧
      popped.pass.numScheduledTokens = state.pass.numScheduledTokens := by
  obtain ⟨_, -, rfl⟩ := popFrom_cases hpop
  cases name <;> exact ⟨⟨rfl, fun _ ↦ rfl, rfl⟩, rfl⟩

theorem slotsSound_skipHead (hsound : state.pass.sched.SlotsSound config state.pass.numScheduledTokens)
    (hskip : state.skipHead name = .ok next) :
    next.pass.sched.SlotsSound config next.pass.numScheduledTokens := by
  obtain ⟨_, _, hpop, rfl⟩ := skipHead_cases hskip
  obtain ⟨hsame, htokens⟩ := sameSlots_popFrom hpop
  have hpopped := hsound.of_same hsame
  rw [← htokens] at hpopped
  exact hpopped

section

variable (henv : env.LooksUp useEagle skipReadingPrefixCache)
  (hsound : state.pass.sched.SlotsSound config state.pass.numScheduledTokens)
  (hid : id ∉ state.pass.numScheduledTokens)
include henv hsound hid

theorem slotsSound_granted {loads : Loads ρ} (hknown : Pass.Known env state.pass id plan loads)
    {newBlocks : List (List ℕ)}
    (hnew : (state.pass.sched.kvCacheManager.allocateSlots ((state.pass.sched.requests id).slotRequest id)
      (state.pass.waitingCall config id plan)).1 = .ok (some newBlocks))
    (hkv : after.kvCacheManager = (state.pass.sched.kvCacheManager.allocateSlots
      ((state.pass.sched.requests id).slotRequest id) (state.pass.waitingCall config id plan)).2)
    (hothers : ∀ other, other ≠ id →
      (after.requests other).numComputedTokens = (state.pass.sched.requests other).numComputedTokens)
    (hcomp : (after.requests id).numComputedTokens = plan.numComputedTokens)
    (hinval : ∀ slot ∈ after.environment.2.invalid, slot ∈ state.pass.sched.environment.2.invalid)
    (hloaded : ∀ slot ∈ slots config.blockSize (after.kvCacheManager.table id)
      plan.numNewLocalComputedTokens plan.numExternalComputedTokens, slot ∉ after.environment.2.invalid)
    {granted : AList (fun _ : ρ ↦ ℤ)}
    (hgranted : ∀ other, other ≠ id → granted.lookup other = state.pass.numScheduledTokens.lookup other)
    (htokens : (granted.lookup id).getD 0 = plan.numNewTokens) : after.SlotsSound config granted := by
  rcases hknown.computed with ⟨hsame, hblocks, hlocal, hext, -⟩ | ⟨hzero, hlookup, htotal, -⟩
  · refine hsound.extend hid hnew hkv hinval hgranted htokens hblocks hlocal hext fun other ↦ ?_
    by_cases heq : other = id
    · rw [heq, hcomp, hsame]
    · exact hothers other heq
  · rw [henv] at hlookup
    obtain ⟨_, hfound, hnum, hpublished⟩ := published_of_getComputedBlocks hsound.unitary hlookup
    exact hsound.extend_new hid hnew hkv hinval hgranted htokens hzero hfound hnum hpublished hothers
      (hcomp.trans htotal) hloaded hknown.nonneg

theorem slotsSound_allocateHead (hpeek : (state.pass.sched.queue name).peekRequest = some id)
    (hknown : Pass.Known env state.pass id plan state.pass.sched.environment.2)
    (halloc : state.allocateHead config (env.tracked config.blockSize) name id plan = .ok next) :
    next.pass.sched.SlotsSound config next.pass.numScheduledTokens := by
  unfold allocateHead at halloc
  dsimp only at halloc
  split at halloc
  · cases halloc
  · cases halloc
    obtain ⟨hsame, htokens⟩ := Pass.sameSlots_releaseEncoder env _ state.pass id
    rw [htokens]
    exact hsound.of_same hsame
  · generalize hnew : state.pass.sched.kvCacheManager.allocateSlots
      ((state.pass.sched.requests id).slotRequest id) (state.pass.waitingCall config id plan) =
      allocated at halloc
    obtain ⟨_, kv⟩ := allocated
    have hres := congrArg Prod.fst hnew
    have hkv := congrArg Prod.snd hnew
    dsimp only at hres hkv halloc
    split at halloc
    · cases halloc
    · have hmarked := hsound.of_sameTables (sameTables_of_none hsound.unitary hres)
      rw [hkv] at hmarked
      cases halloc
      obtain ⟨hsame, htokens⟩ := Pass.sameSlots_releaseEncoder env _ (state.pass.setKv kv) id
      rw [htokens]
      exact hmarked.of_same hsame
    · have hlocal : plan.numExternalComputedTokens = 0 ∨ env.connector.isSome ∧
          state.pass.sched.environment.2.numLocal id = plan.numNewLocalComputedTokens := by
        rcases hknown.computed with ⟨-, -, -, hext, -⟩ | ⟨-, -, -, hloads⟩
        · exact .inl hext
        · exact hloads
      obtain ⟨hsameKv, hreqs, hqueue, hscheduled, hinval, hloaded⟩ :=
        Pass.informConnector_loads env config.blockSize (state.pass.setKv kv) id rfl hlocal
      split at halloc
      · cases halloc
      · next head popped hpop =>
        obtain ⟨hpopped, htokens⟩ := sameSlots_popFrom hpop
        obtain rfl : head = id := by
          have hhead := peekRequest_of_popFrom hpop
          rw [hqueue] at hhead
          have hboth := hhead.symm.trans hpeek
          exact some.inj hboth
        have hafterKv := hpopped.kvCacheManager.trans hsameKv
        have hafterRequests (other : ρ) : (popped.pass.sched.requests other).numComputedTokens =
            (state.pass.sched.requests other).numComputedTokens := by
          rw [hpopped.computed]
          exact congrArg (fun requests : ρ → Request ↦ (requests other).numComputedTokens) hreqs
        have hafterTokens : popped.pass.numScheduledTokens = state.pass.numScheduledTokens :=
          htokens.trans hscheduled
        have hafterInvalid (slot : ℕ × ℕ) (hslot : slot ∈ popped.pass.sched.environment.2.invalid) :=
          hinval slot (hpopped.invalid ▸ hslot)
        have hafterLoaded : ∀ slot ∈ slots config.blockSize (kv.table head) plan.numNewLocalComputedTokens
            plan.numExternalComputedTokens, slot ∉ popped.pass.sched.environment.2.invalid := by
          rw [hpopped.invalid]
          exact hloaded
        split at halloc
        · next hload =>
          cases halloc
          apply slotsSound_granted henv hsound hid hknown hres
          · exact hafterKv.trans hkv.symm
          · intro other hne
            rw [← hafterRequests]
            exact congrArg numComputedTokens (update_of_ne hne _ _)
          · exact congrArg numComputedTokens (update_self head _ popped.pass.sched.requests)
          · exact hafterInvalid
          · change ∀ slot ∈ slots config.blockSize (popped.pass.sched.kvCacheManager.table head) _ _, _
            rw [hafterKv]
            exact hafterLoaded
          · exact fun other _ ↦ congrArg _ hafterTokens
          · change (popped.pass.numScheduledTokens.lookup head).getD 0 = _
            rw [hafterTokens, AList.lookup_eq_none.2 hid, hknown.async hload]
            rfl
        · obtain ⟨_, hcommit, rfl⟩ := map_eq_ok_iff.1 halloc
          obtain ⟨hcommitKv, hcommitInvalid, hcommitOthers, hcommitComputed, hcommitTokens⟩ :=
            Pass.slots_commitWaiting hcommit
          apply slotsSound_granted henv hsound hid hknown hres
          · exact (hcommitKv.trans hafterKv).trans hkv.symm
          · intro other hne
            rw [← hafterRequests]
            exact hcommitOthers other hne
          · exact hcommitComputed
          · exact fun slot hslot ↦ hafterInvalid slot (hcommitInvalid ▸ hslot)
          · rw [hcommitKv, hcommitInvalid, hafterKv]
            exact hafterLoaded
          · intro other hne
            rw [hcommitTokens, AList.lookup_insert_ne hne, hafterTokens]
          · rw [hcommitTokens, AList.lookup_insert]
            rfl

end

section

variable (henv : env.LooksUp useEagle skipReadingPrefixCache) (hencoder : env.EncoderNonneg)
  (hsound : state.pass.sched.SlotsSound config state.pass.numScheduledTokens)
include henv hencoder hsound

theorem slotsSound_scheduleHead
    (hid : id ∉ state.pass.numScheduledTokens) (hpeek : (state.pass.sched.queue name).peekRequest = some id)
    (hschedule : state.scheduleHead config (env.tracked config.blockSize) name id = .ok next) :
    next.pass.sched.SlotsSound config next.pass.numScheduledTokens := by
  unfold scheduleHead at hschedule
  dsimp only at hschedule
  split at hschedule
  · exact slotsSound_skipHead hsound hschedule
  · obtain ⟨sched, hsame, hqueue, hmarked⟩ : ∃ sched, state.pass.sched.SameSlots sched ∧
        (∀ name, sched.queue name = state.pass.sched.queue name) ∧
        (if 0 < config.nelssaConfig.maxNumLongRequests then
          state.setSched (state.pass.sched.markLong config id) else state) = state.setSched sched := by
      split
      · refine ⟨_, Scheduler.sameSlots_markLong config _ id, fun name ↦ ?_, rfl⟩
        unfold Scheduler.markLong
        split <;> cases name <;> rfl
      · exact ⟨state.pass.sched, ⟨rfl, fun _ ↦ rfl, rfl⟩, fun _ ↦ rfl, rfl⟩
    rw [hmarked] at hschedule
    have hmarkedSound := hsound.of_same hsame
    split at hschedule
    · exact slotsSound_skipHead hmarkedSound hschedule
    · split at hschedule
      · cases hschedule
      · next decision environment hplan =>
        have hinval := Pass.invalid_planAdmission hplan
        have hinformed : { state.setSched sched with
            pass := (state.setSched sched).pass.setEnvironment environment }.pass.sched.SlotsSound config
            state.pass.numScheduledTokens :=
          hmarkedSound.of_same ⟨rfl, fun _ ↦ rfl, hinval⟩
        split at hschedule
        · exact slotsSound_skipHead hinformed hschedule
        · cases hschedule
          exact hinformed
        · next plan =>
          have hknown := Pass.known_planAdmission hencoder hplan
          refine slotsSound_allocateHead henv hinformed hid ?_ ?_ hschedule
          · rw [← hpeek]
            exact congrArg RequestQueue.peekRequest (.trans (by cases name <;> rfl) (hqueue name))
          · exact { hknown with invalid := rfl }

theorem slotsSound_waitingStep (hfresh : ∀ name id, (state.pass.sched.queue name).peekRequest = some id →
      id ∉ state.pass.numScheduledTokens)
    (hstep : state.waitingStep config (env.tracked config.blockSize) = .ok (some next)) :
    next.pass.sched.SlotsSound config next.pass.numScheduledTokens := by
  unfold waitingStep at hstep
  dsimp only at hstep
  split at hstep
  · cases hstep
  · split at hstep
    · cases hstep
    · next id hid =>
      have hnew := hfresh _ id hid
      split at hstep
      · split at hstep
        · cases hstep
        · next sched hpromote =>
          obtain ⟨after, hskip, ⟨⟩⟩ := map_eq_ok_iff.1 hstep
          have hpromoted := Scheduler.slotsSound_tryPromote hsound hnew hpromote
          exact slotsSound_skipHead hpromoted hskip
        · next sched hpromote =>
          obtain ⟨after, hschedule, ⟨⟩⟩ := map_eq_ok_iff.1 hstep
          have hturns := (Scheduler.Turns.tryPromote hpromote).1
          have hqueue (name : QueueName) : sched.queue name = state.pass.sched.queue name := by
            cases name with
            | waiting => exact hturns.waiting
            | skippedWaiting => exact hturns.skippedWaiting
          have hpromoted : (state.setSched sched).pass.sched.SlotsSound config
              (state.setSched sched).pass.numScheduledTokens :=
            Scheduler.slotsSound_tryPromote hsound hnew hpromote
          refine slotsSound_scheduleHead henv hencoder hpromoted hnew ?_ hschedule
          rw [← hid]
          exact congrArg RequestQueue.peekRequest (hqueue _)
      · obtain ⟨_, hschedule, ⟨⟩⟩ := map_eq_ok_iff.1 hstep
        exact slotsSound_scheduleHead henv hencoder hsound hnew hid hschedule

end

end WaitingPass

variable {final : Pass (ε × Loads ρ) ρ}

namespace Pass

variable {limit : ℤ}
    
theorem slotsSound_scheduleWaiting (henv : env.LooksUp useEagle skipReadingPrefixCache)
    (hencoder : env.EncoderNonneg) (hsched : pass.sched.WellFormed config) (hacc : pass.Accounts limit)
    (hsound : pass.sched.SlotsSound config pass.numScheduledTokens)
    (hfinal : pass.scheduleWaiting config (env.tracked config.blockSize) = .ok final) :
    final.sched.SlotsSound config final.numScheduledTokens := by
  rcases scheduleWaiting_cases hfinal with rfl | ⟨loras, state, _, hnone, hreaches, -, -, rfl⟩
  · exact hsound
  · let inv (state : WaitingPass (ε × Loads ρ) ρ) : Prop :=
      (state.pass.Accounts limit ∧ state.pass.preemptedReqs = []) ∧
        state.pass.sched.SlotsSound config state.pass.numScheduledTokens
    have hinv : inv state := by
      apply hreaches.invariant
      · exact ⟨⟨hacc, hnone⟩, hsound⟩
      · intro current next hcur hinv hstep
        have hqueued := queued_reaches (queued_start hsched loras) hcur
        obtain ⟨_, _, hid, -, -, -, hturn⟩ := WaitingPass.turn_of_waitingStep hstep
        refine ⟨WaitingPass.accounts_round hqueued hinv.1.1 hinv.1.2
          (hqueued.notMem_running (List.mem_of_head? hid)) hturn.round, ?_⟩
        refine WaitingPass.slotsSound_waitingStep henv hencoder hinv.2 (fun other head hhead hmem ↦ ?_) hstep
        have hrun := hinv.1.1.running head ((hinv.1.1.tokens head).1 hmem)
        exact hqueued.notMem_running (List.mem_of_head? hhead) hrun
    exact hinv.2.of_same ⟨rfl, fun _ ↦ rfl, rfl⟩

end Pass

/-! ## One call of the scheduler -/

namespace Scheduler

theorem slotsSound_schedule (henv : env.LooksUp useEagle skipReadingPrefixCache)
    (hencoder : env.EncoderNonneg) (hsched : sched.WellFormed config)
    (hbehind : sched.VictimsBehind config (env.tracked config.blockSize))
    (hsound : sched.SlotsSound config ∅)
    (hschedule : sched.schedule config (env.tracked config.blockSize) = .ok (final, after)) :
    final.sched.SlotsSound config final.numScheduledTokens ∧
      after = final.sched.updateAfterSchedule final.numScheduledTokens := by
  obtain ⟨_, hrun, hwait, -, hafter⟩ := schedule_cases hschedule
  have hmiddle := wellFormed_scheduleRunning hsched hrun
  have hbooks := books_scheduleRunning hsched hbehind.keepsPositions hrun
  have hrunningSound := Pass.slotsSound_scheduleRunning hsched hbehind hsound hrun
  refine ⟨?_, hafter⟩
  exact Pass.slotsSound_scheduleWaiting henv hencoder hmiddle hbooks.accounts hrunningSound hwait

end Scheduler

end Nelssa.Sched
