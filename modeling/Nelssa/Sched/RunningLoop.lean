import Nelssa.Core.HeldBlocks
import Nelssa.Foundation.Windows
import Nelssa.Sched.WaitingLoop

/-!
# What the running loop keeps

The queues stay well formed in every step of the loop over the running requests. The books of the pass
(which request is scheduled, with how many tokens and which blocks) and the index into the running list
stay right as long as a preemption takes its victim from behind the current request, or takes back what
the pass has given to the victim and moves the index.
-/

namespace Nelssa.Sched

open Nelssa.Core Foundation.Loops Foundation.Windows Function Pass AList Except Request
open List hiding max le_trans beq_eq_decide

variable {ρ ε : Type*} [LinearOrder ρ] {config : SchedulerConfig} {env : Environment ε ρ}
  {sched : Scheduler ε ρ}
/-! ## Token counts -/

variable {id : ρ}

section

variable {counts : AList (fun _ : ρ ↦ ℤ)}

theorem sum_entries_insert (hid : id ∉ counts) (numTokens : ℤ) :
    ((counts.insert id numTokens).entries.map Sigma.snd).sum =
      numTokens + (counts.entries.map Sigma.snd).sum := by
  rw [entries_insert_of_notMem hid, map_cons, sum_cons]

theorem sum_entries_erase (counts : AList (fun _ : ρ ↦ ℤ)) (id : ρ) :
    (counts.entries.map Sigma.snd).sum =
      (counts.lookup id).getD 0 + ((counts.erase id).entries.map Sigma.snd).sum := by
  have hlist (entries : List (Σ _ : ρ, ℤ)) : (entries.map Sigma.snd).sum =
      (entries.dlookup id).getD 0 + ((entries.kerase id).map Sigma.snd).sum := by
    induction entries with
    | nil => rfl
    | cons entry rest ih =>
      obtain ⟨key, _⟩ := entry
      by_cases hkey : id = key
      · subst hkey
        simp
      · rw [dlookup_cons_ne _ _ hkey, kerase_cons_ne hkey, map_cons, map_cons, sum_cons, sum_cons]
        omega
  exact hlist _

end

/-! ## What a step does -/

/-- The environment after the encoder cache of some inputs was allocated. -/
def Environment.allocateAll (env : Environment ε ρ) (id : ρ) (inputs : List ℕ) (state : ε) : ε :=
  inputs.foldl (fun current input ↦ env.allocateEncoder current id input) state

theorem Request.firstChunk_bounds (config : SchedulerConfig) (missing : ℤ) :
    firstChunk config missing ≤ missing ∧ (0 ≤ missing → 0 ≤ firstChunk config missing) ∧
      (0 < missing → 0 < firstChunk config missing) := by
  unfold firstChunk
  split <;> omega

/-- The encoder never takes back more tokens than it is offered. -/
def Environment.EncoderNonneg (env : Environment ε ρ) : Prop :=
  ∀ state id req numComputed numNew budget, 0 ≤ numNew →
    0 ≤ (env.tryScheduleEncoderInputs state id req numComputed numNew budget).1.numNewTokens

variable {pass next : Pass ε ρ} {numNewTokens : ℤ}

namespace Pass

theorem scheduleEncoder_eq (env : Environment ε ρ) (pass : Pass ε ρ) (id : ρ) (plan : EncoderPlan) :
    pass.scheduleEncoder env id plan =
      { pass with
        sched := { pass.sched with
          environment := env.allocateAll id (plan.inputs ++ plan.externalLoads) pass.sched.environment }
        scheduledEncoderInputs := (pass.scheduleEncoder env id plan).scheduledEncoderInputs
        encoderComputeBudget := (pass.scheduleEncoder env id plan).encoderComputeBudget } := by
  unfold scheduleEncoder Environment.allocateAll
  rw [foldl_append]
  split
  · next hnone =>
    rw [hnone]
    rfl
  · rfl

theorem scheduleSpecTokens_eq (pass : Pass ε ρ) (id : ρ) (numNewTokens : ℤ) :
    pass.scheduleSpecTokens id numNewTokens =
      { pass with
        sched := pass.sched.setRequest id fun req ↦ { req with specTokenIds := [] }
        scheduledSpecDecodeTokens :=
          (pass.scheduleSpecTokens id numNewTokens).scheduledSpecDecodeTokens } := by
  unfold scheduleSpecTokens
  dsimp only
  split
  · next hnone =>
    have hself : update pass.sched.requests id { pass.sched.requests id with specTokenIds := [] } =
        pass.sched.requests := by
      rw [← hnone]
      exact update_eq_self id _
    unfold Scheduler.setRequest
    rw [hself]
  · rfl

/-- The request gets its tokens and blocks, and nothing but its draft tokens changes. -/
theorem commitRunning_eq (env : Environment ε ρ) (pass : Pass ε ρ) (id : ρ) (numNewTokens : ℤ)
    (plan : EncoderPlan) (newBlocks : List (List ℕ)) :
    ∃ requests environment specTokens inputs budget,
      (environment = env.allocateAll id (plan.inputs ++ plan.externalLoads) pass.sched.environment ∧
        ∀ other, requests other =
          { pass.sched.requests other with specTokenIds := (requests other).specTokenIds }) ∧
      pass.commitRunning env id numNewTokens plan newBlocks =
        { pass with
          sched := { pass.sched with requests, environment }
          phase := .visit
          reqIndex := pass.reqIndex + 1
          tokenBudget := pass.tokenBudget - numNewTokens
          scheduledRunningReqs := pass.scheduledRunningReqs ++ [id]
          reqToNewBlocks := pass.reqToNewBlocks.insert id newBlocks
          numScheduledTokens := pass.numScheduledTokens.insert id numNewTokens
          scheduledSpecDecodeTokens := specTokens
          scheduledEncoderInputs := inputs
          encoderComputeBudget := budget } := by
  unfold commitRunning
  rw [scheduleEncoder_eq, scheduleSpecTokens_eq]
  refine ⟨_, _, _, _, _, ⟨rfl, fun other ↦ ?_⟩, rfl⟩
  simp only [Scheduler.setRequest]
  by_cases hsame : other = id
  · rw [hsame, update_self]
  · rw [update_of_ne hsame]

/-- The split refuses tokens that are loaded, and it only takes tokens away. -/
theorem mambaBlockAlignedSplit_cases {req : Request} {result : ℤ} {numLocal numExternal : ℕ}
    (hsplit : req.mambaBlockAlignedSplit config numNewTokens numLocal numExternal = .ok result) :
    numExternal = 0 ∧ result ≤ numNewTokens ∧ (0 ≤ numNewTokens → 0 ≤ result) := by
  revert hsplit
  fun_cases req.mambaBlockAlignedSplit config numNewTokens numLocal numExternal
  case case1 => nofun
  case case2 hext _ _ _ _ _ =>
    rintro ⟨⟩
    exact ⟨not_not.1 hext, Int.ediv_mul_le _ (Int.natCast_ne_zero.2 config.blockSize_pos.ne'), fun hnonneg ↦
      mul_nonneg (Int.ediv_nonneg hnonneg (Int.natCast_nonneg _)) (Int.natCast_nonneg _)⟩
  case case3 hext _ _ _ _ _ _ =>
    rintro ⟨⟩
    omega
  case case4 hext _ _ _ _ _ _ | case5 hext _ _ =>
    rintro ⟨⟩
    exact ⟨not_not.1 hext, le_rfl, id⟩

omit [LinearOrder ρ] in
/-- The encoder and the split only take tokens away from those that the request asks for. -/
theorem planRunning_bounds (hplan : (pass.planRunning config env id).1 = .ok numNewTokens) :
    numNewTokens ≤ max ((pass.sched.requests id).numNewTokens config pass.tokenBudget) 0 ∧
      (env.EncoderNonneg → 0 ≤ (pass.sched.requests id).numNewTokens config pass.tokenBudget →
        0 ≤ numNewTokens) := by
  generalize hasked : (pass.sched.requests id).numNewTokens config pass.tokenBudget = asked
  have hencoder : (pass.planRunning config env id).2.1.numNewTokens ≤ max asked 0 ∧
      (env.EncoderNonneg → 0 ≤ asked → 0 ≤ (pass.planRunning config env id).2.1.numNewTokens) := by
    unfold planRunning
    dsimp only
    rw [hasked]
    split
    · exact ⟨env.numNewTokens_le _ _ _ _ _ _, fun hencoder ↦ hencoder _ _ _ _ _ _⟩
    · exact ⟨le_max_left _ _, fun _ hasked ↦ hasked⟩
  unfold planRunning at hplan hencoder
  dsimp only at hplan hencoder
  by_cases hmamba : config.needMambaBlockAlignedSplit = true
  · rw [if_pos hmamba] at hplan
    obtain ⟨-, hle, hnonneg⟩ := mambaBlockAlignedSplit_cases hplan
    exact ⟨hle.trans hencoder.1, fun h hasked ↦ hnonneg (hencoder.2 h hasked)⟩
  · rw [if_neg hmamba] at hplan
    exact ok.inj hplan ▸ hencoder

omit [LinearOrder ρ] in
theorem planRunning_le (hbudget : 0 ≤ pass.tokenBudget)
    (hplan : (pass.planRunning config env id).1 = .ok numNewTokens) : numNewTokens ≤ pass.tokenBudget := by
  refine (planRunning_bounds hplan).1.trans (max_le ?_ hbudget)
  exact (min_le_left _ _).trans (min_le_right _ _)

omit [LinearOrder ρ] in
/-- A visit passes the request over or goes on with a number of tokens that the budget allows. -/
theorem visitRunning_cases (hbudget : 0 < pass.tokenBudget)
    (hvisit : pass.visitRunning config env id = .ok next) :
    ∃ environment,
      (environment = pass.sched.environment ∨ environment = (pass.planRunning config env id).2.2) ∧
      (next = { pass with
        sched := { pass.sched with environment }
        considered := pass.considered ++ [id]
        reqIndex := pass.reqIndex + 1 } ∨
      ∃ numNewTokens plan, (numNewTokens ≤ pass.tokenBudget ∧ numNewTokens ≠ 0 ∧
          ¬ (pass.sched.requests id).ReachesMaxTokens ∧
          (pass.planRunning config env id).1 = .ok numNewTokens) ∧
        next = { pass with
          sched := { pass.sched with environment }
          considered := pass.considered ++ [id]
          phase := .allocate id numNewTokens plan }) := by
  unfold visitRunning at hvisit
  dsimp only at hvisit
  split at hvisit
  · exact ⟨_, .inl rfl, .inl (ok.inj hvisit).symm⟩
  · next hreaches =>
    split at hvisit
    · cases hvisit
    · next numNewTokens hplan =>
      refine ⟨_, .inr rfl, ?_⟩
      split at hvisit
      · exact .inl (ok.inj hvisit).symm
      · next hsome =>
        have hfits := planRunning_le hbudget.le hplan
        exact .inr ⟨numNewTokens, _, ⟨hfits, hsome, hreaches, hplan⟩, (ok.inj hvisit).symm⟩

theorem preemptRequest_cases {after : Scheduler ε ρ} (hpreempt : sched.preemptRequest env id = .ok after) :
    ∃ requests waiting environment, (requests id).status = .preempted ∧
      (∀ other, other ≠ id → requests other = sched.requests other) ∧
      waiting.members.Perm (id :: sched.waiting.members) ∧
      after = { sched with
        requests, waiting, environment
        kvCacheManager := (sched.kvCacheManager.free id).2 } := by
  unfold Scheduler.preemptRequest at hpreempt
  dsimp only at hpreempt
  split at hpreempt
  · cases hpreempt
  · split at hpreempt
    · cases hpreempt
    · refine ⟨_, _, _, ?_, ?_, RequestQueue.prependRequest_perm _ _ _, (ok.inj hpreempt).symm⟩
      · exact congrArg status (update_self id _ sched.requests)
      · exact fun other hne ↦ update_of_ne hne _ _

/-- A preemption takes the victim out of the running list, frees its blocks and puts it into the waiting
queue. -/
theorem preempt_cases (hpreempt : pass.preempt config env id = .ok next) :
    ∃ victim requests waiting environment, (pass.victim config = some victim ∧
        { pass.sched with running := pass.sched.running.erase victim }.preemptRequest env victim =
          .ok next.sched) ∧
      (requests victim).status = .preempted ∧
      (∀ other, other ≠ victim → requests other = pass.sched.requests other) ∧
      waiting.members.Perm (victim :: pass.sched.waiting.members) ∧
      next = { pass.takeBack config victim with
        sched := { pass.sched with
          running := pass.sched.running.erase victim
          requests, waiting, environment
          kvCacheManager := (pass.sched.kvCacheManager.free victim).2 }
        preemptedReqs := pass.preemptedReqs ++ [victim]
        phase := if victim = id then .stopped else pass.phase } := by
  unfold preempt at hpreempt
  split at hpreempt
  · cases hpreempt
  · next victim hvictim =>
    have hsched : ({ pass with sched :=
        { pass.sched with running := pass.sched.running.erase victim } }.takeBack config victim) =
        { pass.takeBack config victim with sched :=
          { pass.sched with running := pass.sched.running.erase victim } } := by
      unfold takeBack undoScheduled
      split
      · split <;> rfl
      · rfl
    dsimp only at hpreempt
    rw [hsched] at hpreempt
    split at hpreempt
    · cases hpreempt
    · next sched hpreempted =>
      cases hpreempt
      obtain ⟨requests, waiting, environment, hstat, hreqs, hwait, rfl⟩ := preemptRequest_cases hpreempted
      exact ⟨victim, requests, waiting, environment, ⟨hvictim, hpreempted⟩, hstat, hreqs, hwait, rfl⟩

/-- The allocation for a running request. -/
abbrev allocateRunning (config : SchedulerConfig) (pass : Pass ε ρ) (id : ρ) (numNewTokens : ℤ) :=
  pass.sched.kvCacheManager.allocateSlots ((pass.sched.requests id).slotRequest id)
    { numNewTokens, numLookaheadTokens := config.numLookaheadTokens }

theorem runningStep_cases (hstep : pass.runningStep config env = .ok (some next)) :
    (∃ id, pass.phase = .visit ∧ pass.sched.running[pass.reqIndex]? = some id ∧ 0 < pass.tokenBudget ∧
      pass.visitRunning config env id = .ok next) ∨
    ∃ id numNewTokens plan kv, pass.phase = .allocate id numNewTokens plan ∧
      kv = (allocateRunning config pass id numNewTokens).2 ∧
      ((∃ newBlocks, (allocateRunning config pass id numNewTokens).1 = .ok (some newBlocks) ∧
        next = (pass.setKv kv).commitRunning env id numNewTokens plan newBlocks) ∨
      ((allocateRunning config pass id numNewTokens).1 = .ok none ∧
        (pass.setKv kv).preempt config env id = .ok next)) := by
  unfold runningStep at hstep
  split at hstep
  · cases hstep
  · next hphase =>
    split at hstep
    · cases hstep
    · next id hid =>
      split at hstep
      · next hbudget =>
        obtain ⟨_, hvis, ⟨⟩⟩ := map_eq_ok_iff.1 hstep
        exact .inl ⟨id, hphase, hid, hbudget, hvis⟩
      · cases hstep
  · next id numNewTokens plan hphase =>
    refine .inr ⟨id, numNewTokens, plan, _, hphase, rfl, ?_⟩
    dsimp only at hstep
    split at hstep
    · cases hstep
    · next newBlocks hnew =>
      exact .inl ⟨newBlocks, hnew, (Option.some.inj (ok.inj hstep)).symm⟩
    · next hnone =>
      obtain ⟨_, hpreempted, ⟨⟩⟩ := map_eq_ok_iff.1 hstep
      exact .inr ⟨hnone, hpreempted⟩

end Pass

/-! ## The queues -/

/-- A request is in one queue only, and the running list holds running requests, not too many. -/
structure Scheduler.WellFormed (config : SchedulerConfig) (sched : Scheduler ε ρ) : Prop where
  nodup : (sched.running ++ (sched.waiting.members ++ sched.skippedWaiting.members)).Nodup
  running : ∀ id ∈ sched.running, (sched.requests id).status = .running
  bounded : sched.running.length ≤ config.maxNumRunningReqs

variable {victim : ρ}

section

omit [LinearOrder ρ]

theorem Scheduler.WellFormed.nodup_running (hsched : sched.WellFormed config) : sched.running.Nodup :=
  (nodup_append.1 hsched.nodup).1

theorem mem_of_maxByKey {ids : List ρ} (hmax : sched.maxByKey ids = some id) : id ∈ ids := by
  have hfold (rest : List ρ) (best : ρ) :
      rest.foldl (fun best id ↦ if sched.hasLowerKey best id then id else best) best ∈ best :: rest := by
    induction rest generalizing best with
    | nil => exact mem_singleton_self best
    | cons next rest ih =>
      rw [foldl_cons]
      split
      · exact mem_cons_of_mem _ (ih next)
      · rcases mem_cons.1 (ih best) with hsame | hrest
        · rw [hsame]
          exact mem_cons_self
        · exact mem_cons_of_mem _ (mem_cons_of_mem _ hrest)
  cases ids with
  | nil => cases hmax
  | cons first rest =>
    cases hmax
    exact hfold rest first

theorem mem_of_victim (hvictim : pass.victim config = some victim) : victim ∈ pass.sched.running := by
  unfold Pass.victim at hvictim
  split at hvictim
  · unfold Scheduler.priorityVictim at hvictim
    split at hvictim
    · exact mem_of_maxByKey hvictim
    · exact mem_of_mem_filter (mem_of_maxByKey hvictim)
  · unfold Scheduler.fcfsVictim at hvictim
    split at hvictim
    · next hfound =>
      cases hvictim
      exact mem_reverse.1 (mem_of_find?_eq_some hfound)
    · exact mem_of_getLast? hvictim

end

/-- A step keeps the queues and of the requests changes only the draft tokens, or it moves a running
request to the waiting queue. -/
theorem runningStep_moves (hstep : pass.runningStep config env = .ok (some next)) :
    ∃ requests environment kvCacheManager, ((∀ other, requests other =
          { pass.sched.requests other with specTokenIds := (requests other).specTokenIds }) ∧
        next.sched = { pass.sched with requests, environment, kvCacheManager }) ∨
      ∃ victim ∈ pass.sched.running, ∃ waiting, (requests victim).status = .preempted ∧
        (∀ other, other ≠ victim → requests other = pass.sched.requests other) ∧
        waiting.members.Perm (victim :: pass.sched.waiting.members) ∧
        next.sched = { pass.sched with
          running := pass.sched.running.erase victim
          requests, waiting, environment, kvCacheManager } := by
  rcases runningStep_cases hstep with ⟨id, -, -, hbudget, hvisit⟩ |
    ⟨id, numNewTokens, plan, kv, -, -, ⟨newBlocks, -, rfl⟩ | ⟨-, hpreempt⟩⟩
  · obtain ⟨_, -, rfl | ⟨_, _, -, rfl⟩⟩ := visitRunning_cases hbudget hvisit
    all_goals exact ⟨_, _, _, .inl ⟨fun _ ↦ rfl, rfl⟩⟩
  · obtain ⟨_, _, _, _, _, ⟨-, hreqs⟩, hcommit⟩ :=
      commitRunning_eq env (pass.setKv kv) id numNewTokens plan newBlocks
    exact ⟨_, _, _, .inl ⟨hreqs, congrArg Pass.sched hcommit⟩⟩
  · obtain ⟨victim, _, waiting, _, ⟨hvictim, -⟩, hstat, hreqs, hwait, rfl⟩ := preempt_cases hpreempt
    exact ⟨_, _, _, .inr ⟨victim, mem_of_victim hvictim, waiting, hstat, hreqs, hwait, rfl⟩⟩

theorem wellFormed_runningStep (hsched : pass.sched.WellFormed config)
    (hstep : pass.runningStep config env = .ok (some next)) : next.sched.WellFormed config := by
  obtain ⟨requests, _, _, ⟨hreqs, hnext⟩ | ⟨victim, hmem, waiting, -, hreqs, hwait, hnext⟩⟩ :=
    runningStep_moves hstep
  all_goals rw [hnext]
  · refine { hsched with running := fun other hother ↦ ?_ }
    exact (congrArg status (hreqs other)).trans (hsched.running other hother)
  · have hnodup := hsched.nodup_running
    refine ⟨?_, ?_, ?_⟩
    · have hmoved : (pass.sched.running.erase victim ++
          (waiting.members ++ pass.sched.skippedWaiting.members)).Perm
          (pass.sched.running ++ (pass.sched.waiting.members ++ pass.sched.skippedWaiting.members)) := by
        refine ((hwait.append_right _).append_left _).trans (perm_middle.trans ?_)
        exact (perm_cons_erase hmem).symm.append_right _
      exact hmoved.nodup_iff.2 hsched.nodup
    · intro other hother
      have hne := ((hnodup.mem_erase_iff).1 hother).1
      exact (congrArg status (hreqs other hne)).trans (hsched.running other (mem_of_mem_erase hother))
    · exact (length_erase_le).trans hsched.bounded

/-! ## The end of the loop -/

/-- A measure that every step of the running loop lowers: a visit moves on to the allocation or to the
next request, an allocation to the next request, and a preemption shortens the running list. -/
def Pass.runningMeasure (pass : Pass ε ρ) : ℕ :=
  match pass.phase with
  | .stopped => 0
  | .visit => 2 * pass.sched.running.length + 3 * (pass.sched.running.length - pass.reqIndex)
  | .allocate _ _ _ =>
    2 * pass.sched.running.length + 3 * (pass.sched.running.length - (pass.reqIndex + 1)) + 1

theorem le_reqIndex_takeBack (config : SchedulerConfig) (pass : Pass ε ρ) (victim : ρ) :
    pass.reqIndex ≤ (pass.takeBack config victim).reqIndex + 1 := by
  unfold takeBack undoScheduled
  split
  · split
    · exact Nat.le_add_of_sub_le (le_refl _)
    · exact Nat.le_succ _
  · exact Nat.le_succ _

theorem runningMeasure_lt (hstep : pass.runningStep config env = .ok (some next)) :
    next.runningMeasure < pass.runningMeasure := by
  rcases runningStep_cases hstep with ⟨id, hphase, hid, hbudget, hvisit⟩ |
    ⟨id, numNewTokens, plan, kv, hphase, -, ⟨newBlocks, -, rfl⟩ | ⟨-, hpreempt⟩⟩
  · have hlt := (List.getElem?_eq_some_iff.1 hid).1
    obtain ⟨_, -, rfl | ⟨_, _, -, rfl⟩⟩ := visitRunning_cases hbudget hvisit
    all_goals
      simp only [runningMeasure, hphase]
      omega
  · obtain ⟨_, _, _, _, _, -, hcommit⟩ := commitRunning_eq env _ id numNewTokens plan newBlocks
    rw [hcommit]
    simp only [runningMeasure, hphase, setKv]
    omega
  · obtain ⟨victim, _, _, _, ⟨hvictim, -⟩, -, -, -, rfl⟩ := preempt_cases hpreempt
    have hmem : victim ∈ pass.sched.running := mem_of_victim hvictim
    have hlen := length_erase_of_mem hmem
    have hpos := length_pos_of_mem hmem
    have hidx : pass.reqIndex ≤ ((pass.setKv kv).takeBack config victim).reqIndex + 1 :=
      le_reqIndex_takeBack config (pass.setKv kv) victim
    have hallocating : (pass.setKv kv).phase = .allocate id numNewTokens plan := hphase
    have hrun : (pass.setKv kv).sched.running = pass.sched.running := rfl
    by_cases hself : victim = id
    · simp only [runningMeasure, hphase, hself, if_true]
      omega
    · simp only [runningMeasure, hallocating, hphase, hself, if_false, hrun, hlen]
      omega

variable {final : Pass ε ρ}

theorem runningStep_scheduleRunning (hfinal : sched.scheduleRunning config env = .ok final) :
    final.runningStep config env = .ok none := by
  refine ended_of_loop runningMeasure (fun _ _ ↦ runningMeasure_lt) ?_ hfinal
  simp only [runningMeasure, start]
  omega

/-! ## The books -/

/-- The requests at which the loop looked and that still run are the first ones of the running list, up
to the current one. -/
def Pass.Position (pass : Pass ε ρ) : Prop :=
  match pass.phase with
  | .allocate id numNewTokens _ =>
    pass.sched.running[pass.reqIndex]? = some id ∧ numNewTokens ≤ pass.tokenBudget ∧
      pass.considered.filter pass.sched.isRunning = pass.sched.running.take (pass.reqIndex + 1)
  | _ => pass.considered.filter pass.sched.isRunning = pass.sched.running.take pass.reqIndex

/-- The books of the pass over the running requests, which started with the budget `limit`. -/
structure Pass.Books (limit : ℤ) (pass : Pass ε ρ) : Prop where
  nodup : pass.scheduledRunningReqs.Nodup
  before : ∀ id ∈ pass.scheduledRunningReqs, id ∈ pass.sched.running.take pass.reqIndex
  tokens : ∀ id, id ∈ pass.numScheduledTokens ↔ id ∈ pass.scheduledRunningReqs
  blocks : ∀ id, id ∈ pass.reqToNewBlocks ↔ id ∈ pass.scheduledRunningReqs
  total : pass.totalNumScheduledTokens + pass.tokenBudget = limit
  budget : 0 ≤ pass.tokenBudget
  held : ∀ id newBlocks, pass.reqToNewBlocks.lookup id = some newBlocks →
    List.Forall₂ (· ⊆ ·) newBlocks (pass.sched.kvCacheManager.getBlocks id)
  preempted : ∀ id ∈ pass.preemptedReqs, id ∉ pass.sched.running
  admitted : pass.scheduledNewReqs = [] ∧ pass.scheduledResumedReqs = []
  position : pass.Position

section

variable (config : SchedulerConfig) (pass : Pass ε ρ)

/-- The allocation for the current request fails and a request is preempted. -/
def Pass.AllocationFails : Prop :=
  ∃ id numNewTokens plan, pass.phase = .allocate id numNewTokens plan ∧
    (pass.sched.kvCacheManager.allocateSlots ((pass.sched.requests id).slotRequest id)
      { numNewTokens, numLookaheadTokens := config.numLookaheadTokens }).1 = .ok none

/-- A preemption does not move the current request. First come, first served: a request at or behind the
current index is not protected, or all running requests are. Priorities: the request of largest priority
value and arrival time is at or behind the current index, or it is scheduled in this pass with a number
of tokens that is not negative. -/
def Pass.KeepsPosition : Prop :=
  match config.policy with
  | .fcfs => (∃ id ∈ pass.sched.running.drop pass.reqIndex, ¬ pass.sched.Protected id) ∨
      ∀ id ∈ pass.sched.running, pass.sched.Protected id
  | .priority => ∀ victim, pass.sched.priorityVictim = some victim →
      victim ∈ pass.sched.running.drop pass.reqIndex ∨
        (victim ∈ pass.scheduledRunningReqs ∧ 0 ≤ (pass.numScheduledTokens.lookup victim).getD 0)

end

namespace Pass.Books

variable {limit : ℤ} {plan : EncoderPlan}

theorem start (config : SchedulerConfig) (sched : Scheduler ε ρ) :
    (start config sched).Books (start config sched).tokenBudget where
  nodup := nodup_nil
  before := by simp [Pass.start]
  tokens := fun id ↦ iff_of_false (notMem_empty id) not_mem_nil
  blocks := fun id ↦ iff_of_false (notMem_empty id) not_mem_nil
  total := by simp [Pass.start, totalNumScheduledTokens]
  budget := by
    unfold Pass.start
    split
    · exact le_rfl
    · exact Int.natCast_nonneg _
  held := by
    intro id newBlocks hlookup
    cases hlookup
  preempted := by simp [Pass.start]
  admitted := ⟨rfl, rfl⟩
  position := by simp [Pass.start, Position]

section

variable (hbooks : pass.Books limit)
include hbooks

theorem visit (hphase : pass.phase = .visit)
    (hbudget : 0 < pass.tokenBudget) (hid : pass.sched.running[pass.reqIndex]? = some id)
    (hvisit : pass.visitRunning config env id = .ok next) : next.Books limit := by
  have hpos : pass.considered.filter (· ∈ pass.sched.running) = pass.sched.running.take pass.reqIndex := by
    have hold := hbooks.position
    rwa [Position, hphase] at hold
  have hnext : (pass.considered ++ [id]).filter (· ∈ pass.sched.running) =
      pass.sched.running.take (pass.reqIndex + 1) := by
    have hmem := mem_of_getElem? hid
    rw [filter_append, hpos, take_add_one, hid]
    simp [hmem]
  obtain ⟨_, -, rfl | ⟨_, _, ⟨hfits, -⟩, rfl⟩⟩ := visitRunning_cases hbudget hvisit
  · refine { hbooks with before := fun other hother ↦ ?_, position := ?_ }
    · exact take_subset_take_left _ (Nat.le_succ _) (hbooks.before other hother)
    · simp only [Position, hphase]
      exact hnext
  · exact { hbooks with position := ⟨hid, hfits, hnext⟩ }

theorem allocating (hphase : pass.phase = .allocate id numNewTokens plan) :
    pass.sched.running[pass.reqIndex]? = some id ∧ numNewTokens ≤ pass.tokenBudget ∧
      pass.considered.filter (· ∈ pass.sched.running) = pass.sched.running.take (pass.reqIndex + 1) := by
  have hold := hbooks.position
  rwa [Position, hphase] at hold

theorem notMem_scheduled (hnodup : pass.sched.running.Nodup)
    (hid : pass.sched.running[pass.reqIndex]? = some id) : id ∉ pass.scheduledRunningReqs := by
  intro hscheduled
  have hbefore := hbooks.before id hscheduled
  obtain ⟨_, hidx, hsame⟩ := mem_take_iff_getElem.1 hbefore
  obtain ⟨hlt, hcur⟩ := List.getElem?_eq_some_iff.1 hid
  have hequal := (hnodup.getElem_inj_iff).1 (hsame.trans hcur.symm)
  omega

theorem commit (hnodup : pass.sched.running.Nodup)
    (hphase : pass.phase = .allocate id numNewTokens plan) {call : SlotCall} {newBlocks : List (List ℕ)} {slots}
    (hslots : pass.sched.kvCacheManager.allocateSlots ((pass.sched.requests id).slotRequest id) call = slots)
    (hnew : slots.1 = .ok (some newBlocks)) :
    ((pass.setKv slots.2).commitRunning env id numNewTokens plan newBlocks).Books limit := by
  obtain ⟨hid, hfits, hpos⟩ := hbooks.allocating hphase
  have hfresh := hbooks.notMem_scheduled hnodup hid
  have hfreshTokens := fun h ↦ hfresh ((hbooks.tokens id).1 h)
  obtain ⟨_, _, _, _, _, -, hcommit⟩ := commitRunning_eq env
    _ id numNewTokens plan newBlocks
  rw [hcommit]
  subst hslots
  refine ⟨?_, ?_, ?_, ?_, ?_, ?_, ?_, hbooks.preempted, hbooks.admitted, hpos⟩
  · exact nodup_append_comm.1 (nodup_cons.2 ⟨hfresh, hbooks.nodup⟩)
  · intro other hother
    rcases mem_append.1 hother with hold | hnewReq
    · exact take_subset_take_left _ (Nat.le_succ _) (hbooks.before other hold)
    · rw [mem_singleton.1 hnewReq, take_add_one]
      exact mem_append_right _ (Option.mem_toList.2 hid)
  · intro other
    rw [mem_insert, mem_append, mem_singleton, or_comm]
    exact or_congr_left (hbooks.tokens other)
  · intro other
    rw [mem_insert, mem_append, mem_singleton, or_comm]
    exact or_congr_left (hbooks.blocks other)
  · have htotal := hbooks.total
    have hsum := sum_entries_insert hfreshTokens numNewTokens
    simp only [totalNumScheduledTokens] at htotal ⊢
    simp only [setKv, hsum]
    omega
  · exact sub_nonneg_of_le hfits
  · intro other otherBlocks hlookup
    by_cases hsame : other = id
    · subst hsame
      rw [lookup_insert] at hlookup
      cases hlookup
      exact KVCacheManager.reported_allocateSlots hnew
    · rw [lookup_insert_ne hsame] at hlookup
      have hkept := pass.sched.kvCacheManager.getBlocks_allocateSlots
        ((pass.sched.requests id).slotRequest id) call hsame
      exact hkept.symm ▸ hbooks.held other otherBlocks hlookup

theorem setKv (hid : id ∉ pass.scheduledRunningReqs) (req : Request) (call : SlotCall) :
    (pass.setKv (pass.sched.kvCacheManager.allocateSlots (req.slotRequest id) call).2).Books limit := by
  refine { hbooks with held := ?_ }
  intro other newBlocks hlookup
  have hscheduled := (hbooks.blocks other).1 (lookup_isSome.1 (Option.isSome_of_mem hlookup))
  have hne : other ≠ id := fun h ↦ hid (h ▸ hscheduled)
  have hkept := pass.sched.kvCacheManager.getBlocks_allocateSlots (req.slotRequest id) call hne
  exact hkept.symm ▸ hbooks.held other newBlocks hlookup

end

theorem victim_cases (hidx : pass.reqIndex < pass.sched.running.length)
    (hkeeps : pass.KeepsPosition config) (hvictim : pass.victim config = some victim) :
    victim ∈ pass.sched.running.drop pass.reqIndex ∨ (config.policy = .priority ∧
      victim ∈ pass.scheduledRunningReqs ∧ 0 ≤ (pass.numScheduledTokens.lookup victim).getD 0) := by
  unfold KeepsPosition at hkeeps
  unfold Pass.victim at hvictim
  cases hpolicy : config.policy with
  | priority =>
    simp only [hpolicy] at hkeeps hvictim
    exact (hkeeps victim hvictim).imp_right fun h ↦ ⟨rfl, h⟩
  | fcfs =>
    simp only [hpolicy] at hkeeps hvictim
    refine .inl ?_
    have hsplit : pass.sched.running.reverse = (pass.sched.running.drop pass.reqIndex).reverse ++
        (pass.sched.running.take pass.reqIndex).reverse := by
      rw [← reverse_append, take_append_drop]
    unfold Scheduler.fcfsVictim at hvictim
    rcases hkeeps with ⟨candidate, hcand, hfree⟩ | hall
    · -- The last request that is not protected is not before this one.
      have hexists : ((pass.sched.running.drop pass.reqIndex).reverse.find? fun id ↦
          ¬ pass.sched.Protected id).isSome = true :=
        find?_isSome.2 ⟨candidate, mem_reverse.2 hcand, decide_eq_true hfree⟩
      obtain ⟨_, hfound⟩ := Option.isSome_iff_exists.1 hexists
      rw [hsplit, find?_append, hfound] at hvictim
      cases hvictim
      exact mem_reverse.1 (mem_of_find?_eq_some hfound)
    · have hnone : pass.sched.running.reverse.find? (fun id ↦ ¬ pass.sched.Protected id) = none :=
        find?_eq_none.2 fun id hid ↦ by simpa using hall id (mem_reverse.1 hid)
      rw [hnone] at hvictim
      have hlast : (pass.sched.running.drop pass.reqIndex).getLast? = some victim := by
        rw [getLast?_drop, if_neg (by omega)]
        exact hvictim
      exact mem_of_getLast? hlast

theorem takeBack_of_notMem (hvictim : victim ∉ pass.scheduledRunningReqs) :
    pass.takeBack config victim = pass := by
  unfold takeBack undoScheduled
  split
  · exact if_neg hvictim
  · rfl

theorem considered_erase (hnodup : pass.sched.running.Nodup) (victim : ρ) :
    pass.considered.filter (· ∈ pass.sched.running.erase victim) =
      (pass.considered.filter (· ∈ pass.sched.running)).filter (· ≠ victim) := by
  rw [filter_filter]
  refine filter_congr fun id _ ↦ ?_
  rw [← Bool.decide_and, decide_eq_decide]
  exact hnodup.mem_erase_iff

section

variable (hbooks : pass.Books limit) (hnodup : pass.sched.running.Nodup)
include hbooks hnodup

theorem notMem_erase (victim : ρ) :
    ∀ other ∈ pass.preemptedReqs ++ [victim], other ∉ pass.sched.running.erase victim := by
  intro other hother
  rcases mem_append.1 hother with hold | hnew
  · exact fun h ↦ hbooks.preempted other hold (mem_of_mem_erase h)
  · rw [mem_singleton.1 hnew]
    exact hnodup.not_mem_erase

variable {requests : ρ → Request} {waiting : RequestQueue ρ} {environment : ε}
  (hphase : pass.phase = .allocate id numNewTokens plan) (hnext : next = { pass.takeBack config victim with
    sched := { pass.sched with
      running := pass.sched.running.erase victim
      requests, waiting, environment
      kvCacheManager := (pass.sched.kvCacheManager.free victim).2 }
    preemptedReqs := pass.preemptedReqs ++ [victim]
    phase := if victim = id then .stopped else pass.phase })
include hphase hnext

theorem preempt_behind (hbehind : victim ∈ pass.sched.running.drop pass.reqIndex) : next.Books limit := by
  have hbefore : victim ∉ pass.sched.running.take pass.reqIndex := by
    rw [← take_append_drop _ pass.sched.running] at hnodup
    exact fun h ↦ disjoint_of_nodup_append hnodup h hbehind
  have hscheduled := fun h ↦ hbefore (hbooks.before victim h)
  obtain ⟨hid, hfits, hpos⟩ := hbooks.allocating hphase
  have hfilter := considered_erase hnodup victim
  rw [hpos] at hfilter
  rw [hnext, takeBack_of_notMem hscheduled]
  refine { hbooks with
    before := ?_, held := ?_, preempted := hbooks.notMem_erase hnodup victim, position := ?_ }
  · intro other hother
    rw [take_erase_of_notMem hbefore]
    exact hbooks.before other hother
  · intro other newBlocks hlookup
    have hother := (hbooks.blocks other).1 (lookup_isSome.1 (Option.isSome_of_mem hlookup))
    have hne : other ≠ victim := fun h ↦ hscheduled (h ▸ hother)
    exact (pass.sched.kvCacheManager.getBlocks_free hne).symm ▸ hbooks.held other newBlocks hlookup
  · by_cases hself : victim = id
    · -- The current request itself leaves the list, and the loop ends.
      have hothers : (pass.sched.running.take pass.reqIndex).filter (· ≠ victim) =
          pass.sched.running.take pass.reqIndex :=
        filter_eq_self.2 fun other hother ↦ decide_eq_true fun h ↦ hbefore (h ▸ hother)
      simp only [Position, hself, if_true]
      subst hself
      refine hfilter.trans ?_
      rw [take_add_one, hid, filter_append, hothers, take_erase_of_notMem hbefore]
      simp
    · have hlater : victim ∉ pass.sched.running.take (pass.reqIndex + 1) := by
        rw [take_add_one, hid, mem_append]
        rintro (h | h)
        · exact hbefore h
        · exact hself (mem_singleton.1 h)
      have hkept := take_erase_of_notMem hlater
      simp only [Position, hself, if_false, hphase]
      refine ⟨?_, hfits, ?_⟩
      · rw [← getElem?_take_of_lt (Nat.lt_succ_self _), hkept, getElem?_take_of_lt (Nat.lt_succ_self _)]
        exact hid
      · refine hfilter.trans ?_
        rw [hkept]
        exact filter_eq_self.2 fun other hother ↦ decide_eq_true fun h ↦ hlater (h ▸ hother)

/-- A scheduled victim under priority scheduling: its tokens and blocks are taken back, and the index
follows the current request. -/
theorem preempt_scheduled (hpolicy : config.policy = .priority)
    (hscheduled : victim ∈ pass.scheduledRunningReqs)
    (hcount : 0 ≤ (pass.numScheduledTokens.lookup victim).getD 0) : next.Books limit := by
  have hbefore := hbooks.before victim hscheduled
  obtain ⟨hid, hfits, hpos⟩ := hbooks.allocating hphase
  obtain ⟨index, hidx⟩ : ∃ index, pass.reqIndex = index + 1 :=
    Nat.exists_eq_succ_of_ne_zero fun h ↦ by simp [h] at hbefore
  have hself : victim ≠ id := fun h ↦ hbooks.notMem_scheduled hnodup hid (h ▸ hscheduled)
  have hlater := take_subset_take_left _ (Nat.le_succ _) hbefore
  have hwithout : (pass.sched.running.take (pass.reqIndex + 1)).filter (· ≠ victim) =
      (pass.sched.running.take (pass.reqIndex + 1)).erase victim := by
    rw [(hnodup.sublist (take_sublist _ _)).erase_eq_filter]
    exact filter_congr fun other _ ↦ by simp [bne, beq_eq_decide]
  have hfilter := considered_erase hnodup victim
  rw [hpos, hwithout, ← take_erase_of_mem hlater] at hfilter
  have htake : (pass.sched.running.erase victim).take index =
      (pass.sched.running.take pass.reqIndex).erase victim := by
    rw [hidx] at hbefore ⊢
    exact take_erase_of_mem hbefore
  have hundone : pass.takeBack config victim = pass.undoScheduled victim := by
    rw [takeBack, hpolicy]
  rw [hnext, hundone, undoScheduled, if_pos hscheduled]
  refine ⟨hbooks.nodup.erase victim, ?_, ?_, ?_, ?_, ?_, ?_, hbooks.notMem_erase hnodup victim,
    hbooks.admitted, ?_⟩
  · intro other hother
    rw [hbooks.nodup.mem_erase_iff] at hother
    have hmem : other ∈ (pass.sched.running.erase victim).take index := by
      rw [htake, (hnodup.sublist (take_sublist _ _)).mem_erase_iff]
      exact ⟨hother.1, hbooks.before other hother.2⟩
    simpa [hidx] using hmem
  · intro other
    rw [mem_erase, hbooks.nodup.mem_erase_iff]
    exact and_congr_right fun _ ↦ hbooks.tokens other
  · intro other
    rw [mem_erase, hbooks.nodup.mem_erase_iff]
    exact and_congr_right fun _ ↦ hbooks.blocks other
  · have htotal := hbooks.total
    have hsum := sum_entries_erase pass.numScheduledTokens victim
    simp only [totalNumScheduledTokens] at htotal ⊢
    omega
  · exact add_nonneg hbooks.budget hcount
  · intro other newBlocks hlookup
    by_cases hsame : other = victim
    · rw [hsame, lookup_erase] at hlookup
      cases hlookup
    · rw [lookup_erase_ne hsame] at hlookup
      exact (pass.sched.kvCacheManager.getBlocks_free hsame).symm ▸ hbooks.held other newBlocks hlookup
  · have hcur : (pass.sched.running.erase victim)[index]? = some id := by
      have hmoved := take_erase_of_mem hlater
      rw [take_add_one, hid, erase_append_left _ hbefore, ← htake, hidx, take_add_one] at hmoved
      exact Option.toList_eq_singleton_iff.1 (append_cancel_left hmoved)
    simp only [Position, hself, if_false, hphase]
    rw [hidx] at hfilter ⊢
    exact ⟨hcur, hfits.trans (le_add_of_nonneg_right hcount), hfilter⟩

end

/-- The step lemma: a step keeps the books unless a preemption moves the current request. -/
theorem runningStep (hbooks : pass.Books limit) (hsched : pass.sched.WellFormed config)
    (hkeeps : pass.AllocationFails config → pass.KeepsPosition config)
    (hstep : pass.runningStep config env = .ok (some next)) : next.Books limit := by
  have hnodup := hsched.nodup_running
  rcases runningStep_cases hstep with ⟨id, hphase, hid, hbudget, hvisit⟩ |
    ⟨id, numNewTokens, plan, _, hphase, rfl, ⟨_, hnew, rfl⟩ | ⟨hnone, hpreempt⟩⟩
  · exact hbooks.visit hphase hbudget hid hvisit
  · exact hbooks.commit hnodup hphase rfl hnew
  · obtain ⟨_, _, _, _, ⟨hvictim, -⟩, -, -, -, hnext⟩ := preempt_cases hpreempt
    have hid := (hbooks.allocating hphase).1
    have htried := hbooks.setKv (hbooks.notMem_scheduled hnodup hid) (pass.sched.requests id)
      { numNewTokens, numLookaheadTokens := config.numLookaheadTokens }
    have hidx := (List.getElem?_eq_some_iff.1 hid).1
    rcases victim_cases hidx (hkeeps ⟨id, numNewTokens, plan, hphase, hnone⟩) hvictim with
      hbehind | ⟨hpolicy, hscheduled, hcount⟩
    · exact htried.preempt_behind hnodup hphase hnext hbehind
    · exact htried.preempt_scheduled hnodup hphase hnext hpolicy hscheduled hcount

end Pass.Books

/-! ## The whole loop -/

/-- In every preemption of the running loop the current request keeps its position. -/
def Scheduler.KeepsPositions (config : SchedulerConfig) (env : Environment ε ρ) (sched : Scheduler ε ρ) :
    Prop :=
  ∀ pass, Reaches (runningStep config env) (.start config sched) pass →
    pass.AllocationFails config → pass.KeepsPosition config

/-- The running loop looks at the surviving requests in their order and skips none: those that it has
looked at are the first ones, and all of them if it ends with budget left and without giving up on an
allocation. -/
structure Pass.VisitsInOrder (pass : Pass ε ρ) : Prop where
  first : pass.considered.filter pass.sched.isRunning <+: pass.sched.running
  all : 0 < pass.tokenBudget → pass.phase ≠ .stopped →
    pass.considered.filter pass.sched.isRunning = pass.sched.running

section

variable (hsched : sched.WellFormed config)
include hsched

theorem wellFormed_reaches (hreaches : Reaches (runningStep config env) (.start config sched) pass) :
    pass.sched.WellFormed config :=
  hreaches.invariant { hsched with } fun _ _ _ hcur ↦
    wellFormed_runningStep hcur

theorem wellFormed_scheduleRunning (hfinal : sched.scheduleRunning config env = .ok final) :
    final.sched.WellFormed config :=
  wellFormed_reaches hsched (reaches_of_loop hfinal)

theorem books_scheduleRunning (hkeeps : sched.KeepsPositions config env)
    (hfinal : sched.scheduleRunning config env = .ok final) :
    final.Books (start config sched).tokenBudget := by
  refine (reaches_of_loop hfinal).invariant (.start config sched) ?_
  intro current next hcur hbooks hstep
  exact hbooks.runningStep (wellFormed_reaches hsched hcur) (hkeeps current hcur) hstep

end

theorem Pass.Books.visitsInOrder {limit : ℤ} (hbooks : final.Books limit)
    (hended : final.runningStep config env = .ok none) : final.VisitsInOrder := by
  unfold Pass.runningStep at hended
  have hpos := hbooks.position
  cases hphase : final.phase with
  | stopped =>
    rw [Position, hphase] at hpos
    exact ⟨hpos ▸ take_prefix _ _, fun _ h ↦ absurd hphase h⟩
  | visit =>
    rw [Position, hphase] at hpos
    refine ⟨hpos ▸ take_prefix _ _, fun hbudget _ ↦ ?_⟩
    simp only [hphase] at hended
    split at hended
    · next hidx =>
      rw [hpos]
      exact take_of_length_le (getElem?_eq_none_iff.1 hidx)
    · rw [if_pos hbudget] at hended
      obtain ⟨_, -, hnone⟩ := map_eq_ok_iff.1 hended
      cases hnone
  | allocate id numNewTokens plan =>
    simp only [hphase] at hended
    split at hended
    · cases hended
    · cases hended
    · obtain ⟨_, -, hnone⟩ := map_eq_ok_iff.1 hended
      cases hnone

/-! ## Victims at the end of the list -/

/-- Every preemption takes a request that the pass over the running requests has not left behind. -/
def Scheduler.VictimsBehind (config : SchedulerConfig) (env : Environment ε ρ) (sched : Scheduler ε ρ) :
    Prop :=
  ∀ pass, Reaches (Pass.runningStep config env) (.start config sched) pass → pass.AllocationFails config →
    ∀ victim, pass.victim config = some victim → victim ∈ pass.sched.running.drop pass.reqIndex

/-- The policy preempts the second request first: it is not the only protected one of the two and, under
priorities, has the larger key if both are protected or neither is. -/
def Scheduler.Outlives (config : SchedulerConfig) (sched : Scheduler ε ρ) (first second : ρ) : Prop :=
  (sched.Protected second → sched.Protected first) ∧
    (config.policy = .priority → (sched.Protected first → sched.Protected second) →
      sched.hasLowerKey first second = true)

instance (config : SchedulerConfig) (sched : Scheduler ε ρ) (first second : ρ) :
    Decidable (sched.Outlives config first second) :=
  inferInstanceAs (Decidable (_ ∧ _))

/-- The policy preempts the running requests from the end of the list. -/
def Scheduler.VictimsLast (config : SchedulerConfig) (sched : Scheduler ε ρ) : Prop :=
  sched.running.Pairwise (sched.Outlives config)

theorem keepsPosition_of_victim_behind
    (hbehind : ∀ victim, pass.victim config = some victim → victim ∈ pass.sched.running.drop pass.reqIndex) :
    pass.KeepsPosition config := by
  unfold KeepsPosition
  unfold Pass.victim at hbehind
  cases hpolicy : config.policy with
  | priority =>
    simp only [hpolicy] at hbehind ⊢
    exact fun victim hsome ↦ .inl (hbehind victim hsome)
  | fcfs =>
    simp only [hpolicy, Scheduler.fcfsVictim] at hbehind ⊢
    cases hfind : pass.sched.running.reverse.find? fun id ↦ ¬ pass.sched.Protected id with
    | some victim =>
      rw [hfind] at hbehind
      have hfree := find?_some hfind
      exact .inl ⟨victim, hbehind victim rfl, by simpa using hfree⟩
    | none =>
      refine .inr fun id hid ↦ ?_
      have hnone := find?_eq_none.1 hfind id (mem_reverse.2 hid)
      simpa using hnone

theorem Scheduler.VictimsBehind.keepsPositions (hbehind : sched.VictimsBehind config env) :
    sched.KeepsPositions config env :=
  fun pass hreaches hfails ↦ keepsPosition_of_victim_behind (hbehind pass hreaches hfails)

section

omit [LinearOrder ρ]

theorem maxByKey_eq_getLast? {ids : List ρ}
    (hkeys : ids.Pairwise fun first second ↦ sched.hasLowerKey first second = true) :
    sched.maxByKey ids = ids.getLast? := by
  induction ids with
  | nil => rfl
  | cons first rest ih =>
    cases rest with
    | nil => rfl
    | cons next rest =>
      obtain ⟨hfirst, hrest⟩ := pairwise_cons.1 hkeys
      rw [getLast?_cons_cons, ← ih hrest, Scheduler.maxByKey, foldl_cons, if_pos (hfirst next mem_cons_self)]
      rfl

section

variable {front : List ρ} {last : ρ} (hrun : sched.running = front ++ [last])
  (hlast : sched.VictimsLast config)
include hrun hlast

theorem protected_of_protected_last (hprotected : sched.Protected last) :
    ∀ id ∈ sched.running, sched.Protected id := by
  intro id hid
  rw [hrun, mem_append, mem_singleton] at hid
  rw [Scheduler.VictimsLast, hrun, pairwise_append] at hlast
  rcases hid with hfront | rfl
  · exact (hlast.2.2 id hfront last (mem_singleton_self _)).1 hprotected
  · exact hprotected

theorem fcfsVictim_eq_last : sched.fcfsVictim = some last := by
  unfold Scheduler.fcfsVictim
  by_cases hprotected : sched.Protected last
  · have hall := protected_of_protected_last hrun hlast hprotected
    have hnone : sched.running.reverse.find? (fun id ↦ ¬ sched.Protected id) = none :=
      find?_eq_none.2 fun id hid ↦ by simpa using hall id (mem_reverse.1 hid)
    rw [hnone, hrun, getLast?_concat]
  · rw [hrun, reverse_append, reverse_singleton, singleton_append,
      find?_cons_of_pos (by simpa using hprotected)]

theorem priorityVictim_eq_last (hpolicy : config.policy = .priority) : sched.priorityVictim = some last := by
  -- Among requests that are protected alike the last one has the largest key.
  have hkeys (ids : List ρ) (hsub : ids.Sublist sched.running)
      (halike : ∀ first ∈ ids, ∀ second ∈ ids, sched.Protected first → sched.Protected second) :
      sched.maxByKey ids = ids.getLast? :=
    maxByKey_eq_getLast? ((hlast.sublist hsub).imp_of_mem fun hfirst hsecond houtlives ↦
      houtlives.2 hpolicy (halike _ hfirst _ hsecond))
  unfold Scheduler.priorityVictim
  by_cases hprotected : sched.Protected last
  · have hall := protected_of_protected_last hrun hlast hprotected
    have hnone : sched.running.filter (fun id ↦ ¬ sched.Protected id) = [] :=
      filter_eq_nil_iff.2 fun id hid ↦ by simpa using hall id hid
    have hmax := hkeys _ (Sublist.refl _) fun _ _ second hsecond _ ↦ hall second hsecond
    rw [hnone, hmax, hrun, getLast?_concat]
  · have hmax := hkeys (sched.running.filter fun id ↦ ¬ sched.Protected id) filter_sublist
      fun first hfirst _ _ h ↦ absurd h (by simpa using (mem_filter.1 hfirst).2)
    have hend : (sched.running.filter fun id ↦ ¬ sched.Protected id).getLast? = some last := by
      rw [hrun, filter_append, filter_cons_of_pos (by simpa using hprotected), filter_nil, getLast?_concat]
    split
    · next hnil =>
      rw [hnil] at hend
      cases hend
    · exact hmax.trans hend

end

theorem victim_eq_getLast? (hlast : pass.sched.VictimsLast config) :
    pass.victim config = pass.sched.running.getLast? := by
  unfold Pass.victim
  cases hend : pass.sched.running.getLast? with
  | none =>
    rw [Scheduler.priorityVictim, Scheduler.fcfsVictim, getLast?_eq_none_iff.1 hend]
    split <;> rfl
  | some last =>
    obtain ⟨front, hrun⟩ := getLast?_eq_some_iff.1 hend
    split
    · next hpolicy => exact priorityVictim_eq_last hrun hlast hpolicy
    · exact fcfsVictim_eq_last hrun hlast

/-- The order of two requests does not depend on their draft tokens. -/
theorem Scheduler.Outlives.congr {after : Scheduler ε ρ} {first second : ρ}
    (houtlives : sched.Outlives config first second)
    (hfirst : ∃ specTokenIds, after.requests first = { sched.requests first with specTokenIds })
    (hsecond : ∃ specTokenIds, after.requests second = { sched.requests second with specTokenIds }) :
    after.Outlives config first second := by
  obtain ⟨_, hfirst⟩ := hfirst
  obtain ⟨_, hsecond⟩ := hsecond
  unfold Scheduler.Outlives Scheduler.Protected Scheduler.hasLowerKey
  rw [hfirst, hsecond]
  exact houtlives

end

theorem victimsLast_runningStep (hsched : pass.sched.WellFormed config)
    (hlast : pass.sched.VictimsLast config) (hstep : pass.runningStep config env = .ok (some next)) :
    next.sched.VictimsLast config := by
  have hkept : next.sched.running.Sublist pass.sched.running ∧ ∀ id ∈ next.sched.running,
      ∃ specTokenIds, next.sched.requests id = { pass.sched.requests id with specTokenIds } := by
    obtain ⟨requests, _, _, ⟨hreqs, hnext⟩ | ⟨victim, -, waiting, -, hreqs, -, hnext⟩⟩ :=
      runningStep_moves hstep
    all_goals rw [hnext]
    · exact ⟨Sublist.refl _, fun id _ ↦ ⟨_, hreqs id⟩⟩
    · refine ⟨erase_sublist, fun id hid ↦ ⟨_, hreqs id ?_⟩⟩
      exact (hsched.nodup_running.mem_erase_iff.1 hid).1
  exact (hlast.sublist hkept.1).imp_of_mem fun hfirst hsecond houtlives ↦
    houtlives.congr (hkept.2 _ hfirst) (hkept.2 _ hsecond)

/-- If the policy preempts the running requests from the end of the list, every victim is behind the current
request or is this request. -/
theorem victimsBehind_of_victimsLast (hsched : sched.WellFormed config) (hlast : sched.VictimsLast config) :
    sched.VictimsBehind config env := by
  have hbehind {limit : ℤ} {current : Pass ε ρ} (hbooks : current.Books limit)
      (hcur : current.sched.VictimsLast config) (hfails : current.AllocationFails config) (victim : ρ)
      (hvictim : current.victim config = some victim) :
      victim ∈ current.sched.running.drop current.reqIndex := by
    obtain ⟨_, _, _, hphase, -⟩ := hfails
    have hidx := (List.getElem?_eq_some_iff.1 (hbooks.allocating hphase).1).1
    refine mem_of_getLast? ?_
    rw [getLast?_drop, if_neg (by omega), ← victim_eq_getLast? hcur, hvictim]
  intro pass hreaches
  have hinv : pass.Books (start config sched).tokenBudget ∧ pass.sched.VictimsLast config := by
    apply hreaches.invariant
    · exact ⟨.start config sched, hlast⟩
    · intro current next hcur hinv hstep
      have hwellFormed := wellFormed_reaches hsched hcur
      exact ⟨hinv.1.runningStep hwellFormed
        (fun hfails ↦ keepsPosition_of_victim_behind (hbehind hinv.1 hinv.2 hfails)) hstep,
        victimsLast_runningStep hwellFormed hinv.2 hstep⟩
  exact hbehind hinv.1 hinv.2

end Nelssa.Sched
