import Nelssa.Core.UnitaryTables
import Nelssa.Foundation.SlotViews
import Nelssa.Sched.InvalidBlocks

/-!
# A record of invalid slots

After a failed load the affected requests go back to their first invalid block and compute it again. To
say that nobody reads the block before, the scheduler runs with a record of the slots whose data failed
to load and was not written since. A slot is written by a scheduled token, or by a load that the connector
is told about.

The theory of slot views says what has to hold between two calls: no request counts an invalid slot among
its computed tokens, and the prefix cache holds no block with an invalid slot. The running loop keeps
this, as long as it does not preempt a request that it has given tokens to.
-/

namespace Nelssa.Sched

open Nelssa.Core Foundation.Loops Foundation.SlotViews Function KVCacheManager
open List hiding min

variable {ρ ε : Type*} [LinearOrder ρ]

attribute [local instance] lawfulBEq_of_linearOrder

/-! ## The record of invalid slots -/

/-- The slots that hold invalid data, and how many tokens of each request its last lookup found in the
prefix cache, behind which the connector loads. -/
structure Loads (ρ : Type*) where
  invalid : List (ℕ × ℕ) := []
  numLocal : ρ → ℕ := fun _ ↦ 0

def Loads.write (loads : Loads ρ) (written : List (ℕ × ℕ)) : Loads ρ :=
  { loads with invalid := loads.invalid.filter fun slot ↦ slot ∉ written }

/-- The connector loads tokens of a request into its blocks. -/
def Loads.load (loads : Loads ρ) (blockSize : ℕ) (id : ρ) (blocks : List (List ℕ)) (numExternal : ℕ) :
    Loads ρ :=
  loads.write (slots blockSize (blocks.headD []) (loads.numLocal id) numExternal)

/-- The same environment, with a record of what the connector is told. -/
def Environment.tracked (env : Environment ε ρ) (blockSize : ℕ) : Environment (ε × Loads ρ) ρ :=
  { tryScheduleEncoderInputs := fun state id req numComputed numNew budget ↦
      let planned := env.tryScheduleEncoderInputs state.1 id req numComputed numNew budget
      (planned.1, planned.2, state.2)
    numNewTokens_le := fun state ↦ env.numNewTokens_le state.1
    allocateEncoder := fun state id input ↦ (env.allocateEncoder state.1 id input, state.2)
    freeEncoder := fun state id ↦ (env.freeEncoder state.1 id, state.2)
    grammarReady := fun state id ↦ env.grammarReady state.1 id
    getComputedBlocks := env.getComputedBlocks
    connector := env.connector.map fun connector ↦
      { getNumNewMatchedTokens := fun state id req numLocal ↦
          let found := connector.getNumNewMatchedTokens state.1 id req numLocal
          (found.1, found.2, { state.2 with numLocal := update state.2.numLocal id numLocal })
        updateStateAfterAlloc := fun state id blocks numExternal ↦
          (connector.updateStateAfterAlloc state.1 id blocks numExternal,
            state.2.load blockSize id blocks numExternal) } }

variable {id : ρ} {after : Scheduler (ε × Loads ρ) ρ}

namespace Scheduler

variable (config : SchedulerConfig) (sched : Scheduler (ε × Loads ρ) ρ) (scheduled : AList (fun _ : ρ ↦ ℤ))
  {granted : AList (fun _ : ρ ↦ ℤ)}

/-- The slots that the tokens of a step are written to. -/
def scheduledSlots : List (ℕ × ℕ) :=
  scheduled.entries.flatMap fun entry ↦
    slots config.blockSize (sched.kvCacheManager.table entry.1)
      (sched.requests entry.1).numComputedTokens entry.2.toNat

/-- The tables during a call that has given the tokens `scheduled`. -/
def slotView : View ρ :=
  { table := sched.kvCacheManager.table
    written := fun id ↦ ((sched.requests id).numComputedTokens + (scheduled.lookup id).getD 0).toNat
    published := sched.kvCacheManager.blockPool.Published
    invalid := fun slot ↦
      slot ∈ sched.environment.2.invalid ∧ slot ∉ sched.scheduledSlots config scheduled }

/-- Nobody reads invalid slots, and the computed tokens have slots, up to the length of the model. -/
structure SlotsSound : Prop where
  unitary : sched.kvCacheManager.IsUnitary config.blockSize
  clean : (sched.slotView config scheduled).Clean config.blockSize
  backed : ∀ id, min ((sched.slotView config scheduled).written id) sched.kvCacheManager.maxModelLen ≤
    (sched.kvCacheManager.table id).length * config.blockSize

variable {config sched scheduled}

theorem mem_scheduledSlots {slot : ℕ × ℕ} :
    slot ∈ sched.scheduledSlots config scheduled ↔ ∃ id numTokens, scheduled.lookup id = some numTokens ∧
      slot ∈ slots config.blockSize (sched.kvCacheManager.table id)
        (sched.requests id).numComputedTokens numTokens.toNat := by
  simp only [scheduledSlots, mem_flatMap]
  constructor
  · rintro ⟨⟨id, numTokens⟩, hentry, hslot⟩
    exact ⟨id, numTokens, AList.mem_lookup_iff.2 hentry, hslot⟩
  · rintro ⟨id, numTokens, hlookup, hslot⟩
    exact ⟨⟨id, numTokens⟩, AList.mem_lookup_iff.1 hlookup, hslot⟩

/-- A change that hands out no block: a request keeps its blocks and gains no computed tokens, or it has
no computed tokens any more. Full blocks of computed tokens may be cached. Scheduled requests stay as they
are. -/
structure Eases (config : SchedulerConfig) (scheduled : AList (fun _ : ρ ↦ ℤ))
    (sched after : Scheduler (ε × Loads ρ) ρ) : Prop where
  unitary : after.kvCacheManager.IsUnitary config.blockSize
  maxModelLen : after.kvCacheManager.maxModelLen = sched.kvCacheManager.maxModelLen
  invalid : after.environment.2.invalid = sched.environment.2.invalid
  requests : ∀ id, after.kvCacheManager.table id = sched.kvCacheManager.table id ∧
      (after.requests id).numComputedTokens ≤ (sched.requests id).numComputedTokens ∨
    (after.requests id).numComputedTokens = 0
  kept : ∀ id ∈ scheduled, after.kvCacheManager.table id = sched.kvCacheManager.table id ∧
    (after.requests id).numComputedTokens = (sched.requests id).numComputedTokens
  published : ∀ block, after.kvCacheManager.blockPool.Published block →
    sched.kvCacheManager.blockPool.Published block ∨
      ∃ id index, (sched.kvCacheManager.table id)[index]? = some block ∧
        (index + 1) * config.blockSize ≤ (sched.slotView config scheduled).written id

theorem written_of_notMem (hid : id ∉ scheduled) :
    (sched.slotView config scheduled).written id = (sched.requests id).numComputedTokens := by
  simp [slotView, AList.lookup_eq_none.2 hid]

theorem mem_scheduledSlots_congr
    (hsame : ∀ id ∈ scheduled, after.kvCacheManager.table id = sched.kvCacheManager.table id ∧
      (after.requests id).numComputedTokens = (sched.requests id).numComputedTokens) {slot : ℕ × ℕ} :
    slot ∈ after.scheduledSlots config scheduled ↔ slot ∈ sched.scheduledSlots config scheduled := by
  simp only [mem_scheduledSlots]
  refine exists_congr fun id ↦ exists_congr fun numTokens ↦ and_congr_right fun hlookup ↦ ?_
  obtain ⟨htable, hcomp⟩ := hsame id (AList.lookup_isSome.1 (by rw [hlookup]; rfl))
  rw [htable, hcomp]

theorem Eases.written_le (heases : Eases config scheduled sched after)
    (id : ρ) : after.kvCacheManager.table id = sched.kvCacheManager.table id ∧
        (after.slotView config scheduled).written id ≤ (sched.slotView config scheduled).written id ∨
      (after.slotView config scheduled).written id = 0 := by
  by_cases hid : id ∈ scheduled
  · obtain ⟨htable, hcomp⟩ := heases.kept id hid
    refine .inl ⟨htable, ?_⟩
    simp [slotView, hcomp]
  · rw [written_of_notMem hid, written_of_notMem hid]
    exact heases.requests id

section

variable (hsound : sched.SlotsSound config scheduled)
include hsound

theorem SlotsSound.of_eases (heases : Eases config scheduled sched after) :
    after.SlotsSound config scheduled := by
  have hinval (slot : ℕ × ℕ) (hslot : (after.slotView config scheduled).invalid slot) :
      (sched.slotView config scheduled).invalid slot :=
    ⟨heases.invalid ▸ hslot.1, fun hwritten ↦ hslot.2 ((mem_scheduledSlots_congr heases.kept).2 hwritten)⟩
  refine ⟨heases.unitary, hsound.clean.change hinval (fun id ↦ ?_) fun block hblock ↦ ?_, fun id ↦ ?_⟩
  · rcases heases.written_le id with ⟨htable, hwritten⟩ | hzero
    · exact (hsound.clean.readable id).of_le hinval htable hwritten
    · intro pos block hpos
      rw [hzero] at hpos
      exact absurd hpos (Nat.not_lt_zero _)
  · exact (heases.published block hblock).imp_right .inl
  · rw [heases.maxModelLen]
    rcases heases.written_le id with ⟨htable, hwritten⟩ | hzero
    · rw [htable]
      exact (min_le_min_right _ hwritten).trans (hsound.backed id)
    · rw [hzero]
      exact (min_le_left _ _).trans (Nat.zero_le _)

theorem SlotsSound.grant (hid : id ∉ scheduled)
    (hgranted : ∀ other, other ≠ id → granted.lookup other = scheduled.lookup other)
    (hreqs : ∀ other, other ≠ id →
      (after.requests other).numComputedTokens = (sched.requests other).numComputedTokens)
    (hinval : ∀ slot ∈ after.environment.2.invalid, slot ∈ sched.environment.2.invalid)
    {found fresh : List ℕ} {numCached : ℕ}
    (hallocates : sched.kvCacheManager.Allocates config.blockSize id after.kvCacheManager found fresh
      numCached) (hcached : numCached ≤ (after.slotView config granted).written id)
    (hcomp : ∀ pos block, pos < (after.requests id).numComputedTokens →
      (after.kvCacheManager.table id)[pos / config.blockSize]? = some block →
      ¬ ((sched.slotView config scheduled).invalid (block, pos % config.blockSize) ∧
        (block, pos % config.blockSize) ∈ after.environment.2.invalid))
    (hbacked : min ((after.slotView config granted).written id) sched.kvCacheManager.maxModelLen ≤
      (after.kvCacheManager.table id).length * config.blockSize) : after.SlotsSound config granted := by
  have hsubset (slot : ℕ × ℕ) (hslot : slot ∈ sched.scheduledSlots config scheduled) :
      slot ∈ after.scheduledSlots config granted := by
    obtain ⟨other, numTokens, hlookup, hmem⟩ := mem_scheduledSlots.1 hslot
    have hne : other ≠ id := by
      rintro rfl
      exact hid (AList.lookup_isSome.1 (by rw [hlookup]; rfl))
    refine mem_scheduledSlots.2 ⟨other, numTokens, (hgranted other hne).trans hlookup, ?_⟩
    rw [hallocates.others other hne, hreqs other hne]
    exact hmem
  have hview (slot : ℕ × ℕ) (hslot : (after.slotView config granted).invalid slot) :
      (sched.slotView config scheduled).invalid slot :=
    ⟨hinval slot hslot.1, fun hwritten ↦ hslot.2 (hsubset slot hwritten)⟩
  have hwritten (other : ρ) (hne : other ≠ id) :
      (after.slotView config granted).written other = (sched.slotView config scheduled).written other := by
    simp [slotView, hgranted other hne, hreqs other hne]
  have hreadable (other : ρ) : (after.slotView config granted).Readable config.blockSize other := by
    by_cases hsame : other = id
    · subst hsame
      intro pos block hpos hblock hslot
      by_cases hold : pos < (after.requests other).numComputedTokens
      · exact hcomp pos block hold hblock ⟨hview _ hslot, hslot.1⟩
      · -- The position is one of those that the step writes.
        refine hslot.2 (mem_scheduledSlots.2 ?_)
        cases hlookup : granted.lookup other with
        | none =>
          simp only [slotView, hlookup, Option.getD_none, add_zero, Int.toNat_natCast] at hpos
          exact absurd hpos hold
        | some numTokens =>
          simp only [slotView, hlookup, Option.getD_some] at hpos
          refine ⟨other, numTokens, hlookup, mem_slots.2 ⟨pos, not_lt.1 hold, ?_, hblock, rfl⟩⟩
          omega
    · exact (hsound.clean.readable other).of_le hview (hallocates.others other hsame)
        (hwritten other hsame).le
  refine ⟨hallocates.unitary, hsound.clean.change hview hreadable fun block hblock ↦ ?_, fun other ↦ ?_⟩
  · refine (hallocates.published block hblock).imp_right fun hnew ↦ .inr ?_
    obtain ⟨index, hidx, hfull⟩ := hnew
    exact ⟨id, index, hidx, hfull.trans hcached⟩
  · rw [hallocates.maxModelLen]
    by_cases hsame : other = id
    · rw [hsame]
      exact hbacked
    · rw [hwritten other hsame, hallocates.others other hsame]
      exact hsound.backed other

end

/-- The blocks, the computed tokens and the invalid slots are the same. -/
structure SameSlots (sched after : Scheduler (ε × Loads ρ) ρ) : Prop where
  kvCacheManager : after.kvCacheManager = sched.kvCacheManager
  computed : ∀ id, (after.requests id).numComputedTokens = (sched.requests id).numComputedTokens
  invalid : after.environment.2.invalid = sched.environment.2.invalid

theorem SameSlots.eases (hsame : sched.SameSlots after)
    (hunitary : sched.kvCacheManager.IsUnitary config.blockSize) : Eases config scheduled sched after where
  unitary := hsame.kvCacheManager ▸ hunitary
  maxModelLen := by rw [hsame.kvCacheManager]
  invalid := hsame.invalid
  requests := fun id ↦ .inl ⟨by rw [hsame.kvCacheManager], (hsame.computed id).le⟩
  kept := fun id _ ↦ ⟨by rw [hsame.kvCacheManager], hsame.computed id⟩
  published := fun block hblock ↦ .inl (hsame.kvCacheManager ▸ hblock)

section

variable (hsound : sched.SlotsSound config scheduled)
include hsound

theorem SlotsSound.of_same (hsame : sched.SameSlots after) : after.SlotsSound config scheduled :=
  hsound.of_eases (hsame.eases hsound.unitary)

theorem SlotsSound.of_sameTables {kv : KVCacheManager ρ} (hsame : sched.kvCacheManager.SameTables kv) :
    { sched with kvCacheManager := kv }.SlotsSound config scheduled := by
  apply hsound.of_eases
  exact {
    unitary := hsame.unitary _ hsound.unitary
    maxModelLen := hsame.maxModelLen
    invalid := rfl
    requests := fun id ↦ .inl ⟨hsame.table id, le_refl _⟩
    kept := fun id _ ↦ ⟨hsame.table id, rfl⟩
    published := fun block hblock ↦ .inl (hsame.blockPool ▸ hblock) }

end

theorem backed_of_needSlot {numComputed numCached lookahead maxModelLen room : ℕ} {numNewTokens : ℤ}
    (hcached : numCached = ((min numComputed maxModelLen : ℕ) + numNewTokens).toNat)
    (hneed : min (numCached + lookahead) maxModelLen ≤ room)
    (hnew : 0 ≤ numNewTokens ∨ min numComputed maxModelLen ≤ room) :
    min (numComputed + numNewTokens).toNat maxModelLen ≤ room := by
  omega

variable (hsound : sched.SlotsSound config scheduled) (hid : id ∉ scheduled)
include hsound hid

variable {call : SlotCall} {newBlocks : List (List ℕ)}
  (hnew : (sched.kvCacheManager.allocateSlots ((sched.requests id).slotRequest id) call).1 =
    .ok (some newBlocks))
  (hkv : after.kvCacheManager =
    (sched.kvCacheManager.allocateSlots ((sched.requests id).slotRequest id) call).2)
  (hinval : ∀ slot ∈ after.environment.2.invalid, slot ∈ sched.environment.2.invalid)
  (hgranted : ∀ other, other ≠ id → granted.lookup other = scheduled.lookup other)
  (htokens : (granted.lookup id).getD 0 = call.numNewTokens)
include hnew hkv hinval hgranted htokens

theorem SlotsSound.extend (hfound : call.newComputedBlocks = none) (hlocal : call.numNewComputedTokens = 0)
    (hext : call.numExternalComputedTokens = 0) (hreqs : ∀ other,
      (after.requests other).numComputedTokens = (sched.requests other).numComputedTokens) :
    after.SlotsSound config granted := by
  obtain ⟨found, fresh, hcomp, -, hallocates, hneed, hfits⟩ := allocates_of_allocateSlots hsound.unitary hnew
  obtain rfl : [] = found := by
    rw [computedBlocksAt, hfound] at hcomp
    exact Except.ok.inj hcomp
  rw [← hkv] at hallocates hneed
  have htotal : totalComputedTokens ((sched.requests id).slotRequest id) call =
      (sched.requests id).numComputedTokens := by
    rw [totalComputedTokens, hlocal, hext]
    rfl
  have hmain : sched.kvCacheManager.numTokensMainModel ((sched.requests id).slotRequest id) call =
      ((min (sched.requests id).numComputedTokens sched.kvCacheManager.maxModelLen : ℕ) +
        call.numNewTokens).toNat := by
    rw [numTokensMainModel, htotal]
  have hwritten : (after.slotView config granted).written id =
      ((sched.requests id).numComputedTokens + call.numNewTokens).toNat := by
    simp only [slotView, htokens, hreqs]
  have hbacked := hsound.backed id
  rw [written_of_notMem hid] at hbacked
  have htable : after.kvCacheManager.table id = sched.kvCacheManager.table id ++ fresh := hallocates.table
  refine hsound.grant hid hgranted (fun other _ ↦ hreqs other) hinval hallocates ?_ ?_ ?_
  · omega
  · rintro pos block hpos hblock ⟨hslot, -⟩
    rw [hreqs] at hpos
    rw [htable] at hblock
    by_cases hidx : pos / config.blockSize < (sched.kvCacheManager.table id).length
    · rw [getElem?_append_left hidx] at hblock
      refine hsound.clean.readable id pos block ?_ hblock hslot
      rw [written_of_notMem hid]
      exact hpos
    · -- The table covers the tokens of the model, so it does not grow any more.
      have hrow := (Nat.le_div_iff_mul_le config.blockSize_pos).1 (Nat.not_lt.1 hidx)
      have hfull : sched.kvCacheManager.maxModelLen ≤
          (sched.kvCacheManager.table id).length * config.blockSize := by omega
      have hnone := hfits hext (by rw [append_nil]; exact hfull)
      rw [hnone, append_nil, getElem?_eq_none (not_lt.1 hidx)] at hblock
      cases hblock
  · rw [hwritten]
    refine backed_of_needSlot hmain hneed (.inr (hbacked.trans (Nat.mul_le_mul_right _ ?_)))
    rw [htable, length_append]
    exact Nat.le_add_right _ _

/-- A request without computed tokens gets the blocks that were found for it, slots for the tokens that
are loaded and slots for new ones. -/
theorem SlotsSound.extend_new (hzero : (sched.requests id).numComputedTokens = 0) {found : List ℕ}
    (hblocks : call.newComputedBlocks = none ∧ found = [] ∨ call.newComputedBlocks = some [found])
    (hlocal : call.numNewComputedTokens = found.length * config.blockSize)
    (hpublished : ∀ block ∈ found, sched.kvCacheManager.blockPool.Published block)
    (hothers : ∀ other, other ≠ id →
      (after.requests other).numComputedTokens = (sched.requests other).numComputedTokens)
    (hcomp : (after.requests id).numComputedTokens =
      call.numNewComputedTokens + call.numExternalComputedTokens)
    (hloaded : ∀ slot ∈ slots config.blockSize (after.kvCacheManager.table id) call.numNewComputedTokens
      call.numExternalComputedTokens, slot ∉ after.environment.2.invalid) (hnonneg : 0 ≤ call.numNewTokens) :
    after.SlotsSound config granted := by
  obtain ⟨hits, fresh, hhits, hempty, hallocates, hneed, -⟩ := allocates_of_allocateSlots hsound.unitary hnew
  obtain rfl : found = hits := by
    rcases hblocks with ⟨hnone, rfl⟩ | hsome
    · rw [computedBlocksAt, hnone] at hhits
      exact Except.ok.inj hhits
    · rw [computedBlocksAt, hsome] at hhits
      exact Except.ok.inj hhits
  rw [← hkv] at hallocates hneed
  have htotal : totalComputedTokens ((sched.requests id).slotRequest id) call =
      (after.requests id).numComputedTokens := by
    rw [hcomp]
    change (sched.requests id).numComputedTokens + _ + _ = _
    rw [hzero, zero_add]
  have hmain : sched.kvCacheManager.numTokensMainModel ((sched.requests id).slotRequest id) call =
      ((min (after.requests id).numComputedTokens sched.kvCacheManager.maxModelLen : ℕ) +
        call.numNewTokens).toNat := by
    rw [numTokensMainModel, htotal]
  have hwritten : (after.slotView config granted).written id =
      ((after.requests id).numComputedTokens + call.numNewTokens).toNat := by
    simp [slotView, htokens]
  have htable : after.kvCacheManager.table id = sched.kvCacheManager.table id ++ (found ++ fresh) :=
    hallocates.table
  refine hsound.grant hid hgranted hothers hinval hallocates ?_ ?_ ?_
  · omega
  · rintro pos block hpos hblock ⟨hslot, hkept⟩
    by_cases hcold : pos < found.length * config.blockSize
    · -- The position lies in a block from the prefix cache.
      have hidx := (Nat.div_lt_iff_lt_mul config.blockSize_pos).2 hcold
      have hnil : sched.kvCacheManager.table id = [] := by
        refine hempty.resolve_left fun hnone ↦ ?_
        rw [hnone] at hidx
        exact Nat.not_lt_zero _ hidx
      rw [htable, hnil, nil_append, getElem?_append_left hidx] at hblock
      exact hsound.clean.published block _ (hpublished block (mem_of_getElem? hblock))
        (Nat.mod_lt _ config.blockSize_pos) hslot
    · refine hloaded _ (mem_slots.2 ⟨pos, ?_, ?_, hblock, rfl⟩) hkept
      · rw [hlocal]
        exact not_lt.1 hcold
      · rw [← hcomp]
        exact hpos
  · rw [hwritten]
    exact backed_of_needSlot hmain hneed (.inl hnonneg)

end Scheduler

/-! ## The running loop -/

variable {config : SchedulerConfig} {pass : Pass (ε × Loads ρ) ρ} {next : Pass (ε × Loads ρ) ρ}

namespace Pass

variable {env : Environment ε ρ}

theorem sameSlots_visitRunning (hbudget : 0 < pass.tokenBudget)
    (hvisit : pass.visitRunning config (env.tracked config.blockSize) id = .ok next) :
    pass.sched.SameSlots next.sched ∧ next.numScheduledTokens = pass.numScheduledTokens := by
  have hplan : (pass.planRunning config (env.tracked config.blockSize) id).2.2.2 =
      pass.sched.environment.2 := by
    unfold planRunning
    dsimp only
    split <;> rfl
  obtain ⟨environment, henv, hnext⟩ := visitRunning_cases hbudget hvisit
  have hloads : environment.2 = pass.sched.environment.2 := by
    rcases henv with rfl | rfl
    · rfl
    · exact hplan
  rcases hnext with rfl | ⟨_, _, -, rfl⟩ <;>
    exact ⟨⟨rfl, fun _ ↦ rfl, congrArg Loads.invalid hloads⟩, rfl⟩

variable (env : Environment ε ρ) (blockSize : ℕ)

theorem loads_allocateAll (id : ρ) (inputs : List ℕ) (state : ε × Loads ρ) :
    ((env.tracked blockSize).allocateAll id inputs state).2 = state.2 := by
  induction inputs generalizing state with
  | nil => rfl
  | cons input rest ih => exact ih _

theorem sameSlots_commitRunning (pass : Pass (ε × Loads ρ) ρ) (id : ρ) (numNewTokens : ℤ)
    (plan : EncoderPlan) (newBlocks : List (List ℕ)) :
    pass.sched.SameSlots (pass.commitRunning (env.tracked blockSize) id numNewTokens plan newBlocks).sched ∧
      (pass.commitRunning (env.tracked blockSize) id numNewTokens plan newBlocks).numScheduledTokens =
        pass.numScheduledTokens.insert id numNewTokens := by
  obtain ⟨_, environment, _, _, _, ⟨henv, hreqs⟩, hcommit⟩ :=
    commitRunning_eq _ pass id numNewTokens plan newBlocks
  have hloads : environment.2 = pass.sched.environment.2 := by
    rw [henv]
    exact loads_allocateAll env blockSize id _ _
  rw [hcommit]
  refine ⟨⟨rfl, fun other ↦ ?_, congrArg Loads.invalid hloads⟩, rfl⟩
  exact (congrArg Request.numComputedTokens (hreqs other)).trans rfl

end Pass

variable {sched : Scheduler (ε × Loads ρ) ρ}

namespace Scheduler

variable {env : Environment ε ρ} {scheduled : AList (fun _ : ρ ↦ ℤ)}

theorem Eases.of_request (hid : id ∉ scheduled)
    (hrevises : Revises config.blockSize id sched.kvCacheManager after.kvCacheManager
      (sched.requests id).numComputedTokens)
    (hinval : after.environment.2.invalid = sched.environment.2.invalid)
    (hothers : ∀ other, other ≠ id →
      (after.requests other).numComputedTokens = (sched.requests other).numComputedTokens)
    (hreq : after.kvCacheManager.table id = sched.kvCacheManager.table id ∧
        (after.requests id).numComputedTokens ≤ (sched.requests id).numComputedTokens ∨
      (after.requests id).numComputedTokens = 0) : Eases config scheduled sched after where
  unitary := hrevises.unitary
  maxModelLen := hrevises.maxModelLen
  invalid := hinval
  requests := fun other ↦ by
    by_cases hsame : other = id
    · rw [hsame]
      exact hreq
    · exact .inl ⟨hrevises.others other hsame, (hothers other hsame).le⟩
  kept := fun other hmem ↦
    have hne : other ≠ id := fun hsame ↦ hid (hsame ▸ hmem)
    ⟨hrevises.others other hne, hothers other hne⟩
  published := fun block hblock ↦ by
    refine (hrevises.published block hblock).imp_right fun hnew ↦ ?_
    obtain ⟨index, hidx, hfull⟩ := hnew
    refine ⟨id, index, hidx, ?_⟩
    rw [written_of_notMem hid]
    exact hfull

theorem eases_preemptRequest (hunitary : sched.kvCacheManager.IsUnitary config.blockSize)
    (hid : id ∉ scheduled) (hpreempt : sched.preemptRequest (env.tracked config.blockSize) id = .ok after) :
    Eases config scheduled sched after := by
  unfold preemptRequest at hpreempt
  split at hpreempt
  · cases hpreempt
  · dsimp only at hpreempt
    split at hpreempt
    · cases hpreempt
    · cases hpreempt
      refine .of_request hid (revises_free hunitary id _) rfl (fun other hne ↦ ?_) (.inr ?_)
      · exact congrArg Request.numComputedTokens (update_of_ne hne _ _)
      · exact congrArg Request.numComputedTokens (update_self id _ sched.requests)

end Scheduler

namespace Pass

variable {env : Environment ε ρ} {limit : ℤ}

theorem slotsSound_preempt (hsound : pass.sched.SlotsSound config pass.numScheduledTokens)
    (hvictims : ∀ victim, pass.victim config = some victim → victim ∉ pass.scheduledRunningReqs)
    (htokens : ∀ id, id ∈ pass.numScheduledTokens ↔ id ∈ pass.scheduledRunningReqs)
    (hpreempt : pass.preempt config (env.tracked config.blockSize) id = .ok next) :
    next.sched.SlotsSound config next.numScheduledTokens := by
  obtain ⟨victim, _, _, _, ⟨hvictim, hpreempted⟩, -, -, -, hnext⟩ := preempt_cases hpreempt
  have hscheduled := hvictims victim hvictim
  have hid := fun hmem ↦ hscheduled ((htokens victim).1 hmem)
  have hkept : next.numScheduledTokens = pass.numScheduledTokens := by
    rw [hnext, Books.takeBack_of_notMem hscheduled]
  have hremoved : { pass.sched with
      running := pass.sched.running.erase victim }.kvCacheManager.IsUnitary config.blockSize :=
    hsound.unitary
  rw [hkept]
  exact hsound.of_eases { Scheduler.eases_preemptRequest hremoved hid hpreempted with }

theorem slotsSound_runningStep (hsched : pass.sched.WellFormed config) (hbooks : pass.Books limit)
    (hbehind : pass.AllocationFails config → ∀ victim, pass.victim config = some victim →
      victim ∈ pass.sched.running.drop pass.reqIndex)
    (hsound : pass.sched.SlotsSound config pass.numScheduledTokens)
    (hstep : pass.runningStep config (env.tracked config.blockSize) = .ok (some next)) :
    next.sched.SlotsSound config next.numScheduledTokens := by
  have hnodup := hsched.nodup_running
  rcases runningStep_cases hstep with ⟨id, -, -, hbudget, hvisit⟩ |
    ⟨id, numNewTokens, plan, kv, hphase, rfl, ⟨newBlocks, hnew, rfl⟩ | ⟨hnone, hpreempt⟩⟩
  · obtain ⟨hsame, htokens⟩ := sameSlots_visitRunning hbudget hvisit
    rw [htokens]
    exact hsound.of_same hsame
  · have hid := fun hmem ↦
      hbooks.notMem_scheduled hnodup (hbooks.allocating hphase).1 ((hbooks.tokens id).1 hmem)
    obtain ⟨hsame, htokens⟩ := sameSlots_commitRunning env config.blockSize _ id numNewTokens plan newBlocks
    rw [htokens]
    refine hsound.extend hid hnew hsame.kvCacheManager (fun slot hslot ↦ hsame.invalid ▸ hslot)
      (fun other hne ↦ AList.lookup_insert_ne hne) ?_ rfl rfl rfl hsame.computed
    rw [AList.lookup_insert]
    rfl
  · have hmarked := hsound.of_sameTables (sameTables_of_none hsound.unitary hnone)
    generalize (allocateRunning config pass id numNewTokens).2 = kv at hpreempt hmarked
    have hmarkedPass : (pass.setKv kv).sched.SlotsSound config (pass.setKv kv).numScheduledTokens := hmarked
    refine slotsSound_preempt hmarkedPass (fun victim hvictim ↦ ?_) hbooks.tokens hpreempt
    have hdrop := hbehind ⟨id, numNewTokens, plan, hphase, hnone⟩ victim hvictim
    intro hmem
    rw [← take_append_drop _ pass.sched.running] at hnodup
    exact disjoint_of_nodup_append hnodup (hbooks.before victim hmem) hdrop

theorem slotsSound_scheduleRunning {final : Pass (ε × Loads ρ) ρ} (hsched : sched.WellFormed config)
    (hbehind : sched.VictimsBehind config (env.tracked config.blockSize))
    (hsound : sched.SlotsSound config ∅)
    (hfinal : sched.scheduleRunning config (env.tracked config.blockSize) = .ok final) :
    final.sched.SlotsSound config final.numScheduledTokens := by
  have hstart : (Pass.start config sched).sched.SlotsSound config ∅ := by
    refine hsound.of_same ⟨?_, fun _ ↦ rfl, rfl⟩
    exact newStepStarts_of_isUnitary hsound.unitary
  let inv (pass : Pass (ε × Loads ρ) ρ) : Prop :=
    pass.Books (start config sched).tokenBudget ∧ pass.sched.SlotsSound config pass.numScheduledTokens
  have hinv : inv final := by
    refine (reaches_of_loop hfinal).invariant ⟨.start config sched, hstart⟩ ?_
    intro current next hreaches hcur hstep
    have hwell := wellFormed_reaches hsched hreaches
    exact ⟨hcur.1.runningStep hwell (hbehind.keepsPositions current hreaches) hstep,
      slotsSound_runningStep hwell hcur.1 (hbehind current hreaches) hcur.2 hstep⟩
  exact hinv.2

end Pass

end Nelssa.Sched
