import Nelssa.Foundation.Occurrences
import Nelssa.Foundation.Runs

/-!
# The thinking-token budget

A request may limit the number of tokens that it generates between a marker that starts a thinking section
and the marker that ends it. The logits processor looks at the output only now and then: after a look it
counts down the steps until the budget could be used up at the earliest. When the budget is used up, it
forces the tokens of the end marker one by one.

The state of the countdown belongs to a row of the batch. A request that is left out of a step loses it,
and starts again with a full countdown when it is added. So the budget is kept exactly if a request does
not come back to the batch in the middle of a section. The markers must not overlap, and a section must
not be started again by another start marker, which restarts the count.
-/

namespace Nelssa.Sample

open Foundation.Occurrences Foundation.Runs
open List hiding max

/-! ## The logits processor -/

/-- The markers of an enabled `ReasoningConfig`, which are not empty. -/
structure ReasoningMarkers where
  startTokenIds : List ℕ
  endTokenIds : List ℕ
  start_ne_nil : startTokenIds ≠ []
  end_ne_nil : endTokenIds ≠ []

/-- The state entry of a request in `_state`. -/
structure ThinkState where
  inThink : Bool
  inEnd : Bool
  checkCountDown : ℕ
  thinkCount : ℕ
  endCount : ℕ
  prevOutputLength : ℕ

/-- `_find_last_sequence_index`, with `none` for −1. -/
def findLastSequenceIndex (targetList tokenIds : List ℕ) : Option ℕ :=
  if tokenIds = [] then none else lastOccurrence tokenIds targetList

/-- The comparison of two indices that may be −1. -/
def isAfter : Option ℕ → Option ℕ → Bool
  | none, _ => false
  | some _, none => true
  | some first, some second => second < first

namespace ReasoningMarkers

variable (markers : ReasoningMarkers)

def initStateEntry (promptTokIds : Option (List ℕ)) (thinkingTokenBudget : ℕ) : ThinkState :=
  let lastStart := promptTokIds.bind fun tokens ↦ findLastSequenceIndex tokens markers.startTokenIds
  let lastEnd := promptTokIds.bind fun tokens ↦ findLastSequenceIndex tokens markers.endTokenIds
  let inThink := isAfter lastStart lastEnd
  { inThink
    inEnd := inThink && thinkingTokenBudget == 0
    checkCountDown := thinkingTokenBudget
    thinkCount := if inThink then
      (promptTokIds.getD []).length - (lastStart.getD 0 + markers.startTokenIds.length) else 0
    endCount := 0
    prevOutputLength := 0 }

/-- Enter or leave thinking mode by the markers in the recent tokens. -/
def trackMarkers (state : ThinkState) (output : List ℕ) : ThinkState :=
  let startLen := markers.startTokenIds.length
  let endLen := markers.endTokenIds.length
  let newTokens := output.drop state.prevOutputLength
  let checkStartIdx := state.prevOutputLength + 1 - max startLen endLen
  let recentTokens := output.drop checkStartIdx
  let recentStartPos := findLastSequenceIndex recentTokens markers.startTokenIds
  let recentEndPos := findLastSequenceIndex recentTokens markers.endTokenIds
  let state := { state with prevOutputLength := output.length }
  match recentStartPos with
  | some start =>
    if isAfter recentStartPos recentEndPos then
      { state with
        inThink := true
        thinkCount := output.length - (checkStartIdx + start + startLen) }
    else { state with inThink := false, thinkCount := 0 }
  | none =>
    if recentEndPos.isSome then { state with inThink := false, thinkCount := 0 }
    else if state.inThink then { state with thinkCount := state.thinkCount + newTokens.length }
    else state

variable (thinkingTokenBudget : ℕ) (state : ThinkState)

/-- Set the countdown, or begin to force the end marker. -/
def setCountDown : ThinkState :=
  if state.inThink then
    if thinkingTokenBudget ≤ state.thinkCount then
      { state with inThink := false, inEnd := true, endCount := 0, checkCountDown := thinkingTokenBudget }
    else { state with checkCountDown := thinkingTokenBudget - state.thinkCount - 1 }
  else { state with checkCountDown := thinkingTokenBudget }

/-- Count a forced token. -/
def countEnd (output : List ℕ) : ThinkState :=
  if markers.endTokenIds.length ≤ state.endCount + 1 then
    { state with
      inEnd := false
      endCount := 0
      checkCountDown := thinkingTokenBudget
      prevOutputLength := output.length }
  else { state with endCount := state.endCount + 1, prevOutputLength := output.length }

def updateThinkState (output : List ℕ) : ThinkState :=
  if !state.inEnd && 0 < state.checkCountDown then
    { state with checkCountDown := state.checkCountDown - 1 }
  else if output.length ≤ state.prevOutputLength then state
  else if state.inEnd then markers.countEnd thinkingTokenBudget state output
  else setCountDown thinkingTokenBudget (markers.trackMarkers state output)

end ReasoningMarkers

open ReasoningMarkers

/-! ## A request over many steps -/

structure ThinkRequest where
  markers : ReasoningMarkers
  promptTokIds : Option (List ℕ)
  thinkingTokenBudget : ℕ

/-- The output of a request and its entry in the logits processor while it is in the batch. -/
structure ThinkSession where
  entry : Option ThinkState := none
  output : List ℕ := []

/-- A step that leaves the request out, or schedules it. A request that is preempted and resumed in the
same step is added again. The last chunk of a prefill and each decoding step sample a token; the given
token is what the sampler takes if no token is forced. -/
inductive ThinkEvent where
  | leftOut
  | scheduled (readded : Bool) (sampled : Option ℕ)

namespace ThinkRequest

variable (req : ThinkRequest)

/-- The entry with which the request takes part in the step. -/
def joined (session : ThinkSession) (readded : Bool) : ThinkState :=
  match session.entry, readded with
  | some entry, false => entry
  | _, _ => req.markers.initStateEntry req.promptTokIds req.thinkingTokenBudget

/-- The token that is generated: `apply` raises the logit of a forced token above all others. -/
def generated (entry : ThinkState) (token : ℕ) : ℕ :=
  if entry.inEnd then req.markers.endTokenIds.getD entry.endCount 0 else token

/-- `update_state` before the forward pass, and the token that is sampled behind it. -/
def step (session : ThinkSession) : ThinkEvent → ThinkSession
  | .leftOut => { session with entry := none }
  | .scheduled readded sampled =>
    let entry := req.markers.updateThinkState req.thinkingTokenBudget
      (req.joined session readded) session.output
    { entry := some entry
      output := session.output ++ (sampled.map (req.generated entry)).toList }

end ThinkRequest

/-! ## Sections of the output -/

variable {tokens : List ℕ} {markers : ReasoningMarkers} {base : List ℕ} {pos : ℕ}

namespace ReasoningMarkers

/-- A start marker cannot end inside an end marker, and an end marker cannot lie in a start marker. -/
structure Apart (markers : ReasoningMarkers) : Prop where
  start_ends : ∀ before count, 0 < count → count ≤ markers.endTokenIds.length →
    ¬ markers.startTokenIds <:+ before ++ markers.endTokenIds.take count
  end_inside : ¬ markers.endTokenIds <:+: markers.startTokenIds

/-- The last start marker is at the position, and no end marker begins there or behind it. -/
@[mk_iff openAt_iff]
structure OpenAt (markers : ReasoningMarkers) (output : List ℕ) (pos : ℕ) : Prop where
  start : OccursAt markers.startTokenIds output pos
  last : ∀ later, OccursAt markers.startTokenIds output later → later ≤ pos
  unended : ∀ ending, OccursAt markers.endTokenIds output ending → ending < pos

variable {output : List ℕ}

theorem OpenAt.bound (hopen : markers.OpenAt output pos) :
    pos + markers.startTokenIds.length ≤ output.length :=
  hopen.start.bound markers.start_ne_nil

theorem OpenAt.eq {other : ℕ} (hopen : markers.OpenAt output pos)
    (hother : markers.OpenAt output other) : pos = other :=
  Nat.le_antisymm (hother.last pos hopen.start) (hopen.last other hother.start)

theorem OpenAt.of_append (hopen : markers.OpenAt (output ++ tokens) pos)
    (hbound : pos + markers.startTokenIds.length ≤ output.length) : markers.OpenAt output pos where
  start := (occursAt_append hbound).1 hopen.start
  last later hlater := hopen.last later ((occursAt_append (hlater.bound markers.start_ne_nil)).2 hlater)
  unended ending hending :=
    hopen.unended ending ((occursAt_append (hending.bound markers.end_ne_nil)).2 hending)

/-- An output with a start marker is in a section, or an end marker begins at or behind the last one. -/
theorem exists_openAt_or (hstart : OccursAt markers.startTokenIds output pos) :
    (∃ last, pos ≤ last ∧ markers.OpenAt output last) ∨
      ∃ ending, pos ≤ ending ∧ OccursAt markers.endTokenIds output ending := by
  obtain ⟨last, hlast⟩ : ∃ last, lastOccurrence markers.startTokenIds output = some last := by
    cases hfind : lastOccurrence markers.startTokenIds output with
    | none => exact absurd hstart ((lastOccurrence_eq_none_iff markers.start_ne_nil).1 hfind pos)
    | some last => exact ⟨last, rfl⟩
  obtain ⟨hoccurs, hlatest⟩ := (lastOccurrence_eq_some_iff markers.start_ne_nil).1 hlast
  have hle := hlatest pos hstart
  by_cases hend : ∃ ending, last ≤ ending ∧ OccursAt markers.endTokenIds output ending
  · obtain ⟨ending, hafter, hending⟩ := hend
    exact .inr ⟨ending, Nat.le_trans hle hafter, hending⟩
  · refine .inl ⟨last, hle, hoccurs, hlatest, fun ending hending ↦ ?_⟩
    by_contra hge
    exact hend ⟨ending, Nat.not_lt.1 hge, hending⟩

/-- No section is open behind a forced end marker, and none begins while it is forced. -/
theorem Apart.start_bound (hapart : markers.Apart) {count : ℕ} (hcount : count ≤ markers.endTokenIds.length)
    (hstart : OccursAt markers.startTokenIds (base ++ markers.endTokenIds.take count) pos) :
    pos + markers.startTokenIds.length ≤ base.length := by
  by_contra hlt
  have hbound := hstart.bound markers.start_ne_nil
  rw [length_append, length_take] at hbound
  obtain ⟨extra, hextra⟩ := Nat.exists_eq_add_of_lt (Nat.not_le.1 hlt)
  apply hapart.start_ends base (extra + 1) (Nat.succ_pos _) (by omega)
  have htake : (base ++ markers.endTokenIds.take count).take (pos + markers.startTokenIds.length) =
      base ++ markers.endTokenIds.take (extra + 1) := by
    rw [hextra, Nat.add_assoc, take_append, take_of_length_le (by omega), Nat.add_sub_cancel_left,
      take_take, Nat.min_eq_left (by omega)]
  rw [← htake]
  exact hstart.suffix_take

end ReasoningMarkers

/-! ## What a look at the output finds -/

variable {state : ThinkState}

namespace ReasoningMarkers

variable {output : List ℕ}

/-- The state is that of the tokens. Before the first marker is generated, it is that of the prompt. -/
def Describes (markers : ReasoningMarkers) (state : ThinkState) (seen : List ℕ) : Prop :=
  (∃ pos, OccursAt markers.startTokenIds seen pos ∨ OccursAt markers.endTokenIds seen pos) →
    (state.inThink = true → ∃ pos, markers.OpenAt seen pos) ∧
      ∀ pos, markers.OpenAt seen pos → state.inThink = true ∧
        state.thinkCount = seen.length - (pos + markers.startTokenIds.length)

section

variable {tokenIds : List ℕ} (htokens : tokenIds ≠ [])
include htokens

theorem findLastSequenceIndex_drop (output : List ℕ) (start : ℕ) :
    match findLastSequenceIndex (output.drop start) tokenIds with
    | none => ∀ pos, OccursAt tokenIds output pos → pos < start
    | some found => OccursAt tokenIds output (start + found) ∧
        ∀ later, OccursAt tokenIds output later → later ≤ start + found := by
  rw [findLastSequenceIndex, if_neg htokens]
  cases hfind : lastOccurrence tokenIds (output.drop start) with
  | none =>
    intro pos hoccurs
    by_contra hge
    obtain ⟨offset, rfl⟩ := Nat.exists_eq_add_of_le (Nat.not_lt.1 hge)
    exact (lastOccurrence_eq_none_iff htokens).1 hfind offset (occursAt_drop.2 hoccurs)
  | some found =>
    obtain ⟨hfound, hlast⟩ := (lastOccurrence_eq_some_iff htokens).1 hfind
    refine ⟨occursAt_drop.1 hfound, fun later hlater ↦ ?_⟩
    by_contra hlt
    obtain ⟨offset, rfl⟩ := Nat.exists_eq_add_of_le (show start ≤ later by omega)
    have := hlast offset (occursAt_drop.2 hlater)
    omega

theorem occursAt_take_prev {previous longest : ℕ} (hlongest : tokenIds.length ≤ longest)
    (hearly : ∀ found, OccursAt tokenIds output found → found < previous + 1 - longest) (pos : ℕ) :
    OccursAt tokenIds (output.take previous) pos ↔ OccursAt tokenIds output pos := by
  rw [occursAt_take htokens]
  constructor
  · exact And.left
  · intro hoccurs
    have := hearly pos hoccurs
    exact ⟨hoccurs, by omega⟩

end

theorem describes_of_openAt (hopen : markers.OpenAt output pos) (hthink : state.inThink = true)
    (hcount : state.thinkCount = output.length - (pos + markers.startTokenIds.length)) :
    markers.Describes state output :=
  fun _ ↦ ⟨fun _ ↦ ⟨pos, hopen⟩, fun _ hother ↦ ⟨hthink, hopen.eq hother ▸ hcount⟩⟩

theorem describes_of_not_openAt (hclosed : ∀ pos, ¬ markers.OpenAt output pos)
    (hthink : state.inThink = false) : markers.Describes state output :=
  fun _ ↦ ⟨fun htrue ↦ absurd (hthink.symm.trans htrue) Bool.false_ne_true,
    fun pos hopen ↦ absurd hopen (hclosed pos)⟩

theorem describes_trackMarkers (hprev : state.prevOutputLength ≤ output.length)
    (hdesc : markers.Describes state (output.take state.prevOutputLength)) :
    markers.Describes (markers.trackMarkers state output) output := by
  unfold trackMarkers
  dsimp only
  generalize hlow : state.prevOutputLength + 1 -
    max markers.startTokenIds.length markers.endTokenIds.length = low
  have hstart := findLastSequenceIndex_drop markers.start_ne_nil output low
  have hend := findLastSequenceIndex_drop markers.end_ne_nil output low
  cases hfindStart : findLastSequenceIndex (output.drop low) markers.startTokenIds with
  | some found =>
    rw [hfindStart] at hstart
    cases hfindEnd : findLastSequenceIndex (output.drop low) markers.endTokenIds with
    | none =>
      rw [hfindEnd] at hend
      have hopen : markers.OpenAt output (low + found) :=
        ⟨hstart.1, hstart.2, fun ending hending ↦
          Nat.lt_of_lt_of_le (hend ending hending) (Nat.le_add_right _ _)⟩
      exact describes_of_openAt hopen rfl rfl
    | some ending =>
      rw [hfindEnd] at hend
      dsimp only
      by_cases hlt : ending < found
      · have hafter : isAfter (some found) (some ending) = true := decide_eq_true hlt
        rw [if_pos hafter]
        have hopen : markers.OpenAt output (low + found) :=
          ⟨hstart.1, hstart.2, fun other hother ↦ by have := hend.2 other hother; omega⟩
        exact describes_of_openAt hopen rfl rfl
      · have hafter : ¬ isAfter (some found) (some ending) = true := fun htrue ↦ hlt (of_decide_eq_true htrue)
        rw [if_neg hafter]
        apply describes_of_not_openAt _ rfl
        intro pos hopen
        have hunended := hopen.unended _ hend.1
        have hbefore := hstart.2 pos hopen.start
        omega
  | none =>
    rw [hfindStart] at hstart
    cases hfindEnd : findLastSequenceIndex (output.drop low) markers.endTokenIds with
    | some ending =>
      rw [hfindEnd] at hend
      apply describes_of_not_openAt _ rfl
      intro pos hopen
      have hunended := hopen.unended _ hend.1
      have hbefore := hstart pos hopen.start
      omega
    | none =>
      -- no marker reaches into the recent tokens, so the last look has seen all of them
      rw [hfindEnd] at hend
      have hsameStart := occursAt_take_prev markers.start_ne_nil (Nat.le_max_left _ _) (hlow ▸ hstart)
      have hsameEnd := occursAt_take_prev markers.end_ne_nil (Nat.le_max_right _ _) (hlow ▸ hend)
      have hsameOpen (pos : ℕ) : markers.OpenAt (output.take state.prevOutputLength) pos ↔
          markers.OpenAt output pos := by
        simp only [openAt_iff, hsameStart, hsameEnd]
      rintro ⟨marker, hmarker⟩
      obtain ⟨hthinks, hcounts⟩ := hdesc ⟨marker, hmarker.imp (hsameStart marker).2 (hsameEnd marker).2⟩
      dsimp only [Option.isSome_none]
      rw [if_neg Bool.false_ne_true]
      split
      · refine ⟨fun hthink ↦ (hthinks hthink).imp fun pos ↦ (hsameOpen pos).1, fun pos hopen ↦ ?_⟩
        have hseen := (hsameOpen pos).2 hopen
        have hbound := hseen.bound
        obtain ⟨hthink, hcount⟩ := hcounts pos hseen
        refine ⟨hthink, ?_⟩
        rw [length_take] at hcount hbound
        simp only [hcount, length_drop]
        omega
      · next hthink =>
        refine ⟨fun htrue ↦ absurd htrue hthink, fun pos hopen ↦ ?_⟩
        exact absurd (hcounts pos ((hsameOpen pos).2 hopen)).1 hthink

end ReasoningMarkers

/-! ## The countdown -/

variable {req : ThinkRequest}

namespace ThinkRequest

variable {output : List ℕ}

section

variable (req : ThinkRequest)

/-- The position at which the budget of the section of a start marker is used up. -/
def limit (pos : ℕ) : ℕ :=
  pos + req.markers.startTokenIds.length + req.thinkingTokenBudget

/-- The section of the start marker has used up its budget at some time. -/
structure Reached (output : List ℕ) (pos : ℕ) : Prop where
  opened : req.markers.OpenAt (output.take (req.limit pos)) pos
  bound : req.limit pos ≤ output.length

/-- The end marker that is due at the limit has been generated. -/
def Finished (output : List ℕ) (pos : ℕ) : Prop :=
  req.limit pos + req.markers.endTokenIds.length ≤ output.length

/-- The processor waits, or looks at each step. It looks again before the budget can be exceeded. -/
structure Watching (state : ThinkState) (output : List ℕ) : Prop where
  inEnd : state.inEnd = false
  countDown_le : state.checkCountDown ≤ req.thinkingTokenBudget
  countDown_lt : ∀ pos, req.markers.OpenAt output pos →
    output.length + state.checkCountDown < req.limit pos
  prev_le : state.prevOutputLength ≤ output.length
  describes : req.markers.Describes state (output.take state.prevOutputLength)
  finished : ∀ pos, req.Reached output pos → req.Finished output pos

/-- The processor forces the end marker behind `base`. -/
structure Forcing (state : ThinkState) (base output : List ℕ) : Prop where
  inEnd : state.inEnd = true
  inThink : state.inThink = false
  endCount_lt : state.endCount < req.markers.endTokenIds.length
  output_eq : output = base ++ req.markers.endTokenIds.take state.endCount
  prev_eq : state.prevOutputLength = output.length
  base_limit : ∀ pos, req.markers.OpenAt base pos → base.length = req.limit pos
  finished : ∀ pos, req.Reached output pos →
    req.Finished output pos ∨ req.limit pos = base.length

/-- The states behind `update_state`. -/
def Tracks (state : ThinkState) (output : List ℕ) : Prop :=
  req.Watching state output ∨ ∃ base, req.Forcing state base output

end

theorem Reached.of_append (hreached : req.Reached (output ++ tokens) pos)
    (hbound : req.limit pos ≤ output.length) : req.Reached output pos := by
  refine ⟨?_, hbound⟩
  have hopened := hreached.opened
  rwa [take_append_of_le_length hbound] at hopened

theorem Reached.openAt (hreached : req.Reached output pos)
    (hlimit : output.length ≤ req.limit pos) : req.markers.OpenAt output pos := by
  have hopened := hreached.opened
  rwa [take_of_length_le hlimit] at hopened

theorem Finished.append (hfin : req.Finished output pos) (tokens : List ℕ) :
    req.Finished (output ++ tokens) pos := by
  unfold Finished at hfin ⊢
  rw [length_append]
  omega

end ThinkRequest

namespace ReasoningMarkers

variable {output : List ℕ}

theorem trackMarkers_frame : (markers.trackMarkers state output).inEnd = state.inEnd ∧
    (markers.trackMarkers state output).prevOutputLength = output.length := by
  unfold trackMarkers
  dsimp only
  split
  · split <;> exact ⟨rfl, rfl⟩
  · split
    · exact ⟨rfl, rfl⟩
    · split <;> exact ⟨rfl, rfl⟩

end ReasoningMarkers

namespace ThinkRequest

variable {output : List ℕ}

/-- While the countdown does not reach a limit, no limit is reached at the end of the output. -/
theorem finished_of_lt {countDown : ℕ} (hlt : ∀ pos, req.markers.OpenAt output pos →
      output.length + countDown < req.limit pos)
    (hfin : ∀ pos, req.Reached output pos → req.limit pos < output.length → req.Finished output pos)
    (pos : ℕ) (hreached : req.Reached output pos) : req.Finished output pos := by
  by_cases hless : req.limit pos < output.length
  · exact hfin pos hreached hless
  · have := hlt pos (hreached.openAt (Nat.not_lt.1 hless))
    have := hreached.bound
    omega

theorem tracks_look (hinEnd : state.inEnd = false) (hprev : state.prevOutputLength ≤ output.length)
    (hdesc : req.markers.Describes state (output.take state.prevOutputLength))
    (hlimit : ∀ pos, req.markers.OpenAt output pos → output.length ≤ req.limit pos)
    (hfin : ∀ pos, req.Reached output pos → req.limit pos < output.length → req.Finished output pos) :
    req.Tracks (setCountDown req.thinkingTokenBudget (req.markers.trackMarkers state output)) output := by
  obtain ⟨hkept, hseen⟩ := @trackMarkers_frame req.markers state output
  have hlooked := describes_trackMarkers hprev hdesc
  generalize req.markers.trackMarkers state output = looked at hkept hseen hlooked ⊢
  have hcounts := fun pos hopen ↦ (hlooked ⟨pos, .inl hopen.start⟩).2 pos hopen
  have hseenAll : output.take looked.prevOutputLength = output := by
    rw [hseen, take_length]
  unfold setCountDown
  by_cases hthink : looked.inThink = true
  · rw [if_pos hthink]
    split
    · next hbudget =>
      right
      refine ⟨output, rfl, rfl, length_pos_iff.2 req.markers.end_ne_nil, ?_, hseen, ?_, ?_⟩
      · rw [take_zero, append_nil]
      · intro pos hopen
        have hcount := (hcounts pos hopen).2
        have hle := hlimit pos hopen
        have hbound := hopen.bound
        unfold limit at hle ⊢
        omega
      · intro pos hreached
        by_cases hlt : req.limit pos < output.length
        · exact .inl (hfin pos hreached hlt)
        · exact .inr (Nat.le_antisymm hreached.bound (Nat.not_lt.1 hlt))
    · next =>
      left
      have hlt : ∀ pos, req.markers.OpenAt output pos →
          output.length + (req.thinkingTokenBudget - looked.thinkCount - 1) < req.limit pos := by
        intro pos hopen
        have hcount := (hcounts pos hopen).2
        unfold limit
        omega
      refine ⟨hkept.trans hinEnd, ?_, hlt, Nat.le_of_eq hseen, ?_, finished_of_lt hlt hfin⟩
      · dsimp only
        omega
      · rw [hseenAll]
        exact hlooked
  · rw [if_neg hthink]
    have hlt : ∀ pos, req.markers.OpenAt output pos →
        output.length + req.thinkingTokenBudget < req.limit pos :=
      fun pos hopen ↦ absurd (hcounts pos hopen).1 hthink
    left
    refine ⟨hkept.trans hinEnd, Nat.le_refl _, hlt, Nat.le_of_eq hseen, ?_, finished_of_lt hlt hfin⟩
    rw [hseenAll]
    exact hlooked

theorem openAt_of_append (htokens : tokens.length ≤ 1) (hopen : req.markers.OpenAt (output ++ tokens) pos) :
    req.markers.OpenAt output pos ∨ (output ++ tokens).length = pos + req.markers.startTokenIds.length := by
  have hbound := hopen.bound
  by_cases hle : pos + req.markers.startTokenIds.length ≤ output.length
  · exact .inl (hopen.of_append hle)
  · rw [length_append] at hbound ⊢
    omega

theorem Watching.update (hwatching : req.Watching state output) (htokens : tokens.length ≤ 1) :
    req.Tracks (req.markers.updateThinkState req.thinkingTokenBudget state (output ++ tokens))
      (output ++ tokens) := by
  have hlen : (output ++ tokens).length ≤ output.length + 1 := by
    rw [length_append]
    omega
  have hseen : (output ++ tokens).take state.prevOutputLength = output.take state.prevOutputLength :=
    take_append_of_le_length hwatching.prev_le
  have hprev : state.prevOutputLength ≤ (output ++ tokens).length := by
    rw [length_append]
    exact Nat.le_trans hwatching.prev_le (Nat.le_add_right _ _)
  have hold : ∀ pos, req.Reached (output ++ tokens) pos →
      req.limit pos < (output ++ tokens).length → req.Finished (output ++ tokens) pos :=
    fun pos hreached hlt ↦ (hwatching.finished pos (hreached.of_append (by omega))).append tokens
  unfold updateThinkState
  rw [hwatching.inEnd, Bool.not_false, Bool.true_and]
  by_cases hwaits : 0 < state.checkCountDown
  · rw [if_pos (decide_eq_true hwaits)]
    have hlt : ∀ pos, req.markers.OpenAt (output ++ tokens) pos →
        (output ++ tokens).length + (state.checkCountDown - 1) < req.limit pos := by
      intro pos hopen
      rcases openAt_of_append htokens hopen with hbefore | hnew
      · have := hwatching.countDown_lt pos hbefore
        omega
      · have := hwatching.countDown_le
        unfold limit
        omega
    refine .inl ⟨rfl, ?_, hlt, hprev, ?_, finished_of_lt hlt hold⟩
    · exact Nat.le_trans (Nat.sub_le _ _) hwatching.countDown_le
    · rw [hseen]
      exact hwatching.describes
  · rw [if_neg (by simpa using hwaits)]
    split
    · next hnone =>
      have hnil : tokens = [] := by
        apply length_eq_zero_iff.1
        have := hwatching.prev_le
        rw [length_append] at hnone
        omega
      rw [hnil, append_nil]
      exact .inl hwatching
    · apply tracks_look hwatching.inEnd hprev
      · rw [hseen]
        exact hwatching.describes
      · intro pos hopen
        rcases openAt_of_append htokens hopen with hbefore | hnew
        · have := hwatching.countDown_lt pos hbefore
          omega
        · rw [hnew]
          exact Nat.le_add_right _ _
      · exact hold

theorem Forcing.append_end (hforcing : req.Forcing state base output) :
    output ++ [req.markers.endTokenIds.getD state.endCount 0] =
      base ++ req.markers.endTokenIds.take (state.endCount + 1) := by
  rw [hforcing.output_eq, append_assoc, take_add_one, getD_eq_getElem?_getD,
    getElem?_eq_getElem hforcing.endCount_lt]
  rfl

/-- A token of the end marker has been forced, or no token has been sampled. -/
theorem Forcing.update (hapart : req.markers.Apart) (hforcing : req.Forcing state base output)
    (htokens : tokens = [] ∨ tokens = [req.markers.endTokenIds.getD state.endCount 0]) :
    req.Tracks (req.markers.updateThinkState req.thinkingTokenBudget state (output ++ tokens))
      (output ++ tokens) := by
  unfold updateThinkState
  rw [hforcing.inEnd, Bool.not_true, Bool.false_and, if_neg Bool.false_ne_true, if_pos rfl]
  rcases htokens with rfl | htokens
  · rw [append_nil, if_pos (Nat.le_of_eq hforcing.prev_eq.symm)]
    exact .inr ⟨base, hforcing⟩
  have houtput : output ++ tokens = base ++ req.markers.endTokenIds.take (state.endCount + 1) := by
    rw [htokens, hforcing.append_end]
  have hlen : (output ++ tokens).length = output.length + 1 := by
    rw [htokens, length_append, length_singleton]
  have hbaseLength : (output ++ tokens).length = base.length + (state.endCount + 1) := by
    rw [houtput, length_append, length_take, Nat.min_eq_left hforcing.endCount_lt]
  have hopenBase : ∀ pos, req.markers.OpenAt (output ++ tokens) pos → req.markers.OpenAt base pos := by
    intro pos hopen
    rw [houtput] at hopen
    exact hopen.of_append (hapart.start_bound hforcing.endCount_lt hopen.start)
  -- a limit that is reached at the end of the output would have been reached at the end of `base`
  have hreachedBefore : ∀ pos, req.Reached (output ++ tokens) pos → req.limit pos ≤ output.length := by
    intro pos hreached
    by_contra hgt
    have hopen := hopenBase pos (hreached.openAt (by omega))
    have := hforcing.base_limit pos hopen
    omega
  have hfin : ∀ pos, req.Reached (output ++ tokens) pos →
      req.Finished (output ++ tokens) pos ∨ req.limit pos = base.length :=
    fun pos hreached ↦ (hforcing.finished pos
      (hreached.of_append (hreachedBefore pos hreached))).imp_left fun hbefore ↦ hbefore.append tokens
  rw [if_neg (by rw [hforcing.prev_eq]; omega)]
  unfold countEnd
  split
  · next hlast =>
    have hcount : state.endCount + 1 = req.markers.endTokenIds.length :=
      Nat.le_antisymm hforcing.endCount_lt hlast
    have hclosed : ∀ pos, ¬ req.markers.OpenAt (output ++ tokens) pos := by
      intro pos hopen
      have hbound := (hopenBase pos hopen).bound
      have hending : OccursAt req.markers.endTokenIds (output ++ tokens) base.length := by
        have hmarker := occursAt_length_append base req.markers.endTokenIds []
        rw [houtput, hcount, take_length]
        rwa [append_nil] at hmarker
      have := hopen.unended base.length hending
      omega
    refine .inl ⟨rfl, Nat.le_refl _, fun pos hopen ↦ absurd hopen (hclosed pos), Nat.le_refl _, ?_, ?_⟩
    · rw [take_length]
      exact describes_of_not_openAt hclosed hforcing.inThink
    · intro pos hreached
      rcases hfin pos hreached with hdone | hbase
      · exact hdone
      · unfold Finished
        omega
  · next hmore =>
    exact .inr ⟨base, hforcing.inEnd, hforcing.inThink, Nat.not_le.1 hmore, houtput, rfl, hforcing.base_limit,
      hfin⟩

/-! ## Runs -/

section

variable (req : ThinkRequest)

/-- From the position on the output is the end marker, as far as there are tokens. -/
def EndsFrom (output : List ℕ) (pos : ℕ) : Prop :=
  (output.drop pos).take req.markers.endTokenIds.length <+: req.markers.endTokenIds

/-- The request may be added to the batch: it is not in a section, or has just begun one, and no end marker
is being forced. -/
def Joinable (output : List ℕ) : Prop :=
  (∀ pos, req.markers.OpenAt output pos →
    output.length = pos + req.markers.startTokenIds.length) ∧
  ∀ pos, req.Reached output pos → req.limit pos < output.length →
    req.Finished output pos

/-- The request comes to the batch outside of sections, and the sampled token does not complete a start
marker in a section. -/
def Regular (session : ThinkSession) : ThinkEvent → Prop
  | .leftOut => True
  | .scheduled readded sampled =>
    ((session.entry = none ∨ readded = true) → req.Joinable session.output) ∧
    ∀ token, sampled = some token → (∃ pos, req.markers.OpenAt session.output pos) →
      ¬ req.markers.startTokenIds <:+ session.output ++ [token]

/-- Between two start markers there is an end marker. -/
def Separated (output : List ℕ) : Prop :=
  ∀ first second, OccursAt req.markers.startTokenIds output first →
    OccursAt req.markers.startTokenIds output second → first < second →
    ∃ ending, first ≤ ending ∧
      ending + req.markers.endTokenIds.length < second + req.markers.startTokenIds.length ∧
      OccursAt req.markers.endTokenIds output ending

end

theorem endsFrom_of_le (hlen : output.length ≤ pos) : req.EndsFrom output pos := by
  unfold EndsFrom
  rw [drop_of_length_le hlen, take_nil]
  exact nil_prefix

theorem Finished.endsFrom_append (hfin : req.Finished output pos)
    (hends : req.EndsFrom output (req.limit pos)) (tokens : List ℕ) :
    req.EndsFrom (output ++ tokens) (req.limit pos) := by
  unfold Finished at hfin
  unfold EndsFrom at hends ⊢
  have hrest : req.markers.endTokenIds.length ≤ (output.drop (req.limit pos)).length := by
    rw [length_drop]
    omega
  rwa [drop_append_of_le_length (by omega), take_append_of_le_length hrest]

theorem Separated.concat (hseparated : req.Separated output) {token : ℕ}
    (htoken : (∃ pos, req.markers.OpenAt output pos) →
      ¬ req.markers.startTokenIds <:+ output ++ [token]) : req.Separated (output ++ [token]) := by
  intro first second hfirst hsecond hlt
  have hbound := hsecond.bound req.markers.start_ne_nil
  rw [length_append, length_singleton] at hbound
  have hfirstBefore := (occursAt_append (by omega)).1 hfirst
  have hkept : ∀ ending, OccursAt req.markers.endTokenIds output ending →
      OccursAt req.markers.endTokenIds (output ++ [token]) ending :=
    fun ending hending ↦ (occursAt_append (hending.bound req.markers.end_ne_nil)).2 hending
  by_cases hsecondBefore : second + req.markers.startTokenIds.length ≤ output.length
  · obtain ⟨ending, hle, hend, hoccurs⟩ := hseparated first second hfirstBefore
      ((occursAt_append hsecondBefore).1 hsecond) hlt
    exact ⟨ending, hle, hend, hkept ending hoccurs⟩
  · -- the token completes the second marker, so the output was not in a section
    have hsuffix : req.markers.startTokenIds <:+ output ++ [token] := by
      have hmarker := hsecond.suffix_take
      rwa [take_of_length_le (by rw [length_append, length_singleton]; omega)] at hmarker
    rcases exists_openAt_or hfirstBefore with ⟨last, -, hopen⟩ | ⟨ending, hle, hoccurs⟩
    · exact absurd hsuffix (htoken ⟨last, hopen⟩)
    · have := hoccurs.bound req.markers.end_ne_nil
      exact ⟨ending, hle, by omega, hkept ending hoccurs⟩

theorem Forcing.append_generated (hforcing : req.Forcing state base output) (token : ℕ) :
    output ++ [req.generated state token] = base ++ req.markers.endTokenIds.take (state.endCount + 1) := by
  rw [generated, hforcing.inEnd, if_pos rfl, hforcing.append_end]

/-- A sampled token keeps start markers apart: a forced one completes no start marker. -/
theorem Tracks.separated_concat (hapart : req.markers.Apart) (htracks : req.Tracks state output)
    (hseparated : req.Separated output) {token : ℕ} (htoken : (∃ pos, req.markers.OpenAt output pos) →
      ¬ req.markers.startTokenIds <:+ output ++ [token]) :
    req.Separated (output ++ [req.generated state token]) := by
  apply hseparated.concat
  rcases htracks with hwatching | ⟨base, hforcing⟩
  · rw [generated, hwatching.inEnd]
    exact htoken
  · intro _
    rw [hforcing.append_generated]
    exact hapart.start_ends base _ (Nat.succ_pos _) hforcing.endCount_lt

theorem Tracks.endsFrom_concat (htracks : req.Tracks state output) (hends : ∀ pos, req.Reached output pos →
      req.EndsFrom output (req.limit pos)) (token : ℕ) :
    ∀ pos, req.Reached (output ++ [req.generated state token]) pos →
      req.EndsFrom (output ++ [req.generated state token]) (req.limit pos) := by
  intro pos hreached
  by_cases hlimit : req.limit pos ≤ output.length
  · have hbefore := hreached.of_append hlimit
    rcases htracks with hwatching | ⟨_, hforcing⟩
    · exact (hwatching.finished pos hbefore).endsFrom_append (hends pos hbefore) _
    · rcases hforcing.finished pos hbefore with hfin | hbase
      · exact hfin.endsFrom_append (hends pos hbefore) _
      · rw [hforcing.append_generated, hbase, EndsFrom, drop_left]
        exact (List.take_prefix _ _).trans (List.take_prefix _ _)
  · apply endsFrom_of_le
    rw [length_append, length_singleton]
    omega

/-- The invariant of a run. The entry was updated before the last token was sampled. -/
structure Keeps (req : ThinkRequest) (session : ThinkSession) : Prop where
  separated : req.Separated session.output
  ends : ∀ pos, req.Reached session.output pos →
    req.EndsFrom session.output (req.limit pos)
  tracks : ∀ entry, session.entry = some entry → ∃ before sampled,
    session.output = before ++ (Option.map (req.generated entry) sampled).toList ∧
      req.Tracks entry before

theorem tracks_join {entry}
    (hentry : req.markers.initStateEntry req.promptTokIds req.thinkingTokenBudget = entry)
    (hprompt : req.thinkingTokenBudget = 0 →
      (req.markers.initStateEntry req.promptTokIds 0).inThink = false) (hjoinable : req.Joinable output) :
    req.Tracks (req.markers.updateThinkState req.thinkingTokenBudget entry output) output := by
  obtain ⟨hfresh, hfin⟩ := hjoinable
  have hinEnd : entry.inEnd = false := by
    rw [← hentry]
    by_cases hzero : req.thinkingTokenBudget = 0
    · exact (Bool.and_eq_false_iff.2 (.inl (hprompt hzero)))
    · exact Bool.and_eq_false_iff.2 (.inr (beq_eq_false_iff_ne.2 hzero))
  have hcount : entry.checkCountDown = req.thinkingTokenBudget := hentry ▸ rfl
  have hprev : entry.prevOutputLength = 0 := hentry ▸ rfl
  have hdesc : req.markers.Describes entry (output.take entry.prevOutputLength) := by
    rw [hprev, take_zero]
    rintro ⟨pos, hmarker | hmarker⟩
    · exact absurd (hmarker.bound req.markers.start_ne_nil)
        (by have := length_pos_iff.2 req.markers.start_ne_nil; rw [length_nil]; omega)
    · exact absurd (hmarker.bound req.markers.end_ne_nil)
        (by have := length_pos_iff.2 req.markers.end_ne_nil; rw [length_nil]; omega)
  have hprevLe : entry.prevOutputLength ≤ output.length := hprev ▸ Nat.zero_le _
  unfold updateThinkState
  split
  · next hwaits =>
    have hbudget : 0 < req.thinkingTokenBudget := by
      rw [hinEnd, hcount] at hwaits
      exact of_decide_eq_true hwaits
    have hlt : ∀ pos, req.markers.OpenAt output pos →
        output.length + (entry.checkCountDown - 1) < req.limit pos := by
      intro pos hopen
      have := hfresh pos hopen
      unfold limit
      omega
    refine .inl ⟨hinEnd, ?_, hlt, hprevLe, hdesc, finished_of_lt hlt hfin⟩
    dsimp only
    omega
  · next =>
    split
    · next =>
      have hsize := length_pos_iff.2 req.markers.start_ne_nil
      refine .inl ⟨hinEnd, Nat.le_of_eq hcount, fun pos hopen ↦ ?_, hprevLe, hdesc, fun pos hreached ↦ ?_⟩
      · have := hopen.bound
        omega
      · have := hreached.bound
        unfold limit at this
        omega
    · rw [hinEnd]
      apply tracks_look hinEnd hprevLe hdesc _ hfin
      intro pos hopen
      rw [hfresh pos hopen]
      exact Nat.le_add_right _ _

theorem Keeps.step (hapart : req.markers.Apart)
    (hprompt : req.thinkingTokenBudget = 0 → (req.markers.initStateEntry req.promptTokIds 0).inThink = false)
    {session : ThinkSession} (hkeeps : req.Keeps session) {event : ThinkEvent}
    (hregular : req.Regular session event) : req.Keeps (req.step session event) := by
  cases event with
  | leftOut => exact ⟨hkeeps.separated, hkeeps.ends, fun entry hentry ↦ by cases hentry⟩
  | scheduled readded sampled =>
    obtain ⟨hjoins, hsampled⟩ := hregular
    have htracks : req.Tracks (req.markers.updateThinkState req.thinkingTokenBudget
        (req.joined session readded) session.output) session.output := by
      unfold joined
      split
      · next entry hentry =>
        obtain ⟨_, earlier, houtput, hbefore⟩ := hkeeps.tracks entry hentry
        rw [houtput]
        rcases hbefore with hwatching | ⟨_, hforcing⟩
        · apply hwatching.update
          cases earlier <;> simp
        · apply hforcing.update hapart
          cases earlier with
          | none => exact .inl rfl
          | some token =>
            right
            rw [Option.map_some, Option.toList_some, generated, hforcing.inEnd, if_pos rfl]
      · next hnew =>
        apply tracks_join rfl hprompt (hjoins _)
        by_contra hboth
        rw [not_or, Bool.not_eq_true] at hboth
        obtain ⟨entry, hentry⟩ := Option.ne_none_iff_exists'.1 hboth.1
        exact hnew entry hentry hboth.2
    unfold ThinkRequest.step
    refine ⟨?_, ?_, fun other hother ↦ ?_⟩
    · cases sampled with
      | none => simpa using hkeeps.separated
      | some token => exact htracks.separated_concat hapart hkeeps.separated (hsampled token rfl)
    · cases sampled with
      | none => simpa using hkeeps.ends
      | some token => exact htracks.endsFrom_concat hkeeps.ends token
    · cases hother
      exact ⟨session.output, sampled, rfl, htracks⟩

end ThinkRequest

/-! ## A budget of two tokens -/

end Nelssa.Sample
