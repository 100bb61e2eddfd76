import Mathlib.Data.Int.Basic
import Mathlib.Data.List.Basic

/-!
# Repetition detection

`checkSequenceRepetition` looks for a pattern whose copies end the generated tokens. The loops compare
tokens counted from the end of the sequence; `none` stands for the `IndexError` of an index outside it.
-/

namespace Nelssa.Sched

open List

variable {α : Type}

structure RepetitionDetectionParams where
  maxPatternSize : ℤ
  minPatternSize : ℤ
  minCount : ℤ

/-- The expression `token_ids[-n]` for a positive `n`. -/
def tokenFromEnd (tokenIds : List α) (n : ℕ) : Option α := tokenIds.reverse[n - 1]?

section

variable [DecidableEq α]

def hasRepeatingPattern (tokenIds : List α) (patternLen repetitionMinCount : ℕ) : Option Bool :=
  (range' 1 patternLen).allM fun n ↦ do
    let targetToken ← tokenFromEnd tokenIds n
    (range' 1 (repetitionMinCount - 1)).allM fun m ↦ do
      let token ← tokenFromEnd tokenIds (patternLen * m + n)
      return decide (token = targetToken)

/-- The loop over the pattern lengths. -/
def checkPatternLens (tokenIds : List α) (minCount : ℕ) : List ℕ → Option Bool
  | [] => some false
  | patternLen :: rest =>
    if tokenIds.length < patternLen * minCount then some false
    else do
      if ← hasRepeatingPattern tokenIds patternLen minCount then return true
      checkPatternLens tokenIds minCount rest

def checkSequenceRepetition (tokenIds : List α) (params : RepetitionDetectionParams) : Option Bool :=
  let minPatternSize := if params.minPatternSize ≤ 0 then 1 else params.minPatternSize
  if params.maxPatternSize ≤ 0 ∨ params.minCount < 2 ∨ params.maxPatternSize < minPatternSize then some false
  else checkPatternLens tokenIds params.minCount.toNat
    (range' minPatternSize.toNat (params.maxPatternSize + 1 - minPatternSize).toNat)

end

/-- The last tokens are `count` copies of one pattern of the given length. -/
def EndsInCopies (tokenIds : List α) (patternLen count : ℕ) : Prop :=
  ∃ pattern : List α, pattern.length = patternLen ∧ (replicate count pattern).flatten <:+ tokenIds

/-! ## Copies of a pattern -/

theorem getElem?_flatten_replicate (pattern : List α) {count index : ℕ}
    (hidx : index < pattern.length * count) :
    (replicate count pattern).flatten[index]? = pattern[index % pattern.length]? := by
  induction count generalizing index with
  | zero => omega
  | succ count ih =>
    rw [replicate_succ, flatten_cons, getElem?_append]
    split
    · next hlt => rw [Nat.mod_eq_of_lt hlt]
    · next hge =>
      rw [Nat.mul_succ] at hidx
      rw [ih (by omega), ← Nat.mod_eq_sub_mod (not_lt.1 hge)]

section

variable {tokenIds : List α} {patternLen count : ℕ}

theorem endsInCopies_iff (hcount : 0 < count) (hlen : patternLen * count ≤ tokenIds.length) :
    EndsInCopies tokenIds patternLen count ↔ ∀ n < patternLen, ∀ m < count,
      tokenIds.reverse[patternLen * m + n]? = tokenIds.reverse[n]? := by
  have hrev (pattern : List α) : (replicate count pattern).flatten <:+ tokenIds ↔
      (replicate count pattern.reverse).flatten <+: tokenIds.reverse := by
    rw [← reverse_prefix, reverse_flatten, map_replicate, reverse_replicate]
  constructor
  · rintro ⟨pattern, rfl, hcopies⟩ n hn m hm
    rw [hrev, prefix_iff_getElem?] at hcopies
    have hread {m : ℕ} (hm : m < count) :
        tokenIds.reverse[pattern.length * m + n]? = pattern.reverse[n]? := by
      have hidx : pattern.length * m + n < pattern.length * count := by
        calc pattern.length * m + n < pattern.length * (m + 1) := by rw [Nat.mul_succ]; omega
          _ ≤ pattern.length * count := Nat.mul_le_mul_left _ hm
      rw [hcopies _ (by simpa [Nat.mul_comm] using hidx), ← getElem?_eq_getElem,
        getElem?_flatten_replicate _ (by simpa using hidx), length_reverse, Nat.mul_add_mod,
        Nat.mod_eq_of_lt hn]
    rw [hread hm, ← hread hcount, Nat.mul_zero, Nat.zero_add]
  · intro hsame
    have hpattern : (tokenIds.reverse.take patternLen).length = patternLen := by
      rw [length_take, length_reverse]
      exact min_eq_left (le_trans (Nat.le_mul_of_pos_right _ hcount) hlen)
    refine ⟨(tokenIds.reverse.take patternLen).reverse, by rw [length_reverse, hpattern], ?_⟩
    rw [hrev, reverse_reverse, prefix_iff_getElem?]
    intro index hidx
    have hinside : index < patternLen * count := by simpa [hpattern, Nat.mul_comm] using hidx
    have hpos : 0 < patternLen := Nat.pos_of_ne_zero fun hzero ↦ by simp [hzero] at hinside
    have hmod := Nat.mod_lt index hpos
    rw [← getElem?_eq_getElem, getElem?_flatten_replicate _ (by rwa [hpattern]), hpattern,
      getElem?_take_of_lt hmod, ← hsame _ hmod _ (Nat.div_lt_of_lt_mul hinside), Nat.div_add_mod]

/-! ## The loops -/

theorem allM_eq_some {β : Type} {items : List β} {check : β → Option Bool} {holds : β → Bool}
    (hchecks : ∀ item ∈ items, check item = some (holds item)) :
    items.allM check = some (items.all holds) := by
  induction items with
  | nil => rfl
  | cons item items ih =>
    rw [forall_mem_cons] at hchecks
    rw [allM, hchecks.1, all_cons]
    cases holds item with
    | false => rfl
    | true => exact ih hchecks.2

variable [DecidableEq α]

theorem hasRepeatingPattern_eq (hcount : 0 < count) (hlen : patternLen * count ≤ tokenIds.length) :
    hasRepeatingPattern tokenIds patternLen count = some ((range' 1 patternLen).all fun n ↦
      (range' 1 (count - 1)).all fun m ↦
        tokenFromEnd tokenIds (patternLen * m + n) = tokenFromEnd tokenIds n) := by
  have hread {n m : ℕ} (hn : n ∈ range' 1 patternLen) (hm : m < count) :
      ∃ token, tokenFromEnd tokenIds (patternLen * m + n) = some token := by
    rw [mem_range'_1] at hn
    have hnext := Nat.mul_le_mul_left patternLen hm
    rw [Nat.mul_succ] at hnext
    have hinside : patternLen * m + n - 1 < tokenIds.reverse.length := by
      rw [length_reverse]
      omega
    exact ⟨_, getElem?_eq_getElem hinside⟩
  refine allM_eq_some fun n hn ↦ ?_
  obtain ⟨_, htarget⟩ := hread hn hcount
  rw [Nat.mul_zero, Nat.zero_add] at htarget
  rw [htarget]
  refine allM_eq_some fun m hm ↦ ?_
  obtain ⟨_, htoken⟩ := hread hn (show m < count by rw [mem_range'_1] at hm; omega)
  simp [htoken]

theorem hasRepeatingPattern_spec (hcount : 0 < count) (hlen : patternLen * count ≤ tokenIds.length) :
    ∃ found, hasRepeatingPattern tokenIds patternLen count = some found ∧
      (found = true ↔ EndsInCopies tokenIds patternLen count) := by
  refine ⟨_, hasRepeatingPattern_eq hcount hlen, ?_⟩
  simp only [endsInCopies_iff hcount hlen, all_eq_true, decide_eq_true_eq, mem_range'_1]
  constructor
  · intro hsame n hn m hm
    rcases Nat.eq_zero_or_pos m with rfl | hpos
    · rw [Nat.mul_zero, Nat.zero_add]
    · exact hsame (n + 1) ⟨by omega, by omega⟩ m ⟨hpos, by omega⟩
  · intro hsame n hn m _
    obtain ⟨n, rfl⟩ := Nat.exists_eq_succ_of_ne_zero (ne_of_gt hn.1)
    exact hsame n (by omega) m (by omega)

/-- The first pattern that is too long ends the loop: the later ones are longer still. -/
theorem checkPatternLens_spec (tokenIds : List α) (hcount : 0 < count) (start size : ℕ) :
    ∃ found, checkPatternLens tokenIds count (range' start size) = some found ∧
      (found = true ↔ ∃ patternLen, start ≤ patternLen ∧ patternLen < start + size ∧
        patternLen * count ≤ tokenIds.length ∧ EndsInCopies tokenIds patternLen count) := by
  induction size generalizing start with
  | zero =>
    refine ⟨false, rfl, iff_of_false Bool.false_ne_true ?_⟩
    omega
  | succ size ih =>
    rw [range'_succ, checkPatternLens]
    by_cases hlong : tokenIds.length < start * count
    · rw [if_pos hlong]
      refine ⟨false, rfl, iff_of_false Bool.false_ne_true ?_⟩
      rintro ⟨patternLen, hge, -, hle, -⟩
      have hmul := Nat.mul_le_mul_right count hge
      omega
    · obtain ⟨found, hfound, hcopies⟩ := hasRepeatingPattern_spec hcount (not_lt.1 hlong)
      rw [if_neg hlong, hfound]
      cases found with
      | true => exact ⟨true, rfl, iff_of_true rfl
          ⟨start, le_refl _, by omega, not_lt.1 hlong, hcopies.1 rfl⟩⟩
      | false =>
        obtain ⟨later, hlater, hiff⟩ := ih _
        refine ⟨later, hlater, hiff.trans ⟨?_, ?_⟩⟩
        · rintro ⟨patternLen, hge, hlt, hfits⟩
          exact ⟨patternLen, by omega, by omega, hfits⟩
        · rintro ⟨patternLen, hge, hlt, hfits⟩
          have hne : patternLen ≠ start := by
            rintro rfl
            exact Bool.false_ne_true (hcopies.2 hfits.2)
          exact ⟨patternLen, by omega, by omega, hfits⟩

end

/-- The check never reads outside the sequence, and it answers `True` exactly if the sequence ends in
`min_count` copies of a pattern of an admitted length. -/
theorem checkSequenceRepetition_spec [DecidableEq α] (tokenIds : List α)
    (params : RepetitionDetectionParams) :
    ∃ found, checkSequenceRepetition tokenIds params = some found ∧
      (found = true ↔ 2 ≤ params.minCount ∧ ∃ patternLen : ℕ, max 1 params.minPatternSize ≤ patternLen ∧
        patternLen ≤ params.maxPatternSize ∧ patternLen * params.minCount ≤ tokenIds.length ∧
          EndsInCopies tokenIds patternLen params.minCount.toNat) := by
  have hmin : (if params.minPatternSize ≤ 0 then 1 else params.minPatternSize) =
      max 1 params.minPatternSize := by
    split <;> omega
  rw [checkSequenceRepetition]
  simp only [hmin]
  split
  · next hnone =>
    refine ⟨false, rfl, iff_of_false Bool.false_ne_true ?_⟩
    omega
  · next hsome =>
    have hcount : 2 ≤ params.minCount := by omega
    obtain ⟨found, hfound, hiff⟩ := checkPatternLens_spec tokenIds (show 0 < params.minCount.toNat by omega) _
      _
    refine ⟨found, hfound, hiff.trans ?_⟩
    rw [and_iff_right hcount]
    apply exists_congr
    intro patternLen
    have hfits : patternLen * params.minCount ≤ tokenIds.length ↔
        patternLen * params.minCount.toNat ≤ tokenIds.length := by
      rw [← Int.ofNat_le, Int.natCast_mul, Int.toNat_of_nonneg (by omega)]
    rw [hfits]
    constructor
    · rintro ⟨hge, hlt, hrest⟩
      exact ⟨by omega, by omega, hrest⟩
    · rintro ⟨hge, hle, hrest⟩
      exact ⟨by omega, by omega, hrest⟩

end Nelssa.Sched
