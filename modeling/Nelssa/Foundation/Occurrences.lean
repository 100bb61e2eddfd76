import Mathlib.Data.List.Basic
import Mathlib.Order.Basic

/-!
# Occurrences of a pattern in a text

`OccursAt pattern text position` says that a nonempty pattern stands in the text from the position on.
Occurrences in the beginning of a text and in its rest are those of the text in that range, so a search
that starts again near the end of what was searched before finds everything new. `lastOccurrence` is the
search from the end.
-/

namespace Nelssa.Foundation.Occurrences

open List

variable {α : Type*}

/-- The pattern stands at the position. -/
def OccursAt (pattern text : List α) (pos : ℕ) : Prop := pattern <+: text.drop pos

instance decidableOccursAt [DecidableEq α] (pattern text : List α) (pos : ℕ) :
    Decidable (OccursAt pattern text pos) :=
  inferInstanceAs (Decidable (pattern <+: text.drop pos))

variable {pattern text other : List α} {pos count : ℕ}

theorem occursAt_iff_take : OccursAt pattern text pos ↔ (text.drop pos).take pattern.length = pattern :=
  prefix_iff_eq_take.trans eq_comm

theorem OccursAt.bound (hoccurs : OccursAt pattern text pos) (hpattern : pattern ≠ []) :
    pos + pattern.length ≤ text.length := by
  have hlen := hoccurs.length_le
  have hpos := length_pos_iff.2 hpattern
  rw [length_drop] at hlen
  omega

theorem occursAt_drop : OccursAt pattern (text.drop count) pos ↔ OccursAt pattern text (count + pos) := by
  rw [OccursAt, OccursAt, drop_drop]

theorem occursAt_take (hpattern : pattern ≠ []) : OccursAt pattern (text.take count) pos ↔
    OccursAt pattern text pos ∧ pos + pattern.length ≤ count := by
  constructor
  · intro hoccurs
    have hbound := hoccurs.bound hpattern
    rw [length_take] at hbound
    refine ⟨hoccurs.trans ?_, by omega⟩
    rw [drop_take]
    exact take_prefix _ _
  · rintro ⟨hoccurs, hcount⟩
    rw [occursAt_iff_take] at hoccurs ⊢
    rw [drop_take, take_take, Nat.min_eq_left (by omega), hoccurs]

theorem occursAt_append (hbound : pos + pattern.length ≤ text.length) :
    OccursAt pattern (text ++ other) pos ↔ OccursAt pattern text pos := by
  rw [occursAt_iff_take, occursAt_iff_take, drop_append_of_le_length (by omega),
    take_append_of_le_length (by rw [length_drop]; omega)]

theorem occursAt_length_append (text pattern rest : List α) :
    OccursAt pattern (text ++ (pattern ++ rest)) text.length := by
  rw [OccursAt, drop_left]
  exact prefix_append _ _

theorem OccursAt.suffix_take (hoccurs : OccursAt pattern text pos) :
    pattern <:+ text.take (pos + pattern.length) := by
  rw [take_add, occursAt_iff_take.1 hoccurs]
  exact suffix_append _ _

section lastOccurrence

variable [DecidableEq α]

/-- The last position of the pattern. -/
def lastOccurrence (pattern text : List α) : Option ℕ :=
  (List.range (text.length + 1 - pattern.length)).reverse.find? fun pos ↦
    (text.drop pos).take pattern.length = pattern

theorem lastOccurrence_eq_none_iff (hpattern : pattern ≠ []) :
    lastOccurrence pattern text = none ↔ ∀ pos, ¬ OccursAt pattern text pos := by
  unfold lastOccurrence
  rw [find?_eq_none]
  constructor
  · intro hnone pos hoccurs
    have hbound := hoccurs.bound hpattern
    apply hnone pos
    · rw [mem_reverse, mem_range]
      omega
    · exact decide_eq_true (occursAt_iff_take.1 hoccurs)
  · intro hnone pos _ hfound
    exact hnone pos (occursAt_iff_take.2 (of_decide_eq_true hfound))

theorem lastOccurrence_eq_some_iff (hpattern : pattern ≠ []) :
    lastOccurrence pattern text = some pos ↔
      OccursAt pattern text pos ∧ ∀ later, OccursAt pattern text later → later ≤ pos := by
  have hfound : ∀ found, lastOccurrence pattern text = some found →
      OccursAt pattern text found ∧ ∀ later, OccursAt pattern text later → later ≤ found := by
    intro found hfind
    obtain ⟨hoccurs, before, after, hsplit, hbefore⟩ := find?_eq_some_iff_append.1 hfind
    refine ⟨occursAt_iff_take.2 (of_decide_eq_true hoccurs), fun later hlater ↦ ?_⟩
    -- the positions are tried in descending order, so a later one would have been tried before
    by_contra hlt
    have hbound := hlater.bound hpattern
    have hmem : later ∈ (List.range (text.length + 1 - pattern.length)).reverse := by
      rw [mem_reverse, mem_range]
      omega
    have hsorted : (before ++ found :: after).Pairwise (· > ·) := by
      rw [← hsplit, pairwise_reverse]
      exact pairwise_lt_range
    rw [hsplit, mem_append, mem_cons] at hmem
    rcases hmem with hearly | rfl | hafter
    · have hfalse := hbefore later hearly
      rw [Bool.not_eq_true', decide_eq_false_iff_not] at hfalse
      exact hfalse (occursAt_iff_take.1 hlater)
    · exact hlt (Nat.le_refl _)
    · have hgt := rel_of_pairwise_cons (pairwise_append.1 hsorted).2.1 hafter
      omega
  constructor
  · exact hfound pos
  · rintro ⟨hoccurs, hlast⟩
    cases hfind : lastOccurrence pattern text with
    | none => exact absurd hoccurs ((lastOccurrence_eq_none_iff hpattern).1 hfind pos)
    | some found =>
      obtain ⟨hoccursFound, hlastFound⟩ := hfound found hfind
      rw [Nat.le_antisymm (hlast found hoccursFound) (hlastFound pos hoccurs)]

end lastOccurrence

end Nelssa.Foundation.Occurrences
