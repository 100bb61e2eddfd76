import Mathlib.Algebra.Order.BigOperators.Group.List

/-!
# Items with indices and costs

Lists whose items correspond one to one, with the indices of the items, and sums of costs over the items
of a list against sums of bounds on them.
-/

namespace Nelssa.Foundation.IndexedLists

variable {α β : Type*}

section

variable {R : α → β → Prop} {left : List α} {right : List β} (hall : List.Forall₂ R left right)
include hall

theorem forall₂_zipIdx (first : ℕ) :
    List.Forall₂ (fun item indexed ↦ R item indexed.1) left (right.zipIdx first) := by
  induction hall generalizing first with
  | nil => exact .nil
  | cons hhead _ ih =>
    exact .cons hhead (ih _)

theorem exists_mem_zipIdx {first : ℕ} {item : β × ℕ} (hitem : item ∈ right.zipIdx first) :
    ∃ other, (other, item.2) ∈ left.zipIdx first ∧ R other item.1 := by
  induction hall generalizing first with
  | nil => cases hitem
  | cons hhead _ ih =>
    rcases List.mem_cons.1 hitem with rfl | hrest
    · exact ⟨_, by exact List.mem_cons_self, hhead⟩
    · obtain ⟨other, hmem, hrelated⟩ := ih hrest
      exact ⟨other, by exact List.mem_cons_of_mem _ hmem, hrelated⟩

end

/-- Bounds that cover their costs one by one, or exceed the limit on their sum, cover them together. -/
theorem sum_le_of_covers {M : Type*} [AddCommMonoid M] [LinearOrder M] [IsOrderedAddMonoid M]
    (items : List α) (cost : α → M) {value : α → M} {limit : M}
    (hvalue : ∀ item ∈ items, 0 ≤ value item ∧ (cost item ≤ value item ∨ limit < value item))
    (hlimit : (items.map value).sum ≤ limit) : (items.map cost).sum ≤ (items.map value).sum := by
  have hnonneg : ∀ amount ∈ items.map value, 0 ≤ amount := by
    simpa using fun item hitem ↦ (hvalue item hitem).1
  apply List.sum_le_sum
  intro item hitem
  have hsingle := List.single_le_sum hnonneg _ (List.mem_map_of_mem hitem)
  exact (hvalue item hitem).2.resolve_right (not_lt.2 (hsingle.trans hlimit))

end Nelssa.Foundation.IndexedLists
