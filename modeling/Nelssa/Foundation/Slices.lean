import Mathlib.Algebra.BigOperators.Group.List.Basic
import Mathlib.Algebra.GroupWithZero.Nat

/-!
# Slices of lists

`writeSlice` overwrites consecutive positions of a list. The parts of a list that is put together from one
list for each item are found again by the lengths of the parts before them.
-/

namespace Nelssa.Foundation.Slices

open List

variable {α β : Type*}

/-- The list with the values written from position `start` on. -/
def writeSlice (items : List α) (start : ℕ) (values : List α) : List α :=
  items.take start ++ values ++ items.drop (start + values.length)

section writeSlice

variable {items values : List α} {start : ℕ}

section

variable (hbound : start + values.length ≤ items.length)
include hbound

theorem length_writeSlice : (writeSlice items start values).length = items.length := by
  simp only [writeSlice, length_append, length_take, length_drop]
  omega

theorem getElem?_writeSlice_of_lt {index : ℕ}
    (hidx : index < start) : (writeSlice items start values)[index]? = items[index]? := by
  have hlen : (items.take start).length = start := length_take_of_le (by omega)
  rw [writeSlice, append_assoc, getElem?_append_left (by omega), getElem?_take_of_lt hidx]

theorem getElem?_writeSlice_of_mem {offset : ℕ} (hoff : offset < values.length) :
    (writeSlice items start values)[start + offset]? = values[offset]? := by
  have hlen : (items.take start).length = start := length_take_of_le (by omega)
  rw [writeSlice, append_assoc, getElem?_append_right (by omega), hlen, Nat.add_sub_cancel_left,
    getElem?_append_left hoff]

end

end writeSlice

/-- The position in `items.flatMap part` at which the part of the item with the given index starts. -/
def partStart (part : α → List β) (items : List α) (index : ℕ) : ℕ :=
  ((items.take index).map fun item ↦ (part item).length).sum

theorem take_drop_partStart [DecidableEq α] (part : α → List β) {items : List α} {item : α}
    (hitem : item ∈ items) {count : ℕ} (hcount : count ≤ (part item).length) :
    ((items.flatMap part).drop (partStart part items (items.idxOf item))).take count =
      (part item).take count := by
  induction items with
  | nil => cases hitem
  | cons first rest ih =>
    by_cases hfirst : first = item
    · rw [hfirst, idxOf_cons_self, partStart, take_zero, map_nil, sum_nil, drop_zero,
        flatMap_cons, take_append_of_le_length hcount]
    · have hrest := (mem_cons.1 hitem).resolve_left (Ne.symm hfirst)
      rw [idxOf_cons_ne rest hfirst, flatMap_cons]
      unfold partStart at ih ⊢
      rw [take_succ_cons, map_cons, sum_cons, ← drop_drop, drop_left, ih hrest]

end Nelssa.Foundation.Slices
