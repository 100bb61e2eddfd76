import Mathlib.Data.List.Nodup

/-!
# Lists with a window cut out

`cut low high items` is a list without the positions from `low` up to `high`. A list without
duplicates can be cut in one way only to get a given result.
-/

namespace Nelssa.Foundation.Windows

open List hiding min

variable {α : Type*} {items : List α} {low high low' high' : ℕ}

/-- The items before `low` and from `high` on. -/
def cut (low high : ℕ) (items : List α) : List α := items.take low ++ items.drop high

theorem length_cut (hlow : low ≤ high) (hhigh : high ≤ items.length) :
    (cut low high items).length + (high - low) = items.length := by
  rw [cut, length_append, length_take, length_drop]
  omega

theorem cut_ne_self (hlow : low < high) (hhigh : high ≤ items.length) : cut low high items ≠ items := by
  intro hsame
  have hlen := length_cut (Nat.le_of_lt hlow) hhigh
  rw [hsame] at hlen
  omega

section

variable {β : Type*} (expand : α → List β) {factor : ℕ} (hexpand : ∀ item, (expand item).length = factor)
include hexpand

theorem length_flatMap_of_forall (items : List α) :
    (items.flatMap expand).length = factor * items.length := by
  induction items with
  | nil => rfl
  | cons item rest ih =>
    rw [flatMap_cons, length_append, ih, hexpand, length_cons, Nat.mul_succ, Nat.add_comm]

theorem flatMap_cut (hlow : low ≤ items.length) (hhigh : high ≤ items.length) :
    (cut low high items).flatMap expand = cut (factor * low) (factor * high) (items.flatMap expand) := by
  have hsplit (pos : ℕ) (hpos : pos ≤ items.length) :
      (items.flatMap expand).take (factor * pos) = (items.take pos).flatMap expand ∧
        (items.flatMap expand).drop (factor * pos) = (items.drop pos).flatMap expand := by
    have hleft : ((items.take pos).flatMap expand).length = factor * pos := by
      rw [length_flatMap_of_forall expand hexpand, length_take_of_le hpos]
    have hparts : items.flatMap expand =
        (items.take pos).flatMap expand ++ (items.drop pos).flatMap expand := by
      rw [← flatMap_append, take_append_drop]
    rw [hparts]
    exact ⟨take_left' hleft, drop_left' hleft⟩
  rw [cut, cut, flatMap_append, (hsplit low hlow).1, (hsplit high hhigh).2]

end

theorem getElem_mem_cut_iff (hnodup : items.Nodup) {index : ℕ} (hidx : index < items.length) :
    items[index] ∈ cut low high items ↔ index < low ∨ high ≤ index := by
  rw [cut, mem_append, mem_take_iff_getElem, mem_drop_iff_getElem]
  refine or_congr ⟨?_, fun h ↦ ⟨index, Nat.lt_min.2 ⟨h, hidx⟩, rfl⟩⟩
    ⟨?_, fun h ↦ ⟨index - high, by omega, by simp [Nat.add_sub_cancel' h]⟩⟩
  · rintro ⟨other, hother, hsame⟩
    rw [← (hnodup.getElem_inj_iff).1 hsame]
    exact (Nat.lt_min.1 hother).1
  · rintro ⟨other, hother, hsame⟩
    rw [← (hnodup.getElem_inj_iff).1 hsame]
    exact Nat.le_add_right _ _

theorem cut_eq_cut_iff (hnodup : items.Nodup) (hlow : low < high) (hhigh : high ≤ items.length)
    (hlow' : low' < high') (hhigh' : high' ≤ items.length) :
    cut low high items = cut low' high' items ↔ low = low' ∧ high = high' := by
  refine ⟨fun hsame ↦ ?_, fun ⟨hlows, hhighs⟩ ↦ by rw [hlows, hhighs]⟩
  have houtside (index : ℕ) (hidx : index < items.length) :
      index < low ∨ high ≤ index ↔ index < low' ∨ high' ≤ index := by
    rw [← getElem_mem_cut_iff hnodup hidx, hsame, getElem_mem_cut_iff hnodup]
  -- The first and the last position of each window are outside both or inside both.
  have hfirst := houtside low (by omega)
  have hfirst' := houtside low' (by omega)
  have hlast := houtside (high - 1) (by omega)
  have hlast' := houtside (high' - 1) (by omega)
  omega

theorem foldl_set_range' (value : α) (count : ℕ) (hcount : low + count ≤ items.length) :
    (List.range' low count).foldl (fun kept index ↦ kept.set index value) items =
      items.take low ++ List.replicate count value ++ items.drop (low + count) := by
  induction count generalizing low items with
  | zero => simp
  | succ count ih =>
    have hset : items.set low value = items.take low ++ value :: items.drop (low + 1) :=
      set_eq_take_append_cons_drop.trans (if_pos (by omega))
    have hlen : (items.take low).length = low := length_take_of_le (by omega)
    rw [range'_succ, foldl_cons, ih (by rw [length_set]; omega), hset]
    have htake : (items.take low ++ value :: items.drop (low + 1)).take (low + 1) =
        items.take low ++ [value] := by
      rw [take_append, hlen, Nat.add_sub_cancel_left, take_of_length_le (by omega)]
      rfl
    have hdrop : (items.take low ++ value :: items.drop (low + 1)).drop (low + 1 + count) =
        items.drop (low + (count + 1)) := by
      rw [drop_append, hlen, drop_of_length_le (by omega), nil_append,
        show low + 1 + count - low = count + 1 by omega, drop_succ_cons, drop_drop,
        show low + 1 + count = low + (count + 1) by omega]
    rw [htake, hdrop, replicate_succ, append_assoc (items.take low), singleton_append]

/-! ## What is left behind a position -/

/-- The items from `low` on, without those from `mid` up to `high`. -/
def cutFrom (low mid high : ℕ) (items : List α) : List α := (items.take mid).drop low ++ items.drop high

theorem cutFrom_self (low : ℕ) (items : List α) : cutFrom low low low items = items.drop low := by
  rw [cutFrom, drop_eq_nil_of_le (length_take_le low items), nil_append]

theorem length_cutFrom (low mid high : ℕ) (items : List α) :
    (cutFrom low mid high items).length = min mid items.length - low + (items.length - high) := by
  rw [cutFrom, length_append, length_drop, length_take, length_drop]

theorem mem_cutFrom {low mid high : ℕ} {item : α} : item ∈ cutFrom low mid high items ↔
    ∃ index, (low ≤ index ∧ index < mid ∨ high ≤ index) ∧ items[index]? = some item := by
  rw [cutFrom, mem_append, mem_iff_getElem?, mem_iff_getElem?]
  constructor
  · rintro (⟨offset, hoff⟩ | ⟨offset, hoff⟩)
    · rw [getElem?_drop, getElem?_take] at hoff
      split at hoff
      · next hlt => exact ⟨low + offset, .inl ⟨Nat.le_add_right _ _, hlt⟩, hoff⟩
      · cases hoff
    · rw [getElem?_drop] at hoff
      exact ⟨high + offset, .inr (Nat.le_add_right _ _), hoff⟩
  · rintro ⟨index, ⟨hlow, hmid⟩ | hhigh, hitem⟩
    · refine .inl ⟨index - low, ?_⟩
      rw [getElem?_drop, getElem?_take, Nat.add_sub_cancel' hlow, if_pos hmid, hitem]
    · refine .inr ⟨index - high, ?_⟩
      rw [getElem?_drop, Nat.add_sub_cancel' hhigh, hitem]

theorem zip_cutFrom {β : Type*} {others : List β} (hlen : items.length = others.length) (low mid high : ℕ) :
    (cutFrom low mid high items).zip (cutFrom low mid high others) =
      cutFrom low mid high (items.zip others) := by
  simp only [cutFrom, zip]
  rw [zipWith_append, drop_zipWith, take_zipWith, drop_zipWith]
  rw [length_drop, length_drop, length_take, length_take, hlen]

/-! ## Erasing an item before or behind a position -/

variable [DecidableEq α] {item : α} {count : ℕ}

theorem take_erase_of_notMem (hitem : item ∉ items.take count) :
    (items.erase item).take count = items.take count := by
  have hsplit : items.erase item = items.take count ++ (items.drop count).erase item := by
    rw [← erase_append_right _ hitem, take_append_drop]
  rw [hsplit]
  by_cases hcount : count ≤ items.length
  · exact take_left' (length_take_of_le hcount)
  · have hall : items.drop count = [] := drop_of_length_le (by omega)
    rw [hall, erase_nil, append_nil, take_take, Nat.min_self]

theorem take_erase_of_mem (hitem : item ∈ items.take (count + 1)) :
    (items.erase item).take count = (items.take (count + 1)).erase item := by
  have hsplit : items.erase item = (items.take (count + 1)).erase item ++ items.drop (count + 1) := by
    rw [← erase_append_left _ hitem, take_append_drop]
  have hlen := length_erase_of_mem hitem
  rw [length_take] at hlen
  rw [hsplit]
  by_cases hcount : count + 1 ≤ items.length
  · exact take_left' (by omega)
  · have hall : items.drop (count + 1) = [] := drop_of_length_le (by omega)
    rw [hall, append_nil]
    exact take_of_length_le (by omega)

end Nelssa.Foundation.Windows
