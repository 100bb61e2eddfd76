import Mathlib.Data.List.Basic
import Mathlib.Order.Bounds.Defs
import Mathlib.Order.Lattice

/-!
# Windows of hits

A lookup by position either finds an item or misses. `Covered` says that all positions of a window are
hits, and `shown` lists the items up to a position, with a filler in front of the window. A search for
the last position behind a covered window is described by these two notions and by `IsGreatest` over
the `ends` of windows.
-/

namespace Nelssa.Foundation.HitWindows

open List

variable {α : Type*} {hit : ℕ → Option α} {filler : α} {first last : ℕ}

/-- Every position from `first` up to `last` is a hit. -/
def Covered (hit : ℕ → Option α) (first last : ℕ) : Prop :=
  ∀ pos, first ≤ pos → pos < last → (hit pos).isSome

theorem covered_of_le (hit : ℕ → Option α) (hle : last ≤ first) : Covered hit first last := by
  intro pos _ _
  omega

theorem Covered.mono {first' last' : ℕ} (hcov : Covered hit first last) (hfirst : first ≤ first')
    (hlast : last' ≤ last) : Covered hit first' last' :=
  fun pos hlow hhigh ↦ hcov pos (hfirst.trans hlow) (hhigh.trans_le hlast)

theorem Covered.extend (hcov : Covered hit (first + 1) last) (hhit : (hit first).isSome) :
    Covered hit first last := by
  intro pos hlow hhigh
  rcases eq_or_lt_of_le hlow with rfl | hlt
  · exact hhit
  · exact hcov pos hlt hhigh

section

variable (hit : ℕ → Option α) (mayEnd : ℕ → Prop) (reach bound : ℕ)

/-- The positions up to `bound` that may end a window of the given reach and have it covered. The window
of position 0 is empty. -/
def ends : Set ℕ :=
  {pos | pos ≤ bound ∧ (0 < pos → mayEnd pos) ∧
    Covered hit (pos - reach) pos}

theorem zero_mem_ends : 0 ∈ ends hit mayEnd reach bound :=
  ⟨Nat.zero_le bound, fun h ↦ absurd h (lt_irrefl 0), covered_of_le hit (Nat.zero_le _)⟩

end

/-- The items up to `last`, with fillers up to `first`. -/
def shown (hit : ℕ → Option α) (filler : α) (first last : ℕ) : List α :=
  (range last).map fun pos ↦ if pos < first then filler else (hit pos).getD filler

@[simp]
theorem length_shown (hit : ℕ → Option α) (filler : α) (first last : ℕ) :
    (shown hit filler first last).length = last := by
  rw [shown, length_map, length_range]

theorem getElem?_shown {pos : ℕ} (hpos : pos < last) :
    (shown hit filler first last)[pos]? = some (if pos < first then filler else (hit pos).getD filler) := by
  rw [shown, getElem?_map, getElem?_range hpos, Option.map_some]

theorem Covered.getElem?_shown {pos : ℕ} (hcov : Covered hit first last)
    (hlow : first ≤ pos) (hhigh : pos < last) : (shown hit filler first last)[pos]? = hit pos := by
  obtain ⟨_, hitem⟩ := Option.isSome_iff_exists.1 (hcov pos hlow hhigh)
  rw [HitWindows.getElem?_shown hhigh, if_neg (not_lt.2 hlow), hitem, Option.getD_some]

theorem take_shown (hit : ℕ → Option α) (filler : α) (first : ℕ) {count : ℕ} (hcount : count ≤ last) :
    (shown hit filler first last).take count = shown hit filler first count := by
  rw [shown, shown, ← map_take, take_range, min_eq_left hcount]

theorem dropLast_shown (hit : ℕ → Option α) (filler : α) (first last : ℕ) :
    (shown hit filler first last).dropLast = shown hit filler first (last - 1) := by
  rw [dropLast_eq_take, length_shown, take_shown hit filler first (Nat.sub_le last 1)]

theorem shown_of_le (hit : ℕ → Option α) (filler : α) (hle : last ≤ first) :
    shown hit filler first last = replicate last filler := by
  have hfillers : shown hit filler first last = (range last).map fun _ ↦ filler :=
    map_congr_left fun pos hpos ↦ if_pos ((mem_range.1 hpos).trans_le hle)
  rw [hfillers, map_const', length_range]

theorem set_shown {item : α} (hitem : hit first = some item) :
    (shown hit filler (first + 1) last).set first item = shown hit filler first last := by
  apply ext_getElem (by simp)
  intro pos _ _
  simp only [shown, getElem_set, getElem_map, getElem_range]
  split
  · next hsame => simp [← hsame, hitem]
  · next => simp [show pos < first + 1 ↔ pos < first by omega]

end Nelssa.Foundation.HitWindows
