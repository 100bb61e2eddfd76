import Mathlib.Algebra.Order.Floor.Div
import Mathlib.Tactic.Linarith

/-!
# Ceiling division and block alignment

Paged storage cuts a sequence of positions into blocks of one fixed size. This module collects the
facts about the number of blocks that cover a prefix, about a start position aligned down to a
block boundary, and about the tail that remains behind such an aligned start.
-/

namespace Nelssa.Foundation.BlockArithmetic

variable {size : ℕ}

/-- Number of blocks of size `size` that cover `count` positions. -/
def cdiv (count size : ℕ) : ℕ := count ⌈/⌉ size

theorem cdiv_eq_add_pred_div (count size : ℕ) : cdiv count size = (count + size - 1) / size :=
  Nat.ceilDiv_eq_add_pred_div count size

section

variable (hsize : 0 < size)
include hsize

theorem cdiv_le_iff (count blocks : ℕ) : cdiv count size ≤ blocks ↔ count ≤ size * blocks :=
  ceilDiv_le_iff_le_mul hsize

theorem lt_cdiv_iff (count blocks : ℕ) : blocks < cdiv count size ↔ size * blocks < count := by
  rw [← not_le, cdiv_le_iff hsize, not_le]

theorem le_mul_cdiv (count : ℕ) : count ≤ size * cdiv count size := (cdiv_le_iff hsize count _).1 le_rfl

theorem cdiv_mono {count other : ℕ} (hle : count ≤ other) : cdiv count size ≤ cdiv other size :=
  (cdiv_le_iff hsize count _).2 (hle.trans (le_mul_cdiv hsize other))

theorem cdiv_pos_iff (count : ℕ) : 0 < cdiv count size ↔ 0 < count := by
  rw [lt_cdiv_iff hsize, mul_zero]

theorem cdiv_add_mul (count blocks : ℕ) : cdiv (count + size * blocks) size = cdiv count size + blocks := by
  rw [cdiv_eq_add_pred_div, cdiv_eq_add_pred_div, ← Nat.add_mul_div_left _ _ hsize]
  congr 1
  omega

theorem cdiv_le_pred_div_succ (count : ℕ) : cdiv count size ≤ (count - 1) / size + 1 := by
  rw [cdiv_le_iff hsize]
  have hdiv := Nat.lt_mul_div_succ (count - 1) hsize
  omega

theorem div_lt_cdiv {pos count : ℕ} (hpos : pos < count) : pos / size < cdiv count size := by
  rw [lt_cdiv_iff hsize]
  exact (Nat.mul_div_le pos size).trans_lt hpos

end

/-- The position of a block boundary at or before `position`. -/
def alignDown (pos size : ℕ) : ℕ := pos / size * size

theorem alignDown_le (pos size : ℕ) : alignDown pos size ≤ pos := Nat.div_mul_le_self pos size

theorem dvd_alignDown (pos size : ℕ) : size ∣ alignDown pos size := dvd_mul_left size _

theorem alignDown_eq_iff (pos : ℕ) : alignDown pos size = pos ↔ size ∣ pos :=
  ⟨fun h ↦ h ▸ dvd_alignDown pos size, Nat.div_mul_cancel⟩

theorem div_add_cdiv_tail {start count : ℕ} (hsize : 0 < size) (hstart : start ≤ count) :
    start / size + cdiv (count - alignDown start size) size = cdiv count size := by
  have halign := (alignDown_le start size).trans hstart
  have hsplit : count = (count - alignDown start size) + size * (start / size) := by
    have hmul : alignDown start size = size * (start / size) := mul_comm _ _
    omega
  conv_rhs => rw [hsplit]
  rw [cdiv_add_mul hsize]
  exact add_comm _ _

end Nelssa.Foundation.BlockArithmetic
