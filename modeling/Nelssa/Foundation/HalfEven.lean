import Mathlib.Data.Nat.ModEq
import Mathlib.Tactic.Linarith

/-!
# Rounding a quotient to the nearest integer, ties to even

`roundDiv count unit` is the natural number nearest to `count / unit`; of two nearest ones it is the even
one. `roundLimit bound unit` is the largest number that is not rounded beyond `bound`, so the two functions
form a Galois connection, and rounding is monotone.
-/

namespace Nelssa.Foundation.HalfEven

def roundDiv (count unit : ℕ) : ℕ :=
  if 2 * (count % unit) < unit ∨ 2 * (count % unit) = unit ∧ Even (count / unit) then count / unit
  else count / unit + 1

/-- The midpoint behind a multiple is rounded down to it if the multiple is even. -/
def roundLimit (bound unit : ℕ) : ℕ := ((2 * bound + 1) * unit - bound % 2) / 2

variable {count unit : ℕ} (hunit : 0 < unit)
include hunit

variable (count) in
/-- The rounded quotient is at most half a unit away. -/
theorem roundDiv_near :
    2 * count ≤ 2 * roundDiv count unit * unit + unit ∧
      2 * roundDiv count unit * unit ≤ 2 * count + unit := by
  have hcount : 2 * count = 2 * (count / unit) * unit + 2 * (count % unit) := by
    rw [mul_assoc, mul_comm (count / unit), ← mul_add, Nat.div_add_mod]
  have hrest := Nat.mod_lt count hunit
  unfold roundDiv
  split
  · omega
  · rw [mul_add, add_mul]
    omega

theorem roundDiv_le_iff (bound : ℕ) : roundDiv count unit ≤ bound ↔ count ≤ roundLimit bound unit := by
  have hcount : 2 * count = 2 * (count / unit) * unit + 2 * (count % unit) := by
    rw [mul_assoc, mul_comm (count / unit), ← mul_add, Nat.div_add_mod]
  have hrest := Nat.mod_lt count hunit
  unfold roundDiv roundLimit
  simp only [Nat.even_iff]
  generalize count / unit = whole at *
  generalize count % unit = rest at *
  rw [add_mul, one_mul]
  rcases lt_trichotomy whole bound with hlt | rfl | hgt
  · have hle : (2 * whole + 2) * unit ≤ 2 * bound * unit := Nat.mul_le_mul_right unit (by omega)
    rw [add_mul] at hle
    split <;> omega
  · split <;> omega
  · have hle : (2 * bound + 2) * unit ≤ 2 * whole * unit := Nat.mul_le_mul_right unit (by omega)
    rw [add_mul] at hle
    split <;> omega

theorem roundDiv_mono {other : ℕ} (hle : count ≤ other) : roundDiv count unit ≤ roundDiv other unit := by
  rw [roundDiv_le_iff hunit]
  exact hle.trans ((roundDiv_le_iff hunit _).1 le_rfl)

end Nelssa.Foundation.HalfEven
