import Mathlib.Analysis.SpecialFunctions.Log.Basic

/-!
# Weights of two partial softmax results

Two partial results of a softmax are combined with weights proportional to the exponentials of their
logarithmic normalisers. A side may be empty, with normaliser minus infinity. Implementations shift
both normalisers by a common amount before exponentiating; every shift gives the same weights, except
that the difference of two infinities is not a number.
-/

namespace Nelssa.Foundation.LogSumExp

/-- Exact arithmetic with an exponential and its inverse on positive numbers. -/
structure ExpArithmetic (R : Type*) [Field R] [LinearOrder R] where
  exp : R → R
  log : R → R
  exp_pos : ∀ x, 0 < exp x
  exp_add : ∀ x y, exp (x + y) = exp x * exp y
  exp_log : ∀ x, 0 < x → exp (log x) = x

namespace ExpArithmetic

variable {R : Type*} [Field R] [LinearOrder R] (arith : ExpArithmetic R)

/-- The exponential with value zero at minus infinity. -/
def expBot (x : WithBot R) : R := (x.map arith.exp).unbotD 0

/-- The exponential of a difference; `none` is the NaN of two infinities. -/
def expSub (x shift : WithBot R) : Option R :=
  shift.recBotCoe none fun shift ↦ some (arith.expBot (x.map (· - shift)))

def logSumExp (x y : WithBot R) : WithBot R :=
  if x = ⊥ ∧ y = ⊥ then ⊥ else (arith.log (arith.expBot x + arith.expBot y) : R)

/-- The weight of `x` against `y`. -/
def weight (x y : WithBot R) : R := arith.expBot x / (arith.expBot x + arith.expBot y)

@[simp]
theorem expBot_bot : arith.expBot ⊥ = 0 := rfl

@[simp]
theorem expBot_coe (x : R) : arith.expBot x = arith.exp x := rfl

@[simp]
theorem expSub_bot (x : WithBot R) : arith.expSub x ⊥ = none := rfl

theorem exp_sub (x y : R) : arith.exp (x - y) = arith.exp x / arith.exp y := by
  rw [eq_div_iff (arith.exp_pos y).ne', ← arith.exp_add, sub_add_cancel]

theorem expBot_sub (x : WithBot R) (y : R) : arith.expBot (x.map (· - y)) = arith.expBot x / arith.exp y := by
  cases x with
  | bot => simp
  | coe x => simp [arith.exp_sub]

@[simp]
theorem expSub_coe (x : WithBot R) (shift : R) :
    arith.expSub x shift = some (arith.expBot x / arith.exp shift) :=
  congrArg some (arith.expBot_sub x shift)

theorem expBot_nonneg (x : WithBot R) : 0 ≤ arith.expBot x := by
  cases x with
  | bot => exact le_rfl
  | coe x => exact (arith.exp_pos x).le

@[simp]
theorem weight_bot (x : R) : arith.weight x ⊥ = 1 := by
  simp [weight, (arith.exp_pos x).ne']

@[simp]
theorem bot_weight (x : WithBot R) : arith.weight ⊥ x = 0 := by
  simp [weight]

theorem weight_self (x : R) : arith.weight x x = 1 / 2 := by
  rw [weight, expBot_coe, ← two_mul, div_mul_cancel_right₀ (arith.exp_pos x).ne', one_div]

theorem weight_shifted (x y : WithBot R) (shift : R) :
    arith.expBot x / arith.exp shift / (arith.expBot x / arith.exp shift + arith.expBot y / arith.exp shift) =
      arith.weight x y := by
  rw [← add_div, div_div_div_cancel_right₀ (arith.exp_pos shift).ne', weight]

variable [IsStrictOrderedRing R] (x y : WithBot R)

theorem sum_eq_zero_iff : arith.expBot x + arith.expBot y = 0 ↔ x = ⊥ ∧ y = ⊥ := by
  have hbot (z : WithBot R) : arith.expBot z = 0 ↔ z = ⊥ := by
    cases z <;> simp [(arith.exp_pos _).ne']
  rw [add_eq_zero_iff_of_nonneg (arith.expBot_nonneg x) (arith.expBot_nonneg y), hbot, hbot]

theorem sum_pos (hsome : ¬ (x = ⊥ ∧ y = ⊥)) : 0 < arith.expBot x + arith.expBot y :=
  have hnonneg := add_nonneg (arith.expBot_nonneg x) (arith.expBot_nonneg y)
  hnonneg.lt_of_ne' (mt (arith.sum_eq_zero_iff x y).1 hsome)

theorem logSumExp_eq : arith.logSumExp x y = if arith.expBot x + arith.expBot y = 0 then (⊥ : WithBot R)
    else (arith.log (arith.expBot x + arith.expBot y) : R) := by
  simp only [logSumExp, sum_eq_zero_iff]

theorem expBot_logSumExp : arith.expBot (arith.logSumExp x y) = arith.expBot x + arith.expBot y := by
  unfold logSumExp
  split
  · next hnone => rw [(arith.sum_eq_zero_iff x y).2 hnone, expBot_bot]
  · next hsome => exact arith.exp_log _ (arith.sum_pos x y hsome)

theorem expSub_logSumExp (hsome : ¬ (x = ⊥ ∧ y = ⊥)) (z : WithBot R) :
    arith.expSub z (arith.logSumExp x y) = some (arith.expBot z / (arith.expBot x + arith.expBot y)) := by
  rw [logSumExp, if_neg hsome, expSub_coe, arith.exp_log _ (arith.sum_pos x y hsome)]

end ExpArithmetic

noncomputable def realArithmetic : ExpArithmetic ℝ where
  exp := Real.exp
  log := Real.log
  exp_pos := Real.exp_pos
  exp_add := Real.exp_add
  exp_log := fun _ ↦ Real.exp_log

end Nelssa.Foundation.LogSumExp
