import Nelssa.Foundation.LogSumExp

/-!
# Softmax rows with masked entries

A masked score is minus infinity. A numerically stable softmax subtracts the largest score of the row before
it exponentiates, and adds it to the logarithm of the sum at the end. In exact arithmetic neither matters,
and the sum of a row with at least one score that is not masked is at least one.
-/

namespace Nelssa.Foundation.LogSumExp

open List hiding max

variable {R : Type*} [LinearOrder R]

/-- The largest score of a row, found from the first one on. -/
def rowMax : List (WithBot R) → WithBot R
  | [] => ⊥
  | score :: scores => scores.foldl max score

theorem foldl_max_mem (scores : List (WithBot R)) (score : WithBot R) :
    scores.foldl max score ∈ score :: scores ∧ score ≤ scores.foldl max score := by
  induction scores generalizing score with
  | nil => exact ⟨mem_cons_self, le_rfl⟩
  | cons next scores ih =>
    obtain ⟨hmem, hle⟩ := ih _
    rw [foldl_cons]
    refine ⟨?_, (le_max_left _ _).trans hle⟩
    rcases mem_cons.1 hmem with heq | hrest
    · rw [heq]
      rcases max_choice score next with hmax | hmax
      · rw [hmax]
        exact mem_cons_self
      · rw [hmax]
        exact mem_cons_of_mem _ mem_cons_self
    · exact mem_cons_of_mem _ (mem_cons_of_mem _ hrest)

theorem exists_rowMax (score : R) (scores : List (WithBot R)) :
    ∃ largest : R, rowMax (score :: scores) = largest ∧
      (largest : WithBot R) ∈ (score : WithBot R) :: scores := by
  obtain ⟨hmem, hle⟩ := foldl_max_mem scores _
  obtain ⟨largest, hlargest⟩ := WithBot.ne_bot_iff_exists.1 (ne_bot_of_le_ne_bot WithBot.coe_ne_bot hle)
  exact ⟨largest, hlargest.symm, hlargest ▸ hmem⟩

namespace ExpArithmetic

variable [Field R] (arith : ExpArithmetic R)

def rowSum (scores : List (WithBot R)) : R := (scores.map arith.expBot).sum

theorem rowSum_append (scores others : List (WithBot R)) :
    arith.rowSum (scores ++ others) = arith.rowSum scores + arith.rowSum others := by
  rw [rowSum, map_append, sum_append, rowSum, rowSum]

theorem rowSum_replicate_bot (count : ℕ) : arith.rowSum (List.replicate count ⊥) = 0 := by
  rw [rowSum, map_replicate, expBot_bot, sum_replicate, smul_zero]

theorem sum_shifted (scores : List (WithBot R)) (shift : R) :
    (scores.map fun score ↦ arith.expBot (score.map (· - shift))).sum =
      arith.rowSum scores / arith.exp shift := by
  simp only [expBot_sub, div_eq_mul_inv]
  rw [sum_map_mul_right, rowSum]

variable [IsStrictOrderedRing R]

theorem rowSum_nonneg (scores : List (WithBot R)) : 0 ≤ arith.rowSum scores := by
  apply sum_nonneg
  intro value hvalue
  obtain ⟨score, -, rfl⟩ := mem_map.1 hvalue
  exact arith.expBot_nonneg score

variable {scores : List (WithBot R)}

theorem exp_le_rowSum {score : R} (hscore : (score : WithBot R) ∈ scores) :
    arith.exp score ≤ arith.rowSum scores := by
  apply single_le_sum
  · intro value hvalue
    obtain ⟨other, -, rfl⟩ := mem_map.1 hvalue
    exact arith.expBot_nonneg other
  · exact mem_map.2 ⟨score, hscore, rfl⟩

theorem one_le_sum_shifted {shift : R} (hshift : (shift : WithBot R) ∈ scores) :
    1 ≤ (scores.map fun score ↦ arith.expBot (score.map (· - shift))).sum := by
  rw [sum_shifted, one_le_div (arith.exp_pos shift)]
  exact arith.exp_le_rowSum hshift

end ExpArithmetic

end Nelssa.Foundation.LogSumExp
