import Mathlib.Data.Nat.Notation
import Mathlib.Logic.Relation

/-!
# Loops with exceptions

A loop repeats a step until the step says that it has ended or raises. `Reaches` relates the states
that a loop passes through; an invariant of the step holds in all of them. A measure that every step
lowers gives a number of rounds after which the loop has ended.
-/

namespace Nelssa.Foundation.Loops

variable {σ ε α : Type*}

theorem exists_ok_of_test {ε : Type*} {result : Except ε α} {p : α → Prop} [DecidablePred p]
    (htest : result.toOption.any (fun value ↦ decide (p value)) = true) :
    ∃ value, result = .ok value ∧ p value := by
  cases result with
  | error exn => cases htest
  | ok value => exact ⟨value, rfl, of_decide_eq_true htest⟩

theorem map_eq_ok_iff {β : Type*} {f : α → β} {result : Except ε α} {value : β} :
    result.map f = .ok value ↔ ∃ item, result = .ok item ∧ f item = value := by
  cases result <;> simp [Except.map]

theorem foldlM_cons_eq_ok_iff {step : σ → α → Except ε σ} {item : α} {rest : List α} {state final : σ} :
    (item :: rest).foldlM step state = .ok final ↔
      ∃ next, step state item = .ok next ∧ rest.foldlM step next = .ok final := by
  rw [List.foldlM_cons]
  cases step state item <;> simp [bind, Except.bind]

/-- Repeat `step` for at most the given number of rounds; `none` ends the loop. -/
def loop (step : σ → Except ε (Option σ)) : ℕ → σ → Except ε σ
  | 0, state => .ok state
  | rounds + 1, state => match step state with
    | .error exn => .error exn
    | .ok none => .ok state
    | .ok (some next) => loop step rounds next

/-- The states that a loop passes through. -/
def Reaches (step : σ → Except ε (Option σ)) : σ → σ → Prop :=
  Relation.ReflTransGen fun state next ↦ step state = .ok (some next)

variable {step : σ → Except ε (Option σ)} {state final : σ} {rounds : ℕ}

/-- The invariant rule: what holds at the start and is kept by every step of the loop. -/
theorem Reaches.invariant {inv : σ → Prop} (hreaches : Reaches step state final) (hstart : inv state)
    (hstep : ∀ current next, Reaches step state current → inv current →
      step current = .ok (some next) → inv next) : inv final := by
  induction hreaches with
  | refl => exact hstart
  | tail hcur hnext ih => exact hstep _ _ hcur ih hnext

theorem reaches_of_loop (hloop : loop step rounds state = .ok final) : Reaches step state final := by
  induction rounds generalizing state with
  | zero =>
    cases hloop
    exact .refl
  | succ rounds ih =>
    unfold loop at hloop
    split at hloop
    · cases hloop
    · cases hloop
      exact .refl
    · next hnext => exact (ih hloop).head hnext

/-- With more rounds than the measure of its start a loop runs to its end. -/
theorem ended_of_loop (measure : σ → ℕ)
    (hmeasure : ∀ current next, step current = .ok (some next) → measure next < measure current)
    (hrounds : measure state < rounds) (hloop : loop step rounds state = .ok final) :
    step final = .ok none := by
  induction rounds generalizing state with
  | zero => omega
  | succ rounds ih =>
    unfold loop at hloop
    split at hloop
    · cases hloop
    · next hended =>
      cases hloop
      exact hended
    · next next hnext =>
      have hless := hmeasure state next hnext
      exact ih (by omega) hloop

end Nelssa.Foundation.Loops
