import Mathlib.Logic.Basic

/-!
# Runs of a deterministic step function

A run executes a list of operations from left to right. `HoldsAlong` says that a state property
holds in the start state and in every state the run passes through, and `StepsMeet` that every
operation meets a condition on the state it is applied to. If a condition decides exactly whether
one step keeps the property, it decides it for whole runs.
-/

namespace Nelssa.Foundation.Runs

variable {State Op : Type*} {state : State} {ops : List Op}

/-- `good` holds in the start state and after every operation of the run. -/
def HoldsAlong (step : State → Op → State) (good : State → Prop) : State → List Op → Prop
  | state, [] => good state
  | state, op :: rest => good state ∧ HoldsAlong step good (step state op) rest

/-- Every operation of the run meets `ok` on the state before it. -/
def StepsMeet (step : State → Op → State) (ok : State → Op → Prop) : State → List Op → Prop
  | _, [] => True
  | state, op :: rest => ok state op ∧ StepsMeet step ok (step state op) rest

variable {step : State → Op → State} {good : State → Prop} {ok : State → Op → Prop}

instance decidableStepsMeet [∀ state op, Decidable (ok state op)] :
    (state : State) → (ops : List Op) → Decidable (StepsMeet step ok state ops)
  | _, [] => isTrue trivial
  | state, op :: rest =>
    have := decidableStepsMeet (step state op) rest
    inferInstanceAs (Decidable (ok state op ∧ StepsMeet step ok (step state op) rest))

theorem HoldsAlong.start (h : HoldsAlong step good state ops) : good state := by
  cases ops with
  | nil => exact h
  | cons op rest => exact h.1

theorem HoldsAlong.final (h : HoldsAlong step good state ops) : good (ops.foldl step state) := by
  induction ops generalizing state with
  | nil => exact h
  | cons op rest ih => exact ih h.2

/-- The exact rule: a per-step characterization of preservation lifts to runs. -/
theorem holdsAlong_iff_stepsMeet (hstep : ∀ state op, good state → (good (step state op) ↔ ok state op))
    (hstart : good state) (ops : List Op) :
    HoldsAlong step good state ops ↔ StepsMeet step ok state ops := by
  induction ops generalizing state with
  | nil => exact iff_of_true hstart trivial
  | cons op rest ih =>
    constructor
    · rintro ⟨-, hrest⟩
      exact ⟨(hstep state op hstart).1 hrest.start, (ih hrest.start).1 hrest⟩
    · rintro ⟨hop, hrest⟩
      have hnext := (hstep state op hstart).2 hop
      exact ⟨hstart, (ih hnext).2 hrest⟩

/-- The exact rule under an invariant: if a condition on the operation decides whether a permitted step keeps
the invariant or breaks the property, it decides it for whole runs. -/
theorem holdsAlong_iff_forall_mem {met : Op → Prop} {inv : State → Prop}
    (hkeep : ∀ state op, inv state → ok state op → met op → inv (step state op))
    (hbreak : ∀ state op, inv state → good (step state op) → met op)
    (hgood : ∀ state, inv state → good state) (hstart : inv state) (hops : StepsMeet step ok state ops) :
    HoldsAlong step good state ops ↔ ∀ op ∈ ops, met op := by
  induction ops generalizing state with
  | nil => exact iff_of_true (hgood state hstart) nofun
  | cons op rest ih =>
    rw [List.forall_mem_cons]
    constructor
    · rintro ⟨-, hrest⟩
      have hop := hbreak state op hstart hrest.start
      exact ⟨hop, (ih (hkeep state op hstart hops.1 hop) hops.2).1 hrest⟩
    · rintro ⟨hop, hrest⟩
      exact ⟨hgood state hstart, (ih (hkeep state op hstart hops.1 hop) hops.2).2 hrest⟩

variable {inv : State → Prop} (hstep : ∀ state op, inv state → ok state op → inv (step state op))
include hstep

/-- The invariant rule: what one permitted step keeps and implies holds along permitted runs. -/
theorem holdsAlong_of_stepsMeet (hgood : ∀ state, inv state → good state) (hstart : inv state)
    (hops : StepsMeet step ok state ops) : HoldsAlong step good state ops := by
  induction ops generalizing state with
  | nil => exact hgood state hstart
  | cons op rest ih => exact ⟨hgood state hstart, ih (hstep state op hstart hops.1) hops.2⟩

/-- The invariant rule for steps: what every permitted step meets from an invariant that permitted steps
keep, all steps of a permitted run meet. -/
theorem stepsMeet_of_stepsMeet {met : State → Op → Prop}
    (hmet : ∀ state op, inv state → ok state op → met state op) (hstart : inv state)
    (hops : StepsMeet step ok state ops) : StepsMeet step met state ops := by
  induction ops generalizing state with
  | nil => trivial
  | cons op rest ih => exact ⟨hmet state op hstart hops.1, ih (hstep state op hstart hops.1) hops.2⟩

end Nelssa.Foundation.Runs
