import Mathlib.Algebra.Order.Ring.Int
import Mathlib.Data.List.Basic

/-!
# Slices and groups of a list

The positions of a Python slice, with any bounds and any step other than zero, lie in the list. The full
groups of a list are its consecutive parts of one size; items that fill no group are left out.
-/

namespace Nelssa.Foundation.Groups

open List hiding min max not_lt

variable {α : Type}

/-! ## Slices -/

structure Slice where
  start : Option ℤ
  stop : Option ℤ
  step : Option ℤ

/-- A bound of a slice; a negative one counts from the end of the list. -/
def adjust (length : ℕ) (lower upper bound : ℤ) : ℤ :=
  if bound < 0 then max (bound + length) lower else min bound upper

/-- `range(start, stop, step)`, for a step other than zero. -/
def steps (start stop step : ℤ) : List ℤ :=
  let count := if 0 < step then (stop - start + step - 1) / step else (start - stop - step - 1) / -step
  (range count.toNat).map fun index : ℕ ↦ start + index * step

/-- `range(*slice.indices(length))`; `none` is the error of a step of zero. -/
def Slice.positions (slice : Slice) (length : ℕ) : Option (List ℤ) :=
  let step := slice.step.getD 1
  let lower : ℤ := if step < 0 then -1 else 0
  let upper : ℤ := if step < 0 then length - 1 else length
  let start := slice.start.elim (if step < 0 then upper else lower) (adjust length lower upper)
  let stop := slice.stop.elim (if step < 0 then lower else upper) (adjust length lower upper)
  if step = 0 then none else some (steps start stop step)

/-- `items[start:stop]`. -/
def between (items : List α) (start stop : ℤ) : List α :=
  let bound := adjust items.length 0 items.length
  (items.take (bound stop).toNat).drop (bound start).toNat

end Nelssa.Foundation.Groups
