import Nelssa.Foundation.Runs
import Nelssa.Worker.BlockTable

/-!
# Compaction state of recycled rows

The input batch recycles, moves and swaps rows of the block table. `Occupancy` tracks, next to the
table, which rows are occupied and whether the occupying request has been compacted; it is the
specification of what the per-row arrays should say. `Consistent` compares the two after every call.
The row operations that carry block ids leave the compaction arrays where they are, so the
comparison survives exactly the runs described by `CarriesState`.
-/

namespace Nelssa.Worker.RowState

open Foundation.Runs Function BlockTable

/-- The retained layout of a compacted request. -/
structure Layout where
  headBlocks : ℕ
  tailBlocks : ℕ
  tailStartPos : ℤ
  deriving DecidableEq

inductive Occupant where
  | vacant
  | fresh
  | compacted (layout : Layout)
  deriving DecidableEq

abbrev Occupancy := ℕ → Occupant

/-- The calls that the input batch and the model runner make on a block table. -/
inductive Op where
  | addRow (blockIds : List ℕ) (row : ℕ)
  | appendRow (blockIds : List ℕ) (row : ℕ)
  | clearRow (row : ℕ)
  | moveRow (src tgt : ℕ)
  | swapRow (src tgt : ℕ)
  | clearMiddleBlocks (row headBlocks tailBlocks : ℕ) (tailStartPos : ℤ)

def applyOp (table : BlockTable) : Op → BlockTable
  | .addRow blockIds row => table.addRow blockIds row
  | .appendRow blockIds row => table.appendRow blockIds row
  | .clearRow row => table.clearRow row
  | .moveRow src tgt => table.moveRow src tgt
  | .swapRow src tgt => table.swapRow src tgt
  | .clearMiddleBlocks row headBlocks tailBlocks tailStartPos =>
      table.clearMiddleBlocks row headBlocks tailBlocks tailStartPos

/-- The calls on which `clear_middle_blocks` compacts the row rather than returning early or
failing on the slice shapes. -/
def Compacts (table : BlockTable) (row tailBlocks : ℕ) : Prop :=
  table.numBlocksPerRow row ≠ 0 ∧
    (table.nelssaCompacted row = true ∨ tailBlocks ≤ table.numBlocksPerRow row)

instance (table : BlockTable) (row tailBlocks : ℕ) : Decidable (Compacts table row tailBlocks) :=
  inferInstanceAs (Decidable (_ ∧ _))

/-- What each call does to the requests behind the rows. A moved request leaves its old row. -/
def trackOp (table : BlockTable) (occupancy : Occupancy) : Op → Occupancy
  | .addRow _ row => update occupancy row .fresh
  | .appendRow _ _ => occupancy
  | .clearRow row => update occupancy row .vacant
  | .moveRow src tgt => update (update occupancy src .vacant) tgt (occupancy src)
  | .swapRow src tgt => fun row ↦ occupancy (Equiv.swap src tgt row)
  | .clearMiddleBlocks row headBlocks tailBlocks tailStartPos =>
      if occupancy row ≠ .vacant ∧ Compacts table row tailBlocks then
        update occupancy row (.compacted
          ⟨headBlocks, tailBlocks, table.resolveTailStart row tailBlocks tailStartPos⟩)
      else occupancy

/-- The stored arrays of `row` describe a request in the given situation. The counts of a row that
is not flagged are never read. -/
def Describes (table : BlockTable) (row : ℕ) : Occupant → Prop
  | .vacant => True
  | .fresh => table.nelssaCompacted row = false
  | .compacted layout => table.nelssaCompacted row = true ∧
      table.nelssaHeadBlocks row = layout.headBlocks ∧
      table.nelssaTailBlocks row = layout.tailBlocks ∧
      table.nelssaTailStartPos row = layout.tailStartPos

abbrev State := BlockTable × Occupancy

def step (state : State) (op : Op) : State := (applyOp state.1 op, trackOp state.1 state.2 op)

def Consistent (state : State) : Prop := ∀ row, Describes state.1 row (state.2 row)

/-- The arrays store the same compaction state for both rows. -/
def SameStored (table : BlockTable) (first second : ℕ) : Prop :=
  table.nelssaCompacted first = table.nelssaCompacted second ∧
    (table.nelssaCompacted first = true →
      table.nelssaHeadBlocks first = table.nelssaHeadBlocks second ∧
      table.nelssaTailBlocks first = table.nelssaTailBlocks second ∧
      table.nelssaTailStartPos first = table.nelssaTailStartPos second)

/-- The condition on the state before a call: a row is refilled only while its flag is clear, and
requests are moved or swapped only between rows that store the same compaction state. -/
def CarriesState (state : State) : Op → Prop
  | .addRow _ row => state.1.nelssaCompacted row = false
  | .moveRow src tgt => state.2 src = .vacant ∨ SameStored state.1 src tgt
  | .swapRow src tgt =>
      (state.2 src = .vacant ∧ state.2 tgt = .vacant) ∨ SameStored state.1 src tgt
  | .appendRow _ _ => True
  | .clearRow _ => True
  | .clearMiddleBlocks _ _ _ _ => True

/-! ## The compaction arrays under the row operations -/

theorem describes_congr {table other : BlockTable} {row : ℕ}
    (hflag : table.nelssaCompacted row = other.nelssaCompacted row)
    (hhead : table.nelssaHeadBlocks row = other.nelssaHeadBlocks row)
    (htail : table.nelssaTailBlocks row = other.nelssaTailBlocks row)
    (hstart : table.nelssaTailStartPos row = other.nelssaTailStartPos row) (occupant : Occupant) :
    Describes table row occupant ↔ Describes other row occupant := by
  cases occupant <;> simp only [Describes, hflag, hhead, htail, hstart]

section

variable (table : BlockTable)
include table

section

variable (blockIds : List ℕ) (row target : ℕ) (occupant : Occupant)

theorem describes_appendRow :
    Describes (table.appendRow blockIds target) row occupant ↔ Describes table row occupant := by
  unfold appendRow
  split
  · rfl
  · exact describes_congr rfl rfl rfl rfl occupant

theorem describes_addRow :
    Describes (table.addRow blockIds target) row occupant ↔ Describes table row occupant := by
  unfold addRow
  rw [describes_appendRow]
  exact describes_congr rfl rfl rfl rfl occupant

end

theorem describes_clearMiddleBlocks (row target headBlocks tailBlocks : ℕ)
    (tailStartPos : ℤ) (occupant : Occupant) :
    Describes (table.clearMiddleBlocks target headBlocks tailBlocks tailStartPos) row occupant ↔
      if Compacts table target tailBlocks then
        Describes (table.setLayout target headBlocks tailBlocks
          (table.resolveTailStart target tailBlocks tailStartPos)) row occupant
      else Describes table row occupant := by
  unfold clearMiddleBlocks
  by_cases hempty : table.numBlocksPerRow target = 0
  · simp [hempty, Compacts]
  · by_cases hflag : table.nelssaCompacted target = true
    · simp [hempty, hflag, Compacts]
    · by_cases hshape : table.numBlocksPerRow target < tailBlocks
      · simp [hempty, hflag, hshape, Compacts, not_le.2]
      · simp only [hempty, hflag, hshape, Compacts, if_false, not_lt.1, or_true, and_true,
          not_false_eq_true, ne_eq, if_true, Bool.false_eq_true]
        exact describes_congr rfl rfl rfl rfl occupant

theorem describes_setLayout_self (row headBlocks tailBlocks : ℕ) (start : ℤ) (occupant : Occupant) :
    Describes (table.setLayout row headBlocks tailBlocks start) row occupant ↔
      occupant = .vacant ∨ occupant = .compacted ⟨headBlocks, tailBlocks, start⟩ := by
  cases occupant with
  | vacant => simp [Describes]
  | fresh => simp [Describes, setLayout]
  | compacted layout =>
    rcases layout with ⟨_, _, _⟩
    simp [Describes, setLayout, eq_comm]

theorem describes_setLayout_ne {row target : ℕ} (hne : row ≠ target)
    (headBlocks tailBlocks : ℕ) (start : ℤ) (occupant : Occupant) :
    Describes (table.setLayout target headBlocks tailBlocks start) row occupant ↔
      Describes table row occupant := by
  apply describes_congr <;> simp [setLayout, hne]

end

/-- A row whose arrays describe an occupant also describes it elsewhere exactly when the arrays of
both rows agree. -/
theorem describes_iff_sameStored {table : BlockTable} {src tgt : ℕ} {occupant : Occupant}
    (hsrc : Describes table src occupant) (hoccupied : occupant ≠ .vacant) :
    Describes table tgt occupant ↔ SameStored table src tgt := by
  cases occupant with
  | vacant => exact absurd rfl hoccupied
  | fresh =>
    have hflag : table.nelssaCompacted src = false := hsrc
    simp only [Describes, SameStored, hflag, Bool.false_eq_true, false_imp_iff, and_true]
    exact eq_comm
  | compacted layout =>
    obtain ⟨hflag, hhead, htail, hstart⟩ := hsrc
    simp only [Describes, SameStored, hflag, hhead, htail, hstart, true_imp_iff]
    constructor <;>
    · rintro ⟨h₁, h₂, h₃, h₄⟩
      exact ⟨h₁.symm, h₂.symm, h₃.symm, h₄.symm⟩

theorem sameStored_comm (table : BlockTable) (first second : ℕ) :
    SameStored table first second ↔ SameStored table second first := by
  constructor <;>
  · rintro ⟨hflag, hcounts⟩
    refine ⟨hflag.symm, fun h ↦ ?_⟩
    obtain ⟨hhead, htail, hstart⟩ := hcounts (hflag.trans h)
    exact ⟨hhead.symm, htail.symm, hstart.symm⟩

/-! ## One call -/

section

variable {state : State} (hstate : Consistent state)
include hstate

theorem consistent_addRow_iff (blockIds : List ℕ) (row : ℕ) :
    Consistent (step state (.addRow blockIds row)) ↔ state.1.nelssaCompacted row = false := by
  constructor
  · intro h
    have hrow := h row
    simp only [step, applyOp, trackOp, update_self, describes_addRow] at hrow
    exact hrow
  · intro h other
    simp only [step, applyOp, trackOp, describes_addRow]
    by_cases hother : other = row
    · subst other
      rw [update_self]
      exact h
    · rw [update_of_ne hother]
      exact hstate other

theorem consistent_moveRow_iff (src tgt : ℕ) :
    Consistent (step state (.moveRow src tgt)) ↔ state.2 src = .vacant ∨ SameStored state.1 src tgt := by
  have harrays (row : ℕ) (occupant : Occupant) :
      Describes (state.1.moveRow src tgt) row occupant ↔ Describes state.1 row occupant :=
    describes_congr rfl rfl rfl rfl occupant
  -- Only the target row gets a new occupant that the arrays could contradict.
  have htarget : Consistent (step state (.moveRow src tgt)) ↔ Describes state.1 tgt (state.2 src) := by
    constructor
    · intro h
      have hrow := h tgt
      simp only [step, applyOp, trackOp, update_self, harrays] at hrow
      exact hrow
    · intro h other
      simp only [step, applyOp, trackOp, harrays]
      by_cases hother : other = tgt
      · subst other
        rw [update_self]
        exact h
      · rw [update_of_ne hother]
        by_cases hsrc : other = src
        · subst other
          rw [update_self]
          trivial
        · rw [update_of_ne hsrc]
          exact hstate other
  rw [htarget]
  by_cases hvacant : state.2 src = .vacant
  · simp [hvacant, Describes]
  · rw [describes_iff_sameStored (hstate src) hvacant]
    simp [hvacant]

theorem consistent_swapRow_iff (src tgt : ℕ) :
    Consistent (step state (.swapRow src tgt)) ↔
      (state.2 src = .vacant ∧ state.2 tgt = .vacant) ∨ SameStored state.1 src tgt := by
  have harrays (row : ℕ) (occupant : Occupant) :
      Describes (state.1.swapRow src tgt) row occupant ↔ Describes state.1 row occupant :=
    describes_congr rfl rfl rfl rfl occupant
  have hrows : Consistent (step state (.swapRow src tgt)) ↔
      Describes state.1 src (state.2 tgt) ∧ Describes state.1 tgt (state.2 src) := by
    constructor
    · intro h
      have hsrc := h src
      have htgt := h tgt
      simp only [step, applyOp, trackOp, harrays, Equiv.swap_apply_left, Equiv.swap_apply_right] at hsrc htgt
      exact ⟨hsrc, htgt⟩
    · rintro ⟨hsrc, htgt⟩ other
      simp only [step, applyOp, trackOp, harrays]
      by_cases hother : other = src
      · subst other
        rwa [Equiv.swap_apply_left]
      · by_cases hother' : other = tgt
        · subst other
          rwa [Equiv.swap_apply_right]
        · rw [Equiv.swap_apply_of_ne_of_ne hother hother']
          exact hstate other
  rw [hrows]
  by_cases hsrc : state.2 src = .vacant <;> by_cases htgt : state.2 tgt = .vacant
  · simp [hsrc, htgt, Describes]
  · rw [describes_iff_sameStored (hstate tgt) htgt, sameStored_comm]
    simp [hsrc, htgt, Describes]
  · rw [describes_iff_sameStored (hstate src) hsrc]
    simp [hsrc, htgt, Describes]
  · rw [describes_iff_sameStored (hstate src) hsrc, describes_iff_sameStored (hstate tgt) htgt,
      sameStored_comm]
    simp [hsrc, htgt]

theorem consistent_clearMiddleBlocks (row headBlocks tailBlocks : ℕ) (tailStartPos : ℤ) :
    Consistent (step state (.clearMiddleBlocks row headBlocks tailBlocks tailStartPos)) := by
  intro other
  simp only [step, applyOp, trackOp, describes_clearMiddleBlocks]
  by_cases hcompacts : Compacts state.1 row tailBlocks
  · by_cases hother : other = row
    · subst other
      by_cases hvacant : state.2 row = .vacant
      · simp [hcompacts, hvacant, Describes]
      · simp [hcompacts, hvacant, describes_setLayout_self]
    · simp only [hcompacts, if_true, describes_setLayout_ne _ hother]
      by_cases hvacant : state.2 row = .vacant <;> simp [hvacant, hother, hstate other]
  · simp [hcompacts, hstate other]

end

theorem consistent_step_iff (state : State) (op : Op) (hstate : Consistent state) :
    Consistent (step state op) ↔ CarriesState state op := by
  cases op with
  | addRow blockIds row => exact consistent_addRow_iff hstate blockIds row
  | appendRow blockIds row =>
    refine iff_of_true (fun other ↦ ?_) trivial
    exact (describes_appendRow state.1 blockIds other row _).2 (hstate other)
  | clearRow row =>
    refine iff_of_true (fun other ↦ ?_) trivial
    have harrays (occupant : Occupant) :
        Describes (state.1.clearRow row) other occupant ↔ Describes state.1 other occupant :=
      describes_congr rfl rfl rfl rfl occupant
    simp only [step, applyOp, trackOp, harrays]
    by_cases hother : other = row
    · subst other
      rw [update_self]
      trivial
    · rw [update_of_ne hother]
      exact hstate other
  | moveRow src tgt => exact consistent_moveRow_iff hstate src tgt
  | swapRow src tgt => exact consistent_swapRow_iff hstate src tgt
  | clearMiddleBlocks row headBlocks tailBlocks tailStartPos =>
    exact iff_of_true (consistent_clearMiddleBlocks hstate row headBlocks tailBlocks tailStartPos)
      trivial

/-! ## Whole runs -/

/-- A freshly built table with no occupied row. -/
def start (table : BlockTable) : State := (table, fun _ ↦ .vacant)

/-- Along a run from a new table the stored compaction state belongs to the occupying requests in
every state exactly when every call meets `CarriesState`. -/
theorem consistent_along_iff_carriesState (table : BlockTable) (ops : List Op) :
    HoldsAlong step Consistent (start table) ops ↔ StepsMeet step CarriesState (start table) ops := by
  have hstart : Consistent (start table) := fun _ ↦ trivial
  exact holdsAlong_iff_stepsMeet consistent_step_iff hstart ops

/-- A compacted request leaves row 0 and a new request is put there: the flag of the first one is
still set, so the new request is treated as compacted. -/
def recycledRow : List Op :=
  [.addRow [1, 2, 3, 4] 0, .clearMiddleBlocks 0 1 1 48, .clearRow 0, .addRow [5, 6] 0]

theorem recycledRow_inconsistent :
    ∃ table, init 16 16 1 0 1 0 1 = some table ∧ ¬ HoldsAlong step Consistent (start table) recycledRow := by
  refine ⟨_, rfl, fun h ↦ ?_⟩
  have hlast := h.final
  have hrow : _ = false := hlast 0
  exact absurd hrow (by decide)

end Nelssa.Worker.RowState
