import Mathlib.Data.Nat.Basic
import Mathlib.Data.List.Basic

/-!
# Tables of slots

A request keeps its positions in blocks of a fixed size: position `p` lies in slot `p % size` of the block
at index `p / size` of its table. Tables may share blocks, and a published block may be given to any
request. Some slots hold data that nobody may read. A view of the tables is clean if no such slot is among
the positions that count as written for a request, and none is in a published block.
-/

namespace Nelssa.Foundation.SlotViews

variable {ρ : Type*} {size : ℕ}

/-- The slots of a range of positions. -/
def slots (size : ℕ) (table : List ℕ) (start count : ℕ) : List (ℕ × ℕ) :=
  (List.range' start count).filterMap fun pos ↦
    (table[pos / size]?).map fun block ↦ (block, pos % size)

theorem mem_slots {table : List ℕ} {start count : ℕ} {slot : ℕ × ℕ} :
    slot ∈ slots size table start count ↔ ∃ pos, start ≤ pos ∧ pos < start + count ∧
      table[pos / size]? = some slot.1 ∧ pos % size = slot.2 := by
  simp only [slots, List.mem_filterMap, List.mem_range'_1, Option.map_eq_some_iff, and_assoc]
  constructor
  · rintro ⟨pos, hstart, hcount, block, hblock, rfl⟩
    exact ⟨pos, hstart, hcount, hblock, rfl⟩
  · rintro ⟨pos, hstart, hcount, hblock, hoff⟩
    exact ⟨pos, hstart, hcount, slot.1, hblock, by rw [hoff]⟩

/-- The tables of the requests, the number of positions that are written for each of them, the published
blocks and the slots that nobody may read. -/
structure View (ρ : Type*) where
  table : ρ → List ℕ
  written : ρ → ℕ
  published : ℕ → Prop
  invalid : ℕ × ℕ → Prop

namespace View

/-- The written positions of a request are fit to be read. -/
def Readable (size : ℕ) (view : View ρ) (id : ρ) : Prop :=
  ∀ pos block, pos < view.written id → (view.table id)[pos / size]? = some block →
    ¬ view.invalid (block, pos % size)

structure Clean (size : ℕ) (view : View ρ) : Prop where
  readable : ∀ id, view.Readable size id
  published : ∀ block offset, view.published block → offset < size → ¬ view.invalid (block, offset)

variable {view after : View ρ}

section

variable {id : ρ} (hreadable : view.Readable size id)
include hreadable

theorem Readable.of_le (hinval : ∀ slot, after.invalid slot → view.invalid slot)
    (htable : after.table id = view.table id) (hwritten : after.written id ≤ view.written id) :
    after.Readable size id := by
  intro pos block hpos hblock hslot
  rw [htable] at hblock
  exact hreadable pos block (lt_of_lt_of_le hpos hwritten) hblock (hinval _ hslot)

theorem Readable.block {index block offset : ℕ} (hblock : (view.table id)[index]? = some block)
    (hfull : (index + 1) * size ≤ view.written id) (hoff : offset < size) :
    ¬ view.invalid (block, offset) := by
  have hidx : (index * size + offset) / size = index := by
    rw [Nat.add_comm, Nat.add_mul_div_right _ _ (Nat.zero_lt_of_lt hoff), Nat.div_eq_of_lt hoff, Nat.zero_add]
  have hmod : (index * size + offset) % size = offset := by
    rw [Nat.add_comm, Nat.add_mul_mod_self_right, Nat.mod_eq_of_lt hoff]
  have hread := hreadable _ block ?_ (by rw [hidx]; exact hblock)
  · rwa [hmod] at hread
  · rw [Nat.add_mul] at hfull
    omega

end

/-- A change keeps a view clean if it adds no invalid slot, every request is readable afterwards, and only
blocks are published that were full before or are full afterwards. -/
theorem Clean.change (hclean : view.Clean size) (hinval : ∀ slot, after.invalid slot → view.invalid slot)
    (hreadable : ∀ id, after.Readable size id)
    (hpublished : ∀ block, after.published block → view.published block ∨
      (∃ id index, (view.table id)[index]? = some block ∧ (index + 1) * size ≤ view.written id) ∨
      ∃ id index, (after.table id)[index]? = some block ∧ (index + 1) * size ≤ after.written id) :
    after.Clean size := by
  refine ⟨hreadable, fun block offset hblock hoff ↦ ?_⟩
  rcases hpublished block hblock with hold | ⟨id, index, hidx, hfull⟩ | ⟨id, _, hidx, hfull⟩
  · exact fun hslot ↦ hclean.published block offset hold hoff (hinval _ hslot)
  · exact fun hslot ↦ (hclean.readable id).block hidx hfull hoff (hinval _ hslot)
  · exact (hreadable id).block hidx hfull hoff

end View

end Nelssa.Foundation.SlotViews
