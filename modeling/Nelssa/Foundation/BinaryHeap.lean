import Mathlib.Data.List.Perm.Basic

/-!
# Binary heaps in an array

The binary heap of Python's standard library: the children of position `pos` are the positions
`2 * pos + 1` and `2 * pos + 2`. Every operation rearranges the items and loses none.
-/

namespace Nelssa.Foundation.BinaryHeap

open List Array

variable {α : Type*} (lt : α → α → Bool)

/-- Move the item at `pos` in front of its ancestors down to `start` that are not smaller. Each round
halves the position, so a fuel of the position is enough. -/
def siftDown (start : ℕ) : ℕ → ℕ → Array α → Array α
  | 0, _, heap => heap
  | fuel + 1, pos, heap =>
    if start < pos then
      let parent := (pos - 1) / 2
      match heap[pos]?, heap[parent]? with
      | some item, some above =>
        if lt item above then siftDown start fuel parent (heap.swapIfInBounds pos parent) else heap
      | _, _ => heap
    else heap

/-- Exchange the item at `pos` with its smaller child until it is at a leaf. -/
def sinkToLeaf : ℕ → ℕ → Array α → ℕ × Array α
  | 0, pos, heap => (pos, heap)
  | fuel + 1, pos, heap =>
    let left := 2 * pos + 1
    if left < heap.size then
      let child := match heap[left]?, heap[left + 1]? with
        | some first, some second => if lt first second then left else left + 1
        | _, _ => left
      sinkToLeaf fuel child (heap.swapIfInBounds pos child)
    else (pos, heap)

def siftUp (pos : ℕ) (heap : Array α) : Array α :=
  let sunk := sinkToLeaf lt heap.size pos heap
  siftDown lt pos heap.size sunk.1 sunk.2

def push (heap : Array α) (item : α) : Array α :=
  siftDown lt 0 heap.size heap.size (heap.push item)

/-- The first item and the heap without it. -/
def pop (heap : Array α) : Option (α × Array α) :=
  match heap.back? with
  | none => none
  | some last => match heap.pop[0]? with
    | none => some (last, heap.pop)
    | some first => some (first, siftUp lt 0 (heap.pop.setIfInBounds 0 last))

/-- Make a heap of any array, from the last position that has a child down to the first. -/
def heapify (items : Array α) : Array α :=
  (List.range (items.size / 2)).reverse.foldl (fun heap pos ↦ siftUp lt pos heap) items

/-- The items in the order in which they are popped. -/
def popAll : ℕ → Array α → List α
  | 0, _ => []
  | fuel + 1, heap => match pop lt heap with
    | none => []
    | some (item, rest) => item :: popAll fuel rest

/-! ## Nothing is lost -/

theorem swapIfInBounds_perm (heap : Array α) (first second : ℕ) :
    (heap.swapIfInBounds first second).toList.Perm heap.toList := by
  unfold swapIfInBounds
  split
  · split
    · exact (Array.swap_perm _ _).toList
    · exact .refl _
  · exact .refl _

theorem siftDown_perm (start fuel pos : ℕ) (heap : Array α) :
    (siftDown lt start fuel pos heap).toList.Perm heap.toList := by
  induction fuel generalizing pos heap with
  | zero => exact .refl _
  | succ fuel ih =>
    unfold siftDown
    split
    · dsimp only
      split
      · split
        · exact (ih _ _).trans (swapIfInBounds_perm _ _ _)
        · exact .refl _
      · exact .refl _
    · exact .refl _

theorem sinkToLeaf_perm (fuel pos : ℕ) (heap : Array α) :
    (sinkToLeaf lt fuel pos heap).2.toList.Perm heap.toList := by
  induction fuel generalizing pos heap with
  | zero => exact .refl _
  | succ fuel ih =>
    unfold sinkToLeaf
    dsimp only
    split
    · exact (ih _ _).trans (swapIfInBounds_perm _ _ _)
    · exact .refl _

theorem siftUp_perm (pos : ℕ) (heap : Array α) : (siftUp lt pos heap).toList.Perm heap.toList :=
  (siftDown_perm lt _ _ _ _).trans (sinkToLeaf_perm lt _ _ _)

theorem heapify_perm (items : Array α) : (heapify lt items).toList.Perm items.toList := by
  have hfold (positions : List ℕ) (heap : Array α) :
      (positions.foldl (fun heap pos ↦ siftUp lt pos heap) heap).toList.Perm heap.toList := by
    induction positions generalizing heap with
    | nil => exact .refl _
    | cons pos rest ih => exact (ih _).trans (siftUp_perm lt pos heap)
  exact hfold _ _

theorem push_perm (heap : Array α) (item : α) : (push lt heap item).toList.Perm (item :: heap.toList) := by
  refine (siftDown_perm lt _ _ _ _).trans ?_
  rw [toList_push]
  exact perm_append_singleton item _

variable {heap : Array α}

section

variable {rest : Array α} {item : α} (hpop : pop lt heap = some (item, rest))
include hpop

theorem pop_perm : heap.toList.Perm (item :: rest.toList) := by
  unfold pop at hpop
  split at hpop
  · cases hpop
  · next last hlast =>
    have hlist : heap.toList = heap.pop.toList ++ [last] := by
      rw [← getLast?_toList] at hlast
      exact (dropLast_append_getLast? last hlast).symm
    rw [hlist]
    split at hpop
    · cases hpop
      exact perm_append_singleton _ _
    · next first hfirst =>
      obtain ⟨rfl, rfl⟩ := Prod.mk.inj (Option.some.inj hpop)
      obtain ⟨tail, htail⟩ : ∃ tail, heap.pop.toList = first :: tail := by
        rw [← getElem?_toList] at hfirst
        cases hitems : heap.pop.toList with
        | nil =>
          rw [hitems] at hfirst
          cases hfirst
        | cons head tail =>
          rw [hitems] at hfirst
          exact ⟨tail, by rw [Option.some.inj hfirst]⟩
      refine .trans ?_ ((siftUp_perm lt 0 _).cons first).symm
      rw [toList_setIfInBounds, htail]
      exact (perm_append_singleton last tail).cons first

theorem head_of_pop : heap.toList.head? = some item := by
  unfold pop at hpop
  split at hpop
  · cases hpop
  · next last hlast =>
    obtain ⟨items, rfl⟩ : ∃ items : Array α, heap = items.push last := back?_eq_some_iff.1 hlast
    rw [pop_push] at hpop
    rw [toList_push]
    split at hpop
    · next hempty =>
      obtain ⟨rfl, -⟩ := Prod.mk.inj (Option.some.inj hpop)
      have hnil : items.toList = [] := by
        rw [Array.getElem?_eq_none_iff] at hempty
        exact eq_nil_of_length_eq_zero (Nat.le_zero.1 hempty)
      rw [hnil]
      rfl
    · next first hfirst =>
      cases hpop
      rw [head?_append, head?_eq_getElem?, getElem?_toList, hfirst]
      rfl

end

theorem pop_eq_none_iff : pop lt heap = none ↔ heap.toList = [] := by
  unfold pop
  split
  · next hlast => simpa using hlast
  · next last hlast =>
    have hne : heap.toList ≠ [] := by
      intro hempty
      rw [← getLast?_toList, hempty] at hlast
      cases hlast
    split <;> exact iff_of_false (by simp) hne

theorem popAll_perm {fuel : ℕ} (hfuel : heap.size ≤ fuel) : (popAll lt fuel heap).Perm heap.toList := by
  induction fuel generalizing heap with
  | zero =>
    have hempty : heap.toList = [] := by simpa using hfuel
    rw [hempty]
    exact .refl _
  | succ fuel ih =>
    unfold popAll
    split
    · next hnone => rw [(pop_eq_none_iff lt).1 hnone]
    · next item rest hpop =>
      have hperm := pop_perm lt hpop
      have hsize : rest.size ≤ fuel := by
        have hlen := hperm.length_eq
        simp only [length_cons, length_toList] at hlen
        omega
      exact ((ih hsize).cons item).trans hperm.symm

end Nelssa.Foundation.BinaryHeap
