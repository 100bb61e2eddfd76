import Nelssa.Foundation.LinkedQueue

/-!
# The free-block queue

`FreeKVCacheBlockQueue` links the free blocks of a pool through their own pointers. The operations are
translated pointer by pointer; `Represents` relates a queue to the list of its free blocks, and every
operation has one specification in terms of that list.
-/

namespace Nelssa.Core

open Foundation.LinkedQueue Function List Node

/-- The Python exceptions that the cache code raises. -/
inductive Exn where
  | valueError (message : String)
  | runtimeError (message : String)
  | assertionError (message : String)
  | indexError
  | notImplementedError (message : String)
  | overflowError
  | typeError (message : String)
  deriving DecidableEq, Repr

/-- The queue over block ids; `links` holds the `prev_free_block` and `next_free_block` pointers of the
blocks and of the two fake blocks. -/
structure FreeKVCacheBlockQueue where
  numFreeBlocks : ℕ
  links : Links ℕ

namespace FreeKVCacheBlockQueue

/-- One iteration of the constructor's loop over the consecutive blocks. -/
def connectBlock (numBlocks : ℕ) (links : Links ℕ) (block : ℕ) : Links ℕ where
  prev := if 0 < block then update links.prev (.cell block) (some (.cell (block - 1)))
    else links.prev
  next := if block < numBlocks - 1 then
      update links.next (.cell block) (some (.cell (block + 1)))
    else links.next

/-- The constructor on the blocks `0, …, numBlocks - 1` of a pool. -/
def init (numBlocks : ℕ) : FreeKVCacheBlockQueue :=
  let consecutive := (List.range numBlocks).foldl (connectBlock numBlocks)
    ⟨fun _ ↦ none, fun _ ↦ none⟩
  { numFreeBlocks := numBlocks
    links :=
      if 0 < numBlocks then
        (consecutive.link .front (.cell 0)).link (.cell (numBlocks - 1)) .back
      else consecutive.link .front .back }

/-- Pop the first free block. The fake blocks are not among the ids, so finding one in place of a
block is an error here. -/
def popleft (queue : FreeKVCacheBlockQueue) : Except Exn (ℕ × FreeKVCacheBlockQueue) :=
  match queue.links.next .front with
  | some (.cell first) =>
    match queue.links.next (.cell first) with
    | none => .error (.runtimeError
        "Invalid block found in popleft() which doesn't have a valid next_free_block")
    | some second => .ok (first,
        { numFreeBlocks := queue.numFreeBlocks - 1
          links := (queue.links.link .front second).detach first })
  | _ =>
    let count := queue.numFreeBlocks
    if count = 0 then .error (.valueError "No free blocks available")
    else .error (.assertionError s!"num_free_blocks ({count}) is out of sync with the free list.")

/-- Pop the first free blocks. A negative number of blocks pops none and raises the count. -/
def popleftN (queue : FreeKVCacheBlockQueue) (n : ℤ) : Except Exn (List ℕ × FreeKVCacheBlockQueue) :=
  if n = 0 then .ok ([], queue)
  else if queue.numFreeBlocks < n then .error (.assertionError "")
  else
    match queue.links.detachItems (queue.links.next .front) n.toNat with
    | none => .error (.assertionError "")
    | some (links, current, popped) => .ok (popped,
        { numFreeBlocks := (queue.numFreeBlocks - n).toNat
          links := current.elim links (links.link .front) })

def remove (queue : FreeKVCacheBlockQueue) (block : ℕ) : Except Exn FreeKVCacheBlockQueue :=
  match queue.links.prev (.cell block), queue.links.next (.cell block) with
  | some left, some right => .ok
      { numFreeBlocks := queue.numFreeBlocks - 1
        links := (queue.links.link left right).detach block }
  | _, _ => .error (.runtimeError s!"remove() called on an invalid block: {block}")

def appendN (queue : FreeKVCacheBlockQueue) (blocks : List ℕ) : Except Exn FreeKVCacheBlockQueue :=
  if blocks.length = 0 then .ok queue
  else
    match queue.links.prev .back with
    | none => .error (.assertionError "prev_free_block of fake_free_list_tail should always exist")
    | some last =>
      let linked := queue.links.linkItems last blocks
      .ok { numFreeBlocks := queue.numFreeBlocks + blocks.length
            links := linked.1.link linked.2 .back }

/-- The queue holds exactly these free blocks, in this order. -/
structure Represents (queue : FreeKVCacheBlockQueue) (free : List ℕ) : Prop where
  isQueue : IsQueue queue.links free
  count : queue.numFreeBlocks = free.length

/-! ## Construction -/

theorem foldl_connectBlock (numBlocks count : ℕ) :
    let links := (List.range count).foldl (connectBlock numBlocks) ⟨fun _ ↦ none, fun _ ↦ none⟩
    (∀ block, links.next (.cell block) =
        (if block < count ∧ block < numBlocks - 1 then some (.cell (block + 1)) else none) ∧
      links.prev (.cell block) =
        if block < count ∧ 0 < block then some (.cell (block - 1)) else none) ∧
      links.next .back = none ∧ links.prev .front = none := by
  induction count with
  | zero => simp
  | succ count ih =>
    obtain ⟨hcells, hback, hfront⟩ := ih
    rw [range_succ, foldl_append, foldl_cons, foldl_nil]
    refine ⟨fun block ↦ ?_, ?_, ?_⟩
    · have hold := hcells block
      by_cases hsame : block = count
      · subst hsame
        simp only [connectBlock, Nat.lt_irrefl, false_and, if_false] at hold ⊢
        constructor <;> split <;> simp_all
      · have hlt : block < count + 1 ↔ block < count := by omega
        have hne := fun h ↦ hsame (cell.inj h)
        simp only [connectBlock, hlt, ← hold.1, ← hold.2]
        constructor <;> split <;> simp [update_of_ne hne]
    · simp only [connectBlock]
      split <;> simp [hback]
    · simp only [connectBlock]
      split <;> simp [hfront]

theorem represents_init (numBlocks : ℕ) : (init numBlocks).Represents (List.range numBlocks) := by
  obtain ⟨hcells, hback, hfront⟩ := foldl_connectBlock numBlocks numBlocks
  obtain ⟨hnext, hprev⟩ := forall_and.1 hcells
  refine ⟨?_, by simp [init]⟩
  simp only [init]
  generalize (range numBlocks).foldl (connectBlock numBlocks) ⟨fun _ ↦ none, fun _ ↦ none⟩ = links at *
  cases numBlocks with
  | zero =>
    have hcell (block : ℕ) : links.next (.cell block) = none ∧ links.prev (.cell block) = none := by
      simp [hnext, hprev]
    refine ⟨?_, nodup_nil, ?_, ?_, fun block _ ↦ ?_⟩
    · exact (isChain_cons_cons.2 ⟨linked_link links .front .back, .singleton _⟩)
    · exact (link_prev_of_ne links (by simp)).trans hfront
    · exact (link_next_of_ne links (by simp)).trans hback
    · exact ⟨(link_next_of_ne links (by simp)).trans (hcell block).1,
        (link_prev_of_ne links (by simp)).trans (hcell block).2⟩
  | succ last =>
    have hcells : ((List.range (last + 1)).map cell).IsChain (Linked links) := by
      rw [isChain_map, isChain_iff_getElem]
      intro block hblock
      simp only [length_range] at hblock
      simp only [Linked, getElem_range, hnext, hprev]
      rw [if_pos ⟨by omega, by omega⟩, if_pos ⟨hblock, by omega⟩]
      exact ⟨rfl, rfl⟩
    have hdist := nodup_nodes (nodup_range (n := last + 1))
    -- First the front sentinel is linked to block 0, then the last block to the back sentinel.
    have hfirst : (.front :: (List.range (last + 1)).map .cell : List (Node ℕ)).IsChain
        (Linked (links.link .front (.cell 0))) := by
      rw [range_succ_eq_map] at hcells ⊢
      have hsingle : ([] ++ [front]).IsChain (Linked links) := .singleton _
      refine isChain_splice hsingle hcells (.sublist ?_ hdist)
      simp [nodes, behindFront, range_succ_eq_map]
    refine ⟨?_, nodup_range, ?_, ?_, fun block hblock ↦ ?_⟩
    · have hsplit : nodes (List.range (last + 1)) =
          (.front :: (List.range last).map .cell) ++ .cell last :: .back :: [] := by
        simp [nodes, behindFront, range_succ]
      rw [hsplit] at hdist ⊢
      rw [range_succ, map_append] at hfirst
      exact isChain_splice hfirst (.singleton back) hdist
    · rw [if_pos (Nat.succ_pos last), link_prev_of_ne _ (by simp), link_prev_of_ne _ (by simp), hfront]
    · rw [if_pos (Nat.succ_pos last), link_next_of_ne _ (by simp), link_next_of_ne _ (by simp), hback]
    · have hout : ¬ block < last + 1 := by simpa using hblock
      have hzero : cell block ≠ .cell 0 := fun h ↦ hout (cell.inj h ▸ Nat.succ_pos last)
      have hlast : cell block ≠ .cell last := fun h ↦ hout (cell.inj h ▸ Nat.lt_succ_self last)
      rw [if_pos (Nat.succ_pos last), Nat.add_sub_cancel, link_next_of_ne _ hlast, link_next_of_ne _ (by simp),
        link_prev_of_ne _ (by simp), link_prev_of_ne _ hzero, hnext, hprev]
      simp [hout]

/-! ## Operations -/

section Operations

variable {free : List ℕ} {queue : FreeKVCacheBlockQueue}

theorem numFreeBlocks_popleftN {n : ℕ} (hn : n ≠ 0) {popped : List ℕ × FreeKVCacheBlockQueue}
    (hpop : queue.popleftN n = .ok popped) : popped.2.numFreeBlocks < queue.numFreeBlocks := by
  unfold popleftN at hpop
  rw [if_neg (by omega)] at hpop
  split at hpop
  · cases hpop
  · split at hpop
    · cases hpop
    · cases hpop
      dsimp only
      omega

theorem length_popleftN {rest : FreeKVCacheBlockQueue} {n : ℤ} {popped : List ℕ}
    (hpop : queue.popleftN n = .ok (popped, rest)) : popped.length = n.toNat := by
  revert hpop
  fun_cases popleftN queue n with
  | case1 hzero =>
    rintro ⟨⟩
    rw [hzero]
    rfl
  | case2 | case3 => nofun
  | case4 _ _ links current detached hdetached =>
    rintro ⟨⟩
    exact length_detachItems hdetached

theorem popleftN_spec (hqueue : queue.Represents free) {n : ℕ} (hn : n ≤ free.length) :
    ∃ rest, queue.popleftN n = .ok (free.take n, rest) ∧ rest.Represents (free.drop n) := by
  by_cases hzero : n = 0
  · subst n
    exact ⟨queue, by simp [popleftN], by simpa using hqueue⟩
  · obtain ⟨links, head, hwalk, hrest⟩ := hqueue.isQueue.takeFront hn
    have hcount := hqueue.count
    refine ⟨⟨queue.numFreeBlocks - n, links.link .front head⟩, ?_, hrest, ?_⟩
    · rw [popleftN, if_neg (by omega), if_neg (by omega), Int.toNat_natCast, hwalk]
      simp
    · simp [hcount]

theorem popleft_spec {first : ℕ} (hqueue : queue.Represents (first :: free)) :
    ∃ rest, queue.popleft = .ok (first, rest) ∧ rest.Represents free := by
  obtain ⟨left, right, hleft, hright, hrest⟩ := hqueue.isQueue.unlink mem_cons_self
  have hchain := hqueue.isQueue.chain
  rw [nodes, behindFront_cons, isChain_cons_cons] at hchain
  have hfront : left = .front := by
    rw [hchain.1.2, Option.some_inj] at hleft
    exact hleft.symm
  subst hfront
  refine ⟨⟨queue.numFreeBlocks - 1, (queue.links.link .front right).detach first⟩, ?_, ?_, ?_⟩
  · simp [popleft, hchain.1.1, hright]
  · rwa [erase_cons_head] at hrest
  · simp [hqueue.count]

variable (hqueue : queue.Represents free)
include hqueue

theorem remove_spec {block : ℕ} (hblock : block ∈ free) :
    ∃ rest, queue.remove block = .ok rest ∧ rest.Represents (free.erase block) := by
  obtain ⟨left, right, hleft, hright, hrest⟩ := hqueue.isQueue.unlink hblock
  refine ⟨⟨queue.numFreeBlocks - 1, (queue.links.link left right).detach block⟩, ?_, hrest, ?_⟩
  · rw [remove, hleft, hright]
  · simp [hqueue.count, length_erase_of_mem hblock]

theorem appendN_spec {blocks : List ℕ} (hnodup : blocks.Nodup) (hfresh : ∀ block ∈ blocks, block ∉ free) :
    ∃ rest, queue.appendN blocks = .ok rest ∧ rest.Represents (free ++ blocks) := by
  by_cases hempty : blocks.length = 0
  · have hnil := length_eq_zero_iff.1 hempty
    subst hnil
    exact ⟨queue, by simp [appendN], by simpa using hqueue⟩
  · obtain ⟨_, hlast, hrest⟩ := hqueue.isQueue.append hnodup hfresh
    refine ⟨⟨queue.numFreeBlocks + blocks.length, _⟩, ?_, hrest, ?_⟩
    · rw [appendN, if_neg hempty, hlast]
      rfl
    · simp [hqueue.count]

end Operations

end FreeKVCacheBlockQueue

end Nelssa.Core
