import Mathlib.Data.List.Chain
import Mathlib.Data.List.Nodup

/-!
# Doubly linked queues between two sentinels

An intrusive queue stores a next and a previous pointer with every item and closes the list with two
sentinel nodes. `IsQueue` says that the pointers describe a given list of members: neighbouring nodes
point at each other, and items outside the list have no pointers. A pointer update changes a chain only
at the updated nodes (`isChain_congr`), which gives one specification for each splice.
-/

namespace Nelssa.Foundation.LinkedQueue

open Function List

/-- A node of the queue: one of the two sentinels or an item. -/
inductive Node (α : Type*) where
  | front
  | back
  | cell (item : α)
  deriving DecidableEq

open Node

structure Links (α : Type*) where
  next : Node α → Option (Node α)
  prev : Node α → Option (Node α)

variable {α : Type*}

/-- Two neighbouring nodes point at each other. -/
def Linked (links : Links α) (first second : Node α) : Prop :=
  links.next first = some second ∧ links.prev second = some first

/-- The nodes behind the front sentinel. -/
def behindFront (members : List α) : List (Node α) := members.map .cell ++ [.back]

/-- All nodes of a queue in order, with its sentinels. -/
def nodes (members : List α) : List (Node α) := .front :: behindFront members

/-- The pointers form a doubly linked list of exactly these members between the sentinels. -/
structure IsQueue (links : Links α) (members : List α) : Prop where
  chain : (nodes members).IsChain (Linked links)
  nodup : members.Nodup
  front_prev : links.prev .front = none
  back_next : links.next .back = none
  detached : ∀ item ∉ members, links.next (.cell item) = none ∧ links.prev (.cell item) = none

/-! ## Chains under pointer updates -/

variable {links : Links α} {chain : List (Node α)}

/-- A chain only depends on the next pointers of all its nodes but the last and on the previous
pointers of all but the first. -/
theorem isChain_congr {other : Links α} (hchain : chain.IsChain (Linked links))
    (hnext : ∀ node ∈ chain.dropLast, other.next node = links.next node)
    (hprev : ∀ node ∈ chain.tail, other.prev node = links.prev node) : chain.IsChain (Linked other) := by
  induction chain with
  | nil => exact .nil
  | cons first rest ih =>
    cases rest with
    | nil => exact .singleton first
    | cons second rest =>
      rw [isChain_cons_cons] at hchain ⊢
      have hfirst := hnext first (by simp)
      have hsecond := hprev second (by simp)
      refine ⟨⟨hfirst.trans hchain.1.1, hsecond.trans hchain.1.2⟩, ih hchain.2 ?_ ?_⟩
      · intro node hnode
        exact hnext node (by simpa using .inr hnode)
      · intro node hnode
        exact hprev node (mem_of_mem_tail hnode)

variable {item : α} {front : List (Node α)}

section Updates

variable [DecidableEq α]

def Links.link (links : Links α) (first second : Node α) : Links α where
  next := update links.next first (some second)
  prev := update links.prev second (some first)

def Links.detach (links : Links α) (item : α) : Links α where
  next := update links.next (.cell item) none
  prev := update links.prev (.cell item) none

section Pointers

variable (links : Links α) {node first second : Node α}

theorem link_next_of_ne (h : node ≠ first) : (links.link first second).next node = links.next node :=
  update_of_ne h _ _

theorem link_prev_of_ne (h : node ≠ second) : (links.link first second).prev node = links.prev node :=
  update_of_ne h _ _

theorem detach_next_of_ne (h : node ≠ .cell item) : (links.detach item).next node = links.next node :=
  update_of_ne h _ _

theorem detach_prev_of_ne (h : node ≠ .cell item) : (links.detach item).prev node = links.prev node :=
  update_of_ne h _ _

theorem detach_self : (links.detach item).next (.cell item) = none ∧
    (links.detach item).prev (.cell item) = none :=
  ⟨update_self _ _ _, update_self _ _ _⟩

end Pointers

theorem linked_link (links : Links α) (first second : Node α) :
    Linked (links.link first second) first second :=
  ⟨update_self _ _ _, update_self _ _ _⟩

theorem isChain_link {first second : Node α} (hchain : chain.IsChain (Linked links))
    (hfirst : first ∉ chain.dropLast) (hsecond : second ∉ chain.tail) :
    chain.IsChain (Linked (links.link first second)) := by
  apply isChain_congr hchain
  · intro node hnode
    exact link_next_of_ne links (ne_of_mem_of_not_mem hnode hfirst)
  · intro node hnode
    exact link_prev_of_ne links (ne_of_mem_of_not_mem hnode hsecond)

theorem isChain_splice {back : List (Node α)} {left right : Node α}
    (hfront : (front ++ [left]).IsChain (Linked links)) (hback : (right :: back).IsChain (Linked links))
    (hnodup : (front ++ left :: right :: back).Nodup) :
    (front ++ left :: right :: back).IsChain (Linked (links.link left right)) := by
  simp only [nodup_append, nodup_cons, mem_cons, not_or, ne_eq] at hnodup
  obtain ⟨-, ⟨⟨hne, hleft⟩, hright, -⟩, hacross⟩ := hnodup
  have hleftFront := fun h ↦ hacross left h left (.inl rfl) rfl
  have hrightFront := fun h ↦ hacross right h right (.inr (.inl rfl)) rfl
  rw [isChain_append_cons_cons]
  refine ⟨isChain_link hfront ?_ ?_, linked_link links left right, isChain_link hback ?_ hright⟩
  · rwa [dropLast_concat]
  · intro h
    rcases mem_append.1 (mem_of_mem_tail h) with hmem | hmem
    · exact hrightFront hmem
    · exact hne (mem_singleton.1 hmem).symm
  · intro h
    rcases mem_cons.1 (dropLast_subset _ h) with heq | hmem
    · exact hne heq
    · exact hleft hmem

theorem isChain_detach (hchain : chain.IsChain (Linked links)) (hitem : .cell item ∉ chain) :
    chain.IsChain (Linked (links.detach item)) := by
  apply isChain_congr hchain
  · intro node hnode
    exact detach_next_of_ne links (ne_of_mem_of_not_mem (dropLast_subset _ hnode) hitem)
  · intro node hnode
    exact detach_prev_of_ne links (ne_of_mem_of_not_mem (mem_of_mem_tail hnode) hitem)

end Updates

/-! ## Nodes of a queue -/

variable {members : List α}

theorem nodup_nodes (hnodup : members.Nodup) : (nodes members).Nodup := by
  have hcells := hnodup.map fun _ _ h ↦ cell.inj h
  simp [nodes, behindFront, nodup_append, hcells]

theorem behindFront_cons (item : α) (members : List α) :
    behindFront (item :: members) = .cell item :: behindFront members := rfl

theorem exists_behindFront_eq (members : List α) : ∃ head rest, behindFront members = head :: rest := by
  cases members with
  | nil => exact ⟨_, _, rfl⟩
  | cons item rest => exact ⟨_, _, rfl⟩

@[simp]
theorem cell_mem_behindFront : .cell item ∈ behindFront members ↔ item ∈ members := by
  simp [behindFront]

theorem front_not_mem_behindFront (members : List α) : .front ∉ behindFront members := by
  simp [behindFront]

@[simp]
theorem cell_mem_nodes : .cell item ∈ nodes members ↔ item ∈ members := by
  simp [nodes, behindFront]

theorem exists_nodes_eq (before after : List α) (item : α) :
    ∃ front left right back, nodes (before ++ item :: after) = front ++ left :: .cell item :: right :: back ∧
      nodes (before ++ after) = front ++ left :: right :: back ∧
      left ∈ (.front :: before.map .cell : List (Node α)) ∧
      right ∈ behindFront after := by
  obtain ⟨front, left, hfront⟩ : ∃ front left, (.front :: before.map .cell : List (Node α)) =
      front ++ [left] := ⟨_, _, (dropLast_append_getLast (cons_ne_nil _ _)).symm⟩
  obtain ⟨right, back, hback⟩ := exists_behindFront_eq after
  refine ⟨front, left, right, back, ?_, ?_, ?_, ?_⟩
  · calc nodes (before ++ item :: after)
        = (.front :: before.map .cell) ++ .cell item :: behindFront after := by
          simp [nodes, behindFront]
      _ = front ++ left :: .cell item :: right :: back := by rw [hfront, hback]; simp
  · calc nodes (before ++ after)
        = (.front :: before.map .cell) ++ behindFront after := by simp [nodes, behindFront]
      _ = front ++ left :: right :: back := by rw [hfront, hback]; simp
  · rw [hfront]
    exact mem_append_right _ mem_cons_self
  · rw [hback]
    exact mem_cons_self

/-! ## Splices -/

section Splices

variable [DecidableEq α]

theorem IsQueue.unlink (hqueue : IsQueue links members) (hitem : item ∈ members) :
    ∃ left right, links.prev (.cell item) = some left ∧ links.next (.cell item) = some right ∧
      IsQueue ((links.link left right).detach item) (members.erase item) := by
  obtain ⟨before, after, rfl⟩ := append_of_mem hitem
  obtain ⟨_, left, right, _, hnodes, hrest, hleft, hright⟩ := exists_nodes_eq before after item
  have hbefore := fun h ↦ disjoint_of_nodup_append hqueue.nodup h mem_cons_self
  have herase : (before ++ item :: after).erase item = before ++ after := by
    rw [erase_append_right _ hbefore, erase_cons_head]
  have hitemRest : item ∉ before ++ after := by
    rw [← herase]
    exact hqueue.nodup.not_mem_erase
  have hnodup : (before ++ after).Nodup := by
    rw [← herase]
    exact hqueue.nodup.erase item
  have hchain := hqueue.chain
  rw [hnodes, isChain_append_cons_cons, isChain_cons_cons] at hchain
  obtain ⟨hfrontChain, hleftItem, hitemRight, hbackChain⟩ := hchain
  refine ⟨left, right, hleftItem.2, hitemRight.1, ?_⟩
  rw [herase]
  constructor
  · apply isChain_detach
    · rw [hrest]
      exact isChain_splice hfrontChain hbackChain (hrest ▸ nodup_nodes hnodup)
    · rwa [cell_mem_nodes]
  · exact hnodup
  · have hne : Node.front ≠ right := fun h ↦ front_not_mem_behindFront after (h ▸ hright)
    rw [detach_prev_of_ne _ (by simp), link_prev_of_ne _ hne, hqueue.front_prev]
  · have hne : Node.back ≠ left := by rintro rfl; simp at hleft
    rw [detach_next_of_ne _ (by simp), link_next_of_ne _ hne, hqueue.back_next]
  · intro other hother
    by_cases hsame : other = item
    · subst other
      exact detach_self _
    · have hcell := fun h ↦ hsame (cell.inj h)
      have hneLeft : cell other ≠ left := by rintro rfl; simp_all
      have hneRight : cell other ≠ right := by rintro rfl; simp_all
      rw [detach_next_of_ne _ hcell, link_next_of_ne _ hneLeft, detach_prev_of_ne _ hcell,
        link_prev_of_ne _ hneRight]
      exact hqueue.detached other (by simp_all)

/-- Link the items one after the other behind `last`; the second component is the new last node. -/
def Links.linkItems (links : Links α) (last : Node α) : List α → Links α × Node α
  | [] => (links, last)
  | item :: rest => (links.link last (.cell item)).linkItems (.cell item) rest

theorem isChain_linkItems (items : List α) {last : Node α}
    (hchain : (front ++ [last]).IsChain (Linked links)) (hnodup : (front ++ last :: items.map .cell).Nodup) :
    ∃ init, front ++ last :: items.map .cell = init ++ [(links.linkItems last items).2] ∧
      (init ++ [(links.linkItems last items).2]).IsChain (Linked (links.linkItems last items).1) ∧
      (∀ node, node ∉ last :: items.map .cell → (links.linkItems last items).1.next node = links.next node) ∧
      ∀ node, node ∉ items.map .cell → (links.linkItems last items).1.prev node = links.prev node := by
  induction items generalizing links front last with
  | nil => exact ⟨front, rfl, hchain, fun _ _ ↦ rfl, fun _ _ ↦ rfl⟩
  | cons item rest ih =>
    have hfirst : (front ++ [last, .cell item]).Nodup := by
      refine .sublist ?_ hnodup
      simp
    have hstep : ((front ++ [last]) ++ [cell item]).IsChain (Linked (links.link last (.cell item))) := by
      rw [append_assoc]
      exact isChain_splice hchain (.singleton _) hfirst
    obtain ⟨init, hinit, hrest, hnext, hprev⟩ := ih hstep (by simpa using hnodup)
    refine ⟨init, by simpa [Links.linkItems] using hinit, hrest, ?_, ?_⟩
    · intro node hnode
      simp only [map_cons, mem_cons, not_or] at hnode
      exact (hnext node (by simpa using hnode.2)).trans (link_next_of_ne links hnode.1)
    · intro node hnode
      simp only [map_cons, mem_cons, not_or] at hnode
      exact (hprev node hnode.2).trans (link_prev_of_ne links hnode.1)

theorem IsQueue.append (hqueue : IsQueue links members) {items : List α} (hitems : items.Nodup)
    (hfresh : ∀ item ∈ items, item ∉ members) :
    ∃ last, links.prev .back = some last ∧
      IsQueue ((links.linkItems last items).1.link (links.linkItems last items).2 .back)
        (members ++ items) := by
  obtain ⟨front, last, hfront⟩ : ∃ front last, (.front :: members.map .cell : List (Node α)) =
      front ++ [last] := ⟨_, _, (dropLast_append_getLast (cons_ne_nil _ _)).symm⟩
  have hnodup : (members ++ items).Nodup := by
    refine nodup_append.2 ⟨hqueue.nodup, hitems, ?_⟩
    rintro old hold item hitem rfl
    exact hfresh old hitem hold
  have hnodes : nodes members = front ++ [last, .back] := by
    rw [nodes, behindFront, ← cons_append, hfront]
    simp
  have hextended : nodes (members ++ items) = front ++ last :: items.map .cell ++ [.back] := by
    rw [nodes, behindFront, map_append, append_assoc, ← cons_append, hfront]
    simp
  have hdist := nodup_nodes hnodup
  have hchain := hqueue.chain
  rw [hextended] at hdist
  rw [hnodes, isChain_append_cons_cons] at hchain
  obtain ⟨hopen, hlast, -⟩ := hchain
  obtain ⟨_, hinit, hlinked, hnext, hprev⟩ := isChain_linkItems items hopen (.of_append_left hdist)
  refine ⟨last, hlast.2, ?_⟩
  generalize links.linkItems last items = result at *
  have hopenNodes (node : Node α) (hnode : node = last ∨ node = result.2) :
      node ∈ (.front :: (members ++ items).map .cell : List (Node α)) := by
    have hall : (.front :: (members ++ items).map .cell : List (Node α)) =
        front ++ last :: items.map .cell := by
      rw [map_append, ← cons_append, hfront, append_assoc]
      rfl
    rw [hall]
    rcases hnode with rfl | rfl
    · exact mem_append_right _ mem_cons_self
    · rw [hinit]
      exact mem_append_right _ mem_cons_self
  have hback (node : Node α) (hnode : node = last ∨ node = result.2) : Node.back ≠ node := by
    rintro rfl
    simpa using hopenNodes _ hnode
  constructor
  · rw [hextended, hinit, append_assoc]
    refine isChain_splice hlinked (.singleton back) ?_
    rwa [hinit, append_assoc] at hdist
  · exact hnodup
  · rw [link_prev_of_ne _ (by simp), hprev _ (by simp), hqueue.front_prev]
  · rw [link_next_of_ne _ (hback _ (Or.inr rfl)), hnext _ (by simpa using hback _ (Or.inl rfl)),
      hqueue.back_next]
  · intro other hother
    have hold := hqueue.detached other fun h ↦ hother (mem_append_left _ h)
    have hne (node : Node α) (hnode : node = last ∨ node = result.2) : cell other ≠ node := by
      rintro rfl
      exact hother (by simpa using hopenNodes _ hnode)
    have hitem : cell other ∉ items.map cell := by
      simpa using fun h ↦ hother (mem_append_right _ h)
    rw [link_next_of_ne _ (hne _ (.inr rfl)), link_prev_of_ne _ (by simp), hprev _ hitem,
      hnext _ (not_mem_cons_of_ne_of_not_mem (hne _ (.inl rfl)) hitem)]
    exact hold

/-- Walk over the first `count` items from `current` on and clear their pointers; the result is the
node behind them and the items. A sentinel in place of an item ends the walk with an error. -/
def Links.detachItems (links : Links α) (current : Option (Node α)) :
    ℕ → Option (Links α × Option (Node α) × List α)
  | 0 => some (links, current, [])
  | count + 1 =>
    match current with
    | some (.cell item) =>
      ((links.detach item).detachItems (links.next (.cell item)) count).map fun result ↦
        (result.1, result.2.1, item :: result.2.2)
    | _ => none

theorem length_detachItems {final : Links α} {current head : Option (Node α)} {count : ℕ}
    {detached : List α} (hdetach : links.detachItems current count = some (final, head, detached)) :
    detached.length = count := by
  induction count generalizing links current final head detached with
  | zero =>
    simp only [Links.detachItems, Option.some.injEq, Prod.mk.injEq] at hdetach
    rw [← hdetach.2.2, length_nil]
  | succ count ih =>
    unfold Links.detachItems at hdetach
    split at hdetach
    · obtain ⟨⟨_, next, _⟩, hrest, hsame⟩ := Option.map_eq_some_iff.1 hdetach
      simp only [Prod.mk.injEq] at hsame
      rw [← hsame.2.2, length_cons, ih hrest]
    · cases hdetach

theorem detachItems_spec (count : ℕ) (hchain : (behindFront members).IsChain (Linked links))
    (hnodup : members.Nodup) (hcount : count ≤ members.length) :
    ∃ final head rest,
      links.detachItems (behindFront members).head? count = some (final, some head, members.take count) ∧
      behindFront (members.drop count) = head :: rest ∧
      (head :: rest).IsChain (Linked final) ∧
      (∀ node, (∀ item ∈ members.take count, node ≠ .cell item) →
        final.next node = links.next node ∧ final.prev node = links.prev node) ∧
      ∀ item ∈ members.take count, final.next (.cell item) = none ∧ final.prev (.cell item) = none := by
  induction count generalizing links members with
  | zero =>
    obtain ⟨head, rest, hnodes⟩ := exists_behindFront_eq members
    rw [hnodes] at hchain ⊢
    refine ⟨links, head, rest, rfl, hnodes, hchain, fun _ _ ↦ ⟨rfl, rfl⟩, ?_⟩
    simp
  | succ count ih =>
    cases members with
    | nil => simp at hcount
    | cons item tail =>
      obtain ⟨hitem, htail⟩ := nodup_cons.1 hnodup
      rw [behindFront_cons, isChain_cons] at hchain
      obtain ⟨hlinked, hrest⟩ := hchain
      obtain ⟨head, _, hnodes⟩ := exists_behindFront_eq tail
      have hnext : links.next (.cell item) = (behindFront tail).head? := by
        rw [hnodes] at hlinked ⊢
        exact (hlinked head rfl).1
      obtain ⟨final, last, others, hwalk, hleft, hfinal, hframe, hgone⟩ :=
        ih (isChain_detach hrest (by simpa using hitem)) htail (by simpa using hcount)
      refine ⟨final, last, others, ?_, hleft, hfinal, ?_, ?_⟩
      · rw [behindFront_cons, head?_cons, Links.detachItems, hnext, hwalk]
        rfl
      · intro node hnode
        simp only [take_succ_cons, mem_cons, forall_eq_or_imp] at hnode
        have hstep := hframe node hnode.2
        rw [detach_next_of_ne _ hnode.1, detach_prev_of_ne _ hnode.1] at hstep
        exact hstep
      · intro other hother
        by_cases htaken : other ∈ tail.take count
        · exact hgone other htaken
        · have hsame : other = item := by simpa [htaken] using hother
          subst other
          have hstep := hframe (.cell item) fun taken hmem h ↦ hitem (cell.inj h ▸ mem_of_mem_take hmem)
          rw [hstep.1, hstep.2]
          exact detach_self links

theorem IsQueue.takeFront (hqueue : IsQueue links members) {count : ℕ} (hcount : count ≤ members.length) :
    ∃ final head, links.detachItems (links.next .front) count = some (final, some head, members.take count) ∧
      IsQueue (final.link .front head) (members.drop count) := by
  obtain ⟨hlinked, hchain⟩ := isChain_cons.1 hqueue.chain
  obtain ⟨final, head, _, hwalk, hnodes, hrest, hframe, hgone⟩ :=
    detachItems_spec count hchain hqueue.nodup hcount
  have hnext : links.next .front = (behindFront members).head? := by
    obtain ⟨first, _, hfirst⟩ := exists_behindFront_eq members
    rw [hfirst] at hlinked ⊢
    exact (hlinked first rfl).1
  refine ⟨final, head, by rw [hnext, hwalk], ?_⟩
  have hnodup : (members.drop count).Nodup := .sublist (drop_sublist count members) hqueue.nodup
  have hfrontHead : Node.front ≠ head := by
    rintro rfl
    have hmem : Node.front ∈ behindFront (members.drop count) := by
      rw [hnodes]
      exact mem_cons_self
    exact front_not_mem_behindFront _ hmem
  constructor
  · have hdist := nodup_nodes hnodup
    rw [nodes, hnodes] at hdist ⊢
    have hsingle : ([] ++ [Node.front]).IsChain (Linked final) := .singleton _
    exact isChain_splice hsingle hrest hdist
  · exact hnodup
  · rw [link_prev_of_ne _ hfrontHead, (hframe .front (by simp)).2, hqueue.front_prev]
  · rw [link_next_of_ne _ (by simp), (hframe .back (by simp)).1, hqueue.back_next]
  · intro other hother
    have hneHead : cell other ≠ head := by
      rintro rfl
      have hmem : cell other ∈ behindFront (members.drop count) := by
        rw [hnodes]
        exact mem_cons_self
      exact hother (cell_mem_behindFront.1 hmem)
    rw [link_next_of_ne _ (by simp), link_prev_of_ne _ hneHead]
    by_cases htaken : other ∈ members.take count
    · exact hgone other htaken
    · have hmember : other ∉ members := by
        rw [← take_append_drop count members, mem_append]
        exact not_or.2 ⟨htaken, hother⟩
      obtain ⟨hnextSame, hprevSame⟩ := hframe (.cell other) fun item hitem h ↦ htaken (cell.inj h ▸ hitem)
      rw [hnextSame, hprevSame]
      exact hqueue.detached other hmember

end Splices

end Nelssa.Foundation.LinkedQueue
