import Mathlib.Data.Rat.Defs
import Nelssa.Core.FreeQueue
import Nelssa.Foundation.Loops

/-!
# Eviction from the CPU pool

The two cache policies of the CPU offload manager and the store that asks them for room. LRU gives up a
block whenever there is one. ARC looks into T1 only while T1 has at least its target size, and falls back
from T1 to T2 but not the other way, so it can fail although T1 has enough blocks.
-/

namespace Nelssa.KvOffload

open Nelssa.Core Foundation.Loops List

/-- A block that is not ready has the count `-1`; otherwise `refCnt` counts the transfers that read it. -/
structure BlockStatus where
  refCnt : ℤ
  blockId : ℕ
  deriving DecidableEq

/-- The items of an ordered dictionary. -/
abbrev Items (κ : Type*) := List (κ × BlockStatus)

variable {κ : Type*} [DecidableEq κ]

/-- Assign to a key; a new key goes to the end. -/
def Items.assign (items : Items κ) (key : κ) (block : BlockStatus) : Items κ :=
  if key ∈ items.map Prod.fst then items.map fun entry ↦ if entry.1 = key then (key, block) else entry
  else items ++ [(key, block)]

/-- No transfer reads the block, and its key is not protected. -/
def Evictable (protectedKeys : List κ) (entry : κ × BlockStatus) : Prop :=
  entry.2.refCnt = 0 ∧ entry.1 ∉ protectedKeys

instance (protectedKeys : List κ) : DecidablePred (Evictable protectedKeys) :=
  fun _ ↦ inferInstanceAs (Decidable (_ ∧ _))

/-! ## The policies -/

structure LRUCachePolicy (κ : Type*) where
  blocks : Items κ

/-- The float `target_t1_size` is an exact number. -/
structure ARCCachePolicy (κ : Type*) where
  cacheCapacity : ℕ
  targetT1Size : ℚ := 0
  t1 : Items κ := []
  t2 : Items κ := []
  b1 : List κ := []
  b2 : List κ := []

variable (n : ℕ) (protectedKeys : List κ)

/-- The first `n` candidates leave the dictionary, or nothing changes. -/
def LRUCachePolicy.evict (policy : LRUCachePolicy κ) : Option (Items κ) × LRUCachePolicy κ :=
  let candidates := (policy.blocks.filter (Evictable protectedKeys)).take n
  if candidates.length < n then (none, policy)
  else (some candidates, { blocks := policy.blocks.filter fun entry ↦ entry.1 ∉ candidates.map Prod.fst })

namespace ARCCachePolicy

variable (policy : ARCCachePolicy κ)

/-- The target size, rounded towards zero. -/
def intTarget : ℤ := policy.targetT1Size.num.tdiv policy.targetT1Size.den

/-- Select the given number of further candidates, each with the mark whether it comes from T1. -/
def select : ℕ → List κ → ℤ → Option (List ((κ × BlockStatus) × Bool))
  | 0, _, _ => some []
  | n + 1, alreadySelected, virtualT1Size =>
    let free (entry : κ × BlockStatus) : Bool :=
      Evictable protectedKeys entry ∧ entry.1 ∉ alreadySelected
    match if policy.intTarget ≤ virtualT1Size then policy.t1.find? free else none with
    | some entry => (select n (entry.1 :: alreadySelected) (virtualT1Size - 1)).map ((entry, true) :: ·)
    | none => match policy.t2.find? free with
      | some entry => (select n (entry.1 :: alreadySelected) virtualT1Size).map ((entry, false) :: ·)
      | none => none

/-- Move a candidate to the ghost list of its dictionary. -/
def drop (candidate : (κ × BlockStatus) × Bool) : ARCCachePolicy κ :=
  let key := candidate.1.1
  let add (ghost : List κ) : List κ := if key ∈ ghost then ghost else ghost ++ [key]
  if candidate.2 then { policy with t1 := policy.t1.filter (·.1 ≠ key), b1 := add policy.b1 }
  else { policy with t2 := policy.t2.filter (·.1 ≠ key), b2 := add policy.b2 }

/-- Bound the ghost lists by the capacity. -/
def trim : ARCCachePolicy κ :=
  { policy with
    b1 := policy.b1.drop (policy.b1.length - policy.cacheCapacity)
    b2 := policy.b2.drop (policy.b2.length - policy.cacheCapacity) }

def evict : Option (Items κ) × ARCCachePolicy κ :=
  if n = 0 then (some [], policy)
  else match policy.select protectedKeys n [] policy.t1.length with
    | none => (none, policy)
    | some candidates => (some (candidates.map Prod.fst), (candidates.foldl drop policy).trim)

end ARCCachePolicy

inductive CachePolicy (κ : Type*) where
  | lru (policy : LRUCachePolicy κ)
  | arc (policy : ARCCachePolicy κ)

namespace CachePolicy

/-- The blocks of a policy. -/
def items : CachePolicy κ → Items κ
  | lru policy => policy.blocks
  | arc policy => policy.t1 ++ policy.t2

def get (policy : CachePolicy κ) (key : κ) : Option BlockStatus :=
  (policy.items.find? (·.1 = key)).map Prod.snd

def insert (key : κ) (block : BlockStatus) : CachePolicy κ → CachePolicy κ
  | lru policy => lru { blocks := policy.blocks.assign key block }
  | arc policy => arc { policy with
      t1 := policy.t1.assign key block
      b1 := policy.b1.filter (· ≠ key)
      b2 := policy.b2.filter (· ≠ key) }

def evict : CachePolicy κ → Option (Items κ) × CachePolicy κ
  | lru policy => (policy.evict n protectedKeys).map id lru
  | arc policy => (policy.evict n protectedKeys).map id arc

end CachePolicy

open CachePolicy

/-! ## The store -/

structure PrepareStoreOutput (κ : Type*) where
  keysToStore : List κ
  storeSpec : List ℕ
  evictedKeys : List κ

/-- The ids below `numAllocatedBlocks` were handed out at least once. -/
structure CPUOffloadingManager (κ : Type*) where
  numBlocks : ℕ
  numAllocatedBlocks : ℕ := 0
  allocated_le : numAllocatedBlocks ≤ numBlocks
  freeList : List ℕ := []
  policy : CachePolicy κ

namespace CPUOffloadingManager

variable (manager : CPUOffloadingManager κ) (keys : List κ)

def getNumFreeBlocks : ℕ := manager.freeList.length + (manager.numBlocks - manager.numAllocatedBlocks)

/-- Fresh blocks first, then the last ones of the free list. -/
def allocateBlocks : Except Exn (List BlockStatus × CPUOffloadingManager κ) :=
  let numFresh := min keys.length (manager.numBlocks - manager.numAllocatedBlocks)
  let numReused := keys.length - numFresh
  if manager.freeList.length < numReused then .error (.assertionError "")
  else .ok (
    (List.range' manager.numAllocatedBlocks numFresh ++ manager.freeList.reverse.take numReused).map
      fun blockId ↦ { refCnt := -1, blockId },
    { manager with
      numAllocatedBlocks := manager.numAllocatedBlocks + numFresh
      allocated_le := Nat.add_le_of_le_sub' manager.allocated_le (Nat.min_le_right _ _)
      freeList := manager.freeList.take (manager.freeList.length - numReused) })

/-- The keys that are not stored yet. -/
def keysToStore : List κ := keys.filter fun key ↦ manager.policy.get key = none

/-- The blocks that a store needs beyond the free ones. -/
def numBlocksToEvict : ℕ := (manager.keysToStore keys).length - manager.getNumFreeBlocks

/-- Make room for the new keys and give them blocks; `none` refuses the store. -/
def prepareStore : Except Exn (Option (PrepareStoreOutput κ) × CPUOffloadingManager κ) :=
  let keysToStore := manager.keysToStore keys
  if keysToStore = [] then
    .ok (some { keysToStore := [], storeSpec := [], evictedKeys := [] }, manager)
  else
    let evicted :=
      if 0 < manager.numBlocksToEvict keys then manager.policy.evict (manager.numBlocksToEvict keys) keys
      else (some [], manager.policy)
    match evicted.1 with
    | none => .ok (none, manager)
    | some toEvict =>
      let freed : CPUOffloadingManager κ := { manager with
        freeList := manager.freeList ++ toEvict.map (·.2.blockId), policy := evicted.2 }
      (freed.allocateBlocks keysToStore).map fun allocated ↦
        let policy := (keysToStore.zip allocated.1).foldl
          (fun policy entry ↦ policy.insert entry.1 entry.2) allocated.2.policy
        (some { keysToStore, storeSpec := allocated.1.map BlockStatus.blockId
                evictedKeys := toEvict.map Prod.fst }, { allocated.2 with policy })

end CPUOffloadingManager

/-! ## When blocks are given up -/

namespace CachePolicy

variable (policy : CachePolicy κ)

/-- A key has one block; with ARC it is in T1 or in T2. -/
def WellFormed : Prop := (policy.items.map Prod.fst).Nodup

def evictable : Items κ := policy.items.filter (Evictable protectedKeys)

/-- The eviction fails only with fewer than `n` blocks to give up, and otherwise gives up `n` of them. -/
def EvictsIfPossible : Prop :=
  (policy.evict n protectedKeys).1.elim ((policy.evictable protectedKeys).length < n) fun evicted ↦
    evicted.length = n ∧ (evicted.map Prod.fst).Nodup ∧ evicted ⊆ policy.evictable protectedKeys

end CachePolicy

/-- A store is refused only if the blocks to give up do not suffice. -/
def CPUOffloadingManager.RefusesOnlyIfFull (manager : CPUOffloadingManager κ) (keys : List κ) : Prop :=
  ∀ after, manager.prepareStore keys = .ok (none, after) →
    (manager.policy.evictable keys).length < manager.numBlocksToEvict keys

/-- The blocks of a dictionary that may still be selected. -/
def Items.numOpen (items : Items κ) (selected : List κ) : ℕ :=
  items.countP fun entry ↦ Evictable protectedKeys entry ∧ entry.1 ∉ selected

/-- The blocks that can still be selected: those of T1 before it is below its target, and those of T2. -/
def ARCCachePolicy.numInReach (policy : ARCCachePolicy κ) (selected : List κ) (virtualT1Size : ℤ) : ℕ :=
  min (policy.t1.numOpen protectedKeys selected) (virtualT1Size + 1 - policy.intTarget).toNat +
    policy.t2.numOpen protectedKeys selected

/-- ARC needs enough blocks in reach, or there are too few in both dictionaries. -/
def CachePolicy.Reaches : CachePolicy κ → Prop
  | lru _ => True
  | arc policy => n ≤ policy.numInReach protectedKeys [] policy.t1.length ∨
      ((arc policy).evictable protectedKeys).length < n

variable {entry : κ × BlockStatus} {selected : List κ}

section

variable {protectedKeys} {items : Items κ}

theorem numOpen_of_notMem {key : κ} (hkey : key ∉ items.map Prod.fst) :
    items.numOpen protectedKeys (key :: selected) = items.numOpen protectedKeys selected := by
  refine countP_congr fun entry hentry ↦ ?_
  have hne : entry.1 ≠ key := fun h ↦ hkey (h ▸ mem_map_of_mem hentry)
  simp [hne]

theorem numOpen_of_mem (hitems : (items.map Prod.fst).Nodup) (hentry : entry ∈ items)
    (hfree : Evictable protectedKeys entry ∧ entry.1 ∉ selected) :
    items.numOpen protectedKeys selected = items.numOpen protectedKeys (entry.1 :: selected) + 1 := by
  obtain ⟨front, back, rfl⟩ := append_of_mem hentry
  rw [map_append, map_cons, nodup_middle, nodup_cons, mem_append, not_or] at hitems
  have hfront : Items.numOpen protectedKeys front (entry.1 :: selected) = _ := numOpen_of_notMem hitems.1.1
  have hback : Items.numOpen protectedKeys back (entry.1 :: selected) = _ := numOpen_of_notMem hitems.1.2
  unfold Items.numOpen at hfront hback ⊢
  rw [countP_append, countP_append, countP_cons_of_pos (by simpa using hfree), countP_cons_of_neg (by simp)]
  omega

end

namespace ARCCachePolicy

variable {n protectedKeys} {policy : ARCCachePolicy κ}

/-- What a selection delivers if `numInReach` blocks are in reach. -/
def Delivers (policy : ARCCachePolicy κ) (protectedKeys selected : List κ) (numInReach n : ℕ)
    (result : Option (List ((κ × BlockStatus) × Bool))) : Prop :=
  result.elim (numInReach < n) fun candidates ↦ n ≤ numInReach ∧ candidates.length = n ∧
    (candidates.map (·.1.1) ++ selected).Nodup ∧
    candidates.map Prod.fst ⊆ (arc policy).evictable protectedKeys

theorem Delivers.cons {numInReach : ℕ} {result : Option (List ((κ × BlockStatus) × Bool))} (fromT1 : Bool)
    (hentry : entry ∈ (arc policy).evictable protectedKeys)
    (hrest : policy.Delivers protectedKeys (entry.1 :: selected) numInReach n result) :
    policy.Delivers protectedKeys selected (numInReach + 1) (n + 1) (result.map ((entry, fromT1) :: ·)) := by
  cases result with
  | none => exact Nat.succ_lt_succ hrest
  | some candidates =>
    obtain ⟨hreach, hlen, hnodup, hitems⟩ := hrest
    refine ⟨Nat.succ_le_succ hreach, congrArg _ hlen, perm_middle.nodup_iff.1 hnodup, ?_⟩
    exact cons_subset.2 ⟨hentry, hitems⟩

variable (hwell : (arc policy).WellFormed)
include hwell

/-- A selection goes on until there is no block in reach. -/
theorem delivers_select (selected : List κ) (virtualT1Size : ℤ) (hsel : selected.Nodup) :
    policy.Delivers protectedKeys selected (policy.numInReach protectedKeys selected virtualT1Size) n
      (policy.select protectedKeys n selected virtualT1Size) := by
  have hkeys : (policy.t1.map Prod.fst ++ policy.t2.map Prod.fst).Nodup := by
    rw [← map_append]
    exact hwell
  induction n generalizing selected virtualT1Size with
  | zero => exact ⟨Nat.zero_le _, rfl, hsel, nil_subset _⟩
  | succ n ih =>
    have hevictable {entry : κ × BlockStatus} (hentry : entry ∈ policy.t1 ++ policy.t2)
        (hfree : Evictable protectedKeys entry) :
        entry ∈ (arc policy).evictable protectedKeys :=
      mem_filter.2 ⟨hentry, decide_eq_true hfree⟩
    unfold select
    dsimp only
    split
    · next entry hfound =>
      obtain ⟨hsize, hfirst⟩ := Option.ite_none_right_eq_some.1 hfound
      have hentry := mem_of_find?_eq_some hfirst
      have hfree : Evictable protectedKeys entry ∧ entry.1 ∉ selected := by simpa using find?_some hfirst
      have hother := disjoint_of_nodup_append hkeys (mem_map_of_mem hentry)
      have hreach : policy.numInReach protectedKeys selected virtualT1Size =
          policy.numInReach protectedKeys (entry.1 :: selected) (virtualT1Size - 1) + 1 := by
        unfold numInReach
        rw [numOpen_of_mem hkeys.of_append_left hentry hfree, numOpen_of_notMem hother]
        omega
      rw [hreach]
      exact (ih _ _ (nodup_cons.2 ⟨hfree.2, hsel⟩)).cons true (hevictable (mem_append_left _ hentry) hfree.1)
    · next hfound =>
      have hnone : min (policy.t1.numOpen protectedKeys selected)
          (virtualT1Size + 1 - policy.intTarget).toNat = 0 := by
        split at hfound
        · have hzero : policy.t1.numOpen protectedKeys selected = 0 :=
            countP_eq_zero.2 (find?_eq_none.1 hfound)
          rw [hzero, Nat.zero_min]
        · omega
      split
      · next entry hfirst =>
        have hentry := mem_of_find?_eq_some hfirst
        have hfree : Evictable protectedKeys entry ∧ entry.1 ∉ selected := by simpa using find?_some hfirst
        have hother := fun h ↦
          disjoint_of_nodup_append hkeys h (mem_map_of_mem hentry)
        have hreach : policy.numInReach protectedKeys selected virtualT1Size =
            policy.numInReach protectedKeys (entry.1 :: selected) virtualT1Size + 1 := by
          unfold numInReach
          rw [numOpen_of_mem hkeys.of_append_right hentry hfree, numOpen_of_notMem hother]
          omega
        rw [hreach]
        exact (ih _ _ (nodup_cons.2 ⟨hfree.2, hsel⟩)).cons false
          (hevictable (mem_append_right _ hentry) hfree.1)
      · next hsecond =>
        have hzero : policy.t2.numOpen protectedKeys selected = 0 :=
          countP_eq_zero.2 (find?_eq_none.1 hsecond)
        rw [numInReach, hnone, hzero]
        exact Nat.succ_pos n

theorem delivers_evict (n : ℕ) (protectedKeys : List κ) : (policy.evict n protectedKeys).1.elim
    (policy.numInReach protectedKeys [] policy.t1.length < n) fun evicted ↦
      n ≤ policy.numInReach protectedKeys [] policy.t1.length ∧ evicted.length = n ∧
        (evicted.map Prod.fst).Nodup ∧ evicted ⊆ (arc policy).evictable protectedKeys := by
  unfold evict
  split
  · next hzero =>
    subst hzero
    exact ⟨Nat.zero_le _, rfl, nodup_nil, nil_subset _⟩
  · have hselect : policy.Delivers protectedKeys [] _ n _ :=
      delivers_select hwell [] policy.t1.length nodup_nil
    split
    · next hnone =>
      rw [hnone] at hselect
      exact hselect
    · next candidates hsome =>
      rw [hsome] at hselect
      obtain ⟨hreach, hlen, hnodup, hitems⟩ := hselect
      rw [append_nil] at hnodup
      refine ⟨hreach, (length_map _).trans hlen, ?_, hitems⟩
      rwa [map_map]

end ARCCachePolicy

namespace CachePolicy

variable {n protectedKeys} {policy : CachePolicy κ} (hwell : policy.WellFormed)
include hwell

theorem evictsIfPossible_iff_reaches :
    policy.EvictsIfPossible n protectedKeys ↔ policy.Reaches n protectedKeys := by
  unfold EvictsIfPossible
  cases policy with
  | lru policy =>
    refine iff_of_true ?_ trivial
    have hlen : ((policy.blocks.filter (Evictable protectedKeys)).take n).length =
        min n (policy.blocks.filter (Evictable protectedKeys)).length := length_take
    unfold evict LRUCachePolicy.evict
    dsimp only
    split
    · change (policy.blocks.filter (Evictable protectedKeys)).length < n
      omega
    · refine ⟨?_, hwell.sublist (((take_sublist _ _).trans filter_sublist).map _), take_subset _ _⟩
      omega
  | arc policy =>
    have hevict := ARCCachePolicy.delivers_evict hwell n protectedKeys
    change (policy.evict n protectedKeys).1.elim _ _ ↔ _ ∨ _
    cases hres : (policy.evict n protectedKeys).1 with
    | none =>
      rw [hres] at hevict
      exact ⟨.inr, fun h ↦ h.resolve_left (not_le.2 hevict)⟩
    | some evicted =>
      rw [hres] at hevict
      exact iff_of_true hevict.2 (.inl hevict.1)

/-- What an eviction returns is right, so only its failures are in question. -/
theorem evictsIfPossible_iff : policy.EvictsIfPossible n protectedKeys ↔
    ((policy.evict n protectedKeys).1 = none → (policy.evictable protectedKeys).length < n) := by
  cases hres : (policy.evict n protectedKeys).1 with
  | none =>
    unfold EvictsIfPossible
    rw [hres]
    exact ⟨fun h _ ↦ h, fun h ↦ h rfl⟩
  | some evicted =>
    refine iff_of_true ((evictsIfPossible_iff_reaches hwell).2 ?_) nofun
    cases policy with
    | lru policy => trivial
    | arc policy =>
      have hevict := ARCCachePolicy.delivers_evict hwell n protectedKeys
      change (policy.evict n protectedKeys).1 = some evicted at hres
      rw [hres] at hevict
      exact .inl hevict.1

end CachePolicy

namespace CPUOffloadingManager

variable (manager : CPUOffloadingManager κ) (keys : List κ)

theorem prepareStore_eq_none :
    (∃ after, manager.prepareStore keys = .ok (none, after)) ↔
      (manager.policy.evict (manager.numBlocksToEvict keys) keys).1 = none := by
  have hzero : (manager.policy.evict 0 keys).1 ≠ none := by
    cases manager.policy with
    | lru policy => exact nofun
    | arc policy => exact nofun
  unfold prepareStore
  dsimp only
  split
  · next hempty =>
    rw [numBlocksToEvict, hempty, length_nil, Nat.zero_sub]
    exact iff_of_false nofun hzero
  · by_cases hneeded : 0 < manager.numBlocksToEvict keys
    · rw [if_pos hneeded]
      split
      · next hnone => exact iff_of_true ⟨_, rfl⟩ hnone
      · next evicted hsome =>
        rw [hsome]
        refine iff_of_false (fun ⟨after, hafter⟩ ↦ ?_) nofun
        obtain ⟨_, -, ⟨⟩⟩ := map_eq_ok_iff.1 hafter
    · rw [Nat.eq_zero_of_not_pos hneeded]
      refine iff_of_false (fun ⟨after, hafter⟩ ↦ ?_) hzero
      obtain ⟨_, -, ⟨⟩⟩ := map_eq_ok_iff.1 hafter

/-- For both policies, in every state, for every number of blocks and all protected keys, evictions fail
and stores are refused only when they must exactly if the policy has enough blocks in reach. -/
theorem failsOnlyIfFull_iff (hwell : manager.policy.WellFormed) :
    (∀ n protectedKeys, manager.policy.EvictsIfPossible n protectedKeys ↔
      manager.policy.Reaches n protectedKeys) ∧
    ∀ keys, manager.RefusesOnlyIfFull keys ↔ manager.policy.Reaches (manager.numBlocksToEvict keys) keys := by
  refine ⟨fun n protectedKeys ↦ evictsIfPossible_iff_reaches hwell, fun keys ↦ ?_⟩
  rw [← evictsIfPossible_iff_reaches hwell, evictsIfPossible_iff hwell, ← prepareStore_eq_none]
  exact exists_imp.symm

/-- T1 holds a block that nobody reads and is below its target size; the block of T2 has `readers`. -/
def tightManager (readers : ℤ) : CPUOffloadingManager ℕ where
  numBlocks := 2
  numAllocatedBlocks := 2
  allocated_le := Nat.le_refl 2
  policy := .arc { cacheCapacity := 2, targetT1Size := 2, t1 := [(4, ⟨0, 1⟩)], t2 := [(3, ⟨readers, 0⟩)] }

theorem refusesOnlyIfFull_unread : (tightManager 0).RefusesOnlyIfFull [5] :=
  ((failsOnlyIfFull_iff _ (by unfold WellFormed; decide)).2 [5]).2 (.inl (by decide))

theorem not_refusesOnlyIfFull_read :
    ¬ (tightManager 1).policy.EvictsIfPossible 1 [5] ∧ ¬ (tightManager 1).RefusesOnlyIfFull [5] := by
  have hevict : ((tightManager 1).policy.evict 1 [5]).1 = none := by decide
  have hroom : ¬ ((tightManager 1).policy.evictable [5]).length < 1 := by decide
  refine ⟨hroom, fun h ↦ ?_⟩
  obtain ⟨after, hafter⟩ := (prepareStore_eq_none (tightManager 1) [5]).2 hevict
  exact hroom (h after hafter)

end CPUOffloadingManager

end Nelssa.KvOffload
