import Mathlib.Tactic.Ring
import Nelssa.Core.BlockPool

/-!
# Reference counts and the free queue

`RefInv` relates the reference counts of a pool to its free queue and to the number of holds on each
block: a block other than the null block waits in the queue exactly while nobody holds it. Every
operation that hands out, touches or frees blocks keeps the invariant for the changed number of holds,
and the operations on the prefix cache leave everything it mentions alone.
-/

namespace Nelssa.Core

open Function List FreeKVCacheBlockQueue BlockPool

/-- The free queue and the reference counts agree with the number of holds on each block. -/
structure RefInv (numBlocks : ℕ) (queue : FreeKVCacheBlockQueue) (refCnt : ℕ → ℤ) (isNull : ℕ → Bool)
    (held : ℕ → ℕ) (free : List ℕ) : Prop where
  isNull_iff : ∀ block, isNull block = true ↔ block = 0
  represents : queue.Represents free
  bound : ∀ block ∈ free, block < numBlocks
  null_free : 0 ∉ free
  mem_free : ∀ block, block ≠ 0 → block < numBlocks → (block ∈ free ↔ refCnt block = 0)
  refs : ∀ block, block ≠ 0 → refCnt block = held block

variable {block numBlocks : ℕ} {held : ℕ → ℕ}

namespace RefInv

variable {queue queue' : FreeKVCacheBlockQueue} {refCnt : ℕ → ℤ} {isNull : ℕ → Bool} {free : List ℕ}

section

variable (hinv : RefInv numBlocks queue refCnt isNull held free)
include hinv

theorem unused (hblock : block ∈ free) : refCnt block = 0 := by
  have hne : block ≠ 0 := fun h ↦ hinv.null_free (h ▸ hblock)
  exact (hinv.mem_free block hne (hinv.bound block hblock)).1 hblock

theorem takeFront {count : ℕ} (hqueue : queue'.Represents (free.drop count)) :
    RefInv numBlocks queue' (fun block ↦ refCnt block + 1 * (free.take count).count block) isNull
      (fun block ↦ held block + (free.take count).count block) (free.drop count) where
  isNull_iff := hinv.isNull_iff
  represents := hqueue
  bound := fun block hblock ↦ hinv.bound block (mem_of_mem_drop hblock)
  null_free := fun h ↦ hinv.null_free (mem_of_mem_drop h)
  mem_free := by
    intro block hne hlt
    have hnodup := hinv.represents.isQueue.nodup
    rw [← take_append_drop count free] at hnodup
    by_cases htaken : block ∈ free.take count
    · have hgone := disjoint_of_nodup_append hnodup htaken
      have hzero := hinv.unused (mem_of_mem_take htaken)
      have hcount := count_pos_iff.2 htaken
      exact iff_of_false hgone (by omega)
    · have hsplit : block ∈ free ↔ block ∈ free.drop count := by
        conv_lhs => rw [← take_append_drop count free, mem_append]
        simp [htaken]
      rw [count_eq_zero.2 htaken, ← hsplit, hinv.mem_free block hne hlt]
      simp
  refs := by
    intro block hne
    have hold := hinv.refs block hne
    omega

theorem refs_addOne (other : ℕ) (hne : other ≠ 0) :
    update refCnt block (refCnt block + 1) other = (held other + [block].count other : ℕ) := by
  have hold := hinv.refs other hne
  by_cases hsame : other = block
  · subst other
    rw [hold]
    simp
  · rw [update_of_ne hsame, hold]
    simp [Ne.symm hsame]

theorem takeOne (hmem : block ∈ free) (hqueue : queue'.Represents (free.erase block)) :
    RefInv numBlocks queue' (update refCnt block (refCnt block + 1)) isNull
      (fun other ↦ held other + [block].count other) (free.erase block) where
  isNull_iff := hinv.isNull_iff
  represents := hqueue
  bound := fun other hother ↦ hinv.bound other (mem_of_mem_erase hother)
  null_free := fun h ↦ hinv.null_free (mem_of_mem_erase h)
  mem_free := by
    intro other hne hlt
    have hnodup := hinv.represents.isQueue.nodup
    by_cases hsame : other = block
    · subst other
      have hzero := hinv.unused hmem
      rw [update_self]
      exact iff_of_false hnodup.not_mem_erase (by omega)
    · rw [update_of_ne hsame, mem_erase_of_ne hsame, hinv.mem_free other hne hlt]
  refs := hinv.refs_addOne

theorem share (hused : block ≠ 0 → refCnt block ≠ 0) :
    RefInv numBlocks queue (update refCnt block (refCnt block + 1)) isNull
      (fun other ↦ held other + [block].count other) free := by
  refine { hinv with mem_free := fun other hne hlt ↦ ?_, refs := hinv.refs_addOne }
  by_cases hsame : other = block
  · subst other
    have hold := hinv.refs block hne
    rw [update_self, hinv.mem_free block hne hlt]
    omega
  · rw [update_of_ne hsame, hinv.mem_free other hne hlt]

end

variable {ordered : List ℕ}

theorem count_freed (hnodup : (ordered.filter (· ≠ 0)).Nodup) (hne : block ≠ 0) :
    ordered.count block = if block ∈ ordered then 1 else 0 := by
  have hcount : ordered.count block = (ordered.filter (· ≠ 0)).count block := by
    rw [count_filter (by simpa using hne)]
  rw [hcount, hnodup.count]
  simp [hne]

theorem release (hinv : RefInv numBlocks queue refCnt isNull held free) {unused : List ℕ}
    (hbound : ∀ block ∈ ordered, block < numBlocks) (hnodup : (ordered.filter (· ≠ 0)).Nodup)
    (hheld : ∀ block ∈ ordered, block ≠ 0 → 0 < held block) (hunused : ∀ block, block ∈ unused ↔
      block ∈ ordered ∧ refCnt block + -1 * ordered.count block = 0 ∧ isNull block = false)
    (hqueue : queue'.Represents (free ++ unused)) :
    RefInv numBlocks queue' (fun block ↦ refCnt block + -1 * ordered.count block) isNull
      (fun block ↦ held block - ordered.count block) (free ++ unused) where
  isNull_iff := hinv.isNull_iff
  represents := hqueue
  bound := by
    intro block hblock
    rcases mem_append.1 hblock with hfree | hnew
    · exact hinv.bound block hfree
    · exact hbound block ((hunused block).1 hnew).1
  null_free := by
    intro hnull
    rcases mem_append.1 hnull with hfree | hnew
    · exact hinv.null_free hfree
    · have hflag := (hinv.isNull_iff 0).2 rfl
      rw [((hunused 0).1 hnew).2.2] at hflag
      exact Bool.false_ne_true hflag
  mem_free := by
    intro block hne hlt
    have hold := hinv.mem_free block hne hlt
    have hrefs := hinv.refs block hne
    have hflag := Bool.eq_false_iff.2 (mt (hinv.isNull_iff block).1 hne)
    rw [mem_append, hunused, hold, count_freed hnodup hne]
    by_cases hblock : block ∈ ordered
    · have hpos := hheld block hblock hne
      simp only [hblock, hflag, if_true, true_and, and_true]
      omega
    · simp [hblock]
  refs := by
    intro block hne
    have hrefs := hinv.refs block hne
    rw [count_freed hnodup hne]
    by_cases hblock : block ∈ ordered
    · have hpos := hheld block hblock hne
      simp only [hblock, if_true]
      omega
    · simpa [hblock] using hrefs

end RefInv

namespace BlockPool

variable {pool : BlockPool} {free : List ℕ}

def Refs (pool : BlockPool) (held : ℕ → ℕ) (free : List ℕ) : Prop :=
  RefInv pool.numGpuBlocks pool.freeBlockQueue pool.refCnt pool.isNull held free

/-- Everything but the hashes and the prefix cache. -/
def SameBlocks (pool other : BlockPool) : Prop :=
  ∃ hashes map, other = { pool with blockHash := hashes, cachedBlockHashToBlock := map }

theorem SameBlocks.refl (pool : BlockPool) : pool.SameBlocks pool := ⟨_, _, rfl⟩

theorem SameBlocks.trans {middle other : BlockPool} (hfirst : pool.SameBlocks middle)
    (hsecond : middle.SameBlocks other) : pool.SameBlocks other := by
  obtain ⟨_, _, rfl⟩ := hfirst
  obtain ⟨hashes', map', rfl⟩ := hsecond
  exact ⟨hashes', map', rfl⟩

theorem SameBlocks.refs {other : BlockPool} (hsame : pool.SameBlocks other) (hpool : pool.Refs held free) :
    other.Refs held free := by
  obtain ⟨_, _, rfl⟩ := hsame
  exact hpool

theorem init_spec {numGpuBlocks hashBlockSize : ℕ} {enableCaching : Bool}
    (hinit : init numGpuBlocks enableCaching hashBlockSize = .ok pool) :
    pool.nullBlock = 0 ∧ pool.blockHash = (fun _ ↦ none) ∧
      pool.cachedBlockHashToBlock = .init ∧ ∃ free, pool.Refs (fun _ ↦ 0) free := by
  cases numGpuBlocks with
  | zero => simp [init] at hinit
  | succ last =>
    have hqueue := represents_init (last + 1)
    rw [range_succ_eq_map] at hqueue
    obtain ⟨_, hpop, hrest⟩ := popleft_spec hqueue
    simp only [init, Nat.succ_ne_zero, if_false, hpop, Except.ok.injEq] at hinit
    subst hinit
    refine ⟨rfl, rfl, rfl, _, ⟨by simp, hrest, ?_, by simp, ?_, fun _ _ ↦ rfl⟩⟩
    · intro block hblock
      obtain ⟨_, hother, rfl⟩ := mem_map.1 hblock
      exact Nat.succ_lt_succ (mem_range.1 hother)
    · intro block _ hlt
      refine iff_of_true (mem_map.2 ⟨block - 1, mem_range.2 ?_, ?_⟩) rfl
      · dsimp only at hlt
        omega
      · omega

theorem exists_init (numBlocks : ℕ) (enableCaching : Bool) (hashBlockSize : ℕ) :
    ∃ pool, init (numBlocks + 1) enableCaching hashBlockSize = .ok pool ∧
      pool.numGpuBlocks = numBlocks + 1 ∧ pool.enableCaching = enableCaching ∧
      pool.hashBlockSize = hashBlockSize ∧ pool.getNumFreeBlocks = numBlocks := by
  have hqueue := represents_init (numBlocks + 1)
  rw [range_succ_eq_map] at hqueue
  obtain ⟨_, hpop, hrest⟩ := popleft_spec hqueue
  have hlen := hrest.count
  rw [length_map, length_range] at hlen
  cases hinit : init (numBlocks + 1) enableCaching hashBlockSize with
  | error exn => simp [init, hpop] at hinit
  | ok pool =>
    simp only [init, Nat.succ_ne_zero, if_false, hpop, Except.ok.injEq] at hinit
    subst hinit
    exact ⟨_, rfl, rfl, rfl, rfl, hlen⟩

/-! ## The operations on the prefix cache -/

section

variable (pool : BlockPool)

theorem sameBlocks_maybeEvictCachedBlock (block : ℕ) :
    pool.SameBlocks (pool.maybeEvictCachedBlock block).2 := by
  unfold maybeEvictCachedBlock
  split
  · exact .refl pool
  · split <;> exact ⟨_, _, rfl⟩

theorem sameBlocks_evictBlocks (blockIds : List ℕ) : pool.SameBlocks (pool.evictBlocks blockIds).2 := by
  induction blockIds generalizing pool with
  | nil => exact .refl pool
  | cons blockId rest ih =>
    unfold evictBlocks
    split
    · exact (pool.sameBlocks_maybeEvictCachedBlock blockId).trans (ih _)
    · exact .refl pool

theorem sameBlocks_cacheNewBlocks (groupId : ℕ) (blocks : List ℕ) (hashes : List BlockHash) :
    pool.SameBlocks (pool.cacheNewBlocks groupId blocks hashes).2 := by
  fun_induction cacheNewBlocks pool groupId blocks hashes with
  | case1 | case3 | case4 | case5 => exact .refl _
  | case2 pool _ _ _ _ ih => exact ih
  | case6 pool block _ _ _ _ _ key _ ih =>
    have hinsert : pool.SameBlocks (pool.insertHash block key) := ⟨_, _, rfl⟩
    exact hinsert.trans ih

theorem sameBlocks_cacheFullBlocks (blockHashes : List BlockHash) (blocks : List ℕ)
    (numCachedBlocks numFullBlocks blockSize groupId : ℕ) :
    pool.SameBlocks (pool.cacheFullBlocks blockHashes blocks numCachedBlocks numFullBlocks blockSize
      groupId).2 := by
  unfold cacheFullBlocks
  split
  · exact .refl pool
  · split
    · exact .refl pool
    · split
      · exact .refl pool
      · exact pool.sameBlocks_cacheNewBlocks _ _ _

theorem sameBlocks_resetPrefixCache : pool.SameBlocks pool.resetPrefixCache.2 := by
  unfold resetPrefixCache
  dsimp only
  split <;> exact ⟨_, _, rfl⟩

end

/-! ## Handing out blocks -/

theorem count_cons_eq_update (refCnt : ℕ → ℤ) (block : ℕ) (rest : List ℕ) (amount : ℤ) :
    (fun other ↦ refCnt other + amount * (block :: rest).count other) =
      fun other ↦ update refCnt block (refCnt block + amount) other + amount * rest.count other := by
  funext other
  by_cases hsame : other = block
  · subst other
    rw [count_cons_self, update_self]
    push_cast
    ring
  · rw [count_cons_of_ne (.symm hsame), update_of_ne hsame]

theorem claimBlocks_spec (pool : BlockPool) (blocks : List ℕ) (hnodup : blocks.Nodup)
    (hunused : ∀ block ∈ blocks, pool.refCnt block = 0) :
    ∃ hashes map, pool.claimBlocks blocks = (.ok (),
      { pool with
        refCnt := fun block ↦ pool.refCnt block + 1 * blocks.count block
        blockHash := hashes, cachedBlockHashToBlock := map }) := by
  induction blocks generalizing pool with
  | nil => exact ⟨pool.blockHash, pool.cachedBlockHashToBlock, by simp [claimBlocks]⟩
  | cons block rest ih =>
    obtain ⟨hnew, hrest⟩ := nodup_cons.1 hnodup
    let evicted := if pool.enableCaching then (pool.maybeEvictCachedBlock block).2 else pool
    obtain ⟨_, _, hevicted⟩ : pool.SameBlocks evicted := by
      dsimp only [evicted]
      split
      · exact pool.sameBlocks_maybeEvictCachedBlock block
      · exact .refl pool
    have hzero : evicted.refCnt block = 0 := by
      rw [hevicted]
      exact hunused block mem_cons_self
    have hclaim : pool.claimBlocks (block :: rest) = (evicted.addRef block 1).claimBlocks rest := by
      exact if_pos hzero
    have hunusedRest : ∀ other ∈ rest, (evicted.addRef block 1).refCnt other = 0 := by
      intro other hother
      have hne : other ≠ block := fun h ↦ hnew (h ▸ hother)
      simp only [addRef, update_of_ne hne, hevicted]
      exact hunused other (mem_cons_of_mem block hother)
    obtain ⟨hashes', map', hfinal⟩ := ih _ hrest hunusedRest
    refine ⟨hashes', map', ?_⟩
    rw [hclaim, hfinal, hevicted, count_cons_eq_update]
    rfl

theorem claimBlocks_frame (pool : BlockPool) (blocks : List ℕ) :
    ∃ refs hashes map, (pool.claimBlocks blocks).2 =
      { pool with refCnt := refs, blockHash := hashes, cachedBlockHashToBlock := map } := by
  induction blocks generalizing pool with
  | nil => exact ⟨_, _, _, rfl⟩
  | cons block rest ih =>
    unfold claimBlocks
    dsimp only
    obtain ⟨_, _, hevicted⟩ : pool.SameBlocks
        (if pool.enableCaching then (pool.maybeEvictCachedBlock block).2 else pool) := by
      split
      · exact pool.sameBlocks_maybeEvictCachedBlock block
      · exact .refl pool
    rw [hevicted]
    split
    · obtain ⟨refs, hashes', map', hrest⟩ := ih _
      exact ⟨refs, hashes', map', hrest⟩
    · exact ⟨_, _, _, rfl⟩

theorem getNewBlocks_frame (pool : BlockPool) (numBlocks : ℤ) :
    ∃ refs queue hashes map, (pool.getNewBlocks numBlocks).2 =
      { pool with
        refCnt := refs, freeBlockQueue := queue, blockHash := hashes, cachedBlockHashToBlock := map } := by
  fun_cases getNewBlocks pool numBlocks with
  | case1 | case2 => exact ⟨_, _, _, _, rfl⟩
  | case3 _ popped queue =>
    obtain ⟨refs, hashes, map, hclaim⟩ := claimBlocks_frame _ popped
    exact ⟨refs, queue, hashes, map, hclaim⟩

theorem getNewBlocks_of_lt {numBlocks : ℤ} (hnum : pool.getNumFreeBlocks < numBlocks) :
    pool.getNewBlocks numBlocks =
      (.error (.valueError s!"Cannot get {numBlocks} free blocks from the pool"), pool) :=
  if_pos hnum

theorem Refs.getNewBlocks (hpool : pool.Refs held free) (hnum : numBlocks ≤ pool.getNumFreeBlocks) :
    (pool.getNewBlocks numBlocks).1 = .ok (free.take numBlocks) ∧
      (pool.getNewBlocks numBlocks).2.Refs
        (fun block ↦ held block + (free.take numBlocks).count block) (free.drop numBlocks) := by
  have hlen : numBlocks ≤ free.length := by
    rw [← hpool.represents.count]
    exact hnum
  obtain ⟨queue, hpop, hqueue⟩ := popleftN_spec hpool.represents hlen
  have htakeNodup : (free.take numBlocks).Nodup :=
    .sublist (take_sublist numBlocks free) hpool.represents.isQueue.nodup
  obtain ⟨hashes, map, hclaim⟩ := claimBlocks_spec { pool with freeBlockQueue := queue }
    _ htakeNodup fun block hblock ↦ hpool.unused (mem_of_mem_take hblock)
  have hres : pool.getNewBlocks numBlocks = (.ok (free.take numBlocks),
      { pool with
        freeBlockQueue := queue
        refCnt := fun block ↦ pool.refCnt block + 1 * (free.take numBlocks).count block
        blockHash := hashes, cachedBlockHashToBlock := map }) := by
    rw [BlockPool.getNewBlocks, if_neg (not_lt.2 (Nat.cast_le.2 hnum))]
    simp only [hpop, hclaim]
    rfl
  rw [hres]
  exact ⟨rfl, .takeFront hpool hqueue⟩

/-! ## Touching blocks -/

theorem Refs.touch_cons (hpool : pool.Refs held free) (hblock : block < pool.numGpuBlocks) (rest : List ℕ) :
    ∃ queue free', pool.touch (block :: rest) =
        ({ pool with freeBlockQueue := queue }.addRef block 1).touch rest ∧
      ({ pool with freeBlockQueue := queue }.addRef block 1).Refs
        (fun other ↦ held other + [block].count other) free' ∧
      free'.length + (if pool.refCnt block = 0 ∧ pool.isNull block = false then 1 else 0) =
        free.length := by
  by_cases hunused : pool.refCnt block = 0 ∧ pool.isNull block = false
  · have hne : block ≠ 0 := fun h ↦ by
      have hnull := (hpool.isNull_iff block).2 h
      simp [hunused.2] at hnull
    have hmem := (hpool.mem_free block hne hblock).2 hunused.1
    obtain ⟨queue, hremove, hqueue⟩ := remove_spec hpool.represents hmem
    refine ⟨queue, free.erase block, ?_, .takeOne hpool hmem hqueue, ?_⟩
    · rw [touch, if_pos hunused, hremove]
    · rw [if_pos hunused, length_erase_of_mem hmem]
      exact Nat.sub_add_cancel (length_pos_of_mem hmem)
  · refine ⟨pool.freeBlockQueue, free, ?_, .share hpool ?_, if_neg hunused ▸ rfl⟩
    · rw [touch, if_neg hunused]
    · intro hne hzero
      exact hunused ⟨hzero, Bool.eq_false_iff.2 (mt (hpool.isNull_iff block).1 hne)⟩

theorem Refs.touch {blocks : List ℕ}
    (hpool : pool.Refs held free) (hblocks : ∀ block ∈ blocks, block < pool.numGpuBlocks) :
    (pool.touch blocks).1 = .ok () ∧
      ∃ free', (pool.touch blocks).2.Refs (fun other ↦ held other + blocks.count other) free' := by
  induction blocks generalizing pool held free with
  | nil => exact ⟨rfl, free, hpool⟩
  | cons block rest ih =>
    obtain ⟨_, _, htouch, hnext, -⟩ := hpool.touch_cons (hblocks block mem_cons_self) rest
    obtain ⟨hok, final, hfinal⟩ := ih hnext fun other hother ↦ hblocks other (mem_cons_of_mem block hother)
    rw [htouch]
    refine ⟨hok, final, ?_⟩
    have hcount : (fun other ↦ held other + (block :: rest).count other) =
        fun other ↦ held other + [block].count other + rest.count other := by
      funext other
      rw [add_assoc, ← count_append, singleton_append]
    rwa [hcount]

/-! ## Freeing blocks -/

theorem foldl_addRef (pool : BlockPool) (blocks : List ℕ) :
    blocks.foldl (fun current block ↦ current.addRef block (-1)) pool =
      { pool with refCnt := fun block ↦ pool.refCnt block + -1 * blocks.count block } := by
  induction blocks generalizing pool with
  | nil => simp
  | cons block rest ih =>
    rw [foldl_cons, ih, count_cons_eq_update]
    rfl

theorem Refs.freeBlocks {orderedBlocks : List ℕ}
    (hpool : pool.Refs held free) (hbound : ∀ block ∈ orderedBlocks, block < pool.numGpuBlocks)
    (hnodup : (orderedBlocks.filter (· ≠ 0)).Nodup)
    (hheld : ∀ block ∈ orderedBlocks, block ≠ 0 → 0 < held block) :
    (pool.freeBlocks orderedBlocks).1 = .ok () ∧
      ∃ free', (pool.freeBlocks orderedBlocks).2.Refs
        (fun block ↦ held block - orderedBlocks.count block) free' := by
  let unused := orderedBlocks.filter fun block ↦
    pool.refCnt block + -1 * orderedBlocks.count block = 0 ∧ pool.isNull block = false
  have hunused (block : ℕ) : block ∈ unused ↔ block ∈ orderedBlocks ∧
      pool.refCnt block + -1 * orderedBlocks.count block = 0 ∧ pool.isNull block = false := by
    simp [unused]
  have hnonnull {block : ℕ} (hblock : block ∈ unused) : block ≠ 0 := by
    rintro rfl
    have hflag := (hpool.isNull_iff 0).2 rfl
    rw [((hunused 0).1 hblock).2.2] at hflag
    exact Bool.false_ne_true hflag
  have hunusedNodup : unused.Nodup := by
    have hfilter : unused = (orderedBlocks.filter (· ≠ 0)).filter fun block ↦
        pool.refCnt block + -1 * orderedBlocks.count block = 0 ∧ pool.isNull block = false := by
      rw [filter_filter]
      refine filter_congr fun block hblock ↦ ?_
      by_cases hsame : block = 0
      · simp [hsame, (hpool.isNull_iff 0).2]
      · simp [hsame]
    rw [hfilter]
    exact hnodup.filter _
  have hfresh : ∀ block ∈ unused, block ∉ free := by
    intro block hblock hfree
    have hpos := hheld block ((hunused block).1 hblock).1 (hnonnull hblock)
    have hrefs := hpool.refs block (hnonnull hblock)
    have hzero := hpool.unused hfree
    omega
  obtain ⟨queue, happend, hqueue⟩ := appendN_spec hpool.represents hunusedNodup hfresh
  have hres : pool.freeBlocks orderedBlocks = (.ok (),
      { pool with
        refCnt := fun block ↦ pool.refCnt block + -1 * orderedBlocks.count block
        freeBlockQueue := queue }) := by
    simp only [BlockPool.freeBlocks, foldl_addRef]
    rw [show pool.freeBlockQueue.appendN _ = _ from happend]
  rw [hres]
  exact ⟨rfl, free ++ unused, .release hpool hbound hnodup hheld hunused hqueue⟩

end BlockPool

end Nelssa.Core
