import Nelssa.Core.PoolRefs

/-!
# The prefix-cache index

`IndexInv` says that the hash map and the hashes stored with the blocks describe the same relation, so a
block is found under its own key and under no other. Evicting a block removes exactly its entry, and
caching a full block adds exactly one. Operations on reference counts and on the free queue do not
touch the index.
-/

namespace Nelssa.Core

open BlockHashToBlockMap Function List

section

variable (numBlocks : ℕ) (enableCaching : Bool) (isNull : ℕ → Bool)

/-- The map holds a block under a key exactly when the block carries that key. -/
structure IndexInv (blockHash : ℕ → Option BlockHashWithGroupId) (map : BlockHashToBlockMap) : Prop where
  indexed : ∀ key block, block ∈ map.blocksAt key ↔ blockHash block = some key
  distinct : map.Distinct
  null : ∀ block, isNull block = true → blockHash block = none
  bound : ∀ block, blockHash block ≠ none → block < numBlocks
  disabled : enableCaching = false → ∀ block, blockHash block = none

theorem indexInv_init : IndexInv numBlocks enableCaching isNull (fun _ ↦ none) .init where
  indexed := by simp [blocksAt, init]
  distinct := fun _ ↦ nodup_nil
  null := fun _ _ ↦ rfl
  bound := fun _ h ↦ absurd rfl h
  disabled := fun _ _ ↦ rfl

end

namespace IndexInv

variable {numBlocks : ℕ} {enableCaching : Bool} {isNull : ℕ → Bool}
  {blockHash : ℕ → Option BlockHashWithGroupId} {map : BlockHashToBlockMap}

theorem evict (hinv : IndexInv numBlocks enableCaching isNull blockHash map) {block : ℕ}
    {key : BlockHashWithGroupId} (hkey : blockHash block = some key) :
    IndexInv numBlocks enableCaching isNull (update blockHash block none) (map.pop key block).2 where
  indexed := by
    intro other candidate
    by_cases hcand : candidate = block
    · subst candidate
      refine iff_of_false ?_ (by simp)
      by_cases hother : other = key
      · subst other
        rw [blocksAt_pop_self]
        exact (hinv.distinct key).not_mem_erase
      · rw [blocksAt_pop_of_ne map hother, hinv.indexed, hkey]
        exact fun h ↦ hother (Option.some_inj.1 h).symm
    · rw [update_of_ne hcand, ← hinv.indexed]
      by_cases hother : other = key
      · subst other
        rw [blocksAt_pop_self, mem_erase_of_ne hcand]
      · rw [blocksAt_pop_of_ne map hother]
  distinct := hinv.distinct.pop key block
  null := by
    intro other hnull
    by_cases hother : other = block
    · rw [hother, update_self]
    · rw [update_of_ne hother]
      exact hinv.null other hnull
  bound := by
    intro other hsome
    by_cases hother : other = block
    · exact hinv.bound other (by rw [hother, hkey]; simp)
    · rw [update_of_ne hother] at hsome
      exact hinv.bound other hsome
  disabled := by
    intro hdisabled other
    rw [hinv.disabled hdisabled] at hkey
    cases hkey

theorem insertHash (hinv : IndexInv numBlocks true isNull blockHash map) {block : ℕ}
    (hnew : blockHash block = none) (hnull : isNull block = false) (hblock : block < numBlocks)
    (key : BlockHashWithGroupId) :
    IndexInv numBlocks true isNull (update blockHash block (some key)) (map.insert key block) where
  indexed := by
    intro other candidate
    have hold := hinv.indexed other candidate
    by_cases hother : other = key
    · subst other
      rw [blocksAt_insert_self, mem_dictInsert, hold]
      by_cases hcand : candidate = block
      · simp [hcand]
      · simp [hcand]
    · rw [blocksAt_insert_of_ne map hother, hold]
      by_cases hcand : candidate = block
      · subst candidate
        rw [hnew]
        simp [Ne.symm hother]
      · rw [update_of_ne hcand]
  distinct := hinv.distinct.insert key block
  null := by
    intro other hother
    have hne : other ≠ block := by
      rintro rfl
      rw [hnull] at hother
      exact Bool.false_ne_true hother
    rw [update_of_ne hne]
    exact hinv.null other hother
  bound := by
    intro other hsome
    by_cases hother : other = block
    · rw [hother]
      exact hblock
    · rw [update_of_ne hother] at hsome
      exact hinv.bound other hsome
  disabled := by simp

end IndexInv

namespace BlockPool

variable {pool : BlockPool}

def Indexed (pool : BlockPool) : Prop :=
  IndexInv pool.numGpuBlocks pool.enableCaching pool.isNull pool.blockHash pool.cachedBlockHashToBlock

/-- Everything but the reference counts and the free queue. -/
def SameIndex (pool other : BlockPool) : Prop :=
  ∃ refs queue, other = { pool with refCnt := refs, freeBlockQueue := queue }

theorem SameIndex.indexed {other : BlockPool} (hsame : pool.SameIndex other)
    (hpool : pool.Indexed) : other.Indexed := by
  obtain ⟨_, _, rfl⟩ := hsame
  exact hpool

theorem SameIndex.trans {middle other : BlockPool} (hfirst : pool.SameIndex middle)
    (hsecond : middle.SameIndex other) : pool.SameIndex other := by
  obtain ⟨_, _, rfl⟩ := hfirst
  obtain ⟨refs', queue', rfl⟩ := hsecond
  exact ⟨refs', queue', rfl⟩

theorem sameIndex_touch (pool : BlockPool) (blocks : List ℕ) : pool.SameIndex (pool.touch blocks).2 := by
  fun_induction touch pool blocks with
  | case1 | case2 => exact ⟨_, _, rfl⟩
  | case3 pool block rest _ queue _ ih =>
    have hstep : pool.SameIndex ({ pool with freeBlockQueue := queue }.addRef block 1) := ⟨_, _, rfl⟩
    exact hstep.trans ih
  | case4 pool block rest _ ih =>
    have hstep : pool.SameIndex (pool.addRef block 1) := ⟨_, _, rfl⟩
    exact hstep.trans ih

theorem sameIndex_freeBlocks (pool : BlockPool) (orderedBlocks : List ℕ) :
    pool.SameIndex (pool.freeBlocks orderedBlocks).2 := by
  unfold freeBlocks
  simp only [foldl_addRef]
  split <;> exact ⟨_, _, rfl⟩

/-! ## Evicting blocks -/

variable {blocks : List ℕ}

section

variable (hpool : pool.Indexed)
include hpool

/-- A block that carries a hash is always found, and its entry is all that changes. -/
theorem Indexed.maybeEvictCachedBlock (block : ℕ) :
    (pool.maybeEvictCachedBlock block).1 = (pool.blockHash block).isSome ∧
      (pool.maybeEvictCachedBlock block).2.Indexed ∧
      (pool.maybeEvictCachedBlock block).2.blockHash = update pool.blockHash block none := by
  cases hkey : pool.blockHash block with
  | none =>
    have hsame : update pool.blockHash block none = pool.blockHash := by
      rw [← hkey, update_eq_self]
    simp only [BlockPool.maybeEvictCachedBlock, hkey, hsame]
    exact ⟨rfl, hpool, trivial⟩
  | some key =>
    have hmem := (hpool.indexed key block).2 hkey
    have hpop : pool.cachedBlockHashToBlock.pop key block =
        (some block, (pool.cachedBlockHashToBlock.pop key block).2) := by
      rw [← pop_fst_of_mem hmem]
    simp only [BlockPool.maybeEvictCachedBlock, hkey]
    rw [hpop]
    exact ⟨rfl, hpool.evict hkey, rfl⟩

theorem Indexed.evictBlocks (blockIds : List ℕ) : (pool.evictBlocks blockIds).2.Indexed := by
  induction blockIds generalizing pool with
  | nil => exact hpool
  | cons blockId rest ih =>
    unfold evictBlocks
    split
    · exact ih (hpool.maybeEvictCachedBlock blockId).2.1
    · exact hpool

theorem Indexed.resetPrefixCache : pool.resetPrefixCache.2.Indexed := by
  unfold BlockPool.resetPrefixCache
  dsimp only
  split
  · exact hpool
  · -- A hash behind the last block would contradict the bound, so every hash is cleared.
    have hcleared : (fun block ↦ if block < pool.numGpuBlocks then none else pool.blockHash block) =
        fun _ ↦ none := by
      funext block
      split
      · rfl
      · by_contra hsome
        exact absurd (hpool.bound block hsome) ‹_›
    have hempty : IndexInv pool.numGpuBlocks pool.enableCaching pool.isNull (fun _ ↦ none) .init :=
      indexInv_init _ _ _
    rwa [← hcleared] at hempty

/-! ## Handing out and caching blocks -/

theorem Indexed.claimBlocks (blocks : List ℕ) :
    (pool.claimBlocks blocks).2.Indexed ∧
      ∀ block, (block ∈ blocks ∧ (pool.claimBlocks blocks).1 = .ok () ∨ pool.blockHash block = none) →
        (pool.claimBlocks blocks).2.blockHash block = none := by
  induction blocks generalizing pool with
  | nil => exact ⟨hpool, fun block h ↦ h.elim (fun hmem ↦ absurd hmem.1 (by simp)) id⟩
  | cons block rest ih =>
    let evicted := if pool.enableCaching then (pool.maybeEvictCachedBlock block).2 else pool
    have hevicted : evicted.Indexed ∧
        ∀ other, other = block ∨ pool.blockHash other = none → evicted.blockHash other = none := by
      dsimp only [evicted]
      split
      · obtain ⟨-, hindexed, hhash⟩ := hpool.maybeEvictCachedBlock block
        refine ⟨hindexed, fun other hother ↦ ?_⟩
        rw [hhash]
        by_cases hsame : other = block
        · rw [hsame, update_self]
        · rw [update_of_ne hsame]
          exact hother.resolve_left hsame
      · exact ⟨hpool, fun other _ ↦ hpool.disabled (Bool.eq_false_iff.2 ‹_›) other⟩
    have hadded : (evicted.addRef block 1).Indexed := hevicted.1
    unfold claimBlocks
    by_cases hzero : evicted.refCnt block = 0
    · rw [if_pos hzero]
      obtain ⟨hindexed, hcleared⟩ := ih hadded
      refine ⟨hindexed, fun other hother ↦ hcleared other ?_⟩
      rcases hother with ⟨hmem, hok⟩ | hnone
      · rcases mem_cons.1 hmem with hsame | hrest
        · exact .inr (hevicted.2 other (.inl hsame))
        · exact .inl ⟨hrest, hok⟩
      · exact .inr (hevicted.2 other (.inr hnone))
    · rw [if_neg hzero]
      refine ⟨hevicted.1, fun other hother ↦ ?_⟩
      rcases hother with ⟨-, hok⟩ | hnone
      · cases hok
      · exact hevicted.2 other (.inr hnone)

theorem Indexed.getNewBlocks (numBlocks : ℤ) :
    (pool.getNewBlocks numBlocks).2.Indexed ∧
      ∀ blocks, (pool.getNewBlocks numBlocks).1 = .ok blocks → ∀ block ∈ blocks,
        (pool.getNewBlocks numBlocks).2.blockHash block = none := by
  fun_cases BlockPool.getNewBlocks pool numBlocks with
  | case1 | case2 => exact ⟨hpool, by rintro _ ⟨⟩⟩
  | case3 _ popped queue =>
    have hqueue : { pool with freeBlockQueue := queue }.Indexed := hpool
    obtain ⟨hindexed, hcleared⟩ := hqueue.claimBlocks popped
    refine ⟨hindexed, fun blocks hok block hblock ↦ ?_⟩
    dsimp only at hok ⊢
    cases hres : ({ pool with freeBlockQueue := queue }.claimBlocks popped).1 with
    | error exn =>
      rw [hres] at hok
      cases hok
    | ok value =>
      rw [hres] at hok
      cases hok
      exact hcleared block (.inl ⟨hblock, hres⟩)

theorem Indexed.cacheNewBlocks {groupId : ℕ} {hashes : List BlockHash}
    (hcaching : pool.enableCaching = true) (hblocks : ∀ block ∈ blocks, block < pool.numGpuBlocks) :
    (pool.cacheNewBlocks groupId blocks hashes).2.Indexed := by
  induction blocks generalizing pool hashes with
  | nil => exact hpool
  | cons block rest ih =>
    have hrest := fun other hother ↦
      hblocks other (mem_cons_of_mem block hother)
    unfold cacheNewBlocks
    by_cases hnull : pool.isNull block = true
    · rw [if_pos hnull]
      exact ih hpool hcaching hrest
    by_cases hhash : pool.blockHash block = none
    · rw [if_neg hnull, if_neg (not_not.2 hhash)]
      cases hashes with
      | nil => exact hpool
      | cons hash others =>
        cases hkey : makeBlockHashWithGroupId hash groupId with
        | error exn =>
          simp only [hkey]
          exact hpool
        | ok key =>
          simp only [hkey]
          have hinsert : (pool.insertHash block key).Indexed := by
            unfold Indexed at hpool ⊢
            simp only [insertHash]
            rw [hcaching] at hpool ⊢
            exact hpool.insertHash hhash (Bool.eq_false_iff.2 hnull) (hblocks block mem_cons_self) key
          exact ih hinsert hcaching hrest
    · rw [if_neg hnull, if_pos hhash]
      exact hpool

theorem Indexed.cacheFullBlocks (hcaching : pool.enableCaching = true)
    (hblocks : ∀ block ∈ blocks, block < pool.numGpuBlocks) (blockHashes : List BlockHash)
    (numCachedBlocks numFullBlocks blockSize groupId : ℕ) :
    (pool.cacheFullBlocks blockHashes blocks numCachedBlocks numFullBlocks blockSize groupId).2.Indexed := by
  unfold BlockPool.cacheFullBlocks
  split
  · exact hpool
  · split
    · exact hpool
    · split
      · exact hpool
      · exact hpool.cacheNewBlocks hcaching fun block hblock ↦
          hblocks block (mem_of_mem_take (mem_of_mem_drop hblock))

end

/-! ## Looking up blocks -/

def Carries (pool : BlockPool) (blockHash : BlockHash) (groupId block : ℕ) : Prop :=
  ∃ key, makeBlockHashWithGroupId blockHash groupId = .ok key ∧ pool.blockHash block = some key

variable {groupIds : List ℕ}

theorem exists_carries_of_forall₂ {blockHash : BlockHash}
    (hcarry : List.Forall₂ (pool.Carries blockHash) groupIds blocks) {groupId : ℕ}
    (hgroupId : groupId ∈ groupIds) : ∃ block, pool.Carries blockHash groupId block := by
  induction hcarry with
  | nil => cases hgroupId
  | cons hfirst _ ih =>
    rcases mem_cons.1 hgroupId with rfl | hrest
    · exact ⟨_, hfirst⟩
    · exact ih hrest

/-- A lookup finds a carrying block for every group, or misses exactly when a group has none. -/
theorem Indexed.getCachedBlock (hpool : pool.Indexed) (blockHash : BlockHash)
    (hgroups : ∀ groupId ∈ groupIds, groupId < 2 ^ 32) :
    (∃ blocks, pool.getCachedBlock blockHash groupIds = .ok (some blocks) ∧
        List.Forall₂ (pool.Carries blockHash) groupIds blocks) ∨
      (pool.getCachedBlock blockHash groupIds = .ok none ∧
        ∃ groupId ∈ groupIds, ∀ block, ¬ pool.Carries blockHash groupId block) := by
  induction groupIds with
  | nil => exact .inl ⟨[], rfl, .nil⟩
  | cons groupId rest ih =>
    have hkey : makeBlockHashWithGroupId blockHash groupId =
        .ok (blockHash ++ groupIdBytes groupId) := if_pos (hgroups groupId mem_cons_self)
    simp only [BlockPool.getCachedBlock, hkey, getOneBlock_eq_head?]
    cases hblocks : pool.cachedBlockHashToBlock.blocksAt (blockHash ++ groupIdBytes groupId) with
    | nil =>
      refine .inr ⟨rfl, groupId, mem_cons_self, ?_⟩
      rintro block ⟨key, hmake, hcarries⟩
      rw [hkey] at hmake
      cases hmake
      have hmem := (hpool.indexed _ block).2 hcarries
      rw [hblocks] at hmem
      cases hmem
    | cons block others =>
      have hcarries : pool.Carries blockHash groupId block := by
        refine ⟨_, hkey, (hpool.indexed _ block).1 ?_⟩
        rw [hblocks]
        exact mem_cons_self
      rcases ih fun other hother ↦ hgroups other (mem_cons_of_mem groupId hother) with
        ⟨found, hfound, hall⟩ | ⟨hmiss, missing, hmem, hnone⟩
      · exact .inl ⟨block :: found, by rw [hfound]; rfl, .cons hcarries hall⟩
      · exact .inr ⟨by rw [hmiss]; rfl, missing, mem_cons_of_mem groupId hmem, hnone⟩

end BlockPool

end Nelssa.Core
