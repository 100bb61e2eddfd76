import Nelssa.Core.CacheManager
import Nelssa.Core.PrefixIndex
import Nelssa.Foundation.Runs

/-!
# Runs of the block pool

The cache managers use one pool for all requests. A run records which holder got which block, so that
the reference count of a block can be compared with its outstanding holders. The managers touch and
cache blocks of the pool only, cache only when caching is enabled, and free the blocks of one holder at
a time: each call names a block at most once and names blocks of that holder. They may ask for a negative
number of blocks. Along every such run the prefix-cache index stays consistent, and the free queue and the
reference counts stay consistent exactly if no negative number is asked for.
-/

namespace Nelssa.Core.PoolRuns

open Foundation.Runs Foundation.LinkedQueue BlockPool BlockPool
open List hiding not_le

variable {ρ : Type*} [DecidableEq ρ]

/-- A pool with its outstanding holds, one entry per holder and block. -/
structure PoolState (ρ : Type*) where
  pool : BlockPool
  holds : List (ρ × ℕ)

inductive Op (ρ : Type*) where
  | getNewBlocks (holder : ρ) (numBlocks : ℤ)
  | touch (holder : ρ) (blocks : List ℕ)
  | freeBlocks (holder : ρ) (orderedBlocks : List ℕ)
  | cacheFullBlocks (blockHashes : List BlockHash) (blocks : List ℕ)
      (numCachedBlocks numFullBlocks blockSize kvCacheGroupId : ℕ)
  | evictBlocks (blockIds : List ℕ)
  | resetPrefixCache

/-- The blocks of a list that a holder gets or gives back; the null block has no holders. -/
def holdsOn (holder : ρ) (blocks : List ℕ) : List (ρ × ℕ) :=
  (blocks.filter (· ≠ 0)).map fun block ↦ (holder, block)

def step (state : PoolState ρ) : Op ρ → PoolState ρ
  | .getNewBlocks holder numBlocks =>
    let result := state.pool.getNewBlocks numBlocks
    ⟨result.2, match result.1 with
      | .ok blocks => state.holds ++ holdsOn holder blocks
      | .error _ => state.holds⟩
  | .touch holder blocks => ⟨(state.pool.touch blocks).2, state.holds ++ holdsOn holder blocks⟩
  | .freeBlocks holder orderedBlocks =>
    ⟨(state.pool.freeBlocks orderedBlocks).2, state.holds.diff (holdsOn holder orderedBlocks)⟩
  | .cacheFullBlocks blockHashes blocks numCachedBlocks numFullBlocks blockSize kvCacheGroupId =>
    ⟨(state.pool.cacheFullBlocks blockHashes blocks numCachedBlocks numFullBlocks blockSize
      kvCacheGroupId).2, state.holds⟩
  | .evictBlocks blockIds => ⟨(state.pool.evictBlocks blockIds).2, state.holds⟩
  | .resetPrefixCache => ⟨state.pool.resetPrefixCache.2, state.holds⟩

/-- The calls that the cache managers make. -/
def Legal (state : PoolState ρ) : Op ρ → Prop
  | .getNewBlocks _ _ => True
  | .touch _ blocks => ∀ block ∈ blocks, block < state.pool.numGpuBlocks
  | .freeBlocks holder orderedBlocks =>
    (∀ block ∈ orderedBlocks, block < state.pool.numGpuBlocks) ∧
      (orderedBlocks.filter (· ≠ 0)).Nodup ∧
      ∀ block ∈ orderedBlocks, block ≠ 0 → (holder, block) ∈ state.holds
  | .cacheFullBlocks _ blocks _ _ _ _ =>
    state.pool.enableCaching = true ∧ ∀ block ∈ blocks, block < state.pool.numGpuBlocks
  | .evictBlocks _ => True
  | .resetPrefixCache => True

instance (state : PoolState ρ) (op : Op ρ) : Decidable (Legal state op) := by
  cases op <;> unfold Legal <;> infer_instance

/-- The number of blocks that a call asks for is not negative. -/
def Op.Counts : Op ρ → Prop
  | .getNewBlocks _ numBlocks => 0 ≤ numBlocks
  | _ => True

def numHolders (holds : List (ρ × ℕ)) (block : ℕ) : ℕ := (holds.map Prod.snd).count block

/-- What one step keeps: reference counts, queue and index. -/
structure Inv (state : PoolState ρ) : Prop where
  null : state.pool.nullBlock = 0
  refs : ∃ free, state.pool.Refs (numHolders state.holds) free
  indexed : state.pool.Indexed

/-! ## Holders -/

omit [DecidableEq ρ] in
theorem numHolders_append (holds others : List (ρ × ℕ)) (block : ℕ) :
    numHolders (holds ++ others) block = numHolders holds block + numHolders others block := by
  rw [numHolders, map_append, count_append]
  rfl

omit [DecidableEq ρ] in
theorem numHolders_holdsOn (holder : ρ) (blocks : List ℕ) {block : ℕ} (hne : block ≠ 0) :
    numHolders (holdsOn holder blocks) block = blocks.count block := by
  simp only [numHolders, holdsOn, map_map, Function.comp_def, map_id']
  exact count_filter (by simpa using hne)

theorem numHolders_diff {given holds : List (ρ × ℕ)} (hnodup : given.Nodup)
    (hgiven : ∀ entry ∈ given, entry ∈ holds) (block : ℕ) :
    numHolders (holds.diff given) block + numHolders given block = numHolders holds block := by
  induction given generalizing holds with
  | nil => rfl
  | cons entry rest ih =>
    obtain ⟨hnew, hrest⟩ := nodup_cons.1 hnodup
    have hkept : ∀ other ∈ rest, other ∈ holds.erase entry := by
      intro other hother
      have hne : other ≠ entry := fun h ↦ hnew (h ▸ hother)
      exact (mem_erase_of_ne hne).2 (hgiven other (mem_cons_of_mem entry hother))
    have hperm : (holds.map Prod.snd).Perm ([entry.2] ++ (holds.erase entry).map Prod.snd) :=
      (perm_cons_erase (hgiven entry mem_cons_self)).map Prod.snd
    have htaken : numHolders holds block = [entry.2].count block + numHolders (holds.erase entry) block := by
      rw [numHolders, hperm.count_eq, count_append]
      rfl
    have hsplit : numHolders (entry :: rest) block = [entry.2].count block + numHolders rest block :=
      numHolders_append [entry] rest block
    rw [diff_cons, htaken, ← ih hrest hkept]
    omega

/-! ## Steps -/

variable {pool : BlockPool}

theorem refs_congr {held other : ℕ → ℕ} {free : List ℕ} (hpool : pool.Refs held free)
    (hsame : ∀ block, block ≠ 0 → other block = held block) : pool.Refs other free :=
  { hpool with refs := fun block hne ↦ by rw [hpool.refs block hne, hsame block hne] }

variable {state : PoolState ρ}

theorem indexed_step {op : Op ρ} (hindexed : state.pool.Indexed) (hlegal : Legal state op) :
    (step state op).pool.Indexed := by
  cases op with
  | getNewBlocks holder numBlocks => exact (hindexed.getNewBlocks numBlocks).1
  | touch holder blocks => exact (state.pool.sameIndex_touch blocks).indexed hindexed
  | freeBlocks holder orderedBlocks => exact (state.pool.sameIndex_freeBlocks orderedBlocks).indexed hindexed
  | cacheFullBlocks blockHashes blocks numCachedBlocks numFullBlocks blockSize kvCacheGroupId =>
    exact hindexed.cacheFullBlocks hlegal.1 hlegal.2 _ _ _ _ _
  | evictBlocks blockIds => exact hindexed.evictBlocks blockIds
  | resetPrefixCache => exact hindexed.resetPrefixCache

section

variable (hinv : Inv state)
include hinv

theorem inv_getNewBlocks (holder : ρ) (numBlocks : ℕ) :
    Inv (step state (.getNewBlocks holder numBlocks)) := by
  obtain ⟨free, hrefs⟩ := hinv.refs
  by_cases hnum : numBlocks ≤ state.pool.getNumFreeBlocks
  · obtain ⟨hok, hnext⟩ := hrefs.getNewBlocks hnum
    obtain ⟨_, _, _, _, hframe⟩ := state.pool.getNewBlocks_frame numBlocks
    refine ⟨?_, ⟨free.drop numBlocks, ?_⟩, indexed_step hinv.indexed trivial⟩
    · simp only [step, hframe]
      exact hinv.null
    · simp only [step, hok]
      refine refs_congr hnext fun block hne ↦ ?_
      rw [numHolders_append, numHolders_holdsOn holder _ hne]
  · simp only [step, getNewBlocks_of_lt (Nat.cast_lt.2 (not_le.1 hnum))]
    exact hinv

theorem inv_touch (holder : ρ) {blocks : List ℕ} (hlegal : Legal state (.touch holder blocks)) :
    Inv (step state (.touch holder blocks)) := by
  obtain ⟨_, hrefs⟩ := hinv.refs
  obtain ⟨-, free', hnext⟩ := hrefs.touch hlegal
  refine ⟨?_, ⟨free', refs_congr hnext fun block hne ↦ ?_⟩, indexed_step hinv.indexed hlegal⟩
  · obtain ⟨_, _, hframe⟩ := state.pool.sameIndex_touch blocks
    simp only [step, hframe]
    exact hinv.null
  · simp only [step]
    rw [numHolders_append, numHolders_holdsOn holder _ hne]

theorem inv_freeBlocks (holder : ρ) {orderedBlocks : List ℕ}
    (hlegal : Legal state (.freeBlocks holder orderedBlocks)) :
    Inv (step state (.freeBlocks holder orderedBlocks)) := by
  have hindexed := indexed_step hinv.indexed hlegal
  obtain ⟨_, hrefs⟩ := hinv.refs
  obtain ⟨hbound, hnodup, hholds⟩ := hlegal
  have hheld : ∀ block ∈ orderedBlocks, block ≠ 0 → 0 < numHolders state.holds block := by
    intro block hblock hne
    exact count_pos_iff.2 (mem_map_of_mem (f := Prod.snd) (hholds block hblock hne))
  obtain ⟨-, free', hnext⟩ := hrefs.freeBlocks hbound hnodup hheld
  have hgivenNodup : (holdsOn holder orderedBlocks).Nodup := hnodup.map fun _ _ h ↦ (Prod.mk.inj h).2
  have hgiven : ∀ entry ∈ holdsOn holder orderedBlocks, entry ∈ state.holds := by
    intro entry hentry
    obtain ⟨block, hblock, rfl⟩ := mem_map.1 hentry
    obtain ⟨hmem, hne⟩ := mem_filter.1 hblock
    exact hholds block hmem (by simpa using hne)
  refine ⟨?_, ⟨free', refs_congr hnext fun block hne ↦ ?_⟩, hindexed⟩
  · obtain ⟨_, _, hframe⟩ := state.pool.sameIndex_freeBlocks orderedBlocks
    simp only [step, hframe]
    exact hinv.null
  · have htotal := numHolders_diff hgivenNodup hgiven block
    rw [numHolders_holdsOn holder _ hne] at htotal
    simp only [step]
    omega

omit [DecidableEq ρ] in
theorem inv_of_sameBlocks (hsame : state.pool.SameBlocks pool) (hindexed : pool.Indexed) :
    Inv ⟨pool, state.holds⟩ := by
  obtain ⟨free, hrefs⟩ := hinv.refs
  refine ⟨?_, ⟨free, hsame.refs hrefs⟩, hindexed⟩
  obtain ⟨_, _, rfl⟩ := hsame
  exact hinv.null

end

theorem inv_step (state : PoolState ρ) (op : Op ρ) (hinv : Inv state) (hlegal : Legal state op)
    (hcounts : op.Counts) : Inv (step state op) := by
  have hindexed := indexed_step hinv.indexed hlegal
  cases op with
  | getNewBlocks holder numBlocks =>
    obtain ⟨count, rfl⟩ := Int.eq_ofNat_of_zero_le hcounts
    exact inv_getNewBlocks hinv holder count
  | touch holder blocks => exact inv_touch hinv holder hlegal
  | freeBlocks holder orderedBlocks => exact inv_freeBlocks hinv holder hlegal
  | cacheFullBlocks blockHashes blocks numCachedBlocks numFullBlocks blockSize kvCacheGroupId =>
    exact inv_of_sameBlocks hinv (state.pool.sameBlocks_cacheFullBlocks _ _ _ _ _ _) hindexed
  | evictBlocks blockIds => exact inv_of_sameBlocks hinv (state.pool.sameBlocks_evictBlocks blockIds) hindexed
  | resetPrefixCache => exact inv_of_sameBlocks hinv state.pool.sameBlocks_resetPrefixCache hindexed

omit [DecidableEq ρ] in
theorem inv_init {numGpuBlocks hashBlockSize : ℕ} {enableCaching : Bool}
    (hinit : init numGpuBlocks enableCaching hashBlockSize = .ok pool) :
    Inv (⟨pool, []⟩ : PoolState ρ) := by
  obtain ⟨hnull, hhash, hmap, free, hrefs⟩ := init_spec hinit
  refine ⟨hnull, ⟨free, hrefs⟩, ?_⟩
  unfold Indexed
  rw [hhash, hmap]
  exact indexInv_init _ _ _

/-! ## The representation of the pool -/

/-- The free queue is a doubly linked list of exactly the unused blocks, every reference is held by
somebody and the null block stays out of circulation. -/
structure Representation (state : PoolState ρ) : Prop where
  queue : ∃ free, IsQueue state.pool.freeBlockQueue.links free ∧
    state.pool.freeBlockQueue.numFreeBlocks = free.length ∧ state.pool.nullBlock ∉ free ∧
    ∀ block, block ≠ state.pool.nullBlock →
      (block ∈ free ↔ block < state.pool.numGpuBlocks ∧ state.pool.refCnt block = 0)
  holders : ∀ block, block ≠ state.pool.nullBlock →
    state.pool.refCnt block = numHolders state.holds block
  handedOut : ∀ numBlocks blocks, (state.pool.getNewBlocks numBlocks).1 = .ok blocks →
    state.pool.nullBlock ∉ blocks
  uncached : state.pool.blockHash state.pool.nullBlock = none ∧
    ∀ key, state.pool.nullBlock ∉ state.pool.cachedBlockHashToBlock.blocksAt key

/-- A negative number of blocks pops no block and raises the count of the free ones. -/
theorem getNewBlocks_of_neg (pool : BlockPool) {numBlocks : ℤ} (hneg : numBlocks < 0) :
    ∃ links, pool.getNewBlocks numBlocks = (.ok [], { pool with
      freeBlockQueue := ⟨(pool.freeBlockQueue.numFreeBlocks - numBlocks).toNat, links⟩ }) := by
  have hfree : ¬ (pool.freeBlockQueue.numFreeBlocks : ℤ) < numBlocks := by omega
  rw [getNewBlocks, getNumFreeBlocks, if_neg hfree, FreeKVCacheBlockQueue.popleftN, if_neg hneg.ne,
    if_neg hfree, Int.toNat_of_nonpos hneg.le]
  exact ⟨_, rfl⟩

omit [DecidableEq ρ] in
theorem Inv.null_notMem_getNewBlocks (hinv : Inv state) {numBlocks : ℤ} {blocks : List ℕ}
    (hblocks : (state.pool.getNewBlocks numBlocks).1 = .ok blocks) : 0 ∉ blocks := by
  obtain ⟨_, hrefs⟩ := hinv.refs
  rcases lt_or_ge numBlocks 0 with hneg | hcount
  · obtain ⟨_, hnew⟩ := getNewBlocks_of_neg state.pool hneg
    rw [hnew] at hblocks
    cases hblocks
    exact not_mem_nil
  · obtain ⟨count, rfl⟩ := Int.eq_ofNat_of_zero_le hcount
    by_cases hnum : count ≤ state.pool.getNumFreeBlocks
    · rw [(hrefs.getNewBlocks hnum).1] at hblocks
      cases hblocks
      exact fun h ↦ hrefs.null_free (mem_of_mem_take h)
    · rw [getNewBlocks_of_lt (Nat.cast_lt.2 (not_le.1 hnum))] at hblocks
      cases hblocks

omit [DecidableEq ρ] in
theorem Inv.representation (hinv : Inv state) : Representation state := by
  obtain ⟨free, hrefs⟩ := hinv.refs
  have hhash := hinv.indexed.null 0 ((hrefs.isNull_iff 0).2 rfl)
  refine ⟨⟨free, hrefs.represents.isQueue, hrefs.represents.count, ?_, ?_⟩, ?_, ?_, ?_⟩
  all_goals rw [hinv.null]
  · exact hrefs.null_free
  · intro block hne
    by_cases hlt : block < state.pool.numGpuBlocks
    · rw [hrefs.mem_free block hne hlt]
      exact (and_iff_right hlt).symm
    · exact iff_of_false (fun h ↦ hlt (hrefs.bound block h)) fun h ↦ hlt h.1
  · exact hrefs.refs
  · exact fun numBlocks blocks ↦ hinv.null_notMem_getNewBlocks
  · refine ⟨hhash, fun key hmem ↦ ?_⟩
    rw [hinv.indexed.indexed, hhash] at hmem
    cases hmem

/-- The count of a pool that is represented is the number of its unused blocks, so a negative number of
blocks leaves no representation. -/
theorem counts_of_representation (state : PoolState ρ) (op : Op ρ) (hinv : Inv state)
    (hafter : Representation (step state op)) : op.Counts := by
  cases op with
  | getNewBlocks holder numBlocks =>
    by_contra hneg
    obtain ⟨links, hnew⟩ := getNewBlocks_of_neg state.pool (not_le.1 hneg)
    obtain ⟨free, hqueue, hcount, hnull, hmem⟩ := hinv.representation.queue
    obtain ⟨others, hqueueAfter, hcountAfter, hnullAfter, hmemAfter⟩ := hafter.queue
    simp only [step, hnew] at hqueueAfter hcountAfter hnullAfter hmemAfter
    have hsame (block : ℕ) : block ∈ free ↔ block ∈ others := by
      by_cases hblock : block = state.pool.nullBlock
      · exact hblock ▸ iff_of_false hnull hnullAfter
      · rw [hmem block hblock, hmemAfter block hblock]
    have hlength := ((perm_ext_iff_of_nodup hqueue.nodup hqueueAfter.nodup).2 hsame).length_eq
    simp only [Op.Counts] at hneg
    omega
  | _ => trivial

/-- Along a run of the managers' calls on a fresh pool the representation is intact exactly if no call asks
for a negative number of blocks. -/
theorem representation_along_runs_iff {numGpuBlocks hashBlockSize : ℕ} {enableCaching : Bool}
    {pool : BlockPool} (hinit : init numGpuBlocks enableCaching hashBlockSize = .ok pool)
    {ops : List (Op ρ)} (hops : StepsMeet step Legal ⟨pool, []⟩ ops) :
    HoldsAlong step Representation ⟨pool, []⟩ ops ↔ ∀ op ∈ ops, op.Counts :=
  holdsAlong_iff_forall_mem inv_step counts_of_representation (fun _ ↦ Inv.representation)
    (inv_init hinit) hops

/-- Two requests share a cached block of a pool of three; the first one is freed, and the second
one is preempted and comes back to the block before the cache is reset. -/
def sharedBlockRun : List (Op ℕ) :=
  [.getNewBlocks 1 1, .cacheFullBlocks [[7]] [1] 0 1 16 0, .touch 2 [1], .freeBlocks 1 [1],
    .freeBlocks 2 [1], .touch 2 [1], .getNewBlocks 3 1, .freeBlocks 3 [2], .evictBlocks [1],
    .freeBlocks 2 [1], .resetPrefixCache]

theorem representation_along_sharedBlockRun :
    ∃ pool, init 3 true 16 = .ok pool ∧ StepsMeet step Legal ⟨pool, []⟩ sharedBlockRun ∧
      HoldsAlong step Representation ⟨pool, []⟩ sharedBlockRun :=
  ⟨_, rfl, by decide, (representation_along_runs_iff (rfl : init 3 true 16 = .ok _) (by decide)).2
    (by simp [sharedBlockRun, Op.Counts])⟩

/-- A request leaves two cached blocks behind. The next one finds both without a computed token, and comes
with 16 tokens that were computed elsewhere. -/
def cachedBlocksRun : List (Op ℕ) :=
  [.getNewBlocks 1 2, .cacheFullBlocks [[7], [8]] [1, 2] 0 2 16 0, .freeBlocks 1 [2, 1]]

/-- For its 16 tokens the manager touches the two blocks and asks for one block less than they are. -/
def negativeRun : List (Op ℕ) := cachedBlocksRun ++ [.touch 2 [1, 2], .getNewBlocks 2 (-1)]

/-- The manager makes the last two calls, and the representation is lost. -/
theorem not_representation_along_negativeRun : ∃ pool, init 3 true 16 = .ok pool ∧
    StepsMeet step Legal ⟨pool, []⟩ negativeRun ∧
    ((ManagerBase.init ⟨.mlaAttention, 16, Nat.succ_pos 15⟩ true 0 1 1 none).allocateNewComputedBlocks
        (cachedBlocksRun.foldl step ⟨pool, []⟩).pool (fun _ ↦ 0) 2 [1, 2] 0 16).2.2 =
      (negativeRun.foldl step ⟨pool, []⟩).pool ∧
    ¬ HoldsAlong step Representation ⟨pool, []⟩ negativeRun := by
  refine ⟨_, rfl, by decide, rfl, fun halong ↦ ?_⟩
  have hall := (holdsAlong_iff_forall_mem inv_step counts_of_representation (fun _ ↦ Inv.representation)
    (inv_init (rfl : init 3 true 16 = .ok _)) (by decide)).1 halong
  exact absurd (hall (.getNewBlocks 2 (-1)) (by simp [negativeRun])) (by simp [Op.Counts])

/-! ## The prefix-cache index -/

end Nelssa.Core.PoolRuns
