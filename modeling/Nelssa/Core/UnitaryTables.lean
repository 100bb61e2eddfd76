import Nelssa.Core.AllocationCosts
import Nelssa.Core.HitSpecs
import Nelssa.Core.PrefixIndex

/-!
# The tables of a single full-attention group

`UnitaryKVCacheCoordinator` with full attention, where the block table of a request is one list. The
manager is the one of the spec or, as the factory builds it with a NELSSA configuration, the one that
estimates long requests differently; both hand out blocks in the same way. An
allocation puts the blocks that the prefix cache has found and fresh blocks behind the table of the
request, and enters only blocks of this table in the prefix cache, up to the tokens of the step. Blocks
that are handed out may leave the prefix cache, but none enters it unseen.
-/

namespace Nelssa.Core

open BlockHashToBlockMap Foundation.BlockArithmetic Function Foundation.Loops Manager BlockPool
open List hiding min

/-! ## Blocks in the prefix cache -/

variable {pool : BlockPool} {blockSize : ℕ} {blocks : List ℕ} {blockHashes hashes : List BlockHash}

namespace BlockPool

variable {block : ℕ}

def Published (pool : BlockPool) (block : ℕ) : Prop :=
  ∃ key, block ∈ pool.cachedBlockHashToBlock.blocksAt key

theorem SameIndex.published {other : BlockPool} (hsame : pool.SameIndex other) :
    other.Published block ↔ pool.Published block := by
  obtain ⟨_, _, rfl⟩ := hsame
  exact Iff.rfl

theorem published_pop {map : BlockHashToBlockMap} {key other : BlockHashWithGroupId} {evicted : ℕ}
    (hblock : block ∈ (map.pop key evicted).2.blocksAt other) : block ∈ map.blocksAt other := by
  by_cases hsame : other = key
  · rw [hsame, blocksAt_pop_self] at hblock
    rw [hsame]
    exact mem_of_mem_erase hblock
  · rwa [blocksAt_pop_of_ne map hsame] at hblock

theorem published_maybeEvictCachedBlock {evicted : ℕ}
    (hblock : (pool.maybeEvictCachedBlock evicted).2.Published block) : pool.Published block := by
  revert hblock
  fun_cases maybeEvictCachedBlock pool evicted with
  | case1 => exact id
  | case2 key _ map hpop | case3 key _ _ map hpop =>
    rintro ⟨other, hother⟩
    refine ⟨other, @published_pop block _ key other evicted ?_⟩
    rwa [hpop]

theorem published_claimBlocks {claimed : List ℕ}
    (hblock : (pool.claimBlocks claimed).2.Published block) : pool.Published block := by
  have hevict {pool : BlockPool} {first : ℕ} (hfirst : (if pool.enableCaching then
      (pool.maybeEvictCachedBlock first).2 else pool).Published block) : pool.Published block := by
    split at hfirst
    · exact published_maybeEvictCachedBlock hfirst
    · exact hfirst
  fun_induction claimBlocks pool claimed with
  | case1 => exact hblock
  | case2 pool first rest evicted _ ih => exact hevict (ih hblock)
  | case3 => exact hevict hblock

theorem published_getNewBlocks {numBlocks : ℤ}
    (hblock : (pool.getNewBlocks numBlocks).2.Published block) : pool.Published block := by
  revert hblock
  fun_cases getNewBlocks pool numBlocks with
  | case1 | case2 => exact id
  | case3 => exact published_claimBlocks

theorem published_cacheNewBlocks {groupId : ℕ}
    (hblock : (pool.cacheNewBlocks groupId blocks hashes).2.Published block) :
    pool.Published block ∨ block ∈ blocks := by
  fun_induction cacheNewBlocks pool groupId blocks hashes with
  | case1 | case3 | case4 | case5 => exact Or.inl hblock
  | case2 pool first rest hashes _ ih => exact (ih hblock).imp_right (mem_cons_of_mem first)
  | case6 pool first rest _ _ hash others key _ ih =>
    rcases ih hblock with ⟨other, hother⟩ | hrest
    · change block ∈ (pool.cachedBlockHashToBlock.insert key first).blocksAt other at hother
      by_cases hsame : other = key
      · rw [hsame, blocksAt_insert_self, mem_dictInsert] at hother
        exact hother.imp (fun hold ↦ ⟨key, hold⟩) fun hfirst ↦ by simp [hfirst]
      · rw [blocksAt_insert_of_ne _ hsame] at hother
        exact Or.inl ⟨other, hother⟩
    · exact Or.inr (mem_cons_of_mem first hrest)

theorem published_cacheFullBlocks {numCachedBlocks numFullBlocks groupId : ℕ}
    (hblock : (pool.cacheFullBlocks blockHashes blocks numCachedBlocks numFullBlocks blockSize
      groupId).2.Published block) : pool.Published block ∨ block ∈ blocks.take numFullBlocks := by
  revert hblock
  fun_cases cacheFullBlocks pool blockHashes blocks numCachedBlocks numFullBlocks blockSize groupId with
  | case1 | case2 | case3 => exact Or.inl
  | case4 => exact fun hblock ↦ (published_cacheNewBlocks hblock).imp_right mem_of_mem_drop

end BlockPool

variable {ρ : Type*} [DecidableEq ρ] {query : HitQuery}

/-! ## The blocks of one request -/

variable {numTokens : ℕ}

namespace ManagerBase

variable {base after : ManagerBase ρ} {rest : BlockPool} {id : ρ}

/-- The request gets blocks behind those that it has, and no block is published. -/
structure Grows (id : ρ) (base : ManagerBase ρ) (pool : BlockPool) (after : ManagerBase ρ)
    (rest : BlockPool) (added : List ℕ) : Prop where
  config : base.SameConfig after
  others : KeepsOthers id base after
  blocks : after.blocksOf id = base.blocksOf id ++ added
  published : ∀ block, rest.Published block → pool.Published block

omit [DecidableEq ρ] in
theorem SameConfig.blockSize_eq (hcfg : base.SameConfig after) : after.blockSize = base.blockSize := by
  obtain ⟨_, _, _, rfl⟩ := hcfg
  rfl

omit [DecidableEq ρ] in
theorem Grows.trans {middle : ManagerBase ρ} {between : BlockPool} {first second : List ℕ}
    (hfirst : Grows id base pool middle between first) (hsecond : Grows id middle between after rest second) :
    Grows id base pool after rest (first ++ second) where
  config := hfirst.config.trans hsecond.config
  others := hfirst.others.trans hsecond.others
  blocks := by rw [hsecond.blocks, hfirst.blocks, append_assoc]
  published := fun block hblock ↦ hfirst.published block (hsecond.published block hblock)

theorem grows_extendBlocks {numBlocks : ℤ}
    (hextend : base.extendBlocks pool id numBlocks = (.ok blocks, after, rest)) :
    Grows id base pool after rest blocks ∧ blocks.length = numBlocks.toNat := by
  have hblocks : (base.extendBlocks pool id numBlocks).1 = .ok blocks := by rw [hextend]
  have hothers := keepsOthers_extendBlocks base pool id numBlocks
  have hgrown := blocksOf_extendBlocks hblocks
  rw [hextend] at hothers hgrown
  revert hextend
  fun_cases extendBlocks base pool id numBlocks with
  | case1 => rintro ⟨⟩
  | case2 allocated fresh hnew =>
    rintro ⟨⟩
    exact ⟨⟨(sameConfig_setBlocks base id _).trans (sameConfig_recordNewBlocks _ _), hothers, hgrown,
      fun block ↦ published_getNewBlocks⟩, length_getNewBlocks hnew⟩

/-- Without skipped blocks a new request gets the blocks that were found and blocks for the tokens that
were computed elsewhere. -/
theorem grows_allocateNewComputedBlocks {found : List ℕ} {numLocal numExternal : ℕ}
    (halloc : base.allocateNewComputedBlocks pool (fun _ ↦ 0) id found numLocal numExternal =
      (.ok (), after, rest)) :
    ∃ fresh, Grows id base pool after rest (found ++ fresh) ∧ (found = [] ∨ base.blocksOf id = []) ∧
      (numExternal = 0 → fresh = []) := by
  have hmarked {skipped : ℕ} (hskipped : skipped = 0) (hempty : base.blocksOf id = [])
      (cached : ρ → Option ℕ) {exn : Except Exn Unit} : Grows id base pool
        { (base.setBlocks id (base.blocksOf id)).setBlocks id
            (replicate skipped pool.nullBlock ++ found.drop skipped) with numCachedBlock := cached }
        (if base.enableCaching then pool.touch (found.drop skipped) else
          if found.drop skipped ≠ [] then (exn, pool) else (.ok (), pool)).2 found := by
    subst hskipped
    rw [setBlocks_setBlocks]
    refine ⟨⟨_, _, _, rfl⟩, keepsOthers_setBlocks base id found, ?_, fun block hblock ↦ ?_⟩
    · rw [hempty]
      exact blocksOf_setBlocks base id found
    · split at hblock
      · exact (pool.sameIndex_touch found).published.1 hblock
      · split at hblock <;> exact hblock
  revert halloc
  fun_cases allocateNewComputedBlocks base pool (fun _ ↦ 0) id found numLocal numExternal with
  | case1 | case3 | case4 => nofun
  | case2 _ _ hfound =>
    rintro ⟨⟩
    rw [not_not.1 hfound]
    exact ⟨[], ⟨⟨_, _, _, rfl⟩, .refl id base, (append_nil _).symm, fun _ h ↦ h⟩, Or.inl rfl, fun _ ↦ rfl⟩
  | case5 _ _ hempty _ _ skipped _ external _ _ _ _ _ hext extended =>
    rcases hextended : extended with ⟨_ | fresh, _, _⟩
    · nofun
    · rintro ⟨⟩
      refine ⟨fresh, (hmarked (Nat.zero_div _) (not_not.1 hempty) _).trans (grows_extendBlocks hextended).1,
        Or.inr (not_not.1 hempty), fun hzero ↦ ?_⟩
      simp [external, hzero] at hext
  | case6 _ _ hempty =>
    simp only [Prod.mk.injEq]
    rintro ⟨-, rfl, rfl⟩
    refine ⟨[], ?_, Or.inr (not_not.1 hempty), fun _ ↦ rfl⟩
    rw [append_nil]
    exact hmarked (Nat.zero_div _) (not_not.1 hempty) _

theorem grows_allocateNewBlocks
    (halloc : base.allocateNewBlocks pool id numTokens = (.ok blocks, after, rest)) :
    Grows id base pool after rest blocks ∧ numTokens ≤ (after.blocksOf id).length * base.blockSize ∧
      (numTokens ≤ (base.blocksOf id).length * base.blockSize → blocks = []) := by
  have hopened : Grows id base pool (base.setBlocks id (base.blocksOf id)) pool [] := by
    refine ⟨sameConfig_setBlocks base id _, keepsOthers_setBlocks base id _, ?_, fun _ h ↦ h⟩
    rw [append_nil]
    exact blocksOf_setBlocks base id _
  have hfits (count : ℕ) : cdiv numTokens base.blockSize ≤ count ↔ numTokens ≤ count * base.blockSize := by
    rw [cdiv_le_iff base.blockSize_pos, Nat.mul_comm]
  unfold allocateNewBlocks at halloc
  dsimp only at halloc
  split at halloc
  · next hroom =>
    obtain ⟨rfl, rfl, rfl⟩ := halloc
    refine ⟨hopened, ?_, fun _ ↦ rfl⟩
    rw [blocksOf_setBlocks]
    exact (hfits _).1 hroom
  · next hroom =>
    obtain ⟨hgrown, hcount⟩ := grows_extendBlocks halloc
    have hall := hopened.trans hgrown
    rw [nil_append] at hall
    refine ⟨hall, ?_, fun htokens ↦ absurd ((hfits _).2 htokens) hroom⟩
    rw [hall.blocks, length_append, ← hfits]
    omega

theorem cacheBlocks_published {req : CacheRequest ρ}
    (hcache : base.cacheBlocks pool req numTokens = (.ok (), after, rest)) :
    base.SameConfig after ∧ (∀ other, after.blocksOf other = base.blocksOf other) ∧
      ∀ block, rest.Published block → pool.Published block ∨
        ∃ index, (base.blocksOf req.requestId)[index]? = some block ∧
          (index + 1) * base.blockSize ≤ numTokens := by
  have hblocks (other : ρ) := blocksOf_cacheBlocks base pool req numTokens other
  rw [hcache] at hblocks
  revert hcache
  fun_cases cacheBlocks base pool req numTokens with
  | case1 =>
    rintro ⟨⟩
    exact ⟨⟨_, _, _, rfl⟩, hblocks, fun _ ↦ Or.inl⟩
  | case2 => nofun
  | case3 =>
    rintro ⟨⟩
    refine ⟨⟨_, _, _, rfl⟩, hblocks, fun block hblock ↦ ?_⟩
    refine (published_cacheFullBlocks hblock).imp_right fun htaken ↦ ?_
    obtain ⟨index, hidx⟩ := mem_iff_getElem?.1 htaken
    rw [getElem?_take] at hidx
    split at hidx
    · next hlt => exact ⟨index, hidx, (Nat.le_div_iff_mul_le base.blockSize_pos).1 hlt⟩
    · cases hidx

end ManagerBase

open ManagerBase

/-! ## Managers with full attention -/

namespace Manager

/-- The manager of full attention, or the one that NELSSA puts in its place. -/
def IsFull : Manager ρ → Prop
  | fullAttention _ | nelssa _ _ => True
  | _ => False

variable {manager : Manager ρ}

section

variable (hfull : manager.IsFull)
include hfull

omit [DecidableEq ρ] in
theorem IsFull.withBase (base : ManagerBase ρ) : (manager.withBase base).IsFull := by
  cases manager <;> trivial

variable (pool : BlockPool)

theorem IsFull.allocateNewComputedBlocks (id : ρ) (found : List ℕ) (numLocal numExternal : ℕ) :
    manager.allocateNewComputedBlocks pool id found numLocal numExternal =
      let called := manager.base.allocateNewComputedBlocks pool (fun _ ↦ 0) id found numLocal numExternal
      (called.1, manager.withBase called.2.1, called.2.2) := by
  cases manager <;> first | rfl | exact hfull.elim

theorem IsFull.cacheBlocks (req : CacheRequest ρ) (numTokens : ℕ) :
    manager.cacheBlocks pool req numTokens =
      let called := manager.base.cacheBlocks pool req numTokens
      (called.1, manager.withBase called.2.1, called.2.2) := by
  cases manager <;> first | rfl | exact hfull.elim

theorem IsFull.free (id : ρ) :
    manager.free pool id =
      let called := manager.base.free pool id
      (called.1, manager.withBase called.2.1, called.2.2) := by
  cases manager <;> first | rfl | exact hfull.elim

theorem IsFull.removeSkippedBlocks (id : ρ) (numTokens : ℕ) :
    manager.removeSkippedBlocks pool id numTokens = (.ok (), manager, pool) := by
  cases manager <;> first | rfl | exact hfull.elim

omit [DecidableEq ρ] in
theorem IsFull.findLongestCacheHit (query : HitQuery) :
    manager.findLongestCacheHit pool query = query.fullAttention pool manager.base.kvCacheSpec := by
  cases manager <;> first | rfl | exact hfull.elim

end

omit [DecidableEq ρ] in
theorem withBase_withBase (manager : Manager ρ) (base other : ManagerBase ρ) :
    (manager.withBase base).withBase other = manager.withBase other := by
  cases manager <;> rfl

end Manager

/-! ## The KV cache manager with one group -/

variable {kv : KVCacheManager ρ}

namespace KVCacheManager

variable {after : KVCacheManager ρ} {id : ρ} {manager : Manager ρ} {req : SlotRequest ρ} {call : SlotCall}

/-- The only group has full attention, with the given number of tokens in a block. -/
def IsUnitary (kv : KVCacheManager ρ) (blockSize : ℕ) : Prop :=
  ∃ manager, kv.singleTypeManagers = [manager] ∧ manager.IsFull ∧ manager.base.blockSize = blockSize

def table (kv : KVCacheManager ρ) (id : ρ) : List ℕ := (kv.getBlocks id).headD []

omit [DecidableEq ρ] in
theorem table_of_manager (hmgr : kv.singleTypeManagers = [manager]) (id : ρ) :
    kv.table id = manager.base.blocksOf id := by
  simp [table, getBlocks, hmgr, map_cons, map_nil]

structure SameTables (kv after : KVCacheManager ρ) : Prop where
  unitary : ∀ blockSize, kv.IsUnitary blockSize → after.IsUnitary blockSize
  maxModelLen : after.maxModelLen = kv.maxModelLen
  enableCaching : after.enableCaching = kv.enableCaching
  table : ∀ id, after.table id = kv.table id
  blockPool : after.blockPool = kv.blockPool

section

omit [DecidableEq ρ]

theorem SameTables.refl (kv : KVCacheManager ρ) : kv.SameTables kv := ⟨fun _ ↦ id, rfl, rfl, fun _ ↦ rfl, rfl⟩

variable {α : Type*} (hmgr : kv.singleTypeManagers = [manager])
include hmgr

theorem runManagers_of_manager (method : ℕ → Manager ρ → BlockPool → Except Exn α × Manager ρ × BlockPool) :
    kv.runManagers method =
      let called := method 0 manager kv.blockPool
      (called.1.map fun result ↦ [result],
        { kv with singleTypeManagers := [called.2.1], blockPool := called.2.2 }) := by
  unfold runManagers
  rw [hmgr]
  unfold forEachManager
  dsimp only
  cases (method 0 manager kv.blockPool).1 <;> rfl

theorem runManagers_cases {method : ℕ → Manager ρ → BlockPool → Except Exn α × Manager ρ × BlockPool}
    {called : Except Exn α × ManagerBase ρ × BlockPool}
    (hmethod : method 0 manager kv.blockPool = (called.1, manager.withBase called.2.1, called.2.2))
    {results : List α} (hrun : kv.runManagers method = (.ok results, after)) :
    ∃ result grown pool, called = (.ok result, grown, pool) ∧
      after = { kv with singleTypeManagers := [manager.withBase grown], blockPool := pool } := by
  rw [runManagers_of_manager hmgr, hmethod] at hrun
  obtain ⟨outcome, grown, pool⟩ := called
  cases outcome with
  | error exn => cases hrun
  | ok result => exact ⟨result, grown, pool, rfl, (Prod.mk.inj hrun).2.symm⟩

end

/-- What an allocation leaves for the request `id`: its table with the blocks found in the prefix cache
and with fresh ones, and in the prefix cache at most the full blocks among `numCached` tokens. -/
structure Allocates (blockSize : ℕ) (id : ρ) (kv after : KVCacheManager ρ) (found fresh : List ℕ)
    (numCached : ℕ) : Prop where
  unitary : after.IsUnitary blockSize
  maxModelLen : after.maxModelLen = kv.maxModelLen
  others : ∀ other, other ≠ id → after.table other = kv.table other
  table : after.table id = kv.table id ++ (found ++ fresh)
  published : ∀ block, after.blockPool.Published block → kv.blockPool.Published block ∨
    ∃ index, (after.table id)[index]? = some block ∧ (index + 1) * blockSize ≤ numCached

/-- Only the table of the request `id` may differ, and at most the full blocks among its first `numTokens`
tokens enter the prefix cache. -/
structure Revises (blockSize : ℕ) (id : ρ) (kv after : KVCacheManager ρ) (numTokens : ℕ) : Prop where
  unitary : after.IsUnitary blockSize
  maxModelLen : after.maxModelLen = kv.maxModelLen
  others : ∀ other, other ≠ id → after.table other = kv.table other
  published : ∀ block, after.blockPool.Published block → kv.blockPool.Published block ∨
    ∃ index, (kv.table id)[index]? = some block ∧ (index + 1) * blockSize ≤ numTokens

section

variable (hmgr : kv.singleTypeManagers = [manager])
include hmgr

omit [DecidableEq ρ] in
theorem Allocates.of_grows {grown : ManagerBase ρ} {found fresh : List ℕ} (hfull : manager.IsFull)
    (hgrows : Grows id manager.base kv.blockPool grown pool (found ++ fresh)) (numCached : ℕ) :
    Allocates manager.base.blockSize id kv
      { kv with singleTypeManagers := [manager.withBase grown], blockPool := pool } found fresh
      numCached := by
  have htable (other : ρ) : ({ kv with
      singleTypeManagers := [manager.withBase grown], blockPool := pool } : KVCacheManager ρ).table other =
      grown.blocksOf other := by
    rw [table_of_manager rfl, base_withBase]
  refine ⟨⟨_, rfl, hfull.withBase grown, ?_⟩, rfl, fun other hne ↦ ?_, ?_, fun block hblock ↦ ?_⟩
  · rw [base_withBase]
    exact hgrows.config.blockSize_eq
  · rw [htable, table_of_manager hmgr]
    exact hgrows.others other hne
  · rw [htable, table_of_manager hmgr]
    exact hgrows.blocks
  · exact Or.inl (hgrows.published block hblock)

omit [DecidableEq ρ] in
theorem with_manager : { kv with singleTypeManagers := [manager] } = kv := by
  rw [← hmgr]

theorem removeSkippedBlocks_of_manager (hfull : manager.IsFull) (id : ρ) (numTokens : ℕ) :
    (kv.runManagers fun _ manager pool ↦ manager.removeSkippedBlocks pool id numTokens).2 = kv := by
  rw [runManagers_of_manager hmgr, hfull.removeSkippedBlocks]
  exact with_manager hmgr

end

theorem sameTables_markLongRequest (hkv : kv.IsUnitary blockSize) (id : ρ) (promptLen : ℕ) :
    kv.SameTables (kv.markLongRequest id promptLen) := by
  obtain ⟨manager, hmgr, hfull, rfl⟩ := hkv
  have hmarked : ∃ marked, (kv.markLongRequest id promptLen).singleTypeManagers = [marked] ∧
      marked.IsFull ∧ marked.base = manager.base := by
    unfold markLongRequest
    rw [hmgr]
    cases manager with
    | fullAttention base => exact ⟨_, rfl, trivial, rfl⟩
    | nelssa base state => exact ⟨_, rfl, trivial, rfl⟩
    | _ => exact hfull.elim
  obtain ⟨marked, hsingle, hmarkedFull, hbase⟩ := hmarked
  refine ⟨fun blockSize hkv ↦ ?_, rfl, rfl, fun other ↦ ?_, rfl⟩
  · obtain ⟨other, hother, -, hsize⟩ := hkv
    obtain rfl : manager = other := singleton_inj.1 (hmgr.symm.trans hother)
    exact ⟨marked, hsingle, hmarkedFull, by rw [hbase, hsize]⟩
  · rw [table_of_manager hsingle, table_of_manager hmgr, hbase]

theorem sameTables_preparedSlots (hkv : kv.IsUnitary blockSize) (req : SlotRequest ρ)
    (call : SlotCall) : kv.SameTables (kv.preparedSlots req call) := by
  have hmark := sameTables_markLongRequest hkv req.requestId req.numTokens
  obtain ⟨_, hmgr, hfull, -⟩ := hkv
  unfold preparedSlots
  dsimp only
  rw [removeSkippedBlocks_of_manager hmgr hfull]
  split
  · exact hmark
  · exact .refl kv

variable {results : List Unit}

/-- The blocks found in the prefix cache, and those for tokens computed elsewhere. -/
theorem grows_computed (hmgr : kv.singleTypeManagers = [manager]) (hfull : manager.IsFull)
    (hcomp : (if call.newComputedBlocks.isSome ∨ 0 < call.numExternalComputedTokens then
        kv.runManagers fun index manager pool ↦ match computedBlocksAt call index with
          | .error exn => (.error exn, manager, pool)
          | .ok blocks => manager.allocateNewComputedBlocks pool req.requestId blocks
              (req.numComputedTokens + call.numNewComputedTokens) call.numExternalComputedTokens
      else (.ok [], kv)) = (.ok results, after)) :
    ∃ found loaded grown pool, computedBlocksAt call 0 = .ok found ∧
      (found = [] ∨ manager.base.blocksOf req.requestId = []) ∧
      Grows req.requestId manager.base kv.blockPool grown pool (found ++ loaded) ∧
      (call.numExternalComputedTokens = 0 → loaded = []) ∧
      after = { kv with singleTypeManagers := [manager.withBase grown], blockPool := pool } := by
  split at hcomp
  · cases hfound : computedBlocksAt call 0 with
    | error exn =>
      rw [runManagers_of_manager hmgr] at hcomp
      simp only [hfound] at hcomp
      cases hcomp
    | ok found =>
      obtain ⟨_, grown, pool, hcalled, hafter⟩ := runManagers_cases hmgr
        (by simp only [hfound]; exact hfull.allocateNewComputedBlocks ..) hcomp
      obtain ⟨loaded, hgrows, hnew, hloaded⟩ := grows_allocateNewComputedBlocks hcalled
      exact ⟨found, loaded, grown, pool, rfl, hnew, hgrows, hloaded, hafter⟩
  · next hnothing =>
    obtain ⟨hnone, -⟩ := not_or.1 hnothing
    cases hcomp
    have hfound : computedBlocksAt call 0 = .ok [] := by
      rw [computedBlocksAt, Option.not_isSome_iff_eq_none.1 hnone]
    refine ⟨[], [], manager.base, kv.blockPool, hfound, Or.inl rfl,
      ⟨⟨_, _, _, rfl⟩, .refl _ _, (append_nil _).symm, fun _ h ↦ h⟩, fun _ ↦ rfl, ?_⟩
    rw [withBase_base]
    exact (with_manager hmgr).symm

section

variable (hkv : kv.IsUnitary blockSize)
include hkv

variable {newBlocks : List (List ℕ)}

theorem allocates_of_allocateBlocks (halloc : kv.allocateBlocks req call = (.ok newBlocks, after))
    (numCached : ℕ) :
    ∃ found fresh, computedBlocksAt call 0 = .ok found ∧ (found = [] ∨ kv.table req.requestId = []) ∧
      Allocates blockSize req.requestId kv after found fresh numCached ∧
      kv.numTokensNeedSlot req call ≤ (after.table req.requestId).length * blockSize ∧
      (call.numExternalComputedTokens = 0 →
        kv.maxModelLen ≤ (kv.table req.requestId ++ found).length * blockSize → fresh = []) := by
  obtain ⟨manager, hmgr, hfull, rfl⟩ := hkv
  unfold allocateBlocks at halloc
  generalize hcomp : (if call.newComputedBlocks.isSome ∨ 0 < call.numExternalComputedTokens then _
    else (Except.ok [], kv)) = computed at halloc
  obtain ⟨outcome, computed⟩ := computed
  cases outcome with
  | error exn => cases halloc
  | ok results =>
    obtain ⟨found, loaded, grown, pool, hfound, hnew, hgrows, hloaded, rfl⟩ := grows_computed hmgr hfull hcomp
    obtain ⟨blocks, last, rest, hcalled, rfl⟩ : ∃ blocks last rest,
        (manager.withBase grown).base.allocateNewBlocks pool req.requestId
            (kv.numTokensNeedSlot req call) = (.ok blocks, last, rest) ∧
          after = { kv with
            singleTypeManagers := [(manager.withBase grown).withBase last], blockPool := rest } := by
      let computed : KVCacheManager ρ :=
        { kv with singleTypeManagers := [manager.withBase grown], blockPool := pool }
      refine @runManagers_cases ρ computed after (manager.withBase grown) _ rfl _ _ ?_ newBlocks halloc
      cases manager <;> first | rfl | exact hfull.elim
    rw [base_withBase] at hcalled
    obtain ⟨hfresh, hneed, hfits⟩ := grows_allocateNewBlocks hcalled
    have hall := hgrows.trans hfresh
    rw [append_assoc] at hall
    rw [hgrows.config.blockSize_eq] at hneed hfits
    have hadds := Allocates.of_grows hmgr hfull hall numCached
    have htable := table_of_manager hmgr req.requestId
    rw [withBase_withBase]
    refine ⟨found, loaded ++ blocks, hfound, hnew.imp_right htable.trans, hadds, ?_, ?_⟩
    · rw [hadds.table, htable, ← hall.blocks]
      exact hneed
    · intro hext hlong
      rw [hloaded hext]
      apply hfits
      rw [hgrows.blocks, hloaded hext, append_nil, ← htable]
      exact (Nat.min_le_right _ _).trans hlong

theorem tables_of_cacheBlocks {req : CacheRequest ρ}
    (hcache : kv.runManagers (fun _ manager pool ↦ manager.cacheBlocks pool req numTokens) =
      (.ok results, after)) :
    Revises blockSize req.requestId kv after numTokens ∧
      after.table req.requestId = kv.table req.requestId := by
  obtain ⟨manager, hmgr, hfull, rfl⟩ := hkv
  obtain ⟨_, cached, pool, hcalled, rfl⟩ :=
    runManagers_cases hmgr (hfull.cacheBlocks kv.blockPool req numTokens) hcache
  obtain ⟨hcfg, hblocks, hpublished⟩ := cacheBlocks_published hcalled
  have htables (other : ρ) : ({ kv with
      singleTypeManagers := [manager.withBase cached], blockPool := pool } : KVCacheManager ρ).table other =
      kv.table other := by
    rw [table_of_manager hmgr, table_of_manager rfl, base_withBase]
    exact hblocks other
  refine ⟨⟨⟨_, rfl, hfull.withBase cached, ?_⟩, rfl, fun other _ ↦ htables other, fun block hblock ↦ ?_⟩,
    htables req.requestId⟩
  · rw [base_withBase]
    exact hcfg.blockSize_eq
  · rw [table_of_manager hmgr]
    exact hpublished block hblock

theorem sameTables_of_none (hnone : (kv.allocateSlots req call).1 = .ok none) :
    kv.SameTables (kv.allocateSlots req call).2 := by
  rw [allocateSlots_atomic hnone]
  exact sameTables_preparedSlots hkv req call

/-- What a successful allocation does to the table of the request and to the prefix cache. -/
theorem allocates_of_allocateSlots (halloc : (kv.allocateSlots req call).1 = .ok (some newBlocks)) :
    ∃ found fresh, computedBlocksAt call 0 = .ok found ∧ (found = [] ∨ kv.table req.requestId = []) ∧
      Allocates blockSize req.requestId kv (kv.allocateSlots req call).2 found fresh
        (kv.numTokensMainModel req call) ∧
      kv.numTokensNeedSlot req call ≤ ((kv.allocateSlots req call).2.table req.requestId).length * blockSize ∧
      (call.numExternalComputedTokens = 0 →
        kv.maxModelLen ≤ (kv.table req.requestId ++ found).length * blockSize → fresh = []) := by
  have hprepared := sameTables_preparedSlots hkv req call
  have hneedSlot : (kv.preparedSlots req call).numTokensNeedSlot req call =
      kv.numTokensNeedSlot req call := by
    simp only [numTokensNeedSlot, numTokensMainModel, hprepared.maxModelLen]
  obtain ⟨⟨⟩, -⟩ | ⟨_, middle, ⟨⟩, hblocks, hlast⟩ := allocateSlots_ok halloc
  obtain ⟨found, fresh, hfound, hnew, hadded, hneed, hfits⟩ := allocates_of_allocateBlocks
    (hprepared.unitary blockSize hkv) hblocks (kv.numTokensMainModel req call)
  rw [hprepared.table] at hnew hfits
  rw [hneedSlot] at hneed
  rw [hprepared.maxModelLen] at hfits
  have hadds : Allocates blockSize req.requestId kv middle found fresh (kv.numTokensMainModel req call) :=
    ⟨hadded.unitary, hadded.maxModelLen.trans hprepared.maxModelLen,
      fun other hne ↦ (hadded.others other hne).trans (hprepared.table other),
      by rw [hadded.table, hprepared.table],
      fun block hblock ↦ (hadded.published block hblock).imp_left fun hold ↦ hprepared.blockPool ▸ hold⟩
  refine ⟨found, fresh, hfound, hnew, ?_⟩
  rcases hlast with hsame | ⟨_, hcached⟩
  · rw [hsame]
    exact ⟨hadds, hneed, hfits⟩
  · obtain ⟨hrevises, htable⟩ := tables_of_cacheBlocks hadds.unitary hcached
    rw [← htable] at hneed
    refine ⟨⟨hrevises.unitary, hrevises.maxModelLen.trans hadds.maxModelLen,
      fun other hne ↦ (hrevises.others other hne).trans (hadds.others other hne), htable.trans hadds.table,
      fun block hblock ↦ ?_⟩, hneed, hfits⟩
    rw [htable]
    rcases hrevises.published block hblock with hold | ⟨index, hidx, hfull⟩
    · exact hadds.published block hold
    · exact Or.inr ⟨index, hidx, hfull.trans (Nat.min_le_left _ _)⟩

/-! ## Freeing and caching -/

theorem revises_free (id : ρ) (numTokens : ℕ) : Revises blockSize id kv (kv.free id).2 numTokens := by
  obtain ⟨manager, hmgr, hfull, rfl⟩ := hkv
  obtain ⟨cached, hfree⟩ : ∃ cached, (manager.base.free kv.blockPool id).2 =
      ({ manager.base with
          reqToBlocks := update manager.base.reqToBlocks id none, numCachedBlock := cached },
        (kv.blockPool.freeBlocks (manager.base.blocksOf id).reverse).2) := by
    unfold ManagerBase.free
    dsimp only
    split <;> exact ⟨_, rfl⟩
  have hfreed : (kv.free id).2 = { kv with
      singleTypeManagers := [manager.withBase (manager.base.free kv.blockPool id).2.1]
      blockPool := (manager.base.free kv.blockPool id).2.2 } := by
    unfold free
    rw [runManagers_of_manager hmgr, hfull.free]
  rw [hfreed, hfree]
  refine ⟨⟨_, rfl, hfull.withBase _, ?_⟩, rfl, fun other hne ↦ ?_, fun block hblock ↦ Or.inl ?_⟩
  · rw [base_withBase]
    rfl
  · rw [table_of_manager hmgr, table_of_manager rfl, base_withBase]
    exact congrArg (fun blocks ↦ blocks.getD []) (update_of_ne hne none manager.base.reqToBlocks)
  · exact (sameIndex_freeBlocks kv.blockPool _).published.1 hblock

omit [DecidableEq ρ] in
theorem newStepStarts_of_isUnitary : kv.newStepStarts = kv := by
  obtain ⟨manager, hmgr, hfull, -⟩ := hkv
  unfold newStepStarts
  rw [hmgr]
  cases manager with
  | fullAttention base => exact with_manager hmgr
  | nelssa base state => exact with_manager hmgr
  | _ => exact hfull.elim

theorem tables_cacheBlocks {req : CacheRequest ρ} (hcache : kv.cacheBlocks req numTokens = (.ok (), after)) :
    Revises blockSize req.requestId kv after numTokens ∧
      after.table req.requestId = kv.table req.requestId := by
  revert hcache
  fun_cases cacheBlocks kv req numTokens with
  | case1 _ cached =>
    rcases hcached : cached with ⟨_ | _, _⟩
    · nofun
    · rintro ⟨⟩
      exact tables_of_cacheBlocks hkv hcached
  | case2 =>
    rintro ⟨⟩
    exact ⟨⟨hkv, rfl, fun _ _ ↦ rfl, fun _ ↦ Or.inl⟩, rfl⟩

end

/-! ## Looking up a prefix -/

/-- `get_computed_blocks` with the unitary coordinator. All tokens but the last one may be found, and the
shared empty object stands for no blocks. -/
def getComputedBlocks (kv : KVCacheManager ρ) (useEagle skipReadingPrefixCache : Bool)
    (blockHashes : List BlockHash) (numTokens : ℕ) : Except Exn (Option (List (List ℕ)) × ℕ) :=
  if kv.enableCaching = false ∨ skipReadingPrefixCache then .ok (none, 0)
  else match kv.singleTypeManagers with
    | [manager] =>
      let base := manager.base
      (manager.findLongestCacheHit kv.blockPool
        { blockHashes, maxLength := numTokens - 1, kvCacheGroupIds := [0], useEagle
          alignmentTokens := base.blockSize, dcpWorldSize := base.dcpWorldSize
          pcpWorldSize := base.pcpWorldSize }).map fun hitBlocks ↦
        (if hitBlocks.any (· ≠ []) then some hitBlocks else none,
          (hitBlocks.headD []).length * base.blockSize)
    | _ => .error (.assertionError "UnitaryKVCacheCoordinator assumes only one kv cache group")

end KVCacheManager

theorem HitQuery.lookup_published {blockHash : BlockHash} {column : List ℕ}
    (hlookup : query.lookup pool blockHash = .ok (some column)) : pool.Published (column.getD 0 0) := by
  obtain ⟨_, hfound, hfilter⟩ := map_eq_ok_iff.1 hlookup
  obtain ⟨rfl, hcol⟩ := Option.filter_eq_some_iff.1 hfilter
  revert hfound
  fun_cases getCachedBlock pool blockHash query.kvCacheGroupIds with
  | case1 =>
    rintro ⟨⟩
    simp at hcol
  | case2 | case3 => nofun
  | case4 _ _ key _ block hblock =>
    intro hfound
    obtain ⟨_, -, hothers⟩ := map_eq_ok_iff.1 hfound
    obtain ⟨_, -, rfl⟩ := Option.map_eq_some_iff.1 hothers
    rw [getOneBlock_eq_head?] at hblock
    exact ⟨key, mem_of_head? hblock⟩

theorem HitQuery.prefixHits_published {columns : List (List ℕ)}
    (hhits : query.prefixHits pool hashes = .ok columns) :
    ∀ column ∈ columns, pool.Published (column.getD 0 0) := by
  fun_induction HitQuery.prefixHits query pool hashes generalizing columns with
  | case1 | case3 =>
    cases hhits
    simp
  | case2 => cases hhits
  | case4 hash rest first hlookup ih =>
    obtain ⟨_, hothers, rfl⟩ := map_eq_ok_iff.1 hhits
    exact forall_mem_cons.2 ⟨lookup_published hlookup, ih hothers⟩

theorem HitQuery.fullAttention_published {spec : KVCacheSpec} (hgroups : query.kvCacheGroupIds = [0])
    {hitBlocks : List (List ℕ)} (hhits : query.fullAttention pool spec = .ok hitBlocks) :
    ∃ found, hitBlocks = [found] ∧ ∀ block ∈ found, pool.Published block := by
  revert hhits
  fun_cases HitQuery.fullAttention query pool spec with
  | case1 | case2 | case3 => nofun
  | case4 _ size columns hcols _ dropped =>
    rintro ⟨⟩
    obtain ⟨_, -, htake, -⟩ := query.popUnaligned_eq_take size dropped
    rw [htake, perGroup, hgroups]
    refine ⟨_, rfl, fun block hblock ↦ ?_⟩
    obtain ⟨column, hcol, rfl⟩ := mem_map.1 hblock
    refine prefixHits_published hcols column ?_
    have htaken := mem_of_mem_take hcol
    unfold dropped at htaken
    split at htaken
    · exact mem_of_mem_dropLast htaken
    · exact htaken

omit [DecidableEq ρ] in
theorem KVCacheManager.published_of_getComputedBlocks (hkv : kv.IsUnitary blockSize)
    {useEagle skipReadingPrefixCache : Bool} {numFound : ℕ} {blocks : Option (List (List ℕ))}
    (hlookup : kv.getComputedBlocks useEagle skipReadingPrefixCache blockHashes numTokens =
      .ok (blocks, numFound)) :
    ∃ found, (blocks = none ∧ found = [] ∨ blocks = some [found]) ∧ numFound = found.length * blockSize ∧
      ∀ block ∈ found, kv.blockPool.Published block := by
  obtain ⟨_, hmgr, hfull, rfl⟩ := hkv
  unfold getComputedBlocks at hlookup
  split at hlookup
  · cases hlookup
    exact ⟨[], Or.inl ⟨rfl, rfl⟩, by simp, by simp⟩
  · rw [hmgr] at hlookup
    obtain ⟨hitBlocks, hhits, hres⟩ := map_eq_ok_iff.1 hlookup
    rw [hfull.findLongestCacheHit] at hhits
    obtain ⟨found, rfl, hpublished⟩ := HitQuery.fullAttention_published rfl hhits
    cases hres
    refine ⟨found, ?_, rfl, hpublished⟩
    cases found with
    | nil => exact Or.inl ⟨rfl, rfl⟩
    | cons first rest => exact Or.inr rfl

end Nelssa.Core
