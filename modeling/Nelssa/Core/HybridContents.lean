import Nelssa.Core.HybridPasses

/-!
# Contents of the prefix cache

For every choice of cached blocks for the attention groups there are a request and a pool whose prefix
cache holds exactly these blocks of the request. The request has pairwise different hashes, from which
the position of a block can be read off again, at the granularity of every group.
-/

namespace Nelssa.Core

open Function List AttentionGroup BlockPool

variable {pool : BlockPool} {blockHash : BlockHash}

namespace BlockPool

theorem exists_pool_of_keys (hashBlockSize : ℕ) (keys : List BlockHashWithGroupId) :
    ∃ pool : BlockPool, pool.Indexed ∧ (∃ held free, pool.Refs held free) ∧
      pool.hashBlockSize = hashBlockSize ∧
      ∀ key, (∃ block, pool.blockHash block = some key) ↔ key ∈ keys := by
  obtain ⟨start, hinit, hnum, hcaching, hsize, -⟩ := exists_init keys.length true hashBlockSize
  obtain ⟨-, hhashes, hmap, free, hrefs⟩ := init_spec hinit
  -- The keys are entered from the last one on, and the block with the number of the key is unused.
  have hentered : ∀ entered : List BlockHashWithGroupId, entered.length ≤ keys.length →
      ∃ pool : BlockPool, pool.Indexed ∧ start.SameBlocks pool ∧
        (∀ block, entered.length < block → pool.blockHash block = none) ∧
        ∀ key, (∃ block, pool.blockHash block = some key) ↔ key ∈ entered := by
    intro entered hlen
    induction entered with
    | nil =>
      refine ⟨start, ?_, .refl start, fun block _ ↦ by rw [hhashes], fun key ↦ ?_⟩
      · unfold Indexed
        rw [hhashes, hmap]
        exact indexInv_init _ _ _
      · rw [hhashes]
        simp
    | cons key rest ih =>
      rw [length_cons] at hlen
      obtain ⟨pool, hindexed, ⟨hashes, map, hsame⟩, hfresh, hkeys⟩ := ih (by omega)
      have hblock := hfresh _ (Nat.lt_succ_self _)
      have hnull : pool.isNull (rest.length + 1) = false := by
        rw [hsame]
        exact Bool.eq_false_iff.2 (mt (hrefs.isNull_iff _).1 (Nat.succ_ne_zero _))
      have hlt : rest.length + 1 < pool.numGpuBlocks := by
        rw [hsame]
        dsimp only
        omega
      have hpoolCaching : pool.enableCaching = true := by rw [hsame]; exact hcaching
      refine ⟨pool.insertHash (rest.length + 1) key, ?_, ⟨_, _, by rw [insertHash, hsame]⟩, ?_, ?_⟩
      · unfold Indexed at hindexed ⊢
        simp only [insertHash]
        rw [hpoolCaching] at hindexed ⊢
        exact hindexed.insertHash hblock hnull hlt key
      · intro block hgt
        rw [length_cons] at hgt
        simp only [insertHash]
        rw [update_of_ne (by omega)]
        exact hfresh block (by omega)
      · intro other
        simp only [insertHash]
        rw [mem_cons, ← hkeys]
        constructor
        · rintro ⟨block, hother⟩
          by_cases hsameBlock : block = rest.length + 1
          · rw [hsameBlock, update_self] at hother
            exact .inl (Option.some.inj hother).symm
          · rw [update_of_ne hsameBlock] at hother
            exact .inr ⟨block, hother⟩
        · rintro (rfl | ⟨block, hother⟩)
          · exact ⟨rest.length + 1, update_self ..⟩
          · refine ⟨block, ?_⟩
            rwa [update_of_ne (by rintro rfl; rw [hblock] at hother; cases hother)]
  obtain ⟨pool, hindexed, hsame, -, hkeys⟩ := hentered keys le_rfl
  refine ⟨pool, hindexed, ⟨_, free, hsame.refs hrefs⟩, ?_, hkeys⟩
  obtain ⟨_, _, rfl⟩ := hsame
  exact hsize

/-- A group finds a block under a hash exactly if the pool was given the key. -/
theorem exists_carries_iff {keys : List BlockHashWithGroupId}
    (hkeys : ∀ key, (∃ block, pool.blockHash block = some key) ↔ key ∈ keys) {groupId : ℕ}
    (hid : groupId < 2 ^ 32) :
    (∃ block, pool.Carries blockHash groupId block) ↔ blockHash ++ groupIdBytes groupId ∈ keys := by
  have hmake : makeBlockHashWithGroupId blockHash groupId = .ok (blockHash ++ groupIdBytes groupId) :=
    if_pos hid
  rw [← hkeys]
  refine exists_congr fun block ↦ ⟨?_, fun h ↦ ⟨_, hmake, h⟩⟩
  rintro ⟨key, hkey, hblock⟩
  rw [hmake] at hkey
  rw [hblock, Except.ok.inj hkey]

end BlockPool

/-- A hash from which its position can be read off. -/
def positionHash (pos : ℕ) : BlockHash := List.replicate pos 0 ++ [1]

/-- The position of the first of some joined hashes. -/
def firstPosition (blockHash : BlockHash) : ℕ := (blockHash.takeWhile (· = 0)).length

theorem firstPosition_append (pos : ℕ) (rest : BlockHash) :
    firstPosition (positionHash pos ++ rest) = pos := by
  rw [firstPosition, positionHash]
  simp

/-- The hashes of a request with as many blocks as given. -/
def positionHashes (numBlocks : ℕ) : List BlockHash := (List.range numBlocks).map positionHash

theorem firstPosition_of_blockHashList {numBlocks blockSize : ℕ} (hsize : 0 < blockSize)
    (hdvd : pool.hashBlockSize ∣ blockSize) {hashes : List BlockHash}
    (hhashes : pool.blockHashList (positionHashes numBlocks) blockSize = .ok hashes) {index : ℕ}
    (hhash : hashes[index]? = some blockHash) :
    firstPosition blockHash = index * (blockSize / pool.hashBlockSize) := by
  have hpos := Nat.pos_of_dvd_of_pos hdvd hsize
  unfold blockHashList at hhashes
  split at hhashes
  · next hsame =>
    cases hhashes
    obtain ⟨pos, hposition, rfl⟩ := Option.map_eq_some_iff.1
      ((getElem?_map (l := range numBlocks)).symm.trans hhash)
    obtain ⟨hlt, hget⟩ := List.getElem?_eq_some_iff.1 hposition
    rw [getElem_range] at hget
    rw [hsame, Nat.div_self hpos, mul_one, ← hget, ← append_nil (positionHash index), firstPosition_append]
  · rw [if_neg (not_not.2 (Nat.mod_eq_zero_of_dvd hdvd))] at hhashes
    cases hhashes
    have hscale := Nat.div_pos (Nat.le_of_dvd hsize hdvd) hpos
    generalize blockSize / pool.hashBlockSize = scaleFactor at hhash hscale ⊢
    rw [getElem?_map] at hhash
    obtain ⟨_, hposition, rfl⟩ := Option.map_eq_some_iff.1 hhash
    obtain ⟨hlt, hget⟩ := List.getElem?_eq_some_iff.1 hposition
    rw [getElem_range] at hget
    subst hget
    rw [length_range, positionHashes, length_map, length_range] at hlt
    have hstart : index * scaleFactor < numBlocks := by
      have hmul := Nat.mul_le_of_le_div _ _ _ (Nat.succ_le_of_lt hlt)
      rw [Nat.succ_mul] at hmul
      omega
    have hdrop : (positionHashes numBlocks).drop (index * scaleFactor) =
        positionHash (index * scaleFactor) :: (positionHashes numBlocks).drop (index * scaleFactor + 1) := by
      rw [drop_eq_getElem_cons (by simpa [positionHashes] using hstart)]
      simp [positionHashes]
    obtain ⟨_, rfl⟩ := Nat.exists_eq_succ_of_ne_zero hscale.ne'
    rw [hdrop, take_succ_cons, flatten_cons, firstPosition_append]

theorem AttentionGroup.hashes_congr {σ : Type*} (group : AttentionGroup σ) {other : BlockPool}
    (hsize : pool.hashBlockSize = other.hashBlockSize) (blockHashes : List BlockHash) :
    group.hashes pool blockHashes = group.hashes other blockHashes := by
  unfold hashes blockHashList
  rw [hsize]

namespace HybridKVCacheCoordinator

variable {σ : Type*} {coord : HybridKVCacheCoordinator σ}

theorem eq_of_mem_groupIds {item other : AttentionGroup σ × ℕ}
    (hitem : item ∈ coord.attentionGroups.zipIdx) (hother : other ∈ coord.attentionGroups.zipIdx)
    {groupId : ℕ} (hid : groupId ∈ item.1.groupIds) (hid' : groupId ∈ other.1.groupIds) : item = other := by
  by_contra hne
  have hsymm : Std.Symm fun item other : AttentionGroup σ × ℕ ↦
      item.1.groupIds.Disjoint other.1.groupIds := ⟨fun _ _ h ↦ h.symm⟩
  exact coord.pairwise_disjoint_zipIdx.forall hitem hother hne hid hid'

/-- The prefix cache holds exactly the chosen blocks of the attention groups. -/
def CachedAs (coord : HybridKVCacheCoordinator σ) (pool : BlockPool) (blockHashes : List BlockHash)
    (maxCacheHitLength : ℕ) (cached : AttentionGroup σ × ℕ → ℕ → Prop) : Prop :=
  ∀ item ∈ coord.attentionGroups.zipIdx, ∀ index,
    (item.1.cachedBlocks pool blockHashes index).isSome = true ↔
      index < maxCacheHitLength / item.1.spec.blockSize ∧ cached item index

theorem exists_content (hcomb : coord.Combined) (maxCacheHitLength : ℕ)
    (cached : AttentionGroup σ × ℕ → ℕ → Prop) :
    ∃ pool blockHashes, coord.SearchPromise pool blockHashes maxCacheHitLength ∧
      coord.CachedAs pool blockHashes maxCacheHitLength cached := by
  classical
  obtain ⟨empty, -, -, hemptySize, -⟩ := exists_pool_of_keys coord.hashBlockSize []
  let blockHashes := positionHashes (maxCacheHitLength / coord.hashBlockSize)
  let keys := coord.attentionGroups.zipIdx.flatMap fun item ↦
    item.1.groupIds.flatMap fun groupId ↦
      ((range (maxCacheHitLength / item.1.spec.blockSize)).filter (cached item)).flatMap fun index ↦
        ((item.1.hashes empty blockHashes)[index]?).toList.map (· ++ groupIdBytes groupId)
  obtain ⟨pool, hindexed, hrefs, hsize, hkeys⟩ := exists_pool_of_keys _ keys
  have hprom : coord.SearchPromise pool blockHashes maxCacheHitLength :=
    ⟨hindexed, hrefs, hsize, by simp [blockHashes, positionHashes]⟩
  have hmem (key : BlockHashWithGroupId) : key ∈ keys ↔
      ∃ item ∈ coord.attentionGroups.zipIdx, ∃ groupId ∈ item.1.groupIds, ∃ index blockHash,
        index < maxCacheHitLength / item.1.spec.blockSize ∧ cached item index ∧
        (item.1.hashes pool blockHashes)[index]? = some blockHash ∧
        blockHash ++ groupIdBytes groupId = key := by
    simp only [keys, mem_flatMap, mem_filter, mem_range, mem_map, Option.mem_toList,
      decide_eq_true_eq, hashes_congr _ (hemptySize.trans hsize.symm)]
    constructor
    · rintro ⟨item, hitem, groupId, hid, index, ⟨hlt, hcached⟩, blockHash, hhash, rfl⟩
      exact ⟨item, hitem, groupId, hid, index, blockHash, hlt, hcached, hhash, rfl⟩
    · rintro ⟨item, hitem, groupId, hid, index, blockHash, hlt, hcached, hhash, rfl⟩
      exact ⟨item, hitem, groupId, hid, index, ⟨hlt, hcached⟩, blockHash, hhash, rfl⟩
  refine ⟨pool, blockHashes, hprom, fun item hitem index ↦ ?_⟩
  have hgroup := mem_attentionGroups_of_zipIdx hitem
  have hids := hcomb.groupId_lt hgroup
  obtain ⟨hlist, hlen⟩ := hprom.hashes hgroup
  constructor
  · intro hsome
    obtain ⟨blockHash, hhash, -⟩ := forall₂_carries_of_cachedBlocks hindexed hids (Option.some_get hsome).symm
    obtain ⟨groupId, hid⟩ := exists_mem_of_ne_nil _ (coord.partition.groupIds_ne_nil item.1 hgroup)
    have hcarries := (isSome_cachedBlocks_iff hindexed hids hhash).1 hsome groupId hid
    obtain ⟨other, hother, groupId', hid', _, blockHash', hlt, hcached, hhash', hkey⟩ :=
      (hmem _).1 ((exists_carries_iff hkeys (hids groupId hid)).1 hcarries)
    -- The key determines the KV-cache group and the position of the block.
    obtain ⟨rfl, rfl⟩ : blockHash = blockHash' ∧ groupId = groupId' := by
      have hmake : makeBlockHashWithGroupId blockHash groupId = .ok (blockHash ++ groupIdBytes groupId) :=
        if_pos (hids groupId hid)
      have hmake' : makeBlockHashWithGroupId blockHash' groupId' =
          .ok (blockHash ++ groupIdBytes groupId) := by
        rw [← hkey]
        exact if_pos (hcomb.groupId_lt (mem_attentionGroups_of_zipIdx hother) groupId' hid')
      obtain ⟨hfirst, hsecond⟩ := makeBlockHashWithGroupId_eq_ok hmake
      obtain ⟨hfirst', hsecond'⟩ := makeBlockHashWithGroupId_eq_ok hmake'
      exact ⟨hfirst.symm.trans hfirst', hsecond.symm.trans hsecond'⟩
    obtain rfl : item = other := eq_of_mem_groupIds hitem hother hid hid'
    obtain ⟨member, hmember, hspec⟩ := exists_mem_kvCacheGroups hgroup
    have hdvd : pool.hashBlockSize ∣ item.1.spec.blockSize := by
      rw [hsize, ← hspec]
      exact coord.hashBlockSize_dvd member hmember
    have hpos := item.1.spec.blockSize_pos
    have hposition := firstPosition_of_blockHashList hpos hdvd hlist hhash
    rw [firstPosition_of_blockHashList hpos hdvd hlist hhash'] at hposition
    have hscale := Nat.div_pos (Nat.le_of_dvd hpos hdvd) (Nat.pos_of_dvd_of_pos hdvd hpos)
    obtain rfl := Nat.eq_of_mul_eq_mul_right hscale hposition
    exact ⟨hlt, hcached⟩
  · rintro ⟨hlt, hcached⟩
    have hhash := getElem?_eq_getElem (hlt.trans_le (hlen _ le_rfl))
    refine (isSome_cachedBlocks_iff hindexed hids hhash).2 fun groupId hid ↦ ?_
    refine (exists_carries_iff hkeys (hids groupId hid)).2 ((hmem _).2 ?_)
    exact ⟨item, hitem, groupId, hid, index, _, hlt, hcached, hhash, rfl⟩

end HybridKVCacheCoordinator

end Nelssa.Core
