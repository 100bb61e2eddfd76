import Nelssa.Core.HybridPasses

/-!
# Sound cache hits of the hybrid coordinator

A hit is sound if every KV-cache group gets the blocks of exactly its length, and among them cached
blocks wherever attention needs them. The search is sound for every content of the prefix cache as long
as no Mamba group searches with EAGLE at the full alignment, where it takes the additional block
without dropping one, and as long as only the first attention group has to be trimmed at the end.
-/

namespace Nelssa.Core

open Foundation.BlockArithmetic Foundation.HitWindows List Option

theorem KVCacheSpec.firstNeeded_le {spec : KVCacheSpec} (hkind : spec.kind.isCombined = true)
    (numBlocks : ℕ) :
    spec.firstNeeded numBlocks ≤ spec.numSkippedTokens (numBlocks * spec.blockSize) / spec.blockSize := by
  have hpos := spec.blockSize_pos
  have hwindow (window : ℕ) : numBlocks - cdiv (window - 1) spec.blockSize ≤
      (numBlocks * spec.blockSize + 1 - window) / spec.blockSize := by
    rw [Nat.le_div_iff_mul_le hpos, Nat.sub_mul]
    have hcover := le_mul_cdiv hpos (window - 1)
    rw [mul_comm] at hcover
    omega
  unfold firstNeeded lookback numSkippedTokens
  cases hcases : spec.kind with
  | slidingWindow window => exact hwindow window
  | slidingWindowMLA window => exact hwindow window
  | mamba mode numSpeculativeBlocks =>
    dsimp only [MambaState.getNumSkippedTokens]
    rw [Nat.le_div_iff_mul_le hpos, Nat.sub_mul]
    omega
  | chunkedLocal chunkSize => rw [hcases] at hkind; cases hkind
  | crossAttention => rw [hcases] at hkind; cases hkind
  | _ => exact Nat.zero_le _

/-- The blocks of one KV-cache group for a hit. They have the length of the hit, and the blocks that
attention needs for the token behind it are cached blocks with the hashes of their positions. -/
def SoundFor (pool : BlockPool) (blockHashes : List BlockHash) (groupId : ℕ) (spec : KVCacheSpec)
    (blocks : List ℕ) (hitLength : ℕ) : Prop :=
  blocks.length * spec.blockSize = hitLength ∧
    ∃ hashes, pool.blockHashList blockHashes spec.blockSize = .ok hashes ∧
      ∀ index, spec.numSkippedTokens hitLength / spec.blockSize ≤ index →
        index < hitLength / spec.blockSize →
        ∃ block blockHash, blocks[index]? = some block ∧ hashes[index]? = some blockHash ∧
          pool.isNull block = false ∧ pool.Carries blockHash groupId block

variable {groupId : ℕ} {blockHashes : List BlockHash}

namespace AttentionGroup

variable {σ : Type*} {group : AttentionGroup σ} {pool : BlockPool}

theorem isNull_of_carries (hindexed : pool.Indexed) {blockHash : BlockHash} {block : ℕ}
    (hcarries : pool.Carries blockHash groupId block) : pool.isNull block = false := by
  obtain ⟨_, -, hkey⟩ := hcarries
  by_contra hnull
  rw [hindexed.null block (Bool.eq_true_of_not_eq_false hnull)] at hkey
  cases hkey

/-- A hit of an attention group is sound for its KV-cache groups, also if it is truncated and attention
needs all blocks. -/
theorem Hit.soundFor {alignment : ℕ} {columns : List (List ℕ)} (hindexed : pool.Indexed)
    (hids : ∀ groupId ∈ group.groupIds, groupId < 2 ^ 32) (hkind : group.spec.kind.isCombined = true)
    (hhashes : pool.blockHashList blockHashes group.spec.blockSize = .ok (group.hashes pool blockHashes))
    (hhit : group.Hit pool blockHashes alignment columns) {numBlocks : ℕ} (hle : numBlocks ≤ columns.length)
    (hwhole : numBlocks = columns.length ∨ group.isFullAttention = true) {pos : ℕ}
    (hid : group.groupIds[pos]? = some groupId) :
    SoundFor pool blockHashes groupId group.spec ((columns.map fun column ↦ column.getD pos 0).take numBlocks)
      (numBlocks * group.spec.blockSize) := by
  constructor
  · rw [length_take, length_map, min_eq_left hle]
  refine ⟨_, hhashes, fun index hlow hhigh ↦ ?_⟩
  rw [Nat.mul_div_cancel _ group.spec.blockSize_pos] at hhigh
  have hneeded : group.spec.firstNeeded columns.length ≤ index := by
    rcases hwhole with rfl | hfull
    · exact (KVCacheSpec.firstNeeded_le hkind _).trans hlow
    · rw [KVCacheSpec.firstNeeded_of_none (KVCacheSpec.lookback_of_isFullAttention hfull).1]
      exact Nat.zero_le index
  have hidx := hhigh.trans_le hle
  obtain ⟨column, hcol⟩ := isSome_iff_exists.1 (hhit.covered index hneeded hidx)
  have hitem := (hhit.items index hneeded hidx).trans hcol
  obtain ⟨blockHash, hhash, hall⟩ := forall₂_carries_of_cachedBlocks hindexed hids hcol
  obtain ⟨hpos, hget⟩ := List.getElem?_eq_some_iff.1 hid
  have hlen := hall.length_eq ▸ hpos
  have hcarries : pool.Carries blockHash groupId column[pos] := hget ▸ Forall₂.get hall hpos hlen
  refine ⟨column[pos], blockHash, ?_, hhash, isNull_of_carries hindexed hcarries, hcarries⟩
  rw [getElem?_take_of_lt hhigh, getElem?_map, hitem, map_some,
    getD_eq_getElem?_getD, getElem?_eq_getElem, getD_some]

end AttentionGroup

namespace HybridKVCacheCoordinator

variable {σ : Type*} {coord : HybridKVCacheCoordinator σ} {pool : BlockPool} {maxCacheHitLength : ℕ}

section

variable (coord : HybridKVCacheCoordinator σ)

structure SoundHit (pool : BlockPool) (blockHashes : List BlockHash) (maxCacheHitLength : ℕ)
    (blocks : List (List ℕ)) (hitLength : ℕ) :
    Prop where
  le : hitLength ≤ maxCacheHitLength
  aligned : coord.lcmBlockSize ∣ hitLength
  groups : ∀ (groupId : ℕ) group, coord.kvCacheGroups[groupId]? = some group →
    ∃ found, blocks[groupId]? = some found ∧
      SoundFor pool blockHashes groupId group.kvCacheSpec found hitLength

/-- The search returns a sound hit for every content of the prefix cache. -/
def SoundHits : Prop :=
  ∀ pool blockHashes maxCacheHitLength,
    coord.SearchPromise pool blockHashes maxCacheHitLength →
    ∃ blocks hitLength,
      coord.findLongestCacheHit pool blockHashes maxCacheHitLength = .ok (blocks, hitLength) ∧
      coord.SoundHit pool blockHashes maxCacheHitLength blocks hitLength

/-- Only the first attention group has to be trimmed: there are two groups, which one pass serves, or
at most one of them is full attention. -/
def TrimsFirst : Prop :=
  coord.attentionGroups.length ≤ 2 ∨
    coord.attentionGroups.countP (·.isFullAttention) ≤ 1

/-- No Mamba group with the full alignment as its block size is an EAGLE group. -/
def DropsEagleBlocks : Prop :=
  ∀ item ∈ coord.attentionGroups.zipIdx, coord.Bounded item.2 item.1

end

theorem exists_attentionGroup {member : KVCacheGroupSpec σ}
    (hmember : coord.kvCacheGroups[groupId]? = some member) :
    ∃ item ∈ coord.attentionGroups.zipIdx, ∃ pos : ℕ,
      item.1.groupIds[pos]? = some groupId ∧ item.1.spec = member.kvCacheSpec := by
  have hlt := (List.getElem?_eq_some_iff.1 hmember).1
  obtain ⟨group, hgroup, hid⟩ := mem_flatMap.1 (coord.partition.groupIds.mem_iff.2 (mem_range.2 hlt))
  obtain ⟨index, hidx⟩ := mem_iff_getElem?.1 hgroup
  obtain ⟨pos, hpos⟩ := mem_iff_getElem?.1 hid
  refine ⟨(group, index), mem_zipIdx_iff_getElem?.2 hidx, pos, hpos, ?_⟩
  have hspec := coord.partition.spec group hgroup groupId hid
  rw [hmember] at hspec
  exact (some.inj hspec).symm

variable {rest : List (AttentionGroup σ)} {first : AttentionGroup σ}

theorem truncated_eq (hgroups : coord.attentionGroups = first :: rest) (search : HitSearch)
    (hitLength groupId : ℕ) :
    coord.truncated search hitLength groupId =
      if first.isFullAttention = true ∧ groupId ∈ first.groupIds then
        (search.hitBlocksByGroup groupId).map fun blocks ↦ blocks.take (hitLength / first.spec.blockSize)
      else search.hitBlocksByGroup groupId := by
  unfold truncated
  rw [hgroups]

section

variable {limit hitLength : ℕ} {final : HitSearch} {item : AttentionGroup σ × ℕ}

variable (hspec : coord.LoopSpec pool blockHashes coord.isSimpleHybrid limit final hitLength)
  (htrims : coord.TrimsFirst) (hitem : item ∈ coord.attentionGroups.zipIdx)
include hspec htrims hitem

/-- If only the first group has to be trimmed, all other groups hold exactly the hit. -/
theorem LoopSpec.eq_of_trimsFirst (hgroups : coord.attentionGroups = first :: rest) :
    ∃ columns, final.Stores item.1 columns ∧ item.1.Hit pool blockHashes coord.lcmBlockSize columns ∧
      hitLength ≤ columns.length * item.1.spec.blockSize ∧
      (columns.length * item.1.spec.blockSize = hitLength ∨ item.2 = 0 ∧ item.1.isFullAttention = true) := by
  obtain ⟨columns, hstores, hhit, hle, hexact⟩ := hspec.holds item hitem
  refine ⟨columns, hstores, hhit, hle, ?_⟩
  have htwo := coord.one_lt_length
  have hhead (hzero : item.2 = 0) : item.1 = first := by
    have hget := mem_zipIdx_iff_getElem?.1 hitem
    rw [hzero, hgroups] at hget
    exact (some.inj hget).symm
  have hmem (hpos : item.2 ≠ 0) : item.1 ∈ rest := by
    have hget := mem_zipIdx_iff_getElem?.1 hitem
    obtain ⟨_, hidx⟩ := Nat.exists_eq_succ_of_ne_zero hpos
    rw [hidx, hgroups] at hget
    exact mem_of_getElem? hget
  have hsimple_iff : coord.isSimpleHybrid = true ↔
      coord.attentionGroups.length = 2 ∧ first.isFullAttention = true := by
    simp [isSimpleHybrid, hgroups]
  rcases hexact with hexact | ⟨hfull, hmany⟩ | ⟨hsimple, hlt⟩
  · exact .inl hexact
  · refine .inr ⟨?_, hfull⟩
    by_contra hpos
    have hfirst : first.isFullAttention = true := by
      have hpair := coord.full_first
      rw [hgroups] at hpair
      exact (pairwise_cons.1 hpair).1 item.1 (hmem hpos) hfull
    rcases htrims with htwoGroups | hcount
    · have hsimple := hsimple_iff.2 ⟨by omega, hfirst⟩
      rw [hmany] at hsimple
      cases hsimple
    · rw [hgroups, countP_cons_of_pos hfirst] at hcount
      have hnone := Nat.le_zero.1 (Nat.le_of_succ_le_succ hcount)
      exact countP_eq_zero.1 hnone item.1 (hmem hpos) hfull
  · obtain ⟨hlen, hfirst⟩ := hsimple_iff.1 hsimple
    have hzero : item.2 = 0 := by omega
    exact .inr ⟨hzero, hhead hzero ▸ hfirst⟩

/-- What the search returns for a KV-cache group: the stored blocks up to the hit. -/
theorem LoopSpec.truncated_eq_take {pos : ℕ} (hid : item.1.groupIds[pos]? = some groupId) :
    ∃ columns, item.1.Hit pool blockHashes coord.lcmBlockSize columns ∧
      hitLength / item.1.spec.blockSize ≤ columns.length ∧
      (hitLength / item.1.spec.blockSize = columns.length ∨ item.1.isFullAttention = true) ∧
      coord.truncated final hitLength groupId =
        some ((columns.map fun column ↦ column.getD pos 0).take (hitLength / item.1.spec.blockSize)) := by
  obtain ⟨first, _, hgroups⟩ := exists_cons_of_ne_nil
    (length_pos_iff.1 (Nat.zero_lt_of_lt coord.one_lt_length))
  obtain ⟨columns, hstores, hhit, hle, hexact⟩ := hspec.eq_of_trimsFirst htrims hitem hgroups
  have hpos := item.1.spec.blockSize_pos
  have hmem := mem_of_getElem? hid
  have hnum (hlen : columns.length * item.1.spec.blockSize = hitLength) :
      hitLength / item.1.spec.blockSize = columns.length := by
    rw [← hlen, Nat.mul_div_cancel _ hpos]
  refine ⟨columns, hhit, ?_, hexact.imp hnum And.right, ?_⟩
  · have hdiv := Nat.div_le_div_right (c := item.1.spec.blockSize) hle
    rwa [Nat.mul_div_cancel _ hpos] at hdiv
  rw [truncated_eq hgroups, hstores pos groupId hid]
  split
  · next hfirst =>
    -- The first group is the only one with this KV-cache group.
    have hsame : item.1 = first := by
      have hitemMem := mem_attentionGroups_of_zipIdx hitem
      have hpair := (nodup_flatMap.1 coord.nodup_flatMap_groupIds).2
      rw [hgroups] at hitemMem hpair
      refine (mem_cons.1 hitemMem).resolve_right fun hrest ↦ ?_
      exact (pairwise_cons.1 hpair).1 item.1 hrest hfirst.2 hmem
    rw [map_some, hsame]
  · next hother =>
    rcases hexact with hlen | ⟨hzero, hfull⟩
    · rw [hnum hlen, take_of_length_le (by rw [length_map])]
    · have hget := mem_zipIdx_iff_getElem?.1 hitem
      rw [hzero, hgroups] at hget
      have hsame := some.inj hget
      exact absurd ⟨hsame ▸ hfull, hsame ▸ hmem⟩ hother

end

/-- The search is sound if it searches every group with the right class, drops the EAGLE blocks and
trims what it has to trim. -/
theorem soundHits_of_trimsFirst (hcomb : coord.Combined) (hcan : coord.CanSearch)
    (htrims : coord.TrimsFirst) (hdrops : coord.DropsEagleBlocks) : coord.SoundHits := by
  intro pool blockHashes maxCacheHitLength hprom
  obtain ⟨_, hitLength, hloop, hspec⟩ := searchLoop_fresh hcomb hcan hprom hdrops _
  refine ⟨_, hitLength, by rw [findLongestCacheHit, findHit, hloop]; rfl, hspec.le, hspec.aligned, ?_⟩
  intro groupId member hmember
  obtain ⟨_, hitem, _, hid, hmemberSpec⟩ := exists_attentionGroup hmember
  have hgroup := mem_attentionGroups_of_zipIdx hitem
  have hlt := (List.getElem?_eq_some_iff.1 hmember).1
  obtain ⟨_, hhit, hnum, hwhole, htruncated⟩ := hspec.truncated_eq_take htrims hitem hid
  have hsound := hhit.soundFor hprom.indexed (hcomb.groupId_lt hgroup)
    (hcomb.kind hgroup) (hprom.hashes hgroup).1 hnum hwhole hid
  rw [Nat.div_mul_cancel ((dvd_lcmBlockSize hgroup).trans hspec.aligned), hmemberSpec] at hsound
  refine ⟨_, ?_, hsound⟩
  rw [getElem?_map, getElem?_range hlt, map_some, htruncated, getD_some, hmemberSpec]

end HybridKVCacheCoordinator

end Nelssa.Core
