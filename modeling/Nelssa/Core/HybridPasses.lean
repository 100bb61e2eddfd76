import Nelssa.Core.HybridHits
import Nelssa.Core.PrefixIndex

/-!
# Passes over the attention groups

What one visit of an attention group, one pass over all of them and the whole search do. A visit finds
the blocks that the description of its search promises. As long as no visit returns more than the
candidate length, the candidate only shrinks, and at the end every group holds a hit of at least its
length.
-/

namespace Nelssa.Core

open Foundation.HitWindows Foundation.Scatter AttentionGroup Option
open List hiding min not_le

/-- The types of attention with a search for cache hits that the coordinator combines: full attention,
sliding windows and Mamba. -/
def SpecKind.isCombined : SpecKind → Bool
  | chunkedLocal _ | crossAttention => false
  | _ => true

/-- All other types of attention that the coordinator combines look back on a window. -/
theorem KVCacheSpec.lookback_ne_none {spec : KVCacheSpec} (hkind : spec.kind.isCombined = true)
    (hother : spec.kind.isFullAttention = false) : spec.lookback ≠ none := by
  cases hcases : spec.kind <;>
    simp_all [lookback, SpecKind.isCombined, SpecKind.isFullAttention]

/-- The hashes at the granularity of a group reach as far as the hashes of the request. -/
theorem BlockPool.blockHashList_eq_ok {pool : BlockPool} {blockSize : ℕ}
    (hdvd : pool.hashBlockSize ∣ blockSize) (blockHashes : List BlockHash) :
    ∃ hashes, pool.blockHashList blockHashes blockSize = .ok hashes ∧
      ∀ length, length / pool.hashBlockSize ≤ blockHashes.length → length / blockSize ≤ hashes.length := by
  unfold blockHashList
  split
  · next hsame =>
    rw [hsame]
    exact ⟨blockHashes, rfl, fun length hlen ↦ hlen⟩
  · rw [if_neg (not_not.2 (Nat.mod_eq_zero_of_dvd hdvd))]
    refine ⟨_, rfl, fun length hlen ↦ ?_⟩
    rw [length_map, length_range]
    calc length / blockSize
        = length / pool.hashBlockSize / (blockSize / pool.hashBlockSize) := by
          rw [Nat.div_div_eq_div_mul, Nat.mul_div_cancel' hdvd]
      _ ≤ blockHashes.length / (blockSize / pool.hashBlockSize) := Nat.div_le_div_right hlen

variable {index : ℕ} {σ : Type*}

namespace AttentionGroup

variable (group : AttentionGroup σ) (pool : BlockPool) (blockHashes : List BlockHash)

/-- The hashes of a request at the granularity of the group. -/
def hashes : List BlockHash :=
  match pool.blockHashList blockHashes group.spec.blockSize with
  | .ok hashes => hashes
  | .error _ => []

/-- The cached blocks of all KV-cache groups at an index. -/
def cachedBlocks (index : ℕ) : Option (List ℕ) :=
  ((group.hashes pool blockHashes)[index]?).bind fun blockHash ↦
    match pool.getCachedBlock blockHash group.groupIds with
    | .ok found => found
    | .error _ => none

def blocksByGroup (columns : List (List ℕ)) : List (List ℕ) :=
  (List.range group.groupIds.length).map fun pos ↦ columns.map fun column ↦ column.getD pos 0

/-- A hit of the group: an aligned number of blocks that holds the cached blocks that attention needs. -/
structure Hit (alignment : ℕ) (columns : List (List ℕ)) : Prop where
  aligned : alignment ∣ columns.length * group.spec.blockSize
  covered : Covered (group.cachedBlocks pool blockHashes) (group.spec.firstNeeded columns.length)
    columns.length
  items : ∀ index, group.spec.firstNeeded columns.length ≤ index → index < columns.length →
    columns[index]? = group.cachedBlocks pool blockHashes index

variable {group pool blockHashes}

section

variable (hindexed : pool.Indexed) (hids : ∀ groupId ∈ group.groupIds, groupId < 2 ^ 32)
include hindexed hids

theorem forall₂_carries_of_cachedBlocks {column : List ℕ}
    (hcol : group.cachedBlocks pool blockHashes index = some column) :
    ∃ blockHash, (group.hashes pool blockHashes)[index]? = some blockHash ∧
      List.Forall₂ (pool.Carries blockHash) group.groupIds column := by
  obtain ⟨blockHash, hhash, hfound⟩ := bind_eq_some_iff.1 hcol
  refine ⟨blockHash, hhash, ?_⟩
  rcases hindexed.getCachedBlock blockHash hids with ⟨_, hblocks, hall⟩ | ⟨hmiss, -⟩
  · rw [hblocks] at hfound
    exact some.inj hfound ▸ hall
  · rw [hmiss] at hfound
    cases hfound

theorem isSome_cachedBlocks_iff {blockHash : BlockHash}
    (hhash : (group.hashes pool blockHashes)[index]? = some blockHash) :
    (group.cachedBlocks pool blockHashes index).isSome ↔
      ∀ groupId ∈ group.groupIds, ∃ block, pool.Carries blockHash groupId block := by
  rw [cachedBlocks, hhash, bind_some]
  rcases hindexed.getCachedBlock blockHash hids with ⟨_, hblocks, hall⟩ | ⟨hmiss, groupId, hid, hnone⟩
  · rw [hblocks]
    exact iff_of_true rfl fun groupId hid ↦ BlockPool.exists_carries_of_forall₂ hall hid
  · rw [hmiss]
    exact iff_of_false Bool.false_ne_true fun hall ↦ (hall groupId hid).elim hnone

theorem looks_cachedBlocks
    (hne : group.groupIds ≠ []) {bound : ℕ} (hbound : bound ≤ (group.hashes pool blockHashes).length)
    (maxLength : ℕ) (useEagle : Bool) (alignmentTokens : ℕ) :
    (group.hitQuery (group.hashes pool blockHashes) maxLength useEagle alignmentTokens).Looks pool
      (group.cachedBlocks pool blockHashes) bound := by
  intro index hidx
  have hhash := getElem?_eq_getElem (hidx.trans_le hbound)
  refine ⟨_, hhash, ?_⟩
  rw [cachedBlocks, hhash, bind_some]
  rcases hindexed.getCachedBlock (group.hashes pool blockHashes)[index] hids with
    ⟨blocks, hblocks, hall⟩ | ⟨hmiss, -⟩
  · have hblocksNe : blocks ≠ [] := by
      rintro rfl
      exact hne (length_eq_zero_iff.1 hall.length_eq)
    change (pool.getCachedBlock _ group.groupIds).map _ = _
    rw [hblocks]
    simp [Except.map, hblocksNe]
  · change (pool.getCachedBlock _ group.groupIds).map _ = _
    rw [hmiss]
    rfl

end

end AttentionGroup

variable {columns : List (List ℕ)} {next : HitSearch} {group : AttentionGroup σ} {search : HitSearch}

namespace HitSearch

variable {other : AttentionGroup σ}

section

variable (search : HitSearch) (group : AttentionGroup σ)

/-- The search holds these blocks for the KV-cache groups of an attention group. -/
def Stores (columns : List (List ℕ)) : Prop :=
  ∀ pos groupId, group.groupIds[pos]? = some groupId →
    search.hitBlocksByGroup groupId = some (columns.map fun column ↦ column.getD pos 0)

/-- The search holds no blocks for an attention group yet. -/
def Fresh : Prop :=
  ∀ groupId ∈ group.groupIds, search.hitBlocksByGroup groupId = none

end

section

variable (hstores : search.Stores group columns)
include hstores

theorem Stores.not_fresh (hne : group.groupIds ≠ []) : ¬ search.Fresh group := by
  obtain ⟨groupId, _, hids⟩ := exists_cons_of_ne_nil hne
  intro hfresh
  have hnone := hfresh groupId (by rw [hids]; exact mem_cons_self)
  rw [hstores 0 groupId (by rw [hids]; rfl)] at hnone
  cases hnone

theorem Stores.ne_none : ∀ groupId ∈ group.groupIds, search.hitBlocksByGroup groupId ≠ none := by
  intro groupId hid
  obtain ⟨pos, hpos⟩ := mem_iff_getElem?.1 hid
  rw [hstores pos groupId hpos]
  exact some_ne_none _

theorem Stores.congr (hsame : ∀ groupId ∈ group.groupIds,
      next.hitBlocksByGroup groupId = search.hitBlocksByGroup groupId) : next.Stores group columns := by
  intro pos groupId hid
  rw [hsame groupId (mem_of_getElem? hid)]
  exact hstores pos groupId hid

end

theorem fresh_congr (hsame : ∀ groupId ∈ group.groupIds,
    next.hitBlocksByGroup groupId = search.hitBlocksByGroup groupId) :
    next.Fresh group ↔ search.Fresh group :=
  forall₂_congr fun groupId hid ↦ by rw [hsame groupId hid]

theorem Stores.length_eq {others : List (List ℕ)} (hstores : search.Stores group columns)
    (hothers : search.Stores group others) (hne : group.groupIds ≠ []) :
    columns.length = others.length := by
  obtain ⟨groupId, _, hids⟩ := exists_cons_of_ne_nil hne
  have hfirst : group.groupIds[0]? = some groupId := by rw [hids]; rfl
  have hsame := (hstores 0 groupId hfirst).symm.trans (hothers 0 groupId hfirst)
  simpa using congrArg length (some.inj hsame)

theorem storeBlocks_blocksByGroup (search : HitSearch) (hnodup : group.groupIds.Nodup)
    {pos groupId : ℕ} (hid : group.groupIds[pos]? = some groupId) :
    search.storeBlocks group.groupIds (group.blocksByGroup columns) groupId =
      some (columns.map fun column ↦ column.getD pos 0) := by
  have hlen : group.groupIds.length ≤ (group.blocksByGroup columns).length := by
    simp [blocksByGroup]
  obtain ⟨hpos, -⟩ := List.getElem?_eq_some_iff.1 hid
  have hmem : (groupId, columns.map fun column ↦ column.getD pos 0) ∈
      group.groupIds.zip (group.blocksByGroup columns) := by
    apply mem_iff_getElem?.2
    refine ⟨pos, ?_⟩
    rw [getElem?_zip_eq_some]
    exact ⟨hid, by simp [blocksByGroup, getElem?_range hpos]⟩
  apply scatter_target Prod.fst _ _ _ hmem
  rwa [map_fst_zip hlen]

theorem storeBlocks_of_notMem (search : HitSearch) (hitBlocks : List (List ℕ)) {groupIds : List ℕ}
    {groupId : ℕ} (hid : groupId ∉ groupIds) :
    search.storeBlocks groupIds hitBlocks groupId = search.hitBlocksByGroup groupId := by
  apply scatter_of_notMem
  intro hmem
  obtain ⟨_, hitem, rfl⟩ := mem_map.1 hmem
  exact hid (of_mem_zip hitem).1

end HitSearch

namespace HybridKVCacheCoordinator

variable {coord : HybridKVCacheCoordinator σ} {pool : BlockPool} {blockHashes : List BlockHash}
  {maxCacheHitLength : ℕ}
section

variable (coord : HybridKVCacheCoordinator σ)

/-- What callers promise the search: the pool is in order and was built with the hash block size of the
coordinator, and there is a hash for every block up to the maximum length. -/
structure SearchPromise (pool : BlockPool) (blockHashes : List BlockHash) (maxCacheHitLength : ℕ) : Prop where
  indexed : pool.Indexed
  refs : ∃ held free, pool.Refs held free
  hashBlockSize : pool.hashBlockSize = coord.hashBlockSize
  covers : maxCacheHitLength / coord.hashBlockSize ≤ blockHashes.length

/-- The KV-cache groups have the types of attention that the coordinator combines, and their ids fit in
the keys of the prefix cache. -/
structure Combined : Prop where
  kinds : ∀ group ∈ coord.kvCacheGroups, group.kvCacheSpec.kind.isCombined = true
  length_le : coord.kvCacheGroups.length ≤ 2 ^ 32

/-- The class of the managers can search for the hits of their groups. A NELSSA manager searches as for
full attention. -/
def CanSearch : Prop :=
  coord.nelssaConfig.isSome = true →
    ∀ group ∈ coord.attentionGroups, group.isFullAttention = true

end

/-! ## One visit -/

theorem dvd_lcmBlockSize (hgroup : group ∈ coord.attentionGroups) :
    group.spec.blockSize ∣ coord.lcmBlockSize := by
  unfold lcmBlockSize
  generalize coord.attentionGroups = groups at hgroup ⊢
  induction groups with
  | nil => cases hgroup
  | cons first rest ih =>
    rcases mem_cons.1 hgroup with rfl | hrest
    · exact dvd_lcm_left _ _
    · exact (ih hrest).trans (dvd_lcm_right _ _)

theorem lcmBlockSize_pos (coord : HybridKVCacheCoordinator σ) : 0 < coord.lcmBlockSize := by
  unfold lcmBlockSize
  induction coord.attentionGroups with
  | nil => exact one_pos
  | cons first rest ih => exact Nat.lcm_pos first.spec.blockSize_pos ih

theorem exists_mem_kvCacheGroups (hgroup : group ∈ coord.attentionGroups) :
    ∃ member ∈ coord.kvCacheGroups, member.kvCacheSpec = group.spec := by
  obtain ⟨groupId, hid⟩ := exists_mem_of_ne_nil _ (coord.partition.groupIds_ne_nil group hgroup)
  obtain ⟨member, hmember, hspec⟩ := map_eq_some_iff.1 (coord.partition.spec group hgroup groupId hid)
  exact ⟨member, mem_of_getElem? hmember, hspec⟩

theorem nodup_flatMap_groupIds (coord : HybridKVCacheCoordinator σ) :
    (coord.attentionGroups.flatMap (·.groupIds)).Nodup :=
  coord.partition.groupIds.nodup_iff.2 nodup_range

theorem nodup_groupIds (hgroup : group ∈ coord.attentionGroups) : group.groupIds.Nodup :=
  (nodup_flatMap.1 coord.nodup_flatMap_groupIds).1 group hgroup

section

variable (hcomb : coord.Combined) (hgroup : group ∈ coord.attentionGroups)
include hcomb hgroup

theorem Combined.groupId_lt : ∀ groupId ∈ group.groupIds, groupId < 2 ^ 32 :=
  fun _ hid ↦ (coord.partition.groupId_lt hgroup hid).trans_le hcomb.length_le

theorem Combined.kind : group.spec.kind.isCombined = true := by
  obtain ⟨member, hmember, hspec⟩ := exists_mem_kvCacheGroups hgroup
  exact hspec ▸ hcomb.kinds member hmember

end

theorem SearchPromise.hashes (hprom : coord.SearchPromise pool blockHashes maxCacheHitLength)
    (hgroup : group ∈ coord.attentionGroups) :
    pool.blockHashList blockHashes group.spec.blockSize = .ok (group.hashes pool blockHashes) ∧
      ∀ length ≤ maxCacheHitLength,
        length / group.spec.blockSize ≤ (group.hashes pool blockHashes).length := by
  obtain ⟨member, hmember, hspec⟩ := exists_mem_kvCacheGroups hgroup
  have hdvd : pool.hashBlockSize ∣ group.spec.blockSize := by
    rw [hprom.hashBlockSize, ← hspec]
    exact coord.hashBlockSize_dvd member hmember
  obtain ⟨hashes, hhashes, hlen⟩ := BlockPool.blockHashList_eq_ok hdvd blockHashes
  have heq : group.hashes pool blockHashes = hashes := by rw [AttentionGroup.hashes, hhashes]
  rw [heq]
  refine ⟨hhashes, fun length hle ↦ hlen length ?_⟩
  rw [hprom.hashBlockSize]
  exact (Nat.div_le_div_right hle).trans hprom.covers

/-- What the search of an attention group up to a length finds. -/
def Finds (coord : HybridKVCacheCoordinator σ) (pool : BlockPool) (blockHashes : List BlockHash)
    (group : AttentionGroup σ) (maxLength : ℕ) (useEagle : Bool) (columns : List (List ℕ)) : Prop :=
  (group.hitQuery (group.hashes pool blockHashes) maxLength useEagle coord.lcmBlockSize).Found pool
    group.spec (group.cachedBlocks pool blockHashes) columns

theorem Finds.hit {maxLength : ℕ} {useEagle : Bool}
    (hfinds : coord.Finds pool blockHashes group maxLength useEagle columns) :
    group.Hit pool blockHashes coord.lcmBlockSize columns :=
  { hfinds with }

theorem exists_finds (hcomb : coord.Combined) (hcan : coord.CanSearch)
    (hprom : coord.SearchPromise pool blockHashes maxCacheHitLength)
    (hgroup : group ∈ coord.attentionGroups) {maxLength : ℕ} (hmax : maxLength ≤ maxCacheHitLength)
    (useEagle : Bool) :
    ∃ columns, coord.Finds pool blockHashes group maxLength useEagle columns ∧
      group.findLongestCacheHit pool blockHashes maxLength useEagle coord.lcmBlockSize =
        .ok (group.blocksByGroup columns) := by
  obtain ⟨hhashes, hlen⟩ := hprom.hashes hgroup
  have hne := coord.partition.groupIds_ne_nil group hgroup
  have hlooks := looks_cachedBlocks hprom.indexed (hcomb.groupId_lt hgroup) hne
    (hlen maxLength hmax) maxLength useEagle coord.lcmBlockSize
  have hcombinedKind := hcomb.kind hgroup
  have hclass := coord.partition.managerCls group hgroup
  simp only [AttentionGroup.findLongestCacheHit, hhashes, hclass, KVCacheSpec.managerClass]
  by_cases hfull : group.spec.kind.isFullAttention = true
  · obtain ⟨columns, hsearch, hfound⟩ := HitQuery.fullAttention_found rfl rfl hlooks hfull hne
    refine ⟨columns, hfound, .trans ?_ hsearch⟩
    split
    · rfl
    · cases hkind : group.spec.kind <;> rw [hkind] at hfull <;> first | rfl | cases hfull
  · have hnelssa : coord.nelssaConfig.isSome = false := by
      by_contra hsome
      exact hfull (hcan (Bool.eq_true_of_not_eq_false hsome) group hgroup)
    rw [hnelssa]
    by_cases hmamba : group.spec.kind.isMamba = true
    · obtain ⟨columns, hsearch, hfound⟩ := HitQuery.mamba_found rfl rfl hlooks hmamba
      refine ⟨columns, hfound, .trans ?_ hsearch⟩
      cases hkind : group.spec.kind <;> rw [hkind] at hmamba <;> first | rfl | cases hmamba
    · have hwindow : ∃ window, group.spec.kind = .slidingWindow window ∨
          group.spec.kind = .slidingWindowMLA window := by
        cases hkind : group.spec.kind <;> rw [hkind] at hfull hmamba hcombinedKind <;>
          simp_all [SpecKind.isFullAttention, SpecKind.isMamba, SpecKind.isCombined]
      obtain ⟨window, hwindow⟩ := hwindow
      obtain ⟨columns, hsearch, hfound⟩ := HitQuery.slidingWindow_found rfl rfl hlooks hwindow hne
      refine ⟨columns, hfound, .trans ?_ hsearch⟩
      rcases hwindow with hkind | hkind <;> rw [hkind] <;> rfl

variable {final : HitSearch}

theorem maxLengthAt_le (index : ℕ) (group : AttentionGroup σ)
    (hcurr : search.currHitLength ≤ maxCacheHitLength) :
    coord.maxLengthAt maxCacheHitLength index group search ≤ maxCacheHitLength := by
  unfold maxLengthAt
  split
  · exact min_le_right _ _
  · exact hcurr

theorem visit_trim (coord : HybridKVCacheCoordinator σ) (pool : BlockPool) (blockHashes : List BlockHash)
    (maxCacheHitLength index : ℕ) (hfull : group.isFullAttention = true) (hne : group.groupIds ≠ [])
    (hstored : ∀ groupId ∈ group.groupIds, search.hitBlocksByGroup groupId ≠ none) :
    coord.visit pool blockHashes maxCacheHitLength index group search =
      .ok { search with
        currHitLength := search.currHitLength / group.spec.blockSize * group.spec.blockSize } := by
  unfold visit
  split
  · next hnil => exact absurd hnil hne
  · next firstId rest hids =>
    rw [if_pos ⟨hfull, hstored firstId (by rw [hids]; exact mem_cons_self)⟩]

theorem visit_found (hcomb : coord.Combined) (hcan : coord.CanSearch)
    (hprom : coord.SearchPromise pool blockHashes maxCacheHitLength)
    (hgroup : group ∈ coord.attentionGroups) (index : ℕ) (hcurr : search.currHitLength ≤ maxCacheHitLength)
    (hsearch : group.isFullAttention = false ∨ search.Fresh group) :
    ∃ columns, coord.Finds pool blockHashes group (coord.maxLengthAt maxCacheHitLength index group search)
        (coord.usesEagle index search) columns ∧
      coord.visit pool blockHashes maxCacheHitLength index group search =
        .ok (search.record index (coord.usesEagle index search) group.groupIds
          (group.blocksByGroup columns) (columns.length * group.spec.blockSize)) := by
  obtain ⟨columns, hfinds, hfound⟩ := exists_finds hcomb hcan hprom hgroup
    (maxLengthAt_le index group hcurr) _
  refine ⟨columns, hfinds, ?_⟩
  obtain ⟨firstId, rest, hids⟩ := exists_cons_of_ne_nil (coord.partition.groupIds_ne_nil group hgroup)
  have hblocks : group.blocksByGroup columns = (columns.map fun column ↦ column.getD 0 0) ::
      (List.range rest.length).map fun pos ↦ columns.map fun column ↦ column.getD (pos + 1) 0 := by
    simp [blocksByGroup, hids, range_succ_eq_map]
  have hnot : ¬ (group.isFullAttention = true ∧ search.hitBlocksByGroup firstId ≠ none) := by
    rintro ⟨hfull, hsome⟩
    rcases hsearch with hother | hfresh
    · rw [hother] at hfull
      cases hfull
    · exact hsome (hfresh firstId (by rw [hids]; exact mem_cons_self))
  unfold visit
  rw [hids]
  dsimp only
  rw [if_neg hnot, hfound, hblocks]
  simp

/-- The searches that return no more than the candidate length: a Mamba group takes the block that
EAGLE adds, if it is long enough to keep the length aligned. -/
def Bounded (coord : HybridKVCacheCoordinator σ) (index : ℕ) (group : AttentionGroup σ) : Prop :=
  index ∈ coord.eagleAttnGroupIndices → group.spec.kind.isMamba = true →
    group.spec.blockSize ≠ coord.lcmBlockSize

theorem Finds.le_currHitLength (hgroup : group ∈ coord.attentionGroups) (hbounded : coord.Bounded index group)
    (halign : coord.lcmBlockSize ∣ search.currHitLength ∨ search.currHitLength = maxCacheHitLength)
    {maxLength} (hlimit : coord.maxLengthAt maxCacheHitLength index group search = maxLength)
    (hfinds : coord.Finds pool blockHashes group maxLength (coord.usesEagle index search) columns) :
    columns.length * group.spec.blockSize ≤ search.currHitLength := by
  have hle : columns.length * group.spec.blockSize ≤ maxLength :=
    (Nat.le_div_iff_mul_le group.spec.blockSize_pos).1 hfinds.le
  by_cases heagle : coord.usesEagle index search = true
  · have hmax := hlimit.symm.trans (if_pos heagle)
    by_cases hmamba : group.spec.kind.isMamba = true
    · rcases halign with halign | hsame
      · have hidx : index ∈ coord.eagleAttnGroupIndices := by
          simp only [usesEagle, decide_eq_true_eq] at heagle
          exact heagle.1
        have hless := lt_of_le_of_ne (Nat.le_of_dvd coord.lcmBlockSize_pos (dvd_lcmBlockSize hgroup))
            (hbounded hidx hmamba)
        obtain ⟨_, hfound⟩ : coord.lcmBlockSize ∣ columns.length * group.spec.blockSize := hfinds.aligned
        obtain ⟨_, hcand⟩ := halign
        rw [hmax] at hle
        rw [hfound, hcand] at hle ⊢
        apply Nat.mul_le_mul_left
        by_contra hlt
        have hstep := Nat.mul_le_mul_left coord.lcmBlockSize (Nat.succ_le_of_lt (not_le.1 hlt))
        rw [Nat.mul_succ] at hstep
        omega
      · omega
    · rcases eq_nil_or_concat columns with rfl | ⟨_, _, rfl⟩
      · simp
      · have hlt := hfinds.lt_of_eagle heagle (Bool.eq_false_of_not_eq_true hmamba) (by simp)
        have hstep := (Nat.le_div_iff_mul_le group.spec.blockSize_pos).1 (Nat.succ_le_of_lt hlt)
        change _ ≤ maxLength at hstep
        rw [Nat.succ_mul] at hstep
        omega
  · rwa [← hlimit, maxLengthAt, if_neg heagle] at hle

section

variable (coord : HybridKVCacheCoordinator σ) (pool : BlockPool) (blockHashes : List BlockHash)

/-- One visit that keeps the candidate length or reduces it. -/
structure VisitSpec (index : ℕ) (group : AttentionGroup σ) (search next : HitSearch) :
    Prop where
  le : next.currHitLength ≤ search.currHitLength
  aligned : coord.lcmBlockSize ∣ next.currHitLength
  frame : ∀ groupId ∉ group.groupIds, next.hitBlocksByGroup groupId = search.hitBlocksByGroup groupId
  /-- The group holds a hit of at least the new length, and of at most the old one if it was searched. -/
  holds : ∃ columns, next.Stores group columns ∧
    group.Hit pool blockHashes coord.lcmBlockSize columns ∧
    next.currHitLength ≤ columns.length * group.spec.blockSize ∧
    (columns.length * group.spec.blockSize ≤ search.currHitLength ∨
      group.isFullAttention = true ∧ ¬ search.Fresh group)
  fresh : search.Fresh group → ∃ columns, next.Stores group columns ∧
    columns.length * group.spec.blockSize = next.currHitLength
  /-- Without EAGLE no length is lost at which the group has a hit. -/
  keeps : index ∉ coord.eagleAttnGroupIndices → ∀ length, coord.lcmBlockSize ∣ length →
    Covered (group.cachedBlocks pool blockHashes) (group.spec.firstSought (length / group.spec.blockSize))
      (length / group.spec.blockSize) →
    length ≤ search.currHitLength → length ≤ next.currHitLength

/-- The search holds a hit of at least the candidate length. -/
def Holds (search : HitSearch) (group : AttentionGroup σ) : Prop :=
  ∃ columns, search.Stores group columns ∧
    group.Hit pool blockHashes coord.lcmBlockSize columns ∧
    search.currHitLength ≤ columns.length * group.spec.blockSize

end

theorem stores_record (hnodup : group.groupIds.Nodup) (search : HitSearch) (index : ℕ) (useEagle : Bool)
    (columns : List (List ℕ)) (newHitLength : ℕ) :
    (search.record index useEagle group.groupIds (group.blocksByGroup columns) newHitLength).Stores group
      columns :=
  fun _ _ hid ↦ search.storeBlocks_blocksByGroup hnodup hid

theorem visit_spec (hcomb : coord.Combined) (hcan : coord.CanSearch)
    (hprom : coord.SearchPromise pool blockHashes maxCacheHitLength)
    (hgroup : group ∈ coord.attentionGroups) (hbounded : coord.Bounded index group)
    (hcurr : search.currHitLength ≤ maxCacheHitLength)
    (halign : coord.lcmBlockSize ∣ search.currHitLength ∨
      search.currHitLength = maxCacheHitLength ∧ search.Fresh group)
    (hfull : group.isFullAttention = true → search.Fresh group ∨ coord.Holds pool blockHashes search group) :
    ∃ next, coord.visit pool blockHashes maxCacheHitLength index group search = .ok next ∧
      coord.VisitSpec pool blockHashes index group search next := by
  have hne := coord.partition.groupIds_ne_nil group hgroup
  by_cases hsearch : group.isFullAttention = false ∨ search.Fresh group
  · obtain ⟨columns, hfinds, hvisit⟩ := visit_found hcomb hcan hprom hgroup index hcurr hsearch
    have hle := hfinds.le_currHitLength hgroup hbounded (halign.imp id And.left) rfl
    have hstores := stores_record (nodup_groupIds hgroup) search index
      (coord.usesEagle index search) columns (columns.length * group.spec.blockSize)
    refine ⟨_, hvisit, hle, hfinds.aligned, fun groupId hid ↦ search.storeBlocks_of_notMem _ hid,
      ⟨columns, hstores, hfinds.hit, le_rfl, .inl hle⟩, fun _ ↦ ⟨columns, hstores, rfl⟩, ?_⟩
    intro hidx length hdvd hcov hlen
    have heagle : coord.usesEagle index search = false := by
      simp [usesEagle, hidx]
    have hmax : coord.maxLengthAt maxCacheHitLength index group search = search.currHitLength :=
      if_neg (by rw [heagle]; exact Bool.false_ne_true)
    have hblocks := Nat.div_mul_cancel ((dvd_lcmBlockSize hgroup).trans hdvd)
    have hgreatest := (hfinds.greatest (.inl heagle)).2.2
        ⟨Nat.div_le_div_right (hmax ▸ hlen), by rwa [hblocks], hcov⟩
    calc length = length / group.spec.blockSize * group.spec.blockSize := hblocks.symm
      _ ≤ columns.length * group.spec.blockSize := Nat.mul_le_mul_right _ hgreatest
  · obtain ⟨hisFull, hstored⟩ := not_or.1 hsearch
    have hisFull := Bool.eq_true_of_not_eq_false hisFull
    obtain ⟨columns, hstores, hhit, hlen⟩ := (hfull hisFull).resolve_left hstored
    have hdvd := halign.resolve_right fun h ↦ hstored h.2
    have hvisit := coord.visit_trim pool blockHashes maxCacheHitLength index hisFull hne hstores.ne_none
    rw [Nat.div_mul_cancel ((dvd_lcmBlockSize hgroup).trans hdvd)] at hvisit
    exact ⟨_, hvisit, le_rfl, hdvd, fun _ _ ↦ rfl,
      ⟨columns, hstores, hhit, hlen, .inr ⟨hisFull, hstored⟩⟩, fun hfresh ↦ absurd hfresh hstored,
      fun _ _ _ _ hle ↦ hle⟩

/-! ## One pass -/

/-- A pass over some attention groups, as the visits of a group. -/
structure PassSpec (coord : HybridKVCacheCoordinator σ) (pool : BlockPool)
    (blockHashes : List BlockHash) (items : List (AttentionGroup σ × ℕ)) (search final : HitSearch) :
    Prop where
  nil : items = [] → final = search
  le : final.currHitLength ≤ search.currHitLength
  aligned : items ≠ [] → coord.lcmBlockSize ∣ final.currHitLength
  frame : ∀ groupId, (∀ item ∈ items, groupId ∉ item.1.groupIds) →
    final.hitBlocksByGroup groupId = search.hitBlocksByGroup groupId
  holds : ∀ item ∈ items, ∃ columns, final.Stores item.1 columns ∧
    item.1.Hit pool blockHashes coord.lcmBlockSize columns ∧
    final.currHitLength ≤ columns.length * item.1.spec.blockSize ∧
    (columns.length * item.1.spec.blockSize ≤ search.currHitLength ∨
      item.1.isFullAttention = true ∧ ¬ search.Fresh item.1)
  fresh : ∀ item, items.getLast? = some item → search.Fresh item.1 →
    ∃ columns, final.Stores item.1 columns ∧
      columns.length * item.1.spec.blockSize = final.currHitLength
  keeps : (∀ item ∈ items, item.2 ∉ coord.eagleAttnGroupIndices) →
    ∀ length, coord.lcmBlockSize ∣ length →
      (∀ item ∈ items, Covered (item.1.cachedBlocks pool blockHashes)
        (item.1.spec.firstSought (length / item.1.spec.blockSize)) (length / item.1.spec.blockSize)) →
      length ≤ search.currHitLength → length ≤ final.currHitLength

theorem passSpec_nil : coord.PassSpec pool blockHashes [] search search where
  nil := fun _ ↦ rfl
  le := le_rfl
  aligned := absurd rfl
  frame := fun _ _ ↦ rfl
  holds := by simp
  fresh := by simp
  keeps := fun _ _ _ _ hle ↦ hle

variable {items : List (AttentionGroup σ × ℕ)}

theorem VisitSpec.cons (hvisit : coord.VisitSpec pool blockHashes index group search next)
    (hpass : coord.PassSpec pool blockHashes items next final)
    (hdisj : ∀ item ∈ items, group.groupIds.Disjoint item.1.groupIds) :
    coord.PassSpec pool blockHashes ((group, index) :: items) search final := by
  -- The later visits keep the blocks of this group, and this visit keeps the groups fresh behind it.
  have hkept (groupId : ℕ) (hid : groupId ∈ group.groupIds) :=
    hpass.frame groupId fun item hitem ↦ hdisj item hitem hid
  have hfresh (item : AttentionGroup σ × ℕ) (hitem : item ∈ items) :
      next.Fresh item.1 ↔ search.Fresh item.1 := by
    refine forall₂_congr fun groupId hid ↦ ?_
    rw [hvisit.frame groupId fun h ↦ hdisj item hitem h hid]
  constructor
  · exact fun h ↦ absurd h (cons_ne_nil _ _)
  · exact hpass.le.trans hvisit.le
  · intro _
    rcases eq_or_ne items [] with rfl | hne
    · rw [hpass.nil rfl]
      exact hvisit.aligned
    · exact hpass.aligned hne
  · intro groupId hid
    rw [hpass.frame groupId fun item hitem ↦ hid item (mem_cons_of_mem _ hitem),
      hvisit.frame groupId (hid _ mem_cons_self)]
  · intro item hitem
    rcases mem_cons.1 hitem with rfl | hrest
    · obtain ⟨columns, hstores, hhit, hle, hbound⟩ := hvisit.holds
      exact ⟨columns, hstores.congr hkept, hhit, hpass.le.trans hle, hbound⟩
    · obtain ⟨columns, hstores, hhit, hle, hbound⟩ := hpass.holds item hrest
      exact ⟨columns, hstores, hhit, hle, hbound.imp (fun h ↦ h.trans hvisit.le)
        fun h ↦ ⟨h.1, fun hold ↦ h.2 ((hfresh item hrest).2 hold)⟩⟩
  · intro item hlast hold
    cases items with
    | nil =>
      rw [hpass.nil rfl]
      cases hlast
      exact hvisit.fresh hold
    | cons first rest =>
      rw [getLast?_cons_cons] at hlast
      have hmem := mem_of_getLast? hlast
      exact hpass.fresh item hlast ((hfresh item hmem).2 hold)
  · intro hindices length hdvd hcov hlen
    exact hpass.keeps (fun item hitem ↦ hindices item (mem_cons_of_mem _ hitem)) length hdvd
      (fun item hitem ↦ hcov item (mem_cons_of_mem _ hitem))
      (hvisit.keeps (hindices _ mem_cons_self) length hdvd (hcov _ mem_cons_self) hlen)

theorem pairwise_disjoint_zipIdx (coord : HybridKVCacheCoordinator σ) :
    coord.attentionGroups.zipIdx.Pairwise fun item other ↦ item.1.groupIds.Disjoint other.1.groupIds := by
  have hpair := (nodup_flatMap.1 coord.nodup_flatMap_groupIds).2
  rw [← zipIdx_map_fst 0 coord.attentionGroups, pairwise_map] at hpair
  exact hpair

theorem pass_spec (hcomb : coord.Combined) (hcan : coord.CanSearch)
    (hprom : coord.SearchPromise pool blockHashes maxCacheHitLength) (search : HitSearch)
    (hitems : ∀ item ∈ items, item.1 ∈ coord.attentionGroups)
    (hdisj : items.Pairwise fun item other ↦ item.1.groupIds.Disjoint other.1.groupIds)
    (hbounded : ∀ item ∈ items, coord.Bounded item.2 item.1)
    (hcurr : search.currHitLength ≤ maxCacheHitLength)
    (halign : coord.lcmBlockSize ∣ search.currHitLength ∨
      search.currHitLength = maxCacheHitLength ∧ ∀ item ∈ items, search.Fresh item.1)
    (hfull : ∀ item ∈ items, item.1.isFullAttention = true → search.Fresh item.1 ∨
      coord.Holds pool blockHashes search item.1) :
    ∃ final, coord.pass pool blockHashes maxCacheHitLength items search = .ok final ∧
      coord.PassSpec pool blockHashes items search final := by
  induction items generalizing search with
  | nil => exact ⟨search, rfl, passSpec_nil⟩
  | cons item rest ih =>
    obtain ⟨hapart, hrest⟩ := pairwise_cons.1 hdisj
    obtain ⟨next, hvisit, hspec⟩ := visit_spec hcomb hcan hprom
      (hitems item mem_cons_self) (hbounded item mem_cons_self) hcurr
      (halign.imp id fun h ↦ ⟨h.1, h.2 item mem_cons_self⟩) (hfull item mem_cons_self)
    have hsame (other : AttentionGroup σ × ℕ) (hother : other ∈ rest) :
        ∀ groupId ∈ other.1.groupIds, next.hitBlocksByGroup groupId = search.hitBlocksByGroup groupId :=
      fun groupId hid ↦ hspec.frame groupId fun h ↦ hapart other hother h hid
    obtain ⟨final, hpass, hfinal⟩ := ih next
      (fun other hother ↦ hitems other (mem_cons_of_mem _ hother)) hrest
      (fun other hother ↦ hbounded other (mem_cons_of_mem _ hother)) (hspec.le.trans hcurr)
      (.inl hspec.aligned) (by
        intro other hother hisFull
        rcases hfull other (mem_cons_of_mem _ hother) hisFull with hfresh | ⟨columns, hstores, hhit, hle⟩
        · exact .inl fun groupId hid ↦ (hsame other hother groupId hid).trans (hfresh groupId hid)
        · exact .inr ⟨columns, hstores.congr (hsame other hother), hhit, hspec.le.trans hle⟩)
    refine ⟨final, ?_, hspec.cons hfinal hapart⟩
    rw [pass, hvisit]
    exact hpass

/-! ## The whole search -/

variable {item : AttentionGroup σ × ℕ}

theorem mem_attentionGroups_of_zipIdx (hitem : item ∈ coord.attentionGroups.zipIdx) :
    item.1 ∈ coord.attentionGroups :=
  fst_mem_of_mem_zipIdx hitem

theorem getLast?_zipIdx_of_succ_eq {groups : List (AttentionGroup σ)} (hitem : item ∈ groups.zipIdx)
    (hlast : item.2 + 1 = groups.length) : groups.zipIdx.getLast? = some item := by
  rw [getLast?_eq_getElem?, length_zipIdx, ← hlast, Nat.add_sub_cancel,
    getElem?_zipIdx, zero_add, mem_zipIdx_iff_getElem?.1 hitem]
  rfl

/-- The result of the search: all groups hold a hit of the length that is returned. Full attention may
hold more, and so may the groups in front of the last one if there was only one pass. -/
structure LoopSpec (coord : HybridKVCacheCoordinator σ) (pool : BlockPool)
    (blockHashes : List BlockHash) (onePass : Bool) (limit : ℕ) (final : HitSearch) (hitLength : ℕ) :
    Prop where
  le : hitLength ≤ limit
  aligned : coord.lcmBlockSize ∣ hitLength
  holds : ∀ item ∈ coord.attentionGroups.zipIdx, ∃ columns, final.Stores item.1 columns ∧
    item.1.Hit pool blockHashes coord.lcmBlockSize columns ∧
    hitLength ≤ columns.length * item.1.spec.blockSize ∧
    (columns.length * item.1.spec.blockSize = hitLength ∨
      item.1.isFullAttention = true ∧ onePass = false ∨
      onePass = true ∧ item.2 + 1 < coord.attentionGroups.length)
  keeps : coord.eagleAttnGroupIndices = [] → ∀ length, coord.lcmBlockSize ∣ length →
    (∀ group ∈ coord.attentionGroups, Covered (group.cachedBlocks pool blockHashes)
      (group.spec.firstSought (length / group.spec.blockSize)) (length / group.spec.blockSize)) →
    length ≤ limit → length ≤ hitLength

section

variable (hcomb : coord.Combined) (hcan : coord.CanSearch)
  (hprom : coord.SearchPromise pool blockHashes maxCacheHitLength)
  (hbounded : ∀ item ∈ coord.attentionGroups.zipIdx, coord.Bounded item.2 item.1)
include hcomb hcan hprom hbounded

theorem searchLoop_spec {onePass : Bool}
    {limit : ℕ} (hlimit : limit ≤ maxCacheHitLength) (halign : coord.lcmBlockSize ∣ limit ∨
      limit = maxCacheHitLength ∧ ∀ group ∈ coord.attentionGroups, search.Fresh group)
    (hfull : ∀ group ∈ coord.attentionGroups, group.isFullAttention = true → search.Fresh group ∨
      coord.Holds pool blockHashes { search with currHitLength := limit } group)
    (honePass : onePass = true → ∀ group ∈ coord.attentionGroups, search.Fresh group) :
    ∃ final hitLength, coord.searchLoop pool blockHashes maxCacheHitLength onePass limit search =
        .ok (final, hitLength) ∧
      coord.LoopSpec pool blockHashes onePass limit final hitLength := by
  induction limit using Nat.strong_induction_on generalizing search with
  | _ limit ih =>
    obtain ⟨final, hpass, hspec⟩ := pass_spec hcomb hcan hprom { search with currHitLength := limit }
      (fun item ↦ mem_attentionGroups_of_zipIdx) coord.pairwise_disjoint_zipIdx hbounded hlimit
      (halign.imp id fun h ↦ ⟨h.1, fun item hitem ↦ h.2 item.1 (mem_attentionGroups_of_zipIdx hitem)⟩)
      (fun item hitem ↦ hfull item.1 (mem_attentionGroups_of_zipIdx hitem))
    have hne : coord.attentionGroups.zipIdx ≠ [] := by
      rw [← length_pos_iff, length_zipIdx]
      exact Nat.zero_lt_of_lt coord.one_lt_length
    have hdvd := hspec.aligned hne
    have hkeeps : coord.eagleAttnGroupIndices = [] → ∀ length, coord.lcmBlockSize ∣ length →
        (∀ group ∈ coord.attentionGroups, Covered (group.cachedBlocks pool blockHashes)
          (group.spec.firstSought (length / group.spec.blockSize)) (length / group.spec.blockSize)) →
        length ≤ limit → length ≤ final.currHitLength := by
      intro hnone length hlen hcov hle
      exact hspec.keeps (by simp [hnone]) length hlen
        (fun item hitem ↦ hcov item.1 (mem_attentionGroups_of_zipIdx hitem)) hle
    unfold searchLoop
    rw [hpass]
    dsimp only
    split
    · next hkept =>
      have hsame : final.currHitLength = limit := le_antisymm hspec.le hkept
      refine ⟨final, limit, rfl, le_rfl, hsame ▸ hdvd, fun item hitem ↦ ?_, fun _ _ _ _ hle ↦ hle⟩
      obtain ⟨columns, hstores, hhit, hlow, hbound⟩ := hspec.holds item hitem
      rw [hsame] at hlow
      refine ⟨columns, hstores, hhit, hlow, ?_⟩
      rcases hbound with hhigh | ⟨hisFull, hstored⟩
      · exact .inl (le_antisymm hhigh hlow)
      · refine .inr (.inl ⟨hisFull, Bool.eq_false_iff.2 fun h ↦ hstored ?_⟩)
        exact honePass h item.1 (mem_attentionGroups_of_zipIdx hitem)
    · next hless =>
      split
      · next hone =>
        refine ⟨final, final.currHitLength, rfl, hspec.le, hdvd, fun item hitem ↦ ?_, hkeeps⟩
        obtain ⟨columns, hstores, hhit, hlow, -⟩ := hspec.holds item hitem
        refine ⟨columns, hstores, hhit, hlow, ?_⟩
        by_cases hlast : item.2 + 1 = coord.attentionGroups.length
        · have hgroup := mem_attentionGroups_of_zipIdx hitem
          obtain ⟨_, hothers, hlen⟩ := hspec.fresh item (getLast?_zipIdx_of_succ_eq hitem hlast)
            (honePass hone item.1 hgroup)
          rw [hstores.length_eq hothers (coord.partition.groupIds_ne_nil _ hgroup)]
          exact .inl hlen
        · have hlt := (mem_zipIdx hitem).2.1
          exact .inr (.inr ⟨hone, by omega⟩)
      · next hone =>
        have hholds (group : AttentionGroup σ) (hgroup : group ∈ coord.attentionGroups) :
            coord.Holds pool blockHashes final group := by
          obtain ⟨index, hidx⟩ := mem_iff_getElem?.1 hgroup
          obtain ⟨columns, hstores, hhit, hlow, -⟩ :=
            hspec.holds (group, index) (mem_zipIdx_iff_getElem?.2 hidx)
          exact ⟨columns, hstores, hhit, hlow⟩
        obtain ⟨last, hitLength, hloop, hres⟩ := ih _ (not_le.1 hless)
          (hspec.le.trans hlimit) (.inl hdvd) (fun group hgroup _ ↦ .inr (hholds group hgroup))
          (fun h ↦ absurd h hone)
        refine ⟨last, hitLength, hloop, hres.le.trans hspec.le, hres.aligned, hres.holds, ?_⟩
        intro hnone length hlen hcov hle
        exact hres.keeps hnone length hlen hcov (hkeeps hnone length hlen hcov hle)

theorem searchLoop_fresh (onePass : Bool) :
    ∃ final hitLength, coord.searchLoop pool blockHashes maxCacheHitLength onePass maxCacheHitLength
        ⟨maxCacheHitLength, [], fun _ ↦ none⟩ = .ok (final, hitLength) ∧
      coord.LoopSpec pool blockHashes onePass maxCacheHitLength final hitLength := by
  apply searchLoop_spec hcomb hcan hprom hbounded le_rfl
  · exact .inr ⟨rfl, fun _ _ _ _ ↦ rfl⟩
  · exact fun _ _ _ ↦ .inl fun _ _ ↦ rfl
  · exact fun _ _ _ _ _ ↦ rfl

end

end HybridKVCacheCoordinator

end Nelssa.Core
