import Nelssa.Core.HybridOvershoot

/-!
# Longest cache hits of the hybrid coordinator

Without EAGLE the search returns the greatest aligned length at which every KV-cache group has the
blocks that attention needs. A sliding window of at most one token is the exception: it needs no block,
but its search asks for one. The single pass for one full-attention group and one other group finds the
same blocks as the iteration to the fixed point.
-/

namespace Nelssa.Core

open Foundation.BlockArithmetic Foundation.HitWindows KVCacheSpec
open List hiding max le_antisymm not_lt

/-- Sliding windows that reach back behind the token itself. -/
def SpecKind.ReachesBack (kind : SpecKind) : Prop :=
  ∀ window, kind = .slidingWindow window ∨ kind = .slidingWindowMLA window → 2 ≤ window

theorem KVCacheSpec.le_firstSought {spec : KVCacheSpec} (hkind : spec.kind.isCombined = true)
    (hreaches : spec.kind.ReachesBack) (numBlocks : ℕ) :
    spec.numSkippedTokens (numBlocks * spec.blockSize) / spec.blockSize ≤ spec.firstSought numBlocks := by
  have hpos := spec.blockSize_pos
  have hwindow (window : ℕ) (htwo : 2 ≤ window) :
      (numBlocks * spec.blockSize + 1 - window) / spec.blockSize ≤
        numBlocks - max (cdiv (window - 1) spec.blockSize) 1 := by
    have hone : 1 ≤ cdiv (window - 1) spec.blockSize := (cdiv_pos_iff hpos _).2 (by omega)
    have hskipped := Nat.div_mul_le_self (numBlocks * spec.blockSize + 1 - window) spec.blockSize
    generalize (numBlocks * spec.blockSize + 1 - window) / spec.blockSize = skipped at hskipped ⊢
    by_cases hzero : skipped = 0
    · rw [hzero]
      exact Nat.zero_le _
    · -- What is not skipped holds the window without the token itself.
      have hsize : spec.blockSize ≤ skipped * spec.blockSize :=
        Nat.le_mul_of_pos_left _ (pos_of_ne_zero hzero)
      have hcdiv : cdiv (window - 1) spec.blockSize ≤ numBlocks - skipped := by
        rw [cdiv_le_iff hpos, Nat.mul_sub, mul_comm, mul_comm _ skipped]
        omega
      omega
  unfold firstSought lookback numSkippedTokens
  cases hcases : spec.kind with
  | slidingWindow window => exact hwindow window (hreaches window (.inl hcases))
  | slidingWindowMLA window => exact hwindow window (hreaches window (.inr hcases))
  | mamba mode numSpeculativeBlocks =>
    dsimp only [MambaState.getNumSkippedTokens]
    cases numBlocks with
    | zero => simp
    | succ count =>
      apply Nat.le_of_lt_succ
      rw [Nat.div_lt_iff_lt_mul hpos]
      exact Nat.sub_one_lt (mul_pos count.succ_pos hpos).ne'
  | chunkedLocal chunkSize => rw [hcases] at hkind; cases hkind
  | crossAttention => rw [hcases] at hkind; cases hkind
  | _ => exact (Nat.zero_div _).le

/-- A KV-cache group has a valid hit at a length: the blocks that attention needs for the token behind it
are cached. -/
def ValidHit (pool : BlockPool) (blockHashes : List BlockHash) (groupId : ℕ) (spec : KVCacheSpec)
    (length : ℕ) : Prop :=
  ∃ hashes, pool.blockHashList blockHashes spec.blockSize = .ok hashes ∧
    ∀ index, spec.numSkippedTokens length / spec.blockSize ≤ index → index < length / spec.blockSize →
      ∃ block blockHash, hashes[index]? = some blockHash ∧ pool.Carries blockHash groupId block

namespace HybridKVCacheCoordinator

variable {σ : Type*} {coord : HybridKVCacheCoordinator σ} {pool : BlockPool} {blockHashes : List BlockHash}
  {maxCacheHitLength : ℕ} {item : AttentionGroup σ × ℕ} {search next final : HitSearch}
  {columns : List (List ℕ)} {group : AttentionGroup σ} {hitLength : ℕ}

section

variable (coord : HybridKVCacheCoordinator σ)

/-- The aligned lengths up to the maximum at which every KV-cache group has a valid hit. -/
def validLengths (pool : BlockPool) (blockHashes : List BlockHash) (maxCacheHitLength : ℕ) : Set ℕ :=
  {length | coord.lcmBlockSize ∣ length ∧ length ≤ maxCacheHitLength ∧
    ∀ (groupId : ℕ) group, coord.kvCacheGroups[groupId]? = some group →
      ValidHit pool blockHashes groupId group.kvCacheSpec length}

/-- The search returns the greatest valid length, and the single pass of a simple hybrid model returns
what the iteration to the fixed point returns. -/
def OptimalHits : Prop :=
  ∀ pool blockHashes maxCacheHitLength,
    coord.SearchPromise pool blockHashes maxCacheHitLength →
    ∃ blocks hitLength,
      coord.findLongestCacheHit pool blockHashes maxCacheHitLength = .ok (blocks, hitLength) ∧
      IsGreatest (coord.validLengths pool blockHashes maxCacheHitLength) hitLength ∧
      (coord.isSimpleHybrid = true →
        coord.findHit pool blockHashes maxCacheHitLength false = .ok (blocks, hitLength))

def ReachesBack : Prop :=
  ∀ group ∈ coord.kvCacheGroups, group.kvCacheSpec.kind.ReachesBack

end

/-! ## Valid lengths -/

theorem dropsEagleBlocks_of_nil (heagle : coord.eagleAttnGroupIndices = []) : coord.DropsEagleBlocks := by
  intro item _ hidx
  rw [heagle] at hidx
  cases hidx

theorem eagleAttnGroupIndices_eq_nil (heagle : coord.eagleGroupIds = []) :
    coord.eagleAttnGroupIndices = [] := by
  simp [eagleAttnGroupIndices, heagle]

section

variable (hcombined : coord.Combined) (hpromise : coord.SearchPromise pool blockHashes maxCacheHitLength)
include hcombined hpromise

/-- The KV-cache groups of an attention group have a valid hit at an aligned length exactly if the blocks
that attention needs are cached for all of them. -/
theorem covered_iff_validHit
    (hgroup : group ∈ coord.attentionGroups) {length : ℕ} (hle : length ≤ maxCacheHitLength) :
    Covered (group.cachedBlocks pool blockHashes)
        (group.spec.numSkippedTokens length / group.spec.blockSize) (length / group.spec.blockSize) ↔
      ∀ groupId ∈ group.groupIds, ValidHit pool blockHashes groupId group.spec length := by
  obtain ⟨hhashes, hlen⟩ := hpromise.hashes hgroup
  have hhash (index : ℕ) (hidx : index < length / group.spec.blockSize) :=
    getElem?_eq_getElem (hidx.trans_le (hlen length hle))
  have hcached (index : ℕ) (hidx : index < length / group.spec.blockSize) :=
    AttentionGroup.isSome_cachedBlocks_iff hpromise.indexed (hcombined.groupId_lt hgroup) (hhash index hidx)
  constructor
  · intro hcov groupId hid
    refine ⟨_, hhashes, fun index hlow hhigh ↦ ?_⟩
    obtain ⟨block, hblock⟩ := (hcached index hhigh).1 (hcov index hlow hhigh) groupId hid
    exact ⟨block, _, hhash index hhigh, hblock⟩
  · intro hvalid index hlow hhigh
    refine (hcached index hhigh).2 fun groupId hid ↦ ?_
    obtain ⟨_, hlist, hneeded⟩ := hvalid groupId hid
    obtain rfl := Except.ok.inj (hhashes.symm.trans hlist)
    obtain ⟨block, _, hother, hblock⟩ := hneeded index hlow hhigh
    obtain rfl := Option.some.inj ((hhash index hhigh).symm.trans hother)
    exact ⟨block, hblock⟩

theorem mem_validLengths_iff {length : ℕ} :
    length ∈ coord.validLengths pool blockHashes maxCacheHitLength ↔
      coord.lcmBlockSize ∣ length ∧ length ≤ maxCacheHitLength ∧
        ∀ group ∈ coord.attentionGroups, Covered (group.cachedBlocks pool blockHashes)
          (group.spec.numSkippedTokens length / group.spec.blockSize)
          (length / group.spec.blockSize) := by
  refine and_congr_right fun _ ↦ and_congr_right fun hle ↦ ?_
  constructor
  · intro hvalid group hgroup
    refine (covered_iff_validHit hcombined hpromise hgroup hle).2 fun groupId hid ↦ ?_
    obtain ⟨member, hmember, hspec⟩ :=
      Option.map_eq_some_iff.1 (coord.partition.spec group hgroup groupId hid)
    exact hspec ▸ hvalid groupId member hmember
  · intro hcov groupId member hmember
    obtain ⟨item, hitem, _, hid, hspec⟩ := exists_attentionGroup hmember
    have hgroup := mem_attentionGroups_of_zipIdx hitem
    rw [← hspec]
    exact (covered_iff_validHit hcombined hpromise hgroup hle).1 (hcov item.1 hgroup) groupId
      (mem_of_getElem? hid)

variable (hspec : coord.LoopSpec pool blockHashes coord.isSimpleHybrid maxCacheHitLength final hitLength)
include hspec

theorem LoopSpec.mem_validLengths : hitLength ∈ coord.validLengths pool blockHashes maxCacheHitLength := by
  refine (mem_validLengths_iff hcombined hpromise).2 ⟨hspec.aligned, hspec.le, fun group hgroup ↦ ?_⟩
  obtain ⟨index, hidx⟩ := mem_iff_getElem?.1 hgroup
  obtain ⟨columns, -, hhit, hle, hexact⟩ := hspec.holds (group, index) (mem_zipIdx_iff_getElem?.2 hidx)
  have hblocks := Nat.div_mul_cancel ((dvd_lcmBlockSize hgroup).trans hspec.aligned)
  have hneeded := firstNeeded_le (hcombined.kind hgroup) (hitLength / group.spec.blockSize)
  rw [hblocks] at hneeded
  have hcount : hitLength / group.spec.blockSize ≤ columns.length := by
    rw [← Nat.mul_le_mul_right_iff group.spec.blockSize_pos, hblocks]
    exact hle
  have hfull (hisFull : group.isFullAttention = true) : Covered (group.cachedBlocks pool blockHashes)
      (group.spec.numSkippedTokens hitLength / group.spec.blockSize)
      (hitLength / group.spec.blockSize) := by
    apply hhit.covered.mono _ hcount
    rw [firstNeeded_of_none (lookback_of_isFullAttention hisFull).1]
    exact Nat.zero_le _
  rcases hexact with hexact | ⟨hisFull, -⟩ | ⟨hsimple, hlast⟩
  · have hlen : columns.length = hitLength / group.spec.blockSize := by
      rw [← hexact]
      exact (Nat.mul_div_cancel _ group.spec.blockSize_pos).symm
    exact (hlen ▸ hhit.covered).mono hneeded le_rfl
  · exact hfull hisFull
  · -- The first of two groups is full attention.
    simp only [isSimpleHybrid, decide_eq_true_eq] at hsimple
    obtain ⟨hlen, hhead⟩ := hsimple
    obtain rfl : index = 0 := by
      rw [hlen] at hlast
      exact Nat.lt_one_iff.1 (Nat.lt_of_succ_lt_succ hlast)
    rw [head?_eq_getElem?, hidx] at hhead
    exact hfull hhead

/-- If every window reaches back, the search returns the greatest valid length. -/
theorem LoopSpec.isGreatest (hreaches : coord.ReachesBack) (heagle : coord.eagleAttnGroupIndices = []) :
    IsGreatest (coord.validLengths pool blockHashes maxCacheHitLength) hitLength := by
  refine ⟨hspec.mem_validLengths hcombined hpromise, fun length hlen ↦ ?_⟩
  obtain ⟨hdvd, hle, hvalid⟩ := (mem_validLengths_iff hcombined hpromise).1 hlen
  refine hspec.keeps heagle length hdvd (fun group hgroup ↦ ?_) hle
  obtain ⟨member, hmember, hmemberSpec⟩ := exists_mem_kvCacheGroups hgroup
  have hsought := le_firstSought (hcombined.kind hgroup)
    (hmemberSpec ▸ hreaches member hmember) (length / group.spec.blockSize)
  rw [Nat.div_mul_cancel ((dvd_lcmBlockSize hgroup).trans hdvd)] at hsought
  exact (hvalid group hgroup).mono hsought le_rfl

end

/-! ## One pass and the fixed point -/

section

variable (heagle : coord.eagleAttnGroupIndices = []) (index : ℕ)
include heagle

theorem usesEagle_eq_false (search : HitSearch) : coord.usesEagle index search = false := by
  simp [usesEagle, heagle]

theorem maxLengthAt_eq (group : AttentionGroup σ) (search : HitSearch) :
    coord.maxLengthAt maxCacheHitLength index group search = search.currHitLength := by
  rw [maxLengthAt, usesEagle_eq_false heagle, if_neg Bool.false_ne_true]

end

theorem Finds.eq_of_length {maxLength : ℕ} {others : List (List ℕ)}
    (hfinds : coord.Finds pool blockHashes group maxLength false columns)
    (hothers : coord.Finds pool blockHashes group (columns.length * group.spec.blockSize) false
      others) : others = columns := by
  have hcount : columns.length * group.spec.blockSize / group.spec.blockSize = columns.length :=
    Nat.mul_div_cancel _ group.spec.blockSize_pos
  obtain ⟨hcols, ⟨-, halign, hcov⟩, -⟩ := hfinds.greatest (.inl rfl)
  obtain ⟨hshown, ⟨hle, -⟩, hmax⟩ := hothers.greatest (.inl rfl)
  have hlen := le_antisymm (hle.trans hcount.le) (hmax ⟨hcount.ge, halign, hcov⟩)
  rw [hshown, hlen]
  exact hcols.symm

theorem hitBlocksByGroup_eq_of_stores (hstores : search.Stores group columns)
    (hnext : next.Stores group columns) (hframe : ∀ groupId ∉ group.groupIds,
      next.hitBlocksByGroup groupId = search.hitBlocksByGroup groupId) :
    next.hitBlocksByGroup = search.hitBlocksByGroup := by
  funext groupId
  by_cases hid : groupId ∈ group.groupIds
  · obtain ⟨pos, hpos⟩ := mem_iff_getElem?.1 hid
    rw [hnext pos groupId hpos, hstores pos groupId hpos]
  · exact hframe groupId hid

theorem Visited.stable (heagle : coord.eagleAttnGroupIndices = []) {maxLength : ℕ}
    (hfinds : coord.Finds pool blockHashes item.1 maxLength false columns)
    (hstores : search.Stores item.1 columns)
    (hcurr : search.currHitLength = columns.length * item.1.spec.blockSize)
    (hframe : ∀ groupId ∉ item.1.groupIds, next.hitBlocksByGroup groupId = search.hitBlocksByGroup groupId)
    (hvis : coord.Visited pool blockHashes maxCacheHitLength item search next) :
    next.currHitLength = search.currHitLength ∧ next.hitBlocksByGroup = search.hitBlocksByGroup := by
  cases hvis with
  | trimmed _ _ hnext =>
    rw [hnext]
    refine ⟨?_, rfl⟩
    rw [hcurr, Nat.mul_div_cancel _ item.1.spec.blockSize_pos]
  | searched others _ hothers hstored hnext _ =>
    rw [maxLengthAt_eq heagle, usesEagle_eq_false heagle, hcurr] at hothers
    obtain rfl := hfinds.eq_of_length hothers
    exact ⟨hnext.trans hcurr.symm, hitBlocksByGroup_eq_of_stores hstores hstored hframe⟩

theorem truncated_congr (hsame : next.hitBlocksByGroup = search.hitBlocksByGroup) (hitLength : ℕ) :
    coord.truncated next hitLength = coord.truncated search hitLength := by
  unfold truncated
  rw [hsame]

/-- The pass behind the first one keeps the length and the blocks, with one full-attention group and one
other. -/
theorem exists_passes_of_isSimpleHybrid (hcombined : coord.Combined) (hcan : coord.CanSearch)
    (hpromise : coord.SearchPromise pool blockHashes maxCacheHitLength)
    (heagle : coord.eagleAttnGroupIndices = []) (hsimple : coord.isSimpleHybrid = true) :
    ∃ next final,
      coord.pass pool blockHashes maxCacheHitLength coord.attentionGroups.zipIdx
        ⟨maxCacheHitLength, [], fun _ ↦ none⟩ = .ok next ∧
      coord.pass pool blockHashes maxCacheHitLength coord.attentionGroups.zipIdx next = .ok final ∧
      final.currHitLength = next.currHitLength ∧ final.hitBlocksByGroup = next.hitBlocksByGroup := by
  simp only [isSimpleHybrid, decide_eq_true_eq] at hsimple
  obtain ⟨hlen, hhead⟩ := hsimple
  obtain ⟨first, second, hgroups⟩ := length_eq_two.1 hlen
  rw [hgroups] at hhead
  have hfull := hhead
  have hzip : coord.attentionGroups.zipIdx = [(first, 0), (second, 1)] := by rw [hgroups]; rfl
  have hmem0 : (first, 0) ∈ coord.attentionGroups.zipIdx := by simp [hzip]
  have hmem1 : (second, 1) ∈ coord.attentionGroups.zipIdx := by simp [hzip]
  have htidy : coord.Tidy maxCacheHitLength ⟨maxCacheHitLength, [], fun _ ↦ none⟩ :=
    ⟨le_rfl, fun _ _ ↦ .inl fun _ _ ↦ rfl⟩
  -- The first pass looks both groups up.
  obtain ⟨state1, hvisit1, htidy1, hframe1, hvisited1⟩ := htidy.visit hcombined hcan hpromise hmem0
  obtain ⟨_, -, hstores0, -⟩ := hvisited1.exists_finds (.inr fun _ _ ↦ rfl)
  have hfresh1 :=
    (HitSearch.fresh_congr (hitBlocksByGroup_eq_of_ne hmem0 hmem1 (by simp) hframe1)).2 fun _ _ ↦ rfl
  obtain ⟨state2, hvisit2, htidy2, hframe2, hvisited2⟩ := htidy1.visit hcombined hcan hpromise hmem1
  obtain ⟨_, hfinds, hstores, hcurr, -⟩ := hvisited2.exists_finds (.inr hfresh1)
  rw [usesEagle_eq_false heagle] at hfinds
  have hstored2 := (hstores0.congr (hitBlocksByGroup_eq_of_ne hmem1 hmem0 (by simp) hframe2)).not_fresh
      (coord.partition.groupIds_ne_nil first (by simp [hgroups]))
  -- The second pass trims full attention, and finds the same blocks for the other group.
  have hkept : coord.visit pool blockHashes maxCacheHitLength 0 first state2 = .ok state2 := by
    obtain ⟨_, hvisit3, -, -, hvisited3⟩ := htidy2.visit hcombined hcan hpromise hmem0
    cases hvisited3 with
    | trimmed _ _ hnext =>
      have hdvd : first.spec.blockSize ∣ state2.currHitLength :=
        (dvd_lcmBlockSize (by simp [hgroups])).trans (hcurr ▸ hfinds.aligned)
      rw [Nat.div_mul_cancel hdvd] at hnext
      rw [hvisit3, hnext]
    | searched _ hsearch =>
      rcases hsearch with hother | hfresh
      · exact absurd hfull (Bool.eq_false_iff.1 hother)
      · exact absurd hfresh hstored2
  obtain ⟨state4, hvisit4, -, hframe4, hvisited4⟩ := htidy2.visit hcombined hcan hpromise hmem1
  have hstable := hvisited4.stable heagle hfinds hstores hcurr hframe4
  refine ⟨state2, state4, ?_, ?_, hstable⟩
  · rw [hzip, pass, hvisit1]
    dsimp only
    rw [pass, hvisit2]
    rfl
  · rw [hzip, pass, hkept]
    dsimp only
    rw [pass, hvisit4]
    rfl

theorem searchLoop_of_pass (onePass : Bool)
    (hpass : coord.pass pool blockHashes maxCacheHitLength coord.attentionGroups.zipIdx
      { search with currHitLength := hitLength } = .ok next) :
    coord.searchLoop pool blockHashes maxCacheHitLength onePass hitLength search =
      if hitLength ≤ next.currHitLength then .ok (next, hitLength)
      else if onePass then .ok (next, next.currHitLength)
      else coord.searchLoop pool blockHashes maxCacheHitLength onePass next.currHitLength next := by
  rw [searchLoop, hpass]

theorem findHit_onePass_eq (hcombined : coord.Combined) (hcan : coord.CanSearch)
    (hpromise : coord.SearchPromise pool blockHashes maxCacheHitLength)
    (heagle : coord.eagleAttnGroupIndices = []) (hsimple : coord.isSimpleHybrid = true) :
    coord.findHit pool blockHashes maxCacheHitLength true =
      coord.findHit pool blockHashes maxCacheHitLength false := by
  obtain ⟨next, _, hpass, hpass', hlen, hblocks⟩ :=
    exists_passes_of_isSimpleHybrid hcombined hcan hpromise heagle hsimple
  rw [findHit, findHit, searchLoop_of_pass false hpass, searchLoop_of_pass true hpass]
  by_cases hstop : maxCacheHitLength ≤ next.currHitLength
  · rw [if_pos hstop, if_pos hstop]
  · rw [if_neg hstop, if_neg hstop, if_pos rfl, if_neg Bool.false_ne_true, searchLoop_of_pass false hpass',
      if_pos hlen.ge]
    simp [Except.map, truncated_congr hblocks]

/-! ## Windows that do not reach back -/

/-- The prefix cache holds the blocks of all attention groups but one. -/
def allCachedBut (index : ℕ) (item : AttentionGroup σ × ℕ) (_ : ℕ) : Prop :=
  item.2 ≠ index

theorem hitLength_eq_zero (hcombined : coord.Combined) (hcan : coord.CanSearch)
    (heagle : coord.eagleAttnGroupIndices = [])
    (hpromise : coord.SearchPromise pool blockHashes maxCacheHitLength)
    (hitem : item ∈ coord.attentionGroups.zipIdx) (hother : item.1.isFullAttention = false)
    (hnone : ∀ index, (item.1.cachedBlocks pool blockHashes index).isSome ≠ true)
    {result : List (List ℕ) × ℕ}
    (hfind : coord.findLongestCacheHit pool blockHashes maxCacheHitLength = .ok result) : result.2 = 0 := by
  obtain ⟨before, after, hzip⟩ := append_of_mem hitem
  have hpass : coord.PassLeads pool blockHashes maxCacheHitLength
      coord.attentionGroups.zipIdx (fun _ ↦ True) (fun search ↦ search.currHitLength = 0) := by
    have hmem (other : AttentionGroup σ × ℕ) (hmem : other ∈ before ++ item :: after) :
        other ∈ coord.attentionGroups.zipIdx := hzip ▸ hmem
    rw [hzip]
    refine .append (.invariant hcombined hcan hpromise
      (fun other h ↦ hmem other (mem_append_left _ h)) fun _ _ _ _ _ _ _ _ ↦ trivial)
      (.cons hcombined hcan hpromise hitem (fun _ _ _ _ _ hvis ↦
        hvis.currHitLength_eq_zero hnone (.inr (.inl hother)))
        (.invariant hcombined hcan hpromise
          (fun other h ↦ hmem other (mem_append_right _ (mem_cons_of_mem _ h))) ?_))
    intro other h search next hzero _ _ hvis
    have hle := hvis.currHitLength_le (hmem other (mem_append_right _ (mem_cons_of_mem _ h)))
      (dropsEagleBlocks_of_nil heagle other
        (hmem other (mem_append_right _ (mem_cons_of_mem _ h)))) (hzero ▸ dvd_zero _)
    exact Nat.le_zero.1 (hzero ▸ hle)
  obtain ⟨next, hnext, htidy, hzero⟩ := hpass ⟨maxCacheHitLength, [], fun _ ↦ none⟩ trivial
    ⟨le_rfl, fun _ _ ↦ .inl fun _ _ ↦ rfl⟩
  obtain ⟨_, hfinal, -⟩ := hpass next trivial htidy
  rw [findLongestCacheHit, findHit, searchLoop_of_pass _ hnext] at hfind
  split at hfind
  · next hstop =>
    rw [← Except.ok.inj hfind]
    exact Nat.le_zero.1 (hzero ▸ hstop)
  · split at hfind
    · rw [← Except.ok.inj hfind]
      exact hzero
    · rw [searchLoop_of_pass _ hfinal, if_pos (hzero ▸ Nat.zero_le _)] at hfind
      rw [← Except.ok.inj hfind]
      exact hzero

theorem OptimalHits.canSearch (hcombined : coord.Combined) (hoptimal : coord.OptimalHits) :
    coord.CanSearch :=
  canSearch_of_returns hcombined fun pool blockHashes maxCacheHitLength hpromise ↦ by
    obtain ⟨blocks, hitLength, hfind, -⟩ := hoptimal pool blockHashes maxCacheHitLength hpromise
    exact ⟨_, hfind⟩

theorem OptimalHits.reachesBack (hcombined : coord.Combined)
    (heagle : coord.eagleAttnGroupIndices = []) (hoptimal : coord.OptimalHits) : coord.ReachesBack := by
  have hcan := hoptimal.canSearch hcombined
  intro member hmember window hkind
  by_contra hwindow
  obtain ⟨groupId, hgroupId⟩ := mem_iff_getElem?.1 hmember
  obtain ⟨item, hitem, pos, hid, hspec⟩ := exists_attentionGroup hgroupId
  rw [← hspec] at hkind
  obtain ⟨pool, blockHashes, hpromise, hcached⟩ :=
    exists_content hcombined coord.lcmBlockSize (allCachedBut item.2)
  obtain ⟨blocks, hitLength, hfind, ⟨-, hmax⟩, -⟩ := hoptimal pool blockHashes _ hpromise
  have hzero := hitLength_eq_zero hcombined hcan heagle hpromise hitem
    (by rcases hkind with hkind | hkind <;> rw [AttentionGroup.isFullAttention, hkind] <;> rfl)
    (fun index hsome ↦ ((hcached item hitem index).1 hsome).2 rfl) hfind
  -- The full alignment is a valid length: the window needs no block there.
  have hvalid : coord.lcmBlockSize ∈
      coord.validLengths pool blockHashes coord.lcmBlockSize := by
    refine (mem_validLengths_iff hcombined hpromise).2 ⟨dvd_rfl, le_rfl, fun group hgroup ↦ ?_⟩
    obtain ⟨index, hidx⟩ := mem_iff_getElem?.1 hgroup
    have hother : (group, index) ∈ coord.attentionGroups.zipIdx := mem_zipIdx_iff_getElem?.2 hidx
    by_cases hsame : index = item.2
    · have hget := mem_zipIdx_iff_getElem?.1 hitem
      rw [← hsame, hidx] at hget
      cases hget
      refine covered_of_le _ (Nat.div_le_div_right ?_)
      have hskipped : item.1.spec.numSkippedTokens coord.lcmBlockSize = coord.lcmBlockSize + 1 - window := by
        rcases hkind with hkind | hkind <;> simp only [numSkippedTokens, hkind]
      omega
    · intro pos _ hpos
      exact (hcached _ hother pos).2 ⟨hpos, hsame⟩
  have hle := hmax hvalid
  rw [show hitLength = 0 from hzero] at hle
  exact absurd coord.lcmBlockSize_pos (not_lt.2 hle)

/-- Without EAGLE groups the search is optimal exactly if the managers can search and every sliding window
reaches back behind the token itself. -/
theorem optimalHits_iff (hcombined : coord.Combined) (heagle : coord.eagleGroupIds = []) :
    coord.OptimalHits ↔ coord.CanSearch ∧ coord.ReachesBack := by
  have hindices := eagleAttnGroupIndices_eq_nil heagle
  constructor
  · intro hoptimal
    exact ⟨hoptimal.canSearch hcombined, hoptimal.reachesBack hcombined hindices⟩
  · rintro ⟨hcan, hreaches⟩ pool blockHashes maxCacheHitLength hpromise
    obtain ⟨final, hitLength, hloop, hspec⟩ := searchLoop_fresh hcombined hcan hpromise
      (dropsEagleBlocks_of_nil hindices) _
    have hfind : coord.findLongestCacheHit pool blockHashes maxCacheHitLength = .ok
        ((List.range coord.kvCacheGroups.length).map fun groupId ↦
          (coord.truncated final hitLength groupId).getD [], hitLength) := by
      rw [findLongestCacheHit, findHit, hloop]
      rfl
    refine ⟨_, hitLength, hfind, hspec.isGreatest hcombined hpromise hreaches hindices, fun hsimple ↦ ?_⟩
    rw [← hfind, findLongestCacheHit, hsimple]
    exact (findHit_onePass_eq hcombined hcan hpromise hindices hsimple).symm

theorem optimalHits_fullAndWindow : fullAndWindow.Combined ∧ fullAndWindow.eagleGroupIds = [] ∧
    fullAndWindow.OptimalHits := by
  refine ⟨combined_fullAndWindow, rfl, (optimalHits_iff combined_fullAndWindow rfl).2 ⟨nofun, ?_⟩⟩
  intro group hgroup window hkind
  simp only [fullAndWindow, mem_cons, not_mem_nil, or_false] at hgroup
  rcases hgroup with rfl | rfl <;> simp at hkind
  omega

/-- A sliding window of one token needs no cached block, but no hit is returned without one. With a NELSSA
configuration the search for a sliding window raises. -/
theorem not_optimalHits :
    (∃ coord pool, build [.fullAttention, .slidingWindow 1] none false = .ok (coord, pool) ∧
      ¬ coord.OptimalHits ∧ coord.hitRun pool [[1, 2], []] 32 = .ok ([[], []], 0)) ∧
    ∃ coord pool, build [.fullAttention, .slidingWindow 32] (some {}) false = .ok (coord, pool) ∧
      ¬ coord.OptimalHits ∧ (coord.hitRun pool [[1, 2], [3, 4]] 32).isOk = false := by
  refine ⟨⟨_, _, rfl, fun hoptimal ↦ ?_, by decide +kernel⟩, _, _, rfl, fun hoptimal ↦ ?_, by decide +kernel⟩
  · have hreaches := hoptimal.reachesBack ⟨by decide, by decide⟩ rfl
    exact absurd (hreaches _ (mem_cons_of_mem _ (mem_cons_self ..)) 1 (.inl rfl)) (by decide)
  · exact absurd (hoptimal.canSearch ⟨by decide, by decide⟩) (by unfold CanSearch; decide)

end HybridKVCacheCoordinator

end Nelssa.Core
