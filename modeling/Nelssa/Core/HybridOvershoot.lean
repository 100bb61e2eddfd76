import Nelssa.Core.HybridLimits

/-!
# Mamba groups that overshoot

A Mamba group does not drop the block that EAGLE adds. If its block size is the full alignment, its
search returns one aligned block more than the candidate length. As the last attention group it raises
the hit above what the groups before it hold. In front of other groups it keeps the additional block
while the groups behind it go back to a shorter length.
-/

namespace Nelssa.Core.HybridKVCacheCoordinator

open Foundation.HitWindows
open List hiding max le_antisymm lt_irrefl not_le not_lt

variable {σ : Type*} {coord : HybridKVCacheCoordinator σ} {pool : BlockPool}
  {blockHashes : List BlockHash} {maxCacheHitLength : ℕ} {item target : AttentionGroup σ × ℕ}
  {before after : List (AttentionGroup σ × ℕ)} {search next final : HitSearch} {columns : List (List ℕ)}

/-- The first attention group whose search overshoots. -/
structure Overshoots (coord : HybridKVCacheCoordinator σ) (before : List (AttentionGroup σ × ℕ))
    (target : AttentionGroup σ × ℕ) (after : List (AttentionGroup σ × ℕ)) : Prop where
  zipIdx : coord.attentionGroups.zipIdx = before ++ target :: after
  bounded : ∀ item ∈ before, coord.Bounded item.2 item.1
  eagle : target.2 ∈ coord.eagleAttnGroupIndices
  isMamba : target.1.spec.kind.isMamba = true
  blockSize : target.1.spec.blockSize = coord.lcmBlockSize

theorem exists_overshoots (hdrops : ¬ coord.DropsEagleBlocks) :
    ∃ before target after, coord.Overshoots before target after := by
  classical
  simp only [DropsEagleBlocks, not_forall] at hdrops
  obtain ⟨item, hitem, hunbounded⟩ := hdrops
  obtain ⟨target, htarget⟩ := Option.isSome_iff_exists.1 (find?_isSome.2
    ⟨item, hitem, decide_eq_true hunbounded⟩ :
      (coord.attentionGroups.zipIdx.find? fun item ↦ ¬ coord.Bounded item.2 item.1).isSome)
  obtain ⟨hfound, before, after, hzip, hbefore⟩ := find?_eq_some_iff_append.1 htarget
  simp only [Bounded, not_forall, not_not, decide_eq_true_eq] at hfound
  obtain ⟨heagle, hmamba, hsize⟩ := hfound
  exact ⟨before, target, after, hzip, fun item hitem ↦ by simpa using hbefore item hitem, heagle, hmamba,
    hsize⟩

variable {useEagle : Bool} {maxLength : ℕ}

namespace Overshoots

variable (hover : coord.Overshoots before target after)

include hover

theorem mem_target : target ∈ coord.attentionGroups.zipIdx := by
  rw [hover.zipIdx]
  simp

theorem mem_of_mem_before (hitem : item ∈ before) : item ∈ coord.attentionGroups.zipIdx := by
  rw [hover.zipIdx]
  exact mem_append_left _ hitem

theorem mem_of_mem_after (hitem : item ∈ after) : item ∈ coord.attentionGroups.zipIdx := by
  rw [hover.zipIdx]
  exact mem_append_right _ (mem_cons_of_mem _ hitem)

theorem pairwise_lt : (before ++ target :: after).Pairwise fun item other ↦ item.2 < other.2 := by
  have hpair := pairwise_lt_range' (s := 0) (n := coord.attentionGroups.length)
  rwa [← zipIdx_map_snd, pairwise_map, hover.zipIdx] at hpair

theorem lt_target (hitem : item ∈ before) : item.2 < target.2 :=
  (pairwise_append.1 hover.pairwise_lt).2.2 item hitem target mem_cons_self

theorem target_lt (hitem : item ∈ after) : target.2 < item.2 :=
  (pairwise_cons.1 (pairwise_append.1 hover.pairwise_lt).2.1).1 item hitem

theorem isFullAttention_target : target.1.isFullAttention = false := by
  by_contra hfull
  have hother := (KVCacheSpec.lookback_of_isFullAttention (Bool.eq_true_of_not_eq_false hfull)).2
  rw [hover.isMamba] at hother
  cases hother

/-- Full attention comes first, so that it does not come after a Mamba group. -/
theorem isFullAttention_after (hitem : item ∈ after) : item.1.isFullAttention = false := by
  have hpair : coord.attentionGroups.zipIdx.Pairwise fun item other ↦
      other.1.isFullAttention = true → item.1.isFullAttention = true := by
    have hfirst := coord.full_first
    rwa [← zipIdx_map_fst 0 coord.attentionGroups, pairwise_map] at hfirst
  rw [hover.zipIdx] at hpair
  by_contra hfull
  have htarget := (pairwise_cons.1 (pairwise_append.1 hpair).2.1).1 item hitem
    (Bool.eq_true_of_not_eq_false hfull)
  rw [hover.isFullAttention_target] at htarget
  cases htarget

theorem usesEagle_target (hver : target.2 ∉ search.eagleVerified) :
    coord.usesEagle target.2 search = true := by
  simp [usesEagle, hover.eagle, hver]

theorem le_length {numBlocks : ℕ} (hfinds : coord.Finds pool blockHashes target.1 maxLength useEagle columns)
    (hmax : numBlocks * coord.lcmBlockSize ≤ maxLength)
    (hcached : (target.1.cachedBlocks pool blockHashes (numBlocks - 1)).isSome = true) :
    numBlocks ≤ columns.length := by
  refine (hfinds.greatest (.inr hover.isMamba)).2.2 ⟨?_, ?_, ?_⟩
  · rwa [Nat.le_div_iff_mul_le target.1.spec.blockSize_pos, hover.blockSize]
  · rw [hover.blockSize]
    exact dvd_mul_left _ _
  · rw [KVCacheSpec.firstSought_of_some (KVCacheSpec.lookback_of_isMamba hover.isMamba)]
    intro pos _ _
    rwa [show pos = numBlocks - 1 by omega]

theorem isSome_last (hfinds : coord.Finds pool blockHashes target.1 maxLength useEagle columns)
    (hne : columns ≠ []) : (target.1.cachedBlocks pool blockHashes (columns.length - 1)).isSome = true := by
  have hlast := hfinds.last hne
  rwa [if_neg (by simp [hover.isMamba])] at hlast

end Overshoots

/-! ## The last attention group -/

/-- The prefix cache holds the blocks of one attention group only. -/
def onlyCached (index : ℕ) (item : AttentionGroup σ × ℕ) (_ : ℕ) : Prop :=
  item.2 = index

section Last

variable (hover : coord.Overshoots before target [])
  (hcached : coord.CachedAs pool blockHashes coord.lcmBlockSize (onlyCached target.2))

include hover hcached

theorem Overshoots.cachedBlocks_before (hitem : item ∈ before) (index : ℕ) :
    (item.1.cachedBlocks pool blockHashes index).isSome ≠ true :=
  fun hsome ↦ (hover.lt_target hitem).ne ((hcached item (hover.mem_of_mem_before hitem) index).1 hsome).2

theorem Overshoots.leads_first (hitem : item ∈ before) :
    coord.Leads pool blockHashes coord.lcmBlockSize item
      (fun search ↦ search.Fresh item.1 ∧ target.2 ∉ search.eagleVerified)
      (fun search ↦ search.Stores item.1 [] ∧ search.currHitLength = 0 ∧
        target.2 ∉ search.eagleVerified) := by
  rintro search next ⟨hfresh, hver⟩ - - hvis
  obtain ⟨_, hfinds, hstores, -⟩ := hvis.exists_finds (.inr hfresh)
  have hnone := hover.cachedBlocks_before hcached hitem
  obtain rfl := hfinds.eq_nil hnone
  exact ⟨hstores, hvis.currHitLength_eq_zero hnone (.inr (.inr hfresh)),
    hvis.notMem_eagleVerified (hover.lt_target hitem).ne hver⟩

variable {first : AttentionGroup σ × ℕ} (hfirst : first ∈ before)
include hfirst

theorem Overshoots.leads_others (hitem : item ∈ before) (hne : first ≠ item) :
    coord.Leads pool blockHashes coord.lcmBlockSize item
      (fun search ↦ search.Stores first.1 [] ∧ search.currHitLength = 0 ∧ target.2 ∉ search.eagleVerified)
      (fun search ↦ search.Stores first.1 [] ∧ search.currHitLength = 0 ∧
        target.2 ∉ search.eagleVerified) := by
  rintro search next ⟨hstores, hzero, hver⟩ hframe - hvis
  refine ⟨hstores.congr ?_, hvis.currHitLength_eq_zero (hover.cachedBlocks_before hcached hitem)
    (.inl hzero), hvis.notMem_eagleVerified (hover.lt_target hitem).ne hver⟩
  exact hitBlocksByGroup_eq_of_ne (hover.mem_of_mem_before hitem) (hover.mem_of_mem_before hfirst) hne hframe

theorem Overshoots.leads_target :
    coord.Leads pool blockHashes coord.lcmBlockSize target
      (fun search ↦ search.Stores first.1 [] ∧ search.currHitLength = 0 ∧ target.2 ∉ search.eagleVerified)
      (fun search ↦ search.Stores first.1 [] ∧ coord.lcmBlockSize ≤ search.currHitLength) := by
  rintro search next ⟨hstores, hzero, hver⟩ hframe - hvis
  obtain ⟨columns, hfinds, -, hcurr, -⟩ := hvis.exists_finds (.inl hover.isFullAttention_target)
  have hne : first ≠ target := by
    rintro rfl
    exact lt_irrefl _ (hover.lt_target hfirst)
  refine ⟨hstores.congr (hitBlocksByGroup_eq_of_ne hover.mem_target (hover.mem_of_mem_before hfirst) hne
    hframe), ?_⟩
  have hlimit : coord.maxLengthAt coord.lcmBlockSize target.2 target.1 search =
      coord.lcmBlockSize := by
    rw [maxLengthAt, if_pos (hover.usesEagle_target hver), hzero, hover.blockSize, zero_add, min_self]
  have hone : 1 ≤ columns.length := by
    refine hover.le_length hfinds (by rw [hlimit, one_mul]) ?_
    refine (hcached target hover.mem_target 0).2 ⟨?_, rfl⟩
    rw [hover.blockSize, Nat.div_self coord.lcmBlockSize_pos]
    exact one_pos
  rw [hcurr, hover.blockSize]
  exact Nat.le_mul_of_pos_left _ hone

end Last

theorem SoundHits.not_overshoots_last (hcombined : coord.Combined) (hsound : coord.SoundHits) :
    ¬ coord.Overshoots before target [] := by
  intro hover
  have hcan := hsound.canSearch hcombined
  obtain ⟨pool, blockHashes, hprom, hcached⟩ :=
    exists_content hcombined coord.lcmBlockSize (onlyCached target.2)
  obtain ⟨first, others, rfl⟩ : ∃ first others, before = first :: others := by
    apply exists_cons_of_ne_nil
    rintro rfl
    have hlen := congrArg length hover.zipIdx
    rw [length_zipIdx] at hlen
    exact absurd coord.one_lt_length (by simp [hlen])
  have hfirst : first ∈ first :: others := mem_cons_self
  have hrest (item : AttentionGroup σ × ℕ) (hitem : item ∈ others) : item ∈ first :: others :=
    mem_cons_of_mem _ hitem
  have hne (item : AttentionGroup σ × ℕ) (hitem : item ∈ others) : first ≠ item := by
    rintro rfl
    have hpair := (pairwise_append.1 hover.pairwise_lt).1
    exact lt_irrefl _ ((pairwise_cons.1 hpair).1 first hitem)
  have hpass : coord.PassLeads pool blockHashes coord.lcmBlockSize coord.attentionGroups.zipIdx
      (fun search ↦ search.Fresh first.1 ∧ target.2 ∉ search.eagleVerified)
      (fun search ↦ search.Stores first.1 [] ∧ coord.lcmBlockSize ≤ search.currHitLength) := by
    rw [hover.zipIdx]
    refine .cons hcombined hcan hprom (hover.mem_of_mem_before hfirst)
      (hover.leads_first hcached hfirst) (.append (.invariant hcombined hcan hprom ?_ ?_)
        (.cons hcombined hcan hprom hover.mem_target (hover.leads_target hcached hfirst)
          (.invariant hcombined hcan hprom ?_ ?_)))
    · exact fun item hitem ↦ hover.mem_of_mem_before (hrest item hitem)
    · exact fun item hitem ↦ hover.leads_others hcached hfirst (hrest item hitem) (hne item hitem)
    · exact fun _ hitem ↦ absurd hitem not_mem_nil
    · exact fun _ hitem ↦ absurd hitem not_mem_nil
  obtain ⟨final, ⟨hstores, -⟩, hloop⟩ := hpass.stops _
    ⟨coord.lcmBlockSize, [], fun _ ↦ none⟩ ⟨fun _ _ ↦ rfl, not_mem_nil⟩
    ⟨le_rfl, fun _ _ ↦ .inl fun _ _ ↦ rfl⟩ _ fun final hfinal ↦ hfinal.2
  have hle := (hsound.length_of_stores hprom hloop (hover.mem_of_mem_before hfirst) hstores).1
  rw [length_nil, zero_mul] at hle
  exact absurd coord.lcmBlockSize_pos (not_lt.2 hle)

/-! ## An attention group in front of others -/

/-- A number of aligned lengths that is more than any group looks back on. -/
def AboveLookback (coord : HybridKVCacheCoordinator σ) (top : ℕ) : Prop :=
  ∀ group ∈ coord.attentionGroups, ∀ blocks, group.spec.lookback = some blocks →
    max blocks 1 + 2 ≤ top

theorem exists_aboveLookback (coord : HybridKVCacheCoordinator σ) :
    ∃ top, 2 ≤ top ∧ coord.AboveLookback top := by
  unfold AboveLookback
  induction coord.attentionGroups with
  | nil => exact ⟨2, le_rfl, fun _ hgroup ↦ absurd hgroup not_mem_nil⟩
  | cons first rest ih =>
    obtain ⟨top, -, htop⟩ := ih
    refine ⟨top + (max (first.spec.lookback.getD 0) 1 + 2), by omega, fun group hgroup blocks hblocks ↦ ?_⟩
    rcases mem_cons.1 hgroup with rfl | hrest
    · rw [hblocks, Option.getD_some]
      omega
    · exact (htop group hrest blocks hblocks).trans (Nat.le_add_right _ _)

theorem AboveLookback.fitsFrom {top length first : ℕ} (htop : coord.AboveLookback top)
    {group : AttentionGroup σ} (hgroup : group ∈ coord.attentionGroups)
    (hlen : top * coord.lcmBlockSize ≤ length)
    (hfirst : first * group.spec.blockSize ≤ 2 * coord.lcmBlockSize)
    (hnone : group.spec.lookback = none → first = 0) :
    group.spec.FitsFrom first (length / group.spec.blockSize) := by
  unfold KVCacheSpec.FitsFrom
  split
  · next hback => exact hnone hback
  · next blocks hback =>
    have hle := Nat.le_of_dvd coord.lcmBlockSize_pos (dvd_lcmBlockSize hgroup)
    rw [Nat.le_div_iff_mul_le group.spec.blockSize_pos]
    calc (first + max blocks 1) * group.spec.blockSize
        = first * group.spec.blockSize + max blocks 1 * group.spec.blockSize := add_mul _ _ _
      _ ≤ 2 * coord.lcmBlockSize + max blocks 1 * coord.lcmBlockSize :=
          add_le_add hfirst (Nat.mul_le_mul_left _ hle)
      _ = (max blocks 1 + 2) * coord.lcmBlockSize := by rw [add_mul, add_comm]
      _ ≤ top * coord.lcmBlockSize := Nat.mul_le_mul_right _ (htop group hgroup blocks hback)
      _ ≤ length := hlen

section

variable (hvis : coord.Visited pool blockHashes maxCacheHitLength item search next)
include hvis

theorem Visited.le_currHitLength {length : ℕ} (hitem : item ∈ coord.attentionGroups.zipIdx)
    (hcached : ∀ index < maxCacheHitLength / item.1.spec.blockSize,
      (item.1.cachedBlocks pool blockHashes index).isSome = true)
    (hdvd : coord.lcmBlockSize ∣ length) (hcurr : length ≤ search.currHitLength)
    (hfits : item.1.spec.FitsFrom 0 (length / item.1.spec.blockSize))
    (hmax : length + item.1.spec.blockSize ≤ maxCacheHitLength) : length ≤ next.currHitLength := by
  have hblocks := (dvd_lcmBlockSize (mem_attentionGroups_of_zipIdx hitem)).trans hdvd
  have hpos := item.1.spec.blockSize_pos
  cases hvis with
  | trimmed _ _ hnext =>
    rw [hnext]
    calc length = length / item.1.spec.blockSize * item.1.spec.blockSize := (Nat.div_mul_cancel hblocks).symm
      _ ≤ _ := Nat.mul_le_mul_right _ (Nat.div_le_div_right hcurr)
  | searched columns _ hfinds _ hnext =>
    rw [hnext]
    refine hfinds.le_length 0 hdvd hblocks hfits (limit_le_maxLengthAt hcurr hmax) fun index _ hidx ↦ ?_
    apply hcached
    have hstep : length / item.1.spec.blockSize + 1 ≤ maxCacheHitLength / item.1.spec.blockSize := by
      rw [← Nat.add_div_right length hpos]
      exact Nat.div_le_div_right hmax
    split at hidx <;> omega

theorem Visited.currHitLength_le (hitem : item ∈ coord.attentionGroups.zipIdx)
    (hbounded : coord.Bounded item.2 item.1) (hdvd : coord.lcmBlockSize ∣ search.currHitLength) :
    next.currHitLength ≤ search.currHitLength := by
  cases hvis with
  | trimmed _ _ hnext =>
    rw [hnext]
    exact Nat.div_mul_le_self _ _
  | searched columns _ hfinds _ hnext =>
    rw [hnext]
    exact hfinds.le_currHitLength (mem_attentionGroups_of_zipIdx hitem) hbounded (.inl hdvd) rfl

theorem Visited.mem_eagleVerified {index : ℕ} (hidx : index ∈ search.eagleVerified)
    (hle : coord.usesEagle item.2 search = true ∨ search.currHitLength ≤ next.currHitLength) :
    index ∈ next.eagleVerified := by
  cases hvis with
  | trimmed _ _ hnext =>
    rw [hnext]
    exact hidx
  | searched _ _ _ _ hcurr hver =>
    rw [hver]
    split
    · exact mem_cons_of_mem _ hidx
    · next heagle =>
      rw [if_neg (not_lt.2 (hcurr ▸ hle.resolve_left heagle))]
      exact hidx

end

/-- A content that needs three passes. The groups in front have all their blocks. The Mamba group has
its first block and one above the others, and the groups behind it have a run of blocks up to `top`
aligned lengths, but not the first ones. -/
def Staggered (coord : HybridKVCacheCoordinator σ) (index top : ℕ) (item : AttentionGroup σ × ℕ)
    (pos : ℕ) : Prop :=
  if item.2 < index then True
  else if item.2 = index then pos = 0 ∨ pos = top + 1
  else 2 * coord.lcmBlockSize ≤ pos * item.1.spec.blockSize ∧
    if item.2 ∈ coord.eagleAttnGroupIndices ∧ item.1.spec.kind.isMamba = false then
      pos * item.1.spec.blockSize ≤ top * coord.lcmBlockSize
    else (pos + 1) * item.1.spec.blockSize ≤ top * coord.lcmBlockSize

/-- A pass begins with a long hit, and neither the Mamba group nor those behind it are verified. -/
def StartsHigh (coord : HybridKVCacheCoordinator σ) (top target : ℕ) (search : HitSearch) : Prop :=
  (top + 2) * coord.lcmBlockSize ≤ search.currHitLength ∧
    ∀ index, target ≤ index → index ∉ search.eagleVerified

/-- The hit is back at `top`, and the Mamba group is verified if the next group is one of EAGLE. -/
def BackAtTop (coord : HybridKVCacheCoordinator σ) (top target index : ℕ) (search : HitSearch) : Prop :=
  search.currHitLength = top * coord.lcmBlockSize ∧
    (index ∈ coord.eagleAttnGroupIndices → target ∈ search.eagleVerified)

def BackAtZero (target : ℕ) (search : HitSearch) : Prop :=
  search.currHitLength = 0 ∧ target ∉ search.eagleVerified

/-- The Mamba group keeps one block. -/
def KeepsOne (target : AttentionGroup σ) (limit : ℕ) (search : HitSearch) : Prop :=
  search.currHitLength ≤ limit ∧ ∃ columns, columns.length = 1 ∧ search.Stores target columns

section Staggered

variable {top : ℕ} (hover : coord.Overshoots before target after)
  (hcached : coord.CachedAs pool blockHashes ((top + 3) * coord.lcmBlockSize)
    (coord.Staggered target.2 top))

include hover hcached

namespace Overshoots

theorem isSome_before (hitem : item ∈ before) : ∀ index,
    index < (top + 3) * coord.lcmBlockSize / item.1.spec.blockSize →
    (item.1.cachedBlocks pool blockHashes index).isSome = true := by
  intro index hidx
  refine (hcached item (hover.mem_of_mem_before hitem) index).2 ⟨hidx, ?_⟩
  rw [Staggered, if_pos (hover.lt_target hitem)]
  exact trivial

theorem isSome_target_iff (index : ℕ) : (target.1.cachedBlocks pool blockHashes index).isSome = true ↔
    index = 0 ∨ index = top + 1 := by
  rw [hcached target hover.mem_target, Staggered, if_neg (lt_irrefl _), if_pos rfl, hover.blockSize,
    Nat.mul_div_cancel _ coord.lcmBlockSize_pos]
  omega

theorem isSome_after_iff (hitem : item ∈ after) (index : ℕ) :
    (item.1.cachedBlocks pool blockHashes index).isSome = true ↔
      index < (top + 3) * coord.lcmBlockSize / item.1.spec.blockSize ∧
      2 * coord.lcmBlockSize ≤ index * item.1.spec.blockSize ∧
      if item.2 ∈ coord.eagleAttnGroupIndices ∧ item.1.spec.kind.isMamba = false then
        index * item.1.spec.blockSize ≤ top * coord.lcmBlockSize
      else (index + 1) * item.1.spec.blockSize ≤ top * coord.lcmBlockSize := by
  have hlt := hover.target_lt hitem
  rw [hcached item (hover.mem_of_mem_after hitem), Staggered, if_neg (not_lt.2 hlt.le), if_neg hlt.ne']

/-- The groups in front keep the lengths of the second and of the third pass. -/
theorem currHitLength_before (htop : coord.AboveLookback top) (hitem : item ∈ before)
    (hlen : search.currHitLength = 0 ∨ search.currHitLength = top * coord.lcmBlockSize)
    (hvis : coord.Visited pool blockHashes ((top + 3) * coord.lcmBlockSize) item search
      next) : next.currHitLength = search.currHitLength := by
  have hmem := hover.mem_of_mem_before hitem
  have hgroup := mem_attentionGroups_of_zipIdx hmem
  have hdvd : coord.lcmBlockSize ∣ search.currHitLength := by
    rcases hlen with hzero | hlen
    · rw [hzero]
      exact dvd_zero _
    · rw [hlen]
      exact dvd_mul_left _ _
  apply le_antisymm (hvis.currHitLength_le hmem (hover.bounded item hitem) hdvd)
  rcases hlen with hzero | hlen
  · rw [hzero]
    exact Nat.zero_le _
  · have hle := Nat.le_of_dvd coord.lcmBlockSize_pos (dvd_lcmBlockSize hgroup)
    refine hvis.le_currHitLength hmem (hover.isSome_before hcached hitem) hdvd le_rfl
      (htop.fitsFrom hgroup hlen.ge (by simp) fun _ ↦ rfl) ?_
    rw [add_mul]
    omega

theorem length_target (hfinds : coord.Finds pool blockHashes target.1 maxLength useEagle columns)
    (hlow : coord.lcmBlockSize ≤ maxLength) :
    columns.length =
      if (top + 2) * coord.lcmBlockSize ≤ maxLength then top + 2 else 1 := by
  have hone := hover.le_length hfinds (by rwa [one_mul]) ((hover.isSome_target_iff hcached 0).2 (.inl rfl))
  have hlast := (hover.isSome_target_iff hcached _).1 (hover.isSome_last hfinds (length_pos_iff.1 hone))
  split
  · next hhigh =>
    have hreached := hover.le_length hfinds hhigh ((hover.isSome_target_iff hcached _).2 (.inr rfl))
    omega
  · next hhigh =>
    have hle := hfinds.le
    rw [hover.blockSize, Nat.le_div_iff_mul_le coord.lcmBlockSize_pos] at hle
    rcases hlast with hfirst | hsecond
    · omega
    · rw [show columns.length = top + 2 by omega] at hle
      exact absurd hle hhigh

theorem currHitLength_after_zero (hitem : item ∈ after) (hcurr : search.currHitLength ≤ coord.lcmBlockSize)
    (hvis : coord.Visited pool blockHashes ((top + 3) * coord.lcmBlockSize) item search
      next) : next.currHitLength = 0 := by
  obtain ⟨columns, hfinds, -, hnext, -⟩ := hvis.exists_finds (.inl (hover.isFullAttention_after hitem))
  have hpos := item.1.spec.blockSize_pos
  have hgroup := mem_attentionGroups_of_zipIdx (hover.mem_of_mem_after hitem)
  have hsize := Nat.le_of_dvd coord.lcmBlockSize_pos (dvd_lcmBlockSize hgroup)
  have hlimit : coord.maxLengthAt ((top + 3) * coord.lcmBlockSize) item.2 item.1 search ≤
      2 * coord.lcmBlockSize := by
    unfold maxLengthAt
    split
    · exact (min_le_left _ _).trans (by omega)
    · omega
  suffices hnil : columns = [] by rw [hnext, hnil, length_nil, zero_mul]
  by_contra hne
  have hlast := ((hover.isSome_after_iff hcached hitem _).1 (hfinds.last hne)).2.1
  have hcount : 1 ≤ columns.length := length_pos_iff.2 hne
  split at hlast
  · next heagle =>
    have hlt := Nat.succ_le_of_lt (hfinds.lt_of_eagle heagle.1 heagle.2 hne)
    have hle := ((Nat.le_div_iff_mul_le hpos).1 hlt).trans hlimit
    rw [Nat.succ_mul] at hle
    omega
  · have hle := ((Nat.le_div_iff_mul_le hpos).1 hfinds.le).trans hlimit
    rw [← Nat.sub_add_cancel hcount, add_mul] at hle
    omega

section

variable (hcombined : coord.Combined) (htop : coord.AboveLookback top) (hitem : item ∈ after)
  (hcurr : top * coord.lcmBlockSize ≤ search.currHitLength)
include hcombined htop hitem hcurr

theorem le_length_after (hfinds : coord.Finds pool blockHashes item.1
      (coord.maxLengthAt ((top + 3) * coord.lcmBlockSize) item.2 item.1 search)
      (coord.usesEagle item.2 search) columns) :
    top * coord.lcmBlockSize ≤ columns.length * item.1.spec.blockSize := by
  have hpos := item.1.spec.blockSize_pos
  have hgroup := mem_attentionGroups_of_zipIdx (hover.mem_of_mem_after hitem)
  have hdvd := dvd_lcmBlockSize hgroup
  have hsize := Nat.le_of_dvd coord.lcmBlockSize_pos hdvd
  have hmax : top * coord.lcmBlockSize + item.1.spec.blockSize ≤ (top + 3) * coord.lcmBlockSize := by
    rw [add_mul]
    omega
  have htopBlocks := Nat.div_mul_cancel (hdvd.mul_left top)
  have hfirstBlocks := Nat.div_mul_cancel (hdvd.mul_left 2)
  refine hfinds.le_length _ (dvd_mul_left _ _)
    (hdvd.mul_left top) (htop.fitsFrom hgroup le_rfl hfirstBlocks.le fun hnone ↦ ?_)
    (limit_le_maxLengthAt hcurr hmax) fun index hlow hhigh ↦ ?_
  · exact absurd hnone (KVCacheSpec.lookback_ne_none (hcombined.kind hgroup)
      (hover.isFullAttention_after hitem))
  · have hlowTokens := Nat.mul_le_mul_right item.1.spec.blockSize hlow
    rw [hfirstBlocks] at hlowTokens
    -- The run ends with the block that EAGLE drops, if there is one.
    have hend : if item.2 ∈ coord.eagleAttnGroupIndices ∧ item.1.spec.kind.isMamba = false then
        index * item.1.spec.blockSize ≤ top * coord.lcmBlockSize
        else (index + 1) * item.1.spec.blockSize ≤ top * coord.lcmBlockSize := by
      have hle : index + (if coord.usesEagle item.2 search = true ∧
          item.1.spec.kind.isMamba = false then 0 else 1) ≤
          top * coord.lcmBlockSize / item.1.spec.blockSize := by
        split at hhigh <;> split <;> omega
      have htokens := Nat.mul_le_mul_right item.1.spec.blockSize hle
      rw [htopBlocks] at htokens
      split
      · exact (Nat.mul_le_mul_right _ (Nat.le_add_right _ _)).trans htokens
      · next hother =>
        have hnot : ¬ (coord.usesEagle item.2 search = true ∧ item.1.spec.kind.isMamba = false) := by
          rintro ⟨heagle, hmamba⟩
          simp only [usesEagle, decide_eq_true_eq] at heagle
          exact hother ⟨heagle.1, hmamba⟩
        rwa [if_neg hnot] at htokens
    refine (hover.isSome_after_iff hcached hitem index).2 ⟨?_, hlowTokens, hend⟩
    have hroom : top * coord.lcmBlockSize / item.1.spec.blockSize + 1 ≤
        (top + 3) * coord.lcmBlockSize / item.1.spec.blockSize := by
      rw [← Nat.add_div_right _ hpos]
      exact Nat.div_le_div_right hmax
    split at hhigh <;> omega

/-- The groups behind go back to `top` aligned lengths from a long one. -/
theorem currHitLength_after_top (hver : item.2 ∉ search.eagleVerified ∨
      search.currHitLength = top * coord.lcmBlockSize)
    (hvis : coord.Visited pool blockHashes ((top + 3) * coord.lcmBlockSize) item search
      next) : next.currHitLength = top * coord.lcmBlockSize := by
  obtain ⟨columns, hfinds, -, hnext, -⟩ := hvis.exists_finds (.inl (hover.isFullAttention_after hitem))
  rw [hnext]
  apply le_antisymm _ (hover.le_length_after hcached hcombined htop hitem hcurr hfinds)
  rcases eq_nil_or_concat columns with rfl | ⟨_, _, hcols⟩
  · simp
  have hne : columns ≠ [] := by simp [hcols]
  have hlast := ((hover.isSome_after_iff hcached hitem _).1 (hfinds.last hne)).2.2
  change if _ then (if coord.usesEagle item.2 search = true ∧ item.1.spec.kind.isMamba = false
    then columns.length else columns.length - 1) * _ ≤ _ else ((if coord.usesEagle item.2 search = true
    ∧ item.1.spec.kind.isMamba = false then columns.length else columns.length - 1) + 1) * _ ≤ _ at hlast
  by_cases heagle : coord.usesEagle item.2 search = true ∧ item.1.spec.kind.isMamba = false
  · have hidx : item.2 ∈ coord.eagleAttnGroupIndices := by
      have husage := heagle.1
      simp only [usesEagle, decide_eq_true_eq] at husage
      exact husage.1
    rwa [if_pos ⟨hidx, heagle.2⟩, if_pos heagle] at hlast
  · rw [if_neg heagle, Nat.sub_add_cancel (length_pos_iff.2 hne)] at hlast
    split at hlast
    · next hspec =>
      -- The group was verified before, so that it does not search beyond the candidate.
      have husage := Bool.eq_false_of_not_eq_true fun h ↦ heagle ⟨h, hspec.2⟩
      have hsame : search.currHitLength = top * coord.lcmBlockSize := by
        refine hver.resolve_left fun hnot ↦ ?_
        simp [usesEagle, hspec.1, hnot] at husage
      have hle := (Nat.le_div_iff_mul_le item.1.spec.blockSize_pos).1 hfinds.le
      rwa [maxLengthAt, if_neg (Bool.eq_false_iff.1 husage), hsame] at hle
    · exact hlast

end

/-! ### The first pass -/

theorem leads_before_high (htop : coord.AboveLookback top) (hitem : item ∈ before) :
    coord.Leads pool blockHashes ((top + 3) * coord.lcmBlockSize) item (coord.StartsHigh top target.2)
      (coord.StartsHigh top target.2) := by
  rintro search next ⟨hcurr, hver⟩ - - hvis
  have hmem := hover.mem_of_mem_before hitem
  have hgroup := mem_attentionGroups_of_zipIdx hmem
  have hsize := Nat.le_of_dvd coord.lcmBlockSize_pos (dvd_lcmBlockSize hgroup)
  constructor
  · refine hvis.le_currHitLength hmem (hover.isSome_before hcached hitem) (dvd_mul_left _ _) hcurr
      (htop.fitsFrom hgroup (Nat.mul_le_mul_right _ (Nat.le_add_right _ _)) (by simp) fun _ ↦ rfl) ?_
    rw [add_mul, add_mul]
    omega
  · exact fun index hidx ↦ hvis.notMem_eagleVerified ((hover.lt_target hitem).trans_le hidx).ne
      (hver index hidx)

theorem leads_target_high :
    coord.Leads pool blockHashes ((top + 3) * coord.lcmBlockSize) target (coord.StartsHigh top target.2)
      (fun search ↦ search.currHitLength = (top + 2) * coord.lcmBlockSize ∧
        target.2 ∈ search.eagleVerified ∧ ∀ index, target.2 < index → index ∉ search.eagleVerified) := by
  rintro search next ⟨hcurr, hver⟩ - - hvis
  obtain ⟨_, hfinds, -, hnext, hnextVerified⟩ := hvis.exists_finds (.inl hover.isFullAttention_target)
  have heagle := hover.usesEagle_target (hver target.2 le_rfl)
  have hlimit : (top + 2) * coord.lcmBlockSize ≤
      coord.maxLengthAt ((top + 3) * coord.lcmBlockSize) target.2 target.1 search := by
    refine (Nat.le_add_right _ _).trans (limit_le_maxLengthAt hcurr ?_)
    rw [hover.blockSize, ← Nat.succ_mul]
  have hlow : coord.lcmBlockSize ≤ (top + 2) * coord.lcmBlockSize := Nat.le_mul_of_pos_left _ (Nat.succ_pos _)
  refine ⟨?_, ?_, fun index hidx ↦ hvis.notMem_eagleVerified hidx.ne (hver index hidx.le)⟩
  · rw [hnext, hover.length_target hcached hfinds (hlow.trans hlimit), if_pos hlimit, hover.blockSize]
  · rw [hnextVerified, if_pos heagle]
    exact mem_cons_self

section

variable (hcombined : coord.Combined) (htop : coord.AboveLookback top) (hitem : item ∈ after)
include hcombined htop hitem

/-- The next group goes back to `top`. Without EAGLE it takes back the verification of the Mamba group. -/
theorem leads_next_high :
    coord.Leads pool blockHashes ((top + 3) * coord.lcmBlockSize) item
      (fun search ↦ search.currHitLength = (top + 2) * coord.lcmBlockSize ∧
        target.2 ∈ search.eagleVerified ∧ ∀ index, target.2 < index → index ∉ search.eagleVerified)
      (coord.BackAtTop top target.2 item.2) := by
  rintro search next ⟨hcurr, hver, hothers⟩ - - hvis
  have hnot := hothers item.2 (hover.target_lt hitem)
  refine ⟨hover.currHitLength_after_top hcached hcombined htop hitem ?_ (.inl hnot) hvis, ?_⟩
  · rw [hcurr]
    exact Nat.mul_le_mul_right _ (Nat.le_add_right _ _)
  · exact fun hidx ↦ hvis.mem_eagleVerified hver (.inl (by simp [usesEagle, hidx, hnot]))

theorem leads_after_high (index : ℕ) :
    coord.Leads pool blockHashes ((top + 3) * coord.lcmBlockSize) item (coord.BackAtTop top target.2 index)
      (coord.BackAtTop top target.2 index) := by
  rintro search next ⟨hcurr, hver⟩ - - hvis
  have hnext := hover.currHitLength_after_top hcached hcombined htop hitem hcurr.ge (.inr hcurr) hvis
  exact ⟨hnext, fun hidx ↦ hvis.mem_eagleVerified (hver hidx) (.inr (hcurr.trans hnext.symm).le)⟩

end

/-! ### The second pass -/

theorem leads_before_top (htop : coord.AboveLookback top) (hitem : item ∈ before) (index : ℕ) :
    coord.Leads pool blockHashes ((top + 3) * coord.lcmBlockSize) item (coord.BackAtTop top target.2 index)
      (coord.BackAtTop top target.2 index) := by
  rintro search next ⟨hcurr, hver⟩ - - hvis
  have hnext := hover.currHitLength_before hcached htop hitem (.inr hcurr) hvis
  exact ⟨hnext.trans hcurr, fun hidx ↦ hvis.mem_eagleVerified (hver hidx) (.inr hnext.ge)⟩

/-- The Mamba group goes back to its first block. If it was verified, it is so no longer. -/
theorem leads_target_top (htwo : 2 ≤ top) (index : ℕ) :
    coord.Leads pool blockHashes ((top + 3) * coord.lcmBlockSize) target (coord.BackAtTop top target.2 index)
      (fun search ↦ search.currHitLength = coord.lcmBlockSize ∧
        (index ∈ coord.eagleAttnGroupIndices → target.2 ∉ search.eagleVerified)) := by
  rintro search next ⟨hcurr, hver⟩ - - hvis
  obtain ⟨columns, hfinds, -, hnext, hnextVerified⟩ := hvis.exists_finds (Or.inl hover.isFullAttention_target)
  have hpos := coord.lcmBlockSize_pos
  have htokens := Nat.mul_le_mul_right coord.lcmBlockSize htwo
  have hlow : coord.lcmBlockSize ≤
      coord.maxLengthAt ((top + 3) * coord.lcmBlockSize) target.2 target.1 search := by
    refine (Nat.le_add_right _ _).trans (limit_le_maxLengthAt (by omega) ?_)
    rw [hover.blockSize, Nat.add_mul]
    omega
  have hhigh : coord.maxLengthAt ((top + 3) * coord.lcmBlockSize) target.2 target.1 search <
      (top + 2) * coord.lcmBlockSize := by
    rw [add_mul top 2, maxLengthAt, hover.blockSize]
    split
    · exact (min_le_left _ _).trans_lt (by omega)
    · omega
  have hlen : columns.length * target.1.spec.blockSize = coord.lcmBlockSize := by
    rw [hover.length_target hcached hfinds hlow, if_neg (not_le.2 hhigh), hover.blockSize, one_mul]
  refine ⟨hnext.trans hlen, fun hidx ↦ ?_⟩
  have heagle : coord.usesEagle target.2 search = false := by simp [usesEagle, hver hidx]
  rw [hnextVerified, heagle, if_neg Bool.false_ne_true, if_pos (by omega)]
  exact not_mem_nil

/-- The next group goes back to 0. Without EAGLE it takes back the verification of the Mamba group. -/
theorem leads_next_top (hitem : item ∈ after) :
    coord.Leads pool blockHashes ((top + 3) * coord.lcmBlockSize) item
      (fun search ↦ search.currHitLength = coord.lcmBlockSize ∧
        (item.2 ∈ coord.eagleAttnGroupIndices → target.2 ∉ search.eagleVerified))
      (BackAtZero target.2) := by
  rintro search next ⟨hcurr, hver⟩ - - hvis
  have hzero := hover.currHitLength_after_zero hcached hitem hcurr.le hvis
  refine ⟨hzero, ?_⟩
  by_cases hidx : item.2 ∈ coord.eagleAttnGroupIndices
  · exact hvis.notMem_eagleVerified (hover.target_lt hitem).ne' (hver hidx)
  · obtain ⟨_, -, -, hnext, hnextVerified⟩ :=
      hvis.exists_finds (.inl (hover.isFullAttention_after hitem))
    have heagle : coord.usesEagle item.2 search = false := by simp [usesEagle, hidx]
    rw [hnextVerified, heagle, ← hnext, hzero, hcurr, if_pos coord.lcmBlockSize_pos]
    exact not_mem_nil

theorem leads_after_zero (hitem : item ∈ after) :
    coord.Leads pool blockHashes ((top + 3) * coord.lcmBlockSize) item (BackAtZero target.2)
      (BackAtZero target.2) := by
  rintro search next ⟨hcurr, hver⟩ - - hvis
  exact ⟨hover.currHitLength_after_zero hcached hitem (hcurr ▸ Nat.zero_le _) hvis,
    hvis.notMem_eagleVerified (hover.target_lt hitem).ne' hver⟩

/-! ### The third pass -/

theorem leads_before_zero (htop : coord.AboveLookback top) (hitem : item ∈ before) :
    coord.Leads pool blockHashes ((top + 3) * coord.lcmBlockSize) item (BackAtZero target.2)
      (BackAtZero target.2) := by
  rintro search next ⟨hcurr, hver⟩ - - hvis
  exact ⟨(hover.currHitLength_before hcached htop hitem (.inl hcurr) hvis).trans hcurr,
    hvis.notMem_eagleVerified (hover.lt_target hitem).ne hver⟩

theorem leads_target_zero :
    coord.Leads pool blockHashes ((top + 3) * coord.lcmBlockSize) target (BackAtZero target.2)
      (KeepsOne target.1 coord.lcmBlockSize) := by
  rintro search next ⟨hcurr, hver⟩ - - hvis
  obtain ⟨columns, hfinds, hstores, hnext, -⟩ := hvis.exists_finds (.inl hover.isFullAttention_target)
  have hpos := coord.lcmBlockSize_pos
  have hlimit : coord.maxLengthAt ((top + 3) * coord.lcmBlockSize) target.2 target.1 search =
      coord.lcmBlockSize := by
    rw [maxLengthAt, if_pos (hover.usesEagle_target hver), hcurr, hover.blockSize, zero_add]
    exact min_eq_left (Nat.le_mul_of_pos_left _ (Nat.succ_pos _))
  have hlen : columns.length = 1 := by
    rw [hover.length_target hcached hfinds hlimit.ge, if_neg]
    rw [add_mul]
    omega
  exact ⟨by rw [hnext, hlen, hover.blockSize, one_mul], columns, hlen, hstores⟩

theorem leads_after_stored (hitem : item ∈ after) {limit : ℕ} (hlimit : limit ≤ coord.lcmBlockSize) :
    coord.Leads pool blockHashes ((top + 3) * coord.lcmBlockSize) item (KeepsOne target.1 limit)
      (KeepsOne target.1 0) := by
  rintro search next ⟨hcurr, columns, hlen, hstores⟩ hframe - hvis
  refine ⟨(hover.currHitLength_after_zero hcached hitem (hcurr.trans hlimit) hvis).le, columns, hlen,
    hstores.congr (hitBlocksByGroup_eq_of_ne (hover.mem_of_mem_after hitem) hover.mem_target ?_ hframe)⟩
  rintro rfl
  exact lt_irrefl _ (hover.target_lt hitem)

end Overshoots

end Staggered

variable {other : AttentionGroup σ × ℕ}

/-- A pass over the groups in front, the Mamba group, the next group and all others. -/
theorem Overshoots.passLeads (hcombined : coord.Combined) (hcan : coord.CanSearch)
    (hprom : coord.SearchPromise pool blockHashes maxCacheHitLength)
    (hover : coord.Overshoots before target (other :: after)) {first second third : HitSearch → Prop}
    (hbefore : ∀ item ∈ before, coord.Leads pool blockHashes maxCacheHitLength item first first)
    (htarget : coord.Leads pool blockHashes maxCacheHitLength target first second)
    (hother : coord.Leads pool blockHashes maxCacheHitLength other second third)
    (hafter : ∀ item ∈ after, coord.Leads pool blockHashes maxCacheHitLength item third third) :
    coord.PassLeads pool blockHashes maxCacheHitLength coord.attentionGroups.zipIdx first
      third := by
  rw [hover.zipIdx]
  exact .append (.invariant hcombined hcan hprom (fun _ ↦ hover.mem_of_mem_before) hbefore)
    (.cons hcombined hcan hprom hover.mem_target htarget
      (.cons hcombined hcan hprom (hover.mem_of_mem_after mem_cons_self) hother
        (.invariant hcombined hcan hprom
          (fun _ hitem ↦ hover.mem_of_mem_after (mem_cons_of_mem _ hitem)) hafter)))

theorem Overshoots.isSimpleHybrid (hover : coord.Overshoots before target (other :: after)) :
    coord.isSimpleHybrid = false := by
  have hgroups : coord.attentionGroups =
      before.map Prod.fst ++ target.1 :: other.1 :: after.map Prod.fst := by
    rw [← zipIdx_map_fst 0 coord.attentionGroups, hover.zipIdx, map_append, map_cons, map_cons]
  cases before with
  | nil => simp [isSimpleHybrid, hgroups, hover.isFullAttention_target]
  | cons first rest =>
    have hlen : coord.attentionGroups.length ≠ 2 := by
      simp only [hgroups, length_append, length_map, length_cons]
      omega
    simp [isSimpleHybrid, hlen]

section

variable (hcombined : coord.Combined) (hsound : coord.SoundHits)
include hcombined hsound

/-- An attention group in front of others does not overshoot in a sound search. -/
theorem SoundHits.not_overshoots_cons (other : AttentionGroup σ × ℕ) :
    ¬ coord.Overshoots before target (other :: after) := by
  intro hover
  have hcan := hsound.canSearch hcombined
  obtain ⟨top, htwo, htop⟩ := coord.exists_aboveLookback
  obtain ⟨_, _, hprom, hcached⟩ := exists_content hcombined _ _
  have hother : other ∈ other :: after := mem_cons_self
  have hrest (item : AttentionGroup σ × ℕ) (hitem : item ∈ after) : item ∈ other :: after :=
    mem_cons_of_mem _ hitem
  have hpos := coord.lcmBlockSize_pos
  have htokens := Nat.mul_le_mul_right coord.lcmBlockSize htwo
  -- The first pass leaves `top` aligned lengths.
  have hpass1 := hover.passLeads hcombined hcan hprom
    (fun _ ↦ hover.leads_before_high hcached htop) (hover.leads_target_high hcached)
    (hover.leads_next_high hcached hcombined htop hother)
    fun item hitem ↦ hover.leads_after_high hcached hcombined htop (hrest item hitem) other.2
  obtain ⟨next1, hnext1, htidy1, hloop1⟩ := hpass1.continues ((top + 3) * coord.lcmBlockSize)
    ⟨(top + 3) * coord.lcmBlockSize, [], fun _ ↦ none⟩
    ⟨Nat.mul_le_mul_right _ (Nat.le_succ _), fun _ _ ↦ not_mem_nil⟩
    ⟨le_rfl, fun _ _ ↦ .inl fun _ _ ↦ rfl⟩ fun final hfinal ↦ by
      rw [hfinal.1, add_mul]
      omega
  -- The second pass leaves nothing.
  have hpass2 := hover.passLeads hcombined hcan hprom
    (fun _ hitem ↦ hover.leads_before_top hcached htop hitem other.2)
    (hover.leads_target_top hcached htwo other.2) (hover.leads_next_top hcached hother)
    fun item hitem ↦ hover.leads_after_zero hcached (hrest item hitem)
  obtain ⟨next2, hnext2, htidy2, hloop2⟩ := hpass2.continues _ next1 hnext1 htidy1
    fun final hfinal ↦ by
      rw [hfinal.1, hnext1.1]
      omega
  -- The third pass leaves nothing either, but the Mamba group keeps one block.
  have hpass3 := hover.passLeads hcombined hcan hprom
    (fun _ ↦ hover.leads_before_zero hcached htop) (hover.leads_target_zero hcached)
    (hover.leads_after_stored hcached hother le_rfl)
    fun item hitem ↦ hover.leads_after_stored hcached (hrest item hitem) (Nat.zero_le _)
  obtain ⟨final, ⟨-, _, hlen, hstores⟩, hloop3⟩ := hpass3.stops _ next2
    hnext2 htidy2 false fun final _ ↦ hnext2.1 ▸ Nat.zero_le _
  rw [← hloop2, ← hloop1, hnext2.1, ← hover.isSimpleHybrid] at hloop3
  have hexact := (hsound.length_of_stores hprom hloop3 hover.mem_target hstores).2
    (.inr hover.isFullAttention_target)
  rw [hlen, one_mul] at hexact
  exact target.1.spec.blockSize_pos.ne' hexact

theorem SoundHits.dropsEagleBlocks : coord.DropsEagleBlocks := by
  by_contra hdrops
  obtain ⟨_, _, after, hover⟩ := exists_overshoots hdrops
  cases after with
  | nil => exact hsound.not_overshoots_last hcombined hover
  | cons other rest => exact hsound.not_overshoots_cons hcombined other hover

end

/-- The hybrid search is sound exactly for the configurations whose managers can search, where only the
first attention group has to be trimmed, and where every EAGLE group drops the block it adds. -/
theorem soundHits_iff (hcombined : coord.Combined) : coord.SoundHits ↔
    coord.CanSearch ∧ coord.TrimsFirst ∧ coord.DropsEagleBlocks :=
  ⟨fun hsound ↦ ⟨hsound.canSearch hcombined, hsound.trimsFirst hcombined, hsound.dropsEagleBlocks hcombined⟩,
    fun ⟨hcan, htrims, hdrops⟩ ↦ soundHits_of_trimsFirst hcombined hcan htrims hdrops⟩

/-- A model with full attention and a sliding window, without EAGLE. -/
def fullAndWindow : HybridKVCacheCoordinator Unit where
  kvCacheGroups := [⟨⟨.fullAttention, 16, Nat.succ_pos 15⟩, (), false⟩,
    ⟨⟨.slidingWindow 64, 16, Nat.succ_pos 15⟩, (), false⟩]
  nelssaConfig := none
  hashBlockSize := 16
  eagleGroupIds := []
  attentionGroups := [⟨⟨.fullAttention, 16, Nat.succ_pos 15⟩, (), [0], .fullAttention⟩,
    ⟨⟨.slidingWindow 64, 16, Nat.succ_pos 15⟩, (), [1], .slidingWindow⟩]
  partition := ⟨.refl _, by simp, by simp, by decide⟩
  one_lt_length := by decide
  full_first := by decide
  hashBlockSize_dvd := by simp

theorem combined_fullAndWindow : fullAndWindow.Combined :=
  ⟨by simp [fullAndWindow, SpecKind.isCombined], by simp [fullAndWindow]⟩

theorem soundHits_fullAndWindow : fullAndWindow.Combined ∧ fullAndWindow.SoundHits := by
  refine ⟨combined_fullAndWindow, (soundHits_iff combined_fullAndWindow).2 ⟨nofun, Or.inl le_rfl, ?_⟩⟩
  intro item _ heagle
  simp [eagleAttnGroupIndices, fullAndWindow] at heagle

/-- The coordinator of a model whose groups have blocks of 16 tokens, and its pool. -/
def build (kinds : List SpecKind) (nelssaConfig : Option NELSSAConfig) (useEagle : Bool) :
    Except Exn (HybridKVCacheCoordinator Unit × BlockPool) :=
  let groups := kinds.map fun kind ↦ ⟨⟨kind, 16, Nat.succ_pos 15⟩, (), false⟩
  (init (ρ := Unit) ⟨8, groups, nelssaConfig⟩ 128 128 useEagle true 1 1 16).map fun (coord, _, pool) ↦
    (coord, pool)

/-- The search if the given blocks of each group are cached. Block 0 is the null block. -/
def hitRun (coord : HybridKVCacheCoordinator Unit) (pool : BlockPool) (cached : List (List ℕ))
    (maxCacheHitLength : ℕ) : Except Exn (List (List ℕ) × ℕ) :=
  let hashes := positionHashes (maxCacheHitLength / 16)
  let filled := cached.zipIdx.foldl (fun pool item ↦
    (pool.cacheFullBlocks hashes item.1 0 item.1.length 16 item.2).2) (pool.getNewBlocks 7).2
  coord.findLongestCacheHit filled hashes maxCacheHitLength

/-- With EAGLE full attention has 48 tokens of a hit of 64, and the Mamba group has all of them. A second
full-attention spec keeps 32 tokens for a hit of 0. With a NELSSA configuration the search for a sliding
window raises. -/
theorem not_soundHits :
    (∃ coord pool, build [.fullAttention, .mamba .all 0] none true = .ok (coord, pool) ∧ ¬ coord.SoundHits ∧
      coord.hitRun pool [[1, 2, 3, 4], [0, 0, 0, 5]] 64 = .ok ([[1, 2, 3], [0, 0, 0, 5]], 64)) ∧
    (∃ coord pool, build [.fullAttention, .mlaAttention, .slidingWindow 32] none false = .ok (coord, pool) ∧
      ¬ coord.SoundHits ∧ coord.hitRun pool [[1, 2], [3, 4], []] 32 = .ok ([[], [3, 4], []], 0)) ∧
    ∃ coord pool, build [.fullAttention, .slidingWindow 32] (some {}) false = .ok (coord, pool) ∧
      ¬ coord.SoundHits ∧ (coord.hitRun pool [[1, 2], [3, 4]] 32).isOk = false := by
  refine ⟨⟨_, _, rfl, fun hsound ↦ ?_, by decide +kernel⟩, ⟨_, _, rfl, fun hsound ↦ ?_, by decide +kernel⟩,
    _, _, rfl, fun hsound ↦ ?_, by decide +kernel⟩
  · exact absurd (hsound.dropsEagleBlocks ⟨by decide, by decide⟩) (by unfold DropsEagleBlocks Bounded; decide)
  · exact absurd (hsound.trimsFirst ⟨by decide, by decide⟩) (by unfold TrimsFirst; decide)
  · exact absurd (hsound.canSearch ⟨by decide, by decide⟩) (by unfold CanSearch; decide)

end Nelssa.Core.HybridKVCacheCoordinator
