import Nelssa.Core.HybridContents
import Nelssa.Core.HybridSoundness

/-!
# Where hybrid cache hits are not sound

The conditions under which the hybrid search was proved sound are necessary. A second full-attention
group in front of a third attention group is never trimmed, and a Mamba group that is searched with
EAGLE at the full alignment returns one block more than the candidate length. For each of these
configurations there is a content of the prefix cache with an unsound result.
-/

namespace Nelssa.Core.HybridKVCacheCoordinator

open Foundation.HitWindows HitSearch
open List hiding lt_irrefl not_le not_lt

variable {σ : Type*} {coord : HybridKVCacheCoordinator σ} {pool : BlockPool} {blockHashes : List BlockHash}
  {maxCacheHitLength : ℕ} {item : AttentionGroup σ × ℕ} {search next final : HitSearch}
  {columns : List (List ℕ)} {group : AttentionGroup σ}

/-! ## Following the search -/

/-- What a visit does: full attention that was found before is trimmed, and other groups are searched. -/
inductive Visited (coord : HybridKVCacheCoordinator σ) (pool : BlockPool)
    (blockHashes : List BlockHash) (maxCacheHitLength : ℕ) (item : AttentionGroup σ × ℕ)
    (search next : HitSearch) : Prop where
  | trimmed (hfull : item.1.isFullAttention = true) (hstored : ¬ search.Fresh item.1)
      (hnext : next = { search with
        currHitLength := search.currHitLength / item.1.spec.blockSize * item.1.spec.blockSize })
  | searched (columns : List (List ℕ)) (hsearch : item.1.isFullAttention = false ∨ search.Fresh item.1)
      (hfinds : coord.Finds pool blockHashes item.1
        (coord.maxLengthAt maxCacheHitLength item.2 item.1 search)
        (coord.usesEagle item.2 search) columns)
      (hstores : next.Stores item.1 columns)
      (hcurr : next.currHitLength = columns.length * item.1.spec.blockSize)
      (hverified : next.eagleVerified =
        if coord.usesEagle item.2 search then item.2 :: search.eagleVerified
        else if columns.length * item.1.spec.blockSize < search.currHitLength then []
        else search.eagleVerified)

/-- A state of the search: the candidate stays below the maximum, and every group has been visited or
not. -/
structure Tidy (coord : HybridKVCacheCoordinator σ) (maxCacheHitLength : ℕ) (search : HitSearch) :
    Prop where
  le : search.currHitLength ≤ maxCacheHitLength
  stored : ∀ group ∈ coord.attentionGroups, search.Fresh group ∨
    ∃ columns, search.Stores group columns

variable {length : ℕ}

theorem Tidy.withLength (htidy : coord.Tidy maxCacheHitLength search) (hlen : length ≤ maxCacheHitLength) :
    coord.Tidy maxCacheHitLength { search with currHitLength := length } :=
  ⟨hlen, htidy.stored⟩

section

variable (hvis : coord.Visited pool blockHashes maxCacheHitLength item search next)
include hvis

theorem Visited.exists_finds (hsearch : item.1.isFullAttention = false ∨ search.Fresh item.1) :
    ∃ columns, coord.Finds pool blockHashes item.1 (coord.maxLengthAt maxCacheHitLength item.2 item.1 search)
        (coord.usesEagle item.2 search) columns ∧ next.Stores item.1 columns ∧
      next.currHitLength = columns.length * item.1.spec.blockSize ∧
      next.eagleVerified =
        if coord.usesEagle item.2 search then item.2 :: search.eagleVerified
        else if columns.length * item.1.spec.blockSize < search.currHitLength then []
        else search.eagleVerified := by
  cases hvis with
  | trimmed hfull hstored _ =>
    rcases hsearch with hother | hfresh
    · rw [hother] at hfull
      cases hfull
    · exact absurd hfresh hstored
  | searched columns _ hfinds hstores hcurr hver => exact ⟨columns, hfinds, hstores, hcurr, hver⟩

theorem Visited.notMem_eagleVerified {index : ℕ}
    (hne : item.2 ≠ index) (hidx : index ∉ search.eagleVerified) : index ∉ next.eagleVerified := by
  cases hvis with
  | trimmed _ _ hnext =>
    rw [hnext]
    exact hidx
  | searched _ _ _ _ _ hver =>
    rw [hver]
    split
    · exact fun h ↦ (mem_cons.1 h).elim (fun heq ↦ hne heq.symm) hidx
    · split
      · exact not_mem_nil
      · exact hidx

end

theorem hitBlocksByGroup_eq_of_ne {other : AttentionGroup σ × ℕ}
    (hitem : item ∈ coord.attentionGroups.zipIdx) (hother : other ∈ coord.attentionGroups.zipIdx)
    (hne : other ≠ item) (hframe : ∀ groupId ∉ item.1.groupIds,
      next.hitBlocksByGroup groupId = search.hitBlocksByGroup groupId) :
    ∀ groupId ∈ other.1.groupIds, next.hitBlocksByGroup groupId = search.hitBlocksByGroup groupId :=
  fun groupId hid ↦ hframe groupId fun h ↦ hne (eq_of_mem_groupIds hother hitem hid h)

section Following

variable (hcomb : coord.Combined) (hcan : coord.CanSearch)
  (hprom : coord.SearchPromise pool blockHashes maxCacheHitLength)

include hcomb hcan hprom

theorem Tidy.visit (htidy : coord.Tidy maxCacheHitLength search)
    (hitem : item ∈ coord.attentionGroups.zipIdx) :
    ∃ next, coord.visit pool blockHashes maxCacheHitLength item.2 item.1 search = .ok next ∧
      coord.Tidy maxCacheHitLength next ∧
      (∀ groupId ∉ item.1.groupIds, next.hitBlocksByGroup groupId = search.hitBlocksByGroup groupId) ∧
      coord.Visited pool blockHashes maxCacheHitLength item search next := by
  have hgroup := mem_attentionGroups_of_zipIdx hitem
  have hne := coord.partition.groupIds_ne_nil item.1 hgroup
  by_cases hsearch : item.1.isFullAttention = false ∨ search.Fresh item.1
  · obtain ⟨columns, hfinds, hvisit⟩ := visit_found hcomb hcan hprom hgroup item.2 htidy.le hsearch
    have hstores := stores_record (nodup_groupIds hgroup) search item.2
      (coord.usesEagle item.2 search) columns (columns.length * item.1.spec.blockSize)
    have hframe (groupId : ℕ) (hid : groupId ∉ item.1.groupIds) :
        (search.record item.2 (coord.usesEagle item.2 search) item.1.groupIds
          (item.1.blocksByGroup columns) (columns.length * item.1.spec.blockSize)).hitBlocksByGroup groupId =
        search.hitBlocksByGroup groupId := search.storeBlocks_of_notMem _ hid
    refine ⟨_, hvisit, ⟨?_, fun group hmem ↦ ?_⟩, hframe, .searched columns hsearch hfinds hstores rfl rfl⟩
    · exact ((Nat.le_div_iff_mul_le item.1.spec.blockSize_pos).1 hfinds.le).trans
        (maxLengthAt_le item.2 item.1 htidy.le)
    · obtain ⟨index, hidx⟩ := mem_iff_getElem?.1 hmem
      have hother : (group, index) ∈ coord.attentionGroups.zipIdx := mem_zipIdx_iff_getElem?.2 hidx
      by_cases hsame : (group, index) = item
      · exact .inr ⟨columns, hsame ▸ hstores⟩
      · have hkept := hitBlocksByGroup_eq_of_ne hitem hother hsame hframe
        exact (htidy.stored group hmem).imp (fresh_congr hkept).2
          fun ⟨others, hothers⟩ ↦ ⟨others, hothers.congr hkept⟩
  · obtain ⟨hother, hstored⟩ := not_or.1 hsearch
    have hfull := Bool.eq_true_of_not_eq_false hother
    obtain ⟨_, hstores⟩ := (htidy.stored item.1 hgroup).resolve_left hstored
    exact ⟨_, coord.visit_trim pool blockHashes maxCacheHitLength item.2 hfull hne hstores.ne_none,
      htidy.withLength ((Nat.div_mul_le_self _ _).trans htidy.le), fun _ _ ↦ rfl,
      .trimmed hfull hstored rfl⟩

end Following

/-! ## Preconditions and postconditions of passes -/

section

variable (coord : HybridKVCacheCoordinator σ) (pool : BlockPool) (blockHashes : List BlockHash)
  (maxCacheHitLength : ℕ)

/-- Visits of a group lead from one kind of states to another. -/
def Leads (item : AttentionGroup σ × ℕ) (before after : HitSearch → Prop) : Prop :=
  ∀ search next, before search →
    (∀ groupId ∉ item.1.groupIds, next.hitBlocksByGroup groupId = search.hitBlocksByGroup groupId) →
    coord.Tidy maxCacheHitLength search →
    coord.Visited pool blockHashes maxCacheHitLength item search next → after next

/-- Passes succeed and lead from one kind of states to another. -/
def PassLeads (items : List (AttentionGroup σ × ℕ)) (before after : HitSearch → Prop) : Prop :=
  ∀ search, before search → coord.Tidy maxCacheHitLength search →
    ∃ final, coord.pass pool blockHashes maxCacheHitLength items search = .ok final ∧
      coord.Tidy maxCacheHitLength final ∧ after final

end

section Rules

variable {before middle after : HitSearch → Prop} {items left right : List (AttentionGroup σ × ℕ)}

section

variable (hcomb : coord.Combined) (hcan : coord.CanSearch)
  (hprom : coord.SearchPromise pool blockHashes maxCacheHitLength)
include hcomb hcan hprom

theorem PassLeads.cons (hitem : item ∈ coord.attentionGroups.zipIdx)
    (hfirst : coord.Leads pool blockHashes maxCacheHitLength item before middle)
    (hrest : coord.PassLeads pool blockHashes maxCacheHitLength items middle after) :
    coord.PassLeads pool blockHashes maxCacheHitLength (item :: items) before after := by
  intro search hbefore htidy
  obtain ⟨next, hvisit, hnext, hframe, hvis⟩ := htidy.visit hcomb hcan hprom hitem
  obtain ⟨final, hpass, hfinal⟩ := hrest next (hfirst search next hbefore hframe htidy hvis) hnext
  refine ⟨final, ?_, hfinal⟩
  rw [pass, hvisit]
  exact hpass

theorem PassLeads.invariant (hitems : ∀ item ∈ items, item ∈ coord.attentionGroups.zipIdx)
    (hkeeps : ∀ item ∈ items, coord.Leads pool blockHashes maxCacheHitLength item before before) :
    coord.PassLeads pool blockHashes maxCacheHitLength items before before := by
  induction items with
  | nil => exact fun search hbefore htidy ↦ ⟨search, rfl, htidy, hbefore⟩
  | cons item rest ih =>
    exact cons hcomb hcan hprom (hitems item mem_cons_self) (hkeeps item mem_cons_self)
      (ih (fun other hother ↦ hitems other (mem_cons_of_mem _ hother))
        fun other hother ↦ hkeeps other (mem_cons_of_mem _ hother))

end

theorem PassLeads.append (hleft : coord.PassLeads pool blockHashes maxCacheHitLength left before middle)
    (hright : coord.PassLeads pool blockHashes maxCacheHitLength right middle after) :
    coord.PassLeads pool blockHashes maxCacheHitLength (left ++ right) before after := by
  intro search hbefore htidy
  obtain ⟨next, hpass, hnext, hmiddle⟩ := hleft search hbefore htidy
  obtain ⟨final, hpass', hfinal⟩ := hright next hmiddle hnext
  refine ⟨final, ?_, hfinal⟩
  clear hleft hbefore htidy
  induction left generalizing search with
  | nil => rwa [Except.ok.inj hpass]
  | cons item rest ih =>
    rw [cons_append]
    rw [pass] at hpass ⊢
    split at hpass
    · cases hpass
    · exact ih _ hpass

section

variable (hitLength : ℕ) (search : HitSearch)
  (hpass : coord.PassLeads pool blockHashes maxCacheHitLength coord.attentionGroups.zipIdx before after)
  (hbefore : before { search with currHitLength := hitLength })
  (htidy : coord.Tidy maxCacheHitLength { search with currHitLength := hitLength })
include hpass hbefore htidy

theorem PassLeads.stops (onePass : Bool) (hstop : ∀ final, after final → hitLength ≤ final.currHitLength) :
    ∃ final, after final ∧
      coord.searchLoop pool blockHashes maxCacheHitLength onePass hitLength search =
        .ok (final, hitLength) := by
  obtain ⟨final, hfinal, -, hafter⟩ := hpass _ hbefore htidy
  refine ⟨final, hafter, ?_⟩
  rw [searchLoop, hfinal]
  exact if_pos (hstop final hafter)

theorem PassLeads.continues (hless : ∀ final, after final → final.currHitLength < hitLength) :
    ∃ next, after next ∧ coord.Tidy maxCacheHitLength next ∧
      coord.searchLoop pool blockHashes maxCacheHitLength false hitLength search =
        coord.searchLoop pool blockHashes maxCacheHitLength false next.currHitLength next := by
  obtain ⟨next, hnext, hnextTidy, hafter⟩ := hpass _ hbefore htidy
  refine ⟨next, hafter, hnextTidy, ?_⟩
  rw [searchLoop, hnext]
  exact if_neg (not_le.2 (hless next hafter))

end

end Rules

/-- What a sound search leaves: every group holds a hit of at least the length that is returned, and of
exactly this length unless it is trimmed in the end. -/
theorem SoundHits.length_of_stores (hsound : coord.SoundHits)
    (hprom : coord.SearchPromise pool blockHashes maxCacheHitLength) {hitLength : ℕ}
    (hloop : coord.searchLoop pool blockHashes maxCacheHitLength coord.isSimpleHybrid
      maxCacheHitLength ⟨maxCacheHitLength, [], fun _ ↦ none⟩ = .ok (final, hitLength))
    (hitem : item ∈ coord.attentionGroups.zipIdx) (hstores : final.Stores item.1 columns) :
    hitLength ≤ columns.length * item.1.spec.blockSize ∧
      (item.2 ≠ 0 ∨ item.1.isFullAttention = false → columns.length * item.1.spec.blockSize = hitLength) := by
  obtain ⟨_, hitLength', hfind, hhit⟩ := hsound pool blockHashes maxCacheHitLength hprom
  rw [findLongestCacheHit, findHit, hloop] at hfind
  cases hfind
  have hgroup := mem_attentionGroups_of_zipIdx hitem
  obtain ⟨groupId, _, hids⟩ := exists_cons_of_ne_nil (coord.partition.groupIds_ne_nil item.1 hgroup)
  have hid : groupId ∈ item.1.groupIds := by rw [hids]; exact mem_cons_self
  have hlt := coord.partition.groupId_lt hgroup hid
  obtain ⟨member, hmember, hspec⟩ := Option.map_eq_some_iff.1 (coord.partition.spec item.1 hgroup groupId hid)
  obtain ⟨found, hfound, hlen, -⟩ := hhit.groups groupId member hmember
  obtain ⟨first, _, hgroups⟩ := exists_cons_of_ne_nil
    (length_pos_iff.1 (Nat.zero_lt_of_lt coord.one_lt_length))
  rw [getElem?_map, getElem?_range hlt, Option.map_some, truncated_eq hgroups,
    hstores 0 groupId (by rw [hids]; rfl)] at hfound
  rw [hspec] at hlen
  change found.length * item.1.spec.blockSize = hitLength at hlen
  rw [← hlen]
  split at hfound
  · next hfirst =>
    have hle : found.length ≤ columns.length := by
      rw [← Option.some.inj hfound]
      simp
    refine ⟨Nat.mul_le_mul_right _ hle, fun hother ↦ ?_⟩
    -- The group that is trimmed is the first one.
    have hzero : (first, 0) ∈ coord.attentionGroups.zipIdx := by
      rw [hgroups]
      exact mem_cons_self
    obtain rfl := eq_of_mem_groupIds hitem hzero hid hfirst.2
    rcases hother with hne | hfull
    · exact absurd rfl hne
    · rw [hfull] at hfirst
      cases hfirst.1
  · rw [← Option.some.inj hfound]
    simp

/-! ## Managers that cannot search -/

theorem visit_eq_error (hcomb : coord.Combined) {index : ℕ} (hgroup : group ∈ coord.attentionGroups)
    (hnelssa : coord.nelssaConfig.isSome = true) (hother : group.isFullAttention = false)
    (search : HitSearch) :
    ∃ exn, coord.visit pool blockHashes maxCacheHitLength index group search = .error exn := by
  have hclass : group.managerCls = .nelssa := by
    rw [coord.partition.managerCls group hgroup, KVCacheSpec.managerClass, hnelssa, if_pos rfl]
  have hspec : ¬ (group.spec.kind.isFullAttention = true ∨ group.spec.kind.isChunkedLocal = true) := by
    have hkind := hcomb.kind hgroup
    rintro (hfull | hchunked)
    · exact Bool.eq_false_iff.1 hother hfull
    · cases hcases : group.spec.kind <;> rw [hcases] at hkind hchunked <;> cases hkind <;> cases hchunked
  have hfind (maxLength : ℕ) (useEagle : Bool) (alignmentTokens : ℕ) : ∃ exn,
      group.findLongestCacheHit pool blockHashes maxLength useEagle alignmentTokens = .error exn := by
    unfold AttentionGroup.findLongestCacheHit
    split
    · exact ⟨_, rfl⟩
    · rw [hclass, ManagerClass.findLongestCacheHit, HitQuery.fullAttention, if_pos hspec]
      exact ⟨_, rfl⟩
  unfold visit
  split
  · exact ⟨_, rfl⟩
  · dsimp only
    rw [if_neg fun h ↦ Bool.eq_false_iff.1 hother h.1]
    obtain ⟨exn, hexn⟩ := hfind _ _ _
    rw [hexn]
    exact ⟨exn, rfl⟩

theorem pass_ne_ok {items : List (AttentionGroup σ × ℕ)} (hitem : item ∈ items)
    (hvisit : ∀ search, ∃ exn, coord.visit pool blockHashes maxCacheHitLength item.2 item.1 search =
      .error exn) (search final : HitSearch) :
    coord.pass pool blockHashes maxCacheHitLength items search ≠ .ok final := by
  induction items generalizing search with
  | nil => cases hitem
  | cons first rest ih =>
    rw [pass]
    cases hnext : coord.visit pool blockHashes maxCacheHitLength first.2 first.1 search with
    | error exn =>
      intro hok
      cases hok
    | ok next =>
      refine ih ((mem_cons.1 hitem).resolve_left ?_) next
      rintro rfl
      obtain ⟨_, hexn⟩ := hvisit search
      cases hexn.symm.trans hnext

theorem canSearch_of_returns (hcomb : coord.Combined) (hreturns : ∀ pool blockHashes maxCacheHitLength,
      coord.SearchPromise pool blockHashes maxCacheHitLength →
      ∃ result, coord.findLongestCacheHit pool blockHashes maxCacheHitLength = .ok result) :
    coord.CanSearch := by
  intro hnelssa group hgroup
  by_contra hother
  obtain ⟨pool, blockHashes, hprom, -⟩ := exists_content hcomb 0 fun _ _ ↦ False
  obtain ⟨_, hfind⟩ := hreturns pool blockHashes 0 hprom
  obtain ⟨index, hidx⟩ := mem_iff_getElem?.1 hgroup
  have hitem : (group, index) ∈ coord.attentionGroups.zipIdx := mem_zipIdx_iff_getElem?.2 hidx
  rw [findLongestCacheHit, findHit, searchLoop] at hfind
  split at hfind
  · cases hfind
  · next final hfinal =>
    exact pass_ne_ok hitem
      (visit_eq_error hcomb hgroup hnelssa (Bool.eq_false_of_not_eq_true hother)) _ final hfinal

theorem SoundHits.canSearch (hcomb : coord.Combined) (hsound : coord.SoundHits) : coord.CanSearch :=
  canSearch_of_returns hcomb fun pool blockHashes maxCacheHitLength hprom ↦ by
    obtain ⟨_, hitLength, hfind, -⟩ := hsound pool blockHashes maxCacheHitLength hprom
    exact ⟨_, hfind⟩

/-! ## Full attention that is not trimmed -/

theorem Finds.eq_nil {maxLength : ℕ} {useEagle : Bool}
    (hfinds : coord.Finds pool blockHashes group maxLength useEagle columns)
    (hnone : ∀ index, (group.cachedBlocks pool blockHashes index).isSome ≠ true) : columns = [] := by
  by_contra hne
  exact hnone _ (hfinds.last hne)

/-- A search reaches a length if the blocks before it are cached, and one more to be dropped. -/
theorem Finds.le_length {maxLength : ℕ} {useEagle : Bool} (first : ℕ)
    (hfinds : coord.Finds pool blockHashes group maxLength useEagle columns)
    (hdvd : coord.lcmBlockSize ∣ length) (hblocks : group.spec.blockSize ∣ length)
    (hfits : group.spec.FitsFrom first (length / group.spec.blockSize))
    (hmax : length + (if useEagle then group.spec.blockSize else 0) ≤ maxLength)
    (hcov : Covered (group.cachedBlocks pool blockHashes) first (length / group.spec.blockSize +
      if useEagle = true ∧ group.spec.kind.isMamba = false then 1 else 0)) :
    length ≤ columns.length * group.spec.blockSize := by
  have hpos := group.spec.blockSize_pos
  have hlen := Nat.div_mul_cancel hblocks
  have halign : coord.lcmBlockSize ∣ length / group.spec.blockSize * group.spec.blockSize := by
    rwa [hlen]
  suffices hsuffices : length / group.spec.blockSize ≤ columns.length from
    calc length = length / group.spec.blockSize * group.spec.blockSize := hlen.symm
      _ ≤ columns.length * group.spec.blockSize := Nat.mul_le_mul_right _ hsuffices
  by_cases heagle : useEagle = true ∧ group.spec.kind.isMamba = false
  · rw [if_pos heagle] at hcov
    rw [if_pos heagle.1] at hmax
    refine hfinds.reached first _ hfits halign ?_ hcov
    apply lt_of_lt_of_le (Nat.lt_succ_self _)
    rw [Nat.succ_eq_add_one, ← Nat.add_div_right length hpos]
    exact Nat.div_le_div_right hmax
  · have hother : useEagle = false ∨ group.spec.kind.isMamba = true := by
      rcases Bool.eq_false_or_eq_true useEagle with htrue | hfalse
      · exact .inr (Bool.eq_true_of_not_eq_false fun hmamba ↦ heagle ⟨htrue, hmamba⟩)
      · exact .inl hfalse
    refine (hfinds.greatest hother).2.2 ⟨Nat.div_le_div_right ((Nat.le_add_right _ _).trans hmax),
      halign, hcov.mono hfits.le_firstSought (Nat.le_add_right _ _)⟩

theorem limit_le_maxLengthAt (hcurr : length ≤ search.currHitLength)
    (hmax : length + item.1.spec.blockSize ≤ maxCacheHitLength) :
    length + (if coord.usesEagle item.2 search then item.1.spec.blockSize else 0) ≤
      coord.maxLengthAt maxCacheHitLength item.2 item.1 search := by
  unfold maxLengthAt
  split
  · exact le_min (Nat.add_le_add_right hcurr _) hmax
  · exact hcurr

/-- Two full-attention groups with all blocks in the cache, and other groups with none. -/
def firstTwoCached (item : AttentionGroup σ × ℕ) (_ : ℕ) : Prop :=
  item.2 < 2

/-- With all blocks in the cache, full attention finds at least one aligned length of two. -/
theorem Finds.lcmBlockSize_le (hitem : item ∈ coord.attentionGroups.zipIdx)
    (hcached : coord.CachedAs pool blockHashes (2 * coord.lcmBlockSize) firstTwoCached)
    (hidx : item.2 < 2) (hfull : item.1.isFullAttention = true)
    (hcurr : coord.lcmBlockSize ≤ search.currHitLength) (hfinds : coord.Finds pool blockHashes item.1
      (coord.maxLengthAt (2 * coord.lcmBlockSize) item.2 item.1 search)
      (coord.usesEagle item.2 search) columns) :
    coord.lcmBlockSize ≤ columns.length * item.1.spec.blockSize := by
  have hgroup := mem_attentionGroups_of_zipIdx hitem
  have hdvd := dvd_lcmBlockSize hgroup
  have hpos := item.1.spec.blockSize_pos
  have hle := Nat.le_of_dvd coord.lcmBlockSize_pos hdvd
  refine hfinds.le_length 0 dvd_rfl hdvd ?_ (limit_le_maxLengthAt hcurr (by omega)) ?_
  · rw [KVCacheSpec.FitsFrom, (KVCacheSpec.lookback_of_isFullAttention hfull).1]
  · intro pos _ hposition
    refine (hcached item hitem pos).2 ⟨?_, hidx⟩
    have hone := Nat.div_pos hle hpos
    have htwo := Nat.mul_div_assoc 2 hdvd
    split at hposition <;> omega

/-- A visit of a group without cached blocks leaves a candidate length of 0, unless the group is trimmed. -/
theorem Visited.currHitLength_eq_zero
    (hvis : coord.Visited pool blockHashes maxCacheHitLength item search next)
    (hnone : ∀ index, (item.1.cachedBlocks pool blockHashes index).isSome ≠ true)
    (hzero : search.currHitLength = 0 ∨ item.1.isFullAttention = false ∨ search.Fresh item.1) :
    next.currHitLength = 0 := by
  cases hvis with
  | trimmed hfull hstored hnext =>
    have hcurr := hzero.resolve_right (not_or.2 ⟨by simp [hfull], hstored⟩)
    simp [hnext, hcurr]
  | searched columns _ hfinds _ hcurr _ => rw [hcurr, hfinds.eq_nil hnone]; simp

/-- In any configuration that is not trimmed in front, the first two of three groups are full attention. -/
theorem exists_of_not_trimsFirst (htrims : ¬ coord.TrimsFirst) :
    ∃ first second third rest, coord.attentionGroups = first :: second :: third :: rest ∧
      first.isFullAttention = true ∧ second.isFullAttention = true := by
  obtain ⟨hlen, hcount⟩ := not_or.1 htrims
  have hpair := coord.full_first
  match hgroups : coord.attentionGroups with
  | [] | [_] | [_, _] => rw [hgroups] at hlen; exact absurd (by simp) hlen
  | first :: second :: third :: rest =>
    rw [hgroups] at hcount hpair
    obtain ⟨hfirst, hlater⟩ := pairwise_cons.1 hpair
    have hsecond : second.isFullAttention = true := by
      by_contra hother
      have hnone : (second :: third :: rest).countP (·.isFullAttention) = 0 := by
        refine countP_eq_zero.2 fun group hgroup hfull ↦ hother ?_
        rcases mem_cons.1 hgroup with rfl | hrest
        · exact hfull
        · exact (pairwise_cons.1 hlater).1 group hrest hfull
      rw [countP_cons] at hcount
      split at hcount <;> omega
    exact ⟨first, second, third, rest, rfl, hfirst second mem_cons_self hsecond, hsecond⟩

/-- The states behind the first two groups, when the others have no cached blocks. -/
def Untrimmed (first second : AttentionGroup σ) (search : HitSearch) : Prop :=
  ¬ search.Fresh first ∧ ∃ columns, columns ≠ [] ∧ search.Stores second columns

theorem Untrimmed.congr {first second : AttentionGroup σ} (huntrimmed : Untrimmed first second search)
    (hfirst : ∀ groupId ∈ first.groupIds, next.hitBlocksByGroup groupId = search.hitBlocksByGroup groupId)
    (hsecond : ∀ groupId ∈ second.groupIds,
      next.hitBlocksByGroup groupId = search.hitBlocksByGroup groupId) : Untrimmed first second next := by
  obtain ⟨hstored, columns, hne, hstores⟩ := huntrimmed
  exact ⟨fun hfresh ↦ hstored ((fresh_congr hfirst).1 hfresh), columns, hne, hstores.congr hsecond⟩

section Untrimmed

variable {first second third : AttentionGroup σ} {rest : List (AttentionGroup σ)}
  (hgroups : coord.attentionGroups = first :: second :: third :: rest)
  (hcached : coord.CachedAs pool blockHashes (2 * coord.lcmBlockSize) firstTwoCached)

include hgroups

theorem zipIdx_attentionGroups : coord.attentionGroups.zipIdx =
    (first, 0) :: (second, 1) :: (third, 2) :: rest.zipIdx 3 := by
  rw [hgroups]
  rfl

theorem mem_zipIdx_attentionGroups : (first, 0) ∈ coord.attentionGroups.zipIdx ∧
    (second, 1) ∈ coord.attentionGroups.zipIdx ∧ (third, 2) ∈ coord.attentionGroups.zipIdx := by
  rw [zipIdx_attentionGroups hgroups]
  simp

theorem Untrimmed.of_frame (hitem : item ∈ coord.attentionGroups.zipIdx) (hidx : 2 ≤ item.2)
    (hframe : ∀ groupId ∉ item.1.groupIds, next.hitBlocksByGroup groupId = search.hitBlocksByGroup groupId)
    (huntrimmed : Untrimmed first second search) : Untrimmed first second next := by
  obtain ⟨hmem0, hmem1, -⟩ := mem_zipIdx_attentionGroups hgroups
  apply huntrimmed.congr
  · refine hitBlocksByGroup_eq_of_ne hitem hmem0 ?_ hframe
    rintro rfl
    exact absurd hidx (by simp)
  · refine hitBlocksByGroup_eq_of_ne hitem hmem1 ?_ hframe
    rintro rfl
    exact absurd hidx (by simp)

include hcached

theorem leads_first (hfirst : first.isFullAttention = true) :
    coord.Leads pool blockHashes (2 * coord.lcmBlockSize) (first, 0)
      (fun search ↦ coord.lcmBlockSize ≤ search.currHitLength ∧ search.Fresh first ∧
        search.Fresh second ∧ search.Fresh third)
      (fun search ↦ coord.lcmBlockSize ≤ search.currHitLength ∧ ¬ search.Fresh first ∧
        search.Fresh second ∧ search.Fresh third) := by
  obtain ⟨hmem0, hmem1, hmem2⟩ := mem_zipIdx_attentionGroups hgroups
  rintro search next ⟨hcurr, hfresh, hfreshSecond, hfreshThird⟩ hframe - hvis
  obtain ⟨_, hfinds, hstores, hnext, -⟩ := hvis.exists_finds (.inr hfresh)
  refine ⟨?_, hstores.not_fresh ?_, ?_, ?_⟩
  · rw [hnext]
    exact hfinds.lcmBlockSize_le hmem0 hcached two_pos hfirst hcurr
  · exact coord.partition.groupIds_ne_nil first (mem_attentionGroups_of_zipIdx hmem0)
  · exact (fresh_congr (hitBlocksByGroup_eq_of_ne hmem0 hmem1 (by simp) hframe)).2 hfreshSecond
  · exact (fresh_congr (hitBlocksByGroup_eq_of_ne hmem0 hmem2 (by simp) hframe)).2 hfreshThird

theorem leads_second (hsecond : second.isFullAttention = true) :
    coord.Leads pool blockHashes (2 * coord.lcmBlockSize) (second, 1)
      (fun search ↦ coord.lcmBlockSize ≤ search.currHitLength ∧ ¬ search.Fresh first ∧
        search.Fresh second ∧ search.Fresh third)
      (fun search ↦ Untrimmed first second search ∧ search.Fresh third) := by
  obtain ⟨hmem0, hmem1, hmem2⟩ := mem_zipIdx_attentionGroups hgroups
  rintro search next ⟨hcurr, hstored, hfresh, hfreshThird⟩ hframe - hvis
  obtain ⟨columns, hfinds, hstores, -⟩ := hvis.exists_finds (.inr hfresh)
  have hlen := hfinds.lcmBlockSize_le hmem1 hcached one_lt_two hsecond hcurr
  refine ⟨⟨?_, columns, ?_, hstores⟩, ?_⟩
  · rwa [fresh_congr (hitBlocksByGroup_eq_of_ne hmem1 hmem0 (by simp) hframe)]
  · rintro rfl
    rw [length_nil, zero_mul] at hlen
    exact absurd coord.lcmBlockSize_pos (not_lt.2 hlen)
  · exact (fresh_congr (hitBlocksByGroup_eq_of_ne hmem1 hmem2 (by simp) hframe)).2 hfreshThird

theorem leads_third : coord.Leads pool blockHashes (2 * coord.lcmBlockSize) (third, 2)
    (fun search ↦ Untrimmed first second search ∧ search.Fresh third)
    (fun search ↦ search.currHitLength = 0 ∧ Untrimmed first second search) := by
  obtain ⟨-, -, hmem2⟩ := mem_zipIdx_attentionGroups hgroups
  rintro search next ⟨huntrimmed, hfresh⟩ hframe - hvis
  refine ⟨hvis.currHitLength_eq_zero (fun index hsome ↦ ?_) (.inr (.inr hfresh)),
    .of_frame hgroups hmem2 le_rfl hframe huntrimmed⟩
  exact lt_irrefl 2 ((hcached _ hmem2 index).1 hsome).2

/-- From there on the candidate length stays 0, and the second group keeps its blocks. -/
theorem leads_untrimmed (hfirst : first.isFullAttention = true) (hsecond : second.isFullAttention = true)
    (hitem : item ∈ coord.attentionGroups.zipIdx) :
    coord.Leads pool blockHashes (2 * coord.lcmBlockSize) item
      (fun search ↦ search.currHitLength = 0 ∧ Untrimmed first second search)
      (fun search ↦ search.currHitLength = 0 ∧ Untrimmed first second search) := by
  rintro search next ⟨hzero, huntrimmed⟩ hframe - hvis
  by_cases hidx : 2 ≤ item.2
  · refine ⟨hvis.currHitLength_eq_zero (fun index hsome ↦ ?_) (.inl hzero),
      .of_frame hgroups hitem hidx hframe huntrimmed⟩
    exact absurd ((hcached item hitem index).1 hsome).2 (not_lt.2 hidx)
  · -- The first two groups were looked up before.
    obtain ⟨hstored, columns, hne, hstores⟩ := huntrimmed
    have htrim : item.1.isFullAttention = true ∧ ¬ search.Fresh item.1 := by
      rw [zipIdx_attentionGroups hgroups] at hitem
      rcases mem_cons.1 hitem with rfl | hitem
      · exact ⟨hfirst, hstored⟩
      rcases mem_cons.1 hitem with rfl | hitem
      · exact ⟨hsecond, hstores.not_fresh (coord.partition.groupIds_ne_nil second (by simp [hgroups]))⟩
      · exact absurd (le_snd_of_mem_zipIdx (k := 2) (l := third :: rest) hitem) hidx
    cases hvis with
    | trimmed _ _ hnext =>
      rw [hnext]
      exact ⟨by rw [hzero, Nat.zero_div, zero_mul], hstored, columns, hne, hstores⟩
    | searched _ hsearch =>
      rcases hsearch with hother | hfresh
      · rw [htrim.1] at hother
        cases hother
      · exact absurd hfresh htrim.2

end Untrimmed

/-- A second full-attention group that shrinks below its first lookup keeps too many blocks. -/
theorem SoundHits.trimsFirst (hcomb : coord.Combined) (hsound : coord.SoundHits) :
    coord.TrimsFirst := by
  by_contra htrims
  have hcan := hsound.canSearch hcomb
  obtain ⟨first, second, third, rest, hgroups, hfirst, hsecond⟩ := exists_of_not_trimsFirst htrims
  obtain ⟨pool, blockHashes, hprom, hcached⟩ := exists_content hcomb _ firstTwoCached
  obtain ⟨hmem0, hmem1, hmem2⟩ := mem_zipIdx_attentionGroups hgroups
  have hkeeps (items : List (AttentionGroup σ × ℕ))
      (hitems : ∀ item ∈ items, item ∈ coord.attentionGroups.zipIdx) :=
    PassLeads.invariant hcomb hcan hprom hitems fun item hitem ↦
      leads_untrimmed hgroups hcached hfirst hsecond (hitems item hitem)
  have hpass : coord.PassLeads pool blockHashes (2 * coord.lcmBlockSize) coord.attentionGroups.zipIdx
      (fun search ↦ coord.lcmBlockSize ≤ search.currHitLength ∧ search.Fresh first ∧
        search.Fresh second ∧ search.Fresh third)
      (fun search ↦ search.currHitLength = 0 ∧ Untrimmed first second search) := by
    have hrest := hkeeps (rest.zipIdx 3) fun item hitem ↦ by
      simp [zipIdx_attentionGroups hgroups, hitem]
    rw [zipIdx_attentionGroups hgroups]
    exact .cons hcomb hcan hprom hmem0 (leads_first hgroups hcached hfirst)
      (.cons hcomb hcan hprom hmem1 (leads_second hgroups hcached hsecond)
        (.cons hcomb hcan hprom hmem2 (leads_third hgroups hcached) hrest))
  have hpos := coord.lcmBlockSize_pos
  obtain ⟨next, ⟨hzero, huntrimmed⟩, htidy, hloop⟩ := hpass.continues
    _ ⟨2 * coord.lcmBlockSize, [], fun _ ↦ none⟩
    ⟨Nat.le_mul_of_pos_left _ two_pos, fun _ _ ↦ rfl, fun _ _ ↦ rfl, fun _ _ ↦ rfl⟩
    ⟨le_rfl, fun _ _ ↦ .inl fun _ _ ↦ rfl⟩ fun final hfinal ↦ by omega
  obtain ⟨final, ⟨-, -, _, hne, hstores⟩, hstop⟩ :=
    (hkeeps _ fun _ hitem ↦ hitem).stops _ next ⟨hzero, huntrimmed⟩ htidy false fun final hfinal ↦ by omega
  have hsimple : coord.isSimpleHybrid = false := by simp [isSimpleHybrid, hgroups]
  rw [← hloop, hzero, ← hsimple] at hstop
  have hlen := (hsound.length_of_stores hprom hstop hmem1 hstores).2 (.inl one_ne_zero)
  rcases mul_eq_zero.1 hlen with hnil | hsize
  · exact hne (length_eq_zero_iff.1 hnil)
  · exact second.spec.blockSize_pos.ne' hsize

end Nelssa.Core.HybridKVCacheCoordinator
