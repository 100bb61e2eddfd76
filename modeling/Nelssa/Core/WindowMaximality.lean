import Nelssa.Core.HybridOptimality

/-!
# The longest hit of a sliding window

The sliding-window search goes from the last block to the first and stops at the first complete window.
What it should find is the longest aligned length for which the window of the next token is cached,
together with one more block for EAGLE. It asks for a block even if the window is the token itself. With
EAGLE it aligns an incomplete window before it drops the last block, although the alignment of the run
was already chosen for the length without that block.
-/

namespace Nelssa.Core.HitQuery

open Foundation.BlockArithmetic Foundation.HitWindows KVCacheSpec List

/-- What the prefix cache holds for a block in all groups. -/
def cached (query : HitQuery) (pool : BlockPool) (index : ℕ) : Option (List ℕ) :=
  query.blockHashes[index]?.bind fun blockHash ↦ (query.lookup pool blockHash).toOption.join

/-- The first block in the window of the token behind some blocks. -/
def windowStart (spec : KVCacheSpec) (numBlocks : ℕ) : ℕ :=
  spec.numSkippedTokens (numBlocks * spec.blockSize) / spec.blockSize

section

variable (query : HitQuery) (pool : BlockPool) (spec : KVCacheSpec)

/-- An aligned length whose window is cached, and with EAGLE the block behind it. -/
structure ValidWindow (numBlocks : ℕ) : Prop where
  le : numBlocks ≤ query.maxLength / spec.blockSize
  aligned : query.alignmentTokens ∣ numBlocks * spec.blockSize
  covered : Covered (query.cached pool) (windowStart spec numBlocks) numBlocks
  dropped : query.useEagle = true → 0 < numBlocks →
    numBlocks < query.maxLength / spec.blockSize ∧ (query.cached pool numBlocks).isSome

/-- The search returns the longest valid length, with null blocks in front of its window. -/
def MaximalWindow : Prop :=
  ∃ numBlocks, IsGreatest {count | query.ValidWindow pool spec count} numBlocks ∧
    query.slidingWindow pool spec = .ok (query.perGroup (shown (query.cached pool) (query.nullColumn pool)
      (windowStart spec numBlocks) numBlocks))

/-- What the callers promise: a pool in use, and hashes up to the maximum length. -/
structure WindowPromise (window : ℕ) : Prop where
  kind : spec.kind = .slidingWindow window ∨ spec.kind = .slidingWindowMLA window
  groups : query.kvCacheGroupIds ≠ []
  groupId_lt : ∀ groupId ∈ query.kvCacheGroupIds, groupId < 2 ^ 32
  dcp : query.dcpWorldSize = 1
  pcp : query.pcpWorldSize = 1
  indexed : pool.Indexed
  null : pool.isNull pool.nullBlock = true
  hashes : query.maxLength / spec.blockSize ≤ query.blockHashes.length

/-- Without EAGLE the window has more than one token, or no length is aligned. With EAGLE all lengths are
aligned, or a valid length that is shorter than the window is not the longest one. -/
def WindowSuits (window : ℕ) : Prop :=
  if query.useEagle then
    query.alignmentTokens ∣ spec.blockSize ∨ ∀ numBlocks, 0 < numBlocks →
      numBlocks < cdiv (window - 1) spec.blockSize → query.ValidWindow pool spec numBlocks →
      ∃ longer, cdiv (window - 1) spec.blockSize ≤ longer ∧ query.ValidWindow pool spec longer
  else 2 ≤ window ∨ ∀ numBlocks, 0 < numBlocks → numBlocks ≤ query.maxLength / spec.blockSize →
    ¬ query.alignmentTokens ∣ numBlocks * spec.blockSize

end

variable {query : HitQuery} {pool : BlockPool} {spec : KVCacheSpec} {window : ℕ}

theorem length_eq_of_perGroup (hgroups : query.kvCacheGroupIds ≠ []) {columns others : List (List ℕ)}
    (hsame : query.perGroup columns = query.perGroup others) :
    columns.map (·.getD 0 0) = others.map (·.getD 0 0) := by
  have hfirst := congrArg (·[0]?) hsame
  have hpos := length_pos_iff.2 hgroups
  simpa [perGroup, getElem?_range hpos] using hfirst

namespace WindowPromise

variable (hpromise : query.WindowPromise pool spec window)

include hpromise

theorem cached_eq {index : ℕ} (hidx : index < query.blockHashes.length) :
    query.lookup pool query.blockHashes[index] = .ok (query.cached pool index) ∧
      ∀ column, query.cached pool index = some column → column.getD 0 0 ≠ pool.nullBlock := by
  unfold cached
  rw [getElem?_eq_getElem hidx, Option.bind_some, lookup]
  rcases hpromise.indexed.getCachedBlock query.blockHashes[index] hpromise.groupId_lt with
    ⟨_, hblocks, hall⟩ | ⟨hmiss, -⟩
  · obtain ⟨_, _, hids⟩ := exists_cons_of_ne_nil hpromise.groups
    rw [hids] at hall
    obtain ⟨block, _, ⟨_, -, hcarries⟩, -, rfl⟩ := forall₂_cons_left_iff.1 hall
    rw [hblocks]
    refine ⟨rfl, fun column hcol hnull ↦ ?_⟩
    cases hcol
    replace hnull : block = pool.nullBlock := hnull
    have hhash := hpromise.indexed.null block (hnull ▸ hpromise.null)
    rw [hcarries] at hhash
    cases hhash
  · rw [hmiss]
    exact ⟨rfl, fun column hcol ↦ by cases hcol⟩

theorem looks : query.Looks pool (query.cached pool) (query.maxLength / spec.blockSize) := fun _ hidx ↦
  ⟨_, getElem?_eq_getElem (hidx.trans_le hpromise.hashes), (hpromise.cached_eq _).1⟩

theorem min_windowStart (numBlocks : ℕ) :
    min (windowStart spec numBlocks) numBlocks = numBlocks - cdiv (window - 1) spec.blockSize := by
  have hcomb : spec.kind.isCombined = true := by
    rcases hpromise.kind with hkind | hkind <;> rw [hkind] <;> rfl
  have hback : spec.lookback = some (cdiv (window - 1) spec.blockSize) := by
    rcases hpromise.kind with hkind | hkind <;> rw [lookback, hkind]
  have hlow := firstNeeded_le hcomb numBlocks
  rw [firstNeeded_of_some hback] at hlow
  unfold windowStart
  by_cases hone : cdiv (window - 1) spec.blockSize = 0
  · omega
  · have hreaches : spec.kind.ReachesBack := by
      have htwo : 2 ≤ window := by
        have := (cdiv_pos_iff spec.blockSize_pos _).1 (pos_of_ne_zero hone)
        omega
      intro other hother
      rcases hpromise.kind with hkind | hkind <;> rw [hkind] at hother <;> simp at hother <;> omega
    have hhigh := le_firstSought hcomb hreaches numBlocks
    rw [firstSought_of_some hback] at hhigh
    omega

theorem covered_iff (numBlocks : ℕ) :
    Covered (query.cached pool) (windowStart spec numBlocks) numBlocks ↔
      Covered (query.cached pool) (numBlocks - cdiv (window - 1) spec.blockSize) numBlocks := by
  rw [← hpromise.min_windowStart]
  constructor <;> exact fun hcov pos hlow hhigh ↦ hcov pos (by omega) hhigh

theorem shown_eq (numBlocks : ℕ) : shown (query.cached pool) (query.nullColumn pool)
      (windowStart spec numBlocks) numBlocks = shown (query.cached pool) (query.nullColumn pool)
      (numBlocks - cdiv (window - 1) spec.blockSize) numBlocks := by
  rw [← hpromise.min_windowStart]
  apply map_congr_left
  intro pos hpos
  rw [mem_range] at hpos
  have hsame : pos < windowStart spec numBlocks ↔ pos < min (windowStart spec numBlocks) numBlocks := by omega
  simp only [hsame]

section

variable (heagle : query.useEagle = true)
include heagle

/-- With EAGLE the valid lengths are one less than the ends of the runs that the search accepts. -/
theorem validWindow_iff {numBlocks : ℕ} (hpos : 0 < numBlocks) :
    query.ValidWindow pool spec numBlocks ↔ numBlocks + 1 ∈ ends (query.cached pool)
      (query.MayEnd spec.blockSize) (cdiv (window - 1) spec.blockSize + 1)
      (query.maxLength / spec.blockSize) := by
  have hmayEnd : query.MayEnd spec.blockSize (numBlocks + 1) ↔
      query.alignmentTokens ∣ numBlocks * spec.blockSize := by
    rw [MayEnd, heagle, if_pos rfl, Nat.add_sub_cancel]
  constructor
  · intro hvalid
    obtain ⟨hlt, hdropped⟩ := hvalid.dropped heagle hpos
    have hcov := (hpromise.covered_iff numBlocks).1 hvalid.covered
    refine ⟨hlt, fun _ ↦ hmayEnd.2 hvalid.aligned, fun pos hlow hhigh ↦ ?_⟩
    rcases eq_or_lt_of_le (Nat.le_of_lt_succ hhigh) with rfl | hbefore
    · exact hdropped
    · exact hcov pos (by omega) hbefore
  · rintro ⟨hlt, halign, hcov⟩
    refine ⟨Nat.le_of_succ_le hlt, hmayEnd.1 (halign (Nat.succ_pos _)), ?_, fun _ _ ↦ ⟨hlt, ?_⟩⟩
    · exact (hpromise.covered_iff numBlocks).2 (hcov.mono (by omega) (Nat.le_succ _))
    · exact hcov numBlocks (by omega) (Nat.lt_succ_self _)

theorem isGreatest_validWindow {count : ℕ}
    (hmax : IsGreatest (ends (query.cached pool) (query.MayEnd spec.blockSize)
      (cdiv (window - 1) spec.blockSize + 1) (query.maxLength / spec.blockSize)) count) :
    IsGreatest {numBlocks | query.ValidWindow pool spec numBlocks} (count - 1) := by
  constructor
  · rcases eq_zero_or_pos (count - 1) with hzero | hpos
    · rw [hzero]
      exact ⟨Nat.zero_le _, by simp, covered_of_le _ (Nat.zero_le _), fun _ h ↦ absurd h (lt_irrefl 0)⟩
    · apply (hpromise.validWindow_iff heagle hpos).2
      rw [Nat.sub_add_cancel (by omega)]
      exact hmax.1
  · intro other hother
    rcases eq_zero_or_pos other with rfl | hpos
    · exact Nat.zero_le _
    · have := hmax.2 ((hpromise.validWindow_iff heagle hpos).1 hother)
      omega

theorem maximalWindow_iff_of_eagle : query.MaximalWindow pool spec ↔ query.WindowSuits pool spec window := by
  obtain ⟨count, hends, hres⟩ := slidingWindow_eagle hpromise.dcp hpromise.pcp hpromise.looks
    hpromise.kind hpromise.groups heagle
  have hlongest := hpromise.isGreatest_validWindow heagle hends
  have hmaximal : query.MaximalWindow pool spec ↔ query.slidingWindow pool spec = .ok (query.perGroup
      (shown (query.cached pool) (query.nullColumn pool)
        (count - 1 - cdiv (window - 1) spec.blockSize) (count - 1))) := by
    rw [← hpromise.shown_eq]
    refine ⟨?_, fun hsearch ↦ ⟨_, hlongest, hsearch⟩⟩
    rintro ⟨numBlocks, hmax, hsearch⟩
    rwa [hmax.unique hlongest] at hsearch
  rw [WindowSuits, if_pos heagle]
  rcases hres with ⟨hreach, hsearch⟩ | ⟨hreach, kept, hkept, num, hnum, hkeptAligned, hkeptGreatest,
    -, hnumGreatest, hsearch⟩
  · rw [hmaximal, hsearch, Nat.sub_sub, add_comm]
    exact iff_of_true rfl (.inr fun _ _ _ _ ↦ ⟨count - 1, by omega, hlongest.1⟩)
  · have hnumEq : num = count - 1 ↔ query.MaximalWindow pool spec := by
      rw [hmaximal, hsearch, show count - 1 - cdiv (window - 1) spec.blockSize = 0 by omega]
      refine ⟨fun h ↦ by rw [h], fun h ↦ ?_⟩
      have hlen := congrArg length (length_eq_of_perGroup hpromise.groups (Except.ok.inj h))
      simpa using hlen
    rw [← hnumEq]
    constructor
    · rintro rfl
      by_cases hone : count - 1 = 0
      · exact .inr fun other hpos _ hvalid ↦ absurd (hlongest.2 hvalid) (by omega)
      · -- Both the run and the run without its last block are aligned.
        have hsame : kept = count - 1 + 1 := by omega
        rw [hsame, add_mul, one_mul] at hkeptAligned
        exact .inl ((Nat.dvd_add_right hlongest.1.aligned).1 hkeptAligned)
    · rintro (hdvd | hlonger)
      · have hall (other : ℕ) := hdvd.mul_left other
        have := hkeptGreatest count le_rfl (hall count)
        have := hnumGreatest _ le_rfl (hall _)
        omega
      · by_cases hone : count - 1 = 0
        · omega
        · obtain ⟨_, hle, hvalid⟩ := hlonger _ (by omega) (by omega) hlongest.1
          have := hlongest.2 hvalid
          omega

end

theorem maximalWindow_iff_of_not_eagle (heagle : query.useEagle = false) :
    query.MaximalWindow pool spec ↔ query.WindowSuits pool spec window := by
  have hback : spec.lookback = some (cdiv (window - 1) spec.blockSize) := by
    rcases hpromise.kind with hkind | hkind <;> rw [lookback, hkind]
  obtain ⟨columns, hsearch, hfound⟩ := slidingWindow_found hpromise.dcp hpromise.pcp hpromise.looks
    hpromise.kind hpromise.groups
  obtain ⟨hcols, hmax⟩ := hfound.greatest (.inl heagle)
  have hvalid (numBlocks : ℕ) : query.ValidWindow pool spec numBlocks ↔
      numBlocks ≤ query.maxLength / spec.blockSize ∧ query.alignmentTokens ∣ numBlocks * spec.blockSize ∧
        Covered (query.cached pool) (numBlocks - cdiv (window - 1) spec.blockSize) numBlocks := by
    rw [← hpromise.covered_iff]
    refine ⟨fun h ↦ ⟨h.le, h.aligned, h.covered⟩, fun h ↦ ⟨h.1, h.2.1, h.2.2, fun htrue ↦ ?_⟩⟩
    rw [heagle] at htrue
    cases htrue
  rw [firstSought_of_some hback] at hcols
  simp only [firstSought_of_some hback] at hmax
  rw [WindowSuits, heagle]
  by_cases htwo : 2 ≤ window
  · have hone := (cdiv_pos_iff spec.blockSize_pos (window - 1)).2 (by omega)
    rw [max_eq_left hone] at hcols
    simp only [Nat.max_eq_left hone, ← hvalid] at hmax
    refine iff_of_true ⟨columns.length, hmax, ?_⟩ (.inl htwo)
    rw [hpromise.shown_eq, ← hcols, hsearch]
  · have hzero : cdiv (window - 1) spec.blockSize = 0 := by
      rw [show window - 1 = 0 by omega, cdiv_eq_add_pred_div]
      simp [spec.blockSize_pos]
    simp only [hzero, Nat.sub_zero, covered_of_le _ le_rfl, and_true] at hvalid
    constructor
    · rintro ⟨numBlocks, hlongest, hlist⟩
      right
      intro other hpos hle halign
      have hother := hlongest.2 ((hvalid other).2 ⟨hle, halign⟩)
      have hsame := length_eq_of_perGroup hpromise.groups (Except.ok.inj (hsearch.symm.trans hlist))
      rw [hpromise.shown_eq] at hsame
      have hlen : columns.length = numBlocks := by simpa using congrArg length hsame
      -- The last block of the list is cached, but the window needs none.
      have hlast := hmax.1.2.2 (columns.length - 1) (by omega) (by omega)
      obtain ⟨column, hcol⟩ := Option.isSome_iff_exists.1 hlast
      apply (hpromise.cached_eq (show columns.length - 1 < query.blockHashes.length by
        have := hmax.1.1
        have := hpromise.hashes
        omega)).2 column hcol
      have hitem := congrArg (·[columns.length - 1]?) hsame
      rw [hcols] at hitem
      simp only [length_shown, getElem?_map] at hitem
      rw [getElem?_shown (by omega), getElem?_shown (by omega), if_neg (by omega), if_pos (by omega),
        hcol] at hitem
      simpa [nullColumn, length_pos_iff.2 hpromise.groups] using hitem
    · intro hsuits
      have hnone := hsuits.resolve_left htwo
      have hnil : columns.length = 0 := by
        by_contra hne
        exact hnone _ (pos_of_ne_zero hne) hmax.1.1 hmax.1.2.1
      refine ⟨0, ⟨(hvalid 0).2 ⟨Nat.zero_le _, by simp⟩, fun other hother ↦ ?_⟩, ?_⟩
      · by_contra hpos
        obtain ⟨hle, halign⟩ := (hvalid other).1 hother
        exact hnone other (by omega) hle halign
      · rw [hsearch, length_eq_zero_iff.1 hnil]
        rfl

end WindowPromise

/-- The search returns the longest valid length exactly if the window suits it. -/
theorem maximalWindow_iff (hpromise : query.WindowPromise pool spec window) :
    query.MaximalWindow pool spec ↔ query.WindowSuits pool spec window := by
  cases heagle : query.useEagle with
  | false => exact hpromise.maximalWindow_iff_of_not_eagle heagle
  | true => exact hpromise.maximalWindow_iff_of_eagle heagle

/-- A pool that caches the given blocks of a request, all with 16 tokens. -/
def cachedPool (cached : List ℕ) : Except Exn BlockPool :=
  (BlockPool.init 8 true 16).map fun pool ↦
    (pool.cacheFullBlocks (positionHashes 3) cached 0 cached.length 16 0).2

/-- A search in the three blocks of a request. -/
def searchThree (useEagle : Bool) (alignmentTokens : ℕ) : HitQuery :=
  ⟨positionHashes 3, 48, [0], useEagle, alignmentTokens, 1, 1⟩

theorem sixteen_pos : 0 < 16 := Nat.succ_pos 15

/-- A sliding window over blocks of 16 tokens. -/
def windowSpec (window : ℕ) : KVCacheSpec := ⟨.slidingWindow window, 16, sixteen_pos⟩

theorem exists_cachedPool (cached : List ℕ) (hcached : ∀ block ∈ cached, block < 8) :
    ∃ pool, cachedPool cached = .ok pool ∧ ∀ useEagle alignmentTokens window,
      WindowPromise (searchThree useEagle alignmentTokens) pool (windowSpec window) window := by
  obtain ⟨pool, hinit, hnum, hcaching, -⟩ := BlockPool.exists_init 7 true 16
  obtain ⟨hnull, hhashes, hmap, _, hrefs⟩ := BlockPool.init_spec hinit
  have hindexed : pool.Indexed := by
    unfold BlockPool.Indexed
    rw [hhashes, hmap]
    exact indexInv_init _ _ _
  refine ⟨_, congrArg (Except.map _) hinit, fun useEagle alignmentTokens window ↦ ?_⟩
  refine ⟨.inl rfl, cons_ne_nil _ _, by simp [searchThree], rfl, rfl,
    hindexed.cacheFullBlocks hcaching (fun block hblock ↦ ?_) _ _ _ _ _, ?_,
    by simp [searchThree, windowSpec, positionHashes]⟩
  · exact hnum.symm ▸ hcached block hblock
  · obtain ⟨_, _, hsame⟩ := pool.sameBlocks_cacheFullBlocks (positionHashes 3) cached 0 cached.length 16 0
    simp only [hsame]
    exact (hrefs.isNull_iff _).2 hnull

/-- With the first three blocks cached, a window of 32 tokens is found with and without EAGLE. -/
theorem maximalWindow_cached : ∃ pool, cachedPool [1, 2, 3] = .ok pool ∧ ∀ useEagle,
    WindowPromise (searchThree useEagle 16) pool (windowSpec 32) 32 ∧
      MaximalWindow (searchThree useEagle 16) pool (windowSpec 32) := by
  obtain ⟨pool, hpool, hpromise⟩ := exists_cachedPool [1, 2, 3] (by decide)
  refine ⟨pool, hpool, fun useEagle ↦ ⟨hpromise useEagle 16 32,
    (maximalWindow_iff (hpromise useEagle 16 32)).2 ?_⟩⟩
  cases useEagle with
  | false => exact .inl (by decide)
  | true => exact .inl (dvd_refl 16)

/-- An incomplete window of three blocks loses two of them with an alignment of two blocks, though the
first two are a hit for every alignment up to them. A window of one token needs no block, but no hit is
returned without one. -/
theorem not_maximalWindow :
    (∃ pool, cachedPool [1, 2, 3] = .ok pool ∧
      ¬ MaximalWindow (searchThree true 32) pool (windowSpec 1000)) ∧
    ∃ pool, cachedPool [] = .ok pool ∧ ¬ MaximalWindow (searchThree false 16) pool (windowSpec 1) := by
  constructor
  · obtain ⟨pool, hpool, hpromise⟩ := exists_cachedPool [1, 2, 3] (by decide)
    have hcached : ∀ index < 3, ((searchThree true 32).cached pool index).isSome := by
      have hall : (cachedPool [1, 2, 3]).map (fun pool ↦
          (range 3).all fun index ↦ ((searchThree true 32).cached pool index).isSome) = .ok true := by
        decide +kernel
      rw [hpool] at hall
      exact fun index hindex ↦ all_eq_true.1 (Except.ok.inj hall) index (mem_range.2 hindex)
    have hvalid : (searchThree true 32).ValidWindow pool (windowSpec 1000) 2 :=
      ⟨by decide, by decide, fun pos _ hpos ↦ hcached pos (by omega),
        fun _ _ ↦ ⟨by decide, hcached 2 (by decide)⟩⟩
    refine ⟨pool, hpool, fun hmax ↦ ?_⟩
    rcases ((hpromise true 32 1000).maximalWindow_iff_of_eagle rfl).1 hmax with hdvd | hlonger
    · exact absurd hdvd (by decide)
    · obtain ⟨longer, hge, hlonger⟩ := hlonger 2 (by decide) (by decide) hvalid
      exact absurd (hge.trans hlonger.le) (by decide)
  · obtain ⟨pool, hpool, hpromise⟩ := exists_cachedPool [] (by simp)
    refine ⟨pool, hpool, fun hmax ↦ ?_⟩
    rcases ((hpromise false 16 1).maximalWindow_iff_of_not_eagle rfl).1 hmax with htwo | hnone
    · exact absurd htwo (by decide)
    · exact hnone 1 (by decide) (by decide) (by decide)

end Nelssa.Core.HitQuery
