import Nelssa.Core.CacheHits
import Nelssa.Foundation.HitWindows

/-!
# What the searches for cache hits find

Every search looks for the last length at which all blocks are cached that attention looks back on.
The three searches of full attention, sliding windows and Mamba states differ in how far they look
back, and share one description: `Found` says which lengths they can return and that the blocks they
return are the cached ones.
-/

namespace Nelssa.Core

open Foundation.BlockArithmetic Foundation.HitWindows KVCacheSpec
open List hiding max lt_irrefl not_le

/-- The test `isinstance(kv_cache_spec, MambaSpec)`. -/
def SpecKind.isMamba : SpecKind → Bool
  | mamba _ _ => true
  | _ => false

variable {spec : KVCacheSpec}

namespace KVCacheSpec

section

variable (spec : KVCacheSpec)

/-- The number of blocks that attention looks back on; full attention looks back on all of them. -/
def lookback : Option ℕ :=
  match spec.kind with
  | .slidingWindow window | .slidingWindowMLA window => some (cdiv (window - 1) spec.blockSize)
  | .mamba _ _ => some 1
  | _ => none

/-- The first block that attention needs behind a number of blocks. -/
def firstNeeded (numBlocks : ℕ) : ℕ :=
  match spec.lookback with
  | none => 0
  | some blocks => numBlocks - blocks

/-- The first block that a search asks for: it always asks for one. -/
def firstSought (numBlocks : ℕ) : ℕ :=
  match spec.lookback with
  | none => 0
  | some blocks => numBlocks - max blocks 1

theorem firstSought_le_firstNeeded (numBlocks : ℕ) :
    spec.firstSought numBlocks ≤ spec.firstNeeded numBlocks := by
  unfold firstSought firstNeeded
  cases spec.lookback with
  | none => exact le_rfl
  | some blocks => exact Nat.sub_le_sub_left (le_max_left blocks 1) numBlocks

end

theorem firstNeeded_of_none (hback : spec.lookback = none) (numBlocks : ℕ) :
    spec.firstNeeded numBlocks = 0 := by
  rw [firstNeeded, hback]

theorem firstNeeded_of_some {blocks : ℕ} (hback : spec.lookback = some blocks)
    (numBlocks : ℕ) : spec.firstNeeded numBlocks = numBlocks - blocks := by
  rw [firstNeeded, hback]

theorem firstSought_of_none (hback : spec.lookback = none) (numBlocks : ℕ) :
    spec.firstSought numBlocks = 0 := by
  rw [firstSought, hback]

theorem firstSought_of_some {blocks : ℕ} (hback : spec.lookback = some blocks)
    (numBlocks : ℕ) : spec.firstSought numBlocks = numBlocks - max blocks 1 := by
  rw [firstSought, hback]

theorem lookback_of_isFullAttention (hkind : spec.kind.isFullAttention = true) :
    spec.lookback = none ∧ spec.kind.isMamba = false := by
  unfold lookback SpecKind.isMamba
  split <;> simp_all [SpecKind.isFullAttention]

theorem lookback_of_isMamba (hkind : spec.kind.isMamba = true) : spec.lookback = some 1 := by
  unfold lookback
  split <;> simp_all [SpecKind.isMamba]

/-- The blocks from `first` on include those that attention looks back on from `numBlocks`, and the
window does not reach beyond the first block. -/
def FitsFrom (spec : KVCacheSpec) (first numBlocks : ℕ) : Prop :=
  match spec.lookback with
  | none => first = 0
  | some blocks => first + max blocks 1 ≤ numBlocks

theorem FitsFrom.le_firstSought {first numBlocks : ℕ}
    (hfits : spec.FitsFrom first numBlocks) : first ≤ spec.firstSought numBlocks := by
  unfold FitsFrom at hfits
  unfold firstSought
  cases hback : spec.lookback with
  | none =>
    rw [hback] at hfits
    exact hfits.le
  | some blocks =>
    rw [hback] at hfits
    exact Nat.le_sub_of_add_le hfits

end KVCacheSpec

namespace HitQuery

variable {query : HitQuery} {pool : BlockPool} {hit : ℕ → Option (List ℕ)} {bound : ℕ}

/-- There are hashes up to a bound, and `hit` is what the lookups find under them. -/
def Looks (query : HitQuery) (pool : BlockPool) (hit : ℕ → Option (List ℕ)) (bound : ℕ) : Prop :=
  ∀ index < bound, ∃ blockHash, query.blockHashes[index]? = some blockHash ∧
    query.lookup pool blockHash = .ok (hit index)

/-- A number of blocks whose last block can start a run of the sliding-window search. With EAGLE the
last block is dropped afterwards. -/
def MayEnd (query : HitQuery) (blockSize numBlocks : ℕ) : Prop :=
  query.alignmentTokens ∣ (if query.useEagle then numBlocks - 1 else numBlocks) * blockSize

/-- What a search returns, for any way to search: the blocks of a whole number of aligned tokens, among
them the cached blocks that attention needs. -/
structure Found (query : HitQuery) (pool : BlockPool) (spec : KVCacheSpec)
    (hit : ℕ → Option (List ℕ)) (columns : List (List ℕ)) : Prop where
  aligned : query.alignmentTokens ∣ columns.length * spec.blockSize
  le : columns.length ≤ query.maxLength / spec.blockSize
  /-- One more block was there to be dropped. -/
  lt_of_eagle : query.useEagle = true → spec.kind.isMamba = false → columns ≠ [] →
    columns.length < query.maxLength / spec.blockSize
  covered : Covered hit (spec.firstNeeded columns.length) columns.length
  items : ∀ index, spec.firstNeeded columns.length ≤ index → index < columns.length →
    columns[index]? = hit index
  /-- A hit is only found where its last block is cached, or the block that is dropped. -/
  last : columns ≠ [] → (hit (if query.useEagle = true ∧ spec.kind.isMamba = false then columns.length
    else columns.length - 1)).isSome
  /-- A length is reached if one more block is cached and enough blocks are cached before. -/
  reached : ∀ first numBlocks, spec.FitsFrom first numBlocks →
    query.alignmentTokens ∣ numBlocks * spec.blockSize →
    numBlocks < query.maxLength / spec.blockSize → Covered hit first (numBlocks + 1) →
    numBlocks ≤ columns.length
  /-- Without EAGLE, and for Mamba, the search finds the last of all lengths. -/
  greatest : query.useEagle = false ∨ spec.kind.isMamba = true →
    columns = shown hit (query.nullColumn pool) (spec.firstSought columns.length) columns.length ∧
      IsGreatest {numBlocks | numBlocks ≤ query.maxLength / spec.blockSize ∧
        query.alignmentTokens ∣ numBlocks * spec.blockSize ∧
        Covered hit (spec.firstSought numBlocks) numBlocks} columns.length

/-! ## The loops -/

variable {blockSize : ℕ}

theorem dvd_of_not_unaligned {alignment count : ℕ}
    (halign : ¬ (blockSize ≠ alignment ∧ count * blockSize % alignment ≠ 0)) :
    alignment ∣ count * blockSize := by
  rcases not_and_or.1 halign with hsame | hdvd
  · rw [← not_not.1 hsame]
    exact dvd_mul_left _ _
  · exact Nat.dvd_of_mod_eq_zero (not_not.1 hdvd)

theorem popUnaligned_eq_take (query : HitQuery) (blockSize : ℕ) (columns : List (List ℕ)) :
    ∃ count ≤ columns.length, query.popUnaligned blockSize columns = columns.take count ∧
      query.alignmentTokens ∣ count * blockSize ∧
      ∀ other ≤ columns.length, query.alignmentTokens ∣ other * blockSize → other ≤ count := by
  fun_induction query.popUnaligned blockSize columns with
  | case1 columns hunaligned ih =>
    obtain ⟨count, hcount, htake, halign, hmax⟩ := ih
    rw [length_dropLast] at hcount hmax
    refine ⟨count, by omega, ?_, halign, fun other hother hdvd ↦ hmax other ?_ hdvd⟩
    · rw [htake, dropLast_eq_take, take_take, min_eq_left hcount]
    · rcases eq_or_lt_of_le hother with rfl | hlt
      · exact absurd (Nat.mod_eq_zero_of_dvd hdvd) hunaligned.2
      · omega
  | case2 columns halign =>
    refine ⟨columns.length, le_rfl, (take_length).symm, ?_, fun other hother _ ↦ hother⟩
    exact dvd_of_not_unaligned halign

variable {columns : List (List ℕ)}

theorem popUnaligned_of_dvd (hdvd : query.alignmentTokens ∣ columns.length * blockSize) :
    query.popUnaligned blockSize columns = columns := by
  obtain ⟨_, -, htake, -, hmax⟩ := query.popUnaligned_eq_take blockSize columns
  rw [htake, take_of_length_le (hmax _ le_rfl hdvd)]

theorem prefixHits_eq (hit : ℕ → Option (List ℕ)) (filler : List ℕ) (hashes : List BlockHash)
    (hlooks : ∀ (index : ℕ) blockHash, hashes[index]? = some blockHash →
      query.lookup pool blockHash = .ok (hit index)) :
    ∃ count ≤ hashes.length, query.prefixHits pool hashes = .ok (shown hit filler 0 count) ∧
      Covered hit 0 count ∧ (count < hashes.length → hit count = none) := by
  induction hashes generalizing hit with
  | nil => exact ⟨0, le_rfl, rfl, covered_of_le hit le_rfl, fun h ↦ absurd h (lt_irrefl 0)⟩
  | cons blockHash rest ih =>
    have hfirst := hlooks 0 blockHash rfl
    cases hhit : hit 0 with
    | none =>
      refine ⟨0, Nat.zero_le _, ?_, covered_of_le hit le_rfl, fun _ ↦ hhit⟩
      rw [prefixHits, hfirst, hhit]
      rfl
    | some column =>
      obtain ⟨count, hcount, hrest, hcov, hmiss⟩ := ih _
        fun index other hother ↦ hlooks (index + 1) other hother
      refine ⟨count + 1, Nat.succ_le_succ hcount, ?_, ?_, fun hlt ↦ hmiss (Nat.lt_of_succ_lt_succ hlt)⟩
      · rw [prefixHits, hfirst, hrest]
        simp [shown, Except.map, range_succ_eq_map, hhit]
      · intro pos _ hpos
        cases pos with
        | zero => rw [hhit, Option.isSome_some]
        | succ pos => exact hcov pos (Nat.zero_le _) (Nat.lt_of_succ_lt_succ hpos)

variable {index : ℕ}

/-- A column in front of a run: the last block below an index is found, and nulls are in front of it. -/
theorem replicate_append_eq_shown {column filler : List ℕ} (hcol : hit index = some column) :
    List.replicate index filler ++ [column] = shown hit filler index (index + 1) := by
  rw [← set_shown hcol, shown_of_le hit filler le_rfl, replicate_succ', set_append_right _ _ (by simp)]
  simp

theorem lastHit_eq (blockSize : ℕ) (hlooks : query.Looks pool hit bound) (hidx : index ≤ bound) :
    ∃ count, query.lastHit pool blockSize index = .ok (shown hit (query.nullColumn pool) (count - 1) count) ∧
      IsGreatest (ends hit (fun count ↦ query.alignmentTokens ∣ count * blockSize) 1 index) count := by
  induction index with
  | zero => exact ⟨0, rfl, zero_mem_ends _ _ _ _, fun other hother ↦ hother.1⟩
  | succ index ih =>
    obtain ⟨count, hcount, hmax⟩ := ih (by omega)
    have hskip (hnot : index + 1 ∉ ends hit (fun count ↦ query.alignmentTokens ∣ count * blockSize) 1
        (index + 1)) :
        IsGreatest (ends hit (fun count ↦ query.alignmentTokens ∣ count * blockSize) 1 (index + 1))
          count := by
      refine ⟨⟨hmax.1.1.trans (Nat.le_succ index), hmax.1.2⟩, fun other hother ↦ ?_⟩
      have hne : other ≠ index + 1 := fun h ↦ hnot (h ▸ hother)
      exact hmax.2 ⟨by have := hother.1; omega, hother.2⟩
    obtain ⟨_, hhash, hlookup⟩ := hlooks index hidx
    rw [lastHit, hhash]
    simp only [hlookup]
    cases hcol : hit index with
    | none =>
      refine ⟨count, hcount, hskip fun hmem ↦ ?_⟩
      have hsome := hmem.2.2 index (by omega) (Nat.lt_succ_self index)
      rw [hcol] at hsome
      cases hsome
    | some column =>
      dsimp only
      split
      · next hunaligned =>
        refine ⟨count, hcount, hskip fun hmem ↦ ?_⟩
        exact hunaligned.2 (Nat.mod_eq_zero_of_dvd (hmem.2.1 (Nat.succ_pos index)))
      · next halign =>
        refine ⟨index + 1, by rw [replicate_append_eq_shown hcol]; rfl,
          ⟨le_rfl, fun _ ↦ ?_, ?_⟩, fun other hother ↦ hother.1⟩
        · exact dvd_of_not_unaligned halign
        · rw [Nat.add_sub_cancel]
          exact (covered_of_le hit le_rfl).extend (by rw [hcol, Option.isSome_some])

/-- The sliding-window search from the right. The blocks from `index` on that belong to the current run
are cached, and no run ends behind them. -/
theorem windowHits_eq {contiguousBlocks : ℕ} (hlooks : query.Looks pool hit bound) {numContiguousBlocks : ℕ}
    (hidx : index + numContiguousBlocks ≤ bound)
    (hshown : columns.take (index + numContiguousBlocks) =
      shown hit (query.nullColumn pool) index (index + numContiguousBlocks))
    (hcov : Covered hit index (index + numContiguousBlocks))
    (hless : numContiguousBlocks < max contiguousBlocks 1)
    (hmayEnd : 0 < numContiguousBlocks → query.MayEnd blockSize (index + numContiguousBlocks))
    (hupper : ∀ count ∈ ends hit (query.MayEnd blockSize) (max contiguousBlocks 1) bound,
      count ≤ index + numContiguousBlocks) :
    ∃ count found num matchFound,
      query.windowHits pool blockSize contiguousBlocks index columns numContiguousBlocks =
        .ok (found, num, matchFound) ∧
      IsGreatest (ends hit (query.MayEnd blockSize) (max contiguousBlocks 1) bound) count ∧
      (if matchFound then found else found.take num) =
        shown hit (query.nullColumn pool) (count - max contiguousBlocks 1) count ∧
      (matchFound = true ↔ max contiguousBlocks 1 ≤ count) := by
  induction index generalizing columns numContiguousBlocks with
  | zero =>
    rw [zero_add] at hidx hcov hmayEnd hupper hshown
    have hfirst : numContiguousBlocks - max contiguousBlocks 1 = 0 := by omega
    refine ⟨numContiguousBlocks, columns, numContiguousBlocks, false, rfl,
      ⟨⟨hidx, hmayEnd, hfirst ▸ hcov⟩, hupper⟩, ?_,
      iff_of_false Bool.false_ne_true (not_le.2 hless)⟩
    rw [hfirst, if_neg Bool.false_ne_true, hshown]
  | succ index ih =>
    obtain ⟨_, hhash, hlookup⟩ := hlooks index (by omega)
    rw [windowHits, hhash]
    simp only [hlookup]
    -- A new run starts in front of nulls only.
    have hrestart : columns.take (index + 0) = shown hit (query.nullColumn pool) index (index + 0) := by
      have htake := congrArg (take index) hshown
      rwa [take_take, min_eq_left (by omega), take_shown _ _ _ (by omega), shown_of_le _ _ (by omega),
        ← shown_of_le hit _ le_rfl] at htake
    cases hcol : hit index with
    | none =>
      apply ih (by omega) hrestart (covered_of_le hit le_rfl) (by omega) (fun h ↦ absurd h (lt_irrefl 0))
      -- A run that ends behind the miss would have to contain it.
      intro count hcount
      have hle := hupper count hcount
      by_contra hlt
      have hsome := hcount.2.2 index (by omega) (by omega)
      rw [hcol] at hsome
      cases hsome
    | some column =>
      have hsome : (hit index).isSome := by rw [hcol, Option.isSome_some]
      dsimp only
      generalize hpost : (if query.useEagle then index else index + 1) = postPopBlocks
      have hmayEnd_iff : query.MayEnd blockSize (index + 1) ↔
          query.alignmentTokens ∣ postPopBlocks * blockSize := by
        rw [MayEnd, Nat.add_sub_cancel, hpost]
      split
      · next hskip =>
        obtain ⟨rfl, -, hunaligned⟩ := hskip
        apply ih (by omega) hrestart (covered_of_le hit le_rfl) hless (fun h ↦ absurd h (lt_irrefl 0))
        intro count hcount
        have hle := hupper count hcount
        by_contra hlt
        obtain rfl : count = index + 1 := by omega
        have hdvd := hmayEnd_iff.1 (hcount.2.1 (Nat.succ_pos index))
        exact hunaligned (Nat.mod_eq_zero_of_dvd hdvd)
      · next hstart =>
        have htop : index + 1 + numContiguousBlocks = index + (numContiguousBlocks + 1) := by omega
        rw [htop] at hshown hcov hmayEnd hupper
        have hcovered' := hcov.extend hsome
        have hmayEnd' : query.MayEnd blockSize (index + (numContiguousBlocks + 1)) := by
          rcases eq_zero_or_pos numContiguousBlocks with rfl | hpos
          · apply hmayEnd_iff.2
            exact dvd_of_not_unaligned (not_and.1 hstart rfl)
          · exact hmayEnd hpos
        have hset : (columns.set index column).take (index + (numContiguousBlocks + 1)) =
            shown hit (query.nullColumn pool) index (index + (numContiguousBlocks + 1)) := by
          rw [take_set, hshown, set_shown hcol]
        split
        · next hmatch =>
          have hreach : max contiguousBlocks 1 = numContiguousBlocks + 1 := by omega
          refine ⟨index + (numContiguousBlocks + 1), _, _, true, rfl,
            ⟨⟨by omega, fun _ ↦ hmayEnd', ?_⟩, hupper⟩, ?_, iff_of_true rfl (by omega)⟩
          · rwa [hreach, Nat.add_sub_cancel]
          · rw [hreach, Nat.add_sub_cancel, if_pos rfl, hset]
        · next =>
          exact ih (by omega) hset hcovered' (by omega) (fun _ ↦ hmayEnd') hupper

theorem windowHits_replicate (blockSize contiguousBlocks : ℕ) (hlooks : query.Looks pool hit bound) :
    ∃ count found num matchFound,
      query.windowHits pool blockSize contiguousBlocks bound
          (List.replicate bound (query.nullColumn pool)) 0 = .ok (found, num, matchFound) ∧
      IsGreatest (ends hit (query.MayEnd blockSize) (max contiguousBlocks 1) bound) count ∧
      (if matchFound then found else found.take num) =
        shown hit (query.nullColumn pool) (count - max contiguousBlocks 1) count ∧
      (matchFound = true ↔ max contiguousBlocks 1 ≤ count) := by
  apply windowHits_eq hlooks le_rfl _ (covered_of_le hit le_rfl)
  · omega
  · exact fun h ↦ absurd h (lt_irrefl 0)
  · exact fun count hcount ↦ hcount.1
  · rw [add_zero, shown_of_le _ _ le_rfl, take_of_length_le length_replicate.le]

/-! ## The searches -/

theorem Looks.le_length (hlooks : query.Looks pool hit bound) : bound ≤ query.blockHashes.length := by
  rcases eq_zero_or_pos bound with rfl | hpos
  · exact Nat.zero_le _
  · obtain ⟨_, hhash, -⟩ := hlooks (bound - 1) (by omega)
    have := (List.getElem?_eq_some_iff.1 hhash).1
    omega

theorem ends_eq_lengths (hit : ℕ → Option (List ℕ)) (alignment blockSize reach bound : ℕ) :
    ends hit (fun count ↦ alignment ∣ count * blockSize) reach bound =
      {count | count ≤ bound ∧ alignment ∣ count * blockSize ∧ Covered hit (count - reach) count} := by
  ext count
  refine and_congr_right fun _ ↦ and_congr_left fun _ ↦ ⟨fun h ↦ ?_, fun h _ ↦ h⟩
  rcases eq_zero_or_pos count with rfl | hpos
  · rw [zero_mul]
    exact dvd_zero alignment
  · exact h hpos

theorem found_shown {first count : ℕ} (hcov : Covered hit first count)
    (hfirst : first ≤ spec.firstNeeded count) (halign : query.alignmentTokens ∣ count * spec.blockSize)
    (hle : count ≤ query.maxLength / spec.blockSize)
    (heagle : query.useEagle = true → spec.kind.isMamba = false → 0 < count →
      count < query.maxLength / spec.blockSize)
    (hlast : 0 < count → (hit (if query.useEagle = true ∧ spec.kind.isMamba = false then count
      else count - 1)).isSome) (hreached : ∀ first numBlocks, spec.FitsFrom first numBlocks →
      query.alignmentTokens ∣ numBlocks * spec.blockSize →
      numBlocks < query.maxLength / spec.blockSize → Covered hit first (numBlocks + 1) → numBlocks ≤ count)
    (hmax : query.useEagle = false ∨ spec.kind.isMamba = true → first = spec.firstSought count ∧
      IsGreatest {numBlocks | numBlocks ≤ query.maxLength / spec.blockSize ∧
        query.alignmentTokens ∣ numBlocks * spec.blockSize ∧
        Covered hit (spec.firstSought numBlocks) numBlocks} count) :
    query.Found pool spec hit (shown hit (query.nullColumn pool) first count) := by
  have hpos (hne : shown hit (query.nullColumn pool) first count ≠ []) : 0 < count := by
    simpa using length_pos_iff.2 hne
  constructor <;> rw [length_shown]
  · exact halign
  · exact hle
  · exact fun hway hkind hne ↦ heagle hway hkind (hpos hne)
  · exact hcov.mono hfirst le_rfl
  · exact fun index hlow hhigh ↦ hcov.getElem?_shown (hfirst.trans hlow) hhigh
  · exact fun hne ↦ hlast (hpos hne)
  · exact hreached
  · exact fun hway ↦ ⟨by rw [(hmax hway).1], (hmax hway).2⟩

variable (hdcp : query.dcpWorldSize = 1) (hpcp : query.pcpWorldSize = 1)
  (hlooks : query.Looks pool hit (query.maxLength / spec.blockSize))
include hdcp hpcp hlooks

/-- `FullAttentionManager.find_longest_cache_hit` finds the cached blocks before the first miss. -/
theorem fullAttention_found (hkind : spec.kind.isFullAttention = true)
    (hgroups : query.kvCacheGroupIds ≠ []) :
    ∃ columns, query.fullAttention pool spec = .ok (query.perGroup columns) ∧
      query.Found pool spec hit columns := by
  obtain ⟨hback, hmamba⟩ := lookback_of_isFullAttention hkind
  have hlen := length_take_of_le hlooks.le_length
  obtain ⟨count, hcount, hhits, hcov, hmiss⟩ := prefixHits_eq hit _
    (query.blockHashes.take (query.maxLength / spec.blockSize)) fun index blockHash hhash ↦ by
      obtain ⟨hlt, -⟩ := List.getElem?_eq_some_iff.1 hhash
      obtain ⟨other, hother, hlookup⟩ := hlooks index (by omega)
      rw [getElem?_take_of_lt (by omega), hother] at hhash
      exact Option.some.inj hhash ▸ hlookup
  rw [hlen] at hcount hmiss
  -- No covered list of blocks is longer than the hits.
  have hlast (other : ℕ) (hother : other ≤ query.maxLength / spec.blockSize)
      (hall : Covered hit 0 other) : other ≤ count := by
    by_contra hlt
    have hsome := hall count (Nat.zero_le count) (not_le.1 hlt)
    rw [hmiss (by omega)] at hsome
    cases hsome
  let kept := if query.useEagle then count - 1 else count
  have hkept : kept ≤ count := by
    dsimp only [kept]
    split <;> omega
  have hdropped : (if query.useEagle = true then (shown hit (query.nullColumn pool) 0 count).dropLast
      else shown hit (query.nullColumn pool) 0 count) = shown hit (query.nullColumn pool) 0 kept := by
    dsimp only [kept]
    split
    · rw [dropLast_shown]
    · rfl
  obtain ⟨num, hnum, hpop, halign, hmax⟩ := query.popUnaligned_eq_take spec.blockSize _
  rw [length_shown] at hnum hmax
  rw [take_shown _ _ _ hnum] at hpop
  have hprefix := hcov.mono le_rfl (hnum.trans hkept)
  refine ⟨shown hit (query.nullColumn pool) 0 num, ?_, ?_⟩
  · rw [fullAttention, if_neg (by simp [hkind])]
    simp only [hdcp, hpcp, mul_one, lt_irrefl, if_false, hhits]
    rw [if_neg fun h ↦ hgroups h.1, hdropped, hpop]
  · apply found_shown hprefix (Nat.zero_le _) halign ((hnum.trans hkept).trans hcount)
    · intro heagle _ hpos
      have hkeptEq : kept = count - 1 := if_pos heagle
      omega
    · intro _
      apply hcov _ (Nat.zero_le _)
      dsimp only [kept] at hnum
      split
      · next hway =>
        rw [if_pos hway.1] at hnum
        omega
      · omega
    · intro first other hfits hdvd hlt hall
      rw [FitsFrom, hback] at hfits
      subst hfits
      have hle := hlast _ hlt hall
      apply hmax other _ hdvd
      dsimp only [kept]
      split <;> omega
    · intro hway
      have heagle := hway.resolve_right (by rw [hmamba]; exact Bool.false_ne_true)
      have hkeptEq : kept = count := if_neg (by rw [heagle]; exact Bool.false_ne_true)
      simp only [firstSought_of_none hback]
      refine ⟨trivial, ⟨(hnum.trans hkept).trans hcount, halign, hprefix⟩, fun other hother ↦ ?_⟩
      exact hmax other (hkeptEq ▸ hlast other hother.1 hother.2.2) hother.2.1

theorem mamba_found (hkind : spec.kind.isMamba = true) :
    ∃ columns, query.mamba pool spec = .ok (query.perGroup columns) ∧ query.Found pool spec hit columns := by
  have hback := lookback_of_isMamba hkind
  have hsought := firstSought_of_some hback
  obtain ⟨count, hhit, hmax⟩ := lastHit_eq _ hlooks le_rfl
  rw [ends_eq_lengths] at hmax
  have hcov := hmax.1.2.2
  refine ⟨shown hit (query.nullColumn pool) (count - 1) count, ?_, ?_⟩
  · unfold mamba
    split
    · rw [if_neg (not_not.2 hdcp), if_neg (not_not.2 hpcp), hhit]
      rfl
    · next => simp_all [SpecKind.isMamba]
  · apply found_shown hcov (firstNeeded_of_some hback count).ge hmax.1.2.1 hmax.1.1
    · intro _ hnot
      rw [hkind] at hnot
      cases hnot
    · intro _
      rw [if_neg fun h ↦ by rw [hkind] at h; cases h.2]
      exact hcov _ le_rfl (by omega)
    · intro first other hfits hdvd hlt hall
      have hfirst := hfits.le_firstSought
      rw [hsought] at hfirst
      exact hmax.2 ⟨hlt.le, hdvd, hall.mono hfirst (Nat.le_succ other)⟩
    · intro _
      simp only [hsought, max_self]
      exact ⟨trivial, hmax⟩

variable {window : ℕ} (hkind : spec.kind = .slidingWindow window ∨ spec.kind = .slidingWindowMLA window)
  (hgroups : query.kvCacheGroupIds ≠ [])
include hkind hgroups

omit hlooks in
/-- The end of the sliding-window search: the blocks of a match or of an incomplete window are aligned,
and with EAGLE the last of them is dropped. -/
theorem slidingWindow_eq {found : List (List ℕ)} {num : ℕ} {matchFound : Bool}
    (hhits : query.windowHits pool spec.blockSize
        (cdiv (window - 1) spec.blockSize + if query.useEagle then 1 else 0)
        (query.maxLength / spec.blockSize)
        (List.replicate (query.maxLength / spec.blockSize) (query.nullColumn pool)) 0 =
      .ok (found, num, matchFound)) :
    query.slidingWindow pool spec = .ok (query.perGroup
      (let trimmed := if matchFound then found else query.popUnaligned spec.blockSize (found.take num)
        if query.useEagle ∧ trimmed ≠ [] then query.popUnaligned spec.blockSize trimmed.dropLast
        else trimmed)) := by
  rcases hkind with hkind | hkind <;>
    simp only [slidingWindow, hkind, hdcp, hpcp, ne_eq, not_true_eq_false, if_false, hhits, hgroups,
      false_and]

/-- With EAGLE the search returns a complete window without the block behind it, or the beginning of an
incomplete one, which is aligned before and after its last block is dropped. -/
theorem slidingWindow_eagle (heagle : query.useEagle = true) :
    ∃ count, IsGreatest (ends hit (query.MayEnd spec.blockSize) (cdiv (window - 1) spec.blockSize + 1)
        (query.maxLength / spec.blockSize)) count ∧
      ((cdiv (window - 1) spec.blockSize < count ∧ query.slidingWindow pool spec = .ok (query.perGroup
          (shown hit (query.nullColumn pool) (count - (cdiv (window - 1) spec.blockSize + 1)) (count - 1)))) ∨
        count ≤ cdiv (window - 1) spec.blockSize ∧ ∃ kept ≤ count, ∃ num ≤ kept - 1,
          query.alignmentTokens ∣ kept * spec.blockSize ∧
          (∀ other ≤ count, query.alignmentTokens ∣ other * spec.blockSize → other ≤ kept) ∧
          query.alignmentTokens ∣ num * spec.blockSize ∧
          (∀ other ≤ kept - 1, query.alignmentTokens ∣ other * spec.blockSize → other ≤ num) ∧
          query.slidingWindow pool spec =
            .ok (query.perGroup (shown hit (query.nullColumn pool) 0 num))) := by
  obtain ⟨count, _, num, matchFound, hhits, hgreatest, hshown, hmatch⟩ :=
    windowHits_replicate _ _ hlooks
  have hsearch := slidingWindow_eq hdcp hpcp hkind hgroups hhits
  generalize cdiv (window - 1) spec.blockSize = blocks at hgreatest hmatch hsearch hshown ⊢
  have hmax := max_eq_left (Nat.le_add_left 1 blocks)
  simp only [heagle, if_true, true_and, hmax] at hsearch hgreatest hmatch hshown
  refine ⟨count, hgreatest, ?_⟩
  cases hfound : matchFound with
  | true =>
    have hreach := hmatch.1 hfound
    have halign : query.alignmentTokens ∣ (count - 1) * spec.blockSize := by
      have hdvd := hgreatest.1.2.1 (by omega)
      rwa [MayEnd, heagle] at hdvd
    have hne : shown hit (query.nullColumn pool) (count - (blocks + 1)) count ≠ [] := by
      rw [← length_pos_iff, length_shown]
      omega
    rw [hfound, if_pos rfl] at hshown
    rw [hfound, if_pos rfl, hshown, if_pos hne, dropLast_shown,
      popUnaligned_of_dvd (by rwa [length_shown])] at hsearch
    exact .inl ⟨hreach, hsearch⟩
  | false =>
    have hreach : ¬ blocks + 1 ≤ count := fun h ↦ by
      rw [hmatch.2 h] at hfound
      cases hfound
    have hfirst : count - (blocks + 1) = 0 := by omega
    rw [hfound, if_neg Bool.false_ne_true, hfirst] at hshown
    obtain ⟨kept, hkept, hpop, hkeptAligned, hkeptGreatest⟩ := query.popUnaligned_eq_take _ _
    rw [length_shown] at hkept hkeptGreatest
    rw [take_shown _ _ _ hkept] at hpop
    rw [hfound, if_neg Bool.false_ne_true, hshown, hpop] at hsearch
    obtain ⟨num, hnum, hpopAgain, halign, hnumGreatest⟩ := query.popUnaligned_eq_take _ _
    rw [length_shown] at hnum hnumGreatest
    rw [take_shown _ _ _ hnum] at hpopAgain
    have hfinal : (if shown hit (query.nullColumn pool) 0 kept ≠ [] then
        query.popUnaligned spec.blockSize (shown hit (query.nullColumn pool) 0 kept).dropLast
        else shown hit (query.nullColumn pool) 0 kept) = shown hit (query.nullColumn pool) 0 num := by
      split
      · rw [dropLast_shown, hpopAgain]
      · next hempty =>
        have hzero : kept = 0 := by
          rw [← length_shown hit _ 0 kept, not_not.1 hempty, length_nil]
        obtain rfl : num = 0 := by omega
        rw [hzero]
    rw [hfinal] at hsearch
    exact .inr ⟨by omega, kept, hkept, num, hnum, hkeptAligned, hkeptGreatest, halign, hnumGreatest, hsearch⟩

/-- `SlidingWindowManager.find_longest_cache_hit` finds the last covered window. With EAGLE it asks for
one block more, which it drops. -/
theorem slidingWindow_found :
    ∃ columns, query.slidingWindow pool spec = .ok (query.perGroup columns) ∧
      query.Found pool spec hit columns := by
  have hback : spec.lookback = some (cdiv (window - 1) spec.blockSize) := by
    rcases hkind with hkind | hkind <;> rw [lookback, hkind]
  have hmamba : spec.kind.isMamba = false := by
    rcases hkind with hkind | hkind <;> rw [hkind] <;> rfl
  have hneeded := firstNeeded_of_some hback
  have hsought := firstSought_of_some hback
  cases heagle : query.useEagle with
  | false =>
    obtain ⟨count, found, num, matchFound, hhits, hmax, hshown, -⟩ :=
      windowHits_replicate _ _ hlooks
    have hsearch := slidingWindow_eq hdcp hpcp hkind hgroups hhits
    have hmayEnd : query.MayEnd spec.blockSize =
        fun count ↦ query.alignmentTokens ∣ count * spec.blockSize := by
      funext other
      rw [MayEnd, heagle, if_neg Bool.false_ne_true]
    simp only [heagle, Bool.false_eq_true, if_false, false_and, add_zero] at hsearch hmax hshown
    rw [hmayEnd, ends_eq_lengths] at hmax
    obtain ⟨⟨hle, halign, hcov⟩, hupper⟩ := hmax
    have htrimmed : (if matchFound then found else query.popUnaligned spec.blockSize (found.take num)) =
        shown hit (query.nullColumn pool) (count - max (cdiv (window - 1) spec.blockSize) 1) count := by
      rw [← hshown]
      cases hfound : matchFound with
      | true => rfl
      | false =>
        rw [hfound, if_neg Bool.false_ne_true] at hshown
        exact popUnaligned_of_dvd (by rwa [hshown, length_shown])
    rw [htrimmed] at hsearch
    refine ⟨_, hsearch, found_shown hcov ?_ halign hle ?_ ?_ ?_ ?_⟩
    · rw [← hsought]
      exact spec.firstSought_le_firstNeeded count
    · rw [heagle]
      exact fun h ↦ absurd h Bool.false_ne_true
    · intro hpos
      rw [if_neg fun h ↦ by rw [heagle] at h; cases h.1]
      exact hcov _ (by omega) (by omega)
    · intro first other hfits hdvd hlt hall
      have hfirst := hfits.le_firstSought
      rw [hsought] at hfirst
      exact hupper ⟨hlt.le, hdvd, hall.mono hfirst (Nat.le_succ other)⟩
    · intro _
      simp only [hsought]
      exact ⟨trivial, ⟨hle, halign, hcov⟩, hupper⟩
  | true =>
    obtain ⟨count, ⟨⟨hle, hmayEnd, hcov⟩, hupper⟩, hres⟩ :=
      slidingWindow_eagle hdcp hpcp hlooks hkind hgroups heagle
    generalize cdiv (window - 1) spec.blockSize = blocks at hback hneeded hcov hupper hres
    have hway : query.useEagle = false ∨ spec.kind.isMamba = true → False := by
      rw [heagle, hmamba]
      simp
    -- A length that is reached ends a complete window together with the block that is dropped.
    have hreached (first other : ℕ) (hfits : spec.FitsFrom first other)
        (hdvd : query.alignmentTokens ∣ other * spec.blockSize)
        (hlt : other < query.maxLength / spec.blockSize) (hall : Covered hit first (other + 1)) :
        other + 1 ≤ count ∧ blocks + 1 ≤ count := by
      rw [FitsFrom, hback] at hfits
      have hmem : other + 1 ≤ count := by
        apply hupper
        refine ⟨hlt, fun _ ↦ ?_, hall.mono (by omega) le_rfl⟩
        rw [MayEnd, heagle]
        exact hdvd
      omega
    rcases hres with ⟨hreach, hsearch⟩ | ⟨hreach, kept, hkept, num, hnum, -, -, halign, -, hsearch⟩
    · have halign : query.alignmentTokens ∣ (count - 1) * spec.blockSize := by
        have hdvd := hmayEnd (by omega)
        rwa [MayEnd, heagle] at hdvd
      refine ⟨_, hsearch, found_shown (hcov.mono le_rfl (Nat.sub_le count 1)) ?_ halign ?_ ?_ ?_ ?_
        fun h ↦ (hway h).elim⟩
      · rw [hneeded]
        omega
      · omega
      · omega
      · intro _
        rw [if_pos ⟨heagle, hmamba⟩]
        exact hcov _ (by omega) (by omega)
      · intro first other hfits hdvd hlt hall
        have := hreached first other hfits hdvd hlt hall
        omega
    · rw [show count - (blocks + 1) = 0 by omega] at hcov
      refine ⟨_, hsearch, found_shown (hcov.mono le_rfl (by omega)) (Nat.zero_le _) halign (by omega)
        ?_ ?_ ?_ fun h ↦ (hway h).elim⟩
      · omega
      · intro hpos
        rw [if_pos ⟨heagle, hmamba⟩]
        exact hcov num (Nat.zero_le num) (by omega)
      · intro first other hfits hdvd hlt hall
        have := (hreached first other hfits hdvd hlt hall).2
        omega

end HitQuery

end Nelssa.Core
