import Mathlib.Data.Countable.Basic
import Mathlib.Logic.Equiv.List
import Nelssa.Core.BlockHashing
import Nelssa.Foundation.HashChain

/-!
# Prefix-cache isolation

Two requests share a cached block when their block hashes agree. With an injective hash function the
hash of a block determines the token ids and the extra keys of all blocks up to it. What the keys
determine is less than what the requests were asked to keep apart: in the first block a LoRA name
without a salt and a salt without a LoRA name give the same keys, an empty salt counts as none, and the
blocks hashed after the first call only see the last multi-modal item.
-/

namespace Nelssa.Core.BlockHashing

open Foundation.HashChain
open List hiding min not_le

variable {ε : Type*} {hasher : Hasher ε} {startTokenIdx endTokenIdx : ℕ} {features : List MmFeature}

/-! ## The multi-modal items of a block -/

namespace MmFeature

/-- The item has placeholder tokens in the block. -/
def Overlaps (startTokenIdx endTokenIdx : ℕ) (feature : MmFeature) : Prop :=
  feature.offset < endTokenIdx ∧ startTokenIdx < feature.offset + feature.length

instance (startTokenIdx endTokenIdx : ℕ) :
    DecidablePred (Overlaps startTokenIdx endTokenIdx) := fun feature ↦
  inferInstanceAs (Decidable (feature.offset < endTokenIdx ∧ startTokenIdx < feature.offset + feature.length))

/-- The item begins and ends before the end of the block. -/
def EndsBy (endTokenIdx : ℕ) (feature : MmFeature) : Prop :=
  feature.offset < endTokenIdx ∧ feature.offset + feature.length ≤ endTokenIdx

instance (endTokenIdx : ℕ) : DecidablePred (EndsBy endTokenIdx) := fun feature ↦
  inferInstanceAs (Decidable (feature.offset < endTokenIdx ∧ feature.offset + feature.length ≤ endTokenIdx))

/-- The identifier of an item with its offset relative to a position. -/
def relativeTo (startTokenIdx : ℕ) (feature : MmFeature) : String × ℤ :=
  (feature.identifier, (feature.offset : ℤ) - startTokenIdx)

end MmFeature

open MmFeature

/-- The items with tokens in the block, up to the first item that goes on behind the block. -/
def walkedItems (startTokenIdx endTokenIdx : ℕ) (features : List MmFeature) : List MmFeature :=
  (features.takeWhile (EndsBy endTokenIdx) ++
    (features.dropWhile (EndsBy endTokenIdx)).take 1).filter
      (Overlaps startTokenIdx endTokenIdx)

def mmKey (startTokenIdx : ℕ) (feature : MmFeature) : ExtraKey :=
  .mmItem feature.identifier ((feature.offset : ℤ) - startTokenIdx)

variable {feature : MmFeature}

theorem walkedItems_cons_of_endsBy (hends : feature.EndsBy endTokenIdx) (rest : List MmFeature) :
    walkedItems startTokenIdx endTokenIdx (feature :: rest) =
      [feature].filter (Overlaps startTokenIdx endTokenIdx) ++
        walkedItems startTokenIdx endTokenIdx rest := by
  rw [walkedItems, walkedItems, takeWhile_cons_of_pos (by simpa using hends),
    dropWhile_cons_of_pos (by simpa using hends), cons_append, ← singleton_append,
    filter_append]

theorem walkedItems_cons_of_not_endsBy (hends : ¬ feature.EndsBy endTokenIdx) (rest : List MmFeature) :
    walkedItems startTokenIdx endTokenIdx (feature :: rest) =
      [feature].filter (Overlaps startTokenIdx endTokenIdx) := by
  rw [walkedItems, takeWhile_cons_of_neg (by simpa using hends), dropWhile_cons_of_neg (by simpa using hends)]
  rfl

/-- The loop collects the walked items and stops behind items that end in the block. -/
theorem mmLoop_spec (hlt : startTokenIdx < endTokenIdx) (features : List MmFeature) (currMmIdx : ℕ) :
    ∃ passed, mmLoop startTokenIdx endTokenIdx features currMmIdx =
        ((walkedItems startTokenIdx endTokenIdx features).map (mmKey startTokenIdx), currMmIdx + passed) ∧
      ∀ feature ∈ features.take passed, feature.offset + feature.length ≤ endTokenIdx := by
  induction features generalizing currMmIdx with
  | nil => exact ⟨0, rfl, by simp⟩
  | cons feature rest ih =>
    obtain ⟨passed, hloop, hpassed⟩ := ih _
    have hnext : feature.offset + feature.length ≤ endTokenIdx →
        ∀ other ∈ (feature :: rest).take (passed + 1), other.offset + other.length ≤ endTokenIdx := by
      intro hends other hother
      rcases mem_cons.1 hother with rfl | hother
      · exact hends
      · exact hpassed other hother
    have hidx : currMmIdx + 1 + passed = currMmIdx + (passed + 1) := by omega
    unfold mmLoop
    by_cases hoff : feature.offset < endTokenIdx
    · by_cases hbefore : feature.offset + feature.length ≤ startTokenIdx
      · have hends : feature.EndsBy endTokenIdx := ⟨hoff, by omega⟩
        have hapart : ¬ feature.Overlaps startTokenIdx endTokenIdx := fun h ↦ by
          have := h.2
          omega
        refine ⟨passed + 1, ?_, hnext hends.2⟩
        rw [if_pos hoff, if_pos hbefore, hloop, walkedItems_cons_of_endsBy hends, hidx]
        simp [hapart]
      · have hoverlaps : feature.Overlaps startTokenIdx endTokenIdx := ⟨hoff, by omega⟩
        by_cases hends : feature.offset + feature.length ≤ endTokenIdx
        · refine ⟨passed + 1, ?_, hnext hends⟩
          rw [if_pos hoff, if_neg hbefore, if_pos hends, hloop,
            walkedItems_cons_of_endsBy ⟨hoff, hends⟩, hidx]
          simp [hoverlaps, mmKey]
        · rw [if_pos hoff, if_neg hbefore, if_neg hends, walkedItems_cons_of_not_endsBy fun h ↦ hends h.2]
          simp [hoverlaps, mmKey]
    · have hapart : ¬ feature.Overlaps startTokenIdx endTokenIdx := fun h ↦ hoff h.1
      rw [if_neg hoff, walkedItems_cons_of_not_endsBy fun h ↦ hoff h.1]
      simp [hapart]

theorem walkedItems_drop (hlt : startTokenIdx < endTokenIdx) {passed : ℕ}
    (hpassed : ∀ feature ∈ features.take passed, feature.offset + feature.length ≤ startTokenIdx) :
    walkedItems startTokenIdx endTokenIdx (features.drop passed) =
      walkedItems startTokenIdx endTokenIdx features := by
  induction features generalizing passed with
  | nil => simp
  | cons feature rest ih =>
    cases passed with
    | zero => rfl
    | succ passed =>
      have hfeature := hpassed feature (by simp)
      have hends : feature.EndsBy endTokenIdx := ⟨by omega, by omega⟩
      have hapart : ¬ feature.Overlaps startTokenIdx endTokenIdx := fun h ↦ by
        have := h.2
        omega
      rw [drop_succ_cons, walkedItems_cons_of_endsBy hends,
        ih fun other hother ↦ hpassed other (mem_cons_of_mem feature hother)]
      simp [hapart]

/-- The items in the keys of a block when the walk begins with the item at index `base`. -/
def hashedItems (features : List MmFeature) (base startTokenIdx endTokenIdx : ℕ) : List MmFeature :=
  match features.getLast? with
  | none => []
  | some last =>
    if last.offset + last.length ≤ startTokenIdx then []
    else walkedItems startTokenIdx endTokenIdx (features.drop base)

/-- The index that one block hands to the next: all items from `base` up to it have ended. -/
def Resumes (features : List MmFeature) (base startTokenIdx : ℕ) (mmIdx : ℤ) : Prop :=
  (mmIdx = -1 ∧ base = features.length - 1) ∨
    ∃ passed : ℕ, mmIdx = (base + passed : ℕ) ∧
      ∀ feature ∈ (features.drop base).take passed, feature.offset + feature.length ≤ startTokenIdx

variable {mmIdx : ℤ}

theorem Resumes.mono {base : ℕ} (hresumes : Resumes features base startTokenIdx mmIdx)
    (hle : startTokenIdx ≤ endTokenIdx) : Resumes features base endTokenIdx mmIdx :=
  hresumes.imp_right fun ⟨passed, hidx, hpassed⟩ ↦
    ⟨passed, hidx, fun feature hfeature ↦ (hpassed feature hfeature).trans hle⟩

theorem genMmExtraHashKeys_spec (req : Request ε) {base : ℕ} (hlt : startTokenIdx < endTokenIdx)
    (hresumes : Resumes req.mmFeatures base startTokenIdx mmIdx) :
    ∃ nextMmIdx, genMmExtraHashKeys req startTokenIdx endTokenIdx mmIdx =
        .ok ((hashedItems req.mmFeatures base startTokenIdx endTokenIdx).map (mmKey startTokenIdx),
          nextMmIdx) ∧
      Resumes req.mmFeatures base endTokenIdx nextMmIdx := by
  unfold genMmExtraHashKeys hashedItems
  cases hlast : req.mmFeatures.getLast? with
  | none => exact ⟨mmIdx, rfl, hresumes.mono hlt.le⟩
  | some last =>
    have hlen : 0 < req.mmFeatures.length := by
      rw [length_pos_iff]
      rintro hnil
      rw [hnil] at hlast
      cases hlast
    by_cases hover : last.offset + last.length ≤ startTokenIdx
    · exact ⟨mmIdx, by simp [hover], hresumes.mono hlt.le⟩
    · simp only [hover, if_false]
      rcases hresumes with ⟨rfl, rfl⟩ | ⟨passed, rfl, hpassed⟩
      · obtain ⟨passed, hloop, hpassed⟩ := mmLoop_spec hlt _ _
        have hcurr : ((req.mmFeatures.length : ℤ) + -1).toNat = req.mmFeatures.length - 1 := by
          omega
        have hassert : ¬ ((-1 : ℤ) < 0 ∧ (req.mmFeatures.length : ℤ) < - -1) := by omega
        rw [if_neg hassert, if_pos (by decide), hcurr, hloop]
        exact ⟨_, rfl, .inr ⟨passed, rfl, hpassed⟩⟩
      · obtain ⟨further, hloop, hfurther⟩ := mmLoop_spec hlt _ _
        have hnonneg : ¬ ((base + passed : ℕ) : ℤ) < 0 := by omega
        rw [if_neg hnonneg, Int.toNat_natCast, hloop, ← drop_drop, walkedItems_drop hlt hpassed]
        refine ⟨_, rfl, .inr ⟨passed + further, by rw [add_assoc], fun feature hfeature ↦ ?_⟩⟩
        rw [take_add, mem_append, drop_drop] at hfeature
        exact hfeature.elim (fun h ↦ (hpassed feature h).trans hlt.le) (hfurther feature)

/-! ## The content of a block -/

/-- The tuple of extra keys, or `None` when there are none. -/
def keyTuple (keys : List ExtraKey) : Option (List ExtraKey) := if keys = [] then none else some keys

section

variable (hasher : Hasher ε) (req : Request ε)

/-- The extra keys of a block when the walk begins with the item at index `base`. -/
def keysFrom (base block : ℕ) : List ExtraKey :=
  let startTokenIdx := block * hasher.blockSize
  let endTokenIdx := startTokenIdx + hasher.blockSize
  genLoraExtraHashKeys req ++
    (hashedItems req.mmFeatures base startTokenIdx endTokenIdx).map (mmKey startTokenIdx) ++
    cacheSaltKeys req startTokenIdx ++
    genPromptEmbedsExtraHashKeys hasher req startTokenIdx endTokenIdx

/-- The token ids and the extra keys that are hashed for a block. -/
def contentFrom (base block : ℕ) : List ℕ × Option (List ExtraKey) :=
  ((req.allTokenIds.take (block * hasher.blockSize + hasher.blockSize)).drop (block * hasher.blockSize),
    keyTuple (keysFrom hasher req base block))

/-- The hash of a block as a chain over the contents of the blocks. -/
def digest (content : ℕ → List ℕ × Option (List ExtraKey)) : ℕ → BlockHash :=
  chain (fun parent content ↦ hasher.cachingHashFn (parent, content)) hasher.noneHash content

/-- The first item that the hash of a block can include: in the blocks hashed by the first call all
items count, later only the last one. -/
def firstItem (firstBatch block : ℕ) : ℕ := if block < firstBatch then 0 else req.mmFeatures.length - 1

def blockContent (firstBatch block : ℕ) : List ℕ × Option (List ExtraKey) :=
  contentFrom hasher req (firstItem req firstBatch block) block

def blockDigest (firstBatch : ℕ) : ℕ → BlockHash := digest hasher (blockContent hasher req firstBatch)

end

variable {block : ℕ}

theorem generateBlockHashExtraKeys_spec (hasher : Hasher ε) (req : Request ε) {base : ℕ}
    (hresumes : Resumes req.mmFeatures base (block * hasher.blockSize) mmIdx) :
    ∃ nextMmIdx, generateBlockHashExtraKeys hasher req (block * hasher.blockSize)
        (block * hasher.blockSize + hasher.blockSize) mmIdx =
          .ok (keyTuple (keysFrom hasher req base block), nextMmIdx) ∧
      Resumes req.mmFeatures base ((block + 1) * hasher.blockSize) nextMmIdx := by
  have hlt : block * hasher.blockSize < block * hasher.blockSize + hasher.blockSize :=
    Nat.lt_add_of_pos_right hasher.blockSize_pos
  obtain ⟨nextMmIdx, hkeys, hnext⟩ := genMmExtraHashKeys_spec req hlt hresumes
  refine ⟨nextMmIdx, ?_, by rwa [Nat.succ_mul]⟩
  rw [generateBlockHashExtraKeys, hkeys]
  rfl

/-! ## The hasher computes the chain -/

/-- The assumptions on the two hash functions: they do not collide and digests are not empty. -/
structure Hasher.Ideal (hasher : Hasher ε) : Prop where
  injective : Function.Injective hasher.cachingHashFn
  nonempty : ∀ input, hasher.cachingHashFn input ≠ []
  embeds_injective : Function.Injective hasher.sha256

theorem injective2_of_injective (hinjective : Function.Injective hasher.cachingHashFn) : Function.Injective2
    fun parent (content : List ℕ × Option (List ExtraKey)) ↦ hasher.cachingHashFn (parent, content) :=
  fun _ _ _ _ h ↦ Prod.mk.inj (hinjective h)

variable (hnonempty : ∀ input, hasher.cachingHashFn input ≠ [])

variable {content : ℕ → List ℕ × Option (List ExtraKey)}

section

include hnonempty

theorem hashBlockTokens_eq (block : ℕ) :
    hashBlockTokens hasher ((range block).map (digest hasher content)).getLast? (content block).1
      (content block).2 = digest hasher content block := by
  cases block with
  | zero => rfl
  | succ block =>
    have hparent : digest hasher content block ≠ [] := by
      cases block <;> exact hnonempty _
    rw [range_succ, map_append, map_singleton, getLast?_concat, hashBlockTokens]
    simp only [hparent, if_false]
    rfl

variable (req : Request ε)

theorem hashLoop_spec (base count : ℕ) (hcount : block + count = req.allTokenIds.length / hasher.blockSize)
    (hcontent : ∀ index, block ≤ index → index < block + count →
      content index = contentFrom hasher req base index)
    (hresumes : Resumes req.mmFeatures base (block * hasher.blockSize) mmIdx) :
    hashLoop hasher req (block * hasher.blockSize) mmIdx
        ((range block).map (digest hasher content)).getLast? =
      .ok ((range' block count).map (digest hasher content)) := by
  induction count generalizing block mmIdx with
  | zero =>
    have hshort : req.allTokenIds.length < block * hasher.blockSize + hasher.blockSize := by
      rw [← Nat.succ_mul, ← Nat.div_lt_iff_lt_mul hasher.blockSize_pos]
      omega
    unfold hashLoop
    simp [hshort]
  | succ count ih =>
    have hlong : ¬ req.allTokenIds.length < block * hasher.blockSize + hasher.blockSize := by
      rw [← Nat.succ_mul, ← Nat.div_lt_iff_lt_mul hasher.blockSize_pos]
      omega
    obtain ⟨_, hkeys, hnext⟩ := generateBlockHashExtraKeys_spec hasher req hresumes
    have hprev : some (digest hasher content block) =
        ((range (block + 1)).map (digest hasher content)).getLast? := by
      rw [range_succ, map_append, map_singleton, getLast?_concat]
    have hrest := ih (by omega) (fun index hle hlt ↦ hcontent index (by omega) (by omega)) hnext
    have hhash : hashBlockTokens hasher ((range block).map (digest hasher content)).getLast?
        (contentFrom hasher req base block).1 (contentFrom hasher req base block).2 =
        digest hasher content block := by
      rw [← hcontent block le_rfl (by omega)]
      exact hashBlockTokens_eq hnonempty block
    simp only [contentFrom] at hhash
    rw [hashLoop]
    simp only [hlong, if_false, hkeys, hhash]
    rw [hprev, ← Nat.succ_mul, hrest]
    rfl

/-- New full blocks are hashed with all items if no block was hashed before, and with the last item
otherwise. -/
theorem updateBlockHashes_spec {numHashed : ℕ}
    (hhashes : req.blockHashes = (range numHashed).map (digest hasher content))
    (hcontent : ∀ block, numHashed ≤ block → block < req.allTokenIds.length / hasher.blockSize →
      content block = contentFrom hasher req (if numHashed = 0 then 0 else req.mmFeatures.length - 1) block) :
    updateBlockHashes hasher req = .ok { req with
      blockHashes := (range (max numHashed (req.allTokenIds.length / hasher.blockSize))).map
        (digest hasher content) } := by
  have hlen : req.blockHashes.length = numHashed := by simp [hhashes]
  have hhasher : requestBlockHasher hasher req = .ok ((range' numHashed
      (req.allTokenIds.length / hasher.blockSize - numHashed)).map (digest hasher content)) := by
    unfold requestBlockHasher
    rw [hlen, hhashes]
    by_cases hshort : req.allTokenIds.length < numHashed * hasher.blockSize + hasher.blockSize
    · have hnone : req.allTokenIds.length / hasher.blockSize - numHashed = 0 := by
        rw [← Nat.succ_mul, ← Nat.div_lt_iff_lt_mul hasher.blockSize_pos] at hshort
        omega
      simp [hshort, hnone]
    · have hle : numHashed ≤ req.allTokenIds.length / hasher.blockSize := by
        rw [← Nat.succ_mul, ← Nat.div_lt_iff_lt_mul hasher.blockSize_pos] at hshort
        omega
      simp only [hshort, if_false]
      refine hashLoop_spec hnonempty req _ _ (Nat.add_sub_cancel' hle)
        (fun index hge hlt ↦ hcontent index hge (by omega)) ?_
      by_cases hzero : numHashed = 0
      · exact .inr ⟨0, by simp [hzero], by simp⟩
      · have hpos := Nat.mul_pos (Nat.pos_of_ne_zero hzero) hasher.blockSize_pos
        exact .inl ⟨by simp [hpos], if_neg hzero⟩
  have hrange : range (max numHashed (req.allTokenIds.length / hasher.blockSize)) = range numHashed ++
      range' numHashed (req.allTokenIds.length / hasher.blockSize - numHashed) := by
    have hmax : max numHashed (req.allTokenIds.length / hasher.blockSize) =
        numHashed + (req.allTokenIds.length / hasher.blockSize - numHashed) := by
      omega
    rw [hmax, range_eq_range', range_eq_range', ← range'_append_1, zero_add]
  rw [updateBlockHashes, hhasher, hrange, map_append, ← hhashes]

end

/-- The request whose full blocks are hashed, the first ones in one call for `firstBatch` blocks. -/
def Hashed (hasher : Hasher ε) (req : Request ε) (firstBatch : ℕ) : Prop :=
  req.blockHashes = (range (req.allTokenIds.length / hasher.blockSize)).map
    (blockDigest hasher req firstBatch)

include hnonempty in
theorem updateBlockHashes_firstBatch (req : Request ε) {firstBatch numHashed : ℕ}
    (hle : numHashed ≤ req.allTokenIds.length / hasher.blockSize) (hhashes : req.blockHashes =
      (range numHashed).map (blockDigest hasher req firstBatch))
    (hfirst : if numHashed = 0 then firstBatch = req.allTokenIds.length / hasher.blockSize
      else firstBatch ≤ numHashed) :
    ∃ hashes, updateBlockHashes hasher req = .ok { req with blockHashes := hashes } ∧
      Hashed hasher { req with blockHashes := hashes } firstBatch := by
  refine ⟨_, updateBlockHashes_spec hnonempty req hhashes fun block hge hlt ↦ ?_, ?_⟩
  · rw [blockContent, firstItem]
    split_ifs at hfirst ⊢ <;> first | rfl | omega
  · rw [max_eq_right hle]
    rfl

/-! ## Appended output tokens -/

/-- The number of blocks in the first call that hashes any, after a call that sees `numTokens`. -/
def nextBatch (blockSize firstBatch numTokens : ℕ) : ℕ :=
  if firstBatch = 0 then numTokens / blockSize else firstBatch

theorem blockDigest_append (hasher : Hasher ε) (req : Request ε) (tokenIds : List ℕ) (firstBatch : ℕ)
    (hblock : block < req.allTokenIds.length / hasher.blockSize) :
    blockDigest hasher { req with allTokenIds := req.allTokenIds ++ tokenIds } firstBatch block =
      blockDigest hasher req firstBatch block := by
  apply chain_congr
  intro index _
  have hroom : index * hasher.blockSize + hasher.blockSize ≤ req.allTokenIds.length := by
    rw [← Nat.succ_mul, ← Nat.le_div_iff_mul_le hasher.blockSize_pos]
    omega
  simp only [blockContent, contentFrom, take_append_of_le_length hroom]
  rfl

include hnonempty in
theorem appendOutputTokenIds_spec {req : Request ε} {firstBatch : ℕ}
    (hhashed : Hashed hasher req firstBatch) (hle : firstBatch ≤ req.allTokenIds.length / hasher.blockSize)
    (hzero : firstBatch = 0 → req.allTokenIds.length / hasher.blockSize = 0) (tokenIds : List ℕ) :
    ∃ hashes, appendOutputTokenIds hasher req tokenIds =
        .ok { req with allTokenIds := req.allTokenIds ++ tokenIds, blockHashes := hashes } ∧
      Hashed hasher { req with allTokenIds := req.allTokenIds ++ tokenIds, blockHashes := hashes }
        (nextBatch hasher.blockSize firstBatch (req.allTokenIds.length + tokenIds.length)) := by
  have hgrow : req.allTokenIds.length / hasher.blockSize ≤
      (req.allTokenIds ++ tokenIds).length / hasher.blockSize := by
    rw [length_append]
    exact Nat.div_le_div_right (Nat.le_add_right _ _)
  refine updateBlockHashes_firstBatch hnonempty _ hgrow ?_ ?_
  · refine hhashed.trans (map_congr_left fun block hblock ↦ ?_)
    have hlt := mem_range.1 hblock
    have hbatch : nextBatch hasher.blockSize firstBatch
        (req.allTokenIds.length + tokenIds.length) = firstBatch :=
      if_neg fun h ↦ by
        omega
    rw [hbatch, blockDigest_append hasher req tokenIds firstBatch hlt]
  · by_cases hfirst : firstBatch = 0
    · rw [if_pos (hzero hfirst), nextBatch, if_pos hfirst, length_append]
    · rw [if_neg (by omega), nextBatch, if_neg hfirst]
      exact hle

namespace History

/-- The number of blocks in the first call that hashes any, after the remaining calls. -/
def batchAfter (blockSize : ℕ) : List (List ℕ) → ℕ → ℕ → ℕ
  | [], _, firstBatch => firstBatch
  | tokenIds :: rest, numTokens, firstBatch =>
    batchAfter blockSize rest (numTokens + tokenIds.length)
      (nextBatch blockSize firstBatch (numTokens + tokenIds.length))

/-- The number of blocks that were full when the first block was hashed. -/
def firstBatch (history : History ε) (blockSize : ℕ) : ℕ :=
  batchAfter blockSize history.outputs history.promptTokenIds.length
    (history.promptTokenIds.length / blockSize)

def current (history : History ε) : Request ε :=
  { history with allTokenIds := history.allTokenIds, blockHashes := [] }

section

include hnonempty

theorem foldlM_appendOutputTokenIds (outputs : List (List ℕ)) {req : Request ε} {firstBatch : ℕ}
    (hhashed : Hashed hasher req firstBatch) (hle : firstBatch ≤ req.allTokenIds.length / hasher.blockSize)
    (hzero : firstBatch = 0 → req.allTokenIds.length / hasher.blockSize = 0) :
    ∃ hashes, outputs.foldlM (appendOutputTokenIds hasher) req =
        .ok { req with allTokenIds := req.allTokenIds ++ outputs.flatten, blockHashes := hashes } ∧
      Hashed hasher { req with allTokenIds := req.allTokenIds ++ outputs.flatten, blockHashes := hashes }
        (batchAfter hasher.blockSize outputs req.allTokenIds.length firstBatch) := by
  induction outputs generalizing req firstBatch with
  | nil =>
    rw [flatten_nil, append_nil]
    exact ⟨req.blockHashes, rfl, hhashed⟩
  | cons tokenIds rest ih =>
    obtain ⟨_, happend, hnext⟩ := appendOutputTokenIds_spec hnonempty hhashed hle hzero tokenIds
    have hgrow : req.allTokenIds.length / hasher.blockSize ≤
        (req.allTokenIds.length + tokenIds.length) / hasher.blockSize :=
      Nat.div_le_div_right (Nat.le_add_right _ _)
    have hbatch := ih hnext
    simp only [length_append, append_assoc] at hbatch
    rw [foldlM_cons, happend]
    refine hbatch ?_ ?_
    · unfold nextBatch
      split
      · exact le_rfl
      · exact hle.trans hgrow
    · unfold nextBatch
      split
      · exact id
      · exact fun h ↦ absurd h ‹_›

theorem request_spec (history : History ε) :
    history.request hasher = .ok { history.current with
      blockHashes := (range (history.allTokenIds.length / hasher.blockSize)).map
        (blockDigest hasher history.current (history.firstBatch hasher.blockSize)) } := by
  have hcreated : ∃ hashes, updateBlockHashes hasher history.unhashed =
      .ok { history.unhashed with blockHashes := hashes } ∧
      Hashed hasher { history.unhashed with blockHashes := hashes }
        (history.promptTokenIds.length / hasher.blockSize) :=
    updateBlockHashes_firstBatch hnonempty history.unhashed (Nat.zero_le _) rfl (by rfl)
  obtain ⟨hashes, hupdate, hhashed⟩ := hcreated
  obtain ⟨_, hfold, hfinal⟩ := foldlM_appendOutputTokenIds hnonempty _ hhashed (le_refl _) id
  rw [request, hupdate]
  dsimp only
  rw [hfold]
  exact congrArg (fun hashes ↦ Except.ok _) hfinal

end

def blockHashAt (history : History ε) (hasher : Hasher ε) (block : ℕ) : Option BlockHash :=
  match history.request hasher with
  | .error _ => none
  | .ok req => req.blockHashes[block]?

end History

/-! ## What the extra keys determine -/

namespace Request

variable (req : Request ε) (blockSize block : ℕ)

/-- The salt that takes part in the hash. -/
def saltKey : Option String := req.cacheSalt.filter (· ≠ "")

/-- The identifiers and relative offsets of the items with tokens in a block. -/
def itemsIn : List (String × ℤ) :=
  (req.mmFeatures.filter (Overlaps (block * blockSize) (block * blockSize + blockSize))).map
    (relativeTo (block * blockSize))

/-- Those of the items in the hash of a block when the walk begins with the item at index `base`. -/
def hashedFrom (base : ℕ) : List (String × ℤ) :=
  (hashedItems req.mmFeatures base (block * blockSize) (block * blockSize + blockSize)).map
    (relativeTo (block * blockSize))

def tokensIn : List ℕ := (req.allTokenIds.take (block * blockSize + blockSize)).drop (block * blockSize)

def embedsIn : Option (List ε) :=
  req.promptEmbeds.map fun embeds ↦
    (embeds.take (block * blockSize + blockSize)).drop (block * blockSize)

end Request

/-- The concatenation of the keys of a block. -/
def concatKeys (lora : Option String) (items : List (String × ℤ)) (salt : Option String)
    (embeds : Option (List UInt8)) : List ExtraKey :=
  lora.toList.map .str ++ items.map (fun item ↦ .mmItem item.1 item.2) ++ salt.toList.map .str ++
    embeds.toList.map .bytes

/-- A LoRA name without a salt on one side and the same salt without a LoRA name on the other. -/
def Swapped (lora salt lora' salt' : Option String) : Prop :=
  ∃ name, lora = some name ∧ salt = none ∧ lora' = none ∧ salt' = some name

/-- The multi-modal and embedding keys can be told from the two strings, the strings from each other
only if a multi-modal key stands between them or both are present. -/
theorem concatKeys_eq_iff (lora lora' salt salt' : Option String) (items items' : List (String × ℤ))
    (embeds embeds' : Option (List UInt8)) :
    concatKeys lora items salt embeds = concatKeys lora' items' salt' embeds' ↔
      items = items' ∧ embeds = embeds' ∧ ((lora = lora' ∧ salt = salt') ∨
        items = [] ∧ (Swapped lora salt lora' salt' ∨ Swapped lora' salt' lora salt)) := by
  constructor
  · intro h
    have hitems : items = items' := by
      have hfilter := congrArg (filterMap fun
        | .mmItem identifier offset => some (identifier, offset)
        | _ => none) h
      simpa [concatKeys] using hfilter
    have hembeds : embeds = embeds' := by
      have hfilter := congrArg (filterMap fun
        | .bytes value => some value
        | _ => none) h
      have hlists : embeds.toList = embeds'.toList := by
        simpa [concatKeys] using hfilter
      simpa using congrArg head? hlists
    subst hitems hembeds
    have hstrings := append_cancel_right h
    cases items with
    | nil =>
      cases lora <;> cases lora' <;> cases salt <;> cases salt' <;> simp_all [Swapped]
    | cons item rest =>
      -- A string in front of the first item is the LoRA name, and the rest is the salt.
      cases lora <;> cases lora' <;> cases salt <;> cases salt' <;> simp_all
  · rintro ⟨rfl, rfl, ⟨rfl, rfl⟩ | ⟨rfl, ⟨name, rfl, rfl, rfl, rfl⟩ | ⟨name, rfl, rfl, rfl, rfl⟩⟩⟩
    · rfl
    · rfl
    · rfl

theorem keyTuple_injective : Function.Injective keyTuple := by
  intro keys others h
  unfold keyTuple at h
  split at h <;> split at h <;> simp_all

theorem keysFrom_eq (hasher : Hasher ε) (req : Request ε) (base block : ℕ) :
    keysFrom hasher req base block = concatKeys req.loraName (req.hashedFrom hasher.blockSize block base)
      (if block = 0 then req.saltKey else none)
      ((req.embedsIn hasher.blockSize block).map hasher.sha256) := by
  have hlora : genLoraExtraHashKeys req = req.loraName.toList.map .str := by
    unfold genLoraExtraHashKeys
    cases req.loraName <;> rfl
  have hsalt : cacheSaltKeys req (block * hasher.blockSize) =
      (if block = 0 then req.saltKey else none).toList.map .str := by
    have hstart : block * hasher.blockSize = 0 ↔ block = 0 :=
      Nat.mul_eq_zero.trans (or_iff_left hasher.blockSize_pos.ne')
    unfold cacheSaltKeys Request.saltKey
    cases req.cacheSalt with
    | none => simp
    | some salt => by_cases hblock : block = 0 <;> by_cases hempty : salt = "" <;>
        simp [hstart, hblock, hempty, Option.filter]
  have hembeds : genPromptEmbedsExtraHashKeys hasher req (block * hasher.blockSize)
      (block * hasher.blockSize + hasher.blockSize) =
      ((req.embedsIn hasher.blockSize block).map hasher.sha256).toList.map .bytes := by
    unfold genPromptEmbedsExtraHashKeys Request.embedsIn
    cases req.promptEmbeds <;> rfl
  rw [keysFrom, hlora, hsalt, hembeds, concatKeys, Request.hashedFrom, map_map]
  rfl

/-- Two blocks are hashed with the same content exactly if tokens, hashed items and embeddings agree and so
do the strings, unless they are exchanged. -/
theorem contentFrom_eq_iff (hideal : hasher.Ideal) (left right : Request ε) (base base' block : ℕ) :
    contentFrom hasher left base block = contentFrom hasher right base' block ↔
      left.tokensIn hasher.blockSize block = right.tokensIn hasher.blockSize block ∧
      left.hashedFrom hasher.blockSize block base = right.hashedFrom hasher.blockSize block base' ∧
      left.embedsIn hasher.blockSize block = right.embedsIn hasher.blockSize block ∧
      ((left.loraName = right.loraName ∧ (block = 0 → left.saltKey = right.saltKey)) ∨
        block = 0 ∧ left.hashedFrom hasher.blockSize 0 base = [] ∧
          (Swapped left.loraName left.saltKey right.loraName right.saltKey ∨
            Swapped right.loraName right.saltKey left.loraName left.saltKey)) := by
  rw [contentFrom, contentFrom, Prod.mk.injEq, keyTuple_injective.eq_iff, keysFrom_eq, keysFrom_eq,
    concatKeys_eq_iff, (Option.map_injective hideal.embeds_injective).eq_iff]
  by_cases hblock : block = 0
  · subst hblock
    simp only [true_imp_iff, true_and, if_true]
    rfl
  · simp only [hblock, Swapped, false_imp_iff, false_and, and_true, or_false, if_false, reduceCtorEq,
      and_false, exists_false]
    rfl

theorem slices_eq_iff {α : Type*} (left right : List α) (blockSize block : ℕ) :
    (∀ index ≤ block, (left.take (index * blockSize + blockSize)).drop (index * blockSize) =
        (right.take (index * blockSize + blockSize)).drop (index * blockSize)) ↔
      left.take ((block + 1) * blockSize) = right.take ((block + 1) * blockSize) := by
  constructor
  · intro h
    induction block with
    | zero => simpa using h 0 le_rfl
    | succ block ih =>
      have hsplit (list : List α) : list.take ((block + 1 + 1) * blockSize) =
          list.take ((block + 1) * blockSize) ++
            (list.take ((block + 1) * blockSize + blockSize)).drop ((block + 1) * blockSize) := by
        have hhead : (list.take ((block + 1 + 1) * blockSize)).take ((block + 1) * blockSize) =
            list.take ((block + 1) * blockSize) := by
          rw [take_take, min_eq_left (Nat.mul_le_mul_right _ (Nat.le_succ _))]
        rw [← Nat.succ_mul, ← hhead]
        exact (take_append_drop _ _).symm
      rw [hsplit, hsplit, ih fun index hidx ↦ h index (Nat.le_succ_of_le hidx), h _ le_rfl]
  · intro h index hidx
    have hshort : min (index * blockSize + blockSize) ((block + 1) * blockSize) =
        index * blockSize + blockSize := by
      rw [← Nat.succ_mul]
      exact min_eq_left (Nat.mul_le_mul_right _ (Nat.succ_le_succ hidx))
    rw [← hshort, ← take_take, h, take_take]

namespace History

include hnonempty in
theorem blockHashAt_eq (history : History ε) (block : ℕ) :
    history.blockHashAt hasher block =
      if (block + 1) * hasher.blockSize ≤ history.allTokenIds.length then
        some (blockDigest hasher history.current (history.firstBatch hasher.blockSize) block)
      else none := by
  rw [blockHashAt, request_spec hnonempty]
  by_cases hfull : (block + 1) * hasher.blockSize ≤ history.allTokenIds.length
  · have hlt := (Nat.le_div_iff_mul_le hasher.blockSize_pos).2 hfull
    rw [if_pos hfull]
    simp [getElem?_range hlt]
  · have hge : history.allTokenIds.length / hasher.blockSize ≤ block := by
      rw [← Nat.lt_succ_iff, Nat.div_lt_iff_lt_mul hasher.blockSize_pos]
      exact not_le.1 hfull
    rw [if_neg hfull]
    simp [hge]

end History

/-! ## Items in order -/

/-- The placeholder ranges follow each other without overlap, as prompt processing lays them out. -/
def ItemsInOrder (features : List MmFeature) : Prop :=
  features.Pairwise fun feature other ↦ feature.offset + feature.length ≤ other.offset

section

variable (horder : ItemsInOrder features) (startTokenIdx endTokenIdx : ℕ)
include horder

theorem walkedItems_of_itemsInOrder :
    walkedItems startTokenIdx endTokenIdx features =
      features.filter (Overlaps startTokenIdx endTokenIdx) := by
  induction features with
  | nil => rfl
  | cons feature rest ih =>
    obtain ⟨hbefore, hrest⟩ := pairwise_cons.1 horder
    by_cases hends : feature.EndsBy endTokenIdx
    · rw [walkedItems_cons_of_endsBy hends, ih hrest, ← filter_append, singleton_append]
    · -- The items behind one that leaves the block start behind the block.
      have hnone : rest.filter (Overlaps startTokenIdx endTokenIdx) = [] := by
        refine filter_eq_nil_iff.2 fun other hother ↦ ?_
        have hle := hbefore other hother
        unfold EndsBy at hends
        intro hoverlaps
        have hstart := (of_decide_eq_true hoverlaps).1
        omega
      rw [walkedItems_cons_of_not_endsBy hends, ← singleton_append (l := rest), filter_append,
        hnone, append_nil]

theorem hashedItems_of_itemsInOrder :
    hashedItems features 0 startTokenIdx endTokenIdx =
      features.filter (Overlaps startTokenIdx endTokenIdx) := by
  unfold hashedItems
  cases hlast : features.getLast? with
  | none => simp [getLast?_eq_none_iff.1 hlast]
  | some last =>
    obtain ⟨_, rfl⟩ := getLast?_eq_some_iff.1 hlast
    rw [drop_zero, walkedItems_of_itemsInOrder horder]
    dsimp only
    split
    · refine (filter_eq_nil_iff.2 fun feature hfeature ↦ ?_).symm
      have hends : feature.offset + feature.length ≤ last.offset + last.length := by
        rcases mem_append.1 hfeature with hother | hself
        · have := (pairwise_append.1 horder).2.2 feature hother last (by simp)
          omega
        · rw [mem_singleton.1 hself]
      intro hoverlaps
      have hstart := (of_decide_eq_true hoverlaps).2
      omega
    · rfl

end

/-! ## An ideal hasher -/

theorem countable_hash_inputs : Countable (BlockHash × List ℕ × Option (List ExtraKey)) := by
  have hbyte := Function.Injective.countable fun _ _ h ↦ UInt8.toNat_inj.1 h
  have hchar := Function.Injective.countable fun _ _ h ↦ Char.toNat_inj.1 h
  have hstring := Function.Injective.countable fun _ _ h ↦ String.toList_inj.1 h
  have hkey : Countable ExtraKey := by
    let code : ExtraKey → String ⊕ (String × ℤ) ⊕ List UInt8
      | .str value => .inl value
      | .mmItem identifier offset => .inr (.inl (identifier, offset))
      | .bytes value => .inr (.inr value)
    have hcode : Function.Injective code := by
      intro key other h
      cases key <;> cases other <;> simp_all [code]
    exact hcode.countable
  infer_instance

theorem exists_ideal_hasher : ∃ hasher : Hasher Unit, hasher.blockSize = 2 ∧ hasher.Ideal := by
  have hreplicate : Function.Injective fun count ↦ replicate count (0 : UInt8) := fun _ _ h ↦ by
    simpa using congrArg List.length h
  obtain ⟨code, hcode⟩ := countable_hash_inputs
  refine ⟨⟨2, by decide, fun input ↦ replicate (code input + 1) 0, [],
    fun rows ↦ replicate rows.length 0⟩, rfl, ?_, by simp, ?_⟩
  · intro input other h
    exact hcode (Nat.succ_injective (hreplicate h))
  · intro rows others h
    exact ext_getElem (hreplicate h) fun _ _ _ ↦ rfl

end Nelssa.Core.BlockHashing
