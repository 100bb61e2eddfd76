import Nelssa.Core.PrefixIsolation

/-!
# Incremental hashing

A request is hashed block by block while it grows. Hashing it from scratch means to create a request
with all tokens as its prompt. For multi-modal items in order, both give the same chain of digests exactly
if no item but the last has tokens in a block that is hashed after the first call.
-/

namespace Nelssa.Core.BlockHashing

open Foundation.HashChain

variable {ε : Type*}

/-! ## Items in order -/

section

variable {features : List MmFeature} (horder : ItemsInOrder features)
include horder

/-- With items in order, the walk from any item on finds the items with tokens in the block. -/
theorem hashedItems_drop_of_itemsInOrder (base startTokenIdx endTokenIdx : ℕ) :
    hashedItems features base startTokenIdx endTokenIdx =
      (features.drop base).filter (MmFeature.Overlaps startTokenIdx endTokenIdx) := by
  have hall := hashedItems_of_itemsInOrder horder startTokenIdx endTokenIdx
  have hdrop : ItemsInOrder (features.drop base) := .sublist (List.drop_sublist _ _) horder
  unfold hashedItems at hall ⊢
  cases hlast : features.getLast? with
  | none => simp [List.getLast?_eq_none_iff.1 hlast]
  | some last =>
    rw [hlast] at hall
    dsimp only at hall ⊢
    split at hall
    · next hended =>
      rw [if_pos hended]
      refine (List.filter_eq_nil_iff.2 fun feature hfeature ↦ ?_).symm
      exact List.filter_eq_nil_iff.1 hall.symm feature (List.mem_of_mem_drop hfeature)
    · next hended => rw [if_neg hended, walkedItems_of_itemsInOrder hdrop]

/-- The walk from the first item finds those of the other items in front of what the walk from the last item
finds. -/
theorem hashedItems_eq_append_last (startTokenIdx endTokenIdx : ℕ) :
    hashedItems features 0 startTokenIdx endTokenIdx =
      features.dropLast.filter (MmFeature.Overlaps startTokenIdx endTokenIdx) ++
        hashedItems features (features.length - 1) startTokenIdx endTokenIdx := by
  rw [hashedItems_of_itemsInOrder horder, hashedItems_drop_of_itemsInOrder horder, ← List.filter_append,
    List.dropLast_eq_take, List.take_append_drop]

end

theorem hashedFrom_last_eq_iff (req : Request ε) (horder : ItemsInOrder req.mmFeatures)
    (blockSize block : ℕ) :
    req.hashedFrom blockSize block (req.mmFeatures.length - 1) = req.hashedFrom blockSize block 0 ↔
      ∀ feature ∈ req.mmFeatures.dropLast,
        ¬ feature.Overlaps (block * blockSize) (block * blockSize + blockSize) := by
  rw [Request.hashedFrom, Request.hashedFrom, hashedItems_eq_append_last horder, List.map_append,
    List.self_eq_append_left, List.map_eq_nil_iff, List.filter_eq_nil_iff]
  simp only [decide_eq_true_eq]

namespace History

section

variable (history : History ε)

/-- The request with the same tokens and items that is created with all tokens as its prompt. -/
def scratch : History ε :=
  { history with promptTokenIds := history.allTokenIds, outputs := [] }

/-- No item but the last has tokens in a full block behind the first call. -/
def ResumesAtLast (blockSize : ℕ) : Prop :=
  ∀ block, history.firstBatch blockSize ≤ block → (block + 1) * blockSize ≤ history.allTokenIds.length →
    ∀ feature ∈ history.mmFeatures.dropLast,
      ¬ feature.Overlaps (block * blockSize) (block * blockSize + blockSize)

theorem allTokenIds_scratch : history.scratch.allTokenIds = history.allTokenIds := by
  simp [scratch, allTokenIds]

theorem current_scratch : history.scratch.current = history.current := by
  rw [current, allTokenIds_scratch]
  rfl

theorem firstBatch_scratch (blockSize : ℕ) :
    history.scratch.firstBatch blockSize = history.allTokenIds.length / blockSize := rfl

end

variable {hasher : Hasher ε}

/-- Both chains agree exactly if the keys of every block have the items that the walk from the first item
finds. -/
theorem blockHashes_eq_iff_forall_hashedFrom (hideal : hasher.Ideal) (history : History ε) :
    (history.request hasher).map (·.blockHashes) = (history.scratch.request hasher).map (·.blockHashes) ↔
      ∀ index < history.allTokenIds.length / hasher.blockSize,
        history.current.hashedFrom hasher.blockSize index
            (firstItem history.current (history.firstBatch hasher.blockSize) index) =
          history.current.hashedFrom hasher.blockSize index 0 := by
  have hcontent (index : ℕ) (hidx : index < history.allTokenIds.length / hasher.blockSize) :
      blockContent hasher history.current (history.firstBatch hasher.blockSize) index =
          blockContent hasher history.current (history.allTokenIds.length / hasher.blockSize) index ↔
        history.current.hashedFrom hasher.blockSize index
            (firstItem history.current (history.firstBatch hasher.blockSize) index) =
          history.current.hashedFrom hasher.blockSize index 0 := by
    rw [blockContent, blockContent, contentFrom_eq_iff hideal]
    simp [firstItem, hidx]
  rw [request_spec hideal.nonempty, request_spec hideal.nonempty, allTokenIds_scratch, current_scratch,
    firstBatch_scratch]
  simp only [Except.map, Except.ok.injEq, List.map_inj_left, List.mem_range, blockDigest, digest,
    chain_eq_iff (injective2_of_injective hideal.injective)]
  exact ⟨fun h index hidx ↦ (hcontent index hidx).1 (h index hidx index le_rfl),
    fun h block hblock index hidx ↦
      (hcontent index (hidx.trans_lt hblock)).2 (h index (hidx.trans_lt hblock))⟩

/-- For items in order, the block hashes of a request are those of a request that is created with the same
tokens exactly if no item but the last has tokens in a block that is hashed after the first call. -/
theorem blockHashes_eq_scratch_iff {hasher : Hasher ε} (hideal : hasher.Ideal) (history : History ε)
    (horder : ItemsInOrder history.mmFeatures) :
    (history.request hasher).map (·.blockHashes) = (history.scratch.request hasher).map (·.blockHashes) ↔
      history.ResumesAtLast hasher.blockSize := by
  have hpos := hasher.blockSize_pos
  have hlast := hashedFrom_last_eq_iff history.current horder hasher.blockSize
  rw [blockHashes_eq_iff_forall_hashedFrom hideal]
  constructor
  · intro hsame block hfirst hfull
    have hkeys := hsame block ((Nat.le_div_iff_mul_le hpos).2 hfull)
    rw [firstItem, if_neg (not_lt.2 hfirst)] at hkeys
    exact (hlast block).1 hkeys
  · intro hresumes index hidx
    rw [firstItem]
    split
    · rfl
    · next hfirst =>
      have hfull := (Nat.le_div_iff_mul_le hpos).1 hidx
      exact (hlast index).2 (hresumes index (not_lt.1 hfirst) hfull)

/-- Two images behind each other in a prompt of seven tokens, the second one in the second block, which a
generated token fills. -/
def imagesRequest (offset : ℕ) : History Unit :=
  { promptTokenIds := [1, 2, 3, 4, 5, 6, 7], loraName := none, cacheSalt := none
    mmFeatures := [⟨"first", offset, 1⟩, ⟨"second", 5, 1⟩], promptEmbeds := none, outputs := [[9]] }

theorem exists_ideal_hasher_four : ∃ hasher : Hasher Unit, hasher.blockSize = 4 ∧ hasher.Ideal := by
  obtain ⟨hasher, -, hideal⟩ := exists_ideal_hasher
  exact ⟨{ hasher with blockSize := 4, blockSize_pos := by decide }, rfl, { hideal with }⟩

/-- If the first image lies in the first block, the second block does not miss it. -/
theorem imagesRequest_eq_scratch : ∃ hasher : Hasher Unit, hasher.Ideal ∧ hasher.blockSize = 4 ∧
    (imagesRequest 0).firstBatch 4 = 1 ∧ 2 * 4 ≤ (imagesRequest 0).allTokenIds.length ∧
    ((imagesRequest 0).request hasher).map (·.blockHashes) =
      ((imagesRequest 0).scratch.request hasher).map (·.blockHashes) := by
  obtain ⟨hasher, hsize, hideal⟩ := exists_ideal_hasher_four
  have horder : ItemsInOrder (imagesRequest 0).mmFeatures := by
    simp [ItemsInOrder, imagesRequest]
  refine ⟨hasher, hideal, hsize, rfl, by decide, (blockHashes_eq_scratch_iff hideal _ horder).2 ?_⟩
  rw [hsize]
  intro block hfirst _ feature hfeature hoverlaps
  have hbatch : (imagesRequest 0).firstBatch 4 = 1 := rfl
  obtain rfl := List.mem_singleton.1 hfeature
  have := hoverlaps.2
  dsimp only at this
  omega

/-- If it lies in the second block, it is missing from the hash. -/
theorem imagesRequest_ne_scratch : ∃ hasher : Hasher Unit, hasher.Ideal ∧
    ItemsInOrder (imagesRequest 4).mmFeatures ∧ ((imagesRequest 4).request hasher).map (·.blockHashes) ≠
      ((imagesRequest 4).scratch.request hasher).map (·.blockHashes) := by
  obtain ⟨hasher, hsize, hideal⟩ := exists_ideal_hasher_four
  refine ⟨hasher, hideal, by simp [ItemsInOrder, imagesRequest], fun heq ↦ ?_⟩
  have hkeys := (blockHashes_eq_iff_forall_hashedFrom hideal _).1 heq
  rw [hsize] at hkeys
  exact absurd (hkeys 1 (by decide)) (by decide)

end History

end Nelssa.Core.BlockHashing
