import Mathlib.Algebra.BigOperators.Field
import Nelssa.Worker.Merge

/-!
# Merging is exact

The attention of a query over a set of tokens has an output, the softmax average of the values, and a
normaliser, the logarithm of the sum of the exponentials. The merge of two such results is the result for
the union of the sets, in exact real arithmetic and for every version of the merge, as long as one of the
sets has a token. The versions differ if both normalisers are minus infinity: the eager merge returns
zero, the kernel the GPU row and the torch versions a row of NaN.
-/

namespace Nelssa.Worker

open Foundation.LogSumExp ExpArithmetic Finset

variable {D : ℕ}

section Eager

variable {R : Type*} [Field R] [LinearOrder R] (arith : ExpArithmetic R)

/-- `AttentionResultMerger.merge`; `nan_to_num` puts zero for a weight that is NaN. -/
def merge (result1 result2 : Part D R) : Part D R :=
  let globalLse := arith.logSumExp result1.2 result2.2
  (fun dim ↦ result1.1 dim * (arith.expSub result1.2 globalLse).getD 0 +
    result2.1 dim * (arith.expSub result2.2 globalLse).getD 0, globalLse)

variable [IsStrictOrderedRing R] (part1 part2 part3 : Part D R)

theorem fst_merge (dim : Fin D) : (merge arith part1 part2).1 dim =
    (part1.1 dim * arith.expBot part1.2 + part2.1 dim * arith.expBot part2.2) /
      (arith.expBot part1.2 + arith.expBot part2.2) := by
  by_cases hnone : part1.2 = ⊥ ∧ part2.2 = ⊥
  · simp [merge, logSumExp, hnone]
  · simp [merge, arith.expSub_logSumExp _ _ hnone, add_div, mul_div_assoc]

theorem fst_merge_mul (dim : Fin D) :
    (merge arith part1 part2).1 dim * (arith.expBot part1.2 + arith.expBot part2.2) =
      part1.1 dim * arith.expBot part1.2 + part2.1 dim * arith.expBot part2.2 := by
  rw [fst_merge]
  by_cases hzero : arith.expBot part1.2 + arith.expBot part2.2 = 0
  · obtain ⟨hfirst, hsecond⟩ := (arith.sum_eq_zero_iff _ _).1 hzero
    simp [hfirst, hsecond]
  · exact div_mul_cancel₀ _ hzero

theorem fst_merge_eq_mergePart : some (merge arith part1 part2).1 = mergePart arith (some 0) part1 part2 := by
  unfold mergePart
  split_ifs with hnone
  · refine congrArg some (funext fun dim ↦ ?_)
    simp [fst_merge, hnone]
  · refine congrArg some (funext fun dim ↦ ?_)
    rw [fst_merge, lseMerge, weight, weight, add_comm (arith.expBot part2.2), add_div, mul_div_assoc,
      mul_div_assoc]

theorem merge_comm : merge arith part1 part2 = merge arith part2 part1 := by
  refine Prod.ext (funext fun dim ↦ ?_) ?_
  · rw [fst_merge, fst_merge, add_comm, add_comm (arith.expBot part1.2)]
  · simp only [merge, logSumExp, add_comm, and_comm]

theorem merge_assoc :
    merge arith (merge arith part1 part2) part3 = merge arith part1 (merge arith part2 part3) := by
  have hsum (left right : Part D R) :
      arith.expBot (merge arith left right).2 = arith.expBot left.2 + arith.expBot right.2 :=
    arith.expBot_logSumExp left.2 right.2
  refine Prod.ext (funext fun dim ↦ ?_) ?_
  · rw [fst_merge, hsum, fst_merge_mul, fst_merge, hsum, fst_merge_mul, add_assoc, add_assoc]
  · change arith.logSumExp (merge arith part1 part2).2 part3.2 =
      arith.logSumExp part1.2 (merge arith part2 part3).2
    rw [logSumExp_eq, logSumExp_eq, hsum, hsum, add_assoc]

end Eager

/-! ## Softmax attention over a set of tokens -/

section Softmax

variable {ι : Type*} (scores : ι → ℝ) (values : ι → Fin D → ℝ)

noncomputable def mass (tokens : Finset ι) : ℝ := ∑ token ∈ tokens, Real.exp (scores token)

/-- The attention over the tokens of a set; over no tokens the normaliser is minus infinity. -/
noncomputable def attend (tokens : Finset ι) : Part D ℝ :=
  (fun dim ↦ (∑ token ∈ tokens, values token dim * Real.exp (scores token)) / mass scores tokens,
    if mass scores tokens = 0 then ⊥ else (Real.log (mass scores tokens) : ℝ))

theorem mass_eq_zero_iff (tokens : Finset ι) : mass scores tokens = 0 ↔ tokens = ∅ := by
  constructor
  · intro hzero
    by_contra hsome
    have hpos := sum_pos (fun token _ ↦ Real.exp_pos (scores token)) (nonempty_iff_ne_empty.2 hsome)
    exact hpos.ne' hzero
  · rintro rfl
    rfl

theorem expBot_attend (tokens : Finset ι) :
    realArithmetic.expBot (attend scores values tokens).2 = mass scores tokens := by
  unfold attend
  split
  · next hzero => rw [hzero, expBot_bot]
  · next hzero =>
    have hnonneg : 0 ≤ mass scores tokens := sum_nonneg fun token _ ↦ (Real.exp_pos _).le
    exact Real.exp_log (hnonneg.lt_of_ne' hzero)

theorem fst_attend_mul (tokens : Finset ι) (dim : Fin D) :
    (attend scores values tokens).1 dim * mass scores tokens =
      ∑ token ∈ tokens, values token dim * Real.exp (scores token) := by
  by_cases hzero : mass scores tokens = 0
  · simp [(mass_eq_zero_iff scores tokens).1 hzero, mass]
  · exact div_mul_cancel₀ _ hzero

/-- The merge of the attention over two disjoint sets is the attention over their union. -/
theorem merge_attend [DecidableEq ι] {first second : Finset ι} (hdisj : Disjoint first second) :
    merge realArithmetic (attend scores values first) (attend scores values second) =
      attend scores values (first ∪ second) := by
  have hmass : mass scores (first ∪ second) = mass scores first + mass scores second := sum_union hdisj
  refine Prod.ext (funext fun dim ↦ ?_) ?_
  · rw [fst_merge, expBot_attend, expBot_attend, fst_attend_mul, fst_attend_mul, ← sum_union hdisj, ← hmass]
    rfl
  · change realArithmetic.logSumExp _ _ = _
    rw [logSumExp_eq, expBot_attend, expBot_attend, ← hmass]
    rfl

end Softmax

/-! ## All versions -/

/-- What the merge of two parts should return: the attention over the tokens of both, and the other part if
one has no key. -/
structure MergesParts (part1 part2 : Part D ℝ) (result : Option (Fin D → ℝ)) : Prop where
  union : ∀ {ι : Type} [DecidableEq ι] (scores : ι → ℝ) (values : ι → Fin D → ℝ) (first second : Finset ι),
    first.Nonempty → Disjoint first second → part1 = attend scores values first →
    part2 = attend scores values second → result = some (attend scores values (first ∪ second)).1
  first : part1.2 = ⊥ → result = some part2.1
  second : part2.2 = ⊥ → result = some part1.1

theorem mergesParts_mergePart (empty : Option (Fin D → ℝ)) (part1 part2 : Part D ℝ) :
    MergesParts part1 part2 (mergePart realArithmetic empty part1 part2) ↔
      (part1.2 = ⊥ → part2.2 = ⊥ → empty = some part1.1 ∧ empty = some part2.1) := by
  constructor
  · intro hmerges hfirst hsecond
    have hempty : mergePart realArithmetic empty part1 part2 = empty := if_pos ⟨hfirst, hsecond⟩
    exact ⟨hempty.symm.trans (hmerges.second hsecond), hempty.symm.trans (hmerges.first hfirst)⟩
  · intro hempty
    by_cases hnone : part1.2 = ⊥ ∧ part2.2 = ⊥
    · obtain ⟨hfirst, hsecond⟩ := hempty hnone.1 hnone.2
      rw [mergePart, if_pos hnone]
      refine ⟨fun scores values first second hsome hdisj heq1 heq2 ↦ ?_, fun _ ↦ hsecond, fun _ ↦ hfirst⟩
      have hmass := expBot_attend scores values first
      rw [← heq1, hnone.1, expBot_bot] at hmass
      exact absurd ((mass_eq_zero_iff scores first).1 hmass.symm) hsome.ne_empty
    · refine ⟨fun scores values first second _ hdisj heq1 heq2 ↦ ?_, fun hbot ↦ ?_, fun hbot ↦ ?_⟩
      · rw [← merge_attend scores values hdisj, ← heq1, ← heq2, fst_merge_eq_mergePart, mergePart, mergePart,
          if_neg hnone, if_neg hnone]
      · obtain ⟨lse, hlse⟩ := WithBot.ne_bot_iff_exists.1 fun hother ↦ hnone ⟨hbot, hother⟩
        rw [mergePart, if_neg hnone]
        exact congrArg some (funext fun dim ↦ by simp [lseMerge, hbot, ← hlse])
      · obtain ⟨lse, hlse⟩ := WithBot.ne_bot_iff_exists.1 fun hother ↦ hnone ⟨hother, hbot⟩
        rw [mergePart, if_neg hnone]
        exact congrArg some (funext fun dim ↦ by simp [lseMerge, hbot, ← hlse])

section Versions

variable {H : ℕ} (batch : LongBatch) (gpu : GpuResult H D ℝ) (answers : ℕ → CpuResult H D ℝ)

/-- The output of a merge that treats the rows of the long requests as it should and leaves the others, whose
slots are not valid, as they are. -/
structure MergesRows (output : Rows H D ℝ) : Prop where
  long : ∀ row head, batch.IsLong row →
    MergesParts (gpu.part row head) ((answers row).part head) (output row head)
  invalid : ∀ row head, ¬ batch.IsLong row → output row head = some (gpu.out row head)

/-- Neither the GPU nor the CPU has a key for the query of a long request. -/
def NoKeys (row : ℕ) (head : Fin H) : Prop :=
  batch.IsLong row ∧ gpu.lse row head = ⊥ ∧ (answers row).lse head = ⊥

variable {batch gpu answers}

theorem mergesRows_mergeAtRows (empty : (Fin D → ℝ) → Option (Fin D → ℝ)) (padded : List ℕ) :
    MergesRows batch gpu answers (mergeAtRows realArithmetic batch gpu answers empty padded) ↔
      (∀ row head, NoKeys batch gpu answers row head → empty (gpu.out row head) = some (gpu.out row head) ∧
        empty (gpu.out row head) = some ((answers row).out head)) ∧
      ∀ row ∈ padded, ¬ batch.IsLong row → ∀ head, gpu.lse row head = ⊥ →
        empty (gpu.out row head) = some (gpu.out row head) := by
  have hlong (row : ℕ) (head : Fin H) (hrow : batch.IsLong row) :
      mergeAtRows realArithmetic batch gpu answers empty padded row head =
        mergePart realArithmetic (empty (gpu.out row head)) (gpu.part row head) ((answers row).part head) :=
    if_pos hrow
  have hshort (row : ℕ) (head : Fin H) (hrow : ¬ batch.IsLong row) :
      mergeAtRows realArithmetic batch gpu answers empty padded row head =
        if row ∈ padded ∧ gpu.lse row head = ⊥ then empty (gpu.out row head) else some (gpu.out row head) :=
    if_neg hrow
  constructor
  · rintro ⟨hparts, hinvalid⟩
    refine ⟨fun row head ⟨hrow, hgpu, hcpu⟩ ↦ ?_, fun row hpadded hrow head hgpu ↦ ?_⟩
    · have hpart := hparts row head hrow
      rw [hlong row head hrow] at hpart
      exact (mergesParts_mergePart ..).1 hpart hgpu hcpu
    · have hsame := hinvalid row head hrow
      rwa [hshort row head hrow, if_pos ⟨hpadded, hgpu⟩] at hsame
  · rintro ⟨hkeys, hpadded⟩
    refine ⟨fun row head hrow ↦ ?_, fun row head hrow ↦ ?_⟩
    · rw [hlong row head hrow]
      exact (mergesParts_mergePart ..).2 fun hgpu hcpu ↦ hkeys row head ⟨hrow, hgpu, hcpu⟩
    · rw [hshort row head hrow]
      split_ifs with hempty
      · exact hpadded row hempty.1 hrow head hempty.2
      · rfl

/-- The padded CPU results of a layer in which the answers have been filled. -/
def filledPad (batch : LongBatch) (maxNumLong : ℕ) (pad answers : ℕ → CpuResult H D ℝ) :
    ℕ → CpuResult H D ℝ :=
  fillPad pad (maxNumLong - (batch.longIdx.map answers).length) (batch.longIdx.map answers)

theorem mergesRows_static_iff {maxNumLong : ℕ} (hroom : maxNumLong ≤ batch.numReqs)
    (pad : ℕ → CpuResult H D ℝ) :
    MergesRows batch gpu answers (mergeWithMaskStaticTorch realArithmetic gpu
        (filledPad batch maxNumLong pad answers) (batch.longIndicesStatic maxNumLong)
        (batch.validMask maxNumLong)) ↔
      (∀ row head, ¬ NoKeys batch gpu answers row head) ∧
        ∀ row ∈ batch.padIdx maxNumLong, ∀ head, gpu.lse row head ≠ ⊥ := by
  rw [filledPad, mergeWithMaskStaticTorch_eq_mergeAtRows realArithmetic gpu hroom
    fun slot hslot hvalid ↦ fillPad_of_valid hroom pad answers hslot hvalid, mergesRows_mergeAtRows]
  have hshort (row : ℕ) (hrow : row ∈ batch.padIdx maxNumLong) := LongBatch.not_isLong_of_mem_padIdx hrow
  simp +contextual [hshort]

theorem mergesRows_mask_iff :
    (∃ output, mergeWithMask realArithmetic batch gpu (batch.longIdx.map answers) = some output ∧
        MergesRows batch gpu answers output) ↔
      batch.numReqs = batch.numTokens ∧ ∀ row head, ¬ NoKeys batch gpu answers row head := by
  rw [mergeWithMask_eq]
  by_cases hshape : batch.numReqs = batch.numTokens
  · simp [hshape, mergesRows_mergeAtRows]
  · simp [hshape]

end Versions

/-- The eager merge is commutative and associative and gives the attention over the union of disjoint sets;
it keeps the other part of an empty one unless both are empty and not zero. The fused kernel keeps it unless
both are empty and differ. The torch version of the static merge and the merge under a mask need a key for
every row they merge, a padded one included. -/
theorem merge_exact_iff {H maxNumLong : ℕ} (batch : LongBatch) (gpu : GpuResult H D ℝ)
    (pad answers : ℕ → CpuResult H D ℝ) (order : LaunchOrder (batch.longIndicesStatic maxNumLong).length H)
    (hroom : maxNumLong ≤ batch.numReqs) :
    (∀ part1 part2 part3 : Part D ℝ, merge realArithmetic part1 part2 = merge realArithmetic part2 part1 ∧
      merge realArithmetic (merge realArithmetic part1 part2) part3 =
        merge realArithmetic part1 (merge realArithmetic part2 part3) ∧
      (MergesParts part1 part2 (some (merge realArithmetic part1 part2).1) ↔
        (part1.2 = ⊥ → part2.2 = ⊥ → part1.1 = 0 ∧ part2.1 = 0))) ∧
    (∀ {ι : Type} [DecidableEq ι] (scores : ι → ℝ) (values : ι → Fin D → ℝ) (first second : Finset ι),
      Disjoint first second → merge realArithmetic (attend scores values first)
        (attend scores values second) = attend scores values (first ∪ second)) ∧
    (MergesRows batch gpu answers (mergeLse realArithmetic gpu (filledPad batch maxNumLong pad answers)
        (batch.longIndicesStatic maxNumLong) (batch.validMask maxNumLong) order) ↔
      ∀ row head, NoKeys batch gpu answers row head → gpu.out row head = (answers row).out head) ∧
    (MergesRows batch gpu answers (mergeWithMaskStaticTorch realArithmetic gpu
        (filledPad batch maxNumLong pad answers) (batch.longIndicesStatic maxNumLong)
        (batch.validMask maxNumLong)) ↔
      (∀ row head, ¬ NoKeys batch gpu answers row head) ∧
        ∀ row ∈ batch.padIdx maxNumLong, ∀ head, gpu.lse row head ≠ ⊥) ∧
    ((∃ output, mergeWithMask realArithmetic batch gpu (batch.longIdx.map answers) = some output ∧
        MergesRows batch gpu answers output) ↔
      batch.numReqs = batch.numTokens ∧ ∀ row head, ¬ NoKeys batch gpu answers row head) := by
  refine ⟨fun part1 part2 part3 ↦ ⟨merge_comm .., merge_assoc .., ?_⟩,
    fun scores values _ _ hdisjoint ↦ merge_attend scores values hdisjoint, ?_,
    mergesRows_static_iff hroom pad, mergesRows_mask_iff⟩
  · rw [fst_merge_eq_mergePart, mergesParts_mergePart]
    simp only [Option.some_inj, eq_comm]
  · rw [filledPad, mergeLse_eq_mergeAtRows realArithmetic gpu hroom
      fun slot hslot hvalid ↦ fillPad_of_valid hroom pad answers hslot hvalid, mergesRows_mergeAtRows]
    simp

/-! ## Rows without keys -/

/-- A short and a long request with one token each. -/
def twoTokens : LongBatch := mixedBatch 1 Nat.one_pos

noncomputable def noGpuKeys : GpuResult 1 1 ℝ := ⟨fun _ _ _ ↦ 0, fun _ _ ↦ ⊥⟩

noncomputable def noCpuKeys : CpuResult 1 1 ℝ := ⟨fun _ _ ↦ 0, fun _ ↦ ⊥⟩

/-- The torch version of the static merge of the two requests, without keys on the GPU. -/
noncomputable def staticRows (maxNumLong : ℕ) (answers : ℕ → CpuResult 1 1 ℝ) : Rows 1 1 ℝ :=
  mergeWithMaskStaticTorch realArithmetic noGpuKeys
    (filledPad twoTokens maxNumLong freshLayer.cpuPad answers) (twoTokens.longIndicesStatic maxNumLong)
    (twoTokens.validMask maxNumLong)

/-- Every version keeps the answer for a long request for which only the CPU has keys. -/
theorem mergesRows_without_gpuKeys :
    MergesRows twoTokens noGpuKeys (probeAnswer 1 1 ℝ) (mergeLse realArithmetic noGpuKeys
      (filledPad twoTokens 1 freshLayer.cpuPad (probeAnswer 1 1 ℝ)) (twoTokens.longIndicesStatic 1)
      (twoTokens.validMask 1) (singleBlock 1 Nat.one_pos)) ∧
    MergesRows twoTokens noGpuKeys (probeAnswer 1 1 ℝ) (staticRows 1 (probeAnswer 1 1 ℝ)) ∧
    ∃ output, mergeWithMask realArithmetic twoTokens noGpuKeys
        (twoTokens.longIdx.map (probeAnswer 1 1 ℝ)) = some output ∧
      MergesRows twoTokens noGpuKeys (probeAnswer 1 1 ℝ) output := by
  obtain ⟨-, -, hkernel, hstatic, hmask⟩ := merge_exact_iff twoTokens noGpuKeys freshLayer.cpuPad
    (probeAnswer 1 1 ℝ) (singleBlock 1 Nat.one_pos) (by decide)
  have hkeys (row : ℕ) (head : Fin 1) : ¬ NoKeys twoTokens noGpuKeys (probeAnswer 1 1 ℝ) row head :=
    fun hnone ↦ WithBot.coe_ne_bot hnone.2.2
  have hpadded : twoTokens.padIdx graphConfig.maxNumLong = [] := by decide
  refine ⟨hkernel.2 fun row head hnone ↦ absurd hnone (hkeys row head), hstatic.2 ⟨hkeys, ?_⟩,
    hmask.2 ⟨rfl, hkeys⟩⟩
  intro row hrow
  rw [hpadded] at hrow
  exact absurd hrow List.not_mem_nil

/-- The torch versions fail if the CPU has no keys either, the static one also for the row of the short
request, which only pads. -/
theorem not_mergesRows_without_keys :
    ¬ MergesRows twoTokens noGpuKeys (fun _ ↦ noCpuKeys) (staticRows 1 fun _ ↦ noCpuKeys) ∧
    (¬ ∃ output, mergeWithMask realArithmetic twoTokens noGpuKeys
        (twoTokens.longIdx.map fun _ ↦ noCpuKeys) = some output ∧
      MergesRows twoTokens noGpuKeys (fun _ ↦ noCpuKeys) output) ∧
    ¬ MergesRows twoTokens noGpuKeys (probeAnswer 1 1 ℝ) (staticRows 2 (probeAnswer 1 1 ℝ)) := by
  have hnone : NoKeys twoTokens noGpuKeys (fun _ ↦ noCpuKeys) 1 0 := ⟨by decide, rfl, rfl⟩
  refine ⟨fun hmerges ↦ ?_, fun hmerges ↦ ?_, fun hmerges ↦ ?_⟩
  · exact ((mergesRows_static_iff (by decide) _).1 hmerges).1 1 0 hnone
  · exact (mergesRows_mask_iff.1 hmerges).2 1 0 hnone
  · exact ((mergesRows_static_iff (by decide) _).1 hmerges).2 0 (by decide) 0 rfl

end Nelssa.Worker
