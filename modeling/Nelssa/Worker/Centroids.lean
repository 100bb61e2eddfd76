import Mathlib.Algebra.GCDMonoid.Nat
import Nelssa.Foundation.HalfEven
import Nelssa.Worker.StagingSlots

/-!
# The number of centroids and the width of the staging buffer

The clustering of a long prompt makes one centroid for about sixteen tokens, in a multiple of the number
of segments and of eight. The staging buffer is sized by the same formula at the model length. The formula
is not monotone, since the unit of the rounding changes with the number of segments.
-/

namespace Nelssa.Worker

open Nelssa.Core Foundation.HalfEven

/-- `max(round(num_tokens / 8192), 1)`, the segments that `segment_k_means` gets. -/
def nSegment (numTokens : ℕ) : ℕ := max (roundDiv numTokens 8192) 1

/-- `math.lcm(8, n_segment)` -/
def nFactor (numTokens : ℕ) : ℕ := Nat.lcm 8 (nSegment numTokens)

/-- The formula that both sides use, for a number of tokens and for a length of the model. -/
def centroidCount (numTokens : ℕ) : ℕ :=
  max (roundDiv (roundDiv numTokens 16) (nFactor numTokens) * nFactor numTokens) (nFactor numTokens)

/-- `n_centroids` in `cluster_sparse_kv`, with `total_tokens` tokens in the buffer of a layer. -/
def clusterNCentroids (totalTokens : ℕ) : ℕ := centroidCount totalTokens

def computeMaxNCentroids (maxModelLen : ℕ) : ℕ := centroidCount maxModelLen

theorem nFactor_pos (numTokens : ℕ) : 0 < nFactor numTokens :=
  Nat.lcm_pos (by decide) (lt_of_lt_of_le one_pos (le_max_right _ _))

theorem centroidCount_eq (numTokens : ℕ) :
    centroidCount numTokens =
      max (roundDiv (roundDiv numTokens 16) (nFactor numTokens)) 1 * nFactor numTokens := by
  unfold centroidCount
  rw [← Nat.mul_max_mul_right, one_mul]

theorem nSegment_dvd_centroidCount (numTokens : ℕ) : nSegment numTokens ∣ centroidCount numTokens := by
  rw [centroidCount_eq]
  exact .mul_left (dvd_lcm_right 8 _) _

/-- The metadata of a request with the given number of offloaded tokens can be staged: its centroids fit
into the buffer, they can be shared among the segments, and staging does not raise. -/
structure StagingFits (maxModelLen totalTokens : ℕ) : Prop where
  width : clusterNCentroids totalTokens ≤ computeMaxNCentroids maxModelLen
  segments : nSegment totalTokens ∣ clusterNCentroids totalTokens
  stages : ∀ {ρ κ : Type} [DecidableEq ρ] (config : StagingConfig) (set : SetPop)
    (worker : StagingWorker ρ κ) (reqId : ρ) (metadata : ClusterMetadata κ),
    config.maxNCentroids = computeMaxNCentroids maxModelLen →
    worker.nelssaClusterMetadata (bufferKey config.isPdDisaggregated worker.requests reqId) = some metadata →
    metadata.length = clusterNCentroids totalTokens → (worker.stageRequest config set reqId).1 = .ok ()

theorem stageRequest_ok {ρ κ : Type} [DecidableEq ρ] {config : StagingConfig} {set : SetPop}
    {worker : StagingWorker ρ κ} {reqId : ρ} {metadata : ClusterMetadata κ}
    (hmeta : worker.nelssaClusterMetadata (bufferKey config.isPdDisaggregated worker.requests reqId) =
      some metadata) (hwidth : metadata.length ≤ config.maxNCentroids) :
    (worker.stageRequest config set reqId).1 = .ok () := by
  unfold StagingWorker.stageRequest
  simp only [hmeta, if_neg (not_lt.2 hwidth)]
  split
  · rfl
  · split <;> rfl

/-- The units of the rounding agree, or the prompt is shorter than the model by what both can round. -/
def LeavesRoom (maxModelLen totalTokens : ℕ) : Prop :=
  nFactor totalTokens = nFactor maxModelLen ∨
    totalTokens + 8 * (nFactor totalTokens + nFactor maxModelLen) + 16 ≤ maxModelLen

/-- The number of centroids is at most half a unit and half a centroid away from a sixteenth. -/
theorem le_centroidCount (numTokens : ℕ) :
    numTokens ≤ 16 * centroidCount numTokens + 8 * nFactor numTokens + 8 := by
  have hcentroids := (roundDiv_near numTokens (show 0 < 16 by decide)).1
  have hunits := (roundDiv_near (roundDiv numTokens 16) (nFactor_pos numTokens)).1
  have hmax : roundDiv (roundDiv numTokens 16) (nFactor numTokens) * nFactor numTokens ≤
      centroidCount numTokens := le_max_left _ _
  rw [mul_assoc] at hunits
  omega

theorem nFactor_le (numTokens : ℕ) : nFactor numTokens ≤ 8 ∨ 256 * nFactor numTokens ≤ numTokens := by
  have hpos : 0 < nSegment numTokens := lt_of_lt_of_le one_pos (le_max_right _ _)
  have hle : nFactor numTokens ≤ 8 * nSegment numTokens := Nat.le_of_dvd (by omega) (Nat.lcm_dvd_mul _ _)
  have hsegments := (roundDiv_near numTokens (show 0 < 8192 by decide)).2
  unfold nSegment at hle
  omega

/-- One unit of a prompt always fits. -/
theorem nFactor_le_computeMaxNCentroids {maxModelLen totalTokens : ℕ} (hle : totalTokens ≤ maxModelLen) :
    nFactor totalTokens ≤ computeMaxNCentroids maxModelLen := by
  have hunit : nFactor maxModelLen ≤ computeMaxNCentroids maxModelLen := le_max_right _ _
  have height : 8 ≤ nFactor maxModelLen := Nat.le_of_dvd (nFactor_pos maxModelLen) (Nat.dvd_lcm_left 8 _)
  have hmodel : _ ≤ 16 * computeMaxNCentroids maxModelLen + _ + _ := le_centroidCount maxModelLen
  rcases nFactor_le totalTokens with hsmall | hlarge
  · omega
  · rcases nFactor_le maxModelLen with hsmall' | hlarge' <;> omega

theorem clusterNCentroids_le_of_leavesRoom {maxModelLen totalTokens : ℕ} (hle : totalTokens ≤ maxModelLen)
    (hroom : LeavesRoom maxModelLen totalTokens) :
    clusterNCentroids totalTokens ≤ computeMaxNCentroids maxModelLen := by
  rcases hroom with hfactor | hshort
  · have htokens : roundDiv totalTokens 16 ≤ roundDiv maxModelLen 16 := roundDiv_mono (by decide) hle
    unfold clusterNCentroids computeMaxNCentroids
    rw [centroidCount_eq, centroidCount_eq, hfactor]
    apply Nat.mul_le_mul_right
    exact max_le_max_right 1 (roundDiv_mono (nFactor_pos maxModelLen) htokens)
  · have hcentroids := (roundDiv_near totalTokens (show 0 < 16 by decide)).2
    have hunits := (roundDiv_near (roundDiv totalTokens 16) (nFactor_pos totalTokens)).2
    have hmodel : _ ≤ 16 * computeMaxNCentroids maxModelLen + _ + _ := le_centroidCount maxModelLen
    rw [mul_assoc] at hunits
    exact max_le (by omega) (nFactor_le_computeMaxNCentroids hle)

theorem clusterNCentroids_le_iff {maxModelLen totalTokens : ℕ} (hle : totalTokens ≤ maxModelLen) :
    clusterNCentroids totalTokens ≤ computeMaxNCentroids maxModelLen ↔
      totalTokens ≤ roundLimit (roundLimit (computeMaxNCentroids maxModelLen / nFactor totalTokens)
        (nFactor totalTokens)) 16 := by
  have hpos := nFactor_pos totalTokens
  have hone : 1 ≤ computeMaxNCentroids maxModelLen / nFactor totalTokens :=
    (Nat.one_le_div_iff hpos).2 (nFactor_le_computeMaxNCentroids hle)
  rw [clusterNCentroids, centroidCount_eq, ← Nat.le_div_iff_mul_le hpos, max_le_iff, and_iff_left hone,
    roundDiv_le_iff hpos, roundDiv_le_iff (by decide)]

/-- The staging buffer fits a request exactly if the tokens are not rounded beyond the last multiple of
their unit in the buffer, and in any case if the model leaves room for the rounding. -/
theorem stagingFits_iff (maxModelLen totalTokens : ℕ) (hle : totalTokens ≤ maxModelLen) :
    (StagingFits maxModelLen totalTokens ↔ totalTokens ≤
      roundLimit (roundLimit (computeMaxNCentroids maxModelLen / nFactor totalTokens)
        (nFactor totalTokens)) 16) ∧
    (LeavesRoom maxModelLen totalTokens → StagingFits maxModelLen totalTokens) := by
  have hfits : clusterNCentroids totalTokens ≤ computeMaxNCentroids maxModelLen →
      StagingFits maxModelLen totalTokens := by
    refine fun hwidth ↦ ⟨hwidth, nSegment_dvd_centroidCount totalTokens, ?_⟩
    intro ρ κ _ config set worker reqId metadata hconfig hmetadata hlength
    apply stageRequest_ok hmetadata
    rw [hconfig, hlength]
    exact hwidth
  rw [← clusterNCentroids_le_iff hle]
  exact ⟨⟨StagingFits.width, hfits⟩, fun hroom ↦ hfits (clusterNCentroids_le_of_leavesRoom hle hroom)⟩

/-- A prompt of six segments in a model of eight, with different units. -/
theorem stagingFits_sixSegments :
    nFactor 50000 ≠ nFactor 61440 ∧ LeavesRoom 61440 50000 ∧ StagingFits 61440 50000 := by
  have hroom : LeavesRoom 61440 50000 := .inr (by decide)
  exact ⟨by decide, hroom, (stagingFits_iff 61440 50000 (by decide)).2 hroom⟩

/-- The longest prompt of a model of 20489 positions offloads 20408 tokens with the default head and tail.
They make up two segments and are rounded up, while the model has three and is rounded down. -/
theorem not_stagingFits : ¬ StagingFits 20489 20408 ∧
    computeMaxNCentroids 20489 = 1272 ∧ clusterNCentroids 20408 = 1280 := by
  have hmodel : computeMaxNCentroids 20489 = 1272 := by decide
  have hrequest : clusterNCentroids 20408 = 1280 := by decide
  refine ⟨fun hfits ↦ ?_, hmodel, hrequest⟩
  have hwidth := hfits.width
  rw [hmodel, hrequest] at hwidth
  exact absurd hwidth (by decide)

end Nelssa.Worker
