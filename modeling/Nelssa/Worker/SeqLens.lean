import Nelssa.Worker.Compaction

/-!
# Attention lengths of compacted rows

`computeSparseSeqLensForAttention` derives the number of keys that attention reads for every request
of a step. For a long request on the decode worker it counts the block-aligned head, the aligned tail
of the prompt and the tokens generated so far. The slot-mapping kernel places the scheduled tokens
with a shift of its own, stored with the compacted row. The two agree when the length ends just
behind the slot of the last scheduled token.

The stored layout is the same after every decode step, so one comparison of the two shifts settles
all steps of a request.
-/

namespace Nelssa.Worker

/-! ## The attention lengths of one step -/

/-- The per-request tensors that `_prepare_inputs` leaves for one step. `numReqsPadded` includes the
rows that pad the batch up to a captured size. -/
structure StepTensors where
  blockSize : ℕ
  numReqs : ℕ
  numReqsPadded : ℕ
  numReqs_le : numReqs ≤ numReqsPadded
  nelssaLongMask : ℕ → Bool
  headSize : ℕ → ℕ
  tailSize : ℕ → ℕ
  promptLen : ℕ → ℕ
  /-- Tokens of each row computed before this step. -/
  numComputedTokens : ℕ → ℕ
  numScheduledTokens : ℕ → ℕ

/-- Row value of the tensors that `_compute_sparse_seq_lens_for_attention` combines. -/
def sparseSeqLen (blockSize : ℕ) (isLong : Bool)
    (headSize tailSize promptLen numComputed numScheduled : ℤ) : ℤ :=
  let numComputedBeforeStep := numComputed - numScheduled
  let generatedBeforeStep := max (numComputed - promptLen) 0
  let headBlocks := (headSize + blockSize - 1) / blockSize
  let headTokens := headBlocks * blockSize
  let tspRaw := max (promptLen - tailSize) 0
  let tailStartPos := tspRaw / blockSize * blockSize
  let tailPromptTokens := max (promptLen - tailStartPos) 0
  let decodeSeqLens := headTokens + tailPromptTokens + generatedBeforeStep
  -- Long requests are remote-prefilled, so they never take the prefill branch.
  let isPrefill := if isLong then false else decide (numComputedBeforeStep + numScheduled < promptLen)
  let longSeqLens := if isPrefill then promptLen else decodeSeqLens
  let normalSeqLens := numComputed + numScheduled
  if isLong then longSeqLens else normalSeqLens

variable {row : ℕ}

namespace StepTensors

section

variable (tensors : StepTensors)

/-- The row of an unpadded tensor that is read for a row of the padded batch: a tensor with a single
row is broadcast. -/
def sourceRow (row : ℕ) : ℕ := if tensors.numReqs = 1 then 0 else row

/-- The attention lengths of all rows. The mask is padded with zeros, while the prompt lengths and
sizes are not: `none` is the shape error of combining them with padded tensors. -/
def computeSparseSeqLensForAttention : Option (List ℤ) :=
  if tensors.numReqs = tensors.numReqsPadded ∨ tensors.numReqs = 1 then
    some ((List.range tensors.numReqsPadded).map fun row ↦
      let source := tensors.sourceRow row
      sparseSeqLen tensors.blockSize (row < tensors.numReqs && tensors.nelssaLongMask row)
        (tensors.headSize source) (tensors.tailSize source) (tensors.promptLen source)
        (tensors.numComputedTokens row) (tensors.numScheduledTokens row))
  else none

theorem sourceRow_of_lt (hrow : row < tensors.numReqs) : tensors.sourceRow row = row := by
  unfold sourceRow
  split <;> omega

end

theorem exists_computeSparseSeqLens_iff (tensors : StepTensors) (hrow : row < tensors.numReqs) (len : ℤ) :
    (∃ lens, tensors.computeSparseSeqLensForAttention = some lens ∧ lens[row]? = some len) ↔
      (tensors.numReqs = tensors.numReqsPadded ∨ tensors.numReqs = 1) ∧
        sparseSeqLen tensors.blockSize (tensors.nelssaLongMask row) (tensors.headSize row)
          (tensors.tailSize row) (tensors.promptLen row) (tensors.numComputedTokens row)
          (tensors.numScheduledTokens row) = len := by
  have hpadded := hrow.trans_le tensors.numReqs_le
  unfold computeSparseSeqLensForAttention
  split
  · next hshape => simp [hshape, List.getElem?_range hpadded, tensors.sourceRow_of_lt, hrow]
  · next hshape => simp [hshape]

end StepTensors

/-! ## Decode steps of a long request -/

namespace BlockTable

variable {table : BlockTable}

section

variable (table : BlockTable) (firstN lastM promptLen row : ℕ)

/-- What one decode step does to the row of a long request before the slots are computed: the new
blocks are appended and the row is compacted. The decode worker compacts in every step, where
`afterPrefill` compacts once and then only appends; `decodeSteps_eq_afterPrefill` says when it makes no
difference. -/
def decodeStep (newBlockIds : List ℕ) : BlockTable :=
  (table.appendRow newBlockIds row).clearMiddleBlocksForPrefillComplete firstN lastM (some promptLen) row

def decodeSteps (steps : List (List ℕ)) : BlockTable :=
  steps.foldl (fun current newBlockIds ↦ current.decodeStep firstN lastM promptLen row newBlockIds) table

/-- A compacted row stores the retained layout of its request. -/
def StoresLayout : Prop :=
  table.nelssaCompacted row = true →
    table.nelssaHeadBlocks row = headBlocks firstN table.blockSize ∧
      table.nelssaTailBlocks row = tailBlocks lastM promptLen table.blockSize ∧
        table.nelssaTailStartPos row = tailStartPos lastM promptLen table.blockSize

end

section

variable {firstN lastM promptLen : ℕ} (hstored : table.StoresLayout firstN lastM promptLen row)
include hstored

theorem storesLayout_clearMiddleBlocksForPrefillComplete :
    (table.clearMiddleBlocksForPrefillComplete firstN lastM (some promptLen) row).StoresLayout
      firstN lastM promptLen row := by
  simp only [clearMiddleBlocksForPrefillComplete, clearMiddleBlocks]
  have hstart (tail : ℕ) : table.resolveTailStart row tail (tailStartPos lastM promptLen table.blockSize) =
      tailStartPos lastM promptLen table.blockSize := by
    simp [resolveTailStart]
  split_ifs
  · exact hstored
  · exact hstored
  · intro _
    simp [setLayout, hstart]
  · exact hstored
  · intro _
    simp [setLayout, Function.update_self, hstart]

theorem storesLayout_decodeStep (newBlockIds : List ℕ) :
    (table.decodeStep firstN lastM promptLen row newBlockIds).StoresLayout firstN lastM promptLen row := by
  apply storesLayout_clearMiddleBlocksForPrefillComplete
  obtain ⟨_, _, hframe⟩ := table.appendRow_frame newBlockIds row
  rw [hframe]
  exact hstored

theorem storesLayout_decodeSteps (steps : List (List ℕ)) :
    (table.decodeSteps firstN lastM promptLen row steps).StoresLayout firstN lastM promptLen row := by
  induction steps generalizing table with
  | nil => exact hstored
  | cons newBlockIds rest ih => exact ih (storesLayout_decodeStep hstored newBlockIds)

theorem clearMiddleBlocksForPrefillComplete_of_compacted (hcompacted : table.nelssaCompacted row = true) :
    table.clearMiddleBlocksForPrefillComplete firstN lastM (some promptLen) row = table := by
  obtain ⟨hhead, htail, hstart⟩ := hstored hcompacted
  have hresolve (tail : ℕ) : table.resolveTailStart row tail (tailStartPos lastM promptLen table.blockSize) =
      tailStartPos lastM promptLen table.blockSize := by
    simp [resolveTailStart]
  have hlayout : table.setLayout row (headBlocks firstN table.blockSize)
      (tailBlocks lastM promptLen table.blockSize) (tailStartPos lastM promptLen table.blockSize) =
        table := by
    simp only [setLayout, ← hhead, ← htail, ← hstart, ← hcompacted, Function.update_eq_self]
  simp only [clearMiddleBlocksForPrefillComplete, clearMiddleBlocks, hcompacted, if_true, hresolve, hlayout,
    ite_self]

theorem decodeSteps_eq_appendRows (hcompacted : table.nelssaCompacted row = true) (steps : List (List ℕ)) :
    table.decodeSteps firstN lastM promptLen row steps = table.appendRows row steps := by
  induction steps generalizing table with
  | nil => rfl
  | cons newBlockIds rest ih =>
    obtain ⟨_, _, hframe⟩ := table.appendRow_frame newBlockIds row
    have hstored' : (table.appendRow newBlockIds row).StoresLayout firstN lastM promptLen row := by
      rw [hframe]
      exact hstored
    have hcompacted' : (table.appendRow newBlockIds row).nelssaCompacted row = true := by
      rw [hframe]
      exact hcompacted
    have hstep : table.decodeStep firstN lastM promptLen row newBlockIds = table.appendRow newBlockIds row :=
      clearMiddleBlocksForPrefillComplete_of_compacted hstored' hcompacted'
    rw [decodeSteps, List.foldl_cons, hstep]
    exact ih hstored' hcompacted'

end

/-- When the first step of the decode worker already compacts the row, compacting it again in every later step
changes nothing. A row that the first step leaves as it is may still be compacted once it has grown. -/
theorem decodeSteps_eq_afterPrefill {firstN lastM promptLen : ℕ} (hfresh : table.nelssaCompacted row = false)
    (hroom : headBlocks firstN table.blockSize + tailBlocks lastM promptLen table.blockSize <
      table.numBlocksPerRow row) (appended : List (List ℕ)) :
    table.decodeSteps firstN lastM promptLen row ([] :: appended) =
      table.afterPrefill firstN lastM promptLen row appended := by
  have hstored : table.StoresLayout firstN lastM promptLen row := by
    simp [StoresLayout, hfresh]
  have hcompacted := (afterPrefill_of_gt hfresh hroom []).1.1
  exact decodeSteps_eq_appendRows (storesLayout_clearMiddleBlocksForPrefillComplete hstored) hcompacted
    appended

section

variable (table : BlockTable) (firstN lastM promptLen row : ℕ)

theorem decodeStep_config (newBlockIds : List ℕ) :
    (table.decodeStep firstN lastM promptLen row newBlockIds).blockSize = table.blockSize ∧
      (table.decodeStep firstN lastM promptLen row newBlockIds).virtualBlockSize =
        table.virtualBlockSize := by
  obtain ⟨_, _, happend⟩ := table.appendRow_frame newBlockIds row
  obtain ⟨_, _, _, _, _, _, hframe⟩ :=
    (table.appendRow newBlockIds row).afterPrefill_frame firstN lastM promptLen row []
  have hstep : table.decodeStep firstN lastM promptLen row newBlockIds =
      (table.appendRow newBlockIds row).afterPrefill firstN lastM promptLen row [] := rfl
  rw [hstep, hframe, happend]
  exact ⟨rfl, rfl⟩

theorem decodeSteps_config (steps : List (List ℕ)) :
    (table.decodeSteps firstN lastM promptLen row steps).blockSize = table.blockSize ∧
      (table.decodeSteps firstN lastM promptLen row steps).virtualBlockSize =
        table.virtualBlockSize := by
  induction steps generalizing table with
  | nil => exact ⟨rfl, rfl⟩
  | cons newBlockIds rest ih =>
    obtain ⟨hsize, hvirtual⟩ := ih _
    obtain ⟨hsize', hvirtual'⟩ := table.decodeStep_config firstN lastM promptLen row newBlockIds
    exact ⟨hsize.trans hsize', hvirtual.trans hvirtual'⟩

end

theorem logicalSlot_decodeSteps {firstN lastM promptLen : ℕ} (hfresh : table.nelssaCompacted row = false)
    (steps : List (List ℕ))
    (hcompacted : (table.decodeSteps firstN lastM promptLen row steps).nelssaCompacted row = true) (pos : ℕ) :
    (table.decodeSteps firstN lastM promptLen row steps).logicalSlot row pos =
      if tailStartPos lastM promptLen table.blockSize ≤ pos then
        headBlocks firstN table.blockSize * table.virtualBlockSize +
          (pos - tailStartPos lastM promptLen table.blockSize)
      else pos := by
  have hstored : table.StoresLayout firstN lastM promptLen row := by
    simp [StoresLayout, hfresh]
  obtain ⟨hhead, -, hstart⟩ := storesLayout_decodeSteps hstored steps hcompacted
  obtain ⟨hsize, hvirtual⟩ := table.decodeSteps_config firstN lastM promptLen row steps
  simp only [logicalSlot, hcompacted, hhead, hstart, hsize, hvirtual, true_and, Nat.cast_le]
  split_ifs <;> omega

end BlockTable

/-! ## Comparing the two lengths -/

open BlockTable

theorem sparseSeqLen_long (blockSize headSize tailSize promptLen numComputed numScheduled : ℕ) :
    sparseSeqLen blockSize true headSize tailSize promptLen numComputed numScheduled =
      (headBlocks headSize blockSize * blockSize : ℕ) -
        (tailStartPos tailSize promptLen blockSize : ℤ) + max numComputed promptLen := by
  have hle := tailStartPos_le tailSize promptLen blockSize
  have hraw : max ((promptLen : ℤ) - tailSize) 0 = (promptLen - tailSize : ℕ) := by omega
  have hstart : max ((promptLen : ℤ) - tailSize) 0 / blockSize * blockSize =
      (tailStartPos tailSize promptLen blockSize : ℕ) := by
    rw [hraw]
    rfl
  have hhead : ((headSize : ℤ) + blockSize - 1) / blockSize * blockSize =
      (headBlocks headSize blockSize * blockSize : ℕ) := by
    rcases eq_zero_or_pos blockSize with rfl | hpos
    · simp
    · have hcast : ((headSize : ℤ) + blockSize - 1) = (headSize + blockSize - 1 : ℕ) := by omega
      rw [hcast]
      rfl
  simp only [sparseSeqLen, if_true, Bool.false_eq_true, if_false, hstart, hhead]
  omega

namespace StepTensors

section

variable (tensors : StepTensors)

/-- Scheduled tokens of a row that lie behind what the attention length counts: the length counts the
prompt and the tokens generated before the step. -/
def uncountedTokens (row : ℕ) : ℤ :=
  (tensors.numComputedTokens row + tensors.numScheduledTokens row : ℕ) -
    (max (tensors.numComputedTokens row) (tensors.promptLen row) : ℕ)

/-- How much farther the attention length shifts the tail than the row's own layout. Both use the
same rounding, the attention length with the configured block size and the row with the block size of
its kernel and the context-parallel world size. -/
def layoutGap (table : BlockTable) (row : ℕ) : ℤ :=
  ((headBlocks (tensors.headSize row) tensors.blockSize * tensors.blockSize : ℕ) -
      (tailStartPos (tensors.tailSize row) (tensors.promptLen row) tensors.blockSize : ℕ)) -
    ((headBlocks (tensors.headSize row) table.blockSize * table.virtualBlockSize : ℕ) -
      (tailStartPos (tensors.tailSize row) (tensors.promptLen row) table.blockSize : ℕ))

/-- The input condition under which the attention length ends behind the last scheduled token. The
second case is an empty tail whose aligned start is the end of the prompt. -/
def CountsScheduled (table : BlockTable) (row : ℕ) : Prop :=
  if tailStartPos (tensors.tailSize row) (tensors.promptLen row) table.blockSize <
      tensors.numComputedTokens row + tensors.numScheduledTokens row then
    tensors.uncountedTokens row = tensors.layoutGap table row
  else headBlocks (tensors.headSize row) tensors.blockSize * tensors.blockSize =
    tailStartPos (tensors.tailSize row) (tensors.promptLen row) tensors.blockSize

end

instance (tensors : StepTensors) (table : BlockTable) (row : ℕ) :
    Decidable (tensors.CountsScheduled table row) := by
  unfold CountsScheduled
  infer_instance

section

variable (tensors : StepTensors) (table : BlockTable) (row : ℕ)

/-- The keys of a row up to and including the slot of its last scheduled token. -/
def keysThroughLastToken : ℤ :=
  1 + (table.logicalSlot row (tensors.numComputedTokens row + tensors.numScheduledTokens row - 1) : ℤ)

/-- The table in which `tensors` schedules a long request: `steps` are the block ids appended in each
decode step so far, this one included. -/
def decodeTable (steps : List (List ℕ)) : BlockTable :=
  table.decodeSteps (tensors.headSize row) (tensors.tailSize row) (tensors.promptLen row) row steps

end

/-- In every decode step of a long request there is an attention length for its row that ends just behind
the slot of the last scheduled token exactly when the unpadded tensors fit the padded ones and the length
counts all scheduled tokens. -/
theorem seqLen_eq_keysThroughLastToken_iff (tensors : StepTensors) (table : BlockTable) {row : ℕ}
    (hrow : row < tensors.numReqs) (hlong : tensors.nelssaLongMask row = true)
    (hdecode : tensors.promptLen row ≤ tensors.numComputedTokens row + 1)
    (hscheduled : 1 ≤ tensors.numScheduledTokens row)
    (hfresh : table.nelssaCompacted row = false) (steps : List (List ℕ))
    (hcompacted : (tensors.decodeTable table row steps).nelssaCompacted row = true) :
    (∃ lens, tensors.computeSparseSeqLensForAttention = some lens ∧
        lens[row]? = some (tensors.keysThroughLastToken (tensors.decodeTable table row steps) row)) ↔
      (tensors.numReqs = tensors.numReqsPadded ∨ tensors.numReqs = 1) ∧
        tensors.CountsScheduled table row := by
  have hstart := tailStartPos_le (tensors.tailSize row) (tensors.promptLen row) table.blockSize
  have hslot := logicalSlot_decodeSteps hfresh steps hcompacted
    (tensors.numComputedTokens row + tensors.numScheduledTokens row - 1)
  rw [exists_computeSparseSeqLens_iff tensors hrow, hlong, sparseSeqLen_long, keysThroughLastToken,
    decodeTable, hslot]
  refine and_congr_right fun _ ↦ ?_
  unfold CountsScheduled uncountedTokens layoutGap
  by_cases htail : tailStartPos (tensors.tailSize row) (tensors.promptLen row) table.blockSize <
      tensors.numComputedTokens row + tensors.numScheduledTokens row
  · rw [if_pos htail, if_pos (Nat.le_sub_one_of_lt htail)]
    omega
  · -- Only the last prompt token is scheduled, in front of an empty tail.
    rw [if_neg htail, if_neg (by omega)]
    omega

end StepTensors

/-! ## The first and the second decode step -/

/-- A request of 160 prompt tokens alone in the batch, with `numComputed` tokens computed and one
scheduled. -/
def soloTensors (numComputed : ℕ) : StepTensors where
  blockSize := 16
  numReqs := 1
  numReqsPadded := 1
  numReqs_le := le_rfl
  nelssaLongMask := fun _ ↦ true
  headSize := fun _ ↦ 16
  tailSize := fun _ ↦ 64
  promptLen := fun _ ↦ 160
  numComputedTokens := fun _ ↦ numComputed
  numScheduledTokens := fun _ ↦ 1

def soloTable : BlockTable where
  blockSize := 16
  blocksPerKvBlock := 1
  useHybridBlocks := false
  pcpWorldSize := 1
  pcpRank := 0
  dcpWorldSize := 1
  dcpRank := 0
  cpKvCacheInterleaveSize := 1
  blockTable := fun _ _ ↦ 0
  numBlocksPerRow := fun _ ↦ 0
  nelssaCompacted := fun _ ↦ false
  nelssaHeadBlocks := fun _ ↦ 0
  nelssaTailBlocks := fun _ ↦ 0
  nelssaTailStartPos := fun _ ↦ 0

theorem seqLen_firstStep :
    (soloTensors 159).CountsScheduled soloTable 0 ∧
      ∃ lens, (soloTensors 159).computeSparseSeqLensForAttention = some lens ∧
        lens[0]? = some ((soloTensors 159).keysThroughLastToken
          ((soloTensors 159).decodeTable soloTable 0 [[1, 2, 3, 4, 5, 6, 7, 8, 9, 10]]) 0) := by
  have hcounts : (soloTensors 159).CountsScheduled soloTable 0 := by decide
  exact ⟨hcounts, (StepTensors.seqLen_eq_keysThroughLastToken_iff _ soloTable (by decide) rfl (by decide)
    (by decide) rfl [[1, 2, 3, 4, 5, 6, 7, 8, 9, 10]] (by decide)).2 ⟨.inl rfl, hcounts⟩⟩

/-- In the second decode step the length is 80, while the query token has slot 80. -/
theorem seqLen_secondStep :
    let table := (soloTensors 160).decodeTable soloTable 0 [[1, 2, 3, 4, 5, 6, 7, 8, 9, 10], [11]]
    table.nelssaCompacted 0 = true ∧
      ¬ ∃ lens, (soloTensors 160).computeSparseSeqLensForAttention = some lens ∧
        lens[0]? = some ((soloTensors 160).keysThroughLastToken table 0) := by
  have hlens : (soloTensors 160).computeSparseSeqLensForAttention = some [80] := by decide
  refine ⟨by decide, ?_⟩
  rw [hlens]
  rintro ⟨lens, ⟨⟩, hlen⟩
  exact absurd hlen (by decide)

end Nelssa.Worker
