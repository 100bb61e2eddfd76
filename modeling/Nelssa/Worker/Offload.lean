import Mathlib.Data.List.Intervals
import Nelssa.Worker.SeqLens

/-!
# Offloading the middle of a long prompt

During prefill the offload callback copies the middle rows of every chunk of a long request to its
CPU buffer, cut at the raw sizes `first_n` and `last_m`. During decode the attention reads the
compacted GPU row up to a sequence length whose head and tail are aligned to blocks. The main theorem
says for which sizes the two sides share the prompt without overlap or gap.
-/

namespace Nelssa.Worker.Offload

open Foundation.BlockArithmetic BlockTable Function List.Ico
open List hiding max min not_le

/-! ## The offload callback -/

/-- The entry of one long request in the scheduler's chunk information. -/
structure ChunkInfo where
  isPrefillChunk : Bool
  promptLen : ℕ
  chunkStart : ℕ
  chunkEnd : ℕ

/-- The scheduler's entry for a request with `numTokens` known tokens. -/
def chunkInfo (numPromptTokens numTokens numComputedTokens numScheduled : ℕ) : ChunkInfo where
  isPrefillChunk := numComputedTokens < numPromptTokens
  promptLen := numTokens
  chunkStart := numComputedTokens
  chunkEnd := numComputedTokens + numScheduled

/-- The used parts of a request's CPU buffer and of its device buffer for clustering; their lengths
are the stored offsets. -/
structure Buffers (κ : Type*) where
  cpu : List κ
  gpu : List κ

variable {κ ρ : Type*} [DecidableEq ρ]

/-- One forward pass as the callback sees it. -/
structure ForwardStep (κ ρ : Type*) where
  chunkInfo : List (ρ × ChunkInfo)
  reqIdToIdx : ρ → Option ℕ
  batch : QueryBatch
  keyStates : ℕ → κ

/-- The rows of a chunk that the callback copies. A negative `prompt_len - last_m` counts as zero, which
skips the chunk as well. -/
def middleRows (firstN lastM : ℕ) (step : ForwardStep κ ρ) (info : ChunkInfo) (reqIdx : ℕ) : List κ :=
  let reqTokenStart := step.batch.queryStartLoc reqIdx
  let midStart := max firstN info.chunkStart
  let midEnd := if 0 < info.promptLen then min (info.promptLen - lastM) info.chunkEnd
    else info.chunkEnd
  if midEnd ≤ midStart then [] else
    let localMidStart := reqTokenStart + (midStart - info.chunkStart)
    let localMidEnd := reqTokenStart + (midEnd - info.chunkStart)
    (Ico localMidStart localMidEnd).map step.keyStates

/-- One iteration of the callback's loop: the middle rows of the chunk are appended to both buffers. -/
def offloadRequest (firstN lastM : ℕ) (step : ForwardStep κ ρ) (info : ChunkInfo) (reqIdx : ℕ)
    (buffers : Buffers κ) : Buffers κ :=
  let rows := middleRows firstN lastM step info reqIdx
  ⟨buffers.cpu ++ rows, buffers.gpu ++ rows⟩

section

variable (firstN lastM : ℕ) (bufferKey : ρ → ρ)

/-- The loop body of the callback; `bufferKey` resolves the id under which the buffers of a request
are stored. -/
def offloadEntry (step : ForwardStep κ ρ) (buffers : ρ → Buffers κ) (entry : ρ × ChunkInfo) : ρ → Buffers κ :=
  if entry.2.isPrefillChunk then
    (step.reqIdToIdx entry.1).elim buffers fun reqIdx ↦
      update buffers (bufferKey entry.1)
        (offloadRequest firstN lastM step entry.2 reqIdx (buffers (bufferKey entry.1)))
  else buffers

/-- `_sparse_kv_offload_callback` for one layer. -/
def offloadCallback (buffers : ρ → Buffers κ) (step : ForwardStep κ ρ) : ρ → Buffers κ :=
  step.chunkInfo.foldl (offloadEntry firstN lastM bufferKey step) buffers

end

/-- The step runs tokens `[start, start + count)` of a request with `promptLen` prompt tokens. -/
structure Schedules (step : ForwardStep ℕ ρ) (bufferKey : ρ → ρ) (req : ρ)
    (promptLen start count : ℕ) : Prop where
  info : ∃ before after reqIdx, step.chunkInfo =
      before ++ (req, chunkInfo promptLen promptLen start count) :: after ∧
    (∀ entry ∈ before ++ after, bufferKey entry.1 ≠ bufferKey req) ∧
    step.reqIdToIdx req = some reqIdx ∧
    step.batch.queryStartLoc (reqIdx + 1) = step.batch.queryStartLoc reqIdx + count ∧
    ∀ token < count, step.batch.positions (step.batch.queryStartLoc reqIdx + token) = start + token
  rows : step.keyStates = step.batch.positions

/-- The steps compute the prompt from `start` on, in chunks of any positive sizes. -/
def Prefills (bufferKey : ρ → ρ) (req : ρ) (promptLen : ℕ) : ℕ → List (ForwardStep ℕ ρ) → Prop
  | start, [] => start = promptLen
  | start, step :: rest => ∃ count > 0, start + count ≤ promptLen ∧
      Schedules step bufferKey req promptLen start count ∧
      Prefills bufferKey req promptLen (start + count) rest

theorem foldl_offloadEntry_of_ne (firstN lastM : ℕ) (bufferKey : ρ → ρ) (step : ForwardStep κ ρ)
    (entries : List (ρ × ChunkInfo)) (buffers : ρ → Buffers κ) {key : ρ}
    (hne : ∀ entry ∈ entries, bufferKey entry.1 ≠ key) :
    entries.foldl (offloadEntry firstN lastM bufferKey step) buffers key = buffers key := by
  induction entries generalizing buffers with
  | nil => rfl
  | cons entry rest ih =>
    have hkey := (hne entry mem_cons_self).symm
    rw [foldl_cons, ih _ fun other hother ↦ hne other (mem_cons_of_mem entry hother)]
    unfold offloadEntry
    split
    · cases step.reqIdToIdx entry.1 with
      | none => rfl
      | some reqIdx => exact update_of_ne hkey _ _
    · rfl

variable {start : ℕ}

theorem map_positions_Ico {batch : QueryBatch} {first count low high : ℕ}
    (hpositions : ∀ token < count, batch.positions (first + token) = start + token) (hlow : start ≤ low)
    (hhigh : high ≤ start + count) :
    (Ico (first + (low - start)) (first + (high - start))).map batch.positions = Ico low high := by
  apply ext_getElem
  · simp only [length_map, Ico.length]
    omega
  · intro index hleft _
    simp only [length_map, Ico.length] at hleft
    simp only [getElem_map, Ico, getElem_range', one_mul]
    have htoken := hpositions (low - start + index) (by omega)
    rw [← add_assoc] at htoken
    omega

variable {promptLen firstN : ℕ} {lastM : ℕ} {bufferKey : ρ → ρ}

/-- A chunk appends the positions of the prompt's middle that it computes. -/
theorem offloadCallback_schedules {count : ℕ} {req : ρ} {step : ForwardStep ℕ ρ} (hcount : 0 < count)
    (hprompt : start + count ≤ promptLen) (hstep : Schedules step bufferKey req promptLen start count)
    (buffers : ρ → Buffers ℕ) :
    (offloadCallback firstN lastM bufferKey buffers step (bufferKey req)).cpu =
      (buffers (bufferKey req)).cpu ++ Ico (max firstN start) (min (promptLen - lastM) (start + count)) := by
  obtain ⟨⟨before, after, _, hentries, hothers, hidx, -, hpositions⟩, hrows⟩ := hstep
  have hbefore := foldl_offloadEntry_of_ne firstN lastM bufferKey step before buffers
    fun entry hentry ↦ hothers entry (mem_append_left after hentry)
  rw [offloadCallback, hentries, foldl_append, foldl_cons,
    foldl_offloadEntry_of_ne _ _ _ _ _ _ fun entry hentry ↦ hothers entry (mem_append_right before hentry)]
  have hchunk : (chunkInfo promptLen promptLen start count).isPrefillChunk = true := by
    simp only [chunkInfo, decide_eq_true_eq]
    omega
  simp only [offloadEntry, hchunk, if_true, hidx, Option.elim_some, update_self, hbefore]
  simp only [offloadRequest, middleRows, chunkInfo, (by omega : 0 < promptLen), if_true]
  split
  · rename_i hempty
    rw [eq_nil_of_le hempty]
  · rw [hrows, map_positions_Ico hpositions (le_max_right _ _) (min_le_right _ _)]

/-- After the prefill the CPU buffer holds the raw middle of the prompt behind the cached tokens, in
order and without repetition, however the prefill was cut into chunks. -/
theorem foldl_offloadCallback_prefills (firstN lastM : ℕ) {req : ρ} (steps : List (ForwardStep ℕ ρ))
    (hsteps : Prefills bufferKey req promptLen start steps) (buffers : ρ → Buffers ℕ) :
    (steps.foldl (offloadCallback firstN lastM bufferKey) buffers (bufferKey req)).cpu =
      (buffers (bufferKey req)).cpu ++ Ico (max firstN start) (promptLen - lastM) := by
  induction steps generalizing start buffers with
  | nil =>
    have hempty : promptLen - lastM ≤ max firstN start := by
      have hstart : start = promptLen := hsteps
      omega
    rw [foldl_nil, eq_nil_of_le hempty, append_nil]
  | cons step rest ih =>
    obtain ⟨count, hcount, hprompt, hstep, hrest⟩ := hsteps
    rw [foldl_cons, ih hrest, offloadCallback_schedules hcount hprompt hstep, append_assoc]
    congr 1
    rcases Nat.le_total _ _ with hlast | hmore
    · rw [min_eq_left hlast, eq_nil_of_le (hlast.trans (le_max_right _ _)), append_nil]
    · rw [min_eq_right hmore]
      rcases le_total firstN (start + count) with hpast | hhead
      · rw [max_eq_right hpast]
        exact append_consecutive (max_le hpast (Nat.le_add_right _ _)) hmore
      · have hempty : start + count ≤ max firstN start := hhead.trans (le_max_left _ _)
        have hstart := (Nat.le_add_right _ _).trans hhead
        rw [eq_nil_of_le hempty, nil_append, max_eq_left hhead, max_eq_left hstart]

/-! ## What the decode attention reads -/

/-- The slot that paged attention reads for an index of the sequence. -/
def attendedSlot (table : BlockTable) (row index : ℕ) : ℤ :=
  ((table.blockTable row (index / table.blockSize) * table.blockSize + index % table.blockSize : ℕ) : ℤ)

/-- A row that was filled by the prefill of a prompt on one rank: it holds the blocks of the prompt,
and the cache's block size is the one of the table. -/
structure PrefilledRow (table : BlockTable) (row promptLen : ℕ) : Prop where
  valid : table.Valid
  single : table.totalCpWorldSize = 1
  fresh : table.nelssaCompacted row = false
  nodup : (table.rowBlocks row).Nodup
  exact : table.numBlocksPerRow row = cdiv promptLen table.blockSize

/-- The decode attention of a later step reads the slot that the prefill wrote for `position`. -/
def GpuReads (table : BlockTable) (firstN lastM promptLen row : ℕ) (appended : List (List ℕ))
    (numComputedTokens numScheduledTokens pos : ℕ) : Prop :=
  ∃ index : ℕ, index < sparseSeqLen table.blockSize true firstN lastM promptLen numComputedTokens
      numScheduledTokens ∧
    attendedSlot (table.afterPrefill firstN lastM promptLen row appended) row index =
      table.kernelSlot row pos

variable {table : BlockTable}

theorem virtualBlockSize_of_single (hsingle : table.totalCpWorldSize = 1) :
    table.virtualBlockSize = table.blockSize := by
  rw [virtualBlockSize, hsingle, mul_one]

theorem kernelSlot_eq_attendedSlot (hvalid : table.Valid) (hsingle : table.totalCpWorldSize = 1)
    (row pos : ℕ) : table.kernelSlot row pos = attendedSlot table row (table.logicalSlot row pos) := by
  have hrank : table.totalCpRank = 0 := by
    have hlt := hvalid.totalCpRank_lt
    omega
  have hlocal (offset : ℕ) : table.IsLocal offset := by
    rw [IsLocal, hsingle, hrank, Nat.mod_one]
  have hoff (offset : ℕ) : table.localBlockOffset offset = offset := by
    rw [localBlockOffset, hsingle, one_mul, Nat.div_add_mod']
  simp [kernelSlot, attendedSlot, hlocal, hoff, virtualBlockSize_of_single hsingle]

section Decode

variable {row : ℕ} (hrow : PrefilledRow table row promptLen)

include hrow

theorem PrefilledRow.keepsSlots (firstN lastM : ℕ) : table.KeepsSlots firstN lastM promptLen row := by
  have hsize := hrow.valid.blockSize_pos
  right
  rw [virtualBlockSize_of_single hrow.single, hrow.exact]
  refine ⟨dvd_alignDown _ _, ?_⟩
  rw [← tailStart_add_tailBlocks hsize, tailStartPos, Nat.mul_div_cancel _ hsize]

variable {pos : ℕ}

theorem PrefilledRow.attendedSlot_logicalSlot (appended : List (List ℕ))
    (hlive : pos < headBlocks firstN table.blockSize * table.blockSize ∨
      tailStartPos lastM promptLen table.blockSize ≤ pos)
    (hblock : pos / table.blockSize < (table.requestBlocks row appended).length) :
    attendedSlot (table.afterPrefill firstN lastM promptLen row appended) row
        ((table.afterPrefill firstN lastM promptLen row appended).logicalSlot row pos) =
      table.slotIn (table.requestBlocks row appended) pos := by
  have hvirtual := virtualBlockSize_of_single hrow.single
  obtain ⟨_, _, _, _, _, _, hframe⟩ :=
    table.afterPrefill_frame firstN lastM promptLen row appended
  have hvalid : (table.afterPrefill firstN lastM promptLen row appended).Valid := by
    rw [hframe]
    exact ⟨hrow.valid.1, hrow.valid.2, hrow.valid.3, hrow.valid.4, hrow.valid.5, hrow.valid.6⟩
  have hsingle : (table.afterPrefill firstN lastM promptLen row appended).totalCpWorldSize = 1 := by
    rw [hframe]
    exact hrow.single
  rw [← kernelSlot_eq_attendedSlot hvalid hsingle]
  exact kernelSlot_afterPrefill hrow.valid hrow.fresh (hrow.keepsSlots firstN lastM) appended
    (by rwa [hvirtual]) (by rwa [hvirtual])

theorem PrefilledRow.kernelSlot_prompt (appended : List (List ℕ)) (hpos : pos < promptLen) :
    table.kernelSlot row pos = table.slotIn (table.requestBlocks row appended) pos ∧
      pos / table.blockSize < (table.requestBlocks row appended).length := by
  have hvirtual := virtualBlockSize_of_single hrow.single
  have hheld : pos / table.blockSize < (table.rowBlocks row).length := by
    rw [length_rowBlocks, hrow.exact]
    exact div_lt_cdiv hrow.valid.blockSize_pos hpos
  constructor
  · rw [requestBlocks, slotIn_append_left (by rwa [hvirtual])]
    exact kernelSlot_uncompacted hrow.fresh (by simpa [hvirtual] using hheld)
  · rw [requestBlocks, length_append]
    exact hheld.trans_le (Nat.le_add_right _ _)

/-- A row is left alone exactly when its block-aligned head reaches its block-aligned tail. -/
theorem PrefilledRow.room_iff (firstN lastM : ℕ) :
    table.numBlocksPerRow row ≤
        headBlocks firstN table.blockSize + tailBlocks lastM promptLen table.blockSize ↔
      tailStartPos lastM promptLen table.blockSize ≤ headBlocks firstN table.blockSize * table.blockSize := by
  have hsize := hrow.valid.blockSize_pos
  rw [hrow.exact, ← tailStart_add_tailBlocks hsize, add_le_add_iff_right,
    tailStartPos, Nat.mul_le_mul_right_iff hsize]

/-- Every index the decode attention of a compacted row reads is the place of a live position. -/
theorem PrefilledRow.exists_logicalSlot {start kept : ℕ}
    (hstart : tailStartPos lastM promptLen table.blockSize = start)
    (hkept : headBlocks firstN table.blockSize * table.blockSize = kept) (hgap : kept < start)
    (appended : List (List ℕ)) (index : ℕ) :
    ∃ pos, (table.afterPrefill firstN lastM promptLen row appended).logicalSlot row pos = index ∧
      (pos = index ∧ pos < kept ∨ kept + pos = start + index ∧ start ≤ pos) := by
  subst hstart hkept
  have hroom := not_le.1 (mt (hrow.room_iff firstN lastM).1 (not_le.2 hgap))
  obtain ⟨⟨hflag, hhead, hstart⟩, -⟩ := afterPrefill_of_gt hrow.fresh hroom appended
  obtain ⟨hvirtual, -⟩ := table.afterPrefill_config firstN lastM promptLen row appended
  rw [virtualBlockSize_of_single hrow.single] at hvirtual
  by_cases hidx : index < headBlocks firstN table.blockSize * table.blockSize
  · refine ⟨index, ?_, .inl ⟨rfl, hidx⟩⟩
    simp [logicalSlot, hstart, not_le.2 (hidx.trans hgap)]
  · refine ⟨tailStartPos lastM promptLen table.blockSize +
      (index - headBlocks firstN table.blockSize * table.blockSize), ?_, .inr (by omega)⟩
    rw [logicalSlot, if_pos ⟨hflag, by omega⟩, hhead, hvirtual]
    omega

theorem PrefilledRow.logicalSlot_lt (appended : List (List ℕ)) (hpos : pos < promptLen)
    (hlive : pos < headBlocks firstN table.blockSize * table.blockSize ∨
      tailStartPos lastM promptLen table.blockSize ≤ pos) :
    (table.afterPrefill firstN lastM promptLen row appended).logicalSlot row pos <
      headBlocks firstN table.blockSize * table.blockSize +
        (promptLen - tailStartPos lastM promptLen table.blockSize) := by
  by_cases hmeet : tailStartPos lastM promptLen table.blockSize ≤
      headBlocks firstN table.blockSize * table.blockSize
  · obtain ⟨_, _, hframe⟩ := table.appendRows_frame row appended
    rw [afterPrefill_of_le ((hrow.room_iff firstN lastM).2 hmeet), hframe]
    simp only [logicalSlot, hrow.fresh, Bool.false_eq_true, false_and, if_false]
    omega
  · have hroom := not_le.1 (mt (hrow.room_iff firstN lastM).1 hmeet)
    obtain ⟨⟨hflag, hhead, hstart⟩, -⟩ := afterPrefill_of_gt hrow.fresh hroom appended
    obtain ⟨hvirtual, -⟩ := table.afterPrefill_config firstN lastM promptLen row appended
    rw [virtualBlockSize_of_single hrow.single] at hvirtual
    simp only [logicalSlot, hflag, hhead, hstart, hvirtual, true_and, Nat.cast_le]
    split <;> omega

/-- The decode attention reads exactly the prompt positions of the block-aligned head and tail. -/
theorem PrefilledRow.gpuReads_iff (firstN lastM : ℕ) {appended : List (List ℕ)}
    (hnodup : (table.requestBlocks row appended).Nodup) {numComputedTokens : ℕ}
    (hblocks : numComputedTokens ≤ table.blockSize * (table.requestBlocks row appended).length)
    (numScheduledTokens : ℕ) (hpos : pos < promptLen) :
    GpuReads table firstN lastM promptLen row appended numComputedTokens numScheduledTokens pos ↔
      pos < headBlocks firstN table.blockSize * table.blockSize ∨
        tailStartPos lastM promptLen table.blockSize ≤ pos := by
  have hsize := hrow.valid.blockSize_pos
  have hvirtual := virtualBlockSize_of_single hrow.single
  have htailLe := tailStartPos_le lastM promptLen table.blockSize
  obtain ⟨hwritten, hblock⟩ := hrow.kernelSlot_prompt appended hpos
  unfold GpuReads
  rw [sparseSeqLen_long, hwritten]
  constructor
  · rintro ⟨index, hidx, hread⟩
    by_cases hmeet : tailStartPos lastM promptLen table.blockSize ≤
        headBlocks firstN table.blockSize * table.blockSize
    · omega
    obtain ⟨source, hsource, hplace⟩ := hrow.exists_logicalSlot rfl rfl (not_le.1 hmeet) appended index
    have hsourceLive : source < headBlocks firstN table.blockSize * table.blockSize ∨
        tailStartPos lastM promptLen table.blockSize ≤ source := by omega
    -- The attended place belongs to a computed token, which has a block of the request.
    have hprompt : promptLen ≤ table.blockSize * (table.requestBlocks row appended).length := by
      have hcover := le_mul_cdiv hsize promptLen
      have hheld : cdiv promptLen table.blockSize ≤ (table.requestBlocks row appended).length := by
        rw [requestBlocks, length_append, length_rowBlocks, hrow.exact]
        exact Nat.le_add_right _ _
      exact hcover.trans (Nat.mul_le_mul_left _ hheld)
    have hsourceBlock : source / table.blockSize < (table.requestBlocks row appended).length := by
      rw [Nat.div_lt_iff_lt_mul hsize, mul_comm]
      omega
    rw [← hsource, hrow.attendedSlot_logicalSlot appended hsourceLive hsourceBlock] at hread
    have hlocal : table.IsLocal (source % table.virtualBlockSize) := by
      have hrank := hrow.valid.totalCpRank_lt
      rw [hrow.single, Nat.lt_one_iff] at hrank
      rw [IsLocal, hrow.single, hrank, Nat.mod_one]
    have hsame := slotIn_inj hrow.valid hnodup hlocal (by rwa [hvirtual]) (by rwa [hvirtual]) hread
    rwa [hsame] at hsourceLive
  · intro hlive
    have hplace := hrow.logicalSlot_lt appended hpos hlive
    exact ⟨_, by omega, hrow.attendedSlot_logicalSlot appended hlive hblock⟩

end Decode

/-! ## Sharing the prompt -/

/-- The raw middle behind the cached tokens is the part of the prompt between the aligned head and
tail: both are empty, or they start and end at the same block boundaries. -/
def SharesPrompt (firstN lastM promptLen blockSize numCachedTokens : ℕ) : Prop :=
  tailStartPos lastM promptLen blockSize ≤ headBlocks firstN blockSize * blockSize ∧
      promptLen - lastM ≤ max firstN numCachedTokens ∨
    headBlocks firstN blockSize * blockSize < tailStartPos lastM promptLen blockSize ∧
      blockSize ∣ promptLen - lastM ∧
      max firstN numCachedTokens = headBlocks firstN blockSize * blockSize

instance (firstN lastM promptLen blockSize numCachedTokens : ℕ) :
    Decidable (SharesPrompt firstN lastM promptLen blockSize numCachedTokens) :=
  inferInstanceAs (Decidable (_ ∨ _))

theorem xor_interval_iff (low head : ℕ) {high tail : ℕ} (hhigh : high ≤ promptLen) (htail : tail ≤ high) :
    (∀ pos < promptLen, Xor (low ≤ pos ∧ pos < high) (pos < head ∨ tail ≤ pos)) ↔
      tail ≤ head ∧ high ≤ low ∨ head < tail ∧ tail = high ∧ low = head := by
  unfold Xor
  constructor
  · intro h
    rcases lt_or_ge head tail with hgap | hmeet
    · -- The boundaries of the gap decide where the copied interval starts and ends.
      have hfirst := h head (by omega)
      have hlow : low = head := by
        have hbefore := h low (by omega)
        omega
      have hend : tail = high := by
        by_contra hne
        have hbehind := h tail (by omega)
        omega
      exact .inr ⟨hgap, hend, hlow⟩
    · by_contra hcopied
      have hboth := h low (by omega)
      omega
  · rintro (⟨hmeet, hempty⟩ | ⟨hgap, rfl, rfl⟩) pos hpos <;> omega

/-- After the prefill of a long request, CPU buffer and decode attention split the prompt between
them exactly when the raw middle behind the cached tokens starts and ends where the aligned head and
tail do, or both leave nothing to the CPU. The prefill may be cut into any chunks, and the decode
step may come after any number of generated tokens whose blocks were appended. -/
theorem cpu_xor_gpu_iff_sharesPrompt {firstN lastM promptLen numCachedTokens row : ℕ}
    {table : BlockTable} (hrow : PrefilledRow table row promptLen) {bufferKey : ρ → ρ} {req : ρ}
    {steps : List (ForwardStep ℕ ρ)}
    (hsteps : Prefills bufferKey req promptLen numCachedTokens steps)
    {appended : List (List ℕ)} (hnodup : (table.requestBlocks row appended).Nodup)
    {numComputedTokens : ℕ}
    (hblocks : numComputedTokens ≤ table.blockSize * (table.requestBlocks row appended).length)
    (numScheduledTokens : ℕ) :
    (∀ pos < promptLen, Xor
        (pos ∈ (steps.foldl (offloadCallback firstN lastM bufferKey) (fun _ ↦ ⟨[], []⟩) (bufferKey req)).cpu)
        (GpuReads table firstN lastM promptLen row appended numComputedTokens numScheduledTokens pos)) ↔
      SharesPrompt firstN lastM promptLen table.blockSize numCachedTokens := by
  have hoffloaded (pos : ℕ) :
      pos ∈ (steps.foldl (offloadCallback firstN lastM bufferKey) (fun _ ↦ ⟨[], []⟩) (bufferKey req)).cpu ↔
        max firstN numCachedTokens ≤ pos ∧ pos < promptLen - lastM := by
    rw [foldl_offloadCallback_prefills firstN lastM steps hsteps, nil_append, mem]
  have hshared := xor_interval_iff (max firstN numCachedTokens)
    (headBlocks firstN table.blockSize * table.blockSize) (Nat.sub_le promptLen lastM)
    (alignDown_le _ table.blockSize)
  rw [SharesPrompt, ← alignDown_eq_iff]
  refine .trans (forall₂_congr fun pos hposition ↦ ?_) hshared
  rw [hoffloaded, hrow.gpuReads_iff firstN lastM hnodup hblocks numScheduledTokens hposition]
  rfl

/-- A step that runs one chunk of request 0 and nothing else. -/
def soloStep (promptLen start count : ℕ) : ForwardStep ℕ ℕ where
  chunkInfo := [(0, chunkInfo promptLen promptLen start count)]
  reqIdToIdx := fun _ ↦ some 0
  batch :=
    { numReqs := 1
      numTokens := count
      queryStartLoc := fun request ↦ if request = 0 then 0 else count
      positions := fun token ↦ start + token
      monotone := by
        intro first second hle
        dsimp only
        split <;> split <;> omega
      covered := by simp }
  keyStates := fun token ↦ start + token

theorem schedules_soloStep (promptLen start count : ℕ) :
    Schedules (soloStep promptLen start count) id 0 promptLen start count where
  info := ⟨[], [], 0, rfl, by simp, rfl, by simp [soloStep], by simp [soloStep]⟩
  rows := rfl

theorem prefilledRow_rankRow (promptLen : ℕ) :
    PrefilledRow (rankRow (range' 1 (cdiv promptLen 16))) 0 promptLen := by
  have hblocks : (rankRow (range' 1 (cdiv promptLen 16))).rowBlocks 0 =
      range' 1 (cdiv promptLen 16) := rowBlocks_addRow _ _ _
  obtain ⟨cells, lengths, hframe⟩ : ∃ cells lengths, rankRow (range' 1 (cdiv promptLen 16)) =
      { rankRow [] with blockTable := cells, numBlocksPerRow := lengths } := appendRow_frame _ _ _
  have hvalid : (rankRow []).Valid := ⟨by decide, by decide, by decide, by decide, by decide, by decide⟩
  refine ⟨?_, ?_, ?_, ?_, ?_⟩
  · rw [hframe]
    exact ⟨hvalid.1, hvalid.2, hvalid.3, hvalid.4, hvalid.5, hvalid.6⟩
  · rw [hframe]
    rfl
  · rw [hframe]
    rfl
  · rw [hblocks]
    exact nodup_range'
  · rw [← length_rowBlocks, hblocks, length_range', hframe]
    rfl

/-- A prompt of 160 tokens in blocks of 16, prefilled in two chunks, is shared with a head of 16 and
a tail of 64 tokens. -/
theorem cpu_xor_gpu_of_aligned_sizes : SharesPrompt 16 64 160 16 0 ∧ ∀ pos < 160, Xor
    (pos ∈ ([soloStep 160 0 100, soloStep 160 100 60].foldl (offloadCallback 16 64 id)
      (fun _ ↦ ⟨[], []⟩) 0).cpu)
    (GpuReads (rankRow (range' 1 (cdiv 160 16))) 16 64 160 0 [] 160 1 pos) :=
  have hprefill := ⟨100, by decide, by decide, schedules_soloStep 160 0 100,
      60, by decide, by decide, schedules_soloStep 160 100 60, rfl⟩
  ⟨by decide, (cpu_xor_gpu_iff_sharesPrompt (prefilledRow_rankRow 160) hprefill (by decide)
    (by decide) 1).2 (by decide)⟩

/-- With the default sizes a prompt of 2001 tokens is copied up to position 1937, while the aligned
tail starts at 1936: position 1936 is counted on both sides. -/
theorem unalignedPrompt_counted_twice : ¬ ∀ pos < 2001, Xor
    (pos ∈ ([soloStep 2001 0 2001].foldl (offloadCallback 16 64 id) (fun _ ↦ ⟨[], []⟩) 0).cpu)
    (GpuReads (rankRow (range' 1 (cdiv 2001 16))) 16 64 2001 0 [] 2001 1 pos) := by
  intro hshared
  have hrow := prefilledRow_rankRow 2001
  have hblocks : (rankRow (range' 1 (cdiv 2001 16))).requestBlocks 0 [] = range' 1 126 :=
    (append_nil _).trans (rowBlocks_addRow _ _ _)
  have hprefill : Prefills id 0 2001 0 [soloStep 2001 0 2001] :=
    ⟨2001, by decide, le_rfl, schedules_soloStep 2001 0 2001, rfl⟩
  rcases hshared 1936 (by decide) with ⟨-, hnot⟩ | ⟨-, hnot⟩
  · refine hnot ((hrow.gpuReads_iff 16 64 ?_ ?_ 1 (by decide)).2 (.inr (by decide)))
    · rw [hblocks]
      exact nodup_range'
    · rw [hblocks, length_range']
      decide
  · have hbuffer := foldl_offloadCallback_prefills 16 64 _ hprefill (fun _ ↦ ⟨[], []⟩)
    rw [id] at hbuffer
    rw [hbuffer, nil_append, mem] at hnot
    exact hnot (by decide)

end Nelssa.Worker.Offload
