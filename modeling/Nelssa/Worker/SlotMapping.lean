import Mathlib.Tactic.Ring
import Nelssa.Worker.BlockTable

/-!
# Slot mapping

`kernelSlot` is the per-token body of the slot-mapping kernel and `computeSlotMapping` the launch
over a batch. Every token of the batch gets the slot of its own request, so statements about the
mapping reduce to the kernel body. Rows that grow by `append_row` keep everything but their block ids
and lengths.
-/

namespace Nelssa.Worker

open Foundation.BlockArithmetic List

def padSlotId : ℤ := -1

namespace BlockTable

section

variable (table : BlockTable)

def totalCpWorldSize : ℕ := table.pcpWorldSize * table.dcpWorldSize

def totalCpRank : ℕ := table.pcpRank * table.dcpWorldSize + table.dcpRank

def virtualBlockSize : ℕ := table.blockSize * table.totalCpWorldSize

/-- The position inside the row's own blocks that the kernel assigns to a token position. -/
def logicalSlot (row pos : ℕ) : ℕ :=
  let headSize := table.nelssaHeadBlocks row * table.virtualBlockSize
  let tailStartPos := table.nelssaTailStartPos row
  if table.nelssaCompacted row ∧ tailStartPos ≤ pos then
    headSize + ((pos : ℤ) - tailStartPos).toNat
  else pos

/-- Whether the token at an offset of a virtual block is stored on this rank. -/
def IsLocal (virtualBlockOffset : ℕ) : Prop :=
  virtualBlockOffset / table.cpKvCacheInterleaveSize % table.totalCpWorldSize = table.totalCpRank

end

instance (table : BlockTable) (virtualBlockOffset : ℕ) : Decidable (table.IsLocal virtualBlockOffset) :=
  inferInstanceAs (Decidable (_ = _))

/-- The offset inside this rank's block of an offset of the virtual block. -/
def localBlockOffset (table : BlockTable) (virtualBlockOffset : ℕ) : ℕ :=
  virtualBlockOffset / (table.totalCpWorldSize * table.cpKvCacheInterleaveSize) *
    table.cpKvCacheInterleaveSize + virtualBlockOffset % table.cpKvCacheInterleaveSize

/-- The slot written for one token by `_compute_slot_mapping_kernel`. -/
def kernelSlot (table : BlockTable) (row pos : ℕ) : ℤ :=
  let logicalBlockIndex := table.logicalSlot row pos / table.virtualBlockSize
  let virtualBlockOffset := table.logicalSlot row pos % table.virtualBlockSize
  let blockNumber := table.blockTable row logicalBlockIndex
  if table.IsLocal virtualBlockOffset then
    ((blockNumber * table.blockSize + table.localBlockOffset virtualBlockOffset : ℕ) : ℤ)
  else padSlotId

end BlockTable

/-- The token layout of one step: request `r` owns the tokens
`[queryStartLoc r, queryStartLoc (r + 1))`. -/
structure QueryBatch where
  numReqs : ℕ
  numTokens : ℕ
  queryStartLoc : ℕ → ℕ
  positions : ℕ → ℕ
  monotone : Monotone queryStartLoc
  covered : queryStartLoc numReqs ≤ numTokens

/-- Token `token` of the batch belongs to the request in `row`. -/
def QueryBatch.InRow (batch : QueryBatch) (row token : ℕ) : Prop :=
  row < batch.numReqs ∧ batch.queryStartLoc row ≤ token ∧ token < batch.queryStartLoc (row + 1)

variable {row : ℕ}

namespace BlockTable

variable (table : BlockTable)

/-- The kernel program of one request writes the slots of its own tokens. -/
def writeRequest (batch : QueryBatch) (slotMapping : ℕ → ℤ) (row : ℕ) :
    ℕ → ℤ := fun token ↦
  if batch.queryStartLoc row ≤ token ∧ token < batch.queryStartLoc (row + 1) then
    table.kernelSlot row (batch.positions token)
  else slotMapping token

/-- The kernel launch: one program per request and a last one that pads up to the token limit. -/
def computeSlotMapping (batch : QueryBatch) (maxNumBatchedTokens : ℕ) (slotMapping : ℕ → ℤ) : ℕ → ℤ :=
  let written := (range batch.numReqs).foldl (table.writeRequest batch) slotMapping
  fun token ↦ if batch.numTokens ≤ token ∧ token < maxNumBatchedTokens then padSlotId
    else written token

/-- The programs write disjoint token ranges, so every token keeps the slot of its own request. -/
theorem computeSlotMapping_eq_kernelSlot (batch : QueryBatch) (maxNumBatchedTokens : ℕ)
    (slotMapping : ℕ → ℤ) {token : ℕ} (hrow : batch.InRow row token) :
    table.computeSlotMapping batch maxNumBatchedTokens slotMapping token =
      table.kernelSlot row (batch.positions token) := by
  obtain ⟨hreq, hstart, hend⟩ := hrow
  have hlimit := (hend.trans_le (batch.monotone (Nat.succ_le_of_lt hreq))).trans_le batch.covered
  have hwritten (count : ℕ) (hcount : row < count) :
      (range count).foldl (table.writeRequest batch) slotMapping token =
        table.kernelSlot row (batch.positions token) := by
    induction count with
    | zero => omega
    | succ count ih =>
      rw [range_succ, foldl_append, foldl_cons, foldl_nil]
      rcases Nat.lt_succ_iff_lt_or_eq.1 hcount with hlt | rfl
      · -- A later request starts behind this token and leaves it alone.
        have hlater := not_le.2 (hend.trans_le (batch.monotone (Nat.succ_le_of_lt hlt)))
        simp only [writeRequest, hlater, false_and, if_false]
        exact ih hlt
      · simp [writeRequest, hstart, hend, and_self]
  simp only [computeSlotMapping, not_le.2 hlimit, false_and, if_false]
  exact hwritten _ hreq

/-- A table as the worker sets it up: ranks lie in their groups and the interleave size divides the
block size. -/
structure Valid : Prop where
  blockSize_pos : 0 < table.blockSize
  perKvBlock_pos : 0 < table.blocksPerKvBlock
  interleave_pos : 0 < table.cpKvCacheInterleaveSize
  interleave_dvd : table.cpKvCacheInterleaveSize ∣ table.blockSize
  pcpRank_lt : table.pcpRank < table.pcpWorldSize
  dcpRank_lt : table.dcpRank < table.dcpWorldSize

/-- The row after its generated tokens got their blocks, one `append_row` call per list. -/
def appendRows (row : ℕ) (appended : List (List ℕ)) : BlockTable :=
  appended.foldl (fun current blockIds ↦ current.appendRow blockIds row) table

/-- The blocks of the request in token order: its row before compaction and all later appends. -/
def requestBlocks (row : ℕ) (appended : List (List ℕ)) : List ℕ :=
  table.rowBlocks row ++ appended.flatMap table.kernelIds

end BlockTable

/-! ## Offsets of a virtual block -/

namespace BlockTable

variable {second first : ℕ} {table : BlockTable}

section Offsets

variable (hvalid : table.Valid)

include hvalid

theorem Valid.worldSize_pos : 0 < table.totalCpWorldSize :=
  mul_pos (Nat.zero_lt_of_lt hvalid.pcpRank_lt) (Nat.zero_lt_of_lt hvalid.dcpRank_lt)

theorem Valid.virtualBlockSize_pos : 0 < table.virtualBlockSize :=
  mul_pos hvalid.blockSize_pos hvalid.worldSize_pos

theorem Valid.totalCpRank_lt : table.totalCpRank < table.totalCpWorldSize :=
  calc table.pcpRank * table.dcpWorldSize + table.dcpRank
      < table.pcpRank * table.dcpWorldSize + table.dcpWorldSize := Nat.add_lt_add_left hvalid.dcpRank_lt _
    _ = (table.pcpRank + 1) * table.dcpWorldSize := (Nat.succ_mul _ _).symm
    _ ≤ table.pcpWorldSize * table.dcpWorldSize := Nat.mul_le_mul_right _ hvalid.pcpRank_lt

/-- Every rank stores the first interleave chunk of its turn in each virtual block. -/
theorem Valid.exists_isLocal : ∃ offset < table.virtualBlockSize, table.IsLocal offset := by
  have hinterleave := hvalid.interleave_pos
  refine ⟨table.totalCpRank * table.cpKvCacheInterleaveSize, ?_, ?_⟩
  · calc table.totalCpRank * table.cpKvCacheInterleaveSize
        < table.totalCpWorldSize * table.cpKvCacheInterleaveSize :=
          mul_lt_mul_of_pos_right hvalid.totalCpRank_lt hinterleave
      _ ≤ table.totalCpWorldSize * table.blockSize :=
          Nat.mul_le_mul_left _ (Nat.le_of_dvd hvalid.blockSize_pos hvalid.interleave_dvd)
      _ = table.virtualBlockSize := mul_comm _ _
  · rw [IsLocal, Nat.mul_div_cancel _ hinterleave, Nat.mod_eq_of_lt hvalid.totalCpRank_lt]

theorem Valid.localBlockOffset_lt {offset : ℕ} (hoff : offset < table.virtualBlockSize) :
    table.localBlockOffset offset < table.blockSize := by
  have hinterleave := hvalid.interleave_pos
  obtain ⟨chunks, hchunks⟩ := hvalid.interleave_dvd
  have hchunk : offset / (table.totalCpWorldSize * table.cpKvCacheInterleaveSize) < chunks := by
    rw [Nat.div_lt_iff_lt_mul (mul_pos hvalid.worldSize_pos hinterleave)]
    calc offset < table.blockSize * table.totalCpWorldSize := hoff
      _ = chunks * (table.totalCpWorldSize * table.cpKvCacheInterleaveSize) := by rw [hchunks]; ring
  calc table.localBlockOffset offset
      < offset / (table.totalCpWorldSize * table.cpKvCacheInterleaveSize) *
          table.cpKvCacheInterleaveSize + table.cpKvCacheInterleaveSize :=
        Nat.add_lt_add_left (Nat.mod_lt _ hinterleave) _
    _ = (offset / (table.totalCpWorldSize * table.cpKvCacheInterleaveSize) + 1) *
          table.cpKvCacheInterleaveSize := (Nat.succ_mul _ _).symm
    _ ≤ chunks * table.cpKvCacheInterleaveSize := Nat.mul_le_mul_right _ hchunk
    _ = table.blockSize := by rw [hchunks, mul_comm]

theorem Valid.localBlockOffset_injective (hfirst : table.IsLocal first) (hsecond : table.IsLocal second)
    (heq : table.localBlockOffset first = table.localBlockOffset second) : first = second := by
  have hinterleave := hvalid.interleave_pos
  have hsplit (offset : ℕ) (hlocal : table.IsLocal offset) :
      offset = table.totalCpWorldSize * table.cpKvCacheInterleaveSize *
          (table.localBlockOffset offset / table.cpKvCacheInterleaveSize) +
        (table.localBlockOffset offset % table.cpKvCacheInterleaveSize +
          table.cpKvCacheInterleaveSize * table.totalCpRank) := by
    have hquotient : table.localBlockOffset offset / table.cpKvCacheInterleaveSize =
        offset / (table.totalCpWorldSize * table.cpKvCacheInterleaveSize) := by
      rw [localBlockOffset, mul_comm, Nat.mul_add_div hinterleave,
        Nat.div_eq_of_lt (Nat.mod_lt _ hinterleave), add_zero]
    have hremainder : table.localBlockOffset offset % table.cpKvCacheInterleaveSize =
        offset % table.cpKvCacheInterleaveSize := by
      rw [localBlockOffset, mul_comm, Nat.mul_add_mod, Nat.mod_mod]
    rw [hquotient, hremainder, ← hlocal, ← Nat.mod_mul,
      mul_comm table.cpKvCacheInterleaveSize, Nat.div_add_mod]
  rw [hsplit first hfirst, hsplit second hsecond, heq]

end Offsets

/-! ## Reading a row -/

/-- The slot of a position in a list of consecutive blocks, as the paged mapping computes it. -/
def slotIn (table : BlockTable) (blocks : List ℕ) (pos : ℕ) : ℤ :=
  let virtualBlockOffset := pos % table.virtualBlockSize
  if table.IsLocal virtualBlockOffset then
    ((blocks.getD (pos / table.virtualBlockSize) 0 * table.blockSize +
      table.localBlockOffset virtualBlockOffset : ℕ) : ℤ)
  else padSlotId

variable {blocks : List ℕ}

theorem slotIn_eq_iff (hvalid : table.Valid) {others : List ℕ}
    (hlocal : table.IsLocal (first % table.virtualBlockSize)) :
    table.slotIn blocks first = table.slotIn others second ↔
      blocks.getD (first / table.virtualBlockSize) 0 = others.getD (second / table.virtualBlockSize) 0 ∧
        first % table.virtualBlockSize = second % table.virtualBlockSize := by
  have hbound (pos : ℕ) : table.localBlockOffset (pos % table.virtualBlockSize) < table.blockSize :=
    hvalid.localBlockOffset_lt (Nat.mod_lt _ hvalid.virtualBlockSize_pos)
  constructor
  · intro heq
    by_cases hother : table.IsLocal (second % table.virtualBlockSize)
    · simp only [slotIn, hlocal, hother, if_true, Nat.cast_inj] at heq
      have hoff := congrArg (· % table.blockSize) heq
      simp only [Nat.mul_add_mod', Nat.mod_eq_of_lt (hbound _)] at hoff
      refine ⟨?_, hvalid.localBlockOffset_injective hlocal hother hoff⟩
      rw [hoff] at heq
      exact Nat.eq_of_mul_eq_mul_right hvalid.blockSize_pos (add_right_cancel heq)
    · simp only [slotIn, hlocal, hother, if_true, if_false, padSlotId] at heq
      omega
  · rintro ⟨hblock, hoff⟩
    simp only [slotIn, hblock, hoff]

theorem slotIn_inj (hvalid : table.Valid) (hnodup : blocks.Nodup)
    (hlocal : table.IsLocal (first % table.virtualBlockSize))
    (hfirst : first / table.virtualBlockSize < blocks.length)
    (hsecond : second / table.virtualBlockSize < blocks.length)
    (heq : table.slotIn blocks first = table.slotIn blocks second) : first = second := by
  obtain ⟨hread, hmod⟩ := (slotIn_eq_iff hvalid hlocal).1 heq
  rw [getD_eq_getElem _ _ hfirst, getD_eq_getElem _ _ hsecond, hnodup.getElem_inj_iff] at hread
  rw [← Nat.div_add_mod first, hread, hmod, Nat.div_add_mod]

variable {pos : ℕ}

theorem slotIn_append_left {others : List ℕ} (hpos : pos / table.virtualBlockSize < blocks.length) :
    table.slotIn (blocks ++ others) pos = table.slotIn blocks pos := by
  simp only [slotIn, getD_append _ _ _ _ hpos]

section

variable (table : BlockTable)

theorem blockTable_eq_getD {column : ℕ} (hcol : column < table.numBlocksPerRow row) :
    table.blockTable row column = (table.rowBlocks row).getD column 0 := by
  rw [getD_eq_getElem _ _ (by simpa using hcol), getElem_rowBlocks]

theorem appendRow_frame (blockIds : List ℕ) (row : ℕ) :
    ∃ cells lengths, table.appendRow blockIds row =
      { table with blockTable := cells, numBlocksPerRow := lengths } := by
  unfold appendRow
  split
  · exact ⟨table.blockTable, table.numBlocksPerRow, rfl⟩
  · exact ⟨_, _, rfl⟩

theorem appendRows_frame (row : ℕ) (appended : List (List ℕ)) :
    ∃ cells lengths, table.appendRows row appended =
      { table with blockTable := cells, numBlocksPerRow := lengths } := by
  unfold appendRows
  induction appended generalizing table with
  | nil => exact ⟨table.blockTable, table.numBlocksPerRow, rfl⟩
  | cons blockIds rest ih =>
    obtain ⟨_, _, hstep⟩ := table.appendRow_frame blockIds row
    obtain ⟨cells', lengths', hrest⟩ := ih _
    refine ⟨cells', lengths', ?_⟩
    rw [foldl_cons, hrest, hstep]

theorem rowBlocks_appendRows (row : ℕ) (appended : List (List ℕ)) :
    (table.appendRows row appended).rowBlocks row =
      table.rowBlocks row ++ appended.flatMap table.kernelIds := by
  unfold appendRows
  induction appended generalizing table with
  | nil => simp
  | cons blockIds rest ih =>
    obtain ⟨_, _, hstep⟩ := table.appendRow_frame blockIds row
    have hids : (table.appendRow blockIds row).kernelIds = table.kernelIds := by
      rw [hstep]
      rfl
    rw [foldl_cons, ih, rowBlocks_appendRow, hids, flatMap_cons, append_assoc]

end

theorem kernelSlot_eq_slotIn
    (hpos : table.logicalSlot row pos / table.virtualBlockSize < table.numBlocksPerRow row) :
    table.kernelSlot row pos = table.slotIn (table.rowBlocks row) (table.logicalSlot row pos) := by
  simp [kernelSlot, slotIn, table.blockTable_eq_getD hpos]

theorem kernelSlot_uncompacted (hflag : table.nelssaCompacted row = false)
    (hpos : pos / table.virtualBlockSize < table.numBlocksPerRow row) :
    table.kernelSlot row pos = table.slotIn (table.rowBlocks row) pos := by
  have hlogical : table.logicalSlot row pos = pos := by
    simp [logicalSlot, hflag]
  rw [kernelSlot_eq_slotIn (by rwa [hlogical]), hlogical]

/-! ## Sending positions to slots -/

/-- Every step whose batch contains `position` for the request in `row` maps it to `slot`. -/
def SendsTo (table : BlockTable) (row pos : ℕ) (slot : ℤ) : Prop :=
  ∀ (batch : QueryBatch) (maxNumBatchedTokens : ℕ) (slotMapping : ℕ → ℤ) (token : ℕ),
    batch.InRow row token → batch.positions token = pos →
      table.computeSlotMapping batch maxNumBatchedTokens slotMapping token = slot

def singleTokenBatch (row pos : ℕ) : QueryBatch where
  numReqs := row + 1
  numTokens := 1
  queryStartLoc := fun req ↦ if req ≤ row then 0 else 1
  positions := fun _ ↦ pos
  monotone := by
    intro first second hle
    by_cases hsecond : second ≤ row
    · simp [hsecond, hle.trans hsecond]
    · simp only [hsecond, if_false]
      split <;> omega
  covered := by simp

theorem sendsTo_iff (table : BlockTable) (row pos : ℕ) (slot : ℤ) :
    table.SendsTo row pos slot ↔ table.kernelSlot row pos = slot := by
  constructor
  · intro h
    have hrow : (singleTokenBatch row pos).InRow row 0 := by
      simp [QueryBatch.InRow, singleTokenBatch]
    have hsent := h _ 1 (fun _ ↦ 0) 0 hrow rfl
    rwa [computeSlotMapping_eq_kernelSlot _ _ _ _ hrow] at hsent
  · rintro rfl batch maxNumBatchedTokens slotMapping token hrow rfl
    exact computeSlotMapping_eq_kernelSlot table batch maxNumBatchedTokens slotMapping hrow

end BlockTable

end Nelssa.Worker
