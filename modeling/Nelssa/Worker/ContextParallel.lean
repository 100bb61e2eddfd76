import Mathlib.Data.Nat.Count
import Nelssa.Worker.SlotMapping

/-!
# Context-parallel sharding

With decode context parallelism the tokens of a request are dealt to the ranks in chunks of the interleave
size. `getDcpLocalSeqLens` gives the number of tokens of a rank, and the slot-mapping kernel decides token
by token. Both agree, and the kernel stores the tokens of a rank without gaps.
-/

namespace Nelssa.Worker

/-- The length of one request on one rank; clipping at 0 is the truncated subtraction. -/
def getDcpLocalSeqLens (seqLen dcpSize dcpRank cpKvCacheInterleaveSize : ℕ) : ℕ :=
  let base := seqLen / cpKvCacheInterleaveSize / dcpSize * cpKvCacheInterleaveSize
  let remainder := seqLen - base * dcpSize
  base + min (remainder - dcpRank * cpKvCacheInterleaveSize) cpKvCacheInterleaveSize

theorem getDcpLocalSeqLens_eq (seqLen size rank interleave : ℕ) :
    getDcpLocalSeqLens seqLen size rank interleave = seqLen / (interleave * size) * interleave +
      min (seqLen % (interleave * size) - rank * interleave) interleave := by
  have hrest : seqLen - seqLen / (interleave * size) * interleave * size = seqLen % (interleave * size) := by
    rw [mul_assoc, mul_comm, Nat.sub_eq_iff_eq_add (Nat.mul_div_le _ _), Nat.mod_add_div]
  rw [getDcpLocalSeqLens, Nat.div_div_eq_div_mul, hrest]

section

variable {size rank interleave : ℕ} (hrank : rank < size) (hinterleave : 0 < interleave)
include hrank hinterleave

/-- One more token is counted on the rank whose turn it is. -/
theorem getDcpLocalSeqLens_succ (seqLen : ℕ) :
    getDcpLocalSeqLens (seqLen + 1) size rank interleave =
      getDcpLocalSeqLens seqLen size rank interleave +
        if seqLen / interleave % size = rank then 1 else 0 := by
  have hround : rank * interleave + interleave ≤ interleave * size := by
    rw [← Nat.succ_mul, mul_comm interleave]
    exact Nat.mul_le_mul_right _ hrank
  rw [← Nat.mod_mul_right_div_self, getDcpLocalSeqLens_eq, getDcpLocalSeqLens_eq]
  simp only [Nat.div_eq_iff hinterleave]
  have hpos : 0 < interleave * size := by omega
  have hlt := Nat.mod_lt seqLen hpos
  have hsplit := Nat.mod_add_div seqLen (interleave * size)
  by_cases hnext : seqLen % (interleave * size) + 1 < interleave * size
  · obtain ⟨hdiv, hmod⟩ := (Nat.div_mod_unique hpos).2
      ⟨(add_right_comm ..).trans (congrArg (· + 1) hsplit), hnext⟩
    rw [hdiv, hmod]
    split <;> omega
  · -- The round is complete, and the next token begins a new one.
    have hlast : 0 + interleave * size * (seqLen / (interleave * size) + 1) = seqLen + 1 := by
      rw [Nat.mul_succ]
      omega
    obtain ⟨hdiv, hmod⟩ := (Nat.div_mod_unique hpos).2 ⟨hlast, hpos⟩
    rw [hdiv, hmod, Nat.succ_mul]
    split <;> omega

omit hrank in
theorem getDcpLocalSeqLens_of_turn {seqLen : ℕ} (hturn : seqLen / interleave % size = rank) :
    getDcpLocalSeqLens seqLen size rank interleave =
      seqLen / (interleave * size) * interleave + seqLen % interleave := by
  have hrest : seqLen % (interleave * size) - rank * interleave = seqLen % interleave := by
    rw [← hturn, ← Nat.mod_mul_right_div_self, ← Nat.mod_eq_sub_div_mul, Nat.mod_mul_right_mod]
  rw [getDcpLocalSeqLens_eq, hrest, min_eq_left (Nat.mod_lt _ hinterleave).le]

end

namespace BlockTable

variable (table : BlockTable)

/-- The kernel stores the token at a position on the rank of the table. -/
def Keeps (row pos : ℕ) : Prop := table.kernelSlot row pos ≠ padSlotId

instance (row : ℕ) : DecidablePred (table.Keeps row) := fun _ ↦ inferInstanceAs (Decidable (_ ≠ _))

/-- The same table on another rank of the decode group. -/
def onRank (dcpRank : ℕ) : BlockTable := { table with dcpRank }

variable {table} {row : ℕ}

theorem kernelSlot_of_plain (hplain : table.nelssaCompacted row = false) (pos : ℕ) :
    table.kernelSlot row pos = if table.IsLocal (pos % table.virtualBlockSize) then
      ((table.blockTable row (pos / table.virtualBlockSize) * table.blockSize +
        table.localBlockOffset (pos % table.virtualBlockSize) : ℕ) : ℤ) else padSlotId := by
  simp [kernelSlot, logicalSlot, hplain]

section

variable (hvalid : table.Valid) (hpcp : table.pcpWorldSize = 1)
  (hplain : table.nelssaCompacted row = false)
include hvalid hpcp hplain

theorem keeps_iff (pos : ℕ) :
    table.Keeps row pos ↔ pos / table.cpKvCacheInterleaveSize % table.dcpWorldSize = table.dcpRank := by
  have hpcpRank : table.pcpRank = 0 := by have := hvalid.pcpRank_lt; omega
  obtain ⟨_, hchunks⟩ := hvalid.interleave_dvd
  have hlocal : table.IsLocal (pos % table.virtualBlockSize) ↔
      pos / table.cpKvCacheInterleaveSize % table.dcpWorldSize = table.dcpRank := by
    rw [IsLocal, virtualBlockSize, totalCpWorldSize, totalCpRank, hpcp, hpcpRank, hchunks, one_mul,
      zero_mul, zero_add, mul_assoc, Nat.mod_mul_right_div_self,
      Nat.mod_mod_of_dvd _ (dvd_mul_left _ _)]
  rw [← hlocal, Keeps, kernelSlot_of_plain hplain, padSlotId]
  split
  · next hstored => exact iff_of_true (by omega) hstored
  · next hother => exact iff_of_false (not_not.2 rfl) hother

/-- The tokens of a rank fill its blocks in order. -/
theorem kernelSlot_of_keeps {pos index : ℕ} (hkeeps : table.Keeps row pos) (hindex : index =
      pos / (table.cpKvCacheInterleaveSize * table.dcpWorldSize) * table.cpKvCacheInterleaveSize +
        pos % table.cpKvCacheInterleaveSize) :
    table.kernelSlot row pos = (table.blockTable row (index / table.blockSize) * table.blockSize +
      index % table.blockSize : ℕ) := by
  have hoff := hvalid.localBlockOffset_lt (Nat.mod_lt pos hvalid.virtualBlockSize_pos)
  obtain ⟨chunks, hchunks⟩ := hvalid.interleave_dvd
  have hsize : table.virtualBlockSize = table.cpKvCacheInterleaveSize * table.dcpWorldSize * chunks := by
    rw [virtualBlockSize, totalCpWorldSize, hpcp, hchunks]
    ring
  have hsplit : table.localBlockOffset (pos % table.virtualBlockSize) +
      table.blockSize * (pos / table.virtualBlockSize) = index := by
    have hdiv : pos / (table.cpKvCacheInterleaveSize * table.dcpWorldSize) =
        chunks * (pos / table.virtualBlockSize) + pos % table.virtualBlockSize /
          (table.cpKvCacheInterleaveSize * table.dcpWorldSize) := by
      rw [hsize, Nat.mod_mul_right_div_self, ← Nat.div_div_eq_div_mul pos _ chunks, Nat.div_add_mod]
    have hmod : pos % table.virtualBlockSize % table.cpKvCacheInterleaveSize =
        pos % table.cpKvCacheInterleaveSize := by
      rw [hsize, mul_assoc, Nat.mod_mul_right_mod]
    rw [hindex, hdiv, localBlockOffset, totalCpWorldSize, hpcp, hmod, hchunks, one_mul,
      mul_comm table.dcpWorldSize]
    ring
  obtain ⟨hdiv, hmod⟩ := (Nat.div_mod_unique hvalid.blockSize_pos).2 ⟨hsplit, hoff⟩
  rw [hdiv, hmod]
  rw [Keeps, kernelSlot_of_plain hplain] at hkeeps
  rw [kernelSlot_of_plain hplain]
  exact if_pos (by_contra fun hother ↦ hkeeps (if_neg hother))

/-- The lengths of the ranks agree with the slot mapping: the kernel keeps as many positions as the length
says, it lays them out without gaps in the order of the positions, and every position is kept by one
rank. -/
theorem contextParallel_consistent (seqLen : ℕ) :
    Nat.count (table.Keeps row) seqLen = getDcpLocalSeqLens seqLen table.dcpWorldSize table.dcpRank
        table.cpKvCacheInterleaveSize ∧
      (∀ pos, table.Keeps row pos → table.kernelSlot row pos =
        (table.blockTable row (Nat.count (table.Keeps row) pos / table.blockSize) * table.blockSize +
          Nat.count (table.Keeps row) pos % table.blockSize : ℕ)) ∧
      ∀ pos, ∃! rank, rank < table.dcpWorldSize ∧ (table.onRank rank).Keeps row pos := by
  have hcount (numTokens : ℕ) : Nat.count (table.Keeps row) numTokens = getDcpLocalSeqLens numTokens
      table.dcpWorldSize table.dcpRank table.cpKvCacheInterleaveSize := by
    induction numTokens with
    | zero => simp [getDcpLocalSeqLens]
    | succ numTokens ih =>
      rw [Nat.count_succ, ih, getDcpLocalSeqLens_succ hvalid.dcpRank_lt hvalid.interleave_pos]
      simp [keeps_iff hvalid hpcp hplain]
  refine ⟨hcount seqLen, fun pos hkeeps ↦ ?_, fun pos ↦ ?_⟩
  · apply kernelSlot_of_keeps hvalid hpcp hplain hkeeps
    rw [hcount]
    exact getDcpLocalSeqLens_of_turn hvalid.interleave_pos ((keeps_iff hvalid hpcp hplain pos).1 hkeeps)
  · have hiff {rank : ℕ} (hrank : rank < table.dcpWorldSize) :=
      @keeps_iff (table.onRank rank) row { hvalid with dcpRank_lt := hrank } hpcp hplain pos
    have hlt := Nat.mod_lt (pos / table.cpKvCacheInterleaveSize) (Nat.zero_lt_of_lt hvalid.dcpRank_lt)
    refine ⟨_, ⟨hlt, (hiff hlt).2 rfl⟩, ?_⟩
    rintro rank ⟨hrank, hkeeps⟩
    exact ((hiff hrank).1 hkeeps).symm

end

/-- The second of two ranks, with blocks of 4 tokens and chunks of 2. -/
def secondRank : BlockTable :=
  ⟨4, 1, false, 1, 0, 2, 1, 2, fun _ block ↦ block, fun _ ↦ 2, fun _ ↦ false, fun _ ↦ 0, fun _ ↦ 0, fun _ ↦ 0⟩

theorem contextParallel_consistent_secondRank : Nat.count (secondRank.Keeps 0) 7 = 3 :=
  (contextParallel_consistent ⟨by decide, by decide, by decide, by decide, by decide, by decide⟩ rfl rfl 7).1

end BlockTable

end Nelssa.Worker
