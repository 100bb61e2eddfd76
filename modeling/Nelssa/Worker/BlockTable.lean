import Mathlib.Data.List.GetD
import Mathlib.Data.List.Range
import Nelssa.Foundation.BlockArithmetic

/-!
# The worker's block table

`BlockTable` keeps one row of physical block ids per request of the persistent batch, together with
the per-row compaction state of long requests. Rows and columns are unbounded functions: the width
of the real table is the block count of the maximal model length, which the scheduler never exceeds.
The device copy of the table is not modelled separately, since `commit_block_table` runs between
every change of a row and the slot-mapping kernel that reads it.
-/

namespace Nelssa.Worker

open Function List

structure BlockTable where
  blockSize : ℕ
  blocksPerKvBlock : ℕ
  useHybridBlocks : Bool
  pcpWorldSize : ℕ
  pcpRank : ℕ
  dcpWorldSize : ℕ
  dcpRank : ℕ
  cpKvCacheInterleaveSize : ℕ
  blockTable : ℕ → ℕ → ℕ
  numBlocksPerRow : ℕ → ℕ
  nelssaCompacted : ℕ → Bool
  nelssaHeadBlocks : ℕ → ℕ
  nelssaTailBlocks : ℕ → ℕ
  nelssaTailStartPos : ℕ → ℤ

namespace BlockTable

/-- The table built by `__init__`; `none` is the `ValueError` for a kernel block size that does
not divide the allocation block size. -/
def init (blockSize kernelBlockSize pcpWorldSize pcpRank dcpWorldSize dcpRank
    cpKvCacheInterleaveSize : ℕ) : Option BlockTable :=
  let zeroed (size perKvBlock : ℕ) (hybrid : Bool) : BlockTable :=
    { blockSize := size, blocksPerKvBlock := perKvBlock, useHybridBlocks := hybrid,
      pcpWorldSize, pcpRank, dcpWorldSize, dcpRank, cpKvCacheInterleaveSize,
      blockTable := fun _ _ ↦ 0, numBlocksPerRow := fun _ ↦ 0, nelssaCompacted := fun _ ↦ false,
      nelssaHeadBlocks := fun _ ↦ 0, nelssaTailBlocks := fun _ ↦ 0, nelssaTailStartPos := fun _ ↦ 0 }
  if kernelBlockSize = blockSize then some (zeroed blockSize 1 false)
  else if blockSize % kernelBlockSize ≠ 0 then none
  else some (zeroed kernelBlockSize (blockSize / kernelBlockSize) true)

/-- Split every allocation block id into its consecutive kernel block ids. -/
def mapToKernelBlocks (kvManagerBlockIds : List ℕ) (blocksPerKvBlock : ℕ) : List ℕ :=
  if blocksPerKvBlock = 1 then kvManagerBlockIds
  else kvManagerBlockIds.flatMap fun blockId ↦
    (range blocksPerKvBlock).map fun offset ↦ blockId * blocksPerKvBlock + offset

/-- The assignment `cells[start : start + len(values)] = values`. -/
def writeSlice (cells : ℕ → ℕ) (start : ℕ) (values : List ℕ) : ℕ → ℕ := fun column ↦
  if start ≤ column ∧ column < start + values.length then values.getD (column - start) 0
  else cells column

section

variable (table : BlockTable)

/-- The ids that `append_row` stores for a list of allocation blocks. -/
def kernelIds (blockIds : List ℕ) : List ℕ :=
  if table.useHybridBlocks then mapToKernelBlocks blockIds table.blocksPerKvBlock else blockIds

def appendRow (blockIds : List ℕ) (row : ℕ) : BlockTable :=
  if blockIds = [] then table else
    let ids := table.kernelIds blockIds
    let start := table.numBlocksPerRow row
    { table with
      numBlocksPerRow := update table.numBlocksPerRow row (start + ids.length)
      blockTable := update table.blockTable row (writeSlice (table.blockTable row) start ids) }

def addRow (blockIds : List ℕ) (row : ℕ) : BlockTable :=
  appendRow { table with numBlocksPerRow := update table.numBlocksPerRow row 0 } blockIds row

def clearRow (row : ℕ) : BlockTable :=
  let numBlocks := table.numBlocksPerRow row
  { table with
    blockTable := update table.blockTable row fun column ↦
      if column < numBlocks then 0 else table.blockTable row column
    numBlocksPerRow := update table.numBlocksPerRow row 0 }

/-- Store the compaction counts of a row without touching its block ids. -/
def setLayout (row headBlocks tailBlocks : ℕ) (tailStartPos : ℤ) : BlockTable :=
  { table with
    nelssaCompacted := update table.nelssaCompacted row true
    nelssaHeadBlocks := update table.nelssaHeadBlocks row headBlocks
    nelssaTailBlocks := update table.nelssaTailBlocks row tailBlocks
    nelssaTailStartPos := update table.nelssaTailStartPos row tailStartPos }

/-- The tail start that `clear_middle_blocks` stores: a negative argument asks for the default. -/
def resolveTailStart (row tailBlocks : ℕ) (tailStartPos : ℤ) : ℤ :=
  if tailStartPos < 0 then
    (table.numBlocksPerRow row * table.blockSize : ℤ) - tailBlocks * table.blockSize
  else tailStartPos

/-- Rearrange a row to `[head | tail | generated...]`. A row that is already compacted only gets
its counts refreshed. More tail blocks than the row holds is a shape error of the slice assignment,
which leaves the table as it was. -/
def clearMiddleBlocks (row headBlocks tailBlocks : ℕ) (tailStartPos : ℤ) : BlockTable :=
  let totalBlocks := table.numBlocksPerRow row
  if totalBlocks = 0 then table else
    let tailStart := table.resolveTailStart row tailBlocks tailStartPos
    if table.nelssaCompacted row then table.setLayout row headBlocks tailBlocks tailStart
    else if totalBlocks < tailBlocks then table
    else
      let cells := table.blockTable row
      let keepBlocks := headBlocks + tailBlocks
      let tailStartIdx := totalBlocks - tailBlocks
      let moved := fun column ↦
        if headBlocks ≤ column ∧ column < headBlocks + tailBlocks then
          cells (tailStartIdx + (column - headBlocks)) else cells column
      let zeroed := fun column ↦
        if keepBlocks ≤ column ∧ column < totalBlocks then 0 else moved column
      { table with
        blockTable := update table.blockTable row zeroed
        numBlocksPerRow := update table.numBlocksPerRow row keepBlocks
        }.setLayout row headBlocks tailBlocks tailStart

def moveRow (src tgt : ℕ) : BlockTable :=
  let numBlocks := table.numBlocksPerRow src
  { table with
    blockTable := update table.blockTable tgt fun column ↦
      if column < numBlocks then table.blockTable src column else table.blockTable tgt column
    numBlocksPerRow := update table.numBlocksPerRow tgt numBlocks }

def swapRow (src tgt : ℕ) : BlockTable :=
  { table with
    numBlocksPerRow := fun row ↦ table.numBlocksPerRow (Equiv.swap src tgt row)
    blockTable := fun row ↦ table.blockTable (Equiv.swap src tgt row) }

end

/-! ## The block ids a row holds -/

/-- The physical block ids stored in the used part of a row. -/
def rowBlocks (table : BlockTable) (row : ℕ) : List ℕ :=
  (range (table.numBlocksPerRow row)).map (table.blockTable row)

@[simp]
theorem length_rowBlocks (table : BlockTable) (row : ℕ) :
    (table.rowBlocks row).length = table.numBlocksPerRow row := by
  simp [rowBlocks]

@[simp]
theorem getElem_rowBlocks (table : BlockTable) (row column : ℕ) (h : column < (table.rowBlocks row).length) :
    (table.rowBlocks row)[column] = table.blockTable row column := by
  simp [rowBlocks]

theorem map_range_writeSlice (cells : ℕ → ℕ) (start : ℕ) (values : List ℕ) :
    (range (start + values.length)).map (writeSlice cells start values) =
      (range start).map cells ++ values := by
  apply ext_getElem
  · simp
  · intro column hleft _
    simp only [length_map, length_range] at hleft
    by_cases hcol : column < start
    · simp [writeSlice, hcol, not_le.2]
    · have hidx : column - start < values.length := by omega
      simp [writeSlice, not_lt.1 hcol, hleft, getElem?_eq_getElem hidx]

variable (table : BlockTable)

theorem kernelIds_nil : table.kernelIds [] = [] := by
  simp [kernelIds, mapToKernelBlocks]

theorem rowBlocks_appendRow (blockIds : List ℕ) (row : ℕ) :
    (table.appendRow blockIds row).rowBlocks row = table.rowBlocks row ++ table.kernelIds blockIds := by
  by_cases hempty : blockIds = []
  · simp [appendRow, hempty, kernelIds_nil]
  · simp only [appendRow, hempty, if_false, rowBlocks, update_self]
    exact map_range_writeSlice _ _ _

theorem rowBlocks_addRow (blockIds : List ℕ) (row : ℕ) :
    (table.addRow blockIds row).rowBlocks row = table.kernelIds blockIds := by
  rw [addRow, rowBlocks_appendRow]
  simp [rowBlocks, kernelIds]

/-- First-time compaction keeps the leading head blocks and the trailing tail blocks of a row. -/
theorem rowBlocks_clearMiddleBlocks (row headBlocks tailBlocks : ℕ) (tailStartPos : ℤ)
    (hfresh : table.nelssaCompacted row = false)
    (hroom : headBlocks + tailBlocks < table.numBlocksPerRow row) :
    (table.clearMiddleBlocks row headBlocks tailBlocks tailStartPos).rowBlocks row =
      (table.rowBlocks row).take headBlocks ++
        (table.rowBlocks row).drop (table.numBlocksPerRow row - tailBlocks) := by
  have hpos : table.numBlocksPerRow row ≠ 0 := by omega
  have htail : ¬ table.numBlocksPerRow row < tailBlocks := by omega
  apply ext_getElem
  · simp only [clearMiddleBlocks, hpos, hfresh, htail, if_false, setLayout, length_rowBlocks,
      Bool.false_eq_true, update_self, length_append, length_take,
      length_drop]
    omega
  · intro column hleft _
    rw [length_rowBlocks] at hleft
    rw [getElem_rowBlocks]
    simp only [clearMiddleBlocks, hpos, hfresh, htail, if_false, setLayout,
      update_self, Bool.false_eq_true] at hleft ⊢
    have hkeep : ¬ (headBlocks + tailBlocks ≤ column ∧ column < table.numBlocksPerRow row) := by omega
    rw [if_neg hkeep]
    by_cases hhead : column < headBlocks
    · have hmoved : ¬ (headBlocks ≤ column ∧ column < headBlocks + tailBlocks) := by omega
      have htake : column < headBlocks ∧ column < table.numBlocksPerRow row := ⟨hhead, by omega⟩
      simp [hmoved, htake]
    · have hmoved : headBlocks ≤ column ∧ column < headBlocks + tailBlocks := by omega
      have htake : min headBlocks (table.numBlocksPerRow row) = headBlocks := by omega
      simp [hmoved, htake]

end BlockTable

end Nelssa.Worker
