import Mathlib.Algebra.Order.BigOperators.Group.List
import Nelssa.Worker.SlotMapping

/-!
# Compaction of a long request's row

`clearMiddleBlocksForPrefillComplete` computes the retained layout of one long request and compacts
its row. The main theorem says exactly when the slot mapping of the request survives: the kernel
re-derives the shift from the prompt length, while the compaction keeps the last blocks of the row,
so the row must hold no block behind the prompt.
-/

namespace Nelssa.Worker

open Foundation.BlockArithmetic
open List hiding not_le

namespace BlockTable

def headBlocks (firstN blockSize : ℕ) : ℕ := (firstN + blockSize - 1) / blockSize

def tailStartPos (lastM promptLen blockSize : ℕ) : ℕ := (promptLen - lastM) / blockSize * blockSize

def tailBlocks (lastM promptLen blockSize : ℕ) : ℕ :=
  (promptLen - tailStartPos lastM promptLen blockSize + blockSize - 1) / blockSize

/-- The loop body of `_clear_middle_blocks_for_prefill_complete` for the request in `row`;
`promptLen` is `none` when the runner has no state for the request. -/
def clearMiddleBlocksForPrefillComplete (table : BlockTable) (firstN lastM : ℕ)
    (promptLen : Option ℕ) (row : ℕ) : BlockTable :=
  let head := headBlocks firstN table.blockSize
  let layout : ℕ × ℤ := match promptLen with
    | none => ((lastM + table.blockSize - 1) / table.blockSize, -1)
    | some len => (tailBlocks lastM len table.blockSize, tailStartPos lastM len table.blockSize)
  if table.numBlocksPerRow row ≤ head + layout.1 then table
  else table.clearMiddleBlocks row head layout.1 layout.2

/-- Prompt positions whose keys and values stay on the device: the block-aligned head and tail. -/
def Retained (table : BlockTable) (firstN lastM promptLen pos : ℕ) : Prop :=
  pos < promptLen ∧
    (pos < headBlocks firstN table.blockSize * table.virtualBlockSize ∨
      tailStartPos lastM promptLen table.blockSize ≤ pos)

instance (table : BlockTable) (firstN lastM promptLen pos : ℕ) :
    Decidable (table.Retained firstN lastM promptLen pos) :=
  inferInstanceAs (Decidable (_ ∧ _))

def Generated (table : BlockTable) (row promptLen : ℕ) (appended : List (List ℕ)) (pos : ℕ) : Prop :=
  promptLen ≤ pos ∧
    pos / table.virtualBlockSize < (table.requestBlocks row appended).length

section

variable (table : BlockTable) (firstN lastM promptLen row : ℕ)

/-- The row after one compaction and the blocks appended for generated tokens. The decode worker compacts
again in every step, which leaves this row as it is once the first compaction has shortened it. -/
def afterPrefill (appended : List (List ℕ)) : BlockTable :=
  (table.clearMiddleBlocksForPrefillComplete firstN lastM (some promptLen) row).appendRows row appended

/-- The slot mapping of a request survives its compaction and every later sequence of appends of
blocks that are not in use by the request. -/
structure SlotMappingSurvives : Prop where
  retained : ∀ appended, (table.requestBlocks row appended).Nodup →
    ∀ pos slot, table.Retained firstN lastM promptLen pos →
      table.SendsTo row pos slot →
        (table.afterPrefill firstN lastM promptLen row appended).SendsTo row pos slot
  generated : ∀ appended, (table.requestBlocks row appended).Nodup →
    ∀ pos, table.Generated row promptLen appended pos →
      (table.afterPrefill firstN lastM promptLen row appended).SendsTo row pos
        (table.slotIn (table.requestBlocks row appended) pos)
  separate : ∀ appended, (table.requestBlocks row appended).Nodup →
    ∀ first second slot, first ≠ second → slot ≠ padSlotId →
      (table.Retained firstN lastM promptLen first ∨ table.Generated row promptLen appended first) →
      (table.Retained firstN lastM promptLen second ∨ table.Generated row promptLen appended second) →
      ¬ ((table.afterPrefill firstN lastM promptLen row appended).SendsTo row first slot ∧
        (table.afterPrefill firstN lastM promptLen row appended).SendsTo row second slot)

end

/-! ## Layout arithmetic -/

theorem tailStart_add_tailBlocks {blockSize : ℕ} (hsize : 0 < blockSize) (lastM promptLen : ℕ) :
    (promptLen - lastM) / blockSize + tailBlocks lastM promptLen blockSize = cdiv promptLen blockSize := by
  exact div_add_cdiv_tail hsize (Nat.sub_le _ _)

theorem tailStartPos_le (lastM promptLen blockSize : ℕ) :
    tailStartPos lastM promptLen blockSize ≤ promptLen :=
  (alignDown_le _ _).trans (Nat.sub_le _ _)

/-! ## The compacted row -/

section

variable {table : BlockTable} {firstN lastM promptLen row : ℕ}

theorem afterPrefill_of_le (hroom : table.numBlocksPerRow row ≤
      headBlocks firstN table.blockSize + tailBlocks lastM promptLen table.blockSize)
    (appended : List (List ℕ)) :
    table.afterPrefill firstN lastM promptLen row appended = table.appendRows row appended := by
  simp [afterPrefill, clearMiddleBlocksForPrefillComplete, hroom]

section

variable (table : BlockTable) (firstN lastM promptLen row : ℕ) (appended : List (List ℕ))

theorem afterPrefill_frame :
    ∃ cells lengths flags heads tails starts,
      table.afterPrefill firstN lastM promptLen row appended =
        { table with
          blockTable := cells, numBlocksPerRow := lengths, nelssaCompacted := flags
          nelssaHeadBlocks := heads, nelssaTailBlocks := tails, nelssaTailStartPos := starts } := by
  let cleared := table.clearMiddleBlocksForPrefillComplete firstN lastM (some promptLen) row
  have hcleared : ∃ cells lengths flags heads tails starts, cleared =
      { table with
        blockTable := cells, numBlocksPerRow := lengths, nelssaCompacted := flags
        nelssaHeadBlocks := heads, nelssaTailBlocks := tails, nelssaTailStartPos := starts } := by
    simp only [cleared, clearMiddleBlocksForPrefillComplete, clearMiddleBlocks, setLayout]
    split_ifs <;> exact ⟨_, _, _, _, _, _, rfl⟩
  obtain ⟨_, _, flags, heads, tails, starts, hcleared⟩ := hcleared
  obtain ⟨cells', lengths', hframe⟩ := cleared.appendRows_frame row appended
  refine ⟨cells', lengths', flags, heads, tails, starts, ?_⟩
  change cleared.appendRows row appended = _
  rw [hframe, hcleared]

theorem afterPrefill_config :
    let after := table.afterPrefill firstN lastM promptLen row appended
    after.virtualBlockSize = table.virtualBlockSize ∧ after.slotIn = table.slotIn := by
  obtain ⟨_, _, _, _, _, _, hframe⟩ :=
    table.afterPrefill_frame firstN lastM promptLen row appended
  rw [hframe]
  exact ⟨rfl, rfl⟩

end

variable {pos : ℕ}

theorem kernelSlot_afterPrefill_of_le (hfresh : table.nelssaCompacted row = false)
    (hroom : table.numBlocksPerRow row ≤
      headBlocks firstN table.blockSize + tailBlocks lastM promptLen table.blockSize)
    (appended : List (List ℕ))
    (hblock : pos / table.virtualBlockSize < (table.requestBlocks row appended).length) :
    (table.afterPrefill firstN lastM promptLen row appended).kernelSlot row pos =
      table.slotIn (table.requestBlocks row appended) pos := by
  obtain ⟨hsize, hslots⟩ := table.afterPrefill_config firstN lastM promptLen row appended
  rw [afterPrefill_of_le hroom] at hsize hslots ⊢
  have hflag : (table.appendRows row appended).nelssaCompacted row = false := by
    obtain ⟨_, _, hframe⟩ := table.appendRows_frame row appended
    rw [hframe]
    exact hfresh
  have hblocks : (table.appendRows row appended).rowBlocks row = table.requestBlocks row appended :=
    rowBlocks_appendRows table row appended
  have hlen : pos / (table.appendRows row appended).virtualBlockSize <
      (table.appendRows row appended).numBlocksPerRow row := by
    rwa [← length_rowBlocks, hblocks, hsize]
  rw [kernelSlot_uncompacted hflag hlen, hblocks, hslots]

section

variable (hfresh : table.nelssaCompacted row = false)
  (hroom : headBlocks firstN table.blockSize + tailBlocks lastM promptLen table.blockSize <
    table.numBlocksPerRow row) (appended : List (List ℕ))
include hfresh hroom

/-- A compacted row stores its layout and keeps its head, its last blocks and all later appends. -/
theorem afterPrefill_of_gt :
    let after := table.afterPrefill firstN lastM promptLen row appended
    (after.nelssaCompacted row = true ∧ after.nelssaHeadBlocks row = headBlocks firstN table.blockSize ∧
      after.nelssaTailStartPos row = tailStartPos lastM promptLen table.blockSize) ∧
    after.rowBlocks row = (table.requestBlocks row appended).take (headBlocks firstN table.blockSize) ++
      (table.requestBlocks row appended).drop
        (table.numBlocksPerRow row - tailBlocks lastM promptLen table.blockSize) := by
  intro after
  let head := headBlocks firstN table.blockSize
  let tail := tailBlocks lastM promptLen table.blockSize
  let tailStart : ℤ := tailStartPos lastM promptLen table.blockSize
  let cleared := table.clearMiddleBlocks row head tail tailStart
  have hafter : after = cleared.appendRows row appended := by
    simp only [after, afterPrefill, clearMiddleBlocksForPrefillComplete, not_le.2 hroom, if_false]
    rfl
  have hpos : table.numBlocksPerRow row ≠ 0 := by omega
  have htail : ¬ table.numBlocksPerRow row < tail := by omega
  have hstart : table.resolveTailStart row tail tailStart = tailStart := by
    simp [resolveTailStart, tailStart]
  have hcleared : cleared.nelssaCompacted row = true ∧ cleared.nelssaHeadBlocks row = head ∧
      cleared.nelssaTailStartPos row = tailStart ∧ cleared.kernelIds = table.kernelIds := by
    simp only [cleared, clearMiddleBlocks, hpos, hfresh, htail, if_false, Bool.false_eq_true,
      setLayout, Function.update_self, hstart, true_and]
    rfl
  obtain ⟨hflag, hhead, htailStart, hids⟩ := hcleared
  obtain ⟨_, _, hframe⟩ := cleared.appendRows_frame row appended
  constructor
  · rw [hafter, hframe]
    exact ⟨hflag, hhead, htailStart⟩
  · have hlen : (table.rowBlocks row).length = table.numBlocksPerRow row := length_rowBlocks _ _
    rw [hafter, rowBlocks_appendRows, hids,
      rowBlocks_clearMiddleBlocks table row head tail tailStart hfresh hroom, requestBlocks,
      take_append_of_le_length (by omega), drop_append_of_le_length (by omega),
      append_assoc]

/-- In a compacted row the kernel reads a position behind the tail start relative to the kept tail. -/
theorem kernelSlot_afterPrefill_tail (hvalid : table.Valid) {offset : ℕ}
    (hblock : table.numBlocksPerRow row - tailBlocks lastM promptLen table.blockSize +
      offset / table.virtualBlockSize < (table.requestBlocks row appended).length) :
    (table.afterPrefill firstN lastM promptLen row appended).kernelSlot row
        (tailStartPos lastM promptLen table.blockSize + offset) =
      table.slotIn (table.requestBlocks row appended)
        (table.virtualBlockSize *
          (table.numBlocksPerRow row - tailBlocks lastM promptLen table.blockSize) + offset) := by
  have hsize := hvalid.virtualBlockSize_pos
  have hgap : headBlocks firstN table.blockSize <
      table.numBlocksPerRow row - tailBlocks lastM promptLen table.blockSize := by omega
  obtain ⟨⟨hflag, hhead, hstart⟩, hblocks⟩ := afterPrefill_of_gt hfresh hroom appended
  obtain ⟨hvirtual, hslots⟩ := table.afterPrefill_config firstN lastM promptLen row appended
  generalize table.afterPrefill firstN lastM promptLen row appended = after at *
  generalize table.requestBlocks row appended = blocks at *
  generalize headBlocks firstN table.blockSize = head at *
  generalize table.numBlocksPerRow row - tailBlocks lastM promptLen table.blockSize = dropped at *
  have hlogical : after.logicalSlot row (tailStartPos lastM promptLen table.blockSize + offset) =
      table.virtualBlockSize * head + offset := by
    simp [logicalSlot, hflag, hhead, hstart, hvirtual, mul_comm]
  have hidx (blockCount : ℕ) : (table.virtualBlockSize * blockCount + offset) / table.virtualBlockSize =
      blockCount + offset / table.virtualBlockSize := Nat.mul_add_div hsize _ _
  have htake : (blocks.take head).length = head := by
    have hdropped := (Nat.le_add_right _ _).trans_lt hblock
    rw [length_take]
    omega
  have hlen : head + offset / table.virtualBlockSize < (after.rowBlocks row).length := by
    rw [hblocks, length_append, length_drop]
    omega
  rw [kernelSlot_eq_slotIn (by rwa [hlogical, hvirtual, hidx, ← length_rowBlocks]), hlogical, hslots, hblocks]
  have hread : (blocks.take head ++ blocks.drop dropped).getD (head + offset / table.virtualBlockSize) 0 =
      blocks.getD (dropped + offset / table.virtualBlockSize) 0 := by
    rw [getD_append_right _ _ _ _ (htake.le.trans (Nat.le_add_right _ _)), htake, Nat.add_sub_cancel_left]
    simp
  simp only [slotIn, hidx, Nat.mul_add_mod, hread]

theorem kernelSlot_afterPrefill_head (hpos : pos / table.virtualBlockSize < headBlocks firstN table.blockSize)
    (htail : pos < tailStartPos lastM promptLen table.blockSize) :
    (table.afterPrefill firstN lastM promptLen row appended).kernelSlot row pos =
      table.slotIn (table.requestBlocks row appended) pos := by
  obtain ⟨⟨-, -, hstart⟩, hblocks⟩ := afterPrefill_of_gt hfresh hroom appended
  obtain ⟨hvirtual, hslots⟩ := table.afterPrefill_config firstN lastM promptLen row appended
  have hlogical : (table.afterPrefill firstN lastM promptLen row appended).logicalSlot row pos =
      pos := by
    simp [logicalSlot, hstart, not_le.2 htail]
  have hlen : (table.rowBlocks row).length = table.numBlocksPerRow row := length_rowBlocks _ _
  have htake : pos / table.virtualBlockSize <
      ((table.requestBlocks row appended).take (headBlocks firstN table.blockSize)).length := by
    rw [length_take, requestBlocks, length_append]
    omega
  have hrow : pos / table.virtualBlockSize <
      (table.afterPrefill firstN lastM promptLen row appended).numBlocksPerRow row := by
    rw [← length_rowBlocks, hblocks, length_append]
    exact htake.trans_le (Nat.le_add_right _ _)
  rw [kernelSlot_eq_slotIn (by rwa [hlogical, hvirtual]), hlogical, hslots, hblocks, slotIn_append_left htake]
  conv_rhs => rw [← take_append_drop _ (table.requestBlocks row appended), slotIn_append_left htake]

end

/-- The exact rows whose slot mapping survives: nothing is compacted, or the retained tail starts at
a block of the row and the row ends with the last tail block. -/
def KeepsSlots (table : BlockTable) (firstN lastM promptLen row : ℕ) : Prop :=
  table.numBlocksPerRow row ≤
      headBlocks firstN table.blockSize + tailBlocks lastM promptLen table.blockSize ∨
    table.virtualBlockSize ∣ tailStartPos lastM promptLen table.blockSize ∧
      table.numBlocksPerRow row = tailStartPos lastM promptLen table.blockSize / table.virtualBlockSize +
        tailBlocks lastM promptLen table.blockSize

theorem kernelSlot_afterPrefill (hvalid : table.Valid) (hfresh : table.nelssaCompacted row = false)
    (hkeeps : table.KeepsSlots firstN lastM promptLen row) (appended : List (List ℕ))
    (hlive : pos < headBlocks firstN table.blockSize * table.virtualBlockSize ∨
      tailStartPos lastM promptLen table.blockSize ≤ pos)
    (hblock : pos / table.virtualBlockSize < (table.requestBlocks row appended).length) :
    (table.afterPrefill firstN lastM promptLen row appended).kernelSlot row pos =
      table.slotIn (table.requestBlocks row appended) pos := by
  by_cases hroom : table.numBlocksPerRow row ≤
      headBlocks firstN table.blockSize + tailBlocks lastM promptLen table.blockSize
  · exact kernelSlot_afterPrefill_of_le hfresh hroom appended hblock
  obtain ⟨halign, hexact⟩ := hkeeps.resolve_left hroom
  have hsize := hvalid.virtualBlockSize_pos
  have hstart : table.virtualBlockSize * (table.numBlocksPerRow row -
      tailBlocks lastM promptLen table.blockSize) = tailStartPos lastM promptLen table.blockSize := by
    rw [hexact, Nat.add_sub_cancel, Nat.mul_div_cancel' halign]
  by_cases htail : tailStartPos lastM promptLen table.blockSize ≤ pos
  · obtain ⟨offset, rfl⟩ := Nat.exists_eq_add_of_le htail
    have hidx : (tailStartPos lastM promptLen table.blockSize + offset) / table.virtualBlockSize =
        table.numBlocksPerRow row - tailBlocks lastM promptLen table.blockSize +
          offset / table.virtualBlockSize := by
      rw [← hstart, Nat.mul_add_div hsize]
    rw [hidx] at hblock
    rw [kernelSlot_afterPrefill_tail hfresh (not_le.1 hroom) appended hvalid hblock, hstart]
  · have hhead := (Nat.div_lt_iff_lt_mul hsize).2 (hlive.resolve_right htail)
    exact kernelSlot_afterPrefill_head hfresh (not_le.1 hroom) appended hhead (not_le.1 htail)

/-! ## Blocks for generated tokens -/

theorem mapToKernelBlocks_range' (start count perKvBlock : ℕ) :
    mapToKernelBlocks (List.range' start count) perKvBlock =
      List.range' (start * perKvBlock) (count * perKvBlock) := by
  by_cases hone : perKvBlock = 1
  · simp [mapToKernelBlocks, hone]
  · simp only [mapToKernelBlocks, hone, if_false]
    induction count generalizing start with
    | zero => simp
    | succ count ih =>
      rw [range'_succ, flatMap_cons, ih, ← range'_eq_map_range, Nat.succ_mul, Nat.succ_mul,
        add_comm (count * perKvBlock), ← range'_append_1]

theorem exists_fresh_append (hvalid : table.Valid) (hnodup : (table.rowBlocks row).Nodup) (count : ℕ) :
    ∃ appended, (table.requestBlocks row appended).Nodup ∧
      table.numBlocksPerRow row + count ≤ (table.requestBlocks row appended).length := by
  let start := (table.rowBlocks row).sum + 1
  obtain ⟨first, total, hids, hfirst, htotal⟩ : ∃ first total,
      table.kernelIds (List.range' start count) = range' first total ∧ start ≤ first ∧ count ≤ total := by
    by_cases hhybrid : table.useHybridBlocks
    · refine ⟨start * table.blocksPerKvBlock, count * table.blocksPerKvBlock, ?_,
        Nat.le_mul_of_pos_right _ hvalid.perKvBlock_pos, Nat.le_mul_of_pos_right _ hvalid.perKvBlock_pos⟩
      rw [kernelIds, if_pos hhybrid, mapToKernelBlocks_range']
    · exact ⟨start, count, if_neg hhybrid, le_rfl, le_rfl⟩
  have hblocks : table.requestBlocks row [List.range' start count] =
      table.rowBlocks row ++ List.range' first total := by
    simp [requestBlocks, hids]
  refine ⟨[range' start count], ?_, ?_⟩
  · rw [hblocks, nodup_append]
    refine ⟨hnodup, nodup_range', ?_⟩
    intro used hused fresh hfresh hsame
    have hused' := single_le_sum (fun _ _ ↦ Nat.zero_le _) _ hused
    have hfresh' : first ≤ fresh := (mem_range'_1.1 hfresh).1
    omega
  · rw [hblocks, length_append, length_rowBlocks, length_range']
    omega

/-! ## Survival of the slot mapping -/

/-- A generated position far enough behind the prompt decides whether the tail is read in place. -/
theorem keepsSlots_of_generated (hvalid : table.Valid) (hfresh : table.nelssaCompacted row = false)
    (hnodup : (table.rowBlocks row).Nodup)
    (hgenerated : ∀ appended, (table.requestBlocks row appended).Nodup →
      ∀ pos, table.Generated row promptLen appended pos →
        (table.afterPrefill firstN lastM promptLen row appended).SendsTo row pos
          (table.slotIn (table.requestBlocks row appended) pos)) :
    table.KeepsSlots firstN lastM promptLen row := by
  by_cases hroom : table.numBlocksPerRow row ≤
      headBlocks firstN table.blockSize + tailBlocks lastM promptLen table.blockSize
  · exact .inl hroom
  right
  have hsize := hvalid.virtualBlockSize_pos
  have hstartLe := tailStartPos_le lastM promptLen table.blockSize
  obtain ⟨chunk, hchunkLt, hchunk⟩ := hvalid.exists_isLocal
  -- A stored position of the second virtual block behind the prompt, and room for it in the row.
  let target := promptLen / table.virtualBlockSize + 1
  have hbehind : promptLen < table.virtualBlockSize * target := Nat.lt_mul_div_succ _ hsize
  obtain ⟨offset, hoff⟩ := Nat.exists_eq_add_of_le
    (show tailStartPos lastM promptLen table.blockSize ≤ table.virtualBlockSize * target + chunk by omega)
  have htargetDiv : (table.virtualBlockSize * target + chunk) / table.virtualBlockSize = target := by
    rw [Nat.mul_add_div hsize, Nat.div_eq_of_lt hchunkLt]
  have htargetMod : (table.virtualBlockSize * target + chunk) % table.virtualBlockSize = chunk := by
    rw [Nat.mul_add_mod, Nat.mod_eq_of_lt hchunkLt]
  have hshift : offset / table.virtualBlockSize ≤ target := by
    rw [← htargetDiv]
    exact Nat.div_le_div_right (by omega)
  obtain ⟨appended, happended, hlen⟩ := exists_fresh_append hvalid hnodup (target + 1)
  have hslot := (sendsTo_iff _ _ _ _).1 (hgenerated appended happended
    (table.virtualBlockSize * target + chunk) ⟨by omega, by omega⟩)
  rw [hoff, kernelSlot_afterPrefill_tail hfresh (not_le.1 hroom) appended hvalid (by omega), ← hoff] at hslot
  have hlocal : table.IsLocal ((table.virtualBlockSize * target + chunk) % table.virtualBlockSize) := by
    rwa [htargetMod]
  obtain ⟨hread, hmod⟩ := (slotIn_eq_iff hvalid hlocal).1 hslot.symm
  have halign : table.virtualBlockSize ∣ tailStartPos lastM promptLen table.blockSize := by
    rw [hoff, Nat.mul_add_mod] at hmod
    have hzero := Nat.sub_mod_eq_zero_of_mod_eq hmod
    rw [Nat.add_sub_cancel] at hzero
    exact Nat.dvd_of_mod_eq_zero hzero
  refine ⟨halign, ?_⟩
  obtain ⟨start, hstart⟩ := halign
  rw [hoff, hstart, Nat.mul_add_div hsize, Nat.mul_add_div hsize] at hread
  rw [hstart, Nat.mul_div_cancel_left _ hsize]
  have htarget : start + offset / table.virtualBlockSize = target := by
    rw [← htargetDiv, hoff, hstart, Nat.mul_add_div hsize]
  rw [getD_eq_getElem _ _ (by omega), getD_eq_getElem _ _ (by omega), happended.getElem_inj_iff] at hread
  omega

/-- For a row that covers the prompt, the slot mapping survives compaction exactly when nothing is
compacted or the retained tail is the end of the row. Without context parallelism the second case
says that the row holds exactly the blocks of the prompt. -/
theorem slotMappingSurvives_iff_keepsSlots (hvalid : table.Valid)
    (hfresh : table.nelssaCompacted row = false) (hnodup : (table.rowBlocks row).Nodup)
    (hcovers : cdiv promptLen table.virtualBlockSize ≤ table.numBlocksPerRow row) :
    table.SlotMappingSurvives firstN lastM promptLen row ↔ table.KeepsSlots firstN lastM promptLen row := by
  constructor
  · intro hsurvives
    exact keepsSlots_of_generated hvalid hfresh hnodup hsurvives.generated
  intro hkeeps
  have hsize := hvalid.virtualBlockSize_pos
  have hprompt (appended : List (List ℕ)) {pos : ℕ} (hposition : pos < promptLen) :
      pos / table.virtualBlockSize < (table.rowBlocks row).length ∧
        pos / table.virtualBlockSize < (table.requestBlocks row appended).length := by
    have hindex := (div_lt_cdiv hsize hposition).trans_le hcovers
    rw [requestBlocks, length_append, length_rowBlocks]
    exact ⟨hindex, hindex.trans_le (Nat.le_add_right _ _)⟩
  have hslot (appended : List (List ℕ)) {pos : ℕ}
      (hlive : table.Retained firstN lastM promptLen pos ∨ table.Generated row promptLen appended pos) :
      (table.afterPrefill firstN lastM promptLen row appended).kernelSlot row pos =
          table.slotIn (table.requestBlocks row appended) pos ∧
        pos / table.virtualBlockSize < (table.requestBlocks row appended).length := by
    rcases hlive with ⟨hposition, hkept⟩ | ⟨hposition, hblock⟩
    · have hblock := (hprompt appended hposition).2
      exact ⟨kernelSlot_afterPrefill hvalid hfresh hkeeps appended hkept hblock, hblock⟩
    · have htail := (tailStartPos_le lastM promptLen table.blockSize).trans hposition
      exact ⟨kernelSlot_afterPrefill hvalid hfresh hkeeps appended (.inr htail) hblock, hblock⟩
  constructor
  · intro appended _ pos slot hretained hbefore
    have hrow := (hprompt appended hretained.1).1
    rw [sendsTo_iff, kernelSlot_uncompacted hfresh (by simpa using hrow)] at hbefore
    rw [sendsTo_iff, (hslot appended (.inl hretained)).1, requestBlocks, slotIn_append_left hrow, hbefore]
  · intro appended _ pos hgenerated
    exact (sendsTo_iff _ _ _ _).2 (hslot appended (.inr hgenerated)).1
  · rintro appended hdistinct first second slot hne hslotNe hfirst hsecond ⟨hsendFirst, hsendSecond⟩
    obtain ⟨hslotFirst, hblockFirst⟩ := hslot appended hfirst
    obtain ⟨hslotSecond, hblockSecond⟩ := hslot appended hsecond
    rw [sendsTo_iff, hslotFirst] at hsendFirst
    rw [sendsTo_iff, hslotSecond] at hsendSecond
    have hlocal : table.IsLocal (first % table.virtualBlockSize) := by
      by_contra hremote
      exact hslotNe (by simpa [slotIn, hremote] using hsendFirst.symm)
    exact hne (slotIn_inj hvalid hdistinct hlocal hblockFirst hblockSecond
      (hsendFirst.trans hsendSecond.symm))

/-- A row of one rank with blocks of size 16 that holds the given block ids. -/
def rankRow (blockIds : List ℕ) : BlockTable :=
  BlockTable.addRow
    { blockSize := 16, blocksPerKvBlock := 1, useHybridBlocks := false
      pcpWorldSize := 1, pcpRank := 0, dcpWorldSize := 1, dcpRank := 0, cpKvCacheInterleaveSize := 1
      blockTable := fun _ _ ↦ 0, numBlocksPerRow := fun _ ↦ 0, nelssaCompacted := fun _ ↦ false
      nelssaHeadBlocks := fun _ ↦ 0, nelssaTailBlocks := fun _ ↦ 0, nelssaTailStartPos := fun _ ↦ 0 }
    blockIds 0

/-- Ten blocks hold a prompt of 160 tokens; head and tail of 16 and 64 tokens stay in place. -/
theorem slotMappingSurvives_of_exact_row : (rankRow (List.range' 1 10)).SlotMappingSurvives 16 64 160 0 :=
  Iff.mpr
    (slotMappingSurvives_iff_keepsSlots
      ⟨by decide, by decide, by decide, by decide, by decide, by decide⟩ rfl (by decide) (by decide))
    (.inr (by decide))

/-- One lookahead block behind the same prompt: the compaction keeps blocks 8 to 11 instead of 7 to
10, so position 96 moves from block 7 to block 8. -/
theorem lookaheadRow_not_survives : ¬ (rankRow (List.range' 1 11)).SlotMappingSurvives 16 64 160 0 := by
  intro hsurvives
  have hbefore : (rankRow (List.range' 1 11)).SendsTo 0 96 112 := (sendsTo_iff _ _ _ _).2 (by decide)
  have hafter := hsurvives.retained [] (by decide) 96 112 (by decide) hbefore
  exact absurd ((sendsTo_iff _ _ _ _).1 hafter) (by decide)

end

end BlockTable

end Nelssa.Worker
