import Mathlib.Algebra.GroupWithZero.Nat
import Mathlib.Data.List.Basic

/-!
# Compaction by rank and scatter

Segments of positions are laid out in rows of one width, the slots behind a segment's size being invalid.
A scatter writes the position of every slot, valid or not, at the number of valid slots up to it, less one.
Invalid slots therefore write over the column of the last valid slot before them. The columns hold the
positions of the segments, one after another, exactly when no such write changes anything.
-/

namespace Nelssa.Foundation.RankScatter

open List hiding min

/-! ## Consecutive writes -/

theorem take_range' (start count bound : ℕ) :
    (range' start count).take bound = range' start (min bound count) := by
  apply ext_getElem
  · rw [length_take, length_range', length_range']
  · intro index _ _
    rw [getElem_take, getElem_range', getElem_range']

/-- Writes of pairs of a column and a value, one after another. -/
def writeAll (cells : List ℕ) (writes : List (ℕ × ℕ)) : List ℕ :=
  writes.foldl (fun current write ↦ current.set write.1 write.2) cells

theorem writeAll_append (cells : List ℕ) (writes later : List (ℕ × ℕ)) :
    writeAll cells (writes ++ later) = writeAll (writeAll cells writes) later :=
  foldl_append

theorem writeAll_consecutive (front middle back : List ℕ) (start : ℕ) :
    writeAll (front ++ middle ++ back)
        ((range' front.length middle.length).zip (range' start middle.length)) =
      front ++ range' start middle.length ++ back := by
  induction middle generalizing front start with
  | nil => rfl
  | cons cell middle ih =>
    have hset : (front ++ cell :: middle ++ back).set front.length start =
        (front ++ [start]) ++ middle ++ back := by
      simp
    have hlen : (front ++ [start]).length = front.length + 1 := length_append
    rw [length_cons, range'_succ, range'_succ, zip_cons_cons, writeAll, foldl_cons, hset, ← hlen]
    refine (ih _ _).trans ?_
    rw [append_assoc front, singleton_append]

theorem writeAll_same (front back : List ℕ) (cell start count : ℕ) :
    writeAll (front ++ cell :: back) ((replicate count front.length).zip (range' start count)) =
      front ++ (if count = 0 then cell else start + count - 1) :: back := by
  induction count generalizing cell start with
  | zero => rfl
  | succ count ih =>
    have hset : (front ++ cell :: back).set front.length start = front ++ start :: back := by simp
    rw [replicate_succ, range'_succ, zip_cons_cons, writeAll, foldl_cons, hset]
    refine (ih start _).trans ?_
    congr 2
    split <;> split <;> omega

/-! ## The slots of padded segments -/

/-- A segment is a first position and a size. -/
abbrev Segment := ℕ × ℕ

/-- Running counts of the valid slots, on top of `count`. -/
def cumsum : ℕ → List Bool → List ℕ
  | _, [] => []
  | count, flag :: flags => (count + flag.toNat) :: cumsum (count + flag.toNat) flags

variable (width : ℕ) {segments : List Segment}

def slotPositions (segments : List Segment) : List ℕ :=
  segments.flatMap fun segment ↦ (range width).map (segment.1 + ·)

def slotValid (segments : List Segment) : List Bool :=
  segments.flatMap fun segment ↦ (range width).map fun slot ↦ decide (slot < segment.2)

/-- The scatter of all slots on top of `count` valid ones before. -/
def scatterFrom (count : ℕ) (cells : List ℕ) (segments : List Segment) : List ℕ :=
  writeAll cells (((cumsum count (slotValid width segments)).map (· - 1)).zip (slotPositions width segments))

/-- `columns` columns of zeros after the scatter of all slots. -/
def compact (columns : ℕ) (segments : List Segment) : List ℕ :=
  scatterFrom width 0 (replicate columns 0) segments

theorem cumsum_append (count : ℕ) (flags later : List Bool) :
    cumsum count (flags ++ later) = cumsum count flags ++ cumsum (count + flags.count true) later := by
  induction flags generalizing count with
  | nil => rfl
  | cons flag flags ih =>
    rw [cons_append, cumsum, ih, cumsum, add_assoc]
    cases flag <;> simp [add_comm]

theorem cumsum_replicate_true (count size : ℕ) :
    cumsum count (replicate size true) = range' (count + 1) size := by
  induction size generalizing count with
  | zero => rfl
  | succ size ih => rw [replicate_succ, cumsum, range'_succ, Bool.toNat_true, ih]

theorem cumsum_replicate_false (count size : ℕ) :
    cumsum count (replicate size false) = replicate size count := by
  induction size with
  | zero => rfl
  | succ size ih => rw [replicate_succ, cumsum, Bool.toNat_false, add_zero, ih, replicate_succ]

variable {size : ℕ}

theorem map_range_lt (hsize : size ≤ width) :
    ((range width).map fun slot ↦ decide (slot < size)) =
      replicate size true ++ replicate (width - size) false := by
  apply ext_getElem
  · simp [hsize]
  · intro index _ _
    rw [getElem_map, getElem_range, getElem_append]
    split
    next hlt =>
      rw [length_replicate] at hlt
      rw [getElem_replicate, decide_eq_true hlt]
    next hle =>
      rw [length_replicate] at hle
      rw [getElem_replicate, decide_eq_false hle]

/-- One segment: its valid slots write its positions at the next columns, and the slots behind them the
last column of these, or the last column before when the segment is empty. -/
theorem scatterFrom_cons {start : ℕ} (hsize : size ≤ width) (count : ℕ) (cells : List ℕ)
    (segments : List Segment) :
    scatterFrom width count cells ((start, size) :: segments) =
      scatterFrom width (count + size)
        (writeAll (writeAll cells ((range' count size).zip (range' start size)))
          ((replicate (width - size) (count + size - 1)).zip (range' (start + size) (width - size))))
        segments := by
  have hpositions : (range width).map (start + ·) =
      range' start size ++ range' (start + size) (width - size) := by
    rw [range_eq_range', map_add_range', add_zero, range'_append_1, Nat.add_sub_of_le hsize]
  have hranks : (cumsum count (replicate size true ++ replicate (width - size) false)).map (· - 1) =
      range' count size ++ replicate (width - size) (count + size - 1) := by
    rw [cumsum_append, cumsum_replicate_true, count_replicate_self, cumsum_replicate_false,
      map_append, map_replicate]
    congr 1
    apply ext_getElem
    · simp
    · simp
  have hvalid : slotValid width ((start, size) :: segments) =
      (replicate size true ++ replicate (width - size) false) ++ slotValid width segments :=
    congrArg (· ++ slotValid width segments) (map_range_lt width hsize)
  have hcount : (replicate size true ++ replicate (width - size) false).count true = size := by
    rw [count_append, count_replicate_self, count_replicate]
    simp
  have hslots : slotPositions width ((start, size) :: segments) =
      (range' start size ++ range' (start + size) (width - size)) ++ slotPositions width segments :=
    congrArg (· ++ slotPositions width segments) hpositions
  rw [scatterFrom, hvalid, hslots, cumsum_append, hcount, map_append, hranks,
    zip_append (by simp), zip_append (by simp), writeAll_append, writeAll_append]
  rfl

/-! ## The columns after the scatter -/

/-- The first position of the last segment of the run made of a segment at `start` and the empty segments
directly behind it. -/
def lastStart (start : ℕ) : List Segment → ℕ
  | (next, 0) :: segments => lastStart next segments
  | _ => start

/-- The columns that the scatter leaves for the segments. -/
def scattered : List Segment → List ℕ
  | [] => []
  | (_, 0) :: segments => scattered segments
  | (start, size + 1) :: segments =>
    range' start size ++ (lastStart start segments + width - 1) :: scattered segments

def total (segments : List Segment) : ℕ := (segments.map Prod.snd).sum

theorem length_scattered (segments : List Segment) : (scattered width segments).length = total segments := by
  induction segments with
  | nil => rfl
  | cons segment segments ih =>
    obtain ⟨_, size⟩ := segment
    cases size with
    | zero => simpa [scattered, total] using ih
    | succ size =>
      simp only [scattered, total, length_append, length_range', length_cons, ih, map_cons, sum_cons]
      omega

variable {width}

theorem scatterFrom_cons_succ (start : ℕ) (hsize : size + 1 ≤ width) (front back : List ℕ)
    (hback : size + 1 ≤ back.length) (segments : List Segment) :
    scatterFrom width front.length (front ++ back) ((start, size + 1) :: segments) =
      scatterFrom width (front.length + (size + 1))
        ((front ++ range' start size) ++ (start + width - 1) :: back.drop (size + 1)) segments := by
  have hsplit : front ++ back = front ++ back.take (size + 1) ++ back.drop (size + 1) := by
    rw [append_assoc, take_append_drop]
  have hlen := length_take_of_le hback
  have hwritten := writeAll_consecutive front (back.take (size + 1)) (back.drop (size + 1)) start
  rw [hlen, ← hsplit] at hwritten
  have hcol : (front ++ range' start size).length = front.length + (size + 1) - 1 := by
    rw [length_append, length_range']
    rfl
  have hcells : front ++ range' start (size + 1) ++ back.drop (size + 1) =
      (front ++ range' start size) ++ (start + size) :: back.drop (size + 1) := by
    rw [range'_concat]
    simp
  rw [scatterFrom_cons width hsize, hwritten, hcells, ← hcol, writeAll_same]
  congr 3
  split <;> omega

/-- An empty segment writes over the column of the last valid slot, the first one when there is none. -/
theorem scatterFrom_cons_zero (start count : ℕ) (front back : List ℕ) (cell : ℕ)
    (hcount : front.length = count - 1) (hwidth : 0 < width) (segments : List Segment) :
    scatterFrom width count (front ++ cell :: back) ((start, 0) :: segments) =
      scatterFrom width count (front ++ (start + width - 1) :: back) segments := by
  have hwrite := writeAll_same front back cell start width
  rw [if_neg (Nat.pos_iff_ne_zero.1 hwidth), hcount] at hwrite
  rw [scatterFrom_cons width (Nat.zero_le width), ← hwrite]
  rfl

/-- With at least one valid slot before: of the columns written so far only the last one is still written
to. -/
theorem scatterFrom_eq (front back : List ℕ) (before : ℕ) (hsizes : ∀ segment ∈ segments, segment.2 ≤ width)
    (hback : total segments ≤ back.length) (hwidth : 0 < width) :
    scatterFrom width (front.length + 1) (front ++ (before + width - 1) :: back) segments =
      front ++ (lastStart before segments + width - 1) :: scattered width segments ++
        back.drop (total segments) := by
  induction segments generalizing front back before with
  | nil =>
    change front ++ (before + width - 1) :: back = front ++ [before + width - 1] ++ back
    rw [append_assoc, singleton_append]
  | cons segment segments ih =>
    obtain ⟨start, size⟩ := segment
    rw [forall_mem_cons] at hsizes
    cases size with
    | zero =>
      have htotal : total ((start, 0) :: segments) = total segments := zero_add _
      rw [scatterFrom_cons_zero start _ front back _ rfl hwidth, htotal]
      exact ih front back start hsizes.2 (htotal ▸ hback)
    | succ size =>
      have htotal : total ((start, size + 1) :: segments) = size + 1 + total segments := sum_cons
      rw [htotal] at hback ⊢
      have hstep := scatterFrom_cons_succ start hsizes.1 (front ++ [before + width - 1]) back
        (Nat.le_of_add_right_le hback) segments
      have hcells : front ++ [before + width - 1] ++ back = front ++ (before + width - 1) :: back := by
        rw [append_assoc, singleton_append]
      have hfront : (front ++ [before + width - 1]).length = front.length + 1 := length_append
      rw [hcells, hfront] at hstep
      have hcount : (front ++ [before + width - 1] ++ range' start size).length + 1 =
          front.length + 1 + (size + 1) := by
        rw [length_append, hfront, length_range', add_assoc]
      have hrest := ih (front ++ [before + width - 1] ++ range' start size) (back.drop (size + 1))
        start hsizes.2 (by rw [length_drop]; omega)
      rw [hcount] at hrest
      have hlast : lastStart before ((start, size + 1) :: segments) = before := rfl
      rw [hstep, hrest, hlast, scattered]
      simp

/-- Before the first valid slot the invalid ones write the first column, which is written again. -/
theorem scatterFrom_zero_eq (cell : ℕ) (back : List ℕ) (hsizes : ∀ segment ∈ segments, segment.2 ≤ width)
    (hback : total segments ≤ back.length + 1) (hpos : 0 < total segments) (hwidth : 0 < width) :
    scatterFrom width 0 (cell :: back) segments =
      scattered width segments ++ (cell :: back).drop (total segments) := by
  induction segments generalizing cell with
  | nil => exact absurd hpos (Nat.lt_irrefl 0)
  | cons segment segments ih =>
    obtain ⟨start, size⟩ := segment
    rw [forall_mem_cons] at hsizes
    cases size with
    | zero =>
      have htotal : total ((start, 0) :: segments) = total segments := zero_add _
      rw [htotal] at hback hpos ⊢
      have hdrop : ((start + width - 1) :: back).drop (total segments) =
          (cell :: back).drop (total segments) := by
        rw [← Nat.succ_pred_eq_of_pos hpos]
        rfl
      calc scatterFrom width 0 (cell :: back) ((start, 0) :: segments)
          = scatterFrom width 0 ((start + width - 1) :: back) segments :=
            scatterFrom_cons_zero start 0 [] back cell rfl hwidth segments
        _ = scattered width segments ++ (cell :: back).drop (total segments) := by
            rw [ih _ hsizes.2 hback hpos, hdrop]
    | succ size =>
      have htotal : total ((start, size + 1) :: segments) = size + 1 + total segments := sum_cons
      have hcells := Nat.le_of_add_right_le hback
      have hrest := scatterFrom_eq (range' start size) ((cell :: back).drop (size + 1)) start
        hsizes.2 (by rw [length_drop, length_cons]; omega) hwidth
      rw [length_range', drop_drop] at hrest
      calc scatterFrom width 0 (cell :: back) ((start, size + 1) :: segments)
          = scatterFrom width (size + 1) (range' start size ++
              (start + width - 1) :: (cell :: back).drop (size + 1)) segments := by
            have hstep := scatterFrom_cons_succ start hsizes.1 [] (cell :: back) hcells segments
            simpa using hstep
        _ = _ := hrest

theorem scatterFrom_zero_of_total (before : ℕ) (back : List ℕ)
    (htotal : total segments = 0) (hwidth : 0 < width) :
    scatterFrom width 0 ((before + width - 1) :: back) segments =
      (lastStart before segments + width - 1) :: back := by
  induction segments generalizing before with
  | nil => rfl
  | cons segment segments ih =>
    obtain ⟨start, size⟩ := segment
    have hsum := sum_cons.symm.trans htotal
    have hsize := Nat.eq_zero_of_add_eq_zero_right hsum
    subst hsize
    calc scatterFrom width 0 ((before + width - 1) :: back) ((start, 0) :: segments)
        = scatterFrom width 0 ((start + width - 1) :: back) segments :=
          scatterFrom_cons_zero start 0 [] back _ rfl hwidth segments
      _ = (lastStart start segments + width - 1) :: back := ih start (Nat.eq_zero_of_add_eq_zero_left hsum)

variable {columns : ℕ}

theorem compact_eq (hsizes : ∀ segment ∈ segments, segment.2 ≤ width) (hcols : total segments ≤ columns)
    (hpos : 0 < total segments) (hwidth : 0 < width) :
    compact width columns segments = scattered width segments ++ replicate (columns - total segments) 0 := by
  obtain ⟨others, rfl⟩ :=
    Nat.exists_eq_succ_of_ne_zero (Nat.pos_iff_ne_zero.1 (Nat.lt_of_lt_of_le hpos hcols))
  have hcells : replicate (others + 1) 0 = 0 :: replicate others 0 := replicate_succ
  have hback : total segments ≤ (replicate others 0).length + 1 := by
    rw [length_replicate]
    exact hcols
  rw [compact, hcells, scatterFrom_zero_eq 0 _ hsizes hback hpos hwidth, ← hcells, drop_replicate]

theorem compact_of_total (hcols : 0 < columns) (segment : Segment)
    (htotal : total (segment :: segments) = 0) (hwidth : 0 < width) :
    compact width columns (segment :: segments) =
      (lastStart segment.1 segments + width - 1) :: replicate (columns - 1) 0 := by
  obtain ⟨others, rfl⟩ := Nat.exists_eq_succ_of_ne_zero (Nat.pos_iff_ne_zero.1 hcols)
  obtain ⟨start, size⟩ := segment
  have hsum := sum_cons.symm.trans htotal
  have hsize := Nat.eq_zero_of_add_eq_zero_right hsum
  subst hsize
  calc compact width (others + 1) ((start, 0) :: segments)
      = scatterFrom width 0 ((start + width - 1) :: replicate others 0) segments :=
        scatterFrom_cons_zero start 0 [] _ 0 rfl hwidth segments
    _ = (lastStart start segments + width - 1) :: replicate others 0 :=
        scatterFrom_zero_of_total start _ (Nat.eq_zero_of_add_eq_zero_left hsum) hwidth

/-! ## When the columns hold the segments -/

/-- The positions of the segments, one segment after another. -/
def segmentPositions (segments : List Segment) : List ℕ :=
  segments.flatMap fun segment ↦ range' segment.1 segment.2

variable (width) in
/-- The slots of a non-empty segment and of the empty segments directly behind it end where the segment
ends. A segment of full width with no empty one behind it is such a run. -/
def RunsFull : List Segment → Prop
  | [] => True
  | (start, size) :: segments =>
    (0 < size → lastStart start segments + width = start + size) ∧ RunsFull segments

variable (width) in
instance decidableRunsFull : (segments : List Segment) → Decidable (RunsFull width segments)
  | [] => isTrue trivial
  | (start, size) :: segments =>
    have := decidableRunsFull segments
    inferInstanceAs (Decidable ((0 < size → lastStart start segments + width = start + size) ∧
      RunsFull width segments))

theorem scattered_eq_iff (hwidth : 0 < width) (segments : List Segment) :
    scattered width segments = segmentPositions segments ↔ RunsFull width segments := by
  induction segments with
  | nil => exact iff_of_true rfl trivial
  | cons segment segments ih =>
    obtain ⟨start, size⟩ := segment
    cases size with
    | zero =>
      have hpositions : segmentPositions ((start, 0) :: segments) = segmentPositions segments := rfl
      rw [hpositions, scattered, ih, RunsFull]
      simp
    | succ size =>
      have hpositions : segmentPositions ((start, size + 1) :: segments) =
          range' start size ++ (start + size) :: segmentPositions segments := by
        change range' start (size + 1) ++ segmentPositions segments = _
        rw [range'_concat]
        simp
      rw [hpositions, scattered, append_cancel_left_eq, cons.injEq, ih]
      refine and_congr_left fun _ ↦ ⟨fun heq _ ↦ by omega, fun hrun ↦ ?_⟩
      omega

theorem length_segmentPositions (segments : List Segment) :
    (segmentPositions segments).length = total segments := by
  induction segments with
  | nil => rfl
  | cons segment segments ih =>
    calc (range' segment.1 segment.2 ++ segmentPositions segments).length
        = segment.2 + total segments := by rw [length_append, length_range', ih]
      _ = total (segment :: segments) := sum_cons.symm

variable (width) in
/-- The slots of segments that are all empty end below `bound`. -/
def EmptyFits (bound : ℕ) : List Segment → Prop
  | [] => True
  | segment :: segments => lastStart segment.1 segments + width ≤ bound

variable (width) in
instance decidableEmptyFits (bound : ℕ) :
    (segments : List Segment) → Decidable (EmptyFits width bound segments)
  | [] => isTrue trivial
  | segment :: segments => inferInstanceAs (Decidable (lastStart segment.1 segments + width ≤ bound))

/-- The columns hold the segments and no position outside a row of `bound` tokens. -/
theorem compact_iff {bound : ℕ} (hsizes : ∀ segment ∈ segments, segment.2 ≤ width)
    (hcols : total segments ≤ columns) (hpos : 0 < columns) (hwidth : 0 < width) (hbound : 0 < bound)
    (hwithin : ∀ pos ∈ segmentPositions segments, pos < bound) :
    (compact width columns segments).take (total segments) = segmentPositions segments ∧
        (∀ pos ∈ compact width columns segments, pos < bound) ↔
      RunsFull width segments ∧ (total segments = 0 → EmptyFits width bound segments) := by
  rcases Nat.eq_zero_or_pos (total segments) with htotal | htotal
  · have hnil : segmentPositions segments = [] := by
      rw [← length_eq_zero_iff, length_segmentPositions, htotal]
    have hscattered : scattered width segments = [] := by
      rw [← length_eq_zero_iff, length_scattered, htotal]
    have hruns := (scattered_eq_iff hwidth segments).1 (hscattered.trans hnil.symm)
    have hcompact : (∀ pos ∈ compact width columns segments, pos < bound) ↔
        EmptyFits width bound segments := by
      cases segments with
      | nil =>
        refine iff_of_true (fun pos hposition ↦ ?_) trivial
        rw [eq_of_mem_replicate hposition]
        exact hbound
      | cons segment segments =>
        rw [compact_of_total hpos segment htotal hwidth, forall_mem_cons, EmptyFits]
        constructor
        · omega
        · intro _
          refine ⟨by omega, fun pos hposition ↦ ?_⟩
          rw [eq_of_mem_replicate hposition]
          exact hbound
    rw [hcompact, htotal, hnil]
    exact ⟨fun hfits ↦ ⟨hruns, fun _ ↦ hfits.2⟩, fun hfits ↦ ⟨rfl, hfits.2 rfl⟩⟩
  · rw [compact_eq hsizes hcols htotal hwidth, ← scattered_eq_iff hwidth, ← length_scattered, take_left]
    refine ⟨fun hfits ↦ ⟨hfits.1, fun hnone ↦ ?_⟩, fun hruns ↦ ⟨hruns.1, fun pos hposition ↦ ?_⟩⟩
    · rw [length_scattered] at hnone
      omega
    · rcases mem_append.1 hposition with hmem | hmem
      · exact hwithin pos (hruns.1 ▸ hmem)
      · rw [eq_of_mem_replicate hmem]
        exact hbound

end Nelssa.Foundation.RankScatter
