import Nelssa.Sched.QueueMoves

/-!
# Blocks that failed to load

A worker reports the blocks whose KV cache could not be loaded. `_handle_invalid_blocks` scans the
requests that wait for remote KV caches and the running requests, and takes the computed tokens of an
affected request back to its first invalid block. A block that an earlier request of the scan has marked
counts as computed for the later ones. Queues and statuses stay as they are.
-/

namespace Nelssa.Sched

open Nelssa.Core Foundation.Loops Function
open List hiding le_trans

variable {ρ ε : Type*}

attribute [local instance] lawfulBEq_of_linearOrder

/-- The scan of the blocks of one request: the blocks marked so far, whether the request has an invalid
block, and the index of the first block that this request marks. -/
structure BlockScan where
  markedInvalidBlockIds : List ℕ
  isAffected : Bool := false
  firstMarked : Option ℕ := none

namespace BlockScan

/-- One round of the loop over the blocks of a request, with the index of the block. -/
def visit (invalidBlockIds : List ℕ) (scan : BlockScan) (entry : ℕ × ℕ) : BlockScan :=
  if entry.1 ∉ invalidBlockIds then scan
  else if entry.1 ∈ scan.markedInvalidBlockIds then { scan with isAffected := true }
  else
    { markedInvalidBlockIds := entry.1 :: scan.markedInvalidBlockIds
      isAffected := true
      firstMarked := scan.firstMarked.or (some entry.2) }

/-- The loop over the blocks that may hold externally computed tokens. -/
def ofBlocks (invalidBlockIds markedInvalidBlockIds blockIds : List ℕ) : BlockScan :=
  blockIds.zipIdx.foldl (visit invalidBlockIds) { markedInvalidBlockIds }

/-- The computed tokens after the scan: up to the first block that the request marks, or those from
before the step if earlier requests have marked all its invalid blocks. -/
def numComputedTokens (scan : BlockScan) (blockSize : ℕ) (reqNumComputedTokens : ℤ) (current : ℕ) : ℕ :=
  match scan.firstMarked with
  | some index => index * blockSize
  | none => if scan.isAffected then reqNumComputedTokens.toNat else current

end BlockScan

open BlockScan

/-! ### The first marked block -/

variable {invalidBlockIds : List ℕ}

namespace BlockScan

variable {blockIds : List ℕ} {scan : BlockScan} {first : ℕ}

section

variable (invalidBlockIds : List ℕ) (scan : BlockScan)

/-- The blocks from the index `first` on. -/
def visitFrom (blockIds : List ℕ) (first : ℕ) : BlockScan :=
  (blockIds.zipIdx first).foldl (visit invalidBlockIds) scan

theorem visitFrom_cons (block : ℕ) (rest : List ℕ) (first : ℕ) :
    visitFrom invalidBlockIds scan (block :: rest) first =
      visitFrom invalidBlockIds (scan.visit invalidBlockIds (block, first)) rest (first + 1) := rfl

theorem visit_cases (block index : ℕ) :
    (block ∈ invalidBlockIds ∧ block ∉ scan.markedInvalidBlockIds ∧
      scan.visit invalidBlockIds (block, index) =
        { markedInvalidBlockIds := block :: scan.markedInvalidBlockIds
          isAffected := true
          firstMarked := scan.firstMarked.or (some index) }) ∨
    ¬ (block ∈ invalidBlockIds ∧ block ∉ scan.markedInvalidBlockIds) ∧
      (scan.visit invalidBlockIds (block, index)).markedInvalidBlockIds = scan.markedInvalidBlockIds ∧
      (scan.visit invalidBlockIds (block, index)).firstMarked = scan.firstMarked := by
  unfold visit
  by_cases hinval : block ∈ invalidBlockIds
  · by_cases hmarked : block ∈ scan.markedInvalidBlockIds
    · rw [if_neg (not_not.2 hinval), if_pos hmarked]
      exact .inr ⟨fun h ↦ h.2 hmarked, rfl, rfl⟩
    · rw [if_neg (not_not.2 hinval), if_neg hmarked]
      exact .inl ⟨hinval, hmarked, rfl⟩
  · rw [if_pos hinval]
    exact .inr ⟨fun h ↦ hinval h.1, rfl, rfl⟩

end

theorem firstMarked_visitFrom {index : ℕ} (hmarked : scan.firstMarked = some index) :
    (visitFrom invalidBlockIds scan blockIds first).firstMarked = some index := by
  induction blockIds generalizing scan first with
  | nil => exact hmarked
  | cons block rest ih =>
    apply ih
    rcases visit_cases invalidBlockIds scan block first with ⟨-, -, hvisit⟩ | ⟨-, -, hvisit⟩
    · rw [hvisit, hmarked]
      rfl
    · rw [hvisit, hmarked]

theorem firstMarked_le {index block : ℕ} (hfirst : scan.firstMarked = none)
    (hblock : blockIds[index]? = some block) (hinval : block ∈ invalidBlockIds)
    (hnew : block ∉ scan.markedInvalidBlockIds) :
    ∃ marked ≤ first + index, (visitFrom invalidBlockIds scan blockIds first).firstMarked = some marked := by
  induction blockIds generalizing scan first index with
  | nil => cases hblock
  | cons head rest ih =>
    rw [visitFrom_cons]
    rcases visit_cases invalidBlockIds scan head first with ⟨-, -, hvisit⟩ | ⟨hskip, hmarked, hvisit⟩
    · refine ⟨first, Nat.le_add_right _ _, firstMarked_visitFrom ?_⟩
      rw [hvisit, hfirst]
      rfl
    · cases index with
      | zero =>
        obtain rfl : head = block := Option.some.inj hblock
        exact absurd ⟨hinval, hnew⟩ hskip
      | succ index =>
        have hrest := hblock
        obtain ⟨marked, hle, hres⟩ := @ih _ _ index (hvisit.trans hfirst) hrest (hmarked ▸ hnew)
        exact ⟨marked, by omega, hres⟩

theorem marked_visitFrom :
    (∀ block ∈ (visitFrom invalidBlockIds scan blockIds first).markedInvalidBlockIds,
      block ∈ scan.markedInvalidBlockIds ∨ block ∈ blockIds) ∧
    ∀ index, (visitFrom invalidBlockIds scan blockIds first).firstMarked = some index →
      scan.firstMarked = some index ∨ index < first + blockIds.length := by
  induction blockIds generalizing scan first with
  | nil => exact ⟨fun _ ↦ .inl, fun _ ↦ .inl⟩
  | cons head rest ih =>
    rw [visitFrom_cons]
    obtain ⟨hmarked, hidx⟩ := @ih (scan.visit invalidBlockIds (head, first)) _
    rw [length_cons]
    rcases visit_cases invalidBlockIds scan head first with ⟨-, -, hvisit⟩ | ⟨-, hkept, hvisit⟩
    · rw [hvisit] at hmarked hidx ⊢
      refine ⟨fun block hblock ↦ ?_, fun index hfinal ↦ ?_⟩
      · rcases hmarked block hblock with hold | hrest
        · rcases mem_cons.1 hold with rfl | hold
          · exact .inr mem_cons_self
          · exact .inl hold
        · exact .inr (mem_cons_of_mem head hrest)
      · rcases hidx index hfinal with hhere | hbehind
        · cases hold : scan.firstMarked with
          | none =>
            rw [hold] at hhere
            obtain rfl : first = index := Option.some.inj hhere
            exact .inr (by omega)
          | some marked =>
            rw [hold] at hhere
            exact .inl hhere
        · exact .inr (by omega)
    · rw [hkept] at hmarked
      rw [hvisit] at hidx
      refine ⟨fun block hblock ↦ (hmarked block hblock).imp_right (mem_cons_of_mem head),
        fun index hfinal ↦ (hidx index hfinal).imp_right fun hlt ↦ by omega⟩

end BlockScan

/-- The variables of `_update_requests_with_invalid_blocks`. -/
structure RequestScan (ρ : Type*) where
  requests : ρ → Request
  markedInvalidBlockIds : List ℕ := []
  affectedReqIds : List ρ := []
  blocksToEvict : List ℕ := []

namespace Scheduler

variable [LinearOrder ρ] (config : SchedulerConfig) (sched : Scheduler ε ρ)

/-- The tokens of a request that were computed before the step. -/
def reqNumComputedTokens (numScheduledTokens : AList (fun _ : ρ ↦ ℤ)) (req : Request) (id : ρ) : ℤ :=
  req.numComputedTokens - (numScheduledTokens.lookup id).getD 0

/-- The blocks that hold the given number of tokens. -/
def numBlocksOf (numTokens : ℤ) : ℕ := ((numTokens + config.blockSize - 1) / config.blockSize).toNat

/-- One round of the loop over the requests. The block table has to have a single group. -/
def updateRequestWithInvalidBlocks (invalidBlockIds : List ℕ) (numScheduledTokens : AList (fun _ : ρ ↦ ℤ))
    (evictBlocks : Bool) (state : RequestScan ρ) (id : ρ) : Except Exn (RequestScan ρ) :=
  match sched.kvCacheManager.getBlocks id with
  | [reqBlockIds] =>
    let numComputedTokens := reqNumComputedTokens numScheduledTokens (state.requests id) id
    let scan := ofBlocks invalidBlockIds state.markedInvalidBlockIds
      (reqBlockIds.take (numBlocksOf config numComputedTokens))
    .ok { requests := update state.requests id { state.requests id with
            numComputedTokens := scan.numComputedTokens config.blockSize numComputedTokens
              (state.requests id).numComputedTokens }
          markedInvalidBlockIds := scan.markedInvalidBlockIds
          affectedReqIds := if scan.isAffected then state.affectedReqIds ++ [id] else state.affectedReqIds
          blocksToEvict := match scan.firstMarked with
            | some index => if evictBlocks then state.blocksToEvict ++ reqBlockIds.drop index
                else state.blocksToEvict
            | none => state.blocksToEvict }
  | _ => .error (.valueError "expected the blocks of one group")

def updateRequestsWithInvalidBlocks (requests : ρ → Request) (ids : List ρ) (invalidBlockIds : List ℕ)
    (numScheduledTokens : AList (fun _ : ρ ↦ ℤ)) (evictBlocks : Bool) : Except Exn (RequestScan ρ) :=
  ids.foldlM (sched.updateRequestWithInvalidBlocks config invalidBlockIds numScheduledTokens evictBlocks)
    { requests }

/-- The requests that load their KV cache asynchronously. -/
def asyncLoadReqs : List ρ :=
  (sched.skippedWaiting.iter (requestLt sched.requests)).filter fun id ↦
    (sched.requests id).status = .waitingForRemoteKvs

/-- The result is the list of affected requests that `update_from_output` skips. Without the recompute
policy the blocks of the affected running requests are evicted and all affected requests fail. -/
def handleInvalidBlocks (recomputeKvLoadFailures : Bool) (invalidBlockIds : List ℕ)
    (numScheduledTokens : AList (fun _ : ρ ↦ ℤ)) : Except Exn (List ρ × Scheduler ε ρ) :=
  match sched.updateRequestsWithInvalidBlocks config sched.requests sched.asyncLoadReqs invalidBlockIds
      numScheduledTokens false with
  | .error exn => .error exn
  | .ok async =>
    match sched.updateRequestsWithInvalidBlocks config async.requests sched.running invalidBlockIds
        numScheduledTokens true with
    | .error exn => .error exn
    | .ok sync =>
      let updated := { sched with requests := sync.requests }
      if recomputeKvLoadFailures then
        .ok (sync.affectedReqIds,
          { updated with
            failedRecvingKvReqIds := fun id ↦
              sched.failedRecvingKvReqIds id || decide (id ∈ async.affectedReqIds) })
      else
        let evicted := sched.kvCacheManager.blockPool.evictBlocks sync.blocksToEvict
        match evicted.1 with
        | .error exn => .error exn
        | .ok () => .ok (async.affectedReqIds ++ sync.affectedReqIds,
            { updated with kvCacheManager := { sched.kvCacheManager with blockPool := evicted.2 } })

/-! ## What stays as it is -/

variable {config sched}

theorem foldlM_invariant {α σ : Type*} {step : σ → α → Except Exn σ} {inv : σ → Prop}
    (hstep : ∀ state item next, inv state → step state item = .ok next → inv next) {items : List α}
    {start final : σ} (hstart : inv start) (hfold : items.foldlM step start = .ok final) : inv final := by
  induction items generalizing start with
  | nil =>
    cases hfold
    exact hstart
  | cons item rest ih =>
    obtain ⟨next, hnext, hrest⟩ := foldlM_cons_eq_ok_iff.1 hfold
    exact ih (hstep start item next hstart hnext) hrest

variable {numScheduledTokens : AList (fun _ : ρ ↦ ℤ)} {evictBlocks : Bool}

theorem status_updateRequestsWithInvalidBlocks {requests : ρ → Request} {ids : List ρ}
    {result : RequestScan ρ}
    (hscan : sched.updateRequestsWithInvalidBlocks config requests ids invalidBlockIds numScheduledTokens
      evictBlocks = .ok result) (id : ρ) : (result.requests id).status = (requests id).status := by
  let inv (state : RequestScan ρ) : Prop := ∀ other, (state.requests other).status = (requests other).status
  have hstep (state : RequestScan ρ) (item : ρ) (next : RequestScan ρ) (hstate : inv state)
      (hnext : sched.updateRequestWithInvalidBlocks config invalidBlockIds numScheduledTokens evictBlocks
        state item = .ok next) : inv next := by
    intro other
    unfold updateRequestWithInvalidBlocks at hnext
    split at hnext
    · cases hnext
      by_cases hsame : other = item
      · rw [hsame]
        exact (congrArg Request.status (update_self item _ state.requests)).trans (hstate item)
      · exact (congrArg Request.status (update_of_ne hsame _ _)).trans (hstate other)
    · cases hnext
  exact foldlM_invariant hstep (fun _ ↦ rfl) hscan id

variable {after : Scheduler ε ρ}

theorem handleInvalidBlocks_cases {recomputeKvLoadFailures : Bool} {failed : List ρ}
    (hhandle : sched.handleInvalidBlocks config recomputeKvLoadFailures invalidBlockIds
      numScheduledTokens = .ok (failed, after)) :
    (∀ id, (after.requests id).status = (sched.requests id).status) ∧ after.running = sched.running ∧
      after.waiting = sched.waiting ∧ after.skippedWaiting = sched.skippedWaiting := by
  unfold handleInvalidBlocks at hhandle
  split at hhandle
  · cases hhandle
  · next async hasync =>
    split at hhandle
    · cases hhandle
    · next sync hsync =>
      have hstat (id : ρ) := (status_updateRequestsWithInvalidBlocks hsync id).trans
          (status_updateRequestsWithInvalidBlocks hasync id)
      dsimp only at hhandle
      split at hhandle
      · cases hhandle
        exact ⟨hstat, rfl, rfl, rfl⟩
      · split at hhandle
        · cases hhandle
        · cases hhandle
          exact ⟨hstat, rfl, rfl, rfl⟩

/-! ## Where the affected requests go back to -/

section

variable (config : SchedulerConfig) (sched : Scheduler ε ρ)

def scannedBlocks (numScheduledTokens : AList (fun _ : ρ ↦ ℤ)) (id : ρ) : List ℕ :=
  ((sched.kvCacheManager.getBlocks id).headD []).take
    (numBlocksOf config (reqNumComputedTokens numScheduledTokens (sched.requests id) id))

/-- A request of the scan goes back at least to the start of each of its invalid blocks that no earlier
request of the scan has. -/
def ResetsAffected (ids : List ρ) (invalidBlockIds : List ℕ) (numScheduledTokens : AList (fun _ : ρ ↦ ℤ))
    (requests : ρ → Request) : Prop :=
  ∀ earlier id later, ids = earlier ++ id :: later → ∀ index block,
    (sched.scannedBlocks config numScheduledTokens id)[index]? = some block → block ∈ invalidBlockIds →
    (∀ other ∈ earlier, block ∉ sched.scannedBlocks config numScheduledTokens other) →
    (requests id).numComputedTokens ≤ index * config.blockSize

end

variable {state next final : RequestScan ρ} {id : ρ} {ids : List ρ}

theorem updateRequestWithInvalidBlocks_cases
    (hupdate : sched.updateRequestWithInvalidBlocks config invalidBlockIds numScheduledTokens evictBlocks
      state id = .ok next) :
    ∃ scan, scan = visitFrom invalidBlockIds { markedInvalidBlockIds := state.markedInvalidBlockIds }
        (((sched.kvCacheManager.getBlocks id).headD []).take
          (numBlocksOf config (reqNumComputedTokens numScheduledTokens (state.requests id) id))) 0 ∧
      next.markedInvalidBlockIds = scan.markedInvalidBlockIds ∧
      (∀ other, other ≠ id → next.requests other = state.requests other) ∧
      (next.requests id).numComputedTokens = scan.numComputedTokens config.blockSize
        (reqNumComputedTokens numScheduledTokens (state.requests id) id)
        (state.requests id).numComputedTokens := by
  unfold updateRequestWithInvalidBlocks at hupdate
  split at hupdate
  · next blocks hblocks =>
    cases hupdate
    rw [hblocks]
    refine ⟨_, rfl, rfl, fun other hne ↦ update_of_ne hne _ _, ?_⟩
    exact congrArg Request.numComputedTokens (update_self id _ state.requests)
  · cases hupdate

theorem resetsAffected_scan (hnodup : ids.Nodup) (hsame : ∀ id ∈ ids, state.requests id = sched.requests id)
    (hscan : ids.foldlM (sched.updateRequestWithInvalidBlocks config invalidBlockIds numScheduledTokens
      evictBlocks) state = .ok final) :
    (∀ id, id ∉ ids → final.requests id = state.requests id) ∧
      ∀ earlier id later, ids = earlier ++ id :: later → ∀ index block,
        (sched.scannedBlocks config numScheduledTokens id)[index]? = some block →
        block ∈ invalidBlockIds → block ∉ state.markedInvalidBlockIds →
        (∀ other ∈ earlier, block ∉ sched.scannedBlocks config numScheduledTokens other) →
        (final.requests id).numComputedTokens ≤ index * config.blockSize := by
  induction ids generalizing state with
  | nil =>
    cases hscan
    refine ⟨fun _ _ ↦ rfl, fun earlier id later hids ↦ ?_⟩
    cases earlier <;> cases hids
  | cons head rest ih =>
    obtain ⟨hhead, hrestNodup⟩ := nodup_cons.1 hnodup
    obtain ⟨next, hstep, hrun⟩ := foldlM_cons_eq_ok_iff.1 hscan
    obtain ⟨scan, hscanned, hmarked, hothers, hcomp⟩ := updateRequestWithInvalidBlocks_cases hstep
    rw [hsame head mem_cons_self] at hscanned
    have hrestSame (id : ρ) (hid : id ∈ rest) : next.requests id = sched.requests id := by
      rw [hothers id fun h ↦ hhead (h ▸ hid)]
      exact hsame id (mem_cons_of_mem head hid)
    obtain ⟨hkept, hreset⟩ := ih hrestNodup hrestSame hrun
    refine ⟨fun id hid ↦ ?_, fun earlier id later hids index block hblock hinval hnew hearlier ↦ ?_⟩
    · rw [mem_cons, not_or] at hid
      rw [hkept id hid.2, hothers id hid.1]
    · cases earlier with
      | nil =>
        obtain ⟨rfl, -⟩ := cons.inj hids
        rw [hkept head hhead, hcomp]
        obtain ⟨marked, hle, hfirst⟩ : ∃ marked ≤ 0 + index, scan.firstMarked = some marked := by
          rw [hscanned]
          exact firstMarked_le rfl hblock hinval hnew
        rw [zero_add] at hle
        rw [numComputedTokens, hfirst]
        exact Nat.mul_le_mul_right _ hle
      | cons other earlier =>
        obtain ⟨rfl, hrest⟩ := cons.inj hids
        refine hreset earlier id later hrest index block hblock hinval ?_
          fun other hother ↦ hearlier other (mem_cons_of_mem head hother)
        rw [hmarked, hscanned]
        intro hmem
        rcases marked_visitFrom.1 block hmem with hold | hhere
        · exact hnew hold
        · exact hearlier head mem_cons_self hhere

theorem mul_lt_of_lt_numBlocksOf {index : ℕ} {numTokens : ℤ} (hidx : index < numBlocksOf config numTokens) :
    (index * config.blockSize : ℕ) < numTokens := by
  have hsize := Int.natCast_pos.2 config.blockSize_pos
  have hblocks : (index + 1 : ℤ) ≤ (numTokens + config.blockSize - 1) / config.blockSize := by
    unfold numBlocksOf at hidx
    omega
  have hmul := (Int.le_ediv_iff_mul_le hsize).1 hblocks
  rw [add_mul] at hmul
  omega

theorem computed_scan_le
    (hcounts : ∀ id numTokens, numScheduledTokens.lookup id = some numTokens → 0 ≤ numTokens)
    (hscan : ids.foldlM (sched.updateRequestWithInvalidBlocks config invalidBlockIds numScheduledTokens
      evictBlocks) state = .ok final) (id : ρ) :
    (final.requests id).numComputedTokens ≤ (state.requests id).numComputedTokens := by
  let inv (current : RequestScan ρ) : Prop :=
    ∀ id, (current.requests id).numComputedTokens ≤ (state.requests id).numComputedTokens
  have hstep (current : RequestScan ρ) (item : ρ) (next : RequestScan ρ) (hcur : inv current)
      (hnext : sched.updateRequestWithInvalidBlocks config invalidBlockIds numScheduledTokens evictBlocks
        current item = .ok next) : inv next := by
    intro other
    obtain ⟨_, hscanned, -, hothers, hcomp⟩ := updateRequestWithInvalidBlocks_cases hnext
    by_cases hsame : other = item
    · rw [hsame]
      refine le_trans ?_ (hcur item)
      have hbefore : reqNumComputedTokens numScheduledTokens (current.requests item) item ≤
          (current.requests item).numComputedTokens := by
        unfold reqNumComputedTokens
        cases hlookup : numScheduledTokens.lookup item with
        | none => exact (sub_zero _).le
        | some numTokens =>
          have hnonneg := hcounts item numTokens hlookup
          exact sub_le_self _ hnonneg
      rw [hcomp]
      unfold numComputedTokens
      split
      · next index hfirst =>
        rw [hscanned] at hfirst
        rcases marked_visitFrom.2 index hfirst with hnone | hidx
        · cases hnone
        · rw [zero_add, length_take] at hidx
          have hlt := mul_lt_of_lt_numBlocksOf (lt_of_lt_of_le hidx (min_le_left _ _))
          omega
      · split
        · omega
        · exact le_rfl
    · rw [hothers other hsame]
      exact hcur other
  exact foldlM_invariant hstep (fun _ ↦ le_rfl) hscan id

variable (hsched : sched.WellFormed config)
include hsched

theorem nodup_asyncLoadReqs : sched.asyncLoadReqs.Nodup := by
  have hqueues := (nodup_append.1 hsched.nodup).2.1
  have hskipped := (nodup_append.1 hqueues).2.1
  exact .filter _ ((RequestQueue.iter_perm _ _).nodup_iff.2 hskipped)

/-- Both scans reset their affected requests. No request loads its KV cache while it runs. -/
theorem resetsAffected_handleInvalidBlocks {failed : List ρ}
    (hhandle : sched.handleInvalidBlocks config true invalidBlockIds numScheduledTokens =
      .ok (failed, after)) :
    after.kvCacheManager = sched.kvCacheManager ∧ after.environment = sched.environment ∧
      sched.ResetsAffected config sched.asyncLoadReqs invalidBlockIds numScheduledTokens after.requests ∧
      sched.ResetsAffected config sched.running invalidBlockIds numScheduledTokens after.requests ∧
      ((∀ id numTokens, numScheduledTokens.lookup id = some numTokens → 0 ≤ numTokens) →
        ∀ id, (after.requests id).numComputedTokens ≤ (sched.requests id).numComputedTokens) := by
  have hmem (id : ρ) (hid : id ∈ sched.asyncLoadReqs) :=
    (RequestQueue.iter_perm _ _).mem_iff.1 (mem_of_mem_filter hid)
  have hdisj (id : ρ) (hid : id ∈ sched.asyncLoadReqs) := fun hrun ↦
    disjoint_of_nodup_append hsched.nodup hrun (mem_append_right _ (hmem id hid))
  unfold handleInvalidBlocks at hhandle
  split at hhandle
  · cases hhandle
  · next async hasync =>
    split at hhandle
    · cases hhandle
    · next sync hsync =>
      cases hhandle
      have hasyncScan : sched.asyncLoadReqs.foldlM (sched.updateRequestWithInvalidBlocks config
          invalidBlockIds numScheduledTokens false) { requests := sched.requests } = .ok async := hasync
      have hsyncScan : sched.running.foldlM (sched.updateRequestWithInvalidBlocks config
          invalidBlockIds numScheduledTokens true) { requests := async.requests } = .ok sync := hsync
      obtain ⟨hkeptAsync, hresetAsync⟩ := resetsAffected_scan (nodup_asyncLoadReqs hsched)
        (fun _ _ ↦ rfl) hasyncScan
      have hsame (id : ρ) (hid : id ∈ sched.running) :
          ({ requests := async.requests } : RequestScan ρ).requests id = sched.requests id :=
        hkeptAsync id fun h ↦ hdisj id h hid
      obtain ⟨hkeptSync, hresetSync⟩ := resetsAffected_scan hsched.nodup_running hsame hsyncScan
      refine ⟨rfl, rfl, fun earlier id later hids index block hblock hinval hearlier ↦ ?_,
        fun earlier id later hids index block hblock hinval hearlier ↦ ?_, fun hcounts id ↦ ?_⟩
      · have hid : id ∈ sched.asyncLoadReqs := by
          rw [hids]
          exact mem_append_right _ mem_cons_self
        change (sync.requests id).numComputedTokens ≤ _
        rw [hkeptSync id (hdisj id hid)]
        exact hresetAsync earlier id later hids index block hblock hinval not_mem_nil hearlier
      · exact hresetSync earlier id later hids index block hblock hinval not_mem_nil hearlier
      · exact (computed_scan_le hcounts hsyncScan id).trans (computed_scan_le hcounts hasyncScan id)

end Scheduler

end Nelssa.Sched
