import Nelssa.Worker.OffloadWorker

/-!
# Prefills and their offload buffers

The rows that the current prefill of each request has computed are recorded beside the buffers of the
worker. As long as every prefill starts at the first token, finds no CPU buffer of its request or two empty
buffers, and continues chunk by chunk without being clustered before its end, both buffers always hold the
middle of the rows that the prefill has computed, within the capacity.
-/

namespace Nelssa.Worker.Offload

open Foundation.Runs Function OffloadWorker
open List hiding min

variable {ρ κ : Type*}

/-! ## The middle of a prefill -/

section

variable (config : OffloadConfig) (promptLen : ℕ) (rows : List κ)

def middle : List κ :=
  (rows.take (promptLen - config.lastM)).drop config.firstN

theorem length_middle_le : (middle config promptLen rows).length ≤ promptLen := by
  unfold middle
  rw [length_drop, length_take]
  omega

end

theorem length_chunkRows (step : ForwardStep κ ρ) (info : ChunkInfo) (reqIdx : ℕ) :
    (chunkRows step info reqIdx).length = info.chunkEnd - info.chunkStart := by
  unfold chunkRows
  rw [length_map, Ico.length]
  omega

theorem take_drop_Ico (first count low high : ℕ) :
    ((List.Ico first (first + count)).take high).drop low =
      List.Ico (first + low) (first + min high count) := by
  apply ext_getElem
  · simp only [length_drop, length_take, Ico.length]
    omega
  · simp only [getElem_drop, getElem_take, Ico, getElem_range', one_mul]
    omega

section

variable (config : OffloadConfig) (step : ForwardStep κ ρ) {info : ChunkInfo} (reqIdx : ℕ)
  (hlt : info.chunkStart < info.chunkEnd) (hend : info.chunkEnd ≤ info.promptLen)
include hlt hend

theorem middleRows_eq :
    middleRows config.firstN config.lastM step info reqIdx =
      ((chunkRows step info reqIdx).take (info.promptLen - config.lastM - info.chunkStart)).drop
        (config.firstN - info.chunkStart) := by
  unfold middleRows chunkRows
  dsimp only
  rw [if_pos (show 0 < info.promptLen by omega), ← map_take, ← map_drop, take_drop_Ico]
  split
  · next =>
    rw [Ico.eq_nil_of_le (by omega)]
    rfl
  · congr 2
    · omega
    · omega

theorem middle_append_chunkRows {rows : List κ} (hrows : rows.length = info.chunkStart) :
    middle config info.promptLen (rows ++ chunkRows step info reqIdx) =
      middle config info.promptLen rows ++ middleRows config.firstN config.lastM step info reqIdx := by
  rw [middleRows_eq config step reqIdx hlt hend]
  unfold middle
  rw [take_append, drop_append, length_take, hrows]
  rcases Nat.le_total _ _ with hle | hge
  · rw [min_eq_right hle]
  · rw [Nat.sub_eq_zero_of_le hge, take_zero, drop_nil, drop_nil]

end

/-! ## The prefills of a run -/

/-- The worker, and for each request the length of the prompt of its current prefill with the rows that the
prefill has computed. -/
structure PrefillRun (ρ κ : Type*) where
  worker : OffloadWorker ρ κ
  prefill : ρ → Option (ℕ × List κ)

namespace PrefillRun

variable [DecidableEq ρ] (config : OffloadConfig) {worker : OffloadWorker ρ κ} {entry : ρ × ChunkInfo}

def init : PrefillRun ρ κ := ⟨OffloadWorker.init, fun _ ↦ none⟩

/-- A chunk that starts at the first token starts a new prefill. -/
def earlierRows (prefill : ρ → Option (ℕ × List κ)) (entry : ρ × ChunkInfo) : List κ :=
  if entry.2.chunkStart = 0 then [] else ((prefill entry.1).map Prod.snd).getD []

def recordChunk (step : OffloadStep κ ρ) (prefill : ρ → Option (ℕ × List κ)) (entry : ρ × ChunkInfo) :
    ρ → Option (ℕ × List κ) :=
  if entry.2.isPrefillChunk then
    match step.reqIdToIdx entry.1 with
    | none => prefill
    | some reqIdx => update prefill entry.1
        (some (entry.2.promptLen,
          earlierRows prefill entry ++ chunkRows step.toForwardStep entry.2 reqIdx))
  else prefill

/-- The clustering and the cleanup end a prefill. -/
def apply (run : PrefillRun ρ κ) (event : OffloadEvent ρ κ) : PrefillRun ρ κ where
  worker := run.worker.apply config event
  prefill := match event with
    | .setRequest _ _ => run.prefill
    | .forward step => step.chunkInfo.foldl (recordChunk step) run.prefill
    | .cluster _ requestIds => fun reqId ↦ if reqId ∈ requestIds then none else run.prefill reqId
    | .cleanup reqId => update run.prefill reqId none

/-- Both buffers of the request hold exactly the given rows. -/
def BothHold (worker : OffloadWorker ρ κ) (reqId : ρ) (rows : List κ) (capacity : ℕ) : Prop :=
  worker.nelssaGpuBuffers reqId = some ⟨rows, rows.length, capacity⟩ ∧
    worker.sparseKvCpuBuffers reqId = some ⟨rows, rows.length, capacity⟩

section

variable (run : PrefillRun ρ κ)

/-- What the offloading of a step has to do: the callback finds the buffers and writes within them, and at
the end of a prefill both hold the middle of its rows. -/
structure Offloads (step : OffloadStep κ ρ) : Prop where
  succeeds : (run.worker.forward config step).1 = .ok ()
  within : ∀ key buffer, ((run.worker.forward config step).2.nelssaGpuBuffers key = some buffer ∨
    (run.worker.forward config step).2.sparseKvCpuBuffers key = some buffer) →
      buffer.offset ≤ buffer.capacity
  complete : ∀ entry ∈ step.chunkInfo, entry.2.isPrefillChunk = true → entry.2.promptLen ≤ entry.2.chunkEnd →
    ∃ rows capacity, (run.apply config (.forward step)).prefill entry.1 = some (entry.2.promptLen, rows) ∧
      rows.length = entry.2.promptLen ∧
      BothHold (run.worker.forward config step).2 entry.1 (middle config entry.2.promptLen rows) capacity

/-- The offloading of every step. -/
def OffloadsAt : OffloadEvent ρ κ → Prop
  | .forward step => run.Offloads config step
  | _ => True

/-- A prefill can start: the buffers are set up in this step, or both are there and nothing is stored in
them. -/
def Starts (step : OffloadStep κ ρ) (entry : ρ × ChunkInfo) : Prop :=
  run.worker.sparseKvCpuBuffers entry.1 = none ∧ (entry.1, true) ∈ step.nelssaLongMask ∧
      entry.2.promptLen ≤ step.maxTotalLen entry.1 ∨
    ∃ capacity, entry.2.promptLen ≤ capacity ∧ BothHold run.worker entry.1 [] capacity

/-- The chunk starts a prefill or continues the current one. -/
structure Continues (step : OffloadStep κ ρ) (entry : ρ × ChunkInfo) : Prop where
  inBatch : (step.reqIdToIdx entry.1).isSome
  chunk_lt : entry.2.chunkStart < entry.2.chunkEnd
  chunk_le : entry.2.chunkEnd ≤ entry.2.promptLen
  position : entry.2.chunkStart = 0 ∧ run.Starts step entry ∨
    0 < entry.2.chunkStart ∧ ∃ rows, run.prefill entry.1 = some (entry.2.promptLen, rows) ∧
      rows.length = entry.2.chunkStart

/-- Prefills start with empty buffers and run chunk by chunk; clustering and cleanup end them. The requests of
a prefill worker keep their ids. -/
def Undisturbed : OffloadEvent ρ κ → Prop
  | .setRequest _ params => CachedParams.OwnId params
  | .forward step => (step.chunkInfo.map Prod.fst).Nodup ∧
      ∀ entry ∈ step.chunkInfo, entry.2.isPrefillChunk = true → run.Continues step entry
  | .cluster _ _ => True
  | .cleanup _ => True

end

/-! ## What one event keeps -/

/-- The buffers of the requests whose prefill is under way, and the offsets of all buffers. -/
structure Kept (worker : OffloadWorker ρ κ) (prefill : ρ → Option (ℕ × List κ)) : Prop where
  ownId : ∀ reqId, CachedParams.OwnId (worker.requests reqId)
  within : ∀ key buffer, (worker.nelssaGpuBuffers key = some buffer ∨
    worker.sparseKvCpuBuffers key = some buffer) → buffer.offset ≤ buffer.capacity
  holds : ∀ reqId promptLen rows, prefill reqId = some (promptLen, rows) → ∃ capacity,
    promptLen ≤ capacity ∧ BothHold worker reqId (middle config promptLen rows) capacity

variable {config} {step : OffloadStep κ ρ} {prefill : ρ → Option (ℕ × List κ)}

omit [DecidableEq ρ] in
theorem Kept.key (hkept : Kept config worker prefill) (reqId : ρ) :
    bufferKey config.isPdDisaggregated worker.requests reqId = reqId :=
  bufferKey_of_ownId (hkept.ownId reqId)

omit [DecidableEq ρ] in
theorem Kept.init : Kept config (OffloadWorker.init : OffloadWorker ρ κ) fun _ ↦ none where
  ownId := by simp [OffloadWorker.init, CachedParams.OwnId]
  within := by simp [OffloadWorker.init]
  holds := by simp

theorem Kept.update (hkept : Kept config worker prefill) {reqId : ρ} {gpu cpu : Option (LayerBuffer κ)}
    {current : Option (ℕ × List κ)} (hgpu : ∀ buffer ∈ gpu, buffer.offset ≤ buffer.capacity)
    (hcpu : ∀ buffer ∈ cpu, buffer.offset ≤ buffer.capacity)
    (hcur : ∀ promptLen rows, current = some (promptLen, rows) → ∃ capacity, promptLen ≤ capacity ∧
      gpu = some ⟨middle config promptLen rows, (middle config promptLen rows).length, capacity⟩ ∧
      cpu = some ⟨middle config promptLen rows, (middle config promptLen rows).length, capacity⟩)
    (map : List (ρ × ρ)) :
    Kept config { worker with
      requestIdToBufferKey := map
      nelssaGpuBuffers := update worker.nelssaGpuBuffers reqId gpu
      sparseKvCpuBuffers := update worker.sparseKvCpuBuffers reqId cpu }
      (update prefill reqId current) where
  ownId := hkept.ownId
  within := by
    intro key buffer hbuffer
    by_cases hkey : key = reqId
    · subst hkey
      simp only [update_self] at hbuffer
      exact hbuffer.elim (hgpu buffer) (hcpu buffer)
    · simp only [update_of_ne hkey] at hbuffer
      exact hkept.within key buffer hbuffer
  holds := by
    intro key promptLen rows hrows
    unfold BothHold
    by_cases hkey : key = reqId
    · subst hkey
      simp only [update_self] at hrows ⊢
      exact hcur promptLen rows hrows
    · simp only [update_of_ne hkey] at hrows ⊢
      exact hkept.holds key promptLen rows hrows

/-! ## Setting up -/

section

variable (step : OffloadStep κ ρ) (hproducer : (config.isPdDisaggregated && config.isConsumer) = false)
include hproducer

theorem setupRequest_cases (hkept : Kept config worker prefill) (entry : ρ × Bool) :
    setupRequest config step worker entry = worker ∧
        (entry.2 = true → (worker.sparseKvCpuBuffers entry.1).isSome) ∨
      worker.sparseKvCpuBuffers entry.1 = none ∧ ∃ map capacity,
        (step.maxTotalLen entry.1 ≠ 0 → capacity = step.maxTotalLen entry.1) ∧
        setupRequest config step worker entry = { worker with
          requestIdToBufferKey := map
          nelssaGpuBuffers := update worker.nelssaGpuBuffers entry.1 (some (emptyBuffer capacity))
          sparseKvCpuBuffers := update worker.sparseKvCpuBuffers entry.1 (some (emptyBuffer capacity)) } := by
  unfold setupRequest
  split
  · next hskip =>
    refine .inl ⟨rfl, fun hlong ↦ ?_⟩
    simpa [hlong] using hskip
  · next htake =>
    have hnone : worker.sparseKvCpuBuffers entry.1 = none := by
      simp only [Bool.or_eq_true, Bool.not_eq_true', not_or, Bool.not_eq_true,
        Option.isSome_eq_false_iff, Option.isNone_iff_eq_none] at htake
      exact htake.2
    rw [if_neg (by rw [hproducer]; exact Bool.false_ne_true)]
    rw [hkept.key]
    exact .inr ⟨hnone, _, _, fun hne ↦ if_neg hne, rfl⟩

theorem setup_spec (mask : List (ρ × Bool)) (hkept : Kept config worker prefill) :
    Kept config (mask.foldl (setupRequest config step) worker) prefill ∧
      (∀ reqId, (worker.sparseKvCpuBuffers reqId).isSome →
        (mask.foldl (setupRequest config step) worker).sparseKvCpuBuffers reqId =
            worker.sparseKvCpuBuffers reqId ∧
          (mask.foldl (setupRequest config step) worker).nelssaGpuBuffers reqId =
            worker.nelssaGpuBuffers reqId) ∧
      ∀ reqId, worker.sparseKvCpuBuffers reqId = none → (reqId, true) ∈ mask → step.maxTotalLen reqId ≠ 0 →
        BothHold (mask.foldl (setupRequest config step) worker) reqId [] (step.maxTotalLen reqId) := by
  induction mask generalizing worker with
  | nil => exact ⟨hkept, fun _ _ ↦ ⟨rfl, rfl⟩, fun _ _ hmem ↦ absurd hmem not_mem_nil⟩
  | cons entry rest ih =>
    rw [foldl_cons]
    rcases setupRequest_cases step hproducer hkept entry with ⟨hsame, hhas⟩ |
      ⟨hnone, map, capacity, hcapacity, hnew⟩
    · rw [hsame]
      obtain ⟨hafter, holds, hfresh⟩ := ih hkept
      refine ⟨hafter, holds, fun reqId hcpu hmem hne ↦ ?_⟩
      rcases mem_cons.1 hmem with hentry | hrest
      · have hsome := hhas (by rw [← hentry])
        rw [← hentry, hcpu] at hsome
        cases hsome
      · exact hfresh reqId hcpu hrest hne
    · have hprefill : prefill entry.1 = none := by
        cases hcase : prefill entry.1 with
        | none => rfl
        | some current =>
          obtain ⟨_, _, -, hcpu⟩ := hkept.holds entry.1 _ _ hcase
          cases hnone.symm.trans hcpu
      have hself : update prefill entry.1 none = prefill := update_eq_self_iff.2 hprefill.symm
      have hnext : Kept config { worker with
          requestIdToBufferKey := map
          nelssaGpuBuffers := update worker.nelssaGpuBuffers entry.1 (some (emptyBuffer capacity))
          sparseKvCpuBuffers := update worker.sparseKvCpuBuffers entry.1 (some (emptyBuffer capacity)) }
          (update prefill entry.1 none) :=
        hkept.update (by simp [emptyBuffer]) (by simp [emptyBuffer]) (by simp) map
      rw [hself] at hnext
      rw [hnew]
      obtain ⟨hafter, holds, hfresh⟩ := ih hnext
      refine ⟨hafter, fun reqId hsome ↦ ?_, fun reqId hcpu hmem hne ↦ ?_⟩
      · have hreq : reqId ≠ entry.1 := by
          rintro rfl
          rw [hnone] at hsome
          cases hsome
        have hold := holds reqId (by simpa [update_of_ne hreq] using hsome)
        simpa [update_of_ne hreq] using hold
      · by_cases hreq : reqId = entry.1
        · subst hreq
          obtain ⟨hcpuAfter, hgpuAfter⟩ := holds entry.1 (by simp)
          simp only [update_self] at hcpuAfter hgpuAfter
          have hroom := hcapacity hne
          subst hroom
          exact ⟨hgpuAfter, hcpuAfter⟩
        · have hrest : (reqId, true) ∈ rest := by
            refine (mem_cons.1 hmem).resolve_left fun hentry ↦ hreq ?_
            rw [← hentry]
          exact hfresh reqId (by simpa [update_of_ne hreq] using hcpu) hrest hne

end

/-! ## The callback -/

/-- The buffers hold the middle of the rows in front of the chunk. -/
def Ready (config : OffloadConfig) (step : OffloadStep κ ρ) (worker : OffloadWorker ρ κ)
    (prefill : ρ → Option (ℕ × List κ)) (entry : ρ × ChunkInfo) : Prop :=
  (step.reqIdToIdx entry.1).isSome ∧ entry.2.chunkStart < entry.2.chunkEnd ∧
    entry.2.chunkEnd ≤ entry.2.promptLen ∧ (earlierRows prefill entry).length = entry.2.chunkStart ∧
    ∃ capacity, entry.2.promptLen ≤ capacity ∧
      BothHold worker entry.1 (middle config entry.2.promptLen (earlierRows prefill entry)) capacity

theorem write_of_le {rows new : List κ} {capacity : ℕ} (hle : (rows ++ new).length ≤ capacity) :
    LayerBuffer.write ⟨rows, rows.length, capacity⟩ new =
      .ok ⟨rows ++ new, (rows ++ new).length, capacity⟩ := by
  rw [length_append] at hle ⊢
  exact if_pos hle

theorem offloadChunk_of_ready (hkept : Kept config worker prefill)
    (hprefill : entry.2.isPrefillChunk = true) (hready : Ready config step worker prefill entry) :
    ∃ next, worker.offloadChunk config step entry = .ok next ∧
      Kept config next (recordChunk step prefill entry) ∧
      (∃ rows, recordChunk step prefill entry entry.1 = some (entry.2.promptLen, rows) ∧
        rows.length = entry.2.chunkEnd) ∧
      ∀ other ≠ entry.1, next.nelssaGpuBuffers other = worker.nelssaGpuBuffers other ∧
        next.sparseKvCpuBuffers other = worker.sparseKvCpuBuffers other ∧
        recordChunk step prefill entry other = prefill other := by
  obtain ⟨hidx, hlt, hend, hearlier, capacity, hcapacity, hgpu, hcpu⟩ := hready
  obtain ⟨reqIdx, hreqIdx⟩ := Option.isSome_iff_exists.1 hidx
  have hmiddle := middle_append_chunkRows config step.toForwardStep reqIdx hlt hend hearlier
  have hrecord : recordChunk step prefill entry = update prefill entry.1
      (some (entry.2.promptLen,
        earlierRows prefill entry ++ chunkRows step.toForwardStep entry.2 reqIdx)) := by
    unfold recordChunk
    rw [if_pos hprefill, hreqIdx]
  have hcount : (earlierRows prefill entry ++ chunkRows step.toForwardStep entry.2 reqIdx).length =
      entry.2.chunkEnd := by
    rw [length_append, length_chunkRows]
    omega
  have hfits := (length_middle_le config _
    (earlierRows prefill entry ++ chunkRows step.toForwardStep entry.2 reqIdx)).trans hcapacity
  rw [hrecord, update_self]
  unfold offloadChunk
  simp only [hprefill, if_true, hreqIdx, hkept.key, hgpu, hcpu]
  split
  · next hempty =>
    -- Nothing of the chunk belongs to the middle.
    rw [isEmpty_iff.1 hempty, append_nil] at hmiddle
    refine ⟨worker, rfl, ?_, ⟨_, rfl, hcount⟩, fun other hother ↦ ⟨rfl, rfl, update_of_ne hother ..⟩⟩
    refine ⟨hkept.ownId, hkept.within, fun reqId promptLen rows hrows ↦ ?_⟩
    by_cases hreq : reqId = entry.1
    · subst hreq
      rw [update_self] at hrows
      cases hrows
      rw [hmiddle]
      exact ⟨capacity, hcapacity, hgpu, hcpu⟩
    · rw [update_of_ne hreq] at hrows
      exact hkept.holds reqId promptLen rows hrows
  · rw [hmiddle] at hfits
    rw [write_of_le hfits, ← hmiddle]
    rw [← hmiddle] at hfits
    refine ⟨_, rfl, hkept.update ?_ ?_ ?_ _, ⟨_, rfl, hcount⟩, fun other hother ↦
      ⟨update_of_ne hother .., update_of_ne hother .., update_of_ne hother ..⟩⟩
    · intro buffer hbuffer
      rw [← Option.some.inj hbuffer]
      exact hfits
    · intro buffer hbuffer
      rw [← Option.some.inj hbuffer]
      exact hfits
    · intro promptLen rows hrows
      cases hrows
      exact ⟨capacity, hcapacity, rfl, rfl⟩

omit [DecidableEq ρ] in
theorem Ready.of_same {next : OffloadWorker ρ κ} {recorded : ρ → Option (ℕ × List κ)}
    (hready : Ready config step worker prefill entry)
    (hgpu : next.nelssaGpuBuffers entry.1 = worker.nelssaGpuBuffers entry.1)
    (hcpu : next.sparseKvCpuBuffers entry.1 = worker.sparseKvCpuBuffers entry.1)
    (hrecorded : recorded entry.1 = prefill entry.1) : Ready config step next recorded entry := by
  have hearlier : earlierRows recorded entry = earlierRows prefill entry := by
    unfold earlierRows
    rw [hrecorded]
  unfold Ready BothHold
  rw [hearlier, hgpu, hcpu]
  exact hready

theorem callback_of_ready (entries : List (ρ × ChunkInfo)) (hkept : Kept config worker prefill)
    (hnodup : (entries.map Prod.fst).Nodup)
    (hready : ∀ entry ∈ entries, entry.2.isPrefillChunk = true → Ready config step worker prefill entry) :
    (sparseKvOffloadCallback config step entries worker).1 = .ok () ∧
      Kept config (sparseKvOffloadCallback config step entries worker).2
        (entries.foldl (recordChunk step) prefill) ∧
      (∀ reqId ∉ entries.map Prod.fst, entries.foldl (recordChunk step) prefill reqId = prefill reqId) ∧
      ∀ entry ∈ entries, entry.2.isPrefillChunk = true → ∃ rows,
        entries.foldl (recordChunk step) prefill entry.1 = some (entry.2.promptLen, rows) ∧
          rows.length = entry.2.chunkEnd := by
  induction entries generalizing worker prefill with
  | nil => exact ⟨rfl, hkept, fun _ _ ↦ rfl, fun _ hentry ↦ absurd hentry not_mem_nil⟩
  | cons entry rest ih =>
    rw [map_cons, nodup_cons] at hnodup
    rw [foldl_cons]
    unfold sparseKvOffloadCallback
    by_cases hprefill : entry.2.isPrefillChunk = true
    · obtain ⟨next, hnext, hkeptNext, ⟨rows, hrows, hlen⟩, hothers⟩ :=
        offloadChunk_of_ready hkept hprefill (hready entry mem_cons_self hprefill)
      have hne (other : ρ × ChunkInfo) (hother : other ∈ rest) : other.1 ≠ entry.1 := fun heq ↦
        hnodup.1 (heq ▸ mem_map_of_mem hother)
      obtain ⟨hok, hkeptEnd, hsame, hdone⟩ := ih hkeptNext hnodup.2 fun other hother hchunk ↦ by
        obtain ⟨hgpu, hcpu, hrecorded⟩ := hothers other.1 (hne other hother)
        exact (hready other (mem_cons_of_mem entry hother) hchunk).of_same hgpu hcpu hrecorded
      simp only [hnext]
      refine ⟨hok, hkeptEnd, fun reqId hreq ↦ ?_, fun other hother hchunk ↦ ?_⟩
      · rw [map_cons, mem_cons, not_or] at hreq
        rw [hsame reqId hreq.2]
        exact (hothers reqId hreq.1).2.2
      · rcases mem_cons.1 hother with heq | hmem
        · rw [heq, hsame entry.1 hnodup.1]
          exact ⟨rows, hrows, hlen⟩
        · exact hdone other hmem hchunk
    · have hskip : worker.offloadChunk config step entry = .ok worker := by
        exact if_neg hprefill
      have hrecord : recordChunk step prefill entry = prefill := by
        exact if_neg hprefill
      obtain ⟨hok, hkeptEnd, hsame, hdone⟩ := ih hkept hnodup.2 fun other hother ↦
        hready other (mem_cons_of_mem entry hother)
      simp only [hskip]
      rw [hrecord]
      refine ⟨hok, hkeptEnd, fun reqId hreq ↦ ?_, fun other hother hchunk ↦ ?_⟩
      · rw [map_cons, mem_cons, not_or] at hreq
        exact hsame reqId hreq.2
      · rcases mem_cons.1 hother with heq | hmem
        · rw [heq] at hchunk
          exact absurd hchunk hprefill
        · exact hdone other hmem hchunk

/-! ## Runs -/

variable {run : PrefillRun ρ κ}

section

variable (hproducer : (config.isPdDisaggregated && config.isConsumer) = false)
  (hkept : Kept config run.worker run.prefill)
include hproducer hkept

theorem Continues.ready (hcontinues : run.Continues step entry) :
    Ready config step (setupSparseKvOffloading config step run.worker) run.prefill entry := by
  obtain ⟨-, holds, hfresh⟩ := setup_spec step hproducer _ hkept
  refine ⟨hcontinues.inBatch, hcontinues.chunk_lt, hcontinues.chunk_le, ?_⟩
  have hlt := hcontinues.chunk_lt
  have hle := hcontinues.chunk_le
  rcases hcontinues.position with ⟨hstart, hstarts⟩ | ⟨hstart, rows, hrows, hlen⟩
  · have hearlier : earlierRows run.prefill entry = [] := if_pos hstart
    have hempty : ∃ capacity, entry.2.promptLen ≤ capacity ∧
        BothHold (setupSparseKvOffloading config step run.worker) entry.1 [] capacity := by
      rcases hstarts with ⟨hnone, hlong, hroom⟩ | ⟨capacity, hcapacity, hgpu, hcpu⟩
      · exact ⟨_, hroom, hfresh entry.1 hnone hlong (by omega)⟩
      · obtain ⟨hcpuAfter, hgpuAfter⟩ := holds entry.1 (by rw [hcpu]; rfl)
        exact ⟨capacity, hcapacity, hgpuAfter.trans hgpu, hcpuAfter.trans hcpu⟩
    rw [hearlier, hstart]
    unfold middle
    rw [take_nil, drop_nil]
    exact ⟨rfl, hempty⟩
  · have hearlier : earlierRows run.prefill entry = rows := by
      unfold earlierRows
      rw [if_neg (by omega), hrows]
      rfl
    obtain ⟨capacity, hcapacity, hgpu, hcpu⟩ := hkept.holds entry.1 _ rows hrows
    obtain ⟨hcpuAfter, hgpuAfter⟩ := holds entry.1 (by rw [hcpu]; rfl)
    rw [hearlier]
    exact ⟨hlen, capacity, hcapacity, hgpuAfter.trans hgpu, hcpuAfter.trans hcpu⟩

theorem forward_of_continues (hnodup : (step.chunkInfo.map Prod.fst).Nodup)
    (hsteps : ∀ entry ∈ step.chunkInfo, entry.2.isPrefillChunk = true → run.Continues step entry) :
    Kept config (run.apply config (.forward step)).worker (run.apply config (.forward step)).prefill ∧
      run.Offloads config step := by
  obtain ⟨hsetup, -⟩ := setup_spec step hproducer _ hkept
  obtain ⟨hok, hafter, -, hdone⟩ := callback_of_ready _ hsetup hnodup
    fun entry hentry hchunk ↦ (hsteps entry hentry hchunk).ready hproducer hkept
  refine ⟨hafter, hok, hafter.within, fun entry hentry hchunk hend ↦ ?_⟩
  obtain ⟨rows, hrows, hlen⟩ := hdone entry hentry hchunk
  obtain ⟨capacity, -, hboth⟩ := hafter.holds entry.1 _ rows hrows
  have hle := (hsteps entry hentry hchunk).chunk_le
  exact ⟨rows, capacity, hrows, by omega, hboth⟩

end

theorem Kept.clusterRequest (hkept : Kept config worker prefill) (reorganize : List κ → List κ) (reqId : ρ) :
    Kept config (OffloadWorker.clusterRequest config reorganize worker reqId)
      (Function.update prefill reqId none) := by
  unfold OffloadWorker.clusterRequest
  rw [hkept.key]
  apply hkept.update
  · simp
  · intro buffer hbuffer
    obtain ⟨old, hold, rfl⟩ := Option.map_eq_some_iff.1 hbuffer
    exact hkept.within reqId old (.inr hold)
  · simp

theorem Kept.cluster (reorganize : List κ → List κ) (requestIds : List ρ)
    (hkept : Kept config worker prefill) :
    Kept config (worker.clusterSparseKv config reorganize requestIds)
      fun reqId ↦ if reqId ∈ requestIds then none else prefill reqId := by
  induction requestIds generalizing worker prefill with
  | nil =>
    exact hkept
  | cons reqId rest ih =>
    have hrest := ih (hkept.clusterRequest reorganize reqId)
    have hsame : (fun other ↦ if other ∈ rest then none else Function.update prefill reqId none other) =
        fun other ↦ if other ∈ reqId :: rest then none else prefill other := by
      funext other
      by_cases hother : other = reqId
      · subst hother
        simp
      · simp [hother]
    rw [hsame] at hrest
    exact hrest

/-- Every undisturbed event keeps the buffers of the prefills that are under way. -/
theorem Kept.apply (hproducer : (config.isPdDisaggregated && config.isConsumer) = false)
    (hkept : Kept config run.worker run.prefill) {event : OffloadEvent ρ κ} (hevent : run.Undisturbed event) :
    Kept config (run.apply config event).worker (run.apply config event).prefill := by
  cases event with
  | setRequest reqId params =>
    refine ⟨fun other ↦ ?_, hkept.within, hkept.holds⟩
    by_cases hother : other = reqId
    · subst hother
      simp only [PrefillRun.apply, OffloadWorker.apply, update_self]
      exact hevent
    · simp only [PrefillRun.apply, OffloadWorker.apply, update_of_ne hother]
      exact hkept.ownId other
  | forward step => exact (forward_of_continues hproducer hkept hevent.1 hevent.2).1
  | cluster reorganize requestIds => exact hkept.cluster reorganize requestIds
  | cleanup reqId =>
    unfold PrefillRun.apply OffloadWorker.apply cleanupSparseKvCache
    dsimp only
    rw [hkept.key]
    exact hkept.update (by simp) (by simp) (by simp) _

/-- In every undisturbed run the callback finds its buffers, writes within them, and at the end of each
prefill both hold the middle of its prompt. -/
theorem offloadsAt_of_undisturbed (config : OffloadConfig)
    (hproducer : (config.isPdDisaggregated && config.isConsumer) = false) {events : List (OffloadEvent ρ κ)}
    (hevents : StepsMeet (apply config) Undisturbed init events) :
    StepsMeet (apply config) (OffloadsAt config) init events := by
  have hstart : Kept config (init : PrefillRun ρ κ).worker (init : PrefillRun ρ κ).prefill := .init
  have hstep (run : PrefillRun ρ κ) (event : OffloadEvent ρ κ) (hkept : Kept config run.worker run.prefill)
      (hevent : run.Undisturbed event) := hkept.apply hproducer hevent
  refine stepsMeet_of_stepsMeet hstep (fun run event hkept hevent ↦ ?_) hstart hevents
  cases event with
  | forward step => exact (forward_of_continues hproducer hkept hevent.1 hevent.2).2
  | setRequest reqId params => trivial
  | cluster reorganize requestIds => trivial
  | cleanup reqId => trivial

def smallConfig : OffloadConfig :=
  { isPdDisaggregated := true, isConsumer := false, firstN := 1, lastM := 1, maxModelLen := 8 }

/-- A chunk of the only request, whose prompt has four tokens; the row of a token is its position. -/
def chunkStep (start count : ℕ) : OffloadStep ℕ Unit where
  chunkInfo := [((), chunkInfo 4 4 start count)]
  reqIdToIdx := fun _ ↦ some 0
  batch :=
    { numReqs := 1, numTokens := count, queryStartLoc := fun row ↦ min row 1 * count
      positions := fun token ↦ start + token
      monotone := fun _ _ hle ↦ Nat.mul_le_mul_right count (min_le_min_right 1 hle)
      covered := by simp }
  keyStates := fun token ↦ start + token
  nelssaLongMask := [((), true)]
  maxTotalLen := fun _ ↦ 4

/-- A prefill that is restarted before it has reached the middle of the prompt and then runs in two chunks,
its clustering, and a second prefill after a cleanup. -/
theorem offloadsAt_cleanedUp : StepsMeet (apply smallConfig) (OffloadsAt smallConfig) init
    [.forward (chunkStep 0 1), .forward (chunkStep 0 2), .forward (chunkStep 2 2), .cluster List.reverse [()],
      .cleanup (), .forward (chunkStep 0 4)] := by
  apply offloadsAt_of_undisturbed smallConfig rfl
  refine ⟨⟨by decide, ?_⟩, ⟨by decide, ?_⟩, ⟨by decide, ?_⟩, trivial, trivial, ⟨by decide, ?_⟩, trivial⟩
  · intro entry hentry _
    rw [mem_singleton.1 hentry]
    exact ⟨rfl, by decide, by decide, .inl ⟨rfl, .inl ⟨rfl, by decide, by decide⟩⟩⟩
  · intro entry hentry _
    rw [mem_singleton.1 hentry]
    exact ⟨rfl, by decide, by decide, .inl ⟨rfl, .inr ⟨4, by decide, rfl, rfl⟩⟩⟩
  · intro entry hentry _
    rw [mem_singleton.1 hentry]
    exact ⟨rfl, by decide, by decide, .inr ⟨by decide, [0, 1], by decide, rfl⟩⟩
  · intro entry hentry _
    rw [mem_singleton.1 hentry]
    exact ⟨rfl, by decide, by decide, .inl ⟨rfl, .inl ⟨rfl, by decide, by decide⟩⟩⟩

/-- After the clustering a second prefill finds no device buffer. A prefill that is restarted copies the
rows of its first chunk twice. -/
theorem not_offloadsAt_restarted : (¬ StepsMeet (apply smallConfig) (OffloadsAt smallConfig) init
      [.forward (chunkStep 0 4), .cluster List.reverse [()], .forward (chunkStep 0 4)]) ∧
    ¬ StepsMeet (apply smallConfig) (OffloadsAt smallConfig) init
      [.forward (chunkStep 0 2), .forward (chunkStep 0 4)] := by
  constructor
  · rintro ⟨-, -, hlast, -⟩
    have hfails := hlast.succeeds
    cases hfails
  · rintro ⟨-, hlast, -⟩
    obtain ⟨_, _, hrows, -, -, hcpu⟩ := hlast.complete _ mem_cons_self rfl (by decide)
    have hknown := hrows
    cases hknown
    have hbuffer := hcpu
    cases hbuffer

end PrefillRun

end Nelssa.Worker.Offload
