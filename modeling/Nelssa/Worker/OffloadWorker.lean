import Nelssa.Worker.Offload
import Nelssa.Worker.StagingSlots

/-!
# The life of the offload buffers

A prefill worker creates a device buffer and a CPU buffer for a long request when it first schedules it,
appends the middle rows of every chunk to both, deletes the device buffer after the clustering and keeps
the CPU buffer, reorganised, for the remote attention. A request that has a CPU buffer gets no new ones.
A prefill that finds no CPU buffer and runs to its end without a restart fills both buffers with the
middle of its prompt.
-/

namespace Nelssa.Worker.Offload

open Foundation.Runs Function

variable {ρ κ : Type*}

/-! ## Buffers -/

inductive OffloadError where
  | keyError
  | sizeMismatch

/-- The rows of a buffer in front of its offset, and the number of rows that were allocated. -/
structure LayerBuffer (κ : Type*) where
  rows : List κ
  offset : ℕ
  capacity : ℕ

/-- Copy rows behind the offset. A slice that ends at the capacity is too short for them; only a single
row is still accepted, and broadcast to the empty slice. -/
def LayerBuffer.write (buffer : LayerBuffer κ) (rows : List κ) : Except OffloadError (LayerBuffer κ) :=
  if buffer.offset + rows.length ≤ buffer.capacity then
    .ok { buffer with rows := buffer.rows ++ rows, offset := buffer.offset + rows.length }
  else if rows.length = 1 then .ok { buffer with offset := buffer.offset + 1 }
  else .error .sizeMismatch

def emptyBuffer (capacity : ℕ) : LayerBuffer κ := ⟨[], 0, capacity⟩

/-! ## The worker -/

structure OffloadConfig where
  isPdDisaggregated : Bool
  isConsumer : Bool
  firstN : ℕ
  lastM : ℕ
  maxModelLen : ℕ

/-- The buffers of one layer; all layers are handled in the same way. -/
structure OffloadWorker (ρ κ : Type*) where
  requests : ρ → Option (CachedParams ρ)
  requestIdToBufferKey : List (ρ × ρ)
  nelssaGpuBuffers : ρ → Option (LayerBuffer κ)
  sparseKvCpuBuffers : ρ → Option (LayerBuffer κ)

/-- What the worker sees of a step of the scheduler. A length of zero stands for an absent
`max_total_len`. -/
structure OffloadStep (κ ρ : Type*) extends ForwardStep κ ρ where
  nelssaLongMask : List (ρ × Bool)
  maxTotalLen : ρ → ℕ

/-- The rows of a chunk in the batch. -/
def chunkRows (step : ForwardStep κ ρ) (info : ChunkInfo) (reqIdx : ℕ) : List κ :=
  (List.Ico (step.batch.queryStartLoc reqIdx)
    (step.batch.queryStartLoc reqIdx + (info.chunkEnd - info.chunkStart))).map step.keyStates

namespace OffloadWorker

def init : OffloadWorker ρ κ where
  requests := fun _ ↦ none
  requestIdToBufferKey := []
  nelssaGpuBuffers := fun _ ↦ none
  sparseKvCpuBuffers := fun _ ↦ none

variable [DecidableEq ρ] (config : OffloadConfig)

/-- Assignment to an entry of a dictionary, which keeps the place of a key that it has. -/
def dictSet (entries : List (ρ × ρ)) (key value : ρ) : List (ρ × ρ) :=
  if key ∈ entries.map Prod.fst then entries.map fun entry ↦ if entry.1 = key then (key, value) else entry
  else entries ++ [(key, value)]

section

variable (step : OffloadStep κ ρ) (worker : OffloadWorker ρ κ)

/-- One round of the loop of `_setup_sparse_kv_offloading`. It looks for the request id among the buffers,
which are stored under the buffer key. -/
def setupRequest (entry : ρ × Bool) : OffloadWorker ρ κ :=
  if !entry.2 || (worker.sparseKvCpuBuffers entry.1).isSome then worker
  else if config.isPdDisaggregated && config.isConsumer then worker
  else
    let key := bufferKey config.isPdDisaggregated worker.requests entry.1
    let maxTotalLen :=
      if step.maxTotalLen entry.1 = 0 then config.maxModelLen else step.maxTotalLen entry.1
    { worker with
      requestIdToBufferKey := dictSet worker.requestIdToBufferKey entry.1 key
      nelssaGpuBuffers := update worker.nelssaGpuBuffers key (some (emptyBuffer maxTotalLen))
      sparseKvCpuBuffers := update worker.sparseKvCpuBuffers key (some (emptyBuffer maxTotalLen)) }

def setupSparseKvOffloading : OffloadWorker ρ κ :=
  step.nelssaLongMask.foldl (setupRequest config step) worker

/-- One round of the loop of `_sparse_kv_offload_callback`. The offsets move on after both copies. The
copies take place in program order: the offload stream and the temporary buffer that the requests share
are left out. -/
def offloadChunk (entry : ρ × ChunkInfo) : Except OffloadError (OffloadWorker ρ κ) :=
  if entry.2.isPrefillChunk then
    match step.reqIdToIdx entry.1 with
    | none => .ok worker
    | some reqIdx =>
      let key := bufferKey config.isPdDisaggregated worker.requests entry.1
      match worker.nelssaGpuBuffers key, worker.sparseKvCpuBuffers key with
      | some gpu, some cpu =>
        let rows := middleRows config.firstN config.lastM step.toForwardStep entry.2 reqIdx
        if rows.isEmpty then .ok worker
        else match gpu.write rows, cpu.write rows with
          | .ok gpu, .ok cpu => .ok { worker with
              nelssaGpuBuffers := update worker.nelssaGpuBuffers key (some gpu)
              sparseKvCpuBuffers := update worker.sparseKvCpuBuffers key (some cpu) }
          | .error exn, _ | _, .error exn => .error exn
      | _, _ => .error .keyError
  else .ok worker

end

/-- The callback; an exception ends the step. -/
def sparseKvOffloadCallback (step : OffloadStep κ ρ) :
    List (ρ × ChunkInfo) → OffloadWorker ρ κ → Except OffloadError Unit × OffloadWorker ρ κ
  | [], worker => (.ok (), worker)
  | entry :: rest, worker =>
    match worker.offloadChunk config step entry with
    | .error exn => (.error exn, worker)
    | .ok next => sparseKvOffloadCallback step rest next

/-- A step: the buffers are set up before the forward pass. -/
def forward (step : OffloadStep κ ρ) (worker : OffloadWorker ρ κ) :
    Except OffloadError Unit × OffloadWorker ρ κ :=
  sparseKvOffloadCallback config step step.chunkInfo (setupSparseKvOffloading config step worker)

/-- `_cluster_sparse_kv` for one request: the CPU rows are reorganised by clusters, and the device buffer
is deleted. -/
def clusterRequest (reorganize : List κ → List κ) (worker : OffloadWorker ρ κ) (reqId : ρ) :
    OffloadWorker ρ κ :=
  let key := bufferKey config.isPdDisaggregated worker.requests reqId
  { worker with
    sparseKvCpuBuffers := update worker.sparseKvCpuBuffers key
      ((worker.sparseKvCpuBuffers key).map fun buffer ↦ { buffer with rows := reorganize buffer.rows })
    nelssaGpuBuffers := update worker.nelssaGpuBuffers key none }

def clusterSparseKv (reorganize : List κ → List κ) (requestIds : List ρ) (worker : OffloadWorker ρ κ) :
    OffloadWorker ρ κ :=
  requestIds.foldl (clusterRequest config reorganize) worker

/-- `_cleanup_sparse_kv_cache`, as far as it concerns the buffers. The map of the ids is not touched. -/
def cleanupSparseKvCache (reqId : ρ) (worker : OffloadWorker ρ κ) : OffloadWorker ρ κ :=
  let key := bufferKey config.isPdDisaggregated worker.requests reqId
  { worker with
    sparseKvCpuBuffers := update worker.sparseKvCpuBuffers key none
    nelssaGpuBuffers := update worker.nelssaGpuBuffers key none }

end OffloadWorker

/-- What happens to the buffers of a prefill worker. -/
inductive OffloadEvent (ρ κ : Type*) where
  | setRequest (reqId : ρ) (params : Option (CachedParams ρ))
  | forward (step : OffloadStep κ ρ)
  | cluster (reorganize : List κ → List κ) (requestIds : List ρ)
  | cleanup (reqId : ρ)

namespace OffloadWorker

variable [DecidableEq ρ] (config : OffloadConfig)

def apply (worker : OffloadWorker ρ κ) : OffloadEvent ρ κ → OffloadWorker ρ κ
  | .setRequest reqId params => { worker with requests := update worker.requests reqId params }
  | .forward step => (worker.forward config step).2
  | .cluster reorganize requestIds => worker.clusterSparseKv config reorganize requestIds
  | .cleanup reqId => worker.cleanupSparseKvCache config reqId

/-- The requests of a prefill worker keep their ids. -/
def KeepsIds : OffloadEvent ρ κ → Prop
  | .setRequest _ params => CachedParams.OwnId params
  | _ => True

end OffloadWorker

end Nelssa.Worker.Offload
