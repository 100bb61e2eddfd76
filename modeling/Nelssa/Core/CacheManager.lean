import Nelssa.Core.BlockPool
import Nelssa.Foundation.BlockArithmetic

/-!
# The base class of the cache managers

`SingleTypeKVCacheManager` keeps the blocks of every request for one KV-cache group. Its methods are
functions on the manager's fields and the shared pool, parameterized by the one method that the types of
attention implement differently, the number of tokens that attention skips. As for the pool, a method
returns its result or exception together with the manager and the pool at that point.
-/

namespace Nelssa.Core

open Foundation.BlockArithmetic Function

inductive MambaCacheMode where
  | all
  | align
  | none
  deriving DecidableEq

/-- The types of KV-cache groups with the data that their managers read. -/
inductive SpecKind where
  | fullAttention
  | tqFullAttention
  | mlaAttention
  | slidingWindow (slidingWindow : ℕ)
  | slidingWindowMLA (slidingWindow : ℕ)
  | chunkedLocal (attentionChunkSize : ℕ+)
  | mamba (mambaCacheMode : MambaCacheMode) (numSpeculativeBlocks : ℕ)
  | crossAttention
  | sinkFullAttention (sinkLen : Option ℕ)
  deriving DecidableEq

namespace SpecKind

/-- The test `isinstance(kv_cache_spec, FullAttentionSpec)`. -/
def isFullAttention : SpecKind → Bool
  | fullAttention | tqFullAttention | mlaAttention | sinkFullAttention _ => true
  | _ => false

/-- The test `isinstance(kv_cache_spec, ChunkedLocalAttentionSpec)`. -/
def isChunkedLocal : SpecKind → Bool
  | chunkedLocal _ => true
  | _ => false

/-- The test `type(kv_cache_spec) in (FullAttentionSpec, TQFullAttentionSpec)`. -/
def tracksNewBlocks : SpecKind → Bool
  | fullAttention | tqFullAttention => true
  | _ => false

end SpecKind

structure KVCacheSpec where
  kind : SpecKind
  blockSize : ℕ
  blockSize_pos : 0 < blockSize

/-- The fields of a manager that all types share. -/
structure ManagerBase (ρ : Type*) where
  kvCacheSpec : KVCacheSpec
  enableCaching : Bool
  kvCacheGroupId : ℕ
  dcpWorldSize : ℕ
  pcpWorldSize : ℕ
  maxAdmissionBlocksPerRequest : Option ℕ
  newBlockIds : List ℕ
  reqToBlocks : ρ → Option (List ℕ)
  numCachedBlock : ρ → Option ℕ

/-- A request as the managers see it: its id and block hashes. -/
structure CacheRequest (ρ : Type*) where
  requestId : ρ
  blockHashes : List BlockHash

namespace ManagerBase

variable {ρ : Type*} [DecidableEq ρ]

def init (kvCacheSpec : KVCacheSpec) (enableCaching : Bool) (kvCacheGroupId dcpWorldSize pcpWorldSize : ℕ)
    (maxAdmissionBlocksPerRequest : Option ℕ) : ManagerBase ρ :=
  { kvCacheSpec, enableCaching, kvCacheGroupId, dcpWorldSize, pcpWorldSize, maxAdmissionBlocksPerRequest
    newBlockIds := [], reqToBlocks := fun _ ↦ none, numCachedBlock := fun _ ↦ none }

section

variable (base : ManagerBase ρ)

/-- The block size under context parallelism. -/
def blockSize : ℕ :=
  if 1 < base.dcpWorldSize * base.pcpWorldSize then
    base.kvCacheSpec.blockSize * (base.dcpWorldSize * base.pcpWorldSize)
  else base.kvCacheSpec.blockSize

omit [DecidableEq ρ] in
theorem blockSize_pos : 0 < base.blockSize := by
  unfold blockSize
  split
  · exact mul_pos base.kvCacheSpec.blockSize_pos (by omega)
  · exact base.kvCacheSpec.blockSize_pos

def blocksOf (requestId : ρ) : List ℕ := (base.reqToBlocks requestId).getD []

/-- Store the blocks of a request. Reading the `defaultdict` at an unknown id stores an empty list. -/
def setBlocks (requestId : ρ) (blocks : List ℕ) : ManagerBase ρ :=
  { base with reqToBlocks := update base.reqToBlocks requestId (some blocks) }

@[simp]
theorem blocksOf_setBlocks (requestId : ρ) (blocks : List ℕ) :
    (base.setBlocks requestId blocks).blocksOf requestId = blocks := by
  simp [blocksOf, setBlocks]

def recordNewBlocks (blocks : List ℕ) : ManagerBase ρ :=
  if base.kvCacheSpec.kind.tracksNewBlocks then { base with newBlockIds := base.newBlockIds ++ blocks }
  else base

end

/-- The computed blocks that lie in the free queue. -/
def getNumEvictableBlocks (pool : BlockPool) (blocks : List ℕ) : ℕ :=
  blocks.countP fun block ↦ pool.refCnt block = 0 ∧ pool.isNull block = false

variable (base : ManagerBase ρ) (pool : BlockPool)

def getNumBlocksToAllocate (numSkippedTokens : ℕ → ℕ) (requestId : ρ) (numTokens : ℕ)
    (newComputedBlocks : List ℕ) (totalComputedTokens : ℕ) : Except Exn ℤ :=
  let neededBlocks := cdiv numTokens base.blockSize
  let numRequiredBlocks := match base.maxAdmissionBlocksPerRequest with
    | none => neededBlocks
    | some maxBlocks => min neededBlocks maxBlocks
  let numReqBlocks := (base.blocksOf requestId).length
  match base.numCachedBlock requestId with
  | some _ =>
    if newComputedBlocks ≠ [] then .error (.assertionError "")
    else .ok ((numRequiredBlocks - numReqBlocks : ℕ) : ℤ)
  | none =>
    let numLocalComputedBlocks := newComputedBlocks.length + numReqBlocks
    let numSkippedBlocks := numSkippedTokens totalComputedTokens / base.blockSize
    let numNewBlocks := numRequiredBlocks - max numSkippedBlocks numLocalComputedBlocks
    let numSkippedNewComputedBlocks := numSkippedBlocks - numReqBlocks
    let numEvictableBlocks :=
      getNumEvictableBlocks pool (newComputedBlocks.drop numSkippedNewComputedBlocks)
    .ok ((numNewBlocks + numEvictableBlocks : ℕ) : ℤ)

/-- Allocate blocks behind the ones that a request has. -/
def extendBlocks (requestId : ρ) (numBlocks : ℤ) : Except Exn (List ℕ) × ManagerBase ρ × BlockPool :=
  let allocated := pool.getNewBlocks numBlocks
  match allocated.1 with
  | .error exn => (.error exn, base, allocated.2)
  | .ok blocks => (.ok blocks,
      (base.setBlocks requestId (base.blocksOf requestId ++ blocks)).recordNewBlocks blocks, allocated.2)

/-- Give a new request its computed blocks and blocks for the tokens computed elsewhere. The number of
the latter is negative if the computed blocks hold more than the computed tokens. -/
def allocateNewComputedBlocks (numSkippedTokens : ℕ → ℕ) (requestId : ρ) (newComputedBlocks : List ℕ)
    (numLocalComputedTokens numExternalComputedTokens : ℕ) : Except Exn Unit × ManagerBase ρ × BlockPool :=
  match base.numCachedBlock requestId with
  | some _ =>
    if newComputedBlocks ≠ [] then (.error (.assertionError ""), base, pool) else (.ok (), base, pool)
  | none =>
    let opened := base.setBlocks requestId (base.blocksOf requestId)
    if base.blocksOf requestId ≠ [] then (.error (.assertionError ""), opened, pool)
    else
      let numTotalComputedTokens := numLocalComputedTokens + numExternalComputedTokens
      let skippedTokens := numSkippedTokens numTotalComputedTokens
      let numSkippedBlocks := skippedTokens / base.blockSize
      let computedBlocks := newComputedBlocks.drop numSkippedBlocks
      let externalTokens :=
        if 0 < numSkippedBlocks then min (numTotalComputedTokens - skippedTokens) numExternalComputedTokens
        else numExternalComputedTokens
      let touched :=
        if base.enableCaching then pool.touch computedBlocks
        else if computedBlocks ≠ [] then (.error (.assertionError
          "Computed blocks should be empty when prefix caching is disabled"), pool)
        else (.ok (), pool)
      match touched.1 with
      | .error exn => (.error exn, opened, touched.2)
      | .ok () =>
        let reqBlocks := List.replicate numSkippedBlocks pool.nullBlock ++ computedBlocks
        let filled := opened.setBlocks requestId reqBlocks
        let marked := { filled with
          numCachedBlock := update filled.numCachedBlock requestId (some reqBlocks.length) }
        if 0 < externalTokens then
          let extended := marked.extendBlocks touched.2 requestId
            (cdiv numTotalComputedTokens base.blockSize - reqBlocks.length)
          (extended.1.map fun _ ↦ (), extended.2)
        else (.ok (), marked, touched.2)

def allocateNewBlocks (requestId : ρ) (numTokens : ℕ) : Except Exn (List ℕ) × ManagerBase ρ × BlockPool :=
  let opened := base.setBlocks requestId (base.blocksOf requestId)
  let numRequiredBlocks := cdiv numTokens base.blockSize
  let numReqBlocks := (base.blocksOf requestId).length
  if numRequiredBlocks ≤ numReqBlocks then (.ok [], opened, pool)
  else opened.extendBlocks pool requestId (numRequiredBlocks - numReqBlocks : ℕ)

def cacheBlocks (req : CacheRequest ρ) (numTokens : ℕ) : Except Exn Unit × ManagerBase ρ × BlockPool :=
  let numCachedBlocks := (base.numCachedBlock req.requestId).getD 0
  let numFullBlocks := numTokens / base.blockSize
  if numFullBlocks ≤ numCachedBlocks then (.ok (), base, pool)
  else
    let blocks := base.blocksOf req.requestId
    let opened := base.setBlocks req.requestId blocks
    let cached := pool.cacheFullBlocks req.blockHashes blocks numCachedBlocks numFullBlocks
      base.blockSize base.kvCacheGroupId
    match cached.1 with
    | .error exn => (.error exn, opened, cached.2)
    | .ok () => (.ok (), { opened with
        numCachedBlock := update opened.numCachedBlock req.requestId (some numFullBlocks) },
        cached.2)

/-- Free the blocks of a request, the last one first. -/
def free (requestId : ρ) : Except Exn Unit × ManagerBase ρ × BlockPool :=
  let freed := pool.freeBlocks (base.blocksOf requestId).reverse
  let dropped := { base with reqToBlocks := update base.reqToBlocks requestId none }
  match freed.1 with
  | .error exn => (.error exn, dropped, freed.2)
  | .ok () => (.ok (), { dropped with
      numCachedBlock := update dropped.numCachedBlock requestId none }, freed.2)

/-- Replace the blocks that attention skips by the null block, from the last one down to the first that
has been replaced before. -/
def removeSkippedBlocks (numSkippedTokens : ℕ → ℕ) (requestId : ρ) (totalComputedTokens : ℕ) :
    Except Exn Unit × ManagerBase ρ × BlockPool :=
  let skippedTokens := numSkippedTokens totalComputedTokens
  if skippedTokens = 0 then (.ok (), base, pool)
  else
    let blocks := base.blocksOf requestId
    let numSkippedBlocks := min (skippedTokens / base.blockSize) blocks.length
    let removedBlocks := (blocks.take numSkippedBlocks).reverse.takeWhile (· ≠ pool.nullBlock)
    let keptBlocks := blocks.take (numSkippedBlocks - removedBlocks.length) ++
      List.replicate removedBlocks.length pool.nullBlock ++ blocks.drop numSkippedBlocks
    let freed := pool.freeBlocks removedBlocks
    (freed.1, base.setBlocks requestId keptBlocks, freed.2)

end ManagerBase

end Nelssa.Core
