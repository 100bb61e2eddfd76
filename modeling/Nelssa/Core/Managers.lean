import Nelssa.Core.CacheHits

/-!
# The cache managers of the attention types

The subclasses of the base manager: sliding-window and chunked-local attention skip old tokens, Mamba
keeps one running state and blocks for speculative tokens, cross attention is not cached, attention with
sinks takes blocks out of the pool for good, and NELSSA keeps the head and the tail of long requests.
`getManagerForKvCacheSpec` builds the manager of a group.
-/

namespace Nelssa.Core

open Foundation.BlockArithmetic Function

variable {ρ : Type*} [DecidableEq ρ]

/-! ## Mamba -/

structure MambaState (ρ : Type*) where
  mambaCacheMode : MambaCacheMode
  numSpeculativeBlocks : ℕ
  cachedBlocksThisStep : List BlockHashWithGroupId
  lastStateBlockIdx : ρ → Option ℕ
  allocatedBlockReqs : ρ → Bool

namespace MambaState

def init (mambaCacheMode : MambaCacheMode) (numSpeculativeBlocks : ℕ) : MambaState ρ :=
  { mambaCacheMode, numSpeculativeBlocks, cachedBlocksThisStep := []
    lastStateBlockIdx := fun _ ↦ none, allocatedBlockReqs := fun _ ↦ false }

/-- Only the state of the last computed token is needed. -/
def getNumSkippedTokens (numComputedTokens : ℕ) : ℕ := numComputedTokens - 1

section

variable (state : MambaState ρ) (base : ManagerBase ρ) (pool : BlockPool) (reqId : ρ)

def removeSkippedBlocks (totalComputedTokens : ℕ) : Except Exn Unit × ManagerBase ρ × BlockPool :=
  let numComputedTokens := totalComputedTokens - state.numSpeculativeBlocks
  let removed := base.removeSkippedBlocks pool getNumSkippedTokens reqId numComputedTokens
  match removed.1, state.mambaCacheMode, state.lastStateBlockIdx reqId with
  | .ok (), .align, some blockIdx =>
    if blockIdx + 1 < cdiv numComputedTokens base.blockSize then
      let blocks := removed.2.1.blocksOf reqId
      match blocks[blockIdx]? with
      | none => (.error .indexError, removed.2)
      | some block =>
        if block = pool.nullBlock then removed
        else
          let freed := removed.2.2.freeBlocks [block]
          (freed.1, match freed.1 with
            | .error _ => removed.2.1
            | .ok () => removed.2.1.setBlocks reqId (blocks.set blockIdx pool.nullBlock), freed.2)
    else removed
  | _, _, _ => removed

/-- In align mode the result is negative when the request has more blocks than it needs. -/
def getNumBlocksToAllocate (numTokens : ℕ) (newComputedBlocks : List ℕ) (totalComputedTokens
    numTokensMainModel : ℕ) : Except Exn ℤ :=
  let cachedThisStep := match newComputedBlocks.getLast? with
    | none => false
    | some block => match pool.blockHash block with
      | none => false
      | some key => decide (key ∈ state.cachedBlocksThisStep)
  if cachedThisStep then .ok (pool.numGpuBlocks + 1)
  else if state.mambaCacheMode ≠ .align then
    base.getNumBlocksToAllocate pool getNumSkippedTokens reqId
      (numTokens + base.kvCacheSpec.blockSize * state.numSpeculativeBlocks) newComputedBlocks
      totalComputedTokens
  else
    let numRequiredBlocks := cdiv numTokensMainModel base.blockSize + state.numSpeculativeBlocks
    let missingBlocks : ℤ :=
      numRequiredBlocks - newComputedBlocks.length - (base.blocksOf reqId).length
    let numNewBlocks : ℤ :=
      if 0 < missingBlocks then
        if state.allocatedBlockReqs reqId then 1 else 1 + state.numSpeculativeBlocks
      else missingBlocks
    .ok (numNewBlocks + ManagerBase.getNumEvictableBlocks pool newComputedBlocks)

end

/-- Move speculative blocks of the previous step that fall behind the new state to the end. -/
def reuseSpeculativeBlocks (nullBlock numSkippedBlocks : ℕ) : List ℕ → List ℕ → List ℕ
  | [], reqBlocks => reqBlocks
  | blockIdx :: rest, reqBlocks =>
    if blockIdx < numSkippedBlocks then
      reuseSpeculativeBlocks nullBlock numSkippedBlocks rest
        (reqBlocks.set blockIdx nullBlock ++ [reqBlocks.getD blockIdx nullBlock])
    else reqBlocks

section

variable (state : MambaState ρ) (base : ManagerBase ρ) (pool : BlockPool) (reqId : ρ)

/-- The allocation in align mode. -/
def allocateAligned (numTokensMainModel : ℕ) :
    Except Exn (List ℕ) × (MambaState ρ × ManagerBase ρ) × BlockPool :=
  let reqBlocks := base.blocksOf reqId
  let prevBlockLen := reqBlocks.length
  let numRequiredBlocks := cdiv numTokensMainModel base.blockSize + state.numSpeculativeBlocks
  if numRequiredBlocks = prevBlockLen then (.ok [], (state, base.setBlocks reqId reqBlocks), pool)
  else if numRequiredBlocks < prevBlockLen then
    (.error (.assertionError
      s!"num_required_blocks {numRequiredBlocks} < len(req_blocks) {prevBlockLen}"),
      (state, base.setBlocks reqId reqBlocks), pool)
  else
    let blocksAllocated := state.allocatedBlockReqs reqId
    let recorded := { state with
      lastStateBlockIdx :=
        if blocksAllocated then update state.lastStateBlockIdx reqId
          (some (prevBlockLen - 1 - state.numSpeculativeBlocks))
        else if 0 < prevBlockLen then
          update state.lastStateBlockIdx reqId (some (prevBlockLen - 1))
        else state.lastStateBlockIdx }
    let numSkippedBlocks := numRequiredBlocks - state.numSpeculativeBlocks - 1
    let padded := reqBlocks ++ List.replicate (numSkippedBlocks - prevBlockLen) pool.nullBlock
    let moved :=
      if blocksAllocated then
        reuseSpeculativeBlocks pool.nullBlock numSkippedBlocks
          (List.range' (prevBlockLen - state.numSpeculativeBlocks)
            (min prevBlockLen state.numSpeculativeBlocks)) padded
      else padded
    let stored := base.setBlocks reqId moved
    let numNewBlocks := numRequiredBlocks - moved.length
    if (if blocksAllocated then 1 else state.numSpeculativeBlocks + 1) < numNewBlocks then
      (.error (.assertionError ""), (recorded, stored), pool)
    else
      let allocated := pool.getNewBlocks numNewBlocks
      match allocated.1 with
      | .error exn => (.error exn, (recorded, stored), allocated.2)
      | .ok newBlocks =>
        (.ok ((moved ++ newBlocks).drop prevBlockLen),
          ({ recorded with
              allocatedBlockReqs := update recorded.allocatedBlockReqs reqId true },
            stored.setBlocks reqId (moved ++ newBlocks)), allocated.2)

def allocateNewBlocks (numTokens numTokensMainModel : ℕ) :
    Except Exn (List ℕ) × (MambaState ρ × ManagerBase ρ) × BlockPool :=
  if state.mambaCacheMode ≠ .align then
    let allocated := base.allocateNewBlocks pool reqId
      (numTokens + base.blockSize * state.numSpeculativeBlocks)
    (allocated.1, (state, allocated.2.1), allocated.2.2)
  else state.allocateAligned base pool reqId numTokensMainModel

end

def free (state : MambaState ρ) (reqId : ρ) : MambaState ρ :=
  if state.mambaCacheMode = .align then
    { state with
      allocatedBlockReqs := update state.allocatedBlockReqs reqId false
      lastStateBlockIdx := update state.lastStateBlockIdx reqId none }
  else state

/-- Remember the hashes of newly cached blocks; a block without a hash fails the assertion. -/
def rememberCached (state : MambaState ρ) (pool : BlockPool) :
    List ℕ → Except Exn Unit × MambaState ρ
  | [] => (.ok (), state)
  | block :: rest =>
    if pool.isNull block then state.rememberCached pool rest
    else match pool.blockHash block with
      | none => (.error (.assertionError ""), state)
      | some key => { state with
          cachedBlocksThisStep := key :: state.cachedBlocksThisStep }.rememberCached pool rest

def cacheBlocks (state : MambaState ρ) (base : ManagerBase ρ) (pool : BlockPool)
    (req : CacheRequest ρ) (numTokens : ℕ) : Except Exn Unit × (MambaState ρ × ManagerBase ρ) × BlockPool :=
  let before := (base.numCachedBlock req.requestId).getD 0
  let cached := base.cacheBlocks pool req numTokens
  match cached.1 with
  | .error exn => (.error exn, (state, cached.2.1), cached.2.2)
  | .ok () =>
    let after := (cached.2.1.numCachedBlock req.requestId).getD 0
    let remembered := state.rememberCached cached.2.2
      (((cached.2.1.blocksOf req.requestId).take after).drop before)
    (remembered.1, (remembered.2, cached.2.1), cached.2.2)

def newStepStarts (state : MambaState ρ) : MambaState ρ := { state with cachedBlocksThisStep := [] }

end MambaState

/-! ## NELSSA -/

/-- The options of `NELSSAConfig` that the scheduler side reads, with their defaults. -/
structure NELSSAConfig where
  enabled : Bool := false
  firstN : ℕ := 16
  lastM : ℕ := 64
  promptLengthThreshold : ℕ := 2000
  maxNumLongRequests : ℕ := 8

def NELSSAConfig.nelssaCheck (config : NELSSAConfig) (promptLength : ℕ) : Bool :=
  config.enabled && decide (config.promptLengthThreshold ≤ promptLength)

structure NelssaState (ρ : Type*) where
  headSize : ℕ
  tailSize : ℕ
  longRequests : ρ → Bool
  nelssaTailBlocks : ρ → Option ℕ
  nelssaTailStartPos : ρ → Option ℕ

namespace NelssaState

def init (config : NELSSAConfig) : NelssaState ρ :=
  { headSize := config.firstN, tailSize := config.lastM, longRequests := fun _ ↦ false
    nelssaTailBlocks := fun _ ↦ none, nelssaTailStartPos := fun _ ↦ none }

variable (state : NelssaState ρ)

/-- The number of tail blocks and the position of the first of them. -/
def computeTailLayout (blockSize promptLen : ℕ) : ℕ × ℕ :=
  let tailStartPos := (promptLen - state.tailSize) / blockSize * blockSize
  let tailTokens := promptLen - tailStartPos
  ((tailTokens + blockSize - 1) / blockSize, tailStartPos)

def markLongRequest (blockSize : ℕ) (reqId : ρ) (promptLen : ℕ) : NelssaState ρ :=
  let layout := state.computeTailLayout blockSize promptLen
  { state with
    longRequests := update state.longRequests reqId true
    nelssaTailBlocks := update state.nelssaTailBlocks reqId (some layout.1)
    nelssaTailStartPos := update state.nelssaTailStartPos reqId (some layout.2) }

/-- Long requests are asked for head, tail and the new tokens only. -/
def getNumBlocksToAllocate (base : ManagerBase ρ) (pool : BlockPool) (reqId : ρ) (numTokens : ℕ)
    (newComputedBlocks : List ℕ) (totalComputedTokens : ℕ) : Except Exn ℤ :=
  if state.longRequests reqId then
    let headBlocks := cdiv state.headSize base.blockSize
    let tailBlocks :=
      (state.nelssaTailBlocks reqId).getD (cdiv state.tailSize base.blockSize)
    let numRequired := headBlocks + tailBlocks + cdiv (numTokens - totalComputedTokens) base.blockSize
    .ok ((numRequired - (base.blocksOf reqId).length : ℕ) : ℤ)
  else
    base.getNumBlocksToAllocate pool (fun _ ↦ 0) reqId numTokens newComputedBlocks
      totalComputedTokens

/-- The positions of the middle blocks that are still held. -/
def middleBlocks (base : ManagerBase ρ) (pool : BlockPool) (reqId : ρ) (blocks : List ℕ) : List ℕ :=
  let blockSize := base.blockSize
  let headBlocks := (state.headSize + blockSize - 1) / blockSize
  let tailBlocks :=
    (state.nelssaTailBlocks reqId).getD ((state.tailSize + blockSize - 1) / blockSize)
  let middleEndIdx := if 0 < tailBlocks then blocks.length - tailBlocks else blocks.length
  (List.range' headBlocks (middleEndIdx - headBlocks)).filter fun index ↦
    blocks.getD index 0 ≠ pool.nullBlock ∧ 0 < pool.refCnt (blocks.getD index 0)

/-- Free the middle blocks of a long request and put the null block in their place. -/
def freeMiddleBlocks (base : ManagerBase ρ) (pool : BlockPool) (reqId : ρ) :
    Except Exn Unit × ManagerBase ρ × BlockPool :=
  match state.longRequests reqId, base.reqToBlocks reqId with
  | true, some blocks =>
    let indices := state.middleBlocks base pool reqId blocks
    if indices = [] then (.ok (), base, pool)
    else
      let freed := pool.freeBlocks (indices.map fun index ↦ blocks.getD index 0)
      match freed.1 with
      | .error exn => (.error exn, base, freed.2)
      | .ok () => (.ok (), base.setBlocks reqId
          (indices.foldl (fun kept index ↦ kept.set index pool.nullBlock) blocks), freed.2)
  | _, _ => (.ok (), base, pool)

end NelssaState

/-! ## All managers -/

inductive Manager (ρ : Type*) where
  | fullAttention (base : ManagerBase ρ)
  | slidingWindow (base : ManagerBase ρ) (slidingWindow : ℕ)
  | chunkedLocal (base : ManagerBase ρ) (attentionChunkSize : ℕ+)
  | mamba (base : ManagerBase ρ) (state : MambaState ρ)
  | crossAttention (base : ManagerBase ρ)
  | sinkFullAttention (base : ManagerBase ρ) (sinkBlocks : List ℕ)
  | nelssa (base : ManagerBase ρ) (state : NelssaState ρ)

namespace Manager

def base : Manager ρ → ManagerBase ρ
  | fullAttention base | slidingWindow base _ | chunkedLocal base _ | mamba base _ | crossAttention base
  | sinkFullAttention base _ | nelssa base _ => base

def withBase : Manager ρ → ManagerBase ρ → Manager ρ
  | fullAttention _, base => fullAttention base
  | slidingWindow _ window, base => slidingWindow base window
  | chunkedLocal _ chunkSize, base => chunkedLocal base chunkSize
  | mamba _ state, base => mamba base state
  | crossAttention _, base => crossAttention base
  | sinkFullAttention _ sinkBlocks, base => sinkFullAttention base sinkBlocks
  | nelssa _ state, base => nelssa base state

/-- The tokens that attention does not need any more. -/
def getNumSkippedTokens : Manager ρ → ℕ → ℕ
  | slidingWindow _ window, numComputedTokens => numComputedTokens + 1 - window
  | chunkedLocal _ chunkSize, numComputedTokens => numComputedTokens / chunkSize * chunkSize
  | mamba _ _, numComputedTokens => MambaState.getNumSkippedTokens numComputedTokens
  | _, _ => 0

variable (manager : Manager ρ) (pool : BlockPool)

def getNumBlocksToAllocate (reqId : ρ) (numTokens : ℕ) (newComputedBlocks : List ℕ)
    (totalComputedTokens numTokensMainModel : ℕ) : Except Exn ℤ :=
  match manager with
  | mamba base state => state.getNumBlocksToAllocate base pool reqId numTokens newComputedBlocks
      totalComputedTokens numTokensMainModel
  | nelssa base state => state.getNumBlocksToAllocate base pool reqId numTokens newComputedBlocks
      totalComputedTokens
  | manager => manager.base.getNumBlocksToAllocate pool manager.getNumSkippedTokens reqId numTokens
      newComputedBlocks totalComputedTokens

def allocateNewComputedBlocks (reqId : ρ) (newComputedBlocks : List ℕ)
    (numLocalComputedTokens numExternalComputedTokens : ℕ) : Except Exn Unit × Manager ρ × BlockPool :=
  match manager with
  | crossAttention base =>
    (if newComputedBlocks ≠ [] then .error (.assertionError "") else .ok (), crossAttention base, pool)
  | manager =>
    let allocated := manager.base.allocateNewComputedBlocks pool manager.getNumSkippedTokens reqId
      newComputedBlocks numLocalComputedTokens numExternalComputedTokens
    (allocated.1, manager.withBase allocated.2.1, allocated.2.2)

def allocateNewBlocks (reqId : ρ) (numTokens numTokensMainModel : ℕ) :
    Except Exn (List ℕ) × Manager ρ × BlockPool :=
  match manager with
  | mamba base state =>
    let allocated := state.allocateNewBlocks base pool reqId numTokens numTokensMainModel
    (allocated.1, mamba allocated.2.1.2 allocated.2.1.1, allocated.2.2)
  | manager =>
    let allocated := manager.base.allocateNewBlocks pool reqId numTokens
    (allocated.1, manager.withBase allocated.2.1, allocated.2.2)

def cacheBlocks (req : CacheRequest ρ) (numTokens : ℕ) : Except Exn Unit × Manager ρ × BlockPool :=
  match manager with
  | mamba base state =>
    let cached := state.cacheBlocks base pool req numTokens
    (cached.1, mamba cached.2.1.2 cached.2.1.1, cached.2.2)
  | crossAttention base =>
    (.error (.valueError "Should not be called as prefix caching is disabled."), crossAttention base, pool)
  | manager =>
    let cached := manager.base.cacheBlocks pool req numTokens
    (cached.1, manager.withBase cached.2.1, cached.2.2)

def free (reqId : ρ) : Except Exn Unit × Manager ρ × BlockPool :=
  let freed := manager.base.free pool reqId
  (freed.1, match manager with
    | mamba _ state => mamba freed.2.1 (state.free reqId)
    | manager => manager.withBase freed.2.1, freed.2.2)

def removeSkippedBlocks (reqId : ρ) (totalComputedTokens : ℕ) : Except Exn Unit × Manager ρ × BlockPool :=
  let removed := match manager with
    | mamba base state => state.removeSkippedBlocks base pool reqId totalComputedTokens
    | manager => manager.base.removeSkippedBlocks pool manager.getNumSkippedTokens reqId
        totalComputedTokens
  (removed.1, manager.withBase removed.2.1, removed.2.2)

def findLongestCacheHit (query : HitQuery) : Except Exn (List (List ℕ)) :=
  let spec := manager.base.kvCacheSpec
  match manager with
  | fullAttention _ | sinkFullAttention _ _ | nelssa _ _ => query.fullAttention pool spec
  | slidingWindow _ _ => query.slidingWindow pool spec
  | chunkedLocal _ _ => query.chunkedLocal pool spec
  | mamba _ _ => query.mamba pool spec
  | crossAttention _ => HitQuery.crossAttention spec

end Manager

/-! ## The factory -/

variable (spec : KVCacheSpec)

/-- The admission cap of the specs whose managers recycle blocks. -/
def KVCacheSpec.maxAdmissionBlocksPerRequest (maxNumBatchedTokens maxModelLen : ℕ) : Option ℕ :=
  match spec.kind with
  | .slidingWindow window | .slidingWindowMLA window =>
    some (cdiv (min (window - 1 + maxNumBatchedTokens) maxModelLen) spec.blockSize + 1)
  | .chunkedLocal chunkSize =>
    some (cdiv (min (chunkSize + maxNumBatchedTokens) maxModelLen) spec.blockSize)
  | _ => none

/-- The manager that `spec_manager_map` assigns to the type of a spec. Attention with sinks takes its
sink blocks out of the free queue. -/
def specManager (base : ManagerBase ρ) (pool : BlockPool) : Except Exn (Manager ρ) × BlockPool :=
  match spec.kind with
  | .fullAttention | .tqFullAttention | .mlaAttention => (.ok (.fullAttention base), pool)
  | .slidingWindow window | .slidingWindowMLA window => (.ok (.slidingWindow base window), pool)
  | .chunkedLocal chunkSize => (.ok (.chunkedLocal base chunkSize), pool)
  | .mamba mode numSpeculativeBlocks => (.ok (.mamba base (.init mode numSpeculativeBlocks)), pool)
  | .crossAttention => (.ok (.crossAttention base), pool)
  | .sinkFullAttention none => (.error (.assertionError ""), pool)
  | .sinkFullAttention (some sinkLen) =>
    if sinkLen = 0 ∨ sinkLen % base.blockSize ≠ 0 then (.error (.assertionError ""), pool)
    else match pool.freeBlockQueue.popleftN (sinkLen / base.blockSize) with
      | .error exn => (.error exn, pool)
      | .ok (sinkBlocks, queue) =>
        (.ok (.sinkFullAttention base sinkBlocks), { pool with freeBlockQueue := queue })

def getManagerForKvCacheSpec (maxNumBatchedTokens maxModelLen : ℕ) (pool : BlockPool) (enableCaching : Bool)
    (kvCacheGroupId dcpWorldSize pcpWorldSize : ℕ) (nelssaConfig : Option NELSSAConfig) :
    Except Exn (Manager ρ) × BlockPool :=
  let base (maxBlocks : Option ℕ) : ManagerBase ρ :=
    .init spec enableCaching kvCacheGroupId dcpWorldSize pcpWorldSize maxBlocks
  match nelssaConfig with
  | some config => (.ok (.nelssa (base none) (.init config)), pool)
  | none =>
    specManager spec (base (spec.maxAdmissionBlocksPerRequest maxNumBatchedTokens maxModelLen)) pool

end Nelssa.Core
