import Nelssa.Core.Managers

/-!
# Allocating slots

`KVCacheManager.allocate_slots` over the coordinator: the managers of all KV-cache groups share one
pool. The manager first compares the number of blocks that the managers ask for with the number of free
blocks, and then lets them take the computed blocks and allocate new ones.
-/

namespace Nelssa.Core

variable {ρ : Type*} [DecidableEq ρ]

/-- The fields of a request that `allocate_slots` reads. -/
structure SlotRequest (ρ : Type*) extends CacheRequest ρ where
  numComputedTokens : ℕ
  numTokens : ℕ
  nelssaLongMask : Bool

/-- The arguments of `allocate_slots`. No computed blocks means the shared empty object, with which the
managers are not asked to take computed blocks. -/
structure SlotCall where
  numNewTokens : ℤ
  numNewComputedTokens : ℕ := 0
  newComputedBlocks : Option (List (List ℕ)) := none
  numLookaheadTokens : ℕ := 0
  numExternalComputedTokens : ℕ := 0
  delayCacheBlocks : Bool := false
  numEncoderTokens : ℕ := 0

structure KVCacheManager (ρ : Type*) where
  maxModelLen : ℕ
  enableCaching : Bool
  singleTypeManagers : List (Manager ρ)
  blockPool : BlockPool

/-- Call a method of all managers one after the other, up to the first exception. -/
def forEachManager {α : Type*} (method : ℕ → Manager ρ → BlockPool → Except Exn α × Manager ρ × BlockPool) :
    ℕ → List (Manager ρ) → BlockPool → Except Exn (List α) × List (Manager ρ) × BlockPool
  | _, [], pool => (.ok [], [], pool)
  | index, manager :: rest, pool =>
    let called := method index manager pool
    match called.1 with
    | .error exn => (.error exn, called.2.1 :: rest, called.2.2)
    | .ok result =>
      let others := forEachManager method (index + 1) rest called.2.2
      (others.1.map fun results ↦ result :: results, called.2.1 :: others.2.1, others.2.2)

namespace KVCacheManager

/-- Run a method of all managers and store them with the pool. -/
def runManagers {α : Type*} (kv : KVCacheManager ρ)
    (method : ℕ → Manager ρ → BlockPool → Except Exn α × Manager ρ × BlockPool) :
    Except Exn (List α) × KVCacheManager ρ :=
  let called := forEachManager method 0 kv.singleTypeManagers kv.blockPool
  (called.1, { kv with singleTypeManagers := called.2.1, blockPool := called.2.2 })

/-- The blocks computed for one group; a missing entry of the tuple is an index error. -/
def computedBlocksAt (call : SlotCall) (index : ℕ) : Except Exn (List ℕ) :=
  match call.newComputedBlocks with
  | none => .ok []
  | some blocks => match blocks[index]? with
    | none => .error .indexError
    | some groupBlocks => .ok groupBlocks

/-- The sum of the managers' estimates; cross attention is asked for the encoder tokens. -/
def getNumBlocksToAllocate (pool : BlockPool) (reqId : ρ) (call : SlotCall)
    (numTokens totalComputedTokens numTokensMainModel : ℕ) : ℕ → List (Manager ρ) → Except Exn ℤ
  | _, [] => .ok 0
  | index, manager :: rest =>
    let estimate : Except Exn ℤ := match manager with
      | .crossAttention _ => manager.getNumBlocksToAllocate pool reqId call.numEncoderTokens [] 0
          call.numEncoderTokens
      | manager => match computedBlocksAt call index with
        | .error exn => .error exn
        | .ok blocks => manager.getNumBlocksToAllocate pool reqId numTokens blocks totalComputedTokens
            numTokensMainModel
    match estimate with
    | .error exn => .error exn
    | .ok numBlocks =>
      (getNumBlocksToAllocate pool reqId call numTokens totalComputedTokens numTokensMainModel
        (index + 1) rest).map fun others ↦ numBlocks + others

section

variable (kv : KVCacheManager ρ) (reqId : ρ)

def markLongRequest (promptLen : ℕ) : KVCacheManager ρ :=
  { kv with singleTypeManagers := kv.singleTypeManagers.map fun
      | .nelssa base state => .nelssa base (state.markLongRequest base.blockSize reqId promptLen)
      | manager => manager }

def freeSparseKv : Except Exn Unit × KVCacheManager ρ :=
  let freed := kv.runManagers fun _ manager pool ↦ match manager with
    | .nelssa base state =>
      let result := state.freeMiddleBlocks base pool reqId
      (result.1, .nelssa result.2.1 state, result.2.2)
    | manager => (.ok (), manager, pool)
  (freed.1.map fun _ ↦ (), freed.2)

def free : Except Exn Unit × KVCacheManager ρ :=
  let freed := kv.runManagers fun _ manager pool ↦ manager.free pool reqId
  (freed.1.map fun _ ↦ (), freed.2)

end

/-- The tokens that are computed before the step, in this engine or elsewhere. -/
def totalComputedTokens (req : SlotRequest ρ) (call : SlotCall) : ℕ :=
  req.numComputedTokens + call.numNewComputedTokens + call.numExternalComputedTokens

section

variable (kv : KVCacheManager ρ) (req : SlotRequest ρ) (call : SlotCall)

/-- The tokens of the target model, up to the end of the step. A negative number of new tokens never
goes beyond the computed ones. -/
def numTokensMainModel : ℕ :=
  ((min (totalComputedTokens req call) kv.maxModelLen : ℕ) + call.numNewTokens).toNat

/-- The tokens that need a slot. -/
def numTokensNeedSlot : ℕ :=
  min (kv.numTokensMainModel req call + call.numLookaheadTokens) kv.maxModelLen

/-- The estimate that is compared with the number of free blocks. -/
def numBlocksToAllocate : Except Exn ℤ :=
  getNumBlocksToAllocate kv.blockPool req.requestId call (kv.numTokensNeedSlot req call)
    (totalComputedTokens req call) (kv.numTokensMainModel req call) 0 kv.singleTypeManagers

/-- What follows when there are enough blocks: take the computed blocks and allocate new ones. -/
def allocateBlocks : Except Exn (List (List ℕ)) × KVCacheManager ρ :=
  let computed :=
    if call.newComputedBlocks.isSome ∨ 0 < call.numExternalComputedTokens then
      kv.runManagers fun index manager pool ↦ match computedBlocksAt call index with
        | .error exn => (.error exn, manager, pool)
        | .ok blocks => manager.allocateNewComputedBlocks pool req.requestId blocks
            (req.numComputedTokens + call.numNewComputedTokens) call.numExternalComputedTokens
    else (.ok [], kv)
  match computed.1 with
  | .error exn => (.error exn, computed.2)
  | .ok _ => computed.2.runManagers fun _ manager pool ↦
      let numTokens := match manager with
        | .crossAttention _ => call.numEncoderTokens
        | _ => kv.numTokensNeedSlot req call
      manager.allocateNewBlocks pool req.requestId numTokens (kv.numTokensMainModel req call)

/-- The result is the new blocks of each group, or `none` when there are not enough free blocks. -/
def allocateSlots : Except Exn (Option (List (List ℕ))) × KVCacheManager ρ :=
  if call.numNewTokens = 0 ∧ call.numExternalComputedTokens = 0 then
    (.error (.valueError ("num_new_tokens must be greater than 0 when there are no " ++
      "external computed tokens")), kv)
  else
    let skipped := kv.runManagers fun _ manager pool ↦ manager.removeSkippedBlocks pool req.requestId
      (min (totalComputedTokens req call) kv.maxModelLen)
    match skipped.1 with
    | .error exn => (.error exn, skipped.2)
    | .ok _ =>
      let marked :=
        if req.nelssaLongMask then skipped.2.markLongRequest req.requestId req.numTokens
        else skipped.2
      match marked.numBlocksToAllocate req call with
      | .error exn => (.error exn, marked)
      | .ok numBlocks =>
        if (marked.blockPool.getNumFreeBlocks : ℤ) < numBlocks then (.ok none, marked)
        else
          let allocated := marked.allocateBlocks req call
          match allocated.1 with
          | .error exn => (.error exn, allocated.2)
          | .ok newBlocks =>
            if kv.enableCaching = false ∨ call.delayCacheBlocks then (.ok (some newBlocks), allocated.2)
            else
              let numTokensToCache := min (kv.numTokensMainModel req call) req.numTokens
              let cached := allocated.2.runManagers fun _ manager pool ↦
                manager.cacheBlocks pool req.toCacheRequest numTokensToCache
              (cached.1.map fun _ ↦ some newBlocks, cached.2)

end

variable (kv : KVCacheManager ρ)

def getBlocks (reqId : ρ) : List (List ℕ) :=
  kv.singleTypeManagers.map fun manager ↦ manager.base.blocksOf reqId

/-- The admission gate for whole sequences; the call carries the computed tokens and blocks. -/
def canFitFullSequence (req : SlotRequest ρ) (call : SlotCall) : Except Exn Bool :=
  let fullNumTokens := min req.numTokens kv.maxModelLen
  (getNumBlocksToAllocate kv.blockPool req.requestId call fullNumTokens
    (min (totalComputedTokens req call) kv.maxModelLen) fullNumTokens 0 kv.singleTypeManagers).map
      fun numBlocks ↦ numBlocks ≤ (kv.blockPool.getNumFreeBlocks : ℤ)

def cacheBlocks (req : CacheRequest ρ) (numComputedTokens : ℕ) : Except Exn Unit × KVCacheManager ρ :=
  if kv.enableCaching then
    let cached := kv.runManagers fun _ manager pool ↦ manager.cacheBlocks pool req numComputedTokens
    (cached.1.map fun _ ↦ (), cached.2)
  else (.ok (), kv)

def newStepStarts : KVCacheManager ρ :=
  { kv with singleTypeManagers := kv.singleTypeManagers.map fun
      | .mamba base state => .mamba base state.newStepStarts
      | manager => manager }

end KVCacheManager

end Nelssa.Core
