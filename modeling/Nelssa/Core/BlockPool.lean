import Nelssa.Core.BlockHashMap

/-!
# The block pool

`BlockPool` hands out KV-cache blocks, counts their users and finds full blocks by their hash. The
fields of the blocks are stored by block id. An operation returns its result or the exception it raises
together with the pool at that point, since Python keeps the changes made before an exception. Events
and metrics are not modelled.
-/

namespace Nelssa.Core

open Function

structure BlockPool where
  numGpuBlocks : ℕ
  enableCaching : Bool
  hashBlockSize : ℕ
  refCnt : ℕ → ℤ
  blockHash : ℕ → Option BlockHashWithGroupId
  isNull : ℕ → Bool
  freeBlockQueue : FreeKVCacheBlockQueue
  cachedBlockHashToBlock : BlockHashToBlockMap
  nullBlock : ℕ

namespace BlockPool

/-- The constructor: block 0 is taken out of the queue as the null block. -/
def init (numGpuBlocks : ℕ) (enableCaching : Bool) (hashBlockSize : ℕ) : Except Exn BlockPool :=
  if numGpuBlocks = 0 then .error (.assertionError "")
  else
    match (FreeKVCacheBlockQueue.init numGpuBlocks).popleft with
    | .error exn => .error exn
    | .ok (nullBlock, queue) => .ok
        { numGpuBlocks, enableCaching, hashBlockSize, nullBlock
          refCnt := fun _ ↦ 0
          blockHash := fun _ ↦ none
          isNull := fun block ↦ block = nullBlock
          freeBlockQueue := queue
          cachedBlockHashToBlock := .init }

def getNumFreeBlocks (pool : BlockPool) : ℕ := pool.freeBlockQueue.numFreeBlocks

def addRef (pool : BlockPool) (block : ℕ) (amount : ℤ) : BlockPool :=
  { pool with refCnt := update pool.refCnt block (pool.refCnt block + amount) }

/-- Look up the block of every group; `none` when one of them has no such block. -/
def getCachedBlock (pool : BlockPool) (blockHash : BlockHash) : List ℕ → Except Exn (Option (List ℕ))
  | [] => .ok (some [])
  | groupId :: rest =>
    match makeBlockHashWithGroupId blockHash groupId with
    | .error exn => .error exn
    | .ok key =>
      match pool.cachedBlockHashToBlock.getOneBlock key with
      | none => .ok none
      | some block => (pool.getCachedBlock blockHash rest).map fun found ↦ found.map (block :: ·)

/-- Remove a block from the prefix cache; the result says whether it was evicted. -/
def maybeEvictCachedBlock (pool : BlockPool) (block : ℕ) : Bool × BlockPool :=
  match pool.blockHash block with
  | none => (false, pool)
  | some key =>
    match pool.cachedBlockHashToBlock.pop key block with
    | (none, map) => (false, { pool with cachedBlockHashToBlock := map })
    | (some _, map) => (true,
        { pool with
          cachedBlockHashToBlock := map
          blockHash := update pool.blockHash block none })

/-- The loop of `get_new_blocks` over the popped blocks. -/
def claimBlocks (pool : BlockPool) : List ℕ → Except Exn Unit × BlockPool
  | [] => (.ok (), pool)
  | block :: rest =>
    let evicted := if pool.enableCaching then (pool.maybeEvictCachedBlock block).2 else pool
    if evicted.refCnt block = 0 then (evicted.addRef block 1).claimBlocks rest
    else (.error (.assertionError ""), evicted)

def getNewBlocks (pool : BlockPool) (numBlocks : ℤ) : Except Exn (List ℕ) × BlockPool :=
  if pool.getNumFreeBlocks < numBlocks then
    (.error (.valueError s!"Cannot get {numBlocks} free blocks from the pool"), pool)
  else
    match pool.freeBlockQueue.popleftN numBlocks with
    | .error exn => (.error exn, pool)
    | .ok (popped, queue) =>
      let claimed := { pool with freeBlockQueue := queue }.claimBlocks popped
      (claimed.1.map fun _ ↦ popped, claimed.2)

def touch (pool : BlockPool) : List ℕ → Except Exn Unit × BlockPool
  | [] => (.ok (), pool)
  | block :: rest =>
    if pool.refCnt block = 0 ∧ pool.isNull block = false then
      match pool.freeBlockQueue.remove block with
      | .error exn => (.error exn, pool)
      | .ok queue => ({ pool with freeBlockQueue := queue }.addRef block 1).touch rest
    else (pool.addRef block 1).touch rest

def freeBlocks (pool : BlockPool) (orderedBlocks : List ℕ) : Except Exn Unit × BlockPool :=
  let lowered := orderedBlocks.foldl (fun current block ↦ current.addRef block (-1)) pool
  let unused := orderedBlocks.filter fun block ↦ lowered.refCnt block = 0 ∧ lowered.isNull block = false
  match lowered.freeBlockQueue.appendN unused with
  | .error exn => (.error exn, lowered)
  | .ok queue => (.ok (), { lowered with freeBlockQueue := queue })

/-- The hashes of a request at the granularity of its group, `BlockHashListWithBlockSize`. -/
def blockHashList (pool : BlockPool) (blockHashes : List BlockHash) (blockSize : ℕ) :
    Except Exn (List BlockHash) :=
  if blockSize = pool.hashBlockSize then .ok blockHashes
  else if blockSize % pool.hashBlockSize ≠ 0 then .error (.assertionError "")
  else
    let scaleFactor := blockSize / pool.hashBlockSize
    .ok ((List.range (blockHashes.length / scaleFactor)).map fun index ↦
      ((blockHashes.drop (index * scaleFactor)).take scaleFactor).flatten)

/-- Give one full block its hash and enter it in the cache. -/
def insertHash (pool : BlockPool) (block : ℕ) (key : BlockHashWithGroupId) : BlockPool :=
  { pool with
    blockHash := update pool.blockHash block (some key)
    cachedBlockHashToBlock := pool.cachedBlockHashToBlock.insert key block }

/-- The loop of `cache_full_blocks` over the new full blocks and their hashes. -/
def cacheNewBlocks (pool : BlockPool) (kvCacheGroupId : ℕ) :
    List ℕ → List BlockHash → Except Exn Unit × BlockPool
  | [], _ => (.ok (), pool)
  | block :: rest, hashes =>
    if pool.isNull block then pool.cacheNewBlocks kvCacheGroupId rest hashes.tail
    else if pool.blockHash block ≠ none then (.error (.assertionError ""), pool)
    else
      match hashes with
      | [] => (.error .indexError, pool)
      | hash :: others =>
        match makeBlockHashWithGroupId hash kvCacheGroupId with
        | .error exn => (.error exn, pool)
        | .ok key => (pool.insertHash block key).cacheNewBlocks kvCacheGroupId rest others

def cacheFullBlocks (pool : BlockPool) (blockHashes : List BlockHash) (blocks : List ℕ)
    (numCachedBlocks numFullBlocks blockSize kvCacheGroupId : ℕ) : Except Exn Unit × BlockPool :=
  if numFullBlocks ≤ numCachedBlocks then (.ok (), pool)
  else if blockHashes.length < numFullBlocks then (.error (.assertionError ""), pool)
  else
    match pool.blockHashList blockHashes blockSize with
    | .error exn => (.error exn, pool)
    | .ok hashes => pool.cacheNewBlocks kvCacheGroupId
        ((blocks.take numFullBlocks).drop numCachedBlocks) (hashes.drop numCachedBlocks)

def evictBlocks (pool : BlockPool) : List ℕ → Except Exn Unit × BlockPool
  | [] => (.ok (), pool)
  | blockId :: rest =>
    if blockId < pool.numGpuBlocks then (pool.maybeEvictCachedBlock blockId).2.evictBlocks rest
    else
      let numBlocks := pool.numGpuBlocks
      (.error (.assertionError (s!"Invalid block_id {blockId} >= {numBlocks}. " ++
        "This indicates a bug in the KV connector - workers should " ++
        "only report block IDs that were allocated by the scheduler.")), pool)

def resetPrefixCache (pool : BlockPool) : Bool × BlockPool :=
  let numUsedBlocks := (pool.numGpuBlocks : ℤ) - pool.getNumFreeBlocks
  if numUsedBlocks ≠ 1 then (false, pool)
  else (true,
    { pool with
      cachedBlockHashToBlock := .init
      blockHash := fun block ↦ if block < pool.numGpuBlocks then none else pool.blockHash block })

end BlockPool

end Nelssa.Core
