import Nelssa.Core.CacheManager

/-!
# Searching for cache hits

`find_longest_cache_hit` of the manager classes. The source keeps one list of blocks per KV-cache group
and changes all of them in step; here the search keeps one column per block, with a block for each
group, and the lists are read off at the end.
-/

namespace Nelssa.Core

open Foundation.BlockArithmetic

/-- The arguments of a search, except for the pool and the spec. -/
structure HitQuery where
  blockHashes : List BlockHash
  maxLength : ℕ
  kvCacheGroupIds : List ℕ
  useEagle : Bool
  alignmentTokens : ℕ
  dcpWorldSize : ℕ
  pcpWorldSize : ℕ

namespace HitQuery

/-- The blocks of each group, one list per group. -/
def perGroup (query : HitQuery) (columns : List (List ℕ)) : List (List ℕ) :=
  (List.range query.kvCacheGroupIds.length).map fun group ↦ columns.map fun column ↦ column.getD group 0

def nullColumn (query : HitQuery) (pool : BlockPool) : List ℕ :=
  List.replicate query.kvCacheGroupIds.length pool.nullBlock

/-- The lookup of one hash. An empty list of groups finds an empty list of blocks, which counts as a
miss. -/
def lookup (query : HitQuery) (pool : BlockPool) (blockHash : BlockHash) : Except Exn (Option (List ℕ)) :=
  (pool.getCachedBlock blockHash query.kvCacheGroupIds).map fun found ↦ found.filter (· ≠ [])

/-- Drop blocks from the end until the length is a multiple of the alignment. -/
def popUnaligned (query : HitQuery) (blockSize : ℕ) (columns : List (List ℕ)) : List (List ℕ) :=
  if blockSize ≠ query.alignmentTokens ∧ columns.length * blockSize % query.alignmentTokens ≠ 0 then
    query.popUnaligned blockSize columns.dropLast
  else columns
termination_by columns.length
decreasing_by
  rename_i hunaligned
  have hne : columns.length ≠ 0 := fun h ↦ hunaligned.2 (by rw [h, Nat.zero_mul, Nat.zero_mod])
  rw [List.length_dropLast]
  omega

/-- The hits from the first hash on, up to the first miss. -/
def prefixHits (query : HitQuery) (pool : BlockPool) : List BlockHash → Except Exn (List (List ℕ))
  | [] => .ok []
  | blockHash :: rest =>
    match query.lookup pool blockHash with
    | .error exn => .error exn
    | .ok none => .ok []
    | .ok (some column) => (query.prefixHits pool rest).map fun columns ↦ column :: columns

/-- The loop of the sliding-window search over the blocks below an index, from right to left. The
result says whether enough contiguous blocks were found. -/
def windowHits (query : HitQuery) (pool : BlockPool) (blockSize contiguousBlocks : ℕ) :
    ℕ → List (List ℕ) → ℕ → Except Exn (List (List ℕ) × ℕ × Bool)
  | 0, columns, numContiguousBlocks => .ok (columns, numContiguousBlocks, false)
  | index + 1, columns, numContiguousBlocks =>
    match query.blockHashes[index]? with
    | none => .error .indexError
    | some blockHash =>
      match query.lookup pool blockHash with
      | .error exn => .error exn
      | .ok none => query.windowHits pool blockSize contiguousBlocks index columns 0
      | .ok (some column) =>
        let postPopBlocks := if query.useEagle then index else index + 1
        if numContiguousBlocks = 0 ∧ blockSize ≠ query.alignmentTokens ∧
            postPopBlocks * blockSize % query.alignmentTokens ≠ 0 then
          query.windowHits pool blockSize contiguousBlocks index columns numContiguousBlocks
        else
          let found := columns.set index column
          if contiguousBlocks ≤ numContiguousBlocks + 1 then
            .ok (found.take (index + (numContiguousBlocks + 1)), numContiguousBlocks + 1, true)
          else query.windowHits pool blockSize contiguousBlocks index found (numContiguousBlocks + 1)

/-- The last hit below an index, with null blocks in front of it. -/
def lastHit (query : HitQuery) (pool : BlockPool) (blockSize : ℕ) : ℕ → Except Exn (List (List ℕ))
  | 0 => .ok []
  | index + 1 =>
    match query.blockHashes[index]? with
    | none => .error .indexError
    | some blockHash =>
      match query.lookup pool blockHash with
      | .error exn => .error exn
      | .ok none => query.lastHit pool blockSize index
      | .ok (some column) =>
        if blockSize ≠ query.alignmentTokens ∧ (index + 1) * blockSize % query.alignmentTokens ≠ 0 then
          query.lastHit pool blockSize index
        else .ok (List.replicate index (query.nullColumn pool) ++ [column])

section

variable (query : HitQuery) (pool : BlockPool) (spec : KVCacheSpec)

/-- `FullAttentionManager.find_longest_cache_hit`. -/
def fullAttention : Except Exn (List (List ℕ)) :=
  if ¬ (spec.kind.isFullAttention ∨ spec.kind.isChunkedLocal) then
    .error (.assertionError ("FullAttentionManager can only be used for full attention " ++
      "and chunked local attention groups"))
  else
    let blockSize :=
      if 1 < query.dcpWorldSize * query.pcpWorldSize then
        spec.blockSize * (query.dcpWorldSize * query.pcpWorldSize)
      else spec.blockSize
    match query.prefixHits pool (query.blockHashes.take (query.maxLength / blockSize)) with
    | .error exn => .error exn
    | .ok columns =>
      if query.kvCacheGroupIds = [] ∧ (query.useEagle ∨ blockSize ≠ query.alignmentTokens) then
        .error .indexError
      else
        let dropped := if query.useEagle then columns.dropLast else columns
        .ok (query.perGroup (query.popUnaligned blockSize dropped))

/-- `SlidingWindowManager.find_longest_cache_hit`. -/
def slidingWindow : Except Exn (List (List ℕ)) :=
  let search (window : ℕ) : Except Exn (List (List ℕ)) :=
    if query.dcpWorldSize ≠ 1 then
      .error (.assertionError "DCP not support sliding window attn now.")
    else if query.pcpWorldSize ≠ 1 then
      .error (.assertionError "PCP not support sliding window attn now.")
    else
      let blockSize := spec.blockSize
      let contiguousBlocks := cdiv (window - 1) blockSize + if query.useEagle then 1 else 0
      let maxNumBlocks := query.maxLength / blockSize
      match query.windowHits pool blockSize contiguousBlocks maxNumBlocks
          (List.replicate maxNumBlocks (query.nullColumn pool)) 0 with
      | .error exn => .error exn
      | .ok (columns, numContiguousBlocks, matchFound) =>
        if query.kvCacheGroupIds = [] ∧
            (query.useEagle ∨ (matchFound = false ∧ blockSize ≠ query.alignmentTokens)) then
          .error .indexError
        else
          let trimmed := if matchFound then columns
            else query.popUnaligned blockSize (columns.take numContiguousBlocks)
          .ok (query.perGroup (if query.useEagle ∧ trimmed ≠ [] then
            query.popUnaligned blockSize trimmed.dropLast else trimmed))
  match spec.kind with
  | .slidingWindow window => search window
  | .slidingWindowMLA window => search window
  | _ => .error (.assertionError "SlidingWindowManager can only be used for sliding window groups")

/-- `ChunkedLocalAttentionManager.find_longest_cache_hit`. -/
def chunkedLocal : Except Exn (List (List ℕ)) :=
  match spec.kind with
  | .chunkedLocal attentionChunkSize =>
    if query.useEagle then
      .error (.assertionError "Hybrid KV cache is not supported for eagle + chunked local attention.")
    else if query.dcpWorldSize ≠ 1 then
      .error (.assertionError "DCP not support chunked local attn now.")
    else if query.pcpWorldSize ≠ 1 then
      .error (.assertionError "PCP not support chunked local attn now.")
    else if spec.blockSize ≠ query.alignmentTokens then
      .error (.assertionError ("KV cache groups with different block sizes are not compatible with " ++
        "chunked local attention now"))
    else
      let maxNumBlocks := query.maxLength / spec.blockSize
      let localAttentionStartIdx := query.maxLength / attentionChunkSize * attentionChunkSize
      let startBlockIdx := localAttentionStartIdx / spec.blockSize
      let searched := (query.blockHashes.take maxNumBlocks).drop startBlockIdx
      match query.prefixHits pool searched with
      | .error exn => .error exn
      | .ok columns =>
        -- Every hash was a hit, and the next one is missing in the list.
        if columns.length = searched.length ∧ max startBlockIdx query.blockHashes.length < maxNumBlocks then
          .error .indexError
        else .ok (query.perGroup (List.replicate startBlockIdx (query.nullColumn pool) ++ columns))
  | _ => .error (.assertionError ("ChunkedLocalAttentionManager can only be used for " ++
      "chunked local attention groups"))

end

/-- `MambaManager.find_longest_cache_hit`. -/
def mamba (query : HitQuery) (pool : BlockPool) (spec : KVCacheSpec) : Except Exn (List (List ℕ)) :=
  match spec.kind with
  | .mamba _ _ =>
    if query.dcpWorldSize ≠ 1 then .error (.assertionError "DCP not support mamba now.")
    else if query.pcpWorldSize ≠ 1 then .error (.assertionError "PCP not support mamba now.")
    else
      (query.lastHit pool spec.blockSize (query.maxLength / spec.blockSize)).map query.perGroup
  | _ => .error (.assertionError "MambaManager can only be used for mamba groups")

/-- `CrossAttentionManager.find_longest_cache_hit`. -/
def crossAttention (spec : KVCacheSpec) : Except Exn (List (List ℕ)) :=
  match spec.kind with
  | .crossAttention => .error (.notImplementedError "CrossAttentionManager does not support caching")
  | _ => .error (.assertionError "CrossAttentionManager can only be used for cross-attention groups")

end HitQuery

end Nelssa.Core
