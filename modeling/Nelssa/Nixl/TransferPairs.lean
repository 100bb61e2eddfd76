import Nelssa.Core.MiddleBlocks
import Nelssa.Worker.BlockTable

/-!
# The blocks of a transfer from prefill to decode

A decode engine reads the KV cache of a prompt from the engine that computed it. The connector of the
scheduler picks the local blocks: those without a hash, and of a long request only some at the front and
some at the end. The remote list is the one that `free_middle_blocks` leaves, with zeros in the middle.
The worker drops the zeros, cuts the remote list from the front to the length of the local one, and posts
a READ for each pair of blocks at the same position.

Block `i` of the decode side should be read from block `i` of the prefill side, for each `i` that the
prefill side has kept and the decode side has not. The steps agree on this exactly under an arithmetic
condition: the filter counts its front blocks behind the cached ones and uses fixed sizes.
-/

namespace Nelssa.Nixl

open Nelssa.Core Foundation.BlockArithmetic Foundation.Windows Worker.BlockTable Function BlockPool
open List hiding max

/-! ## The connector of the scheduler -/

/-- The entries of `kv_transfer_params` that the connector reads; `hasRemote` says that engine, request,
host and port of the prefill side are given. -/
structure KVTransferParams where
  doRemotePrefill : Bool
  doRemoteDecode : Bool := false
  remoteBlockIds : List (List ℕ) := []
  hasRemote : Bool := true

structure TransferRequest where
  numPromptTokens : ℕ
  nelssaLongMask : Bool
  kvTransferParams : Option KVTransferParams

/-- `items[-count:]`, which is the whole list for no items. -/
def fromEnd (count : ℕ) (items : List ℕ) : List ℕ :=
  if count = 0 then items else items.drop (items.length - count)

/-- The blocks that hold no cached tokens, without padding blocks. -/
def getUnhashedBlockIdsAllGroups (pool : BlockPool) (blocks : List (List ℕ)) : List (List ℕ) :=
  blocks.map fun group ↦ group.filter fun block ↦ pool.blockHash block = none ∧ ¬ pool.isNull block

/-- The attributes of `NixlConnectorScheduler` for models with one attention type, for which
`get_sw_clipped_blocks` returns its argument. -/
structure NixlConnectorScheduler (ρ : Type*) where
  blockSize : ℕ
  nelssaEnabled : Bool
  useHostBuffer : Bool := false
  reqsInBatch : ρ → Bool := fun _ ↦ false
  reqsNeedSave : ρ → Bool := fun _ ↦ false
  reqsNeedRecv : ρ → Option (List (List ℕ)) := fun _ ↦ none

namespace NixlConnectorScheduler

variable {ρ : Type*} (connector : NixlConnectorScheduler ρ)

def checkNelssaFilter (req : TransferRequest) : Bool :=
  match req.kvTransferParams with
  | none => false
  | some params => connector.nelssaEnabled && (params.doRemotePrefill && req.nelssaLongMask)

/-- The front blocks that the filter keeps, for the fixed size of 16 tokens. -/
def filterHeadBlocks : ℕ := (16 + connector.blockSize - 1) / connector.blockSize

/-- The end blocks that the filter keeps, for the fixed size of 64 tokens. -/
def filterTailBlocks (promptLen : ℕ) : ℕ :=
  if 64 < promptLen then
    let tailStart := (promptLen - 64) / connector.blockSize * connector.blockSize
    let tailTokens := promptLen - tailStart
    (tailTokens + connector.blockSize - 1) / connector.blockSize
  else (64 + connector.blockSize - 1) / connector.blockSize

def filterMiddleBlocks (req : TransferRequest) (blockIdGroups : List (List ℕ)) : List (List ℕ) :=
  let headBlocks := connector.filterHeadBlocks
  let tailBlocks := connector.filterTailBlocks req.numPromptTokens
  blockIdGroups.map fun groupBlocks ↦
    if groupBlocks.length ≤ headBlocks + tailBlocks then groupBlocks
    else groupBlocks.take headBlocks ++ fromEnd tailBlocks groupBlocks

/-- The local blocks that are read. A full prefix-cache hit has no group. -/
def localBlockIds (pool : BlockPool) (req : TransferRequest) (blocks : List (List ℕ))
    (numExternalTokens : ℕ) : List (List ℕ) :=
  let unhashedLocalBlockIds :=
    if 0 < numExternalTokens then getUnhashedBlockIdsAllGroups pool blocks else []
  if connector.checkNelssaFilter req then connector.filterMiddleBlocks req unhashedLocalBlockIds
  else unhashedLocalBlockIds

/-- Plan the transfer of a request that has its blocks. Only one transfer is triggered for a request. -/
def updateStateAfterAlloc [DecidableEq ρ] (pool : BlockPool) (requestId : ρ) (req : TransferRequest)
    (blocks : List (List ℕ)) (numExternalTokens : ℕ) :
    Except Exn (TransferRequest × NixlConnectorScheduler ρ) :=
  match req.kvTransferParams with
  | none => .ok (req, connector)
  | some params =>
    let batched := if params.doRemoteDecode then
        { connector with reqsInBatch := update connector.reqsInBatch requestId true }
      else connector
    if connector.useHostBuffer ∧ params.doRemoteDecode then
      .ok (req, { batched with
        reqsNeedSave := update connector.reqsNeedSave requestId true })
    else if params.doRemotePrefill then
      let triggered := { req with kvTransferParams := some { params with doRemotePrefill := false } }
      if params.remoteBlockIds ≠ [] then
        if params.hasRemote then
          .ok (triggered, { batched with
            reqsNeedRecv := update connector.reqsNeedRecv requestId
              (some (connector.localBlockIds pool req blocks numExternalTokens)) })
        else .ok (triggered, batched)
      else if numExternalTokens = 0 then .ok (triggered, batched)
      else .error (.assertionError "")
    else .ok (req, batched)

theorem updateStateAfterAlloc_of_remotePrefill [DecidableEq ρ] {req : TransferRequest}
    {params : KVTransferParams} (hparams : req.kvTransferParams = some params)
    (hdecode : params.doRemoteDecode = false) (hprefill : params.doRemotePrefill = true)
    (hblocks : params.remoteBlockIds ≠ []) (hremote : params.hasRemote = true) (pool : BlockPool)
    (requestId : ρ) (blocks : List (List ℕ)) (numExternalTokens : ℕ) :
    connector.updateStateAfterAlloc pool requestId req blocks numExternalTokens =
      .ok ({ req with kvTransferParams := some { params with doRemotePrefill := false } },
        { connector with
          reqsNeedRecv := update connector.reqsNeedRecv requestId
            (some (connector.localBlockIds pool req blocks numExternalTokens)) }) := by
  unfold updateStateAfterAlloc
  simp only [hparams, hdecode, hprefill, hremote, hblocks, Bool.false_eq_true, and_false, if_false, if_true,
    ne_eq, not_false_eq_true]

end NixlConnectorScheduler

open NixlConnectorScheduler

/-! ## The connector of the worker -/

/-- `_logical_to_kernel_block_ids`, for models without Mamba groups. -/
def logicalToKernelBlockIds (physicalBlocksPerLogical : ℕ) (blockIds : List (List ℕ)) : List (List ℕ) :=
  blockIds.map fun group ↦ mapToKernelBlocks group physicalBlocksPerLogical

/-- The zeros of the remote lists are dropped if the first local list is shorter than the remote one. -/
def compactRemote (localBlockIds remoteBlockIds : List (List ℕ)) : Except Exn (List (List ℕ)) :=
  match localBlockIds, remoteBlockIds with
  | localGroup :: _, remoteGroup :: _ =>
    if localGroup.length < remoteGroup.length then
      .ok (remoteBlockIds.map fun group ↦ group.filter fun block ↦ block ≠ 0)
    else .ok remoteBlockIds
  | _, _ => .error .indexError

/-- The remote blocks of a group that are read. -/
def trimRemote (groups : List ℕ × List ℕ) : Except Exn (List ℕ) :=
  if groups.1.length ≤ groups.2.length then
    .ok (if groups.1.length < groups.2.length then fromEnd groups.1.length groups.2 else groups.2)
  else .error (.assertionError "")

/-- The pairs for which `_read_blocks` posts a READ. A full prefix-cache hit has no local group. -/
def readBlocks (numGroups : ℕ) (localBlockIds remoteBlockIds : List (List ℕ)) : Except Exn (List (ℕ × ℕ)) :=
  if localBlockIds = [] then .ok []
  else if remoteBlockIds.length = localBlockIds.length ∧ localBlockIds.length = numGroups then
    match (localBlockIds.zip remoteBlockIds).mapM trimRemote with
    | .error exn => .error exn
    | .ok trimmed =>
      if localBlockIds.flatten.length = trimmed.flatten.length then
        .ok (localBlockIds.flatten.zip trimmed.flatten)
      else .error (.assertionError "")
  else .error (.assertionError "")

/-- What `start_load_kv` reads for one request, for equal block sizes of both sides. -/
def startLoadKv (physicalBlocksPerLogical numGroups : ℕ) (localBlockIds remoteBlockIds : List (List ℕ)) :
    Except Exn (List (ℕ × ℕ)) :=
  match compactRemote localBlockIds remoteBlockIds with
  | .error exn => .error exn
  | .ok compacted =>
    readBlocks numGroups (logicalToKernelBlockIds physicalBlocksPerLogical localBlockIds)
      (logicalToKernelBlockIds physicalBlocksPerLogical compacted)

/-! ## The pairs of a single group -/

/-- The kernel blocks of pairs of blocks. -/
def kernelPairs (factor : ℕ) (pairs : List (ℕ × ℕ)) : List (ℕ × ℕ) :=
  pairs.flatMap fun pair ↦
    (range factor).map fun offset ↦ (pair.1 * factor + offset, pair.2 * factor + offset)

variable {factor : ℕ}

theorem eq_of_mul_eq_mul_add {first other shift : ℕ} (hshift : shift < factor)
    (hsame : first * factor = other * factor + shift) : first = other := by
  have hpos := Nat.zero_lt_of_lt hshift
  rw [← Nat.mul_div_cancel first hpos, hsame, mul_comm, Nat.mul_add_div hpos, Nat.div_eq_of_lt hshift,
    add_zero]

theorem mem_kernelPairs {pairs : List (ℕ × ℕ)} {pair : ℕ × ℕ} :
    pair ∈ kernelPairs factor pairs ↔ ∃ blocks ∈ pairs, ∃ offset < factor,
      pair = (blocks.1 * factor + offset, blocks.2 * factor + offset) := by
  simp only [kernelPairs, mem_flatMap, mem_map, mem_range, eq_comm]

theorem mapToKernelBlocks_eq_flatMap (blocks : List ℕ) (factor : ℕ) :
    mapToKernelBlocks blocks factor =
      blocks.flatMap fun block ↦ (range factor).map fun offset ↦ block * factor + offset := by
  unfold mapToKernelBlocks
  split
  · next hone => simp [hone]
  · rfl

theorem length_mapToKernelBlocks (blocks : List ℕ) (factor : ℕ) :
    (mapToKernelBlocks blocks factor).length = factor * blocks.length := by
  rw [mapToKernelBlocks_eq_flatMap]
  exact length_flatMap_of_forall _ (fun block ↦ by rw [length_map, length_range]) blocks

theorem mapToKernelBlocks_drop (blocks : List ℕ) (factor count : ℕ) :
    (mapToKernelBlocks blocks factor).drop (factor * count) =
      mapToKernelBlocks (blocks.drop count) factor := by
  induction count generalizing blocks with
  | zero => rw [mul_zero, drop_zero, drop_zero]
  | succ count ih =>
    cases blocks with
    | nil => simp [mapToKernelBlocks_eq_flatMap]
    | cons block rest =>
      rw [drop_succ_cons, ← ih, mapToKernelBlocks_eq_flatMap, mapToKernelBlocks_eq_flatMap,
        flatMap_cons, Nat.mul_succ, add_comm, ← drop_drop, drop_left']
      rw [length_map, length_range]

theorem zip_mapToKernelBlocks {locals remotes : List ℕ} (factor : ℕ) (hlen : locals.length = remotes.length) :
    (mapToKernelBlocks locals factor).zip (mapToKernelBlocks remotes factor) =
      kernelPairs factor (locals.zip remotes) := by
  rw [mapToKernelBlocks_eq_flatMap, mapToKernelBlocks_eq_flatMap, kernelPairs]
  induction locals generalizing remotes with
  | nil => rfl
  | cons block rest ih =>
    cases remotes with
    | nil => cases hlen
    | cons other others =>
      rw [zip_cons_cons, flatMap_cons, flatMap_cons, flatMap_cons,
        zip_append (by rw [length_map, length_map]), zip_map',
        ih (Nat.succ.inj hlen)]

/-- One group with local blocks: the last remote blocks are read, if there are enough of them. -/
theorem startLoadKv_single (hfactor : 0 < factor) {localGroup : List ℕ} (hlocal : localGroup ≠ [])
    (remoteGroup compacted : List ℕ)
    (hcompacted : compacted = if localGroup.length < remoteGroup.length then
      remoteGroup.filter fun block ↦ block ≠ 0 else remoteGroup) :
    startLoadKv factor 1 [localGroup] [remoteGroup] =
      if localGroup.length ≤ compacted.length then
        .ok (kernelPairs factor (localGroup.zip (compacted.drop (compacted.length - localGroup.length))))
      else .error (.assertionError "") := by
  have hcompact : compactRemote [localGroup] [remoteGroup] = .ok [compacted] := by
    rw [hcompacted]
    unfold compactRemote
    dsimp only
    split <;> rfl
  have hpos := length_pos_iff.2 hlocal
  have hkernel : (mapToKernelBlocks localGroup factor).length ≠ 0 := by
    rw [length_mapToKernelBlocks]
    exact (mul_pos hfactor hpos).ne'
  have htrim (hle : localGroup.length ≤ compacted.length) :
      trimRemote (mapToKernelBlocks localGroup factor, mapToKernelBlocks compacted factor) =
        .ok (mapToKernelBlocks (compacted.drop (compacted.length - localGroup.length)) factor) := by
    have hends : (mapToKernelBlocks compacted factor).length - (mapToKernelBlocks localGroup factor).length =
        factor * (compacted.length - localGroup.length) := by
      rw [length_mapToKernelBlocks, length_mapToKernelBlocks, Nat.mul_sub]
    unfold trimRemote fromEnd
    rw [if_pos (by
      rw [length_mapToKernelBlocks, length_mapToKernelBlocks]
      exact Nat.mul_le_mul_left factor hle), hends, mapToKernelBlocks_drop]
    split
    · rfl
    · next hsame =>
      rw [length_mapToKernelBlocks, length_mapToKernelBlocks, Nat.mul_lt_mul_left hfactor] at hsame
      rw [Nat.sub_eq_zero_of_le (not_lt.1 hsame), drop_zero]
  rw [startLoadKv, hcompact]
  simp only [logicalToKernelBlockIds, map_cons, map_nil, readBlocks, length_cons,
    length_nil, zip_cons_cons, zip_nil_left, mapM_cons, mapM_nil]
  by_cases hle : localGroup.length ≤ compacted.length
  · have hlen : (compacted.drop (compacted.length - localGroup.length)).length = localGroup.length := by
      rw [length_drop]
      omega
    rw [if_pos hle, htrim hle]
    simp [length_mapToKernelBlocks, hlen, zip_mapToKernelBlocks, bind, Except.bind, pure, Except.pure]
  · have hfails : trimRemote (mapToKernelBlocks localGroup factor, mapToKernelBlocks compacted factor) =
        .error (.assertionError "") := by
      refine if_neg fun hmul ↦ hle ?_
      rw [length_mapToKernelBlocks, length_mapToKernelBlocks] at hmul
      exact le_of_mul_le_mul_left hmul hfactor
    rw [if_neg hle, hfails]
    rfl

/-! ## A long request -/

/-- A long prompt that one engine has computed and whose KV cache another engine reads. Both have the same
configuration. The prefill engine holds the blocks of the prompt. The decode engine has found `hits` in
its prefix cache, at most up to the last token, and has put fresh blocks behind them. -/
structure LongTransfer (ρ : Type*) where
  nelssaConfig : NELSSAConfig
  promptLen : ℕ
  long : nelssaConfig.nelssaCheck promptLen = true
  physicalBlocksPerLogical : ℕ
  physicalBlocksPerLogical_pos : 0 < physicalBlocksPerLogical
  requestId : ρ
  prefill : ManagerBase ρ
  blockSize_pos : 0 < prefill.blockSize
  prefillPool : BlockPool
  prefillBlocks : List ℕ
  holds : prefill.HoldsBlocks prefillPool requestId prefillBlocks
  length_prefillBlocks : prefillBlocks.length = cdiv promptLen prefill.blockSize
  decodePool : BlockPool
  hits : List ℕ
  fresh : List ℕ
  hashed : ∀ block ∈ hits, decodePool.blockHash block ≠ none
  unhashed : ∀ block ∈ fresh, decodePool.blockHash block = none ∧ decodePool.isNull block = false
  nodup : (hits ++ fresh).Nodup
  length_decodeBlocks : (hits ++ fresh).length = cdiv promptLen prefill.blockSize
  hits_lt : hits.length * prefill.blockSize < promptLen

namespace LongTransfer

variable {ρ : Type*} (transfer : LongTransfer ρ)

def decodeBlocks : List ℕ := transfer.hits ++ transfer.fresh

def numBlocks : ℕ := cdiv transfer.promptLen transfer.prefill.blockSize

def state : NelssaState ρ := .init transfer.nelssaConfig

/-- The head of the layout of `free_middle_blocks`. -/
def headBlocks : ℕ := transfer.state.headBlocks transfer.prefill.blockSize

/-- The tail of the layout of `free_middle_blocks`. -/
def tailBlocks : ℕ := (transfer.state.computeTailLayout transfer.prefill.blockSize transfer.promptLen).1

/-- The block belongs to the head or to the tail that the prefill side keeps. -/
def Retains (index : ℕ) : Prop :=
  index < transfer.headBlocks ∨ transfer.numBlocks - transfer.tailBlocks ≤ index

def connector : NixlConnectorScheduler ρ :=
  { blockSize := transfer.prefill.blockSize, nelssaEnabled := transfer.nelssaConfig.enabled }

/-- Either the filter leaves the blocks behind the cached ones alone, and the prefill side has kept all of
them; or it cuts exactly the blocks that the prefill side has freed. -/
def Aligned : Prop :=
  let filterHead := transfer.connector.filterHeadBlocks
  let filterTail := transfer.connector.filterTailBlocks transfer.promptLen
  if transfer.numBlocks ≤ transfer.hits.length + (filterHead + filterTail) then
    transfer.numBlocks ≤ max transfer.hits.length transfer.headBlocks + transfer.tailBlocks
  else transfer.headBlocks = transfer.hits.length + filterHead ∧ transfer.tailBlocks = filterTail

section

variable [DecidableEq ρ]

/-- The block ids that the prefill side sends after its middle blocks were freed. -/
def remoteBlockIds : List (List ℕ) :=
  [((transfer.state.markLongRequest transfer.prefill.blockSize transfer.requestId
    transfer.promptLen).freeMiddleBlocks transfer.prefill transfer.prefillPool
      transfer.requestId).2.1.blocksOf transfer.requestId]

def request : TransferRequest :=
  { numPromptTokens := transfer.promptLen
    nelssaLongMask := transfer.nelssaConfig.nelssaCheck transfer.promptLen
    kvTransferParams := some { doRemotePrefill := true, remoteBlockIds := transfer.remoteBlockIds } }

/-- The pairs of kernel blocks that the decode worker posts as READs. -/
def postedReads : Except Exn (List (ℕ × ℕ)) :=
  match transfer.connector.updateStateAfterAlloc transfer.decodePool transfer.requestId transfer.request
      [transfer.decodeBlocks]
      (transfer.promptLen - transfer.hits.length * transfer.prefill.blockSize) with
  | .error exn => .error exn
  | .ok (_, updated) => match updated.reqsNeedRecv transfer.requestId with
    | none => .ok []
    | some localBlockIds =>
      startLoadKv transfer.physicalBlocksPerLogical 1 localBlockIds transfer.remoteBlockIds

/-- Exactly the retained blocks that are not cached locally are read, each from the block with the same
index. -/
def PairsByIndex : Prop :=
  ∃ pairs, transfer.postedReads = .ok pairs ∧ ∀ pair, pair ∈ pairs ↔
    ∃ index localBlock remoteBlock offset, transfer.hits.length ≤ index ∧ transfer.Retains index ∧
      transfer.decodeBlocks[index]? = some localBlock ∧ transfer.prefillBlocks[index]? = some remoteBlock ∧
      offset < transfer.physicalBlocksPerLogical ∧
      pair = (localBlock * transfer.physicalBlocksPerLogical + offset,
        remoteBlock * transfer.physicalBlocksPerLogical + offset)

end

/-! ### What is read -/

theorem length_fresh : transfer.hits.length + transfer.fresh.length = transfer.numBlocks := by
  rw [← length_append]
  exact transfer.length_decodeBlocks

theorem hits_lt_numBlocks : transfer.hits.length < transfer.numBlocks := by
  rw [numBlocks, lt_cdiv_iff transfer.blockSize_pos, mul_comm]
  exact transfer.hits_lt

theorem fresh_ne_nil : transfer.fresh ≠ [] := by
  have hlen := transfer.length_fresh
  have hlt := transfer.hits_lt_numBlocks
  exact ne_nil_of_length_pos (by omega)

theorem filterHeadBlocks_pos : 0 < transfer.connector.filterHeadBlocks := by
  refine Nat.div_pos ?_ transfer.blockSize_pos
  omega

theorem filterTailBlocks_pos : 0 < transfer.connector.filterTailBlocks transfer.promptLen := by
  have hsize := transfer.blockSize_pos
  unfold filterTailBlocks
  split
  · have hstart := Nat.div_mul_le_self (transfer.promptLen - 64) transfer.connector.blockSize
    exact Nat.div_pos (by omega) hsize
  · exact Nat.div_pos (by omega) hsize

/-- The filter leaves the blocks behind the cached ones alone. -/
def Unfiltered : Prop :=
  transfer.fresh.length ≤
    transfer.connector.filterHeadBlocks + transfer.connector.filterTailBlocks transfer.promptLen

/-- The local blocks: those behind the cached ones, without what the filter cuts. -/
def localBlocks : List ℕ :=
  let filterHead := transfer.connector.filterHeadBlocks
  let filterTail := transfer.connector.filterTailBlocks transfer.promptLen
  if transfer.fresh.length ≤ filterHead + filterTail then transfer.fresh
  else cut filterHead (transfer.fresh.length - filterTail) transfer.fresh

theorem getUnhashedBlockIds_decodeBlocks :
    getUnhashedBlockIdsAllGroups transfer.decodePool [transfer.decodeBlocks] = [transfer.fresh] := by
  have hhits : transfer.hits.filter (fun block ↦ transfer.decodePool.blockHash block = none ∧
      ¬ transfer.decodePool.isNull block) = [] := by
    refine filter_eq_nil_iff.2 fun block hblock hkept ↦ ?_
    exact transfer.hashed block hblock (of_decide_eq_true hkept).1
  have hfresh : transfer.fresh.filter (fun block ↦ transfer.decodePool.blockHash block = none ∧
      ¬ transfer.decodePool.isNull block) = transfer.fresh := by
    refine filter_eq_self.2 fun block hblock ↦ decide_eq_true ?_
    obtain ⟨hhash, hnull⟩ := transfer.unhashed block hblock
    exact ⟨hhash, by rw [hnull]; exact Bool.false_ne_true⟩
  rw [getUnhashedBlockIdsAllGroups, map_singleton, decodeBlocks, filter_append, hhits, hfresh, nil_append]

variable [DecidableEq ρ]

theorem filterMiddleBlocks_fresh :
    transfer.connector.filterMiddleBlocks transfer.request [transfer.fresh] = [transfer.localBlocks] := by
  have htail := transfer.filterTailBlocks_pos.ne'
  simp only [filterMiddleBlocks, map_singleton, localBlocks, cut, fromEnd]
  rw [if_neg (show ¬ transfer.connector.filterTailBlocks transfer.request.numPromptTokens = 0 from htail)]
  rfl

theorem remoteBlockIds_eq : transfer.remoteBlockIds =
    [clearMiddle transfer.headBlocks transfer.tailBlocks 0 transfer.prefillBlocks] := by
  rw [remoteBlockIds, transfer.holds.blocksOf_freeMiddleBlocks, transfer.holds.nullBlock]
  rfl

theorem postedReads_eq : transfer.postedReads =
    startLoadKv transfer.physicalBlocksPerLogical 1 [transfer.localBlocks] transfer.remoteBlockIds := by
  have hext := Nat.sub_pos_of_lt transfer.hits_lt
  have henabled := (Bool.and_eq_true_iff.1 transfer.long).1
  have hfilter : transfer.connector.checkNelssaFilter transfer.request = true := by
    simp [checkNelssaFilter, request, connector, henabled, transfer.long]
  have hlocal : transfer.connector.localBlockIds transfer.decodePool transfer.request [transfer.decodeBlocks]
      (transfer.promptLen - transfer.hits.length * transfer.prefill.blockSize) = [transfer.localBlocks] := by
    simp only [localBlockIds, if_pos hext, hfilter, if_true,
      transfer.getUnhashedBlockIds_decodeBlocks, transfer.filterMiddleBlocks_fresh]
  have hremote : transfer.remoteBlockIds ≠ [] := cons_ne_nil _ _
  have hupdate := transfer.connector.updateStateAfterAlloc_of_remotePrefill
    (show transfer.request.kvTransferParams = some _ from rfl) rfl rfl hremote rfl transfer.decodePool
    transfer.requestId [transfer.decodeBlocks]
    (transfer.promptLen - transfer.hits.length * transfer.prefill.blockSize)
  rw [postedReads, hupdate, hlocal]
  dsimp only
  rw [update_self]

/-- The remote list after the zeros were dropped, if they are. -/
def compactedBlocks : List ℕ :=
  if transfer.localBlocks.length < transfer.numBlocks then
    if transfer.numBlocks ≤ transfer.headBlocks + transfer.tailBlocks then transfer.prefillBlocks
    else cut transfer.headBlocks (transfer.numBlocks - transfer.tailBlocks) transfer.prefillBlocks
  else clearMiddle transfer.headBlocks transfer.tailBlocks 0 transfer.prefillBlocks

omit [DecidableEq ρ] in
theorem localBlocks_ne_nil : transfer.localBlocks ≠ [] := by
  have hhead := transfer.filterHeadBlocks_pos
  have hfresh := length_pos_iff.2 transfer.fresh_ne_nil
  apply ne_nil_of_length_pos
  rw [localBlocks]
  split
  · exact hfresh
  · rw [cut, length_append, length_take]
    omega

theorem postedReads_cases : transfer.postedReads =
    if transfer.localBlocks.length ≤ transfer.compactedBlocks.length then
      .ok (kernelPairs transfer.physicalBlocksPerLogical (transfer.localBlocks.zip
        (transfer.compactedBlocks.drop (transfer.compactedBlocks.length - transfer.localBlocks.length))))
    else .error (.assertionError "") := by
  rw [postedReads_eq, remoteBlockIds_eq]
  apply startLoadKv_single transfer.physicalBlocksPerLogical_pos transfer.localBlocks_ne_nil
  rw [length_clearMiddle, filter_clearMiddle transfer.holds.nonnull, transfer.length_prefillBlocks]
  rfl

/-! ### The condition -/

section

omit [DecidableEq ρ]

theorem getElem_mem_localBlocks {offset : ℕ} (hoff : offset < transfer.fresh.length) :
    transfer.fresh[offset] ∈ transfer.localBlocks ↔ transfer.Unfiltered ∨
      offset < transfer.connector.filterHeadBlocks ∨
      transfer.fresh.length - transfer.connector.filterTailBlocks transfer.promptLen ≤ offset := by
  rw [localBlocks]
  split
  · next hle => exact iff_of_true (getElem_mem hoff) (.inl hle)
  · next hgt =>
    rw [getElem_mem_cut_iff (nodup_append.1 transfer.nodup).2.1]
    exact (or_iff_right hgt).symm

theorem aligned_iff_forall : transfer.Aligned ↔ ∀ offset < transfer.fresh.length,
    (transfer.Unfiltered ∨ offset < transfer.connector.filterHeadBlocks ∨
      transfer.fresh.length - transfer.connector.filterTailBlocks transfer.promptLen ≤ offset ↔
      transfer.Retains (transfer.hits.length + offset)) := by
  have hlen := transfer.length_fresh
  have hhead := transfer.filterHeadBlocks_pos
  have htail := transfer.filterTailBlocks_pos
  unfold Aligned Unfiltered Retains
  dsimp only
  generalize transfer.connector.filterHeadBlocks = filterHead at *
  generalize transfer.connector.filterTailBlocks transfer.promptLen = filterTail at *
  generalize transfer.fresh.length = numFresh at *
  generalize transfer.hits.length = numHits at *
  generalize transfer.headBlocks = head at *
  split
  · next =>
    constructor
    · omega
    · intro hsame
      by_contra hgap
      have hfirst := hsame (max numHits head - numHits) (by omega)
      omega
  · next =>
    constructor
    · omega
    · intro hsame
      -- The first and the last block of the gap, and the blocks next to it.
      have hfirst := hsame filterHead (by omega)
      have hbefore := hsame (filterHead - 1) (by omega)
      have hlast := hsame (numFresh - filterTail - 1) (by omega)
      have hbehind := hsame (numFresh - filterTail) (by omega)
      omega

/-! ### Both directions -/

theorem getElem?_decodeBlocks {offset : ℕ} (hoff : offset < transfer.fresh.length) :
    transfer.decodeBlocks[transfer.hits.length + offset]? = some transfer.fresh[offset] := by
  rw [decodeBlocks, getElem?_append_right (Nat.le_add_right _ _), Nat.add_sub_cancel_left,
    getElem?_eq_getElem]

end

/-- If the pairs are right, then the filter leaves exactly the retained blocks. -/
theorem aligned_of_pairsByIndex (hpairs : transfer.PairsByIndex) : transfer.Aligned := by
  obtain ⟨_, hposted, hmem⟩ := hpairs
  have hpos := transfer.physicalBlocksPerLogical_pos
  rw [postedReads_cases] at hposted
  split at hposted
  · next hle =>
    cases hposted
    rw [aligned_iff_forall]
    intro offset hoff
    have hblock := transfer.getElem?_decodeBlocks hoff
    rw [← transfer.getElem_mem_localBlocks hoff]
    constructor
    · -- A block of the local list is read from somewhere, so it is a retained one.
      intro hlocal
      obtain ⟨pos, hposition, hentry⟩ := getElem_of_mem hlocal
      have hzip : pos < (transfer.localBlocks.zip (transfer.compactedBlocks.drop
          (transfer.compactedBlocks.length - transfer.localBlocks.length))).length := by
        rw [length_zip, length_drop]
        omega
      have hread := (hmem _).1 (mem_kernelPairs.2 ⟨_, getElem_mem hzip, 0, hpos, rfl⟩)
      obtain ⟨_, _, _, shift, -, hretains, hidx, -, hshift, hpair⟩ := hread
      rw [getElem_zip, hentry] at hpair
      have hsame := eq_of_mul_eq_mul_add hshift (Prod.mk.inj hpair).1
      rw [← hsame, ← hblock] at hidx
      have hlt := (List.getElem?_eq_some_iff.1 hblock).1
      rw [← (getElem?_inj hlt transfer.nodup).1 hidx.symm] at hretains
      exact hretains
    · intro hretains
      have hlen : transfer.hits.length + offset < transfer.prefillBlocks.length := by
        have hfresh := transfer.length_fresh
        rw [transfer.length_prefillBlocks]
        exact lt_of_lt_of_eq (Nat.add_lt_add_left hoff _) hfresh
      have hread := (hmem _).2 ⟨_, _, _, 0, Nat.le_add_right _ _, hretains, hblock,
        getElem?_eq_getElem hlen, hpos, rfl⟩
      obtain ⟨_, hblocks, _, hshift, hpair⟩ := mem_kernelPairs.1 hread
      have hsame := eq_of_mul_eq_mul_add hshift (Prod.mk.inj hpair).1
      rw [hsame]
      exact (of_mem_zip hblocks).1
  · cases hposted

omit [DecidableEq ρ] in
/-- Under the condition local and remote list are the same part of the two block lists. -/
theorem exists_cutFrom_of_aligned (halign : transfer.Aligned) :
    ∃ mid high, (∀ index, transfer.hits.length ≤ index ∧ transfer.Retains index ↔
        transfer.hits.length ≤ index ∧ index < mid ∨ high ≤ index) ∧
      transfer.localBlocks = cutFrom transfer.hits.length mid high transfer.decodeBlocks ∧
      cutFrom transfer.hits.length mid high transfer.prefillBlocks <:+ transfer.compactedBlocks := by
  have hlen := transfer.length_fresh
  have hprefill := transfer.length_prefillBlocks
  have hfresh : transfer.decodeBlocks.drop transfer.hits.length = transfer.fresh := drop_left' rfl
  unfold Aligned at halign
  dsimp only at halign
  split at halign
  · next hle =>
    have hall : transfer.localBlocks = transfer.fresh := by
      exact if_pos (by omega)
    refine ⟨transfer.hits.length, transfer.hits.length, fun index ↦ ?_, ?_, ?_⟩
    · unfold Retains
      omega
    · rw [hall, cutFrom_self, hfresh]
    · rw [cutFrom_self, compactedBlocks, hall]
      split
      · split
        · exact drop_suffix _ _
        · next hcut =>
          -- The cached blocks reach into the tail.
          have htail : transfer.numBlocks - transfer.tailBlocks ≤ transfer.hits.length := by omega
          refine trans ?_ (suffix_append _ _)
          rw [← Nat.add_sub_cancel' htail, ← drop_drop]
          exact drop_suffix _ _
      · have hnone : transfer.numBlocks ≤ transfer.headBlocks + transfer.tailBlocks := by omega
        rw [clearMiddle, if_pos (by rw [hprefill]; exact hnone)]
        exact drop_suffix _ _
  · next hgt =>
    obtain ⟨hhead, htail⟩ := halign
    have hcut : transfer.localBlocks = cut transfer.connector.filterHeadBlocks
        (transfer.fresh.length - transfer.tailBlocks) transfer.fresh := by
      rw [localBlocks, htail]
      exact if_neg (by omega)
    refine ⟨transfer.headBlocks, transfer.numBlocks - transfer.tailBlocks, fun index ↦ ?_, ?_, ?_⟩
    · unfold Retains
      omega
    · rw [hcut, cut, cutFrom, drop_take, hfresh, ← hfresh, drop_drop, hfresh]
      congr 2 <;> omega
    · have hshort : transfer.localBlocks.length < transfer.numBlocks := by
        rw [hcut, cut, length_append, length_take, length_drop]
        omega
      rw [compactedBlocks, if_pos hshort, if_neg (by omega), cut, cutFrom]
      refine ⟨(transfer.prefillBlocks.take transfer.headBlocks).take transfer.hits.length, ?_⟩
      rw [← append_assoc, take_append_drop]

/-- The READs pair the blocks by index exactly under the condition on sizes, prompt and cached blocks. -/
theorem pairsByIndex_iff_aligned : transfer.PairsByIndex ↔ transfer.Aligned := by
  refine ⟨transfer.aligned_of_pairsByIndex, fun haligned ↦ ?_⟩
  obtain ⟨mid, high, hretains, hlocal, hsuffix⟩ := transfer.exists_cutFrom_of_aligned haligned
  have hsame : transfer.decodeBlocks.length = transfer.prefillBlocks.length :=
    transfer.length_decodeBlocks.trans transfer.length_prefillBlocks.symm
  have hlengths : transfer.localBlocks.length =
      (cutFrom transfer.hits.length mid high transfer.prefillBlocks).length := by
    rw [hlocal, length_cutFrom, length_cutFrom, hsame]
  have hremote : transfer.compactedBlocks.drop
      (transfer.compactedBlocks.length - transfer.localBlocks.length) =
      cutFrom transfer.hits.length mid high transfer.prefillBlocks := by
    rw [hlengths]
    exact (suffix_iff_eq_drop.1 hsuffix).symm
  refine ⟨_, (transfer.postedReads_cases).trans (if_pos (hlengths.trans_le hsuffix.length_le)), ?_⟩
  intro pair
  rw [hremote, hlocal, zip_cutFrom hsame, mem_kernelPairs]
  constructor
  · rintro ⟨blocks, hblocks, offset, hoffset, rfl⟩
    obtain ⟨index, hindex, hentry⟩ := mem_cutFrom.1 hblocks
    obtain ⟨hdecode, hprefill⟩ := getElem?_zip_eq_some.1 hentry
    obtain ⟨hbehind, hkept⟩ := (hretains index).2 hindex
    exact ⟨index, _, _, offset, hbehind, hkept, hdecode, hprefill, hoffset, rfl⟩
  · rintro ⟨index, localBlock, remoteBlock, offset, hbehind, hkept, hdecode, hprefill, hoffset, rfl⟩
    have hentry : (transfer.decodeBlocks.zip transfer.prefillBlocks)[index]? =
        some (localBlock, remoteBlock) := getElem?_zip_eq_some.2 ⟨hdecode, hprefill⟩
    exact ⟨_, mem_cutFrom.2 ⟨index, (hretains index).1 ⟨hbehind, hkept⟩, hentry⟩, offset, hoffset, rfl⟩

end LongTransfer

open LongTransfer

/-! ## A prompt of ten blocks -/

def defaultSizes : NELSSAConfig := { enabled := true, promptLengthThreshold := 100 }

def longHead : NELSSAConfig := { enabled := true, firstN := 32, promptLengthThreshold := 100 }

theorem promptBlockSize_pos : 0 < 16 := Nat.succ_pos 15

def promptBase : ManagerBase ℕ :=
  (ManagerBase.init ⟨.fullAttention, 16, promptBlockSize_pos⟩ true 0 1 1 none).setBlocks 0 (range' 1 10)

theorem holdsBlocks_promptBase {pool : BlockPool} (hinit : init 16 true 16 = .ok pool) :
    promptBase.HoldsBlocks (pool.getNewBlocks 10).2 0 (range' 1 10) where
  refs := by
    obtain ⟨-, -, -, free, hrefs⟩ := init_spec hinit
    cases hinit
    obtain ⟨hblocks, htaken⟩ := hrefs.getNewBlocks (show 10 ≤ _ by decide)
    have hfree := (Except.ok.inj hblocks).symm.trans (by rfl)
    rw [hfree] at htaken
    exact ⟨_, _, htaken, by decide⟩
  nullBlock := by obtain rfl := Except.ok.inj hinit; rfl
  stored := rfl
  nodup := by decide
  nonnull := by decide
  bound := by obtain rfl := Except.ok.inj hinit; decide

theorem decodeBlocks_prompt : ∀ numHits : Fin 10, (∀ block ∈ range' 1 numHits, block ≤ numHits.val) ∧
    (∀ block ∈ range' (1 + numHits) (10 - numHits), numHits.val < block ∧ block ≠ 0) ∧
    range' 1 numHits ++ range' (1 + numHits) (10 - numHits) = range' 1 10 := by
  decide

/-- Both sides have the blocks 1 to 10, and the decode side has found the first ones in its cache. -/
def promptTransfer {pool : BlockPool} (hinit : init 16 true 16 = .ok pool)
    (nelssaConfig : NELSSAConfig) (hlong : nelssaConfig.nelssaCheck 160 = true) (numHits : Fin 10) :
    LongTransfer ℕ where
  nelssaConfig := nelssaConfig
  promptLen := 160
  long := hlong
  physicalBlocksPerLogical := 1
  physicalBlocksPerLogical_pos := Nat.one_pos
  requestId := 0
  prefill := promptBase
  blockSize_pos := promptBlockSize_pos
  prefillPool := (pool.getNewBlocks 10).2
  prefillBlocks := range' 1 10
  holds := holdsBlocks_promptBase hinit
  length_prefillBlocks := by decide
  decodePool := { pool with
    blockHash := fun block ↦ if block ≤ numHits then some [1] else none
    isNull := fun block ↦ block = 0 }
  hits := range' 1 numHits
  fresh := range' (1 + numHits) (10 - numHits)
  hashed := fun block hblock hnone ↦ by
    have hsome : (if block ≤ numHits.val then some [1] else none : Option (List UInt8)) = some [1] :=
      if_pos ((decodeBlocks_prompt numHits).1 block hblock)
    cases hsome.symm.trans hnone
  unhashed := fun block hblock ↦ by
    obtain ⟨hlt, hne⟩ := (decodeBlocks_prompt numHits).2.1 block hblock
    exact ⟨if_neg (Nat.not_le.2 hlt), decide_eq_false hne⟩
  nodup := by
    rw [(decodeBlocks_prompt numHits).2.2]
    exact nodup_range'
  length_decodeBlocks := by
    rw [(decodeBlocks_prompt numHits).2.2]
    decide
  hits_lt := by
    rw [length_range']
    exact Nat.mul_lt_mul_of_pos_right numHits.isLt promptBlockSize_pos

/-- Without cached blocks and with the default sizes the first block and the last four are read. -/
theorem pairsByIndex_uncached : ∃ pool, ∃ hinit : init 16 true 16 = .ok pool,
    (promptTransfer hinit defaultSizes rfl 0).PairsByIndex := by
  refine ⟨_, rfl, (pairsByIndex_iff_aligned _).2 ?_⟩
  unfold Aligned
  decide

/-- With two cached blocks the third block of the decode side is read from the first one of the prefill
side. With a head of two blocks the first one is read from the second one. -/
theorem not_pairsByIndex_prompt : ∃ pool, ∃ hinit : init 16 true 16 = .ok pool,
    ((promptTransfer hinit defaultSizes rfl 2).postedReads = .ok [(3, 1), (7, 7), (8, 8), (9, 9), (10, 10)] ∧
      ¬ (promptTransfer hinit defaultSizes rfl 2).PairsByIndex) ∧
    (promptTransfer hinit longHead rfl 0).postedReads = .ok [(1, 2), (7, 7), (8, 8), (9, 9), (10, 10)] ∧
      ¬ (promptTransfer hinit longHead rfl 0).PairsByIndex := by
  refine ⟨_, rfl, ⟨by rfl, fun hpairs ↦ ?_⟩, by rfl, fun hpairs ↦ ?_⟩
  all_goals
    have haligned := aligned_of_pairsByIndex _ hpairs
    unfold Aligned at haligned
    exact absurd haligned (by decide)

end Nelssa.Nixl
