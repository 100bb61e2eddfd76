import Nelssa.Foundation.Runs
import Nelssa.Nixl.TransferPairs

/-!
# Receive orders of a decode engine

The scheduler of a decode engine plans one receive order for each request whose prompt another engine has
computed: when the request gets its blocks, or, with an empty block list, when it ends before that. The
next metadata object carries the orders to the worker. The worker reads the blocks of an order at once if
it knows the remote engine, and else after a handshake in the background. An order without local blocks
stands for a full prefix-cache hit or an aborted request; the worker should only notify the other engine.

The worker compares the lengths of the first groups before it looks at anything else, so an order without
local groups raises. An order whose groups fit on both sides is served.
-/

namespace Nelssa.Nixl

open Nelssa.Core Foundation.Runs Worker.BlockTable Function List Option

/-! ## Orders that fit -/

/-- The remote groups after the zeros are dropped. -/
def keptRemote (localBlockIds remoteBlockIds : List (List ℕ)) : List (List ℕ) :=
  if (localBlockIds.headD []).length < (remoteBlockIds.headD []).length then
    remoteBlockIds.map fun group ↦ group.filter fun block ↦ block ≠ 0
  else remoteBlockIds

/-- A group of local blocks and the remote group it is read from. There are enough remote blocks, and a
group without local blocks has no remote ones. -/
def GroupFits (groups : List ℕ × List ℕ) : Prop :=
  groups.1.length ≤ groups.2.length ∧ (groups.1 = [] → groups.2 = [])

instance decidableGroupFits (groups : List ℕ × List ℕ) : Decidable (GroupFits groups) := by
  unfold GroupFits
  infer_instance

/-- Both sides have one list for each group of the configuration, and the lists of each group fit. -/
structure Servable (numGroups : ℕ) (localBlockIds remoteBlockIds : List (List ℕ)) : Prop where
  numGroups_pos : 0 < numGroups
  length_local : localBlockIds.length = numGroups
  length_remote : remoteBlockIds.length = numGroups
  fits : ∀ groups ∈ localBlockIds.zip (keptRemote localBlockIds remoteBlockIds), GroupFits groups

theorem length_keptRemote (localBlockIds remoteBlockIds : List (List ℕ)) :
    (keptRemote localBlockIds remoteBlockIds).length = remoteBlockIds.length := by
  unfold keptRemote
  split
  · exact length_map _
  · rfl

variable {remoteBlockIds : List (List ℕ)} {localBlockIds : List (List ℕ)}

theorem compactRemote_eq (hlocal : localBlockIds ≠ []) (hremote : remoteBlockIds ≠ []) :
    compactRemote localBlockIds remoteBlockIds = .ok (keptRemote localBlockIds remoteBlockIds) := by
  cases localBlockIds with
  | nil => exact absurd rfl hlocal
  | cons localGroup localRest =>
    cases remoteBlockIds with
    | nil => exact absurd rfl hremote
    | cons remoteGroup remoteRest =>
      exact (apply_ite Except.ok _ _ _).symm

variable {groups : List ℕ × List ℕ}

theorem GroupFits.exists_trimRemote (hfits : GroupFits groups) :
    ∃ trimmed, trimRemote groups = .ok trimmed ∧ trimmed.length = groups.1.length := by
  unfold trimRemote
  rw [if_pos hfits.1]
  refine ⟨_, rfl, ?_⟩
  split
  · next hlt =>
    -- a group that is cut has local blocks, since a group without them has no remote blocks
    have hpos : groups.1.length ≠ 0 := by
      intro hzero
      rw [hfits.2 (length_eq_zero_iff.1 hzero)] at hlt
      exact Nat.not_lt_zero _ hlt
    rw [fromEnd, if_neg hpos, length_drop]
    omega
  · next hge => exact le_antisymm (not_lt.1 hge) hfits.1

theorem exists_mapM_trimRemote {groups : List (List ℕ × List ℕ)} (hfits : ∀ pair ∈ groups, GroupFits pair) :
    ∃ trimmed, groups.mapM trimRemote = .ok trimmed ∧
      (groups.map Prod.fst).flatten.length = trimmed.flatten.length := by
  induction groups with
  | nil => exact ⟨[], rfl, rfl⟩
  | cons pair rest ih =>
    obtain ⟨blocks, hblocks, hlen⟩ := (hfits pair mem_cons_self).exists_trimRemote
    obtain ⟨others, hothers, hrest⟩ := ih fun other hother ↦ hfits other (mem_cons_of_mem _ hother)
    refine ⟨blocks :: others, ?_, ?_⟩
    · rw [mapM_cons, hblocks, hothers]
      rfl
    · rw [map_cons, flatten_cons, flatten_cons, length_append, length_append, hrest, hlen]

theorem exists_readBlocks {numGroups : ℕ} (hlocal : localBlockIds.length = numGroups)
    (hremote : remoteBlockIds.length = numGroups)
    (hfits : ∀ pair ∈ localBlockIds.zip remoteBlockIds, GroupFits pair) :
    ∃ pairs, readBlocks numGroups localBlockIds remoteBlockIds = .ok pairs := by
  unfold readBlocks
  split
  · exact ⟨_, rfl⟩
  · obtain ⟨_, htrimmed, hlen⟩ := exists_mapM_trimRemote hfits
    rw [map_fst_zip (by rw [hlocal, hremote])] at hlen
    rw [if_pos ⟨hremote.trans hlocal.symm, hlocal⟩, htrimmed]
    exact ⟨_, if_pos hlen⟩

theorem GroupFits.mapToKernelBlocks (hfits : GroupFits groups) (factor : ℕ) :
    GroupFits (mapToKernelBlocks groups.1 factor, mapToKernelBlocks groups.2 factor) := by
  constructor
  · simp only [length_mapToKernelBlocks]
    exact Nat.mul_le_mul_left factor hfits.1
  · intro hnil
    have hlen : factor * groups.1.length = 0 := by
      rw [← length_mapToKernelBlocks]
      exact length_eq_zero_iff.2 hnil
    apply length_eq_zero_iff.1
    simp only [length_mapToKernelBlocks]
    rcases mul_eq_zero.1 hlen with hzero | hzero
    · rw [hzero, zero_mul]
    · rw [hfits.2 (length_eq_zero_iff.1 hzero), length_nil, mul_zero]

namespace Servable

variable {numGroups : ℕ} (hservable : Servable numGroups localBlockIds remoteBlockIds)
include hservable

theorem compactRemote :
    compactRemote localBlockIds remoteBlockIds = .ok (keptRemote localBlockIds remoteBlockIds) := by
  have hpos := hservable.numGroups_pos
  apply compactRemote_eq
  · intro hnil
    rw [← hservable.length_local, hnil] at hpos
    exact Nat.not_lt_zero _ hpos
  · intro hnil
    rw [← hservable.length_remote, hnil] at hpos
    exact Nat.not_lt_zero _ hpos

theorem exists_readBlocks (factor : ℕ) :
    ∃ pairs, readBlocks numGroups (logicalToKernelBlockIds factor localBlockIds)
      (logicalToKernelBlockIds factor (keptRemote localBlockIds remoteBlockIds)) = .ok pairs := by
  apply Nixl.exists_readBlocks
  · rw [logicalToKernelBlockIds, length_map, hservable.length_local]
  · rw [logicalToKernelBlockIds, length_map, length_keptRemote, hservable.length_remote]
  · intro pair hpair
    rw [logicalToKernelBlockIds, logicalToKernelBlockIds, zip_map] at hpair
    obtain ⟨groups, hgroups, rfl⟩ := mem_map.1 hpair
    exact (hservable.fits groups hgroups).mapToKernelBlocks factor

end Servable

/-! ## Planned transfers -/

/-- The parameters name the same prefill side. -/
def SameRemote (req next : TransferRequest) : Prop :=
  ∀ params, req.kvTransferParams = some params →
    ∃ others, next.kvTransferParams = some others ∧ others.remoteBlockIds = params.remoteBlockIds ∧
      others.hasRemote = params.hasRemote

theorem SameRemote.refl (req : TransferRequest) : SameRemote req req :=
  fun params hparams ↦ ⟨params, hparams, rfl, rfl⟩

variable {ρ : Type*} {blocks : List (List ℕ)} {numExternalTokens : ℕ}

theorem NixlConnectorScheduler.updateStateAfterAlloc_cases [DecidableEq ρ]
    {connector next : NixlConnectorScheduler ρ} {pool : BlockPool} {requestId : ρ}
    {req triggered : TransferRequest}
    (halloc : connector.updateStateAfterAlloc pool requestId req blocks numExternalTokens =
      .ok (triggered, next)) :
    SameRemote req triggered ∧
      (next.reqsNeedRecv = connector.reqsNeedRecv ∨
        ∃ params, req.kvTransferParams = some params ∧
          (connector.useHostBuffer && params.doRemoteDecode) = false ∧ params.doRemotePrefill = true ∧
          params.remoteBlockIds ≠ [] ∧ params.hasRemote = true ∧
          next.reqsNeedRecv = update connector.reqsNeedRecv requestId
            (some (connector.localBlockIds pool req blocks numExternalTokens))) := by
  unfold updateStateAfterAlloc at halloc
  split at halloc
  · cases halloc
    exact ⟨.refl req, .inl rfl⟩
  · next params hparams =>
    have htriggered : SameRemote req
        { req with kvTransferParams := some { params with doRemotePrefill := false } } := by
      intro others hothers
      obtain rfl := some.inj (hparams.symm.trans hothers)
      exact ⟨_, rfl, rfl, rfl⟩
    have hbatched : (if params.doRemoteDecode = true then
        { connector with reqsInBatch := update connector.reqsInBatch requestId true }
        else connector).reqsNeedRecv = connector.reqsNeedRecv := by
      split <;> rfl
    dsimp only at halloc
    split at halloc
    · cases halloc
      exact ⟨.refl req, .inl hbatched⟩
    · next hhost =>
      split at halloc
      · next hprefill =>
        split at halloc
        · next hremote =>
          split at halloc
          · next hnamed =>
            cases halloc
            refine ⟨htriggered, .inr ⟨params, hparams, ?_, hprefill, hremote, hnamed, rfl⟩⟩
            rw [← Bool.not_eq_true, Bool.and_eq_true]
            exact hhost
          · cases halloc
            exact ⟨htriggered, .inl hbatched⟩
        · split at halloc
          · cases halloc
            exact ⟨htriggered, .inl hbatched⟩
          · cases halloc
      · cases halloc
        exact ⟨.refl req, .inl hbatched⟩

/-! ## The engine -/

/-- The entries of `kv_transfer_params` that name the prefill side: its engine, and whether it gives a
staging slot with a number of centroids. -/
structure PrefillSide (ε : Type*) where
  engineId : ε
  staged : Bool

/-- An entry of `reqs_to_recv`. -/
structure ReceiveOrder (ρ : Type*) where
  requestId : ρ
  localBlockIds : List (List ℕ)
  remoteBlockIds : List (List ℕ)

/-- What the prefill engine gets for an order: a READ with its notification, or a notification alone. -/
inductive Answer where
  | read (pairs : List (ℕ × ℕ))
  | notification
  deriving DecidableEq

/-- The connectors of the scheduler and of the worker of one engine. `needRecv` lists the keys of
`reqs_need_recv` in their order, and `reqsReceived` the requests of all metadata objects so far.
`raised` is the exception that has ended `start_load_kv`. -/
structure ReceivingEngine (ρ ε : Type*) where
  connector : NixlConnectorScheduler ρ
  requests : ρ → TransferRequest
  prefillSide : ρ → PrefillSide ε
  numGroups : ℕ
  physicalBlocksPerLogical : ℕ
  clusterTransferEnabled : Bool
  finished : ρ → Bool := fun _ ↦ false
  needRecv : List ρ := []
  reqsNotProcessed : List ρ := []
  reqsNeedSend : List ρ := []
  remoteAgents : ε → Bool := fun _ ↦ false
  metaRemote : ε → Bool := fun _ ↦ false
  handshakes : List (ReceiveOrder ρ) := []
  readyRequests : List (ReceiveOrder ρ) := []
  reqsToProcess : ρ → Bool := fun _ ↦ false
  reqsToSend : ρ → Bool := fun _ ↦ false
  reqsReceived : List ρ := []
  answers : ρ → Option Answer := fun _ ↦ none
  metaReads : List ρ := []
  raised : Option Exn := none

variable {orders : List (ReceiveOrder ρ)} {order : ReceiveOrder ρ} {ε : Type*}

namespace ReceivingEngine

variable [DecidableEq ρ] (engine : ReceivingEngine ρ ε)

/-! ### The scheduler -/

/-- A key of a dict keeps its place. -/
def addKey (keys : List ρ) (requestId : ρ) : List ρ :=
  if requestId ∈ keys then keys else keys ++ [requestId]

/-- The request has got its blocks. -/
def updateStateAfterAlloc (pool : BlockPool) (requestId : ρ) (blocks : List (List ℕ))
    (numExternalTokens : ℕ) : ReceivingEngine ρ ε :=
  match engine.connector.updateStateAfterAlloc pool requestId (engine.requests requestId) blocks
      numExternalTokens with
  | .error _ => engine
  | .ok (req, connector) =>
    { engine with
      connector
      requests := update engine.requests requestId req
      needRecv := if (connector.reqsNeedRecv requestId).isSome then addKey engine.needRecv requestId
        else engine.needRecv }

/-- The request has ended. If its transfer has not been triggered, an order without blocks is planned. -/
def requestFinished (requestId : ρ) (lengthCapped holdsBlocks : Bool) : ReceivingEngine ρ ε :=
  let req := engine.requests requestId
  match req.kvTransferParams with
  | none => engine
  | some params =>
    if params.doRemotePrefill then
      { engine with
        connector := { engine.connector with
          reqsNeedRecv := update engine.connector.reqsNeedRecv requestId (some []) }
        requests := update engine.requests requestId
          { req with kvTransferParams := some { params with doRemotePrefill := false } }
        needRecv := addKey engine.needRecv requestId }
    else if params.doRemoteDecode then
      if lengthCapped then
        if holdsBlocks then { engine with reqsNeedSend := addKey engine.reqsNeedSend requestId } else engine
      else
        { engine with
          connector := { engine.connector with
            reqsNeedSave := update engine.connector.reqsNeedSave requestId false }
          reqsNotProcessed := addKey engine.reqsNotProcessed requestId }
    else engine

/-- The entry of `reqs_to_recv`, or none if the parameters do not name the prefill side. -/
def receiveOrder (requestId : ρ) : Option (ReceiveOrder ρ) :=
  match engine.connector.reqsNeedRecv requestId, (engine.requests requestId).kvTransferParams with
  | some localBlockIds, some params =>
    if params.hasRemote then some ⟨requestId, localBlockIds, params.remoteBlockIds⟩ else none
  | _, _ => none

/-! ### The worker -/

section

variable (order : ReceiveOrder ρ)

/-- Post the READ of the clustering metadata of a request that has a staging slot. -/
def startClusterMetadataRead : ReceivingEngine ρ ε × Option Exn :=
  if (engine.prefillSide order.requestId).staged then
    if engine.metaRemote (engine.prefillSide order.requestId).engineId then
      ({ engine with metaReads := engine.metaReads ++ [order.requestId] }, none)
    else (engine, some (.typeError "cannot unpack non-iterable NoneType object"))
  else (engine, none)

/-- `_read_blocks_for_req`, and the READ of the clustering metadata. -/
def readOrder : ReceivingEngine ρ ε × Option Exn :=
  match readBlocks engine.numGroups
      (logicalToKernelBlockIds engine.physicalBlocksPerLogical order.localBlockIds)
      (logicalToKernelBlockIds engine.physicalBlocksPerLogical order.remoteBlockIds) with
  | .error exn => (engine, some exn)
  | .ok pairs =>
    let answer := if order.localBlockIds = [] then .notification else .read pairs
    let answered := { engine with answers := update engine.answers order.requestId (some answer) }
    if engine.clusterTransferEnabled then answered.startClusterMetadataRead order else (answered, none)

/-- The first loop of `start_load_kv`. -/
def loadOrder : ReceivingEngine ρ ε × Option Exn :=
  match compactRemote order.localBlockIds order.remoteBlockIds with
  | .error exn => (engine, some exn)
  | .ok remoteBlockIds =>
    if engine.remoteAgents (engine.prefillSide order.requestId).engineId then
      engine.readOrder { order with remoteBlockIds }
    else ({ engine with handshakes := engine.handshakes ++ [{ order with remoteBlockIds }] }, none)

/-- The second loop of `start_load_kv`, which empties the queue of requests with a finished handshake. -/
def readReady : ReceivingEngine ρ ε × Option Exn :=
  { engine with readyRequests := engine.readyRequests.tail }.readOrder order

end

/-- Do something for each order until an exception is raised. -/
def forEachOrder (body : ReceivingEngine ρ ε → ReceiveOrder ρ → ReceivingEngine ρ ε × Option Exn) :
    ReceivingEngine ρ ε → List (ReceiveOrder ρ) → ReceivingEngine ρ ε × Option Exn
  | engine, [] => (engine, none)
  | engine, order :: rest => match body engine order with
    | (next, some exn) => (next, some exn)
    | (next, none) => forEachOrder body next rest

/-- The bookkeeping of the requests that this engine has computed for others. -/
def trackSends (notProcessed needSend : List ρ) : ReceivingEngine ρ ε × Option Exn :=
  let reqsToProcess := fun requestId ↦ engine.reqsToProcess requestId && requestId ∉ notProcessed
  if ∃ requestId ∈ notProcessed, engine.reqsToSend requestId then (engine, some (.assertionError ""))
  else
    ({ engine with
      reqsToProcess
      reqsToSend := fun requestId ↦
        engine.reqsToSend requestId || (requestId ∈ needSend && reqsToProcess requestId) }, none)

def startLoadKv (orders : List (ReceiveOrder ρ)) (inBatch : ρ → Bool) (notProcessed needSend : List ρ) :
    ReceivingEngine ρ ε × Option Exn :=
  match forEachOrder loadOrder engine orders with
  | (loaded, some exn) => (loaded, some exn)
  | (loaded, none) => match forEachOrder readReady loaded loaded.readyRequests with
    | (served, some exn) => (served, some exn)
    | (served, none) =>
      { served with
        reqsToProcess := fun requestId ↦ served.reqsToProcess requestId || inBatch requestId }.trackSends
          notProcessed needSend

/-- The scheduler after `build_connector_meta`. -/
def handedOver : ReceivingEngine ρ ε :=
  { engine with
    connector := { engine.connector with
      reqsNeedRecv := fun _ ↦ none
      reqsInBatch := fun _ ↦ false }
    needRecv := []
    reqsNotProcessed := []
    reqsNeedSend := []
    reqsReceived := engine.reqsReceived ++ engine.needRecv }

/-- `build_connector_meta` with the `start_load_kv` of the worker. If an order cannot be built, there is no
metadata object. -/
def loadStep : ReceivingEngine ρ ε :=
  if engine.needRecv.all fun requestId ↦ (engine.receiveOrder requestId).isSome then
    let result := engine.handedOver.startLoadKv (engine.needRecv.filterMap engine.receiveOrder)
      engine.connector.reqsInBatch engine.reqsNotProcessed engine.reqsNeedSend
    { result.1 with raised := result.2 }
  else engine

/-- The handshake with an engine has succeeded; `geometry` says that it has registered staging buffers. -/
def handshakeDone [DecidableEq ε] (engineId : ε) (geometry : Bool) : ReceivingEngine ρ ε :=
  { engine with
    remoteAgents := update engine.remoteAgents engineId true
    metaRemote := if engine.clusterTransferEnabled && geometry then
      update engine.metaRemote engineId true else engine.metaRemote
    handshakes := engine.handshakes.filter fun order ↦
      (engine.prefillSide order.requestId).engineId ≠ engineId
    readyRequests := engine.readyRequests ++ engine.handshakes.filter fun order ↦
      (engine.prefillSide order.requestId).engineId = engineId }

/-- The worker can post the READ of the order. -/
def Readable (order : ReceiveOrder ρ) : Prop :=
  ∃ pairs, readBlocks engine.numGroups
    (logicalToKernelBlockIds engine.physicalBlocksPerLogical order.localBlockIds)
    (logicalToKernelBlockIds engine.physicalBlocksPerLogical order.remoteBlockIds) = .ok pairs

/-- The staging buffers of a known engine are known if it names a slot for some request. -/
def GeometryKnown : Prop :=
  engine.clusterTransferEnabled = true → ∀ requestId,
    engine.remoteAgents (engine.prefillSide requestId).engineId = true →
    (engine.prefillSide requestId).staged = true →
    engine.metaRemote (engine.prefillSide requestId).engineId = true

/-- All orders that are planned, queued or in `pending` can be served, and those of the earlier metadata
objects have been served unless they are queued or in `pending`. -/
structure Serving (pending : List (ReceiveOrder ρ)) : Prop where
  planned : ∀ requestId blocks, engine.connector.reqsNeedRecv requestId = some blocks →
    ∃ params, (engine.requests requestId).kvTransferParams = some params ∧ params.hasRemote = true ∧
      Servable engine.numGroups blocks params.remoteBlockIds
  keys : ∀ requestId ∈ engine.needRecv, (engine.connector.reqsNeedRecv requestId).isSome = true
  queued : ∀ order ∈ engine.handshakes ++ engine.readyRequests, engine.Readable order
  waiting : ∀ order ∈ engine.handshakes,
    engine.remoteAgents (engine.prefillSide order.requestId).engineId = false
  known : ∀ order ∈ engine.readyRequests,
    engine.remoteAgents (engine.prefillSide order.requestId).engineId = true
  geometry : engine.GeometryKnown
  covered : ∀ requestId ∈ engine.reqsReceived, (engine.answers requestId).isSome = true ∨
    ∃ order ∈ engine.handshakes ++ engine.readyRequests ++ pending, order.requestId = requestId

/-- Only the orders and their answers differ. -/
def SameButOrders (next : ReceivingEngine ρ ε) : Prop :=
  ∃ answers metaReads handshakes readyRequests,
    next = { engine with answers, metaReads, handshakes, readyRequests }

variable {engine} {pending : List (ReceiveOrder ρ)}

omit [DecidableEq ρ] in
theorem SameButOrders.trans {next last : ReceivingEngine ρ ε} (hnext : engine.SameButOrders next)
    (hlast : next.SameButOrders last) : engine.SameButOrders last := by
  obtain ⟨_, _, _, _, rfl⟩ := hnext
  obtain ⟨answers, metaReads, handshakes, readyRequests, rfl⟩ := hlast
  exact ⟨answers, metaReads, handshakes, readyRequests, rfl⟩

theorem readOrder_eq (hreadable : engine.Readable order) (hgeometry : engine.clusterTransferEnabled = true →
      (engine.prefillSide order.requestId).staged = true →
      engine.metaRemote (engine.prefillSide order.requestId).engineId = true) :
    ∃ answer metaReads, engine.readOrder order =
      ({ engine with
        answers := update engine.answers order.requestId (some answer)
        metaReads }, none) := by
  obtain ⟨_, hpairs⟩ := hreadable
  unfold readOrder startClusterMetadataRead
  rw [hpairs]
  dsimp only
  split
  · next henabled =>
    split
    · next hstaged =>
      rw [if_pos (hgeometry henabled hstaged)]
      exact ⟨_, _, rfl⟩
    · exact ⟨_, engine.metaReads, rfl⟩
  · exact ⟨_, engine.metaReads, rfl⟩

section

variable (hserving : engine.Serving (order :: pending))
include hserving

theorem Serving.readOrder (hreadable : engine.Readable order)
    (hknown : engine.remoteAgents (engine.prefillSide order.requestId).engineId = true) :
    ∃ next, engine.readOrder order = (next, none) ∧ next.Serving pending ∧ engine.SameButOrders next ∧
      next.readyRequests = engine.readyRequests := by
  obtain ⟨_, _, hread⟩ := readOrder_eq hreadable fun henabled ↦
    hserving.geometry henabled _ hknown
  refine ⟨_, hread, ?_, ⟨_, _, engine.handshakes, engine.readyRequests, rfl⟩, rfl⟩
  refine { hserving with covered := ?_ }
  intro requestId hrecv
  by_cases hsame : requestId = order.requestId
  · left
    simp [hsame]
  · simp only [update_of_ne hsame]
    apply (hserving.covered requestId hrecv).imp_right
    rintro ⟨other, hother, hid⟩
    refine ⟨other, ?_, hid⟩
    rcases mem_append.1 hother with hqueued | hpending
    · exact mem_append_left _ hqueued
    · rcases mem_cons.1 hpending with rfl | hrest
      · exact absurd hid.symm hsame
      · exact mem_append_right _ hrest

theorem Serving.loadOrder (hservable : Servable engine.numGroups order.localBlockIds order.remoteBlockIds) :
    ∃ next, engine.loadOrder order = (next, none) ∧ next.Serving pending ∧ engine.SameButOrders next := by
  let compacted : ReceiveOrder ρ :=
    { order with remoteBlockIds := keptRemote order.localBlockIds order.remoteBlockIds }
  have hreadable : engine.Readable compacted := hservable.exists_readBlocks _
  -- the order is only known by its request, so the compacted order stands for it
  have hcompacted : engine.Serving (compacted :: pending) := by
    refine { hserving with covered := fun requestId hrecv ↦ ?_ }
    apply (hserving.covered requestId hrecv).imp_right
    rintro ⟨other, hother, hid⟩
    rcases mem_append.1 hother with hqueued | hpending
    · exact ⟨other, mem_append_left _ hqueued, hid⟩
    · rcases mem_cons.1 hpending with rfl | hrest
      · exact ⟨compacted, mem_append_right _ mem_cons_self, hid⟩
      · exact ⟨other, mem_append_right _ (mem_cons_of_mem _ hrest), hid⟩
  unfold ReceivingEngine.loadOrder
  rw [hservable.compactRemote]
  dsimp only
  by_cases hknown : engine.remoteAgents (engine.prefillSide order.requestId).engineId = true
  · rw [if_pos hknown]
    obtain ⟨next, hread, hnext, hsame, -⟩ := hcompacted.readOrder hreadable hknown
    exact ⟨next, hread, hnext, hsame⟩
  · rw [if_neg hknown]
    refine ⟨_, rfl, ?_, ⟨engine.answers, engine.metaReads, _, engine.readyRequests, rfl⟩⟩
    refine { hcompacted with queued := ?_, waiting := ?_, covered := ?_ }
    · intro other hother
      rcases mem_append.1 hother with hwaits | hready
      · rcases mem_append.1 hwaits with hbefore | hnew
        · exact hcompacted.queued other (mem_append_left _ hbefore)
        · rw [mem_singleton.1 hnew]
          exact hreadable
      · exact hcompacted.queued other (mem_append_right _ hready)
    · intro other hother
      rcases mem_append.1 hother with hbefore | hnew
      · exact hcompacted.waiting other hbefore
      · rw [mem_singleton.1 hnew]
        exact Bool.eq_false_iff.2 hknown
    · intro requestId hrecv
      apply (hcompacted.covered requestId hrecv).imp_right
      rintro ⟨other, hother, hid⟩
      refine ⟨other, ?_, hid⟩
      simp only [mem_append, mem_cons, not_mem_nil, or_false] at hother ⊢
      tauto

end

omit [DecidableEq ρ] in
/-- The invariant rule for a loop over orders in which no order raises. -/
theorem forEachOrder_eq (body : ReceivingEngine ρ ε → ReceiveOrder ρ → ReceivingEngine ρ ε × Option Exn)
    (inv : ReceivingEngine ρ ε → List (ReceiveOrder ρ) → Prop)
    (hbody : ∀ engine order rest, inv engine (order :: rest) →
      ∃ next, body engine order = (next, none) ∧ inv next rest)
    (engine : ReceivingEngine ρ ε) (orders : List (ReceiveOrder ρ)) (hstart : inv engine orders) :
    ∃ last, forEachOrder body engine orders = (last, none) ∧ inv last [] := by
  induction orders generalizing engine with
  | nil => exact ⟨engine, rfl, hstart⟩
  | cons order rest ih =>
    obtain ⟨next, hnext, hinv⟩ := hbody engine order rest hstart
    obtain ⟨last, hlast, hend⟩ := ih next hinv
    refine ⟨last, ?_, hend⟩
    rw [forEachOrder, hnext]
    exact hlast

theorem Serving.readReady {rest : List (ReceiveOrder ρ)} (hserving : engine.Serving [])
    (hqueue : engine.readyRequests = order :: rest) :
    ∃ next, engine.readReady order = (next, none) ∧ next.Serving [] ∧ engine.SameButOrders next ∧
      next.readyRequests = rest := by
  have horder : order ∈ engine.readyRequests := by
    rw [hqueue]
    exact mem_cons_self
  have hpopped : ({ engine with readyRequests := rest } : ReceivingEngine ρ ε).Serving [order] := by
    refine { hserving with queued := ?_, known := ?_, covered := ?_ }
    · intro other hother
      apply hserving.queued other
      rw [hqueue]
      rcases mem_append.1 hother with hwaits | hrest
      · exact mem_append_left _ hwaits
      · exact mem_append_right _ (mem_cons_of_mem _ hrest)
    · intro other hother
      apply hserving.known other
      rw [hqueue]
      exact mem_cons_of_mem _ hother
    · intro requestId hrecv
      apply (hserving.covered requestId hrecv).imp_right
      rintro ⟨other, hother, hid⟩
      refine ⟨other, ?_, hid⟩
      rw [hqueue] at hother
      simp only [mem_append, mem_cons, not_mem_nil, or_false] at hother ⊢
      tauto
  obtain ⟨next, hnext, hserves, hsame, hready⟩ := hpopped.readOrder
    (hserving.queued order (mem_append_right _ horder)) (hserving.known order horder)
  refine ⟨next, ?_, hserves, ?_, hready⟩
  · rw [ReceivingEngine.readReady, hqueue]
    exact hnext
  · exact .trans ⟨engine.answers, engine.metaReads, engine.handshakes, rest, rfl⟩ hsame

theorem Serving.loadOrders (hserving : engine.Serving orders)
    (hservable : ∀ order ∈ orders, Servable engine.numGroups order.localBlockIds order.remoteBlockIds) :
    ∃ loaded served, forEachOrder ReceivingEngine.loadOrder engine orders = (loaded, none) ∧
      forEachOrder ReceivingEngine.readReady loaded loaded.readyRequests = (served, none) ∧
      served.Serving [] ∧ engine.SameButOrders served ∧ served.readyRequests = [] := by
  obtain ⟨loaded, hloaded, hserves, hsame, -⟩ := forEachOrder_eq ReceivingEngine.loadOrder
    (fun current rest ↦ current.Serving rest ∧ engine.SameButOrders current ∧
      ∀ order ∈ rest, Servable _ order.localBlockIds order.remoteBlockIds)
    (by
      rintro current order rest ⟨hcur, hsame, hrest⟩
      have hgroups : current.numGroups = engine.numGroups := by
        obtain ⟨_, _, _, _, rfl⟩ := hsame
        rfl
      obtain ⟨next, hnext, hserves, hstep⟩ := hcur.loadOrder (hgroups ▸ hrest order mem_cons_self)
      exact ⟨next, hnext, hserves, hsame.trans hstep,
        fun other hother ↦ hrest other (mem_cons_of_mem _ hother)⟩)
    engine orders ⟨hserving, ⟨_, _, _, _, rfl⟩, hservable⟩
  obtain ⟨served, hserved, hend, hsameEnd, hempty⟩ := forEachOrder_eq ReceivingEngine.readReady
    (fun current rest ↦ current.Serving [] ∧ engine.SameButOrders current ∧ current.readyRequests = rest)
    (by
      rintro current order rest ⟨hcur, hsame, hqueue⟩
      obtain ⟨next, hnext, hserves, hstep, hready⟩ := hcur.readReady hqueue
      exact ⟨next, hnext, hserves, hsame.trans hstep, hready⟩)
    loaded _ ⟨hserves, hsame, rfl⟩
  exact ⟨loaded, served, hloaded, hserved, hend, hsameEnd, hempty⟩

end ReceivingEngine

/-- What happens to an engine. -/
inductive ReceiveEvent (ρ ε : Type*) where
  | alloc (pool : BlockPool) (requestId : ρ) (blocks : List (List ℕ)) (numExternalTokens : ℕ)
  | finish (requestId : ρ) (lengthCapped holdsBlocks : Bool)
  | load
  | handshake (engineId : ε) (geometry : Bool)

namespace ReceivingEngine

variable [DecidableEq ρ] (engine : ReceivingEngine ρ ε) {requestId : ρ}

/-! ### Events that fit -/

/-- A transfer is planned only if its groups fit, no request ends before its transfer is triggered, and an
engine that names staging slots has registered its staging buffers. -/
def Fits : ReceiveEvent ρ ε → Prop
  | .alloc pool requestId blocks numExternalTokens =>
    ∀ params, (engine.requests requestId).kvTransferParams = some params →
      (engine.connector.useHostBuffer && params.doRemoteDecode) = false →
      params.doRemotePrefill = true → params.remoteBlockIds ≠ [] → params.hasRemote = true →
      Servable engine.numGroups
        (engine.connector.localBlockIds pool (engine.requests requestId) blocks numExternalTokens)
        params.remoteBlockIds
  | .finish requestId _ _ =>
    ∀ params, (engine.requests requestId).kvTransferParams = some params → params.doRemotePrefill = false
  | .load => True
  | .handshake engineId geometry =>
    engine.clusterTransferEnabled = true →
      (∃ requestId, (engine.prefillSide requestId).engineId = engineId ∧
        (engine.prefillSide requestId).staged = true) →
      geometry = true

/-- The requests whose blocks wait to be read have ended with them. -/
structure SendsApart : Prop where
  toSend : ∀ requestId, engine.reqsToSend requestId = true → engine.finished requestId = true
  needSend : ∀ requestId ∈ engine.reqsNeedSend, engine.finished requestId = true
  notProcessed : ∀ requestId ∈ engine.reqsNotProcessed,
    engine.finished requestId = true ∧ engine.reqsToSend requestId = false

/-- The invariant of a run. -/
structure Sound : Prop where
  quiet : engine.raised = none
  serving : engine.Serving []
  sends : engine.SendsApart

variable {engine}

theorem mem_of_mem_addKey {keys : List ρ} {other : ρ} (hother : other ∈ addKey keys requestId) :
    other ∈ keys ∨ other = requestId := by
  unfold addKey at hother
  split at hother
  · exact .inl hother
  · exact (mem_append.1 hother).imp_right mem_singleton.1

theorem Serving.updateStateAfterAlloc {pool : BlockPool} (hserving : engine.Serving [])
    (hfits : engine.Fits (.alloc pool requestId blocks numExternalTokens)) :
    (engine.updateStateAfterAlloc pool requestId blocks numExternalTokens).Serving [] := by
  unfold ReceivingEngine.updateStateAfterAlloc
  split
  · exact hserving
  · next req connector halloc =>
    obtain ⟨hremote, hplan⟩ := NixlConnectorScheduler.updateStateAfterAlloc_cases halloc
    have hplanned : ∀ other groups, connector.reqsNeedRecv other = some groups →
        ∃ params, (engine.requests other).kvTransferParams = some params ∧ params.hasRemote = true ∧
          Servable engine.numGroups groups params.remoteBlockIds := by
      intro other groups hgroups
      rcases hplan with hsame | ⟨params, hparams, hhost, hprefill, hblocks, hnamed, hupdate⟩
      · exact hserving.planned other groups (hsame ▸ hgroups)
      · rw [hupdate] at hgroups
        by_cases hother : other = requestId
        · rw [hother, update_self] at hgroups
          cases hgroups
          rw [hother]
          exact ⟨params, hparams, hnamed, hfits params hparams hhost hprefill hblocks hnamed⟩
        · rw [update_of_ne hother] at hgroups
          exact hserving.planned other groups hgroups
    have hkept : ∀ other ∈ engine.needRecv, (connector.reqsNeedRecv other).isSome = true := by
      intro other hother
      rcases hplan with hsame | ⟨_, -, -, -, -, -, hupdate⟩
      · rw [hsame]
        exact hserving.keys other hother
      · rw [hupdate]
        by_cases hid : other = requestId
        · rw [hid, update_self, isSome_some]
        · rw [update_of_ne hid]
          exact hserving.keys other hother
    refine { hserving with planned := ?_, keys := ?_ }
    · intro other groups hgroups
      obtain ⟨params, hparams, hnamed, hservable⟩ := hplanned other groups hgroups
      by_cases hother : other = requestId
      · rw [hother] at hparams
        obtain ⟨others, hothers, hids, hhas⟩ := hremote params hparams
        refine ⟨others, ?_, hhas.trans hnamed, hids ▸ hservable⟩
        simp [hother, hothers]
      · refine ⟨params, ?_, hnamed, hservable⟩
        simp [update_of_ne hother, hparams]
    · intro other hother
      split at hother
      · next hsome =>
        rcases mem_of_mem_addKey hother with hbefore | rfl
        · exact hkept other hbefore
        · exact hsome
      · exact hkept other hother

/-- Only a request that has ended is noted, as one to send or one that is not processed. -/
def NotesEnd (requestId : ρ) (engine after : ReceivingEngine ρ ε) : Prop :=
  ∃ reqsNeedSave reqsNotProcessed reqsNeedSend,
    after = { engine with
      connector := { engine.connector with reqsNeedSave }
      reqsNotProcessed
      reqsNeedSend } ∧
    (∀ other ∈ reqsNotProcessed, other ∈ engine.reqsNotProcessed ∨ other = requestId) ∧
    ∀ other ∈ reqsNeedSend, other ∈ engine.reqsNeedSend ∨ other = requestId

variable {lengthCapped holdsBlocks : Bool}

theorem notesEnd_requestFinished (hfits : engine.Fits (.finish requestId lengthCapped holdsBlocks)) :
    NotesEnd requestId engine (engine.requestFinished requestId lengthCapped holdsBlocks) := by
  have hsame : NotesEnd requestId engine engine :=
    ⟨engine.connector.reqsNeedSave, engine.reqsNotProcessed, engine.reqsNeedSend, rfl,
      fun _ ↦ .inl, fun _ ↦ .inl⟩
  fun_cases engine.requestFinished requestId lengthCapped holdsBlocks
  case case1 | case4 | case6 => exact hsame
  case case2 params hparams hprefill => exact absurd hprefill (by simp [hfits params hparams])
  case case3 => exact ⟨engine.connector.reqsNeedSave, engine.reqsNotProcessed, _, rfl, fun _ ↦ .inl,
    fun _ ↦ mem_of_mem_addKey⟩
  case case5 => exact ⟨_, _, engine.reqsNeedSend, rfl, fun _ ↦ mem_of_mem_addKey, fun _ ↦ .inl⟩

theorem Sound.finish (hsound : engine.Sound) (hlive : engine.finished requestId = false)
    (hfits : engine.Fits (.finish requestId lengthCapped holdsBlocks)) :
    ({ engine.requestFinished requestId lengthCapped holdsBlocks with
      finished := update engine.finished requestId true } : ReceivingEngine ρ ε).Sound := by
  obtain ⟨_, _, _, heq, hnot, hneed⟩ := notesEnd_requestFinished hfits
  rw [heq]
  have hends : ∀ other, engine.finished other = true ∨ other = requestId →
      update engine.finished requestId true other = true := by
    intro other hother
    by_cases hsame : other = requestId
    · rw [hsame, update_self]
    · rw [update_of_ne hsame]
      exact hother.resolve_right hsame
  refine ⟨hsound.quiet, { hsound.serving with }, ⟨?_, ?_, ?_⟩⟩
  · exact fun other hother ↦ hends other (.inl (hsound.sends.toSend other hother))
  · exact fun other hother ↦ hends other ((hneed other hother).imp_left (hsound.sends.needSend other))
  · intro other hother
    rcases hnot other hother with hbefore | rfl
    · obtain ⟨hfin, hkept⟩ := hsound.sends.notProcessed other hbefore
      exact ⟨hends other (.inl hfin), hkept⟩
    · -- a request whose blocks wait to be read has ended before
      by_contra hsend
      have hfin := hsound.sends.toSend other (by simpa using hsend)
      rw [hlive] at hfin
      cases hfin

omit [DecidableEq ρ] in
theorem receiveOrder_eq_some (hserving : engine.Serving [])
    (horder : engine.receiveOrder requestId = some order) :
    order.requestId = requestId ∧ Servable engine.numGroups order.localBlockIds order.remoteBlockIds := by
  unfold receiveOrder at horder
  split at horder
  · next blocks params hblocks hparams =>
    obtain ⟨_, hothers, hnamed, hservable⟩ := hserving.planned requestId blocks hblocks
    obtain rfl := some.inj (hparams.symm.trans hothers)
    rw [if_pos hnamed] at horder
    cases horder
    exact ⟨rfl, hservable⟩
  · cases horder

omit [DecidableEq ρ] in
theorem Serving.handedOver (hserving : engine.Serving [])
    (hbuilt : ∀ requestId ∈ engine.needRecv, (engine.receiveOrder requestId).isSome = true) :
    engine.handedOver.Serving (engine.needRecv.filterMap engine.receiveOrder) := by
  refine { hserving with planned := ?_, keys := ?_, covered := ?_ }
  · intro requestId blocks hblocks
    cases hblocks
  · intro requestId hreq
    cases hreq
  · intro requestId hrecv
    rcases mem_append.1 hrecv with hbefore | hnew
    · apply (hserving.covered requestId hbefore).imp_right
      rintro ⟨order, horder, hid⟩
      rw [append_nil] at horder
      exact ⟨order, mem_append_left _ horder, hid⟩
    · right
      obtain ⟨order, horder⟩ := isSome_iff_exists.1 (hbuilt requestId hnew)
      exact ⟨order, mem_append_right _ (mem_filterMap.2 ⟨requestId, hnew, horder⟩),
        (receiveOrder_eq_some hserving horder).1⟩

variable {notProcessed : List ρ}

theorem trackSends_eq (hnot : ∀ requestId ∈ notProcessed, engine.reqsToSend requestId = false)
    (needSend : List ρ) :
    ∃ reqsToProcess reqsToSend, engine.trackSends notProcessed needSend =
        ({ engine with reqsToProcess, reqsToSend }, none) ∧
      ∀ requestId, reqsToSend requestId = true →
        engine.reqsToSend requestId = true ∨ requestId ∈ needSend := by
  have hapart : ¬ ∃ requestId ∈ notProcessed, engine.reqsToSend requestId = true := by
    rintro ⟨requestId, hmem, hsend⟩
    rw [hnot requestId hmem] at hsend
    cases hsend
  unfold trackSends
  rw [if_neg hapart]
  refine ⟨_, _, rfl, fun requestId hsend ↦ ?_⟩
  simp only [Bool.or_eq_true, Bool.and_eq_true, decide_eq_true_eq] at hsend
  exact hsend.imp_right And.left

/-- `start_load_kv` serves all orders it can and leaves no request with a finished handshake queued. -/
theorem Serving.startLoadKv (hserving : engine.Serving orders)
    (hservable : ∀ order ∈ orders, Servable engine.numGroups order.localBlockIds order.remoteBlockIds)
    (hnot : ∀ requestId ∈ notProcessed, engine.reqsToSend requestId = false) (inBatch : ρ → Bool)
    (needSend : List ρ) :
    ∃ reqsToProcess reqsToSend served,
      engine.startLoadKv orders inBatch notProcessed needSend =
        ({ served with reqsToProcess, reqsToSend }, none) ∧
      served.Serving [] ∧ engine.SameButOrders served ∧ served.readyRequests = [] ∧
      ∀ requestId, reqsToSend requestId = true →
        engine.reqsToSend requestId = true ∨ requestId ∈ needSend := by
  obtain ⟨_, served, hloaded, hserved, hserves, hsame, hempty⟩ := hserving.loadOrders hservable
  have hkept : served.reqsToSend = engine.reqsToSend := by
    obtain ⟨_, _, _, _, rfl⟩ := hsame
    rfl
  unfold ReceivingEngine.startLoadKv
  simp only [hloaded, hserved]
  obtain ⟨reqsToProcess, reqsToSend, htrack, hsend⟩ := @trackSends_eq ρ ε _
    { served with reqsToProcess := fun requestId ↦ served.reqsToProcess requestId || inBatch requestId }
    notProcessed (fun requestId hreq ↦ (congrFun hkept requestId).trans (hnot requestId hreq))
    needSend
  exact ⟨reqsToProcess, reqsToSend, served, htrack, hserves, hsame, hempty,
    fun requestId hreq ↦ (hsend requestId hreq).imp_left (congrFun hkept requestId).symm.trans⟩

omit [DecidableEq ρ] in
theorem Serving.isSome_receiveOrder (hserving : engine.Serving [])
    (hneed : requestId ∈ engine.needRecv) : (engine.receiveOrder requestId).isSome = true := by
  obtain ⟨blocks, hblocks⟩ := isSome_iff_exists.1 (hserving.keys requestId hneed)
  obtain ⟨_, hparams, hnamed, -⟩ := hserving.planned requestId blocks hblocks
  simp [receiveOrder, hblocks, hparams, hnamed, isSome_some]

section

variable (hsound : engine.Sound)
include hsound

theorem Sound.exists_loadStep :
    ∃ reqsToProcess reqsToSend served,
      engine.loadStep = { served with reqsToProcess, reqsToSend, raised := none } ∧
      served.Serving [] ∧ engine.handedOver.SameButOrders served ∧ served.readyRequests = [] ∧
      ∀ requestId, reqsToSend requestId = true →
        engine.reqsToSend requestId = true ∨ requestId ∈ engine.reqsNeedSend := by
  have hbuilt : ∀ requestId ∈ engine.needRecv, (engine.receiveOrder requestId).isSome = true :=
    fun requestId ↦ hsound.serving.isSome_receiveOrder
  have hservable : ∀ order ∈ engine.needRecv.filterMap engine.receiveOrder,
      Servable engine.handedOver.numGroups order.localBlockIds order.remoteBlockIds := by
    intro order horder
    obtain ⟨requestId, -, hid⟩ := mem_filterMap.1 horder
    exact (receiveOrder_eq_some hsound.serving hid).2
  obtain ⟨reqsToProcess, reqsToSend, served, hload, hserves, hsame, hempty, hsend⟩ :=
    (hsound.serving.handedOver hbuilt).startLoadKv hservable
      (fun requestId hreq ↦ (hsound.sends.notProcessed requestId hreq).2)
      _ _
  refine ⟨reqsToProcess, reqsToSend, served, ?_, hserves, hsame, hempty, hsend⟩
  rw [loadStep, if_pos (all_eq_true.2 hbuilt), hload]

theorem Sound.loadStep : engine.loadStep.Sound := by
  obtain ⟨_, _, _, hload, hserves, hsame, -, hsend⟩ := hsound.exists_loadStep
  rw [hload]
  refine ⟨rfl, { hserves with }, ?_⟩
  obtain ⟨_, _, _, _, rfl⟩ := hsame
  constructor
  · intro requestId hreq
    rcases hsend requestId hreq with hbefore | hnew
    · exact hsound.sends.toSend requestId hbefore
    · exact hsound.sends.needSend requestId hnew
  · intro requestId hreq
    cases hreq
  · intro requestId hreq
    cases hreq

theorem Sound.readyRequests_loadStep : engine.loadStep.readyRequests = [] := by
  obtain ⟨_, _, _, hload, -, -, hempty, -⟩ := hsound.exists_loadStep
  rw [hload]
  exact hempty

end

/-- A request ends once and gets no blocks afterwards, and nothing happens after an exception. -/
def apply [DecidableEq ε] (engine : ReceivingEngine ρ ε) : ReceiveEvent ρ ε → ReceivingEngine ρ ε
  | .alloc pool requestId blocks numExternalTokens =>
    if engine.raised.isSome || engine.finished requestId then engine
    else engine.updateStateAfterAlloc pool requestId blocks numExternalTokens
  | .finish requestId lengthCapped holdsBlocks =>
    if engine.raised.isSome || engine.finished requestId then engine
    else { engine.requestFinished requestId lengthCapped holdsBlocks with
      finished := update engine.finished requestId true }
  | .load => if engine.raised.isSome then engine else engine.loadStep
  | .handshake engineId geometry =>
    if engine.raised.isSome then engine else engine.handshakeDone engineId geometry

omit [DecidableEq ρ] in
theorem Serving.handshakeDone [DecidableEq ε] {engineId : ε} {geometry : Bool} (hserving : engine.Serving [])
    (hfits : engine.Fits (.handshake engineId geometry)) :
    (engine.handshakeDone engineId geometry).Serving [] := by
  have hknown : ∀ other, update engine.remoteAgents engineId true other = true ↔
      engine.remoteAgents other = true ∨ other = engineId := by
    intro other
    by_cases hother : other = engineId
    · simp [hother]
    · simp [hother]
  refine { hserving with queued := ?_, waiting := ?_, known := ?_, geometry := ?_, covered := ?_ }
  · intro order horder
    apply hserving.queued order
    simp only [ReceivingEngine.handshakeDone, mem_append, mem_filter] at horder ⊢
    tauto
  · intro order horder
    obtain ⟨hwaits, hother⟩ := mem_filter.1 horder
    simp only [ReceivingEngine.handshakeDone]
    rw [update_of_ne (of_decide_eq_true hother)]
    exact hserving.waiting order hwaits
  · intro order horder
    simp only [ReceivingEngine.handshakeDone]
    rw [hknown]
    rcases mem_append.1 horder with hready | hnew
    · exact .inl (hserving.known order hready)
    · exact .inr (of_decide_eq_true (mem_filter.1 hnew).2)
  · intro henabled requestId hagent hstaged
    simp only [ReceivingEngine.handshakeDone] at henabled hagent hstaged ⊢
    rw [hknown] at hagent
    by_cases hother : (engine.prefillSide requestId).engineId = engineId
    · have hgeometry := hfits henabled ⟨requestId, hother, hstaged⟩
      rw [henabled, hgeometry, hother]
      simp
    · have hbefore := hserving.geometry henabled requestId (hagent.resolve_right hother) hstaged
      split
      · rw [update_of_ne hother]
        exact hbefore
      · exact hbefore
  · intro requestId hrecv
    apply (hserving.covered requestId hrecv).imp_right
    rintro ⟨order, horder, hid⟩
    refine ⟨order, ?_, hid⟩
    simp only [ReceivingEngine.handshakeDone, mem_append, mem_filter, decide_eq_true_eq, ne_eq,
      not_mem_nil, or_false] at horder ⊢
    by_cases hother : (engine.prefillSide order.requestId).engineId = engineId <;> tauto

variable [DecidableEq ε]

theorem Sound.apply (hsound : engine.Sound) {event : ReceiveEvent ρ ε} (hfits : engine.Fits event) :
    (engine.apply event).Sound := by
  have hquiet : engine.raised.isSome = false := by
    rw [hsound.quiet, isSome_none]
  cases event with
  | alloc pool requestId blocks numExternalTokens =>
    rw [ReceivingEngine.apply]
    split
    · exact hsound
    · have hserving := hsound.serving.updateStateAfterAlloc hfits
      unfold updateStateAfterAlloc at hserving ⊢
      split
      · exact hsound
      · next req connector halloc =>
        rw [halloc] at hserving
        exact ⟨hsound.quiet, hserving, { hsound.sends with }⟩
  | finish requestId lengthCapped _ =>
    rw [ReceivingEngine.apply]
    split
    · exact hsound
    · next hlive =>
      rw [hquiet, Bool.not_eq_true] at hlive
      exact hsound.finish hlive hfits
  | load =>
    rw [ReceivingEngine.apply, hquiet]
    exact hsound.loadStep
  | handshake engineId geometry =>
    rw [ReceivingEngine.apply, hquiet]
    exact ⟨hsound.quiet, hsound.serving.handshakeDone hfits, { hsound.sends with }⟩

/-- Every order whose engine is known has been answered. -/
def AllAnswered (engine : ReceivingEngine ρ ε) : Prop :=
  ∀ requestId ∈ engine.reqsReceived,
    engine.remoteAgents (engine.prefillSide requestId).engineId = true →
    (engine.answers requestId).isSome = true

theorem Sound.allAnswered_load (hsound : engine.Sound) : (engine.apply .load).AllAnswered := by
  have hnext : (engine.apply .load).Sound := hsound.apply trivial
  have hempty : (engine.apply .load).readyRequests = [] := by
    rw [ReceivingEngine.apply, hsound.quiet]
    exact hsound.readyRequests_loadStep
  intro requestId hrecv hknown
  rcases hnext.serving.covered requestId hrecv with hanswer | ⟨order, horder, hid⟩
  · exact hanswer
  · rw [hempty, append_nil, append_nil] at horder
    have hwaits := hnext.serving.waiting order horder
    rw [hid, hknown] at hwaits
    cases hwaits

end ReceivingEngine

/-- What an engine starts with: its configuration, the requests it will get, and the entries of their
parameters that name the prefill side. -/
structure EngineSetup (ρ ε : Type*) where
  blockSize : ℕ
  nelssaEnabled : Bool
  useHostBuffer : Bool
  numGroups : ℕ
  physicalBlocksPerLogical : ℕ
  clusterTransferEnabled : Bool
  requests : ρ → TransferRequest
  prefillSide : ρ → PrefillSide ε

namespace EngineSetup

variable [DecidableEq ρ] [DecidableEq ε] (setup : EngineSetup ρ ε)

def start : ReceivingEngine ρ ε where
  connector :=
    { blockSize := setup.blockSize
      nelssaEnabled := setup.nelssaEnabled
      useHostBuffer := setup.useHostBuffer }
  requests := setup.requests
  prefillSide := setup.prefillSide
  numGroups := setup.numGroups
  physicalBlocksPerLogical := setup.physicalBlocksPerLogical
  clusterTransferEnabled := setup.clusterTransferEnabled

omit [DecidableEq ρ] [DecidableEq ε] in
theorem sound_start : setup.start.Sound where
  quiet := rfl
  serving := by constructor <;> simp [start, ReceivingEngine.GeometryKnown]
  sends := by constructor <;> simp [start]

/-- If every event fits, `start_load_kv` never raises, and after each step every order whose engine is known
has led to a READ or to a notification. -/
theorem orders_answered (events : List (ReceiveEvent ρ ε))
    (hfits : StepsMeet ReceivingEngine.apply ReceivingEngine.Fits setup.start events) :
    HoldsAlong ReceivingEngine.apply (fun engine ↦ engine.raised = none) setup.start events ∧
      StepsMeet ReceivingEngine.apply
        (fun engine event ↦ event = .load → (engine.apply event).AllAnswered) setup.start events := by
  have hkept : ∀ (engine : ReceivingEngine ρ ε) (event : ReceiveEvent ρ ε), engine.Sound →
      engine.Fits event → (engine.apply event).Sound := fun engine event hsound hevent ↦ hsound.apply hevent
  constructor
  · exact holdsAlong_of_stepsMeet hkept (fun engine hsound ↦ hsound.quiet) setup.sound_start hfits
  · apply stepsMeet_of_stepsMeet hkept _ setup.sound_start hfits
    rintro engine event hsound - rfl
    exact hsound.allAnswered_load

end EngineSetup

/-! ## Two engines, a full hit and an aborted request -/

/-- A pool with a cached block. -/
def cachedPool : BlockPool where
  numGpuBlocks := 8
  enableCaching := true
  hashBlockSize := 16
  refCnt _ := 0
  blockHash block := if block = 4 then some [1] else none
  isNull block := block == 0
  freeBlockQueue := .init 8
  cachedBlockHashToBlock := .init
  nullBlock := 0

/-- Two requests with prompts of three blocks, which two prefill engines hold. -/
def promptSetup : EngineSetup Bool Bool where
  blockSize := 16
  nelssaEnabled := true
  useHostBuffer := false
  numGroups := 1
  physicalBlocksPerLogical := 1
  clusterTransferEnabled := true
  requests requestId :=
    { numPromptTokens := 48
      nelssaLongMask := false
      kvTransferParams := some
        { doRemotePrefill := true, remoteBlockIds := if requestId then [[5, 6, 7]] else [[8, 9, 10]] } }
  prefillSide requestId := ⟨requestId, false⟩

/-- The first request reads its whole prompt and the second one what is not cached. Their engines become known
one after the other. -/
def promptEvents : List (ReceiveEvent Bool Bool) :=
  [.alloc cachedPool false [[1, 2, 3]] 48, .alloc cachedPool true [[4, 5, 6]] 32, .load, .handshake true true,
    .load, .handshake false true, .load]

theorem orders_answered_prompt :
    (HoldsAlong ReceivingEngine.apply (fun engine ↦ engine.raised = none) promptSetup.start promptEvents ∧
      StepsMeet ReceivingEngine.apply
        (fun engine event ↦ event = .load → (engine.apply event).AllAnswered)
        promptSetup.start promptEvents) ∧
      (promptEvents.foldl ReceivingEngine.apply promptSetup.start).answers false =
        some (.read [(1, 8), (2, 9), (3, 10)]) ∧
      (promptEvents.foldl ReceivingEngine.apply promptSetup.start).answers true =
        some (.read [(5, 6), (6, 7)]) := by
  refine ⟨promptSetup.orders_answered _ ⟨?_, ?_, trivial, fun _ _ ↦ rfl, trivial, fun _ _ ↦ rfl, trivial,
    trivial⟩, by decide, by decide⟩
  · intro params hparams _ _ _ _
    cases hparams
    exact ⟨one_pos, rfl, rfl, by decide⟩
  · intro params hparams _ _ _ _
    cases hparams
    exact ⟨one_pos, rfl, rfl, by decide⟩

/-- A request with a full prefix-cache hit, and a request that ends before it is scheduled. -/
theorem raised_without_local_blocks :
    ([.alloc cachedPool false [[1, 2, 3]] 0, .load].foldl ReceivingEngine.apply promptSetup.start).raised =
        some .indexError ∧
      ([.finish true false false, .load].foldl ReceivingEngine.apply promptSetup.start).raised =
        some .indexError := by
  decide

end Nelssa.Nixl
