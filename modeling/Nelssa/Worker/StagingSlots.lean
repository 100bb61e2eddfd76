import Mathlib.Order.Lattice.Nat
import Nelssa.Core.BlockPool
import Nelssa.Foundation.Runs

/-!
# The staging slots of the clustering metadata

After the clustering of a long prompt a prefill worker copies the centroids into a slot of a staging
buffer, from where the decode worker reads them. Slots come back by a message that names the slot and by
the cleanup of a request. Messages may arrive late and more than once. The slots are conserved as long as
no request takes a slot that has one and no message arrives for a slot that another request has by then.
-/

namespace Nelssa.Worker

open Nelssa.Core Foundation.Runs Function

variable {ρ κ : Type*}

/-! ## Keys -/

/-- What `_get_remote_request_id` reads of a cached request: the entry `remote_request_id` of its transfer
parameters, if it has any. -/
structure CachedParams (ρ : Type*) where
  kvTransferParams : Option (Option ρ)

open CachedParams

section

variable (isPdDisaggregated : Bool) (requests : ρ → Option (CachedParams ρ)) (reqId : ρ)

def getRemoteRequestId : Option ρ :=
  if isPdDisaggregated then
    match (requests reqId).bind kvTransferParams with
    | some remoteRequestId => some (remoteRequestId.getD reqId)
    | none => some reqId
  else none

/-- The key under which a worker stores what belongs to a request. -/
def bufferKey : ρ :=
  (getRemoteRequestId isPdDisaggregated requests reqId).getD reqId

end

/-- The transfer parameters do not rename the request. -/
def CachedParams.OwnId (params : Option (CachedParams ρ)) : Prop :=
  ∀ remoteRequestId, params.bind kvTransferParams ≠ some (some remoteRequestId)

theorem bufferKey_of_ownId {isPdDisaggregated : Bool} {requests : ρ → Option (CachedParams ρ)} {reqId : ρ}
    (hown : OwnId (requests reqId)) : bufferKey isPdDisaggregated requests reqId = reqId := by
  unfold bufferKey getRemoteRequestId
  split
  · cases hparams : (requests reqId).bind kvTransferParams with
    | none => rfl
    | some remote =>
      cases remote with
      | none => rfl
      | some remoteRequestId => exact absurd hparams (hown remoteRequestId)
  · rfl

/-! ## The worker -/

/-- The result of the clustering of one request, with one entry for each centroid: its coordinates and the
size of its cluster, for all layers and heads. -/
abbrev ClusterMetadata (κ : Type*) := List κ

structure StagingConfig where
  isPdDisaggregated : Bool
  hasKvTransferGroup : Bool
  maxNCentroids : ℕ

/-- The choice that `set.pop` makes. -/
structure SetPop where
  pop : Finset ℕ → ℕ
  pop_mem : ∀ slots : Finset ℕ, slots.Nonempty → pop slots ∈ slots

/-- The part of a prefill worker that concerns the slots. `sent` are the slots that were announced to the
decode side, with the request that they were announced for. -/
structure StagingWorker (ρ κ : Type*) where
  requests : ρ → Option (CachedParams ρ)
  nelssaClusterMetadata : ρ → Option (ClusterMetadata κ)
  nelssaMetaFreeSlots : Finset ℕ
  nelssaMetaSlotByReq : ρ → Option ℕ
  stagingBuf : ℕ → ℕ → Option κ
  sent : ρ → List ℕ

namespace StagingWorker

variable (config : StagingConfig) (set : SetPop)

def init (nSlots : ℕ) : StagingWorker ρ κ where
  requests := fun _ ↦ none
  nelssaClusterMetadata := fun _ ↦ none
  nelssaMetaFreeSlots := Finset.range nSlots
  nelssaMetaSlotByReq := fun _ ↦ none
  stagingBuf := fun _ _ ↦ none
  sent := fun _ ↦ []

variable [DecidableEq ρ] (worker : StagingWorker ρ κ)

/-- The columns of the slot up to the number of centroids are overwritten. -/
def storeSlot (slot : ℕ) (metadata : ClusterMetadata κ) : ℕ → ℕ → Option κ :=
  update worker.stagingBuf slot fun column ↦
    if column < metadata.length then metadata[column]? else worker.stagingBuf slot column

/-- One round of the loop of `_stage_nelssa_metadata_for_transfer`. Metadata that is wider than the buffer
raises when it is copied, after the slot was taken. -/
def stageRequest (reqId : ρ) : Except Exn Unit × StagingWorker ρ κ :=
  let key := bufferKey config.isPdDisaggregated worker.requests reqId
  match worker.nelssaClusterMetadata key with
  | none => (.ok (), worker)
  | some metadata =>
    if metadata.length = 0 then (.ok (), worker)
    else if worker.nelssaMetaFreeSlots = ∅ then (.ok (), worker)
    else
      let slot := set.pop worker.nelssaMetaFreeSlots
      let taken := { worker with
        nelssaMetaFreeSlots := worker.nelssaMetaFreeSlots.erase slot
        nelssaMetaSlotByReq := update worker.nelssaMetaSlotByReq key (some slot) }
      if config.maxNCentroids < metadata.length then
        (.error (.runtimeError "The size of tensor a must match the size of tensor b"), taken)
      else
        (.ok (), { taken with
          stagingBuf := worker.storeSlot slot metadata
          sent := if config.hasKvTransferGroup then
              update worker.sent reqId (worker.sent reqId ++ [slot])
            else worker.sent })

def stageNelssaMetadataForTransfer : List ρ → StagingWorker ρ κ → Except Exn Unit × StagingWorker ρ κ
  | [], worker => (.ok (), worker)
  | reqId :: rest, worker =>
    match worker.stageRequest config set reqId with
    | (.error exn, taken) => (.error exn, taken)
    | (.ok (), staged) => stageNelssaMetadataForTransfer rest staged

/-- `_cleanup_sparse_kv_cache`, as far as it concerns the slots. -/
def cleanupSparseKvCache (reqId : ρ) : StagingWorker ρ κ :=
  let key := bufferKey config.isPdDisaggregated worker.requests reqId
  { worker with
    nelssaClusterMetadata := update worker.nelssaClusterMetadata key none
    nelssaMetaFreeSlots := match worker.nelssaMetaSlotByReq key with
      | some slot => insert slot worker.nelssaMetaFreeSlots
      | none => worker.nelssaMetaFreeSlots
    nelssaMetaSlotByReq := update worker.nelssaMetaSlotByReq key none }

/-- `_free_nelssa_meta_slot`: by the slot if one is given, with all entries that point at it, and by the
request otherwise. -/
def freeNelssaMetaSlot (requestId : ρ) (slot : Option ℕ) : StagingWorker ρ κ :=
  match slot with
  | some slot => { worker with
      nelssaMetaFreeSlots := insert slot worker.nelssaMetaFreeSlots
      nelssaMetaSlotByReq := fun key ↦
        if worker.nelssaMetaSlotByReq key = some slot then none else worker.nelssaMetaSlotByReq key }
  | none =>
    let key := bufferKey config.isPdDisaggregated worker.requests requestId
    match worker.nelssaMetaSlotByReq key with
    | some slot => { worker with
        nelssaMetaFreeSlots := insert slot worker.nelssaMetaFreeSlots
        nelssaMetaSlotByReq := update worker.nelssaMetaSlotByReq key none }
    | none => worker

/-- `_handle_slot_free`: the message always carries a slot. -/
def handleSlotFree (requestId : ρ) (slot : ℕ) : StagingWorker ρ κ :=
  worker.freeNelssaMetaSlot config requestId (some slot)

end StagingWorker

/-! ## Events -/

/-- What happens on a prefill worker. A message answers an announcement for the request `owner`; the id in
it is the one of the decode side. -/
inductive StagingEvent (ρ κ : Type*) where
  | setRequest (reqId : ρ) (params : Option (CachedParams ρ))
  | cluster (key : ρ) (metadata : ClusterMetadata κ)
  | stage (requestIds : List ρ)
  | slotFree (owner requestId : ρ) (slot : ℕ)
  | cleanup (reqId : ρ)

namespace StagingWorker

variable [DecidableEq ρ] (config : StagingConfig) (set : SetPop) {slot : ℕ} {event : StagingEvent ρ κ}

/-- A message can arrive at any time after the announcement, and any number of times. -/
def apply (worker : StagingWorker ρ κ) : StagingEvent ρ κ → StagingWorker ρ κ
  | .setRequest reqId params => { worker with requests := update worker.requests reqId params }
  | .cluster key metadata => { worker with
      nelssaClusterMetadata := update worker.nelssaClusterMetadata key (some metadata) }
  | .stage requestIds => (stageNelssaMetadataForTransfer config set requestIds worker).2
  | .slotFree owner requestId slot =>
    if slot ∈ worker.sent owner then worker.handleSlotFree config requestId slot else worker
  | .cleanup reqId => worker.cleanupSparseKvCache config reqId

/-- The slot is free or some request has it. -/
def Tracked (worker : StagingWorker ρ κ) (slot : ℕ) : Prop :=
  slot ∈ worker.nelssaMetaFreeSlots ∨ ∃ key, worker.nelssaMetaSlotByReq key = some slot

/-- The free slots and the slots of the requests are a partition of the slots. -/
structure Partitioned (nSlots : ℕ) (worker : StagingWorker ρ κ) : Prop where
  disjoint : ∀ key slot, worker.nelssaMetaSlotByReq key = some slot → slot ∉ worker.nelssaMetaFreeSlots
  tracked : ∀ slot, worker.Tracked slot ↔ slot < nSlots
  injective : ∀ key other slot, worker.nelssaMetaSlotByReq key = some slot →
    worker.nelssaMetaSlotByReq other = some slot → key = other

/-- A message or a cleanup takes no slot from another request. -/
def ReleasesOwn (worker : StagingWorker ρ κ) (event : StagingEvent ρ κ) : Prop :=
  match event with
  | .slotFree reqId _ _ | .cleanup reqId => ∀ other ≠ reqId,
      (worker.apply config set event).nelssaMetaSlotByReq other = worker.nelssaMetaSlotByReq other
  | _ => True

/-- What has to hold of every event of a run. -/
structure Conserves (nSlots : ℕ) (worker : StagingWorker ρ κ) (event : StagingEvent ρ κ) : Prop where
  partitioned : (worker.apply config set event).Partitioned nSlots
  releases : worker.ReleasesOwn config set event
  staged : ∀ requestIds, event = .stage requestIds → ∀ key slot,
    worker.nelssaMetaSlotByReq key = some slot → (worker.apply config set event).Tracked slot

/-- Staging the request takes a slot: it has centroids, and a slot is free. -/
def TakesSlot (worker : StagingWorker ρ κ) (reqId : ρ) : Prop :=
  0 < ((worker.nelssaClusterMetadata reqId).getD []).length ∧ worker.nelssaMetaFreeSlots ≠ ∅

/-- In every round of a stage call, a request that takes a slot has none. -/
def StagesFresh : List ρ → StagingWorker ρ κ → Prop
  | [], _ => True
  | reqId :: rest, worker => (worker.TakesSlot reqId → worker.nelssaMetaSlotByReq reqId = none) ∧
    match worker.stageRequest config set reqId with
    | (.error _, _) => True
    | (.ok (), staged) => StagesFresh rest staged

/-- No request takes a slot that has one, and no message arrives for a slot that another request has. The
requests of a prefill worker keep their ids. -/
def InOrder (worker : StagingWorker ρ κ) : StagingEvent ρ κ → Prop
  | .setRequest _ params => OwnId params
  | .cluster _ _ => True
  | .stage requestIds => StagesFresh config set requestIds worker
  | .slotFree owner _ slot => ∀ key, worker.nelssaMetaSlotByReq key = some slot → key = owner
  | .cleanup _ => True

/-! ## One event -/

variable {config set} {nSlots : ℕ} {worker : StagingWorker ρ κ}

/-- What holds between the events of a run in order. -/
structure Conserving (nSlots : ℕ) (worker : StagingWorker ρ κ) : Prop where
  partitioned : worker.Partitioned nSlots
  ownId : ∀ reqId, OwnId (worker.requests reqId)
  sent_lt : ∀ reqId, ∀ slot ∈ worker.sent reqId, slot < nSlots

omit [DecidableEq ρ] in
theorem conserving_init : (init nSlots : StagingWorker ρ κ).Conserving nSlots where
  partitioned :=
    { disjoint := by simp [init]
      tracked := by simp [init, Tracked]
      injective := by simp [init] }
  ownId := by simp [init, OwnId]
  sent_lt := by simp [init]

section

variable (hpart : worker.Partitioned nSlots)
include hpart

theorem Partitioned.take {key : ρ}
    (hkey : worker.nelssaMetaSlotByReq key = none) (hslot : slot ∈ worker.nelssaMetaFreeSlots) :
    { worker with
      nelssaMetaFreeSlots := worker.nelssaMetaFreeSlots.erase slot
      nelssaMetaSlotByReq := update worker.nelssaMetaSlotByReq key (some slot) }.Partitioned nSlots where
  disjoint := by
    intro other held hheld
    rw [Finset.mem_erase, not_and]
    by_cases hother : other = key
    · subst hother
      simp only [update_self, Option.some.injEq] at hheld
      exact absurd hheld.symm
    · simp only [update_of_ne hother] at hheld
      exact fun _ ↦ hpart.disjoint other held hheld
  tracked := by
    intro other
    rw [← hpart.tracked]
    unfold Tracked
    dsimp only
    by_cases hother : other = slot
    · subst hother
      exact iff_of_true (.inr ⟨key, update_self ..⟩) (.inl hslot)
    · rw [Finset.mem_erase, and_iff_right hother]
      refine or_congr_right (exists_congr fun holder ↦ ?_)
      by_cases hholder : holder = key
      · subst hholder
        rw [hkey]
        simp [Ne.symm hother]
      · rw [update_of_ne hholder]
  injective := by
    intro first second held hfirst hsecond
    have hheld (other : ρ) (hother : other ≠ key)
        (hsome : update worker.nelssaMetaSlotByReq key (some slot) other = some held) :
        held ≠ slot := by
      rw [update_of_ne hother] at hsome
      rintro rfl
      exact hpart.disjoint other held hsome hslot
    by_cases hone : first = key <;> by_cases htwo : second = key
    · rw [hone, htwo]
    · subst hone
      simp only [update_self, Option.some.injEq] at hfirst
      exact absurd hfirst.symm (hheld second htwo hsecond)
    · subst htwo
      simp only [update_self, Option.some.injEq] at hsecond
      exact absurd hsecond.symm (hheld first hone hfirst)
    · simp only [update_of_ne hone] at hfirst
      simp only [update_of_ne htwo] at hsecond
      exact hpart.injective first second held hfirst hsecond

omit [DecidableEq ρ] in
theorem Partitioned.release (hslot : slot < nSlots) {byReq : ρ → Option ℕ}
    (hbyReq : ∀ key held, byReq key = some held ↔ worker.nelssaMetaSlotByReq key = some held ∧ held ≠ slot) :
    { worker with
      nelssaMetaFreeSlots := insert slot worker.nelssaMetaFreeSlots
      nelssaMetaSlotByReq := byReq }.Partitioned nSlots where
  disjoint := by
    intro key held hheld
    obtain ⟨hold, hne⟩ := (hbyReq key held).1 hheld
    rw [Finset.mem_insert, not_or]
    exact ⟨hne, hpart.disjoint key held hold⟩
  tracked := by
    intro other
    by_cases hother : other = slot
    · subst hother
      exact iff_of_true (.inl (Finset.mem_insert_self ..)) hslot
    · rw [← hpart.tracked]
      unfold Tracked
      rw [Finset.mem_insert, or_iff_right hother]
      refine or_congr_right (exists_congr fun key ↦ ?_)
      rw [hbyReq, and_iff_left hother]
  injective := by
    intro first second held hfirst hsecond
    apply hpart.injective first second held
    · exact ((hbyReq first held).1 hfirst).1
    · exact ((hbyReq second held).1 hsecond).1

/-- The requests that have a slot, once the request `key` has lost its own. -/
theorem Partitioned.byReq_update_none {key : ρ}
    (hkey : worker.nelssaMetaSlotByReq key = some slot) (other : ρ) (held : ℕ) :
    update worker.nelssaMetaSlotByReq key none other = some held ↔
      worker.nelssaMetaSlotByReq other = some held ∧ held ≠ slot := by
  by_cases hother : other = key
  · subst hother
    rw [update_self, hkey]
    simp only [reduceCtorEq, Option.some.injEq, ne_eq, false_iff, not_and, not_not]
    exact .symm
  · rw [update_of_ne hother]
    refine (and_iff_left_of_imp fun hheld ↦ ?_).symm
    rintro rfl
    exact hother (hpart.injective other key held hheld hkey)

end

theorem Conserving.stageRequest (hinv : worker.Conserving nSlots) {reqId : ρ}
    (hreq : worker.TakesSlot reqId → worker.nelssaMetaSlotByReq reqId = none) :
    (worker.stageRequest config set reqId).2.Conserving nSlots := by
  have hkey : bufferKey config.isPdDisaggregated worker.requests reqId = reqId :=
    bufferKey_of_ownId (hinv.ownId reqId)
  unfold TakesSlot at hreq
  unfold StagingWorker.stageRequest
  dsimp only
  rw [hkey]
  cases hmeta : worker.nelssaClusterMetadata reqId with
  | none => exact hinv
  | some metadata =>
    rw [hmeta, Option.getD_some] at hreq
    dsimp only
    split
    · exact hinv
    · next hcentroids =>
      split
      · exact hinv
      · next hfree =>
        have hmem := set.pop_mem _ (Finset.nonempty_iff_ne_empty.2 hfree)
        have hlt := (hinv.partitioned.tracked _).1 (Or.inl hmem)
        have htaken := hinv.partitioned.take (hreq ⟨Nat.pos_of_ne_zero hcentroids, hfree⟩) hmem
        split
        · exact { hinv with partitioned := htaken }
        · refine ⟨{ htaken with }, hinv.ownId, ?_⟩
          dsimp only
          split
          · intro other slot hslot
            by_cases hother : other = reqId
            · subst hother
              rw [update_self] at hslot
              rcases List.mem_append.1 hslot with hold | hnew
              · exact hinv.sent_lt other slot hold
              · rw [List.mem_singleton.1 hnew]
                exact hlt
            · rw [update_of_ne hother] at hslot
              exact hinv.sent_lt other slot hslot
          · exact hinv.sent_lt

theorem Conserving.stage (requestIds : List ρ) (hinv : worker.Conserving nSlots)
    (hfresh : StagesFresh config set requestIds worker) :
    (stageNelssaMetadataForTransfer config set requestIds worker).2.Conserving nSlots := by
  induction requestIds generalizing worker with
  | nil => exact hinv
  | cons reqId rest ih =>
    obtain ⟨hreq, hrest⟩ := hfresh
    have hnext : (worker.stageRequest config set reqId).2.Conserving nSlots := hinv.stageRequest hreq
    unfold stageNelssaMetadataForTransfer
    split
    · next exn taken hstage =>
      rw [hstage] at hnext
      exact hnext
    · next staged hstage =>
      rw [hstage] at hnext hrest
      exact ih hnext hrest

section

variable (hinv : worker.Conserving nSlots)
include hinv

theorem Conserving.handleSlotFree (hslot : slot < nSlots)
    (requestId : ρ) : (worker.handleSlotFree config requestId slot).Conserving nSlots := by
  refine ⟨hinv.partitioned.release hslot fun key held ↦ ?_, hinv.ownId, hinv.sent_lt⟩
  by_cases hkey : worker.nelssaMetaSlotByReq key = some slot
  · rw [if_pos hkey, hkey]
    simp only [reduceCtorEq, Option.some.injEq, ne_eq, false_iff, not_and, not_not]
    exact .symm
  · rw [if_neg hkey]
    refine (and_iff_left_of_imp fun hheld ↦ ?_).symm
    rintro rfl
    exact hkey hheld

theorem Conserving.cleanup (reqId : ρ) :
    (worker.cleanupSparseKvCache config reqId).Conserving nSlots ∧
      ∀ other ≠ reqId, (worker.cleanupSparseKvCache config reqId).nelssaMetaSlotByReq other =
        worker.nelssaMetaSlotByReq other := by
  have hkey : bufferKey config.isPdDisaggregated worker.requests reqId = reqId :=
    bufferKey_of_ownId (hinv.ownId reqId)
  unfold cleanupSparseKvCache
  dsimp only
  rw [hkey]
  refine ⟨⟨?_, hinv.ownId, hinv.sent_lt⟩, fun other hother ↦ update_of_ne hother ..⟩
  cases hslot : worker.nelssaMetaSlotByReq reqId with
  | none =>
    have hsame : update worker.nelssaMetaSlotByReq reqId none = worker.nelssaMetaSlotByReq :=
      update_eq_self_iff.2 hslot.symm
    rw [hsame]
    exact { hinv.partitioned with }
  | some slot =>
    have hlt := (hinv.partitioned.tracked slot).1 (.inr ⟨reqId, hslot⟩)
    exact { hinv.partitioned.release hlt (hinv.partitioned.byReq_update_none hslot) with }

variable (horder : worker.InOrder config set event)
include horder

theorem Conserving.apply : (worker.apply config set event).Conserving nSlots := by
  cases event with
  | setRequest reqId params =>
    refine ⟨{ hinv.partitioned with },
      fun other ↦ ?_, hinv.sent_lt⟩
    by_cases hother : other = reqId
    · subst hother
      simp only [apply, update_self]
      exact horder
    · simp only [apply, update_of_ne hother]
      exact hinv.ownId other
  | cluster key metadata =>
    exact { hinv with partitioned := { hinv.partitioned with } }
  | stage requestIds => exact hinv.stage requestIds horder
  | slotFree owner requestId slot =>
    unfold apply
    dsimp only
    split
    · next hsent => exact hinv.handleSlotFree (hinv.sent_lt owner slot hsent) requestId
    · exact hinv
  | cleanup reqId => exact (hinv.cleanup reqId).1

theorem Conserving.releasesOwn : worker.ReleasesOwn config set event := by
  cases event with
  | slotFree owner requestId slot =>
    intro other hother
    unfold StagingWorker.apply
    dsimp only
    split
    · unfold StagingWorker.handleSlotFree freeNelssaMetaSlot
      dsimp only
      rw [if_neg fun hheld ↦ hother (horder other hheld)]
    · rfl
  | cleanup reqId => exact (hinv.cleanup reqId).2
  | setRequest reqId params => trivial
  | cluster key metadata => trivial
  | stage requestIds => trivial

theorem Conserving.conserves : worker.Conserves config set nSlots event where
  partitioned := (hinv.apply horder).partitioned
  releases := hinv.releasesOwn horder
  staged := by
    intro requestIds _ key slot hslot
    have hlt := (hinv.partitioned.tracked slot).1 (.inr ⟨key, hslot⟩)
    exact ((hinv.apply horder).partitioned.tracked slot).2 hlt

end

/-! ## Runs -/

/-- The slots are conserved in every run in order. -/
theorem conserves_of_inOrder (config : StagingConfig) (set : SetPop) (nSlots : ℕ)
    {events : List (StagingEvent ρ κ)}
    (hevents : StepsMeet (apply config set) (InOrder config set) (init nSlots) events) :
    StepsMeet (apply config set) (Conserves config set nSlots) (init nSlots) events := by
  apply stepsMeet_of_stepsMeet _ _ conserving_init hevents
  · intro worker event hinv horder
    exact hinv.apply horder
  · intro worker event hinv horder
    exact hinv.conserves horder

def stagingConfig : StagingConfig :=
  { isPdDisaggregated := true, hasKvTransferGroup := true, maxNCentroids := 8 }

/-- The greatest slot is popped. -/
def popGreatest : SetPop where
  pop := fun slots ↦ slots.sup id
  pop_mem := fun slots hslots ↦ by
    obtain ⟨slot, hslot, hsup⟩ := Finset.exists_mem_eq_sup slots hslots id
    rw [hsup]
    exact hslot

/-- Two requests are clustered, and the first one is staged. -/
def clusteredAndStaged : List (StagingEvent Bool Unit) :=
  [.cluster false [()], .cluster true [()], .stage [false]]

theorem inOrder_stage_singleton {reqId : ρ} : worker.InOrder config set (.stage [reqId]) ↔
    (worker.TakesSlot reqId → worker.nelssaMetaSlotByReq reqId = none) := by
  refine and_iff_left ?_
  split <;> trivial

/-- The first request is staged again while no slot is free, and the message for it arrives twice before its
slot goes to the second one. -/
theorem conserves_duplicate : StepsMeet (apply stagingConfig popGreatest)
    (Conserves stagingConfig popGreatest 1) (init 1)
    (clusteredAndStaged ++
      [.stage [false], .slotFree false false 0, .slotFree false false 0, .stage [true]]) := by
  apply conserves_of_inOrder
  refine ⟨trivial, trivial, inOrder_stage_singleton.2 ?_, inOrder_stage_singleton.2 ?_, ?_, ?_,
    inOrder_stage_singleton.2 ?_, trivial⟩
  · unfold TakesSlot
    decide
  · unfold TakesSlot
    decide
  · unfold InOrder
    decide
  · unfold InOrder
    decide
  · unfold TakesSlot
    decide

/-- A message that arrives once more after its slot went to the second request takes it away, and a
request that is staged again, as after a preemption, loses its first slot. -/
theorem not_conserves : (¬ StepsMeet (apply stagingConfig popGreatest)
      (Conserves stagingConfig popGreatest 1) (init 1)
      (clusteredAndStaged ++ [.slotFree false false 0, .stage [true], .slotFree false false 0])) ∧
    ¬ StepsMeet (apply stagingConfig popGreatest) (Conserves stagingConfig popGreatest 2) (init 2)
      (clusteredAndStaged ++ [.stage [false]]) := by
  constructor
  · rintro ⟨-, -, -, -, -, hlast, -⟩
    exact absurd (hlast.releases true (by decide)) (by decide)
  · rintro ⟨-, -, -, hlast, -⟩
    exact absurd (hlast.staged [false] rfl false 1 (by decide)) (by unfold Tracked; decide)

end StagingWorker

end Nelssa.Worker
