import Nelssa.Core.KVCacheManager
import Nelssa.Foundation.Loops

/-!
# The blocks that a request holds

What the operations of the KV-cache manager do to the block lists of requests: an operation for one
request leaves the lists of all others alone, and the blocks that an allocation reports are in the list
of the request afterwards.
-/

namespace Nelssa.Core

open List

variable {ρ : Type*} [DecidableEq ρ] {blocks : List ℕ}

theorem BlockPool.length_getNewBlocks {pool : BlockPool} {numBlocks : ℤ}
    (hblocks : (pool.getNewBlocks numBlocks).1 = .ok blocks) : blocks.length = numBlocks.toNat := by
  revert hblocks
  fun_cases getNewBlocks pool numBlocks with
  | case1 | case2 => nofun
  | case3 _ popped queue hpop =>
    intro hblocks
    obtain ⟨_, -, rfl⟩ := Foundation.Loops.map_eq_ok_iff.1 hblocks
    exact FreeKVCacheBlockQueue.length_popleftN hpop

variable {numTokens : ℕ}

namespace ManagerBase

/-- The lists of all requests but one are the same. -/
def KeepsOthers (reqId : ρ) (base after : ManagerBase ρ) : Prop :=
  ∀ other, other ≠ reqId → after.blocksOf other = base.blocksOf other

variable {reqId : ρ} {base middle after : ManagerBase ρ}

omit [DecidableEq ρ] in
theorem KeepsOthers.refl (reqId : ρ) (base : ManagerBase ρ) : KeepsOthers reqId base base := fun _ _ ↦ rfl

omit [DecidableEq ρ] in
theorem KeepsOthers.trans (hfirst : KeepsOthers reqId base middle)
    (hsecond : KeepsOthers reqId middle after) : KeepsOthers reqId base after :=
  fun other hne ↦ (hsecond other hne).trans (hfirst other hne)

section

variable (base : ManagerBase ρ)

theorem keepsOthers_setBlocks (reqId : ρ) (blocks : List ℕ) :
    KeepsOthers reqId base (base.setBlocks reqId blocks) := by
  intro other hne
  simp [blocksOf, setBlocks, hne]

theorem setBlocks_setBlocks (reqId : ρ) (blocks others : List ℕ) :
    (base.setBlocks reqId blocks).setBlocks reqId others = base.setBlocks reqId others := by
  simp [setBlocks]

omit [DecidableEq ρ] in
@[simp]
theorem blocksOf_recordNewBlocks (blocks : List ℕ) (reqId : ρ) :
    (base.recordNewBlocks blocks).blocksOf reqId = base.blocksOf reqId := by
  unfold recordNewBlocks
  split <;> rfl

theorem keepsOthers_extendBlocks (pool : BlockPool) (reqId : ρ) (numBlocks : ℤ) :
    KeepsOthers reqId base (base.extendBlocks pool reqId numBlocks).2.1 := by
  unfold extendBlocks
  dsimp only
  split
  · exact .refl _ _
  · intro other hne
    rw [blocksOf_recordNewBlocks]
    exact keepsOthers_setBlocks base reqId _ other hne

end

theorem blocksOf_extendBlocks {pool : BlockPool} {numBlocks : ℤ}
    (hblocks : (base.extendBlocks pool reqId numBlocks).1 = .ok blocks) :
    (base.extendBlocks pool reqId numBlocks).2.1.blocksOf reqId = base.blocksOf reqId ++ blocks := by
  revert hblocks
  fun_cases extendBlocks base pool reqId numBlocks with
  | case1 => nofun
  | case2 =>
    rintro ⟨⟩
    simp

theorem keepsOthers_allocateNewComputedBlocks (base : ManagerBase ρ) (pool : BlockPool)
    (numSkippedTokens : ℕ → ℕ) (reqId : ρ) (newComputedBlocks : List ℕ)
    (numLocalComputedTokens numExternalComputedTokens : ℕ) :
    KeepsOthers reqId base (base.allocateNewComputedBlocks pool numSkippedTokens reqId
      newComputedBlocks numLocalComputedTokens numExternalComputedTokens).2.1 := by
  have hopened := keepsOthers_setBlocks base reqId (base.blocksOf reqId)
  have hfilled (blocks : List ℕ) := hopened.trans (keepsOthers_setBlocks _ reqId blocks)
  unfold allocateNewComputedBlocks
  split
  · split <;> exact .refl _ _
  · dsimp only
    split
    · exact hopened
    · -- Whatever happens to the pool, the list is opened, filled, or filled and extended.
      repeat' split
      all_goals first
        | exact hopened
        | exact hfilled _
        | exact (hfilled _).trans (keepsOthers_extendBlocks _ _ _ _)

theorem keepsOthers_allocateNewBlocks (base : ManagerBase ρ) (pool : BlockPool) (reqId : ρ)
    (numTokens : ℕ) : KeepsOthers reqId base (base.allocateNewBlocks pool reqId numTokens).2.1 := by
  have hopened := keepsOthers_setBlocks base reqId (base.blocksOf reqId)
  unfold allocateNewBlocks
  dsimp only
  split
  · exact hopened
  · exact hopened.trans (keepsOthers_extendBlocks _ _ _ _)

theorem subset_blocksOf_allocateNewBlocks {pool : BlockPool}
    (hblocks : (base.allocateNewBlocks pool reqId numTokens).1 = .ok blocks) :
    blocks ⊆ (base.allocateNewBlocks pool reqId numTokens).2.1.blocksOf reqId := by
  unfold allocateNewBlocks at hblocks ⊢
  dsimp only at hblocks ⊢
  split at hblocks
  · cases hblocks
    exact nil_subset _
  · next hmissing =>
    rw [if_neg hmissing, blocksOf_extendBlocks hblocks]
    exact subset_append_right _ _

variable (base : ManagerBase ρ) (pool : BlockPool)

theorem blocksOf_cacheBlocks (req : CacheRequest ρ) (numTokens : ℕ) (reqId : ρ) :
    (base.cacheBlocks pool req numTokens).2.1.blocksOf reqId = base.blocksOf reqId := by
  have hopened : (base.setBlocks req.requestId (base.blocksOf req.requestId)).blocksOf reqId =
      base.blocksOf reqId := by
    by_cases hsame : reqId = req.requestId
    · rw [hsame, blocksOf_setBlocks]
    · exact keepsOthers_setBlocks _ _ _ reqId hsame
  unfold cacheBlocks
  dsimp only
  split
  · rfl
  · split <;> exact hopened

theorem keepsOthers_free (reqId : ρ) : KeepsOthers reqId base (base.free pool reqId).2.1 := by
  intro other hne
  unfold free
  dsimp only
  split <;> simp [blocksOf, hne]

theorem keepsOthers_removeSkippedBlocks (numSkippedTokens : ℕ → ℕ) (reqId : ρ) (totalComputedTokens : ℕ) :
    KeepsOthers reqId base
      (base.removeSkippedBlocks pool numSkippedTokens reqId totalComputedTokens).2.1 := by
  unfold removeSkippedBlocks
  dsimp only
  split
  · exact .refl _ _
  · exact keepsOthers_setBlocks _ _ _

end ManagerBase

open ManagerBase

/-! ## Mamba -/

variable {numTokensMainModel : ℕ}

namespace MambaState

section

variable (state : MambaState ρ) (base : ManagerBase ρ) (pool : BlockPool) (reqId : ρ)
include state base pool reqId

theorem keepsOthers_removeSkippedBlocks (totalComputedTokens : ℕ) :
    KeepsOthers reqId base (state.removeSkippedBlocks base pool reqId totalComputedTokens).2.1 := by
  have hremoved := base.keepsOthers_removeSkippedBlocks pool getNumSkippedTokens reqId
    (totalComputedTokens - state.numSpeculativeBlocks)
  unfold removeSkippedBlocks
  dsimp only
  repeat' split
  all_goals first
    | exact hremoved
    | exact hremoved.trans (keepsOthers_setBlocks _ _ _)

/-- The aligned allocation stores a list for the request, which if it succeeds contains the blocks that
it reports and has the required length. -/
theorem allocateAligned_stores (numTokensMainModel : ℕ) :
    ∃ stored last allocated, (state.allocateAligned base pool reqId numTokensMainModel).2.1 =
        ({ state with lastStateBlockIdx := last, allocatedBlockReqs := allocated },
          base.setBlocks reqId stored) ∧
      (∀ other, other ≠ reqId → allocated other = state.allocatedBlockReqs other) ∧
      ∀ blocks, (state.allocateAligned base pool reqId numTokensMainModel).1 = .ok blocks →
        blocks ⊆ stored ∧ Foundation.BlockArithmetic.cdiv numTokensMainModel base.blockSize +
          state.numSpeculativeBlocks ≤ stored.length := by
  fun_cases allocateAligned state base pool reqId numTokensMainModel with
  | case1 _ _ _ hsame =>
    refine ⟨_, _, _, rfl, fun _ _ ↦ rfl, fun blocks hblocks ↦ ?_⟩
    cases hblocks
    exact ⟨nil_subset _, hsame.le⟩
  | case2 | case3 | case4 => exact ⟨_, _, _, rfl, fun _ _ ↦ rfl, nofun⟩
  | case5 _ _ required _ _ _ _ _ _ moved _ _ _ _ newBlocks hnew =>
    refine ⟨_, _, _, congrArg _ (setBlocks_setBlocks _ _ _ _), fun _ hne ↦ Function.update_of_ne hne _ _,
      fun blocks hblocks ↦ ?_⟩
    cases hblocks
    refine ⟨drop_subset _ _, ?_⟩
    rw [length_append, BlockPool.length_getNewBlocks hnew]
    exact le_add_tsub

theorem keepsOthers_allocateNewBlocks (numTokens numTokensMainModel : ℕ) :
    KeepsOthers reqId base (state.allocateNewBlocks base pool reqId numTokens numTokensMainModel).2.1.2 := by
  unfold allocateNewBlocks
  split
  · exact base.keepsOthers_allocateNewBlocks _ _ _
  · obtain ⟨_, _, _, hstored, -⟩ := state.allocateAligned_stores base pool reqId numTokensMainModel
    rw [hstored]
    exact keepsOthers_setBlocks _ _ _

end

theorem subset_blocksOf_allocateNewBlocks {state : MambaState ρ} {base : ManagerBase ρ} {pool : BlockPool}
    {reqId : ρ}
    (hblocks : (state.allocateNewBlocks base pool reqId numTokens numTokensMainModel).1 = .ok blocks) :
    blocks ⊆ (state.allocateNewBlocks base pool reqId numTokens numTokensMainModel).2.1.2.blocksOf reqId := by
  unfold allocateNewBlocks at hblocks ⊢
  split at hblocks
  · next hmode =>
    rw [if_pos hmode]
    exact ManagerBase.subset_blocksOf_allocateNewBlocks hblocks
  · next hmode =>
    obtain ⟨_, _, _, hstored, -, hres⟩ := state.allocateAligned_stores base pool reqId numTokensMainModel
    rw [if_neg hmode, hstored, blocksOf_setBlocks]
    exact (hres blocks hblocks).1

theorem blocksOf_cacheBlocks (state : MambaState ρ) (base : ManagerBase ρ) (pool : BlockPool)
    (req : CacheRequest ρ) (numTokens : ℕ) (reqId : ρ) :
    (state.cacheBlocks base pool req numTokens).2.1.2.blocksOf reqId = base.blocksOf reqId := by
  unfold cacheBlocks
  dsimp only
  split <;> exact base.blocksOf_cacheBlocks pool req numTokens reqId

end MambaState

/-! ## One manager -/

namespace Manager

section

variable (manager : Manager ρ)

omit [DecidableEq ρ] in
@[simp]
theorem base_withBase (base : ManagerBase ρ) : (manager.withBase base).base = base := by
  cases manager <;> rfl

omit [DecidableEq ρ] in
theorem withBase_base : manager.withBase manager.base = manager := by
  cases manager <;> rfl

theorem keepsOthers_allocateNewComputedBlocks (pool : BlockPool) (reqId : ρ) (newComputedBlocks : List ℕ)
    (numLocalComputedTokens numExternalComputedTokens : ℕ) :
    KeepsOthers reqId manager.base (manager.allocateNewComputedBlocks pool reqId
      newComputedBlocks numLocalComputedTokens numExternalComputedTokens).2.1.base := by
  have hbase := manager.base.keepsOthers_allocateNewComputedBlocks pool manager.getNumSkippedTokens
    reqId newComputedBlocks numLocalComputedTokens numExternalComputedTokens
  cases manager with
  | crossAttention base => exact .refl _ _
  | _ => exact hbase

theorem keepsOthers_allocateNewBlocks (pool : BlockPool) (reqId : ρ) (numTokens numTokensMainModel : ℕ) :
    KeepsOthers reqId manager.base
      (manager.allocateNewBlocks pool reqId numTokens numTokensMainModel).2.1.base := by
  cases manager with
  | mamba base state => exact state.keepsOthers_allocateNewBlocks base pool reqId _ _
  | _ => exact keepsOthers_allocateNewBlocks _ _ _ _

end

theorem subset_blocksOf_allocateNewBlocks {manager : Manager ρ} {pool : BlockPool} {reqId : ρ}
    (hblocks : (manager.allocateNewBlocks pool reqId numTokens numTokensMainModel).1 = .ok blocks) :
    blocks ⊆ (manager.allocateNewBlocks pool reqId numTokens numTokensMainModel).2.1.base.blocksOf reqId := by
  cases manager with
  | mamba base state => exact MambaState.subset_blocksOf_allocateNewBlocks hblocks
  | _ => exact ManagerBase.subset_blocksOf_allocateNewBlocks hblocks

section

variable (manager : Manager ρ) (pool : BlockPool)
include manager pool

theorem blocksOf_cacheBlocks (req : CacheRequest ρ) (numTokens : ℕ) (reqId : ρ) :
    (manager.cacheBlocks pool req numTokens).2.1.base.blocksOf reqId = manager.base.blocksOf reqId := by
  cases manager with
  | mamba base state => exact state.blocksOf_cacheBlocks base pool req numTokens reqId
  | crossAttention base => rfl
  | _ => exact blocksOf_cacheBlocks _ _ _ _ _

theorem keepsOthers_free (reqId : ρ) : KeepsOthers reqId manager.base (manager.free pool reqId).2.1.base := by
  cases manager <;> exact keepsOthers_free _ _ _

theorem keepsOthers_removeSkippedBlocks (reqId : ρ) (totalComputedTokens : ℕ) :
    KeepsOthers reqId manager.base (manager.removeSkippedBlocks pool reqId totalComputedTokens).2.1.base := by
  cases manager with
  | mamba base state => exact state.keepsOthers_removeSkippedBlocks base pool reqId _
  | _ => exact keepsOthers_removeSkippedBlocks _ _ _ _ _

end

end Manager

/-! ## All managers -/

section

variable {α : Type*} {method : ℕ → Manager ρ → BlockPool → Except Exn α × Manager ρ × BlockPool}

omit [DecidableEq ρ] in
theorem forEachManager_blocksOf {reqId : ρ} (hmethod : ∀ index manager pool,
      (method index manager pool).2.1.base.blocksOf reqId = manager.base.blocksOf reqId) (index : ℕ)
    (managers : List (Manager ρ)) (pool : BlockPool) :
    (forEachManager method index managers pool).2.1.map (fun manager ↦ manager.base.blocksOf reqId) =
      managers.map fun manager ↦ manager.base.blocksOf reqId := by
  induction managers generalizing index pool with
  | nil => rfl
  | cons manager rest ih =>
    unfold forEachManager
    dsimp only
    split
    · rw [map_cons, map_cons, hmethod]
    · rw [map_cons, map_cons, hmethod, ih]

omit [DecidableEq ρ] in
/-- What one call guarantees of its result and its manager holds for the lists of both. -/
theorem forEachManager_forall₂ {good : α → Manager ρ → Prop}
    (hmethod : ∀ index manager pool result, (method index manager pool).1 = .ok result →
      good result (method index manager pool).2.1)
    {index : ℕ} {managers : List (Manager ρ)} {pool : BlockPool} {results : List α}
    (hresults : (forEachManager method index managers pool).1 = .ok results) :
    Forall₂ good results (forEachManager method index managers pool).2.1 := by
  fun_induction forEachManager method index managers pool generalizing results with
  | case1 =>
    cases hresults
    exact .nil
  | case2 => cases hresults
  | case3 index manager rest pool _ result hcalled =>
    rename_i ih
    obtain ⟨_, hothers, rfl⟩ := Foundation.Loops.map_eq_ok_iff.1 hresults
    exact .cons (hmethod index manager pool result hcalled) (ih hothers)

end

namespace KVCacheManager

variable {kv : KVCacheManager ρ} {other : ρ}

omit [DecidableEq ρ] in
theorem getBlocks_runManagers {α : Type*}
    {method : ℕ → Manager ρ → BlockPool → Except Exn α × Manager ρ × BlockPool}
    (hmethod : ∀ index manager pool,
      (method index manager pool).2.1.base.blocksOf other = manager.base.blocksOf other) :
    (kv.runManagers method).2.getBlocks other = kv.getBlocks other :=
  forEachManager_blocksOf hmethod 0 _ _

section

variable (kv : KVCacheManager ρ)

theorem getBlocks_markLongRequest (reqId : ρ) (promptLen : ℕ) (other : ρ) :
    (kv.markLongRequest reqId promptLen).getBlocks other = kv.getBlocks other := by
  simp only [getBlocks, markLongRequest, map_map]
  refine map_congr_left fun manager _ ↦ ?_
  cases manager <;> rfl

theorem getBlocks_free {reqId : ρ} (hne : other ≠ reqId) :
    (kv.free reqId).2.getBlocks other = kv.getBlocks other :=
  getBlocks_runManagers fun _ manager pool ↦ manager.keepsOthers_free pool reqId other hne

theorem getBlocks_cacheBlocks (req : CacheRequest ρ) (numTokens : ℕ) (other : ρ) :
    (kv.cacheBlocks req numTokens).2.getBlocks other = kv.getBlocks other := by
  unfold cacheBlocks
  split
  · exact getBlocks_runManagers fun _ manager pool ↦ manager.blocksOf_cacheBlocks pool req numTokens other
  · rfl

theorem getBlocks_allocateBlocks (req : SlotRequest ρ) (call : SlotCall) (hne : other ≠ req.requestId) :
    (kv.allocateBlocks req call).2.getBlocks other = kv.getBlocks other := by
  have hnew (current : KVCacheManager ρ) {numTokens : Manager ρ → ℕ} {numTokensMainModel : ℕ} :
      (current.runManagers fun _ manager pool ↦ manager.allocateNewBlocks pool req.requestId
        (numTokens manager) numTokensMainModel).2.getBlocks other = current.getBlocks other :=
    getBlocks_runManagers fun _ manager pool ↦ manager.keepsOthers_allocateNewBlocks _ _ _ _ other hne
  by_cases htake : call.newComputedBlocks.isSome ∨ 0 < call.numExternalComputedTokens
  · rw [allocateBlocks, if_pos htake]
    split
    case' h_2 => refine (hnew _).trans ?_
    all_goals
      refine getBlocks_runManagers fun index manager pool ↦ ?_
      split
      · rfl
      · exact manager.keepsOthers_allocateNewComputedBlocks _ _ _ _ _ other hne
  · rw [allocateBlocks, if_neg htake]
    exact hnew kv

end

variable {req : SlotRequest ρ}

theorem reported_allocateBlocks {call : SlotCall} {blocks : List (List ℕ)}
    (hblocks : (kv.allocateBlocks req call).1 = .ok blocks) :
    Forall₂ (· ⊆ ·) blocks ((kv.allocateBlocks req call).2.getBlocks req.requestId) := by
  unfold allocateBlocks at hblocks ⊢
  dsimp only at hblocks ⊢
  split at hblocks
  · cases hblocks
  · refine forall₂_map_right_iff.2 (forEachManager_forall₂ ?_ hblocks)
    intro index manager pool result hres
    exact Manager.subset_blocksOf_allocateNewBlocks hres

section

variable (kv : KVCacheManager ρ) (req : SlotRequest ρ) (call : SlotCall)

/-- The manager with which `allocate_slots` compares the estimate: blocks that attention skips are
released, and a long request is marked. -/
def preparedSlots : KVCacheManager ρ :=
  let skipped := kv.runManagers fun _ manager pool ↦ manager.removeSkippedBlocks pool req.requestId
    (min (totalComputedTokens req call) kv.maxModelLen)
  if req.nelssaLongMask then skipped.2.markLongRequest req.requestId req.numTokens
  else skipped.2

theorem getBlocks_preparedSlots (hne : other ≠ req.requestId) :
    (kv.preparedSlots req call).getBlocks other = kv.getBlocks other := by
  have hskipped : (kv.runManagers fun _ manager pool ↦ manager.removeSkippedBlocks pool req.requestId
      (min (totalComputedTokens req call) kv.maxModelLen)).2.getBlocks other = kv.getBlocks other :=
    getBlocks_runManagers fun _ manager pool ↦ manager.keepsOthers_removeSkippedBlocks pool _ _ other hne
  unfold preparedSlots
  split
  · rw [getBlocks_markLongRequest, hskipped]
  · exact hskipped

end

/-- The rest of `allocate_slots`: compare, allocate and cache. -/
def allocatePrepared (prepared kv : KVCacheManager ρ) (req : SlotRequest ρ) (call : SlotCall) :
    Except Exn (Option (List (List ℕ))) × KVCacheManager ρ :=
  match prepared.numBlocksToAllocate req call with
  | .error exn => (.error exn, prepared)
  | .ok numBlocks =>
    if (prepared.blockPool.getNumFreeBlocks : ℤ) < numBlocks then (.ok none, prepared)
    else
      let allocated := prepared.allocateBlocks req call
      match allocated.1 with
      | .error exn => (.error exn, allocated.2)
      | .ok newBlocks =>
        if kv.enableCaching = false ∨ call.delayCacheBlocks then (.ok (some newBlocks), allocated.2)
        else
          let cached := allocated.2.runManagers fun _ manager pool ↦
            manager.cacheBlocks pool req.toCacheRequest
              (min (kv.numTokensMainModel req call) req.numTokens)
          (cached.1.map fun _ ↦ some newBlocks, cached.2)

section

variable (kv : KVCacheManager ρ) (req : SlotRequest ρ) (call : SlotCall)

theorem allocateSlots_cases :
    (∃ exn, (kv.allocateSlots req call).1 = .error exn ∧
      ∀ other, other ≠ req.requestId → (kv.allocateSlots req call).2.getBlocks other = kv.getBlocks other) ∨
    kv.allocateSlots req call = (kv.preparedSlots req call).allocatePrepared kv req call := by
  by_cases hnone : call.numNewTokens = 0 ∧ call.numExternalComputedTokens = 0
  · refine .inl ⟨_, congrArg Prod.fst (if_pos hnone), fun other _ ↦ ?_⟩
    rw [allocateSlots, if_pos hnone]
  · rw [allocateSlots, if_neg hnone]
    dsimp only
    split
    · next exn _ =>
      exact .inl ⟨exn, rfl, fun other hne ↦ getBlocks_runManagers fun _ manager pool ↦
        manager.keepsOthers_removeSkippedBlocks pool _ _ other hne⟩
    · exact .inr rfl

theorem getBlocks_allocateSlots (hne : other ≠ req.requestId) :
    (kv.allocateSlots req call).2.getBlocks other = kv.getBlocks other := by
  have hprepared := kv.getBlocks_preparedSlots req call hne
  have hallocated := ((kv.preparedSlots req call).getBlocks_allocateBlocks req call hne).trans hprepared
  rcases kv.allocateSlots_cases req call with ⟨_, -, hkept⟩ | hrest
  · exact hkept other hne
  · rw [hrest, allocatePrepared]
    split
    · exact hprepared
    · split
      · exact hprepared
      · dsimp only
        split
        · exact hallocated
        · split
          · exact hallocated
          · exact (getBlocks_runManagers fun _ manager pool ↦
              manager.blocksOf_cacheBlocks _ _ _ other).trans hallocated

end

section

variable {call : SlotCall}

/-- Without an exception there are not enough blocks, or the new blocks are allocated and perhaps cached. -/
theorem allocateSlots_ok {blocks : Option (List (List ℕ))} (hok : (kv.allocateSlots req call).1 = .ok blocks) :
    (blocks = none ∧ (kv.allocateSlots req call).2 = kv.preparedSlots req call) ∨
    ∃ newBlocks middle, blocks = some newBlocks ∧
      (kv.preparedSlots req call).allocateBlocks req call = (.ok newBlocks, middle) ∧
      ((kv.allocateSlots req call).2 = middle ∨
        ∃ results, (middle.runManagers fun _ manager pool ↦ manager.cacheBlocks pool req.toCacheRequest
          (min (kv.numTokensMainModel req call) req.numTokens)) =
            (.ok results, (kv.allocateSlots req call).2)) := by
  rcases kv.allocateSlots_cases req call with ⟨_, hexn, -⟩ | hrest
  · rw [hexn] at hok
    cases hok
  · rw [hrest] at hok ⊢
    revert hok
    fun_cases allocatePrepared (kv.preparedSlots req call) kv req call with
    | case1 | case3 => nofun
    | case2 => exact fun hok ↦ .inl ⟨(Except.ok.inj hok).symm, rfl⟩
    | case4 _ _ _ allocated newBlocks hnew =>
      exact fun hok ↦ .inr ⟨newBlocks, _, (Except.ok.inj hok).symm, Prod.ext hnew rfl, .inl rfl⟩
    | case5 _ _ _ allocated newBlocks hnew =>
      intro hok
      obtain ⟨results, hresults, hsome⟩ := Foundation.Loops.map_eq_ok_iff.1 hok
      exact .inr ⟨newBlocks, _, hsome.symm, Prod.ext hnew rfl, .inr ⟨results, Prod.ext hresults rfl⟩⟩

theorem allocateSlots_atomic (hnone : (kv.allocateSlots req call).1 = .ok none) :
    (kv.allocateSlots req call).2 = kv.preparedSlots req call := by
  rcases allocateSlots_ok hnone with ⟨-, hprepared⟩ | ⟨_, _, hsome, -⟩
  · exact hprepared
  · cases hsome

theorem reported_allocateSlots {blocks : List (List ℕ)}
    (hblocks : (kv.allocateSlots req call).1 = .ok (some blocks)) :
    Forall₂ (· ⊆ ·) blocks ((kv.allocateSlots req call).2.getBlocks req.requestId) := by
  obtain ⟨⟨⟩, -⟩ | ⟨_, _, ⟨⟩, hallocated, hlast⟩ := allocateSlots_ok hblocks
  have hreported := reported_allocateBlocks (congrArg Prod.fst hallocated)
  rw [hallocated] at hreported
  rcases hlast with hsame | ⟨_, hcached⟩
  · rw [hsame]
    exact hreported
  · rw [← congrArg Prod.snd hcached,
      getBlocks_runManagers fun _ manager pool ↦ manager.blocksOf_cacheBlocks _ _ _ _]
    exact hreported

end

end KVCacheManager

end Nelssa.Core
