import Nelssa.Core.AllocationCosts

/-!
# What one group estimates and takes

The estimate of `get_num_blocks_to_allocate` against what the two phases of an allocation take, for one
manager. The blocks that are popped depend on the lengths of block lists only. Outside align mode they
are what the last token needs beyond the blocks that the request has, which without an admission cap is
the estimate. A Mamba group in align mode pops at most one block and its speculative ones.
-/

namespace Nelssa.Core

open Foundation.BlockArithmetic MambaState
open List hiding max min lt_irrefl

variable {ρ : Type*} [DecidableEq ρ]

/-- What `allocate_slots` asks one manager for. The computed blocks are only taken when the call brings
any or brings tokens computed elsewhere. -/
structure GroupCall (ρ : Type*) where
  requestId : ρ
  takesComputed : Bool
  computed : List ℕ
  numLocalComputedTokens : ℕ
  numExternalComputedTokens : ℕ
  numTokens : ℕ
  numTokensMainModel : ℕ

def GroupCall.totalComputedTokens (group : GroupCall ρ) : ℕ :=
  group.numLocalComputedTokens + group.numExternalComputedTokens

/-- There are slots for all computed tokens. -/
structure GroupCall.Fits (group : GroupCall ρ) : Prop where
  slots : group.totalComputedTokens ≤ group.numTokens
  mainModel : group.totalComputedTokens ≤ group.numTokensMainModel

variable {pool : BlockPool} {manager : Manager ρ} {group : GroupCall ρ}

namespace Manager

/-! ## What one manager takes -/

section

variable (manager : Manager ρ) (group : GroupCall ρ)

def numSkippedBlocks : ℕ :=
  manager.getNumSkippedTokens group.totalComputedTokens / manager.base.blockSize

/-- The blocks of the request before any are popped for it, null blocks included. -/
def numLocalBlocks : ℕ :=
  max (manager.numSkippedBlocks group)
    (group.computed.length + (manager.base.blocksOf group.requestId).length)

/-- The tokens computed elsewhere that attention needs. -/
def numExternalTokens : ℕ :=
  if 0 < manager.numSkippedBlocks group then
    min (group.totalComputedTokens - manager.getNumSkippedTokens group.totalComputedTokens)
      group.numExternalComputedTokens
  else group.numExternalComputedTokens

def numExternalBlocks : ℕ :=
  if 0 < manager.numExternalTokens group then
    cdiv group.totalComputedTokens manager.base.blockSize - manager.numLocalBlocks group
  else 0

end

/-- The blocks that the last token needs; a Mamba group outside align mode adds its speculative ones. -/
def numNeededBlocks : Manager ρ → GroupCall ρ → ℕ
  | mamba base state, group =>
    cdiv (group.numTokens + base.blockSize * state.numSpeculativeBlocks) base.blockSize
  | manager, group => cdiv group.numTokens manager.base.blockSize

def isAligned : Manager ρ → Bool
  | mamba _ state => state.mambaCacheMode = .align
  | _ => false

section

variable (manager : Manager ρ) (group : GroupCall ρ)

/-- The blocks that `allocate_new_blocks` pops for a request with the given number of blocks. -/
def numMissingBlocks (numReqBlocks : ℕ) : ℕ :=
  match manager with
  | mamba base state =>
    if state.mambaCacheMode = .align then
      state.numAlignedBlocks base group.requestId group.numTokensMainModel numReqBlocks
    else (mamba base state).numNeededBlocks group - numReqBlocks
  | manager => manager.numNeededBlocks group - numReqBlocks

def numNewBlocks : ℕ :=
  manager.numExternalBlocks group +
    manager.numMissingBlocks group (manager.numLocalBlocks group + manager.numExternalBlocks group)

/-- The computed blocks that are taken out of the free queue. -/
def numEvictableBlocks (pool : BlockPool) : ℕ :=
  ManagerBase.getNumEvictableBlocks pool (group.computed.drop (manager.numSkippedBlocks group))

end

/-! ## What callers promise -/

/-- What a type of manager relies on. Mamba groups are not split by context parallelism; in align mode
`_mamba_block_aligned_split` rejects tokens computed elsewhere when more tokens are scheduled, and a
request that has been served before has its speculative blocks. Cross attention is not cached. The
estimate for long NELSSA requests is not the one of this module. -/
def ServesKind : Manager ρ → GroupCall ρ → Prop
  | slidingWindow _ window, _ => 0 < window
  | mamba base state, group =>
    base.blockSize = base.kvCacheSpec.blockSize ∧
      (state.mambaCacheMode = .align →
        (group.numExternalComputedTokens = 0 ∨
          group.numTokensMainModel = group.totalComputedTokens) ∧
        (state.allocatedBlockReqs group.requestId = true →
          state.numSpeculativeBlocks < (base.blocksOf group.requestId).length))
  | crossAttention _, group => group.computed = [] ∧ group.numExternalComputedTokens = 0
  | nelssa _ state, group => state.longRequests group.requestId = false
  | _, _ => True

/-- What callers promise a manager: only a new request comes with computed blocks or tokens computed
elsewhere, its computed blocks are full, and a running request has blocks for its computed tokens. -/
structure Serves (manager : Manager ρ) (group : GroupCall ρ) : Prop where
  fresh : group.takesComputed = true → manager.base.numCachedBlock group.requestId = none ∧
    manager.base.blocksOf group.requestId = []
  running : group.takesComputed = false → group.computed = [] ∧ group.numExternalComputedTokens = 0
  held : group.takesComputed = false → group.numLocalComputedTokens ≤
    manager.base.blockSize * (manager.base.blocksOf group.requestId).length
  caching : manager.base.enableCaching = true ∨ group.computed = []
  full : manager.base.blockSize * group.computed.length ≤ group.numLocalComputedTokens
  kind : manager.ServesKind group

/-- A Mamba group in align mode does not have more blocks than the step needs. -/
def NeedsBlocks : Manager ρ → GroupCall ρ → Prop
  | mamba base state, group => state.mambaCacheMode = .align →
      (base.blocksOf group.requestId).length ≤ state.numRequiredBlocks base group.numTokensMainModel
  | _, _ => True

/-- A request that a Mamba group in align mode has served before has its speculative blocks. -/
def HasSpeculative : Manager ρ → GroupCall ρ → Prop
  | mamba base state, group => state.mambaCacheMode = .align →
      state.allocatedBlockReqs group.requestId = true →
        state.numSpeculativeBlocks ≤ (base.blocksOf group.requestId).length
  | _, _ => True

section

omit [DecidableEq ρ]

section

variable (hserves : manager.Serves group)
include hserves

theorem Serves.getNumSkippedTokens_le (numComputedTokens : ℕ) :
    manager.getNumSkippedTokens numComputedTokens ≤ numComputedTokens := by
  have hkind := hserves.kind
  cases manager with
  | slidingWindow base window =>
    simp only [ServesKind] at hkind
    simp only [getNumSkippedTokens]
    omega
  | chunkedLocal base chunkSize => exact Nat.div_mul_le_self _ _
  | mamba base state => exact Nat.sub_le _ _
  | _ => exact Nat.zero_le _

theorem Serves.numSkippedBlocks_le :
    manager.base.blockSize * manager.numSkippedBlocks group ≤ group.totalComputedTokens :=
  (Nat.mul_div_le _ _).trans (hserves.getNumSkippedTokens_le _)

theorem Serves.numLocalBlocks_of_running (hrun : group.takesComputed = false) :
    manager.numLocalBlocks group = (manager.base.blocksOf group.requestId).length := by
  obtain ⟨hcomp, hext⟩ := hserves.running hrun
  have hskipped := hserves.numSkippedBlocks_le
  have hheld := hserves.held hrun
  have hle : manager.numSkippedBlocks group ≤ (manager.base.blocksOf group.requestId).length := by
    refine le_of_mul_le_mul_left ?_ manager.base.blockSize_pos
    unfold GroupCall.totalComputedTokens at hskipped
    omega
  rw [numLocalBlocks, hcomp, length_nil, zero_add, max_eq_right hle]

end

theorem numExternalBlocks_of_none (hext : group.numExternalComputedTokens = 0) :
    manager.numExternalBlocks group = 0 := by
  have hnone : manager.numExternalTokens group = 0 := by
    unfold numExternalTokens
    split <;> omega
  rw [numExternalBlocks, hnone, if_neg (lt_irrefl 0)]

variable (hserves : manager.Serves group)
include hserves

/-- A running request takes no computed blocks, and pops blocks in the second phase only. -/
theorem Serves.costs_of_running (hrun : group.takesComputed = false) (pool : BlockPool) :
    manager.numEvictableBlocks group pool = 0 ∧ manager.numNewBlocks group =
      manager.numMissingBlocks group (manager.base.blocksOf group.requestId).length := by
  obtain ⟨hcomp, hext⟩ := hserves.running hrun
  constructor
  · rw [numEvictableBlocks, hcomp, drop_nil]
    rfl
  · rw [numNewBlocks, numExternalBlocks_of_none hext, hserves.numLocalBlocks_of_running hrun,
      zero_add, add_zero]

theorem Serves.hasSpeculative : manager.HasSpeculative group := by
  have hkind := hserves.kind
  cases manager with
  | mamba base state => exact fun hmode hallocated ↦ ((hkind.2 hmode).2 hallocated).le
  | _ => trivial

/-- A new request gets no more blocks in the first phase than its computed tokens need. -/
theorem Serves.numLocalBlocks_add_le (htakes : group.takesComputed = true) :
    manager.numLocalBlocks group + manager.numExternalBlocks group ≤
      cdiv group.totalComputedTokens manager.base.blockSize := by
  have hpos := manager.base.blockSize_pos
  have hcover := le_mul_cdiv hpos group.totalComputedTokens
  unfold numExternalBlocks
  generalize cdiv group.totalComputedTokens manager.base.blockSize = needed at hcover ⊢
  have hskipped := le_of_mul_le_mul_left (hserves.numSkippedBlocks_le.trans hcover) hpos
  have hcomp : group.computed.length ≤ needed := by
    refine le_of_mul_le_mul_left (hserves.full.trans ?_) hpos
    unfold GroupCall.totalComputedTokens at hcover
    omega
  have hlocal : manager.numLocalBlocks group ≤ needed := by
    rw [numLocalBlocks, (hserves.fresh htakes).2]
    exact max_le hskipped hcomp
  split <;> omega

end

/-! ## The two phases of one manager -/

section

variable {start : BlockPool}

/-- The manager after the first phase: it has the blocks that the first phase counts. -/
def Continues (manager : Manager ρ) (group : GroupCall ρ) (after : Manager ρ) : Prop :=
  ∃ base, after = manager.withBase base ∧ manager.base.SameConfig base ∧
    (base.blocksOf group.requestId).length =
      manager.numLocalBlocks group + manager.numExternalBlocks group

section

variable (hserves : manager.Serves group) (htakes : group.takesComputed = true) (hgrown : start.Grown pool)
  (hbound : ∀ block ∈ group.computed, block < start.numGpuBlocks)
include hserves htakes hgrown hbound

theorem base_allocateNewComputedBlocks_spends :
    Spends start pool (manager.numExternalBlocks group)
      (manager.numEvictableBlocks group start + manager.numExternalBlocks group)
      (fun after : ManagerBase ρ ↦ manager.base.SameConfig after ∧
        (after.blocksOf group.requestId).length =
          manager.numLocalBlocks group + manager.numExternalBlocks group)
      (manager.base.allocateNewComputedBlocks pool manager.getNumSkippedTokens group.requestId
        group.computed group.numLocalComputedTokens group.numExternalComputedTokens) := by
  obtain ⟨hnew, hempty⟩ := hserves.fresh htakes
  obtain ⟨touched, htouched, hgrownTouched, hle, hge⟩ := ManagerBase.touch_of_caching hgrown manager.base
    (group.computed.drop (manager.numSkippedBlocks group))
    (hserves.caching.imp_right fun h ↦ by rw [h, drop_nil])
    (fun block hblock ↦ hbound block (mem_of_mem_drop hblock))
  let reqBlocks := replicate (manager.numSkippedBlocks group) pool.nullBlock ++
    group.computed.drop (manager.numSkippedBlocks group)
  have hlen : reqBlocks.length = manager.numLocalBlocks group := by
    rw [numLocalBlocks, hempty, length_nil, length_append, length_replicate, length_drop]
    omega
  let filled := (manager.base.setBlocks group.requestId []).setBlocks group.requestId reqBlocks
  let marked := { filled with
    numCachedBlock := Function.update filled.numCachedBlock group.requestId (some reqBlocks.length) }
  have hsame : manager.base.SameConfig marked := ⟨_, _, _, rfl⟩
  have hmarked : (marked.blocksOf group.requestId).length = manager.numLocalBlocks group := by
    rw [← hlen]
    simp [marked, filled, ManagerBase.blocksOf, ManagerBase.setBlocks]
  have hcall : manager.base.allocateNewComputedBlocks pool manager.getNumSkippedTokens group.requestId
      group.computed group.numLocalComputedTokens group.numExternalComputedTokens =
      if 0 < manager.numExternalTokens group then
        let extended := marked.extendBlocks touched group.requestId
          (cdiv group.totalComputedTokens manager.base.blockSize - reqBlocks.length)
        (extended.1.map fun _ ↦ (), extended.2)
      else (.ok (), marked, touched) := by
    simp only [ManagerBase.allocateNewComputedBlocks, hnew, hempty, ne_eq, not_true_eq_false, if_false]
    simp only [numSkippedBlocks, GroupCall.totalComputedTokens] at htouched
    rcases htouched with ⟨hflag, htouched⟩ | ⟨hflag, hnone, rfl⟩
    · simp only [hflag, if_true, htouched]
      rfl
    · simp only [hflag, hnone, Bool.false_eq_true, not_true_eq_false, if_false]
      simp only [marked, filled, reqBlocks, numSkippedBlocks, GroupCall.totalComputedTokens, hnone]
      rfl
  rw [hcall, numExternalBlocks]
  split
  · have hlocal := hserves.numLocalBlocks_add_le htakes
    rw [hlen, ← Nat.cast_sub (by omega)]
    have hextended := ManagerBase.extendBlocks_spends hgrownTouched marked group.requestId
      (cdiv group.totalComputedTokens manager.base.blockSize - manager.numLocalBlocks group)
    rw [hmarked] at hextended
    have hbehind := hextended.behind (show touched.getNumFreeBlocks + 0 ≤ _ from hle) hge
    rw [zero_add] at hbehind
    exact (hbehind.mapResult fun _ ↦ ()).imp fun _ hafter ↦ hafter.imp_left hsame.trans
  · exact ⟨fun _ ↦ ⟨(), rfl⟩, fun _ _ ↦ hgrownTouched, fun _ _ ↦ hle, fun _ _ ↦ hge,
      fun _ _ ↦ ⟨hsame, hmarked⟩⟩

theorem allocateNewComputedBlocks_spends :
    Spends start pool (manager.numExternalBlocks group)
      (manager.numEvictableBlocks group start + manager.numExternalBlocks group)
      (manager.Continues group)
      (manager.allocateNewComputedBlocks pool group.requestId group.computed
        group.numLocalComputedTokens group.numExternalComputedTokens) := by
  have hbase := base_allocateNewComputedBlocks_spends hserves htakes hgrown hbound
  cases manager with
  | crossAttention base =>
    obtain ⟨hcomp, hext⟩ := hserves.kind
    have hkept : (crossAttention base).Continues group (crossAttention base) := by
      refine ⟨base, rfl, ⟨_, _, _, rfl⟩, ?_⟩
      rw [numExternalBlocks_of_none hext, numLocalBlocks, numSkippedBlocks, hcomp]
      simp [getNumSkippedTokens, Manager.base]
    simp only [numExternalBlocks_of_none hext, numEvictableBlocks, hcomp, drop_nil]
    exact .pure hgrown () hkept
  | _ => exact hbase.mapAfter fun base hafter ↦ ⟨base, rfl, hafter⟩

end

theorem allocateNewBlocks_spends (hgrown : start.Grown pool) (hneeds : manager.NeedsBlocks group)
    (hallocated : manager.HasSpeculative group) :
    Spends start pool (manager.numMissingBlocks group (manager.base.blocksOf group.requestId).length)
      (manager.numMissingBlocks group (manager.base.blocksOf group.requestId).length)
      (fun _ ↦ True)
      (manager.allocateNewBlocks pool group.requestId group.numTokens group.numTokensMainModel) := by
  have hbase := (manager.base.allocateNewBlocks_spends hgrown group.requestId group.numTokens).forget
    manager.withBase
  cases manager with
  | mamba base state =>
    simp only [allocateNewBlocks, numMissingBlocks, MambaState.allocateNewBlocks]
    by_cases hmode : state.mambaCacheMode = .align
    · rw [if_pos hmode, if_neg (not_not.2 hmode)]
      exact (allocateAligned_spends hgrown (hneeds hmode) (hallocated hmode)).forget
        fun after ↦ mamba after.2 after.1
    · rw [if_neg hmode, if_pos hmode]
      exact (base.allocateNewBlocks_spends hgrown _ _).forget fun after ↦ mamba after state
  | _ => exact hbase

theorem Continues.allocateNewBlocks_spends {after : Manager ρ} (hafter : manager.Continues group after)
    (hserves : manager.Serves group) (htakes : group.takesComputed = true) (hfits : group.Fits)
    (hgrown : start.Grown pool) :
    Spends start pool
      (manager.numMissingBlocks group (manager.numLocalBlocks group + manager.numExternalBlocks group))
      (manager.numMissingBlocks group (manager.numLocalBlocks group + manager.numExternalBlocks group))
      (fun _ ↦ True)
      (after.allocateNewBlocks pool group.requestId group.numTokens group.numTokensMainModel) := by
  obtain ⟨base, rfl, ⟨_, _, _, hbase⟩, hlen⟩ := hafter
  have hmissing (numReqBlocks : ℕ) : (manager.withBase base).numMissingBlocks group numReqBlocks =
      manager.numMissingBlocks group numReqBlocks := by
    subst hbase
    cases manager <;> rfl
  have hneeds : (manager.withBase base).NeedsBlocks group := by
    have hlocal := hserves.numLocalBlocks_add_le htakes
    cases manager with
    | mamba old state =>
      intro _
      have hmono := cdiv_mono old.blockSize_pos hfits.mainModel
      have hsize : base.blockSize = old.blockSize := by rw [hbase]; rfl
      rw [numRequiredBlocks, hlen, hsize]
      exact (hlocal.trans hmono).trans (Nat.le_add_right _ _)
    | _ => trivial
  have hspeculative : (manager.withBase base).HasSpeculative group := by
    cases manager with
    | mamba old state =>
      intro hmode hallocated
      have hheld := (hserves.kind.2 hmode).2 hallocated
      have hempty : old.blocksOf group.requestId = [] := (hserves.fresh htakes).2
      rw [hempty] at hheld
      exact (Nat.not_lt_zero _ hheld).elim
    | _ => trivial
  have hspends := Manager.allocateNewBlocks_spends hgrown hneeds hspeculative
  rwa [base_withBase, hlen, hmissing] at hspends

end

end Manager

/-! ## The estimate of one manager -/

/-- The required blocks of an estimate: at most the admission cap. -/
def ManagerBase.cappedBlocks (base : ManagerBase ρ) (neededBlocks : ℕ) : ℕ :=
  match base.maxAdmissionBlocksPerRequest with
  | none => neededBlocks
  | some maxBlocks => min neededBlocks maxBlocks

open ManagerBase

variable {base : ManagerBase ρ}

omit [DecidableEq ρ] in
theorem ManagerBase.cappedBlocks_of_none (hcap : base.maxAdmissionBlocksPerRequest = none)
    (neededBlocks : ℕ) : base.cappedBlocks neededBlocks = neededBlocks := by
  rw [cappedBlocks, hcap]

omit [DecidableEq ρ] in
theorem ManagerBase.getNumBlocksToAllocate_eq {numSkippedTokens : ℕ → ℕ} {requestId : ρ}
    {newComputedBlocks : List ℕ} {totalComputedTokens : ℕ}
    (hcase : base.numCachedBlock requestId = none ∧ base.blocksOf requestId = [] ∨
      newComputedBlocks = [] ∧ numSkippedTokens totalComputedTokens / base.blockSize ≤
        (base.blocksOf requestId).length) (pool : BlockPool) (numTokens : ℕ) :
    base.getNumBlocksToAllocate pool numSkippedTokens requestId numTokens newComputedBlocks
        totalComputedTokens =
      .ok ((base.cappedBlocks (cdiv numTokens base.blockSize) -
        max (numSkippedTokens totalComputedTokens / base.blockSize)
          (newComputedBlocks.length + (base.blocksOf requestId).length) +
        getNumEvictableBlocks pool (newComputedBlocks.drop
          (numSkippedTokens totalComputedTokens / base.blockSize)) : ℕ) : ℤ) := by
  unfold getNumBlocksToAllocate cappedBlocks
  dsimp only
  rcases hcase with ⟨hnew, hempty⟩ | ⟨rfl, hskipped⟩
  · rw [hnew, hempty]
    rfl
  · rw [drop_nil, drop_nil, length_nil, zero_add, max_eq_right hskipped]
    split <;> rfl

namespace Manager

/-- The blocks that a manager outside align mode estimates, without the computed ones. -/
def numEstimatedBlocks (manager : Manager ρ) (group : GroupCall ρ) : ℕ :=
  manager.base.cappedBlocks (manager.numNeededBlocks group) - manager.numLocalBlocks group

def estimate (manager : Manager ρ) (pool : BlockPool) (group : GroupCall ρ) : Except Exn ℤ :=
  manager.getNumBlocksToAllocate pool group.requestId group.numTokens group.computed
    group.totalComputedTokens group.numTokensMainModel

variable {state : MambaState ρ}

section

omit [DecidableEq ρ]

theorem Serves.base_estimate (hserves : manager.Serves group) (pool : BlockPool) (numTokens : ℕ) :
    manager.base.getNumBlocksToAllocate pool manager.getNumSkippedTokens group.requestId numTokens
        group.computed group.totalComputedTokens =
      .ok ((manager.base.cappedBlocks (cdiv numTokens manager.base.blockSize) -
        manager.numLocalBlocks group + manager.numEvictableBlocks group pool : ℕ) : ℤ) := by
  refine getNumBlocksToAllocate_eq ?_ pool numTokens
  cases htakes : group.takesComputed with
  | true => exact .inl (hserves.fresh htakes)
  | false =>
    refine .inr ⟨(hserves.running htakes).1, ?_⟩
    rw [← hserves.numLocalBlocks_of_running htakes]
    exact le_max_left _ _

/-- Outside align mode the two phases pop what the last token needs beyond the local blocks. -/
theorem Serves.numNewBlocks_eq (hserves : manager.Serves group) (hfits : group.Fits)
    (halign : manager.isAligned = false) :
    manager.numNewBlocks group = manager.numNeededBlocks group - manager.numLocalBlocks group := by
  have hmissing (numReqBlocks : ℕ) : manager.numMissingBlocks group numReqBlocks =
      manager.numNeededBlocks group - numReqBlocks := by
    cases manager with
    | mamba base state => exact if_neg (by simpa [isAligned] using halign)
    | _ => rfl
  have hneeded : cdiv group.totalComputedTokens manager.base.blockSize ≤ manager.numNeededBlocks group := by
    have hpos := manager.base.blockSize_pos
    have hmono := cdiv_mono hpos hfits.slots
    cases manager with
    | mamba base state => exact hmono.trans (cdiv_mono hpos (Nat.le_add_right _ _))
    | _ => exact hmono
  rw [numNewBlocks, hmissing]
  cases htakes : group.takesComputed with
  | true =>
    have hlocal := hserves.numLocalBlocks_add_le htakes
    omega
  | false =>
    rw [numExternalBlocks_of_none (hserves.running htakes).2]
    omega

/-- The estimate of a Mamba group in align mode covers the blocks that it pops. -/
theorem Serves.numNewBlocks_le_of_aligned (hserves : (mamba base state).Serves group) (hfits : group.Fits)
    (hmode : state.mambaCacheMode = .align) (hneeds : (mamba base state).NeedsBlocks group) :
    (group.computed.length + (base.blocksOf group.requestId).length ≤
        state.numRequiredBlocks base group.numTokensMainModel) ∧
      (mamba base state).numNewBlocks group ≤
        if group.computed.length + (base.blocksOf group.requestId).length <
            state.numRequiredBlocks base group.numTokensMainModel then
          if state.allocatedBlockReqs group.requestId then 1 else 1 + state.numSpeculativeBlocks
        else 0 := by
  have hmissing (numReqBlocks : ℕ) : (mamba base state).numMissingBlocks group numReqBlocks =
      state.numAlignedBlocks base group.requestId group.numTokensMainModel numReqBlocks :=
    if_pos hmode
  rw [numNewBlocks, hmissing]
  cases htakes : group.takesComputed with
  | true =>
    have hempty : base.blocksOf group.requestId = [] := (hserves.fresh htakes).2
    obtain ⟨hext, hallocated⟩ := hserves.kind.2 hmode
    have hunserved : state.allocatedBlockReqs group.requestId = false := by
      rw [Bool.eq_false_iff]
      intro hserved
      have hlt := hallocated hserved
      rw [hempty] at hlt
      exact Nat.not_lt_zero _ hlt
    have hlocal := hserves.numLocalBlocks_add_le htakes
    have hmono := cdiv_mono base.blockSize_pos hfits.mainModel
    have hcomp : group.computed.length ≤ (mamba base state).numLocalBlocks group :=
      (Nat.le_add_right _ _).trans (le_max_right _ _)
    have hskipped : (group.totalComputedTokens - 1) / base.blockSize ≤
        (mamba base state).numLocalBlocks group := le_max_left _ _
    have hlast := cdiv_le_pred_div_succ base.blockSize_pos group.totalComputedTokens
    rw [hempty]
    simp only [Manager.base, numAlignedBlocks, hunserved, numRequiredBlocks, length_nil, Bool.false_eq_true,
      if_false] at hlocal ⊢
    rcases hext with hnone | hsame
    · rw [numExternalBlocks_of_none hnone] at hlocal ⊢
      split_ifs <;> omega
    · rw [hsame] at hmono ⊢
      split_ifs <;> omega
  | false =>
    obtain ⟨hcomp, hext⟩ := hserves.running htakes
    have hheld := hneeds hmode
    rw [numExternalBlocks_of_none hext, hserves.numLocalBlocks_of_running htakes, hcomp,
      length_nil, zero_add, zero_add]
    refine ⟨hheld, ?_⟩
    change state.numAlignedBlocks base group.requestId group.numTokensMainModel
      (base.blocksOf group.requestId).length ≤ _
    unfold numAlignedBlocks
    dsimp only
    split_ifs <;> omega

theorem Serves.estimate_eq (hserves : manager.Serves group)
    (hmamba : ∀ base state, manager ≠ mamba base state) (pool : BlockPool) :
    manager.estimate pool group =
      .ok ((manager.numEstimatedBlocks group + manager.numEvictableBlocks group pool : ℕ) : ℤ) := by
  have hbase := hserves.base_estimate pool group.numTokens
  have hkind := hserves.kind
  cases manager with
  | mamba base state => exact (hmamba base state rfl).elim
  | nelssa base state =>
    rw [estimate, getNumBlocksToAllocate, NelssaState.getNumBlocksToAllocate,
      if_neg (Bool.eq_false_iff.1 hkind)]
    exact hbase
  | _ => exact hbase

/-- The estimate of a Mamba group: out of reach for a request that is put off to the next step, or the
one of its mode. -/
theorem mamba_estimate_cases (base : ManagerBase ρ) (state : MambaState ρ) (pool : BlockPool)
    (group : GroupCall ρ) :
    (group.computed ≠ [] ∧ (mamba base state).estimate pool group = .ok (pool.numGpuBlocks + 1)) ∨
    (state.mambaCacheMode ≠ .align ∧ (mamba base state).estimate pool group =
      base.getNumBlocksToAllocate pool MambaState.getNumSkippedTokens group.requestId
        (group.numTokens + base.kvCacheSpec.blockSize * state.numSpeculativeBlocks) group.computed
        group.totalComputedTokens) ∨
    (state.mambaCacheMode = .align ∧ ∃ missing : ℤ,
      missing = state.numRequiredBlocks base group.numTokensMainModel - group.computed.length -
        (base.blocksOf group.requestId).length ∧
      (mamba base state).estimate pool group = .ok ((if 0 < missing then
          if state.allocatedBlockReqs group.requestId then 1 else 1 + (state.numSpeculativeBlocks : ℤ)
        else missing) + getNumEvictableBlocks pool group.computed)) := by
  generalize hvalue : (mamba base state).estimate pool group = value
  rcases ite_eq_iff.1 hvalue with ⟨hcached, rfl⟩ | ⟨-, hmodes⟩
  · refine .inl ⟨fun hnone ↦ ?_, rfl⟩
    rw [hnone] at hcached
    cases hcached
  · rcases ite_eq_iff.1 hmodes with ⟨hmode, rfl⟩ | ⟨hmode, rfl⟩
    · exact .inr (.inl ⟨hmode, rfl⟩)
    · exact .inr (.inr ⟨not_not.1 hmode, _, rfl, rfl⟩)

theorem Serves.exists_estimate (hserves : manager.Serves group) (pool : BlockPool) :
    ∃ value, manager.estimate pool group = .ok value := by
  by_cases hmamba : ∃ base state, manager = mamba base state
  · obtain ⟨base, state, rfl⟩ := hmamba
    rcases mamba_estimate_cases base state pool group with
      ⟨-, hest⟩ | ⟨-, hest⟩ | ⟨-, _, -, hest⟩
    · exact ⟨_, hest⟩
    · exact ⟨_, hest.trans (hserves.base_estimate pool _)⟩
    · exact ⟨_, hest⟩
  · exact ⟨_, hserves.estimate_eq (by simpa using hmamba) pool⟩

theorem estimate_congr (hcomp : group.computed = []) (manager : Manager ρ) (pool other : BlockPool) :
    manager.estimate pool group = manager.estimate other group := by
  have hbase (base : ManagerBase ρ) (skipped : ℕ → ℕ) (numTokens : ℕ) :
      base.getNumBlocksToAllocate pool skipped group.requestId numTokens [] group.totalComputedTokens =
        base.getNumBlocksToAllocate other skipped group.requestId numTokens [] group.totalComputedTokens := by
    simp only [ManagerBase.getNumBlocksToAllocate, drop_nil]
    rfl
  unfold estimate
  rw [hcomp]
  cases manager with
  | mamba base state =>
    simp only [getNumBlocksToAllocate, MambaState.getNumBlocksToAllocate, getLast?_nil, hbase]
    rfl
  | nelssa base state =>
    simp [getNumBlocksToAllocate, NelssaState.getNumBlocksToAllocate, hbase]
  | _ => exact hbase _ _ _

end

/-- An estimate that covers what an allocation takes, or that no pool can meet. -/
def Covers (manager : Manager ρ) (pool : BlockPool) (group : GroupCall ρ) : Prop :=
  ∃ value, manager.estimate pool group = .ok value ∧ 0 ≤ value ∧
    (((manager.numEvictableBlocks group pool + manager.numNewBlocks group : ℕ) : ℤ) ≤ value ∨
      (pool.getNumFreeBlocks : ℤ) < value)

variable {held : ℕ → ℕ}

omit [DecidableEq ρ] in
theorem Serves.mamba_covers (hserves : (mamba base state).Serves group) (hfits : group.Fits)
    (hneeds : (mamba base state).NeedsBlocks group)
    (hcap : (mamba base state).base.maxAdmissionBlocksPerRequest = none) {free : List ℕ}
    (hrefs : pool.Refs held free) : (mamba base state).Covers pool group := by
  rcases mamba_estimate_cases base state pool group with
    ⟨-, hest⟩ | ⟨hmode, hest⟩ | ⟨hmode, _, hmissing, hest⟩
  · have hfree := hrefs.getNumFreeBlocks_le
    exact ⟨_, hest, by omega, .inr (by omega)⟩
  · have hnew := hserves.numNewBlocks_eq hfits (by simpa [isAligned] using hmode)
    have hbase := hserves.base_estimate pool (group.numTokens + base.blockSize * state.numSpeculativeBlocks)
    rw [← hserves.kind.1] at hest
    refine ⟨_, hest.trans hbase, Int.natCast_nonneg _, .inl ?_⟩
    rw [hnew, cappedBlocks_of_none hcap, add_comm]
    exact le_rfl
  · obtain ⟨hle, hnew⟩ := hserves.numNewBlocks_le_of_aligned hfits hmode hneeds
    have hevictable : (mamba base state).numEvictableBlocks group pool ≤
        getNumEvictableBlocks pool group.computed :=
      Sublist.countP_le (drop_sublist _ _)
    refine ⟨_, hest, ?_, .inl ?_⟩
    · split_ifs <;> omega
    · split_ifs at hnew ⊢ <;> omega

omit [DecidableEq ρ] in
theorem Serves.covers (hserves : manager.Serves group) (hfits : group.Fits)
    (hneeds : manager.NeedsBlocks group) (hcap : manager.base.maxAdmissionBlocksPerRequest = none)
    {free : List ℕ} (hrefs : pool.Refs held free) : manager.Covers pool group := by
  by_cases hmamba : ∃ base state, manager = mamba base state
  · obtain ⟨base, state, rfl⟩ := hmamba
    exact hserves.mamba_covers hfits hneeds hcap hrefs
  · simp only [not_exists] at hmamba
    have halign : manager.isAligned = false := by
      cases manager with
      | mamba base state => exact (hmamba base state rfl).elim
      | _ => rfl
    have hnew := hserves.numNewBlocks_eq hfits halign
    refine ⟨_, hserves.estimate_eq hmamba pool, Int.natCast_nonneg _, .inl ?_⟩
    rw [hnew, numEstimatedBlocks, cappedBlocks_of_none hcap, add_comm]

end Manager

end Nelssa.Core
