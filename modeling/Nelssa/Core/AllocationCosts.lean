import Nelssa.Core.Admission
import Nelssa.Core.HeldBlocks

/-!
# What an allocation takes from the free queue

`allocate_slots` allocates in two phases: every manager first takes the computed blocks of a new request,
with blocks for tokens computed elsewhere behind them, and then fills the block list up to the last token.
`Spends` bounds what a call takes from the free queue from both sides. The lower bound counts the blocks
that the call pops; the upper bound adds the computed blocks that nobody held before the allocation, of
which an earlier manager may have popped some.
-/

namespace Nelssa.Core

open Foundation.BlockArithmetic ManagerBase
open List hiding min lt_irrefl not_le not_lt

variable {ρ : Type*} [DecidableEq ρ]

/-! ## Pools along an allocation -/

variable {start pool : BlockPool} {middle : BlockPool}

namespace BlockPool

variable {held : ℕ → ℕ} {free : List ℕ}

/-- A pool after calls that hand out and touch blocks: no block has lost a holder. -/
structure Grown (start pool : BlockPool) : Prop where
  startRefs : ∃ held free, start.Refs held free
  refs : ∃ held free, pool.Refs held free
  numGpuBlocks_eq : pool.numGpuBlocks = start.numGpuBlocks
  refCnt_le : ∀ block, block ≠ 0 → start.refCnt block ≤ pool.refCnt block

theorem Grown.refl (hpool : pool.Refs held free) : pool.Grown pool :=
  ⟨⟨held, free, hpool⟩, ⟨held, free, hpool⟩, rfl, fun _ _ ↦ le_rfl⟩

theorem Grown.trans (hfirst : start.Grown middle) (hsecond : middle.Grown pool) : start.Grown pool :=
  ⟨hfirst.startRefs, hsecond.refs, hsecond.numGpuBlocks_eq.trans hfirst.numGpuBlocks_eq,
    fun block hne ↦ (hfirst.refCnt_le block hne).trans (hsecond.refCnt_le block hne)⟩

theorem Refs.getNumFreeBlocks_le
    (hpool : pool.Refs held free) : pool.getNumFreeBlocks ≤ pool.numGpuBlocks := by
  have hsubset := fun block hblock ↦
    mem_range.2 (hpool.bound block hblock)
  have hle := (subperm_of_subset hpool.represents.isQueue.nodup hsubset).length_le
  rwa [← hpool.getNumFreeBlocks_eq, length_range] at hle

theorem Refs.grown {after : BlockPool} {more : ℕ → ℕ} {rest : List ℕ}
    (hpool : pool.Refs held free) (hnum : after.numGpuBlocks = pool.numGpuBlocks)
    (hafter : after.Refs (fun block ↦ held block + more block) rest) : pool.Grown after where
  startRefs := ⟨held, free, hpool⟩
  refs := ⟨_, _, hafter⟩
  numGpuBlocks_eq := hnum
  refCnt_le := by
    intro block hne
    rw [hpool.refs block hne, hafter.refs block hne]
    omega

theorem Grown.getNumEvictableBlocks_le (hgrown : start.Grown pool) (blocks : List ℕ) :
    getNumEvictableBlocks pool blocks ≤ getNumEvictableBlocks start blocks := by
  obtain ⟨_, _, hpool⟩ := hgrown.refs
  obtain ⟨heldStart, _, hstart⟩ := hgrown.startRefs
  refine countP_mono_left fun block _ hblock ↦ ?_
  simp only [decide_eq_true_eq] at hblock ⊢
  have hne : block ≠ 0 := fun h ↦ by
    rw [(hpool.isNull_iff block).2 h] at hblock
    exact Bool.noConfusion hblock.2
  have hle := hgrown.refCnt_le block hne
  have hrefs := hstart.refs block hne
  refine ⟨by omega, Bool.eq_false_iff.2 (mt (hstart.isNull_iff block).1 hne)⟩

theorem touch_numGpuBlocks (pool : BlockPool) (blocks : List ℕ) :
    (pool.touch blocks).2.numGpuBlocks = pool.numGpuBlocks := by
  induction blocks generalizing pool with
  | nil => rfl
  | cons block rest ih =>
    unfold touch
    repeat' split
    all_goals first
      | rfl
      | exact ih _

theorem Refs.grown_touch {blocks : List ℕ}
    (hpool : pool.Refs held free) (hblocks : ∀ block ∈ blocks, block < pool.numGpuBlocks) :
    pool.Grown (pool.touch blocks).2 := by
  obtain ⟨-, _, hafter⟩ := hpool.touch hblocks
  exact hpool.grown (pool.touch_numGpuBlocks blocks) hafter

theorem Refs.grown_getNewBlocks
    (hpool : pool.Refs held free) {numBlocks : ℕ} (hnum : numBlocks ≤ pool.getNumFreeBlocks) :
    pool.Grown (pool.getNewBlocks numBlocks).2 := by
  obtain ⟨_, _, _, _, hframe⟩ := pool.getNewBlocks_frame numBlocks
  exact hpool.grown (by rw [hframe]) (hpool.getNewBlocks hnum).2

theorem Refs.touch_bounds {blocks : List ℕ}
    (hpool : pool.Refs held free) (hblocks : ∀ block ∈ blocks, block < pool.numGpuBlocks) :
    (pool.touch blocks).2.getNumFreeBlocks ≤ pool.getNumFreeBlocks ∧
      pool.getNumFreeBlocks ≤ (pool.touch blocks).2.getNumFreeBlocks + getNumEvictableBlocks pool blocks := by
  induction blocks generalizing pool held free with
  | nil => exact ⟨le_rfl, le_rfl⟩
  | cons block rest ih =>
    obtain ⟨_, _, htouch, hnext, hlen⟩ := hpool.touch_cons (hblocks block mem_cons_self) rest
    obtain ⟨hle, hge⟩ := ih hnext fun other hother ↦ hblocks other (mem_cons_of_mem block hother)
    have hgrown := hpool.grown (by rfl) hnext
    have hrest := hgrown.getNumEvictableBlocks_le rest
    have hcons : getNumEvictableBlocks pool (block :: rest) =
        getNumEvictableBlocks pool rest +
          if pool.refCnt block = 0 ∧ pool.isNull block = false then 1 else 0 := by
      simp [getNumEvictableBlocks, countP_cons]
    rw [hnext.getNumFreeBlocks_eq] at hle hge
    rw [htouch, hpool.getNumFreeBlocks_eq]
    omega

/-- There are pools with any number of free blocks in which all blocks up to a bound are in use. -/
theorem exists_refs (bound count : ℕ) :
    ∃ pool : BlockPool, (∃ held free, pool.Refs held free) ∧ pool.getNumFreeBlocks = count ∧
      bound < pool.numGpuBlocks ∧ ∀ block, block ≠ 0 → block ≤ bound → 0 < pool.refCnt block := by
  obtain ⟨start, hinit, hnum, -, -, hcount⟩ := exists_init (bound + count) false 1
  obtain ⟨-, -, -, _, hstart⟩ := init_spec hinit
  have hbound : ∀ block ∈ List.range' 1 bound, block < start.numGpuBlocks := by
    intro block hblock
    rw [mem_range'_1] at hblock
    omega
  have hunused : getNumEvictableBlocks start (List.range' 1 bound) = bound := by
    rw [getNumEvictableBlocks, countP_eq_length.2, length_range']
    intro block hblock
    have hne : block ≠ 0 := by
      rw [mem_range'_1] at hblock
      omega
    simp [hstart.refs block hne, Bool.eq_false_iff.2 (mt (hstart.isNull_iff block).1 hne)]
  obtain ⟨-, free', htouched⟩ := hstart.touch hbound
  have hfree := hstart.getNumFreeBlocks_touch hbound nodup_range'
  refine ⟨(start.touch _).2, ⟨_, free', htouched⟩, by omega, ?_, ?_⟩
  · rw [touch_numGpuBlocks]
    omega
  · intro block hne hle
    have hmem : block ∈ List.range' 1 bound := by
      rw [mem_range'_1]
      omega
    rw [htouched.refs block hne, zero_add]
    exact_mod_cast count_pos_iff.2 hmem

end BlockPool

/-! ## Calls with known costs -/

/-- What a call on a pool takes from the free queue lies between two bounds, and with as many free blocks
as the upper bound the call succeeds. Pools are compared with the one at the start of the allocation. -/
structure Spends {α β : Type*} (start pool : BlockPool) (lower upper : ℕ) (good : β → Prop)
    (called : Except Exn α × β × BlockPool) : Prop where
  succeeds : upper ≤ pool.getNumFreeBlocks → ∃ result, called.1 = .ok result
  grown : ∀ result, called.1 = .ok result → start.Grown called.2.2
  lower_le : ∀ result, called.1 = .ok result →
    called.2.2.getNumFreeBlocks + lower ≤ pool.getNumFreeBlocks
  le_upper : ∀ result, called.1 = .ok result →
    pool.getNumFreeBlocks ≤ called.2.2.getNumFreeBlocks + upper
  result : ∀ result, called.1 = .ok result → good called.2.1

namespace Spends

variable {α β γ : Type*} {lower upper : ℕ} {good : β → Prop} {called : Except Exn α × β × BlockPool}

theorem pure (hgrown : start.Grown pool) (value : α) {after : β} (hgood : good after) :
    Spends start pool 0 0 good ((.ok value : Except Exn α), after, pool) where
  succeeds := fun _ ↦ ⟨value, rfl⟩
  grown := fun _ _ ↦ hgrown
  lower_le := fun _ _ ↦ le_rfl
  le_upper := fun _ _ ↦ le_rfl
  result := fun _ _ ↦ hgood

theorem failed (hfew : ¬ upper ≤ pool.getNumFreeBlocks) (exn : Exn) (after : β) (other : BlockPool) :
    Spends start pool lower upper good ((.error exn : Except Exn α), after, other) where
  succeeds := fun hupper ↦ (hfew hupper).elim
  grown := fun _ hres ↦ nomatch hres
  lower_le := fun _ hres ↦ nomatch hres
  le_upper := fun _ hres ↦ nomatch hres
  result := fun _ hres ↦ nomatch hres

section

variable (hcalled : Spends start pool lower upper good called)
include hcalled

theorem mapResult (f : α → γ) : Spends start pool lower upper good (called.1.map f, called.2) := by
  have hinv {value : γ} (h : called.1.map f = .ok value) : ∃ result, called.1 = .ok result := by
    obtain ⟨result, hres, -⟩ := Foundation.Loops.map_eq_ok_iff.1 h
    exact ⟨result, hres⟩
  constructor
  · intro hupper
    obtain ⟨result, hres⟩ := hcalled.succeeds hupper
    exact ⟨f result, by rw [hres]; rfl⟩
  all_goals
    intro value hvalue
    obtain ⟨result, hres⟩ := hinv hvalue
  · exact hcalled.grown result hres
  · exact hcalled.lower_le result hres
  · exact hcalled.le_upper result hres
  · exact hcalled.result result hres

theorem imp {good' : β → Prop}
    (hgood : ∀ after, good after → good' after) : Spends start pool lower upper good' called :=
  { hcalled with result := fun value hvalue ↦ hgood _ (hcalled.result value hvalue) }

theorem mapAfter {g : β → γ} {good' : γ → Prop} (hgood : ∀ after, good after → good' (g after)) :
    Spends start pool lower upper good' (called.1, g called.2.1, called.2.2) :=
  { hcalled with result := fun value hvalue ↦ hgood _ (hcalled.result value hvalue) }

theorem forget (g : β → γ) :
    Spends start pool lower upper (fun _ ↦ True) (called.1, g called.2.1, called.2.2) :=
  hcalled.mapAfter fun _ _ ↦ trivial

end

theorem behind {lowerBefore upperBefore : ℕ}
    (hlower : middle.getNumFreeBlocks + lowerBefore ≤ pool.getNumFreeBlocks)
    (hupper : pool.getNumFreeBlocks ≤ middle.getNumFreeBlocks + upperBefore)
    (hcalled : Spends start middle lower upper good called) :
    Spends start pool (lowerBefore + lower) (upperBefore + upper) good called where
  succeeds := fun hfree ↦ hcalled.succeeds (by omega)
  grown := hcalled.grown
  lower_le := fun value hvalue ↦ by
    have hbound := hcalled.lower_le value hvalue
    omega
  le_upper := fun value hvalue ↦ by
    have hbound := hcalled.le_upper value hvalue
    omega
  result := hcalled.result

end Spends

omit [DecidableEq ρ] in
theorem forEachManager_spends {α ι : Type*}
    {method : ℕ → Manager ρ → BlockPool → Except Exn α × Manager ρ × BlockPool} {lower upper : ι → ℕ}
    {good : ι → Manager ρ → Prop} {entries : List ι} {managers : List (Manager ρ)} {first : ℕ}
    (hcalls : List.Forall₂ (fun entry indexed ↦ ∀ pool, start.Grown pool →
      Spends start pool (lower entry) (upper entry) (good entry) (method indexed.2 indexed.1 pool))
      entries (managers.zipIdx first)) (hgrown : start.Grown pool) :
    Spends start pool (entries.map lower).sum (entries.map upper).sum (List.Forall₂ good entries)
      (forEachManager method first managers pool) := by
  induction managers generalizing entries first pool with
  | nil =>
    cases hcalls
    exact .pure hgrown [] .nil
  | cons manager rest ih =>
    cases hcalls with
    | @cons entry _ others _ hhead hrest =>
      have hcall := hhead pool hgrown
      rw [map_cons, map_cons, sum_cons, sum_cons]
      unfold forEachManager
      dsimp only at hcall ⊢
      cases hcalled : (method first manager pool).1 with
      | error exn =>
        refine .failed (fun hupper ↦ ?_) _ _ _
        obtain ⟨result, hres⟩ := hcall.succeeds (by omega)
        rw [hcalled] at hres
        cases hres
      | ok result =>
        refine .behind (hcall.lower_le result hcalled) (hcall.le_upper result hcalled) ?_
        exact ((ih hrest (hcall.grown result hcalled)).mapResult fun results ↦ result :: results).mapAfter
          fun _ hothers ↦ .cons (hcall.result result hcalled) hothers

/-! ## Extending the blocks of a request -/

variable {base : ManagerBase ρ}

namespace ManagerBase

/-- The same manager up to its block lists and what goes with them. -/
def SameConfig (base after : ManagerBase ρ) : Prop :=
  ∃ ids blocks cached,
    after = { base with newBlockIds := ids, reqToBlocks := blocks, numCachedBlock := cached }

omit [DecidableEq ρ] in
theorem SameConfig.trans {middle after : ManagerBase ρ} (hfirst : base.SameConfig middle)
    (hsecond : middle.SameConfig after) : base.SameConfig after := by
  obtain ⟨_, _, _, rfl⟩ := hfirst
  obtain ⟨ids, blocks, cached, rfl⟩ := hsecond
  exact ⟨ids, blocks, cached, rfl⟩

omit [DecidableEq ρ] in
theorem sameConfig_recordNewBlocks (base : ManagerBase ρ) (blocks : List ℕ) :
    base.SameConfig (base.recordNewBlocks blocks) := by
  unfold recordNewBlocks
  split <;> exact ⟨_, _, _, rfl⟩

theorem sameConfig_setBlocks (base : ManagerBase ρ) (reqId : ρ) (blocks : List ℕ) :
    base.SameConfig (base.setBlocks reqId blocks) :=
  ⟨_, _, _, rfl⟩

section

variable (hgrown : start.Grown pool)
include hgrown

theorem getNewBlocks_cases (numBlocks : ℕ) :
    (¬ numBlocks ≤ pool.getNumFreeBlocks ∧ ∃ exn, (pool.getNewBlocks numBlocks).1 = .error exn) ∨
    ((∃ blocks, (pool.getNewBlocks numBlocks).1 = .ok blocks ∧ blocks.length = numBlocks) ∧
      start.Grown (pool.getNewBlocks numBlocks).2 ∧
      (pool.getNewBlocks numBlocks).2.getNumFreeBlocks + numBlocks = pool.getNumFreeBlocks) := by
  obtain ⟨_, _, hpool⟩ := hgrown.refs
  by_cases hnum : numBlocks ≤ pool.getNumFreeBlocks
  · obtain ⟨hok, hnext⟩ := hpool.getNewBlocks hnum
    rw [hpool.getNumFreeBlocks_eq] at hnum
    refine .inr ⟨⟨_, hok, ?_⟩, hgrown.trans (hpool.grown_getNewBlocks ?_), ?_⟩
    · rw [length_take, min_eq_left hnum]
    · rwa [hpool.getNumFreeBlocks_eq]
    · rw [hnext.getNumFreeBlocks_eq, hpool.getNumFreeBlocks_eq, length_drop, Nat.sub_add_cancel hnum]
  · exact .inl ⟨hnum, _, congrArg Prod.fst (BlockPool.getNewBlocks_of_lt (Nat.cast_lt.2 (not_le.1 hnum)))⟩

variable (base : ManagerBase ρ)

theorem extendBlocks_spends (reqId : ρ) (numBlocks : ℕ) :
    Spends start pool numBlocks numBlocks (fun after : ManagerBase ρ ↦ base.SameConfig after ∧
      (after.blocksOf reqId).length = (base.blocksOf reqId).length + numBlocks)
      (base.extendBlocks pool reqId numBlocks) := by
  unfold extendBlocks
  dsimp only
  rcases getNewBlocks_cases hgrown numBlocks with ⟨hfew, _, hexn⟩ | ⟨⟨_, hok, hlen⟩, hafter, hfree⟩
  · rw [hexn]
    exact .failed hfew _ _ _
  · rw [hok]
    refine ⟨fun _ ↦ ⟨_, rfl⟩, fun _ _ ↦ hafter, fun _ _ ↦ hfree.le, fun _ _ ↦ hfree.ge, fun _ _ ↦ ?_⟩
    refine ⟨(base.sameConfig_setBlocks reqId _).trans (sameConfig_recordNewBlocks _ _), ?_⟩
    rw [blocksOf_recordNewBlocks, blocksOf_setBlocks, length_append, hlen]

theorem allocateNewBlocks_spends (reqId : ρ) (numTokens : ℕ) :
    Spends start pool (cdiv numTokens base.blockSize - (base.blocksOf reqId).length)
      (cdiv numTokens base.blockSize - (base.blocksOf reqId).length) (fun _ ↦ True)
      (base.allocateNewBlocks pool reqId numTokens) := by
  unfold allocateNewBlocks
  dsimp only
  split
  · rename_i hle
    rw [Nat.sub_eq_zero_of_le hle]
    exact .pure hgrown [] trivial
  · have hextended := extendBlocks_spends hgrown (base.setBlocks reqId (base.blocksOf reqId))
      reqId (cdiv numTokens base.blockSize - (base.blocksOf reqId).length)
    exact hextended.imp fun _ _ ↦ trivial

omit [DecidableEq ρ] in
theorem touch_of_caching (computed : List ℕ) (hcaching : base.enableCaching = true ∨ computed = [])
    (hbound : ∀ block ∈ computed, block < start.numGpuBlocks) :
    ∃ touched, (base.enableCaching = true ∧ pool.touch computed = (.ok (), touched) ∨
        base.enableCaching = false ∧ computed = [] ∧ touched = pool) ∧
      start.Grown touched ∧ touched.getNumFreeBlocks ≤ pool.getNumFreeBlocks ∧
      pool.getNumFreeBlocks ≤ touched.getNumFreeBlocks + getNumEvictableBlocks start computed := by
  obtain ⟨_, _, hpool⟩ := hgrown.refs
  cases hflag : base.enableCaching with
  | true =>
    have hbound' : ∀ block ∈ computed, block < pool.numGpuBlocks := by
      rwa [hgrown.numGpuBlocks_eq]
    obtain ⟨hle, hge⟩ := hpool.touch_bounds hbound'
    have hevictable := hgrown.getNumEvictableBlocks_le computed
    exact ⟨(pool.touch computed).2, .inl ⟨rfl, Prod.ext (hpool.touch hbound').1 rfl⟩,
      hgrown.trans (hpool.grown_touch hbound'), hle, by omega⟩
  | false =>
    have hnone : computed = [] := by simpa [hflag] using hcaching
    exact ⟨pool, .inr ⟨rfl, hnone, rfl⟩, hgrown, le_rfl, Nat.le_add_right _ _⟩

end

end ManagerBase

/-! ## Mamba in align mode -/

namespace MambaState

omit [DecidableEq ρ] in
theorem length_reuseSpeculativeBlocks (nullBlock numSkippedBlocks first count : ℕ) (reqBlocks : List ℕ) :
    (reuseSpeculativeBlocks nullBlock numSkippedBlocks (List.range' first count) reqBlocks).length =
      reqBlocks.length + min count (numSkippedBlocks - first) := by
  induction count generalizing first reqBlocks with
  | zero => simp [reuseSpeculativeBlocks]
  | succ count ih =>
    rw [range'_succ, reuseSpeculativeBlocks]
    split
    · rw [ih, length_append, length_set, length_singleton]
      omega
    · omega

section

variable (state : MambaState ρ) (base : ManagerBase ρ)

/-- The blocks that a state and speculative tokens need at the end of a step. -/
def numRequiredBlocks (numTokensMainModel : ℕ) : ℕ :=
  cdiv numTokensMainModel base.blockSize + state.numSpeculativeBlocks

/-- The blocks that the aligned allocation pops for a request with the given number of blocks. -/
def numAlignedBlocks (reqId : ρ) (numTokensMainModel numReqBlocks : ℕ) : ℕ :=
  let numRequiredBlocks := state.numRequiredBlocks base numTokensMainModel
  if numRequiredBlocks ≤ numReqBlocks then 0
  else if state.allocatedBlockReqs reqId then 1
  else min (numRequiredBlocks - numReqBlocks) (state.numSpeculativeBlocks + 1)

end

variable {numTokensMainModel : ℕ} {state : MambaState ρ}

theorem allocateAligned_of_lt {reqId : ρ}
    (hlt : state.numRequiredBlocks base numTokensMainModel < (base.blocksOf reqId).length)
    (pool : BlockPool) :
    ∃ exn, (state.allocateAligned base pool reqId numTokensMainModel).1 = .error exn := by
  unfold numRequiredBlocks at hlt
  unfold allocateAligned
  rw [if_neg hlt.ne, if_pos hlt]
  exact ⟨_, rfl⟩

theorem allocateAligned_spends (hgrown : start.Grown pool) {reqId : ρ}
    (hfits : (base.blocksOf reqId).length ≤ state.numRequiredBlocks base numTokensMainModel)
    (hallocated : state.allocatedBlockReqs reqId = true →
      state.numSpeculativeBlocks ≤ (base.blocksOf reqId).length) :
    Spends start pool (state.numAlignedBlocks base reqId numTokensMainModel (base.blocksOf reqId).length)
      (state.numAlignedBlocks base reqId numTokensMainModel (base.blocksOf reqId).length)
      (fun _ ↦ True) (state.allocateAligned base pool reqId numTokensMainModel) := by
  unfold numRequiredBlocks at hfits
  unfold numAlignedBlocks numRequiredBlocks allocateAligned
  dsimp only
  generalize hrequired : cdiv numTokensMainModel base.blockSize + state.numSpeculativeBlocks = required
    at hfits ⊢
  by_cases hsame : required = (base.blocksOf reqId).length
  · rw [if_pos hsame, if_pos hsame.le]
    exact .pure hgrown [] trivial
  have hlt := lt_of_le_of_ne hfits (.symm hsame)
  rw [if_neg hsame, if_neg (not_le.2 hlt), if_neg (not_lt.2 hfits)]
  -- The list when blocks are popped: null blocks fill it up to the state, speculative blocks move.
  generalize hmoved : (if state.allocatedBlockReqs reqId = true then
      reuseSpeculativeBlocks pool.nullBlock _ _ _ else _) = moved
  have hlen : required - moved.length =
      if state.allocatedBlockReqs reqId = true then 1
      else min (required - (base.blocksOf reqId).length) (state.numSpeculativeBlocks + 1) := by
    rw [← hmoved]
    split
    · next hflag =>
      have hspeculative := hallocated hflag
      rw [length_reuseSpeculativeBlocks, length_append, length_replicate]
      omega
    · rw [length_append, length_replicate]
      omega
  have hchecked : ¬ (if state.allocatedBlockReqs reqId = true then 1
      else state.numSpeculativeBlocks + 1) < required - moved.length := by
    rw [hlen]
    split
    · exact lt_irrefl 1
    · exact not_lt.2 (min_le_right _ _)
  rw [if_neg hchecked, ← hlen]
  rcases getNewBlocks_cases hgrown _ with
    ⟨hfew, _, hexn⟩ | ⟨⟨_, hok, -⟩, hafter, hfree⟩
  · rw [hexn]
    exact .failed hfew _ _ _
  · rw [hok]
    exact ⟨fun _ ↦ ⟨_, rfl⟩, fun _ _ ↦ hafter, fun _ _ ↦ hfree.le, fun _ _ ↦ hfree.ge, fun _ _ ↦ trivial⟩

end MambaState

end Nelssa.Core
