import Mathlib.Algebra.BigOperators.Group.Finset.Piecewise
import Mathlib.Algebra.Order.BigOperators.Group.Finset
import Nelssa.Foundation.Runs
import Nelssa.Sched.Scheduler

/-!
# Slots for the encoder inputs of encoder-decoder models

For encoder-decoder models the encoder cache only counts slots. An encoder input takes as many slots as it
has embeddings when it is scheduled, and the scheduler gives them back at several places: after every output
of the request, when the request is preempted or finished, and when its admission fails.

The model runs the cache manager through all calls that the scheduler makes for it. Beside the manager it
keeps the inputs that have slots: those that were allocated and not freed since.
-/

namespace Nelssa.Sched

open Nelssa.Core Foundation.Runs Finset

/-- A multimodal feature and its placeholder range. -/
structure EncoderInput where
  identifier : String
  offset : ℕ
  length : ℕ
  isEmbed : Option (List Bool)
deriving Inhabited

namespace EncoderInput

def getNumEmbeds (input : EncoderInput) : ℕ := (input.isEmbed.map (·.count true)).getD input.length

/-- The indices of the embeddings in `[startIdx, endIdx)` of the placeholders. -/
def getEmbedsIndicesInRange (input : EncoderInput) (startIdx endIdx : ℕ) : ℕ × ℕ :=
  match input.isEmbed with
  | none => (startIdx, endIdx)
  | some mask => ((mask.take startIdx).count true, (mask.take endIdx).count true)

end EncoderInput

open EncoderInput

structure EncoderDecoderCacheManager where
  cacheSize : ℕ
  numFreeSlots : ℤ
  allocated : List String
  toFree : List String

namespace EncoderDecoderCacheManager

variable (manager : EncoderDecoderCacheManager)

def init (cacheSize : ℕ) : EncoderDecoderCacheManager := ⟨cacheSize, cacheSize, [], []⟩

def reset : EncoderDecoderCacheManager := init manager.cacheSize

def canAllocate (input : EncoderInput) (encoderComputeBudget : ℤ) (numEmbedsToSchedule : ℕ) : Bool :=
  input.getNumEmbeds ≤ encoderComputeBudget ∧
    (input.getNumEmbeds + numEmbedsToSchedule : ℤ) ≤ manager.numFreeSlots

def allocate (input : EncoderInput) : EncoderDecoderCacheManager :=
  { manager with
    numFreeSlots := manager.numFreeSlots - input.getNumEmbeds
    allocated := manager.allocated ++ [input.identifier] }

def freeEncoderInput (input : EncoderInput) : EncoderDecoderCacheManager :=
  { manager with numFreeSlots := manager.numFreeSlots + input.getNumEmbeds }

def getFreedMmHashes : List String × EncoderDecoderCacheManager :=
  (manager.toFree, { manager with toFree := manager.allocated, allocated := [] })

variable (inputs : List EncoderInput)

theorem foldl_allocate : inputs.foldl allocate manager =
    { manager with
      numFreeSlots := manager.numFreeSlots - (inputs.map getNumEmbeds).sum
      allocated := manager.allocated ++ inputs.map identifier } := by
  induction inputs generalizing manager with
  | nil => simp
  | cons input rest ih =>
    rw [List.foldl_cons, ih]
    simp [allocate, sub_sub]

theorem foldl_freeEncoderInput : inputs.foldl freeEncoderInput manager =
    { manager with numFreeSlots := manager.numFreeSlots + (inputs.map getNumEmbeds).sum } := by
  induction inputs generalizing manager with
  | nil => simp
  | cons input rest ih =>
    rw [List.foldl_cons, ih]
    simp [freeEncoderInput, add_assoc]

end EncoderDecoderCacheManager

open EncoderDecoderCacheManager

/-- What the scheduler reads to plan encoder inputs. -/
structure EncoderConfig where
  useEagle : Bool
  disableChunkedMmInput : Bool
  /-- `ec_connector.has_cache_item`. -/
  hasCacheItem : String → Bool

def EncoderConfig.shiftComputedTokens (config : EncoderConfig) : ℕ := if config.useEagle then 1 else 0

section

variable (config : EncoderConfig) (manager : EncoderDecoderCacheManager) (input : ℕ → EncoderInput)
  (numComputedTokens : ℕ)

/-- The loop of `_try_schedule_encoder_inputs` for an encoder-decoder model over the remaining input ids. -/
def encoderLoop : EncoderPlan → ℕ → List ℕ → Except Exn EncoderPlan
  | plan, _, [] => .ok plan
  | plan, numEmbedsToSchedule, i :: rest =>
    let startPos := (input i).offset
    let numEncoderTokens := (input i).length
    let shift := config.shiftComputedTokens
    let embeds := (input i).getEmbedsIndicesInRange (numComputedTokens - startPos)
      (min numEncoderTokens (numComputedTokens + plan.numNewTokens - startPos).toNat)
    if numComputedTokens + plan.numNewTokens + shift ≤ startPos then .ok plan
    else if 0 < numComputedTokens then
      if startPos = 0 then encoderLoop plan numEmbedsToSchedule rest
      else .error (.assertionError ("Encoder input should be processed at the beginning of the sequence " ++
        "when encoder-decoder models are used."))
    else if startPos + numEncoderTokens ≤ numComputedTokens then encoderLoop plan numEmbedsToSchedule rest
    else if config.disableChunkedMmInput ∧ numComputedTokens < startPos ∧
        numComputedTokens + plan.numNewTokens < startPos + numEncoderTokens then
      .ok { plan with numNewTokens := max 0 (startPos - (numComputedTokens + shift)) }
    else if manager.canAllocate (input i) plan.computeBudget numEmbedsToSchedule = false then
      .ok { plan with
        numNewTokens := if numComputedTokens + shift < startPos then startPos - (numComputedTokens + shift)
          else 0 }
    else if embeds.2 = embeds.1 then encoderLoop plan numEmbedsToSchedule rest
    else if config.hasCacheItem (input i).identifier then
      encoderLoop { plan with externalLoads := plan.externalLoads ++ [i] }
        (numEmbedsToSchedule + (input i).getNumEmbeds) rest
    else encoderLoop
      { plan with
        inputs := plan.inputs ++ [i]
        computeBudget := plan.computeBudget - (input i).getNumEmbeds }
      (numEmbedsToSchedule + (input i).getNumEmbeds) rest

end

/-- All inputs of a plan. -/
def EncoderPlan.toAllocate (plan : EncoderPlan) : List ℕ := plan.inputs ++ plan.externalLoads

/-- The final plan has the inputs planned before and some of `ids`, which together fit into the slots. -/
def Selects (manager : EncoderDecoderCacheManager) (input : ℕ → EncoderInput) (numEmbeds : ℕ)
    (before ids : List ℕ) (final : EncoderPlan) : Prop :=
  ∃ taken, taken.Sublist ids ∧ final.toAllocate.Perm (before ++ taken) ∧
    (numEmbeds : ℤ) + (taken.map fun i ↦ (input i).getNumEmbeds).sum ≤ max (numEmbeds : ℤ) manager.numFreeSlots

section

variable {config : EncoderConfig} {manager : EncoderDecoderCacheManager} {input : ℕ → EncoderInput}
  {numComputedTokens numEmbeds : ℕ} {plan final : EncoderPlan} {ids before : List ℕ}

theorem Selects.stop (plan : EncoderPlan) (ids : List ℕ) :
    Selects manager input numEmbeds plan.toAllocate ids plan :=
  ⟨[], List.nil_sublist ids, by simp, by simp⟩

theorem Selects.skip (hselects : Selects manager input numEmbeds before ids final) (i : ℕ) :
    Selects manager input numEmbeds before (i :: ids) final := by
  obtain ⟨taken, hsub, htaken⟩ := hselects
  exact ⟨taken, hsub.cons i, htaken⟩

theorem Selects.take {i : ℕ} {budget : ℤ} {next : List ℕ}
    (hfits : ¬ manager.canAllocate (input i) budget numEmbeds = false) (hnext : next.Perm (before ++ [i]))
    (hselects : Selects manager input (numEmbeds + (input i).getNumEmbeds) next ids final) :
    Selects manager input numEmbeds before (i :: ids) final := by
  obtain ⟨taken, hsub, hperm, hsum⟩ := hselects
  rw [Bool.not_eq_false, canAllocate, decide_eq_true_eq] at hfits
  refine ⟨i :: taken, hsub.cons_cons i, hperm.trans ?_, ?_⟩
  · rw [List.append_cons]
    exact hnext.append_right taken
  · rw [List.map_cons, List.sum_cons]
    omega

theorem selects_encoderLoop
    (hloop : encoderLoop config manager input numComputedTokens plan numEmbeds ids = .ok final) :
    Selects manager input numEmbeds plan.toAllocate ids final := by
  fun_induction encoderLoop config manager input numComputedTokens plan numEmbeds ids
  case case3 ih | case5 ih | case8 ih => exact (ih hloop).skip _
  case case4 => cases hloop
  case case9 hfits _ _ ih => exact .take hfits (by simp [EncoderPlan.toAllocate]) (ih hloop)
  case case10 hfits _ _ ih =>
    refine .take hfits ?_ (ih hloop)
    simp only [EncoderPlan.toAllocate, List.append_assoc]
    exact .append_left _ List.perm_append_comm
  all_goals
    cases hloop
    exact .stop _ _

end

/-! ## Runs -/

structure ScheduleCall where
  /-- The hits of the prefix cache for a waiting request. -/
  numHitTokens : ℕ
  numNewTokens : ℤ
  encoderComputeBudget : ℤ

/-- The calls that the scheduler makes for the encoder cache. -/
inductive EncoderCall (ρ : Type*) where
  /-- A running or waiting request gets blocks. -/
  | schedule (id : ρ) (call : ScheduleCall)
  /-- A waiting request gets no blocks. -/
  | refuse (id : ρ)
  | preempt (id : ρ)
  /-- The number of computed tokens changes at the end of a step or after rejected drafts. -/
  | advance (id : ρ) (numComputedTokens : ℕ)
  | updateFromOutput (id : ρ)
  | finish (id : ρ)
  | getFreedMmHashes
  | resetEncoderCache

structure EncoderRun (ρ : Type*) where
  config : EncoderConfig
  mmFeatures : ρ → List EncoderInput
  manager : EncoderDecoderCacheManager
  numComputedTokens : ρ → ℕ
  /-- The inputs that have slots. -/
  held : Finset (ρ × ℕ)

namespace EncoderRun

variable {ρ : Type*} [DecidableEq ρ]

def start (config : EncoderConfig) (mmFeatures : ρ → List EncoderInput) (cacheSize : ℕ) : EncoderRun ρ :=
  ⟨config, mmFeatures, .init cacheSize, fun _ ↦ 0, ∅⟩

section

variable (run : EncoderRun ρ)

def input (entry : ρ × ℕ) : EncoderInput := (run.mmFeatures entry.1).getD entry.2 default

def allocate (entries : List (ρ × ℕ)) : EncoderRun ρ :=
  { run with
    manager := (entries.map run.input).foldl EncoderDecoderCacheManager.allocate run.manager
    held := run.held ∪ entries.toFinset }

def free (entries : List (ρ × ℕ)) : EncoderRun ρ :=
  { run with
    manager := (entries.map run.input).foldl freeEncoderInput run.manager
    held := run.held \ entries.toFinset }

/-- All inputs of a request, which are also what `get_cached_input_ids` returns. -/
def inputIds (id : ρ) : List (ρ × ℕ) := (List.range (run.mmFeatures id).length).map (Prod.mk id)

/-- The inputs that a request gets slots for, if it is scheduled. -/
def toAllocate (id : ρ) (call : ScheduleCall) : List (ρ × ℕ) :=
  if call.numNewTokens = 0 then []
  else
    match encoderLoop run.config run.manager (fun i ↦ run.input (id, i))
      (run.numComputedTokens id + call.numHitTokens) ⟨[], call.numNewTokens, call.encoderComputeBudget, []⟩ 0
      (List.range (run.mmFeatures id).length) with
    | .error _ => []
    | .ok plan => if plan.numNewTokens = 0 then [] else plan.toAllocate.map (Prod.mk id)

/-- The inputs that `_free_encoder_inputs` frees. -/
def processed (id : ρ) : List (ρ × ℕ) :=
  (run.inputIds id).filter fun entry ↦ 0 < run.numComputedTokens id ∨
    (run.input entry).offset + (run.input entry).length ≤ run.numComputedTokens id

def apply : EncoderCall ρ → EncoderRun ρ
  | .schedule id call => run.allocate (run.toAllocate id call)
  | .refuse id | .finish id => run.free (run.inputIds id)
  | .preempt id =>
    { run.free (run.inputIds id) with numComputedTokens := Function.update run.numComputedTokens id 0 }
  | .advance id numComputedTokens =>
    { run with numComputedTokens := Function.update run.numComputedTokens id numComputedTokens }
  | .updateFromOutput id => run.free (run.processed id)
  | .getFreedMmHashes => { run with manager := run.manager.getFreedMmHashes.2 }
  | .resetEncoderCache => { run with manager := run.manager.reset, held := ∅ }

def embeds (entry : ρ × ℕ) : ℕ := (run.input entry).getNumEmbeds

/-- The embeddings of all inputs that have slots. -/
def heldEmbeds : ℕ := ∑ entry ∈ run.held, run.embeds entry

/-- The slots are free or belong to an input, and the inputs fit into the cache. -/
def Conserved : Prop :=
  run.manager.numFreeSlots = run.manager.cacheSize - run.heldEmbeds ∧ run.heldEmbeds ≤ run.manager.cacheSize

/-- Only inputs without slots are allocated and only inputs with slots are freed, apart from inputs without
embeddings. -/
def Paired : EncoderCall ρ → Prop
  | .schedule id call => ∀ entry ∈ run.toAllocate id call, entry ∈ run.held → run.embeds entry = 0
  | .refuse id | .preempt id | .finish id => ∀ entry ∈ run.inputIds id, entry ∉ run.held → run.embeds entry = 0
  | .updateFromOutput id => ∀ entry ∈ run.processed id, entry ∉ run.held → run.embeds entry = 0
  | _ => True

end

variable {run : EncoderRun ρ} {entries : List (ρ × ℕ)}

theorem sum_embeds (hnodup : entries.Nodup) : ((entries.map run.input).map getNumEmbeds).sum =
    ∑ entry ∈ entries.toFinset, run.embeds entry := by
  rw [List.sum_toFinset _ hnodup, List.map_map]
  rfl

omit [DecidableEq ρ] in
theorem nodup_inputIds (id : ρ) : (run.inputIds id).Nodup := List.nodup_range.map (Prod.mk_right_injective id)

section

variable (hrun : run.Conserved)
include hrun

theorem conserved_allocate_iff (hnodup : entries.Nodup)
    (hfits : (∑ entry ∈ entries.toFinset, run.embeds entry : ℕ) ≤ run.manager.numFreeSlots) :
    (run.allocate entries).Conserved ↔ ∀ entry ∈ entries, entry ∈ run.held → run.embeds entry = 0 := by
  have htwice : ∑ entry ∈ run.held ∩ entries.toFinset, run.embeds entry = 0 ↔
      ∀ entry ∈ entries, entry ∈ run.held → run.embeds entry = 0 := by
    simp only [sum_eq_zero_iff, mem_inter, List.mem_toFinset]
    grind
  have hunion := @sum_union_inter _ _ run.held entries.toFinset _ run.embeds _
  have hafter : (run.allocate entries).heldEmbeds =
      ∑ entry ∈ run.held ∪ entries.toFinset, run.embeds entry := rfl
  rw [← htwice, Conserved, hafter, allocate, foldl_allocate]
  simp only [Conserved, heldEmbeds, sum_embeds hnodup] at hrun ⊢
  omega

theorem conserved_free_iff (hnodup : entries.Nodup) :
    (run.free entries).Conserved ↔ ∀ entry ∈ entries, entry ∉ run.held → run.embeds entry = 0 := by
  have hextra : ∑ entry ∈ entries.toFinset \ run.held, run.embeds entry = 0 ↔
      ∀ entry ∈ entries, entry ∉ run.held → run.embeds entry = 0 := by
    simp [sum_eq_zero_iff]
  have hheld := sum_inter_add_sum_sdiff run.held entries.toFinset run.embeds
  have hentries := sum_inter_add_sum_sdiff entries.toFinset run.held run.embeds
  have hafter : (run.free entries).heldEmbeds = ∑ entry ∈ run.held \ entries.toFinset, run.embeds entry := rfl
  rw [inter_comm] at hentries
  rw [← hextra, Conserved, hafter, free, foldl_freeEncoderInput]
  simp only [Conserved, heldEmbeds, sum_embeds hnodup] at hrun ⊢
  omega

theorem toAllocate_fits (id : ρ) (call : ScheduleCall) : (run.toAllocate id call).Nodup ∧
    (∑ entry ∈ (run.toAllocate id call).toFinset, run.embeds entry : ℕ) ≤ run.manager.numFreeSlots := by
  have hfree : 0 ≤ run.manager.numFreeSlots := by
    unfold Conserved at hrun
    omega
  unfold toAllocate
  split
  · simpa using hfree
  · split
    · simpa using hfree
    · next plan hplan =>
      split
      · simpa using hfree
      · obtain ⟨taken, hsub, hperm, hsum⟩ := selects_encoderLoop hplan
        have hentries : (plan.toAllocate.map (Prod.mk id)).Perm (taken.map (Prod.mk id)) := hperm.map _
        have hnodup := (List.nodup_range.sublist hsub).map (Prod.mk_right_injective id)
        refine ⟨hentries.nodup_iff.2 hnodup, ?_⟩
        rw [List.toFinset_eq_of_perm _ _ hentries, ← sum_embeds hnodup, List.map_map, List.map_map]
        rwa [Nat.cast_zero, zero_add, max_eq_right hfree] at hsum

theorem conserved_apply_iff (call : EncoderCall ρ) : (run.apply call).Conserved ↔ run.Paired call := by
  cases call with
  | schedule id call =>
    obtain ⟨hnodup, hfits⟩ := toAllocate_fits hrun id call
    exact conserved_allocate_iff hrun hnodup hfits
  | refuse id => exact conserved_free_iff hrun (nodup_inputIds id)
  | preempt id => exact conserved_free_iff hrun (nodup_inputIds id)
  | finish id => exact conserved_free_iff hrun (nodup_inputIds id)
  | updateFromOutput id => exact conserved_free_iff hrun ((nodup_inputIds id).filter _)
  | resetEncoderCache =>
    refine iff_of_true ?_ trivial
    simp [Conserved, heldEmbeds, apply, reset, init]
  | _ => exact iff_of_true hrun trivial

end

/-- In every run the slots are conserved exactly if allocations and frees of every input alternate. -/
theorem holdsAlong_conserved_iff (config : EncoderConfig) (mmFeatures : ρ → List EncoderInput)
    (cacheSize : ℕ) (calls : List (EncoderCall ρ)) :
    HoldsAlong apply Conserved (start config mmFeatures cacheSize) calls ↔
      StepsMeet apply Paired (start config mmFeatures cacheSize) calls := by
  have hstart : (start config mmFeatures cacheSize).Conserved := by
    simp [Conserved, heldEmbeds, start, init]
  refine holdsAlong_iff_stepsMeet ?_ hstart calls
  intro run call hrun
  exact conserved_apply_iff hrun call

/-- A request with one input of 1500 embeddings gets all slots, and they are returned after each of the
outputs of two steps. -/
theorem not_conserved_secondOutput :
    let calls : List (EncoderCall Unit) := [.schedule () ⟨0, 4, 1500⟩, .getFreedMmHashes, .advance () 4,
      .updateFromOutput (), .schedule () ⟨0, 1, 1500⟩, .getFreedMmHashes, .advance () 5, .updateFromOutput ()]
    let new := start ⟨false, false, fun _ ↦ false⟩ (fun _ ↦ [⟨"audio", 0, 1500, none⟩]) 1500
    (calls.foldl apply new).manager.numFreeSlots = 3000 ∧ ¬ HoldsAlong apply Conserved new calls := by
  refine ⟨by decide, fun hconserved ↦ ?_⟩
  exact absurd hconserved.final.1 (by decide)

end EncoderRun

end Nelssa.Sched
