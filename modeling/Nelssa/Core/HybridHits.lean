import Mathlib.Algebra.GCDMonoid.Nat
import Nelssa.Core.HitSpecs
import Nelssa.Core.Managers
import Nelssa.Foundation.Loops
import Nelssa.Foundation.Scatter

/-!
# The hybrid coordinator

`HybridKVCacheCoordinator` serves models whose layers need different types of KV cache. It collects the
KV-cache groups with equal specs in attention groups, with full attention first, and looks for the
longest cache hit that all of them share: every attention group in turn accepts the candidate length or
reduces it, until a whole pass leaves it as it is.
-/

namespace Nelssa.Core

open Foundation.Scatter
open List hiding min

/-- The classes of managers. -/
inductive ManagerClass where
  | fullAttention
  | slidingWindow
  | chunkedLocal
  | mamba
  | crossAttention
  | sinkFullAttention
  | nelssa
  deriving DecidableEq

/-- The class method `find_longest_cache_hit`. -/
def ManagerClass.findLongestCacheHit (managerClass : ManagerClass) (query : HitQuery) (pool : BlockPool)
    (spec : KVCacheSpec) : Except Exn (List (List ℕ)) :=
  match managerClass with
  | fullAttention | sinkFullAttention | nelssa => query.fullAttention pool spec
  | slidingWindow => query.slidingWindow pool spec
  | chunkedLocal => query.chunkedLocal pool spec
  | mamba => query.mamba pool spec
  | crossAttention => HitQuery.crossAttention spec

/-- The attribute `__class__` of a manager. -/
def Manager.managerClass {ρ : Type*} : Manager ρ → ManagerClass
  | fullAttention _ => .fullAttention
  | slidingWindow _ _ => .slidingWindow
  | chunkedLocal _ _ => .chunkedLocal
  | mamba _ _ => .mamba
  | crossAttention _ => .crossAttention
  | sinkFullAttention _ _ => .sinkFullAttention
  | nelssa _ _ => .nelssa

namespace KVCacheSpec

/-- The class of the manager of a spec, with a NELSSA configuration or without. -/
def managerClass (spec : KVCacheSpec) (usesNelssa : Bool) : ManagerClass :=
  if usesNelssa then .nelssa
  else match spec.kind with
    | .fullAttention | .tqFullAttention | .mlaAttention => .fullAttention
    | .slidingWindow _ | .slidingWindowMLA _ => .slidingWindow
    | .chunkedLocal _ => .chunkedLocal
    | .mamba _ _ => .mamba
    | .crossAttention => .crossAttention
    | .sinkFullAttention _ => .sinkFullAttention

/-- The tokens before a position that its type of attention does not need. -/
def numSkippedTokens (spec : KVCacheSpec) (numComputedTokens : ℕ) : ℕ :=
  match spec.kind with
  | .slidingWindow window | .slidingWindowMLA window => numComputedTokens + 1 - window
  | .chunkedLocal chunkSize => numComputedTokens / chunkSize * chunkSize
  | .mamba _ _ => MambaState.getNumSkippedTokens numComputedTokens
  | _ => 0

end KVCacheSpec

variable {nelssaConfig : Option NELSSAConfig} {maxNumBatchedTokens : ℕ} {enableCaching : Bool} {ρ : Type*}
  {pcpWorldSize dcpWorldSize : ℕ}

/-- The factory builds a manager of the class of its spec, which skips the tokens that its type of
attention does not need; a NELSSA manager skips none. -/
theorem managerClass_of_getManagerForKvCacheSpec {spec : KVCacheSpec} {maxModelLen kvCacheGroupId : ℕ}
    {pool : BlockPool} {manager : Manager ρ}
    (hmgr : (getManagerForKvCacheSpec spec maxNumBatchedTokens maxModelLen pool enableCaching
      kvCacheGroupId dcpWorldSize pcpWorldSize nelssaConfig).1 = .ok manager) :
    manager.managerClass = spec.managerClass nelssaConfig.isSome ∧
      (nelssaConfig = none → manager.getNumSkippedTokens = spec.numSkippedTokens) := by
  cases nelssaConfig with
  | some config =>
    cases hmgr
    exact ⟨rfl, nofun⟩
  | none =>
    obtain ⟨kind, _, hpos⟩ := spec
    unfold getManagerForKvCacheSpec specManager at hmgr
    cases kind with
    | sinkFullAttention sinkLen =>
      cases sinkLen with
      | none => cases hmgr
      | some sinkLen =>
        dsimp only at hmgr
        split at hmgr
        · cases hmgr
        · split at hmgr
          · cases hmgr
          · cases hmgr
            exact ⟨rfl, fun _ ↦ rfl⟩
    | _ =>
      cases hmgr
      exact ⟨rfl, fun _ ↦ rfl⟩

/-- A KV-cache group. The managers do not read the `layout` of a spec: the numbers and sizes of the
heads, the data types, the sizes of the pages. -/
structure KVCacheGroupSpec (σ : Type*) where
  kvCacheSpec : KVCacheSpec
  layout : σ
  isEagleGroup : Bool

structure KVCacheConfig (σ : Type*) where
  numBlocks : ℕ
  kvCacheGroups : List (KVCacheGroupSpec σ)
  nelssaConfig : Option NELSSAConfig

/-- The KV-cache groups with one spec, and the class of their managers. -/
structure AttentionGroup (σ : Type*) where
  spec : KVCacheSpec
  layout : σ
  groupIds : List ℕ
  managerCls : ManagerClass

variable {σ : Type*} {groups : List (AttentionGroup σ)} {groupId : ℕ}

namespace AttentionGroup

def isFullAttention (group : AttentionGroup σ) : Bool := group.spec.kind.isFullAttention

variable [DecidableEq σ]

/-- The test `existing_spec == spec`. -/
def hasSpec (group : AttentionGroup σ) (other : KVCacheGroupSpec σ) : Bool :=
  group.spec.kind = other.kvCacheSpec.kind ∧ group.spec.blockSize = other.kvCacheSpec.blockSize ∧
    group.layout = other.layout

/-- Put one KV-cache group to the attention group with its spec, or start a new one. -/
def addGroup (groupId : ℕ) (added : KVCacheGroupSpec σ) (managerCls : ManagerClass) :
    List (AttentionGroup σ) → Except Exn (List (AttentionGroup σ))
  | [] => .ok [⟨added.kvCacheSpec, added.layout, [groupId], managerCls⟩]
  | existing :: rest =>
    if existing.hasSpec added then
      if managerCls ≠ existing.managerCls then
        .error (.assertionError "Expected same manager class for identical KV cache specs.")
      else .ok ({ existing with groupIds := existing.groupIds ++ [groupId] } :: rest)
    else (addGroup groupId added managerCls rest).map fun groups ↦ existing :: groups

/-- The loop of `verify_and_split_kv_cache_groups`. -/
def splitGroups : ℕ → List (KVCacheGroupSpec σ × ManagerClass) → List (AttentionGroup σ) →
    Except Exn (List (AttentionGroup σ))
  | _, [], groups => .ok groups
  | groupId, (added, managerCls) :: rest, groups =>
    match addGroup groupId added managerCls groups with
    | .error exn => .error exn
    | .ok extended => splitGroups (groupId + 1) rest extended

/-- `sorted` is stable, so full attention comes first and the order is kept otherwise. -/
def sortGroups (groups : List (AttentionGroup σ)) : List (AttentionGroup σ) :=
  groups.filter (·.isFullAttention) ++ groups.filter fun group ↦ !group.isFullAttention

/-- The attention groups partition the KV-cache groups by their specs. -/
structure Partition (kvCacheGroups : List (KVCacheGroupSpec σ)) (usesNelssa : Bool)
    (groups : List (AttentionGroup σ)) : Prop where
  groupIds : (groups.flatMap (·.groupIds)).Perm (List.range kvCacheGroups.length)
  groupIds_ne_nil : ∀ group ∈ groups, group.groupIds ≠ []
  spec : ∀ group ∈ groups, ∀ groupId ∈ group.groupIds,
    (kvCacheGroups[groupId]?).map (·.kvCacheSpec) = some group.spec
  managerCls : ∀ group ∈ groups, group.managerCls = group.spec.managerClass usesNelssa

variable {seen : List (KVCacheGroupSpec σ)} {usesNelssa : Bool} {extended : List (AttentionGroup σ)}
  {group : AttentionGroup σ}

theorem eq_of_hasSpec {other : KVCacheGroupSpec σ} (hspec : group.hasSpec other = true) :
    group.spec = other.kvCacheSpec := by
  obtain ⟨⟨_, _, hpos⟩, _, _, _⟩ := group
  simp only [hasSpec, decide_eq_true_eq] at hspec
  obtain ⟨rfl, rfl, -⟩ := hspec
  rfl

variable {added : KVCacheGroupSpec σ} {managerCls : ManagerClass}

/-- Adding a group puts its id to one attention group, which has its spec, and changes no other. -/
theorem addGroup_eq_ok (hadd : addGroup groupId added managerCls groups = .ok extended) :
    (extended.flatMap (·.groupIds)).Perm (groups.flatMap (·.groupIds) ++ [groupId]) ∧
      ∀ group ∈ extended, group ∈ groups ∨
        (group.spec = added.kvCacheSpec ∧ group.managerCls = managerCls ∧
          (group.groupIds = [groupId] ∨
            ∃ old ∈ groups, group = { old with groupIds := old.groupIds ++ [groupId] })) := by
  induction groups generalizing extended with
  | nil =>
    cases hadd
    refine ⟨.refl _, fun group hgroup ↦ .inr ?_⟩
    obtain rfl := mem_singleton.1 hgroup
    exact ⟨rfl, rfl, .inl rfl⟩
  | cons existing rest ih =>
    unfold addGroup at hadd
    split at hadd
    · next hspec =>
      split at hadd
      · cases hadd
      · next hclass =>
        cases hadd
        constructor
        · simp only [flatMap_cons, append_assoc]
          exact .append_left _ perm_append_comm
        · intro group hgroup
          rcases mem_cons.1 hgroup with rfl | hrest
          · exact .inr ⟨eq_of_hasSpec hspec, (not_not.1 hclass).symm, .inr ⟨existing, mem_cons_self, rfl⟩⟩
          · exact .inl (mem_cons_of_mem existing hrest)
    · obtain ⟨_, hothers, rfl⟩ := Foundation.Loops.map_eq_ok_iff.1 hadd
      obtain ⟨hperm, hmem⟩ := ih hothers
      constructor
      · simp only [flatMap_cons, append_assoc]
        exact .append_left _ hperm
      · intro group hgroup
        rcases mem_cons.1 hgroup with rfl | hrest
        · exact .inl mem_cons_self
        · rcases hmem group hrest with hold | ⟨hspec, hclass, hids⟩
          · exact .inl (mem_cons_of_mem existing hold)
          · refine .inr ⟨hspec, hclass, hids.imp id ?_⟩
            rintro ⟨old, hold, rfl⟩
            exact ⟨old, mem_cons_of_mem existing hold, rfl⟩

section

variable (hpart : Partition seen usesNelssa groups)
include hpart

omit [DecidableEq σ] in
theorem Partition.groupId_lt (hgroup : group ∈ groups) (hid : groupId ∈ group.groupIds) :
    groupId < seen.length :=
  mem_range.1 (hpart.groupIds.mem_iff.1 (mem_flatMap.2 ⟨group, hgroup, hid⟩))

theorem Partition.addGroup (hclass : managerCls = added.kvCacheSpec.managerClass usesNelssa)
    (hadd : AttentionGroup.addGroup seen.length added managerCls groups = .ok extended) :
    Partition (seen ++ [added]) usesNelssa extended := by
  obtain ⟨hperm, hmem⟩ := addGroup_eq_ok hadd
  have hold (group : AttentionGroup σ) (hgroup : group ∈ groups) (groupId : ℕ)
      (hid : groupId ∈ group.groupIds) :
      ((seen ++ [added])[groupId]?).map (·.kvCacheSpec) = some group.spec := by
    rw [getElem?_append_left (hpart.groupId_lt hgroup hid)]
    exact hpart.spec group hgroup groupId hid
  have hnew : ((seen ++ [added])[seen.length]?).map (·.kvCacheSpec) = some added.kvCacheSpec := by
    rw [getElem?_append_right le_rfl, Nat.sub_self]
    rfl
  constructor
  · rw [length_append, length_singleton, range_succ]
    exact hperm.trans (hpart.groupIds.append_right _)
  · intro group hgroup
    rcases hmem group hgroup with hmem | ⟨-, -, hids | ⟨old, -, rfl⟩⟩
    · exact hpart.groupIds_ne_nil group hmem
    · rw [hids]
      exact cons_ne_nil _ _
    · exact append_ne_nil_of_right_ne_nil _ (cons_ne_nil _ _)
  · intro group hgroup groupId hid
    rcases hmem group hgroup with hmem | ⟨hspec, -, hids | ⟨old, hmem, rfl⟩⟩
    · exact hold group hmem groupId hid
    · rw [hids, mem_singleton] at hid
      rw [hid, hnew, hspec]
    · rcases mem_append.1 hid with hid | hid
      · exact hold old hmem groupId hid
      · rw [mem_singleton.1 hid, hnew, hspec]
  · intro group hgroup
    rcases hmem group hgroup with hmem | ⟨hspec, hcls, -⟩
    · exact hpart.managerCls group hmem
    · rw [hcls, hclass, hspec]

theorem Partition.splitGroups {rest : List (KVCacheGroupSpec σ × ManagerClass)}
    (hclass : ∀ item ∈ rest, item.2 = item.1.kvCacheSpec.managerClass usesNelssa)
    (hsplit : AttentionGroup.splitGroups seen.length rest groups = .ok extended) :
    Partition (seen ++ rest.map Prod.fst) usesNelssa extended := by
  induction rest generalizing seen groups with
  | nil =>
    cases hsplit
    rwa [map_nil, append_nil]
  | cons item rest ih =>
    unfold splitGroups at hsplit
    split at hsplit
    · cases hsplit
    · next hadd =>
      have hnext := hpart.addGroup (hclass item mem_cons_self) hadd
      have hlen : seen.length + 1 = (seen ++ [item.1]).length := by simp
      rw [hlen] at hsplit
      have hrest := ih hnext (fun other hother ↦ hclass other (mem_cons_of_mem item hother)) hsplit
      rwa [append_assoc] at hrest

omit [DecidableEq σ] in
theorem Partition.sortGroups : Partition seen usesNelssa (sortGroups groups) := by
  have hperm : (AttentionGroup.sortGroups groups).Perm groups := filter_append_perm _ groups
  have hmem (group : AttentionGroup σ) (hgroup : group ∈ AttentionGroup.sortGroups groups) :
      group ∈ groups := hperm.mem_iff.1 hgroup
  constructor
  · exact (hperm.flatMap_right _).trans hpart.groupIds
  · exact fun group hgroup ↦ hpart.groupIds_ne_nil group (hmem group hgroup)
  · exact fun group hgroup ↦ hpart.spec group (hmem group hgroup)
  · exact fun group hgroup ↦ hpart.managerCls group (hmem group hgroup)

end

variable (groups : List (AttentionGroup σ))

omit [DecidableEq σ] in
theorem length_sortGroups : (sortGroups groups).length = groups.length :=
  (filter_append_perm _ groups).length_eq

omit [DecidableEq σ] in
theorem pairwise_sortGroups :
    (sortGroups groups).Pairwise fun group other ↦ other.isFullAttention = true →
      group.isFullAttention = true := by
  have hfull (group : AttentionGroup σ) (hgroup : group ∈ groups.filter (·.isFullAttention)) :=
    (mem_filter.1 hgroup).2
  have hother (group : AttentionGroup σ) (hgroup : group ∈ groups.filter fun group ↦ !group.isFullAttention) :
      group.isFullAttention ≠ true := by
    simpa using (mem_filter.1 hgroup).2
  rw [sortGroups, pairwise_append]
  refine ⟨pairwise_of_forall_mem_list ?_, pairwise_of_forall_mem_list ?_,
    fun group hgroup _ _ _ ↦ hfull group hgroup⟩
  · exact fun group hgroup _ _ _ ↦ hfull group hgroup
  · exact fun _ _ other hmem h ↦ absurd h (hother other hmem)

end AttentionGroup

open AttentionGroup

/-! ## The constructor -/

/-- `single_type_managers`: the managers of all groups, which share the pool. -/
def buildManagers {ρ σ : Type*} (maxModelLen maxNumBatchedTokens : ℕ) (enableCaching : Bool)
    (dcpWorldSize pcpWorldSize : ℕ) (nelssaConfig : Option NELSSAConfig) :
    ℕ → List (KVCacheGroupSpec σ) → BlockPool → Except Exn (List (Manager ρ)) × BlockPool
  | _, [], pool => (.ok [], pool)
  | groupId, group :: rest, pool =>
    match getManagerForKvCacheSpec group.kvCacheSpec maxNumBatchedTokens maxModelLen pool enableCaching
        groupId dcpWorldSize pcpWorldSize nelssaConfig with
    | (.error exn, shared) => (.error exn, shared)
    | (.ok manager, shared) =>
      let others := buildManagers maxModelLen maxNumBatchedTokens enableCaching dcpWorldSize pcpWorldSize
        nelssaConfig (groupId + 1) rest shared
      (others.1.map fun managers ↦ manager :: managers, others.2)

variable {managers : List (Manager ρ)}

theorem managerClass_of_buildManagers {maxModelLen : ℕ} {groups : List (KVCacheGroupSpec σ)}
    {pool shared : BlockPool}
    (hbuild : buildManagers maxModelLen maxNumBatchedTokens enableCaching dcpWorldSize pcpWorldSize
      nelssaConfig groupId groups pool = (.ok managers, shared)) :
    managers.map Manager.managerClass =
      groups.map fun group ↦ group.kvCacheSpec.managerClass nelssaConfig.isSome := by
  induction groups generalizing groupId pool shared managers with
  | nil =>
    cases hbuild
    rfl
  | cons group rest ih =>
    unfold buildManagers at hbuild
    split at hbuild
    · cases hbuild
    · next manager shared' hmgr =>
      obtain ⟨hothers, -⟩ := Prod.mk.inj hbuild
      obtain ⟨_, hrest, rfl⟩ := Foundation.Loops.map_eq_ok_iff.1 hothers
      rw [map_cons, map_cons, ih (Prod.ext hrest rfl),
        (managerClass_of_getManagerForKvCacheSpec (congrArg Prod.fst hmgr)).1]

theorem partition_of_splitGroups [DecidableEq σ] {kvCacheGroups : List (KVCacheGroupSpec σ)}
    {usesNelssa : Bool} (hclasses : managers.map Manager.managerClass =
      kvCacheGroups.map fun group ↦ group.kvCacheSpec.managerClass usesNelssa)
    (hsplit : splitGroups 0 (kvCacheGroups.zip (managers.map Manager.managerClass)) [] = .ok groups) :
    Partition kvCacheGroups usesNelssa (sortGroups groups) := by
  rw [hclasses, ← map_prod_left_eq_zip] at hsplit
  have hstart : Partition ([] : List (KVCacheGroupSpec σ)) usesNelssa [] :=
    ⟨.refl _, by simp, by simp, by simp⟩
  have hpart := hstart.splitGroups (fun item hitem ↦ by
    obtain ⟨_, -, rfl⟩ := mem_map.1 hitem
    rfl) hsplit
  rw [map_map, Function.comp_def, map_id'] at hpart
  exact hpart.sortGroups

/-- The fields of the coordinator that the search reads. The attention groups partition the KV-cache
groups, there are at least two of them, and full attention comes first. -/
structure HybridKVCacheCoordinator (σ : Type*) where
  kvCacheGroups : List (KVCacheGroupSpec σ)
  nelssaConfig : Option NELSSAConfig
  hashBlockSize : ℕ
  eagleGroupIds : List ℕ
  attentionGroups : List (AttentionGroup σ)
  partition : Partition kvCacheGroups nelssaConfig.isSome attentionGroups
  one_lt_length : 1 < attentionGroups.length
  full_first : attentionGroups.Pairwise fun group other ↦ other.isFullAttention = true →
    group.isFullAttention = true
  hashBlockSize_dvd : ∀ group ∈ kvCacheGroups, hashBlockSize ∣ group.kvCacheSpec.blockSize

namespace HybridKVCacheCoordinator

/-- The groups that get the EAGLE drop: the flagged ones, or all of them if none is flagged. -/
def flagEagleGroups (kvCacheGroups : List (KVCacheGroupSpec σ)) (useEagle : Bool) : List ℕ :=
  let flagged := (kvCacheGroups.zipIdx.filter fun indexed ↦ indexed.1.isEagleGroup).map (·.2)
  if useEagle ∧ flagged = [] then List.range kvCacheGroups.length else flagged

/-- The constructor, with the managers and the pool it creates. -/
def init {ρ : Type*} [DecidableEq σ] (config : KVCacheConfig σ) (maxModelLen maxNumBatchedTokens : ℕ)
    (useEagle enableCaching : Bool) (dcpWorldSize pcpWorldSize hashBlockSize : ℕ) :
    Except Exn (HybridKVCacheCoordinator σ × List (Manager ρ) × BlockPool) :=
  match BlockPool.init config.numBlocks enableCaching hashBlockSize with
  | .error exn => .error exn
  | .ok pool =>
    match hbuild : buildManagers maxModelLen maxNumBatchedTokens enableCaching dcpWorldSize pcpWorldSize
        config.nelssaConfig 0 config.kvCacheGroups pool with
    | (.error exn, _) => .error exn
    | (.ok managers, shared) =>
      if hdvd : ¬ ∀ group ∈ config.kvCacheGroups, group.kvCacheSpec.blockSize % hashBlockSize = 0 then
        .error (.assertionError "block_size must be divisible by hash_block_size")
      else if dcpWorldSize ≠ 1 then .error (.assertionError "DCP not support hybrid attn now.")
      else if pcpWorldSize ≠ 1 then .error (.assertionError "PCP not support hybrid attn now.")
      else
        match hsplit : splitGroups 0
            (config.kvCacheGroups.zip (managers.map Manager.managerClass)) [] with
        | .error exn => .error exn
        | .ok groups =>
          if hlength : 1 < groups.length then
            .ok
              ({ kvCacheGroups := config.kvCacheGroups
                 nelssaConfig := config.nelssaConfig
                 hashBlockSize
                 eagleGroupIds := flagEagleGroups config.kvCacheGroups useEagle
                 attentionGroups := sortGroups groups
                 partition := partition_of_splitGroups (managerClass_of_buildManagers hbuild) hsplit
                 one_lt_length := (length_sortGroups groups).symm ▸ hlength
                 full_first := pairwise_sortGroups groups
                 hashBlockSize_dvd := fun group hgroup ↦
                   Nat.dvd_of_mod_eq_zero (not_not.1 hdvd group hgroup) }, managers, shared)
          else .error (.assertionError "HybridKVCacheCoordinator requires at least two attention groups.")

end HybridKVCacheCoordinator

/-! ## The search -/

/-- The arguments of the search of one attention group. -/
def AttentionGroup.hitQuery {σ : Type*} (group : AttentionGroup σ) (blockHashes : List BlockHash)
    (maxLength : ℕ) (useEagle : Bool) (alignmentTokens : ℕ) : HitQuery where
  blockHashes := blockHashes
  maxLength := maxLength
  kvCacheGroupIds := group.groupIds
  useEagle := useEagle
  alignmentTokens := alignmentTokens
  dcpWorldSize := 1
  pcpWorldSize := 1

/-- The call of `find_longest_cache_hit` for one attention group. The pool was built with the
`hash_block_size` of the coordinator. The list of hashes ends with the last full block, where
`BlockHashListWithBlockSize` would join the hashes that are left; the searches stay below its length. -/
def AttentionGroup.findLongestCacheHit {σ : Type*} (group : AttentionGroup σ) (pool : BlockPool)
    (blockHashes : List BlockHash) (maxLength : ℕ) (useEagle : Bool) (alignmentTokens : ℕ) :
    Except Exn (List (List ℕ)) :=
  match pool.blockHashList blockHashes group.spec.blockSize with
  | .error exn => .error exn
  | .ok hashes => group.managerCls.findLongestCacheHit
      (group.hitQuery hashes maxLength useEagle alignmentTokens) pool group.spec

/-- The local variables of the search: the candidate length, the attention groups whose EAGLE drop is
verified at it, and the blocks found for each KV-cache group. -/
structure HitSearch where
  currHitLength : ℕ
  eagleVerified : List ℕ
  hitBlocksByGroup : ℕ → Option (List ℕ)

def HitSearch.storeBlocks (search : HitSearch) (groupIds : List ℕ) (hitBlocks : List (List ℕ)) :
    ℕ → Option (List ℕ) :=
  scatter Prod.fst (fun found _ ↦ some found.2) search.hitBlocksByGroup (groupIds.zip hitBlocks)

/-- Store the blocks and the new candidate length. A length that shrinks without EAGLE invalidates the
EAGLE verifications before it. -/
def HitSearch.record (search : HitSearch) (index : ℕ) (useEagle : Bool) (groupIds : List ℕ)
    (hitBlocks : List (List ℕ)) (newHitLength : ℕ) : HitSearch where
  currHitLength := newHitLength
  eagleVerified :=
    if useEagle then index :: search.eagleVerified
    else if newHitLength < search.currHitLength then []
    else search.eagleVerified
  hitBlocksByGroup := search.storeBlocks groupIds hitBlocks

namespace HybridKVCacheCoordinator

section

variable (coord : HybridKVCacheCoordinator σ)

def lcmBlockSize : ℕ :=
  (coord.attentionGroups.map (·.spec.blockSize)).foldr Nat.lcm 1

/-- The indices of the attention groups that contain an EAGLE group. -/
def eagleAttnGroupIndices : List ℕ :=
  (coord.attentionGroups.zipIdx.filter fun indexed ↦
    indexed.1.groupIds.any (· ∈ coord.eagleGroupIds)).map (·.2)

/-- One full-attention group and one other group. -/
def isSimpleHybrid : Bool :=
  coord.attentionGroups.length = 2 ∧
    (coord.attentionGroups.head?).any (·.isFullAttention)

/-- An EAGLE group applies the drop at most once per candidate length. -/
def usesEagle (index : ℕ) (search : HitSearch) : Bool :=
  index ∈ coord.eagleAttnGroupIndices ∧ index ∉ search.eagleVerified

/-- EAGLE needs to match one more block and then pops the last. -/
def maxLengthAt (maxCacheHitLength index : ℕ) (group : AttentionGroup σ) (search : HitSearch) : ℕ :=
  if coord.usesEagle index search then
    min (search.currHitLength + group.spec.blockSize) maxCacheHitLength
  else search.currHitLength

/-- The body of the inner loop: one attention group accepts the candidate length or reduces it. Full
attention is looked up once and then only trimmed. -/
def visit (pool : BlockPool) (blockHashes : List BlockHash) (maxCacheHitLength index : ℕ)
    (group : AttentionGroup σ) (search : HitSearch) : Except Exn HitSearch :=
  match group.groupIds with
  | [] => .error .indexError
  | firstId :: _ =>
    let blockSize := group.spec.blockSize
    if group.isFullAttention ∧ search.hitBlocksByGroup firstId ≠ none then
      .ok { search with currHitLength := search.currHitLength / blockSize * blockSize }
    else
      let useEagle := coord.usesEagle index search
      match group.findLongestCacheHit pool blockHashes
          (coord.maxLengthAt maxCacheHitLength index group search) useEagle
          coord.lcmBlockSize with
      | .error exn => .error exn
      | .ok [] => .error .indexError
      | .ok (first :: others) =>
        .ok (search.record index useEagle group.groupIds (first :: others) (first.length * blockSize))

end

/-- The inner loop over the attention groups. -/
def pass (coord : HybridKVCacheCoordinator σ) (pool : BlockPool) (blockHashes : List BlockHash)
    (maxCacheHitLength : ℕ) : List (AttentionGroup σ × ℕ) → HitSearch → Except Exn HitSearch
  | [], search => .ok search
  | (group, index) :: rest, search =>
    match coord.visit pool blockHashes maxCacheHitLength index group search with
    | .error exn => .error exn
    | .ok next => coord.pass pool blockHashes maxCacheHitLength rest next

/-- The outer loop. It ends when a pass does not reduce the hit length, or with the first pass if that
is enough. -/
def searchLoop (coord : HybridKVCacheCoordinator σ) (pool : BlockPool) (blockHashes : List BlockHash)
    (maxCacheHitLength : ℕ) (onePass : Bool) (hitLength : ℕ) (search : HitSearch) :
    Except Exn (HitSearch × ℕ) :=
  match coord.pass pool blockHashes maxCacheHitLength coord.attentionGroups.zipIdx
      { search with currHitLength := hitLength } with
  | .error exn => .error exn
  | .ok next =>
    if hitLength ≤ next.currHitLength then .ok (next, hitLength)
    else if onePass then .ok (next, next.currHitLength)
    else coord.searchLoop pool blockHashes maxCacheHitLength onePass next.currHitLength next
termination_by hitLength

variable (coord : HybridKVCacheCoordinator σ)

/-- Truncate the blocks of the first attention group if it is full attention. -/
def truncated (search : HitSearch) (hitLength : ℕ) : ℕ → Option (List ℕ) :=
  match coord.attentionGroups with
  | [] => search.hitBlocksByGroup
  | first :: _ => fun groupId ↦
    if first.isFullAttention ∧ groupId ∈ first.groupIds then
      (search.hitBlocksByGroup groupId).map fun blocks ↦ blocks.take (hitLength / first.spec.blockSize)
    else search.hitBlocksByGroup groupId

variable (pool : BlockPool) (blockHashes : List BlockHash) (maxCacheHitLength : ℕ)

/-- The search that stops after one pass or iterates to the fixed point. -/
def findHit (onePass : Bool) : Except Exn (List (List ℕ) × ℕ) :=
  (coord.searchLoop pool blockHashes maxCacheHitLength onePass maxCacheHitLength
    ⟨maxCacheHitLength, [], fun _ ↦ none⟩).map fun result ↦
      ((List.range coord.kvCacheGroups.length).map fun groupId ↦
        (coord.truncated result.1 result.2 groupId).getD [], result.2)

/-- `find_longest_cache_hit`: one pass is enough for a simple hybrid model. -/
def findLongestCacheHit : Except Exn (List (List ℕ) × ℕ) :=
  coord.findHit pool blockHashes maxCacheHitLength coord.isSimpleHybrid

end HybridKVCacheCoordinator

end Nelssa.Core
