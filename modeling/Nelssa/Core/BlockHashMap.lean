import Mathlib.Algebra.Group.Nat.Defs
import Nelssa.Core.FreeQueue

/-!
# Block hashes and the prefix-cache map

A cached block is found under its hash key, which packs the block hash and the id of the cache group.
`BlockHashToBlockMap` stores a single block under a key as long as there is only one and switches to a
dictionary of blocks for the second. `blocksAt` forgets the difference, and the two update operations
are described by what they do to it.
-/

namespace Nelssa.Core

open Function

abbrev BlockHash := List UInt8

abbrev BlockHashWithGroupId := List UInt8

/-- `group_id.to_bytes(4, "big", signed=False)`. -/
def groupIdBytes (groupId : ℕ) : List UInt8 :=
  [UInt8.ofNat (groupId / 2 ^ 24), UInt8.ofNat (groupId / 2 ^ 16), UInt8.ofNat (groupId / 2 ^ 8),
    UInt8.ofNat groupId]

/-- Pack a hash and a group id; a group id that needs more than four bytes is an overflow. -/
def makeBlockHashWithGroupId (blockHash : BlockHash) (groupId : ℕ) : Except Exn BlockHashWithGroupId :=
  if groupId < 2 ^ 32 then .ok (blockHash ++ groupIdBytes groupId) else .error .overflowError

def getBlockHash (key : BlockHashWithGroupId) : BlockHash := key.take (key.length - 4)

def getGroupId (key : BlockHashWithGroupId) : ℕ :=
  (key.drop (key.length - 4)).foldl (fun value byte ↦ value * 2 ^ 8 + byte.toNat) 0

variable {key : BlockHashWithGroupId}

theorem makeBlockHashWithGroupId_eq_ok {blockHash : BlockHash} {groupId : ℕ}
    (hkey : makeBlockHashWithGroupId blockHash groupId = .ok key) :
    getBlockHash key = blockHash ∧ getGroupId key = groupId := by
  unfold makeBlockHashWithGroupId at hkey
  split at hkey
  · cases hkey
    have hlen : (blockHash ++ groupIdBytes groupId).length - 4 = blockHash.length := by
      simp [groupIdBytes]
    constructor
    · rw [getBlockHash, hlen, List.take_left]
    · rw [getGroupId, hlen, List.drop_left]
      simp only [groupIdBytes, List.foldl_cons, List.foldl_nil, UInt8.toNat_ofNat']
      omega
  · cases hkey

/-- What the map stores under one key: a block, or a dictionary of blocks in insertion order. -/
inductive KVCacheBlocks where
  | single (block : ℕ)
  | many (blocks : List ℕ)
  deriving DecidableEq

structure BlockHashToBlockMap where
  cache : BlockHashWithGroupId → Option KVCacheBlocks

namespace BlockHashToBlockMap

variable {map : BlockHashToBlockMap}

def init : BlockHashToBlockMap := ⟨fun _ ↦ none⟩

/-- `blocks[block] = block` for a dictionary of blocks by id: a new id goes to the end. -/
def dictInsert (blocks : List ℕ) (block : ℕ) : List ℕ := if block ∈ blocks then blocks else blocks ++ [block]

section

variable (map : BlockHashToBlockMap) (key : BlockHashWithGroupId)

def getOneBlock : Option ℕ :=
  match map.cache key with
  | none => none
  | some (.single block) => some block
  | some (.many blocks) => blocks.head?

def insert (block : ℕ) : BlockHashToBlockMap :=
  match map.cache key with
  | none => ⟨update map.cache key (some (.single block))⟩
  | some (.single other) => ⟨update map.cache key (some (.many (dictInsert [other] block)))⟩
  | some (.many blocks) => ⟨update map.cache key (some (.many (dictInsert blocks block)))⟩

/-- Pop one block of a key. The entry is taken out first and put back unless it is used up. -/
def pop (blockId : ℕ) : Option ℕ × BlockHashToBlockMap :=
  match map.cache key with
  | none => (none, map)
  | some (.single block) =>
    if block = blockId then (some block, ⟨update map.cache key none⟩)
    else (none, ⟨update map.cache key (some (.single block))⟩)
  | some (.many blocks) =>
    let block := if blockId ∈ blocks then some blockId else none
    let rest := blocks.erase blockId
    (block, ⟨update map.cache key (if 0 < rest.length then some (.many rest) else none)⟩)

def blocksAt : List ℕ :=
  match map.cache key with
  | none => []
  | some (.single block) => [block]
  | some (.many blocks) => blocks

end

def Distinct (map : BlockHashToBlockMap) : Prop := ∀ key, (map.blocksAt key).Nodup

theorem mem_dictInsert {blocks : List ℕ} {block other : ℕ} :
    other ∈ dictInsert blocks block ↔ other ∈ blocks ∨ other = block := by
  unfold dictInsert
  split
  · exact ⟨.inl, fun h ↦ h.elim id fun heq ↦ heq ▸ ‹_›⟩
  · simp

theorem nodup_dictInsert {blocks : List ℕ} (hnodup : blocks.Nodup) (block : ℕ) :
    (dictInsert blocks block).Nodup := by
  unfold dictInsert
  split
  · exact hnodup
  · rename_i hnew
    refine List.nodup_append.2 ⟨hnodup, List.nodup_singleton block, ?_⟩
    rintro old hold _ hlast rfl
    exact hnew (List.mem_singleton.1 hlast ▸ hold)

variable {other : BlockHashWithGroupId}

section

variable (map : BlockHashToBlockMap)

theorem getOneBlock_eq_head? (key : BlockHashWithGroupId) :
    map.getOneBlock key = (map.blocksAt key).head? := by
  unfold getOneBlock blocksAt
  split <;> rfl

theorem blocksAt_update_of_ne (hne : other ≠ key) (entry : Option KVCacheBlocks) :
    blocksAt ⟨update map.cache key entry⟩ other = map.blocksAt other := by
  simp [blocksAt, update_of_ne hne]

theorem blocksAt_insert_self (key : BlockHashWithGroupId) (block : ℕ) :
    (map.insert key block).blocksAt key = dictInsert (map.blocksAt key) block := by
  unfold insert
  split <;> rename_i hentry <;> simp [blocksAt, hentry, dictInsert]

theorem blocksAt_insert_of_ne (hne : other ≠ key) (block : ℕ) :
    (map.insert key block).blocksAt other = map.blocksAt other := by
  unfold insert
  split <;> exact blocksAt_update_of_ne map hne _

theorem pop_fst (key : BlockHashWithGroupId) (blockId : ℕ) :
    (map.pop key blockId).1 = if blockId ∈ map.blocksAt key then some blockId else none := by
  unfold pop blocksAt
  split
  · simp
  · split
    · simp_all
    · simp_all [eq_comm]
  · rfl

end

theorem pop_fst_of_mem {blockId : ℕ} (hmem : blockId ∈ map.blocksAt key) :
    (map.pop key blockId).1 = some blockId := by
  rw [pop_fst, if_pos hmem]

theorem blocksAt_pop_self (map : BlockHashToBlockMap) (key : BlockHashWithGroupId) (blockId : ℕ) :
    (map.pop key blockId).2.blocksAt key = (map.blocksAt key).erase blockId := by
  cases hentry : map.cache key with
  | none => simp [pop, blocksAt, hentry]
  | some entry =>
    cases entry with
    | single block =>
      by_cases hsame : block = blockId
      · simp [pop, blocksAt, hentry, hsame]
      · simp [pop, blocksAt, hentry, hsame, List.erase_of_not_mem, Ne.symm]
    | many blocks =>
      by_cases hrest : 0 < (blocks.erase blockId).length
      · simp [pop, blocksAt, hentry, if_pos hrest]
      · have hempty : blocks.erase blockId = [] := List.length_eq_zero_iff.1 (by omega)
        simp [pop, blocksAt, hentry, hempty]

theorem blocksAt_pop_of_ne (map : BlockHashToBlockMap) (hne : other ≠ key) (blockId : ℕ) :
    (map.pop key blockId).2.blocksAt other = map.blocksAt other := by
  unfold pop
  split
  · rfl
  · split <;> exact blocksAt_update_of_ne map hne _
  · exact blocksAt_update_of_ne map hne _

variable (hmap : map.Distinct) (key : BlockHashWithGroupId)
include hmap

theorem Distinct.insert (block : ℕ) : (map.insert key block).Distinct := by
  intro other
  by_cases hsame : other = key
  · subst other
    rw [blocksAt_insert_self]
    exact nodup_dictInsert (hmap key) block
  · rw [blocksAt_insert_of_ne map hsame]
    exact hmap other

theorem Distinct.pop (blockId : ℕ) : (map.pop key blockId).2.Distinct := by
  intro other
  by_cases hsame : other = key
  · subst other
    rw [blocksAt_pop_self]
    exact (hmap key).erase blockId
  · rw [blocksAt_pop_of_ne map hsame]
    exact hmap other

end BlockHashToBlockMap

end Nelssa.Core
