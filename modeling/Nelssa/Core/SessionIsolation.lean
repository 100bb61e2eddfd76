import Nelssa.Core.PrefixIsolation

/-!
# Isolation of sessions

A request can grow by generated tokens and by updates of its streaming session. A block keeps the hash of
the tokens and items it had when it was filled. Two requests share a block although they are to be kept
apart if a LoRA name meets the same string as a salt, if an empty salt meets none, if an update dropped
tokens of a hashed block, or if an item was left out of the hash.
-/

namespace Nelssa.Core.BlockHashing

open Foundation.HashChain MmFeature
open List hiding min not_le

variable {ε : Type*} {hasher : Hasher ε}

/-! ## The blocks of a lifetime -/

/-- A block as it was hashed: the request at that time, the first item of the walk, and the calls that
came later. -/
structure HashedBlock (ε : Type*) where
  req : Request ε
  base : ℕ
  later : List Call

/-- The blocks of one call of the hasher, which walks all items if nothing was hashed before. -/
def newBlocks (blockSize numHashed : ℕ) (req : Request ε) (later : List Call) : List (HashedBlock ε) :=
  replicate (req.allTokenIds.length / blockSize - numHashed)
    ⟨req, if numHashed = 0 then 0 else req.mmFeatures.length - 1, later⟩

def blocksAfter (blockSize : ℕ) : List Call → Request ε → ℕ → List (HashedBlock ε)
  | [], req, numHashed => newBlocks blockSize numHashed req []
  | call :: rest, req, numHashed => newBlocks blockSize numHashed req (call :: rest) ++
      blocksAfter blockSize rest (req.grow call) (max numHashed (req.allTokenIds.length / blockSize))

section

variable {blockSize numHashed : ℕ} {req : Request ε} {later calls : List Call} {index : ℕ}
  {hashed : HashedBlock ε}

theorem length_newBlocks : numHashed + (newBlocks blockSize numHashed req later).length =
    max numHashed (req.allTokenIds.length / blockSize) := by
  rw [newBlocks, length_replicate]
  omega

theorem getElem?_newBlocks (hidx : numHashed ≤ index) (hlt : index < req.allTokenIds.length / blockSize) :
    (newBlocks blockSize numHashed req later)[index - numHashed]? =
      some ⟨req, if numHashed = 0 then 0 else req.mmFeatures.length - 1, later⟩ := by
  rw [newBlocks, getElem?_replicate, if_pos (by omega)]

theorem of_getElem?_newBlocks (hhashed : (newBlocks blockSize numHashed req later)[index]? = some hashed) :
    numHashed + index < req.allTokenIds.length / blockSize ∧
      hashed = ⟨req, if numHashed = 0 then 0 else req.mmFeatures.length - 1, later⟩ := by
  rw [newBlocks, getElem?_replicate, Option.ite_none_right_eq_some] at hhashed
  exact ⟨by omega, (Option.some.inj hhashed.2).symm⟩

theorem getElem?_blocksAfter (hidx : numHashed ≤ index) (hlt : index < req.allTokenIds.length / blockSize) :
    (blocksAfter blockSize calls req numHashed)[index - numHashed]? =
      some ⟨req, if numHashed = 0 then 0 else req.mmFeatures.length - 1, calls⟩ := by
  cases calls with
  | nil => exact getElem?_newBlocks hidx hlt
  | cons call rest =>
    rw [blocksAfter, getElem?_append_left, getElem?_newBlocks hidx hlt]
    rw [newBlocks, length_replicate]
    omega

/-- A block was full when it was hashed, and the calls after it lead to the request. -/
theorem hashedBlock_spec (hhashed : (blocksAfter blockSize calls req numHashed)[index]? = some hashed) :
    numHashed + index < hashed.req.allTokenIds.length / blockSize ∧
      hashed.later.foldl Request.grow hashed.req = calls.foldl Request.grow req := by
  induction calls generalizing req numHashed index with
  | nil =>
    obtain ⟨hlt, rfl⟩ := of_getElem?_newBlocks hhashed
    exact ⟨hlt, rfl⟩
  | cons call rest ih =>
    have hlen : numHashed + (newBlocks blockSize numHashed req (call :: rest)).length = _ := length_newBlocks
    by_cases hnew : index < (newBlocks blockSize numHashed req (call :: rest)).length
    · rw [blocksAfter, getElem?_append_left hnew] at hhashed
      obtain ⟨hlt, rfl⟩ := of_getElem?_newBlocks hhashed
      exact ⟨hlt, rfl⟩
    · rw [blocksAfter, getElem?_append_right (not_lt.1 hnew)] at hhashed
      obtain ⟨hfull, hcalls⟩ := ih hhashed
      exact ⟨by omega, hcalls⟩

end

section

variable (hnonempty : ∀ input, hasher.cachingHashFn input ≠ [])
  {content : ℕ → List ℕ × Option (List ExtraKey)} {calls : List Call} (req : Request ε) (numHashed : ℕ)
  (hcontent : ∀ index hashed, (blocksAfter hasher.blockSize calls req numHashed)[index]? = some hashed →
    content (numHashed + index) = contentFrom hasher hashed.req hashed.base (numHashed + index))
include hnonempty hcontent

theorem updateBlockHashes_of_blocksAfter :
    updateBlockHashes hasher { req with blockHashes := (range numHashed).map (digest hasher content) } =
      .ok { req with
        blockHashes := (range (max numHashed (req.allTokenIds.length / hasher.blockSize))).map
          (digest hasher content) } := by
  refine updateBlockHashes_spec hnonempty { req with blockHashes := _ } rfl fun block hge hlt ↦ ?_
  have hblock := hcontent _ _ (getElem?_blocksAfter hge hlt)
  rwa [Nat.add_sub_cancel' hge] at hblock

/-- Every block is hashed with the content it had when it was filled. -/
theorem hashCalls_spec :
    hashCalls hasher calls { req with blockHashes := (range numHashed).map (digest hasher content) } =
      .ok { calls.foldl Request.grow req with
        blockHashes := (range (numHashed + (blocksAfter hasher.blockSize calls req numHashed).length)).map
          (digest hasher content) } := by
  induction calls generalizing req numHashed with
  | nil =>
    rw [hashCalls, updateBlockHashes_of_blocksAfter hnonempty req numHashed hcontent, blocksAfter,
      length_newBlocks, foldl_nil]
  | cons call rest ih =>
    have hlen : numHashed + (newBlocks hasher.blockSize numHashed req (call :: rest)).length = _ :=
      length_newBlocks
    have hnext := ih (req.grow call) (max numHashed (req.allTokenIds.length / hasher.blockSize))
      fun index hashed hhashed ↦ by
        rw [← hlen, add_assoc]
        refine hcontent _ hashed ?_
        rwa [blocksAfter, getElem?_append_right (Nat.le_add_right _ _), Nat.add_sub_cancel_left]
    rw [hashCalls, updateBlockHashes_of_blocksAfter hnonempty req numHashed hcontent, blocksAfter,
      length_append, ← add_assoc, hlen]
    cases call <;> exact hnext

end

namespace Lifetime

section

variable (lifetime : Lifetime ε)

/-- What is known of a block that has a hash. -/
def hashedAt (blockSize block : ℕ) : Option (HashedBlock ε) :=
  (blocksAfter blockSize lifetime.calls lifetime.created 0)[block]?

/-- The tokens and keys in the hash of a block. -/
def contentAt (hasher : Hasher ε) (block : ℕ) : List ℕ × Option (List ExtraKey) :=
  match lifetime.hashedAt hasher.blockSize block with
  | none => ([], none)
  | some hashed => contentFrom hasher hashed.req hashed.base block

theorem blockHashAt_eq (hnonempty : ∀ input, hasher.cachingHashFn input ≠ []) (block : ℕ) :
    lifetime.blockHashAt hasher block =
      (lifetime.hashedAt hasher.blockSize block).map fun _ ↦
        digest hasher (lifetime.contentAt hasher) block := by
  have hspec := hashCalls_spec hnonempty lifetime.created 0 fun index hashed hhashed ↦ by
    have hat : lifetime.hashedAt hasher.blockSize index = some hashed := hhashed
    have hcontent : lifetime.contentAt hasher (0 + index) =
        contentFrom hasher hashed.req hashed.base (0 + index) := by
      rw [zero_add, contentAt, hat]
    exact hcontent
  rw [range_zero, map_nil, ← lifetime.noHashes] at hspec
  rw [blockHashAt, hspec, hashedAt]
  simp only [zero_add, getElem?_map]
  cases hat : (blocksAfter hasher.blockSize lifetime.calls lifetime.created 0)[block]? with
  | none =>
    rw [getElem?_eq_none_iff] at hat
    simp [hat]
  | some hashed =>
    obtain ⟨hlt, -⟩ := List.getElem?_eq_some_iff.1 hat
    rw [getElem?_range hlt]
    rfl

theorem exists_hashedAt_of_le {blockSize index block : ℕ} {hashed : HashedBlock ε}
    (hat : lifetime.hashedAt blockSize block = some hashed) (hle : index ≤ block) :
    ∃ earlier, lifetime.hashedAt blockSize index = some earlier := by
  obtain ⟨hlt, -⟩ := List.getElem?_eq_some_iff.1 hat
  exact ⟨_, getElem?_eq_getElem (hle.trans_lt hlt)⟩

end

/-- Two requests have the same hash at a block exactly if all blocks up to it were hashed with the same
content. -/
theorem exists_blockHashAt_iff (hideal : hasher.Ideal) (left right : Lifetime ε) (block : ℕ) :
    (∃ hash, left.blockHashAt hasher block = some hash ∧ right.blockHashAt hasher block = some hash) ↔
      ∀ index ≤ block, ∃ hashed, left.hashedAt hasher.blockSize index = some hashed ∧
        ∃ other, right.hashedAt hasher.blockSize index = some other ∧
          contentFrom hasher hashed.req hashed.base index =
            contentFrom hasher other.req other.base index := by
  have hchain : digest hasher (left.contentAt hasher) block = digest hasher (right.contentAt hasher) block ↔
      ∀ index ≤ block, left.contentAt hasher index = right.contentAt hasher index :=
    chain_eq_iff (injective2_of_injective hideal.injective) block
  simp only [blockHashAt_eq _ hideal.nonempty, Option.map_eq_some_iff]
  constructor
  · rintro ⟨hash, ⟨hashed, hleft, rfl⟩, other, hright, hsame⟩ index hidx
    obtain ⟨earlier, hearlier⟩ := left.exists_hashedAt_of_le hleft hidx
    obtain ⟨earlier', hearlier'⟩ := right.exists_hashedAt_of_le hright hidx
    have hcontent := hchain.1 hsame.symm index hidx
    rw [contentAt, contentAt, hearlier, hearlier'] at hcontent
    exact ⟨earlier, hearlier, earlier', hearlier', hcontent⟩
  · intro h
    obtain ⟨hashed, hleft, other, hright, -⟩ := h block le_rfl
    refine ⟨_, ⟨hashed, hleft, rfl⟩, other, hright, (hchain.2 fun index hidx ↦ ?_).symm⟩
    obtain ⟨earlier, hearlier, earlier', hearlier', hcontent⟩ := h index hidx
    rw [contentAt, contentAt, hearlier, hearlier']
    exact hcontent

end Lifetime

/-! ## What a call keeps -/

/-- The request keeps what it was created with and only gets further items. -/
structure Request.Keeps (req next : Request ε) : Prop where
  lora : next.loraName = req.loraName
  salt : next.cacheSalt = req.cacheSalt
  embeds : next.promptEmbeds = req.promptEmbeds
  items : req.mmFeatures <+: next.mmFeatures

theorem keeps_foldl (calls : List Call) (req : Request ε) : req.Keeps (calls.foldl Request.grow req) := by
  induction calls generalizing req with
  | nil => exact ⟨rfl, rfl, rfl, prefix_rfl⟩
  | cons call rest ih =>
    have hcall : req.Keeps (req.grow call) := by
      cases call with
      | append tokenIds => exact ⟨rfl, rfl, rfl, prefix_rfl⟩
      | update numComputedTokens promptTokenIds mmFeatures => exact ⟨rfl, rfl, rfl, prefix_append _ _⟩
    have hrest := ih (req.grow call)
    exact ⟨hrest.lora.trans hcall.lora, hrest.salt.trans hcall.salt, hrest.embeds.trans hcall.embeds,
      hcall.items.trans hrest.items⟩

/-- Some update finds fewer computed tokens and drops the others. -/
def DropsBelow (numTokens : ℕ) (calls : List Call) : Prop :=
  ∃ numComputedTokens promptTokenIds mmFeatures,
    Call.update numComputedTokens promptTokenIds mmFeatures ∈ calls ∧ numComputedTokens < numTokens

theorem take_foldl {numTokens : ℕ} {calls : List Call} (hkept : ¬ DropsBelow numTokens calls)
    {req : Request ε} (hfull : numTokens ≤ req.allTokenIds.length) :
    (calls.foldl Request.grow req).allTokenIds.take numTokens = req.allTokenIds.take numTokens := by
  induction calls generalizing req with
  | nil => rfl
  | cons call rest ih =>
    have hrest : ¬ DropsBelow numTokens rest :=
      fun ⟨numComputedTokens, promptTokenIds, mmFeatures, hmem, hlt⟩ ↦
        hkept ⟨numComputedTokens, promptTokenIds, mmFeatures, mem_cons_of_mem _ hmem, hlt⟩
    have hcall : numTokens ≤ (req.grow call).allTokenIds.length ∧
        (req.grow call).allTokenIds.take numTokens = req.allTokenIds.take numTokens := by
      cases call with
      | append tokenIds =>
        refine ⟨hfull.trans ?_, take_append_of_le_length hfull⟩
        simp [Request.grow]
      | update numComputedTokens promptTokenIds mmFeatures =>
        have hle : numTokens ≤ numComputedTokens :=
          Nat.not_lt.1 fun hlt ↦ hkept ⟨_, _, _, mem_cons_self, hlt⟩
        have hroom : numTokens ≤ (req.allTokenIds.take numComputedTokens).length := by
          rw [length_take]
          exact le_min hle hfull
        refine ⟨hroom.trans ?_, ?_⟩
        · rw [Request.grow, Request.extend, length_append]
          exact Nat.le_add_right _ _
        · rw [Request.grow, Request.extend, take_append_of_le_length hroom, take_take, min_eq_left hle]
    rw [foldl_cons, ih hrest hcall.1, hcall.2]

/-! ## Items that are left out -/

/-- The walk does not come to the item at a position: it was added later, lies before the first item of the
walk or behind one that goes on after the block, or the last item ended before the block. -/
def LeavesOut (features : List MmFeature) (base startTokenIdx endTokenIdx pos : ℕ) : Prop :=
  features.length ≤ pos ∨ pos < base ∨
    (∃ earlier feature, base ≤ earlier ∧ earlier < pos ∧ features[earlier]? = some feature ∧
      ¬ feature.EndsBy endTokenIdx) ∨
    ∃ last, features.getLast? = some last ∧ last.offset + last.length ≤ startTokenIdx

section

variable {features : List MmFeature} {startTokenIdx endTokenIdx base pos : ℕ} {feature : MmFeature}
  (hoverlaps : feature.Overlaps startTokenIdx endTokenIdx)
include hoverlaps

theorem mem_walkedItems (hpos : features[pos]? = some feature)
    (hends : ∀ earlier other, earlier < pos → features[earlier]? = some other → other.EndsBy endTokenIdx) :
    feature ∈ walkedItems startTokenIdx endTokenIdx features := by
  induction features generalizing pos with
  | nil => simp at hpos
  | cons first rest ih =>
    cases pos with
    | zero =>
      obtain rfl : first = feature := by simpa using hpos
      by_cases hfirst : first.EndsBy endTokenIdx
      · simp [walkedItems_cons_of_endsBy hfirst, hoverlaps]
      · simp [walkedItems_cons_of_not_endsBy hfirst, hoverlaps]
    | succ pos =>
      rw [walkedItems_cons_of_endsBy (hends 0 first (Nat.succ_pos _) rfl), mem_append]
      exact .inr (ih hpos fun earlier other hlt hother ↦
        hends (earlier + 1) other (Nat.succ_lt_succ hlt) hother)

theorem mem_hashedItems {whole : List MmFeature} (hstart : features <+: whole)
    (hpos : whole[pos]? = some feature)
    (hleaves : ¬ LeavesOut features base startTokenIdx endTokenIdx pos) :
    feature ∈ hashedItems features base startTokenIdx endTokenIdx := by
  obtain ⟨hlt, hbase, hends, hlast⟩ : pos < features.length ∧ base ≤ pos ∧ _ ∧ _ := by
    simpa only [LeavesOut, not_or, not_le, not_lt] using hleaves
  have hown : features[pos]? = some feature := by
    obtain ⟨added, rfl⟩ := hstart
    rwa [getElem?_append_left hlt] at hpos
  unfold hashedItems
  cases hget : features.getLast? with
  | none => simp [getLast?_eq_none_iff.1 hget] at hlt
  | some last =>
    have hopen : ¬ last.offset + last.length ≤ startTokenIdx := fun h ↦ hlast ⟨last, hget, h⟩
    simp only [hopen, if_false]
    have hdrop : (features.drop base)[pos - base]? = some feature := by
      rw [getElem?_drop, Nat.add_sub_cancel' hbase, hown]
    refine mem_walkedItems hoverlaps hdrop fun earlier other hearlier hother ↦ by_contra fun h ↦ ?_
    rw [getElem?_drop] at hother
    exact hends ⟨base + earlier, other, Nat.le_add_right _ _, by omega, hother, h⟩

end

theorem mem_of_mem_hashedItems {features : List MmFeature} {base startTokenIdx endTokenIdx : ℕ}
    {feature : MmFeature} (hmem : feature ∈ hashedItems features base startTokenIdx endTokenIdx) :
    feature ∈ features ∧ feature.Overlaps startTokenIdx endTokenIdx := by
  unfold hashedItems at hmem
  split at hmem
  · simp at hmem
  · split at hmem
    · simp at hmem
    · obtain ⟨hwalked, hoverlaps⟩ := mem_filter.1 hmem
      refine ⟨mem_of_mem_drop (i := base) ?_, of_decide_eq_true hoverlaps⟩
      rw [← takeWhile_append_dropWhile (p := fun other ↦ decide (EndsBy endTokenIdx other))
        (l := features.drop base)]
      exact mem_append.2 ((mem_append.1 hwalked).imp_right mem_of_mem_take)

/-! ## Isolation -/

/-- The two requests agree on all that was to be kept apart, up to the end of a block. -/
structure SameContent (blockSize : ℕ) (left right : Request ε) (block : ℕ) : Prop where
  tokens : left.allTokenIds.take ((block + 1) * blockSize) = right.allTokenIds.take ((block + 1) * blockSize)
  lora : left.loraName = right.loraName
  salt : left.cacheSalt = right.cacheSalt
  items : ∀ index ≤ block, ∀ item, item ∈ left.itemsIn blockSize index ↔ item ∈ right.itemsIn blockSize index
  embeds : ∀ index ≤ block, left.embedsIn blockSize index = right.embedsIn blockSize index

namespace HashedBlock

variable (hashed : HashedBlock ε) (blockSize index : ℕ)

/-- The items that the hasher visits in the block. -/
def visited : List (String × ℤ) := hashed.req.hashedFrom blockSize index hashed.base

/-- The hasher sees the same tokens, items and embeddings. -/
structure Alike (other : HashedBlock ε) : Prop where
  tokens : hashed.req.tokensIn blockSize index = other.req.tokensIn blockSize index
  items : hashed.visited blockSize index = other.visited blockSize index
  embeds : hashed.req.embedsIn blockSize index = other.req.embedsIn blockSize index

end HashedBlock

namespace Lifetime

section

variable (blockSize : ℕ) (left right : Lifetime ε) (block : ℕ)

/-- The strings of the first block can be exchanged. -/
def ExchangesStrings : Prop :=
  block = 0 ∧ (∃ hashed, left.hashedAt blockSize 0 = some hashed ∧ hashed.visited blockSize 0 = []) ∧
    (Swapped left.created.loraName left.created.saltKey right.created.loraName right.created.saltKey ∨
      Swapped right.created.loraName right.created.saltKey left.created.loraName left.created.saltKey)

/-- A later update dropped tokens of the hashed block, and now the other request has other tokens in it. -/
def Discards (index : ℕ) : Prop :=
  (∃ hashed, left.hashedAt blockSize index = some hashed ∧
    DropsBelow (index * blockSize + blockSize) hashed.later) ∧
  left.current.tokensIn blockSize index ≠ right.current.tokensIn blockSize index

/-- An item with tokens in the block was left out of its hash, and the other request does not have it. -/
def Hides (index : ℕ) : Prop :=
  ∃ pos feature hashed, left.current.mmFeatures[pos]? = some feature ∧
    feature.Overlaps (index * blockSize) (index * blockSize + blockSize) ∧
    left.hashedAt blockSize index = some hashed ∧
    LeavesOut hashed.req.mmFeatures hashed.base (index * blockSize) (index * blockSize + blockSize) pos ∧
    feature.relativeTo (index * blockSize) ∉ right.current.itemsIn blockSize index

/-- The hasher sees the same in all blocks but the requests are to be kept apart: by a LoRA name against the
same string as salt, by an empty salt, by dropped tokens, or by an item that is left out. -/
structure Confusable : Prop where
  alike : ∀ index ≤ block, ∃ hashed, left.hashedAt blockSize index = some hashed ∧
    ∃ other, right.hashedAt blockSize index = some other ∧ hashed.Alike blockSize index other
  apart : ExchangesStrings blockSize left right block ∨
    (left.created.loraName = right.created.loraName ∧ left.created.saltKey = right.created.saltKey ∧
      (left.created.cacheSalt ≠ right.created.cacheSalt ∨ ∃ index ≤ block,
        Discards blockSize left right index ∨ Discards blockSize right left index ∨
          Hides blockSize left right index ∨ Hides blockSize right left index))

end

theorem keeps_current (lifetime : Lifetime ε) : lifetime.created.Keeps lifetime.current :=
  keeps_foldl lifetime.calls lifetime.created

section

variable {blockSize index : ℕ} {left right : Lifetime ε} {hashed other : HashedBlock ε}
  (hat : left.hashedAt blockSize index = some hashed)
include hat

theorem keeps_hashedAt : hashed.req.Keeps left.current := by
  have hkeeps := keeps_foldl hashed.later hashed.req
  rwa [(hashedBlock_spec hat).2] at hkeeps

theorem tokensIn_hashedAt (hkept : ¬ DropsBelow (index * blockSize + blockSize) hashed.later) :
    left.current.tokensIn blockSize index = hashed.req.tokensIn blockSize index := by
  obtain ⟨hlt, hcurrent⟩ := hashedBlock_spec hat
  have hfull : index * blockSize + blockSize ≤ hashed.req.allTokenIds.length := by
    rw [← Nat.succ_mul]
    exact Nat.mul_le_of_le_div _ _ _ (by omega)
  have htake := take_foldl hkept hfull
  rw [hcurrent] at htake
  exact congrArg (drop (index * blockSize)) htake

theorem strings_hashedAt : hashed.req.loraName = left.created.loraName ∧
    hashed.req.saltKey = left.created.saltKey := by
  have hkeeps := keeps_hashedAt hat
  have hcreated := left.keeps_current
  refine ⟨hkeeps.lora.symm.trans hcreated.lora, ?_⟩
  rw [Request.saltKey, Request.saltKey, ← hkeeps.salt, ← hcreated.salt]

variable (hother : right.hashedAt blockSize index = some other) (halike : hashed.Alike blockSize index other)
include hother halike

/-- Without dropped tokens, two blocks with the same hashed tokens have the same tokens. -/
theorem tokensIn_eq_of_alike (hleft : ¬ Discards blockSize left right index)
    (hright : ¬ Discards blockSize right left index) :
    left.current.tokensIn blockSize index = right.current.tokensIn blockSize index := by
  by_contra hne
  have hkept : ¬ DropsBelow (index * blockSize + blockSize) hashed.later := fun h ↦
    hleft ⟨⟨hashed, hat, h⟩, hne⟩
  have hkept' : ¬ DropsBelow (index * blockSize + blockSize) other.later := fun h ↦
    hright ⟨⟨other, hother, h⟩, Ne.symm hne⟩
  refine hne ?_
  rw [tokensIn_hashedAt hat hkept, tokensIn_hashedAt hother hkept', halike.tokens]

/-- An item of one request that is not left out of the hash is an item of the other one. -/
theorem mem_itemsIn_of_alike (hhides : ¬ Hides blockSize left right index) {item : String × ℤ}
    (hitem : item ∈ left.current.itemsIn blockSize index) : item ∈ right.current.itemsIn blockSize index := by
  obtain ⟨feature, hfeature, rfl⟩ := mem_map.1 hitem
  obtain ⟨hmem, hoverlaps⟩ := mem_filter.1 hfeature
  obtain ⟨pos, hpos⟩ := mem_iff_getElem?.1 hmem
  by_contra hnot
  have hhashed := mem_hashedItems (of_decide_eq_true hoverlaps) (keeps_hashedAt hat).items hpos fun hleaves ↦
    hhides ⟨pos, feature, hashed, hpos, of_decide_eq_true hoverlaps, hat, hleaves, hnot⟩
  have hvisited : feature.relativeTo (index * blockSize) ∈ other.visited blockSize index :=
    halike.items ▸ mem_map_of_mem hhashed
  obtain ⟨found, hfound, hsame⟩ := mem_map.1 hvisited
  obtain ⟨hown, hoverlaps'⟩ := mem_of_mem_hashedItems hfound
  refine hnot (mem_map.2 ⟨found, mem_filter.2 ⟨?_, decide_eq_true hoverlaps'⟩, hsame⟩)
  exact (keeps_hashedAt hother).items.subset hown

end

variable {left right : Lifetime ε} {block : ℕ}

/-- What the hasher sees of two blocks, with the strings that the requests were created with. -/
theorem contentFrom_hashedAt_iff (hideal : hasher.Ideal) {index : ℕ} {hashed other : HashedBlock ε}
    (hat : left.hashedAt hasher.blockSize index = some hashed)
    (hother : right.hashedAt hasher.blockSize index = some other) :
    contentFrom hasher hashed.req hashed.base index = contentFrom hasher other.req other.base index ↔
      hashed.Alike hasher.blockSize index other ∧
      ((left.created.loraName = right.created.loraName ∧
          (index = 0 → left.created.saltKey = right.created.saltKey)) ∨
        ExchangesStrings hasher.blockSize left right index) := by
  obtain ⟨hlora, hsalt⟩ := strings_hashedAt hat
  obtain ⟨hlora', hsalt'⟩ := strings_hashedAt hother
  rw [contentFrom_eq_iff hideal, hlora, hsalt, hlora', hsalt']
  constructor
  · rintro ⟨htokens, hitems, hembeds, hsame | ⟨rfl, hnone, hswap⟩⟩
    · exact ⟨⟨htokens, hitems, hembeds⟩, .inl hsame⟩
    · exact ⟨⟨htokens, hitems, hembeds⟩, .inr ⟨rfl, ⟨hashed, hat, hnone⟩, hswap⟩⟩
  · rintro ⟨halike, hsame | ⟨rfl, ⟨first, hfirst, hnone⟩, hswap⟩⟩
    · exact ⟨halike.tokens, halike.items, halike.embeds, .inl hsame⟩
    · obtain rfl : hashed = first := Option.some.inj (hat.symm.trans hfirst)
      exact ⟨halike.tokens, halike.items, halike.embeds, .inr ⟨rfl, hnone, hswap⟩⟩

theorem loraName_ne_of_exchangesStrings {blockSize : ℕ} (h : ExchangesStrings blockSize left right block) :
    left.created.loraName ≠ right.created.loraName := by
  obtain ⟨-, -, ⟨name, hleft, -, hright, -⟩ | ⟨name, hright, -, hleft, -⟩⟩ := h
  all_goals simp [hleft, hright]

/-- Two requests have the same hash at a block exactly if the hasher sees the same in all blocks up to it and
LoRA name and salt agree, unless they are exchanged. The second block tells a LoRA name from a salt. -/
theorem exists_blockHashAt_iff_alike (hideal : hasher.Ideal) (left right : Lifetime ε) (block : ℕ) :
    (∃ hash, left.blockHashAt hasher block = some hash ∧ right.blockHashAt hasher block = some hash) ↔
      (∀ index ≤ block, ∃ hashed, left.hashedAt hasher.blockSize index = some hashed ∧
        ∃ other, right.hashedAt hasher.blockSize index = some other ∧
          hashed.Alike hasher.blockSize index other) ∧
      ((left.created.loraName = right.created.loraName ∧ left.created.saltKey = right.created.saltKey) ∨
        ExchangesStrings hasher.blockSize left right block) := by
  rw [exists_blockHashAt_iff hideal]
  constructor
  · intro h
    refine ⟨fun index hidx ↦ ?_, ?_⟩
    · obtain ⟨hashed, hleft, other, hright, hcontent⟩ := h index hidx
      exact ⟨hashed, hleft, other, hright, ((contentFrom_hashedAt_iff hideal hleft hright).1 hcontent).1⟩
    · obtain ⟨_, hleft, _, hright, hcontent⟩ := h 0 (Nat.zero_le _)
      rcases ((contentFrom_hashedAt_iff hideal hleft hright).1 hcontent).2 with ⟨hlora, hsalt⟩ | hswap
      · exact .inl ⟨hlora, hsalt rfl⟩
      · cases block with
        | zero => exact .inr hswap
        | succ block =>
          obtain ⟨_, hleft, _, hright, hcontent⟩ := h 1 (Nat.le_add_left _ _)
          rcases ((contentFrom_hashedAt_iff hideal hleft hright).1 hcontent).2 with ⟨hlora, -⟩ | ⟨hone, -⟩
          · exact absurd hlora (loraName_ne_of_exchangesStrings hswap)
          · cases hone
  · rintro ⟨halike, hstrings⟩ index hidx
    obtain ⟨hashed, hleft, other, hright, hsame⟩ := halike index hidx
    refine ⟨hashed, hleft, other, hright, (contentFrom_hashedAt_iff hideal hleft hright).2 ⟨hsame, ?_⟩⟩
    rcases hstrings with ⟨hlora, hsalt⟩ | hswap
    · exact .inl ⟨hlora, fun _ ↦ hsalt⟩
    · obtain rfl := hswap.1
      obtain rfl := Nat.le_zero.1 hidx
      exact .inr hswap

/-- Requests with the same content are not confusable. -/
theorem not_confusable_of_sameContent {blockSize : ℕ}
    (hsame : SameContent blockSize left.current right.current block) :
    ¬ Confusable blockSize left right block := by
  have hleft := left.keeps_current
  have hright := right.keeps_current
  have htokens := (slices_eq_iff _ _ _ _).2 hsame.tokens
  have hmem {lifetime : Lifetime ε} {index pos : ℕ} {feature : MmFeature}
      (hpos : lifetime.current.mmFeatures[pos]? = some feature)
      (hoverlaps : feature.Overlaps (index * blockSize) (index * blockSize + blockSize)) :
      feature.relativeTo (index * blockSize) ∈ lifetime.current.itemsIn blockSize index :=
    mem_map_of_mem (mem_filter.2 ⟨mem_of_getElem? hpos, decide_eq_true hoverlaps⟩)
  rintro ⟨-, hswap | ⟨-, -, hsalt | ⟨index, hidx, hloss⟩⟩⟩
  · exact loraName_ne_of_exchangesStrings hswap (hleft.lora.symm.trans (hsame.lora.trans hright.lora))
  · exact hsalt (hleft.salt.symm.trans (hsame.salt.trans hright.salt))
  · rcases hloss with ⟨-, hne⟩ | ⟨-, hne⟩ | ⟨pos, feature, hashed, hpos, hover, -, -, hnot⟩ |
      ⟨pos, feature, hashed, hpos, hover, -, -, hnot⟩
    · exact hne (htokens index hidx)
    · exact hne (htokens index hidx).symm
    · exact hnot ((hsame.items index hidx _).1 (hmem hpos hover))
    · exact hnot ((hsame.items index hidx _).2 (hmem hpos hover))

/-- Equal block hashes keep two requests apart exactly if they are not confusable. -/
theorem isolated_iff_not_confusable {hasher : Hasher ε} (hideal : hasher.Ideal)
    (left right : Lifetime ε) (block : ℕ) :
    (∀ hash, left.blockHashAt hasher block = some hash → right.blockHashAt hasher block = some hash →
        SameContent hasher.blockSize left.current right.current block) ↔
      ¬ Confusable hasher.blockSize left right block := by
  have hshared := exists_blockHashAt_iff_alike hideal left right block
  constructor
  · intro hisolated hconf
    obtain ⟨hash, hleft, hright⟩ := hshared.2 ⟨hconf.alike, hconf.apart.symm.imp_left fun h ↦ ⟨h.1, h.2.1⟩⟩
    exact not_confusable_of_sameContent (hisolated hash hleft hright) hconf
  · intro hclear hash hleft hright
    obtain ⟨halike, hstrings⟩ := hshared.1 ⟨hash, hleft, hright⟩
    have happart : ¬ (ExchangesStrings hasher.blockSize left right block ∨ _) := fun h ↦ hclear ⟨halike, h⟩
    rw [not_or] at happart
    obtain ⟨hlora, hsalt⟩ := hstrings.resolve_right happart.1
    have hrest := fun h ↦ happart.2 ⟨hlora, hsalt, h⟩
    have hloss (index : ℕ) (hidx : index ≤ block) : ¬ _ := fun h ↦ hrest (.inr ⟨index, hidx, h⟩)
    simp only [not_or] at hloss
    have hkeeps := left.keeps_current
    have hkeeps' := right.keeps_current
    refine ⟨(slices_eq_iff _ _ _ _).1 fun index hidx ↦ ?_, ?_, ?_, fun index hidx item ↦ ?_,
      fun index hidx ↦ ?_⟩
    · obtain ⟨hashed, hat, other, hother, hsame⟩ := halike index hidx
      exact tokensIn_eq_of_alike hat hother hsame (hloss index hidx).1 (hloss index hidx).2.1
    · rw [hkeeps.lora, hkeeps'.lora, hlora]
    · rw [hkeeps.salt, hkeeps'.salt]
      exact by_contra fun h ↦ hrest (.inl h)
    · obtain ⟨hashed, hat, other, hother, hsame⟩ := halike index hidx
      have hsymm : other.Alike hasher.blockSize index hashed :=
        ⟨hsame.tokens.symm, hsame.items.symm, hsame.embeds.symm⟩
      exact ⟨mem_itemsIn_of_alike hat hother hsame (hloss index hidx).2.2.1,
        mem_itemsIn_of_alike hother hat hsymm (hloss index hidx).2.2.2⟩
    · obtain ⟨hashed, hat, other, hother, hsame⟩ := halike index hidx
      rw [Request.embedsIn, Request.embedsIn, (keeps_hashedAt hat).embeds, (keeps_hashedAt hother).embeds]
      exact hsame.embeds

/-- A tenant's session under a LoRA adapter and a salt, with an image. Generated tokens complete its second
block, and an update drops those behind it. -/
def tenantSession (sampled promptTokenIds : List ℕ) (mmFeatures : List MmFeature) : Lifetime Unit :=
  { created := { allTokenIds := [1, 2, 3], loraName := some "sql", cacheSalt := some "tenant"
                 mmFeatures := [⟨"photo", 0, 1⟩], promptEmbeds := none, blockHashes := [] }
    noHashes := rfl
    calls := [.append (4 :: sampled), .update 4 promptTokenIds mmFeatures] }

/-- Two sessions of the tenant that go on differently share their second block. -/
theorem isolated_tenantSession : ∃ hasher : Hasher Unit, hasher.Ideal ∧ ∃ hash,
    (tenantSession [9] [5] []).blockHashAt hasher 1 = some hash ∧
    (tenantSession [] [7, 8] [⟨"chart", 0, 1⟩]).blockHashAt hasher 1 = some hash ∧
    SameContent hasher.blockSize (tenantSession [9] [5] []).current
      (tenantSession [] [7, 8] [⟨"chart", 0, 1⟩]).current 1 := by
  obtain ⟨hasher, hsize, hideal⟩ := exists_ideal_hasher
  have hclear : ¬ Confusable hasher.blockSize (tenantSession [9] [5] [])
      (tenantSession [] [7, 8] [⟨"chart", 0, 1⟩]) 1 := by
    have hitems : ∀ index ≤ 1, (tenantSession [9] [5] []).current.itemsIn 2 index =
        (tenantSession [] [7, 8] [⟨"chart", 0, 1⟩]).current.itemsIn 2 index := by
      decide
    rw [hsize]
    exact not_confusable_of_sameContent
      ⟨rfl, rfl, rfl, fun index hidx item ↦ by rw [hitems index hidx], fun _ _ ↦ rfl⟩
  have hshared := exists_blockHashAt_iff_alike hideal (tenantSession [9] [5] [])
    (tenantSession [] [7, 8] [⟨"chart", 0, 1⟩]) 1
  rw [hsize] at hshared
  obtain ⟨hash, hleft, hright⟩ := hshared.2 ⟨fun index hidx ↦ by
    obtain rfl | rfl : index = 0 ∨ index = 1 := by omega
    · exact ⟨_, rfl, _, rfl, rfl, rfl, rfl⟩
    · exact ⟨_, rfl, _, rfl, rfl, rfl, rfl⟩, .inl ⟨rfl, rfl⟩⟩
  exact ⟨hasher, hideal, hash, hleft, hright,
    (isolated_iff_not_confusable hideal _ _ 1).2 hclear hash hleft hright⟩

/-- A request for two tokens under an adapter or none and with a salt or none. -/
def pairRequest (loraName cacheSalt : Option String) : Lifetime Unit :=
  { created := { allTokenIds := [1, 2], loraName, cacheSalt, mmFeatures := [], promptEmbeds := none
                 blockHashes := [] }
    noHashes := rfl
    calls := [] }

/-- The salted request to the base model reuses the block computed under the adapter. -/
theorem adapterRequest_shares_saltedRequest : ∃ hasher : Hasher Unit, hasher.Ideal ∧
    (∃ hash, (pairRequest (some "sql") none).blockHashAt hasher 0 = some hash ∧
      (pairRequest none (some "sql")).blockHashAt hasher 0 = some hash) ∧
    ¬ SameContent hasher.blockSize (pairRequest (some "sql") none).current
      (pairRequest none (some "sql")).current 0 := by
  obtain ⟨hasher, hsize, hideal⟩ := exists_ideal_hasher
  refine ⟨hasher, hideal, (exists_blockHashAt_iff_alike hideal _ _ 0).2 ?_, fun h ↦ ?_⟩
  · rw [hsize]
    refine ⟨fun index hidx ↦ ?_, .inr ⟨rfl, ⟨_, rfl, rfl⟩, .inl ⟨"sql", rfl, rfl, rfl, rfl⟩⟩⟩
    obtain rfl := Nat.le_zero.1 hidx
    exact ⟨_, rfl, _, rfl, rfl, rfl, rfl⟩
  · cases h.lora

end Lifetime

end Nelssa.Core.BlockHashing
