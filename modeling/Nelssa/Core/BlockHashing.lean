import Nelssa.Core.BlockHashMap

/-!
# Block hashes of a request

A full block of a request is identified by a hash of its parent's hash, its token ids and extra keys:
the LoRA name, the multi-modal items in the block, the cache salt in the first block, and a digest of
the prompt embeddings. The hashes of new full blocks are computed when the request is created, whenever
output tokens are appended to it and when its session is updated. The digests of prompt embeddings are
recomputed here instead of being remembered per block, and the placeholder tokens of a prompt given by
embeddings alone are part of its token ids.
-/

namespace Nelssa.Core.BlockHashing

/-- The values that occur in the tuple of extra keys. -/
inductive ExtraKey where
  | str (value : String)
  | mmItem (identifier : String) (offset : ℤ)
  | bytes (value : List UInt8)
deriving DecidableEq

/-- A multi-modal item with the placeholder range of its tokens. -/
structure MmFeature where
  identifier : String
  offset : ℕ
  length : ℕ
deriving DecidableEq

structure Request (ε : Type*) where
  allTokenIds : List ℕ
  loraName : Option String
  cacheSalt : Option String
  mmFeatures : List MmFeature
  promptEmbeds : Option (List ε)
  blockHashes : List BlockHash

/-- The block size, the configured hash function, the global `NONE_HASH` and the digest of rows of
prompt embeddings. -/
structure Hasher (ε : Type*) where
  blockSize : ℕ
  blockSize_pos : 0 < blockSize
  cachingHashFn : BlockHash × List ℕ × Option (List ExtraKey) → BlockHash
  noneHash : BlockHash
  sha256 : List ε → List UInt8

variable {ε : Type*}

/-- The loop over the multi-modal items from the current index on. -/
def mmLoop (startTokenIdx endTokenIdx : ℕ) : List MmFeature → ℕ → List ExtraKey × ℕ
  | [], currMmIdx => ([], currMmIdx)
  | feature :: rest, currMmIdx =>
    if feature.offset < endTokenIdx then
      if feature.offset + feature.length ≤ startTokenIdx then
        -- This block has passed the item.
        mmLoop startTokenIdx endTokenIdx rest (currMmIdx + 1)
      else
        let key := ExtraKey.mmItem feature.identifier ((feature.offset : ℤ) - startTokenIdx)
        if feature.offset + feature.length ≤ endTokenIdx then
          let others := mmLoop startTokenIdx endTokenIdx rest (currMmIdx + 1)
          (key :: others.1, others.2)
        else ([key], currMmIdx)
    else ([], currMmIdx)

def genMmExtraHashKeys (req : Request ε) (startTokenIdx endTokenIdx : ℕ) (startMmIdx : ℤ) :
    Except Exn (List ExtraKey × ℤ) :=
  match req.mmFeatures.getLast? with
  | none => .ok ([], startMmIdx)
  | some last =>
    if last.offset + last.length ≤ startTokenIdx then .ok ([], startMmIdx)
    else if startMmIdx < 0 ∧ (req.mmFeatures.length : ℤ) < -startMmIdx then
      .error (.assertionError "")
    else
      let currMmIdx :=
        (if startMmIdx < 0 then req.mmFeatures.length + startMmIdx else startMmIdx).toNat
      let found := mmLoop startTokenIdx endTokenIdx (req.mmFeatures.drop currMmIdx) currMmIdx
      .ok (found.1, found.2)

def genLoraExtraHashKeys (req : Request ε) : List ExtraKey :=
  match req.loraName with
  | none => []
  | some name => [.str name]

def genPromptEmbedsExtraHashKeys (hasher : Hasher ε) (req : Request ε)
    (startTokenIdx endTokenIdx : ℕ) : List ExtraKey :=
  match req.promptEmbeds with
  | none => []
  | some embeds => [.bytes (hasher.sha256 ((embeds.take endTokenIdx).drop startTokenIdx))]

/-- The salt goes into the first block only, and an empty salt counts as none. -/
def cacheSaltKeys (req : Request ε) (startTokenIdx : ℕ) : List ExtraKey :=
  match req.cacheSalt with
  | none => []
  | some salt => if startTokenIdx = 0 ∧ salt ≠ "" then [.str salt] else []

def generateBlockHashExtraKeys (hasher : Hasher ε) (req : Request ε)
    (startTokenIdx endTokenIdx : ℕ) (startMmIdx : ℤ) : Except Exn (Option (List ExtraKey) × ℤ) :=
  match genMmExtraHashKeys req startTokenIdx endTokenIdx startMmIdx with
  | .error exn => .error exn
  | .ok (mmExtraKeys, newStartMmIdx) =>
    let extraKeys := genLoraExtraHashKeys req ++ mmExtraKeys ++
      cacheSaltKeys req startTokenIdx ++
      genPromptEmbedsExtraHashKeys hasher req startTokenIdx endTokenIdx
    .ok (if extraKeys = [] then none else some extraKeys, newStartMmIdx)

def hashBlockTokens (hasher : Hasher ε) (parentBlockHash : Option BlockHash)
    (currBlockTokenIds : List ℕ) (extraKeys : Option (List ExtraKey)) : BlockHash :=
  let parent := match parentBlockHash with
    | none => hasher.noneHash
    | some hash => if hash = [] then hasher.noneHash else hash
  hasher.cachingHashFn (parent, currBlockTokenIds, extraKeys)

/-- The loop of the block hasher over the full blocks from a start position on. -/
def hashLoop (hasher : Hasher ε) (req : Request ε) (startTokenIdx : ℕ) (currMmIdx : ℤ)
    (prevBlockHashValue : Option BlockHash) : Except Exn (List BlockHash) :=
  let endTokenIdx := startTokenIdx + hasher.blockSize
  if req.allTokenIds.length < endTokenIdx then .ok []
  else
    match generateBlockHashExtraKeys hasher req startTokenIdx endTokenIdx currMmIdx with
    | .error exn => .error exn
    | .ok (extraKeys, nextMmIdx) =>
      let blockTokens := (req.allTokenIds.take endTokenIdx).drop startTokenIdx
      let blockHash := hashBlockTokens hasher prevBlockHashValue blockTokens extraKeys
      match hashLoop hasher req endTokenIdx nextMmIdx (some blockHash) with
      | .error exn => .error exn
      | .ok newBlockHashes => .ok (blockHash :: newBlockHashes)
termination_by req.allTokenIds.length - startTokenIdx
decreasing_by
  have hpos := hasher.blockSize_pos
  omega

section

variable (hasher : Hasher ε) (req : Request ε)

/-- The hashes of the full blocks of a request that have none yet. Later calls start with the last
multi-modal item. -/
def requestBlockHasher : Except Exn (List BlockHash) :=
  let startTokenIdx := req.blockHashes.length * hasher.blockSize
  if req.allTokenIds.length < startTokenIdx + hasher.blockSize then .ok []
  else
    let currMmIdx : ℤ := if 0 < startTokenIdx then -1 else 0
    hashLoop hasher req startTokenIdx currMmIdx req.blockHashes.getLast?

def updateBlockHashes : Except Exn (Request ε) :=
  match requestBlockHasher hasher req with
  | .error exn => .error exn
  | .ok newBlockHashes => .ok { req with blockHashes := req.blockHashes ++ newBlockHashes }

def appendOutputTokenIds (tokenIds : List ℕ) : Except Exn (Request ε) :=
  updateBlockHashes hasher { req with allTokenIds := req.allTokenIds ++ tokenIds }

end

/-- Move the placeholder range of an item. -/
def shiftFeature (base : ℕ) (feature : MmFeature) : MmFeature :=
  { feature with offset := feature.offset + base }

/-- The next chunk of a streaming session: keep the computed tokens only and append the new tokens and
items. -/
def Request.extend (req : Request ε) (numComputedTokens : ℕ) (promptTokenIds : List ℕ)
    (mmFeatures : List MmFeature) : Request ε :=
  { req with
    allTokenIds := req.allTokenIds.take numComputedTokens ++ promptTokenIds
    mmFeatures := req.mmFeatures ++
      mmFeatures.map (shiftFeature (min numComputedTokens req.allTokenIds.length)) }

/-- What a request was created from and the output tokens it was given, call by call. -/
structure History (ε : Type*) where
  promptTokenIds : List ℕ
  loraName : Option String
  cacheSalt : Option String
  mmFeatures : List MmFeature
  promptEmbeds : Option (List ε)
  outputs : List (List ℕ)

namespace History

variable (history : History ε)

/-- The request before its first hashes are computed. -/
def unhashed : Request ε :=
  { history with allTokenIds := history.promptTokenIds, blockHashes := [] }

/-- The request after its creation and all appended output tokens. -/
def request (hasher : Hasher ε) : Except Exn (Request ε) :=
  match updateBlockHashes hasher history.unhashed with
  | .error exn => .error exn
  | .ok created => history.outputs.foldlM (appendOutputTokenIds hasher) created

def allTokenIds : List ℕ := history.promptTokenIds ++ history.outputs.flatten

end History

/-- What gives a request new tokens: a step of the model, or an update of its session, which finds a number
of computed tokens. -/
inductive Call where
  | append (tokenIds : List ℕ)
  | update (numComputedTokens : ℕ) (promptTokenIds : List ℕ) (mmFeatures : List MmFeature)

def Request.grow (req : Request ε) : Call → Request ε
  | .append tokenIds => { req with allTokenIds := req.allTokenIds ++ tokenIds }
  | .update numComputedTokens promptTokenIds mmFeatures =>
    req.extend numComputedTokens promptTokenIds mmFeatures

/-- A request and all calls that give it new tokens. -/
structure Lifetime (ε : Type*) where
  created : Request ε
  noHashes : created.blockHashes = []
  calls : List Call

/-- The hashes of new full blocks are computed after the creation and after every call. -/
def hashCalls (hasher : Hasher ε) : List Call → Request ε → Except Exn (Request ε)
  | [], req => updateBlockHashes hasher req
  | call :: rest, req =>
    match updateBlockHashes hasher req with
    | .error exn => .error exn
    | .ok hashed => hashCalls hasher rest (hashed.grow call)

namespace Lifetime

variable (lifetime : Lifetime ε)

/-- The request after all calls, without its hashes. -/
def current : Request ε := lifetime.calls.foldl Request.grow lifetime.created

def blockHashAt (hasher : Hasher ε) (block : ℕ) : Option BlockHash :=
  match hashCalls hasher lifetime.calls lifetime.created with
  | .error _ => none
  | .ok req => req.blockHashes[block]?

end Lifetime

end Nelssa.Core.BlockHashing
