import Nelssa.Core.IncrementalHashing
import Nelssa.Foundation.Runs
import Nelssa.Sched.RequestQueue

/-!
# Streaming sessions

A resumable request goes on with the next chunk of its input when it stops. The update keeps the
computed tokens, drops the sampled token behind them and appends the new tokens, while the list of block
hashes only ever grows. The hashes stay those of the current tokens along every run in which no hashed
block reaches behind the computed tokens when an update comes, and in which the blocks hashed later need
no other multi-modal item than the last one.
-/

namespace Nelssa.Sched

open Nelssa.Core Nelssa.Core.BlockHashing Foundation.HashChain Foundation.Runs
open List hiding min not_lt

variable {ε : Type*}

/-- Multi-modal items that lie one after the other within the tokens of an input. -/
structure MmLayout (numTokens : ℕ) where
  features : List MmFeature
  inOrder : ItemsInOrder features
  inRange : ∀ feature ∈ features, feature.offset + feature.length ≤ numTokens

/-- The next chunk of input. Absent token ids are no token ids. -/
structure StreamingUpdate where
  promptTokenIds : List ℕ
  layout : MmLayout promptTokenIds.length

def promptLength (promptTokenIds : Option (List ℕ)) (promptEmbeds : Option (List ε)) : ℕ :=
  match promptTokenIds with
  | some tokenIds => tokenIds.length
  | none => (promptEmbeds.getD []).length

/-- What a session is created from. -/
structure SessionInput (ε : Type*) where
  promptTokenIds : Option (List ℕ)
  promptEmbeds : Option (List ε)
  loraName : Option String
  cacheSalt : Option String
  layout : MmLayout (promptLength promptTokenIds promptEmbeds)
  useStructuredOutput : Bool

/-- A resumable request. `none` in the queue of updates ends the session. -/
structure Session (ε : Type*) extends BlockHashing.Request ε where
  status : RequestStatus
  promptTokenIds : Option (List ℕ)
  numPromptTokens : ℕ
  outputTokenIds : List ℕ
  numComputedTokens : ℕ
  numPreemptions : ℕ
  streamingQueue : List (Option StreamingUpdate)

def lengthFromPromptTokenIdsOrEmbeds (promptTokenIds : Option (List ℕ)) (promptEmbeds : Option (List ε)) :
    Except Exn ℕ :=
  match promptTokenIds, promptEmbeds with
  | none, none => .error (.valueError "Neither prompt_token_ids nor prompt_embeds were defined.")
  | none, some embeds => .ok embeds.length
  | some tokenIds, none => .ok tokenIds.length
  | some tokenIds, some embeds =>
    if embeds.length = tokenIds.length then .ok tokenIds.length
    else .error (.valueError "Prompt token ids and prompt embeds had different lengths")

namespace Session

variable (hasher : Hasher ε) (session : Session ε)

def numTokens : ℕ := session.allTokenIds.length

/-- Compute the hashes of the new full blocks. -/
def updateBlockHashes : Except Exn (Session ε) :=
  (BlockHashing.updateBlockHashes hasher session.toRequest).map fun req ↦
    { session with toRequest := req }

/-- A prompt given by embeddings alone has placeholders as its token ids. -/
def create (input : SessionInput ε) : Except Exn (Session ε) :=
  match lengthFromPromptTokenIdsOrEmbeds input.promptTokenIds input.promptEmbeds with
  | .error exn => .error exn
  | .ok numPromptTokens => updateBlockHashes hasher
    { input with
      allTokenIds := input.promptTokenIds.getD (List.replicate numPromptTokens 0)
      mmFeatures := input.layout.features
      blockHashes := []
      status := if input.useStructuredOutput then .waitingForStructuredOutputGrammar else .waiting
      numPromptTokens
      outputTokenIds := []
      numComputedTokens := 0
      numPreemptions := 0
      streamingQueue := [] }

def appendOutputTokenIds (tokenIds : List ℕ) : Except Exn (Session ε) :=
  updateBlockHashes hasher { session with
    outputTokenIds := session.outputTokenIds ++ tokenIds
    allTokenIds := session.allTokenIds ++ tokenIds }

/-- The number of tokens that an update keeps. -/
def numKeptTokens : ℕ := min session.numComputedTokens session.numTokens

section

variable (promptTokenIds : List ℕ) (update : StreamingUpdate)

/-- The prompt of a session that goes on: the old prompt, the computed output tokens and the new tokens. -/
def extendPrompt : List ℕ :=
  promptTokenIds ++ (session.allTokenIds.take session.numComputedTokens).drop session.numPromptTokens ++
    update.promptTokenIds

/-- Keep the computed tokens only and append the tokens and items of the update. -/
def extend : Session ε :=
  { session with
    toRequest :=
      session.toRequest.extend session.numComputedTokens update.promptTokenIds update.layout.features
    outputTokenIds := []
    promptTokenIds := some (session.extendPrompt promptTokenIds update) }

end

def updateRequestAsSession (update : StreamingUpdate) : Except Exn (Session ε) :=
  match session.promptTokenIds with
  | none => .error (.assertionError "")
  | some promptTokenIds =>
    ((session.extend promptTokenIds update).updateBlockHashes hasher).map fun hashed ↦ { hashed with
      numPromptTokens := (session.extendPrompt promptTokenIds update).length
      status := .waiting }

/-- A stopped session takes its next update from the queue or waits for one. -/
def handleStoppedRequest : Except Exn (Session ε) :=
  match session.streamingQueue with
  | [] => .ok { session with status := .waitingForStreamingReq }
  | none :: rest => .ok { session with status := .finished, streamingQueue := rest }
  | some update :: rest => { session with streamingQueue := rest }.updateRequestAsSession hasher update

/-- `add_request` for a session that exists. -/
def addRequest (update : Option StreamingUpdate) : Except Exn (Session ε) :=
  if session.status ≠ .waitingForStreamingReq then
    .ok { session with streamingQueue := session.streamingQueue ++ [update] }
  else match update with
    | none => .ok { session with status := .finished }
    | some update => session.updateRequestAsSession hasher update

/-! ## The steps of a session -/

/-- A call of `schedule()`. A request that was not running brings its cached tokens. -/
def schedule (numNewComputedTokens numScheduledTokens : ℕ) : Session ε :=
  match session.status with
  | .running => { session with numComputedTokens := session.numComputedTokens + numScheduledTokens }
  | .waiting | .preempted =>
    let numComputedTokens :=
      if session.numComputedTokens = 0 then numNewComputedTokens else session.numComputedTokens
    { session with status := .running, numComputedTokens := numComputedTokens + numScheduledTokens }
  | _ => session

/-- The connector begins to load tokens; there are never more of them than the request has. -/
def loadKv (numNewComputedTokens : ℕ) : Session ε :=
  match session.status with
  | .waiting | .preempted =>
    if session.numComputedTokens = 0 ∧ numNewComputedTokens ≤ session.numTokens then
      { session with status := .waitingForRemoteKvs, numComputedTokens := numNewComputedTokens }
    else session
  | _ => session

/-- A blocked session can be scheduled again. After a full hit the last token is computed anew, unless
the load failed. -/
def promote (failedRecving : Bool) : Session ε :=
  match session.status with
  | .waitingForRemoteKvs => { session with
      status := if session.numPreemptions = 0 then .waiting else .preempted
      numComputedTokens :=
        if failedRecving = false ∧ session.numComputedTokens = session.numTokens then session.numTokens - 1
        else session.numComputedTokens }
  | .waitingForStructuredOutputGrammar => { session with status := .waiting }
  | _ => session

end Session

open Session

/-- What happens to a session. The tokens of a step come one by one, and any of them can stop it. -/
inductive SessionOp where
  | schedule (numNewComputedTokens numScheduledTokens : ℕ)
  | loadKv (numNewComputedTokens : ℕ)
  | promote (failedRecving : Bool)
  /-- Rejected draft tokens and failed loads take computed tokens back. -/
  | takeBack (numTokens : ℕ)
  | append (tokenId : ℕ)
  | preempt
  | stop
  | add (update : Option StreamingUpdate)

namespace Session

variable (hasher : Hasher ε) (session : Session ε)

def applyFallible : SessionOp → Except Exn (Session ε)
  | .schedule numNewComputedTokens numScheduledTokens =>
    .ok (session.schedule numNewComputedTokens numScheduledTokens)
  | .loadKv numNewComputedTokens => .ok (session.loadKv numNewComputedTokens)
  | .promote failedRecving => .ok (session.promote failedRecving)
  | .takeBack numTokens =>
    .ok { session with numComputedTokens := session.numComputedTokens - numTokens }
  | .append tokenId => session.appendOutputTokenIds hasher [tokenId]
  | .preempt => .ok { session with
      status := .preempted, numComputedTokens := 0, numPreemptions := session.numPreemptions + 1 }
  | .stop => session.handleStoppedRequest hasher
  | .add update => session.addRequest hasher update

/-- One step. An exception ends the engine, so nothing happens to the session any more. -/
def apply (op : SessionOp) : Session ε :=
  match session.applyFallible hasher op with
  | .error _ => session
  | .ok next => next

end Session

/-! ## Hashes of the current tokens -/

/-- The block hashes of a request that is created with the current tokens and items. -/
def scratchBlockHashes (hasher : Hasher ε) (req : BlockHashing.Request ε) : Except Exn (List BlockHash) :=
  requestBlockHasher hasher { req with blockHashes := [] }

/-- The blocks from `numHashed` on up to `numBlocks` are hashed with the last item only, or all at once;
in both cases the items that have tokens in them must be seen. -/
def ItemsSeen (features : List MmFeature) (blockSize numHashed numBlocks : ℕ) : Prop :=
  numHashed = 0 ∨ ∀ block < numBlocks, numHashed ≤ block → ∀ feature ∈ features.dropLast,
    ¬ feature.Overlaps (block * blockSize) (block * blockSize + blockSize)

instance (features : List MmFeature) (blockSize numHashed numBlocks : ℕ) :
    Decidable (ItemsSeen features blockSize numHashed numBlocks) := by
  unfold ItemsSeen
  infer_instance

def itemsInBlock (features : List MmFeature) (blockSize block : ℕ) : List MmFeature :=
  features.filter (MmFeature.Overlaps (block * blockSize) (block * blockSize + blockSize))

variable {hasher : Hasher ε}

/-- Two requests that agree on the keys for all blocks up to one have the same digest of it if all items
are walked for both. -/
theorem blockDigest_eq_of_agree {req other : BlockHashing.Request ε} {firstBatch firstBatch' block : ℕ}
    (hlora : req.loraName = other.loraName) (hsalt : req.cacheSalt = other.cacheSalt)
    (hembeds : req.promptEmbeds = other.promptEmbeds) (horder : ItemsInOrder req.mmFeatures)
    (horder' : ItemsInOrder other.mmFeatures) (hlt : block < firstBatch) (hlt' : block < firstBatch')
    (htokens : req.allTokenIds.take ((block + 1) * hasher.blockSize) =
      other.allTokenIds.take ((block + 1) * hasher.blockSize))
    (hitems : ∀ index ≤ block, itemsInBlock req.mmFeatures hasher.blockSize index =
      itemsInBlock other.mmFeatures hasher.blockSize index) :
    blockDigest hasher req firstBatch block = blockDigest hasher other firstBatch' block := by
  apply chain_congr
  intro index hidx
  have hslice := (slices_eq_iff _ _ _ _).2 htokens index hidx
  have hfound := hitems index hidx
  unfold itemsInBlock at hfound
  have hfirst : firstItem req firstBatch index = 0 := if_pos (hidx.trans_lt hlt)
  have hfirst' : firstItem other firstBatch' index = 0 := if_pos (hidx.trans_lt hlt')
  simp [blockContent, contentFrom, hslice, keysFrom, hfirst, hfirst', hashedItems_of_itemsInOrder horder,
    hashedItems_of_itemsInOrder horder', hfound, genLoraExtraHashKeys, cacheSaltKeys,
    genPromptEmbedsExtraHashKeys, hlora, hsalt, hembeds]

section

variable (hideal : hasher.Ideal)
include hideal

/-- A request whose first blocks carry the hashes of its tokens gets the hashes of its tokens, if the
items of the other blocks are seen. -/
theorem updateBlockHashes_of_itemsSeen (req : BlockHashing.Request ε) {numHashed : ℕ}
    (horder : ItemsInOrder req.mmFeatures) (hle : numHashed ≤ req.allTokenIds.length / hasher.blockSize)
    (hhashes : req.blockHashes = (List.range numHashed).map
      (blockDigest hasher req (req.allTokenIds.length / hasher.blockSize)))
    (hseen : ItemsSeen req.mmFeatures hasher.blockSize numHashed
      (req.allTokenIds.length / hasher.blockSize)) :
    ∃ hashes, BlockHashing.updateBlockHashes hasher req = .ok { req with blockHashes := hashes } ∧
      Hashed hasher { req with blockHashes := hashes } (req.allTokenIds.length / hasher.blockSize) := by
  by_cases hzero : numHashed = 0
  · exact updateBlockHashes_firstBatch hideal.nonempty req hle hhashes (by rw [if_pos hzero])
  · have hagree (block : ℕ) (hblock : block < req.allTokenIds.length / hasher.blockSize) :
        blockDigest hasher req (req.allTokenIds.length / hasher.blockSize) block =
          blockDigest hasher req numHashed block := by
      apply chain_congr
      intro index hidx
      have hall : firstItem req (req.allTokenIds.length / hasher.blockSize) index = 0 :=
        if_pos (hidx.trans_lt hblock)
      simp only [blockContent, contentFrom, keysFrom, hall]
      by_cases hold : index < numHashed
      · rw [firstItem, if_pos hold]
      · have hnone := (hseen.resolve_left hzero) index (hidx.trans_lt hblock) (not_lt.1 hold)
        have hnil := filter_eq_nil_iff.2 fun feature hfeature h ↦
          hnone feature hfeature (of_decide_eq_true h)
        rw [firstItem, if_neg hold, hashedItems_eq_append_last horder, hnil, nil_append]
    have hold := hhashes.trans (map_congr_left fun block hblock ↦ hagree block
        ((mem_range.1 hblock).trans_le hle))
    obtain ⟨hashes, hupdate, hhashed⟩ :=
      updateBlockHashes_firstBatch hideal.nonempty req hle hold (by rw [if_neg hzero])
    refine ⟨hashes, hupdate, hhashed.trans (map_congr_left fun block hblock ↦ ?_)⟩
    exact (hagree block (mem_range.1 hblock)).symm

theorem scratchBlockHashes_of_hashed {req : BlockHashing.Request ε}
    (hhashed : Hashed hasher req (req.allTokenIds.length / hasher.blockSize)) :
    scratchBlockHashes hasher req = .ok req.blockHashes := by
  have hspec : ∃ hashes, BlockHashing.updateBlockHashes hasher { req with blockHashes := [] } =
      .ok { req with blockHashes := hashes } ∧ Hashed hasher { req with blockHashes := hashes }
        (req.allTokenIds.length / hasher.blockSize) :=
    updateBlockHashes_firstBatch hideal.nonempty _ (Nat.zero_le _) rfl (by rw [if_pos rfl])
  obtain ⟨hashes, hupdate, hscratch⟩ := hspec
  have hsame := hscratch.trans hhashed.symm
  unfold BlockHashing.updateBlockHashes at hupdate
  unfold scratchBlockHashes
  cases hhasher : requestBlockHasher hasher { req with blockHashes := [] } with
  | error exn => rw [hhasher] at hupdate; cases hupdate
  | ok new =>
    rw [hhasher] at hupdate
    have hnew := congrArg BlockHashing.Request.blockHashes (Except.ok.inj hupdate)
    rw [← hsame]
    exact congrArg Except.ok hnew

end

/-! ## What a step must meet -/

namespace Session

variable (hasher : Hasher ε) (session : Session ε) {promptTokenIds : List ℕ}

/-- The hashes, the prompt and the output of a session belong to its tokens, and a session that waits to
be scheduled has no more computed tokens than tokens. An update leaves a waiting session. -/
structure InStep : Prop where
  blockHashes : scratchBlockHashes hasher session.toRequest = .ok session.blockHashes
  prompt : ∀ promptTokenIds, session.promptTokenIds = some promptTokenIds →
    promptTokenIds.length = session.numPromptTokens ∧
      session.allTokenIds = promptTokenIds ++ session.outputTokenIds
  computed : session.status = .waiting → session.numComputedTokens ≤ session.numTokens

/-- The whole prompt is computed, no hashed block reaches behind the computed tokens, the computed tokens
are tokens of the session or of the update, and the items of the update are seen. -/
structure Accepts (update : StreamingUpdate) : Prop where
  promptComputed : session.numPromptTokens ≤ session.numComputedTokens
  hashesComputed : session.numTokens / hasher.blockSize * hasher.blockSize ≤ session.numComputedTokens
  computedTokens : session.numComputedTokens ≤ session.numTokens + update.promptTokenIds.length
  itemsSeen : ItemsSeen (session.mmFeatures ++ update.layout.features.map (shiftFeature session.numKeptTokens))
    hasher.blockSize (session.numTokens / hasher.blockSize)
    ((session.numKeptTokens + update.promptTokenIds.length) / hasher.blockSize)

/-- The items of a block that a generated token fills are seen, and an update that is applied is
accepted. -/
def Meets : SessionOp → Prop
  | .append _ => ItemsSeen session.mmFeatures hasher.blockSize (session.numTokens / hasher.blockSize)
      ((session.numTokens + 1) / hasher.blockSize)
  | .stop => ∀ update rest, session.streamingQueue = some update :: rest → session.Accepts hasher update
  | .add (some update) => session.status = .waitingForStreamingReq → session.Accepts hasher update
  | _ => True

/-- The invariant of a run: the digests of all full blocks, the parts of the tokens, and where the items
lie. -/
structure Inv : Prop where
  hashed : Hashed hasher session.toRequest (session.numTokens / hasher.blockSize)
  inOrder : ItemsInOrder session.mmFeatures
  inRange : ∀ feature ∈ session.mmFeatures, feature.offset + feature.length ≤ session.numPromptTokens
  prompt : ∀ promptTokenIds, session.promptTokenIds = some promptTokenIds →
    promptTokenIds.length = session.numPromptTokens ∧
      session.allTokenIds = promptTokenIds ++ session.outputTokenIds
  computed : session.status = .waiting ∨ session.status = .waitingForRemoteKvs ∨
    session.status = .waitingForStructuredOutputGrammar → session.numComputedTokens ≤ session.numTokens

variable {hasher session}

theorem Inv.inStep (hideal : hasher.Ideal) (hinv : session.Inv hasher) : session.InStep hasher where
  blockHashes := scratchBlockHashes_of_hashed hideal hinv.hashed
  prompt := hinv.prompt
  computed hstat := hinv.computed (.inl hstat)

variable {numComputedTokens : ℕ} {status : RequestStatus}

theorem Inv.setComputed {numPreemptions : ℕ} {streamingQueue : List (Option StreamingUpdate)}
    (hinv : session.Inv hasher) (hcomp : status = .waiting ∨ status = .waitingForRemoteKvs ∨
      status = .waitingForStructuredOutputGrammar → numComputedTokens ≤ session.numTokens) :
    Inv hasher { session with status, numComputedTokens, numPreemptions, streamingQueue } :=
  { hinv with computed := hcomp }

variable {hashes : List BlockHash}

theorem updateBlockHashes_eq (hupdate : BlockHashing.updateBlockHashes hasher session.toRequest =
      .ok { session.toRequest with blockHashes := hashes }) :
    session.updateBlockHashes hasher = .ok { session with blockHashes := hashes } := by
  rw [updateBlockHashes, hupdate]
  rfl

variable {tokenIds : List ℕ}

/-- The digests of the blocks that are full already do not depend on tokens and items behind them. -/
theorem Inv.blockHashes_eq (hinv : session.Inv hasher) (features : List MmFeature) {numFull numBlocks : ℕ}
    (hnumFull : session.numTokens / hasher.blockSize = numFull) (hblocks : numFull ≤ numBlocks)
    (htokens : session.allTokenIds.take (numFull * hasher.blockSize) =
      tokenIds.take (numFull * hasher.blockSize))
    (horder : ItemsInOrder (session.mmFeatures ++ features))
    (hbehind : ∀ feature ∈ features, numFull * hasher.blockSize ≤ feature.offset) :
    session.blockHashes = (List.range numFull).map (blockDigest hasher { session.toRequest with
      allTokenIds := tokenIds, mmFeatures := session.mmFeatures ++ features } numBlocks) := by
  subst hnumFull
  refine hinv.hashed.trans (map_congr_left fun block hblock ↦ ?_)
  have hlt : block < session.numTokens / hasher.blockSize := mem_range.1 hblock
  have hend : (block + 1) * _ ≤ _ := Nat.mul_le_mul_right hasher.blockSize hlt
  refine blockDigest_eq_of_agree rfl rfl rfl hinv.inOrder horder hlt (hlt.trans_le hblocks) ?_ ?_
  · have htake := congrArg (take ((block + 1) * hasher.blockSize)) htokens
    rwa [take_take, take_take, min_eq_left hend] at htake
  · intro index hidx
    have hnew : itemsInBlock features hasher.blockSize index = [] := by
      refine filter_eq_nil_iff.2 fun feature hfeature hoverlaps ↦ ?_
      have hoff := (of_decide_eq_true hoverlaps).1
      have hle : (index + 1) * hasher.blockSize ≤ (block + 1) * hasher.blockSize :=
        Nat.mul_le_mul_right _ (Nat.succ_le_succ hidx)
      have hfar := hbehind feature hfeature
      rw [Nat.succ_mul] at hle
      omega
    unfold itemsInBlock at hnew ⊢
    rw [filter_append, hnew, append_nil]

theorem Inv.append (hideal : hasher.Ideal) (hinv : session.Inv hasher) {tokenId : ℕ}
    (hmeets : session.Meets hasher (.append tokenId)) :
    ∃ next, session.appendOutputTokenIds hasher [tokenId] = .ok next ∧ next.Inv hasher := by
  let extended : Session ε := { session with
    outputTokenIds := session.outputTokenIds ++ [tokenId]
    allTokenIds := session.allTokenIds ++ [tokenId] }
  have hlen : extended.allTokenIds.length = session.numTokens + 1 := length_append
  have hblocks : session.numTokens / hasher.blockSize ≤ extended.allTokenIds.length / hasher.blockSize := by
    rw [hlen]
    exact Nat.div_le_div_right (Nat.le_succ _)
  have hold : session.allTokenIds.take (session.numTokens / hasher.blockSize * hasher.blockSize) =
      extended.allTokenIds.take (session.numTokens / hasher.blockSize * hasher.blockSize) :=
    (take_append_of_le_length (Nat.div_mul_le_self _ _)).symm
  have hhashes := hinv.blockHashes_eq [] rfl hblocks hold (by simpa using hinv.inOrder) nofun
  rw [append_nil] at hhashes
  obtain ⟨hashes, hupdate, hhashed⟩ := updateBlockHashes_of_itemsSeen hideal extended.toRequest
    hinv.inOrder hblocks hhashes (by rw [hlen]; exact hmeets)
  refine ⟨{ extended with blockHashes := hashes }, updateBlockHashes_eq hupdate, ?_⟩
  exact {
    hashed := hhashed
    inOrder := hinv.inOrder
    inRange := hinv.inRange
    prompt := fun promptTokenIds hprompt ↦ by
      obtain ⟨hlen, htokens⟩ := hinv.prompt promptTokenIds hprompt
      refine ⟨hlen, ?_⟩
      rw [← append_assoc, ← htokens]
    computed := fun hstat ↦ (hinv.computed hstat).trans (by
      rw [numTokens, numTokens, hlen]
      exact Nat.le_succ _) }

theorem Inv.itemsInOrder_append (hinv : session.Inv hasher) {base : ℕ}
    (hbase : session.numPromptTokens ≤ base) {numTokens : ℕ} (layout : MmLayout numTokens) :
    ItemsInOrder (session.mmFeatures ++ layout.features.map (shiftFeature base)) := by
  refine pairwise_append.2 ⟨hinv.inOrder, pairwise_map.2 (layout.inOrder.imp fun hle ↦ ?_), ?_⟩
  · simp only [shiftFeature]
    omega
  · intro feature hfeature other hother
    obtain ⟨_, -, rfl⟩ := mem_map.1 hother
    have hend := hinv.inRange feature hfeature
    simp only [shiftFeature]
    omega

theorem length_extend (update : StreamingUpdate) :
    (session.extend promptTokenIds update).allTokenIds.length =
      session.numKeptTokens + update.promptTokenIds.length := by
  change (session.allTokenIds.take session.numComputedTokens ++ update.promptTokenIds).length = _
  rw [length_append, length_take]
  rfl

section

variable (hinv : session.Inv hasher) (hprompt : session.promptTokenIds = some promptTokenIds)
include hinv hprompt

theorem Inv.numPromptTokens_le : session.numPromptTokens ≤ session.numTokens := by
  obtain ⟨hlen, htokens⟩ := hinv.prompt promptTokenIds hprompt
  rw [numTokens, htokens, length_append, hlen]
  exact Nat.le_add_right _ _

/-- If the prompt is computed, the tokens that are kept and the new tokens form the prompt. -/
theorem Inv.allTokenIds_extend
    (hcomp : session.numPromptTokens ≤ session.numComputedTokens) (update : StreamingUpdate) :
    (session.extend promptTokenIds update).allTokenIds = session.extendPrompt promptTokenIds update := by
  obtain ⟨hlen, htokens⟩ := hinv.prompt promptTokenIds hprompt
  have hhead : promptTokenIds =
      (session.allTokenIds.take session.numComputedTokens).take session.numPromptTokens := by
    rw [take_take, min_eq_left hcomp, htokens, ← hlen, take_left]
  have hkept : promptTokenIds ++
      (session.allTokenIds.take session.numComputedTokens).drop session.numPromptTokens =
        session.allTokenIds.take session.numComputedTokens := by
    conv_lhs => rw [hhead]
    exact take_append_drop _ _
  rw [extendPrompt, hkept]
  rfl

end

section

variable (hideal : hasher.Ideal) (hinv : session.Inv hasher)
include hideal hinv

/-- The hashes after an accepted update are the digests of the kept and the new tokens. -/
theorem Inv.updateBlockHashes_extend (hprompt : session.promptTokenIds = some promptTokenIds)
    {update : StreamingUpdate} (haccepts : session.Accepts hasher update) {extended}
    (hextended : session.extend promptTokenIds update = extended) :
    ∃ hashes, extended.updateBlockHashes hasher = .ok { extended with blockHashes := hashes } ∧
      Hashed hasher { extended.toRequest with blockHashes := hashes }
        (extended.numTokens / hasher.blockSize) := by
  have hbase := le_min haccepts.promptComputed (hinv.numPromptTokens_le hprompt)
  have hfull := le_min haccepts.hashesComputed (Nat.div_mul_le_self _ _)
  have hlen : extended.allTokenIds.length = session.numKeptTokens + update.promptTokenIds.length := by
    rw [← hextended, length_extend]
  have horder : ItemsInOrder extended.mmFeatures := hextended ▸ hinv.itemsInOrder_append hbase _
  have hblocks : session.numTokens / hasher.blockSize ≤ extended.allTokenIds.length / hasher.blockSize := by
    rw [hlen, Nat.le_div_iff_mul_le hasher.blockSize_pos]
    exact hfull.trans (Nat.le_add_right _ _)
  have hsame : session.allTokenIds.take (session.numTokens / hasher.blockSize * hasher.blockSize) =
      extended.allTokenIds.take (session.numTokens / hasher.blockSize * hasher.blockSize) := by
    rw [← hextended, extend, BlockHashing.Request.extend,
      take_append_of_le_length (hfull.trans length_take.ge),
      take_take, min_eq_left haccepts.hashesComputed]
  have hbehind : ∀ feature ∈ update.layout.features.map (shiftFeature session.numKeptTokens),
      session.numTokens / hasher.blockSize * hasher.blockSize ≤ feature.offset := by
    intro feature hfeature
    obtain ⟨_, -, rfl⟩ := mem_map.1 hfeature
    exact hfull.trans (Nat.le_add_left _ _)
  subst hextended
  obtain ⟨hashes, hupdate, hhashed⟩ := updateBlockHashes_of_itemsSeen hideal _ horder hblocks
    (hinv.blockHashes_eq _ rfl hblocks hsame horder hbehind) (by rw [hlen]; exact haccepts.itemsSeen)
  exact ⟨hashes, updateBlockHashes_eq hupdate, hhashed⟩

theorem Inv.update {update : StreamingUpdate} (haccepts : session.Accepts hasher update) {next : Session ε}
    (hnext : session.updateRequestAsSession hasher update = .ok next) : next.Inv hasher := by
  unfold updateRequestAsSession at hnext
  cases hprompt : session.promptTokenIds with
  | none => rw [hprompt] at hnext; cases hnext
  | some promptTokenIds =>
    have hbase := le_min haccepts.promptComputed (hinv.numPromptTokens_le hprompt)
    have htokens := hinv.allTokenIds_extend hprompt haccepts.promptComputed update
    have hlen : (session.extendPrompt promptTokenIds update).length =
        session.numKeptTokens + update.promptTokenIds.length := by
      rw [← htokens, length_extend]
    obtain ⟨_, hupdate, hhashed⟩ := hinv.updateBlockHashes_extend hideal hprompt haccepts rfl
    simp only [hprompt, hupdate] at hnext
    cases hnext
    exact {
      hashed := hhashed
      inOrder := hinv.itemsInOrder_append hbase _
      inRange := fun feature hfeature ↦ by
        rw [hlen]
        rcases mem_append.1 hfeature with hold | hnew
        · exact (hinv.inRange feature hold).trans (hbase.trans (Nat.le_add_right _ _))
        · obtain ⟨original, horiginal, rfl⟩ := mem_map.1 hnew
          have hend := update.layout.inRange original horiginal
          simp only [shiftFeature, numKeptTokens, numTokens]
          omega
      prompt := fun tokenIds htokenIds ↦ by
        cases htokenIds
        exact ⟨rfl, htokens.trans (append_nil _).symm⟩
      computed := fun _ ↦ by
        have hle := haccepts.computedTokens
        change session.numComputedTokens ≤ (session.extend promptTokenIds update).allTokenIds.length
        rw [htokens, hlen, numKeptTokens]
        omega }

end

theorem lengthFromPromptTokenIdsOrEmbeds_eq {promptTokenIds : Option (List ℕ)}
    {promptEmbeds : Option (List ε)} {numPromptTokens : ℕ}
    (hlen : lengthFromPromptTokenIdsOrEmbeds promptTokenIds promptEmbeds = .ok numPromptTokens) :
    numPromptTokens = promptLength promptTokenIds promptEmbeds := by
  unfold lengthFromPromptTokenIdsOrEmbeds at hlen
  split at hlen
  · cases hlen
  · exact (Except.ok.inj hlen).symm
  · exact (Except.ok.inj hlen).symm
  · split at hlen
    · exact (Except.ok.inj hlen).symm
    · cases hlen

theorem Inv.create (hideal : hasher.Ideal) {input : SessionInput ε}
    (hcreate : Session.create hasher input = .ok session) : session.Inv hasher := by
  unfold Session.create at hcreate
  split at hcreate
  · cases hcreate
  · next numPromptTokens hlen =>
    obtain rfl := lengthFromPromptTokenIdsOrEmbeds_eq hlen
    obtain ⟨_, hupdate, hhashed⟩ := updateBlockHashes_of_itemsSeen hideal
      (.mk _ _ _ _ _ [])
      input.layout.inOrder (Nat.zero_le _) rfl (.inl rfl)
    rw [updateBlockHashes, hupdate] at hcreate
    cases hcreate
    exact {
      hashed := hhashed
      inOrder := input.layout.inOrder
      inRange := input.layout.inRange
      prompt := fun promptTokenIds hprompt ↦ by
        change input.promptTokenIds = some promptTokenIds at hprompt
        simp [hprompt, promptLength]
      computed := fun _ ↦ Nat.zero_le _ }

theorem Inv.apply (hideal : hasher.Ideal) (op : SessionOp) (hinv : session.Inv hasher)
    (hmeets : session.Meets hasher op) : (session.apply hasher op).Inv hasher := by
  unfold Session.apply
  cases hnext : session.applyFallible hasher op with
  | error exn => exact hinv
  | ok next =>
    change next.Inv hasher
    cases op with
    | schedule numNewComputedTokens numScheduledTokens =>
      cases hnext
      fun_cases session.schedule numNewComputedTokens numScheduledTokens
      case case1 hstat => exact hinv.setComputed fun h ↦ by simp [hstat] at h
      case case2 | case3 => exact hinv.setComputed fun h ↦ by simp at h
      case case4 => exact hinv
    | loadKv numNewComputedTokens =>
      cases hnext
      fun_cases session.loadKv numNewComputedTokens
      case case1 hload | case3 hload => exact hinv.setComputed fun _ ↦ hload.2
      case case2 | case4 | case5 => exact hinv
    | promote failedRecving =>
      cases hnext
      unfold promote
      split
      · next hstat =>
        refine hinv.setComputed fun _ ↦ ?_
        have hle := hinv.computed (.inr (.inl hstat))
        split <;> omega
      · next hstat => exact hinv.setComputed fun _ ↦ hinv.computed (.inr (.inr hstat))
      · exact hinv
    | takeBack numTokens =>
      cases hnext
      exact hinv.setComputed fun hstat ↦ (Nat.sub_le _ _).trans (hinv.computed hstat)
    | append tokenId =>
      obtain ⟨_, happend, hafter⟩ := hinv.append hideal hmeets
      obtain rfl := Except.ok.inj (happend.symm.trans hnext)
      exact hafter
    | preempt =>
      cases hnext
      exact hinv.setComputed fun _ ↦ Nat.zero_le _
    | stop =>
      change session.handleStoppedRequest hasher = .ok next at hnext
      unfold handleStoppedRequest at hnext
      split at hnext
      · cases hnext
        exact hinv.setComputed fun h ↦ by simp at h
      · cases hnext
        exact hinv.setComputed fun h ↦ by simp at h
      · next update rest hqueue =>
        have hpopped : Inv hasher { session with streamingQueue := rest } := hinv.setComputed hinv.computed
        exact hpopped.update hideal { hmeets update rest hqueue with } hnext
    | add update =>
      change session.addRequest hasher update = .ok next at hnext
      unfold addRequest at hnext
      split at hnext
      · cases hnext
        exact hinv.setComputed hinv.computed
      · next hstat =>
        cases update with
        | none =>
          cases hnext
          exact hinv.setComputed fun h ↦ by simp at h
        | some update => exact hinv.update hideal (hmeets (not_not.1 hstat)) hnext

/-- In every run of a session whose updates are accepted and whose items are seen, the hashes, the prompt
and the output belong to the tokens after every step. -/
theorem inStep_of_meets (hideal : hasher.Ideal) {input : SessionInput ε}
    (hcreate : Session.create hasher input = .ok session) {ops : List SessionOp}
    (hops : StepsMeet (Session.apply hasher) (Meets hasher) session ops) :
    HoldsAlong (Session.apply hasher) (InStep hasher) session ops :=
  holdsAlong_of_stepsMeet (fun _ op hinv hmeets ↦ Inv.apply hideal op hinv hmeets)
    (fun _ hinv ↦ hinv.inStep hideal) (.create hideal hcreate) hops

/-! ## Two sessions about text -/

section

/-- A session about text, with `prompt` as its first chunk. -/
def textInput (prompt : List ℕ) : SessionInput Unit :=
  { promptTokenIds := some prompt, promptEmbeds := none, loraName := none, cacheSalt := none
    layout := ⟨[], List.Pairwise.nil, nofun⟩, useStructuredOutput := false }

/-- The prompt is computed, one token is sampled and stops the session, and the next chunk comes. -/
def textOps (numPromptTokens : ℕ) : List SessionOp :=
  [.schedule 0 numPromptTokens, .append 7, .stop, .add (some ⟨[9], ⟨[], List.Pairwise.nil, nofun⟩⟩)]

def textSession (status : RequestStatus) (prompt output : List ℕ) (numComputedTokens : ℕ)
    (blockHashes : List BlockHash) : Session Unit :=
  { allTokenIds := prompt ++ output, loraName := none, cacheSalt := none, mmFeatures := []
    promptEmbeds := none, blockHashes, status, promptTokenIds := some prompt
    numPromptTokens := prompt.length, outputTokenIds := output, numComputedTokens, numPreemptions := 0
    streamingQueue := [] }

variable {hasher : Hasher Unit} (hsize : hasher.blockSize = 2)
include hsize

theorem requestBlockHasher_pair (hlen : 2 ≤ tokenIds.length ∧ tokenIds.length < 4) :
    requestBlockHasher hasher ⟨tokenIds, none, none, [], none, []⟩ =
      .ok [hasher.cachingHashFn (hasher.noneHash, tokenIds.take 2, none)] := by
  have hlong := not_lt.2 hlen.1
  simp [requestBlockHasher, hashLoop, hsize, hlen.2, hlong, generateBlockHashExtraKeys,
    genMmExtraHashKeys, genLoraExtraHashKeys, cacheSaltKeys, genPromptEmbedsExtraHashKeys, hashBlockTokens]

theorem requestBlockHasher_rest (hlen : tokenIds.length < hashes.length * 2 + 2) :
    requestBlockHasher hasher ⟨tokenIds, none, none, [], none, hashes⟩ = .ok [] := by
  rw [requestBlockHasher, if_pos (by rw [hsize]; exact hlen)]

theorem apply_append_text {prompt output : List ℕ} (tokenId : ℕ)
    (hlen : (prompt ++ (output ++ [tokenId])).length < hashes.length * 2 + 2) :
    apply hasher (textSession status prompt output numComputedTokens hashes) (.append tokenId) =
      textSession status prompt (output ++ [tokenId]) numComputedTokens hashes := by
  simp [apply, applyFallible, appendOutputTokenIds, updateBlockHashes, BlockHashing.updateBlockHashes,
    textSession, requestBlockHasher_rest hsize hlen, Except.map]

theorem create_text {prompt : List ℕ} (hlen : 2 ≤ prompt.length ∧ prompt.length < 4) :
    Session.create hasher (textInput prompt) = .ok (textSession .waiting prompt [] 0
      [hasher.cachingHashFn (hasher.noneHash, prompt.take 2, none)]) := by
  simp [create, textInput, lengthFromPromptTokenIdsOrEmbeds, updateBlockHashes,
    BlockHashing.updateBlockHashes, requestBlockHasher_pair hsize hlen, Except.map, textSession]

/-- If the prompt is one full block, the sampled token is dropped before it takes part in a hash. -/
theorem stepsMeet_text (hhashes : hashes.length = 1) :
    StepsMeet (Session.apply hasher) (Meets hasher) (textSession .waiting [1, 2] [] 0 hashes)
      (textOps 2) := by
  have happend : apply hasher (textSession .running [1, 2] [] 2 hashes) (.append 7) =
      textSession .running [1, 2] [7] 2 hashes := apply_append_text hsize 7 (by simp [hhashes])
  refine ⟨trivial, .inr nofun, ?_⟩
  change StepsMeet _ _ (apply hasher (textSession .running [1, 2] [] 2 hashes) (.append 7)) _
  rw [happend]
  have haccepts : (textSession .waitingForStreamingReq [1, 2] [7] 2 hashes).Accepts hasher
      ⟨[9], ⟨[], List.Pairwise.nil, nofun⟩⟩ := by
    constructor
    · exact le_refl 2
    · simp [hsize, textSession, numTokens]
    · exact Nat.le_add_right 2 2
    · exact .inr nofun
  exact ⟨nofun, fun _ ↦ haccepts, trivial⟩

/-- If the sampled token fills the first block, the hash of the block outlives the token. -/
theorem foldl_text : (textOps 1).foldl (Session.apply hasher) (textSession .waiting [1] [] 0 []) =
    textSession .waiting [1, 9] [] 1 [hasher.cachingHashFn (hasher.noneHash, [1, 7], none)] := by
  have hpair : requestBlockHasher hasher ⟨[1, 7], none, none, [], none, []⟩ = .ok _ :=
    requestBlockHasher_pair hsize (by decide)
  have hrest : requestBlockHasher hasher ⟨[1, 9], none, none, [], none,
      [hasher.cachingHashFn (hasher.noneHash, [1, 7], none)]⟩ = .ok [] :=
    requestBlockHasher_rest hsize (by simp)
  simp [textOps, apply, applyFallible, schedule, appendOutputTokenIds, updateBlockHashes,
    BlockHashing.updateBlockHashes, textSession, hpair, Except.map, handleStoppedRequest, addRequest,
    updateRequestAsSession, extend, BlockHashing.Request.extend, extendPrompt, hrest]

end

/-- A session whose first chunk is a full block. -/
theorem inStep_text : ∃ hasher : Hasher Unit, hasher.Ideal ∧ ∃ session,
    Session.create hasher (textInput [1, 2]) = .ok session ∧
      HoldsAlong (Session.apply hasher) (InStep hasher) session (textOps 2) := by
  obtain ⟨hasher, hsize, hideal⟩ := exists_ideal_hasher
  have hcreate : Session.create hasher (textInput [1, 2]) = .ok (textSession .waiting [1, 2] [] 0
      [hasher.cachingHashFn (hasher.noneHash, [1, 2], none)]) := create_text hsize (by decide)
  exact ⟨hasher, hideal, _, hcreate, inStep_of_meets hideal hcreate (stepsMeet_text hsize rfl)⟩

/-- A session whose first chunk ends one token before the end of a block. -/
theorem not_inStep_text : ∃ hasher : Hasher Unit, hasher.Ideal ∧ ∃ session,
    Session.create hasher (textInput [1]) = .ok session ∧
      ¬ HoldsAlong (Session.apply hasher) (InStep hasher) session (textOps 1) := by
  obtain ⟨hasher, hsize, hideal⟩ := exists_ideal_hasher
  have hcreate : Session.create hasher (textInput [1]) = .ok (textSession .waiting [1] [] 0 []) := by
    simp [create, textInput, lengthFromPromptTokenIdsOrEmbeds, updateBlockHashes,
      BlockHashing.updateBlockHashes, requestBlockHasher_rest hsize, Except.map, textSession]
  refine ⟨hasher, hideal, _, hcreate, fun hholds ↦ ?_⟩
  have hfinal := hholds.final.blockHashes
  rw [foldl_text hsize] at hfinal
  have hscratch : requestBlockHasher hasher ⟨[1, 9], none, none, [], none, []⟩ =
      .ok [hasher.cachingHashFn (hasher.noneHash, [1, 9], none)] := requestBlockHasher_pair hsize (by decide)
  have hsame := singleton_inj.1 (Except.ok.inj (hscratch.symm.trans hfinal))
  exact absurd (hideal.injective hsame) (by simp)

end Session

end Nelssa.Sched
