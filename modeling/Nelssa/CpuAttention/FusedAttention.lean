import Nelssa.CpuAttention.Gather
import Nelssa.Foundation.MaskedSoftmax
import Nelssa.Worker.Merge

/-!
# Attention over the gathered tokens

The fused kernel attends over the pooled rows that the batched gather has filled. The rows are as wide as
the pool, and the kernel masks the positions behind the reported length. A length that is not positive counts
as the full width. The main theorem says for which batches the kernel returns, for every request and head,
the attention over exactly the selected tokens, whatever the pool held before.
-/

namespace Nelssa.CpuAttention

open Foundation.LogSumExp Worker ExpArithmetic
open List hiding not_lt

variable {R : Type*} {headDim numKvHeads groupSize : ℕ}

/-- The key and the value of one token for one KV head. -/
structure TokenKV (headDim : ℕ) (R : Type*) where
  key : Fin headDim → R
  value : Fin headDim → R

structure HeadResult (headDim : ℕ) (R : Type*) where
  out : Fin headDim → R
  lse : WithBot R

section Kernel

variable [Field R] [LinearOrder R] (arith : ExpArithmetic R) (scale : R)

def score (query : Fin headDim → R) (token : TokenKV headDim R) : R :=
  (∑ dim, query dim * token.key dim) * scale

/-- The smallest denominator of the softmax, `1e-9`. -/
def denomMin : R := 1 / 10 ^ 9

section

variable (query : Fin headDim → R) (tokens : List (TokenKV headDim R)) (count : ℕ)

/-- The scores of a row, masked from position `count` on, beside the tokens. -/
def scoredRow : List (WithBot R × TokenKV headDim R) :=
  tokens.mapIdx fun m token ↦ (if m < count then ((score scale query token : R) : WithBot R) else ⊥, token)

/-- Softmax attention over a row masked from position `count` on: subtract the largest score, exponentiate,
and divide by the clamped sum. -/
def maskedAttention : HeadResult headDim R :=
  let scored := scoredRow scale query tokens count
  let mx := rowMax (scored.map Prod.fst)
  let weight := fun entry : WithBot R × TokenKV headDim R ↦ arith.expBot (entry.1.map (· - mx.unbotD 0))
  let sum := (scored.map weight).sum
  let denom := if denomMin < sum then sum else denomMin
  { out := fun dim ↦ (scored.map fun entry ↦ weight entry * (1 / denom) * entry.2.value dim).sum
    lse := mx.map (· + arith.log denom) }

end

/-- `row_len`: a length that is not positive or exceeds the row counts as the whole row. -/
def rowLen (row : List (TokenKV headDim R) × ℕ) : ℕ :=
  if 0 < row.2 ∧ row.2 ≤ row.1.length then row.2 else row.1.length

/-- One row of `cpu_attention_fused`. -/
def cpuAttentionFused (query : Fin headDim → R) (row : List (TokenKV headDim R) × ℕ) :
    HeadResult headDim R :=
  maskedAttention arith scale query row.1 (rowLen row)

/-- The batched path of `RPCAttentionEngine.handle_batch`: the gather of all requests into the pooled
buffer, and the kernel on every row, once per query head of the group. -/
def fusedBatch (maxTokens : ℕ) (batch : List (GatherInput numKvHeads))
    (queries : ℕ → Fin numKvHeads → Fin groupSize → Fin headDim → R)
    (source previous : ℕ → Fin numKvHeads → ℕ → TokenKV headDim R) :
    Option (List (Fin numKvHeads → Fin groupSize → HeadResult headDim R)) :=
  (gatherSelectedClustersBatchCpu maxTokens batch source previous).map fun rows ↦
    rows.mapIdx fun n row head query ↦ cpuAttentionFused arith scale (queries n head query) (row head)

/-! ## Attention over a list of tokens -/

section

variable (query : Fin headDim → R) (tokens : List (TokenKV headDim R))

def tokenSum : R :=
  arith.rowSum (tokens.map fun token ↦ ((score scale query token : R) : WithBot R))

/-- A result is the softmax attention over the tokens: its normaliser is the logarithm of the sum of the
exponentials, minus infinity for no tokens, when the merge gives it no weight. -/
structure Attends (result : HeadResult headDim R) : Prop where
  lse : arith.expBot result.lse = tokenSum arith scale query tokens
  out : tokens ≠ [] → ∀ dim, result.out dim =
    (tokens.map fun token ↦
      arith.exp (score scale query token) / tokenSum arith scale query tokens * token.value dim).sum
  empty : tokens = [] → ∀ gpuLse, (kernelWeights arith gpuLse result.lse).2 = 0

end

/-- Every request, head and query gets the attention over the tokens of the clusters in its id row. -/
def AttendsGathered (maxTokens : ℕ) (batch : List (GatherRequest numKvHeads))
    (queries : ℕ → Fin numKvHeads → Fin groupSize → Fin headDim → R)
    (source previous : ℕ → Fin numKvHeads → ℕ → TokenKV headDim R) : Prop :=
  ∃ results, fusedBatch arith scale maxTokens (batch.map (·.toGatherInput)) queries source previous =
      some results ∧
    ∀ n req, batch[n]? = some req → ∃ result, results[n]? = some result ∧
      ∀ head query, Attends arith scale (queries n head query)
        ((req.heads head).selected (source n head) (req.idsT head)) (result head query)

/-! ## One row of the kernel -/

section Row

variable (query : Fin headDim → R) {count : ℕ} {tokens : List (TokenKV headDim R)}

omit [LinearOrder R] in
theorem scoredRow_eq (hcount : count ≤ tokens.length) :
    scoredRow scale query tokens count =
      (tokens.take count).map (fun token ↦ (((score scale query token : R) : WithBot R), token)) ++
        (tokens.drop count).map fun token ↦ (⊥, token) := by
  apply ext_getElem
  · rw [scoredRow, length_mapIdx, length_append, length_map, length_map, ← length_append, take_append_drop]
  · intro m _ _
    have hlen := length_take_of_le hcount
    simp only [scoredRow, getElem_mapIdx, getElem_append, length_map, hlen]
    split
    · simp
    · next hge => simp [Nat.add_sub_of_le (not_lt.1 hge)]

variable [IsStrictOrderedRing R]

theorem tokenSum_pos (htokens : tokens ≠ []) : 0 < tokenSum arith scale query tokens := by
  obtain ⟨_, _, rfl⟩ := exists_cons_of_ne_nil htokens
  exact add_pos_of_pos_of_nonneg (arith.exp_pos _) (arith.rowSum_nonneg _)

theorem denomMin_lt_one : (denomMin : R) < 1 := by
  rw [denomMin]
  norm_num

variable (hcount : count ≤ tokens.length)
include hcount

omit [IsStrictOrderedRing R] in
theorem rowSum_scoredRow :
    arith.rowSum ((scoredRow scale query tokens count).map Prod.fst) =
      tokenSum arith scale query (tokens.take count) := by
  rw [scoredRow_eq scale query hcount, map_append, rowSum_append, map_map, map_map, tokenSum]
  have htail : (tokens.drop count).map (Prod.fst ∘ fun token ↦ ((⊥ : WithBot R), token)) =
      List.replicate (tokens.drop count).length ⊥ :=
    map_const'
  rw [htail, rowSum_replicate_bot, add_zero]
  rfl

/-- The clamp of the denominator never acts on a row with an unmasked token. -/
theorem maskedAttention_eq (hne : tokens.take count ≠ []) :
    ∃ largest denom : R, tokenSum arith scale query (tokens.take count) / arith.exp largest = denom ∧
      maskedAttention arith scale query tokens count =
        { out := fun dim ↦ ((scoredRow scale query tokens count).map fun entry ↦
            arith.expBot (entry.1.map (· - largest)) * (1 / denom) * entry.2.value dim).sum
          lse := ((largest + arith.log denom : R) : WithBot R) } := by
  obtain ⟨_, _, htokens⟩ := exists_cons_of_ne_nil hne
  obtain ⟨largest, hmax, hmem⟩ : ∃ largest : R,
      rowMax ((scoredRow scale query tokens count).map Prod.fst) = largest ∧
        (largest : WithBot R) ∈ (scoredRow scale query tokens count).map Prod.fst := by
    rw [scoredRow_eq scale query hcount, htokens]
    exact exists_rowMax _ _
  have hsum : ((scoredRow scale query tokens count).map fun entry ↦
      arith.expBot (entry.1.map (· - largest))).sum =
        tokenSum arith scale query (tokens.take count) / arith.exp largest := by
    rw [← rowSum_scoredRow arith scale query hcount, ← sum_shifted, map_map]
    rfl
  have hone : 1 ≤ tokenSum arith scale query (tokens.take count) / arith.exp largest := by
    rw [← rowSum_scoredRow arith scale query hcount, ← sum_shifted]
    exact arith.one_le_sum_shifted hmem
  refine ⟨largest, _, rfl, ?_⟩
  simp only [maskedAttention, hmax, WithBot.unbotD_coe, hsum, if_pos (lt_of_lt_of_le denomMin_lt_one hone)]
  rfl

/-- The attention over the unmasked tokens: the shift by the largest score cancels. -/
theorem attends_maskedAttention (hne : tokens.take count ≠ []) :
    Attends arith scale query (tokens.take count) (maskedAttention arith scale query tokens count) := by
  obtain ⟨largest, _, rfl, heq⟩ := maskedAttention_eq arith scale query hcount hne
  have hpos := tokenSum_pos arith scale query hne
  have hlargest := arith.exp_pos largest
  rw [heq]
  refine ⟨?_, fun _ dim ↦ ?_, fun hempty ↦ absurd hempty hne⟩
  · rw [expBot_coe, arith.exp_add, arith.exp_log _ (div_pos hpos hlargest), mul_div_cancel₀ _ hlargest.ne']
  · have hweight (masked : WithBot R) :
        arith.expBot (masked.map (· - largest)) *
            (1 / (tokenSum arith scale query (tokens.take count) / arith.exp largest)) =
          arith.expBot masked / tokenSum arith scale query (tokens.take count) := by
      rw [expBot_sub]
      field_simp
    simp only [hweight]
    rw [scoredRow_eq scale query hcount, map_append, sum_append, map_map, map_map]
    have htail : ((tokens.drop count).map ((fun entry : WithBot R × TokenKV headDim R ↦
        arith.expBot entry.1 / tokenSum arith scale query (tokens.take count) * entry.2.value dim) ∘
          fun token ↦ (⊥, token))).sum = 0 := by
      apply sum_eq_zero
      intro term hterm
      obtain ⟨_, -, rfl⟩ := mem_map.1 hterm
      simp
    rw [htail, add_zero]
    rfl

end Row

omit [Field R] [LinearOrder R] in
theorem rowLen_le (row : List (TokenKV headDim R) × ℕ) : rowLen row ≤ row.1.length := by
  rw [rowLen]
  split <;> omega

variable [IsStrictOrderedRing R]

theorem attends_cpuAttentionFused (query : Fin headDim → R) (row : List (TokenKV headDim R) × ℕ)
    (hrow : row.1.take (rowLen row) ≠ []) :
    Attends arith scale query (row.1.take (rowLen row)) (cpuAttentionFused arith scale query row) :=
  attends_maskedAttention arith scale query (rowLen_le row) hrow

/-! ## The pooled rows -/

section

variable {input : GatherInput numKvHeads} (hvalid : input.Valid) {head : Fin numKvHeads} {maxTokens : ℕ}
  (query : Fin headDim → R) (source previous : Fin numKvHeads → ℕ → TokenKV headDim R)
  {row : List (TokenKV headDim R) × ℕ} (hrow : input.gatherRow maxTokens source previous head = row)
  {tokens : List (TokenKV headDim R)}
  (htokens : (input.heads head).selected (source head) (input.idsT head) = tokens)
include hvalid hrow htokens

/-- A selection that fits the pool and is not empty: the kernel sees the selected tokens. -/
theorem attends_gatherRow (hpos : 0 < input.perHeadLens head) (hfits : input.perHeadLens head ≤ maxTokens) :
    Attends arith scale query tokens (cpuAttentionFused arith scale query row) := by
  have hlen := input.length_selected_idsT head (source head)
  have htake : row.1.take (rowLen row) = tokens := by
    rw [rowLen, ← hrow, hvalid.length_gatherRow, hvalid.gatherRow_snd, min_eq_right hfits,
      if_pos ⟨hpos, hfits⟩, hvalid.gatherRow_fst,
      take_of_length_le (hlen.trans_le hfits), ← hlen, htokens]
    exact take_left
  rw [htokens] at hlen
  have hne : tokens ≠ [] := by
    rw [← length_pos_iff, hlen]
    exact hpos
  have hattends := attends_cpuAttentionFused arith scale query row (by rw [htake]; exact hne)
  rw [htake] at hattends
  exact hattends

/-- Conversely, an empty selection leaves the old contents of the pool unmasked, and a selection that
exceeds the pool loses tokens: both show in the normaliser. -/
theorem of_attends_gatherRow (hcap : 0 < maxTokens)
    (hattends : Attends arith scale query tokens (cpuAttentionFused arith scale query row)) :
    0 < input.perHeadLens head ∧ input.perHeadLens head ≤ maxTokens := by
  have hlen := input.length_selected_idsT head (source head)
  by_contra hbad
  have hrowLen : row.1.length = maxTokens := by rw [← hrow, hvalid.length_gatherRow]
  have htake : row.1.take (rowLen row) = row.1 := by
    have hwhole : rowLen row = maxTokens := by
      rw [rowLen, hrowLen, ← hrow, hvalid.gatherRow_snd]
      split <;> omega
    rw [hwhole]
    exact take_of_length_le hrowLen.le
  have hne : row.1 ≠ [] := by
    rw [← length_pos_iff, hrowLen]
    exact hcap
  have hkernel := attends_cpuAttentionFused arith scale query row (by rw [htake]; exact hne)
  rw [htake] at hkernel
  have hsums := hkernel.lse.symm.trans hattends.lse
  rcases eq_zero_or_pos (input.perHeadLens head) with hzero | hpos
  · have hnil : tokens = [] := by rw [← htokens, ← length_eq_zero_iff, hlen, hzero]
    rw [hnil] at hsums
    exact (tokenSum_pos arith scale query hne).ne' hsums
  · have hexceeds : maxTokens < input.perHeadLens head := by omega
    have hcopied : row.1 = tokens.take maxTokens := by
      rw [← hrow, hvalid.gatherRow_fst, min_eq_left hexceeds.le, Nat.sub_self, range'_zero, map_nil,
        append_nil, htokens]
    have hlost : tokens.drop maxTokens ≠ [] := by
      rw [← length_pos_iff, length_drop, ← htokens]
      omega
    have hsplit : tokenSum arith scale query tokens =
        tokenSum arith scale query (tokens.take maxTokens) +
          tokenSum arith scale query (tokens.drop maxTokens) := by
      rw [tokenSum, tokenSum, tokenSum, ← rowSum_append, ← map_append, take_append_drop]
    rw [hcopied, hsplit, left_eq_add] at hsums
    exact (tokenSum_pos arith scale query hlost).ne' hsums

end

/-- The batched path returns the attention over exactly the tokens of the id rows, whatever the pool held
before, if and only if every head of every request selects at least one token and no more than the pool
holds. -/
theorem attendsGathered_iff (maxTokens : ℕ) (batch : List (GatherRequest numKvHeads)) (hbatch : batch ≠ [])
    (hgroup : 0 < groupSize) (queries : ℕ → Fin numKvHeads → Fin groupSize → Fin headDim → R)
    (source previous : ℕ → Fin numKvHeads → ℕ → TokenKV headDim R) :
    AttendsGathered arith scale maxTokens batch queries source previous ↔
      0 < maxTokens ∧ ∀ req ∈ batch, ∀ head, 0 < req.perHeadLens head ∧ req.perHeadLens head ≤ maxTokens := by
  constructor
  · rintro ⟨results, hresults, hattends⟩
    rw [fusedBatch, Option.map_eq_some_iff] at hresults
    obtain ⟨_, hrows, rfl⟩ := hresults
    rw [gatherSelectedClustersBatchCpu, Option.ite_none_left_eq_some, not_or] at hrows
    obtain ⟨⟨-, hcap⟩, hrows⟩ := hrows
    have hcap := pos_of_ne_zero hcap
    refine ⟨hcap, fun req hrequest head ↦ ?_⟩
    obtain ⟨n, hn⟩ := mem_iff_getElem?.1 hrequest
    obtain ⟨_, hresult, hattends⟩ := hattends n req hn
    rw [getElem?_mapIdx, ← Option.some.inj hrows, getElem?_mapIdx, getElem?_map, hn] at hresult
    rw [← Option.some.inj hresult] at hattends
    exact of_attends_gatherRow arith scale req.valid_idsT _ _ _ rfl rfl hcap (hattends head ⟨0, hgroup⟩)
  · rintro ⟨hcap, hrequests⟩
    have hinputs : batch.map (·.toGatherInput) ≠ [] := by simpa using hbatch
    refine ⟨_, congrArg _ (if_neg (not_or.2 ⟨hinputs, hcap.ne'⟩)), fun n req hn ↦ ?_⟩
    refine ⟨fun head query ↦ cpuAttentionFused arith scale (queries n head query)
      (req.gatherRow maxTokens (source n) (previous n) head), by simp [hn], fun head query ↦ ?_⟩
    have hrequest := hrequests req (mem_of_getElem? hn) head
    exact attends_gatherRow arith scale req.valid_idsT _ _ _ rfl rfl hrequest.1 hrequest.2

end Kernel

/-- A query and tokens of zeros with heads of one dimension. -/
def zeroQuery : ℕ → Fin numKvHeads → Fin 1 → Fin 1 → ℝ := fun _ _ _ _ ↦ 0

def zeroTokens : ℕ → Fin numKvHeads → ℕ → TokenKV 1 ℝ := fun _ _ _ ↦ ⟨fun _ ↦ 0, fun _ ↦ 0⟩

theorem attendsGathered_twoHeads :
    AttendsGathered realArithmetic 1 mCapDefault [twoHeads [1, 0] (by decide) (by decide)] zeroQuery
      zeroTokens zeroTokens := by
  refine (attendsGathered_iff realArithmetic 1 mCapDefault _ (by simp) one_pos _ _ _).2 ⟨by decide, ?_⟩
  intro req hrequest
  rw [mem_singleton] at hrequest
  subst hrequest
  decide

/-- One head with a cluster of two tokens and an empty one, which is selected. -/
def emptySelection : GatherRequest 1 where
  heads _ :=
    { numTokens := 2
      offsets := [0, 2]
      sizes := [2, 0]
      numTokens_pos := Nat.two_pos
      offsets_ne_nil := twoOffsets_ne_nil
      within := by
        intro cluster
        rcases cluster with _ | _ | cluster
        · decide
        · decide
        · exact Nat.zero_le _ }
  idsT := normalizeClusterIds (.nested (List.ofFn fun _ : Fin 1 ↦ [1]))
  selection _ := [1]
  clusterIds := .nested (List.ofFn fun _ : Fin 1 ↦ [1])
  normalized := rfl
  encodes := Or.inl rfl
  nodup _ := nodup_singleton 1
  valid _ := by decide

/-- A head without a gathered token attends over the whole pooled row. -/
theorem not_attendsGathered_emptySelection :
    ¬ AttendsGathered realArithmetic 1 mCapDefault [emptySelection] zeroQuery zeroTokens zeroTokens := by
  rintro ⟨results, hresults, hattends⟩
  have hcap : 0 < mCapDefault := by decide
  obtain ⟨_, hresult, hattends⟩ := hattends 0 emptySelection rfl
  rw [← Option.some.inj hresults] at hresult
  rw [← Option.some.inj hresult] at hattends
  have hbounds := of_attends_gatherRow realArithmetic 1 emptySelection.valid_idsT _ _ _ rfl rfl hcap
    (hattends 0 0)
  exact absurd hbounds.1 (by decide)

end Nelssa.CpuAttention
