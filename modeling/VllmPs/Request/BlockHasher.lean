import VllmPs.Lib.HashChain
import VllmPs.Request.ExtraKeys

/-!
# Incremental block hashing

`request_block_hasher` hashes the full blocks gained since the last call. It restarts
from the last multimodal item, so it extends the chain of hashing from scratch exactly
when no earlier item reaches into a block hashed after the first call.
-/

namespace VllmPs

open Lib List

variable {H F : Type}

/-- The hash function and block size `get_request_block_hasher` closes over. -/
structure BlockHasher (H : Type) where
  blockSize : ℕ
  blockSize_pos : 0 < blockSize
  hashFn : H → List Token → Option (List ExtraKey) → H
  noneHash : H
  /-- Digest of a slice of the prompt embeddings. -/
  embedsDigest : List ℕ → ℕ

namespace BlockHasher

/-- `hash_block_tokens`: the first block hashes `NONE_HASH` as its parent. -/
def hashBlockTokens (hasher : BlockHasher H) (parentBlockHash : Option H)
    (currBlockTokenIds : List Token) (extraKeys : Option (List ExtraKey)) : H :=
  hasher.hashFn (parentBlockHash.getD hasher.noneHash) currBlockTokenIds extraKeys

/-- The `while` loop of `request_block_hasher`; `fuel` bounds the number of blocks. -/
def hashLoop (hasher : BlockHasher H) (r : Request H F) : ℕ → ℕ → ℤ → Option H → List H
  | 0, _, _, _ => []
  | fuel + 1, startTokenIdx, currMmIdx, prevBlockHash =>
    let endTokenIdx := startTokenIdx + hasher.blockSize
    if endTokenIdx > r.numTokens then []
    else
      let extra :=
        generateBlockHashExtraKeys hasher.embedsDigest r startTokenIdx endTokenIdx currMmIdx
      let blockTokens := (r.allTokenIds.drop startTokenIdx).take hasher.blockSize
      let blockHash := hasher.hashBlockTokens prevBlockHash blockTokens extra.1
      blockHash :: hashLoop hasher r fuel endTokenIdx extra.2 (some blockHash)

/-- `request_block_hasher`: the hashes of the full blocks not hashed yet. -/
def requestBlockHasher (hasher : BlockHasher H) (r : Request H F) : List H :=
  let startTokenIdx := r.blockHashes.length * hasher.blockSize
  if startTokenIdx + hasher.blockSize > r.numTokens then []
  else
    let currMmIdx : ℤ := if startTokenIdx > 0 then -1 else 0
    hasher.hashLoop r r.numTokens startTokenIdx currMmIdx r.blockHashes.getLast?

end BlockHasher

namespace Request

variable (blockHasher : Option (BlockHasher H))
variable (r : Request H F)

/-- `update_block_hashes`; there is no hasher when nothing consumes block hashes. -/
def updateBlockHashes : Request H F :=
  match blockHasher with
  | none => r
  | some hasher => { r with blockHashes := r.blockHashes ++ hasher.requestBlockHasher r }

/-- `append_output_token_ids` -/
def appendOutputTokenIds (tokenIds : List Token) : Request H F :=
  updateBlockHashes blockHasher
    { r with
      outputTokenIds := r.outputTokenIds ++ tokenIds
      allTokenIds := r.allTokenIds ++ tokenIds }

def promptView (promptTokenIds : Option (List Token)) (numPromptTokens : ℕ) : List Token :=
  promptTokenIds.getD (List.replicate numPromptTokens 0)

/-- `reset_output_token_ids` -/
def resetOutputTokenIds (tokenIds : List Token) : Request H F :=
  updateBlockHashes blockHasher
    { r with
      outputTokenIds := tokenIds
      allTokenIds := promptView r.promptTokenIds r.numPromptTokens ++ tokenIds
      blockHashes := [] }

/-- `length_from_prompt_token_ids_or_embeds` -/
def lengthFromPromptTokenIdsOrEmbeds (promptTokenIds : Option (List Token))
    (promptEmbeds : Option (List ℕ)) : Except PyError ℕ :=
  match promptTokenIds, promptEmbeds with
  | none, none => .error .valueError
  | none, some rows => .ok rows.length
  | some tokens, none => .ok tokens.length
  | some tokens, some rows =>
    if rows.length ≠ tokens.length then .error .valueError else .ok tokens.length

/-- `Request.__init__` on the fields of an engine core request. -/
def fromEngineCoreRequest (req : EngineCoreRequest F) : Except PyError (Request H F) := do
  let numPromptTokens ← lengthFromPromptTokenIdsOrEmbeds req.promptTokenIds req.promptEmbeds
  return updateBlockHashes blockHasher
    { requestId := req.requestId
      priority := req.priority
      arrivalTime := req.arrivalTime
      samplingParams := req.samplingParams
      pooling := req.pooling
      maxTokens := if req.pooling then 1 else req.samplingParams.maxTokens
      powerSmcConfig := req.powerSmcConfig
      powerSmcChildInfo :=
        if req.powerSmcConfig.isSome then parsePowerSmcChildRequestId req.requestId else none
      loraName := req.loraName
      cacheSalt := req.cacheSalt
      promptEmbeds := req.promptEmbeds
      mmFeatures := req.mmFeatures
      useStructuredOutput := req.useStructuredOutput
      status :=
        if !req.pooling && req.useStructuredOutput then .waitingForStructuredOutputGrammar
        else .waiting
      promptTokenIds := req.promptTokenIds
      numPromptTokens := numPromptTokens
      allTokenIds := promptView req.promptTokenIds numPromptTokens
      resumable := req.resumable }

end Request

namespace BlockHasher

variable (hasher : BlockHasher H)

def chainStep (h : H) (payload : List Token × Option (List ExtraKey)) : H :=
  hasher.hashFn h payload.1 payload.2

/-- No two different (parent, tokens, extra keys) have the same digest. -/
def CollisionFree : Prop := Function.Injective2 hasher.chainStep

/-- A hasher whose digests are the payloads hashed so far, so that nothing collides. -/
def transcriptHasher (blockSize : ℕ) (hpos : 0 < blockSize) :
    BlockHasher (List (List Token × Option (List ExtraKey))) where
  blockSize := blockSize
  blockSize_pos := hpos
  hashFn := fun parent tokens extraKeys => (tokens, extraKeys) :: parent
  noneHash := []
  embedsDigest := List.sum

theorem transcriptHasher_collisionFree (blockSize : ℕ) (hpos : 0 < blockSize) :
    (transcriptHasher blockSize hpos).CollisionFree := by
  intro h h' payload payload' heq
  simp only [transcriptHasher, chainStep, List.cons.injEq] at heq
  exact ⟨heq.2, heq.1⟩

/-- The payload of block `k` when only `mmFeatures` are considered for its multimodal keys. -/
def payloadWith (r : Request H F) (mmFeatures : List MultiModalFeature) (k : ℕ) :
    List Token × Option (List ExtraKey) :=
  let startTokenIdx := k * hasher.blockSize
  let endTokenIdx := startTokenIdx + hasher.blockSize
  ((r.allTokenIds.drop startTokenIdx).take hasher.blockSize,
    extraKeysAround hasher.embedsDigest r startTokenIdx endTokenIdx
      (overlapKeys mmFeatures startTokenIdx endTokenIdx))

def exactPayloads (r : Request H F) : List (List Token × Option (List ExtraKey)) :=
  (List.range (r.numTokens / hasher.blockSize)).map (hasher.payloadWith r r.mmFeatures)

/-- The block hashes a request should have. -/
def exactBlockHashes (r : Request H F) : List H :=
  hashChain hasher.chainStep hasher.noneHash (hasher.exactPayloads r)

theorem range_eq_append (n n' : ℕ) (hle : n ≤ n') : List.range n' = List.range n ++ List.range' n (n' - n) := by
  have hjoin := List.range'_append_1 (s := 0) (m := n) (n := n' - n)
  rw [range_eq_range', range_eq_range']
  rwa [Nat.zero_add, Nat.add_sub_of_le hle, eq_comm] at hjoin

/-- The items a call starts from: all of them on the first call, afterwards the last one only. -/
def itemsFrom (mmFeatures : List MultiModalFeature) (numHashed : ℕ) : List MultiModalFeature :=
  if numHashed = 0 then mmFeatures else mmFeatures.drop (mmFeatures.length - 1)

variable (r : Request H F)

section

variable (hsorted : SortedDisjoint r.mmFeatures)
include hsorted

/-- The loop started at block `k` chains the payloads of the full blocks from `k` on, with the keys
of the items its multimodal index has not passed. -/
theorem hashLoop_eq (fuel k : ℕ)
    (hfuel : r.numTokens / hasher.blockSize ≤ k + fuel) (currMmIdx : ℤ) (prev : Option H) :
    hasher.hashLoop r fuel (k * hasher.blockSize) currMmIdx prev =
      hashChain hasher.chainStep (prev.getD hasher.noneHash)
        ((List.range' k (r.numTokens / hasher.blockSize - k)).map
          (hasher.payloadWith r (r.mmFeatures.drop (normalizeMmIdx r.mmFeatures currMmIdx)))) := by
  induction fuel generalizing k currMmIdx prev with
  | zero =>
    rw [Nat.sub_eq_zero_of_le (by omega)]
    rfl
  | succ fuel ih =>
    unfold hashLoop
    have hfull : k * hasher.blockSize + hasher.blockSize > r.numTokens ↔
        r.numTokens / hasher.blockSize ≤ k := by
      rw [← Nat.succ_mul, gt_iff_lt, ← Nat.div_lt_iff_lt_mul hasher.blockSize_pos, Nat.lt_succ_iff]
    dsimp only
    split_ifs with hstop
    · rw [Nat.sub_eq_zero_of_le (hfull.mp hstop)]
      rfl
    rw [hfull, not_le] at hstop
    obtain ⟨remaining, hremaining⟩ : ∃ n, r.numTokens / hasher.blockSize - k = n + 1 :=
      ⟨r.numTokens / hasher.blockSize - k - 1, by omega⟩
    obtain ⟨hkeys, hnext⟩ := genMmExtraHashKeys_spec r.mmFeatures hsorted (k * hasher.blockSize)
      (k * hasher.blockSize + hasher.blockSize) (by omega) currMmIdx
    rw [hremaining, List.range'_succ, map_cons, hashChain, ← Nat.succ_mul,
      ih (k + 1) (by omega), show r.numTokens / hasher.blockSize - (k + 1) = remaining by omega]
    congr 1
    · simp only [hashBlockTokens, generateBlockHashExtraKeys, chainStep, payloadWith, hkeys, Nat.succ_mul]
    congr 1
    · simp only [hashBlockTokens, generateBlockHashExtraKeys, chainStep, payloadWith, hkeys,
        Nat.succ_mul, Option.getD_some]
    -- Later blocks start past this one, where the returned index loses no item.
    refine map_congr_left fun j hj => ?_
    have hj' : k + 1 ≤ j := (mem_range'_1.mp hj).1
    have hle : k * hasher.blockSize + hasher.blockSize ≤ j * hasher.blockSize := by
      rw [← Nat.succ_mul]
      exact Nat.mul_le_mul_right _ hj'
    simp only [payloadWith, generateBlockHashExtraKeys, Nat.succ_mul, hnext _ _ hle]

theorem requestBlockHasher_eq : hasher.requestBlockHasher r =
      hashChain hasher.chainStep (r.blockHashes.getLast?.getD hasher.noneHash)
        ((List.range' r.blockHashes.length (r.numTokens / hasher.blockSize - r.blockHashes.length)).map
          (hasher.payloadWith r (itemsFrom r.mmFeatures r.blockHashes.length))) := by
  have hpos := hasher.blockSize_pos
  unfold requestBlockHasher
  dsimp only
  split_ifs with hstop hstart
  · rw [← Nat.succ_mul, gt_iff_lt, ← Nat.div_lt_iff_lt_mul hpos, Nat.lt_succ_iff] at hstop
    rw [Nat.sub_eq_zero_of_le hstop]
    rfl
  · have hne : r.blockHashes.length ≠ 0 := by
      intro hzero
      simp [hzero] at hstart
    have hidx : normalizeMmIdx r.mmFeatures (-1) = r.mmFeatures.length - 1 := by
      unfold normalizeMmIdx
      rw [if_pos (by omega)]
      omega
    rw [hashLoop_eq hasher r hsorted _ _ (le_add_left (Nat.div_le_self _ _)), hidx, itemsFrom, if_neg hne]
  have hzero : r.blockHashes.length = 0 := by
    rcases Nat.eq_zero_or_pos r.blockHashes.length with h | h
    · exact h
    · exact absurd (Nat.mul_pos h hpos) hstart
  rw [hashLoop_eq hasher r hsorted _ _ (le_add_left (Nat.div_le_self _ _)), itemsFrom, if_pos hzero]
  rfl

theorem requestBlockHasher_of_no_hashes (hnone : r.blockHashes = [])
    : hasher.requestBlockHasher r = hasher.exactBlockHashes r := by
  rw [requestBlockHasher_eq hasher r hsorted, hnone, exactBlockHashes, exactPayloads, range_eq_range']
  rfl

end

variable {hasher}

theorem payloadWith_inj (first second : List MultiModalFeature) (k : ℕ) :
    hasher.payloadWith r first k = hasher.payloadWith r second k ↔
      overlapKeys first (k * hasher.blockSize) (k * hasher.blockSize + hasher.blockSize) =
        overlapKeys second (k * hasher.blockSize) (k * hasher.blockSize + hasher.blockSize) := by
  simp only [payloadWith, Prod.mk.injEq, true_and, extraKeysAround_inj]

theorem overlapKeys_last_eq_iff (mmFeatures : List MultiModalFeature) (a b : ℕ) :
    overlapKeys (mmFeatures.drop (mmFeatures.length - 1)) a b = overlapKeys mmFeatures a b ↔
      ∀ f ∈ mmFeatures.dropLast, f.overlaps a b = false := by
  have hsplit : overlapKeys mmFeatures a b = overlapKeys mmFeatures.dropLast a b ++
        overlapKeys (mmFeatures.drop (mmFeatures.length - 1)) a b := by
    rw [dropLast_eq_take]
    simp only [overlapKeys, ← map_append, ← filter_append, take_append_drop]
  rw [hsplit, self_eq_append_left]
  simp [overlapKeys, filter_eq_nil_iff]

theorem payloadWith_append (r' : Request H F) (tokenIds : List Token)
    (hall : r'.allTokenIds = r.allTokenIds ++ tokenIds) (hlora : r'.loraName = r.loraName)
    (hsalt : r'.cacheSalt = r.cacheSalt) (hembeds : r'.promptEmbeds = r.promptEmbeds)
    (mmFeatures : List MultiModalFeature) (k : ℕ) (hk : k < r.numTokens / hasher.blockSize) :
    hasher.payloadWith r' mmFeatures k = hasher.payloadWith r mmFeatures k := by
  have hle : k * hasher.blockSize + hasher.blockSize ≤ r.allTokenIds.length := by
    rw [← Nat.succ_mul]
    exact (Nat.le_div_iff_mul_le hasher.blockSize_pos).mp hk
  simp only [payloadWith, extraKeysAround, hall, hlora, hsalt, hembeds, Prod.mk.injEq, and_true]
  rw [drop_append_of_le_length (by omega), take_append_of_le_length]
  rw [length_drop]
  omega

variable (tokenIds : List Token)

theorem blockHashes_appendOutputTokenIds (hsorted : SortedDisjoint r.mmFeatures)
    (payloads : List (List Token × Option (List ExtraKey)))
    (hchain : r.blockHashes = hashChain hasher.chainStep hasher.noneHash payloads) :
    (r.appendOutputTokenIds (some hasher) tokenIds).blockHashes = hashChain hasher.chainStep hasher.noneHash
        (payloads ++ (List.range' payloads.length
            ((r.numTokens + tokenIds.length) / hasher.blockSize - payloads.length)).map
            (hasher.payloadWith (r.appendOutputTokenIds (some hasher) tokenIds)
              (itemsFrom r.mmFeatures payloads.length))) := by
  have hlength : r.blockHashes.length = payloads.length := by rw [hchain, hashChain_length]
  rw [hashChain_append, ← hashChain_getLast?_getD, ← hchain]
  simp only [Request.appendOutputTokenIds, Request.updateBlockHashes]
  rw [requestBlockHasher_eq]
  · simp only [hlength, Request.numTokens, length_append]
    rfl
  · exact hsorted

/-- After the first block is hashed, the blocks completed by a chunk that takes the request from
`numTokens` to `numTokens'` tokens overlap no item but the last. -/
def OnlyLastItemMet (blockSize : ℕ) (mmFeatures : List MultiModalFeature)
    (numTokens numTokens' : ℕ) : Prop :=
  0 < numTokens / blockSize → ∀ k, numTokens / blockSize ≤ k → k < numTokens' / blockSize →
    ∀ f ∈ mmFeatures.dropLast, f.overlaps (k * blockSize) (k * blockSize + blockSize) = false

/-- Every chunk of a growth from `numTokens` tokens meets only the last item. -/
def OnlyLastItemMetBy (blockSize : ℕ) (mmFeatures : List MultiModalFeature) :
    ℕ → List (List Token) → Prop
  | _, [] => True
  | numTokens, chunk :: rest =>
    OnlyLastItemMet blockSize mmFeatures numTokens (numTokens + chunk.length) ∧
      OnlyLastItemMetBy blockSize mmFeatures (numTokens + chunk.length) rest

/-- One chunk keeps the payloads exact precisely when it meets only the last item. -/
theorem exactPayloads_append_iff (payloads : List (List Token × Option (List ExtraKey)))
    (hlength : payloads.length = r.numTokens / hasher.blockSize) :
    payloads ++ (List.range' payloads.length
            ((r.numTokens + tokenIds.length) / hasher.blockSize - payloads.length)).map
            (hasher.payloadWith (r.appendOutputTokenIds (some hasher) tokenIds)
              (itemsFrom r.mmFeatures payloads.length)) =
        hasher.exactPayloads (r.appendOutputTokenIds (some hasher) tokenIds) ↔
      payloads = hasher.exactPayloads r ∧ OnlyLastItemMet hasher.blockSize r.mmFeatures r.numTokens
          (r.numTokens + tokenIds.length) := by
  set r' := r.appendOutputTokenIds (some hasher) tokenIds with hr'
  have htokens : r'.numTokens = r.numTokens + tokenIds.length := length_append
  have hmono : r.numTokens / hasher.blockSize ≤ (r.numTokens + tokenIds.length) / hasher.blockSize :=
    Nat.div_le_div_right (Nat.le_add_right _ _)
  have hexact : hasher.exactPayloads r' = hasher.exactPayloads r ++ (List.range' payloads.length
        ((r.numTokens + tokenIds.length) / hasher.blockSize - payloads.length)).map
        (hasher.payloadWith r' r.mmFeatures) := by
    rw [exactPayloads, htokens, range_eq_append _ _ hmono, hlength, map_append]
    congr 1
    refine map_congr_left fun k hk => ?_
    exact payloadWith_append r r' tokenIds rfl rfl rfl rfl _ k (mem_range.mp hk)
  have hsame : payloads.length = (hasher.exactPayloads r).length := by
    rw [hlength, exactPayloads, length_map, length_range]
  have hmet : (List.range' payloads.length
        ((r.numTokens + tokenIds.length) / hasher.blockSize - payloads.length)).map
        (hasher.payloadWith r' (itemsFrom r.mmFeatures payloads.length)) =
      (List.range' payloads.length ((r.numTokens + tokenIds.length) / hasher.blockSize - payloads.length)).map
        (hasher.payloadWith r' r.mmFeatures) ↔
      OnlyLastItemMet hasher.blockSize r.mmFeatures r.numTokens (r.numTokens + tokenIds.length) := by
    rw [map_inj_left, OnlyLastItemMet, itemsFrom, hlength]
    simp only [mem_range'_1, Nat.add_sub_of_le hmono, payloadWith_inj]
    split_ifs with hzero
    · simp [hzero]
    · simp only [overlapKeys_last_eq_iff, Nat.pos_of_ne_zero hzero, true_imp_iff, and_imp]
  rw [hexact, ← hmet]
  constructor
  · exact fun heq => append_inj heq hsame
  · rintro ⟨hfirst, hsecond⟩
    rw [hsecond, ← hfirst]

def growBy (hasher : BlockHasher H) (r : Request H F) (chunks : List (List Token)) : Request H F :=
  chunks.foldl (Request.appendOutputTokenIds (some hasher)) r

variable (chunks : List (List Token))

theorem growBy_payloads (r : Request H F) (hsorted : SortedDisjoint r.mmFeatures)
    (payloads : List (List Token × Option (List ExtraKey)))
    (hlength : payloads.length = r.numTokens / hasher.blockSize)
    (hchain : r.blockHashes = hashChain hasher.chainStep hasher.noneHash payloads) :
    ∃ payloads', (growBy hasher r chunks).blockHashes = hashChain hasher.chainStep hasher.noneHash payloads' ∧
        (payloads' = hasher.exactPayloads (growBy hasher r chunks) ↔ payloads = hasher.exactPayloads r ∧
            OnlyLastItemMetBy hasher.blockSize r.mmFeatures r.numTokens chunks) := by
  induction chunks generalizing r payloads with
  | nil => exact ⟨payloads, hchain, by simp [growBy, OnlyLastItemMetBy]⟩
  | cons chunk rest ih =>
    have hchain' := blockHashes_appendOutputTokenIds r chunk hsorted payloads hchain
    have htokens : (r.appendOutputTokenIds (some hasher) chunk).numTokens =
        r.numTokens + chunk.length := length_append
    have hmono : r.numTokens / hasher.blockSize ≤ (r.numTokens + chunk.length) / hasher.blockSize :=
      Nat.div_le_div_right (Nat.le_add_right _ _)
    obtain ⟨payloads', hgrown, hiff⟩ := ih (r.appendOutputTokenIds (some hasher) chunk) hsorted _
      (by rw [length_append, length_map, length_range', htokens]; omega) hchain'
    refine ⟨payloads', hgrown, ?_⟩
    rw [growBy, foldl_cons, ← growBy, hiff, exactPayloads_append_iff r chunk payloads hlength,
      htokens, and_assoc]
    rfl

theorem fromEngineCoreRequest_blockHashes (req : EngineCoreRequest F) (r : Request H F)
    (hr : Request.fromEngineCoreRequest (some hasher) req = .ok r) (hsorted : SortedDisjoint req.mmFeatures) :
    r.mmFeatures = req.mmFeatures ∧ r.blockHashes = hasher.exactBlockHashes r := by
  unfold Request.fromEngineCoreRequest at hr
  cases hlen : Request.lengthFromPromptTokenIdsOrEmbeds req.promptTokenIds req.promptEmbeds with
  | error e => simp [hlen, bind, Except.bind] at hr
  | ok numPromptTokens =>
    simp only [hlen, bind, Except.bind, pure, Except.pure, Except.ok.injEq] at hr
    subst hr
    refine ⟨rfl, ?_⟩
    rw [Request.updateBlockHashes, nil_append, requestBlockHasher_of_no_hashes]
    · rfl
    · exact hsorted
    · rfl

theorem growBy_mmFeatures (r : Request H F) : (growBy hasher r chunks).mmFeatures = r.mmFeatures := by
  induction chunks generalizing r with
  | nil => rfl
  | cons chunk rest ih => exact ih (r.appendOutputTokenIds (some hasher) chunk)

/-- Incremental hashing gives every block the keys of exactly the items overlapping it, that is the
result of hashing all tokens at once, if and only if after the first block no item but the last
overlaps a block completed by a later call. -/
theorem incremental_hashing_exact_iff (hcollision : hasher.CollisionFree)
    (req : EngineCoreRequest F) (hsorted : SortedDisjoint req.mmFeatures) (r : Request H F)
    (hr : Request.fromEngineCoreRequest (some hasher) req = .ok r) (chunks : List (List Token)) :
    ((growBy hasher r chunks).blockHashes = hasher.exactBlockHashes (growBy hasher r chunks) ↔
        OnlyLastItemMetBy hasher.blockSize req.mmFeatures r.numTokens chunks) ∧
      hasher.requestBlockHasher { growBy hasher r chunks with blockHashes := [] } =
        hasher.exactBlockHashes (growBy hasher r chunks) := by
  obtain ⟨hmm, hhashes⟩ := fromEngineCoreRequest_blockHashes req r hr hsorted
  rw [← hmm] at hsorted ⊢
  constructor
  · obtain ⟨payloads, hchain, hiff⟩ := growBy_payloads chunks r hsorted (hasher.exactPayloads r)
      (by rw [exactPayloads, length_map, length_range]) hhashes
    rw [hchain, exactBlockHashes]
    constructor
    · intro heq
      exact (hiff.mp (hashChain_injective _ hcollision _ _ _ heq)).2
    · intro hmet
      rw [hiff.mpr ⟨rfl, hmet⟩]
  · rw [requestBlockHasher_of_no_hashes]
    · rfl
    · exact (growBy_mmFeatures chunks r).symm ▸ hsorted
    · rfl

def twoItemsInPartialBlock : EngineCoreRequest ℚ where
  requestId := "mm"
  promptTokenIds := some [0, 1, 2, 3, 4, 5, 6]
  mmFeatures := [⟨"a", 4, 1⟩, ⟨"b", 5, 1⟩]

/-- One generated token completes the partial block, whose hash then misses its first item. -/
theorem incremental_hashing_misses_item : SortedDisjoint twoItemsInPartialBlock.mmFeatures ∧
      ∃ r, Request.fromEngineCoreRequest (some (transcriptHasher 4 (by decide)))
          twoItemsInPartialBlock = .ok r ∧
        (growBy (transcriptHasher 4 (by decide)) r [[7]]).blockHashes ≠
          (transcriptHasher 4 (by decide)).exactBlockHashes
            (growBy (transcriptHasher 4 (by decide)) r [[7]]) := by
  refine ⟨by simp [SortedDisjoint, twoItemsInPartialBlock], _, rfl, by decide⟩

/-- With blocks of eight tokens the generated token completes the first block, and no item is
missed. -/
theorem incremental_hashing_exact_iff_eight_tokens :
    ∃ r, Request.fromEngineCoreRequest (some (transcriptHasher 8 (by decide))) twoItemsInPartialBlock = .ok r ∧
      (growBy (transcriptHasher 8 (by decide)) r [[7]]).blockHashes =
        (transcriptHasher 8 (by decide)).exactBlockHashes
          (growBy (transcriptHasher 8 (by decide)) r [[7]]) := by
  refine ⟨_, rfl, (incremental_hashing_exact_iff (transcriptHasher_collisionFree 8 (by decide))
    twoItemsInPartialBlock (by simp [SortedDisjoint, twoItemsInPartialBlock]) _ rfl [[7]]).1.mpr ?_⟩
  exact ⟨fun hpos => absurd hpos (by decide), trivial⟩

end BlockHasher

end VllmPs
