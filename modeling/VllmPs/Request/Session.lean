import VllmPs.Lib.Transition
import VllmPs.Request.BlockHasher

/-!
# Block hashes of streaming sessions

A session update deletes the tokens past `num_computed_tokens` but keeps the hashes of
their blocks. For text-only requests these stay right exactly when the deleted part of a
hashed block comes back at the front of the update.
-/

namespace VllmPs

open Lib BlockHasher List Option Request

variable {H F : Type}
variable {promptTokenIds : List Token}

namespace Request

/-- `_update_request_as_session` on the request; the scheduler's counter of sessions without input
is kept by the scheduler. -/
def updateRequestAsSession (blockHasher : Option (BlockHasher H)) (session : Request H F)
    (update : StreamingUpdate) : Except PyError (Request H F) :=
  match session.promptTokenIds with
  | none => .error .assertionError
  | some promptTokenIds =>
    let keptTokenIds := session.allTokenIds.take session.numComputedTokens.toNat
    let keptOutputTokens := keptTokenIds.drop session.numPromptTokens
    let updateTokenIds := update.promptTokenIds.getD []
    let mmFeatures := update.mmFeatures.map fun f =>
      { f with offset := f.offset + keptTokenIds.length }
    let promptTokenIds' := promptTokenIds ++ keptOutputTokens ++ updateTokenIds
    let session' := updateBlockHashes blockHasher
      { session with
        outputTokenIds := []
        allTokenIds := keptTokenIds ++ updateTokenIds
        promptTokenIds := some promptTokenIds'
        mmFeatures := session.mmFeatures ++ mmFeatures }
    .ok { session' with
      numPromptTokens := promptTokenIds'.length
      arrivalTime := update.arrivalTime
      samplingParams := update.samplingParams
      status := .waiting }

end Request

inductive TokenOp
  | append (tokenIds : List Token)
  | reset (tokenIds : List Token)
  | session (update : StreamingUpdate)
  | scheduler (numComputedTokens : ℕ) (status : RequestStatus)
deriving DecidableEq

/-- One such call. -/
def tokenStep (hasher : BlockHasher H) (r : Request H F) : TokenOp → Except PyError (Request H F)
  | .append tokenIds => .ok (r.appendOutputTokenIds (some hasher) tokenIds)
  | .reset tokenIds => .ok (r.resetOutputTokenIds (some hasher) tokenIds)
  | .session update => r.updateRequestAsSession (some hasher) update
  | .scheduler numComputedTokens status =>
    .ok { r with numComputedTokens := numComputedTokens, status := status }

/-- A request given by text alone. -/
def EngineCoreRequest.TextOnly (req : EngineCoreRequest F) : Prop :=
  req.promptTokenIds.isSome ∧ req.promptEmbeds = none ∧ req.mmFeatures = []

variable (blockSize : ℕ)

def KeepsHashedTokens (r : Request H F) (update : StreamingUpdate) : Prop :=
  r.numPromptTokens ≤ r.numComputedTokens.toNat ∧
    (r.allTokenIds.take (r.numTokens / blockSize * blockSize)).drop r.numComputedTokens.toNat <+:
      update.promptTokenIds.getD []

/-- A session update brings text only. -/
def TokenOp.TextOnly : TokenOp → Prop
  | .session update => update.mmFeatures = []
  | _ => True

def TokenOp.KeepsHashed (r : Request H F) : TokenOp → Prop
  | .session update => KeepsHashedTokens blockSize r update
  | _ => True

structure HashesOfTokens (hasher : BlockHasher H) (r : Request H F) : Prop where
  count : r.blockHashes.length = r.numTokens / hasher.blockSize
  entry : ∀ i < r.numTokens / hasher.blockSize,
    r.blockHashes[i]? =
      (hasher.requestBlockHasher
        { r with allTokenIds := r.allTokenIds.take ((i + 1) * hasher.blockSize)
                 blockHashes := [] }).getLast?

structure TextInv (hasher : BlockHasher H) (r : Request H F) (promptTokenIds : List Token) :
    Prop where
  prompt : r.promptTokenIds = some promptTokenIds
  numPrompt : r.numPromptTokens = promptTokenIds.length
  all : r.allTokenIds = promptTokenIds ++ r.outputTokenIds
  items : r.mmFeatures = []
  hashes : r.blockHashes = hasher.exactBlockHashes r

variable {hasher : BlockHasher H} {r : Request H F}

theorem exactPayloads_take (n : ℕ) (hn : n ≤ r.numTokens / hasher.blockSize) : hasher.exactPayloads
        { r with allTokenIds := r.allTokenIds.take (n * hasher.blockSize), blockHashes := [] } =
      (hasher.exactPayloads r).take n := by
  set front : Request H F :=
    { r with allTokenIds := r.allTokenIds.take (n * hasher.blockSize), blockHashes := [] } with hfront
  have hlength : front.numTokens = n * hasher.blockSize := by
    rw [numTokens, hfront, length_take]
    exact min_eq_left ((Nat.le_div_iff_mul_le hasher.blockSize_pos).mp hn)
  have hblocks : front.numTokens / hasher.blockSize = n := by
    rw [hlength, Nat.mul_div_cancel _ hasher.blockSize_pos]
  rw [exactPayloads, hblocks, exactPayloads, ← map_take, take_range, min_eq_left hn]
  refine map_congr_left fun k hk => ?_
  refine (payloadWith_append front r (r.allTokenIds.drop (n * hasher.blockSize)) ?_ rfl rfl rfl _ k ?_).symm
  · exact (take_append_drop _ _).symm
  · rw [hblocks]
    exact mem_range.mp hk

theorem prefixHash_eq (hitems : r.mmFeatures = []) (i : ℕ) (hi : i < r.numTokens / hasher.blockSize) :
    (hasher.requestBlockHasher { r with
      allTokenIds := r.allTokenIds.take ((i + 1) * hasher.blockSize), blockHashes := [] }).getLast? =
      (hasher.exactBlockHashes r)[i]? := by
  have hpayloads : i < (hasher.exactPayloads r).length := by
    rwa [exactPayloads, length_map, length_range]
  rw [requestBlockHasher_of_no_hashes, exactBlockHashes,
    exactPayloads_take (i + 1) hi, exactBlockHashes, hashChain_getElem? _ _ _ _ hpayloads,
    hashChain_getLast?]
  · intro hnil
    have := congrArg List.length hnil
    rw [length_take, length_nil] at this
    omega
  · rw [SortedDisjoint, hitems]
    exact List.Pairwise.nil
  · rfl

theorem hashesOfTokens_iff (hitems : r.mmFeatures = []) :
    HashesOfTokens hasher r ↔ r.blockHashes = hasher.exactBlockHashes r := by
  have hlength : (hasher.exactBlockHashes r).length = r.numTokens / hasher.blockSize := by
    rw [exactBlockHashes, hashChain_length, exactPayloads, length_map, length_range]
  constructor
  · rintro ⟨hcount, hentry⟩
    refine ext_getElem? fun i => ?_
    by_cases hi : i < r.numTokens / hasher.blockSize
    · rw [hentry i hi, prefixHash_eq hitems i hi]
    · rw [List.getElem?_eq_none (by omega), List.getElem?_eq_none (by omega)]
  · intro heq
    refine ⟨by rw [heq, hlength], fun i hi => ?_⟩
    rw [heq, prefixHash_eq hitems i hi]

theorem prefix_take_append_iff {α : Type} (front whole added : List α) (n : ℕ) (hfront : front <+: whole) :
    front <+: whole.take n ++ added ↔ front.drop n <+: added := by
  obtain ⟨rest, rfl⟩ := hfront
  rcases Nat.le_total front.length n with hle | hlt
  · have hcut : front <+: (front ++ rest).take n ++ added := by
      rw [take_append, take_of_length_le hle, append_assoc]
      exact prefix_append _ _
    rw [drop_eq_nil_of_le hle]
    exact ⟨fun _ => nil_prefix, fun _ => hcut⟩
  · rw [take_append_of_le_length hlt]
    have hinj : front.take n ++ front.drop n <+: front.take n ++ added ↔ front.drop n <+: added :=
      prefix_append_right_inj (front.take n)
    rwa [take_append_drop] at hinj

/-- Block `k` of a list of tokens. -/
def tokenBlock (tokens : List Token) (k : ℕ) : List Token :=
  (tokens.drop (k * blockSize)).take blockSize

theorem tokenBlock_eq_iff (blockSize n : ℕ) (first second : List Token) :
    (∀ k < n, tokenBlock blockSize first k = tokenBlock blockSize second k) ↔
      first.take (n * blockSize) = second.take (n * blockSize) := by
  constructor
  · intro hblocks
    induction n with
    | zero => simp
    | succ n ih =>
      rw [Nat.succ_mul, take_add, take_add, ih fun k hk => hblocks k (by omega)]
      exact congrArg _ (hblocks n (by omega))
  intro htake k hk
  have hslice (tokens : List Token) : tokenBlock blockSize tokens k =
      ((tokens.take (n * blockSize)).drop (k * blockSize)).take blockSize := by
    have hle : k * blockSize + blockSize ≤ n * blockSize := by
      rw [← Nat.succ_mul]
      exact Nat.mul_le_mul_right _ hk
    rw [drop_take, take_take, min_eq_left (by omega), tokenBlock]
  rw [hslice, hslice, htake]

theorem payloadWith_eq_iff (r' : Request H F) (hlora : r'.loraName = r.loraName)
    (hsalt : r'.cacheSalt = r.cacheSalt) (hembeds : r'.promptEmbeds = r.promptEmbeds) (k : ℕ) :
    hasher.payloadWith r [] k = hasher.payloadWith r' [] k ↔ tokenBlock hasher.blockSize r.allTokenIds k =
        tokenBlock hasher.blockSize r'.allTokenIds k := by
  simp only [payloadWith, extraKeysAround, hlora, hsalt, hembeds, Prod.mk.injEq, and_true, tokenBlock]

/-- The payloads of `r`, followed by those of `r'` for the remaining blocks, are the payloads of `r'`
precisely when `r'` starts with the full blocks of `r`. -/
theorem payloads_kept_iff (r' : Request H F) (hlora : r'.loraName = r.loraName)
    (hsalt : r'.cacheSalt = r.cacheSalt) (hembeds : r'.promptEmbeds = r.promptEmbeds) :
    (List.range (r.numTokens / hasher.blockSize)).map (hasher.payloadWith r []) ++
          (List.range' (r.numTokens / hasher.blockSize)
            (r'.numTokens / hasher.blockSize - r.numTokens / hasher.blockSize)).map
            (hasher.payloadWith r' []) =
        (List.range (r'.numTokens / hasher.blockSize)).map (hasher.payloadWith r' []) ↔
      r.allTokenIds.take (r.numTokens / hasher.blockSize * hasher.blockSize) <+:
        r'.allTokenIds := by
  set n := r.numTokens / hasher.blockSize with hn
  set n' := r'.numTokens / hasher.blockSize with hn'
  have hfull : (r.allTokenIds.take (n * hasher.blockSize)).length = n * hasher.blockSize := by
    rw [length_take]
    exact min_eq_left (Nat.div_mul_le_self _ _)
  have hprefixed : r.allTokenIds.take (n * hasher.blockSize) <+: r'.allTokenIds ↔
      ∀ k < n, hasher.payloadWith r [] k = hasher.payloadWith r' [] k := by
    rw [prefix_iff_eq_take, hfull, ← tokenBlock_eq_iff]
    simp only [payloadWith_eq_iff r' hlora hsalt hembeds]
  constructor
  · intro heq
    have hlength := congrArg List.length heq
    simp only [length_append, length_map, length_range, length_range'] at hlength
    rw [range_eq_append n n' (by omega), map_append] at heq
    have hfirst := append_cancel_right heq
    rw [map_inj_left] at hfirst
    exact hprefixed.mpr fun k hk => hfirst k (mem_range.mpr hk)
  intro hpre
  have hle : n ≤ n' := by
    have hlen := hpre.length_le
    rw [hfull] at hlen
    exact (Nat.le_div_iff_mul_le hasher.blockSize_pos).mpr hlen
  rw [range_eq_append n n' hle, map_append]
  congr 1
  exact map_congr_left fun k hk => hprefixed.mp hpre k (mem_range.mp hk)

/-- Keeping the hashes of `r` while its tokens become those of `r'` is exact when `r'` starts with the hashed
tokens of `r`, and without collisions only then. -/
theorem blockHashes_kept (hitems : r.mmFeatures = [])
    (hhashes : r.blockHashes = hasher.exactBlockHashes r) (r' : Request H F)
    (hkept : r'.blockHashes = r.blockHashes) (hitems' : r'.mmFeatures = [])
    (hlora : r'.loraName = r.loraName) (hsalt : r'.cacheSalt = r.cacheSalt)
    (hembeds : r'.promptEmbeds = r.promptEmbeds) :
    (r.allTokenIds.take (r.numTokens / hasher.blockSize * hasher.blockSize) <+: r'.allTokenIds →
      (r'.updateBlockHashes (some hasher)).blockHashes =
        hasher.exactBlockHashes (r'.updateBlockHashes (some hasher))) ∧
    (hasher.CollisionFree → (r'.updateBlockHashes (some hasher)).blockHashes =
        hasher.exactBlockHashes (r'.updateBlockHashes (some hasher)) →
      r.allTokenIds.take (r.numTokens / hasher.blockSize * hasher.blockSize) <+: r'.allTokenIds) := by
  have hexact : hasher.exactBlockHashes (r'.updateBlockHashes (some hasher)) =
      hashChain hasher.chainStep hasher.noneHash
        ((List.range (r'.numTokens / hasher.blockSize)).map (hasher.payloadWith r' [])) := by
    rw [← hitems']
    rfl
  have hpayloads : hasher.exactPayloads r =
      (List.range (r.numTokens / hasher.blockSize)).map (hasher.payloadWith r []) := by
    rw [exactPayloads, hitems]
  have hlength : r'.blockHashes.length = r.numTokens / hasher.blockSize := by
    rw [hkept, hhashes, exactBlockHashes, hashChain_length, hpayloads, length_map, length_range]
  have hchain : (r'.updateBlockHashes (some hasher)).blockHashes = hashChain hasher.chainStep hasher.noneHash
        ((List.range (r.numTokens / hasher.blockSize)).map (hasher.payloadWith r []) ++
          (List.range' (r.numTokens / hasher.blockSize)
            (r'.numTokens / hasher.blockSize - r.numTokens / hasher.blockSize)).map
            (hasher.payloadWith r' [])) := by
    rw [updateBlockHashes, hashChain_append, ← hashChain_getLast?_getD, ← hpayloads,
      ← exactBlockHashes, ← hhashes, ← hkept,
      requestBlockHasher_eq hasher r' (by rw [hitems']; exact List.Pairwise.nil),
      hlength, hitems', itemsFrom, drop_nil, ite_self]
  rw [← payloads_kept_iff r' hlora hsalt hembeds, hchain, hexact]
  exact ⟨fun heq => congrArg _ heq, fun hcollision heq => hashChain_injective _ hcollision _ _ _ heq⟩

theorem TextInv.of_new {req : EngineCoreRequest F} (htext : req.TextOnly)
    (hr : Request.fromEngineCoreRequest (some hasher) req = .ok r) :
    ∃ promptTokenIds, TextInv hasher r promptTokenIds := by
  obtain ⟨hprompt, hembeds, hitems⟩ := htext
  obtain ⟨promptTokenIds, hprompt⟩ := Option.isSome_iff_exists.mp hprompt
  obtain ⟨-, hhashes⟩ := fromEngineCoreRequest_blockHashes req r hr (by rw [hitems]; exact List.Pairwise.nil)
  simp only [fromEngineCoreRequest, lengthFromPromptTokenIdsOrEmbeds, hprompt,
    hembeds, bind, Except.bind, pure, Except.pure, Except.ok.injEq] at hr
  subst hr
  exact ⟨promptTokenIds, rfl, rfl, (append_nil _).symm, hitems, hhashes⟩

theorem TextInv.append
    (hinv : TextInv hasher r promptTokenIds) (tokenIds : List Token) :
    TextInv hasher (r.appendOutputTokenIds (some hasher) tokenIds) promptTokenIds where
  prompt := hinv.prompt
  numPrompt := hinv.numPrompt
  all := by
    change r.allTokenIds ++ tokenIds = promptTokenIds ++ (r.outputTokenIds ++ tokenIds)
    rw [hinv.all, append_assoc]
  items := hinv.items
  hashes := (blockHashes_kept hinv.items hinv.hashes
    { r with outputTokenIds := r.outputTokenIds ++ tokenIds, allTokenIds := r.allTokenIds ++ tokenIds }
    rfl hinv.items rfl rfl rfl).1 (( take_prefix _ _).trans (prefix_append _ _))

theorem TextInv.reset (hinv : TextInv hasher r promptTokenIds) (tokenIds : List Token) :
    TextInv hasher (r.resetOutputTokenIds (some hasher) tokenIds) promptTokenIds where
  prompt := hinv.prompt
  numPrompt := hinv.numPrompt
  all := by
    change promptView r.promptTokenIds r.numPromptTokens ++ tokenIds = promptTokenIds ++ tokenIds
    rw [hinv.prompt, promptView, getD_some]
  items := hinv.items
  hashes := by
    have hsorted : SortedDisjoint r.mmFeatures := by
      rw [hinv.items]
      exact List.Pairwise.nil
    exact requestBlockHasher_of_no_hashes hasher { r with
        outputTokenIds := tokenIds
        allTokenIds := promptView r.promptTokenIds r.numPromptTokens ++ tokenIds
        blockHashes := [] } hsorted rfl

theorem prompt_append_kept_iff (promptTokenIds outputTokenIds : List Token) (numComputed : ℕ) :
    promptTokenIds ++ ((promptTokenIds ++ outputTokenIds).take numComputed).drop
          promptTokenIds.length = (promptTokenIds ++ outputTokenIds).take numComputed ↔
      promptTokenIds.length ≤ numComputed := by
  rcases Nat.lt_or_ge numComputed promptTokenIds.length with hlt | hge
  · rw [take_append_of_le_length (by omega),
      drop_eq_nil_of_le (by rw [length_take]; omega), append_nil]
    constructor
    · intro heq
      have := congrArg List.length heq
      rw [length_take] at this
      omega
    · omega
  · rw [take_append, take_of_length_le hge, drop_left']
    · exact ⟨fun _ => hge, fun _ => rfl⟩
    · rfl

/-- A session update that keeps the hashed tokens leaves right hashes and the tokens of the new prompt. Without
collisions no other update does. -/
theorem session_exact (hinv : TextInv hasher r promptTokenIds) {update : StreamingUpdate}
    (htext : update.mmFeatures = []) {r' : Request H F}
    (hstep : r.updateRequestAsSession (some hasher) update = .ok r') :
    (KeepsHashedTokens hasher.blockSize r update →
        r'.promptTokenIds = some r'.allTokenIds ∧ ∃ prompt', TextInv hasher r' prompt') ∧
      (hasher.CollisionFree → HashesOfTokens hasher r' ∧ r'.promptTokenIds = some r'.allTokenIds →
        KeepsHashedTokens hasher.blockSize r update) := by
  have hbase : update.mmFeatures.map (fun f =>
      { f with offset := f.offset + (r.allTokenIds.take r.numComputedTokens.toNat).length }) = [] := by
    rw [htext, map_nil]
  simp only [updateRequestAsSession, hinv.prompt, Except.ok.injEq, hbase, append_nil] at hstep
  have hall : r'.allTokenIds = r.allTokenIds.take r.numComputedTokens.toNat ++
      update.promptTokenIds.getD [] := by rw [← hstep]; rfl
  have hprompt : r'.promptTokenIds = some (promptTokenIds ++
      (r.allTokenIds.take r.numComputedTokens.toNat).drop r.numPromptTokens ++
      update.promptTokenIds.getD []) := by rw [← hstep]; rfl
  have hitems : r'.mmFeatures = [] := by rw [← hstep]; exact hinv.items
  have hkept := blockHashes_kept hinv.items hinv.hashes { r with
      outputTokenIds := []
      allTokenIds := r.allTokenIds.take r.numComputedTokens.toNat ++ update.promptTokenIds.getD []
      promptTokenIds := some (promptTokenIds ++
        (r.allTokenIds.take r.numComputedTokens.toNat).drop r.numPromptTokens ++
        update.promptTokenIds.getD []) }
    rfl hinv.items rfl rfl rfl
  have hexact : HashesOfTokens hasher r' ↔ r'.blockHashes = hasher.exactBlockHashes r' := hashesOfTokens_iff hitems
  rw [ prefix_take_append_iff _ r.allTokenIds _ _ ( take_prefix _ _)] at hkept
  have htokens : r'.promptTokenIds = some r'.allTokenIds ↔ r.numPromptTokens ≤ r.numComputedTokens.toNat := by
    rw [hprompt, hall, some_inj, append_cancel_right_eq, hinv.all, hinv.numPrompt,
      prompt_append_kept_iff]
  refine ⟨fun hok => ⟨htokens.mpr hok.1, r'.allTokenIds, htokens.mpr hok.1, ?_, ?_, hitems, ?_⟩,
    fun hcollision hright => ⟨htokens.mp hright.2, hkept.2 hcollision ?_⟩⟩
  · have hnum : some r'.numPromptTokens = r'.promptTokenIds.map List.length := by rw [← hstep]; rfl
    rw [htokens.mpr hok.1, map_some, some_inj] at hnum
    exact hnum
  · have hout : r'.outputTokenIds = [] := by rw [← hstep]; rfl
    rw [hout, append_nil]
  · rw [← hstep]
    exact hkept.1 hok.2
  · have hhashes := hexact.mp hright.1
    rw [← hstep] at hhashes
    exact hhashes

def ReachableText (hasher : BlockHasher H) : Request H F → Prop :=
  Reachable
    (fun r => ∃ req : EngineCoreRequest F,
      req.TextOnly ∧ Request.fromEngineCoreRequest (some hasher) req = .ok r)
    (fun r op => op.TextOnly ∧ op.KeepsHashed hasher.blockSize r) (tokenStep hasher)

theorem TextInv.of_reachable (hr : ReachableText hasher r) :
    ∃ promptTokenIds, TextInv hasher r promptTokenIds := by
  refine Reachable.invariant (P := fun r => ∃ promptTokenIds, TextInv hasher r promptTokenIds)
    (fun r ⟨_, htext, hnew⟩ => TextInv.of_new htext hnew) ?_ hr
  rintro r op r' ⟨promptTokenIds, hinv⟩ ⟨htext, hkeeps⟩ hstep
  cases op with
  | append tokenIds =>
    cases hstep
    exact ⟨promptTokenIds, hinv.append tokenIds⟩
  | reset tokenIds =>
    cases hstep
    exact ⟨promptTokenIds, hinv.reset tokenIds⟩
  | session update => exact ((session_exact hinv htext hstep).1 hkeeps).2
  | scheduler numComputedTokens status =>
    cases hstep
    exact ⟨promptTokenIds, { hinv with }⟩

/-- In every run whose session updates keep the hashed tokens, the block hashes are those of the current tokens,
and a further session update that keeps the hashed tokens leaves such hashes and tokens equal to the new prompt.
Without collisions no other update does. -/
theorem blockHashes_of_current_tokens (hr : ReachableText hasher r) :
    HashesOfTokens hasher r ∧ ∀ (update : StreamingUpdate) (r' : Request H F), update.mmFeatures = [] →
        r.updateRequestAsSession (some hasher) update = .ok r' →
          (KeepsHashedTokens hasher.blockSize r update →
            HashesOfTokens hasher r' ∧ r'.promptTokenIds = some r'.allTokenIds) ∧
          (hasher.CollisionFree → HashesOfTokens hasher r' ∧ r'.promptTokenIds = some r'.allTokenIds →
            KeepsHashedTokens hasher.blockSize r update) := by
  obtain ⟨promptTokenIds, hinv⟩ := TextInv.of_reachable hr
  refine ⟨(hashesOfTokens_iff hinv.items).mpr hinv.hashes, fun update r' htext hstep => ⟨fun hkeeps => ?_, ?_⟩⟩
  · obtain ⟨hprompt, _, hinv'⟩ := (session_exact hinv htext hstep).1 hkeeps
    exact ⟨(hashesOfTokens_iff hinv'.items).mpr hinv'.hashes, hprompt⟩
  · exact (session_exact hinv htext hstep).2

/-- A session of three prompt tokens. -/
def threeTokenSession : EngineCoreRequest ℚ where
  requestId := "session"
  promptTokenIds := some [1, 2, 3]
  resumable := true

/-- The last sampled token completes a block and is then discarded by the update, whose first token
takes its place under the old hash. -/
def stopAtBlockEnd : List TokenOp :=
  [.scheduler 3 .running, .append [4], .session { promptTokenIds := some [9] }]

def updateWhilePreempted : List TokenOp :=
  [.scheduler 0 .preempted, .session { promptTokenIds := some [9] }]

/-- Both runs leave the session with wrong hashes or tokens. -/
theorem session_update_breaks_hashes :
    (∃ r r', Request.fromEngineCoreRequest (some (BlockHasher.transcriptHasher 4 (by decide)))
          threeTokenSession = .ok r ∧
        run (tokenStep (BlockHasher.transcriptHasher 4 (by decide))) r stopAtBlockEnd = .ok r' ∧
        r'.allTokenIds = [1, 2, 3, 9] ∧
        ¬ HashesOfTokens (BlockHasher.transcriptHasher 4 (by decide)) r') ∧
      ∃ r r', Request.fromEngineCoreRequest (some (BlockHasher.transcriptHasher 4 (by decide)))
          threeTokenSession = .ok r ∧
        run (tokenStep (BlockHasher.transcriptHasher 4 (by decide))) r updateWhilePreempted = .ok r' ∧
        r'.allTokenIds = [9] ∧ r'.promptTokenIds = some [1, 2, 3, 9] := by
  refine ⟨⟨_, _, rfl, rfl, by decide, fun hhashes => ?_⟩, _, _, rfl, rfl, by decide, by decide⟩
  exact absurd (hhashes.entry 0 (by decide)) (by decide)

/-- A session that stops in the middle of a block and is then updated has the right hashes. -/
theorem blockHashes_of_current_tokens_mid_block :
    ∃ r : Request _ ℚ, ReachableText (BlockHasher.transcriptHasher 2 (by decide)) r ∧
      r.allTokenIds = [1, 2, 3, 4, 9] ∧
      HashesOfTokens (BlockHasher.transcriptHasher 2 (by decide)) r := by
  have hreach : ∃ r : Request _ ℚ, ReachableText (transcriptHasher 2 (by decide)) r ∧
      r.allTokenIds = [1, 2, 3, 4, 9] := by
    refine ⟨_, .next (a := .session { promptTokenIds := some [9] })
      (.next (a := .append [5]) (.next (a := .scheduler 4 .running) (.next (a := .append [4])
        (.start ⟨threeTokenSession, ⟨rfl, rfl, rfl⟩, rfl⟩) ⟨trivial, trivial⟩ rfl)
        ⟨trivial, trivial⟩ rfl) ⟨trivial, trivial⟩ rfl)
      ⟨rfl, by decide, by decide⟩ rfl, by decide⟩
  obtain ⟨r, hr, htokens⟩ := hreach
  exact ⟨r, hr, htokens, (blockHashes_of_current_tokens hr).1⟩

end VllmPs
