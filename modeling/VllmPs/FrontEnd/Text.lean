import VllmPs.Sched.State

/-!
# Detokenizers and logprobs processors

The detokenizer appends the new tokens of a request to its own list, decodes them and
searches the text for stop strings; the logprobs processor collects one entry for each
position. The tokenizer is a parameter.
-/

namespace VllmPs

open List

variable {D F : Type}

abbrev Text := List Char

/-- What the modelled code asks of a tokenizer: an incremental decoder and plain decoding. -/
structure TokenizerLike (D : Type) where
  /-- The decoder primed with a prompt. -/
  start : List Token → D
  decodeNext : D → Token → Text × D
  decode : List Token → Text
  /-- The text of an alternative token after the sampled tokens before it. -/
  decodeAlternative : List Token → Token → Text

/-- The first occurrence of a pattern at or after a position. -/
def findFrom (text pattern : Text) (start : ℕ) : Option ℕ :=
  (List.range (text.length + 1)).find? fun i => decide (start ≤ i) && pattern.isPrefixOf (text.drop i)

/-- The loop of `check_stop_strings`: the string found, and the length to cut the text to. -/
def checkStopStrings (outputText : Text) (newCharCount : ℕ) (stop : List Text)
    (includeInOutput : Bool) : Option (Text × Option ℕ) :=
  if newCharCount = 0 then none
  else stop.findSome? fun stopStr =>
    -- a negative start counts from the end, zero is the beginning
    let back := newCharCount + stopStr.length - 1
    let start := if back = 0 then 0 else outputText.length - back
    (findFrom outputText stopStr start).map fun stopIndex =>
      if includeInOutput then
        let stopIndex := stopIndex + stopStr.length
        if outputText.length ≤ stopIndex then (stopStr, none) else (stopStr, some stopIndex)
      else (stopStr, some stopIndex)

structure IncrementalDetokenizer (D : Type) where
  tokenIds : List Token := []
  /-- The decoder, absent without a tokenizer. -/
  stream : Option D
  stop : List Text := []
  minTokens : ℕ := 0
  includeStopStrInOutput : Bool := false
  lastOutputTextOffset : ℕ := 0
  outputText : Text := []
deriving DecidableEq

namespace IncrementalDetokenizer

variable (tokenizer : TokenizerLike D)

/-- Decode one token. The offset is where the search for stop strings begins. -/
def decodeToken (state : IncrementalDetokenizer D × ℕ) (tokenId : Token) : IncrementalDetokenizer D × ℕ :=
  let d := state.1
  let decoded := d.stream.map fun stream => tokenizer.decodeNext stream tokenId
  let d := { d with
    tokenIds := d.tokenIds ++ [tokenId]
    outputText := d.outputText ++ (decoded.map (·.1)).getD []
    stream := decoded.map (·.2) }
  (d, if d.minTokens ≠ 0 ∧ d.tokenIds.length ≤ d.minTokens then d.outputText.length else state.2)

variable (d : IncrementalDetokenizer D)

def evaluateStop (stopCheckOffset : ℕ) : IncrementalDetokenizer D × Option Text :=
  if d.stop = [] ∨ d.tokenIds.length ≤ d.minTokens then (d, none)
  else
    match checkStopStrings d.outputText (d.outputText.length - stopCheckOffset) d.stop
      d.includeStopStrInOutput with
    | none => (d, none)
    | some (stopString, none) => (d, some stopString)
    | some (stopString, some truncateTo) =>
      ({ d with outputText := d.outputText.take truncateTo }, some stopString)

/-- `update`: without a tokenizer the tokens are only collected. -/
def update (newTokenIds : List Token) (stopTerminated : Bool) : IncrementalDetokenizer D × Option Text :=
  if d.stream.isNone then ({ d with tokenIds := d.tokenIds ++ newTokenIds }, none)
  else if newTokenIds = [] then (d, none)
  else
    -- the token that terminates the request is kept but not decoded
    let skipsLast := stopTerminated && !d.includeStopStrInOutput
    let decoded := if skipsLast then newTokenIds.dropLast else newTokenIds
    let state := decoded.foldl (decodeToken tokenizer) (d, d.outputText.length)
    let skipped := newTokenIds.drop decoded.length
    { state.1 with tokenIds := state.1.tokenIds ++ skipped }.evaluateStop state.2

/-- `get_next_output_text` -/
def getNextOutputText (finished delta : Bool) : IncrementalDetokenizer D × Text :=
  let stopBufferLength :=
    if d.stop ≠ [] ∧ d.includeStopStrInOutput = false then (d.stop.map List.length).foldl max 0 - 1 else 0
  let length := d.outputText.length - if finished then 0 else stopBufferLength
  if d.stream.isNone then (d, [])
  else if !delta then (d, d.outputText.take length)
  else if d.lastOutputTextOffset < length then
    ({ d with lastOutputTextOffset := length },
      (d.outputText.take length).drop d.lastOutputTextOffset)
  else (d, [])

/-- `decode_output_token_ids` -/
def decodeOutputTokenIds (tokenIds : List Token) : Text :=
  if d.stream.isNone ∨ tokenIds = [] then [] else tokenizer.decode tokenIds

variable (tokenizer : TokenizerLike D)

@[simp] theorem decodeToken_tokenIds (state : IncrementalDetokenizer D × ℕ) (tokenId : Token) :
    (decodeToken tokenizer state tokenId).1.tokenIds = state.1.tokenIds ++ [tokenId] := rfl

theorem foldl_decodeToken_tokenIds (tokens : List Token) (state : IncrementalDetokenizer D × ℕ) :
    (tokens.foldl (decodeToken tokenizer) state).1.tokenIds = state.1.tokenIds ++ tokens := by
  induction tokens generalizing state with
  | nil => exact (append_nil _).symm
  | cons token rest ih =>
    rw [foldl_cons, ih, decodeToken_tokenIds, append_assoc, singleton_append]

variable (d : IncrementalDetokenizer D)

theorem evaluateStop_tokenIds (offset : ℕ) : (d.evaluateStop offset).1.tokenIds = d.tokenIds := by
  unfold evaluateStop
  split_ifs
  · rfl
  · split <;> rfl

theorem update_tokenIds (newTokenIds : List Token) (stopTerminated : Bool) :
    (d.update tokenizer newTokenIds stopTerminated).1.tokenIds = d.tokenIds ++ newTokenIds := by
  unfold update
  split_ifs with hstream hnil
  · rfl
  · rw [hnil, append_nil]
  rw [evaluateStop_tokenIds, foldl_decodeToken_tokenIds, append_assoc]
  split_ifs
  · rw [length_dropLast, dropLast_eq_take, take_append_drop]
  · rw [drop_length, append_nil]

theorem getNextOutputText_tokenIds (finished delta : Bool) :
    (d.getNextOutputText finished delta).1.tokenIds = d.tokenIds := by
  unfold getNextOutputText
  dsimp only
  split_ifs <;> rfl

end IncrementalDetokenizer

/-! ## Logprobs -/

/-- The logprobs of one position as the engine sends them, the sampled token first. -/
structure LogprobRow (F : Type) where
  tokenIds : List Token
  logprobs : List F
  rank : ℕ
deriving DecidableEq

structure Logprob (F : Type) where
  tokenId : Token
  logprob : F
  rank : ℕ
  decodedToken : Option Text
deriving DecidableEq

/-- The entries of one position, the sampled token first. -/
abbrev PositionLogprobs (F : Type) := List (Logprob F)

structure LogprobsProcessor (F : Type) where
  /-- `tokenizer is not None` -/
  hasTokenizer : Bool := true
  logprobs : Option (List (PositionLogprobs F)) := none
  promptLogprobs : Option (List (PositionLogprobs F)) := none
  cumulativeLogprob : Option F := none
  numLogprobs : Option ℤ := none
  numPromptLogprobs : Option ℤ := none
deriving DecidableEq

namespace LogprobsProcessor

/-- The tokens that the entries describe. -/
def describedTokens (positions : List (PositionLogprobs F)) : List Token :=
  positions.filterMap fun entries => entries.head?.map (·.tokenId)

/-- `append_logprobs_for_next_position`: the entries of the next position. -/
def nextPosition (tokenizer : TokenizerLike D) (hasTokenizer : Bool)
    (positions : List (PositionLogprobs F)) (row : LogprobRow F) (numLogprobs : ℤ) :
    PositionLogprobs F :=
  let count := if numLogprobs = -1 then row.logprobs.length else numLogprobs.toNat
  let ranks := row.rank :: (List.range count).map (· + 1)
  let context := describedTokens (positions.drop (positions.length - 4))
  ((row.tokenIds.zip row.logprobs).zip ranks).map fun entry =>
    ⟨entry.1.1, entry.1.2, entry.2,
      if hasTokenizer then some (tokenizer.decodeAlternative context entry.1.1) else none⟩

variable [Add F]
variable (tokenizer : TokenizerLike D)
variable (p : LogprobsProcessor F)

/-- One row of `_update_sample_logprobs`. -/
def updateSampleLogprob (row : LogprobRow F) : Except PyError (LogprobsProcessor F) :=
  match p.logprobs, p.cumulativeLogprob, p.numLogprobs with
  | some positions, some cumulative, some numLogprobs =>
    match row.logprobs with
    | [] => .error .indexError
    | sampled :: _ => .ok { p with
        cumulativeLogprob := some (cumulative + sampled)
        logprobs := some (positions ++ [nextPosition tokenizer p.hasTokenizer positions row numLogprobs]) }
  | _, _, _ => .error .assertionError

omit [Add F] in
/-- One row of `_update_prompt_logprobs`. -/
def updatePromptLogprob (row : LogprobRow F) : Except PyError (LogprobsProcessor F) :=
  match p.promptLogprobs, p.numPromptLogprobs with
  | some positions, some numLogprobs => .ok { p with
      promptLogprobs :=
        some (positions ++ [nextPosition tokenizer p.hasTokenizer positions row numLogprobs]) }
  | _, _ => .error .assertionError

/-- `_update_sample_logprobs`, if there are any. -/
def updateSampleLogprobs : Option (List (LogprobRow F)) → Except PyError (LogprobsProcessor F)
  | none => .ok p
  | some rows =>
    if p.numLogprobs.isNone ∨ p.logprobs.isNone ∨ p.cumulativeLogprob.isNone then .error .assertionError
    else rows.foldlM (updateSampleLogprob tokenizer) p

omit [Add F] in
/-- `_update_prompt_logprobs`, if there are any. -/
def updatePromptLogprobs : Option (List (LogprobRow F)) → Except PyError (LogprobsProcessor F)
  | none => .ok p
  | some rows =>
    if p.numPromptLogprobs.isNone ∨ p.promptLogprobs.isNone then .error .assertionError
    else rows.foldlM (updatePromptLogprob tokenizer) p

/-- `update_from_output` -/
def updateFromOutput (newLogprobs newPromptLogprobs : Option (List (LogprobRow F))) :
    Except PyError (LogprobsProcessor F) := do
  let p ← p.updateSampleLogprobs tokenizer newLogprobs
  p.updatePromptLogprobs tokenizer newPromptLogprobs

omit [Add F] in
/-- `pop_prompt_logprobs` -/
def popPromptLogprobs : LogprobsProcessor F × Option (List (PositionLogprobs F)) :=
  match p.promptLogprobs with
  | some (entry :: rest) => ({ p with promptLogprobs := some [] }, some (entry :: rest))
  | other => (p, other)

end LogprobsProcessor

end VllmPs
