import VllmPs.Request.BlockHasher

/-!
# Appending outputs and checking for a stop

`check_stop` and the loop of `_update_request_with_output` that appends the sampled tokens one
by one until one of them stops the request.
-/

namespace VllmPs

variable {H F : Type}

/-- `_has_repeating_pattern`: the last tokens repeat the ones before them. -/
def hasRepeatingPattern (tokenIds : List Token) (patternLen repetitionMinCount : ℕ) : Bool :=
  (List.range patternLen).all fun n =>
    (List.range' 1 (repetitionMinCount - 1)).all fun m =>
      decide (tokenIds.reverse[patternLen * m + n]? = tokenIds.reverse[n]?)

/-- The loop of `check_sequence_repetition` over the pattern lengths. -/
def repetitionLoop (tokenIds : List Token) (minCount : ℕ) : List ℕ → Bool
  | [] => false
  | patternLen :: rest =>
    if tokenIds.length < patternLen * minCount then false
    else if hasRepeatingPattern tokenIds patternLen minCount then true
    else repetitionLoop tokenIds minCount rest

/-- `check_sequence_repetition` -/
def checkSequenceRepetition (tokenIds : List Token) (params : RepetitionDetectionParams) : Bool :=
  let minPatternSize := if params.minPatternSize ≤ 0 then 1 else params.minPatternSize
  if params.maxPatternSize ≤ 0 ∨ params.minCount < 2 ∨ params.maxPatternSize < minPatternSize then false
  else
    repetitionLoop tokenIds params.minCount.toNat
      (List.range' minPatternSize.toNat (params.maxPatternSize - minPatternSize + 1).toNat)

namespace Request

/-- `check_stop`: the request after it, and whether it stops. -/
def checkStop (r : Request H F) (maxModelLen : ℕ) : Except PyError (Request H F × Bool) :=
  if r.pooling then .error .assertionError
  else if r.numOutputTokens < r.samplingParams.minTokens then .ok (r, false)
  else
    match r.outputTokenIds.getLast? with
    | none => .error .indexError
    | some lastTokenId =>
      if r.samplingParams.eosTokenId = some lastTokenId then
        .ok ({ r with status := .finishedStopped }, true)
      else if lastTokenId ∈ r.samplingParams.stopTokenIds then
        .ok ({ r with status := .finishedStopped, stopReason := some (.tokenId lastTokenId) }, true)
      else if maxModelLen ≤ r.numTokens ∨ r.maxTokens ≤ r.numOutputTokens then
        .ok ({ r with status := .finishedLengthCapped }, true)
      else if r.samplingParams.repetitionDetection.any (checkSequenceRepetition r.outputTokenIds) then
        .ok ({ r with status := .finishedRepetition, stopReason := some .repetitionDetected }, true)
      else .ok (r, false)

/-- `Scheduler._update_request_with_output`: the request, the tokens that were kept and whether the
last of them stops the request. -/
def updateWithOutput (blockHasher : Option (BlockHasher H)) (maxModelLen : ℕ) :
    Request H F → List Token → Except PyError (Request H F × List Token × Bool)
  | r, [] => .ok (r, [], false)
  | r, outputTokenId :: rest => do
    let checked ← (r.appendOutputTokenIds blockHasher [outputTokenId]).checkStop maxModelLen
    if checked.2 then return (checked.1, [outputTokenId], true)
    let others ← updateWithOutput blockHasher maxModelLen checked.1 rest
    return (others.1, outputTokenId :: others.2.1, others.2.2)

end Request

end VllmPs
