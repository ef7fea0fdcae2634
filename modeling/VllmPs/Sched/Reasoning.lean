import VllmPs.Sched.Outputs

/-!
# The end of reasoning

The grammar of a request is not applied while the request reasons. `should_advance` looks for the end token in a
part of the tokens that holds the last token of the step and none of its accepted draft tokens, so reasoning that
ends with the last token of a step is noticed. Below is what the scheduler does to one request; scheduled tokens,
blocks found and sampled tokens are arguments.
-/

namespace VllmPs

open Lib Scheduler

variable {H F : Type}

/-! ## The structured output manager -/

/-- `BaseThinkingReasoningParser` -/
structure ReasoningParser where
  startTokenId : Token
  endTokenId : Token
deriving DecidableEq

namespace ReasoningParser

/-- `is_reasoning_end`: the last of the two tokens is the end token. -/
def isReasoningEnd (parser : ReasoningParser) (inputIds : List Token) : Bool :=
  match inputIds.reverse.find? fun id => id = parser.startTokenId || id = parser.endTokenId with
  | some id => id ≠ parser.startTokenId
  | none => false

/-- `is_reasoning_end_streaming` -/
def isReasoningEndStreaming (parser : ReasoningParser) (deltaIds : List Token) : Bool :=
  decide (parser.endTokenId ∈ deltaIds)

end ReasoningParser

/-- The settings that `StructuredOutputManager` reads. -/
structure StructuredOutputManager where
  reasoner : Option ReasoningParser
  enableInReasoning : Bool := false
  /-- `speculative_config is not None` -/
  hasSpeculativeConfig : Bool := false
deriving DecidableEq

/-- A request with its outstanding steps, each with its scheduled draft tokens, the oldest first. The tokens
that outputs have appended are a history. -/
structure ReasoningState (H F : Type) where
  request : Request H F
  /-- `structured_output_request.reasoning_ended` -/
  reasoningEnded : Option Bool := none
  /-- The key of the structured output is `STRUCTURAL_TAG`. -/
  structuralTag : Bool := false
  frames : List (List Token) := []
  appended : List Token := []

namespace Request

/-- Where the tokens of this step start for `should_advance`. -/
def deltaStart (r : Request H F) : ℕ :=
  let deltaFrom := r.numComputedTokens - r.numOutputPlaceholders
  if 0 ≤ deltaFrom then deltaFrom.toNat else (max (r.numTokens + deltaFrom) 0).toNat

def scheduledDrafts (r : Request H F) (numNewTokens : ℤ) : List Token :=
  let numScheduledSpecTokens := numNewTokens + r.numComputedTokens - r.numTokens - r.numOutputPlaceholders
  if r.specTokenIds ≠ [] ∧ numScheduledSpecTokens > 0 then r.specTokenIds.take numScheduledSpecTokens.toNat
  else []

/-- `_update_after_schedule` on one request. -/
def advance (config : SchedulerConfig) (currentStep : ℕ) (drafts : List Token) (numScheduledToken : ℤ)
    (r : Request H F) : Request H F :=
  let numComputedTokens := r.numComputedTokens + numScheduledToken
  let r := { r with
    numComputedTokens := numComputedTokens
    isPrefillChunk := decide (numComputedTokens < r.numTokens + r.numOutputPlaceholders) }
  if config.asyncScheduling && !r.isPrefillChunk then
    { r with
      numOutputPlaceholders := r.numOutputPlaceholders + 1 + drafts.length
      specTokenIds := List.replicate config.numSpecTokens (-1)
      nextDecodeEligibleStep :=
        if config.useV2ModelRunner then currentStep + config.ppSize else r.nextDecodeEligibleStep }
  else r

end Request

namespace ReasoningState

variable (manager : StructuredOutputManager) (config : SchedulerConfig) (blockHasher : Option (BlockHasher H))
variable (s : ReasoningState H F)

/-- `should_advance` -/
def shouldAdvance : Bool × ReasoningState H F :=
  if s.request.useStructuredOutput = false then (false, s)
  else
    match manager.reasoner with
    | none => (true, s)
    | some reasoner =>
      if manager.enableInReasoning then (true, s)
      else if s.reasoningEnded = some true then (true, s)
      else if reasoner.isReasoningEndStreaming (s.request.allTokenIds.drop s.request.deltaStart) then
        (manager.hasSpeculativeConfig && s.structuralTag, { s with reasoningEnded := some true })
      else (false, s)

/-- `should_fill_bitmask` -/
def shouldFillBitmask : Bool × ReasoningState H F :=
  match manager.reasoner with
  | none => (true, s)
  | some reasoner =>
    if manager.enableInReasoning then (true, s)
    else
      match s.reasoningEnded with
      | some ended => (ended, s)
      | none =>
        let ended := reasoner.isReasoningEnd (s.request.promptTokenIds.getD [])
        (ended, { s with reasoningEnded := some ended })

/-- The request after a change. -/
def modify (f : Request H F → Request H F) : ReasoningState H F :=
  { s with request := f s.request }

variable (currentStep : ℕ)

/-- Enter the request into a step. -/
def enterStep (drafts : List Token) (numNewTokens : ℤ) (s : ReasoningState H F) : ReasoningState H F :=
  { s.modify (·.advance config currentStep drafts numNewTokens) with frames := s.frames ++ [drafts] }

/-- Schedule tokens of the running request. -/
def schedule (numNewTokens : ℤ) (s : ReasoningState H F) : Except PyError (ReasoningState H F) := do
  let r := s.request
  require (r.status = .running ∧
    numNewTokens ≤ r.numTokensWithSpec + r.numOutputPlaceholders - r.numComputedTokens) .assertionError
  return (s.modify fun r => { r with specTokenIds := [] }).enterStep config currentStep
    (r.scheduledDrafts numNewTokens) numNewTokens

def admitWaiting (numComputedTokens numNewTokens : ℤ) (s : ReasoningState H F) :
    Except PyError (ReasoningState H F) := do
  require ((s.request.status = .waiting ∨ s.request.status = .preempted) ∧
    numNewTokens ≤ s.request.numTokens - numComputedTokens) .assertionError
  return (s.modify (·.moveTo .running numComputedTokens)).enterStep config currentStep [] numNewTokens

def updateFromOutput (output : RequestOutput F) (s : ReasoningState H F) :
    Except PyError (ReasoningState H F) :=
  match s.frames with
  | [] => .error .indexError
  | drafts :: frames =>
    if s.request.isFinished then .ok { s with frames := frames }
    else do
      let received ← (rejectDraftTokens drafts output.sampledTokenIds s.request).receiveOutput config blockHasher
        output
      let s := { s with request := received.1, frames := frames, appended := s.appended ++ received.2.1 }
      if received.2.1 = [] then return s
      let advanced := s.shouldAdvance manager
      -- the grammar is asked only if it advances
      if advanced.1 && output.grammarRejects then
        return advanced.2.modify fun r => { r with status := .finishedError, resumable := false }
      return advanced.2

/-- `update_draft_token_ids` with the draft tokens and those of them that the grammar accepts. -/
def updateDraftTokenIds (specTokenIds validTokenIds : List Token) (s : ReasoningState H F) : ReasoningState H F :=
  if s.request.isFinished then s
  else if s.request.isPrefillChunk then s.modify fun r => { r with specTokenIds := [] }
  else
    let advanced := s.shouldAdvance manager
    advanced.2.modify fun r => { r with specTokenIds := if advanced.1 then validTokenIds else specTokenIds }

/-- `update_draft_token_ids_in_output` on the newest step: the tokens change, not their number. -/
def updateDraftTokenIdsInOutput (specTokenIds validTokenIds : List Token) (s : ReasoningState H F) :
    ReasoningState H F :=
  match s.frames.getLast? with
  | none => s
  | some drafts =>
    if s.request.isFinished || drafts.isEmpty then s
    else
      let advanced := s.shouldAdvance manager
      let tokens := (if advanced.1 then validTokenIds else specTokenIds).take drafts.length
      { advanced.2 with frames :=
        s.frames.dropLast ++ [tokens ++ List.replicate (drafts.length - tokens.length) (-1)] }

end ReasoningState

/-- What happens to a request. -/
inductive ReasoningOp (F : Type)
  | schedule (currentStep : ℕ) (numNewTokens : ℤ)
  | admitWaiting (currentStep : ℕ) (numComputedTokens numNewTokens : ℤ)
  /-- The connector loads tokens asynchronously. -/
  | load (numComputedTokens : ℤ)
  /-- The load has ended, or blocks turned out to be invalid. -/
  | truncate (status : RequestStatus) (numComputedTokens : ℤ)
  | preempt
  /-- `reset_prefix_cache` preempts the request and drops its outstanding outputs. -/
  | reset
  | resample (tokenIds : List Token) (numComputedTokens : ℤ)
  | updateSession (update : StreamingUpdate)
  | awaitSession
  | finish (status : RequestStatus)
  | fillBitmask
  | updateFromOutput (output : RequestOutput F)
  /-- The output of a request whose load failed is skipped. -/
  | skipOutput
  | updateDraftTokenIds (specTokenIds validTokenIds : List Token)
  | updateDraftTokenIdsInOutput (specTokenIds validTokenIds : List Token)

namespace ReasoningState

variable (manager : StructuredOutputManager) (config : SchedulerConfig) (blockHasher : Option (BlockHasher H))

def step (s : ReasoningState H F) : ReasoningOp F → Except PyError (ReasoningState H F)
  | .schedule currentStep numNewTokens => s.schedule config currentStep numNewTokens
  | .admitWaiting currentStep numComputedTokens numNewTokens =>
    s.admitWaiting config currentStep numComputedTokens numNewTokens
  | .load numComputedTokens => do
    require (numComputedTokens ≤ s.request.numTokens) .assertionError
    return s.modify (·.moveTo .waitingForRemoteKvs numComputedTokens)
  | .truncate status numComputedTokens => do
    require (s.request.isFinished = false ∧ numComputedTokens ≤ s.request.numComputedTokens) .assertionError
    return s.modify (·.moveTo status numComputedTokens)
  | .preempt => .ok (s.modify Request.preempt)
  | .reset => .ok (s.modify fun r =>
      { r.preempt with asyncTokensToDiscard := r.numOutputPlaceholders, numOutputPlaceholders := 0 })
  | .resample tokenIds numComputedTokens => do
    let request := resampledRequest blockHasher tokenIds numComputedTokens s.request
    require (numComputedTokens ≤ request.numTokens) .assertionError
    return { s with request := request }
  | .updateSession update => do
    let request ← s.request.updateRequestAsSession blockHasher update
    return { s with request := request }
  | .awaitSession => .ok (s.modify fun r => { r with status := .waitingForStreamingReq })
  | .finish status => do
    require (status.isFinished = true) .assertionError
    return s.modify fun r => { r with status := status }
  | .fillBitmask => .ok (s.shouldFillBitmask manager).2
  | .updateFromOutput output => s.updateFromOutput manager config blockHasher output
  | .skipOutput => .ok { s with frames := s.frames.tail }
  | .updateDraftTokenIds specTokenIds validTokenIds =>
    .ok (s.updateDraftTokenIds manager specTokenIds validTokenIds)
  | .updateDraftTokenIdsInOutput specTokenIds validTokenIds =>
    .ok (s.updateDraftTokenIdsInOutput manager specTokenIds validTokenIds)

def EndsWithStep (reasoner : ReasoningParser) (s : ReasoningState H F) : ReasoningOp F → Prop
  | .updateFromOutput output => reasoner.endTokenId ∉ output.sampledTokenIds.dropLast
  | .schedule _ numNewTokens => config.asyncScheduling = true ∨ s.frames = [] ∨
      s.request.scheduledDrafts numNewTokens = []
  | .updateSession _ | .awaitSession => config.asyncScheduling = true ∨ s.frames = []
  | _ => True

instance (reasoner : ReasoningParser) (s : ReasoningState H F) (op : ReasoningOp F) :
    Decidable (s.EndsWithStep config reasoner op) :=
  match op with
  | .updateFromOutput output =>
    inferInstanceAs (Decidable (reasoner.endTokenId ∉ output.sampledTokenIds.dropLast))
  | .schedule _ numNewTokens => inferInstanceAs (Decidable (config.asyncScheduling = true ∨ s.frames = [] ∨
      s.request.scheduledDrafts numNewTokens = []))
  | .updateSession _ | .awaitSession =>
    inferInstanceAs (Decidable (config.asyncScheduling = true ∨ s.frames = []))
  | .admitWaiting _ _ _ | .load _ | .truncate _ _ | .preempt | .reset | .resample _ _ | .finish _ | .fillBitmask
  | .skipOutput | .updateDraftTokenIds _ _ | .updateDraftTokenIdsInOutput _ _ => inferInstanceAs (Decidable True)

def Fresh (s : ReasoningState H F) : Prop :=
  s.request.useStructuredOutput = true ∧ s.request.numOutputPlaceholders = 0 ∧ s.frames = [] ∧ s.appended = []

end ReasoningState

end VllmPs
