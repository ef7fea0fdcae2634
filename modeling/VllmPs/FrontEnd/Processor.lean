import VllmPs.FrontEnd.Parent

/-!
# The output processor of the front end

`process_outputs` feeds every output of an engine step to the state of its request and to its parent, makes
the outputs for the client, removes what has finished, and then lets the Power-SMC parents that asked for it
resample. Parents are shared by their children and stand in a table of their own.
-/

namespace VllmPs

open Lib

variable {D F : Type} [PyFloat F]

structure DeliveredOutput (F : Type) extends EngineCoreOutput F where
  newLogprobs : Option (List (LogprobRow F)) := none
  newPromptLogprobs : Option (List (LogprobRow F)) := none
  powerSmcKvEvent : Option KvResampleEvent := none
  poolingOutput : Option (List F) := none
  /-- `prefill_stats.num_cached_tokens` -/
  prefillNumCachedTokens : Option ℕ := none
deriving DecidableEq

/-- The next input chunk of a streaming session. -/
structure ChunkUpdate where
  prompt : Option String := none
  promptTokenIds : Option (List Token) := none
  final : Bool := false
deriving DecidableEq

inductive OutputBody (F : Type)
  | completions (outputs : List (Option (CompletionOutput F)))
      (promptLogprobs : Option (List (PositionLogprobs F)))
      (powerSmc : Option (PowerSMCGroupManager.Diagnostics F))
  | pooling (data : List F)
deriving DecidableEq

/-- A `RequestOutput` or `PoolingRequestOutput` for the client. -/
structure FrontEnd.RequestOutput (F : Type) where
  requestId : String
  prompt : Option String
  promptTokenIds : List Token
  body : OutputBody F
  finished : Bool
  numCachedTokens : ℕ
deriving DecidableEq

structure RequestState (D F : Type) where
  requestId : RequestId
  externalReqId : String
  /-- The parent object, by its request id. -/
  parentReq : Option String := none
  requestIndex : ℕ := 0
  outputKind : RequestOutputKind := .cumulative
  prompt : Option String := none
  promptTokenIds : Option (List Token)
  /-- The length of the prompt embeddings. -/
  promptEmbeds : Option ℕ := none
  logprobsProcessor : Option (LogprobsProcessor F) := none
  detokenizer : Option (IncrementalDetokenizer D) := none
  isPrefilling : Bool := true
  /-- The collector that outputs are put into, absent for the synchronous engine. -/
  queue : Option String := none
  numCachedTokens : ℕ := 0
  streamInterval : ℕ := 1
  sentTokensOffset : ℕ := 0
  streamingInput : Bool := false
  inputChunkQueue : Option (List ChunkUpdate) := none
deriving DecidableEq

/-- What the front end reads of a new request. -/
structure FrontEndRequest where
  requestId : RequestId
  externalReqId : String
  promptTokenIds : Option (List Token)
  promptEmbeds : Option ℕ := none
  /-- `None` for a pooling request. -/
  samplingParams : Option OutputParams
  poolingOutputKind : RequestOutputKind := .finalOnly
  resumable : Bool := false
deriving DecidableEq

namespace RequestState

omit [PyFloat F]

variable (state : RequestState D F)

/-- `apply_streaming_update` -/
def applyStreamingUpdate (update : ChunkUpdate) : RequestState D F :=
  { state with
    streamingInput := !update.final
    prompt :=
      match update.prompt, state.prompt with
      | some new, some old => if new = "" then state.prompt else if old = "" then some new else some (old ++ new)
      | some new, none => if new = "" then state.prompt else some new
      | none, _ => state.prompt
    promptTokenIds := some (state.promptTokenIds.getD [] ++ update.promptTokenIds.getD [])
    isPrefilling := true }

def nextChunk : RequestState D F :=
  match state.inputChunkQueue with
  | some (update :: rest) => { state with inputChunkQueue := some rest }.applyStreamingUpdate update
  | _ => { state with inputChunkQueue := none }

/-- `_new_completion_output` -/
def newCompletionOutput (tokenIds : List Token)
    (finishReason : Option FinishReason) (stopReason : Option StopValue) :
    Except PyError (RequestState D F × CompletionOutput F) :=
  match state.detokenizer, state.logprobsProcessor with
  | some detokenizer, some logprobsProcessor =>
    let finished := finishReason.isSome
    let delta := decide (state.outputKind = .delta)
    let (detokenizer, text) := detokenizer.getNextOutputText finished delta
    let tokenIds := if delta then tokenIds else detokenizer.tokenIds
    let logprobs := logprobsProcessor.logprobs.map fun positions =>
      -- `logprobs[-0:]` is the whole list
      if delta ∧ tokenIds ≠ [] then positions.drop (positions.length - tokenIds.length) else positions
    .ok ({ state with detokenizer := some detokenizer },
      { index := state.requestIndex
        text := text
        tokenIds := tokenIds
        cumulativeLogprob := logprobsProcessor.cumulativeLogprob
        logprobs := logprobs
        finishReason := finishReason.map (·.toStr)
        stopReason := if finished then stopReason else none })
  | _, _ => .error .assertionError

def promptIds : Except PyError (List Token) :=
  match state.promptTokenIds, state.promptEmbeds with
  | some ids, _ => .ok ids
  | none, some length => .ok (List.replicate length 0)
  | none, none => .error .assertionError

/-- `_new_request_output` of completions. -/
def newRequestOutput (externalReqId : String)
    (outputs : List (Option (CompletionOutput F))) (finished : Bool)
    (powerSmc : Option (PowerSMCGroupManager.Diagnostics F)) :
    Except PyError (RequestState D F × FrontEnd.RequestOutput F) := do
  let promptTokenIds ← state.promptIds
  match state.logprobsProcessor with
  | none => .error .assertionError
  | some processor =>
    let popped :=
      if state.outputKind = .delta then processor.popPromptLogprobs else (processor, processor.promptLogprobs)
    return ({ state with logprobsProcessor := some popped.1 },
      { requestId := externalReqId
        prompt := state.prompt
        promptTokenIds := promptTokenIds
        body := .completions outputs popped.2 powerSmc
        finished := finished
        numCachedTokens := state.numCachedTokens })

/-- `_new_request_output` of a pooling request. -/
def newPoolingRequestOutput (data : List F) (finished : Bool) :
    Except PyError (FrontEnd.RequestOutput F) := do
  let promptTokenIds ← state.promptIds
  return { requestId := state.externalReqId
           prompt := none
           promptTokenIds := promptTokenIds
           body := .pooling data
           finished := finished
           numCachedTokens := state.numCachedTokens }

def takeInterval (newTokenIds : List Token) (finished : Bool) :
    Except PyError (Option (RequestState D F × List Token)) :=
  if state.streamInterval ≤ 1 then .ok (some (state, newTokenIds))
  else
    match state.detokenizer with
    | none => .error .assertionError
    | some detokenizer =>
      let numOutputTokens := detokenizer.tokenIds.length
      let waits := !finished && decide (state.sentTokensOffset ≠ 0) &&
        decide ((numOutputTokens : ℤ) - state.sentTokensOffset < state.streamInterval)
      .ok (if waits then none
        else if state.outputKind = .delta then
          some ({ state with sentTokensOffset := numOutputTokens },
            detokenizer.tokenIds.drop state.sentTokensOffset)
        else some (state, newTokenIds))

end RequestState

structure MadeOutput (D F : Type) [PyFloat F] where
  state : RequestState D F
  parent : Option (ParentRequest F)
  output : Option (FrontEnd.RequestOutput F) := none

namespace RequestState

def makeCompletion (tokenizer : TokenizerLike D) (state : RequestState D F)
    (parent : Option (ParentRequest F)) (newTokenIds : List Token) (finishReason : Option FinishReason)
    (stopReason : Option StopValue) : Except PyError (MadeOutput D F) := do
  let (state, output) ← state.newCompletionOutput newTokenIds finishReason stopReason
  match parent with
  | none =>
    let (state, requestOutput) ←
      state.newRequestOutput state.externalReqId [some output] finishReason.isSome none
    return ⟨state, none, some requestOutput⟩
  | some parent =>
    let (parent, outputs, finished) ← parent.getOutputs state.requestId output
    if outputs = [] then return ⟨state, some parent, none⟩
    else
      let decode := (state.detokenizer.map fun d => d.decodeOutputTokenIds tokenizer).getD fun _ => []
      let outputs := parent.rewritePowerSmcOutputs outputs decode
      let (state, requestOutput) ← state.newRequestOutput parent.externalReqId outputs finished
        parent.getPowerSmcDiagnostics
      return ⟨state, some parent, some requestOutput⟩

/-- `make_request_output` -/
def makeRequestOutput (tokenizer : TokenizerLike D) (state : RequestState D F)
    (parent : Option (ParentRequest F)) (newTokenIds : List Token) (poolingOutput : Option (List F))
    (finishReason : Option FinishReason) (stopReason : Option StopValue) :
    Except PyError (MadeOutput D F) :=
  let finished := finishReason.isSome
  if !finished && decide (state.outputKind = .finalOnly) then .ok ⟨state, parent, none⟩
  else do
    match ← state.takeInterval newTokenIds finished with
    | none => return ⟨state, parent, none⟩
    | some (state, newTokenIds) =>
      match poolingOutput with
      | some data =>
        let requestOutput ← state.newPoolingRequestOutput data finished
        return ⟨state, parent, some requestOutput⟩
      | none => state.makeCompletion tokenizer parent newTokenIds finishReason stopReason

end RequestState

/-- The output processor, with the parent objects that its states refer to. -/
structure OutputProcessor (D F : Type) [PyFloat F] where
  tokenizer : TokenizerLike D
  /-- `tokenizer is not None` -/
  hasTokenizer : Bool := true
  streamInterval : ℕ := 1
  requestStates : Table RequestId (RequestState D F) := ∅
  /-- The keys of `parent_requests`. -/
  parentRequests : List String := []
  externalReqIds : Table String (List RequestId) := ∅
  /-- The parent objects, by request id. -/
  parents : Table String (ParentRequest F) := ∅

/-- An output put into a collector, or returned if there is no collector. -/
structure Emission (F : Type) where
  queue : Option String
  output : FrontEnd.RequestOutput F
deriving DecidableEq

namespace OutputProcessor

variable (p : OutputProcessor D F)

def dropExternalId (externalReqId : String) (requestId : RequestId) :
    Except PyError (OutputProcessor D F) :=
  let ids := (p.externalReqIds.lookup externalReqId).getD []
  if requestId ∉ ids then .error .valueError
  else
    let ids := ids.erase requestId
    .ok { p with externalReqIds :=
      if ids = [] then p.externalReqIds.erase externalReqId else p.externalReqIds.insert externalReqId ids }

/-- Forget a parent without unfinished children. -/
def dropFinishedParent (parentReq : Option String) : OutputProcessor D F :=
  match parentReq.bind fun id => p.parents.lookup id with
  | none => p
  | some parent =>
    if parent.childRequests.isEmpty then
      { p with parentRequests := p.parentRequests.erase parent.requestId }
    else p

variable (state : RequestState D F)

/-- `_finish_request` -/
def finishRequest : Except PyError (OutputProcessor D F) := do
  let p := { p with requestStates := p.requestStates.erase state.requestId }
  let p ← p.dropExternalId state.externalReqId state.requestId
  return p.dropFinishedParent state.parentReq

/-- `RequestState.from_new_request` -/
def fromNewRequest (request : FrontEndRequest) (prompt : Option String)
    (parentReq : Option String) (requestIndex : ℕ) (queue : Option String) : RequestState D F :=
  let state : RequestState D F :=
    { requestId := request.requestId
      externalReqId := request.externalReqId
      parentReq := parentReq
      requestIndex := requestIndex
      prompt := prompt
      promptTokenIds := request.promptTokenIds
      promptEmbeds := request.promptEmbeds
      queue := queue
      streamInterval := p.streamInterval
      streamingInput := request.resumable
      inputChunkQueue := if request.resumable then some [] else none }
  match request.samplingParams with
  | none => { state with outputKind := request.poolingOutputKind }
  | some params =>
    let detokenizes := p.hasTokenizer && params.detokenize
    let logprobsProcessor : LogprobsProcessor F :=
      { hasTokenizer := detokenizes
        logprobs := params.numLogprobs.map fun _ => []
        promptLogprobs := params.promptLogprobs.map fun _ => [[]]
        cumulativeLogprob := params.numLogprobs.map fun _ => 0
        numLogprobs := params.numLogprobs
        numPromptLogprobs := params.promptLogprobs }
    let detokenizer : IncrementalDetokenizer D :=
      { stream := if detokenizes then some (p.tokenizer.start (request.promptTokenIds.getD [])) else none
        stop := params.stop
        minTokens := params.minTokens
        includeStopStrInOutput := params.includeStopStrInOutput }
    { state with
      outputKind := params.outputKind
      logprobsProcessor := some logprobsProcessor
      detokenizer := some detokenizer }

/-- Write the state of a request. -/
def setState : OutputProcessor D F :=
  { p with requestStates := p.requestStates.insert state.requestId state }

/-- Write a parent object. -/
def setParent : Option (ParentRequest F) → OutputProcessor D F
  | none => p
  | some parent => { p with parents := p.parents.insert parent.requestId parent }

/-- `_update_streaming_request_state`; the flag says that the end of the stream is announced. -/
def updateStreamingRequestState
    (request : FrontEndRequest) (prompt : Option String) : Except PyError (OutputProcessor D F × Bool) :=
  if !request.resumable then
    match state.inputChunkQueue with
    | none => do
      let p ← p.finishRequest state
      return (p, state.queue.isSome)
    | some [] => .ok (p.setState { state with streamingInput := false }, false)
    | some (first :: rest) =>
      let chunks := (first :: rest).modifyLast fun update => { update with final := true }
      .ok (p.setState { state with inputChunkQueue := some chunks }, false)
  else
    let update : ChunkUpdate := { prompt := prompt, promptTokenIds := request.promptTokenIds }
    match state.inputChunkQueue with
    | none => .ok (p.setState { state.applyStreamingUpdate update with inputChunkQueue := some [] }, false)
    | some chunks => .ok (p.setState { state with inputChunkQueue := some (chunks ++ [update]) }, false)

/-- `add_request`; the flag says that the end of a stream is announced. -/
def addRequest (request : FrontEndRequest) (prompt : Option String)
    (parentReq : Option (ParentRequest F)) (requestIndex : ℕ) (queue : Option String) :
    Except PyError (OutputProcessor D F × Bool) :=
  match p.requestStates.lookup request.requestId with
  | some state => p.updateStreamingRequestState state request prompt
  | none =>
    let state := p.fromNewRequest request prompt (parentReq.map (·.requestId)) requestIndex queue
    let p := (p.setState state).setParent parentReq
    let ids := (p.externalReqIds.lookup state.externalReqId).getD []
    .ok ({ p with
      parentRequests := parentReq.elim p.parentRequests fun parent => p.parentRequests.insert parent.requestId
      externalReqIds := p.externalReqIds.insert state.externalReqId (ids ++ [request.requestId]) }, false)

end OutputProcessor

/-! ## Processing outputs -/

/-- The variables of the loop of `process_outputs`. -/
structure ProcessLoop (D F : Type) [PyFloat F] where
  processor : OutputProcessor D F
  emitted : List (Emission F) := []
  reqsToAbort : List RequestId := []
  powerSmcParentReqs : List String := []
  powerSmcKvEvents : List (String × KvResampleEvent) := []

structure Received (D F : Type) where
  state : RequestState D F
  finishReason : Option FinishReason
  stopReason : Option StopValue

/-- Feed an output to the state of its request: detokenize, check stop strings, collect logprobs. -/
def RequestState.receive (tokenizer : TokenizerLike D) (state : RequestState D F)
    (out : DeliveredOutput F) : Except PyError (Received D F) :=
  let state :=
    if state.isPrefilling then
      { state with
        numCachedTokens := out.prefillNumCachedTokens.getD state.numCachedTokens
        isPrefilling := false }
    else state
  if out.poolingOutput.isSome then
    .ok ⟨state, out.finishReason, out.stopReason.map (·.toValue)⟩
  else
    match state.detokenizer, state.logprobsProcessor with
    | some detokenizer, some processor => do
      let (detokenizer, stopString) :=
        detokenizer.update tokenizer out.newTokenIds (decide (out.finishReason = some .stop))
      let processor ← processor.updateFromOutput tokenizer out.newLogprobs out.newPromptLogprobs
      let state := { state with detokenizer := some detokenizer, logprobsProcessor := some processor }
      match stopString.filter (· ≠ []) with
      | some stopString => return ⟨state, some .stop, some (.str stopString)⟩
      | none => return ⟨state, out.finishReason, out.stopReason.map (·.toValue)⟩
    | _, _ => .error .assertionError

structure Delivered (D F : Type) [PyFloat F] where
  finishReason : Option FinishReason
  asked : Bool
  made : MadeOutput D F

namespace ProcessLoop

def observeParent (parent : Option (ParentRequest F)) (out : DeliveredOutput F) (received : Received D F) :
    Except PyError (Option (ParentRequest F) × Bool) :=
  match parent, out.poolingOutput with
  | some parent, none => do
    let observed ← parent.observePowerSmcStep out.requestId out.newTokenIds out.powerSmcLogprobs
      (received.finishReason.map (·.toStr)) (received.stopReason.map (·.toStr))
    return (some observed.1, observed.2)
  | _, _ => .ok (parent, false)

variable (l : ProcessLoop D F)

/-- Note the parents to resample and the events to record after the loop. -/
def deferParent (parentReq : Option String) (asked : Bool) (out : DeliveredOutput F) : ProcessLoop D F :=
  match parentReq, out.poolingOutput with
  | some parentId, none =>
    { l with
      powerSmcParentReqs :=
        if asked && !l.powerSmcParentReqs.contains parentId then l.powerSmcParentReqs ++ [parentId]
        else l.powerSmcParentReqs
      powerSmcKvEvents := l.powerSmcKvEvents ++ out.powerSmcKvEvent.toList.map (parentId, ·) }
  | _, _ => l

variable (state : RequestState D F)

/-- Hand an output to the client. -/
def emit (output : Option (FrontEnd.RequestOutput F)) : ProcessLoop D F :=
  match output with
  | none => l
  | some output =>
    let output := if state.streamingInput then { output with finished := false } else output
    { l with emitted := l.emitted ++ [⟨state.queue, output⟩] }

/-- Free a completed request, or go on with the next chunk of its session. -/
def complete (finishReason : Option FinishReason)
    (out : DeliveredOutput F) : Except PyError (ProcessLoop D F) :=
  if finishReason.isNone then .ok l
  else if state.streamingInput then
    .ok { l with processor := l.processor.setState state.nextChunk }
  else do
    let processor ← l.processor.finishRequest state
    return { l with
      processor := processor
      reqsToAbort := if out.finishReason.isNone then l.reqsToAbort ++ [out.requestId] else l.reqsToAbort }

/-- The object of a request's parent. -/
def parentOf (p : OutputProcessor D F) (state : RequestState D F) :
    Except PyError (Option (ParentRequest F)) :=
  match state.parentReq with
  | none => .ok none
  | some id =>
    match p.parents.lookup id with
    | none => .error .attributeError
    | some parent => .ok (some parent)

def deliver (tokenizer : TokenizerLike D) (state : RequestState D F) (parent : Option (ParentRequest F))
    (out : DeliveredOutput F) : Except PyError (Delivered D F) := do
  let received ← state.receive tokenizer out
  let observed ← observeParent parent out received
  let made ← received.state.makeRequestOutput tokenizer observed.1 out.newTokenIds out.poolingOutput
    received.finishReason received.stopReason
  return ⟨received.finishReason, observed.2, made⟩

/-- Write back what an output did. -/
def store (out : DeliveredOutput F) (d : Delivered D F) : Except PyError (ProcessLoop D F) :=
  let l := l.deferParent state.parentReq d.asked out
  let l := { l with processor := (l.processor.setState d.made.state).setParent d.made.parent }
  (l.emit d.made.state d.made.output).complete d.made.state d.finishReason out

/-- One output in the loop of `process_outputs`. -/
def processOutput (out : DeliveredOutput F) : Except PyError (ProcessLoop D F) :=
  match l.processor.requestStates.lookup out.requestId with
  | none => .ok l
  | some state => do
    let parent ← parentOf l.processor state
    let delivered ← deliver l.processor.tokenizer state parent out
    l.store state out delivered

/-- Change a parent object. -/
def modifyParent (p : OutputProcessor D F) (parentId : String)
    (f : ParentRequest F → Except PyError (ParentRequest F)) : Except PyError (OutputProcessor D F) :=
  match p.parents.lookup parentId with
  | none => .error .attributeError
  | some parent => do
    let parent ← f parent
    return p.setParent (some parent)

def finishCall : Except PyError (OutputProcessor D F) := do
  let p ← l.powerSmcParentReqs.foldlM (fun p parentId => modifyParent p parentId
    ParentRequest.maybeResamplePowerSmc) l.processor
  l.powerSmcKvEvents.foldlM (fun p event => modifyParent p event.1 fun parent =>
    parent.observePowerSmcKvEvent event.2) p

end ProcessLoop

/-- What a call of `process_outputs` leaves. -/
structure Processed (D F : Type) [PyFloat F] where
  processor : OutputProcessor D F
  emitted : List (Emission F) := []
  reqsToAbort : List RequestId := []

namespace OutputProcessor

/-- `process_outputs` -/
def processOutputs (p : OutputProcessor D F) (outs : List (DeliveredOutput F)) :
    Except PyError (Processed D F) := do
  let l ← outs.foldlM ProcessLoop.processOutput { processor := p }
  let p ← l.finishCall
  return ⟨p, l.emitted, l.reqsToAbort⟩

/-! ## Aborting requests -/

/-- One id in the first loop of `abort_requests`: the internal ids and the parents to abort. -/
def collectAbort (internal : Bool) (state : OutputProcessor D F × List RequestId × List String)
    (requestId : String) : Except PyError (OutputProcessor D F × List RequestId × List String) :=
  let (p, internalIds, parentIds) := state
  if internal then
    match p.requestStates.lookup requestId with
    | none => .ok (p, internalIds ++ [requestId], parentIds)
    | some req => do
      let p ← p.dropExternalId req.externalReqId requestId
      return (p, internalIds ++ [requestId], parentIds)
  else
    match p.externalReqIds.lookup requestId with
    | none | some [] => .ok ({ p with externalReqIds := p.externalReqIds.erase requestId }, internalIds, parentIds)
    | some ids =>
      let aborted := p.parentRequests.filter fun parentId =>
        (p.parents.lookup parentId).any fun parent => decide (parent.externalReqId = requestId)
      .ok ({ p with externalReqIds := p.externalReqIds.erase requestId }, internalIds ++ ids,
        parentIds.union aborted)

/-- One internal id in the second loop of `abort_requests`; a request ends with an abort output. -/
def abortRequest (state : Processed D F × List String) (requestId : RequestId) :
    Except PyError (Processed D F × List String) :=
  let (done, parentIds) := state
  let p := done.processor
  match p.requestStates.lookup requestId with
  | none =>
    .ok (done, if requestId ∈ p.parentRequests then parentIds.insert requestId else parentIds)
  | some req => do
    let p := { p with requestStates := p.requestStates.erase requestId }
    let aborted := done.reqsToAbort ++ [requestId]
    if req.queue.isNone then return (⟨p, done.emitted, aborted⟩, parentIds)
    else
      let parent ← ProcessLoop.parentOf p req
      let made ← req.makeRequestOutput p.tokenizer parent [] (if req.detokenizer.isNone then some [] else none)
        (some .abort) none
      return (⟨p.setParent made.parent, done.emitted ++ made.output.toList.map (⟨req.queue, ·⟩), aborted⟩,
        parentIds)

/-- `abort_requests`: the processor, the abort outputs, and the requests to abort in the engine. The
fuel bounds the nesting of parents. -/
def abortRequests : ℕ → Processed D F → List String → Bool → Except PyError (Processed D F)
  | 0, done, _, _ => .ok done
  | fuel + 1, done, requestIds, internal => do
    let (p, internalIds, parentIds) ← requestIds.foldlM (collectAbort internal) (done.processor, [], [])
    let (done, parentIds) ← internalIds.foldlM abortRequest ({ done with processor := p }, parentIds)
    parentIds.foldlM (fun done parentId =>
      let p := done.processor
      if parentId ∉ p.parentRequests then .ok done
      else
        let children := ((p.parents.lookup parentId).map (·.childRequests)).getD []
        let done := { done with processor :=
          { p with parentRequests := p.parentRequests.erase parentId } }
        if children = [] then .ok done else abortRequests fuel done children true) done

end OutputProcessor

end VllmPs
