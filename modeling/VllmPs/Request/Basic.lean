import Mathlib.Tactic

/-!
# Requests as the scheduler holds them

The fields of `Request` that the modelled functions read or write, under the source's
words. Token counts that the scheduler subtracts from are integers, as in the source.
`F` stands for Python's `float` and `H` for the digests of the configured hash function.
-/

namespace VllmPs

abbrev RequestId := String

/-- Token ids; `-1` is the scheduler's placeholder for a draft token it has not seen. -/
abbrev Token := ℤ

/-- Everything the modelled code can raise, one constructor per kind of check. -/
inductive PyError
  | valueError
  | runtimeError
  | keyError
  | indexError
  | assertionError
  | attributeError
  /-- `assert request.num_output_placeholders >= 0` -/
  | negativePlaceholders
  /-- `assert blk.block_hash is None` -/
  | blockAlreadyHashed
  /-- `assert encoder_output is not None` -/
  | encoderCacheMiss
deriving DecidableEq

inductive RequestStatus
  | waiting
  | waitingForStructuredOutputGrammar
  | waitingForRemoteKvs
  | waitingForStreamingReq
  | running
  | preempted
  | finishedStopped
  | finishedLengthCapped
  | finishedAborted
  | finishedIgnored
  | finishedError
  | finishedRepetition
deriving DecidableEq

/-- Anything after `PREEMPTED` is a finished status. -/
def RequestStatus.isFinished : RequestStatus → Bool
  | .finishedStopped | .finishedLengthCapped | .finishedAborted | .finishedIgnored
  | .finishedError | .finishedRepetition => true
  | _ => false

inductive StopReason
  | tokenId (token : Token)
  | repetitionDetected
deriving DecidableEq

structure RepetitionDetectionParams where
  maxPatternSize : ℤ
  minPatternSize : ℤ
  minCount : ℤ
deriving DecidableEq

/-- The sampling parameters the scheduler consults. -/
structure SamplingParams where
  maxTokens : ℕ := 16
  minTokens : ℕ := 0
  eosTokenId : Option Token := none
  stopTokenIds : List Token := []
  repetitionDetection : Option RepetitionDetectionParams := none
  seed : Option ℤ := none
  skipReadingPrefixCache : Bool := false
deriving DecidableEq

structure PowerSMCConfig (F : Type) where
  alpha : F
  particles : ℕ
  blockSize : ℕ
  essThreshold : F
  alphaRampTokens : ℕ
  kvCow : Bool
deriving DecidableEq

structure PowerSMCChildRequestInfo where
  parentId : String
  particleIdx : ℕ
deriving DecidableEq

/-- The digits zero of the decimal number systems of Unicode 15, each followed by its digits one to nine. -/
def decimalZeros : List ℕ :=
  [0x30, 0x660, 0x6f0, 0x7c0, 0x966, 0x9e6, 0xa66, 0xae6, 0xb66, 0xbe6, 0xc66, 0xce6, 0xd66, 0xde6, 0xe50, 0xed0,
   0xf20, 0x1040, 0x1090, 0x17e0, 0x1810, 0x1946, 0x19d0, 0x1a80, 0x1a90, 0x1b50, 0x1bb0, 0x1c40, 0x1c50, 0xa620,
   0xa8d0, 0xa900, 0xa9d0, 0xa9f0, 0xaa50, 0xabf0, 0xff10, 0x104a0, 0x10d30, 0x11066, 0x110f0, 0x11136, 0x111d0,
   0x112f0, 0x11450, 0x114d0, 0x11650, 0x116c0, 0x11730, 0x118e0, 0x11950, 0x11c50, 0x11d50, 0x11da0, 0x11f50,
   0x16a60, 0x16ac0, 0x16b50, 0x1d7ce, 0x1d7d8, 0x1d7e2, 0x1d7ec, 0x1d7f6, 0x1e140, 0x1e2f0, 0x1e4f0, 0x1e950,
   0x1fbf0]

/-- The value of a character that `\d` matches and `int` reads. -/
def decimalDigit (c : Char) : Option ℕ :=
  (decimalZeros.find? fun first => first ≤ c.toNat ∧ c.toNat < first + 10).map (c.toNat - ·)

/-- `parse_power_smc_child_request_id`: match `psmc<idx>_<parent>`, where the parent is not empty
and `.+$` accepts no newline except one at the very end, which it drops. -/
def parsePowerSmcChildRequestId (requestId : String) : Option PowerSMCChildRequestInfo :=
  match requestId.toList with
  | 'p' :: 's' :: 'm' :: 'c' :: rest =>
    let digits := rest.takeWhile (decimalDigit · |>.isSome)
    match rest.dropWhile (decimalDigit · |>.isSome) with
    | '_' :: body =>
      let parent := if body.getLast? = some '\n' then body.dropLast else body
      if digits.isEmpty || parent.isEmpty || parent.contains '\n' then none
      else some ⟨String.ofList parent, digits.foldl (fun n c => 10 * n + (decimalDigit c).getD 0) 0⟩
    | _ => none
  | _ => none

/-- One multimodal item and the placeholder range it occupies among the tokens. -/
structure MultiModalFeature where
  identifier : String
  offset : ℕ
  length : ℕ
deriving DecidableEq

/-- The next input chunk of a streaming session. -/
structure StreamingUpdate where
  mmFeatures : List MultiModalFeature := []
  promptTokenIds : Option (List Token) := none
  arrivalTime : ℤ := 0
  samplingParams : SamplingParams := {}
deriving DecidableEq

structure EngineCoreRequest (F : Type) where
  requestId : RequestId
  promptTokenIds : Option (List Token)
  promptEmbeds : Option (List ℕ) := none
  mmFeatures : List MultiModalFeature := []
  samplingParams : SamplingParams := {}
  pooling : Bool := false
  powerSmcConfig : Option (PowerSMCConfig F) := none
  useStructuredOutput : Bool := false
  arrivalTime : ℤ := 0
  loraName : Option String := none
  cacheSalt : Option String := none
  priority : ℤ := 0
  resumable : Bool := false
deriving DecidableEq

/-- The state of one request. -/
structure Request (H F : Type) where
  requestId : RequestId
  priority : ℤ := 0
  arrivalTime : ℤ := 0
  samplingParams : SamplingParams := {}
  /-- `pooling_params is not None` -/
  pooling : Bool := false
  maxTokens : ℕ := 16
  powerSmcConfig : Option (PowerSMCConfig F) := none
  powerSmcChildInfo : Option PowerSMCChildRequestInfo := none
  loraName : Option String := none
  cacheSalt : Option String := none
  promptEmbeds : Option (List ℕ) := none
  mmFeatures : List MultiModalFeature := []
  useStructuredOutput : Bool := false
  status : RequestStatus := .waiting
  stopReason : Option StopReason := none
  /-- `None` for a prompt given by embeddings only. -/
  promptTokenIds : Option (List Token)
  numPromptTokens : ℕ
  outputTokenIds : List Token := []
  allTokenIds : List Token
  numOutputPlaceholders : ℤ := 0
  asyncTokensToDiscard : ℤ := 0
  nextDecodeEligibleStep : ℕ := 0
  specTokenIds : List Token := []
  numComputedTokens : ℤ := 0
  isPrefillChunk : Bool := false
  numPreemptions : ℕ := 0
  /-- `prefill_stats is not None`: no output has been emitted yet. -/
  hasPrefillStats : Bool := true
  blockHashes : List H := []
  resumable : Bool := false
  /-- `None` inside the queue marks the end of the session. -/
  streamingQueue : Option (List (Option StreamingUpdate)) := none
deriving DecidableEq

namespace Request

variable {H F : Type}
variable (r : Request H F)

def numTokens : ℕ := r.allTokenIds.length

def numTokensWithSpec : ℕ := r.allTokenIds.length + r.specTokenIds.length

def numOutputTokens : ℕ := r.outputTokenIds.length

def isFinished : Bool := r.status.isFinished

end Request

end VllmPs
