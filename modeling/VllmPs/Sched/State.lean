import VllmPs.PowerSMC.Manager
import VllmPs.Request.Session
import VllmPs.Sched.Stop

/-!
# What the scheduler does to a request

The settings that the handling of outputs reads, what the model runner and the engine report for one
request, and how preemption, resampling and rejected draft tokens change a request.
-/

namespace VllmPs

open Lib

/-- The settings that the handling of outputs reads. `asyncScheduling` selects `AsyncScheduler`. -/
structure SchedulerConfig where
  maxModelLen : ℕ
  numSpecTokens : ℕ := 0
  asyncScheduling : Bool := false
  useV2ModelRunner : Bool := false
  ppSize : ℕ := 1
  recomputeKvLoadFailures : Bool := false
deriving DecidableEq

inductive FinishReason
  | stop
  | length
  | abort
  | error
  | repetition
deriving DecidableEq

/-- What the model runner returns for one request. -/
structure RequestOutput (F : Type) where
  sampledTokenIds : List Token := []
  powerSmcLogprobs : Option (F × F) := none
  /-- `pooler_output is not None` -/
  hasPoolerOutput : Bool := false
  /-- `should_advance` holds and the grammar does not accept the tokens. -/
  grammarRejects : Bool := false
deriving DecidableEq

structure EngineCoreOutput (F : Type) where
  requestId : RequestId
  newTokenIds : List Token
  finishReason : Option FinishReason
  powerSmcLogprobs : Option (F × F)
  stopReason : Option StopReason
deriving DecidableEq

variable {H F : Type}

namespace Request

def moveTo (r : Request H F) (status : RequestStatus) (numComputedTokens : ℤ) : Request H F :=
  { r with status := status, numComputedTokens := numComputedTokens }

/-- What a preemption changes in a request. -/
def preempt (r : Request H F) : Request H F :=
  { r with
    status := .preempted
    numComputedTokens := 0
    specTokenIds := []
    numPreemptions := r.numPreemptions + 1 }

end Request

namespace Scheduler

/-- Take rejected draft tokens back. -/
def rejectDraftTokens (scheduledSpecTokenIds generatedTokenIds : List Token) (r : Request H F) :
    Request H F :=
  if scheduledSpecTokenIds ≠ [] ∧ generatedTokenIds ≠ [] then
    let numRejected : ℤ := scheduledSpecTokenIds.length - (generatedTokenIds.length - 1)
    { r with
      numComputedTokens :=
        if r.numComputedTokens > 0 then r.numComputedTokens - numRejected else r.numComputedTokens
      numOutputPlaceholders :=
        if r.numOutputPlaceholders > 0 then r.numOutputPlaceholders - numRejected
        else r.numOutputPlaceholders }
  else r

/-- The request of a child after resampling. -/
def resampledRequest (blockHasher : Option (BlockHasher H)) (tokenIds : List Token)
    (aliasedComputedTokens : ℤ) (r : Request H F) : Request H F :=
  { r.resetOutputTokenIds blockHasher tokenIds with
    numComputedTokens := aliasedComputedTokens
    numOutputPlaceholders := 0
    asyncTokensToDiscard := 0
    specTokenIds := []
    isPrefillChunk := false
    status := .preempted }

end Scheduler

end VllmPs
