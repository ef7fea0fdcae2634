import VllmPs.FrontEnd.Text
import VllmPs.Lib.Table
import VllmPs.PowerSMC.Manager

/-!
# Parent requests

A request for several samples or Power-SMC particles is fanned out into child requests.
Their parent gathers the completions and knows when all have finished; with Power-SMC it
returns one selected particle.
-/

namespace VllmPs

open Lib

variable {F : Type}

inductive RequestOutputKind
  | cumulative
  | delta
  | finalOnly
deriving DecidableEq

/-- `int | str` of a stop reason. -/
inductive StopValue
  | int (n : ℤ)
  | str (s : Text)
deriving DecidableEq

def StopReason.toValue : StopReason → StopValue
  | .tokenId token => .int token
  | .repetitionDetected => .str "repetition_detected".toList

/-- `str` of a stop reason. -/
def StopValue.toStr : StopValue → String
  | .int n => toString n
  | .str s => String.ofList s

/-- `str` of a finish reason. -/
def FinishReason.toStr : FinishReason → String
  | .stop => "stop"
  | .length => "length"
  | .abort => "abort"
  | .error => "error"
  | .repetition => "repetition"

/-- The output data of one completion. -/
structure CompletionOutput (F : Type) where
  index : ℕ
  text : Text
  tokenIds : List Token
  cumulativeLogprob : Option F
  logprobs : Option (List (PositionLogprobs F))
  finishReason : Option String
  stopReason : Option StopValue
deriving DecidableEq

def CompletionOutput.finished (o : CompletionOutput F) : Bool := o.finishReason.isSome

/-- The sampling parameters that the front end reads. -/
structure OutputParams where
  n : ℕ := 1
  seed : Option ℤ := none
  outputKind : RequestOutputKind := .cumulative
  detokenize : Bool := true
  stop : List Text := []
  minTokens : ℕ := 0
  includeStopStrInOutput : Bool := false
  numLogprobs : Option ℤ := none
  promptLogprobs : Option ℤ := none
deriving DecidableEq

variable [PyFloat F]

/-- What only the parent of particles has. -/
structure PowerSMCPart (F : Type) [PyFloat F] where
  manager : PowerSMCGroupManager F
  childRequestToIndex : Table RequestId ℕ := ∅
  returnDiagnostics : Bool := false

/-- A parent request, with the particles' manager for Power-SMC. -/
structure ParentRequest (F : Type) [PyFloat F] where
  requestId : String
  externalReqId : String
  samplingParams : OutputParams
  childRequests : List RequestId := []
  outputAggregator : List (Option (CompletionOutput F)) := []
  powerSmc : Option (PowerSMCPart F) := none

namespace ParentRequest

/-- `ParentRequest.__init__` -/
def new (requestId externalReqId : String) (samplingParams : OutputParams) : ParentRequest F where
  requestId := requestId
  externalReqId := externalReqId
  samplingParams := samplingParams
  outputAggregator :=
    if samplingParams.outputKind = .finalOnly then List.replicate samplingParams.n none else []

/-- `PowerSMCParentRequest.__init__`, with the values its generator draws. -/
def newPowerSmc (requestId externalReqId : String) (samplingParams : OutputParams)
    (config : PowerSMCConfig F) (returnDiagnostics : Bool) (rng : ℕ → F) : ParentRequest F where
  requestId := requestId
  externalReqId := externalReqId
  samplingParams := samplingParams
  outputAggregator := List.replicate config.particles none
  powerSmc := some { manager := .new config rng, returnDiagnostics := returnDiagnostics }

/-- The number of children. -/
def n (parent : ParentRequest F) : ℕ :=
  match parent.powerSmc with
  | none => parent.samplingParams.n
  | some part => part.manager.config.particles

variable (parent : ParentRequest F)

/-- The id of a child. -/
def childRequestId (index : ℕ) : RequestId :=
  match parent.powerSmc with
  | none => toString index ++ "_" ++ parent.requestId
  | some _ => "psmc" ++ toString index ++ "_" ++ parent.requestId

/-- `_get_child_sampling_params` -/
def getChildSamplingParams (index : ℕ) : OutputParams :=
  { parent.samplingParams with
    n := 1
    seed := parent.samplingParams.seed.map (· + index)
    outputKind := if parent.powerSmc.isSome then .finalOnly else parent.samplingParams.outputKind }

/-- `get_child_info`: the parent with the new child, and the child's id and parameters. -/
def getChildInfo (index : ℕ) : ParentRequest F × RequestId × OutputParams :=
  let childReqId := parent.childRequestId index
  ({ parent with
      childRequests := parent.childRequests.insert childReqId
      powerSmc := parent.powerSmc.map fun part =>
        { part with childRequestToIndex := part.childRequestToIndex.insert childReqId index } },
    childReqId, parent.getChildSamplingParams index)

variable (childRequestId : RequestId)

/-- `observe_power_smc_step`: the parent after it, and whether a resample is to be checked. -/
def observePowerSmcStep (tokenIds : List Token)
    (powerSmcLogprobs : Option (F × F)) (finishReason stopReason : Option String) :
    Except PyError (ParentRequest F × Bool) :=
  match parent.powerSmc with
  | none => .ok (parent, false)
  | some part =>
    match tokenIds, powerSmcLogprobs with
    | [], _ => .ok (parent, false)
    | _, none => .error .runtimeError
    | _ :: _ :: _, _ => .error .runtimeError
    | [tokenId], some (baseLogp, proposalLogq) =>
      match part.childRequestToIndex.lookup childRequestId with
      | none => .error .keyError
      | some particleIdx => do
        let updated ← part.manager.updateAfterToken particleIdx tokenId baseLogp proposalLogq finishReason
          stopReason
        return ({ parent with powerSmc := some { part with manager := updated.1 } },
          finishReason.isSome || updated.2)

/-- Change the manager, if there is one. -/
def modifyManager (f : PowerSMCGroupManager F → Except PyError (PowerSMCGroupManager F)) :
    Except PyError (ParentRequest F) :=
  match parent.powerSmc with
  | none => .ok parent
  | some part => do
    let manager ← f part.manager
    return { parent with powerSmc := some { part with manager := manager } }

/-- `maybe_resample_power_smc` -/
def maybeResamplePowerSmc : Except PyError (ParentRequest F) :=
  parent.modifyManager fun manager => do
    let resampled ← manager.maybeResample
    return resampled.1

/-- `observe_power_smc_kv_event` -/
def observePowerSmcKvEvent (event : KvResampleEvent) : Except PyError (ParentRequest F) :=
  parent.modifyManager fun manager => .ok (manager.recordKvResampleEvent event)

variable (completionOutput : CompletionOutput F)

def childrenAfter : List RequestId :=
  if completionOutput.finished then parent.childRequests.erase childRequestId else parent.childRequests

def aggregate : ParentRequest F :=
  { parent with
    childRequests := parent.childrenAfter childRequestId completionOutput
    outputAggregator := parent.outputAggregator.set completionOutput.index (some completionOutput) }

/-- `ParentRequest.get_outputs`: the parent, the outputs to return, and whether it has finished. -/
def getSampleOutputs : Except PyError (ParentRequest F × List (Option (CompletionOutput F)) × Bool) :=
  let children := parent.childrenAfter childRequestId completionOutput
  if parent.samplingParams.outputKind ≠ .finalOnly then
    let alreadyFinishedAndReturned :=
      completionOutput.finished && decide (childRequestId ∉ parent.childRequests)
    .ok ({ parent with childRequests := children },
      if alreadyFinishedAndReturned then [] else [some completionOutput], children.isEmpty)
  else if parent.outputAggregator.length ≤ completionOutput.index then .error .indexError
  else
    let parent := parent.aggregate childRequestId completionOutput
    .ok (parent, if children.isEmpty then parent.outputAggregator else [], children.isEmpty)

def selectOutput (part : PowerSMCPart F) :
    Except PyError (ParentRequest F × List (Option (CompletionOutput F)) × Bool) :=
  let (manager, chosenIdx) := part.manager.finalSelect
  match parent.outputAggregator[chosenIdx]?, manager.particles[chosenIdx]? with
  | some (some output), some particle =>
    .ok ({ parent with powerSmc := some { part with manager := manager } },
      [some { output with index := 0, tokenIds := particle.tokenIds }], true)
  -- `None` has no attributes to set
  | some none, _ => .error .attributeError
  | _, _ => .error .indexError

/-- `PowerSMCParentRequest.get_outputs` -/
def getParticleOutputs (part : PowerSMCPart F) (childRequestId : RequestId)
    (completionOutput : CompletionOutput F) :
    Except PyError (ParentRequest F × List (Option (CompletionOutput F)) × Bool) :=
  if parent.outputAggregator.length ≤ completionOutput.index then .error .indexError
  else if (parent.childrenAfter childRequestId completionOutput).isEmpty then
    (parent.aggregate childRequestId completionOutput).selectOutput part
  else .ok (parent.aggregate childRequestId completionOutput, [], false)

/-- `get_outputs` -/
def getOutputs : Except PyError (ParentRequest F × List (Option (CompletionOutput F)) × Bool) :=
  match parent.powerSmc with
  | none => parent.getSampleOutputs childRequestId completionOutput
  | some part => parent.getParticleOutputs part childRequestId completionOutput

/-- `get_power_smc_diagnostics` -/
def getPowerSmcDiagnostics : Option (PowerSMCGroupManager.Diagnostics F) :=
  match parent.powerSmc with
  | none => none
  | some part =>
    if part.returnDiagnostics && part.manager.chosenParticle.isSome then some part.manager.diagnostics
    else none

/-- `rewrite_power_smc_outputs` -/
def rewritePowerSmcOutputs (outputs : List (Option (CompletionOutput F)))
    (decodeOutputTokenIds : List Token → Text) : List (Option (CompletionOutput F)) :=
  match parent.powerSmc with
  | none => outputs
  | some part =>
    if part.manager.chosenParticle.isNone then outputs
    else outputs.map (·.map fun output => { output with text := decodeOutputTokenIds output.tokenIds })

end ParentRequest

/-! ## Ids of particles -/

open List

/-- `make_power_smc_child_request_id` -/
def makePowerSmcChildRequestId (parentId : String) (particleIdx : ℕ) : String :=
  "psmc" ++ toString particleIdx ++ "_" ++ parentId

variable (parentId : String) (particleIdx : ℕ)

/-- The characters of a child id. -/
theorem toList_makePowerSmcChildRequestId :
    (makePowerSmcChildRequestId parentId particleIdx).toList =
      'p' :: 's' :: 'm' :: 'c' :: (Nat.toDigits 10 particleIdx ++ '_' :: parentId.toList) := by
  simp [makePowerSmcChildRequestId]

/-- The digits that a number is written with are read as such. -/
theorem decimalDigit_of_mem_toDigits {c : Char} (hc : c ∈ Nat.toDigits 10 particleIdx) :
    decimalDigit c = some (c.toNat - 48) := by
  have hdigit : 48 ≤ c.toNat ∧ c.toNat ≤ 57 := by
    have h := Nat.isDigit_of_mem_toDigits (by decide) (by decide) hc
    simpa [Char.isDigit, UInt32.le_iff_toNat_le] using h
  have hfirst : decide (0x30 ≤ c.toNat ∧ c.toNat < 0x30 + 10) = true := by
    rw [decide_eq_true_eq]
    omega
  obtain ⟨rest, hzeros⟩ : ∃ rest, decimalZeros = 0x30 :: rest := ⟨_, rfl⟩
  rw [decimalDigit, hzeros,
    find?_cons_of_pos (p := fun first => decide (first ≤ c.toNat ∧ c.toNat < first + 10)) hfirst]
  rfl

/-- The digits of a child id end at the underscore. -/
theorem span_toDigits (rest : List Char) :
    (Nat.toDigits 10 particleIdx ++ '_' :: rest).takeWhile (decimalDigit · |>.isSome) = Nat.toDigits 10 particleIdx ∧
      (Nat.toDigits 10 particleIdx ++ '_' :: rest).dropWhile (decimalDigit · |>.isSome) = '_' :: rest := by
  have hdigits : ∀ c ∈ Nat.toDigits 10 particleIdx, (decimalDigit c).isSome = true := fun c hc => by
    rw [decimalDigit_of_mem_toDigits _ hc]
    rfl
  have hstop : (decimalDigit '_').isSome = false := by decide
  rw [takeWhile_append_of_pos hdigits, dropWhile_append_of_pos hdigits]
  simp [hstop]

/-- They are read as the index. -/
theorem foldl_decimalDigit :
    (Nat.toDigits 10 particleIdx).foldl (fun n c => 10 * n + (decimalDigit c).getD 0) 0 = particleIdx := by
  rw [foldl_ext _ (fun n c => 10 * n + (c.toNat - 48)) 0 fun n c hc => by
    rw [decimalDigit_of_mem_toDigits _ hc, Option.getD_some]]
  exact Nat.ofDigitChars_ten_toDigits

/-- The id of a particle decodes to the parent and the index exactly if the parent contains no newline, and ids of
particles of any parents are equal only for one parent and one index. -/
theorem powerSmcChildRequestId_decodes (hne : parentId ≠ "") :
    (parsePowerSmcChildRequestId (makePowerSmcChildRequestId parentId particleIdx) = some ⟨parentId, particleIdx⟩ ↔
      '\n' ∉ parentId.toList) ∧
      ∀ parent other i j, makePowerSmcChildRequestId parent i = makePowerSmcChildRequestId other j →
        parent = other ∧ i = j := by
  refine ⟨?_, fun parent other i j heq => ?_⟩
  · obtain ⟨hdigits, hbody⟩ := span_toDigits particleIdx parentId.toList
    simp only [parsePowerSmcChildRequestId, toList_makePowerSmcChildRequestId, hdigits, hbody]
    constructor
    · intro h
      generalize (if parentId.toList.getLast? = some '\n' then _ else _) = parent at h
      split_ifs at h with hparent
      simp only [Option.some.injEq, PowerSMCChildRequestInfo.mk.injEq] at h
      -- what is returned as the parent has been checked
      have hlist : parent = parentId.toList := String.toList_ofList.symm.trans (congrArg String.toList h.1)
      rw [hlist] at hparent
      simp only [Bool.or_eq_true, not_or, contains_eq_mem, decide_eq_true_eq] at hparent
      exact hparent.2
    · intro hline
      have hlast : parentId.toList.getLast? ≠ some '\n' := fun h => hline (mem_of_getLast? h)
      simp [foldl_decimalDigit, hlast, hne, hline]
  · have hlists := congrArg String.toList heq
    simp only [toList_makePowerSmcChildRequestId, cons.injEq, true_and] at hlists
    have hi := span_toDigits i parent.toList
    rw [hlists] at hi
    obtain ⟨hdigits, hbody⟩ := span_toDigits j other.toList
    refine ⟨String.toList_inj.mp (cons.inj (hi.2.symm.trans hbody)).2, ?_⟩
    rw [← Nat.ofDigitChars_ten_toDigits (n := i), ← hi.1, hdigits, Nat.ofDigitChars_ten_toDigits]

/-- A parent id that looks like a child id. -/
theorem powerSmcChildRequestId_decodes_nested :
    parsePowerSmcChildRequestId (makePowerSmcChildRequestId "psmc0_a" 12) = some ⟨"psmc0_a", 12⟩ :=
  (powerSmcChildRequestId_decodes "psmc0_a" 12 (by decide)).1.mpr (by decide)

/-- A newline inside the parent id is not matched, and one at its end is lost. -/
theorem powerSmcChildRequestId_newline :
    parsePowerSmcChildRequestId (makePowerSmcChildRequestId "a\nb" 0) = none ∧
      parsePowerSmcChildRequestId (makePowerSmcChildRequestId "a\n" 0) = some ⟨"a", 0⟩ := by
  decide +kernel

end VllmPs
