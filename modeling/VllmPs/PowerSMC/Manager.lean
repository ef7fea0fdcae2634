import VllmPs.Request.Basic

/-!
# The Power-SMC group manager

`PowerSMCGroupManager` keeps the particles of one parent request: their tokens and log
weights, the states at block boundaries, and the resampling at a boundary that every
particle has reached. Floating-point arithmetic is a parameter.
-/

namespace VllmPs

/-- The float operations of the particle weights. Comparisons are those of Python. -/
class PyFloat (F : Type) extends Zero F, One F, Add F, Sub F, Mul F, Div F, NatCast F where
  exp : F → F
  fsum : List F → F
  isFinite : F → Bool
  lt : F → F → Bool
  le : F → F → Bool
  eq : F → F → Bool

/-- Exact arithmetic in place of floats. The exponential is the floats' own at zero and where it
underflows, and linear in between. -/
instance : PyFloat ℚ where
  exp x := if x ≤ -746 then 0 else max 0 (1 + x)
  fsum := List.sum
  isFinite _ := true
  lt x y := decide (x < y)
  le x y := decide (x ≤ y)
  eq x y := decide (x = y)

variable {F : Type}

structure WeightState (F : Type) where
  logWeight : F
  cumLogp : F
  prevAlpha : F
deriving DecidableEq

variable [PyFloat F]

/-- `(0.0, 0.0, 1.0)` -/
def WeightState.initial : WeightState F := ⟨0, 0, 1⟩

structure PowerSMCParticleState (F : Type) [PyFloat F] where
  tokenIds : List Token := []
  weight : WeightState F := .initial
  done : Bool := false
  finishReason : Option String := none
  stopReason : Option String := none
  historyStartLength : ℕ := 0
  historyStartState : WeightState F := .initial
  boundaryStateHistory : List (ℕ × WeightState F) := []

namespace PowerSMCParticleState

/-- `state_at` -/
def stateAt (particle : PowerSMCParticleState F) (outputLength : ℕ) :
    Except PyError (WeightState F) :=
  if outputLength = particle.tokenIds.length then .ok particle.weight
  else if outputLength = 0 then .ok .initial
  else if outputLength = particle.historyStartLength then .ok particle.historyStartState
  else if outputLength < particle.historyStartLength then .error .valueError
  else
    match particle.boundaryStateHistory.reverse.find? fun entry => entry.1 = outputLength with
    | some entry => .ok entry.2
    | none => .error .valueError

end PowerSMCParticleState

/-- `_normalize_log_weights_and_ess_from_max` -/
def normalizeLogWeightsAndEssFromMax (logWeights : List F) (maxLogWeight : F) (count : ℕ) :
    List F × F :=
  let unnormalized := logWeights.map fun w => PyFloat.exp (w - maxLogWeight)
  let total := PyFloat.fsum unnormalized
  if PyFloat.eq total 0 || !PyFloat.isFinite total then
    (List.replicate count (1 / (count : F)), (count : F))
  else
    let weights := unnormalized.map (· / total)
    let denom := weights.foldl (fun acc w => acc + w * w) 0
    (weights, if PyFloat.le denom 0 then 0 else 1 / denom)

/-- The inner loop of `systematic_resample`: move on while the weights seen do not reach the
position. -/
def advance (weights : List F) (pos : F) : ℕ → F × ℕ → F × ℕ
  | 0, state => state
  | fuel + 1, (cumulative, idx) =>
    match weights[idx]? with
    | none => (cumulative, idx)
    | some w =>
      if idx < weights.length - 1 && PyFloat.lt (cumulative + w) pos then
        advance weights pos fuel (cumulative + w, idx + 1)
      else (cumulative, idx)

/-- `systematic_resample` with the draw of the generator. -/
def systematicResample (weights : List F) (draw : F) : List ℕ :=
  let n := weights.length
  let invN : F := 1 / (n : F)
  let start := draw * invN
  ((List.range n).foldl
    (fun (state : (F × ℕ) × List ℕ) (i : ℕ) =>
      let moved := advance weights (start + (i : F) * invN) n state.1
      (moved, state.2 ++ [moved.2]))
    ((0, 0), [])).2

structure PowerSMCResamplePlan where
  ancestors : List ℕ
  particleTokenIds : List (List Token)
deriving DecidableEq

inductive ResampleSkip
  | particlesOne
  | doneParticle
  | notBlockBoundary
  | staleBlockBoundary
  | essAboveThreshold
deriving DecidableEq

/-- `_validate_self` -/
def PowerSMCConfig.validateSelf (config : PowerSMCConfig F) : Bool :=
  !PyFloat.lt config.alpha 1 && decide (1 ≤ config.particles) && decide (1 ≤ config.blockSize) &&
    (PyFloat.lt 0 config.essThreshold && PyFloat.le config.essThreshold 1) &&
    decide (1 ≤ config.alphaRampTokens)

/-- The counts of a key-value cache event that the diagnostics add up. -/
structure KvResampleEvent where
  aliasSuccessCount : ℤ := 0
  fallbackCount : ℤ := 0
  aliasedBlocks : ℤ := 0
  aliasedTokens : ℤ := 0
  cowPhysicalBlocks : ℤ := 0
  cowSavedBlocks : ℤ := 0
  cowSavedTokens : ℤ := 0
deriving DecidableEq

structure PowerSMCGroupManager (F : Type) [PyFloat F] where
  config : PowerSMCConfig F
  /-- The values that `random()` of the generator returns, one after the other. -/
  rng : ℕ → F
  numDraws : ℕ := 0
  particles : List (PowerSMCParticleState F)
  resampleCount : ℕ := 0
  essHistory : List F := []
  uniqueAncestorsPerResample : List ℕ := []
  ancestorHistory : List (List ℕ) := []
  maybeResampleCalls : ℕ := 0
  blockBoundaryChecks : ℕ := 0
  resampleSkipReasons : ResampleSkip → ℕ := fun _ => 0
  lastBoundaryCheckLength : ℕ := 0
  lastResamplePlan : Option PowerSMCResamplePlan := none
  kvResampleEvents : List KvResampleEvent := []
  chosenParticle : Option ℕ := none

namespace PowerSMCGroupManager

variable (config : PowerSMCConfig F)

/-- `PowerSMCGroupManager.__init__` of a valid configuration. -/
def new (rng : ℕ → F) : PowerSMCGroupManager F where
  config := config
  rng := rng
  particles := List.replicate config.particles {}

/-- `_alpha_at_step` -/
def alphaAtStep (step : ℕ) : F :=
  if config.alphaRampTokens ≤ 1 ∨ config.alphaRampTokens ≤ step then config.alpha
  else 1 + (config.alpha - 1) / (config.alphaRampTokens : F) * ((step + 1 : ℕ) : F)

/-- The weight of a particle after one more token. -/
def nextWeight (alphaT : F) (weight : WeightState F) (baseLogp proposalLogq : F) : WeightState F where
  logWeight :=
    (if PyFloat.eq alphaT weight.prevAlpha then weight.logWeight
      else weight.logWeight + (alphaT - weight.prevAlpha) * weight.cumLogp) +
      (alphaT * baseLogp - proposalLogq)
  cumLogp := weight.cumLogp + baseLogp
  prevAlpha := alphaT

/-- The particle after one more token. -/
def appendToken (particle : PowerSMCParticleState F) (tokenId : Token)
    (baseLogp proposalLogq : F) (finishReason stopReason : Option String) :
    PowerSMCParticleState F :=
  let step := particle.tokenIds.length
  let weight := nextWeight (alphaAtStep config step) particle.weight baseLogp proposalLogq
  { particle with
    tokenIds := particle.tokenIds ++ [tokenId]
    weight := weight
    boundaryStateHistory :=
      if (step + 1) % config.blockSize = 0 then particle.boundaryStateHistory ++ [(step + 1, weight)]
      else particle.boundaryStateHistory
    done := finishReason.isSome
    finishReason := finishReason
    stopReason := if finishReason.isSome then stopReason else none }

variable (m : PowerSMCGroupManager F)

/-- Replace one particle. -/
def setParticle (particleIdx : ℕ) (particle : PowerSMCParticleState F) : PowerSMCGroupManager F :=
  { m with particles := m.particles.set particleIdx particle }

/-- `update_after_token`: the manager after it, and whether the particle is at a block boundary. -/
def updateAfterToken (particleIdx : ℕ) (tokenId : Token)
    (baseLogp proposalLogq : F) (finishReason stopReason : Option String) :
    Except PyError (PowerSMCGroupManager F × Bool) :=
  match m.particles[particleIdx]? with
  | none => .error .indexError
  | some particle =>
    if particle.done then .error .valueError
    else
      let updated :=
        appendToken m.config particle tokenId baseLogp proposalLogq finishReason stopReason
      .ok (m.setParticle particleIdx updated,
        decide ((particle.tokenIds.length + 1) % m.config.blockSize = 0))

/-- The loop of `_eligible_resample_boundary`: `none` at the first particle that is done. -/
def minLengthLoop : List (PowerSMCParticleState F) → Option ℕ → Option (Option ℕ)
  | [], minLength => some minLength
  | particle :: rest, minLength =>
    if particle.done then none
    else
      let length := particle.tokenIds.length
      if length = 0 then minLengthLoop rest (some 0)
      else
        match minLength with
        | none => minLengthLoop rest (some length)
        | some shortest =>
          minLengthLoop rest (some (if length < shortest then length else shortest))

/-- `_eligible_resample_boundary`: the boundary, and whether a particle is done. -/
def eligibleResampleBoundary : Option ℕ × Bool :=
  match minLengthLoop m.particles none with
  | none => (none, true)
  | some none => (none, false)
  | some (some minLength) =>
    let boundary := minLength / m.config.blockSize * m.config.blockSize
    if boundary = 0 then (none, false) else (some boundary, false)

/-- `_record_resample_skip` -/
def recordResampleSkip (reason : ResampleSkip) : PowerSMCGroupManager F :=
  { m with resampleSkipReasons :=
    Function.update m.resampleSkipReasons reason (m.resampleSkipReasons reason + 1) }

def boundaryWeights (count : ℕ) : List F → Option (List F) × F
  | [] => (none, (count : F))
  | first :: rest =>
    if rest.all fun w => PyFloat.eq w first then (none, (count : F))
    else
      let maxLogWeight := rest.foldl (fun best w => if PyFloat.lt best w then w else best) first
      let normalized := normalizeLogWeightsAndEssFromMax (first :: rest) maxLogWeight count
      (some normalized.1, normalized.2)

def resampledParticle (particles : List (PowerSMCParticleState F)) (states : List (WeightState F))
    (boundaryLength ancestor : ℕ) : PowerSMCParticleState F :=
  let tokenIds := ((particles[ancestor]?.map (·.tokenIds)).getD []).take boundaryLength
  let state : WeightState F := { states.getD ancestor .initial with logWeight := 0 }
  { tokenIds := tokenIds
    weight := state
    historyStartLength := tokenIds.length
    historyStartState := state }

def resampleAt (boundaryLength : ℕ) (states : List (WeightState F))
    (weights : List F) : PowerSMCGroupManager F :=
  let ancestors := systematicResample weights (m.rng m.numDraws)
  let particles := ancestors.map (resampledParticle m.particles states boundaryLength)
  { m with
    numDraws := m.numDraws + 1
    particles := particles
    lastResamplePlan := some ⟨ancestors, particles.map (·.tokenIds)⟩
    resampleCount := m.resampleCount + 1
    ancestorHistory := m.ancestorHistory ++ [ancestors]
    uniqueAncestorsPerResample := m.uniqueAncestorsPerResample ++ [ancestors.dedup.length] }

def checkBoundary (boundaryLength : ℕ) : Except PyError (PowerSMCGroupManager F × Bool) := do
  let states ← m.particles.mapM fun particle => particle.stateAt boundaryLength
  let checked := boundaryWeights m.config.particles (states.map (·.logWeight))
  let m := { m with
    blockBoundaryChecks := m.blockBoundaryChecks + 1
    essHistory := m.essHistory ++ [checked.2]
    lastBoundaryCheckLength := boundaryLength }
  if PyFloat.le (m.config.essThreshold * (m.config.particles : F)) checked.2 then
    return (m.recordResampleSkip .essAboveThreshold, false)
  else
    match checked.1 with
    | none => .error .assertionError
    | some weights => return (m.resampleAt boundaryLength states weights, true)

/-- `maybe_resample`: the manager after it, and whether it resampled. -/
def maybeResample : Except PyError (PowerSMCGroupManager F × Bool) :=
  let m := { m with maybeResampleCalls := m.maybeResampleCalls + 1, lastResamplePlan := none }
  if m.config.particles = 1 then .ok (m.recordResampleSkip .particlesOne, false)
  else
    match m.eligibleResampleBoundary with
    | (_, true) => .ok (m.recordResampleSkip .doneParticle, false)
    | (none, false) => .ok (m.recordResampleSkip .notBlockBoundary, false)
    | (some boundaryLength, false) =>
      if boundaryLength ≤ m.lastBoundaryCheckLength then
        .ok (m.recordResampleSkip .staleBlockBoundary, false)
      else m.checkBoundary boundaryLength

/-- `record_kv_resample_event` -/
def recordKvResampleEvent (event : KvResampleEvent) : PowerSMCGroupManager F :=
  { m with kvResampleEvents := m.kvResampleEvents ++ [event] }

/-- `_normalize_log_weights_and_ess`: equal weights need no exponentials. -/
def normalizeLogWeightsAndEss (logWeights : List F) : List F × F :=
  match boundaryWeights logWeights.length logWeights with
  | (none, ess) => (List.replicate logWeights.length (1 / (logWeights.length : F)), ess)
  | (some weights, ess) => (weights, ess)

/-- The loop of `sample_index`, from a position and the weight before it on. -/
def sampleIndexFrom (draw : F) : List F → F → ℕ → Option ℕ
  | [], _, _ => none
  | weight :: rest, cumulative, idx =>
    if PyFloat.le draw (cumulative + weight) then some idx
    else sampleIndexFrom draw rest (cumulative + weight) (idx + 1)

/-- `sample_index` with the draw of the generator. -/
def sampleIndex (weights : List F) (draw : F) : ℕ :=
  (sampleIndexFrom draw weights 0 0).getD (weights.length - 1)

/-- `final_select` -/
def finalSelect : PowerSMCGroupManager F × ℕ :=
  let weights := (normalizeLogWeightsAndEss (m.particles.map (·.weight.logWeight))).1
  let chosen := sampleIndex weights (m.rng m.numDraws)
  ({ m with numDraws := m.numDraws + 1, chosenParticle := some chosen }, chosen)

/-- The entries of `diagnostics` that are not counted from others. -/
structure Diagnostics (F : Type) where
  alpha : F
  particles : ℕ
  chosenParticle : Option ℕ
  resampleCount : ℕ
  finalEss : F
  meanEss : F
  essHistory : List F
  ancestorHistory : List (List ℕ)
  maybeResampleCalls : ℕ
  blockBoundaryChecks : ℕ
  lastBoundaryCheckLength : ℕ
  resampleSkipReasons : List (ResampleSkip × ℕ)
  uniqueAncestorsPerResample : List ℕ
  particleLengths : List ℕ
  finishReasons : List (Option String)
  stopReasons : List (Option String)
  avgLogWeight : F
  kvResampleEvents : List KvResampleEvent
deriving DecidableEq

/-- `diagnostics` -/
def diagnostics : Diagnostics F :=
  let logWeights := m.particles.map (·.weight.logWeight)
  let finalEss := (normalizeLogWeightsAndEss logWeights).2
  let reasons := [.particlesOne, .doneParticle, .notBlockBoundary, .staleBlockBoundary, .essAboveThreshold]
  { alpha := m.config.alpha
    particles := m.config.particles
    chosenParticle := m.chosenParticle
    resampleCount := m.resampleCount
    finalEss := finalEss
    meanEss :=
      if m.essHistory = [] then finalEss else PyFloat.fsum m.essHistory / (m.essHistory.length : F)
    essHistory := m.essHistory
    ancestorHistory := m.ancestorHistory
    maybeResampleCalls := m.maybeResampleCalls
    blockBoundaryChecks := m.blockBoundaryChecks
    lastBoundaryCheckLength := m.lastBoundaryCheckLength
    resampleSkipReasons := reasons.map fun reason => (reason, m.resampleSkipReasons reason)
    uniqueAncestorsPerResample := m.uniqueAncestorsPerResample
    particleLengths := m.particles.map (·.tokenIds.length)
    finishReasons := m.particles.map (·.finishReason)
    stopReasons := m.particles.map (·.stopReason)
    avgLogWeight := PyFloat.fsum logWeights / (m.config.particles : F)
    kvResampleEvents := m.kvResampleEvents }

end PowerSMCGroupManager

end VllmPs
