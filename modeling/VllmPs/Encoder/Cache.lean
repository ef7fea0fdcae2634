import VllmPs.Lib.Table
import VllmPs.Request.Basic

/-!
# Scheduling encoder inputs

Before a request is given tokens, the encoder inputs whose placeholders lie in the range are looked up, loaded
from an external cache or scheduled to be computed; where that is not possible the range is cut. The worker
gathers the embeddings of the range from its own cache.
-/

namespace VllmPs

open Lib

/-- A multimodal input with its placeholder; the mask tells which positions take an embedding. -/
structure EncoderFeature extends MultiModalFeature where
  isEmbed : Option (List Bool) := none
  mask_length : ∀ mask ∈ isEmbed, mask.length = length := by simp

namespace EncoderFeature

/-- `embeds_cumsum` of a mask. -/
def embedsCumsum (mask : List Bool) : List ℕ :=
  (List.range mask.length).map fun i => (mask.take (i + 1)).count true

variable (f : EncoderFeature)

/-- `get_num_embeds` -/
def getNumEmbeds : ℕ :=
  match f.isEmbed with
  | none => f.length
  | some mask => (embedsCumsum mask).getLastD 0

/-- `get_embeds_indices_in_range` -/
def getEmbedsIndicesInRange (startIdx endIdx : ℕ) : ℕ × ℕ :=
  match f.isEmbed with
  | none => (startIdx, endIdx)
  | some mask =>
    let before (idx : ℕ) : ℕ := if idx > 0 then (embedsCumsum mask).getD (idx - 1) 0 else 0
    (before startIdx, before endIdx)

/-- A position of the prompt takes an embedding of the input. -/
def EmbedsAt (position : ℕ) : Prop :=
  f.offset ≤ position ∧ position < f.offset + f.length ∧
    ∀ mask ∈ f.isEmbed, mask[position - f.offset]? = some true
  deriving Decidable

end EncoderFeature

/-- `get_mm_features_in_window`, with the indices of the features; `bisect_left` on a sorted list
counts the keys below the bound. -/
def getMmFeaturesInWindow (features : List EncoderFeature) (start finish : ℕ) : List (EncoderFeature × ℕ) :=
  let lo := (features.takeWhile fun f => f.offset + f.length < start + 1).length
  let hi := (features.takeWhile fun f => f.offset < finish).length
  (features.zipIdx.take hi).drop lo

structure EncoderRequest where
  requestId : RequestId
  mmFeatures : List EncoderFeature

/-- The scheduler's view of the encoder cache. -/
structure EncoderCacheManager where
  numFreeSlots : ℤ
  numFreeableSlots : ℤ
  /-- The hashes with the requests that reference them. -/
  cached : Table String (List RequestId) := ∅
  requestCachedIds : Table RequestId (List ℕ) := ∅
  /-- The hashes without references, with their sizes, the oldest first. -/
  freeable : List (String × ℕ) := []
  freed : List String := []

namespace EncoderCacheManager

variable (m : EncoderCacheManager)
variable (requestId : RequestId)

/-- `request_cached_ids.setdefault(request_id, set()).add(input_id)` -/
def addCachedId (inputId : ℕ) : EncoderCacheManager :=
  let ids := (m.requestCachedIds.lookup requestId).getD []
  { m with requestCachedIds := m.requestCachedIds.insert requestId (ids.insert inputId) }

/-- `check_and_update_cache` -/
def checkAndUpdateCache (mmHash : String) (inputId : ℕ) : Except PyError (EncoderCacheManager × Bool) :=
  match m.cached.lookup mmHash with
  | none => .ok (m, false)
  | some refs =>
    -- a hash without references leaves the freeable ones
    let taken : Except PyError EncoderCacheManager :=
      if refs.isEmpty then
        match m.freeable.lookup mmHash with
        | none => .error .keyError
        | some numEmbeds => .ok { m with
            freeable := m.freeable.filter (·.1 ≠ mmHash)
            numFreeableSlots := m.numFreeableSlots - numEmbeds }
      else .ok m
    taken.map fun m =>
      ({ m with cached := m.cached.insert mmHash (refs.insert requestId) }.addCachedId requestId inputId, true)

/-- The loop of `can_allocate` that evicts the oldest hashes without references. -/
def evictUntil (numEmbeds : ℤ) (m : EncoderCacheManager) :
    List (String × ℕ) → Except PyError EncoderCacheManager
  | [] => if m.numFreeSlots < numEmbeds then .error .keyError else .ok { m with freeable := [] }
  | (mmHash, size) :: rest =>
    if m.numFreeSlots < numEmbeds then
      evictUntil numEmbeds
        { m with
          cached := m.cached.erase mmHash
          freed := m.freed ++ [mmHash]
          numFreeSlots := m.numFreeSlots + size } rest
    else .ok { m with freeable := (mmHash, size) :: rest }

/-- `can_allocate` -/
def canAllocate (f : EncoderFeature) (encoderComputeBudget numEmbedsToSchedule : ℤ) :
    Except PyError (EncoderCacheManager × Bool) :=
  if f.getNumEmbeds > encoderComputeBudget then .ok (m, false)
  else
    let numEmbeds : ℤ := f.getNumEmbeds + numEmbedsToSchedule
    if numEmbeds ≤ m.numFreeSlots then .ok (m, true)
    else if numEmbeds > m.numFreeableSlots then .ok (m, false)
    else (evictUntil numEmbeds m m.freeable).map fun m => (m, true)

/-- `allocate` -/
def allocate (f : EncoderFeature) (inputId : ℕ) : Except PyError EncoderCacheManager :=
  if m.numFreeSlots < f.getNumEmbeds ∨ m.numFreeableSlots < f.getNumEmbeds then .error .assertionError
  else .ok ({ m with
    cached := m.cached.insert f.identifier (((m.cached.lookup f.identifier).getD []).insert requestId)
    numFreeSlots := m.numFreeSlots - f.getNumEmbeds
    numFreeableSlots := m.numFreeableSlots - f.getNumEmbeds }.addCachedId requestId inputId)

def dropCachedId (inputId : ℕ) : EncoderCacheManager :=
  match m.requestCachedIds.lookup requestId with
  | none => m
  | some ids =>
    let ids := ids.erase inputId
    { m with requestCachedIds :=
      if ids.isEmpty then m.requestCachedIds.erase requestId else m.requestCachedIds.insert requestId ids }

/-- `freeable[mm_hash] = num_encoder_embeds`; a key that is there keeps its place. -/
def setFreeable (freeable : List (String × ℕ)) (mmHash : String) (size : ℕ) : List (String × ℕ) :=
  if freeable.any (·.1 = mmHash) then
    freeable.map fun entry => if entry.1 = mmHash then (mmHash, size) else entry
  else freeable ++ [(mmHash, size)]

/-- `free_encoder_input` -/
def freeEncoderInput (request : EncoderRequest) (m : EncoderCacheManager) (inputId : ℕ) :
    Except PyError EncoderCacheManager :=
  match request.mmFeatures[inputId]? with
  | none => .error .indexError
  | some f =>
    let m := m.dropCachedId request.requestId inputId
    match m.cached.lookup f.identifier with
    | none => .ok m
    | some refs =>
      if refs.isEmpty then .ok m
      else
        let refs := refs.erase request.requestId
        let m := { m with cached := m.cached.insert f.identifier refs }
        .ok (if refs.isEmpty then
          { m with
            freeable := setFreeable m.freeable f.identifier f.getNumEmbeds
            numFreeableSlots := m.numFreeableSlots + f.getNumEmbeds }
        else m)

/-- `get_cached_input_ids` -/
def getCachedInputIds : List ℕ :=
  (m.requestCachedIds.lookup requestId).getD []

/-- `free` -/
def free (request : EncoderRequest) : Except PyError EncoderCacheManager :=
  (m.getCachedInputIds request.requestId).foldlM (freeEncoderInput request) m

end EncoderCacheManager

/-- The settings that `_try_schedule_encoder_inputs` reads. -/
structure EncoderConfig where
  disableChunkedMmInput : Bool := false
  /-- `shift_computed_tokens`: one with EAGLE, none without. -/
  useEagle : Bool := false
  /-- The hashes that the external encoder cache has. -/
  hasCacheItem : String → Bool := fun _ => false

def EncoderConfig.shift (config : EncoderConfig) : ℕ := if config.useEagle then 1 else 0

/-- The variables of `_try_schedule_encoder_inputs`. -/
structure EncoderPlan where
  manager : EncoderCacheManager
  numNewTokens : ℕ
  encoderComputeBudget : ℤ
  encoderInputsToSchedule : List (EncoderFeature × ℕ) := []
  externalLoadEncoderInput : List (EncoderFeature × ℕ) := []
  numEmbedsToSchedule : ℤ := 0

namespace EncoderPlan

/-- `mm_hashes_to_schedule` -/
def mmHashesToSchedule (p : EncoderPlan) : List String :=
  (p.encoderInputsToSchedule ++ p.externalLoadEncoderInput).map (·.1.identifier)

def add (config : EncoderConfig) (p : EncoderPlan) (input : EncoderFeature × ℕ) : EncoderPlan :=
  let p := { p with numEmbedsToSchedule := p.numEmbedsToSchedule + input.1.getNumEmbeds }
  if config.hasCacheItem input.1.identifier then
    { p with externalLoadEncoderInput := p.externalLoadEncoderInput ++ [input] }
  else
    { p with
      encoderComputeBudget := p.encoderComputeBudget - input.1.getNumEmbeds
      encoderInputsToSchedule := p.encoderInputsToSchedule ++ [input] }

/-- The embeddings of an input in the range of a request. -/
def embedsInRange (f : EncoderFeature) (numComputedTokens numNewTokens : ℕ) : ℕ × ℕ :=
  f.getEmbedsIndicesInRange (numComputedTokens - f.offset)
    (min f.length (numComputedTokens + numNewTokens - f.offset))

/-- One input of the loop; `false` ends the loop. -/
def consider (config : EncoderConfig) (requestId : RequestId) (numComputedTokens : ℕ) (p : EncoderPlan)
    (input : EncoderFeature × ℕ) : Except PyError (EncoderPlan × Bool) := do
  let f := input.1
  if f.identifier ∈ p.mmHashesToSchedule then return (p, true)
  let checked ← p.manager.checkAndUpdateCache requestId f.identifier input.2
  let p := { p with manager := checked.1 }
  if checked.2 then return (p, true)
  if config.disableChunkedMmInput ∧ numComputedTokens < f.offset ∧
      numComputedTokens + p.numNewTokens < f.offset + f.length then
    return ({ p with numNewTokens := f.offset - (numComputedTokens + config.shift) }, false)
  let allocated ← p.manager.canAllocate f p.encoderComputeBudget p.numEmbedsToSchedule
  let p := { p with manager := allocated.1 }
  if allocated.2 = false then
    -- zero if the range begins inside the input
    return ({ p with numNewTokens := f.offset - (numComputedTokens + config.shift) }, false)
  let embeds := embedsInRange f numComputedTokens p.numNewTokens
  if embeds.2 = embeds.1 then return (p, true)
  return (p.add config input, true)

/-- The loop over the inputs in the window. -/
def considerAll (config : EncoderConfig) (requestId : RequestId) (numComputedTokens : ℕ) :
    List (EncoderFeature × ℕ) → EncoderPlan → Except PyError EncoderPlan
  | [], p => .ok p
  | input :: rest, p => do
    let considered ← p.consider config requestId numComputedTokens input
    if considered.2 then considerAll config requestId numComputedTokens rest considered.1
    else return considered.1

end EncoderPlan

/-- `_try_schedule_encoder_inputs` for a decoder-only model. -/
def tryScheduleEncoderInputs (config : EncoderConfig) (m : EncoderCacheManager) (request : EncoderRequest)
    (numComputedTokens numNewTokens : ℕ) (encoderComputeBudget : ℤ) : Except PyError EncoderPlan :=
  let p : EncoderPlan :=
    { manager := m, numNewTokens := numNewTokens, encoderComputeBudget := encoderComputeBudget }
  if numNewTokens = 0 then .ok p
  else p.considerAll config request.requestId numComputedTokens
    (getMmFeaturesInWindow request.mmFeatures numComputedTokens
      (numComputedTokens + numNewTokens + config.shift))

/-- One input in `_gather_mm_embeddings`. -/
def gatherMmEmbedding (encoderCache : List String) (numComputedTokens numScheduledTokens : ℕ)
    (f : EncoderFeature) : Except PyError Unit :=
  let startIdx := numComputedTokens - f.offset
  let endIdx := min (numComputedTokens + numScheduledTokens - f.offset) f.length
  if endIdx ≤ startIdx then .error .assertionError
  else
    let embeds := f.getEmbedsIndicesInRange startIdx endIdx
    if embeds.1 = embeds.2 then .ok ()
    else if f.identifier ∈ encoderCache then .ok () else .error .encoderCacheMiss

/-- `_gather_mm_embeddings` for one request. -/
def gatherMmEmbeddings (encoderCache : List String) (request : EncoderRequest)
    (numComputedTokens numScheduledTokens shiftComputedTokens : ℕ) : Except PyError Unit :=
  let numComputedTokens := numComputedTokens + shiftComputedTokens
  (getMmFeaturesInWindow request.mmFeatures numComputedTokens (numComputedTokens + numScheduledTokens)).forM
    fun input => gatherMmEmbedding encoderCache numComputedTokens numScheduledTokens input.1

end VllmPs
