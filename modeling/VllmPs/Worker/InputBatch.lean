import VllmPs.Lib.Buffer
import VllmPs.Lib.Table
import VllmPs.Lib.Transition
import VllmPs.PowerSMC.Manager

/-!
# The persistent batch of the worker

`InputBatch` keeps the requests of a step in rows. Requests are removed, new ones take free rows, the last rows
move into the holes, and the attention backend may exchange rows. Rows are never cleared as a whole: each
operation writes what it writes in the source. The arrays are kept here by row.
-/

namespace VllmPs.Worker

open Lib Function

variable {F G : Type}

abbrev BlockId := ℕ

/-! ## Requests -/

structure Prompt where
  tokenIds : Option (List Token)
  embeds : Option (List ℕ) := none
  isTokenIds : Option (List Bool) := none
  isTokenIds_length : ∀ ids flags, tokenIds = some ids → isTokenIds = some flags → flags.length = ids.length := by
    simp
deriving DecidableEq

namespace Prompt

/-- `length_from_prompt_token_ids_or_embeds` -/
def length (prompt : Prompt) : ℕ :=
  match prompt.tokenIds with
  | some ids => ids.length
  | none => (prompt.embeds.getD []).length

/-- Which positions of the prompt are tokens. -/
def flags (prompt : Prompt) : List Bool :=
  match prompt.tokenIds with
  | some ids => prompt.isTokenIds.getD (List.replicate ids.length true)
  | none => List.replicate prompt.length false

end Prompt

/-- The sampling parameters that the worker reads. An empty list stands for a missing one. -/
structure SamplingParams (F : Type) where
  /-- `sampling_type == SamplingType.GREEDY` -/
  greedy : Bool := false
  temperature : F
  topP : F
  topK : ℤ := 0
  frequencyPenalty : F
  presencePenalty : F
  repetitionPenalty : F
  allowedTokenIds : List ℕ := []
  badWordsTokenIds : List (List Token) := []
  powerSmcConfig : Option (PowerSMCConfig F) := none
  minTokens : ℕ := 0
  allStopTokenIds : List Token := []
deriving DecidableEq

structure PoolingParams where
  requiresTokenIds : Bool
deriving DecidableEq

/-- `CachedRequestState`. Block ids are kept by group. -/
structure CachedRequestState (F G : Type) where
  reqId : RequestId
  prompt : Prompt
  samplingParams : Option (SamplingParams F) := none
  poolingParams : Option PoolingParams := none
  generator : Option G := none
  blockIds : ℕ → List BlockId := fun _ => []
  numComputedTokens : ℤ := 0
  outputTokenIds : List Token := []
  /-- The draft tokens of the current step; `prev_num_draft_len` is their number. -/
  draftTokenIds : List Token := []
  /-- `lora_request.lora_int_id` -/
  loraId : Option ℕ := none

/-- The data of a running request that a step changes. -/
structure RowUpdate where
  reqId : RequestId
  numComputedTokens : ℤ
  newBlockIds : ℕ → List BlockId := fun _ => []
  draftTokenIds : List Token := []

namespace CachedRequestState

def numPromptTokens (request : CachedRequestState F G) : ℕ := request.prompt.length

def numTokens (request : CachedRequestState F G) : ℕ := request.numPromptTokens + request.outputTokenIds.length

/-- The request with sampled tokens. -/
def sample (tokenIds : List Token) (request : CachedRequestState F G) : CachedRequestState F G :=
  { request with outputTokenIds := request.outputTokenIds ++ tokenIds }

/-- The request with the changes of a step. -/
def advance (update : RowUpdate) (request : CachedRequestState F G) : CachedRequestState F G :=
  { request with
    numComputedTokens := update.numComputedTokens
    blockIds := fun group => request.blockIds group ++ update.newBlockIds group
    draftTokenIds := update.draftTokenIds }

end CachedRequestState

/-! ## Power-SMC -/

section PowerSMC

variable [PyFloat F]

/-- `alpha_ramp` -/
def alphaRamp (step : ℕ) (alphaFinal : F) (rampTokens : ℕ) : F :=
  if rampTokens ≤ 1 then alphaFinal
  else if step < rampTokens then 1 + (alphaFinal - 1) * (((step + 1 : ℕ) : F) / (rampTokens : F))
  else alphaFinal

/-- `proposal_temperature` -/
def proposalTemperature (alphaT : F) : Except PyError F :=
  if PyFloat.le alphaT 0 then .error .valueError else .ok (1 / alphaT)

/-- `_power_smc_alpha_for_req_index` of a row with these output tokens. -/
def powerSmcAlphaFor (config : PowerSMCConfig F) (outputTokenIds : List Token) : F :=
  alphaRamp (outputTokenIds.countP fun tokenId => tokenId ≠ -1) config.alpha config.alphaRampTokens

end PowerSMC

/-! ## Rows -/

/-- A row of a block table. -/
structure BlockRow where
  cells : ℕ → BlockId := fun _ => 0
  numBlocks : ℕ := 0

namespace BlockRow

variable (blocksPerKvBlock : ℕ)
variable (blockIds : List BlockId)

/-- `map_to_kernel_blocks` -/
def mapToKernelBlocks : List BlockId :=
  blockIds.flatMap fun blockId => (List.range blocksPerKvBlock).map (blockId * blocksPerKvBlock + ·)

def appendRow (row : BlockRow) : BlockRow :=
  let blockIds := mapToKernelBlocks blocksPerKvBlock blockIds
  { cells := write row.cells row.numBlocks blockIds, numBlocks := row.numBlocks + blockIds.length }

def addRow (row : BlockRow) : BlockRow :=
  appendRow blocksPerKvBlock blockIds { row with numBlocks := 0 }

def clearRow (row : BlockRow) : BlockRow :=
  { cells := copyFirst row.numBlocks (fun _ => 0) row.cells, numBlocks := 0 }

def moveRow (source target : BlockRow) : BlockRow :=
  { cells := copyFirst source.numBlocks source.cells target.cells, numBlocks := source.numBlocks }

end BlockRow

structure BatchRow (F G : Type) where
  tokenIds : ℕ → Token
  isTokenIds : ℕ → Bool
  promptEmbeds : Option (List ℕ) := none
  numTokensNoSpec : ℕ := 0
  numPromptTokens : ℕ := 0
  numComputedTokens : ℤ := 0
  blocks : ℕ → BlockRow := fun _ => {}
  temperature : F
  powerSmcAlpha : F
  topP : F
  topK : ℤ
  frequencyPenalty : F
  presencePenalty : F
  repetitionPenalty : F
  loraId : ℕ := 0
  generator : Option G := none
  /-- The row of `allowed_token_ids_mask_cpu_tensor`; before its allocation no token is masked. -/
  allowedMask : ℕ → Bool := fun _ => false
  badWords : Option (List (List Token)) := none
  /-- `logits_processing_needs_token_ids` -/
  needsTokenIds : Bool := false

/-- The settings of the batch. -/
structure BatchConfig where
  maxNumReqs : ℕ
  vocabSize : ℕ
  isPoolingModel : Bool := false
  /-- `blocks_per_kv_block` of each group. -/
  blocksPerKvBlock : ℕ → ℕ := fun _ => 1

namespace BatchRow

variable (config : BatchConfig)

/-- The tokens and blocks that `add_request` writes. -/
def addTokens (request : CachedRequestState F G) (row : BatchRow F G) : BatchRow F G :=
  let numPromptTokens := request.numPromptTokens
  let outputTokenIds := request.outputTokenIds
  let tokenIds :=
    match request.prompt.tokenIds with
    | some ids => write row.tokenIds 0 ids
    | none => row.tokenIds
  { row with
    numPromptTokens := numPromptTokens
    tokenIds := write tokenIds numPromptTokens outputTokenIds
    isTokenIds := write (write row.isTokenIds 0 request.prompt.flags) numPromptTokens
      (List.replicate outputTokenIds.length true)
    promptEmbeds := request.prompt.embeds.or row.promptEmbeds
    numTokensNoSpec := request.numTokens
    numComputedTokens := request.numComputedTokens
    blocks := fun group => (row.blocks group).addRow (config.blocksPerKvBlock group) (request.blockIds group)
    loraId := request.loraId.getD 0 }

/-- `top_k` of the row. -/
def effectiveTopK (topK : ℤ) : ℤ := if 0 < topK ∧ topK < config.vocabSize then topK else config.vocabSize

def maskOf (allowedTokenIds : List ℕ) : ℕ → Bool := fun token => decide (token ∉ allowedTokenIds)

/-- The sampling parameters that `add_request` writes; the exponent of a Power-SMC request and its temperature
are written as in `_refresh_power_smc_cpu_state`. -/
def addSampling [PyFloat F] (request : CachedRequestState F G) (params : SamplingParams F) (row : BatchRow F G) :
    Except PyError (BatchRow F G) := do
  let row := { row with
    temperature := if params.greedy then 0 else params.temperature
    topP := params.topP
    topK := effectiveTopK config params.topK
    frequencyPenalty := params.frequencyPenalty
    presencePenalty := params.presencePenalty
    repetitionPenalty := params.repetitionPenalty
    generator := request.generator.or row.generator
    allowedMask := if params.allowedTokenIds ≠ [] then maskOf params.allowedTokenIds else row.allowedMask
    badWords := if params.badWordsTokenIds ≠ [] then some params.badWordsTokenIds else row.badWords }
  match params.powerSmcConfig with
  | none => return row
  | some powerSmcConfig =>
    let alphaT := powerSmcAlphaFor powerSmcConfig request.outputTokenIds
    let temperature ← proposalTemperature alphaT
    return { row with powerSmcAlpha := alphaT, temperature := temperature }

/-- What `remove_request` clears. -/
def remove (row : BatchRow F G) : BatchRow F G :=
  let row := { row with blocks := fun group => (row.blocks group).clearRow, loraId := 0 }
  if config.isPoolingModel then row
  else { row with generator := none, allowedMask := fun _ => false, badWords := none }

/-- The target row after `condense` has moved a row with this many active tokens. -/
def moveTo (numTokens : ℕ) (source target : BatchRow F G) : BatchRow F G :=
  let row := { target with
    tokenIds := copyFirst numTokens source.tokenIds target.tokenIds
    isTokenIds := copyFirst numTokens source.isTokenIds target.isTokenIds
    promptEmbeds := source.promptEmbeds.or target.promptEmbeds
    numTokensNoSpec := source.numTokensNoSpec
    numPromptTokens := source.numPromptTokens
    numComputedTokens := source.numComputedTokens
    blocks := fun group => (source.blocks group).moveRow (target.blocks group)
    loraId := source.loraId }
  if config.isPoolingModel then row
  else { row with
    temperature := source.temperature
    powerSmcAlpha := source.powerSmcAlpha
    topP := source.topP
    topK := source.topK
    frequencyPenalty := source.frequencyPenalty
    presencePenalty := source.presencePenalty
    repetitionPenalty := source.repetitionPenalty
    generator := source.generator.or target.generator
    allowedMask := source.allowedMask
    badWords := source.badWords.or target.badWords }

/-- The row that `condense` has moved away. -/
def moveFrom (source : BatchRow F G) : BatchRow F G :=
  let row := { source with promptEmbeds := none }
  if config.isPoolingModel then row else { row with generator := none, badWords := none }

/-- A row after `swap_states` has exchanged it with another one, which have this many active tokens. The rows
of the mask are exchanged through views: the assignment to the second row copies the row itself. -/
def swapWith (numTokens : ℕ) (second : Bool) (row other : BatchRow F G) : BatchRow F G :=
  let swapped := { row with
    tokenIds := copyFirst numTokens other.tokenIds row.tokenIds
    isTokenIds := copyFirst numTokens other.isTokenIds row.isTokenIds
    promptEmbeds := other.promptEmbeds
    numTokensNoSpec := other.numTokensNoSpec
    numPromptTokens := other.numPromptTokens
    numComputedTokens := other.numComputedTokens
    blocks := other.blocks
    loraId := other.loraId }
  if config.isPoolingModel then swapped
  else { swapped with
    temperature := other.temperature
    powerSmcAlpha := other.powerSmcAlpha
    topP := other.topP
    topK := other.topK
    frequencyPenalty := other.frequencyPenalty
    presencePenalty := other.presencePenalty
    repetitionPenalty := other.repetitionPenalty
    generator := other.generator
    badWords := other.badWords
    allowedMask := if second then row.allowedMask else other.allowedMask }

/-- Write tokens after the tokens of the row. -/
def writeTokens (tokenIds : List Token) (row : BatchRow F G) : BatchRow F G :=
  { row with
    tokenIds := write row.tokenIds row.numTokensNoSpec tokenIds
    isTokenIds := write row.isTokenIds row.numTokensNoSpec (List.replicate tokenIds.length true) }

/-- Append sampled tokens to the row. -/
def sample (tokenIds : List Token) (row : BatchRow F G) : BatchRow F G :=
  { row.writeTokens tokenIds with numTokensNoSpec := row.numTokensNoSpec + tokenIds.length }

/-- The row with the changes of a step. -/
def advance (update : RowUpdate) (row : BatchRow F G) : BatchRow F G :=
  { row with
    numComputedTokens := update.numComputedTokens
    blocks := fun group => (row.blocks group).appendRow (config.blocksPerKvBlock group) (update.newBlockIds group) }

end BatchRow

/-! ## Changes of the batch -/

inductive MoveDirectionality
  | unidirectional
  | swap
deriving DecidableEq

/-- `BatchUpdateBuilder`; an added request is entered with its row, its parameters and its id. -/
structure BatchUpdateBuilder (F : Type) where
  removed : List ℕ := []
  isRemovedSorted : Bool := false
  added : List (ℕ × SamplingParams F × RequestId) := []
  moved : List (ℕ × ℕ × MoveDirectionality) := []
  batchChanged : Bool := false

namespace BatchUpdateBuilder

variable (builder : BatchUpdateBuilder F)

/-- `_ensure_removed_sorted` -/
def ensureRemovedSorted : BatchUpdateBuilder F :=
  if builder.isRemovedSorted then builder
  else { builder with removed := builder.removed.insertionSort (· ≥ ·), isRemovedSorted := true }

def removedAppend (index : ℕ) : Except PyError (BatchUpdateBuilder F) :=
  if builder.isRemovedSorted then .error .runtimeError
  else .ok { builder with removed := builder.removed ++ [index], batchChanged := true }

/-- `pop_removed`: the lowest removed row. -/
def popRemoved : Option ℕ × BatchUpdateBuilder F :=
  if builder.removed = [] then (none, builder)
  else
    let builder := builder.ensureRemovedSorted
    (builder.removed.getLast?, { builder with removed := builder.removed.dropLast })

/-- `not any((self._removed, self.moved, self.added))` -/
def unchanged : Bool :=
  builder.removed.isEmpty && builder.moved.isEmpty && builder.added.isEmpty

end BatchUpdateBuilder

/-- The parts of `SamplingMetadata` that depend on the rows of several requests or on earlier requests. -/
structure SamplingMetadata (F : Type) where
  temperature : Option (List F) := none
  promptTokenIds : Option (List (List Token)) := none
  allowedTokenIdsMask : Option (List (ℕ → Bool)) := none
  powerSmcAlpha : Option (List F) := none

/-- `InputBatch` -/
structure InputBatch (F G : Type) where
  config : BatchConfig
  rows : ℕ → BatchRow F G
  reqIds : List (Option RequestId) := []
  reqIdToIndex : Table RequestId ℕ := ∅
  /-- The requests whose output tokens the rows refer to. -/
  reqOutputTokenIds : List (Option RequestId) := []
  specTokenIds : List (List Token) := []
  randomReqs : List RequestId := []
  frequencyPenaltiesReqs : List RequestId := []
  presencePenaltiesReqs : List RequestId := []
  repetitionPenaltiesReqs : List RequestId := []
  hasAllowedTokenIds : List RequestId := []
  powerSmcConfigs : Table RequestId (PowerSMCConfig F) := ∅
  builder : BatchUpdateBuilder F := {}
  samplingMetadata : SamplingMetadata F := {}

namespace InputBatch

variable (b : InputBatch F G)

def numReqs : ℕ := b.reqIdToIndex.entries.length

variable (i : ℕ)

/-- The draft tokens of a row. -/
def spec : List Token := (b.specTokenIds[i]?).getD []

/-- The request of a row. -/
def reqAt : Option RequestId := (b.reqIds[i]?).join

/-- `_get_active_token_count` -/
def activeTokenCount : ℕ := (b.rows i).numTokensNoSpec + (b.spec i).length

/-- Change a row. -/
def modifyRow (f : BatchRow F G → BatchRow F G) : InputBatch F G :=
  { b with rows := update b.rows i (f (b.rows i)) }

/-! ## Adding and removing -/

section Add

variable [PyFloat F]
variable (b : InputBatch F G)

/-- `_register_add_request` -/
def registerAddRequest (request : CachedRequestState F G) : Except PyError (InputBatch F G × ℕ) :=
  let popped := b.builder.popRemoved
  let newReqIndex := popped.1.getD b.numReqs
  if b.config.maxNumReqs ≤ newReqIndex then .error .assertionError
  else
    let builder := { popped.2 with
      batchChanged := true
      added :=
        match request.samplingParams with
        | some params => popped.2.added ++ [(newReqIndex, params, request.reqId)]
        | none => popped.2.added }
    .ok ({ b with builder := builder }, newReqIndex)

/-- The lists by row that `add_request` writes. -/
def placeRequest (reqIndex : ℕ) (reqId : RequestId) : InputBatch F G :=
  let b :=
    if reqIndex = b.reqIds.length then
      { b with
        reqIds := b.reqIds ++ [some reqId]
        reqOutputTokenIds := b.reqOutputTokenIds ++ [some reqId]
        specTokenIds := b.specTokenIds ++ [[]] }
    else
      { b with
        reqIds := b.reqIds.set reqIndex (some reqId)
        reqOutputTokenIds := b.reqOutputTokenIds.set reqIndex (some reqId)
        specTokenIds := b.specTokenIds.set reqIndex [] }
  { b with reqIdToIndex := b.reqIdToIndex.insert reqId reqIndex }

def addIf (reqs : List RequestId) (reqId : RequestId) (c : Bool) : List RequestId :=
  if c then reqs.insert reqId else reqs

/-- The sets and dictionaries by request that `add_request` writes. -/
def addToSets (reqId : RequestId) (params : SamplingParams F) : InputBatch F G :=
  { b with
    randomReqs := addIf b.randomReqs reqId (!params.greedy || params.powerSmcConfig.isSome)
    frequencyPenaltiesReqs := addIf b.frequencyPenaltiesReqs reqId (!PyFloat.eq params.frequencyPenalty 0)
    presencePenaltiesReqs := addIf b.presencePenaltiesReqs reqId (!PyFloat.eq params.presencePenalty 0)
    repetitionPenaltiesReqs := addIf b.repetitionPenaltiesReqs reqId (!PyFloat.eq params.repetitionPenalty 1)
    hasAllowedTokenIds := addIf b.hasAllowedTokenIds reqId (!params.allowedTokenIds.isEmpty)
    powerSmcConfigs :=
      match params.powerSmcConfig with
      | some powerSmcConfig => b.powerSmcConfigs.insert reqId powerSmcConfig
      | none => b.powerSmcConfigs }

/-- `add_request` -/
def addRequest (request : CachedRequestState F G) : Except PyError (InputBatch F G) := do
  let registered ← b.registerAddRequest request
  let reqIndex := registered.2
  let b := registered.1.placeRequest reqIndex request.reqId
  let row := (b.rows reqIndex).addTokens b.config request
  match request.samplingParams, request.poolingParams with
  | some params, _ => do
    let row ← row.addSampling b.config request params
    return (b.addToSets request.reqId params).modifyRow reqIndex fun _ => row
  | none, some pooling =>
    return b.modifyRow reqIndex fun _ => { row with needsTokenIds := pooling.requiresTokenIds }
  | none, none => .error .runtimeError

end Add

variable (reqId : RequestId)

/-- `update_req_spec_token_ids` with the draft tokens of the request. -/
def updateReqSpecTokenIds (draftTokenIds : List Token) : Except PyError (InputBatch F G) :=
  match b.reqIdToIndex.lookup reqId with
  | none => .error .keyError
  | some reqIndex =>
    let b := { b with specTokenIds := b.specTokenIds.set reqIndex draftTokenIds }
    .ok (if draftTokenIds = [] then b else b.modifyRow reqIndex (·.writeTokens draftTokenIds))

/-- The lists by row that `remove_request` clears. -/
def vacateRow (reqIndex : ℕ) (reqId : RequestId) : InputBatch F G :=
  { b with
    reqIdToIndex := b.reqIdToIndex.erase reqId
    reqIds := b.reqIds.set reqIndex none
    reqOutputTokenIds := b.reqOutputTokenIds.set reqIndex none
    specTokenIds := b.specTokenIds.set reqIndex [] }

/-- The sets and dictionaries by request from which `remove_request` takes a request. -/
def removeFromSets : InputBatch F G :=
  { b with
    randomReqs := b.randomReqs.erase reqId
    frequencyPenaltiesReqs := b.frequencyPenaltiesReqs.erase reqId
    presencePenaltiesReqs := b.presencePenaltiesReqs.erase reqId
    repetitionPenaltiesReqs := b.repetitionPenaltiesReqs.erase reqId
    hasAllowedTokenIds := b.hasAllowedTokenIds.erase reqId
    powerSmcConfigs := b.powerSmcConfigs.erase reqId }

/-- `remove_request` -/
def removeRequest : Except PyError (InputBatch F G) :=
  match b.reqIdToIndex.lookup reqId with
  | none => .ok b
  | some reqIndex => do
    let builder ← b.builder.removedAppend reqIndex
    let b := ({ b with builder := builder }.vacateRow reqIndex reqId).modifyRow reqIndex (·.remove b.config)
    if b.config.isPoolingModel then return b
    return b.removeFromSets reqId

/-! ## Moving rows -/

/-- Exchange two entries of a list. -/
def swapEntries {A : Type} (l : List A) (i j : ℕ) : List A :=
  match l[i]?, l[j]? with
  | some a, some b => (l.set i b).set j a
  | _, _ => l

/-- `swap_states` -/
def swapStates (i₁ i₂ : ℕ) : Except PyError (InputBatch F G) :=
  match b.reqAt i₁, b.reqAt i₂ with
  | some oldId₁, some oldId₂ =>
    let maxActiveTokenCount := max (b.activeTokenCount i₁) (b.activeTokenCount i₂)
    let row₁ := (b.rows i₁).swapWith b.config maxActiveTokenCount false (b.rows i₂)
    let row₂ := (b.rows i₂).swapWith b.config maxActiveTokenCount true (b.rows i₁)
    .ok { b with
      reqIds := swapEntries b.reqIds i₁ i₂
      reqOutputTokenIds := swapEntries b.reqOutputTokenIds i₁ i₂
      specTokenIds := swapEntries b.specTokenIds i₁ i₂
      reqIdToIndex := (b.reqIdToIndex.insert oldId₁ i₂).insert oldId₂ i₁
      rows := update (update b.rows i₁ row₁) i₂ row₂
      builder := if b.config.isPoolingModel then b.builder
        else { b.builder with moved := b.builder.moved ++ [(i₁, i₂, .swap)] } }
  | _, _ => .error .assertionError

/-- The largest row up to this one that is not empty. -/
def lastFilled (removed : List ℕ) : ℕ → ℕ
  | 0 => 0
  | last + 1 => if last + 1 ∈ removed then lastFilled removed last else last + 1

/-- `condense` moves the request of the last row into an empty row. -/
def moveRequest (lastReqIndex emptyIndex : ℕ) : Except PyError (InputBatch F G) :=
  match b.reqAt lastReqIndex with
  | none => .error .assertionError
  | some reqId =>
    let numTokens := b.activeTokenCount lastReqIndex
    .ok { b with
      reqIds := (b.reqIds.set emptyIndex (some reqId)).set lastReqIndex none
      reqOutputTokenIds := (b.reqOutputTokenIds.set emptyIndex (b.reqOutputTokenIds[lastReqIndex]?).join).set
        lastReqIndex none
      reqIdToIndex := b.reqIdToIndex.insert reqId emptyIndex
      specTokenIds := (b.specTokenIds.set emptyIndex (b.spec lastReqIndex)).set lastReqIndex []
      rows := update (update b.rows emptyIndex
        ((b.rows lastReqIndex).moveTo b.config numTokens (b.rows emptyIndex))) lastReqIndex
        ((b.rows lastReqIndex).moveFrom b.config)
      builder := if b.config.isPoolingModel then b.builder
        else { b.builder with moved := b.builder.moved ++ [(lastReqIndex, emptyIndex, .unidirectional)] } }

/-- The loop of `condense`; the removed rows are sorted. -/
def condenseLoop : ℕ → ℕ → InputBatch F G → Except PyError (InputBatch F G)
  | 0, _, b => .ok b
  | fuel + 1, lastReqIndex, b =>
    let lastReqIndex := lastFilled b.builder.removed lastReqIndex
    match b.builder.removed.getLast? with
    | none => .ok b
    | some emptyIndex =>
      if lastReqIndex ≤ emptyIndex then .ok b
      else do
        let b ← { b with builder := { b.builder with removed := b.builder.removed.dropLast } }.moveRequest
          lastReqIndex emptyIndex
        condenseLoop fuel (lastReqIndex - 1) b

/-- `condense` -/
def condense : Except PyError (InputBatch F G) :=
  let numReqs := b.numReqs
  let b := { b with builder := b.builder.ensureRemovedSorted }
  if b.builder.removed = [] then .ok b
  else if numReqs = 0 then .ok { b with reqIds := [], reqOutputTokenIds := [], specTokenIds := [] }
  else do
    let b ← b.condenseLoop b.builder.removed.length (numReqs + b.builder.removed.length - 1)
    return { b with
      reqIds := b.reqIds.take numReqs
      reqOutputTokenIds := b.reqOutputTokenIds.take numReqs
      specTokenIds := b.specTokenIds.take numReqs }

/-! ## Metadata -/

section Metadata

variable [PyFloat F]
variable (b : InputBatch F G)

def allGreedy : Bool := b.randomReqs.isEmpty

def noPenalties : Bool :=
  b.presencePenaltiesReqs.isEmpty && b.frequencyPenaltiesReqs.isEmpty && b.repetitionPenaltiesReqs.isEmpty

variable (outputs : RequestId → List Token)

/-- `_refresh_power_smc_cpu_state` for one request, with the output tokens of the requests. -/
def refreshPowerSmcRow (b : InputBatch F G)
    (entry : RequestId × PowerSMCConfig F) : Except PyError (InputBatch F G) :=
  match b.reqIdToIndex.lookup entry.1 with
  | none => .ok b
  | some reqIndex =>
    match (b.reqOutputTokenIds[reqIndex]?).join with
    | none => .error .assertionError
    | some owner => do
      let alphaT := powerSmcAlphaFor entry.2 (outputs owner)
      let temperature ← proposalTemperature alphaT
      return b.modifyRow reqIndex fun row => { row with powerSmcAlpha := alphaT, temperature := temperature }

/-- `_refresh_power_smc_cpu_state` -/
def refreshPowerSmcCpuState (b : InputBatch F G) : Except PyError (InputBatch F G) :=
  (b.powerSmcConfigs.entries.map fun e => (e.1, e.2)).foldlM (refreshPowerSmcRow outputs) b

/-- `_make_prompt_token_ids_cpu_tensor` -/
def makePromptTokenIds : List (List Token) :=
  let rows := (List.range b.numReqs).map b.rows
  let maxPromptLen := (rows.map (·.numPromptTokens)).foldl max 0
  rows.map fun row => slice row.tokenIds 0 row.numPromptTokens ++
    List.replicate (maxPromptLen - row.numPromptTokens) (b.config.vocabSize : ℤ)

/-- The metadata of the first rows. -/
def metadataOfRows : SamplingMetadata F :=
  let rows := (List.range b.numReqs).map b.rows
  let needsPromptTokenIds := !b.noPenalties || rows.any (·.needsTokenIds)
  { temperature := if b.allGreedy then none else some (rows.map (·.temperature))
    promptTokenIds := if needsPromptTokenIds then some b.makePromptTokenIds else none
    allowedTokenIdsMask := if b.hasAllowedTokenIds.isEmpty then none else some (rows.map (·.allowedMask))
    powerSmcAlpha := if b.powerSmcConfigs.entries.isEmpty then none else some (rows.map (·.powerSmcAlpha)) }

/-- `_make_sampling_metadata` -/
def makeSamplingMetadata (b : InputBatch F G) : Except PyError (InputBatch F G) := do
  let b ← if b.allGreedy then .ok b else b.refreshPowerSmcCpuState outputs
  return { b with samplingMetadata := b.metadataOfRows }

/-- `update_power_smc_sampling_state` -/
def updatePowerSmcSamplingState (b : InputBatch F G) : Except PyError (InputBatch F G) :=
  if b.powerSmcConfigs.entries.isEmpty then .ok b
  else if b.samplingMetadata.powerSmcAlpha.isNone then b.makeSamplingMetadata outputs
  else do
    let b ← b.refreshPowerSmcCpuState outputs
    let rows := (List.range b.numReqs).map b.rows
    return { b with samplingMetadata := { b.samplingMetadata with
      temperature :=
        if b.allGreedy then b.samplingMetadata.temperature else some (rows.map (·.temperature))
      powerSmcAlpha := some (rows.map (·.powerSmcAlpha)) } }

/-- `refresh_metadata`: the changes of the step are forgotten. -/
def refreshMetadata (b : InputBatch F G) : Except PyError (InputBatch F G) :=
  let reset := { b with builder := {} }
  if b.config.isPoolingModel then
    if b.builder.batchChanged then reset.makeSamplingMetadata outputs else .ok reset
  else if b.builder.unchanged then reset.updatePowerSmcSamplingState outputs
  else reset.makeSamplingMetadata outputs

end Metadata

end InputBatch

/-! ## Steps of the worker -/

structure WorkerStep (F G : Type) where
  sampled : List (RequestId × List Token) := []
  removals : List RequestId := []
  updates : List RowUpdate := []
  additions : List (CachedRequestState F G) := []
  swaps : List (ℕ × ℕ) := []

/-- The requests of the worker and its batch. -/
structure WorkerState (F G : Type) where
  requests : RequestId → Option (CachedRequestState F G) := fun _ => none
  batch : InputBatch F G
  /-- The requests that have entered the batch and have not left it since. -/
  live : List RequestId := []

namespace WorkerState

/-- The output tokens of a request. -/
def outputs (s : WorkerState F G) (reqId : RequestId) : List Token :=
  ((s.requests reqId).map (·.outputTokenIds)).getD []

/-- Change a request. -/
def modifyRequest (s : WorkerState F G) (reqId : RequestId)
    (f : CachedRequestState F G → CachedRequestState F G) : WorkerState F G :=
  { s with requests := update s.requests reqId ((s.requests reqId).map f) }

/-- The part of `_bookkeeping_sync` about one request. -/
def appendSampled (s : WorkerState F G) (sampled : RequestId × List Token) :
    Except PyError (WorkerState F G) :=
  match s.batch.reqIdToIndex.lookup sampled.1 with
  | none => .error .keyError
  | some reqIndex =>
    let s := s.modifyRequest sampled.1 (·.sample sampled.2)
    .ok { s with batch := s.batch.modifyRow reqIndex (·.sample sampled.2) }

/-- The part of `_update_states` about one request that stays in the batch. -/
def updateRow (s : WorkerState F G) (update : RowUpdate) : Except PyError (WorkerState F G) :=
  match s.batch.reqIdToIndex.lookup update.reqId with
  | none => .error .keyError
  | some reqIndex => do
    let s := s.modifyRequest update.reqId (·.advance update)
    let batch := s.batch.modifyRow reqIndex (·.advance s.batch.config update)
    let batch ← batch.updateReqSpecTokenIds update.reqId update.draftTokenIds
    return { s with batch := batch }

/-- Apply an operation on the batch. -/
def withBatch (s : WorkerState F G) (op : InputBatch F G → Except PyError (InputBatch F G)) :
    Except PyError (WorkerState F G) := do
  let batch ← op s.batch
  return { s with batch := batch }

/-- `swap_states` of two rows. -/
def swapStates (s : WorkerState F G) (swap : ℕ × ℕ) : Except PyError (WorkerState F G) :=
  s.withBatch (·.swapStates swap.1 swap.2)

variable [PyFloat F]

def addRequest (s : WorkerState F G) (request : CachedRequestState F G) : Except PyError (WorkerState F G) := do
  let batch ← s.batch.addRequest request
  let batch ← batch.updateReqSpecTokenIds request.reqId request.draftTokenIds
  return { s with requests := update s.requests request.reqId (some request), batch := batch }

def prepare (s : WorkerState F G) (w : WorkerStep F G) : Except PyError (WorkerState F G) := do
  let s ← w.sampled.foldlM appendSampled s
  let s ← w.removals.foldlM (fun s reqId => s.withBatch (·.removeRequest reqId)) s
  let s ← w.updates.foldlM updateRow s
  let s ← w.additions.foldlM addRequest s
  return { s with live := s.live.filter (· ∉ w.removals) ++ w.additions.map (·.reqId) }

/-- `_update_states`, without its branches for asynchronous speculative placeholders, pipeline ranks other than the
last, truncation after a failed KV load, and resumed tokens. -/
def step (s : WorkerState F G) (w : WorkerStep F G) : Except PyError (WorkerState F G) := do
  let s ← s.prepare w
  let s ← s.withBatch (·.condense)
  let s ← w.swaps.foldlM swapStates s
  s.withBatch (·.refreshMetadata s.outputs)

end WorkerState

end VllmPs.Worker
