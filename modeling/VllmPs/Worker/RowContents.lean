import VllmPs.Worker.RowLaws

/-!
# What the rows hold

The row of a request holds the tokens, the blocks and the sampling parameters of that request, whatever requests
used the row before. Buffers are only compared where the request has tokens or blocks; what lies behind is left
over from earlier requests.
-/

namespace VllmPs.Worker

open Lib Function BatchRow List Option

variable {F G : Type}

structure TokensOf (row : BatchRow F G) (r : CachedRequestState F G) : Prop where
  numPromptTokens : row.numPromptTokens = r.numPromptTokens
  numTokens : row.numTokensNoSpec = r.numTokens
  prompt : ∀ ids, r.prompt.tokenIds = some ids → slice row.tokenIds 0 r.numPromptTokens = ids
  output : slice row.tokenIds r.numPromptTokens r.outputTokenIds.length = r.outputTokenIds
  flags : slice row.isTokenIds 0 r.numTokens = r.prompt.flags ++ List.replicate r.outputTokenIds.length true

structure DraftsOf (row : BatchRow F G) (r : CachedRequestState F G) (spec : List Token) : Prop where
  spec : spec = r.draftTokenIds
  tokens : slice row.tokenIds r.numTokens r.draftTokenIds.length = r.draftTokenIds
  flags : slice row.isTokenIds r.numTokens r.draftTokenIds.length = List.replicate r.draftTokenIds.length true

structure SamplingOf [PyFloat F] (config : BatchConfig) (row : BatchRow F G) (r : CachedRequestState F G)
    (params : SamplingParams F) : Prop where
  topP : row.topP = params.topP
  topK : row.topK = effectiveTopK config params.topK
  frequencyPenalty : row.frequencyPenalty = params.frequencyPenalty
  presencePenalty : row.presencePenalty = params.presencePenalty
  repetitionPenalty : row.repetitionPenalty = params.repetitionPenalty
  generator : row.generator = r.generator
  badWords : row.badWords = if params.badWordsTokenIds ≠ [] then some params.badWordsTokenIds else none
  temperature : params.powerSmcConfig = none → row.temperature = if params.greedy then 0 else params.temperature

/-- The block numbers of a row. -/
def BlockRow.numbers (row : BlockRow) : List BlockId := slice row.cells 0 row.numBlocks

/-- What the rows of all models hold. -/
structure DataOf (config : BatchConfig) (row : BatchRow F G) (r : CachedRequestState F G) : Prop where
  tokens : TokensOf row r
  numComputedTokens : row.numComputedTokens = r.numComputedTokens
  blocks : ∀ group, (row.blocks group).numbers =
    BlockRow.mapToKernelBlocks (config.blocksPerKvBlock group) (r.blockIds group)
  loraId : row.loraId = r.loraId.getD 0

/-- The row of a request. -/
structure RowOf [PyFloat F] (config : BatchConfig) (row : BatchRow F G) (r : CachedRequestState F G) : Prop where
  data : DataOf config row r
  sampling : ∀ params, r.samplingParams = some params → config.isPoolingModel = false ∧
    SamplingOf config row r params

/-- Nothing of an empty row is inherited by the next request. -/
def CleanRow (config : BatchConfig) (row : BatchRow F G) : Prop :=
  config.isPoolingModel = false → row.generator = none ∧ row.badWords = none

/-! ## Tokens -/

section Tokens

variable {row row' : BatchRow F G} {r : CachedRequestState F G} {spec : List Token}

theorem TokensOf.congr (h : TokensOf row r) (hprompt : row'.numPromptTokens = row.numPromptTokens)
    (hnumTokens : row'.numTokensNoSpec = row.numTokensNoSpec)
    (htokens : ∀ k < r.numTokens, row'.tokenIds k = row.tokenIds k)
    (hflags : ∀ k < r.numTokens, row'.isTokenIds k = row.isTokenIds k) : TokensOf row' r where
  numPromptTokens := hprompt.trans h.numPromptTokens
  numTokens := hnumTokens.trans h.numTokens
  prompt ids hids := by
    rw [← h.prompt ids hids]
    refine slice_congr fun k _ hk => htokens k ?_
    unfold CachedRequestState.numTokens
    omega
  output := by
    conv_rhs => rw [← h.output]
    refine slice_congr fun k _ hk => htokens k ?_
    unfold CachedRequestState.numTokens
    omega
  flags := by
    rw [← h.flags]
    exact slice_congr fun k _ hk => hflags k (by omega)

theorem DraftsOf.congr (h : DraftsOf row r spec)
    (htokens : ∀ k < r.numTokens + spec.length, row'.tokenIds k = row.tokenIds k)
    (hflags : ∀ k < r.numTokens + spec.length, row'.isTokenIds k = row.isTokenIds k) : DraftsOf row' r spec := by
  have hspec := h.spec
  subst hspec
  refine ⟨rfl, ?_, ?_⟩
  · conv_rhs => rw [← h.tokens]
    exact slice_congr fun k _ hk => htokens k hk
  · rw [← h.flags]
    exact slice_congr fun k _ hk => hflags k hk

theorem TokensOf.writeTokens (h : TokensOf row r) (tokenIds : List Token) : TokensOf (row.writeTokens tokenIds) r := by
  have hnumTokens := h.numTokens
  refine h.congr rfl rfl (fun k hk => if_neg ?_) fun k hk => if_neg ?_
  all_goals omega

theorem TokensOf.sample (h : TokensOf row r) (tokenIds : List Token) :
    TokensOf (row.sample tokenIds) (r.sample tokenIds) := by
  have hwritten := h.writeTokens tokenIds
  have hnumTokens : (r.sample tokenIds).numTokens = r.numTokens + tokenIds.length := by
    simp only [CachedRequestState.numTokens, CachedRequestState.sample, CachedRequestState.numPromptTokens,
      length_append, Nat.add_assoc]
  refine ⟨h.numPromptTokens, ?_, hwritten.prompt, ?_, ?_⟩
  · rw [hnumTokens, ← h.numTokens]
    rfl
  · change slice (row.writeTokens tokenIds).tokenIds r.numPromptTokens (r.outputTokenIds ++ tokenIds).length =
      r.outputTokenIds ++ tokenIds
    have hstart : r.numPromptTokens + r.outputTokenIds.length = row.numTokensNoSpec := h.numTokens.symm
    rw [length_append, slice_add, hwritten.output, hstart]
    exact congrArg (r.outputTokenIds ++ ·) (slice_write_self ..)
  rw [hnumTokens, slice_add]
  change slice (row.writeTokens tokenIds).isTokenIds 0 r.numTokens ++
    slice (row.writeTokens tokenIds).isTokenIds (0 + r.numTokens) tokenIds.length =
      r.prompt.flags ++ List.replicate (r.outputTokenIds ++ tokenIds).length true
  rw [hwritten.flags, Nat.zero_add, length_append, replicate_add, ← append_assoc, ← h.numTokens]
  exact congrArg (_ ++ ·) (slice_write_replicate ..)

theorem TokensOf.drafts (h : TokensOf row r) : DraftsOf (row.writeTokens r.draftTokenIds) r r.draftTokenIds := by
  refine ⟨rfl, ?_, ?_⟩
  · rw [← h.numTokens]
    exact slice_write_self ..
  · rw [← h.numTokens]
    exact slice_write_replicate ..

theorem Prompt.length_flags (prompt : Prompt) : prompt.flags.length = prompt.length := by
  unfold flags length
  split
  case h_1 ids hids =>
    cases hflags : prompt.isTokenIds with
    | none => exact length_replicate
    | some flags => exact prompt.isTokenIds_length ids flags hids hflags
  case h_2 hnone => rw [length_replicate]

theorem tokensOf_addTokens (config : BatchConfig) (row : BatchRow F G) (r : CachedRequestState F G) :
    TokensOf (row.addTokens config r) r := by
  refine ⟨rfl, rfl, fun ids hids => ?_, slice_write_self .., ?_⟩
  · have hlength : r.numPromptTokens = ids.length := by
      unfold CachedRequestState.numPromptTokens Prompt.length
      rw [hids]
    unfold addTokens
    rw [hids, slice_write_of_le _ _ (Nat.zero_add _).le, hlength]
    exact slice_write_self ..
  unfold CachedRequestState.numTokens
  rw [slice_add, Nat.zero_add]
  unfold addTokens
  rw [slice_write_of_le _ _ (Nat.zero_add _).le, slice_write_replicate]
  have hflags := slice_write_self row.isTokenIds 0 r.prompt.flags
  rw [r.prompt.length_flags] at hflags
  exact congrArg (· ++ _) hflags

end Tokens

/-! ## Blocks -/

namespace BlockRow

variable {row : BlockRow} {blocksPerKvBlock : ℕ} {blockIds : List BlockId}

theorem numbers_appendRow (h : row.numbers = mapToKernelBlocks blocksPerKvBlock blockIds)
    (newBlockIds : List BlockId) : (row.appendRow blocksPerKvBlock newBlockIds).numbers =
      mapToKernelBlocks blocksPerKvBlock (blockIds ++ newBlockIds) := by
  have hsplit : mapToKernelBlocks blocksPerKvBlock (blockIds ++ newBlockIds) =
      mapToKernelBlocks blocksPerKvBlock blockIds ++ mapToKernelBlocks blocksPerKvBlock newBlockIds :=
    flatMap_append
  unfold numbers appendRow
  rw [slice_add, slice_write_of_le _ _ (Nat.zero_add _).le, Nat.zero_add, slice_write_self, hsplit, ← h]
  rfl

theorem numbers_addRow (row : BlockRow) : (row.addRow blocksPerKvBlock blockIds).numbers =
    mapToKernelBlocks blocksPerKvBlock blockIds := by
  unfold numbers addRow appendRow
  dsimp only
  rw [Nat.zero_add, slice_write_self]

theorem numbers_moveRow (source target : BlockRow) : (source.moveRow target).numbers = source.numbers :=
  slice_copyFirst (Nat.zero_add _).le

end BlockRow

/-! ## Sampling parameters -/

section Sampling

variable [PyFloat F] {config : BatchConfig} {row row' : BatchRow F G} {r r' : CachedRequestState F G}
  {params : SamplingParams F}

/-- The sampling parameters that a row holds. -/
def BatchRow.samplingFields (row : BatchRow F G) :=
  (row.topP, row.topK, row.frequencyPenalty, row.presencePenalty, row.repetitionPenalty, row.generator, row.badWords,
    row.temperature)

theorem SamplingOf.congr (h : SamplingOf config row r params) (hrow : row'.samplingFields = row.samplingFields)
    (hr : r'.generator = r.generator) : SamplingOf config row' r' params := by
  simp only [samplingFields, Prod.mk.injEq] at hrow
  obtain ⟨htopP, htopK, hfrequency, hpresence, hrepetition, hgenerator, hbadWords, htemperature⟩ := hrow
  refine ⟨?_, ?_, ?_, ?_, ?_, ?_, ?_, fun hpower => ?_⟩
  · rw [htopP, h.topP]
  · rw [htopK, h.topK]
  · rw [hfrequency, h.frequencyPenalty]
  · rw [hpresence, h.presencePenalty]
  · rw [hrepetition, h.repetitionPenalty]
  · rw [hgenerator, hr, h.generator]
  · rw [hbadWords, h.badWords]
  · rw [htemperature, h.temperature hpower]

theorem samplingOf_addSampling (hgenerator : row.generator = none) (hbadWords : row.badWords = none)
    (h : row.addSampling config r params = .ok row') : SamplingOf config row' r params := by
  unfold addSampling at h
  rw [hgenerator, hbadWords, or_none] at h
  cases hpower : params.powerSmcConfig with
  | none =>
    rw [hpower] at h
    cases h
    exact ⟨rfl, rfl, rfl, rfl, rfl, rfl, rfl, fun _ => rfl⟩
  | some powerSmcConfig =>
    rw [hpower] at h
    obtain ⟨temperature, -, h⟩ := bind_eq_ok.mp h
    cases h
    exact ⟨rfl, rfl, rfl, rfl, rfl, rfl, rfl, fun hnone => nomatch hpower.symm.trans hnone⟩

end Sampling

/-! ## Operations on rows -/

section Rows

variable {config : BatchConfig} {row row' source target : BatchRow F G} {r : CachedRequestState F G}
  {spec : List Token}

structure SameData (n : ℕ) (row row' : BatchRow F G) : Prop where
  tokenIds : ∀ k < n, row'.tokenIds k = row.tokenIds k
  isTokenIds : ∀ k < n, row'.isTokenIds k = row.isTokenIds k
  numPromptTokens : row'.numPromptTokens = row.numPromptTokens
  numTokensNoSpec : row'.numTokensNoSpec = row.numTokensNoSpec
  numComputedTokens : row'.numComputedTokens = row.numComputedTokens
  blocks : ∀ group, (row'.blocks group).numbers = (row.blocks group).numbers
  loraId : row'.loraId = row.loraId

theorem DataOf.congr {n : ℕ} (h : DataOf config row r) (hrow : SameData n row row') (hn : r.numTokens ≤ n) :
    DataOf config row' r where
  tokens := h.tokens.congr hrow.numPromptTokens hrow.numTokensNoSpec
    (fun k hk => hrow.tokenIds k (hk.trans_le hn)) fun k hk => hrow.isTokenIds k (hk.trans_le hn)
  numComputedTokens := hrow.numComputedTokens.trans h.numComputedTokens
  blocks group := (hrow.blocks group).trans (h.blocks group)
  loraId := hrow.loraId.trans h.loraId

theorem DraftsOf.congr_row {n : ℕ} (h : DraftsOf row r spec) (hrow : SameData n row row')
    (hn : r.numTokens + spec.length ≤ n) : DraftsOf row' r spec :=
  h.congr (fun k hk => hrow.tokenIds k (hk.trans_le hn)) fun k hk => hrow.isTokenIds k (hk.trans_le hn)

theorem sameData_moveTo (config : BatchConfig) (n : ℕ) (source target : BatchRow F G) :
    SameData n source (source.moveTo config n target) := by
  unfold moveTo
  split_ifs <;> exact ⟨fun _ hk => if_pos hk, fun _ hk => if_pos hk, rfl, rfl, rfl,
    fun _ => BlockRow.numbers_moveRow .., rfl⟩

theorem sameData_swapWith (config : BatchConfig) (n : ℕ) (second : Bool) (row other : BatchRow F G) :
    SameData n other (row.swapWith config n second other) := by
  unfold swapWith
  split_ifs <;> exact ⟨fun _ hk => if_pos hk, fun _ hk => if_pos hk, rfl, rfl, rfl, fun _ => rfl, rfl⟩

theorem sameData_addSampling [PyFloat F] {params : SamplingParams F} (n : ℕ)
    (h : row.addSampling config r params = .ok row') : SameData n row row' := by
  unfold addSampling at h
  dsimp only at h
  split at h
  · cases h
    exact ⟨fun _ _ => rfl, fun _ _ => rfl, rfl, rfl, rfl, fun _ => rfl, rfl⟩
  · obtain ⟨temperature, -, h⟩ := bind_eq_ok.mp h
    cases h
    exact ⟨fun _ _ => rfl, fun _ _ => rfl, rfl, rfl, rfl, fun _ => rfl, rfl⟩

theorem dataOf_addTokens (config : BatchConfig) (row : BatchRow F G) (r : CachedRequestState F G) :
    DataOf config (row.addTokens config r) r :=
  ⟨tokensOf_addTokens config row r, rfl, fun _ => BlockRow.numbers_addRow _, rfl⟩

end Rows

namespace RowOf

variable [PyFloat F] {config : BatchConfig} {row row₁ row₂ source target : BatchRow F G}
  {r r₁ r₂ : CachedRequestState F G} {spec spec₁ spec₂ : List Token}

theorem sample (h : RowOf config row r) (tokenIds : List Token) :
    RowOf config (row.sample tokenIds) (r.sample tokenIds) where
  data := { h.data with tokens := h.data.tokens.sample tokenIds }
  sampling params hparams := (h.sampling params hparams).imp_right fun hsampling => hsampling.congr rfl rfl

theorem advance (h : RowOf config row r) (update : RowUpdate) :
    RowOf config (row.advance config update) (r.advance update) where
  data :=
    { tokens := { h.data.tokens with }
      numComputedTokens := rfl
      blocks := fun group => BlockRow.numbers_appendRow (h.data.blocks group) _
      loraId := h.data.loraId }
  sampling params hparams := (h.sampling params hparams).imp_right fun hsampling => hsampling.congr rfl rfl

theorem writeTokens (h : RowOf config row r) (tokenIds : List Token) :
    RowOf config (row.writeTokens tokenIds) r where
  data := { h.data with tokens := h.data.tokens.writeTokens tokenIds }
  sampling params hparams := (h.sampling params hparams).imp_right fun hsampling => hsampling.congr rfl rfl

theorem entered {old : BatchRow F G} {sets sets' : RequestSets F} (hclean : CleanRow config old)
    (hparams : r.samplingParams.isSome = !config.isPoolingModel)
    (h : InputBatch.Entered config r old sets row sets') : RowOf config row r := by
  have hdata := dataOf_addTokens config old r
  cases h with
  | @sampling params _ hsome hrow =>
    rw [hsome, isSome_some, eq_comm, Bool.not_eq_true'] at hparams
    obtain ⟨hgenerator, hbadWords⟩ : (old.addTokens config r).generator = none ∧
      (old.addTokens config r).badWords = none := hclean hparams
    refine ⟨hdata.congr (sameData_addSampling r.numTokens hrow) le_rfl, fun params' hsome' => ⟨hparams, ?_⟩⟩
    obtain rfl : params = params' := mem_unique hsome hsome'
    exact samplingOf_addSampling hgenerator hbadWords hrow
  | pooling hnone _ =>
    refine ⟨hdata.congr (n := r.numTokens) ⟨fun _ _ => rfl, fun _ _ => rfl, rfl, rfl, rfl, fun _ => rfl, rfl⟩ le_rfl,
      fun params hsome => ?_⟩
    simp [hnone] at hsome

theorem moved {n : ℕ} (h : RowOf config source r) (hclean : CleanRow config target) (hn : r.numTokens ≤ n) :
    RowOf config (source.moveTo config n target) r := by
  refine ⟨h.data.congr (sameData_moveTo ..) hn, fun params hparams => ?_⟩
  obtain ⟨hpooling, hsampling⟩ := h.sampling params hparams
  obtain ⟨hgenerator, hbadWords⟩ := hclean hpooling
  refine ⟨hpooling, hsampling.congr ?_ rfl⟩
  unfold moveTo samplingFields
  rw [if_neg (Bool.eq_false_iff.mp hpooling), hgenerator, hbadWords, or_none, or_none]

theorem swapped {n : ℕ} {second : Bool} (h : RowOf config source r) (hn : r.numTokens ≤ n) :
    RowOf config (row.swapWith config n second source) r := by
  refine ⟨h.data.congr (sameData_swapWith ..) hn, fun params hparams => ?_⟩
  obtain ⟨hpooling, hsampling⟩ := h.sampling params hparams
  refine ⟨hpooling, hsampling.congr ?_ rfl⟩
  unfold swapWith samplingFields
  rw [if_neg (Bool.eq_false_iff.mp hpooling)]

theorem refreshed {params : SamplingParams F} {powerSmcConfig : PowerSMCConfig F} {alpha temperature : F}
    (h : RowOf config row r) (hparams : r.samplingParams = some params)
    (hpower : params.powerSmcConfig = some powerSmcConfig) :
    RowOf config { row with powerSmcAlpha := alpha, temperature := temperature } r := by
  refine ⟨h.data.congr (n := r.numTokens) ⟨fun _ _ => rfl, fun _ _ => rfl, rfl, rfl, rfl, fun _ => rfl, rfl⟩ le_rfl,
    fun params' hparams' => ?_⟩
  obtain rfl : params = params' := mem_unique hparams hparams'
  obtain ⟨hpooling, hsampling⟩ := h.sampling params hparams
  exact ⟨hpooling, { hsampling with temperature := fun hnone => nomatch hpower.symm.trans hnone }⟩

end RowOf

/-- The rows hold the data of their requests. -/
def rowContents [PyFloat F] (config : BatchConfig) : RowLaws config F G where
  holds drafted r row spec := RowOf config row r ∧ (drafted → DraftsOf row r spec)
  clean := CleanRow config
  movable _ := True
  swappable _ _ := True
  mono hle h := ⟨h.1, fun hdrafted => h.2 (hle hdrafted)⟩
  sample tokenIds h := ⟨h.1.sample tokenIds, nofun⟩
  advance update h := ⟨h.1.advance update, nofun⟩
  draft h := ⟨h.1.writeTokens _, fun _ => h.1.data.tokens.drafts⟩
  remove _ hpooling := by
    unfold remove
    rw [if_neg (Bool.eq_false_iff.mp hpooling)]
    exact ⟨rfl, rfl⟩
  enter hclean hparams h := ⟨RowOf.entered hclean hparams h, nofun⟩
  move _ h hclean := by
    have hn := h.1.data.tokens.numTokens
    exact ⟨h.1.moved hclean (by omega), fun _ => (h.2 trivial).congr_row (sameData_moveTo ..) (by omega)⟩
  leave _ _ hpooling := by
    unfold moveFrom
    rw [if_neg (Bool.eq_false_iff.mp hpooling)]
    exact ⟨rfl, rfl⟩
  swap _ h₁ h₂ hn₁ hn₂ := by
    rw [h₁.1.data.tokens.numTokens] at hn₁
    rw [h₂.1.data.tokens.numTokens] at hn₂
    exact ⟨⟨h₂.1.swapped (by omega), fun _ => (h₂.2 trivial).congr_row (sameData_swapWith ..) hn₂⟩,
      h₁.1.swapped (by omega), fun _ => (h₁.2 trivial).congr_row (sameData_swapWith ..) hn₁⟩
  refresh hparams hpower h := ⟨h.1.refreshed hparams hpower, fun hdrafted => (h.2 hdrafted).congr
    (fun _ _ => rfl) fun _ _ => rfl⟩

/-! ## Runs -/

namespace WorkerState

variable [PyFloat F] {config : BatchConfig} {s : WorkerState F G}
variable {laws : RowLaws config F G}

/-- A new worker. The buffers may hold anything. -/
structure Initial (config : BatchConfig) (s : WorkerState F G) : Prop where
  config : s.batch.config = config
  reqIds : s.batch.reqIds = []
  index : s.batch.reqIdToIndex = ∅
  owners : s.batch.reqOutputTokenIds = []
  specs : ∀ i, s.batch.spec i = []
  sets : s.batch.sets = ⟨[], [], ∅⟩
  builder : s.batch.builder = {}
  rows : ∀ i, (s.batch.rows i).generator = none ∧ (s.batch.rows i).badWords = none
  live : s.live = []

theorem Initial.settled (h : s.Initial config)
    (hclean : ∀ i, laws.clean (s.batch.rows i)) : s.Settled laws := by
  have hreqAt (i : ℕ) : s.batch.reqAt i = none := by
    unfold InputBatch.reqAt
    rw [h.reqIds]
    rfl
  have hindex (reqId : RequestId) : s.batch.view.index reqId = none := by
    change s.batch.reqIdToIndex.lookup reqId = none
    rw [h.index]
    rfl
  refine ⟨⟨h.config, ⟨⟨fun reqId i => ?_, fun i _ => h.specs i⟩, ?_, ?_⟩, fun i => ?_, ?_⟩, ⟨?_, fun i hi => ?_⟩,
    h.builder, fun i reqId _ _ _ hreq => ?_, fun reqId => ?_⟩
  · rw [hindex]
    change none = some i ↔ s.batch.reqAt i = some reqId
    rw [hreqAt]
    exact ⟨nofun, nofun⟩
  · rw [h.owners, h.reqIds]
  · rw [h.reqIds]
    exact Nat.zero_le _
  · change RowOk laws s.requests _ (s.batch.reqAt i) _ _
    rw [hreqAt]
    exact hclean i
  · have hnone (reqId : RequestId) : s.liveParams reqId = none := by
      unfold liveParams
      rw [hindex]
      rfl
    rw [h.sets]
    refine ⟨fun reqId => ?_, fun reqId p hp => ?_, fun reqId p hp => ?_⟩
    · rw [hnone]
      rfl
    · simp [hnone] at hp
    · simp [hnone] at hp
  · unfold InputBatch.numReqs
    rw [h.reqIds, h.index]
    rfl
  · unfold InputBatch.numReqs at hi
    rw [h.index] at hi
    exact absurd hi (Nat.not_lt_zero i)
  · simp [hreqAt] at hreq
  · rw [h.live, hindex]
    exact ⟨nofun, nofun⟩

structure Describes (config : BatchConfig) (s : WorkerState F G) (i : ℕ) (r : CachedRequestState F G) : Prop where
  row : RowOf config (s.batch.rows i) r
  drafts : DraftsOf (s.batch.rows i) r (s.batch.spec i)
  power : ∀ params powerSmcConfig, r.samplingParams = some params → params.powerSmcConfig = some powerSmcConfig →
    PowerRow (s.batch.rows i) powerSmcConfig r.outputTokenIds

theorem Settled.bijOn (h : s.Settled laws) :
    Set.BijOn (fun reqId => (s.batch.reqIdToIndex.lookup reqId).getD 0) {reqId | reqId ∈ s.live}
      (Set.Iio s.batch.numReqs) := by
  have hmatching := h.kept.indexed.matching
  have hindex {reqId : RequestId} (hlive : reqId ∈ s.live) : ∃ i, s.batch.reqIdToIndex.lookup reqId = some i :=
    Option.isSome_iff_exists.mp ((h.live reqId).mp hlive)
  refine ⟨fun reqId hlive => ?_, fun reqId₁ hlive₁ reqId₂ hlive₂ heq => ?_, fun i hi => ?_⟩
  · obtain ⟨i, hi⟩ := hindex hlive
    change (s.batch.reqIdToIndex.lookup reqId).getD 0 < s.batch.numReqs
    rw [hi, ← h.dense.length]
    exact h.kept.indexed.lt_of_index hi
  · obtain ⟨i, hi⟩ := hindex hlive₁
    obtain ⟨j, hj⟩ := hindex hlive₂
    dsimp only at heq
    rw [hi, hj, getD_some, getD_some] at heq
    exact hmatching.key_injective hi (heq ▸ hj)
  obtain ⟨reqId, hreq⟩ := Option.ne_none_iff_exists'.mp (h.dense.filled i hi)
  have hi' : s.batch.reqIdToIndex.lookup reqId = some i := (hmatching reqId i).mpr hreq
  refine ⟨reqId, (h.live reqId).mpr (Option.isSome_iff_exists.mpr ⟨i, hi'⟩), ?_⟩
  dsimp only
  rw [hi', getD_some]

/-- In every run the requests of the batch are in the first rows, one in each, and each row describes its own
request. -/
theorem rows_describe_requests (h : Reachable (Initial config) Admissible WorkerState.step s) :
    (∀ reqId, reqId ∈ s.live ↔ (s.batch.reqIdToIndex.lookup reqId).isSome) ∧
      Set.BijOn (fun reqId => (s.batch.reqIdToIndex.lookup reqId).getD 0) {reqId | reqId ∈ s.live}
        (Set.Iio s.batch.numReqs) ∧
      ∀ reqId i, s.batch.reqIdToIndex.lookup reqId = some i →
        s.batch.reqAt i = some reqId ∧ (s.batch.reqOutputTokenIds[i]?).join = some reqId ∧
          ∃ r, s.requests reqId = some r ∧ s.Describes config i r := by
  have hsettled : s.Settled (rowContents config) := by
    refine h.invariant (fun s hs => hs.settled fun i _ => hs.rows i) fun s w s' hs hok hstep => ?_
    exact hs.step hok (guarded_of_forall (fun _ => trivial) fun _ _ => trivial) hstep
  refine ⟨hsettled.live, hsettled.bijOn, fun reqId i hindex => ?_⟩
  have hreq : s.batch.reqAt i = some reqId := (hsettled.kept.indexed.matching reqId i).mp hindex
  obtain ⟨r, hr, -, hrow, hdrafts⟩ := hsettled.kept.described.held hreq
  refine ⟨hreq, ?_, r, hr, hrow, hdrafts trivial, fun params powerSmcConfig hparams hpower =>
    hsettled.powered i reqId r params powerSmcConfig hreq hr hparams hpower⟩
  rwa [hsettled.kept.indexed.owners]

/-- A request with other parameters for each row. -/
def sampleRequest (reqId : RequestId) (prompt : Prompt) (params : SamplingParams ℚ) (generator : Option ℕ)
    (draftTokenIds : List Token) : CachedRequestState ℚ ℕ :=
  { reqId := reqId, prompt := prompt, samplingParams := some params, generator := generator
    blockIds := fun _ => [prompt.length], numComputedTokens := 0, draftTokenIds := draftTokenIds }

/-- Three requests enter, the first leaves and its row is taken, that request leaves as well, and the last request
moves to its row and is exchanged with the other one. -/
def reuseRun : List (WorkerStep ℚ ℕ) :=
  let plain : SamplingParams ℚ := ⟨false, 1, 1, 0, 0, 0, 1, [], [], none, 0, []⟩
  let power : PowerSMCConfig ℚ := ⟨4, 2, 16, 1, 4, false⟩
  [ { additions := [
        sampleRequest "a" ⟨some [1, 2], none, none, by simp⟩ { plain with badWordsTokenIds := [[5]] } (some 7) [],
        sampleRequest "b" ⟨some [3], none, none, by simp⟩ { plain with powerSmcConfig := some power } none [9],
        sampleRequest "c" ⟨none, some [4, 4, 4], none, by simp⟩ { plain with greedy := true } none []] },
    { sampled := [("a", [10]), ("b", [11, 12]), ("c", [13])], removals := ["a"]
      updates := [⟨"b", 2, fun _ => [8], [14]⟩, ⟨"c", 3, fun _ => [], []⟩]
      additions := [sampleRequest "d" ⟨some [6], none, none, by simp⟩ plain none []] },
    { sampled := [("b", [15]), ("c", [16]), ("d", [17])], removals := ["d"]
      updates := [⟨"b", 4, fun _ => [], [18]⟩, ⟨"c", 4, fun _ => [], []⟩], swaps := [(0, 1)] } ]

def smallBatch : BatchConfig where
  maxNumReqs := 4
  vocabSize := 100

/-- A worker without requests. -/
def newWorker (config : BatchConfig) : WorkerState ℚ ℕ :=
  { batch := { config := config, rows := fun _ =>
    { tokenIds := fun _ => 0, isTokenIds := fun _ => false, temperature := 0, powerSmcAlpha := 0, topP := 0, topK := 0
      frequencyPenalty := 0, presencePenalty := 0, repetitionPenalty := 0 } } }

theorem newWorker_initial (config : BatchConfig) : (newWorker config).Initial config :=
  ⟨rfl, rfl, rfl, rfl, fun _ => rfl, rfl, rfl, fun _ => ⟨rfl, rfl⟩, rfl⟩

theorem rows_describe_requests_reused : ∃ s : WorkerState ℚ ℕ,
    Reachable (Initial smallBatch) Admissible WorkerState.step s ∧
      s.live = ["b", "c"] ∧ s.batch.reqIdToIndex.lookup "b" = some 0 ∧ s.batch.reqIdToIndex.lookup "c" = some 1 ∧
      ∃ r, s.requests "b" = some r ∧ s.Describes smallBatch 0 r := by
  have hstart : Reachable (Initial smallBatch) Admissible WorkerState.step
      (newWorker smallBatch) := .start (newWorker_initial _)
  obtain ⟨s, hreachable, hlive, hb, hc⟩ := hstart.exists_checkedRun (P := fun s => s.live = ["b", "c"] ∧
    s.batch.reqIdToIndex.lookup "b" = some 0 ∧ s.batch.reqIdToIndex.lookup "c" = some 1) reuseRun (by decide +kernel)
  exact ⟨s, hreachable, hlive, hb, hc, ((rows_describe_requests hreachable).2.2 "b" 0 hb).2.2⟩

end WorkerState

end VllmPs.Worker
