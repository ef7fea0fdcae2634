import VllmPs.Worker.RowContents

/-!
# Token restrictions

The mask of the allowed tokens and the flag for prompt tokens are kept by row. `swap_states` leaves both rows of
the mask with the second one, `condense` leaves the old row as it is, and the flag of a pooling request stays where
it is. Each request is restricted as it should be as long as restricted requests are not moved.
-/

namespace VllmPs.Worker

open Lib Function InputBatch BatchUpdateBuilder List Option CachedRequestState

variable {F G : Type}

/-! ## Rows -/

namespace CachedRequestState

variable (r : CachedRequestState F G)

def allowedTokenIds : List ℕ := (r.samplingParams.map (·.allowedTokenIds)).getD []

def requiresTokenIds : Bool := (r.poolingParams.map (·.requiresTokenIds)).getD false

/-- The request has no restriction that is kept by row. -/
def Unrestricted : Prop := r.allowedTokenIds = [] ∧ r.requiresTokenIds = false
  deriving Decidable

/-- The requests have the same restrictions. -/
def Alike (r₁ r₂ : CachedRequestState F G) : Prop :=
  r₁.allowedTokenIds = r₂.allowedTokenIds ∧ r₁.requiresTokenIds = r₂.requiresTokenIds
  deriving Decidable

end CachedRequestState

def maskFor (allowedTokenIds : List ℕ) : ℕ → Bool :=
  if allowedTokenIds ≠ [] then BatchRow.maskOf allowedTokenIds else fun _ => false

structure RestrictionOf (config : BatchConfig) (row : BatchRow F G) (r : CachedRequestState F G) : Prop where
  mask : config.isPoolingModel = false → row.allowedMask = maskFor r.allowedTokenIds
  flag : config.isPoolingModel = true → r.requiresTokenIds = true → row.needsTokenIds = true

namespace RestrictionOf

variable {config : BatchConfig} {row row₁ row₂ source target : BatchRow F G} {r r₁ r₂ : CachedRequestState F G}
  {n : ℕ}

theorem entered [PyFloat F] {old : BatchRow F G} {sets sets' : RequestSets F}
    (hclean : config.isPoolingModel = false → old.allowedMask = fun _ => false)
    (hparams : r.samplingParams.isSome = !config.isPoolingModel)
    (h : InputBatch.Entered config r old sets row sets') : RestrictionOf config row r := by
  cases h with
  | @sampling params _ hsome hrow =>
    rw [hsome, isSome_some, eq_comm, Bool.not_eq_true'] at hparams
    refine ⟨fun hpooling => ?_, fun hpooling => nomatch hparams.symm.trans hpooling⟩
    have hmask : row.allowedMask = if params.allowedTokenIds ≠ [] then BatchRow.maskOf params.allowedTokenIds
        else old.allowedMask := by
      unfold BatchRow.addSampling at hrow
      dsimp only at hrow
      split at hrow
      · cases hrow
        rfl
      · obtain ⟨temperature, -, hrow⟩ := bind_eq_ok.mp hrow
        cases hrow
        rfl
    rw [hmask, hclean hpooling]
    unfold maskFor allowedTokenIds
    rw [hsome]
    rfl
  | @pooling params hnone hsome =>
    rw [hnone, isSome_none, eq_comm, Bool.not_eq_false'] at hparams
    refine ⟨fun hpooling => Bool.noConfusion (hparams.symm.trans hpooling), fun _ hrequires => ?_⟩
    unfold requiresTokenIds at hrequires
    rw [hsome] at hrequires
    exact hrequires

theorem moved (h : RestrictionOf config source r) (hr : r.Unrestricted) :
    RestrictionOf config (source.moveTo config n target) r := by
  refine ⟨fun hpooling => ?_, fun _ hrequires => nomatch hr.2.symm.trans hrequires⟩
  unfold BatchRow.moveTo
  rw [if_neg (Bool.eq_false_iff.mp hpooling)]
  exact h.mask hpooling

theorem swapped (h₁ : RestrictionOf config row₁ r₁) (h₂ : RestrictionOf config row₂ r₂) (hr : r₁.Alike r₂) :
    RestrictionOf config (row₁.swapWith config n false row₂) r₂ ∧
      RestrictionOf config (row₂.swapWith config n true row₁) r₁ := by
  unfold BatchRow.swapWith
  constructor
  · refine ⟨fun hpooling => ?_, fun hpooling hrequires => ?_⟩
    · rw [if_neg (Bool.eq_false_iff.mp hpooling)]
      exact h₂.mask hpooling
    · rw [if_pos hpooling]
      exact h₁.flag hpooling (hr.2.trans hrequires)
  refine ⟨fun hpooling => ?_, fun hpooling hrequires => ?_⟩
  · rw [if_neg (Bool.eq_false_iff.mp hpooling), hr.1]
    exact h₂.mask hpooling
  · rw [if_pos hpooling]
    exact h₂.flag hpooling (hr.2.symm.trans hrequires)

end RestrictionOf

def rowRestrictions [PyFloat F] (config : BatchConfig) : RowLaws config F G where
  holds _ r row _ := RestrictionOf config row r
  clean row := config.isPoolingModel = false → row.allowedMask = fun _ => false
  movable := CachedRequestState.Unrestricted
  swappable := CachedRequestState.Alike
  mono _ h := h
  sample _ h := ⟨h.mask, h.flag⟩
  advance _ h := ⟨h.mask, h.flag⟩
  draft h := ⟨h.mask, h.flag⟩
  remove _ hpooling := by
    unfold BatchRow.remove
    rw [if_neg (Bool.eq_false_iff.mp hpooling)]
  enter hclean hparams h := RestrictionOf.entered hclean hparams h
  move hr h _ := h.moved hr
  leave hr h hpooling := by
    unfold BatchRow.moveFrom
    rw [if_neg (Bool.eq_false_iff.mp hpooling)]
    refine (h.mask hpooling).trans ?_
    rw [hr.1]
    rfl
  swap hr h₁ h₂ _ _ := h₁.swapped h₂ hr
  refresh _ _ h := ⟨h.mask, h.flag⟩

/-! ## Metadata -/

def SamplingMetadata.masked (metadata : SamplingMetadata F) (i token : ℕ) : Bool :=
  match metadata.allowedTokenIdsMask with
  | none => false
  | some masks => ((masks[i]?).getD fun _ => false) token

namespace WorkerState

variable {config : BatchConfig} {s s' s₀ : WorkerState F G} {reqId : RequestId}
variable {b b' : InputBatch F G}
variable {r : CachedRequestState F G}

structure Restricted (s : WorkerState F G) : Prop where
  masks : s.batch.config.isPoolingModel = false → ∀ reqId i r, s.batch.view.index reqId = some i →
    s.requests reqId = some r → s.batch.samplingMetadata.masked i = maskFor r.allowedTokenIds
  prompts : s.batch.config.isPoolingModel = true → ∀ reqId r, (s.batch.view.index reqId).isSome →
    s.requests reqId = some r → r.requiresTokenIds = true → s.batch.samplingMetadata.promptTokenIds ≠ none

theorem Settled.restricted [PyFloat F] (h : s.Settled (rowRestrictions config))
    (hmetadata : s.batch.samplingMetadata = s.batch.metadataOfRows) : s.Restricted := by
  have hrow {reqId : RequestId} {i : ℕ} {r : CachedRequestState F G} (hindex : s.batch.view.index reqId = some i)
      (hr : s.requests reqId = some r) : i < s.batch.numReqs ∧ r.samplingParams.isSome = !config.isPoolingModel ∧
        RestrictionOf config (s.batch.rows i) r := by
    obtain ⟨r', hr', hparams, hrestriction⟩ := h.kept.described.held ((h.kept.indexed.matching reqId i).mp hindex)
    obtain rfl : r = r' := mem_unique hr hr'
    exact ⟨h.dense.length ▸ h.kept.indexed.lt_of_index hindex, hparams, hrestriction⟩
  refine ⟨fun hpooling reqId i r hindex hr => ?_, fun hpooling reqId r hlive hr hrequires => ?_⟩
  · obtain ⟨hi, hparams, hrestriction⟩ := hrow hindex hr
    rw [h.kept.config] at hpooling
    funext token
    rw [hmetadata]
    unfold SamplingMetadata.masked metadataOfRows
    dsimp only
    by_cases hempty : s.batch.hasAllowedTokenIds.isEmpty
    · -- a request with allowed tokens would be in the set
      rw [if_pos hempty]
      have hnil : r.allowedTokenIds = [] := by
        by_contra hne
        obtain ⟨params, hsome⟩ : ∃ params, r.samplingParams = some params := by
          rw [hpooling] at hparams
          exact Option.isSome_iff_exists.mp hparams
        have hlive : s.liveParams reqId = some params := by
          unfold liveParams
          rw [hindex, isSome_some, if_pos rfl, hr, bind_some, hsome]
        unfold allowedTokenIds at hne
        rw [hsome] at hne
        have hmem : reqId ∈ s.batch.hasAllowedTokenIds := h.kept.registered.allowed reqId params hlive hne
        simp [isEmpty_iff.mp hempty] at hmem
      rw [hnil]
      rfl
    · rw [if_neg hempty, ← hrestriction.mask hpooling]
      simp only [getElem?_map, getElem?_range hi, map_some, getD_some]
  obtain ⟨i, hindex⟩ := Option.isSome_iff_exists.mp hlive
  obtain ⟨hi, -, hrestriction⟩ := hrow hindex hr
  rw [h.kept.config] at hpooling
  have hany : ((List.range s.batch.numReqs).map s.batch.rows).any (·.needsTokenIds) = true :=
    any_eq_true.mpr ⟨s.batch.rows i, mem_map_of_mem (mem_range.mpr hi),
      hrestriction.flag hpooling hrequires⟩
  rw [hmetadata]
  unfold metadataOfRows
  dsimp only
  rw [hany, Bool.or_true, if_pos rfl]
  exact nofun

/-! ## Changes -/

/-- The kind of a request. -/
def kind (s : WorkerState F G) (reqId : RequestId) : Option (Option (SamplingParams F) × Option PoolingParams) :=
  (s.requests reqId).map fun r => (r.samplingParams, r.poolingParams)

structure SameRequests (s s' : WorkerState F G) : Prop where
  live : ∀ reqId, (s'.batch.view.index reqId).isSome = (s.batch.view.index reqId).isSome
  kind : ∀ reqId, s'.kind reqId = s.kind reqId
  index : s.batch.config.isPoolingModel = false → s'.batch.view.index = s.batch.view.index

/-- Since the start of the step the batch has been marked as changed, or it has the same requests. -/
structure Tracked (s s' : WorkerState F G) : Prop where
  config : s'.batch.config = s.batch.config
  metadata : s'.batch.samplingMetadata = s.batch.samplingMetadata
  same : Unchanged s'.batch → s'.batch.builder.removed = [] ∧ SameRequests s s'

theorem kind_modifyRequest {f : CachedRequestState F G → CachedRequestState F G}
    (hf : ∀ r, (f r).samplingParams = r.samplingParams ∧ (f r).poolingParams = r.poolingParams)
    (s : WorkerState F G) (reqId reqId' : RequestId) : (s.modifyRequest reqId f).kind reqId' = s.kind reqId' := by
  change (update s.requests reqId ((s.requests reqId).map f) reqId').map _ = _
  rcases eq_or_ne reqId' reqId with rfl | hne
  · rw [update_self]
    unfold kind
    cases s.requests reqId' with
    | none => rfl
    | some r =>
      simp only [map_some, hf]
  · rw [update_of_ne hne]
    rfl

theorem Tracked.trans_same (h : Tracked s₀ s) (hconfig : s'.batch.config = s.batch.config)
    (hmetadata : s'.batch.samplingMetadata = s.batch.samplingMetadata) (hbuilder : s'.batch.builder = s.batch.builder)
    (hkind : ∀ reqId, s'.kind reqId = s.kind reqId) (hindex : s'.batch.view.index = s.batch.view.index) :
    Tracked s₀ s' := by
  refine ⟨hconfig.trans h.config, hmetadata.trans h.metadata, fun hunchanged => ?_⟩
  unfold Unchanged at hunchanged
  rw [hconfig, hbuilder] at hunchanged
  obtain ⟨hremoved, hsame⟩ := h.same hunchanged
  refine ⟨hbuilder ▸ hremoved, fun reqId => ?_, fun reqId => (hkind reqId).trans (hsame.kind reqId), fun hpooling => ?_⟩
  · rw [hindex, hsame.live]
  · rw [hindex, hsame.index hpooling]

theorem Tracked.appendSampled {sampled : RequestId × List Token} (h : Tracked s₀ s) :
    Ensures (Tracked s₀) (s.appendSampled sampled) := by
  unfold WorkerState.appendSampled
  split
  · exact .error
  · exact .ok (h.trans_same rfl rfl rfl
      (kind_modifyRequest (f := fun r => r.sample sampled.2) (fun _ => ⟨rfl, rfl⟩) s sampled.1) rfl)

theorem updateReqSpecTokenIds_kept {draftTokenIds : List Token} :
    Ensures (fun b' => b'.config = b.config ∧ b'.samplingMetadata = b.samplingMetadata ∧ b'.builder = b.builder ∧
      b'.view.index = b.view.index) (b.updateReqSpecTokenIds reqId draftTokenIds) := by
  unfold updateReqSpecTokenIds
  split
  · exact .error
  · refine .ok ?_
    split_ifs <;> exact ⟨rfl, rfl, rfl, rfl⟩

theorem Tracked.updateRow {u : RowUpdate} (h : Tracked s₀ s) : Ensures (Tracked s₀) (s.updateRow u) := by
  unfold WorkerState.updateRow
  split
  · exact .error
  · refine .bind fun batch hdrafts => .ok ?_
    obtain ⟨hconfig, hmetadata, hbuilder, hindex'⟩ := updateReqSpecTokenIds_kept hdrafts
    exact h.trans_same hconfig hmetadata hbuilder
      (kind_modifyRequest (f := fun r => r.advance u) (fun _ => ⟨rfl, rfl⟩) s u.reqId) hindex'

theorem not_unchanged (hchanged : b.builder.batchChanged = true)
    (hmarked : b.config.isPoolingModel = false → b.builder.unchanged = false) : ¬Unchanged b := by
  unfold Unchanged
  split_ifs with hpooling
  · rw [hchanged]
    exact nofun
  · rw [hmarked (Bool.eq_false_of_not_eq_true hpooling)]
    exact nofun

theorem Tracked.removeRequest (h : Tracked s₀ s) :
    Ensures (Tracked s₀) (s.withBatch (·.removeRequest reqId)) := by
  refine .bind fun batch hremove => .ok ?_
  unfold InputBatch.removeRequest at hremove
  dsimp only at hremove
  split at hremove
  case h_1 =>
    cases hremove
    exact h
  case h_2 i hindex =>
    obtain ⟨builder, hbuilder, hremove⟩ := bind_eq_ok.mp hremove
    unfold removedAppend at hbuilder
    split_ifs at hbuilder
    cases hbuilder
    have hbatch : batch.config = s.batch.config ∧ batch.samplingMetadata = s.batch.samplingMetadata ∧
        batch.builder.batchChanged = true ∧ batch.builder.removed = s.batch.builder.removed ++ [i] := by
      split_ifs at hremove <;> cases hremove <;> exact ⟨rfl, rfl, rfl, rfl⟩
    obtain ⟨hconfig, hmetadata, hchanged, hremoved⟩ := hbatch
    refine ⟨hconfig.trans h.config, hmetadata.trans h.metadata, fun hunchanged => absurd hunchanged ?_⟩
    refine not_unchanged hchanged fun _ => ?_
    unfold unchanged
    rw [hremoved, isEmpty_eq_false_iff.mpr (append_ne_nil_of_right_ne_nil _ (cons_ne_nil i [])),
      Bool.false_and, Bool.false_and]

theorem placeRequest_kept (b : InputBatch F G) (i : ℕ) (reqId : RequestId) :
    (b.placeRequest i reqId).config = b.config ∧ (b.placeRequest i reqId).builder = b.builder ∧
      (b.placeRequest i reqId).samplingMetadata = b.samplingMetadata := by
  unfold placeRequest
  split_ifs <;> exact ⟨rfl, rfl, rfl⟩

theorem addRequest_marks [PyFloat F]
    (h : b.addRequest r = .ok b') (hparams : r.samplingParams.isSome = !b.config.isPoolingModel) :
    b'.config = b.config ∧ b'.samplingMetadata = b.samplingMetadata ∧ ¬Unchanged b' := by
  obtain ⟨registered, hregister, h⟩ := bind_eq_ok.mp h
  have hregistered : registered.1.config = b.config ∧ registered.1.samplingMetadata = b.samplingMetadata ∧
      registered.1.builder.batchChanged = true ∧
      (b.config.isPoolingModel = false → registered.1.builder.added ≠ []) := by
    unfold registerAddRequest at hregister
    dsimp only at hregister
    split_ifs at hregister
    cases hregister
    refine ⟨rfl, rfl, rfl, fun hpooling => ?_⟩
    rw [hpooling] at hparams
    obtain ⟨params, hsome⟩ := Option.isSome_iff_exists.mp hparams
    rw [hsome]
    exact append_ne_nil_of_right_ne_nil _ (cons_ne_nil _ _)
  obtain ⟨hconfig, hbuilder, hmetadata⟩ := placeRequest_kept registered.1 registered.2 r.reqId
  have hb' : b'.config = registered.1.config ∧ b'.samplingMetadata = registered.1.samplingMetadata ∧
      b'.builder = registered.1.builder := by
    rw [← hconfig, ← hbuilder, ← hmetadata]
    split at h
    · obtain ⟨row, -, h⟩ := bind_eq_ok.mp h
      cases h
      exact ⟨rfl, rfl, rfl⟩
    · cases h
      exact ⟨rfl, rfl, rfl⟩
    · cases h
  refine ⟨hb'.1.trans hregistered.1, hb'.2.1.trans hregistered.2.1, not_unchanged ?_ fun hpooling => ?_⟩
  · rw [hb'.2.2]
    exact hregistered.2.2.1
  · rw [hb'.1, hregistered.1] at hpooling
    unfold unchanged
    rw [hb'.2.2, isEmpty_eq_false_iff.mpr (hregistered.2.2.2 hpooling), Bool.and_false]

theorem Tracked.addRequest [PyFloat F] (h : Tracked s₀ s)
    (hparams : r.samplingParams.isSome = !s.batch.config.isPoolingModel) :
    Ensures (Tracked s₀) (s.addRequest r) := by
  refine .bind fun placed hadd => .bind fun batch hdrafts => .ok ?_
  obtain ⟨hconfig, hmetadata, hchanged⟩ := addRequest_marks hadd hparams
  obtain ⟨hconfig', hmetadata', hbuilder, -⟩ := updateReqSpecTokenIds_kept hdrafts
  refine ⟨(hconfig'.trans hconfig).trans h.config, (hmetadata'.trans hmetadata).trans h.metadata,
    fun hunchanged => absurd ?_ hchanged⟩
  unfold Unchanged at hunchanged ⊢
  rwa [hconfig', hbuilder] at hunchanged

/-! ## Condensing -/

theorem condenseLoop_marks {fuel last : ℕ} : Ensures (fun b' =>
    b'.config = b.config ∧ b'.samplingMetadata = b.samplingMetadata ∧
      b'.builder.batchChanged = b.builder.batchChanged ∧
      (b.config.isPoolingModel = false → b'.builder.moved = [] →
        b.builder.moved = [] ∧ b'.builder.removed = b.builder.removed)) (b.condenseLoop fuel last) := by
  induction fuel generalizing last b with
  | zero => exact .ok ⟨rfl, rfl, rfl, fun _ hmoved => ⟨hmoved, rfl⟩⟩
  | succ fuel ih =>
    unfold condenseLoop
    split
    case h_1 => exact .ok ⟨rfl, rfl, rfl, fun _ hmoved => ⟨hmoved, rfl⟩⟩
    case h_2 e _ =>
      refine .ite (fun _ => .ok ⟨rfl, rfl, rfl, fun _ hmoved => ⟨hmoved, rfl⟩⟩)
        fun _ => .bind fun moved hmove b' h => ?_
      obtain ⟨hconfig, hmetadata, hchanged, hmoved⟩ := ih h
      unfold moveRequest at hmove
      split at hmove
      case h_1 => cases hmove
      case h_2 reqId _ =>
        cases hmove
        refine ⟨hconfig, hmetadata, ?_, fun hpooling hnil => absurd (hmoved hpooling hnil).1 ?_⟩
        · rw [hchanged]
          split_ifs <;> rfl
        · rw [if_neg (Bool.eq_false_iff.mp hpooling)]
          exact append_ne_nil_of_right_ne_nil _ (cons_ne_nil _ _)

theorem ensureRemovedSorted_marks (builder : BatchUpdateBuilder F) :
    builder.ensureRemovedSorted.unchanged = builder.unchanged ∧
      builder.ensureRemovedSorted.batchChanged = builder.batchChanged := by
  unfold ensureRemovedSorted
  split_ifs
  · exact ⟨rfl, rfl⟩
  refine ⟨?_, rfl⟩
  have hempty : (builder.removed.insertionSort (· ≥ ·)).isEmpty = builder.removed.isEmpty := by
    rw [Bool.eq_iff_iff, List.isEmpty_iff, List.isEmpty_iff, ← List.length_eq_zero_iff,
      List.length_insertionSort, List.length_eq_zero_iff]
  unfold unchanged
  rw [hempty]

theorem condense_marks : Ensures (fun b' => b'.config = b.config ∧ b'.samplingMetadata = b.samplingMetadata ∧
    (Unchanged b' → Unchanged b)) b.condense := by
  obtain ⟨hunchanged, hchanged⟩ := ensureRemovedSorted_marks b.builder
  unfold condense
  generalize b.builder.ensureRemovedSorted = builder at *
  have hsorted (b'' : InputBatch F G) (hconfig : b''.config = b.config) (hbuilder : b''.builder = builder)
      (hsame : Unchanged b'') : Unchanged b := by
    unfold Unchanged at hsame ⊢
    rwa [hconfig, hbuilder, hunchanged, hchanged] at hsame
  refine .ite (fun _ => .ok ⟨rfl, rfl, hsorted _ rfl rfl⟩) fun hnil =>
    .ite (fun _ => .ok ⟨rfl, rfl, hsorted _ rfl rfl⟩) fun _ => .bind fun condensed hloop => .ok ?_
  obtain ⟨hconfig, hmetadata, hbatchChanged, hmoved⟩ := condenseLoop_marks hloop
  refine ⟨hconfig, hmetadata, fun hsame => ?_⟩
  unfold Unchanged at hsame ⊢
  rw [hconfig, hbatchChanged, hchanged] at hsame
  split_ifs at hsame ⊢ with hpooling
  · exact hsame
  -- without a move the removed rows are still there
  exfalso
  unfold unchanged at hsame
  rw [Bool.and_eq_true, Bool.and_eq_true, List.isEmpty_iff, List.isEmpty_iff] at hsame
  obtain ⟨-, hremoved⟩ := hmoved (Bool.eq_false_of_not_eq_true hpooling) hsame.1.2
  exact hnil (hremoved.symm.trans hsame.1.1)

theorem Tracked.condense (h : Tracked s₀ s) : Ensures (Tracked s₀) (s.withBatch (·.condense)) := by
  refine .bind fun batch hcondense => .ok ?_
  obtain ⟨hconfig, hmetadata, hmarks⟩ := condense_marks hcondense
  refine ⟨hconfig.trans h.config, hmetadata.trans h.metadata, fun hunchanged => ?_⟩
  obtain ⟨hremoved, hsame⟩ := h.same (hmarks hunchanged)
  have hnil : s.batch.builder.ensureRemovedSorted.removed = [] := by
    unfold ensureRemovedSorted
    split_ifs
    · exact hremoved
    · rw [hremoved]
      rfl
  have hbatch : s.batch.condense = .ok { s.batch with builder := s.batch.builder.ensureRemovedSorted } := if_pos hnil
  obtain rfl := Except.ok.inj (hbatch.symm.trans hcondense)
  exact ⟨hnil, hsame.live, hsame.kind, hsame.index⟩

theorem swapStates_marks {i j : ℕ} : Ensures (fun b' =>
    b'.config = b.config ∧ b'.samplingMetadata = b.samplingMetadata ∧
      (b.config.isPoolingModel = true → b'.builder = b.builder) ∧
      (b.config.isPoolingModel = false → ¬Unchanged b')) (b.swapStates i j) := by
  unfold InputBatch.swapStates
  split
  case h_2 => exact .error
  case h_1 =>
    refine .ok ⟨rfl, rfl, fun hpooling => if_pos hpooling, fun hpooling => ?_⟩
    unfold Unchanged
    rw [if_neg (Bool.eq_false_iff.mp hpooling), if_neg (Bool.eq_false_iff.mp hpooling)]
    unfold unchanged
    rw [isEmpty_eq_false_iff.mpr (append_ne_nil_of_right_ne_nil _ (cons_ne_nil _ _)), Bool.and_false,
      Bool.false_and]
    exact nofun

theorem Tracked.swapStates {swap : ℕ × ℕ} (h : Tracked s₀ s) (hindexed : s.batch.Indexed) :
    Ensures (Tracked s₀) (s.swapStates swap) := by
  refine .bind fun batch hswap => .ok ?_
  obtain ⟨hconfig, hmetadata, hbuilder, hmarks⟩ := swapStates_marks hswap
  obtain ⟨reqId₁, reqId₂, hreq₁, hreq₂, hview, -⟩ := swapStates_spec hswap hindexed
  refine ⟨hconfig.trans h.config, hmetadata.trans h.metadata, fun hunchanged => ?_⟩
  cases hpooling : s.batch.config.isPoolingModel with
  | false => exact absurd hunchanged (hmarks hpooling)
  | true =>
    have hunchanged' : Unchanged s.batch := by
      unfold Unchanged at hunchanged ⊢
      rwa [hconfig, hbuilder hpooling] at hunchanged
    obtain ⟨hremoved, hsame⟩ := h.same hunchanged'
    refine ⟨?_, fun reqId => ?_, hsame.kind, fun hpooling' => ?_⟩
    · rw [hbuilder hpooling, hremoved]
    · rw [← hsame.live, hview]
      exact RowView.isSome_swap _ ((hindexed.matching _ _).mpr hreq₁) ((hindexed.matching _ _).mpr hreq₂) reqId
    · simp [← h.config, hpooling] at hpooling'

/-! ## Steps -/

theorem withBatch_requests {op : InputBatch F G → Except PyError (InputBatch F G)} (h : s.withBatch op = .ok s') :
    s'.requests = s.requests := by
  obtain ⟨batch, -, h⟩ := bind_eq_ok.mp h
  cases h
  rfl

theorem Tracked.prepare [PyFloat F] {w : WorkerStep F G} (h : Tracked s s) (hadmissible : s.Admissible w) :
    Ensures (Tracked s) (s.prepare w) := by
  refine .bind fun s₁ hsampled => .bind fun s₂ hremovals => .bind fun s₃ hupdates => .bind fun s₄ hadditions => .ok ?_
  have h₁ : Tracked s s₁ := Ensures.foldlM (fun _ _ _ h => h.appendSampled) h hsampled
  have h₂ : Tracked s s₂ := Ensures.foldlM (fun _ _ _ h => h.removeRequest) h₁ hremovals
  have h₃ : Tracked s s₃ := Ensures.foldlM (fun _ _ _ h => h.updateRow) h₂ hupdates
  have h₄ : Tracked s s₄ :=
    Ensures.foldlM (fun _ r hr h => h.addRequest (h.config ▸ hadmissible.params r hr)) h₃ hadditions
  exact ⟨h₄.config, h₄.metadata, fun hunchanged => (h₄.same hunchanged).imp_right fun hsame =>
    ⟨hsame.live, hsame.kind, hsame.index⟩⟩

theorem Tracked.swaps {swaps : List (ℕ × ℕ)} (h : Tracked s₀ s) (hindexed : s.batch.Indexed) :
    Ensures (fun s => Tracked s₀ s ∧ s.batch.Indexed) (swaps.foldlM WorkerState.swapStates s) := by
  refine .foldlM (fun s₁ swap _ hs₁ s₂ hswap => ⟨hs₁.1.swapStates hs₁.2 hswap, ?_⟩) ⟨h, hindexed⟩
  obtain ⟨batch, hbatch, hswap⟩ := bind_eq_ok.mp hswap
  cases hswap
  obtain ⟨-, -, -, -, -, hindexed₂, -⟩ := swapStates_spec hbatch hs₁.2
  exact hindexed₂

theorem exists_of_kind {r' : CachedRequestState F G} (hkind : s'.kind reqId = s.kind reqId)
    (hr' : s'.requests reqId = some r') : ∃ r, s.requests reqId = some r ∧
      r.allowedTokenIds = r'.allowedTokenIds ∧ r.requiresTokenIds = r'.requiresTokenIds := by
  unfold kind at hkind
  rw [hr', map_some] at hkind
  obtain ⟨r, hr, hparams⟩ := Option.map_eq_some_iff.mp hkind.symm
  rw [Prod.mk.injEq] at hparams
  refine ⟨r, hr, ?_, ?_⟩
  · unfold allowedTokenIds
    rw [hparams.1]
  · unfold requiresTokenIds
    rw [hparams.2]

theorem Restricted.of_same (h : s.Restricted) (hsame : SameRequests s s')
    (hconfig : s'.batch.config = s.batch.config)
    (hprompts : s'.batch.samplingMetadata.promptTokenIds = s.batch.samplingMetadata.promptTokenIds)
    (hmasks : s'.batch.samplingMetadata.allowedTokenIdsMask = s.batch.samplingMetadata.allowedTokenIdsMask) :
    s'.Restricted := by
  refine ⟨fun hpooling reqId i r' hindex hr' => ?_, fun hpooling reqId r' hlive hr' hrequires => ?_⟩
  · rw [hconfig] at hpooling
    obtain ⟨r, hr, hallowed, -⟩ := exists_of_kind (hsame.kind reqId) hr'
    rw [hsame.index hpooling] at hindex
    have hmask := h.masks hpooling reqId i r hindex hr
    funext token
    rw [← hallowed, ← hmask]
    unfold SamplingMetadata.masked
    rw [hmasks]
  · rw [hconfig] at hpooling
    obtain ⟨r, hr, -, hrequires'⟩ := exists_of_kind (hsame.kind reqId) hr'
    rw [hprompts]
    exact h.prompts hpooling reqId r (hsame.live reqId ▸ hlive) hr (hrequires'.trans hrequires)

theorem Restricted.step [PyFloat F] {w : WorkerStep F G} (h : s.Restricted) (hs : s.Settled (rowRestrictions config))
    (hadmissible : s.Admissible w)
    (hguarded : s.Guarded CachedRequestState.Unrestricted CachedRequestState.Alike w) (hstep : s.step w = .ok s') :
    s'.Restricted := by
  have hs' : s'.Settled (rowRestrictions config) := hs.step hadmissible hguarded hstep
  obtain ⟨prepared, hprepare, hstep⟩ := bind_eq_ok.mp hstep
  obtain ⟨condensed, hcondense, hstep⟩ := bind_eq_ok.mp hstep
  obtain ⟨swapped, hswaps, hrefresh⟩ := bind_eq_ok.mp hstep
  obtain ⟨hkept, hholes, hlive⟩ := hs.kept.prepare hs.holes hs.live hadmissible hprepare
  obtain ⟨hmoves, -⟩ := hguarded prepared (by rw [hprepare]; rfl)
  obtain ⟨hkept₁, -⟩ := hkept.condense hholes (fun i reqId r hle hreq hr => hmoves i
    (lt_of_reqAt (hreq ▸ nofun)) hle r (requestAt_eq_some hreq hr)) hcondense
  obtain ⟨hkept₂, -⟩ := hkept.rearrange hholes hlive hguarded hprepare hcondense hswaps
  obtain ⟨⟨rows, metadata, hbatch⟩, -, -, -, hmetadata⟩ := hkept₂.refreshMetadata hrefresh
  have hrefl : Tracked s s := ⟨rfl, rfl, fun _ => ⟨by rw [hs.builder], fun _ => rfl, fun _ => rfl, fun _ => rfl⟩⟩
  have htracked : Tracked s swapped :=
    (((hrefl.prepare hadmissible hprepare).condense hcondense).swaps hkept₁.indexed hswaps).1
  rcases hmetadata with hrebuilt | ⟨hunchanged, hprompts, hmasks⟩
  · exact hs'.restricted hrebuilt
  obtain ⟨-, hsame⟩ := htracked.same hunchanged
  have hindex : s'.batch.view.index = swapped.batch.view.index := by
    rw [hbatch]
    rfl
  have hkind (reqId : RequestId) : s'.kind reqId = swapped.kind reqId := by
    unfold kind
    rw [withBatch_requests hrefresh]
  rw [htracked.metadata] at hprompts hmasks
  refine h.of_same ⟨fun reqId => ?_, fun reqId => (hkind reqId).trans (hsame.kind reqId), fun hpooling => ?_⟩ ?_
    hprompts hmasks
  · rw [hindex, hsame.live]
  · rw [hindex, hsame.index hpooling]
  · rw [hbatch]
    exact htracked.config

/-! ## Runs -/

/-- A new worker has not allocated the mask. -/
def InitialUnmasked (config : BatchConfig) (s : WorkerState F G) : Prop :=
  s.Initial config ∧ ∀ i, (s.batch.rows i).allowedMask = fun _ => false

def RestrictionsStay [PyFloat F] (s : WorkerState F G) (w : WorkerStep F G) : Prop :=
  s.Admissible w ∧ s.Guarded CachedRequestState.Unrestricted CachedRequestState.Alike w
  deriving Decidable

/-- In every run in which restricted requests are not moved, and only exchanged with requests that have the same
restrictions, the metadata after each step restricts every request as it should be. -/
theorem restrictions_never_leak [PyFloat F]
    (h : Reachable (InitialUnmasked config) RestrictionsStay WorkerState.step s) : s.Restricted := by
  have hboth : s.Settled (rowRestrictions config) ∧ s.Restricted := by
    refine h.invariant (P := fun s => s.Settled (rowRestrictions config) ∧ s.Restricted)
      (fun s hs => ⟨hs.1.settled fun i _ => hs.2 i, ?_⟩) fun s w s' hs hok hstep => ?_
    · have hindex (reqId : RequestId) : s.batch.view.index reqId = none := by
        change s.batch.reqIdToIndex.lookup reqId = none
        rw [hs.1.index]
        rfl
      refine ⟨fun _ reqId i r hi => ?_, fun _ reqId r hlive => ?_⟩
      · simp [hindex] at hi
      · simp [hindex] at hlive
    · exact ⟨hs.1.step hok.1 hok.2 hstep, hs.2.step hs.1 hok.1 hok.2 hstep⟩
  exact hboth.2

/-- A request with some allowed tokens. -/
def allowing (reqId : RequestId) (allowedTokenIds : List ℕ) : CachedRequestState ℚ ℕ :=
  sampleRequest reqId ⟨some [1], none, none, by simp⟩
    ⟨false, 1, 1, 0, 0, 0, 1, allowedTokenIds, [], none, 0, []⟩ none []

/-- A pooling request. -/
def pooling (reqId : RequestId) (requiresTokenIds : Bool) : CachedRequestState ℚ ℕ :=
  { reqId := reqId, prompt := ⟨some [1], none, none, by simp⟩, poolingParams := some ⟨requiresTokenIds⟩ }

def poolingBatch : BatchConfig where
  maxNumReqs := 4
  vocabSize := 100
  isPoolingModel := true

/-- A request without restrictions is moved, requests with the same restrictions are exchanged, and a row whose
request had allowed tokens is taken by one without. -/
def stayingRun : List (WorkerStep ℚ ℕ) :=
  [ { additions := [allowing "a" [5], allowing "b" [7], allowing "c" [7], allowing "d" []] },
    { removals := ["a"], updates := [⟨"b", 1, fun _ => [], []⟩, ⟨"c", 1, fun _ => [], []⟩, ⟨"d", 1, fun _ => [], []⟩]
      swaps := [(1, 2)] },
    { removals := ["b"], additions := [allowing "e" []] } ]

theorem restrictions_never_leak_staying : ∃ s : WorkerState ℚ ℕ,
    Reachable (InitialUnmasked smallBatch) RestrictionsStay WorkerState.step s ∧ s.Restricted ∧
      s.live = ["c", "d", "e"] ∧ s.batch.reqIdToIndex.lookup "c" = some 1 ∧
      s.batch.samplingMetadata.masked 1 5 = true ∧ s.batch.samplingMetadata.masked 1 7 = false := by
  have hstart : Reachable (InitialUnmasked smallBatch) RestrictionsStay WorkerState.step
      (newWorker smallBatch) := .start ⟨newWorker_initial _, fun _ => rfl⟩
  obtain ⟨s, hreachable, hobserved⟩ := hstart.exists_checkedRun (P := fun s => s.live = ["c", "d", "e"] ∧
    s.batch.reqIdToIndex.lookup "c" = some 1 ∧ s.batch.samplingMetadata.masked 1 5 = true ∧
    s.batch.samplingMetadata.masked 1 7 = false) stayingRun (by decide +kernel)
  exact ⟨s, hreachable, restrictions_never_leak hreachable, hobserved⟩

/-- Two requests are exchanged of which the second has allowed tokens. -/
def swappingRun : List (WorkerStep ℚ ℕ) :=
  [ { additions := [allowing "a" [], allowing "b" [7]], swaps := [(0, 1)] } ]

/-- A request with allowed tokens is moved, and another one takes the row that it has left. -/
def movingRun : List (WorkerStep ℚ ℕ) :=
  [ { additions := [allowing "a" [], allowing "b" [7]] }, { removals := ["a"] }, { additions := [allowing "c" []] } ]

/-- A pooling request that needs the prompt tokens is moved. -/
def poolingRun : List (WorkerStep ℚ ℕ) :=
  [ { additions := [pooling "a" false, pooling "b" true] }, { removals := ["a"] } ]

/-- An exchange and a move mask tokens of a request without allowed tokens, and a move loses the prompt tokens of a
pooling request that needs them. -/
theorem restrictions_leak :
    (∃ s : WorkerState ℚ ℕ, Reachable (InitialUnmasked smallBatch) Admissible WorkerState.step s ∧
      s.batch.reqIdToIndex.lookup "a" = some 1 ∧ (s.requests "a").map (·.allowedTokenIds) = some [] ∧
      s.batch.samplingMetadata.masked 1 5 = true) ∧
    (∃ s : WorkerState ℚ ℕ, Reachable (InitialUnmasked smallBatch) Admissible WorkerState.step s ∧
      s.batch.reqIdToIndex.lookup "c" = some 1 ∧ (s.requests "c").map (·.allowedTokenIds) = some [] ∧
      s.batch.samplingMetadata.masked 1 5 = true) ∧
    ∃ s : WorkerState ℚ ℕ, Reachable (InitialUnmasked poolingBatch) Admissible WorkerState.step s ∧
      s.batch.reqIdToIndex.lookup "b" = some 0 ∧ (s.requests "b").map (·.requiresTokenIds) = some true ∧
      s.batch.samplingMetadata.promptTokenIds = none := by
  have hstart (config : BatchConfig) : Reachable (InitialUnmasked config) Admissible WorkerState.step
      (newWorker config) := .start ⟨newWorker_initial _, fun _ => rfl⟩
  exact ⟨(hstart _).exists_checkedRun swappingRun (by decide +kernel),
    (hstart _).exists_checkedRun movingRun (by decide +kernel),
    (hstart _).exists_checkedRun poolingRun (by decide +kernel)⟩

end WorkerState

end VllmPs.Worker
