import VllmPs.Worker.BatchIndex

/-!
# Properties of rows over whole runs

A property relates a request to what its row holds, and says what an empty row has to satisfy. If each operation
on a row keeps it, so does every sequence of steps. When rows may move or be exchanged belongs to the property.
-/

namespace VllmPs.Worker

open Lib Function InputBatch
open List hiding swap

variable {F G : Type} [PyFloat F]

/-- A property of requests and their rows that the operations on rows keep. It may say less about the draft tokens
of a row (`drafted` is false) until they are written again. -/
structure RowLaws (config : BatchConfig) (F G : Type) [PyFloat F] where
  holds : (drafted : Prop) → CachedRequestState F G → BatchRow F G → List Token → Prop
  clean : BatchRow F G → Prop
  movable : CachedRequestState F G → Prop
  swappable : CachedRequestState F G → CachedRequestState F G → Prop
  mono : ∀ {drafted drafted' r row spec}, (drafted' → drafted) → holds drafted r row spec →
    holds drafted' r row spec
  sample : ∀ {drafted r row spec} (tokenIds : List Token), holds drafted r row spec →
    holds False (r.sample tokenIds) (row.sample tokenIds) spec
  advance : ∀ {drafted r row spec} (update : RowUpdate), holds drafted r row spec →
    holds False (r.advance update) (row.advance config update) spec
  draft : ∀ {drafted r row spec}, holds drafted r row spec →
    holds True r (row.writeTokens r.draftTokenIds) r.draftTokenIds
  remove : ∀ {drafted r row spec}, holds drafted r row spec → clean (row.remove config)
  enter : ∀ {r old row sets sets'}, clean old → r.samplingParams.isSome = !config.isPoolingModel →
    InputBatch.Entered config r old sets row sets' → holds False r row []
  move : ∀ {r source target spec}, movable r → holds True r source spec → clean target →
    holds True r (source.moveTo config (source.numTokensNoSpec + spec.length) target) spec
  leave : ∀ {r source spec}, movable r → holds True r source spec → clean (source.moveFrom config)
  swap : ∀ {r₁ r₂ row₁ row₂ spec₁ spec₂} {n : ℕ}, swappable r₁ r₂ → holds True r₁ row₁ spec₁ →
    holds True r₂ row₂ spec₂ → row₁.numTokensNoSpec + spec₁.length ≤ n →
    row₂.numTokensNoSpec + spec₂.length ≤ n →
    holds True r₂ (row₁.swapWith config n false row₂) spec₂ ∧
      holds True r₁ (row₂.swapWith config n true row₁) spec₁
  refresh : ∀ {drafted r row spec params powerSmcConfig temperature}, r.samplingParams = some params →
    params.powerSmcConfig = some powerSmcConfig → holds drafted r row spec →
    holds drafted r { row with
      powerSmcAlpha := powerSmcAlphaFor powerSmcConfig r.outputTokenIds, temperature := temperature } spec

/-! ## Views -/

/-- The requests of the worker. -/
abbrev Requests (F G : Type) := RequestId → Option (CachedRequestState F G)

section Described

variable {config : BatchConfig} (laws : RowLaws config F G) (requests : Requests F G) (drafted : RequestId → Prop)

def RowOk (owner : Option RequestId) (row : BatchRow F G) (spec : List Token) : Prop :=
  match owner with
  | some reqId => ∃ r, requests reqId = some r ∧ r.samplingParams.isSome = !config.isPoolingModel ∧
      laws.holds (drafted reqId) r row spec
  | none => laws.clean row

/-- All rows are as they should be. -/
def RowView.Described (v : RowView F G) : Prop :=
  ∀ i, RowOk laws requests drafted (v.reqAt i) (v.rows i) (v.spec i)

end Described

namespace RowView.Described

variable {config : BatchConfig} {laws : RowLaws config F G} {requests : Requests F G}
  {drafted drafted' : RequestId → Prop} {v : RowView F G} {reqId reqId₁ reqId₂ : RequestId} {i j : ℕ}
  {r r₁ r₂ : CachedRequestState F G}
variable {requests' : Requests F G}

section

variable (h : v.Described laws requests drafted)
include h

theorem held (hi : v.reqAt i = some reqId) :
    ∃ r, requests reqId = some r ∧ r.samplingParams.isSome = !config.isPoolingModel ∧
      laws.holds (drafted reqId) r (v.rows i) (v.spec i) := by
  have hi' := h i
  rwa [hi] at hi'

theorem clean (hi : v.reqAt i = none) : laws.clean (v.rows i) := by
  have hi' := h i
  rwa [hi] at hi'

theorem mono (hle : ∀ i reqId, v.reqAt i = some reqId → drafted' reqId → drafted reqId) :
    v.Described laws requests drafted' := by
  intro i
  cases hi : v.reqAt i with
  | none => exact h.clean hi
  | some reqId =>
    obtain ⟨r, hr, hparams, hheld⟩ := h.held hi
    exact ⟨r, hr, hparams, laws.mono (hle i reqId hi) hheld⟩

theorem remove (hi : v.reqAt i = some reqId) : (v.remove config reqId i).Described laws requests drafted := by
  intro m
  rcases eq_or_ne m i with rfl | hne
  · simp only [RowView.remove, update_self]
    obtain ⟨r, -, -, hheld⟩ := h.held hi
    exact laws.remove hheld
  · simp only [RowView.remove, update_of_ne hne]
    exact h m

end

theorem move (h : v.Described laws requests fun _ => True) (hi : v.reqAt i = some reqId) (hj : v.reqAt j = none)
    (hr : requests reqId = some r) (hmovable : laws.movable r) :
    (v.move config reqId i j).Described laws requests fun _ => True := by
  obtain ⟨r', hr', hparams, hheld⟩ := h.held hi
  obtain rfl : r = r' := Option.mem_unique hr hr'
  intro m
  rcases eq_or_ne m i with rfl | hmi
  · simp only [RowView.move, update_self]
    exact laws.leave hmovable hheld
  simp only [RowView.move, update_of_ne hmi]
  rcases eq_or_ne m j with rfl | hmj
  · simp only [update_self]
    exact ⟨r, hr, hparams, laws.move hmovable hheld (h.clean hj)⟩
  · simp only [update_of_ne hmj]
    exact h m

theorem swap (h : v.Described laws requests fun _ => True) (hi : v.reqAt i = some reqId₁)
    (hj : v.reqAt j = some reqId₂) (hr₁ : requests reqId₁ = some r₁) (hr₂ : requests reqId₂ = some r₂)
    (hswappable : laws.swappable r₁ r₂) :
    (v.swap config reqId₁ reqId₂ i j).Described laws requests fun _ => True := by
  obtain ⟨r', hr', hparams₁, hheld₁⟩ := h.held hi
  obtain rfl : r₁ = r' := Option.mem_unique hr₁ hr'
  obtain ⟨r', hr', hparams₂, hheld₂⟩ := h.held hj
  obtain rfl : r₂ = r' := Option.mem_unique hr₂ hr'
  obtain ⟨hfirst, hsecond⟩ := laws.swap hswappable hheld₁ hheld₂ (le_max_left ..) (le_max_right ..)
  intro m
  rcases eq_or_ne m j with rfl | hmj
  · simp only [RowView.swap, update_self, hi]
    exact ⟨r₁, hr₁, hparams₁, hsecond⟩
  simp only [RowView.swap, update_of_ne hmj]
  rcases eq_or_ne m i with rfl | hmi
  · simp only [update_self, hj]
    exact ⟨r₂, hr₂, hparams₂, hfirst⟩
  · simp only [update_of_ne hmi]
    exact h m

section

variable {row : BatchRow F G} {spec : List Token} (h : v.Described laws requests drafted)
  (hothers : ∀ reqId', reqId' ≠ reqId → requests' reqId' = requests reqId' ∧ (drafted' reqId' → drafted reqId'))
  (hr : requests' reqId = some r) (hparams : r.samplingParams.isSome = !config.isPoolingModel)
  (hheld : laws.holds (drafted' reqId) r row spec)
include h hothers hr hparams hheld

theorem write (hfree : ∀ m, m ≠ i → v.reqAt m ≠ some reqId) : Described laws requests' drafted' { v with
    reqAt := update v.reqAt i (some reqId), rows := update v.rows i row, spec := update v.spec i spec } := by
  intro m
  rcases eq_or_ne m i with rfl | hne
  · simp only [update_self]
    exact ⟨r, hr, hparams, hheld⟩
  simp only [update_of_ne hne]
  cases hm : v.reqAt m with
  | none => exact h.clean hm
  | some reqId' =>
    have hne' : reqId' ≠ reqId := fun heq => hfree m hne (heq ▸ hm)
    obtain ⟨hrequest, hdrafted⟩ := hothers reqId' hne'
    obtain ⟨r', hr', hparams', hheld'⟩ := h.held hm
    exact ⟨r', hrequest.trans hr', hparams', laws.mono hdrafted hheld'⟩

theorem modify (hmatches : Matches v.index v.reqAt) (hi : v.reqAt i = some reqId) :
    Described laws requests' drafted' { v with rows := update v.rows i row, spec := update v.spec i spec } := by
  have hwritten := h.write hothers hr hparams hheld fun m hne hm =>
    hne (Option.some.inj (((hmatches _ m).mpr hm).symm.trans ((hmatches _ i).mpr hi)))
  rwa [update_eq_self_iff.mpr hi.symm] at hwritten

end

end RowView.Described

/-! ## States -/

namespace WorkerState

variable {config : BatchConfig} {laws : RowLaws config F G} {drafted : RequestId → Prop}
  {s s' : WorkerState F G} {reqId : RequestId}
variable {i : ℕ} {batch : InputBatch F G} {r : CachedRequestState F G} {w : WorkerStep F G}
  {swappable : CachedRequestState F G → CachedRequestState F G → Prop}
variable {f : CachedRequestState F G → CachedRequestState F G}
variable {drafted' : RequestId → Prop} {entry : RequestId × PowerSMCConfig F}
  {movable : CachedRequestState F G → Prop}

def liveParams (s : WorkerState F G) (reqId : RequestId) : Option (SamplingParams F) :=
  if (s.batch.view.index reqId).isSome then (s.requests reqId).bind (·.samplingParams) else none

structure Kept (laws : RowLaws config F G) (drafted : RequestId → Prop) (s : WorkerState F G) : Prop where
  config : s.batch.config = config
  indexed : s.batch.Indexed
  described : s.batch.view.Described laws s.requests drafted
  registered : s.batch.sets.Registered s.liveParams

omit [PyFloat F] in
theorem liveParams_congr (hindex : ∀ reqId, (s'.batch.view.index reqId).isSome = (s.batch.view.index reqId).isSome)
    (hparams : ∀ reqId, (s'.requests reqId).bind (·.samplingParams) = (s.requests reqId).bind (·.samplingParams)) :
    s'.liveParams = s.liveParams := by
  funext reqId
  unfold liveParams
  rw [hindex, hparams]

omit [PyFloat F] in
theorem bind_modifyRequest
    (hf : ∀ r, (f r).samplingParams = r.samplingParams) (s : WorkerState F G) (reqId reqId' : RequestId) :
    ((s.modifyRequest reqId f).requests reqId').bind (·.samplingParams) =
      (s.requests reqId').bind (·.samplingParams) := by
  change (update s.requests reqId ((s.requests reqId).map f) reqId').bind _ = _
  rcases eq_or_ne reqId' reqId with rfl | hne
  · rw [update_self]
    cases s.requests reqId' with
    | none => rfl
    | some r => exact hf r
  · rw [update_of_ne hne]

section

variable (h : s.Kept laws drafted)
include h

theorem Kept.modify {g : BatchRow F G → BatchRow F G} (hindex : s.batch.view.index reqId = some i)
    (hf : ∀ r, (f r).samplingParams = r.samplingParams)
    (hothers : ∀ reqId', reqId' ≠ reqId → drafted' reqId' → drafted reqId')
    (hheld : ∀ r row spec, laws.holds (drafted reqId) r row spec → laws.holds (drafted' reqId) (f r) (g row) spec) :
    Kept laws drafted' { s.modifyRequest reqId f with batch := s.batch.modifyRow i g } := by
  have hreq : s.batch.view.reqAt i = some reqId := (h.indexed.matching reqId i).mp hindex
  obtain ⟨r, hr, hparams, hold⟩ := h.described.held hreq
  refine ⟨h.config, h.indexed.of_lists rfl rfl rfl rfl, ?_, ?_⟩
  · have hr' : (s.modifyRequest reqId f).requests reqId = some (f r) := by
      change update s.requests reqId ((s.requests reqId).map f) reqId = _
      rw [update_self, hr, Option.map_some]
    have hnew : laws.holds (drafted' reqId) (f r) (g (s.batch.rows i)) (s.batch.spec i) := hheld _ _ _ hold
    have hmodified := h.described.modify (fun reqId' hne => ⟨update_of_ne hne _ _, hothers reqId' hne⟩) hr'
      (by rw [hf]; exact hparams) hnew h.indexed.matching hreq
    have hview : (s.batch.modifyRow i g).view = { s.batch.view with
        rows := update s.batch.view.rows i (g (s.batch.rows i))
        spec := update s.batch.view.spec i (s.batch.spec i) } := by
      have hspec : update s.batch.view.spec i (s.batch.spec i) = s.batch.view.spec := update_eq_self ..
      rw [hspec]
      rfl
    rwa [hview]
  · have hlive : liveParams { s.modifyRequest reqId f with batch := s.batch.modifyRow i g } = s.liveParams :=
      liveParams_congr (fun _ => rfl) fun reqId' => bind_modifyRequest hf s reqId reqId'
    rw [hlive]
    exact h.registered

theorem Kept.appendSampled {sampled : RequestId × List Token} (hstep : s.appendSampled sampled = .ok s') :
    s'.Kept laws (fun reqId => drafted reqId ∧ reqId ≠ sampled.1) ∧ s'.batch.view.index = s.batch.view.index ∧
      s'.live = s.live ∧ (s.batch.Holes → s'.batch.Holes) := by
  unfold WorkerState.appendSampled at hstep
  split at hstep
  case h_1 => cases hstep
  case h_2 i hindex =>
    cases hstep
    refine ⟨h.modify hindex (fun _ => rfl) (fun _ _ hdrafted => hdrafted.1) fun r row spec hold => ?_, rfl, rfl,
      fun hholes => hholes.of_lists rfl rfl⟩
    exact laws.mono (fun hne => hne.2 rfl) (laws.sample _ hold)

theorem Kept.writeDrafts (hr : s.requests reqId = some r)
    (hdrafts : s.batch.updateReqSpecTokenIds reqId r.draftTokenIds = .ok batch)
    (hothers : ∀ reqId', reqId' ≠ reqId → drafted' reqId' → drafted reqId') :
    Kept laws drafted' { s with batch := batch } ∧ batch.view.index = s.batch.view.index ∧
      (s.batch.Holes → batch.Holes) := by
  obtain ⟨i, hindex, hview, hindexed, hreqIds, hbuilder, hconfig, hsets⟩ :=
    updateReqSpecTokenIds_spec hdrafts h.indexed
  have hindex' : batch.view.index = s.batch.view.index := by rw [hview]
  have hreq : s.batch.view.reqAt i = some reqId := (h.indexed.matching reqId i).mp hindex
  obtain ⟨r', hr', hparams, hold⟩ := h.described.held hreq
  obtain rfl : r = r' := Option.mem_unique hr hr'
  refine ⟨⟨hconfig.trans h.config, hindexed, ?_, ?_⟩, hindex', fun hholes => hholes.of_lists hreqIds hbuilder⟩
  · rw [hview]
    exact h.described.modify (fun reqId' hne => ⟨rfl, hothers reqId' hne⟩) hr hparams
      (laws.mono (fun _ => trivial) (laws.draft hold)) h.indexed.matching hreq
  · have hlive : liveParams { s with batch := batch } = s.liveParams :=
      liveParams_congr (fun reqId' => congrArg Option.isSome (congrFun hindex' reqId')) fun _ => rfl
    rw [hlive]
    exact hsets ▸ h.registered

theorem Kept.updateRow {u : RowUpdate} (hstep : s.updateRow u = .ok s') :
    s'.Kept laws (fun reqId => drafted reqId ∨ reqId = u.reqId) ∧ s'.batch.view.index = s.batch.view.index ∧
      s'.live = s.live ∧ (s.batch.Holes → s'.batch.Holes) := by
  unfold WorkerState.updateRow at hstep
  split at hstep
  case h_1 => cases hstep
  case h_2 i hindex =>
    obtain ⟨batch, hdrafts, hstep⟩ := bind_eq_ok.mp hstep
    cases hstep
    have hreq : s.batch.view.reqAt i = some u.reqId := (h.indexed.matching u.reqId i).mp hindex
    obtain ⟨r, hr, -, -⟩ := h.described.held hreq
    have hadvanced : Kept laws (fun reqId => drafted reqId ∧ reqId ≠ u.reqId)
        { s.modifyRequest u.reqId (·.advance u) with
          batch := s.batch.modifyRow i (·.advance s.batch.config u) } := by
      refine h.modify hindex (fun _ => rfl) (fun _ _ hdrafted => hdrafted.1) fun r row spec hold => ?_
      rw [h.config]
      exact laws.mono (fun hne => hne.2 rfl) (laws.advance u hold)
    have hr' : (s.modifyRequest u.reqId (·.advance u)).requests u.reqId = some (r.advance u) := by
      change update s.requests u.reqId ((s.requests u.reqId).map _) u.reqId = _
      rw [update_self, hr, Option.map_some]
    have hothers (reqId' : RequestId) (hne : reqId' ≠ u.reqId) (hdrafted : drafted reqId' ∨ reqId' = u.reqId) :
        drafted reqId' ∧ reqId' ≠ u.reqId := ⟨hdrafted.resolve_right hne, hne⟩
    obtain ⟨hkept, hindex', hholes⟩ := hadvanced.writeDrafts hr' hdrafts hothers
    exact ⟨hkept, hindex', rfl, fun h => hholes (h.of_lists rfl rfl)⟩

theorem Kept.removeRequest (hholes : s.batch.Holes) (hstep : s.withBatch (·.removeRequest reqId) = .ok s') :
    s'.Kept laws drafted ∧ s'.batch.Holes ∧ s'.live = s.live ∧
      s'.batch.view.index = update s.batch.view.index reqId none := by
  obtain ⟨batch, hremove, hstep⟩ := bind_eq_ok.mp hstep
  cases hstep
  rcases removeRequest_spec hremove h.indexed hholes with
    ⟨hnone, rfl⟩ | ⟨i, hindex, hview, hindexed, hholes', hconfig, hsets⟩
  · exact ⟨h, hholes, rfl, (update_eq_self_iff.mpr hnone.symm).symm⟩
  have hreq : s.batch.view.reqAt i = some reqId := (h.indexed.matching reqId i).mp hindex
  have hindex' : batch.view.index = update s.batch.view.index reqId none := by
    rw [hview]
    rfl
  refine ⟨⟨hconfig.trans h.config, hindexed, ?_, ?_⟩, hholes', rfl, hindex'⟩
  · rw [hview, h.config]
    exact h.described.remove hreq
  obtain ⟨r, hr, hparams, -⟩ := h.described.held hreq
  have hlive : liveParams { s with batch := batch } = update s.liveParams reqId none := by
    funext reqId'
    unfold liveParams
    rw [hindex']
    rcases eq_or_ne reqId' reqId with rfl | hne
    · rw [update_self, update_self]
      rfl
    · rw [update_of_ne hne, update_of_ne hne]
  rw [hlive, hsets, h.config]
  split_ifs with hpooling
  · -- a pooling model has no sampling parameters to forget
    have hnone : s.liveParams reqId = none := by
      unfold liveParams
      rw [hindex, hr]
      rw [hpooling, Bool.not_true, Option.isSome_eq_false_iff, Option.isNone_iff_eq_none] at hparams
      exact hparams
    rw [update_eq_self_iff.mpr hnone.symm]
    exact h.registered
  · exact h.registered.leave reqId

end

theorem Kept.addRequest (h : s.Kept laws fun _ => True) (hholes : s.batch.Holes)
    (hnew : s.batch.view.index r.reqId = none) (hparams : r.samplingParams.isSome = !config.isPoolingModel)
    (hstep : s.addRequest r = .ok s') :
    s'.Kept laws (fun _ => True) ∧ s'.batch.Holes ∧ s'.live = s.live ∧
      ∃ i, s'.batch.view.index = update s.batch.view.index r.reqId (some i) := by
  obtain ⟨placed, hadd, hstep⟩ := bind_eq_ok.mp hstep
  obtain ⟨batch, hdrafts, hstep⟩ := bind_eq_ok.mp hstep
  cases hstep
  obtain ⟨i, row, hview, hfree, hindexed, hholes', hconfig, hentered⟩ :=
    addRequest_spec hadd h.indexed hholes hnew
  rw [h.config] at hentered
  have hindex : placed.view.index = update s.batch.view.index r.reqId (some i) := by
    rw [hview]
    rfl
  have hheld := laws.enter (h.described.clean hfree) hparams hentered
  have hplaced : Kept laws (fun reqId => reqId ≠ r.reqId)
      { s with requests := update s.requests r.reqId (some r), batch := placed } := by
    refine ⟨hconfig.trans h.config, hindexed, ?_, ?_⟩
    · rw [hview]
      exact h.described.write (fun reqId' hne => ⟨update_of_ne hne .., fun _ => trivial⟩) (update_self ..) hparams
        (laws.mono (fun hne => hne rfl) hheld) fun m _ hm => by simp [(h.indexed.matching _ m).mpr hm] at hnew
    have hlive : liveParams { s with requests := update s.requests r.reqId (some r), batch := placed } =
        update s.liveParams r.reqId r.samplingParams := by
      funext reqId'
      unfold liveParams
      dsimp only
      rw [hindex]
      rcases eq_or_ne reqId' r.reqId with rfl | hne
      · rw [update_self, update_self, update_self]
        rfl
      · rw [update_of_ne hne, update_of_ne hne, update_of_ne hne]
    have hnone : s.liveParams r.reqId = none := by
      unfold liveParams
      rw [hnew]
      rfl
    rw [hlive]
    exact hentered.registered h.registered hnone
  obtain ⟨hkept, hindex', hholes''⟩ := hplaced.writeDrafts (update_self ..) hdrafts fun _ hne _ => hne
  exact ⟨hkept, hholes'' hholes', rfl, i, hindex'.trans hindex⟩

/-- What holds while requests are moved from the rows from `n` on. -/
structure Moving (laws : RowLaws config F G) (s : WorkerState F G) (n : ℕ) (v : RowView F G) : Prop where
  matching : Matches v.index v.reqAt
  described : v.Described laws s.requests fun _ => True
  movable : ∀ i reqId r, n ≤ i → v.reqAt i = some reqId → s.requests reqId = some r → laws.movable r
  live : ∀ reqId, (v.index reqId).isSome = (s.batch.view.index reqId).isSome

/-- The requests that are moved stay movable, as they come from the rows that are given up. -/
theorem Moving.step {n : ℕ} {v v' : RowView F G} (h : Moving laws s n v) (hmove : v.MoveStep config n v') :
    Moving laws s n v' := by
  obtain ⟨reqId, i, j, hi, hj, hle, rfl⟩ := hmove
  have hindex : v.index reqId = some i := (h.matching reqId i).mpr hi
  obtain ⟨r, hr, -, -⟩ := h.described.held hi
  refine ⟨h.matching.move hindex hj, h.described.move hi hj hr (h.movable i reqId r hle hi hr), ?_, ?_⟩
  · intro m reqId' r' hm hreq hr'
    simp only [RowView.move] at hreq
    rcases eq_or_ne m i with rfl | hmi
    · simp [update_self] at hreq
    rw [update_of_ne hmi] at hreq
    rcases eq_or_ne m j with rfl | hmj
    · rw [update_self] at hreq
      cases hreq
      exact h.movable i reqId r' hle hi hr'
    · rw [update_of_ne hmj] at hreq
      exact h.movable m reqId' r' hm hreq hr'
  intro reqId'
  rw [← h.live]
  simp only [RowView.move]
  rcases eq_or_ne reqId' reqId with rfl | hne
  · rw [update_self, hindex]
    rfl
  · rw [update_of_ne hne]

theorem Kept.condense (h : s.Kept laws fun _ => True) (hholes : s.batch.Holes)
    (hmovable : ∀ i reqId r, s.batch.numReqs ≤ i → s.batch.reqAt i = some reqId → s.requests reqId = some r →
      laws.movable r) (hstep : s.withBatch (·.condense) = .ok s') :
    s'.Kept laws (fun _ => True) ∧ s'.batch.Dense ∧ s'.live = s.live ∧
      ∀ reqId, (s'.batch.view.index reqId).isSome = (s.batch.view.index reqId).isSome := by
  obtain ⟨batch, hcondense, hstep⟩ := bind_eq_ok.mp hstep
  cases hstep
  obtain ⟨hmoves, hindexed, hdense, hconfig, hsets⟩ := condense_spec hcondense h.indexed hholes
  rw [h.config] at hmoves
  have hmoving : Moving laws s s.batch.numReqs batch.view :=
    steps_invariant (P := Moving laws s s.batch.numReqs) (fun _ _ => Moving.step) ⟨h.indexed.matching, h.described,
      hmovable, fun _ => rfl⟩ hmoves
  refine ⟨⟨hconfig.trans h.config, hindexed, hmoving.described, ?_⟩, hdense, rfl, hmoving.live⟩
  have hlive : liveParams { s with batch := batch } = s.liveParams := liveParams_congr hmoving.live fun _ => rfl
  rw [hlive]
  exact hsets ▸ h.registered

theorem Kept.swapStates {swap : ℕ × ℕ} (h : s.Kept laws fun _ => True) (hdense : s.batch.Dense)
    (hswappable : ∀ reqId₁ reqId₂ r₁ r₂, s.batch.reqAt swap.1 = some reqId₁ → s.batch.reqAt swap.2 = some reqId₂ →
      s.requests reqId₁ = some r₁ → s.requests reqId₂ = some r₂ → laws.swappable r₁ r₂)
    (hstep : s.swapStates swap = .ok s') :
    s'.Kept laws (fun _ => True) ∧ s'.batch.Dense ∧ s'.live = s.live ∧
      ∀ reqId, (s'.batch.view.index reqId).isSome = (s.batch.view.index reqId).isSome := by
  obtain ⟨batch, hswap, hstep⟩ := bind_eq_ok.mp hstep
  cases hstep
  obtain ⟨reqId₁, reqId₂, hreq₁, hreq₂, hview, hindexed, hconfig, hsets, hlength, hnumReqs⟩ :=
    swapStates_spec hswap h.indexed
  obtain ⟨r₁, hr₁, -, -⟩ := h.described.held hreq₁
  obtain ⟨r₂, hr₂, -, -⟩ := h.described.held hreq₂
  have hlive (reqId : RequestId) : (batch.view.index reqId).isSome = (s.batch.view.index reqId).isSome := by
    rw [hview]
    exact RowView.isSome_swap _ ((h.indexed.matching _ _).mpr hreq₁) ((h.indexed.matching _ _).mpr hreq₂) reqId
  refine ⟨⟨hconfig.trans h.config, hindexed, ?_, ?_⟩, ⟨?_, fun m hm => ?_⟩, rfl, hlive⟩
  · rw [hview, h.config]
    exact h.described.swap hreq₁ hreq₂ hr₁ hr₂ (hswappable _ _ _ _ hreq₁ hreq₂ hr₁ hr₂)
  · have hparams : liveParams { s with batch := batch } = s.liveParams := liveParams_congr hlive fun _ => rfl
    rw [hparams]
    exact hsets ▸ h.registered
  · exact hlength.trans (hdense.length.trans hnumReqs.symm)
  have hreqAt : batch.reqAt m = (s.batch.view.swap s.batch.config reqId₁ reqId₂ swap.1 swap.2).reqAt m :=
    congrFun (congrArg RowView.reqAt hview) m
  rw [hreqAt]
  simp only [RowView.swap]
  change update (update s.batch.reqAt swap.1 (s.batch.reqAt swap.2)) swap.2 (s.batch.reqAt swap.1) m ≠ none
  rw [hreq₁, hreq₂]
  rcases eq_or_ne m swap.2 with rfl | hne₂
  · rw [update_self]
    exact Option.some_ne_none _
  rw [update_of_ne hne₂]
  rcases eq_or_ne m swap.1 with rfl | hne₁
  · rw [update_self]
    exact Option.some_ne_none _
  · rw [update_of_ne hne₁]
    exact hdense.filled m (hm.trans_eq hnumReqs)

/-! ## Refreshing -/

def PowerRow (row : BatchRow F G) (powerSmcConfig : PowerSMCConfig F) (outputTokenIds : List Token) : Prop :=
  row.powerSmcAlpha = powerSmcAlphaFor powerSmcConfig outputTokenIds ∧
    proposalTemperature row.powerSmcAlpha = .ok row.temperature

/-- The rows of all Power-SMC requests. -/
def Powered (s : WorkerState F G) : Prop :=
  ∀ i reqId r params powerSmcConfig, s.batch.reqAt i = some reqId → s.requests reqId = some r →
    r.samplingParams = some params → params.powerSmcConfig = some powerSmcConfig →
    PowerRow (s.batch.rows i) powerSmcConfig r.outputTokenIds

theorem refreshPowerSmcRow_spec {outputs : RequestId → List Token} {b b' : InputBatch F G}
    (h : b.refreshPowerSmcRow outputs entry = .ok b') (hindexed : b.Indexed) :
    (b.view.index entry.1 = none ∧ b' = b) ∨ ∃ i temperature, b.view.index entry.1 = some i ∧
      proposalTemperature (powerSmcAlphaFor entry.2 (outputs entry.1)) = .ok temperature ∧
      b' = b.modifyRow i fun row => { row with
        powerSmcAlpha := powerSmcAlphaFor entry.2 (outputs entry.1), temperature := temperature } := by
  unfold refreshPowerSmcRow at h
  split at h
  case h_1 hnone =>
    cases h
    exact .inl ⟨hnone, rfl⟩
  case h_2 i hindex =>
    have howner : (b.reqOutputTokenIds[i]?).join = some entry.1 := by
      rw [hindexed.owners]
      exact (hindexed.matching entry.1 i).mp hindex
    rw [howner] at h
    obtain ⟨temperature, htemperature, h⟩ := bind_eq_ok.mp h
    cases h
    exact .inr ⟨i, temperature, hindex, htemperature, rfl⟩

structure Refreshing (laws : RowLaws config F G) (drafted : RequestId → Prop) (s : WorkerState F G)
    (done : List (RequestId × PowerSMCConfig F)) (b : InputBatch F G) : Prop where
  lists : b = { s.batch with rows := b.rows }
  described : b.view.Described laws s.requests drafted
  powered : ∀ entry ∈ done, ∀ i, s.batch.view.index entry.1 = some i →
    PowerRow (b.rows i) entry.2 (s.outputs entry.1)

omit [PyFloat F] in
theorem outputs_of_request (h : s.requests reqId = some r) : s.outputs reqId = r.outputTokenIds := by
  unfold outputs
  rw [h]
  rfl

section

variable (h : s.Kept laws drafted)
include h

theorem Kept.powerSmcConfig {powerSmcConfig : PowerSMCConfig F}
    (hindex : s.batch.view.index reqId = some i)
    (hlookup : s.batch.powerSmcConfigs.lookup reqId = some powerSmcConfig) :
    ∃ r params, s.requests reqId = some r ∧ r.samplingParams.isSome = !config.isPoolingModel ∧
      laws.holds (drafted reqId) r (s.batch.rows i) (s.batch.spec i) ∧ r.samplingParams = some params ∧
      params.powerSmcConfig = some powerSmcConfig := by
  have hreq : s.batch.view.reqAt i = some reqId := (h.indexed.matching reqId i).mp hindex
  obtain ⟨r, hr, hparams, hheld⟩ := h.described.held hreq
  have hpower : s.batch.powerSmcConfigs.lookup reqId = _ := h.registered.power reqId
  unfold liveParams at hpower
  rw [hlookup, hindex, Option.isSome_some, if_pos rfl, hr, Option.bind_some] at hpower
  obtain ⟨params, hsampling, hconfig⟩ := Option.bind_eq_some_iff.mp hpower.symm
  exact ⟨r, params, hr, hparams, hheld, hsampling, hconfig⟩

theorem Kept.powerSmcConfigs_lookup {params : SamplingParams F}
    (hindex : s.batch.view.index reqId = some i) (hr : s.requests reqId = some r)
    (hparams : r.samplingParams = some params) : s.batch.powerSmcConfigs.lookup reqId = params.powerSmcConfig := by
  refine (h.registered.power reqId).trans ?_
  unfold liveParams
  rw [hindex, Option.isSome_some, if_pos rfl, hr, Option.bind_some, hparams, Option.bind_some]

theorem Refreshing.step {done : List (RequestId × PowerSMCConfig F)}
    {b b' : InputBatch F G} (hb : Refreshing laws drafted s done b)
    (hentries : ∀ e ∈ done ++ [entry], s.batch.powerSmcConfigs.lookup e.1 = some e.2)
    (hrow : b.refreshPowerSmcRow s.outputs entry = .ok b') :
    Refreshing laws drafted s (done ++ [entry]) b' := by
  have hindex : b.view.index = s.batch.view.index := by
    rw [hb.lists]
    rfl
  have hindexed : b.Indexed := by
    rw [hb.lists]
    exact h.indexed.of_lists rfl rfl rfl rfl
  have hkept : Kept laws drafted { s with batch := b } := by
    refine ⟨?_, hindexed, hb.described, ?_⟩
    · rw [hb.lists]
      exact h.config
    · rw [hb.lists]
      exact h.registered
  rcases refreshPowerSmcRow_spec hrow hindexed with ⟨hnone, rfl⟩ | ⟨i, temperature, hi, htemperature, rfl⟩
  · refine ⟨hb.lists, hb.described, fun e he m hm => ?_⟩
    rcases mem_append.mp he with he | he
    · exact hb.powered e he m hm
    · obtain rfl := mem_singleton.mp he
      simp [← hindex, hnone] at hm
  have hentry : b.powerSmcConfigs.lookup entry.1 = some entry.2 := by
    rw [hb.lists]
    exact hentries entry (mem_append_right _ (mem_singleton_self _))
  obtain ⟨r, params, hr, hparams, hheld, hsampling, hpower⟩ := hkept.powerSmcConfig hi hentry
  have houtputs : s.outputs entry.1 = r.outputTokenIds := outputs_of_request hr
  rw [houtputs]
  refine ⟨?_, ?_, fun e he m hm => ?_⟩
  · have hlists := hb.lists
    unfold modifyRow
    rw [hlists]
  · have hreq : b.view.reqAt i = some entry.1 := (hindexed.matching entry.1 i).mp hi
    have hnew : laws.holds (drafted entry.1) r { b.rows i with
        powerSmcAlpha := powerSmcAlphaFor entry.2 r.outputTokenIds, temperature := temperature } (b.spec i) :=
      laws.refresh hsampling hpower hheld
    have hmodified := hb.described.modify (fun _ _ => ⟨rfl, id⟩) hr hparams hnew hindexed.matching hreq
    have hspec : update b.view.spec i (b.spec i) = b.view.spec := update_eq_self ..
    rw [hspec] at hmodified
    exact hmodified
  change PowerRow (update b.rows i _ m) e.2 (s.outputs e.1)
  rcases eq_or_ne m i with rfl | hne
  · -- the request of the row that was just refreshed
    rw [update_self]
    have hkey : e.1 = entry.1 := h.indexed.matching.key_injective hm (hindex ▸ hi)
    have hvalue : e.2 = entry.2 := by
      have he' := hentries e he
      rw [hkey, hentries entry (mem_append_right _ (mem_singleton_self _))] at he'
      exact (Option.some.inj he').symm
    rw [hkey, hvalue, houtputs]
    exact ⟨rfl, houtputs ▸ htemperature⟩
  rw [update_of_ne hne]
  rcases mem_append.mp he with he | he
  · exact hb.powered e he m hm
  · obtain rfl := mem_singleton.mp he
    rw [← hindex, hi] at hm
    exact absurd (Option.some.inj hm).symm hne

theorem Kept.refreshPowerSmcCpuState (hstep : s.batch.refreshPowerSmcCpuState s.outputs = .ok batch) :
    batch = { s.batch with rows := batch.rows } ∧ Kept laws drafted { s with batch := batch } ∧
      Powered { s with batch := batch } := by
  have hlookup : ∀ e ∈ s.batch.powerSmcConfigs.entries.map (fun e => (e.1, e.2)),
      s.batch.powerSmcConfigs.lookup e.1 = some e.2 := by
    intro e he
    obtain ⟨entry, hentry, rfl⟩ := mem_map.mp he
    exact AList.mem_lookup_iff.mpr hentry
  have hrefreshed : Refreshing laws drafted s (s.batch.powerSmcConfigs.entries.map fun e => (e.1, e.2)) batch := by
    refine foldlM_done_invariant (P := Refreshing laws drafted s) ?_ ⟨rfl, h.described, nofun⟩ hstep
    intro done entry rest b b' hitems hb hrow
    refine hb.step h (fun e he => hlookup e ?_) hrow
    rw [hitems]
    exact (append_assoc done [entry] rest ▸ mem_append_left rest he :)
  have hkept : Kept laws drafted { s with batch := batch } := by
    refine ⟨?_, ?_, hrefreshed.described, ?_⟩
    · rw [hrefreshed.lists]
      exact h.config
    · rw [hrefreshed.lists]
      exact h.indexed.of_lists rfl rfl rfl rfl
    · rw [hrefreshed.lists]
      exact h.registered
  refine ⟨hrefreshed.lists, hkept, fun i reqId r params powerSmcConfig hreq hr hparams hpower => ?_⟩
  have hindex : s.batch.view.index reqId = some i := by
    refine (h.indexed.matching reqId i).mpr ?_
    rw [hrefreshed.lists] at hreq
    exact hreq
  have hentry : s.batch.powerSmcConfigs.lookup reqId = some powerSmcConfig :=
    (h.powerSmcConfigs_lookup hindex hr hparams).trans hpower
  have houtputs : s.outputs reqId = r.outputTokenIds := outputs_of_request hr
  have hmem := mem_map_of_mem (f := fun e : Sigma fun _ => PowerSMCConfig F => (e.1, e.2))
    (AList.mem_lookup_iff.mp hentry)
  rw [← houtputs]
  exact hrefreshed.powered _ hmem i hindex

end

/-! ## Steps -/

section

variable (h : s.Kept laws drafted)
include h

theorem Powered.of_randomReqs (hgreedy : s.batch.allGreedy = true) : s.Powered := by
  intro i reqId r params powerSmcConfig hreq hr hparams hpower
  have hlive : s.liveParams reqId = some params := by
    have hindex : s.batch.view.index reqId = some i := (h.indexed.matching reqId i).mpr hreq
    unfold liveParams
    rw [hindex, Option.isSome_some, if_pos rfl, hr, Option.bind_some, hparams]
  have hmem : reqId ∈ s.batch.randomReqs := h.registered.random reqId params hlive (hpower ▸ nofun)
  simp [isEmpty_iff.mp hgreedy] at hmem

theorem Powered.of_powerSmcConfigs (hempty : s.batch.powerSmcConfigs.entries.isEmpty = true) : s.Powered := by
  intro i reqId r params powerSmcConfig hreq hr hparams hpower
  have hindex : s.batch.view.index reqId = some i := (h.indexed.matching reqId i).mpr hreq
  have hlookup := h.powerSmcConfigs_lookup hindex hr hparams
  simp [hpower, ← Option.mem_def, AList.mem_lookup_iff, isEmpty_iff.mp hempty] at hlookup

theorem Powered.of_pooling (hpooling : config.isPoolingModel = true) : s.Powered := by
  intro i reqId r params powerSmcConfig hreq hr hparams _
  obtain ⟨r', hr', hisSome, -⟩ := h.described.held hreq
  obtain rfl : r = r' := Option.mem_unique hr hr'
  simp [hparams, hpooling] at hisSome

theorem Kept.with_metadata (builder : BatchUpdateBuilder F) (metadata : SamplingMetadata F) :
    Kept laws drafted { s with batch := { s.batch with builder := builder, samplingMetadata := metadata } } :=
  { h with indexed := h.indexed.of_lists rfl rfl rfl rfl }

theorem Kept.makeSamplingMetadata (hstep : s.batch.makeSamplingMetadata s.outputs = .ok batch) :
    batch = { s.batch with rows := batch.rows, samplingMetadata := batch.metadataOfRows } ∧
      Kept laws drafted { s with batch := batch } ∧ Powered { s with batch := batch } := by
  unfold InputBatch.makeSamplingMetadata at hstep
  split_ifs at hstep with hgreedy
  · cases hstep
    have hkept := h.with_metadata s.batch.builder s.batch.metadataOfRows
    exact ⟨rfl, hkept, Powered.of_randomReqs hkept hgreedy⟩
  obtain ⟨refreshed, hrefresh, hstep⟩ := bind_eq_ok.mp hstep
  cases hstep
  obtain ⟨hlists, hkept, hpowered⟩ := h.refreshPowerSmcCpuState hrefresh
  refine ⟨?_, hkept.with_metadata _ _, hpowered⟩
  rw [hlists]
  rfl

end

/-- Nothing has changed that the metadata depends on. -/
def Unchanged (b : InputBatch F G) : Prop :=
  if b.config.isPoolingModel then b.builder.batchChanged = false else b.builder.unchanged = true

def MetadataOf (b b' : InputBatch F G) : Prop :=
  b'.samplingMetadata = b'.metadataOfRows ∨
    (Unchanged b ∧ b'.samplingMetadata.promptTokenIds = b.samplingMetadata.promptTokenIds ∧
      b'.samplingMetadata.allowedTokenIdsMask = b.samplingMetadata.allowedTokenIdsMask)

theorem Kept.refreshMetadata (h : s.Kept laws drafted)
    (hstep : s.withBatch (·.refreshMetadata s.outputs) = .ok s') :
    (∃ rows metadata, s'.batch = { s.batch with rows := rows, builder := {}, samplingMetadata := metadata }) ∧
      s'.live = s.live ∧ s'.Kept laws drafted ∧ s'.Powered ∧ MetadataOf s.batch s'.batch := by
  obtain ⟨batch, hrefresh, hstep⟩ := bind_eq_ok.mp hstep
  cases hstep
  have hreset := h.with_metadata {} s.batch.samplingMetadata
  have hmake (hmake : InputBatch.makeSamplingMetadata s.outputs { s.batch with builder := {} } = .ok batch) :
      (∃ rows metadata, batch = { s.batch with rows := rows, builder := {}, samplingMetadata := metadata }) ∧
        s.live = s.live ∧ Kept laws drafted { s with batch := batch } ∧ Powered { s with batch := batch } ∧
        MetadataOf s.batch batch := by
    obtain ⟨hlists, hkept, hpowered⟩ := hreset.makeSamplingMetadata hmake
    exact ⟨⟨_, _, hlists⟩, rfl, hkept, hpowered, .inl (congrArg samplingMetadata hlists)⟩
  unfold refreshMetadata at hrefresh
  dsimp only at hrefresh
  split_ifs at hrefresh with hpooling hchanged hunchanged
  · exact hmake hrefresh
  · cases hrefresh
    refine ⟨⟨_, _, rfl⟩, rfl, hreset, Powered.of_pooling hreset (h.config ▸ hpooling), .inr ⟨?_, rfl, rfl⟩⟩
    unfold Unchanged
    rw [if_pos hpooling]
    exact Bool.eq_false_of_not_eq_true hchanged
  · have hunchanged' : Unchanged s.batch := by
      unfold Unchanged
      rwa [if_neg hpooling]
    unfold updatePowerSmcSamplingState at hrefresh
    split_ifs at hrefresh with hempty hnone
    · cases hrefresh
      exact ⟨⟨_, _, rfl⟩, rfl, hreset, Powered.of_powerSmcConfigs hreset hempty, .inr ⟨hunchanged', rfl, rfl⟩⟩
    · exact hmake hrefresh
    obtain ⟨refreshed, hrefresh, hbatch⟩ := bind_eq_ok.mp hrefresh
    obtain ⟨hlists, hkept, hpowered⟩ := hreset.refreshPowerSmcCpuState hrefresh
    obtain ⟨rows, rfl⟩ : ∃ rows, refreshed = { s.batch with rows := rows, builder := {} } := ⟨_, hlists⟩
    cases hbatch
    exact ⟨⟨rows, _, rfl⟩, rfl, hkept.with_metadata _ _, hpowered, .inr ⟨hunchanged', rfl, rfl⟩⟩
  · exact hmake hrefresh

/-- What the scheduler guarantees about a step: new requests are not in the batch, they are of the kind of the
model, and the requests with sampled tokens go on or leave. -/
structure Admissible (s : WorkerState F G) (w : WorkerStep F G) : Prop where
  fresh : ∀ r ∈ w.additions, s.batch.reqIdToIndex.lookup r.reqId = none ∨ r.reqId ∈ w.removals
  distinct : (w.additions.map (·.reqId)).Nodup
  params : ∀ r ∈ w.additions, r.samplingParams.isSome = !s.batch.config.isPoolingModel
  answered : ∀ entry ∈ w.sampled, entry.1 ∈ w.removals ∨ entry.1 ∈ w.updates.map (·.reqId)

attribute [mk_iff] Admissible

instance : Decidable (s.Admissible w) :=
  decidable_of_iff' _ (admissible_iff s w)

/-- A loop over rows, each of which changes for which requests draft tokens are known. -/
theorem Kept.rows {L : Type} {items : List L} {f : WorkerState F G → L → Except PyError (WorkerState F G)}
    {d : List L → RequestId → Prop}
    (hf : ∀ done a s s', s.Kept laws (d done) → f s a = .ok s' → s'.Kept laws (d (done ++ [a])) ∧
      s'.batch.view.index = s.batch.view.index ∧ s'.live = s.live ∧ (s.batch.Holes → s'.batch.Holes))
    (h : s.Kept laws (d [])) (hholes : s.batch.Holes) (hstep : items.foldlM f s = .ok s') :
    s'.Kept laws (d items) ∧ s'.batch.Holes ∧ s'.live = s.live ∧ s'.batch.view.index = s.batch.view.index := by
  refine foldlM_done_invariant (P := fun done s' => s'.Kept laws (d done) ∧ s'.batch.Holes ∧ s'.live = s.live ∧
    s'.batch.view.index = s.batch.view.index) ?_ ⟨h, hholes, rfl, rfl⟩ hstep
  rintro done a rest s₁ s₂ - ⟨hkept, hholes₁, hlive₁, hindex₁⟩ hstep₁
  obtain ⟨hkept₂, hindex₂, hlive₂, hholes₂⟩ := hf done a s₁ s₂ hkept hstep₁
  exact ⟨hkept₂, hholes₂ hholes₁, hlive₂.trans hlive₁, hindex₂.trans hindex₁⟩

theorem Kept.sampledTokens {sampled : List (RequestId × List Token)} (h : s.Kept laws fun _ => True)
    (hholes : s.batch.Holes) (hstep : sampled.foldlM WorkerState.appendSampled s = .ok s') :
    s'.Kept laws (fun reqId => reqId ∉ sampled.map (·.1)) ∧ s'.batch.Holes ∧ s'.live = s.live ∧
      s'.batch.view.index = s.batch.view.index := by
  refine Kept.rows (d := fun (done : List (RequestId × List Token)) reqId => reqId ∉ done.map (·.1))
    (fun done entry s₁ s₂ hkept hstep₁ => ?_) ?_ hholes hstep
  · convert hkept.appendSampled hstep₁ using 3
    rw [map_append, mem_append, not_or, map_singleton, mem_singleton]
  · convert h using 2
    simp only [map_nil, not_mem_nil, not_false_eq_true]

theorem Kept.removals {removals : List RequestId} (h : s.Kept laws drafted) (hholes : s.batch.Holes)
    (hstep : removals.foldlM (fun s reqId => s.withBatch (·.removeRequest reqId)) s = .ok s') :
    s'.Kept laws drafted ∧ s'.batch.Holes ∧ s'.live = s.live ∧
      ∀ reqId, s'.batch.view.index reqId = if reqId ∈ removals then none else s.batch.view.index reqId := by
  refine foldlM_done_invariant (P := fun done s' => s'.Kept laws drafted ∧ s'.batch.Holes ∧ s'.live = s.live ∧
    ∀ reqId, s'.batch.view.index reqId = if reqId ∈ done then none else s.batch.view.index reqId) ?_
    ⟨h, hholes, rfl, fun _ => (if_neg not_mem_nil).symm⟩ hstep
  rintro done removed rest s₁ s₂ - ⟨hkept, hholes₁, hlive₁, hindex₁⟩ hstep₁
  obtain ⟨hkept₂, hholes₂, hlive₂, hindex₂⟩ := hkept.removeRequest hholes₁ hstep₁
  refine ⟨hkept₂, hholes₂, hlive₂.trans hlive₁, fun reqId => ?_⟩
  rw [hindex₂]
  rcases eq_or_ne reqId removed with rfl | hne
  · rw [update_self, if_pos (mem_append_right _ (mem_singleton_self _))]
  · rw [update_of_ne hne, hindex₁]
    refine if_congr ?_ rfl rfl
    rw [mem_append, mem_singleton, or_iff_left hne]

theorem Kept.updates {updates : List RowUpdate} (h : s.Kept laws drafted) (hholes : s.batch.Holes)
    (hstep : updates.foldlM WorkerState.updateRow s = .ok s') :
    s'.Kept laws (fun reqId => drafted reqId ∨ reqId ∈ updates.map (·.reqId)) ∧ s'.batch.Holes ∧
      s'.live = s.live ∧ s'.batch.view.index = s.batch.view.index := by
  refine Kept.rows (d := fun (done : List RowUpdate) reqId => drafted reqId ∨ reqId ∈ done.map (·.reqId))
    (fun done u s₁ s₂ hkept hstep₁ => ?_) ?_ hholes hstep
  · convert hkept.updateRow hstep₁ using 3
    rw [map_append, mem_append, map_singleton, mem_singleton, or_assoc]
  · convert h using 2
    simp only [map_nil, not_mem_nil, or_false]

theorem Kept.additions {additions : List (CachedRequestState F G)} (h : s.Kept laws fun _ => True)
    (hholes : s.batch.Holes) (hfresh : ∀ r ∈ additions, s.batch.view.index r.reqId = none)
    (hdistinct : (additions.map (·.reqId)).Nodup)
    (hparams : ∀ r ∈ additions, r.samplingParams.isSome = !config.isPoolingModel)
    (hstep : additions.foldlM WorkerState.addRequest s = .ok s') :
    s'.Kept laws (fun _ => True) ∧ s'.batch.Holes ∧ s'.live = s.live ∧
      ∀ reqId, (s'.batch.view.index reqId).isSome ↔
        (s.batch.view.index reqId).isSome ∨ reqId ∈ additions.map (·.reqId) := by
  refine foldlM_done_invariant (P := fun done s' => s'.Kept laws (fun _ => True) ∧ s'.batch.Holes ∧
    s'.live = s.live ∧ ∀ reqId, (s'.batch.view.index reqId).isSome ↔
      (s.batch.view.index reqId).isSome ∨ reqId ∈ done.map (·.reqId)) ?_
    ⟨h, hholes, rfl, fun _ => (or_iff_left not_mem_nil).symm⟩ hstep
  rintro done r rest s₁ s₂ hitems ⟨hkept, hholes₁, hlive₁, hindex₁⟩ hstep₁
  have hmem : r ∈ additions := by
    rw [hitems]
    exact mem_append_right _ mem_cons_self
  have hnew : s₁.batch.view.index r.reqId = none := by
    rw [← Option.not_isSome_iff_eq_none, hindex₁, hfresh r hmem, not_or]
    rw [hitems, map_append, map_cons, nodup_append] at hdistinct
    exact ⟨nofun, fun hin => hdistinct.2.2 _ hin _ mem_cons_self rfl⟩
  obtain ⟨hkept₂, hholes₂, hlive₂, i, hindex₂⟩ := hkept.addRequest hholes₁ hnew (hparams r hmem) hstep₁
  refine ⟨hkept₂, hholes₂, hlive₂.trans hlive₁, fun reqId => ?_⟩
  rw [hindex₂, map_append, mem_append, map_singleton, mem_singleton]
  rcases eq_or_ne reqId r.reqId with rfl | hne
  · rw [update_self]
    exact ⟨fun _ => .inr (.inr rfl), fun _ => rfl⟩
  · rw [update_of_ne hne, hindex₁, or_iff_left hne]

/-- The live requests are those in the batch. -/
def Live (s : WorkerState F G) : Prop := ∀ reqId, reqId ∈ s.live ↔ (s.batch.view.index reqId).isSome

/-- The changes of a step before the requests are condensed. -/
theorem Kept.prepare (h : s.Kept laws fun _ => True) (hholes : s.batch.Holes) (hlive : s.Live)
    (hadmissible : s.Admissible w) (hstep : s.prepare w = .ok s') :
    s'.Kept laws (fun _ => True) ∧ s'.batch.Holes ∧ s'.Live := by
  obtain ⟨s₁, hsampled, hstep⟩ := bind_eq_ok.mp hstep
  obtain ⟨s₂, hremovals, hstep⟩ := bind_eq_ok.mp hstep
  obtain ⟨s₃, hupdates, hstep⟩ := bind_eq_ok.mp hstep
  obtain ⟨s₄, hadditions, hstep⟩ := bind_eq_ok.mp hstep
  cases hstep
  obtain ⟨hkept₁, hholes₁, hlive₁, hindex₁⟩ := h.sampledTokens hholes hsampled
  obtain ⟨hkept₂, hholes₂, hlive₂, hindex₂⟩ := hkept₁.removals hholes₁ hremovals
  obtain ⟨hkept₃, hholes₃, hlive₃, hindex₃⟩ := hkept₂.updates hholes₂ hupdates
  have hdrafted : s₃.Kept laws fun _ => True := by
    refine { hkept₃ with described := hkept₃.described.mono fun i reqId hreq _ => ?_ }
    -- a request with sampled tokens that is still in the batch has been updated
    by_cases hmem : reqId ∈ w.sampled.map (·.1)
    · obtain ⟨entry, hentry, rfl⟩ := mem_map.mp hmem
      refine .inr ((hadmissible.answered entry hentry).resolve_left fun hremoved => ?_)
      have hindex := (hkept₃.indexed.matching entry.1 i).mpr hreq
      simp [hindex₃, hindex₂, if_pos hremoved] at hindex
    · exact .inl hmem
  have hfresh (r : CachedRequestState F G) (hr : r ∈ w.additions) : s₃.batch.view.index r.reqId = none := by
    rw [hindex₃, hindex₂, hindex₁]
    split_ifs with hremoved
    · rfl
    · exact (hadmissible.fresh r hr).resolve_right hremoved
  obtain ⟨hkept₄, hholes₄, hlive₄, hindex₄⟩ :=
    hdrafted.additions hholes₃ hfresh hadmissible.distinct (h.config ▸ hadmissible.params) hadditions
  refine ⟨{ hkept₄ with }, hholes₄, fun reqId => ?_⟩
  rw [hindex₄, hindex₃, hindex₂, hindex₁, mem_append, mem_filter, hlive₄, hlive₃, hlive₂, hlive₁, hlive,
    decide_eq_true_iff]
  refine or_congr_left ?_
  split_ifs with hremoved
  · exact ⟨fun hboth => absurd hremoved hboth.2, nofun⟩
  · exact and_iff_left hremoved

/-- The request in a row. -/
def requestAt (s : WorkerState F G) (i : ℕ) : Option (CachedRequestState F G) := (s.batch.reqAt i).bind s.requests

/-- The rows that are exchanged, one pair after the other, may be exchanged. -/
def SwapsOk (swappable : CachedRequestState F G → CachedRequestState F G → Prop) :
    WorkerState F G → List (ℕ × ℕ) → Prop
  | _, [] => True
  | s, swap :: rest => (∀ r₁ ∈ s.requestAt swap.1, ∀ r₂ ∈ s.requestAt swap.2, swappable r₁ r₂) ∧
      ∀ s' ∈ (s.swapStates swap).toOption, SwapsOk swappable s' rest

/-- The rows that a step moves and exchanges may be moved and exchanged. -/
def Guarded (movable : CachedRequestState F G → Prop)
    (swappable : CachedRequestState F G → CachedRequestState F G → Prop) (s : WorkerState F G)
    (w : WorkerStep F G) : Prop :=
  ∀ prepared ∈ (s.prepare w).toOption,
    (∀ i < prepared.batch.reqIds.length, prepared.batch.numReqs ≤ i → ∀ r ∈ prepared.requestAt i, movable r) ∧
      ∀ condensed ∈ (prepared.withBatch (·.condense)).toOption, SwapsOk swappable condensed w.swaps

instance SwapsOk.decidable
    [DecidableRel swappable] : ∀ (s : WorkerState F G) (swaps : List (ℕ × ℕ)), Decidable (SwapsOk swappable s swaps)
  | _, [] => inferInstanceAs (Decidable True)
  | s, swap :: rest =>
    have : ∀ s', Decidable (SwapsOk swappable s' rest) := fun s' => SwapsOk.decidable s' rest
    inferInstanceAs (Decidable ((∀ r₁ ∈ s.requestAt swap.1, ∀ r₂ ∈ s.requestAt swap.2, swappable r₁ r₂) ∧
      ∀ s' ∈ (s.swapStates swap).toOption, SwapsOk swappable s' rest))

instance
    [DecidablePred movable]
    [DecidableRel swappable] : Decidable (s.Guarded movable swappable w) :=
  inferInstanceAs (Decidable (∀ prepared ∈ (s.prepare w).toOption, _ ∧ _))

omit [PyFloat F] in
theorem swapsOk_of_forall (hswappable : ∀ r₁ r₂, swappable r₁ r₂) (swaps : List (ℕ × ℕ)) (s : WorkerState F G) :
    SwapsOk swappable s swaps := by
  induction swaps generalizing s with
  | nil => exact trivial
  | cons swap rest ih => exact ⟨fun r₁ _ r₂ _ => hswappable r₁ r₂, fun s' _ => ih s'⟩

theorem guarded_of_forall (hmovable : ∀ r, movable r)
    (hswappable : ∀ r₁ r₂, swappable r₁ r₂) : s.Guarded movable swappable w :=
  fun _ _ => ⟨fun _ _ _ r _ => hmovable r, fun _ _ => swapsOk_of_forall hswappable ..⟩

/-- The state of the worker between steps. -/
structure Settled (laws : RowLaws config F G) (s : WorkerState F G) : Prop where
  kept : s.Kept laws fun _ => True
  dense : s.batch.Dense
  builder : s.batch.builder = {}
  powered : s.Powered
  live : s.Live

theorem Settled.holes (h : s.Settled laws) : s.batch.Holes := by
  refine ⟨fun i => ?_, ?_, ?_⟩
  · rw [h.builder]
    refine ⟨nofun, fun hi => absurd hi.2 (h.dense.filled i (h.dense.length ▸ hi.1))⟩
  · rw [h.builder]
    exact nodup_nil
  · rw [h.builder]
    exact nofun

omit [PyFloat F] in
theorem requestAt_eq_some (hreq : s.batch.reqAt i = some reqId)
    (hr : s.requests reqId = some r) : s.requestAt i = some r := by
  unfold requestAt
  rw [hreq, Option.bind_some, hr]

theorem Kept.swaps {swaps : List (ℕ × ℕ)} (h : s.Kept laws fun _ => True) (hdense : s.batch.Dense) (hlive : s.Live)
    (hok : SwapsOk laws.swappable s swaps) (hstep : swaps.foldlM WorkerState.swapStates s = .ok s') :
    s'.Kept laws (fun _ => True) ∧ s'.batch.Dense ∧ s'.Live := by
  induction swaps generalizing s with
  | nil =>
    cases hstep
    exact ⟨h, hdense, hlive⟩
  | cons swap rest ih =>
    obtain ⟨s₁, hswap, hrest⟩ := foldlM_cons_eq_ok.mp hstep
    obtain ⟨hkept, hdense₁, hlive₁, hindex⟩ := h.swapStates hdense
      (fun _ _ r₁ r₂ hreq₁ hreq₂ hr₁ hr₂ => hok.1 r₁ (requestAt_eq_some hreq₁ hr₁) r₂ (requestAt_eq_some hreq₂ hr₂))
      hswap
    exact ih hkept hdense₁ (fun reqId => by rw [hlive₁, hindex, hlive]) (hok.2 s₁ (by rw [hswap]; rfl)) hrest

theorem Kept.rearrange {prepared condensed : WorkerState F G}
    (h : prepared.Kept laws fun _ => True) (hholes : prepared.batch.Holes) (hlive : prepared.Live)
    (hguarded : s.Guarded laws.movable laws.swappable w) (hprepare : s.prepare w = .ok prepared)
    (hcondense : prepared.withBatch (·.condense) = .ok condensed)
    (hswaps : w.swaps.foldlM WorkerState.swapStates condensed = .ok s') :
    s'.Kept laws (fun _ => True) ∧ s'.batch.Dense ∧ s'.Live := by
  obtain ⟨hmoves, hexchanges⟩ := hguarded prepared (by rw [hprepare]; rfl)
  obtain ⟨hkept, hdense, hlive', hindex⟩ := h.condense hholes (fun i reqId r hle hreq hr => hmoves i
    (lt_of_reqAt (hreq ▸ nofun)) hle r (requestAt_eq_some hreq hr)) hcondense
  exact hkept.swaps hdense (fun reqId => by rw [hlive', hindex, hlive])
    (hexchanges condensed (by rw [hcondense]; rfl)) hswaps

theorem Settled.step (h : s.Settled laws) (hadmissible : s.Admissible w)
    (hguarded : s.Guarded laws.movable laws.swappable w) (hstep : s.step w = .ok s') : s'.Settled laws := by
  obtain ⟨prepared, hprepare, hstep⟩ := bind_eq_ok.mp hstep
  obtain ⟨condensed, hcondense, hstep⟩ := bind_eq_ok.mp hstep
  obtain ⟨swapped, hswaps, hrefresh⟩ := bind_eq_ok.mp hstep
  obtain ⟨hkept, hholes, hlive⟩ := h.kept.prepare h.holes h.live hadmissible hprepare
  obtain ⟨hkept', hdense, hlive'⟩ := hkept.rearrange hholes hlive hguarded hprepare hcondense hswaps
  obtain ⟨⟨rows, metadata, hbatch⟩, hlive'', hkept'', hpowered, -⟩ := hkept'.refreshMetadata hrefresh
  refine ⟨hkept'', ⟨?_, ?_⟩, ?_, hpowered, fun reqId => ?_⟩
  · rw [hbatch]
    exact hdense.length
  · rw [hbatch]
    exact hdense.filled
  · rw [hbatch]
  · rw [hlive'', hlive', hbatch]
    rfl

end WorkerState

end VllmPs.Worker
