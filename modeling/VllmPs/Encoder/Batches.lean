import VllmPs.Encoder.Coverage

/-!
# Batches never miss an encoder output

While a batch is built, requests are tried, given up, preempted or given tokens; between batches they are
freed. What a batch needs is in the worker's cache unless a draft pass reaches an input that the range did
not, or a request is preempted after its inputs were scheduled.
-/

namespace VllmPs

open Lib EncoderCacheManager EncoderPlan List AList

/-- The state of `schedule` as far as encoder inputs are concerned. -/
structure EncoderBatch where
  manager : EncoderCacheManager
  /-- The worker's cache before the batch is executed. -/
  encoderCache : List String := []
  encoderComputeBudget : ℤ := 0
  /-- The scheduled requests with their computed and their scheduled tokens. -/
  scheduled : List (EncoderRequest × ℕ × ℕ) := []
  scheduledEncoderInputs : List (RequestId × List (EncoderFeature × ℕ)) := []
  /-- The hashes that the external cache is asked for. -/
  externalLoads : List String := []
  /-- The request at hand, its computed tokens and its plan. -/
  pending : Option (EncoderRequest × ℕ × EncoderPlan) := none

/-- What happens to encoder inputs in `schedule`, `update_from_output` and `finish_requests`. -/
inductive EncoderOp
  | tryRequest (request : EncoderRequest) (numComputedTokens numNewTokens : ℕ)
  /-- The request is given tokens, at most those that the plan leaves. -/
  | commit (numNewTokens : ℕ)
  /-- The request is not given tokens. -/
  | giveUp
  | preempt (request : EncoderRequest)
  | free (request : EncoderRequest)
  | freeInputs (request : EncoderRequest) (numComputedTokens : ℕ)
  /-- The batch is handed to the worker. -/
  | finish (maxNumEncoderInputTokens : ℤ)

namespace EncoderBatch

variable (s : EncoderBatch)

/-- The requests that are given tokens. -/
def scheduledIds : List RequestId := s.scheduled.map fun entry => entry.1.requestId

/-- The hashes that the worker computes. -/
def computedHashes : List String :=
  s.scheduledEncoderInputs.flatMap fun entry => entry.2.map fun input => input.1.identifier

def workerCache : List String :=
  s.encoderCache.filter (· ∉ s.manager.freed) ++ s.computedHashes ++ s.externalLoads

/-- Allocate inputs for a request. -/
def allocateAll (m : EncoderCacheManager) (requestId : RequestId) (inputs : List (EncoderFeature × ℕ)) :
    Except PyError EncoderCacheManager :=
  inputs.foldlM (fun m input => m.allocate requestId input.1 input.2) m

/-- `_free_encoder_inputs`: free the inputs whose embeddings are processed. -/
def freeInputs (m : EncoderCacheManager) (request : EncoderRequest) (numComputedTokens : ℕ) :
    Except PyError EncoderCacheManager :=
  (m.getCachedInputIds request.requestId).foldlM (fun m inputId =>
    match request.mmFeatures[inputId]? with
    | none => .error .indexError
    | some f =>
      if f.offset + f.length ≤ numComputedTokens then m.freeEncoderInput request inputId else .ok m) m

def step (config : EncoderConfig) (s : EncoderBatch) : EncoderOp → Except PyError EncoderBatch
  | .tryRequest request numComputedTokens numNewTokens => do
    let plan ← tryScheduleEncoderInputs config s.manager request numComputedTokens numNewTokens
      s.encoderComputeBudget
    return { s with manager := plan.manager, pending := some (request, numComputedTokens, plan) }
  | .commit numNewTokens =>
    match s.pending with
    | none => .error .runtimeError
    | some (request, numComputedTokens, plan) =>
      if plan.numNewTokens < numNewTokens then .error .runtimeError
      else do
        let m ← allocateAll s.manager request.requestId plan.encoderInputsToSchedule
        let m ← allocateAll m request.requestId plan.externalLoadEncoderInput
        return { s with
          manager := m
          scheduled := s.scheduled ++ [(request, numComputedTokens, numNewTokens)]
          scheduledEncoderInputs :=
            if plan.encoderInputsToSchedule.isEmpty then s.scheduledEncoderInputs
            else s.scheduledEncoderInputs ++ [(request.requestId, plan.encoderInputsToSchedule)]
          encoderComputeBudget :=
            if plan.encoderInputsToSchedule.isEmpty then s.encoderComputeBudget
            else plan.encoderComputeBudget
          externalLoads :=
            s.externalLoads ++ plan.externalLoadEncoderInput.map fun input => input.1.identifier
          pending := none }
  | .giveUp => .ok { s with pending := none }
  | .preempt request => do
    let m ← s.manager.free request
    let restored := s.scheduledEncoderInputs.filter (·.1 = request.requestId)
    return { s with
      manager := m
      scheduled := s.scheduled.filter (·.1.requestId ≠ request.requestId)
      scheduledEncoderInputs := s.scheduledEncoderInputs.filter (·.1 ≠ request.requestId)
      encoderComputeBudget := s.encoderComputeBudget +
        (restored.flatMap fun entry => entry.2.map fun input => (input.1.getNumEmbeds : ℤ)).sum
      pending := s.pending.filter (·.1.requestId ≠ request.requestId) }
  | .free request => do
    let m ← s.manager.free request
    return { s with manager := m }
  | .freeInputs request numComputedTokens => do
    let m ← EncoderBatch.freeInputs s.manager request numComputedTokens
    return { s with manager := m }
  | .finish maxNumEncoderInputTokens => .ok
      { manager := { s.manager with freed := [] }
        encoderCache := s.workerCache
        encoderComputeBudget := maxNumEncoderInputTokens }

/-- An empty cache and no batch. -/
structure Initial (s : EncoderBatch) : Prop where
  cached : s.manager.cached = ∅
  freeable : s.manager.freeable = []
  scheduled : s.scheduled = []
  pending : s.pending = none

def Admissible (config : EncoderConfig) (s : EncoderBatch) : EncoderOp → Prop
  | .tryRequest request numComputedTokens numNewTokens =>
    Disjoined request.mmFeatures ∧ s.pending.isNone ∧ request.requestId ∉ s.scheduledIds ∧
      NoLateStart config s.manager request numComputedTokens numNewTokens
  | .preempt request => ∀ entry ∈ s.scheduledEncoderInputs, entry.1 ≠ request.requestId
  | .free request | .freeInputs request _ => s.pending.isNone ∧ request.requestId ∉ s.scheduledIds
  | _ => True

instance (config : EncoderConfig) (s : EncoderBatch) (op : EncoderOp) : Decidable (Admissible config s op) :=
  match op with
  | .tryRequest .. => inferInstanceAs (Decidable (_ ∧ _))
  | .preempt _ => inferInstanceAs (Decidable (∀ _ ∈ _, _))
  | .free _ | .freeInputs _ _ => inferInstanceAs (Decidable (_ ∧ _))
  | .commit _ | .giveUp | .finish _ => inferInstanceAs (Decidable True)

end EncoderBatch

/-! ## Freeing and allocating -/

namespace EncoderCacheManager

variable {m m' : EncoderCacheManager} {request : EncoderRequest}

theorem setFreeable_of_not_mem {freeable : List (String × ℕ)} {mmHash : String} (size : ℕ)
    (h : ∀ entry ∈ freeable, entry.1 ≠ mmHash) :
    setFreeable freeable mmHash size = freeable ++ [(mmHash, size)] := by
  refine if_neg fun hany => ?_
  obtain ⟨entry, hentry, heq⟩ := any_eq_true.mp hany
  exact h entry hentry (of_decide_eq_true heq)

theorem freeEncoderInput_spec {inputId : ℕ} (hm : m.Managed) :
    Ensures (fun m' => m'.Managed ∧ Shrinks [request.requestId] m m') (m.freeEncoderInput request inputId) := by
  unfold freeEncoderInput
  cases request.mmFeatures[inputId]? with
  | none => exact .error
  | some f =>
    obtain ⟨ids, hdrop⟩ : ∃ ids, m.dropCachedId request.requestId inputId = { m with requestCachedIds := ids } := by
      unfold dropCachedId
      cases m.requestCachedIds.lookup request.requestId with
      | none => exact ⟨m.requestCachedIds, rfl⟩
      | some ids => exact ⟨_, rfl⟩
    have hkept : Managed { m with requestCachedIds := ids } ∧
        Shrinks [request.requestId] m { m with requestCachedIds := ids } :=
      ⟨{ hm with }, fun _ _ _ h => h, fun _ h => h, fun _ _ h => h⟩
    dsimp only
    rw [hdrop]
    cases hlookup : m.cached.lookup f.identifier with
    | none => exact .ok hkept
    | some refs =>
      refine .ite (fun _ => .ok hkept) fun hempty => .ok ?_
      have hnot := hm.ne_of_references (fun hnil => hempty (by rw [hnil]; rfl)) hlookup
      have herase (r : RequestId) (hr : r ∉ [request.requestId]) (hmem : r ∈ refs) : r ∈ refs.erase request.requestId :=
        (mem_erase_of_ne fun heq => hr (mem_singleton.mpr heq)).mpr hmem
      split_ifs with hlast
      · rw [setFreeable_of_not_mem f.getNumEmbeds hnot]
        refine ⟨⟨?_, fun entry hentry => ?_⟩, .insert hlookup rfl rfl herase⟩
        · rw [map_append, nodup_append_comm]
          refine nodup_cons.mpr ⟨fun hmem => ?_, hm.nodup⟩
          obtain ⟨entry, hentry, heq⟩ := mem_map.mp hmem
          exact hnot entry hentry heq
        · rcases mem_append.mp hentry with hentry | hentry
          · exact (lookup_insert_ne (hnot entry hentry)).trans (hm.unreferenced entry hentry)
          · rw [mem_singleton.mp hentry]
            exact (lookup_insert _).trans (congrArg some (isEmpty_iff.mp hlast))
      · exact ⟨Managed.insert hm (List.Sublist.refl _) hnot rfl rfl, .insert hlookup rfl rfl herase⟩

theorem freeAll_spec {inputIds : List ℕ} {free : EncoderCacheManager → ℕ → Except PyError EncoderCacheManager}
    (hm : m.Managed) (hfree : ∀ m inputId, m.Managed →
      Ensures (fun m' => m'.Managed ∧ Shrinks [request.requestId] m m') (free m inputId)) :
    Ensures (fun m' => m'.Managed ∧ Shrinks [request.requestId] m m') (inputIds.foldlM free m) := by
  refine .foldlM (fun m₁ inputId _ hm₁ m₂ hstep => ?_) ⟨hm, Shrinks.refl _ _⟩
  obtain ⟨hm₂, hshrinks⟩ := hfree m₁ inputId hm₁.1 hstep
  exact ⟨hm₂, hm₁.2.trans hshrinks⟩

theorem free_spec (hm : m.Managed) :
    Ensures (fun m' => m'.Managed ∧ Shrinks [request.requestId] m m') (m.free request) :=
  freeAll_spec hm fun _ _ => freeEncoderInput_spec

theorem freeInputs_spec {numComputedTokens : ℕ} (hm : m.Managed) :
    Ensures (fun m' => m'.Managed ∧ Shrinks [request.requestId] m m')
      (EncoderBatch.freeInputs m request numComputedTokens) := by
  refine freeAll_spec hm fun m₁ inputId hm₁ => ?_
  cases request.mmFeatures[inputId]? with
  | none => exact .error
  | some f => exact .ite (fun _ => freeEncoderInput_spec hm₁) fun _ => .ok ⟨hm₁, Shrinks.refl _ _⟩

theorem allocateAll_spec {requestId : RequestId} {inputs : List (EncoderFeature × ℕ)}
    (h : EncoderBatch.allocateAll m requestId inputs = .ok m') (hm : m.Managed)
    (hnodup : (inputs.map fun input => input.1.identifier).Nodup)
    (huncached : ∀ input ∈ inputs, m.cached.lookup input.1.identifier = none) :
    m'.Managed ∧ m'.freed = m.freed ∧ (∀ r h, m.References r h → m'.References r h) ∧
      (∀ input ∈ inputs, m'.References requestId input.1.identifier) ∧
      ∀ h, (m'.cached.lookup h).isSome → (m.cached.lookup h).isSome ∨
        h ∈ inputs.map fun input => input.1.identifier := by
  induction inputs generalizing m with
  | nil =>
    cases h
    exact ⟨hm, rfl, fun _ _ h => h, nofun, fun _ h => Or.inl h⟩
  | cons input rest ih =>
    obtain ⟨m₁, hfirst, hrest⟩ := foldlM_cons_eq_ok.mp h
    obtain ⟨hnot, hnodup'⟩ := nodup_cons.mp hnodup
    have hnone := huncached input mem_cons_self
    unfold allocate at hfirst
    split_ifs at hfirst
    have hcached : m₁.cached = m.cached.insert input.1.identifier [requestId] := by
      rw [← Except.ok.inj hfirst, hnone]
      rfl
    have hfreeable : m₁.freeable = m.freeable := by rw [← Except.ok.inj hfirst]; rfl
    have hfreed : m₁.freed = m.freed := by rw [← Except.ok.inj hfirst]; rfl
    have hm₁ : m₁.Managed := by
      refine hm.insert (List.Sublist.refl _) (fun entry hentry heq => ?_) hcached hfreeable
      have hsome := hm.unreferenced entry hentry
      rw [heq, hnone] at hsome
      cases hsome
    obtain ⟨hm', hfreed', hkeeps, hallocated, hkeys⟩ := ih hrest hm₁ hnodup' fun other hother => by
      have hne : other.1.identifier ≠ input.1.identifier := fun heq =>
        hnot (mem_map.mpr ⟨other, hother, heq⟩)
      rw [hcached, lookup_insert_ne hne]
      exact huncached other (mem_cons_of_mem _ hother)
    refine ⟨hm', hfreed'.trans hfreed, fun r h hrefs => hkeeps r h ?_, fun other hother => ?_, fun h hsome => ?_⟩
    · obtain ⟨refs, hrefs, hr⟩ := hrefs
      have hne : h ≠ input.1.identifier := by
        rintro rfl
        exact nomatch hnone.symm.trans hrefs
      exact ⟨refs, hcached ▸ (lookup_insert_ne hne).trans hrefs, hr⟩
    · rcases mem_cons.mp hother with rfl | hother
      · refine hkeeps requestId _ ⟨[requestId], ?_, mem_singleton_self _⟩
        rw [hcached, lookup_insert]
      · exact hallocated other hother
    rw [map_cons, mem_cons]
    rcases hkeys h hsome with hsome | hmem
    · rcases eq_or_ne h input.1.identifier with rfl | hne
      · exact Or.inr (Or.inl rfl)
      · rw [hcached, lookup_insert_ne hne] at hsome
        exact Or.inl hsome
    · exact Or.inr (Or.inr hmem)

end EncoderCacheManager

/-! ## Runs -/

namespace EncoderBatch

variable {config : EncoderConfig} {s s' : EncoderBatch}
variable {request : EncoderRequest} {c n : ℕ}

/-- A property of the inputs with an embedding in a range, also shifted by the draft. -/
def Needs (config : EncoderConfig) (request : EncoderRequest) (c n : ℕ) (P : EncoderFeature → Prop) : Prop :=
  ∀ f ∈ request.mmFeatures, ∀ shift ≤ config.shift, ∀ position,
    c + shift ≤ position → position < c + shift + n → f.EmbedsAt position → P f

theorem Needs.imp {P Q : EncoderFeature → Prop}
    (h : Needs config request c n P) (himp : ∀ f ∈ request.mmFeatures, P f → Q f) :
    Needs config request c n Q :=
  fun f hf shift hshift position hlow hhigh hembeds =>
    himp f hf (h f hf shift hshift position hlow hhigh hembeds)

structure Supplied (config : EncoderConfig) (s : EncoderBatch) : Prop where
  managed : s.manager.Managed
  cached : ∀ h, (s.manager.cached.lookup h).isSome → h ∈ s.workerCache
  scheduled : ∀ entry ∈ s.scheduled, Needs config entry.1 entry.2.1 entry.2.2 fun f =>
    s.manager.References entry.1.requestId f.identifier
  pending : ∀ request c plan, s.pending = some (request, c, plan) →
    request.requestId ∉ s.scheduledIds ∧ plan.mmHashesToSchedule.Nodup ∧
    (∀ h ∈ plan.mmHashesToSchedule, s.manager.cached.lookup h = none) ∧
    Needs config request c plan.numNewTokens fun f =>
      f.identifier ∈ plan.mmHashesToSchedule ∨ s.manager.References request.requestId f.identifier

section

variable (h : s.Supplied config)
include h

theorem Supplied.shrink {lost : List RequestId} {m : EncoderCacheManager}
    (hm : m.Managed) (hshrinks : Shrinks lost s.manager m) (hlost : ∀ id ∈ lost, id ∉ s.scheduledIds) :
    m.Managed ∧ (∀ h, (m.cached.lookup h).isSome → h ∈ { s with manager := m }.workerCache) ∧
      ∀ entry ∈ s.scheduled, Needs config entry.1 entry.2.1 entry.2.2 fun f =>
        m.References entry.1.requestId f.identifier := by
  refine ⟨hm, fun mmHash hsome => ?_, fun entry hentry => (h.scheduled entry hentry).imp fun f _ hrefs => ?_⟩
  · have hold := h.cached mmHash (hshrinks.keys mmHash hsome)
    unfold workerCache at hold ⊢
    rw [append_assoc, mem_append, mem_filter] at hold ⊢
    refine hold.imp_left fun hmem => ⟨hmem.1, ?_⟩
    have hnot : mmHash ∉ s.manager.freed := of_decide_eq_true hmem.2
    exact decide_eq_true fun hfreed => hnot (hshrinks.freed mmHash hsome hfreed)
  · exact hshrinks.references _ (fun hmem => hlost _ hmem (mem_map_of_mem hentry)) _ hrefs

theorem Supplied.tryRequest {p : EncoderPlan} (hok : Admissible config s (.tryRequest request c n))
    (hplan : tryScheduleEncoderInputs config s.manager request c n s.encoderComputeBudget = .ok p) :
    Supplied config { s with manager := p.manager, pending := some (request, c, p) } := by
  obtain ⟨hsorted, -, hnew, hlate⟩ := hok
  obtain ⟨hfresh, hshrinks, hcovers⟩ := tryScheduleEncoderInputs_spec h.managed hsorted hlate hplan
  obtain ⟨hm, hcached, hscheduled⟩ := h.shrink hfresh.managed hshrinks nofun
  refine ⟨hm, hcached, hscheduled, fun request' c' p' heq => ?_⟩
  obtain ⟨rfl, hrest⟩ := Prod.mk.inj (Option.some.inj heq)
  cases hrest
  exact ⟨hnew, hfresh.nodup, hfresh.uncached, hcovers⟩

theorem Supplied.commit : Ensures (Supplied config) (s.step config (.commit n)) := by
  unfold step
  cases hpending : s.pending with
  | none => exact .error
  | some entry =>
    obtain ⟨request, c, plan⟩ := entry
    refine .ite (fun _ => .error) fun htokens => .bind fun m₁ hinputs => .bind fun m hexternal => .ok ?_
    obtain ⟨hnew, hnodup, huncached, hcovers⟩ := h.pending request c plan hpending
    have hallocate : allocateAll s.manager request.requestId
        (plan.encoderInputsToSchedule ++ plan.externalLoadEncoderInput) = .ok m := by
      rw [allocateAll, foldlM_append]
      exact bind_eq_ok.mpr ⟨m₁, hinputs, hexternal⟩
    obtain ⟨hm, hfreed, hkeeps, hallocated, hkeys⟩ := allocateAll_spec hallocate h.managed hnodup
      fun input hinput => huncached _ (mem_map_of_mem hinput)
    refine ⟨hm, fun mmHash hsome => ?_, fun entry hentry => ?_, nofun⟩
    · -- new keys are computed or loaded by the batch
      have hcomputed : ∀ mmHash ∈ s.computedHashes ++ plan.encoderInputsToSchedule.map (·.1.identifier),
          mmHash ∈ (if plan.encoderInputsToSchedule.isEmpty = true then s.scheduledEncoderInputs
            else s.scheduledEncoderInputs ++ [(request.requestId, plan.encoderInputsToSchedule)]).flatMap
              fun entry => entry.2.map fun input => input.1.identifier := by
        intro mmHash hmem
        split_ifs with hempty
        · rw [isEmpty_iff.mp hempty, map_nil, append_nil] at hmem
          exact hmem
        · simpa [computedHashes] using hmem
      unfold workerCache
      rw [hfreed, append_assoc, mem_append, mem_append]
      rcases hkeys mmHash hsome with hsome | hmem
      · have hold := h.cached mmHash hsome
        unfold workerCache at hold
        rw [append_assoc, mem_append, mem_append] at hold
        rcases hold with hold | hold | hold
        · exact Or.inl hold
        · exact Or.inr (Or.inl (hcomputed mmHash (mem_append_left _ hold)))
        · exact Or.inr (Or.inr (mem_append_left _ hold))
      · rw [map_append, mem_append] at hmem
        exact Or.inr (hmem.imp (fun hmem => hcomputed mmHash (mem_append_right _ hmem))
          fun hmem => mem_append_right _ hmem)
    rcases mem_append.mp hentry with hold | hlast
    · exact (h.scheduled entry hold).imp fun f _ hrefs => hkeeps _ _ hrefs
    obtain rfl := mem_singleton.mp hlast
    intro f hf shift hshift position hlow hhigh hembeds
    have hhigh' : position < c + shift + plan.numNewTokens := by
      dsimp only at hhigh
      omega
    rcases hcovers f hf shift hshift position hlow hhigh' hembeds with hmem | hrefs
    · obtain ⟨input, hinput, heq⟩ := mem_map.mp hmem
      exact heq ▸ hallocated input hinput
    · exact hkeeps _ _ hrefs

theorem Supplied.freed (hok : s.pending.isNone ∧ request.requestId ∉ s.scheduledIds)
    {m : EncoderCacheManager} (hfreed : m.Managed ∧ Shrinks [request.requestId] s.manager m) :
    Supplied config { s with manager := m } := by
  obtain ⟨hm, hcached, hscheduled⟩ := h.shrink hfreed.1 hfreed.2 fun id hid => by
    rw [mem_singleton.mp hid]
    exact hok.2
  refine ⟨hm, hcached, hscheduled, fun request' c plan hpending => ?_⟩
  have hnone := hok.1
  rw [hpending] at hnone
  cases hnone

theorem Supplied.step {op : EncoderOp} (hok : Admissible config s op)
    (hstep : s.step config op = .ok s') : s'.Supplied config := by
  cases op with
  | tryRequest request c n =>
    obtain ⟨p, hplan, rfl⟩ := bind_pure_eq_ok.mp hstep
    exact h.tryRequest hok hplan
  | commit n => exact h.commit hstep
  | giveUp =>
    cases hstep
    exact { h with pending := nofun }
  | preempt request =>
    obtain ⟨m, hfree, rfl⟩ := bind_pure_eq_ok.mp hstep
    obtain ⟨hm, hshrinks⟩ := free_spec h.managed hfree
    have hinputs : s.scheduledEncoderInputs.filter (·.1 ≠ request.requestId) = s.scheduledEncoderInputs :=
      filter_eq_self.mpr fun entry hentry => decide_eq_true (hok entry hentry)
    -- the state without the request is supplied
    have hothers : Supplied config { s with
        scheduled := s.scheduled.filter (·.1.requestId ≠ request.requestId)
        pending := none } :=
      ⟨h.managed, h.cached, fun entry hentry => h.scheduled entry (mem_filter.mp hentry).1, nofun⟩
    have hlost : ∀ id ∈ [request.requestId], id ∉ scheduledIds { s with
        scheduled := s.scheduled.filter (·.1.requestId ≠ request.requestId)
        pending := none } := by
      intro id hid hmem
      obtain rfl := mem_singleton.mp hid
      obtain ⟨entry, hentry, heq⟩ := mem_map.mp hmem
      exact of_decide_eq_true (mem_filter.mp hentry).2 heq
    obtain ⟨-, hcached, hscheduled⟩ := hothers.shrink hm hshrinks hlost
    refine ⟨hm, fun mmHash hsome => ?_, hscheduled, fun request' c plan hpending => ?_⟩
    · have hmem := hcached mmHash hsome
      rwa [hinputs]
    obtain ⟨hpending, hne⟩ := Option.filter_eq_some_iff.mp hpending
    obtain ⟨hnew, hnodup, huncached, hcovers⟩ := h.pending request' c plan hpending
    have hne : request'.requestId ≠ request.requestId := of_decide_eq_true hne
    refine ⟨fun hmem => hnew ?_, hnodup, fun mmHash hmem => hshrinks.uncached (huncached mmHash hmem),
      hcovers.imp fun f _ hcovered => hcovered.imp_right fun hrefs => ?_⟩
    · obtain ⟨entry, hentry, heq⟩ := mem_map.mp hmem
      exact mem_map.mpr ⟨entry, (mem_filter.mp hentry).1, heq⟩
    · exact hshrinks.references _ (fun hmem => hne (mem_singleton.mp hmem)) _ hrefs
  | free request =>
    obtain ⟨m, hfree, rfl⟩ := bind_pure_eq_ok.mp hstep
    exact h.freed hok (free_spec h.managed hfree)
  | freeInputs request c =>
    obtain ⟨m, hfree, rfl⟩ := bind_pure_eq_ok.mp hstep
    exact h.freed hok (freeInputs_spec h.managed hfree)
  | finish budget =>
    cases hstep
    refine ⟨{ h.managed with }, fun mmHash hsome => ?_, nofun, nofun⟩
    have hmem := h.cached mmHash hsome
    refine mem_append_left _ (mem_append_left _ (mem_filter.mpr ⟨hmem, ?_⟩))
    exact decide_eq_true not_mem_nil

end

theorem gatherMmEmbeddings_raises {cache : List String} {shift : ℕ}
    (hneeds : ∀ f ∈ request.mmFeatures, ∀ position, c + shift ≤ position → position < c + shift + n →
      f.EmbedsAt position → f.identifier ∈ cache) :
    NeverRaises .encoderCacheMiss (gatherMmEmbeddings cache request c n shift) := by
  refine .forM fun input hinput => ?_
  have hmem : input.1 ∈ request.mmFeatures := by
    have hzip : input ∈ request.mmFeatures.zipIdx :=
      (take_sublist _ _).subset ((drop_sublist _ _).subset hinput)
    rw [← List.zipIdx_map_fst 0 request.mmFeatures]
    exact mem_map_of_mem hzip
  refine .ite (fun _ => .error nofun) fun hrange => .ite (fun _ => .ok _) fun hembeds =>
    .ite (fun _ => .ok _) fun hmiss => ?_
  -- some position of the range takes an embedding
  exfalso
  rw [EncoderFeature.getEmbedsIndicesInRange_eq_iff (by omega) (Nat.min_le_right _ _)] at hembeds
  push Not at hembeds
  obtain ⟨position, hlow, hhigh, hat⟩ := hembeds
  have hoffset := hat.1
  exact hmiss (hneeds input.1 hmem position (by omega) (by omega) hat)

/-- In every state of a run whose steps are admissible, what a batch needs, also shifted by the
draft, is in the worker's cache when the batch is executed, and the worker misses no encoder
output. -/
theorem no_encoder_cache_miss (config : EncoderConfig) {s : EncoderBatch}
    (hs : Reachable Initial (Admissible config) (step config) s) :
    ∀ entry ∈ s.scheduled, ∀ shift ≤ config.shift,
      (∀ f ∈ entry.1.mmFeatures, ∀ position, entry.2.1 + shift ≤ position →
        position < entry.2.1 + shift + entry.2.2 → f.EmbedsAt position → f.identifier ∈ s.workerCache) ∧
      gatherMmEmbeddings s.workerCache entry.1 entry.2.1 entry.2.2 shift ≠ .error .encoderCacheMiss := by
  have hsupplied : s.Supplied config := by
    refine hs.invariant (fun s hinit => ?_) fun s op s' h hok hstep => h.step hok hstep
    refine ⟨⟨?_, ?_⟩, ?_, ?_, ?_⟩
    · rw [hinit.freeable]
      exact nodup_nil
    · rw [hinit.freeable]
      exact nofun
    · rw [hinit.cached]
      exact nofun
    · rw [hinit.scheduled]
      exact nofun
    · rw [hinit.pending]
      exact nofun
  intro entry hentry shift hshift
  have hneeds : ∀ f ∈ entry.1.mmFeatures, ∀ position, entry.2.1 + shift ≤ position →
      position < entry.2.1 + shift + entry.2.2 → f.EmbedsAt position → f.identifier ∈ s.workerCache := by
    intro f hf position hlow hhigh hembeds
    obtain ⟨refs, hrefs, -⟩ := hsupplied.scheduled entry hentry f hf shift hshift position hlow hhigh hembeds
    exact hsupplied.cached f.identifier (by rw [hrefs]; rfl)
  exact ⟨hneeds, fun hmiss => gatherMmEmbeddings_raises hneeds _ hmiss rfl⟩

/-- A cache of eight embeddings with nothing in it. -/
def emptyBatch : EncoderBatch where
  manager := { numFreeSlots := 8, numFreeableSlots := 8 }
  encoderComputeBudget := 8

/-- A request with an image of two tokens after three tokens of text. -/
def imageRequest : EncoderRequest where
  requestId := "a"
  mmFeatures := [{ identifier := "image", offset := 3, length := 2 }]

/-- With EAGLE the first three tokens are scheduled without the image, whose first position the
draft pass needs. -/
theorem draft_misses_image :
    (run (step { useEagle := true }) emptyBatch [.tryRequest imageRequest 0 3, .commit 3]).toOption.map
        (fun s => s.scheduled.map fun entry =>
          (entry.2, decide (gatherMmEmbeddings s.workerCache entry.1 entry.2.1 entry.2.2 1 =
            .error .encoderCacheMiss))) =
      some [((0, 3), true)] := by
  decide +kernel

theorem no_encoder_cache_miss_second_chunk :
    ∃ s, Reachable Initial (Admissible { useEagle := true }) (step { useEagle := true }) s ∧
      s.scheduled.map (·.2) = [(2, 3)] ∧
      ∀ entry ∈ s.scheduled, ∀ shift ≤ 1,
        gatherMmEmbeddings s.workerCache entry.1 entry.2.1 entry.2.2 shift ≠ .error .encoderCacheMiss := by
  have hstart : Reachable Initial (Admissible { useEagle := true }) (step { useEagle := true }) emptyBatch :=
    .start ⟨rfl, rfl, rfl, rfl⟩
  obtain ⟨s, hreached, hscheduled⟩ := hstart.exists_checkedRun
    [.tryRequest imageRequest 0 2, .commit 2, .finish 8, .tryRequest imageRequest 2 3, .commit 3]
    (P := fun s => s.scheduled.map (·.2) = [(2, 3)]) (by decide +kernel)
  refine ⟨s, hreached, hscheduled, fun entry hentry shift hshift => ?_⟩
  exact (no_encoder_cache_miss { useEagle := true } hreached entry hentry shift hshift).2

end EncoderBatch

end VllmPs
