import VllmPs.FrontEnd.Processor
import VllmPs.PowerSMC.Operations

/-!
# What the front end keeps

Processing an output changes a request state only in what it has received, and a parent only
in its manager, its aggregated completions and the child that finishes. From this follows that
every live child is known to its parent under its own index.
-/

namespace VllmPs

open Lib List Option AList RequestState Table

variable {D F : Type} [PyFloat F]

/-! ## Request states -/

theorem LogprobsProcessor.updateFromOutput_meets {tokenizer : TokenizerLike D} {processor : LogprobsProcessor F}
    {rows promptRows : Option (List (LogprobRow F))} :
    Meets (· ≠ .attributeError) (fun _ => True) (processor.updateFromOutput tokenizer rows promptRows) := by
  refine .bind (Q := fun _ => True) ?_ fun updated _ => ?_
  · cases rows with
    | none => exact .ok trivial
    | some rows =>
      refine .ite (fun _ => .error nofun) fun _ => .foldlM (fun processor row _ _ => ?_) trivial
      unfold updateSampleLogprob
      split
      · split
        · exact .error nofun
        · exact .ok trivial
      · exact .error nofun
  · cases promptRows with
    | none => exact .ok trivial
    | some rows =>
      refine .ite (fun _ => .error nofun) fun _ => .foldlM (fun processor row _ _ => ?_) trivial
      unfold updatePromptLogprob
      split
      · exact .ok trivial
      · exact .error nofun

namespace RequestState

variable {state state' : RequestState D F}
variable {tokenIds newTokenIds : List Token} {finishReason : Option FinishReason}

/-- What no output changes in a request state. -/
structure Keeps (state state' : RequestState D F) : Prop where
  requestId : state'.requestId = state.requestId
  externalReqId : state'.externalReqId = state.externalReqId
  parentReq : state'.parentReq = state.parentReq
  requestIndex : state'.requestIndex = state.requestIndex
  outputKind : state'.outputKind = state.outputKind
  queue : state'.queue = state.queue
  streamingInput : state'.streamingInput = state.streamingInput
  detokenizer : state'.detokenizer.isSome = state.detokenizer.isSome

omit [PyFloat F] in
theorem Keeps.refl (state : RequestState D F) : state.Keeps state :=
  ⟨rfl, rfl, rfl, rfl, rfl, rfl, rfl, rfl⟩

omit [PyFloat F] in
theorem Keeps.trans {s₁ s₂ s₃ : RequestState D F} (h : s₁.Keeps s₂) (h' : s₂.Keeps s₃) : s₁.Keeps s₃ :=
  ⟨h'.requestId.trans h.requestId, h'.externalReqId.trans h.externalReqId,
    h'.parentReq.trans h.parentReq, h'.requestIndex.trans h.requestIndex,
    h'.outputKind.trans h.outputKind, h'.queue.trans h.queue, h'.streamingInput.trans h.streamingInput,
    h'.detokenizer.trans h.detokenizer⟩

theorem receive_meets {tokenizer : TokenizerLike D} {out : DeliveredOutput F} :
    Meets (· ≠ .attributeError) (state.Keeps ·.state) (state.receive tokenizer out) := by
  unfold receive
  set started : RequestState D F := if state.isPrefilling then _ else state with hstarted
  have hkeeps : state.Keeps started := by
    rw [hstarted]
    split_ifs
    · exact ⟨rfl, rfl, rfl, rfl, rfl, rfl, rfl, rfl⟩
    · exact .refl state
  refine .ite (fun _ => .ok hkeeps) fun _ => ?_
  split
  case h_1 hdetokenizer _ =>
    refine .bind LogprobsProcessor.updateFromOutput_meets fun processor _ => ?_
    have hreceived (text : IncrementalDetokenizer D) : state.Keeps
        { started with detokenizer := some text, logprobsProcessor := some processor } :=
      { hkeeps with detokenizer := by rw [← hkeeps.detokenizer, hdetokenizer]; rfl }
    generalize Option.filter _ _ = found
    cases found with
    | none => exact .ok (hreceived _)
    | some text => exact .ok (hreceived _)
  case h_2 => exact .error nofun

omit [PyFloat F] in
theorem newCompletionOutput_meets {stopReason : Option StopValue} :
    Meets (· ≠ .attributeError) (fun (state', output) => state.Keeps state' ∧ output.index = state.requestIndex ∧
        (output.finishReason = finishReason.map (·.toStr) ∧
          output.stopReason = if finishReason.isSome then stopReason else none) ∧
        ∃ detokenizer processor, state.detokenizer = some detokenizer ∧ state.logprobsProcessor = some processor ∧
          (state.outputKind ≠ .delta → output.tokenIds = detokenizer.tokenIds ∧
            output.logprobs = processor.logprobs ∧
            output.cumulativeLogprob = processor.cumulativeLogprob))
      (state.newCompletionOutput tokenIds finishReason stopReason) := by
  unfold newCompletionOutput
  cases hdetokenizer : state.detokenizer with
  | none => exact .error nofun
  | some detokenizer =>
    cases state.logprobsProcessor with
    | none => exact .error nofun
    | some processor =>
      refine .ok ⟨⟨rfl, rfl, rfl, rfl, rfl, rfl, rfl, by rw [hdetokenizer]; rfl⟩, rfl, ⟨rfl, rfl⟩, detokenizer,
        processor,
        rfl, rfl, fun hdelta => ?_⟩
      simp only [hdelta, decide_false, Bool.false_eq_true, if_false, false_and, and_true]
      exact ⟨detokenizer.getNextOutputText_tokenIds _ _, by cases processor.logprobs <;> rfl⟩

variable {finished : Bool}

omit [PyFloat F] in
theorem promptIds_meets : Meets (· ≠ .attributeError) (fun _ => True) state.promptIds := by
  unfold promptIds
  split
  · exact .ok trivial
  · exact .ok trivial
  · exact .error nofun

omit [PyFloat F] in
theorem newRequestOutput_meets {externalReqId : String} {outputs : List (Option (CompletionOutput F))}
    {powerSmc : Option (PowerSMCGroupManager.Diagnostics F)} :
    Meets (· ≠ .attributeError) (fun r => state.Keeps r.1 ∧ r.2.finished = finished ∧
        ∃ promptLogprobs, r.2.body = .completions outputs promptLogprobs powerSmc)
      (state.newRequestOutput externalReqId outputs finished powerSmc) := by
  refine .bind promptIds_meets fun ids _ => ?_
  split
  · exact .error nofun
  · exact .ok ⟨⟨rfl, rfl, rfl, rfl, rfl, rfl, rfl, rfl⟩, rfl, _, rfl⟩

omit [PyFloat F] in
theorem takeInterval_meets : Meets (· ≠ .attributeError) (fun taken => (taken = none → finished = false) ∧
      ∀ r, taken = some r → ∃ offset, r.1 = { state with sentTokensOffset := offset })
    (state.takeInterval newTokenIds finished) := by
  refine .ite (fun _ => .ok ⟨nofun, fun r hr => ?_⟩) fun _ => ?_
  · cases hr
    exact ⟨_, rfl⟩
  split
  · exact .error nofun
  refine .ok ⟨fun hnone => ?_, fun r hr => ?_⟩
  · split_ifs at hnone with hwaits
    rw [Bool.and_eq_true, Bool.and_eq_true, Bool.not_eq_true'] at hwaits
    exact hwaits.1.1
  · split_ifs at hr <;> obtain rfl := some.inj hr <;> exact ⟨_, rfl⟩

end RequestState

/-! ## Parents -/

namespace ParentRequest

variable {parent parent' : ParentRequest F} {outputs : List (Option (CompletionOutput F))}
  {finished : Bool} {id : RequestId} {o : CompletionOutput F}
variable {tokenIds : List Token} {logprobs : Option (F × F)} {finish : Option String}

/-- What no output changes in a parent. -/
structure Keeps (parent parent' : ParentRequest F) : Prop where
  requestId : parent'.requestId = parent.requestId
  externalReqId : parent'.externalReqId = parent.externalReqId
  samplingParams : parent'.samplingParams = parent.samplingParams
  aggregated : parent'.outputAggregator.length = parent.outputAggregator.length
  indices : parent'.powerSmc.map (·.childRequestToIndex) = parent.powerSmc.map (·.childRequestToIndex)
  diagnostics : parent'.powerSmc.map (·.returnDiagnostics) = parent.powerSmc.map (·.returnDiagnostics)
  config : parent'.powerSmc.map (·.manager.config) = parent.powerSmc.map (·.manager.config)

theorem Keeps.refl (parent : ParentRequest F) : parent.Keeps parent := ⟨rfl, rfl, rfl, rfl, rfl, rfl, rfl⟩

theorem Keeps.trans {p₁ p₂ p₃ : ParentRequest F} (h : p₁.Keeps p₂) (h' : p₂.Keeps p₃) : p₁.Keeps p₃ :=
  ⟨h'.requestId.trans h.requestId, h'.externalReqId.trans h.externalReqId,
    h'.samplingParams.trans h.samplingParams, h'.aggregated.trans h.aggregated,
    h'.indices.trans h.indices, h'.diagnostics.trans h.diagnostics, h'.config.trans h.config⟩

theorem Keeps.isSome_powerSmc (h : parent.Keeps parent') : parent'.powerSmc.isSome = parent.powerSmc.isSome := by
  have hindices := congrArg Option.isSome h.indices
  rwa [isSome_map, isSome_map] at hindices

theorem Keeps.part (h : parent.Keeps parent') {part' : PowerSMCPart F}
    (hpart' : parent'.powerSmc = some part') :
    ∃ part, parent.powerSmc = some part ∧ part'.childRequestToIndex = part.childRequestToIndex ∧
      part'.returnDiagnostics = part.returnDiagnostics ∧ part'.manager.config = part.manager.config := by
  have hindices := h.indices
  have hdiagnostics := h.diagnostics
  have hconfig := h.config
  rw [hpart'] at hindices hdiagnostics hconfig
  cases hpart : parent.powerSmc with
  | none => simp [hpart] at hindices
  | some part =>
    rw [hpart] at hindices hdiagnostics hconfig
    exact ⟨part, rfl, some.inj hindices, some.inj hdiagnostics, some.inj hconfig⟩

theorem Keeps.childRequestId (h : parent.Keeps parent') (i : ℕ) :
    parent'.childRequestId i = parent.childRequestId i := by
  have hsome := h.isSome_powerSmc
  unfold ParentRequest.childRequestId
  rw [h.requestId]
  cases hpart : parent.powerSmc <;> cases hpart' : parent'.powerSmc <;> simp_all

variable {part : PowerSMCPart F}

theorem Keeps.setManager {manager : PowerSMCGroupManager F} (hpart : parent.powerSmc = some part)
    (hconfig : manager.config = part.manager.config) :
    parent.Keeps { parent with powerSmc := some { part with manager := manager } } := by
  refine ⟨rfl, rfl, rfl, rfl, ?_, ?_, ?_⟩
  all_goals rw [hpart]
  · rfl
  · rfl
  · exact congrArg some hconfig

theorem aggregate_keeps (parent : ParentRequest F) (id : RequestId) (o : CompletionOutput F) :
    parent.Keeps (parent.aggregate id o) :=
  ⟨rfl, rfl, rfl, length_set, rfl, rfl, rfl⟩

theorem selectOutput_spec (h : parent.selectOutput part = .ok (parent', outputs, finished)) : finished = true ∧
      parent' = { parent with powerSmc := some { part with manager := part.manager.finalSelect.1 } } ∧
      ∃ output particle, parent.outputAggregator[part.manager.finalSelect.2]? = some (some output) ∧
        part.manager.particles[part.manager.finalSelect.2]? = some particle ∧
        outputs = [some { output with index := 0, tokenIds := particle.tokenIds }] := by
  unfold selectOutput at h
  dsimp only at h
  split at h
  case h_1 output particle houtput hparticle =>
    obtain ⟨rfl, hrest⟩ := ok_mk_inj h
    cases hrest
    exact ⟨rfl, rfl, output, particle, houtput, hparticle, rfl⟩
  case h_2 => cases h
  case h_3 => cases h

/-- What `get_outputs` does to a parent and its particles, which are selected from when no child is left, and
when it says that the parent has finished. -/
theorem getOutputs_spec : Ensures (fun (parent', _, finished) => parent.Keeps parent' ∧
      parent'.childRequests = parent.childrenAfter id o ∧
      finished = (parent.childrenAfter id o).isEmpty ∧ (parent'.powerSmc = parent.powerSmc ∨
        ∃ part, parent.powerSmc = some part ∧ parent'.childRequests = [] ∧
          parent'.powerSmc = some { part with manager := part.manager.finalSelect.1 }))
    (parent.getOutputs id o) := by
  unfold getOutputs
  cases hpart : parent.powerSmc with
  | none =>
    exact .ite (fun _ => .ok ⟨⟨rfl, rfl, rfl, rfl, rfl, rfl, rfl⟩, rfl, rfl, Or.inl hpart⟩) fun _ =>
      .ite (fun _ => .error) fun _ => .ok ⟨parent.aggregate_keeps id o, rfl, rfl, Or.inl hpart⟩
  | some part =>
    refine .ite (fun _ => .error) fun _ => .ite (fun hempty => ?_) fun hempty => ?_
    · rintro ⟨_, _, _⟩ h
      obtain ⟨rfl, rfl, -⟩ := selectOutput_spec h
      exact ⟨(parent.aggregate_keeps id o).trans (Keeps.setManager (by exact hpart) rfl), rfl,
        hempty.symm, Or.inr ⟨part, rfl, isEmpty_iff.mp hempty, rfl⟩⟩
    · exact .ok ⟨parent.aggregate_keeps id o, rfl, (Bool.eq_false_iff.mpr hempty).symm, Or.inl hpart⟩

theorem getOutputs_particles (hpart : parent.powerSmc = some part) :
    Ensures (fun (parent', outputs, _) => parent'.outputAggregator = parent.outputAggregator.set o.index (some o) ∧
        o.index < parent.outputAggregator.length ∧
        ((outputs = [] ∧ parent'.childRequests ≠ [] ∧ parent'.powerSmc = some part) ∨
          (parent'.childRequests = [] ∧
            parent'.powerSmc = some { part with manager := part.manager.finalSelect.1 } ∧
            ∃ output particle, parent'.outputAggregator[part.manager.finalSelect.2]? = some (some output) ∧
              part.manager.particles[part.manager.finalSelect.2]? = some particle ∧
              outputs = [some { output with index := 0, tokenIds := particle.tokenIds }])))
      (parent.getOutputs id o) := by
  unfold getOutputs
  rw [hpart]
  refine .ite (fun _ => .error) fun hindex => .ite (fun hempty => ?_) fun hempty => ?_
  · rintro ⟨_, _, _⟩ h
    obtain ⟨-, rfl, hselected⟩ := selectOutput_spec h
    exact ⟨rfl, Nat.lt_of_not_le hindex, Or.inr ⟨isEmpty_iff.mp hempty, rfl, hselected⟩⟩
  · exact .ok ⟨rfl, Nat.lt_of_not_le hindex, Or.inl ⟨rfl, fun hnil => hempty (isEmpty_iff.mpr hnil), hpart⟩⟩

variable {stop : Option String} {asked : Bool}

section

variable (h : parent.observePowerSmcStep id tokenIds logprobs finish stop = .ok (parent', asked))
include h

theorem observePowerSmcStep_spec :
    (parent' = parent ∧ asked = false ∧ (parent.powerSmc = none ∨ tokenIds = [])) ∨
      ∃ part token base proposal index updated boundary, parent.powerSmc = some part ∧
        tokenIds = [token] ∧ logprobs = some (base, proposal) ∧
        part.childRequestToIndex.lookup id = some index ∧
        part.manager.updateAfterToken index token base proposal finish stop = .ok (updated, boundary) ∧
        parent' = { parent with powerSmc := some { part with manager := updated } } ∧
        asked = (finish.isSome || boundary) := by
  unfold observePowerSmcStep at h
  cases hpart : parent.powerSmc with
  | none =>
    rw [hpart] at h
    cases h
    exact Or.inl ⟨rfl, rfl, Or.inl rfl⟩
  | some part =>
    rw [hpart] at h
    dsimp only at h
    split at h
    · cases h
      exact Or.inl ⟨rfl, rfl, Or.inr rfl⟩
    · cases h
    · cases h
    split at h
    · cases h
    case h_2 index hindex =>
      obtain ⟨⟨updated, boundary⟩, hupdate, hret⟩ := bind_pure_eq_ok.mp h
      cases hret
      exact Or.inr ⟨part, _, _, _, index, updated, boundary, rfl, rfl, rfl, hindex, hupdate, rfl, rfl⟩

theorem observePowerSmcStep_keeps :
    parent.Keeps parent' ∧ parent'.childRequests = parent.childRequests ∧
      parent'.outputAggregator = parent.outputAggregator := by
  rcases observePowerSmcStep_spec h with ⟨rfl, -⟩ | ⟨part, _, _, _, _, updated, _, hpart, -, -, -, hupdate, rfl, -⟩
  · exact ⟨.refl _, rfl, rfl⟩
  · obtain ⟨particle, -, -, rfl, -⟩ := PowerSMCGroupManager.updateAfterToken_eq_ok.mp hupdate
    exact ⟨.setManager hpart rfl, rfl, rfl⟩

end

end ParentRequest

namespace RequestState

variable {state : RequestState D F} {parent : ParentRequest F} {finishReason : Option FinishReason}
  {stopReason : Option StopValue} {tokenizer : TokenizerLike D} {newTokenIds : List Token}
  {made : MadeOutput D F}
variable {poolingOutput : Option (List F)} {parent' : ParentRequest F}

structure Completes (state : RequestState D F) (parent parent' : ParentRequest F)
    (finishReason : Option FinishReason) (stopReason : Option StopValue) (emitted : Option (FrontEnd.RequestOutput F))
    (output : CompletionOutput F) (outputs : List (Option (CompletionOutput F))) (finished : Bool) :
    Prop where
  getOutputs : parent.getOutputs state.requestId output = .ok (parent', outputs, finished)
  index : output.index = state.requestIndex
  reasons : output.finishReason = finishReason.map (·.toStr) ∧
    output.stopReason = if finishReason.isSome then stopReason else none
  own : ∃ detokenizer processor, state.detokenizer = some detokenizer ∧
    state.logprobsProcessor = some processor ∧
    (state.outputKind ≠ .delta → output.tokenIds = detokenizer.tokenIds ∧
      output.logprobs = processor.logprobs ∧
      output.cumulativeLogprob = processor.cumulativeLogprob)
  emitted : (outputs = [] ∧ emitted = none) ∨
    ∃ made decode promptLogprobs, outputs ≠ [] ∧ emitted = some made ∧ made.finished = finished ∧
      made.body = .completions (parent'.rewritePowerSmcOutputs outputs decode) promptLogprobs
        parent'.getPowerSmcDiagnostics

theorem Completes.ended {emitted : Option (FrontEnd.RequestOutput F)} {output : CompletionOutput F}
    {outputs : List (Option (CompletionOutput F))} {finished : Bool}
    (h : state.Completes parent parent' finishReason stopReason emitted output outputs finished) :
    output.finished = finishReason.isSome := by
  rw [CompletionOutput.finished, h.reasons.1, isSome_map]

theorem makeCompletion_spec : Ensures (fun made => state.Keeps made.state ∧
      ∃ parent' output outputs finished, made.parent = some parent' ∧
        state.Completes parent parent' finishReason stopReason made.output output outputs finished)
    (state.makeCompletion tokenizer (some parent) newTokenIds finishReason stopReason) := by
  refine .bind fun (state₁, output) hnew => .bind fun (parent₁, outputs, finished) hget => ?_
  obtain ⟨hkeeps, hindex, hreasons, hown⟩ := newCompletionOutput_meets.ensures hnew
  rw [hkeeps.requestId] at hget
  refine .ite (fun hnil => ?_) fun hnil => .bind fun (state₂, requestOutput) hrequest => ?_
  · exact .ok ⟨hkeeps, parent₁, output, outputs, finished, rfl, hget, hindex, hreasons, hown, Or.inl ⟨hnil, rfl⟩⟩
  · obtain ⟨hkeeps', hdone, promptLogprobs, hbody⟩ := newRequestOutput_meets.ensures hrequest
    exact .ok ⟨hkeeps.trans hkeeps', parent₁, output, outputs, finished, rfl, hget, hindex, hreasons, hown,
      Or.inr ⟨requestOutput, _, promptLogprobs, hnil, rfl, hdone, hbody⟩⟩

theorem makeRequestOutput_spec : Ensures (fun made => state.Keeps made.state ∧
      ((finishReason = none ∧ made.parent = some parent ∧ made.output = none ∧ made.state = state) ∨
        ∃ parent' output outputs finished, made.parent = some parent' ∧
          state.Completes parent parent' finishReason stopReason made.output output outputs finished))
    (state.makeRequestOutput tokenizer (some parent) newTokenIds none finishReason stopReason) := by
  refine .ite (fun hquiet => ?_) fun _ => .bind fun interval hinterval => ?_
  · rw [Bool.and_eq_true, Bool.not_eq_true', isSome_eq_false_iff, isNone_iff_eq_none] at hquiet
    exact .ok ⟨.refl state, Or.inl ⟨hquiet.1, rfl, rfl, rfl⟩⟩
  cases interval with
  | none =>
    have hgoes := (takeInterval_meets.ensures hinterval).1 rfl
    rw [isSome_eq_false_iff, isNone_iff_eq_none] at hgoes
    exact .ok ⟨.refl state, Or.inl ⟨hgoes, rfl, rfl, rfl⟩⟩
  | some taken =>
    obtain ⟨state₁, tokens⟩ := taken
    obtain ⟨offset, rfl⟩ := (takeInterval_meets.ensures hinterval).2 _ rfl
    intro made h
    obtain ⟨hkeeps, parent', output, outputs, finished, hparent, hcompletes⟩ := makeCompletion_spec h
    exact ⟨{ hkeeps with }, Or.inr ⟨parent', output, outputs, finished, hparent, { hcompletes with }⟩⟩

theorem makeRequestOutput_finalOnly {parent : Option (ParentRequest F)} (hkind : state.outputKind = .finalOnly)
    (h : state.makeRequestOutput tokenizer parent newTokenIds poolingOutput none stopReason = .ok made) :
    made = ⟨state, parent, none⟩ := by
  unfold makeRequestOutput at h
  simp only [isSome_none, Bool.not_false, hkind, decide_true, Bool.and_self, if_true] at h
  exact (Except.ok.inj h).symm

structure EndsParticle (state : RequestState D F) (parent parent' : ParentRequest F)
    (m m' : PowerSMCGroupManager F) (emitted : Option (FrontEnd.RequestOutput F)) (output : CompletionOutput F) :
    Prop where
  aggregator : parent'.outputAggregator = parent.outputAggregator.set state.requestIndex (some output)
  index : state.requestIndex < parent.outputAggregator.length
  config : m'.config = m.config
  particles : m'.particles = m.particles
  selected : (emitted = none ∧ parent'.childRequests ≠ [] ∧ m'.chosenParticle = m.chosenParticle) ∨
    ∃ chosen particle selected result text promptLogprobs diagnostics, parent'.childRequests = [] ∧
      m'.chosenParticle = some chosen ∧ m'.particles[chosen]? = some particle ∧
      parent'.outputAggregator[chosen]? = some (some selected) ∧ emitted = some result ∧ result.finished = true ∧
      result.body = .completions [some { selected with index := 0, tokenIds := particle.tokenIds, text := text }]
        promptLogprobs diagnostics

theorem makeRequestOutput_particle {part part' : PowerSMCPart F}
    (hkind : state.outputKind = .finalOnly) (hpart : parent.powerSmc = some part)
    (h : state.makeRequestOutput tokenizer (some parent) newTokenIds none finishReason stopReason = .ok made)
    (hmade : made.parent = some parent') (hpart' : parent'.powerSmc = some part') :
    (finishReason = none ∧ parent' = parent ∧ made = ⟨state, some parent, none⟩) ∨
      ∃ output outputs finished, finishReason.isSome = true ∧
        state.Completes parent parent' finishReason stopReason made.output output outputs finished ∧
        state.EndsParticle parent parent' part.manager part'.manager made.output output := by
  cases finishReason with
  | none =>
    obtain rfl := makeRequestOutput_finalOnly hkind h
    exact Or.inl ⟨rfl, (some.inj hmade).symm, rfl⟩
  | some reason =>
    obtain ⟨-, ⟨hnone, -⟩ | ⟨parent₁, output, outputs, finished, hparent₁, hcompletes⟩⟩ := makeRequestOutput_spec h
    · cases hnone
    obtain rfl := mem_unique hparent₁ hmade
    obtain ⟨haggregator, hindex, hreturned⟩ := ParentRequest.getOutputs_particles hpart hcompletes.getOutputs
    rw [hcompletes.index] at haggregator hindex
    refine Or.inr ⟨output, outputs, finished, rfl, hcompletes, ?_⟩
    rcases hreturned with ⟨rfl, hleft, hsame⟩ | ⟨hlast, hselect, selected, particle, hsome, hparticle, rfl⟩
    · obtain rfl := mem_unique hsame hpart'
      refine ⟨haggregator, hindex, rfl, rfl, Or.inl ⟨?_, hleft, rfl⟩⟩
      exact (hcompletes.emitted.resolve_right fun ⟨_, _, _, hne, _⟩ => hne rfl).2
    · obtain rfl := mem_unique hselect hpart'
      refine ⟨haggregator, hindex, rfl, rfl, ?_⟩
      obtain ⟨hnil, -⟩ | ⟨result, decode, promptLogprobs, -, hresult, hdone, hbody⟩ := hcompletes.emitted
      · cases hnil
      obtain ⟨-, hchildren, hfinished, -⟩ := ParentRequest.getOutputs_spec hcompletes.getOutputs
      refine Or.inr ⟨_, particle, selected, result, decode particle.tokenIds, promptLogprobs,
        parent₁.getPowerSmcDiagnostics, hlast, rfl, hparticle, hsome, hresult, ?_, ?_⟩
      · rw [hdone, hfinished, ← hchildren, hlast]
        rfl
      · rw [hbody, ParentRequest.rewritePowerSmcOutputs, hpart']
        rfl

theorem makeRequestOutput_alone : Ensures (fun made => state.Keeps made.state ∧ made.parent = none)
    (state.makeRequestOutput tokenizer none newTokenIds poolingOutput finishReason stopReason) := by
  refine .ite (fun _ => .ok ⟨.refl state, rfl⟩) fun _ => .bind fun interval hinterval => ?_
  cases interval with
  | none => exact .ok ⟨.refl state, rfl⟩
  | some taken =>
    obtain ⟨state₁, tokens⟩ := taken
    obtain ⟨offset, rfl⟩ := (takeInterval_meets.ensures hinterval).2 _ rfl
    have hkeeps : state.Keeps { state with sentTokensOffset := offset } := { Keeps.refl state with }
    cases poolingOutput with
    | some data => exact .bind fun output _ => .ok ⟨hkeeps, rfl⟩
    | none =>
      exact .bind fun (state₂, output) hnew => .bind fun (state₃, requestOutput) hrequest => .ok
        ⟨(hkeeps.trans (newCompletionOutput_meets.ensures hnew).1).trans
          (newRequestOutput_meets.ensures hrequest).1, rfl⟩

end RequestState

/-! ## The steps of the loop -/

namespace ProcessLoop

variable {l l' : ProcessLoop D F} {out : DeliveredOutput F}
variable {state : RequestState D F} {output : Option (FrontEnd.RequestOutput F)}

theorem processOutput_spec (h : l.processOutput out = .ok l') :
    (l.processor.requestStates.lookup out.requestId = none ∧ l' = l) ∨
      ∃ state received parent observed asked made, l.processor.requestStates.lookup out.requestId = some state ∧
        state.receive l.processor.tokenizer out = .ok received ∧
        parentOf l.processor state = .ok parent ∧
        observeParent parent out received = .ok (observed, asked) ∧
        received.state.makeRequestOutput l.processor.tokenizer observed out.newTokenIds
          out.poolingOutput received.finishReason received.stopReason = .ok made ∧
        (({ l.deferParent state.parentReq asked out with
            processor := (l.processor.setState made.state).setParent made.parent }).emit made.state
              made.output).complete made.state received.finishReason out = .ok l' := by
  unfold processOutput at h
  cases hstate : l.processor.requestStates.lookup out.requestId with
  | none =>
    rw [hstate] at h
    exact Or.inl ⟨rfl, (Except.ok.inj h).symm⟩
  | some state =>
    rw [hstate] at h
    obtain ⟨parent, hparent, h⟩ := bind_eq_ok.mp h
    obtain ⟨delivered, hdeliver, h⟩ := bind_eq_ok.mp h
    obtain ⟨received, hreceive, hdeliver⟩ := bind_eq_ok.mp hdeliver
    obtain ⟨⟨observed, asked⟩, hobserve, hdeliver⟩ := bind_eq_ok.mp hdeliver
    obtain ⟨made, hmade, rfl⟩ := bind_pure_eq_ok.mp hdeliver
    have hprocessor : (l.deferParent state.parentReq asked out).processor = l.processor := by
      unfold deferParent
      split <;> rfl
    unfold store at h
    dsimp only at h
    rw [hprocessor] at h
    exact Or.inr ⟨state, received, parent, observed, asked, made, rfl, hreceive, hparent, hobserve, hmade, h⟩

theorem emit_emitted (hstreaming : state.streamingInput = false) :
    (l.emit state output).emitted = l.emitted ++ output.toList.map (⟨state.queue, ·⟩) := by
  cases output with
  | none => exact (append_nil _).symm
  | some output =>
    unfold emit
    rw [hstreaming]
    rfl

theorem emit_queue :
    ∃ outputs, (l.emit state output).emitted = l.emitted ++ outputs ∧ ∀ e ∈ outputs, e.queue = state.queue := by
  cases output with
  | none => exact ⟨[], (append_nil _).symm, nofun⟩
  | some output =>
    refine ⟨_, rfl, fun e he => ?_⟩
    rw [mem_singleton.mp he]

theorem deferParent_some {parentReq : Option String} {q : String} {asked : Bool}
    (hreq : parentReq = some q) (hpooling : out.poolingOutput = none) :
    l.deferParent parentReq asked out = { l with
      powerSmcParentReqs :=
        if asked && !l.powerSmcParentReqs.contains q then l.powerSmcParentReqs ++ [q]
        else l.powerSmcParentReqs
      powerSmcKvEvents := l.powerSmcKvEvents ++ out.powerSmcKvEvent.toList.map (q, ·) } := by
  subst hreq
  unfold deferParent
  rw [hpooling]

end ProcessLoop

/-! ## Live children -/

/-- A child as its parent knows it. -/
structure ParentRequest.Knows (parent : ParentRequest F) (state : RequestState D F) : Prop where
  index : ∀ part, parent.powerSmc = some part →
    part.childRequestToIndex.lookup state.requestId = some state.requestIndex
  kind : parent.powerSmc.isSome = true → state.outputKind = .finalOnly
  notStreaming : state.streamingInput = false
  detokenizer : state.detokenizer.isSome = true

theorem ParentRequest.Knows.keeps {parent parent' : ParentRequest F} {state state' : RequestState D F}
    (h : parent.Knows state) (hparent : parent.Keeps parent') (hstate : state.Keeps state') :
    parent'.Knows state' where
  index part' hpart' := by
    obtain ⟨part, hpart, hindices, -⟩ := hparent.part hpart'
    rw [hindices, hstate.requestId, hstate.requestIndex]
    exact h.index part hpart
  kind hsome := by
    rw [hstate.outputKind]
    refine h.kind ?_
    have hindices := congrArg Option.isSome hparent.indices
    rwa [isSome_map, isSome_map, hsome, eq_comm] at hindices
  notStreaming := hstate.streamingInput.trans h.notStreaming
  detokenizer := hstate.detokenizer.trans h.detokenizer

namespace OutputProcessor

variable {state : RequestState D F}
variable {parent parent' : ParentRequest F}

/-- Every live child, but for one that is about to be removed, is known to its parent. -/
structure WellFormed (p : OutputProcessor D F) (skip : Option RequestId) : Prop where
  key : ∀ id state, p.requestStates.lookup id = some state → state.requestId = id
  parentKey : ∀ q parent, p.parents.lookup q = some parent → parent.requestId = q
  child : ∀ id state q, p.requestStates.lookup id = some state → state.parentReq = some q →
    some id ≠ skip →
    ∃ parent, p.parents.lookup q = some parent ∧ id ∈ parent.childRequests ∧ parent.Knows state
  nodup : ∀ q parent, p.parents.lookup q = some parent → parent.childRequests.Nodup
  indices : ∀ q parent part, p.parents.lookup q = some parent → parent.powerSmc = some part →
    ∀ a i, part.childRequestToIndex.lookup a = some i → a = parent.childRequestId i

variable {p p' : OutputProcessor D F} {skip skip' : Option RequestId} {id : RequestId}

theorem WellFormed.initial (hstates : p.requestStates = ∅) (hparents : p.parents = ∅) : p.WellFormed none where
  key id state h := by simp [hstates] at h
  parentKey q parent h := by simp [hparents] at h
  child id state q h := by simp [hstates] at h
  nodup q parent h := by simp [hparents] at h
  indices q parent part h := by simp [hparents] at h

theorem WellFormed.eq_childRequestId (h : p.WellFormed none) {q : String} {part : PowerSMCPart F}
    (hstate : p.requestStates.lookup id = some state) (hreq : state.parentReq = some q)
    (hparent : p.parents.lookup q = some parent) (hpart : parent.powerSmc = some part) :
    id = parent.childRequestId state.requestIndex := by
  obtain ⟨known, hknown, -, hknows⟩ := h.child id state q hstate hreq (by simp)
  obtain rfl := Option.mem_unique hparent hknown
  rw [← h.key id state hstate]
  exact h.indices q parent part hparent hpart _ _ (hknows.index part hpart)

section

variable (h : p.WellFormed skip)
include h

theorem WellFormed.congr (hstates : p'.requestStates = p.requestStates)
    (hparents : p'.parents = p.parents) : p'.WellFormed skip :=
  ⟨hstates ▸ h.key, hparents ▸ h.parentKey, hstates ▸ hparents ▸ h.child, hparents ▸ h.nodup,
    hparents ▸ h.indices⟩

theorem WellFormed.writeState (hchild : ∀ q, state.parentReq = some q →
      some state.requestId ≠ skip' → ∃ parent, p.parents.lookup q = some parent ∧
        state.requestId ∈ parent.childRequests ∧ parent.Knows state)
    (hskip : ∀ id : RequestId, id ≠ state.requestId → some id ≠ skip' → some id ≠ skip) :
    (p.setState state).WellFormed skip' := by
  refine ⟨fun a s ha => ?_, h.parentKey, fun a s q ha hq hs => ?_, h.nodup, h.indices⟩
  · rcases lookup_insert_cases ha with ⟨rfl, rfl⟩ | ⟨-, ha⟩
    · rfl
    · exact h.key a s ha
  · rcases lookup_insert_cases ha with ⟨rfl, rfl⟩ | ⟨hne, ha⟩
    · exact hchild q hq hs
    · exact h.child a s q ha hq (hskip a hne hs)

theorem WellFormed.setState {state' : RequestState D F}
    (hstate : p.requestStates.lookup id = some state) (hkeeps : state.Keeps state') :
    (p.setState state').WellFormed skip := by
  obtain rfl : state'.requestId = id := hkeeps.requestId.trans (h.key id state hstate)
  refine h.writeState (fun q hq hskip => ?_) fun _ _ hs => hs
  obtain ⟨parent, hparent, hmem, hknows⟩ := h.child _ state q hstate (hkeeps.parentReq ▸ hq) hskip
  exact ⟨parent, hparent, hmem, hknows.keeps (.refl _) hkeeps⟩

theorem WellFormed.setAlone (halone : state.parentReq = none) : (p.setState state).WellFormed skip := by
  refine h.writeState (fun q hq => ?_) fun _ _ hs => hs
  simp [halone] at hq

end

variable {q : String}

theorem lookup_setParent (hid : parent.requestId = q) (r : String) :
    (p.setParent (some parent)).parents.lookup r = if r = q then some parent else p.parents.lookup r := by
  subst hid
  exact lookup_insert_eq_ite ..

theorem WellFormed.writeParent (h : p.WellFormed skip)
    (hknows : ∀ id state, p.requestStates.lookup id = some state → state.parentReq = some parent.requestId →
      some id ≠ skip' → id ∈ parent.childRequests ∧ parent.Knows state)
    (hnodup : parent.childRequests.Nodup) (hindices : ∀ part, parent.powerSmc = some part →
      ∀ a i, part.childRequestToIndex.lookup a = some i → a = parent.childRequestId i)
    (hskip : ∀ id : RequestId, some id ≠ skip' → some id ≠ skip) :
    (p.setParent (some parent)).WellFormed skip' := by
  refine ⟨h.key, fun a other ha => ?_, fun a s r ha hr hs => ?_, fun a other ha => ?_,
    fun a other part ha hpart => ?_⟩
  · rcases lookup_insert_cases ha with ⟨rfl, rfl⟩ | ⟨-, ha⟩
    · rfl
    · exact h.parentKey a other ha
  · rw [lookup_setParent rfl]
    split_ifs with heq
    · exact ⟨parent, rfl, hknows a s ha (heq ▸ hr) hs⟩
    · exact h.child a s r ha hr (hskip a hs)
  · rcases lookup_insert_cases ha with ⟨rfl, rfl⟩ | ⟨-, ha⟩
    · exact hnodup
    · exact h.nodup a other ha
  · rcases lookup_insert_cases ha with ⟨rfl, rfl⟩ | ⟨-, ha⟩
    · exact hindices part hpart
    · exact h.indices a other part ha hpart

theorem WellFormed.setParent (h : p.WellFormed skip) (hparent : p.parents.lookup q = some parent)
    (hkeeps : parent.Keeps parent')
    (hmem : ∀ id ∈ parent.childRequests, some id ≠ skip' → id ∈ parent'.childRequests)
    (hnodup : parent'.childRequests.Nodup) (hskip : ∀ id : RequestId, some id ≠ skip' → some id ≠ skip) :
    (p.setParent (some parent')).WellFormed skip' := by
  obtain rfl : parent'.requestId = q := hkeeps.requestId.trans (h.parentKey q parent hparent)
  refine h.writeParent (fun id state hstate hreq hs => ?_) hnodup (fun part hpart a i hi => ?_) hskip
  · obtain ⟨other, hother, hchild, hknows⟩ := h.child id state _ hstate hreq (hskip id hs)
    obtain rfl := mem_unique hparent hother
    exact ⟨hmem id hchild hs, hknows.keeps hkeeps (.refl _)⟩
  · obtain ⟨old, hold, hindices, -⟩ := hkeeps.part hpart
    rw [hindices] at hi
    rw [hkeeps.childRequestId]
    exact h.indices _ parent old hparent hold a i hi

theorem WellFormed.setManager (h : p.WellFormed none) (hparent : p.parents.lookup q = some parent)
    (hkeeps : parent.Keeps parent') (hchildren : parent'.childRequests = parent.childRequests) :
    (p.setParent (some parent')).WellFormed none :=
  h.setParent hparent hkeeps (fun id hmem _ => by rwa [hchildren])
    (by rw [hchildren]; exact h.nodup q parent hparent) fun _ _ => nofun

theorem WellFormed.erase (h : p.WellFormed skip)
    (hskip : ∀ a : RequestId, a ≠ id → some a ≠ skip) (hparents : p'.parents = p.parents)
    (hstates : p'.requestStates = p.requestStates.erase id) : p'.WellFormed none := by
  refine ⟨fun a state ha => ?_, hparents ▸ h.parentKey, fun a state q ha hq _ => ?_, hparents ▸ h.nodup,
    hparents ▸ h.indices⟩
  · rw [hstates, lookup_erase_eq_some] at ha
    exact h.key a state ha.2
  · rw [hstates, lookup_erase_eq_some] at ha
    rw [hparents]
    exact h.child a state q ha.2 hq (hskip a ha.1)

theorem WellFormed.endChild (h : p.WellFormed none)
    (hparent : p.parents.lookup q = some parent) (hkeeps : parent.Keeps parent')
    (hchildren : parent'.childRequests = parent.childRequests.erase id)
    (hstates : p'.requestStates = p.requestStates.erase id) (hparents : p'.parents = p.parents.insert q parent')
    : p'.WellFormed none := by
  obtain rfl : parent'.requestId = q := hkeeps.requestId.trans (h.parentKey q parent hparent)
  have hset : (p.setParent (some parent')).WellFormed (some id) := by
    refine h.setParent hparent hkeeps (fun a hmem hne => ?_) ?_ fun _ _ => nofun
    all_goals rw [hchildren]
    · exact (mem_erase_of_ne (by simpa using hne)).mpr hmem
    · exact (h.nodup _ parent hparent).erase _
  exact hset.erase (fun a hne heq => hne (some.inj heq)) hparents hstates

section

variable {Q : RequestState D F → Prop} {id : RequestId}
  (hafter : p'.requestStates = p.requestStates.erase id ∨ ∃ state', state'.requestId = id ∧
    state'.parentReq = none ∧ Q state' ∧ p'.requestStates = p.requestStates.insert id state')
include hafter

theorem WellFormed.alone (h : p.WellFormed none) (hparents : p'.parents = p.parents) : p'.WellFormed none := by
  rcases hafter with hafter | ⟨state', rfl, halone, -, hafter⟩
  · exact h.erase (fun _ _ => nofun) hparents hafter
  · exact (h.setAlone halone).congr hafter hparents

theorem lookup_alone : (∀ a, a ≠ id → p'.requestStates.lookup a = p.requestStates.lookup a) ∧
    ∀ state, p'.requestStates.lookup id = some state → state.parentReq = none := by
  rcases hafter with hafter | ⟨state', -, halone, -, hafter⟩
  all_goals rw [hafter]
  · refine ⟨fun a hne => lookup_erase_ne hne, fun state hstate => ?_⟩
    exact absurd rfl (lookup_erase_eq_some.mp hstate).1
  · refine ⟨fun a hne => lookup_insert_ne hne, fun state hstate => ?_⟩
    rw [lookup_insert] at hstate
    rwa [← some.inj hstate]

end

/-- What `_finish_request` does to states and parents. -/
theorem finishRequest_spec (h : p.finishRequest state = .ok p') :
    p'.requestStates = p.requestStates.erase state.requestId ∧ p'.parents = p.parents ∧
      p'.tokenizer = p.tokenizer := by
  obtain ⟨p₁, hdrop, rfl⟩ := bind_pure_eq_ok.mp h
  have hfinished : (p₁.dropFinishedParent state.parentReq).requestStates = p₁.requestStates ∧
      (p₁.dropFinishedParent state.parentReq).parents = p₁.parents ∧
      (p₁.dropFinishedParent state.parentReq).tokenizer = p₁.tokenizer := by
    unfold dropFinishedParent
    split
    · exact ⟨rfl, rfl, rfl⟩
    · split_ifs <;> exact ⟨rfl, rfl, rfl⟩
  unfold dropExternalId at hdrop
  dsimp only at hdrop
  split_ifs at hdrop <;> obtain rfl := Except.ok.inj hdrop <;> exact hfinished

end OutputProcessor

namespace ProcessLoop

open OutputProcessor

variable {l l' : ProcessLoop D F} {out : DeliveredOutput F}
variable {state : RequestState D F} {finishReason : Option FinishReason}
  {parent parent' : ParentRequest F} {p' : OutputProcessor D F}
variable {tokenizer : TokenizerLike D} {newTokenIds : List Token} {stopReason : Option StopValue}
  {made : MadeOutput D F}

def Fits (p : OutputProcessor D F) (out : DeliveredOutput F) : Prop :=
  ∀ state, p.requestStates.lookup out.requestId = some state → out.poolingOutput.isSome = true →
    state.parentReq = none

structure AloneStep (l l' : ProcessLoop D F) (out : DeliveredOutput F) (state : RequestState D F) :
    Prop where
  lookup : l.processor.requestStates.lookup out.requestId = some state
  alone : state.parentReq = none
  after : l'.processor.requestStates = l.processor.requestStates.erase out.requestId ∨
    ∃ state', state'.requestId = out.requestId ∧ state'.parentReq = none ∧ state'.queue = state.queue ∧
      l'.processor.requestStates = l.processor.requestStates.insert out.requestId state'
  parents : l'.processor.parents = l.processor.parents
  tokenizer : l'.processor.tokenizer = l.processor.tokenizer
  emitted : ∃ outputs, l'.emitted = l.emitted ++ outputs ∧ ∀ e ∈ outputs, e.queue = state.queue
  deferred : l'.powerSmcParentReqs = l.powerSmcParentReqs ∧ l'.powerSmcKvEvents = l.powerSmcKvEvents

structure ChildStep (l l' : ProcessLoop D F) (out : DeliveredOutput F) (q : String)
    (state : RequestState D F) (received : Received D F) (parent observed parent' : ParentRequest F)
    (asked : Bool) (made : MadeOutput D F) : Prop where
  lookup : l.processor.requestStates.lookup out.requestId = some state
  parentReq : state.parentReq = some q
  lookupParent : l.processor.parents.lookup q = some parent
  receive : state.receive l.processor.tokenizer out = .ok received
  observe : parent.observePowerSmcStep out.requestId out.newTokenIds out.powerSmcLogprobs
    (received.finishReason.map (·.toStr)) (received.stopReason.map (·.toStr)) = .ok (observed, asked)
  make : received.state.makeRequestOutput l.processor.tokenizer (some observed) out.newTokenIds none
    received.finishReason received.stopReason = .ok made
  madeParent : made.parent = some parent'
  keeps : state.Keeps made.state
  keepsParent : parent.Keeps parent'
  children : parent'.childRequests =
    if received.finishReason.isSome then parent.childRequests.erase out.requestId
    else parent.childRequests
  states : l'.processor.requestStates =
    if received.finishReason.isSome then l.processor.requestStates.erase out.requestId
    else l.processor.requestStates.insert out.requestId made.state
  parents : l'.processor.parents = l.processor.parents.insert q parent'
  tokenizer : l'.processor.tokenizer = l.processor.tokenizer
  emitted : l'.emitted = l.emitted ++ made.output.toList.map (⟨state.queue, ·⟩)
  pending : l'.powerSmcParentReqs =
    if asked && !l.powerSmcParentReqs.contains q then l.powerSmcParentReqs ++ [q]
    else l.powerSmcParentReqs
  events : l'.powerSmcKvEvents = l.powerSmcKvEvents ++ out.powerSmcKvEvent.toList.map (q, ·)

omit [PyFloat F] in
theorem erase_insert {β : Type} (t : Table String β) (k : String) (v : β) :
    (t.insert k v).erase k = t.erase k := by
  apply AList.ext
  exact List.kerase_cons_eq rfl

omit [PyFloat F] in
theorem nextChunk_keeps (state : RequestState D F) :
    state.nextChunk.requestId = state.requestId ∧ state.nextChunk.parentReq = state.parentReq ∧
      state.nextChunk.queue = state.queue := by
  unfold nextChunk
  split <;> exact ⟨rfl, rfl, rfl⟩

/-- What is left of states, parents and deferred work when an output was handed to the client and its request
completed. -/
theorem emit_complete_spec {output : Option (FrontEnd.RequestOutput F)}
    (h : (l.emit state output).complete state finishReason out = .ok l') :
    l'.processor.requestStates = (if finishReason.isNone then l.processor.requestStates
          else if state.streamingInput then l.processor.requestStates.insert state.requestId state.nextChunk
          else l.processor.requestStates.erase state.requestId) ∧
      l'.processor.parents = l.processor.parents ∧ l'.processor.tokenizer = l.processor.tokenizer ∧
      l'.emitted = (l.emit state output).emitted ∧ l'.powerSmcParentReqs = l.powerSmcParentReqs ∧
      l'.powerSmcKvEvents = l.powerSmcKvEvents := by
  have hemit : l.emit state output = { l with emitted := (l.emit state output).emitted } := by
    cases output <;> rfl
  rw [hemit] at h
  unfold complete at h
  split_ifs at h ⊢
  · cases h
    exact ⟨rfl, rfl, rfl, rfl, rfl, rfl⟩
  · cases h
    refine ⟨?_, rfl, rfl, rfl, rfl, rfl⟩
    rw [← (nextChunk_keeps state).1]
    rfl
  all_goals
    obtain ⟨processor, hfinish, rfl⟩ := bind_pure_eq_ok.mp h
    obtain ⟨hstates, hparents, htokenizer⟩ := finishRequest_spec hfinish
    exact ⟨hstates, hparents, htokenizer, rfl, rfl, rfl⟩

theorem observeParent_spec {received : Received D F}
    {observed : Option (ParentRequest F)} {asked : Bool} (hpooling : out.poolingOutput = none)
    (h : observeParent (some parent) out received = .ok (observed, asked)) :
    ∃ parent', observed = some parent' ∧
      parent.observePowerSmcStep out.requestId out.newTokenIds out.powerSmcLogprobs
        (received.finishReason.map (·.toStr)) (received.stopReason.map (·.toStr)) = .ok (parent', asked) := by
  unfold observeParent at h
  rw [hpooling] at h
  obtain ⟨⟨parent', flag⟩, hobserve, hret⟩ := bind_pure_eq_ok.mp h
  cases hret
  exact ⟨parent', rfl, hobserve⟩

section

variable (h : state.makeRequestOutput tokenizer (some parent) newTokenIds none finishReason stopReason = .ok made)
include h

theorem children_of_completion : ∃ parent', made.parent = some parent' ∧ parent.Keeps parent' ∧
      parent'.childRequests =
        if finishReason.isSome then parent.childRequests.erase state.requestId
        else parent.childRequests := by
  obtain ⟨-, hmade⟩ := makeRequestOutput_spec h
  rcases hmade with ⟨rfl, hparent, -⟩ | ⟨parent', output, outputs, finished, hparent, hcompletes⟩
  · exact ⟨parent, hparent, .refl _, rfl⟩
  · obtain ⟨hkeeps, hchildren, -⟩ := ParentRequest.getOutputs_spec hcompletes.getOutputs
    refine ⟨parent', hparent, hkeeps, ?_⟩
    rw [hchildren, ParentRequest.childrenAfter, hcompletes.ended]

theorem powerSmc_of_completion (hmade : made.parent = some parent') : parent'.powerSmc = parent.powerSmc ∨
      ∃ part, parent.powerSmc = some part ∧ parent'.childRequests = [] ∧
        parent'.powerSmc = some { part with manager := part.manager.finalSelect.1 } := by
  obtain ⟨-, hcases⟩ := makeRequestOutput_spec h
  rcases hcases with ⟨-, hparent, -⟩ | ⟨parent₁, output, outputs, finished, hparent, hcompletes⟩
  · rw [mem_unique hmade hparent]
    exact Or.inl rfl
  · rw [mem_unique hmade hparent]
    exact (ParentRequest.getOutputs_spec hcompletes.getOutputs).2.2.2

end

section

variable (hl : l.processor.WellFormed none) (hfits : Fits l.processor out) (h : l.processOutput out = .ok l')
include hl hfits h

theorem processOutput_cases :
    (l.processor.requestStates.lookup out.requestId = none ∧ l' = l) ∨ (∃ state, AloneStep l l' out state) ∨
      ∃ q state received parent observed parent' asked made,
        ChildStep l l' out q state received parent observed parent' asked made := by
  rcases processOutput_spec h with hignored | ⟨state, received, parent, observed, asked, made, hstate,
    hreceive, hparent, hobserve, hmade, hcomplete⟩
  · exact Or.inl hignored
  have hkeeps := receive_meets.ensures hreceive
  have hkey := hl.key _ state hstate
  cases hreq : state.parentReq with
  | none =>
    rw [parentOf, hreq] at hparent
    cases hparent
    have hobserved : observeParent (none : Option (ParentRequest F)) out received = .ok (none, false) := rfl
    obtain ⟨rfl, -⟩ := Prod.mk.inj (Except.ok.inj (hobserved.symm.trans hobserve))
    obtain ⟨hkeeps', hnone⟩ := makeRequestOutput_alone hmade
    have halone : made.state.parentReq = none := by rw [hkeeps'.parentReq, hkeeps.parentReq, hreq]
    have hid : made.state.requestId = out.requestId := by rw [hkeeps'.requestId, hkeeps.requestId, hkey]
    have hqueue : made.state.queue = state.queue := by rw [hkeeps'.queue, hkeeps.queue]
    obtain ⟨hafter, hparents, htokenizer, hemitted, hpending, hevents⟩ := emit_complete_spec hcomplete
    rw [hnone] at hafter hparents htokenizer
    refine Or.inr (Or.inl ⟨state, hstate, hreq, ?_, hparents, htokenizer, ?_, ?_, ?_⟩)
    · rw [hid] at hafter
      have hset : (l.processor.setState made.state).requestStates =
          l.processor.requestStates.insert out.requestId made.state := by rw [← hid]; rfl
      obtain ⟨hid', halone', hqueue'⟩ := nextChunk_keeps made.state
      split_ifs at hafter
      · exact Or.inr ⟨made.state, hid, halone, hqueue, hafter.trans hset⟩
      · refine Or.inr ⟨made.state.nextChunk, hid'.trans hid, halone'.trans halone, hqueue'.trans hqueue,
          hafter.trans ?_⟩
        change AList.insert _ _ (l.processor.setState made.state).requestStates = _
        rw [hset, insert_insert]
      · refine Or.inl (hafter.trans ?_)
        change AList.erase _ (l.processor.setState made.state).requestStates = _
        rw [hset, erase_insert]
    · rw [hemitted, ← hqueue]
      refine emit_queue.imp fun outputs houtputs => ⟨houtputs.1.trans ?_, houtputs.2⟩
      rw [hreq]
      rfl
    · exact hpending.trans (by rw [hreq]; rfl)
    · exact hevents.trans (by rw [hreq]; rfl)
  | some q =>
    have hpooling : out.poolingOutput = none := by
      by_contra hsome
      simp [hfits state hstate (Option.isSome_iff_ne_none.mpr hsome)] at hreq
    obtain ⟨P, hP, hmem, hknows⟩ := hl.child _ state q hstate hreq nofun
    rw [parentOf, hreq] at hparent
    simp only [hP] at hparent
    cases hparent
    obtain ⟨P₁, rfl, hstep⟩ := observeParent_spec hpooling hobserve
    obtain ⟨hkeeps₁, hchildren₁, -⟩ := ParentRequest.observePowerSmcStep_keeps hstep
    rw [hpooling] at hmade
    obtain ⟨P', hP', hkeepsP, hchildren⟩ := children_of_completion hmade
    obtain ⟨hkeeps', -⟩ := makeRequestOutput_spec hmade
    have hall := hkeeps.trans hkeeps'
    have hid : made.state.requestId = out.requestId := hall.requestId.trans hkey
    have hstreaming : made.state.streamingInput = false := hall.streamingInput.trans hknows.notStreaming
    have hkeepsAll := hkeeps₁.trans hkeepsP
    have hq : P'.requestId = q := hkeepsAll.requestId.trans (hl.parentKey q P hP)
    rw [hkeeps.requestId, hkey, hchildren₁] at hchildren
    obtain ⟨hstates, hparents, htokenizer, hemitted, hpending, hevents⟩ := emit_complete_spec hcomplete
    rw [hP', hid, hstreaming] at hstates
    rw [hP'] at hparents htokenizer
    refine Or.inr (Or.inr ⟨q, state, received, P, P₁, P', asked, made, hstate, hreq, hP, hreceive, hstep,
      hmade, hP', hall, hkeepsAll, hchildren, ?_, ?_, htokenizer, ?_, ?_, ?_⟩)
    · have hset : (l.processor.setState made.state).requestStates =
          l.processor.requestStates.insert out.requestId made.state := by rw [← hid]; rfl
      rw [hstates]
      cases received.finishReason with
      | none => exact hset
      | some reason =>
        change AList.erase _ (l.processor.setState made.state).requestStates = _
        rw [hset, erase_insert]
        rfl
    · rw [hparents, ← hq]
      rfl
    · rw [hemitted, emit_emitted hstreaming, hall.queue, deferParent_some hreq hpooling]
    · rw [hpending, deferParent_some hreq hpooling]
    · rw [hevents, deferParent_some hreq hpooling]

theorem processOutput_wellFormed : l'.processor.WellFormed none := by
  rcases processOutput_cases hl hfits h with ⟨-, rfl⟩ | ⟨state, hstep⟩ |
    ⟨q, state, received, parent, observed, parent', asked, made, hstep⟩
  · exact hl
  · exact WellFormed.alone hstep.after hl hstep.parents
  have hchildren := hstep.children
  have hstates := hstep.states
  by_cases hfinished : received.finishReason.isSome = true
  · rw [if_pos hfinished] at hchildren hstates
    exact hl.endChild hstep.lookupParent hstep.keepsParent hchildren hstates hstep.parents
  rw [if_neg hfinished] at hchildren hstates
  have hset := hl.setManager hstep.lookupParent hstep.keepsParent hchildren
  refine (WellFormed.setState hset hstep.lookup hstep.keeps).congr ?_ ?_
  · rw [hstates, ← hl.key _ state hstep.lookup, ← hstep.keeps.requestId]
    rfl
  · rw [hstep.parents, ← hstep.keepsParent.requestId.trans (hl.parentKey q parent hstep.lookupParent)]
    rfl

end

theorem modifyParent_spec {p : OutputProcessor D F} {q : String}
    {f : ParentRequest F → Except PyError (ParentRequest F)} (h : modifyParent p q f = .ok p') :
    ∃ parent parent', p.parents.lookup q = some parent ∧ f parent = .ok parent' ∧
      p' = p.setParent (some parent') := by
  unfold modifyParent at h
  cases hparent : p.parents.lookup q with
  | none =>
    simp [hparent] at h
  | some parent =>
    rw [hparent] at h
    obtain ⟨parent', hf, hret⟩ := bind_eq_ok.mp h
    exact ⟨parent, parent', rfl, hf, (Except.ok.inj hret).symm⟩

def Redone (m m' : PowerSMCGroupManager F) : Prop :=
  (∃ flag, m.maybeResample = .ok (m', flag)) ∨ ∃ event, m' = m.recordKvResampleEvent event

/-- A parent whose manager has been changed at the end of a call. -/
structure Remanaged (parent parent' : ParentRequest F) : Prop where
  keeps : parent.Keeps parent'
  children : parent'.childRequests = parent.childRequests
  aggregator : parent'.outputAggregator = parent.outputAggregator
  redone : ∀ part', parent'.powerSmc = some part' →
    ∃ part, parent.powerSmc = some part ∧ Redone part.manager part'.manager

section

variable {f : PowerSMCGroupManager F → Except PyError (PowerSMCGroupManager F)} (hf : ∀ m, Ensures (Redone m) (f m))
include hf

theorem modifyManager_remanaged : Ensures (Remanaged parent) (parent.modifyManager f) := by
  unfold ParentRequest.modifyManager
  cases hpart : parent.powerSmc with
  | none =>
    refine .ok ⟨.refl _, rfl, rfl, fun part' hpart' => ?_⟩
    simp [hpart] at hpart'
  | some part =>
    refine .bind fun manager hmanager => .ok ?_
    have hredone := hf _ hmanager
    have hconfig : manager.config = part.manager.config := by
      rcases hredone with ⟨flag, hresample⟩ | ⟨event, rfl⟩
      · exact (PowerSMCGroupManager.maybeResample_fixed hresample).config
      · rfl
    refine ⟨.setManager hpart hconfig, rfl, rfl, fun part' hpart' => ⟨part, hpart, ?_⟩⟩
    cases hpart'
    exact hredone

theorem modifyParent_rule {P : OutputProcessor D F → Prop} {p : OutputProcessor D F} {q : String}
    (hmanager : ∀ p q parent parent', P p → p.WellFormed none → p.parents.lookup q = some parent →
      Remanaged parent parent' → P (p.setParent (some parent')))
    (hp : P p ∧ p.WellFormed none) :
    Ensures (fun p' => P p' ∧ p'.WellFormed none) (modifyParent p q (·.modifyManager f)) := by
  intro p' h
  obtain ⟨parent, parent', hparent, hmodify, rfl⟩ := modifyParent_spec h
  have hnew := modifyManager_remanaged hf hmodify
  exact ⟨hmanager p q parent parent' hp.1 hp.2 hparent hnew, hp.2.setManager hparent hnew.keeps hnew.children⟩

end

theorem redone_maybeResample (m : PowerSMCGroupManager F) :
    Ensures (Redone m) (do let r ← m.maybeResample; return r.1) :=
  .bind fun r hr => .ok (Or.inl ⟨r.2, hr⟩)

theorem finishCall_rule {P : OutputProcessor D F → Prop} (hl : P l.processor) (hwf : l.processor.WellFormed none)
    (hmanager : ∀ p q parent parent', P p → p.WellFormed none → p.parents.lookup q = some parent →
      Remanaged parent parent' → P (p.setParent (some parent'))) :
    Ensures (fun p' => P p' ∧ p'.WellFormed none) l.finishCall := by
  refine .bind fun p₁ hfirst => .foldlM (fun p event _ hp => ?_) ?_
  · exact modifyParent_rule (fun m => .ok (Or.inr ⟨event.2, rfl⟩)) hmanager hp
  · exact Ensures.foldlM (fun p q _ hp => modifyParent_rule redone_maybeResample hmanager hp) ⟨hl, hwf⟩ hfirst

end ProcessLoop

end VllmPs
