import VllmPs.FrontEnd.Invariants

/-!
# The asynchronous front end

`AsyncLLM.add_request` gives way to other tasks after each child, so calls of `process_outputs`
fall between the creation of two children. What the clients receive is kept in the order of
emission.
-/

namespace VllmPs

open Lib OutputProcessor ProcessLoop List AList Table

variable {D F : Type} [PyFloat F]
variable {parent : ParentRequest F}

/-- The loop of one `add_request` over the children of its request. -/
structure FanOut where
  request : FrontEndRequest
  prompt : Option String := none
  /-- The number of children created. -/
  next : ℕ := 0
deriving DecidableEq

structure AsyncLLM (D F : Type) [PyFloat F] where
  processor : OutputProcessor D F
  fanOuts : Table String FanOut := ∅
  emitted : List (Emission F) := []

inductive FrontEndOp (F : Type) [PyFloat F]
  | addRequest (request : FrontEndRequest) (prompt : Option String)
  | fanOut (parent : ParentRequest F) (request : FrontEndRequest) (prompt : Option String)
  | nextChild (parentId : String)
  | processOutputs (outs : List (DeliveredOutput F))
  | abort (requestIds : List String) (internal : Bool)

namespace AsyncLLM

variable (s : AsyncLLM D F)

def createChild (parent : ParentRequest F) (fan : FanOut) : Except PyError (AsyncLLM D F) := do
  let (parent, requestId, childParams) := parent.getChildInfo fan.next
  let childRequest := { fan.request with requestId := requestId, samplingParams := some childParams }
  let added ← (s.processor.setParent (some parent)).addRequest childRequest fan.prompt (some parent)
    fan.next (some parent.requestId)
  return { s with
    processor := added.1
    fanOuts := s.fanOuts.insert parent.requestId { fan with next := fan.next + 1 } }

/-- One step of the front end. -/
def step : FrontEndOp F → Except PyError (AsyncLLM D F)
  | .addRequest request prompt => do
    let added ← s.processor.addRequest request prompt none 0 (some request.requestId)
    return { s with processor := added.1 }
  | .fanOut parent request prompt => s.createChild parent { request := request, prompt := prompt }
  | .nextChild parentId =>
    match s.processor.parents.lookup parentId, s.fanOuts.lookup parentId with
    | some parent, some fan => s.createChild parent fan
    | _, _ => .error .keyError
  | .processOutputs outs => do
    let processed ← s.processor.processOutputs outs
    return { s with processor := processed.processor, emitted := s.emitted ++ processed.emitted }
  | .abort requestIds internal => do
    let processed ← abortRequests (s.processor.parentRequests.length + 1)
      { processor := s.processor } requestIds internal
    return { s with processor := processed.processor, emitted := s.emitted ++ processed.emitted }

/-- Nothing has been added yet. -/
def Initial : Prop :=
  s.processor.requestStates = ∅ ∧ s.processor.parents = ∅ ∧ s.fanOuts = ∅ ∧ s.emitted = []

end AsyncLLM

/-- A parent as its constructor leaves it, with at least one child to create. -/
def ParentRequest.IsNew (parent : ParentRequest F) : Prop :=
  0 < parent.n ∧
    ((∃ requestId externalReqId params, parent = .new requestId externalReqId params) ∨
      ∃ requestId externalReqId params config returnDiagnostics rng, config.validateSelf = true ∧
        parent = .newPowerSmc requestId externalReqId params config returnDiagnostics rng)

theorem ParentRequest.IsNew.empty (h : parent.IsNew) :
    parent.childRequests = [] ∧ ∀ part, parent.powerSmc = some part → part.childRequestToIndex = ∅ := by
  rcases h.2 with ⟨_, _, _, rfl⟩ | ⟨_, _, _, _, _, _, -, rfl⟩
  · exact ⟨rfl, nofun⟩
  · refine ⟨rfl, fun part hpart => ?_⟩
    rw [← Option.some.inj hpart]

theorem ParentRequest.IsNew.unselected (h : parent.IsNew) :
    (∀ part, parent.powerSmc = some part → part.manager.particles.length = part.manager.config.particles) ∧
      (∀ (i : ℕ) (output : CompletionOutput F), parent.outputAggregator[i]? ≠ some (some output)) ∧
      ∀ part, parent.powerSmc = some part → part.manager.chosenParticle = none := by
  rcases h.2 with ⟨_, _, params, rfl⟩ | ⟨_, _, _, config, _, _, -, rfl⟩
  · refine ⟨nofun, fun i output houtput => ?_, nofun⟩
    unfold ParentRequest.new at houtput
    split_ifs at houtput
    · rw [List.getElem?_replicate] at houtput
      split_ifs at houtput
      cases houtput
    · cases houtput
  refine ⟨fun part hpart => ?_, fun i output houtput => ?_, fun part hpart => ?_⟩
  · rw [← Option.some.inj hpart]
    exact length_replicate
  · unfold ParentRequest.newPowerSmc at houtput
    rw [List.getElem?_replicate] at houtput
    split_ifs at houtput
    cases houtput
  · rw [← Option.some.inj hpart]
    rfl

theorem ParentRequest.IsNew.unstarted (h : parent.IsNew) (part : PowerSMCPart F)
    (hpart : parent.powerSmc = some part) (particle : PowerSMCParticleState F)
    (hmem : particle ∈ part.manager.particles) : particle.tokenIds = [] ∧ particle.done = false := by
  rcases h.2 with ⟨_, _, _, rfl⟩ | ⟨_, _, _, _, _, _, -, rfl⟩
  · cases hpart
  · cases hpart
    rw [eq_of_mem_replicate hmem]
    exact ⟨rfl, rfl⟩

namespace AsyncLLM

/-- Internal ids are unique, input streams are not fanned out, and an engine step has at most one
output of a request. -/
def Legal (s : AsyncLLM D F) : FrontEndOp F → Prop
  | .addRequest request _ => (∀ state, s.processor.requestStates.lookup request.requestId = some state →
      state.parentReq = none) ∧ s.processor.parents.lookup request.requestId = none
  | .fanOut parent request _ => parent.IsNew ∧ s.processor.parents.lookup parent.requestId = none ∧
      request.resumable = false ∧ s.processor.requestStates.lookup (parent.childRequestId 0) = none ∧
      (∀ id state, s.processor.requestStates.lookup id = some state → state.queue ≠ some parent.requestId) ∧
      ∀ e ∈ s.emitted, e.queue ≠ some parent.requestId
  | .nextChild q => ∃ parent fan, s.processor.parents.lookup q = some parent ∧
      s.fanOuts.lookup q = some fan ∧ fan.next < parent.n ∧
      s.processor.requestStates.lookup (parent.childRequestId fan.next) = none
  | .processOutputs outs => (outs.map (·.requestId)).Nodup ∧
      ∀ out ∈ outs, ProcessLoop.Fits s.processor out
  | .abort _ _ => True

/-- A test of a step for what the parent's constructor does not settle. -/
def legalCheck (s : AsyncLLM D F) : FrontEndOp F → Bool
  | .addRequest request _ => (s.processor.requestStates.lookup request.requestId).isNone &&
      (s.processor.parents.lookup request.requestId).isNone
  | .fanOut parent request _ => (s.processor.parents.lookup parent.requestId).isNone && !request.resumable &&
      (s.processor.requestStates.lookup (parent.childRequestId 0)).isNone &&
      s.processor.requestStates.entries.all (fun entry => decide (entry.2.queue ≠ some parent.requestId)) &&
      s.emitted.all fun e => decide (e.queue ≠ some parent.requestId)
  | .nextChild q =>
    match s.processor.parents.lookup q, s.fanOuts.lookup q with
    | some parent, some fan => decide (fan.next < parent.n) &&
        (s.processor.requestStates.lookup (parent.childRequestId fan.next)).isNone
    | _, _ => false
  | .processOutputs outs => decide (outs.map (·.requestId)).Nodup && outs.all (·.poolingOutput.isNone)
  | .abort _ _ => true

variable {s : AsyncLLM D F}

theorem legal_of_check {op : FrontEndOp F}
    (hnew : ∀ parent request prompt, op = .fanOut parent request prompt → parent.IsNew)
    (h : s.legalCheck op = true) : s.Legal op := by
  cases op with
  | addRequest request prompt =>
    simp only [legalCheck, Bool.and_eq_true, Option.isNone_iff_eq_none] at h
    refine ⟨fun state hstate => ?_, h.2⟩
    simp [h.1] at hstate
  | fanOut parent request prompt =>
    simp only [legalCheck, Bool.and_eq_true, Option.isNone_iff_eq_none, Bool.not_eq_true', all_eq_true,
      decide_eq_true_eq] at h
    obtain ⟨⟨⟨⟨hparents, hresumable⟩, hfresh⟩, hstates⟩, hemitted⟩ := h
    exact ⟨hnew parent request prompt rfl, hparents, hresumable, hfresh,
      fun id state hstate => hstates ⟨id, state⟩ (AList.mem_lookup_iff.mp hstate), hemitted⟩
  | nextChild q =>
    simp only [legalCheck] at h
    split at h
    case h_1 parent fan hparent hfan =>
      rw [Bool.and_eq_true, decide_eq_true_eq, Option.isNone_iff_eq_none] at h
      exact ⟨parent, fan, hparent, hfan, h.1, h.2⟩
    case h_2 => cases h
  | processOutputs outs =>
    simp only [legalCheck, Bool.and_eq_true, decide_eq_true_eq, all_eq_true] at h
    refine ⟨h.1, fun out hout state _ hpooling => ?_⟩
    simp [Option.isNone_iff_eq_none.mp (h.2 out hout)] at hpooling
  | abort requestIds internal => trivial

theorem legal_processOutputs_of_check {outs : List (DeliveredOutput F)}
    (h : s.legalCheck (.processOutputs outs) = true) : s.Legal (.processOutputs outs) :=
  legal_of_check (fun _ _ _ heq => nomatch heq) h

end AsyncLLM

/-! ## Every step keeps live children known -/

namespace OutputProcessor

variable {p p' : OutputProcessor D F}
variable {requestId : RequestId} {internal : Bool} {parents parents' : List String}
  {done done' : Processed D F}
variable {request : FrontEndRequest} {prompt : Option String} {announced : Bool}
  {requestIds : List String}

theorem fromNewRequest_spec (request : FrontEndRequest) (prompt parentReq : Option String) (index : ℕ)
    (queue : Option String) :
    (p.fromNewRequest request prompt parentReq index queue).requestId = request.requestId ∧
      (p.fromNewRequest request prompt parentReq index queue).parentReq = parentReq ∧
      (p.fromNewRequest request prompt parentReq index queue).requestIndex = index ∧
      (p.fromNewRequest request prompt parentReq index queue).queue = queue ∧
      (p.fromNewRequest request prompt parentReq index queue).streamingInput = request.resumable := by
  unfold fromNewRequest
  cases request.samplingParams <;> exact ⟨rfl, rfl, rfl, rfl, rfl⟩

theorem updateStreamingRequestState_spec {state : RequestState D F}
    (h : p.updateStreamingRequestState state request prompt = .ok (p', announced)) :
    p.finishRequest state = .ok p' ∨ ∃ state', p' = p.setState state' ∧ state'.requestId = state.requestId ∧
      state'.parentReq = state.parentReq ∧ state'.queue = state.queue := by
  unfold updateStreamingRequestState at h
  by_cases hfinal : (!request.resumable) = true
  · rw [if_pos hfinal] at h
    split at h
    · obtain ⟨p₁, hfinish, hret⟩ := bind_pure_eq_ok.mp h
      obtain ⟨rfl, -⟩ := Prod.mk.inj hret
      exact Or.inl hfinish
    all_goals
      obtain ⟨rfl, -⟩ := ok_mk_inj h
      exact Or.inr ⟨_, rfl, rfl, rfl, rfl⟩
  rw [if_neg hfinal] at h
  split at h
  all_goals
    obtain ⟨rfl, -⟩ := ok_mk_inj h
    exact Or.inr ⟨_, rfl, rfl, rfl, rfl⟩

theorem addRequest_spec {index : ℕ} {queue : Option String} (hp : p.WellFormed none)
    (hlegal : ∀ state, p.requestStates.lookup request.requestId = some state → state.parentReq = none)
    (h : p.addRequest request prompt none index queue = .ok (p', announced)) :
    p'.parents = p.parents ∧ (p'.requestStates = p.requestStates.erase request.requestId ∨
      ∃ state', state'.requestId = request.requestId ∧ state'.parentReq = none ∧
        (state'.queue = queue ∨ ∃ state, p.requestStates.lookup request.requestId = some state ∧
          state'.queue = state.queue) ∧
        p'.requestStates = p.requestStates.insert request.requestId state') := by
  unfold addRequest at h
  cases hstate : p.requestStates.lookup request.requestId with
  | none =>
    simp only [hstate] at h
    obtain ⟨rfl, -⟩ := ok_mk_inj h
    obtain ⟨hid, halone, -, hqueue, -⟩ := p.fromNewRequest_spec request prompt none index queue
    exact ⟨rfl, Or.inr ⟨_, hid, halone, Or.inl hqueue, by rw [← hid]; rfl⟩⟩
  | some state =>
    simp only [hstate] at h
    have hid := hp.key _ state hstate
    rcases updateStreamingRequestState_spec h with hfinish | ⟨state', rfl, hid', hreq, hqueue⟩
    · obtain ⟨hstates, hparents, -⟩ := finishRequest_spec hfinish
      exact ⟨hparents, Or.inl (hid ▸ hstates)⟩
    · exact ⟨rfl, Or.inr ⟨state', hid'.trans hid, hreq.trans (hlegal state hstate), Or.inr ⟨state, rfl, hqueue⟩,
        by rw [← hid, ← hid']; rfl⟩⟩

theorem WellFormed.addChild (h : p.WellFormed none) (parent : ParentRequest F) {parent' : ParentRequest F}
    (state : RequestState D F) (index : ℕ) {q : String} (hq : parent.requestId = q)
    (hold : p.parents.lookup q = some parent ∨ (p.parents.lookup q = none ∧ parent.childRequests = [] ∧
        ∀ part, parent.powerSmc = some part → part.childRequestToIndex = ∅))
    (hparent' : parent' = (parent.getChildInfo index).1)
    (hid : state.requestId = parent.childRequestId index) (hindex : state.requestIndex = index)
    (hreq : state.parentReq = some q)
    (hkind : parent.powerSmc.isSome = true → state.outputKind = .finalOnly)
    (hstreaming : state.streamingInput = false) (hdetokenizer : state.detokenizer.isSome = true) :
    ((p.setState state).setParent (some parent')).WellFormed none := by
  subst hparent' hq
  have hsome : (parent.getChildInfo index).1.powerSmc.isSome = parent.powerSmc.isSome := Option.isSome_map
  have hparent : (p.setParent (some (parent.getChildInfo index).1)).WellFormed (some state.requestId) := by
    refine h.writeParent (fun a s ha hr hne => ?_) ?_ (fun part hpart b i hb => ?_) fun _ _ => nofun
    · obtain ⟨other, hother, hmem, hknows⟩ := h.child a s _ ha hr nofun
      rcases hold with hold | ⟨hnone, -⟩
      · obtain rfl := Option.mem_unique hold hother
        refine ⟨mem_insert_of_mem hmem, fun part' hpart' => ?_, fun h => hknows.kind (hsome ▸ h),
          hknows.notStreaming, hknows.detokenizer⟩
        obtain ⟨part, hpart, rfl⟩ := Option.map_eq_some_iff.mp hpart'
        rw [lookup_insert_ne fun heq => hne (congrArg some ((h.key a s ha).symm.trans (heq.trans hid.symm)))]
        exact hknows.index part hpart
      · cases hnone.symm.trans hother
    · refine List.Nodup.insert ?_
      rcases hold with hold | ⟨-, hnil, -⟩
      · exact h.nodup _ parent hold
      · rw [hnil]
        exact nodup_nil
    obtain ⟨old, hpart', rfl⟩ := Option.map_eq_some_iff.mp hpart
    have hchild : (parent.getChildInfo index).1.childRequestId i = parent.childRequestId i := by
      unfold ParentRequest.childRequestId ParentRequest.getChildInfo
      rw [hpart']
      rfl
    rw [hchild]
    rcases lookup_insert_cases hb with ⟨rfl, rfl⟩ | ⟨-, hb⟩
    · rfl
    rcases hold with hold | ⟨-, -, hempty⟩
    · exact h.indices _ parent old hold hpart' b i hb
    · rw [hempty old hpart'] at hb
      simp at hb
  refine ((hparent.writeState (fun q hq _ => ?_) fun a hne _ heq => hne (Option.some.inj heq) :
    (OutputProcessor.setState _ state).WellFormed none)).congr rfl rfl
  obtain rfl := Option.mem_unique hreq hq
  refine ⟨_, lookup_insert _, hid ▸ mem_insert_self, fun part' hpart' => ?_,
    fun h => hkind (hsome ▸ h), hstreaming, hdetokenizer⟩
  obtain ⟨part, -, rfl⟩ := Option.map_eq_some_iff.mp hpart'
  rw [hid, hindex]
  exact lookup_insert _

/-- What the bookkeeping of ids keeps. -/
def SameRequests (p p' : OutputProcessor D F) : Prop := p'.requestStates = p.requestStates ∧ p'.parents = p.parents

theorem collectAbort_spec {ids : List RequestId} {requestId : String} :
    Ensures (p.SameRequests ·.1) (collectAbort internal (p, ids, parents) requestId) := by
  refine .ite (fun _ => ?_) fun _ => ?_
  · split
    · exact .ok ⟨rfl, rfl⟩
    · refine .bind fun p₁ hdrop => .ok ?_
      have hids (id : String) : Ensures p.SameRequests (p.dropExternalId id requestId) :=
        .ite (fun _ => .error) fun _ => .ok ⟨rfl, rfl⟩
      exact hids _ hdrop
  · split
    all_goals exact .ok ⟨rfl, rfl⟩

structure AbortStep (done done' : Processed D F) (id : RequestId) (q : String) (state : RequestState D F)
    (parent parent' : ParentRequest F) (made : MadeOutput D F) : Prop where
  lookup : done.processor.requestStates.lookup id = some state
  parentReq : state.parentReq = some q
  lookupParent : done.processor.parents.lookup q = some parent
  make : state.makeRequestOutput done.processor.tokenizer (some parent) [] none (some .abort) none = .ok made
  madeParent : made.parent = some parent'
  keepsParent : parent.Keeps parent'
  children : parent'.childRequests = parent.childRequests.erase id
  states : done'.processor.requestStates = done.processor.requestStates.erase id
  parents : done'.processor.parents = done.processor.parents.insert q parent'
  emitted : done'.emitted = done.emitted ++ made.output.toList.map (⟨state.queue, ·⟩)

section

variable (hp : done.processor.WellFormed none)
  (h : abortRequest (done, parents) requestId = .ok (done', parents'))
include hp h

theorem abortRequest_cases :
    done' = done ∨ (∃ state, done.processor.requestStates.lookup requestId = some state ∧
        done'.processor.requestStates = done.processor.requestStates.erase requestId ∧
        done'.processor.parents = done.processor.parents ∧
        ((state.queue = none ∧ done'.emitted = done.emitted) ∨
          (state.parentReq = none ∧ ∃ outputs, done'.emitted = done.emitted ++ outputs ∧
            ∀ e ∈ outputs, e.queue = state.queue))) ∨
      ∃ q state parent parent' made, AbortStep done done' requestId q state parent parent' made := by
  unfold abortRequest at h
  cases hstate : done.processor.requestStates.lookup requestId with
  | none =>
    simp only [hstate] at h
    exact Or.inl (ok_mk_inj h).1.symm
  | some state =>
    simp only [hstate] at h
    by_cases hqueue : state.queue.isNone = true
    · rw [if_pos hqueue] at h
      obtain ⟨rfl, -⟩ := ok_mk_inj h
      exact Or.inr (Or.inl ⟨state, rfl, rfl, rfl, Or.inl ⟨Option.isNone_iff_eq_none.mp hqueue, rfl⟩⟩)
    rw [if_neg hqueue] at h
    obtain ⟨parent, hparent, h⟩ := bind_eq_ok.mp h
    obtain ⟨made, hmade, hret⟩ := bind_pure_eq_ok.mp h
    obtain ⟨rfl, -⟩ := Prod.mk.inj hret
    cases hreq : state.parentReq with
    | none =>
      rw [parentOf, hreq] at hparent
      cases hparent
      obtain ⟨-, hnone⟩ := RequestState.makeRequestOutput_alone hmade
      rw [hnone]
      refine Or.inr (Or.inl ⟨state, rfl, rfl, rfl, Or.inr ⟨hreq, _, rfl, fun e he => ?_⟩⟩)
      obtain ⟨output, -, rfl⟩ := mem_map.mp he
      rfl
    | some q =>
      obtain ⟨P, hP, hmem, hknows⟩ := hp.child _ state q hstate hreq (Option.some_ne_none _)
      rw [parentOf, hreq] at hparent
      simp only [hP] at hparent
      cases hparent
      have hdetokenizer : state.detokenizer.isNone = false := by
        rw [Option.isNone_eq_false_iff]
        exact hknows.detokenizer
      rw [hdetokenizer] at hmade
      obtain ⟨P', hP', hkeeps, hchildren⟩ := children_of_completion hmade
      have hid : P'.requestId = q := hkeeps.requestId.trans (hp.parentKey q P hP)
      rw [Option.isSome_some, if_pos rfl, hp.key _ state hstate] at hchildren
      refine Or.inr (Or.inr ⟨q, state, P, P', made, hstate, hreq, hP, hmade, hP', hkeeps, hchildren, ?_, ?_, rfl⟩)
      · rw [hP']
        rfl
      · rw [hP', ← hid]
        rfl

theorem abortRequest_wellFormed : done'.processor.WellFormed none := by
  rcases abortRequest_cases hp h with rfl | ⟨state, -, hstates, hparents, -⟩ |
    ⟨q, state, parent, parent', made, hstep⟩
  · exact hp
  · exact hp.erase (fun _ _ => nofun) hparents hstates
  · exact hp.endChild hstep.lookupParent hstep.keepsParent hstep.children hstep.states hstep.parents

end

/-- A property of what an abort leaves that does not depend on the bookkeeping of ids, and that the
abort of one request keeps. -/
theorem abortRequests_rule {P : Processed D F → Prop}
    (hcongr : ∀ (done : Processed D F) (p : OutputProcessor D F), P done →
      done.processor.SameRequests p → P { done with processor := p })
    (habort : ∀ (state : Processed D F × List String) (id : RequestId), P state.1 →
      Ensures (P ·.1) (abortRequest state id))
    {fuel : ℕ} (hP : P done) : Ensures P (abortRequests fuel done requestIds internal) := by
  induction fuel generalizing done requestIds internal with
  | zero => exact .ok hP
  | succ fuel ih =>
    refine .bind fun (p₁, ids, parents) hcollect => .bind fun (done₁, parents₁) hloop =>
      .foldlM (fun done q _ hs => ?_) ?_
    · refine .ite (fun _ => .ok hs) fun _ => .ite (fun _ => ?_) fun _ => ?_
      · exact .ok (hcongr done _ hs ⟨rfl, rfl⟩)
      · exact ih (hcongr done { done.processor with
          parentRequests := done.processor.parentRequests.erase q } hs ⟨rfl, rfl⟩)
    have hcollected : done.processor.SameRequests p₁ := by
      refine Ensures.foldlM (P := (done.processor.SameRequests ·.1)) (fun state id _ hs state' hstep => ?_) ⟨rfl, rfl⟩
        hcollect
      obtain ⟨hstates, hparents⟩ := collectAbort_spec hstep
      exact ⟨hstates.trans hs.1, hparents.trans hs.2⟩
    exact Ensures.foldlM (P := (P ·.1)) (fun state id _ => habort state id) (hcongr done p₁ hP hcollected) hloop

end OutputProcessor

namespace ProcessLoop

variable {l l' : ProcessLoop D F} {out : DeliveredOutput F}

variable {id : RequestId}

theorem mem_defer {pending : List String} {asked : Bool} {q r : String} :
    r ∈ (if asked && !pending.contains q then pending ++ [q] else pending) ↔
      r ∈ pending ∨ (r = q ∧ asked = true) := by
  split_ifs with hask
  · rw [Bool.and_eq_true] at hask
    simp [hask.1]
  · refine ⟨Or.inl, ?_⟩
    rintro (hr | ⟨rfl, hasked⟩)
    · exact hr
    · simpa [hasked] using hask

section

variable {q : String} {state : RequestState D F} {received : Received D F} {asked : Bool}
  {parent observed parent' : ParentRequest F} {made : MadeOutput D F}
  (hstep : ChildStep l l' out q state received parent observed parent' asked made)
include hstep

theorem ChildStep.lookup_other (hne : id ≠ out.requestId) :
    l'.processor.requestStates.lookup id = l.processor.requestStates.lookup id := by
  rw [hstep.states]
  split_ifs
  · exact lookup_erase_ne hne
  · exact lookup_insert_ne hne

theorem ChildStep.lookup_self : l'.processor.requestStates.lookup out.requestId =
    if received.finishReason.isSome then none else some made.state := by
  rw [hstep.states]
  split_ifs
  · exact lookup_erase _ _
  · exact lookup_insert _

theorem ChildStep.mem_pending {r : String} :
    r ∈ l'.powerSmcParentReqs ↔ r ∈ l.powerSmcParentReqs ∨ (r = q ∧ asked = true) := by
  rw [hstep.pending]
  exact mem_defer

end

section

variable (hl : l.processor.WellFormed none) (hfits : Fits l.processor out) (h : l.processOutput out = .ok l')
include hl hfits h

theorem lookup_other (hne : id ≠ out.requestId) :
    l'.processor.requestStates.lookup id = l.processor.requestStates.lookup id := by
  rcases processOutput_cases hl hfits h with ⟨-, rfl⟩ | ⟨state, hstep⟩ |
    ⟨q, state, received, parent, observed, parent', asked, made, hstep⟩
  · rfl
  · exact (lookup_alone hstep.after).1 id hne
  · exact hstep.lookup_other hne

theorem live_before {state' : RequestState D F} (hstate' : l'.processor.requestStates.lookup id = some state') :
    ∃ state, l.processor.requestStates.lookup id = some state ∧ state'.parentReq = state.parentReq := by
  rcases eq_or_ne id out.requestId with rfl | hne
  · rcases processOutput_cases hl hfits h with ⟨-, rfl⟩ | ⟨state, hstep⟩ |
      ⟨q, state, received, parent, observed, parent', asked, made, hstep⟩
    · exact ⟨state', hstate', rfl⟩
    · exact ⟨state, hstep.lookup, ((lookup_alone hstep.after).2 state' hstate').trans hstep.alone.symm⟩
    rw [hstep.lookup_self] at hstate'
    split_ifs at hstate'
    cases hstate'
    exact ⟨state, hstep.lookup, hstep.keeps.parentReq⟩
  · exact ⟨state', lookup_other hl hfits h hne ▸ hstate', rfl⟩

theorem Fits.step {other : DeliveredOutput F} (hother : Fits l.processor other) : Fits l'.processor other := by
  intro state' hstate' hpooling
  obtain ⟨state, hstate, hreq⟩ := live_before hl hfits h hstate'
  rw [hreq]
  exact hother state hstate hpooling

end

end ProcessLoop

/-! ## Whose outputs a queue holds -/

def OutputProcessor.OwnQueues (p : OutputProcessor D F) : Prop :=
  ∀ id state q, p.requestStates.lookup id = some state → state.queue = some q →
    (p.parents.lookup q).isSome = true → state.parentReq = some q

namespace OutputProcessor.OwnQueues

variable {p p' : OutputProcessor D F} {id : RequestId}
variable {done' : Processed D F} {q : String}

section

variable (h : p.OwnQueues)
include h

theorem foreign {state : RequestState D F} (hstate : p.requestStates.lookup id = some state)
    (halone : state.parentReq = none) (hqueue : state.queue = some q) : p.parents.lookup q = none := by
  by_contra hsome
  have hreq := h id state q hstate hqueue (Option.isSome_iff_ne_none.mpr hsome)
  simp [halone] at hreq

theorem insert (id : RequestId) (state' : RequestState D F)
    (hstates : p'.requestStates = p.requestStates.insert id state')
    (hparents : ∀ q, (p'.parents.lookup q).isSome = true → (p.parents.lookup q).isSome = true)
    (hown : ∀ q, state'.queue = some q → (p'.parents.lookup q).isSome = true → state'.parentReq = some q) :
    p'.OwnQueues := by
  intro a state q hstate hqueue hq
  rw [hstates] at hstate
  rcases lookup_insert_cases hstate with ⟨rfl, rfl⟩ | ⟨hne, hstate⟩
  · exact hown q hqueue hq
  · exact h a state q hstate hqueue (hparents q hq)

theorem erase (hstates : p'.requestStates = p.requestStates.erase id)
    (hparents : ∀ q, (p'.parents.lookup q).isSome = true → (p.parents.lookup q).isSome = true) :
    p'.OwnQueues := by
  intro a state q hstate hqueue hq
  rw [hstates, lookup_erase_eq_some] at hstate
  exact h a state q hstate.2 hqueue (hparents q hq)

theorem alone {Q : RequestState D F → Prop} (hparents : p'.parents = p.parents)
    (hafter : p'.requestStates = p.requestStates.erase id ∨ ∃ state', state'.requestId = id ∧
      state'.parentReq = none ∧ Q state' ∧ p'.requestStates = p.requestStates.insert id state')
    (hown : ∀ state' q, Q state' → state'.queue = some q → (p.parents.lookup q).isSome ≠ true) :
    p'.OwnQueues := by
  rcases hafter with hafter | ⟨state', -, -, hQ, hafter⟩
  · exact h.erase hafter fun q hq => hparents ▸ hq
  · exact h.insert _ _ hafter (fun q hq => hparents ▸ hq) fun q hq hsome =>
      absurd (hparents ▸ hsome) (hown state' q hQ hq)

theorem setParent {parent' : ParentRequest F}
    (hparent : p.parents.lookup q = some parent) (hid : parent'.requestId = q) :
    (p.setParent (some parent')).OwnQueues := by
  intro a state r hstate hqueue hr
  refine h a state r hstate hqueue ?_
  rw [OutputProcessor.setParent, hid] at hr
  rwa [isSome_lookup_insert hparent] at hr

end

variable {l l' : ProcessLoop D F}

theorem processOutput {out : DeliveredOutput F} (h : l.processor.OwnQueues) (hl : l.processor.WellFormed none)
    (hfits : ProcessLoop.Fits l.processor out) (hstep : l.processOutput out = .ok l')
    : l'.processor.OwnQueues := by
  rcases processOutput_cases hl hfits hstep with ⟨-, rfl⟩ | ⟨state, hstep⟩ |
    ⟨q, state, received, parent, observed, parent', asked, made, hstep⟩
  · exact h
  · refine h.alone hstep.parents hstep.after fun state' q hqueue hq hsome => ?_
    have hreq := h _ state q hstep.lookup (hqueue ▸ hq) hsome
    simp [hstep.alone] at hreq
  have hparents : ∀ r, (l'.processor.parents.lookup r).isSome = true →
      (l.processor.parents.lookup r).isSome = true := by
    intro r hr
    rwa [hstep.parents, isSome_lookup_insert hstep.lookupParent] at hr
  have hstates := hstep.states
  split_ifs at hstates
  · exact h.erase hstates hparents
  · refine h.insert _ _ hstates hparents fun r hr hsome => ?_
    rw [hstep.keeps.parentReq]
    exact h _ state r hstep.lookup (hstep.keeps.queue ▸ hr) (hparents r hsome)

variable {outs : List (DeliveredOutput F)}

theorem processAll_rule {P : List (DeliveredOutput F) → ProcessLoop D F → Prop}
    (hstep : ∀ l l' out rest, P (out :: rest) l → l.processor.WellFormed none → l.processor.OwnQueues →
      Fits l.processor out → out.requestId ∉ rest.map (·.requestId) → l.processOutput out = .ok l' → P rest l')
    (hnodup : (outs.map (·.requestId)).Nodup) (hP : P outs l) (hl : l.processor.WellFormed none)
    (hown : l.processor.OwnQueues) (hfits : ∀ out ∈ outs, Fits l.processor out)
    (h : outs.foldlM ProcessLoop.processOutput l = .ok l') :
    P [] l' ∧ l'.processor.WellFormed none ∧ l'.processor.OwnQueues := by
  induction outs generalizing l with
  | nil =>
    cases h
    exact ⟨hP, hl, hown⟩
  | cons out rest ih =>
    obtain ⟨middle, hfirst, hrest⟩ := foldlM_cons_eq_ok.mp h
    obtain ⟨hnot, hnodup⟩ := nodup_cons.mp hnodup
    have hout := hfits out mem_cons_self
    exact ih hnodup (hstep l middle out rest hP hl hown hout hnot hfirst) (processOutput_wellFormed hl hout hfirst)
      (hown.processOutput hl hout hfirst)
      (fun other hmem => Fits.step hl hout hfirst (hfits other (mem_cons_of_mem _ hmem))) hrest

theorem processOutputs {processed : Processed D F} (h : p.OwnQueues) (hp : p.WellFormed none)
    (hnodup : (outs.map (·.requestId)).Nodup) (hfits : ∀ out ∈ outs, Fits p out)
    (hcall : p.processOutputs outs = .ok processed) :
    processed.processor.OwnQueues ∧ processed.processor.WellFormed none := by
  obtain ⟨l, hloop, hcall⟩ := bind_eq_ok.mp hcall
  obtain ⟨p', hfinish, rfl⟩ := bind_pure_eq_ok.mp hcall
  obtain ⟨-, hl, hown⟩ := processAll_rule (P := fun _ _ => True) (fun _ _ _ _ _ _ _ _ _ _ => trivial) hnodup
    trivial hp h hfits hloop
  exact finishCall_rule hown hl (fun p q parent parent' hp hwf hparent hnew =>
    hp.setParent hparent (hnew.keeps.requestId.trans (hwf.parentKey q parent hparent))) hfinish

theorem congr (h : p.OwnQueues) (hstates : p'.requestStates = p.requestStates)
    (hparents : p'.parents = p.parents) : p'.OwnQueues := by
  intro a state q hstate hqueue hq
  rw [hparents] at hq
  exact h a state q (hstates ▸ hstate) hqueue hq

variable {done : Processed D F}

section

variable (h : done.processor.OwnQueues) (hp : done.processor.WellFormed none)
include h hp

theorem abortRequest {parents parents' : List String} {requestId : RequestId}
    (hstep : abortRequest (done, parents) requestId = .ok (done', parents')) : done'.processor.OwnQueues := by
  rcases abortRequest_cases hp hstep with rfl | ⟨state, -, hstates, hparents, -⟩ |
    ⟨q, state, parent, parent', made, hmove⟩
  · exact h
  · refine h.erase hstates fun q hq => ?_
    rwa [hparents] at hq
  · refine h.erase hmove.states fun r hr => ?_
    rwa [hmove.parents, isSome_lookup_insert hmove.lookupParent] at hr

theorem abortRequests {fuel : ℕ} {requestIds : List String} {internal : Bool}
    (habort : abortRequests fuel done requestIds internal = .ok done') :
    done'.processor.OwnQueues ∧ done'.processor.WellFormed none :=
  abortRequests_rule (P := fun done : Processed D F => done.processor.OwnQueues ∧
    done.processor.WellFormed none)
    (fun _ _ hdone hsame => ⟨hdone.1.congr hsame.1 hsame.2, hdone.2.congr hsame.1 hsame.2⟩)
    (fun _ _ hdone _ hstep => ⟨hdone.1.abortRequest hdone.2 hstep, abortRequest_wellFormed hdone.2 hstep⟩)
    ⟨h, hp⟩ habort

end

end OutputProcessor.OwnQueues

namespace AsyncLLM

variable {s s' : AsyncLLM D F}
variable {p' : OutputProcessor D F} {request : FrontEndRequest} {prompt : Option String}
  {announced : Bool}

/-- Live children are known, queues are kept apart, and no input stream is fanned out. -/
structure WellFormed (s : AsyncLLM D F) : Prop where
  processor : s.processor.WellFormed none
  queues : s.processor.OwnQueues
  notStreaming : ∀ q fan, s.fanOuts.lookup q = some fan → fan.request.resumable = false

/-- The number of children of a parent that have been created. -/
def created (s : AsyncLLM D F) (q : String) : ℕ :=
  ((s.fanOuts.lookup q).map (·.next)).getD 0

variable {q : String} {fan : FanOut}

theorem created_insert (h : s'.fanOuts = s.fanOuts.insert q { fan with next := fan.next + 1 }) :
    s'.created = Function.update s.created q (fan.next + 1) := by
  funext r
  unfold created
  rw [h]
  rcases eq_or_ne r q with rfl | hne
  · rw [lookup_insert, Function.update_self]
    rfl
  · rw [lookup_insert_ne hne, Function.update_of_ne hne]

structure Creates (s s' : AsyncLLM D F) (parent : ParentRequest F) (fan : FanOut) : Prop where
  next : fan.next < parent.n
  old : (s.processor.parents.lookup parent.requestId = some parent ∧ s.created parent.requestId = fan.next) ∨
    (s.processor.parents.lookup parent.requestId = none ∧ fan.next = 0 ∧ parent.IsNew ∧
      (∀ id state, s.processor.requestStates.lookup id = some state → state.queue ≠ some parent.requestId) ∧
      ∀ e ∈ s.emitted, e.queue ≠ some parent.requestId)
  fresh : s.processor.requestStates.lookup (parent.childRequestId fan.next) = none
  notStreaming : fan.request.resumable = false
  created : s.createChild parent fan = .ok s'

theorem Creates.spec (h : s.Creates s' parent fan) :
    ∃ state, state = s.processor.fromNewRequest { fan.request with
        requestId := parent.childRequestId fan.next
        samplingParams := some (parent.getChildSamplingParams fan.next) } fan.prompt (some parent.requestId)
        fan.next (some parent.requestId) ∧
      s'.processor.requestStates = s.processor.requestStates.insert (parent.childRequestId fan.next) state ∧
      s'.processor.parents = s.processor.parents.insert parent.requestId (parent.getChildInfo fan.next).1 ∧
      s'.fanOuts = s.fanOuts.insert parent.requestId { fan with next := fan.next + 1 } ∧
      s'.emitted = s.emitted := by
  obtain ⟨⟨p', announced⟩, hadd, rfl⟩ := bind_pure_eq_ok.mp h.created
  unfold addRequest at hadd
  simp only [setParent, h.fresh] at hadd
  obtain ⟨rfl, -⟩ := ok_mk_inj hadd
  exact ⟨_, rfl, rfl, insert_insert .., rfl, rfl⟩

theorem creates_fanOut (hlegal : s.Legal (.fanOut parent request prompt))
    (h : s.step (.fanOut parent request prompt) = .ok s') :
    s.Creates s' parent { request := request, prompt := prompt } := by
  obtain ⟨hnew, hnone, hresumable, hfresh, hqueues, hemitted⟩ := hlegal
  exact ⟨hnew.1, Or.inr ⟨hnone, rfl, hnew, hqueues, hemitted⟩, hfresh, hresumable, h⟩

theorem WellFormed.creates_nextChild (hs : s.WellFormed) (hlegal : s.Legal (.nextChild q))
    (h : s.step (.nextChild q) = .ok s') : ∃ parent fan, s.Creates s' parent fan := by
  obtain ⟨parent, fan, hparent, hfan, hnext, hfresh⟩ := hlegal
  obtain rfl := hs.processor.parentKey q parent hparent
  simp only [AsyncLLM.step, hparent, hfan] at h
  exact ⟨parent, fan, hnext, Or.inl ⟨hparent, by rw [created, hfan]; rfl⟩, hfresh, hs.notStreaming _ fan hfan, h⟩

theorem WellFormed.createChild (hs : s.WellFormed) (h : s.Creates s' parent fan) : s'.WellFormed := by
  obtain ⟨state, hstate, hstates, hparents, hfans, -⟩ := h.spec
  refine ⟨?_, ?_, fun r fan' hfan' => ?_⟩
  · refine (hs.processor.addChild parent state fan.next rfl (h.old.imp (·.1) fun hnew =>
      ⟨hnew.1, hnew.2.2.1.empty.1, hnew.2.2.1.empty.2⟩) rfl ?_ ?_ ?_ (fun hsome => ?_) ?_ ?_).congr ?_ ?_
    all_goals subst hstate
    · rfl
    · rfl
    · rfl
    · exact if_pos hsome
    · exact h.notStreaming
    · rfl
    · exact hstates
    · exact hparents
  · have hsame (r : String) (hr : (s'.processor.parents.lookup r).isSome = true) (hne : r ≠ parent.requestId) :
        (s.processor.parents.lookup r).isSome = true := by
      rwa [hparents, lookup_insert_ne hne] at hr
    intro a other r hother hqueue hr
    rw [hstates] at hother
    rcases lookup_insert_cases hother with ⟨rfl, rfl⟩ | ⟨hne, hother⟩
    · rw [hstate] at hqueue ⊢
      exact hqueue
    rcases eq_or_ne r parent.requestId with rfl | hrq
    · rcases h.old with ⟨hold, -⟩ | ⟨-, -, -, hqueues, -⟩
      · exact hs.queues a other _ hother hqueue (by rw [hold]; rfl)
      · exact absurd hqueue (hqueues a other hother)
    · exact hs.queues a other r hother hqueue (hsame r hr hrq)
  · rw [hfans] at hfan'
    rcases lookup_insert_cases hfan' with ⟨-, rfl⟩ | ⟨-, hfan'⟩
    · exact h.notStreaming
    · exact hs.notStreaming r fan' hfan'

/-- Every legal step keeps live children known and queues apart. -/
theorem WellFormed.step {op : FrontEndOp F} (hs : s.WellFormed) (hlegal : s.Legal op)
    (h : s.step op = .ok s') : s'.WellFormed := by
  cases op with
  | addRequest request prompt =>
    obtain ⟨⟨p', announced⟩, hadd, rfl⟩ := bind_pure_eq_ok.mp h
    obtain ⟨hparents, hafter⟩ := addRequest_spec hs.processor hlegal.1 hadd
    refine ⟨.alone hafter hs.processor hparents, hs.queues.alone hparents hafter fun state' q hqueue hq hsome => ?_,
      hs.notStreaming⟩
    rcases hqueue with hqueue | ⟨state, hstate, hqueue⟩
    · obtain rfl := Option.mem_unique hqueue hq
      simp [hlegal.2] at hsome
    · have hreq := hs.queues _ state q hstate (hqueue ▸ hq) hsome
      simp [hlegal.1 state hstate] at hreq
  | fanOut parent request prompt => exact hs.createChild (creates_fanOut hlegal h)
  | nextChild q =>
    obtain ⟨parent, fan, hchild⟩ := hs.creates_nextChild hlegal h
    exact hs.createChild hchild
  | processOutputs outs =>
    obtain ⟨processed, hprocess, rfl⟩ := bind_pure_eq_ok.mp h
    obtain ⟨hqueues, hprocessor⟩ := hs.queues.processOutputs hs.processor hlegal.1 hlegal.2 hprocess
    exact ⟨hprocessor, hqueues, hs.notStreaming⟩
  | abort requestIds internal =>
    obtain ⟨processed, habort, rfl⟩ := bind_pure_eq_ok.mp h
    obtain ⟨hqueues, hprocessor⟩ := hs.queues.abortRequests hs.processor habort
    exact ⟨hprocessor, hqueues, hs.notStreaming⟩

theorem WellFormed.of_reachable
    (h : Reachable AsyncLLM.Initial AsyncLLM.Legal AsyncLLM.step s) : s.WellFormed := by
  refine h.invariant (fun s hinit => ?_) fun s op s' hs hlegal hstep => hs.step hlegal hstep
  obtain ⟨hstates, hparents, hfans, -⟩ := hinit
  refine ⟨.initial hstates hparents, fun id state q hstate => ?_, fun q fan hfan => ?_⟩
  · simp [hstates] at hstate
  · simp [hfans] at hfan

/-! ## A front end with one Power-SMC request -/

/-- A tokenizer without texts. -/
def silentTokenizer : TokenizerLike Unit where
  start _ := ()
  decodeNext _ _ := ([], ())
  decode _ := []
  decodeAlternative _ _ := []

/-- A front end without requests. -/
def idle : AsyncLLM Unit ℚ := { processor := { tokenizer := silentTokenizer } }

theorem idle_initial : idle.Initial := ⟨rfl, rfl, rfl, rfl⟩

/-- The request that is fanned out. -/
def pairRequest : FrontEndRequest :=
  { requestId := "p", externalReqId := "p", promptTokenIds := some [1], samplingParams := none }

/-- A run from the fan-out of a new parent whose steps pass the executable checks. -/
theorem exists_of_fanOut {ok C : AsyncLLM Unit ℚ → FrontEndOp ℚ → Prop} [∀ s op, Decidable (C s op)]
    (hok : ∀ s op, AsyncLLM.Legal s op → C s op → ok s op) {parent : ParentRequest ℚ} (hnew : parent.IsNew)
    {P : AsyncLLM Unit ℚ → Prop} [DecidablePred P] (ops : List (FrontEndOp ℚ))
    (hops : ∀ op ∈ ops, ∀ parent request prompt, op ≠ .fanOut parent request prompt)
    (h : ((checkedRun (fun s op => AsyncLLM.legalCheck s op = true ∧ C s op) AsyncLLM.step idle
      (.fanOut parent pairRequest none :: ops)).map fun s => decide (P s)) = some true) :
    ∃ s, Reachable AsyncLLM.Initial ok AsyncLLM.step s ∧ P s := by
  obtain ⟨s, hrun, hP⟩ := Option.map_eq_some_iff.mp h
  refine ⟨s, Reachable.checkedRun_of (.start idle_initial) (fun op hop s hcheck => hok s op ?_ hcheck.2) hrun,
    of_decide_eq_true hP⟩
  refine legal_of_check (fun other request prompt heq => ?_) hcheck.1
  rcases mem_cons.mp hop with rfl | hop
  · cases heq
    exact hnew
  · exact absurd heq (hops op hop other request prompt)

/-- Two particles, a boundary at every second token, and resampling whenever the weights differ. -/
def pair : ParentRequest ℚ :=
  .newPowerSmc "p" "p" {} ⟨1, 2, 2, 1, 1, true⟩ false fun _ => 1 / 2

theorem pair_isNew : pair.IsNew :=
  ⟨by decide, Or.inr ⟨_, _, _, _, _, _, by decide +kernel, rfl⟩⟩

/-- One token for a child of `pair`, with its log probability under the proposal. -/
def tokenOutput (index : ℕ) (token : Token) (proposalLogq : ℚ) : DeliveredOutput ℚ :=
  { requestId := pair.childRequestId index
    newTokenIds := [token]
    finishReason := none
    powerSmcLogprobs := some (0, proposalLogq)
    stopReason := none }

/-- The tokens of the particles of `pair`. -/
def pairTokens (p : OutputProcessor Unit ℚ) : Option (List (List Token)) := do
  let parent ← p.parents.lookup "p"
  let part ← parent.powerSmc
  return part.manager.particles.map (·.tokenIds)

end AsyncLLM

end VllmPs
