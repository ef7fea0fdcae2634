import VllmPs.FrontEnd.FanOut

/-!
# Selection among finished particles

When the last child of a Power-SMC parent has finished, the parent returns the output that the child of the
selected particle left. There is one as long as no child ends before all have been created.
-/

namespace VllmPs

open Lib ProcessLoop ParentRequest List Option AList OutputProcessor

variable {D F : Type} [PyFloat F]

/-! ## What raises no attribute error -/

variable {parent : ParentRequest F} {state : RequestState D F}

theorem RequestState.makeRequestOutput_raises {tokenizer : TokenizerLike D}
    {parent : Option (ParentRequest F)} {newTokenIds : List Token} {poolingOutput : Option (List F)}
    {finishReason : Option FinishReason} {stopReason : Option StopValue}
    (hparent : ∀ p output, parent = some p → output.index = state.requestIndex →
      output.finished = finishReason.isSome → NeverRaises .attributeError (p.getOutputs state.requestId output)) :
    NeverRaises .attributeError
      (state.makeRequestOutput tokenizer parent newTokenIds poolingOutput finishReason stopReason) := by
  refine .ite (fun _ => .ok _) fun _ => .bind takeInterval_meets.raises fun taken htaken => ?_
  rcases taken with - | ⟨state₁, tokens⟩
  · exact .ok _
  obtain ⟨offset, rfl⟩ := (takeInterval_meets.ensures htaken).2 _ rfl
  cases poolingOutput with
  | some data => exact .bind (.bind promptIds_meets.raises fun _ _ => .ok _) fun _ _ => .ok _
  | none =>
    refine .bind newCompletionOutput_meets.raises fun made hmade => ?_
    obtain ⟨hkeeps, hindex, ⟨hreason, -⟩, -⟩ := newCompletionOutput_meets.ensures hmade
    cases parent with
    | none => exact .bind newRequestOutput_meets.raises fun _ _ => .ok _
    | some p =>
      refine .bind ?_ fun _ _ => .ite (fun _ => .ok _) fun _ => .bind newRequestOutput_meets.raises fun _ _ => .ok _
      rw [hkeeps.requestId]
      refine hparent p made.2 rfl hindex ?_
      rw [CompletionOutput.finished, hreason, isSome_map]

theorem PowerSMCGroupManager.maybeResample_raises (m : PowerSMCGroupManager F) :
    NeverRaises .attributeError m.maybeResample := by
  rw [maybeResample_eq]
  split
  · exact .ok _
  refine .bind (.mapM (fun particle => ?_) _) fun _ _ => .ite (fun _ => .ok _) fun _ => ?_
  · refine .ite (fun _ => .ok _) fun _ => .ite (fun _ => .ok _) fun _ => .ite (fun _ => .ok _) fun _ =>
      .ite (fun _ => .error nofun) fun _ => ?_
    split <;> nofun
  · split <;> nofun

namespace ParentRequest

theorem observePowerSmcStep_raises {id : RequestId} {tokenIds : List Token} {logprobs : Option (F × F)}
    {finish stop : Option String} : NeverRaises .attributeError
      (parent.observePowerSmcStep id tokenIds logprobs finish stop) := by
  unfold observePowerSmcStep
  split
  · exact .ok _
  split
  · exact .ok _
  · exact .error nofun
  · exact .error nofun
  split
  · exact .error nofun
  refine .bind ?_ fun _ _ => .ok _
  unfold PowerSMCGroupManager.updateAfterToken
  split
  · exact .error nofun
  · exact .ite (fun _ => .error nofun) fun _ => .ok _

theorem getOutputs_raises {id : RequestId} {o : CompletionOutput F}
    (hselect : ∀ part, parent.powerSmc = some part → o.index < parent.outputAggregator.length →
      parent.childrenAfter id o = [] → ∃ output,
        (parent.outputAggregator.set o.index (some o))[part.manager.finalSelect.2]? = some (some output)) :
    NeverRaises .attributeError (parent.getOutputs id o) := by
  unfold getOutputs
  cases hpart : parent.powerSmc with
  | none => exact .ite (fun _ => .ok _) fun _ => .ite (fun _ => .error nofun) fun _ => .ok _
  | some part =>
    refine .ite (fun _ => .error nofun) fun hindex => .ite (fun hempty => ?_) fun _ => .ok _
    obtain ⟨output, houtput⟩ := hselect part hpart (Nat.lt_of_not_le hindex) (isEmpty_iff.mp hempty)
    unfold selectOutput
    dsimp only [aggregate]
    rw [houtput]
    split
    · exact .ok _
    · rename_i heq
      cases heq
    · exact .error nofun

theorem maybeResamplePowerSmc_raises : NeverRaises .attributeError parent.maybeResamplePowerSmc := by
  unfold maybeResamplePowerSmc modifyManager
  split
  · exact .ok _
  exact .bind (.bind (PowerSMCGroupManager.maybeResample_raises _) fun _ _ => .ok _) fun _ _ => .ok _

end ParentRequest

theorem OutputProcessor.finishRequest_raises {p : OutputProcessor D F} :
    NeverRaises .attributeError (p.finishRequest state) :=
  .bind (.ite (fun _ => .error nofun) fun _ => .ok _) fun _ _ => .ok _

/-! ## Every selected particle has an output -/

namespace FanOutComplete

variable {next : String → ℕ} {p : OutputProcessor D F} {emitted : List (Emission F)} {l l' : ProcessLoop D F}
  {out : DeliveredOutput F} {rest : List (DeliveredOutput F)}

section

variable (h : FanOutComplete next l.processor emitted) (hwf : l.processor.WellFormed none)
include h hwf

/-- When the last child of a parent ends, each of its particles has an output. -/
theorem selects (hkeeps : KeepsOne next l.processor (out :: rest)) {q : String} {state : RequestState D F}
    {parent observed : ParentRequest F} {received : Received D F} {asked : Bool}
    (hstate : l.processor.requestStates.lookup out.requestId = some state) (hreq : state.parentReq = some q)
    (hparent : l.processor.parents.lookup q = some parent)
    (hreceive : state.receive l.processor.tokenizer out = .ok received)
    (hobserve : parent.observePowerSmcStep out.requestId out.newTokenIds out.powerSmcLogprobs
      (received.finishReason.map (·.toStr)) (received.stopReason.map (·.toStr)) = .ok (observed, asked))
    {output : CompletionOutput F} (hindex : output.index = received.state.requestIndex)
    (hfinished : output.finished = received.finishReason.isSome) :
    NeverRaises .attributeError (observed.getOutputs received.state.requestId output) := by
  obtain ⟨known, hknown, hmem, -⟩ := hwf.child _ state q hstate hreq (some_ne_none _)
  obtain rfl := mem_unique hparent hknown
  have hold := h.parents q parent hparent
  have hreceived := RequestState.receive_meets.ensures hreceive
  have hid : received.state.requestId = out.requestId := hreceived.requestId.trans (hwf.key _ state hstate)
  obtain ⟨hsame, hchildren, haggregator⟩ := observePowerSmcStep_keeps hobserve
  refine getOutputs_raises fun part' hpart' hlt hnil => ?_
  rw [childrenAfter, hchildren, hid] at hnil
  have hends : received.finishReason.isSome = true := by
    by_contra hgoes
    rw [hfinished, if_neg hgoes] at hnil
    exact ne_nil_of_mem hmem hnil
  rw [hfinished, if_pos hends] at hnil
  -- all children have been created: the outputs leave one otherwise
  have hall : next q = parent.n := by
    by_contra hne
    obtain ⟨id, hchild, hgoes⟩ := hkeeps q parent hparent (lt_of_le_of_ne hold.bound.2 hne)
    rcases eq_or_ne id out.requestId with rfl | hother
    · simp [RequestState.receive_goesOn (hgoes out mem_cons_self rfl state hstate) hreceive] at hends
    · have := (mem_erase_of_ne hother).mpr hchild
      simp [hnil] at this
  obtain ⟨part, hpart, -, -, hconfig⟩ := hsame.part hpart'
  have hlength : part'.manager.particles.length = next q := by
    obtain ⟨part₁, hpart₁, hlength, -⟩ := observePowerSmcStep_part hpart hobserve
    obtain rfl := mem_unique hpart₁ hpart'
    rw [hlength, (hold.particles part hpart).length, hall, n, hpart]
  have hchosen : part'.manager.finalSelect.2 < next q := by
    rw [← hlength]
    refine PowerSMCGroupManager.finalSelect_lt ?_
    rw [hlength]
    exact hold.bound.1
  rw [haggregator, hindex, hreceived.requestIndex] at hlt ⊢
  rcases (hold.particles part hpart).created _ hchosen with ⟨s, hs, hsreq, hsindex⟩ | ⟨left, hleft⟩
  · -- the child that has just ended
    obtain ⟨_, hother, hsmem, -⟩ := hwf.child _ s q hs hsreq (some_ne_none _)
    obtain rfl := mem_unique hparent hother
    have hlast : parent.childRequestId part'.manager.finalSelect.2 = out.requestId := by
      by_contra hne
      have := (mem_erase_of_ne hne).mpr hsmem
      simp [hnil] at this
    rw [hlast] at hs
    obtain rfl := mem_unique hs hstate
    exact ⟨output, by rw [hsindex, getElem?_set_self (hsindex ▸ hlt)]⟩
  · rcases eq_or_ne state.requestIndex part'.manager.finalSelect.2 with heq | hne
    · exact ⟨output, by rw [heq, getElem?_set_self (heq ▸ hlt)]⟩
    · exact ⟨left, by rw [getElem?_set_ne hne, hleft]⟩

theorem processOutput_raises
    (hfits : ProcessLoop.Fits l.processor out) (hkeeps : KeepsOne next l.processor (out :: rest)) :
    NeverRaises .attributeError (l.processOutput out) := by
  unfold ProcessLoop.processOutput
  cases hstate : l.processor.requestStates.lookup out.requestId with
  | none => exact .ok _
  | some state =>
    refine .bind ?_ fun parent hparent => .bind (.bind RequestState.receive_meets.raises fun received hreceive =>
      .bind ?_ fun observed hobserve => .bind ?_ fun _ _ => .ok _) fun d _ =>
      .ite (fun _ => .ok _) fun _ => .ite (fun _ => .ok _) fun _ =>
        .bind finishRequest_raises fun _ _ => .ok _
    · cases hreq : state.parentReq with
      | none =>
        rw [parentOf, hreq]
        exact .ok _
      | some q =>
        obtain ⟨known, hknown, -⟩ := hwf.child _ state q hstate hreq (some_ne_none _)
        rw [parentOf, hreq]
        dsimp only
        rw [hknown]
        exact .ok _
    · unfold observeParent
      split
      · exact .bind observePowerSmcStep_raises fun _ _ => .ok _
      · exact .ok _
    refine RequestState.makeRequestOutput_raises fun p output hp hindex hfinished => ?_
    cases hreq : state.parentReq with
    | none =>
      rw [parentOf, hreq] at hparent
      cases hparent
      have hnone : observeParent (none : Option (ParentRequest F)) out received = .ok (none, false) := rfl
      simp [← Except.ok.inj (hnone.symm.trans hobserve)] at hp
    | some q =>
      obtain ⟨known, hknown, -⟩ := hwf.child _ state q hstate hreq (some_ne_none _)
      rw [parentOf, hreq] at hparent
      dsimp only at hparent
      rw [hknown] at hparent
      cases hparent
      have hpooling : out.poolingOutput = none := by
        by_contra hsome
        simp [hfits state hstate (Option.isSome_iff_ne_none.mpr hsome)] at hreq
      obtain ⟨observed', asked⟩ := observed
      obtain ⟨P, rfl, hstep⟩ := observeParent_spec hpooling hobserve
      cases hp
      exact h.selects hwf hkeeps hstate hreq hknown hreceive hstep hindex hfinished

end

end FanOutComplete

/-! ## Whole calls -/

def ProcessLoop.Known (l : ProcessLoop D F) : Prop :=
  (∀ q ∈ l.powerSmcParentReqs, (l.processor.parents.lookup q).isSome = true) ∧
    ∀ event ∈ l.powerSmcKvEvents, (l.processor.parents.lookup event.1).isSome = true

namespace ProcessLoop.Known

variable {l l' : ProcessLoop D F} {out : DeliveredOutput F}

theorem step (h : l.Known) (hwf : l.processor.WellFormed none) (hfits : Fits l.processor out)
    (hstep : l.processOutput out = .ok l') : l'.Known := by
  rcases processOutput_cases hwf hfits hstep with ⟨-, rfl⟩ | ⟨state, halone⟩ |
    ⟨q, state, received, parent, observed, parent', asked, made, hchild⟩
  · exact h
  · unfold Known
    rwa [halone.parents, halone.deferred.1, halone.deferred.2]
  have hself : (l'.processor.parents.lookup q).isSome = true := by
    rw [hchild.parents, lookup_insert]
    rfl
  have hold {r : String} (hr : (l.processor.parents.lookup r).isSome = true) :
      (l'.processor.parents.lookup r).isSome = true := by
    rcases eq_or_ne r q with rfl | hne
    · exact hself
    · rwa [hchild.parents, lookup_insert_ne hne]
  refine ⟨fun r hr => ?_, fun event hevent => ?_⟩
  · rcases hchild.mem_pending.mp hr with hr | ⟨rfl, -⟩
    · exact hold (h.1 r hr)
    · exact hself
  rw [hchild.events] at hevent
  rcases mem_append.mp hevent with hevent | hevent
  · exact hold (h.2 event hevent)
  · obtain ⟨_, -, rfl⟩ := mem_map.mp hevent
    exact hself

theorem modifyParent_meets {p : OutputProcessor D F} {q : String}
    {f : ParentRequest F → Except PyError (ParentRequest F)}
    (hf : ∀ parent, NeverRaises .attributeError (f parent)) (hq : (p.parents.lookup q).isSome = true) :
    Meets (· ≠ .attributeError)
      (fun p' => ∀ r, (p.parents.lookup r).isSome = true → (p'.parents.lookup r).isSome = true)
      (modifyParent p q f) := by
  obtain ⟨parent, hparent⟩ := Option.isSome_iff_exists.mp hq
  unfold modifyParent
  rw [hparent]
  refine .bind' (hf parent) fun parent' _ => .ok fun r hr => ?_
  rw [setParent]
  rcases eq_or_ne r parent'.requestId with rfl | hne
  · rw [lookup_insert]
    rfl
  · rwa [lookup_insert_ne hne]

theorem finishCall_raises (h : l.Known) : NeverRaises .attributeError l.finishCall := by
  have hstep {p : OutputProcessor D F} {q : String} {f : ParentRequest F → Except PyError (ParentRequest F)}
      (hf : ∀ parent, NeverRaises .attributeError (f parent))
      (hq : (l.processor.parents.lookup q).isSome = true)
      (hp : ∀ r, (l.processor.parents.lookup r).isSome = true → (p.parents.lookup r).isSome = true) :=
    (modifyParent_meets hf (hp q hq)).mono (fun _ => id) fun p' hkept r hr => hkept r (hp r hr)
  refine (Meets.bind (.foldlM (fun p q hq => hstep (fun _ => maybeResamplePowerSmc_raises) (h.1 q hq)) fun _ => id)
    fun p hp => .foldlM (fun p event hevent => hstep (fun parent => ?_) (h.2 event hevent)) hp).raises
  unfold observePowerSmcKvEvent modifyManager
  split <;> nofun

end ProcessLoop.Known

namespace FanOutComplete

variable {next : String → ℕ} {p : OutputProcessor D F} {emitted : List (Emission F)} {l : ProcessLoop D F}
  {outs : List (DeliveredOutput F)}

theorem processAll_meets (hnodup : (outs.map (·.requestId)).Nodup)
    (h : FanOutComplete next l.processor (emitted ++ l.emitted)) (hknown : l.Known)
    (hwf : l.processor.WellFormed none) (hown : l.processor.OwnQueues)
    (hfits : ∀ out ∈ outs, ProcessLoop.Fits l.processor out) (hkeeps : KeepsOne next l.processor outs) :
    Meets (· ≠ .attributeError) ProcessLoop.Known (outs.foldlM ProcessLoop.processOutput l) := by
  induction outs generalizing l with
  | nil => exact .ok hknown
  | cons out rest ih =>
    obtain ⟨hnot, hnodup⟩ := nodup_cons.mp hnodup
    have hout := hfits out mem_cons_self
    rw [foldlM_cons]
    refine .bind' (h.processOutput_raises hwf hout hkeeps) fun middle hfirst => ?_
    exact ih hnodup (h.processOutput hwf hown hout hkeeps hfirst) (hknown.step hwf hout hfirst)
      (processOutput_wellFormed hwf hout hfirst) (hown.processOutput hwf hout hfirst)
      (fun other hmem => ProcessLoop.Fits.step hwf hout hfirst (hfits other (mem_cons_of_mem _ hmem)))
      (hkeeps.step hnot hwf hout hfirst)

theorem processOutputs_raises (hnodup : (outs.map (·.requestId)).Nodup) (h : FanOutComplete next p emitted)
    (hwf : p.WellFormed none) (hown : p.OwnQueues) (hfits : ∀ out ∈ outs, ProcessLoop.Fits p out)
    (hkeeps : KeepsOne next p outs) : NeverRaises .attributeError (p.processOutputs outs) := by
  have hstart : FanOutComplete next p (emitted ++ []) := by rwa [append_nil]
  have hloop := processAll_meets (l := { processor := p }) hnodup hstart ⟨nofun, nofun⟩ hwf hown hfits hkeeps
  exact .bind hloop.raises fun l hl => .bind (hloop.ensures hl).finishCall_raises fun _ _ => .ok _

end FanOutComplete

/-! ## Runs of the front end -/

namespace AsyncLLM

variable {s s' : AsyncLLM D F}

def LeavesChild (s : AsyncLLM D F) : FrontEndOp F → Prop
  | .processOutputs outs => KeepsOne s.created s.processor outs
  | .abort _ _ => False
  | _ => True

/-- The children of every parent are all created, or one is left. -/
structure FansOut (s : AsyncLLM D F) : Prop where
  wellFormed : s.WellFormed
  complete : FanOutComplete s.created s.processor s.emitted

theorem FansOut.createChild (hs : s.FansOut) {parent : ParentRequest F} {fan : FanOut}
    (h : s.Creates s' parent fan) : s'.FansOut := by
  obtain ⟨state, hstate, hstates, hparents, hfans, hemitted⟩ := h.spec
  refine ⟨hs.wellFormed.createChild h, ?_⟩
  rw [created_insert hfans, hemitted]
  have hspec := s.processor.fromNewRequest_spec { fan.request with
    requestId := parent.childRequestId fan.next
    samplingParams := some (parent.getChildSamplingParams fan.next) } fan.prompt (some parent.requestId)
    fan.next (some parent.requestId)
  rw [← hstate] at hspec
  obtain ⟨-, hreq, hindex, hqueue, -⟩ := hspec
  rcases h.old with ⟨hparent, hcreated⟩ | ⟨-, hzero, hnew, -, hnone⟩
  · -- the children are not all created, so one is left and nothing has been reported
    have hbefore := hs.complete.parents _ parent hparent
    have hkept := hbefore.kept (hcreated ▸ h.next)
    refine hs.complete.addChild h.next hbefore.live (fun e he heq => ?_)
      (fun part hpart => ⟨hcreated ▸ hbefore.particles part hpart, fun e he heq => ?_⟩) h.fresh hreq hindex hqueue
      hstates hparents
    · by_contra hdone
      exact hkept (hbefore.finished e he heq (Bool.eq_true_of_not_eq_false hdone)).2
    · have honce := (hbefore.reported part hpart).1
      rw [if_neg hkept, length_eq_zero_iff, filter_eq_nil_iff] at honce
      exact honce e he (decide_eq_true heq)
  refine hs.complete.addChild h.next (fun id hid => ?_) (fun e he heq => absurd heq (hnone e he))
    (fun part hpart => ⟨⟨fun j hj => ?_, ?_, fun j output houtput => ?_, fun j hj => ?_⟩, hnone⟩) h.fresh hreq
    hindex hqueue hstates hparents
  · simp [hnew.empty.1] at hid
  · omega
  · exact hnew.unselected.1 part hpart
  · exact absurd houtput (hnew.unselected.2.1 j output)
  · simp [hnew.unselected.2.2 part hpart] at hj

variable {op : FrontEndOp F}

theorem FansOut.step (hs : s.FansOut) (hlegal : s.Legal op) (hleaves : s.LeavesChild op)
    (h : s.step op = .ok s') : s'.FansOut := by
  have hwf := hs.wellFormed.step hlegal h
  cases op with
  | addRequest request prompt =>
    obtain ⟨⟨p', announced⟩, hadd, rfl⟩ := bind_pure_eq_ok.mp h
    obtain ⟨hparents, hafter⟩ := addRequest_spec hs.wellFormed.processor hlegal.1 hadd
    obtain ⟨hother, halone⟩ := lookup_alone hafter
    exact ⟨hwf, hs.complete.alone _ _ hparents hother hlegal.1 halone (append_nil _).symm nofun⟩
  | fanOut parent request prompt => exact hs.createChild (creates_fanOut hlegal h)
  | nextChild q =>
    obtain ⟨parent, fan, hchild⟩ := hs.wellFormed.creates_nextChild hlegal h
    exact hs.createChild hchild
  | processOutputs outs =>
    obtain ⟨processed, hprocess, rfl⟩ := bind_pure_eq_ok.mp h
    obtain ⟨l, hloop, hprocess⟩ := bind_eq_ok.mp hprocess
    obtain ⟨p', hfinish, rfl⟩ := bind_pure_eq_ok.mp hprocess
    have hstart : FanOutComplete s.created s.processor (s.emitted ++ []) := by
      rw [append_nil]
      exact hs.complete
    obtain ⟨hcomplete, hl⟩ := FanOutComplete.processAll (l := { processor := s.processor }) hlegal.1 hstart
      hs.wellFormed.processor hs.wellFormed.queues hlegal.2 hleaves hloop
    exact ⟨hwf, hcomplete.finishCall hl hfinish⟩
  | abort requestIds internal => exact hleaves.elim

theorem FansOut.of_reachable
    (h : Reachable AsyncLLM.Initial (fun s op => AsyncLLM.Legal s op ∧ s.LeavesChild op) AsyncLLM.step s) :
    s.FansOut := by
  refine h.invariant (fun s hinit => ?_) fun s op s' hs hok hstep => hs.step hok.1 hok.2 hstep
  refine ⟨.of_reachable (.start hinit), ?_⟩
  obtain ⟨hstates, hparents, -⟩ := hinit
  refine ⟨fun _ _ _ hstate => ?_, fun _ _ hparent => ?_⟩
  · simp [hstates] at hstate
  · simp [hparents] at hparent

theorem FansOut.step_raises (hs : s.FansOut) (hlegal : s.Legal op) (hleaves : s.LeavesChild op) :
    NeverRaises .attributeError (s.step op) := by
  have hadd {p : OutputProcessor D F} {request : FrontEndRequest} {prompt : Option String}
      {parent : Option (ParentRequest F)} {index : ℕ} {queue : Option String} :
      NeverRaises .attributeError (p.addRequest request prompt parent index queue) := by
    unfold addRequest
    split
    · refine .ite (fun _ => ?_) fun _ => ?_
      · split
        · exact .bind finishRequest_raises fun _ _ => .ok _
        · exact .ok _
        · exact .ok _
      · split <;> nofun
    · exact .ok _
  cases op with
  | addRequest request prompt => exact .bind hadd fun _ _ => .ok _
  | fanOut parent request prompt => exact .bind hadd fun _ _ => .ok _
  | nextChild q =>
    obtain ⟨parent, fan, hparent, hfan, -⟩ := hlegal
    simp only [AsyncLLM.step, hparent, hfan]
    exact .bind hadd fun _ _ => .ok _
  | processOutputs outs =>
    exact .bind (hs.complete.processOutputs_raises hlegal.1 hs.wellFormed.processor hs.wellFormed.queues
      hlegal.2 hleaves) fun _ _ => .ok _
  | abort requestIds internal => exact hleaves.elim

/-- In every run whose calls leave a child of each parent whose children are still created, a parent
reports its end only after all its children have been created and have ended; a parent of particles then
reports one finished completion and no other, and no step selects a particle without an output. -/
theorem finished_after_fan_out {s : AsyncLLM D F}
    (h : Reachable AsyncLLM.Initial (fun s op => AsyncLLM.Legal s op ∧ s.LeavesChild op) AsyncLLM.step s) :
    (∀ e ∈ s.emitted, ∀ q parent, e.queue = some q → s.processor.parents.lookup q = some parent →
      e.output.finished = true → s.created q = parent.n ∧
        ∀ id state, s.processor.requestStates.lookup id = some state → state.parentReq ≠ some q) ∧
    (∀ q parent part, s.processor.parents.lookup q = some parent → parent.powerSmc = some part →
      (s.emitted.filter fun e => e.queue = some q).length = (if parent.childRequests = [] then 1 else 0) ∧
      (∀ e ∈ s.emitted, e.queue = some q → e.output.finished = true ∧ ∃ output promptLogprobs diagnostics,
          e.output.body = .completions [some output] promptLogprobs diagnostics ∧ output.finished = true) ∧
      ∀ i, part.manager.chosenParticle = some i → ∃ output,
        parent.outputAggregator[i]? = some (some output) ∧ output.finished = true) ∧
    ∀ op, s.Legal op → s.LeavesChild op → s.step op ≠ .error .attributeError := by
  have hs := FansOut.of_reachable h
  refine ⟨fun e he q parent heq hparent hdone => ?_, fun q parent part hparent hpart => ?_,
    fun op hlegal hleaves hstep => hs.step_raises hlegal hleaves _ hstep rfl⟩
  · obtain ⟨hall, hnil⟩ := (hs.complete.parents q parent hparent).finished e he heq hdone
    refine ⟨hall, fun id state hstate hreq => ?_⟩
    obtain ⟨known, hknown, hmem, -⟩ := hs.wellFormed.processor.child id state q hstate hreq nofun
    obtain rfl := mem_unique hparent hknown
    simp [hnil] at hmem
  obtain ⟨honce, hsingle⟩ := (hs.complete.parents q parent hparent).reported part hpart
  refine ⟨honce, hsingle, fun i hi => ?_⟩
  have hparticles := (hs.complete.parents q parent hparent).particles part hpart
  obtain ⟨output, houtput⟩ := hparticles.chosen i hi
  exact ⟨output, houtput, hparticles.ended i output houtput⟩

instance (tokenizer : TokenizerLike D) (state : RequestState D F) (out : DeliveredOutput F) :
    Decidable (state.GoesOn tokenizer out) :=
  decidable_of_iff (out.finishReason = none ∧ ∀ d ∈ state.detokenizer,
    (d.update tokenizer out.newTokenIds false).2.filter (· ≠ []) = none) Iff.rfl

instance (next : String → ℕ) (p : OutputProcessor D F) (outs : List (DeliveredOutput F)) :
    Decidable (KeepsOne next p outs) :=
  decidable_of_iff (∀ entry ∈ p.parents.entries, next entry.1 < entry.2.n → ∃ id ∈ entry.2.childRequests,
      ∀ out ∈ outs, out.requestId = id → ∀ state ∈ p.requestStates.lookup id, state.GoesOn p.tokenizer out)
    ⟨fun h q parent hparent => h ⟨q, parent⟩ (AList.mem_lookup_iff.mp hparent),
      fun h entry hentry => h entry.1 entry.2 (AList.mem_lookup_iff.mpr hentry)⟩

instance (s : AsyncLLM D F) (op : FrontEndOp F) : Decidable (s.LeavesChild op) :=
  match op with
  | .processOutputs outs => inferInstanceAs (Decidable (KeepsOne s.created s.processor outs))
  | .abort _ _ => isFalse id
  | .addRequest _ _ => isTrue trivial
  | .fanOut _ _ _ => isTrue trivial
  | .nextChild _ => isTrue trivial

/-- The output that ends a particle. -/
def lastOutput (index : ℕ) (token : Token) : DeliveredOutput ℚ :=
  { tokenOutput index token 0 with finishReason := some .length }

def pairProgress (s : AsyncLLM Unit ℚ) : ℕ × ℕ × ℕ :=
  ((s.emitted.filter fun e => e.queue = some "p" ∧ e.output.finished = true).length,
    (s.emitted.filter fun e => e.queue = some "p").length, s.created "p")

/-- The first particle has a token before the second one is created, and ends after it. -/
theorem pair_finished_once : ∃ s : AsyncLLM Unit ℚ, pairProgress s = (1, 1, 2) ∧
    ∀ e ∈ s.emitted, ∀ q parent, e.queue = some q → s.processor.parents.lookup q = some parent →
      e.output.finished = true → s.created q = parent.n := by
  obtain ⟨s, hreach, hs⟩ := exists_of_fanOut (C := AsyncLLM.LeavesChild) (fun _ _ => And.intro) pair_isNew
    (P := fun s => pairProgress s = (1, 1, 2)) [.processOutputs [tokenOutput 0 7 0], .nextChild "p",
      .processOutputs [lastOutput 0 8, lastOutput 1 5]] (by simp) (by decide +kernel)
  have h := finished_after_fan_out hreach
  exact ⟨s, hs, fun e he q parent heq hparent hdone => (h.1 e he q parent heq hparent hdone).1⟩

/-- The pair with another draw. -/
def latePair : ParentRequest ℚ :=
  .newPowerSmc "p" "p" {} ⟨1, 2, 2, 1, 1, true⟩ false fun _ => 3 / 4

theorem latePair_isNew : latePair.IsNew :=
  ⟨by decide, Or.inr ⟨_, _, _, _, _, _, by decide +kernel, rfl⟩⟩

/-- The first particle ends before the second one is created. The parent reports its end with one child
of two created and once more when the second particle ends; with another draw it selects the particle
that has no output. -/
theorem finished_before_fan_out :
    (∃ s : AsyncLLM Unit ℚ, Reachable AsyncLLM.Initial AsyncLLM.Legal AsyncLLM.step s ∧
      pairProgress s = (1, 1, 1)) ∧
    (∃ s : AsyncLLM Unit ℚ, Reachable AsyncLLM.Initial AsyncLLM.Legal AsyncLLM.step s ∧
      pairProgress s = (2, 2, 2)) ∧
    ∃ s : AsyncLLM Unit ℚ, Reachable AsyncLLM.Initial AsyncLLM.Legal AsyncLLM.step s ∧
      s.Legal (.processOutputs [lastOutput 0 7]) ∧
      s.step (.processOutputs [lastOutput 0 7]) = .error .attributeError := by
  refine ⟨exists_of_fanOut (C := fun _ _ => True) (fun _ _ h _ => h) pair_isNew
    [.processOutputs [lastOutput 0 7]] (by simp) (by decide +kernel),
    exists_of_fanOut (C := fun _ _ => True) (fun _ _ h _ => h) pair_isNew
      [.processOutputs [lastOutput 0 7], .nextChild "p", .processOutputs [lastOutput 1 5]] (by simp)
      (by decide +kernel), ?_⟩
  obtain ⟨s, hreach, hlegal, herror⟩ := exists_of_fanOut (C := fun _ _ => True) (fun _ _ h _ => h) latePair_isNew
    (P := fun s => s.legalCheck (.processOutputs [lastOutput 0 7]) = true ∧
      s.step (.processOutputs [lastOutput 0 7]) = .error .attributeError) [] (by simp) (by decide +kernel)
  exact ⟨s, hreach, legal_processOutputs_of_check hlegal, herror⟩

end AsyncLLM

end VllmPs
