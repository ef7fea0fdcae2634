import VllmPs.FrontEnd.Tracking

/-!
# Runs without resampling

In a run of the front end in which the effective sample size suffices at every boundary, each child of a
Power-SMC parent holds the tokens of its particle, and the completion that is returned belongs to the tokens
it is returned with. A resampling gives a child the tokens of another one.
-/

namespace VllmPs

open Lib OutputProcessor PowerSMCGroupManager ProcessLoop List Option AList

variable {D F : Type} [PyFloat F]

/-! ## The weights after a call -/

namespace PowerSMCGroupManager

variable {m m' : PowerSMCGroupManager F}

def observe (m : PowerSMCGroupManager F) (index : Option ℕ) (out : DeliveredOutput F) :
    PowerSMCGroupManager F :=
  match index, out.newTokenIds, out.powerSmcLogprobs with
  | some index, [token], some (base, proposal) =>
    match m.updateAfterToken index token base proposal (out.finishReason.map (·.toStr)) none with
    | .ok updated => updated.1
    | .error _ => m
  | _, _, _ => m

def SameWeights (m m' : PowerSMCGroupManager F) : Prop :=
  m'.particles = m.particles ∧ m'.config = m.config ∧
    m'.lastBoundaryCheckLength = m.lastBoundaryCheckLength

theorem SameWeights.essSuffices (h : m.SameWeights m') (hsuffices : m.EssSuffices) : m'.EssSuffices :=
  hsuffices.congr h.1 h.2.1 h.2.2.ge

theorem observe_of_none (m : PowerSMCGroupManager F) (out : DeliveredOutput F) : m.observe none out = m := by
  rfl

theorem observe_cases (m : PowerSMCGroupManager F) (index : Option ℕ) (out : DeliveredOutput F) :
    m.observe index out = m ∨ ∃ i token base proposal updated flag, index = some i ∧
      out.newTokenIds = [token] ∧ out.powerSmcLogprobs = some (base, proposal) ∧
      m.updateAfterToken i token base proposal (out.finishReason.map (·.toStr)) none = .ok (updated, flag) ∧
      m.observe index out = updated := by
  unfold observe
  split
  case h_1 i token base proposal htokens hlogprobs =>
    cases hupdate : m.updateAfterToken i token base proposal (out.finishReason.map (·.toStr)) none with
    | error e => exact Or.inl rfl
    | ok updated => exact Or.inr ⟨i, token, base, proposal, updated.1, updated.2, rfl, htokens, hlogprobs, hupdate, rfl⟩
  case h_2 => exact Or.inl rfl

theorem observe_done (index : Option ℕ) (out : DeliveredOutput F)
    (h : ∃ particle ∈ m.particles, particle.done = true) :
    ∃ particle ∈ (m.observe index out).particles, particle.done = true := by
  rcases m.observe_cases index out with hsame | ⟨i, token, base, proposal, updated, flag, -, -, -, hupdate, hsame⟩
  · rwa [hsame]
  rw [hsame]
  obtain ⟨particle, hmem, hdone⟩ := h
  obtain ⟨j, hj⟩ := getElem?_of_mem hmem
  obtain ⟨old, hold, hgoes, rfl, -⟩ := updateAfterToken_eq_ok.mp hupdate
  have hne : i ≠ j := by
    rintro rfl
    obtain rfl := mem_unique hj hold
    simp [hgoes] at hdone
  refine ⟨particle, mem_of_getElem? (i := j) ?_, hdone⟩
  exact (getElem?_set_ne hne).trans hj

theorem SameWeights.observe (h : m.SameWeights m') (index : Option ℕ) (out : DeliveredOutput F) :
    (m.observe index out).SameWeights (m'.observe index out) := by
  obtain ⟨hparticles, hconfig, hlast⟩ := h
  unfold PowerSMCGroupManager.observe
  split
  case h_2 => exact ⟨hparticles, hconfig, hlast⟩
  case h_1 i token base proposal _ _ =>
    unfold updateAfterToken
    rw [hparticles, hconfig]
    cases m.particles[i]? with
    | none => exact ⟨hparticles, hconfig, hlast⟩
    | some particle =>
      dsimp only
      cases particle.done with
      | true => exact ⟨hparticles, hconfig, hlast⟩
      | false => exact ⟨congrArg (List.set · i _) hparticles, hconfig, hlast⟩

end PowerSMCGroupManager

namespace OutputProcessor

variable {p p' : OutputProcessor D F}
variable {m : PowerSMCGroupManager F}

def particleIndex (p : OutputProcessor D F) (q : String) (out : DeliveredOutput F) : Option ℕ :=
  match p.requestStates.lookup out.requestId with
  | some state => if state.parentReq = some q then some state.requestIndex else none
  | none => none

def observeAll (p : OutputProcessor D F) (q : String) (m : PowerSMCGroupManager F)
    (outs : List (DeliveredOutput F)) : PowerSMCGroupManager F :=
  outs.foldl (fun m out => m.observe (p.particleIndex q out) out) m

/-- At every boundary that the outputs of a call make due the effective sample size is large enough. -/
def EssSuffices (p : OutputProcessor D F) (outs : List (DeliveredOutput F)) : Prop :=
  ∀ q parent part, p.parents.lookup q = some parent → parent.powerSmc = some part →
    (p.observeAll q part.manager outs).EssSuffices

/-- The logprobs that the engine sends are those of its tokens. -/
def LogprobsMatch (p : OutputProcessor D F) (outs : List (DeliveredOutput F)) : Prop :=
  ∀ out ∈ outs, ∀ state processor, p.requestStates.lookup out.requestId = some state →
    state.logprobsProcessor = some processor → processor.Matches out

theorem observeAll_sameWeights {m' : PowerSMCGroupManager F} (h : m.SameWeights m') (q : String)
    {outs : List (DeliveredOutput F)}
    (hstates : ∀ out ∈ outs, p'.requestStates.lookup out.requestId = p.requestStates.lookup out.requestId) :
    (p.observeAll q m outs).SameWeights (p'.observeAll q m' outs) := by
  induction outs generalizing m m' with
  | nil => exact h
  | cons out rest ih =>
    have hindex : p'.particleIndex q out = p.particleIndex q out := by
      unfold particleIndex
      rw [hstates out mem_cons_self]
    unfold observeAll
    rw [foldl_cons, foldl_cons, hindex]
    exact ih (h.observe _ out) fun other hmem => hstates other (mem_cons_of_mem _ hmem)

theorem observeAll_done (h : ∃ particle ∈ m.particles, particle.done = true)
    (q : String) (outs : List (DeliveredOutput F)) :
    ∃ particle ∈ (p.observeAll q m outs).particles, particle.done = true := by
  induction outs generalizing m with
  | nil => exact h
  | cons out rest ih => exact ih (observe_done _ out h)

end OutputProcessor

namespace OutputProcessor.EssSuffices

variable {l l' : ProcessLoop D F} {out : DeliveredOutput F} {rest : List (DeliveredOutput F)}

theorem child_weights {q : String} {state : RequestState D F} {received : Received D F}
    {parent observed parent' : ParentRequest F} {asked : Bool} {made : MadeOutput D F}
    (hwf : l.processor.WellFormed none)
    (hstep : ProcessLoop.ChildStep l l' out q state received parent observed parent' asked made)
    {part' : PowerSMCPart F} (hpart' : parent'.powerSmc = some part') :
    ∃ part, parent.powerSmc = some part ∧ ((∃ particle ∈ part'.manager.particles, particle.done = true) ∨
        (part.manager.observe (l.processor.particleIndex q out) out).SameWeights part'.manager) := by
  obtain ⟨part, hpart, -⟩ := hstep.keepsParent.part hpart'
  obtain ⟨known, hknown, -, hknows⟩ := hwf.child _ state q hstep.lookup hstep.parentReq nofun
  obtain rfl := mem_unique hstep.lookupParent hknown
  -- making the completion keeps the weights
  obtain ⟨middle, hmiddle, hsame⟩ : ∃ middle, observed.powerSmc = some middle ∧
      middle.manager.SameWeights part'.manager := by
    rcases powerSmc_of_completion hstep.make hstep.madeParent with hsame | ⟨middle, hmiddle, -, hselected⟩
    · exact ⟨part', hsame.symm.trans hpart', rfl, rfl, rfl⟩
    · rw [← mem_unique hselected hpart']
      exact ⟨middle, hmiddle, rfl, rfl, rfl⟩
  refine ⟨part, hpart, ?_⟩
  have hindex : l.processor.particleIndex q out = some state.requestIndex := by
    rw [particleIndex, hstep.lookup]
    exact if_pos hstep.parentReq
  rw [hindex]
  rcases ParentRequest.observePowerSmcStep_spec hstep.observe with ⟨rfl, -, hnone | hnil⟩ |
    ⟨part₁, token, base, proposal, index, updated, _, hpart₁, htokens, hlogprobs, hlookup, hupdate, rfl, -⟩
  · simp [hnone] at hpart
  · obtain rfl := mem_unique hpart hmiddle
    refine Or.inr ?_
    unfold observe
    rwa [hnil]
  obtain rfl := mem_unique hpart hpart₁
  cases hmiddle
  have hknown' := hknows.index part hpart
  rw [hwf.key _ state hstep.lookup, hlookup] at hknown'
  cases hknown'
  obtain ⟨old, hold, hdone, rfl, -⟩ := updateAfterToken_eq_ok.mp hupdate
  have hset : part'.manager.particles = part.manager.particles.set state.requestIndex _ := hsame.1
  cases hfinish : received.finishReason with
  | some reason =>
    rw [hfinish] at hset
    refine Or.inl ⟨appendToken part.manager.config old token base proposal
      (some reason.toStr) (received.stopReason.map (·.toStr)), ?_, rfl⟩
    rw [hset]
    exact mem_of_getElem? (List.getElem?_set_self (List.getElem?_eq_some_iff.mp hold).1)
  | none =>
    -- the stop reason of a particle that goes on is not kept
    have hobserve : part.manager.observe (some state.requestIndex) out =
        part.manager.setParticle state.requestIndex
          (appendToken part.manager.config old token base proposal none none) := by
      unfold observe updateAfterToken
      rw [htokens, hlogprobs, RequestState.receive_none hstep.receive hfinish]
      dsimp only
      rw [hold]
      dsimp only
      rw [hdone]
      rfl
    rw [hobserve]
    rw [hfinish] at hset
    exact Or.inr ⟨hset, hsame.2.1, hsame.2.2⟩

/-- The remaining outputs of a call make no boundary due with a small effective sample size, either. -/
theorem step (h : l.processor.EssSuffices (out :: rest)) (hnot : out.requestId ∉ rest.map (·.requestId))
    (hwf : l.processor.WellFormed none) (hfits : ProcessLoop.Fits l.processor out)
    (hstep : l.processOutput out = .ok l') : l'.processor.EssSuffices rest := by
  have hstates : ∀ other ∈ rest, l'.processor.requestStates.lookup other.requestId =
      l.processor.requestStates.lookup other.requestId := by
    intro other hother
    refine lookup_other hwf hfits hstep fun heq => hnot ?_
    exact mem_map.mpr ⟨other, hother, heq⟩
  -- a parent whose child the output is not for
  have hapart {q : String} {parent : ParentRequest F} {part : PowerSMCPart F}
      (hparent : l.processor.parents.lookup q = some parent) (hpart : parent.powerSmc = some part)
      (hnone : l.processor.particleIndex q out = none) :
      (l'.processor.observeAll q part.manager rest).EssSuffices := by
    have hold := h q parent part hparent hpart
    rw [observeAll, foldl_cons, hnone, observe_of_none] at hold
    exact (observeAll_sameWeights ⟨rfl, rfl, rfl⟩ q hstates).essSuffices hold
  intro q parent' part' hparent' hpart'
  rcases processOutput_cases hwf hfits hstep with ⟨hnone, rfl⟩ | ⟨state, halone⟩ |
    ⟨r, state, received, parent, observed, changed, asked, made, hchild⟩
  · refine hapart hparent' hpart' ?_
    rw [particleIndex, hnone]
  · refine hapart (halone.parents ▸ hparent') hpart' ?_
    rw [particleIndex, halone.lookup]
    dsimp only
    rw [halone.alone]
    exact if_neg nofun
  rw [hchild.parents] at hparent'
  rcases eq_or_ne q r with rfl | hne
  · rw [lookup_insert] at hparent'
    cases hparent'
    obtain ⟨part, hpart, hdone | hsame⟩ := child_weights hwf hchild hpart'
    · exact essSuffices_of_done (observeAll_done hdone q rest)
    · exact (observeAll_sameWeights hsame q hstates).essSuffices (h q parent part hchild.lookupParent hpart)
  rw [lookup_insert_ne hne] at hparent'
  refine hapart hparent' hpart' ?_
  rw [particleIndex, hchild.lookup]
  dsimp only
  rw [hchild.parentReq]
  exact if_neg fun heq => hne (some.inj heq).symm

end OutputProcessor.EssSuffices

namespace Tracks

variable {next : String → ℕ} {p p' : OutputProcessor D F} {emitted emitted' : List (Emission F)}
  {l l' : ProcessLoop D F} {outs : List (DeliveredOutput F)}

theorem processAll (hnodup : (outs.map (·.requestId)).Nodup)
    (h : Tracks next l.processor (emitted ++ l.emitted)) (hwf : l.processor.WellFormed none)
    (hown : l.processor.OwnQueues) (hfits : ∀ out ∈ outs, ProcessLoop.Fits l.processor out)
    (hmatch : l.processor.LogprobsMatch outs) (hess : l.processor.EssSuffices outs)
    (hrun : outs.foldlM ProcessLoop.processOutput l = .ok l') :
    Tracks next l'.processor (emitted ++ l'.emitted) ∧ l'.processor.WellFormed none ∧
      l'.processor.EssSuffices [] := by
  obtain ⟨⟨htracks, -, hess⟩, hl, -⟩ := OwnQueues.processAll_rule (P := fun outs l =>
    Tracks next l.processor (emitted ++ l.emitted) ∧ l.processor.LogprobsMatch outs ∧ l.processor.EssSuffices outs)
    (fun l l' out rest ⟨h, hmatch, hess⟩ hwf hown hout hnot hstep =>
      ⟨h.processOutput hwf hown hout (hmatch out mem_cons_self) hstep, fun other hmem state processor hstate => by
        rw [lookup_other hwf hout hstep fun heq => hnot (mem_map.mpr ⟨other, hmem, heq⟩)] at hstate
        exact hmatch other (mem_cons_of_mem _ hmem) state processor hstate, hess.step hnot hwf hout hstep⟩)
    hnodup ⟨h, hmatch, hess⟩ hwf hown hfits hrun
  exact ⟨htracks, hl, hess⟩

theorem finishCall (h : Tracks next l.processor emitted) (hwf : l.processor.WellFormed none)
    (hess : l.processor.EssSuffices []) (hfinish : l.finishCall = .ok p') : Tracks next p' emitted := by
  refine (finishCall_rule (P := fun p => Tracks next p emitted ∧ p.EssSuffices []) ⟨h, hess⟩ hwf
    (fun p q parent parent' hp hwf hparent hnew => ?_) hfinish).1.1
  have hid := hnew.keeps.requestId.trans (hwf.parentKey q parent hparent)
  -- the manager has the same particles, and enough of them
  have hmanager (part' : PowerSMCPart F) (hpart' : parent'.powerSmc = some part') :
      ∃ part, parent.powerSmc = some part ∧ part'.manager.particles = part.manager.particles ∧
        part'.manager.EssSuffices := by
    obtain ⟨part, hpart, ⟨flag, hmaybe⟩ | ⟨event, heq⟩⟩ := hnew.redone part' hpart'
    · exact ⟨part, hpart, (hp.2 q parent part hparent hpart).maybeResample hmaybe⟩
    · rw [heq]
      exact ⟨part, hpart, rfl, (hp.2 q parent part hparent hpart).congr rfl rfl le_rfl⟩
  refine ⟨hp.1.setManager hparent hid hnew.aggregator fun part' hpart' => ?_, fun r other part' hother hpart' => ?_⟩
  · obtain ⟨part, hpart, -, -, hconfig⟩ := hnew.keeps.part hpart'
    obtain ⟨part₁, hpart₁, hparticles, -⟩ := hmanager part' hpart'
    obtain rfl := mem_unique hpart hpart₁
    exact ⟨part, hpart, hparticles, hconfig⟩
  rw [setParent, hid] at hother
  rcases Table.lookup_insert_cases hother with ⟨rfl, rfl⟩ | ⟨-, hother⟩
  · obtain ⟨part, -, -, hsuffices⟩ := hmanager part' hpart'
    exact hsuffices
  · exact hp.2 r other part' hother hpart'

theorem addChild {q : String} {parent : ParentRequest F} {state : RequestState D F} {i : ℕ}
    (h : Tracks next p emitted) (hwf : p.WellFormed none) (hi : i < parent.n)
    (hold : (p.parents.lookup q = some parent ∧ next q = i) ∨
      (p.parents.lookup q = none ∧ i = 0 ∧ parent.IsNew ∧ ∀ e ∈ emitted, e.queue ≠ some q))
    (hfresh : p.requestStates.lookup (parent.childRequestId i) = none)
    (hreq : state.parentReq = some q) (hindex : state.requestIndex = i) (hfollows : state.Follows [])
    (hstates : p'.requestStates = p.requestStates.insert (parent.childRequestId i) state)
    (hparents : p'.parents = p.parents.insert q (parent.getChildInfo i).1) :
    Tracks (Function.update next q (i + 1)) p' emitted := by
  intro r other part' hr hpart'
  rw [hstates]
  rw [hparents] at hr
  rcases Table.lookup_insert_cases hr with ⟨rfl, rfl⟩ | ⟨hne, hr⟩
  · obtain ⟨part, hpart, rfl⟩ := Option.map_eq_some_iff.mp hpart'
    rw [Function.update_self]
    -- the parent before the child
    have hbefore : TracksParent p.requestStates emitted r i parent.outputAggregator part.manager := by
      rcases hold with ⟨hparent, rfl⟩ | ⟨hnone, -, hnew, hqueue⟩
      · exact h r parent part hparent hpart
      refine ⟨hnew.unselected.1 part hpart, fun a s hs hsreq => ?_, fun j c hc => absurd hc (hnew.unselected.2.1 j c),
        fun j particle _ hget => hnew.unstarted part hpart particle (mem_of_getElem? hget),
        fun e he heq => absurd heq (hqueue e he)⟩
      obtain ⟨_, hlive, -⟩ := hwf.child a s r hs hsreq nofun
      simp [hnone] at hlive
    refine ⟨hbefore.length, fun a s hs hsreq => ?_, fun j c hc => ?_,
      fun j particle hj => hbefore.fresh j particle ((Nat.le_succ i).trans hj), hbefore.emission⟩
    · rcases Table.lookup_insert_cases hs with ⟨rfl, rfl⟩ | ⟨-, hs⟩
      · have hlt : i < part.manager.particles.length := by
          rw [hbefore.length]
          rwa [ParentRequest.n, hpart] at hi
        obtain ⟨htokens, hdone⟩ := hbefore.fresh i _ le_rfl (getElem?_eq_getElem hlt)
        rw [hindex]
        refine ⟨_, getElem?_eq_getElem hlt, hdone, htokens ▸ hfollows, Nat.lt_succ_self i, fun c hc => ?_⟩
        exact lt_irrefl i (hbefore.ended i c hc).1
      · obtain ⟨particle, hparticle, hgoes, hown, hlt, hunended⟩ := hbefore.live a s hs hsreq
        exact ⟨particle, hparticle, hgoes, hown, hlt.trans (Nat.lt_succ_self _), hunended⟩
    · obtain ⟨hlt, hbelongs⟩ := hbefore.ended j c hc
      exact ⟨hlt.trans (Nat.lt_succ_self i), hbelongs⟩
  rw [Function.update_of_ne hne]
  rw [← append_nil emitted]
  refine (h r other part' hr hpart').frame (fun a s hs hsreq => ?_) (by simp)
  rcases Table.lookup_insert_cases hs with ⟨-, rfl⟩ | ⟨-, hs⟩
  · exact absurd (mem_unique hsreq hreq) hne
  · exact hs

theorem abortRequest {done done' : Processed D F} {parents parents' : List String} {requestId : RequestId}
    (h : Tracks next done.processor (emitted ++ done.emitted)) (hwf : done.processor.WellFormed none)
    (hown : done.processor.OwnQueues) (hstep : abortRequest (done, parents) requestId = .ok (done', parents')) :
    Tracks next done'.processor (emitted ++ done'.emitted) := by
  rcases abortRequest_cases hwf hstep with rfl |
    ⟨state, hstate, hstates, hparents, hemitted⟩ | ⟨q, state, parent, parent', made, hmove⟩
  · exact h
  · have hself : ∀ s, done'.processor.requestStates.lookup requestId = some s → s.parentReq = none := by
      intro s hs
      simp [hstates, lookup_erase] at hs
    have hother : ∀ a, a ≠ requestId → done'.processor.requestStates.lookup a =
        done.processor.requestStates.lookup a := by
      intro a hne
      rw [hstates, lookup_erase_ne hne]
    rcases hemitted with ⟨-, hsame⟩ | ⟨halone, outputs, hemitted, hqueue⟩
    · have hnothing : emitted ++ done'.emitted = emitted ++ done.emitted ++ [] := by rw [hsame, append_nil]
      exact h.other hparents hother hself hnothing fun _ he => nomatch he
    exact h.other hparents hother hself (by rw [hemitted, append_assoc])
      fun e he q heq => hown.foreign hstate halone ((hqueue e he).symm.trans heq)
  refine move hwf hmove.lookup hmove.parentReq hmove.lookupParent (.refl state) hmove.keepsParent rfl
    (fun part hpart => ?_) hmove.make hmove.madeParent
    (RequestState.makeRequestOutput_spec hmove.make).1 (fun a hne => ?_) ?_
    (by rw [hmove.emitted, append_assoc]) h hown hmove.parents
  · obtain ⟨particle, hparticle, hgoes, hfollows, -⟩ :=
      (h q parent part hmove.lookupParent hpart).live _ state hmove.lookup hmove.parentReq
    obtain ⟨hlt, hget⟩ := List.getElem?_eq_some_iff.mp hparticle
    refine ⟨part, particle, hpart, rfl, ?_, hfollows, fun _ => hgoes, fun hdone => ?_⟩
    · rw [← hget, set_getElem_self]
    · simp [hgoes] at hdone
  · rw [hmove.states, lookup_erase_ne hne]
  · rw [hmove.states, lookup_erase]
    rfl

end Tracks

/-! ## Runs -/

theorem OutputProcessor.fromNewRequest_follows (p : OutputProcessor D F) (request : FrontEndRequest)
    (prompt parentReq : Option String) (index : ℕ) (queue : Option String)
    (hparams : request.samplingParams.isSome = true) :
    (p.fromNewRequest request prompt parentReq index queue).Follows [] := by
  obtain ⟨params, hparams⟩ := Option.isSome_iff_exists.mp hparams
  unfold fromNewRequest
  rw [hparams]
  refine ⟨⟨_, rfl, rfl⟩, _, rfl, fun positions hpositions => ?_, ?_⟩
  · obtain ⟨_, -, rfl⟩ := Option.map_eq_some_iff.mp hpositions
    rfl
  · cases params.numLogprobs <;> rfl

namespace AsyncLLM

variable {s s' : AsyncLLM D F}

/-- The engine sends the logprobs of its tokens where they are asked for. -/
def LogprobsFit (s : AsyncLLM D F) : FrontEndOp F → Prop
  | .processOutputs outs => s.processor.LogprobsMatch outs
  | _ => True

/-- The effective sample size is large enough at every boundary that a call makes due. -/
def WeightsSuffice (s : AsyncLLM D F) : FrontEndOp F → Prop
  | .processOutputs outs => s.processor.EssSuffices outs
  | _ => True

/-- Children and particles agree, and the front end knows its children. -/
structure Tracked (s : AsyncLLM D F) : Prop where
  wellFormed : s.WellFormed
  tracks : Tracks s.created s.processor s.emitted

theorem Tracked.createChild (hs : s.Tracked) {parent : ParentRequest F} {fan : FanOut}
    (h : s.Creates s' parent fan) : s'.Tracked := by
  obtain ⟨state, hstate, hstates, hparents, hfans, hemitted⟩ := h.spec
  refine ⟨hs.wellFormed.createChild h, ?_⟩
  rw [created_insert hfans, hemitted]
  refine hs.tracks.addChild hs.wellFormed.processor h.next (h.old.imp_right fun hnew =>
    ⟨hnew.1, hnew.2.1, hnew.2.2.1, hnew.2.2.2.2⟩) h.fresh ?_ ?_ ?_ hstates hparents
  all_goals rw [hstate]
  · rfl
  · rfl
  · exact fromNewRequest_follows _ _ _ _ _ _ rfl

theorem Tracked.step {op : FrontEndOp F} (hs : s.Tracked) (hlegal : s.Legal op) (hfit : s.LogprobsFit op)
    (hsuffice : s.WeightsSuffice op) (h : s.step op = .ok s') : s'.Tracked := by
  have hwf := hs.wellFormed.step hlegal h
  cases op with
  | addRequest request prompt =>
    obtain ⟨⟨p', announced⟩, hadd, rfl⟩ := bind_pure_eq_ok.mp h
    obtain ⟨hparents, hafter⟩ := addRequest_spec hs.wellFormed.processor hlegal.1 hadd
    obtain ⟨hother, halone⟩ := lookup_alone hafter
    exact ⟨hwf, hs.tracks.other hparents hother halone (append_nil _).symm nofun⟩
  | fanOut parent request prompt => exact hs.createChild (creates_fanOut hlegal h)
  | nextChild q =>
    obtain ⟨parent, fan, hchild⟩ := hs.wellFormed.creates_nextChild hlegal h
    exact hs.createChild hchild
  | processOutputs outs =>
    obtain ⟨processed, hprocess, rfl⟩ := bind_pure_eq_ok.mp h
    obtain ⟨l, hloop, hprocess⟩ := bind_eq_ok.mp hprocess
    obtain ⟨p', hfinish, rfl⟩ := bind_pure_eq_ok.mp hprocess
    have hstart : Tracks s.created s.processor (s.emitted ++ []) := by
      rw [append_nil]
      exact hs.tracks
    obtain ⟨htracks, hl, hess⟩ := Tracks.processAll (l := { processor := s.processor }) hlegal.1 hstart
      hs.wellFormed.processor hs.wellFormed.queues hlegal.2 hfit hsuffice hloop
    exact ⟨hwf, htracks.finishCall hl hess hfinish⟩
  | abort requestIds internal =>
    obtain ⟨processed, habort, rfl⟩ := bind_pure_eq_ok.mp h
    have hstart : Tracks s.created s.processor (s.emitted ++ []) := by
      rw [append_nil]
      exact hs.tracks
    refine ⟨hwf, (abortRequests_rule (P := fun done : Processed D F =>
      Tracks s.created done.processor (s.emitted ++ done.emitted) ∧ done.processor.WellFormed none ∧
        done.processor.OwnQueues)
      (fun done p hdone hsame => ⟨hdone.1.congr hsame.1 hsame.2, hdone.2.1.congr hsame.1 hsame.2,
        hdone.2.2.congr hsame.1 hsame.2⟩)
      (fun state id hdone _ hstep => ⟨hdone.1.abortRequest hdone.2.1 hdone.2.2 hstep,
        abortRequest_wellFormed hdone.2.1 hstep, hdone.2.2.abortRequest hdone.2.1 hstep⟩)
      ⟨hstart, hs.wellFormed.processor, hs.wellFormed.queues⟩ habort).1⟩

theorem Tracked.of_reachable
    (h : Reachable AsyncLLM.Initial (fun s op => AsyncLLM.Legal s op ∧ s.LogprobsFit op ∧ s.WeightsSuffice op)
      AsyncLLM.step s) : s.Tracked := by
  refine h.invariant (fun s hinit => ?_) fun s op s' hs hok hstep => hs.step hok.1 hok.2.1 hok.2.2 hstep
  refine ⟨.of_reachable (.start hinit), fun q parent part hparent => ?_⟩
  simp [hinit.2.1] at hparent

/-- In every run in which the effective sample size is large enough at every boundary, each live child of
a Power-SMC parent holds the tokens of its particle, and the completion returned is that of the child of a
particle, whose logprobs and finish reasons belong to the tokens it is returned with. -/
theorem children_follow_particles {s : AsyncLLM D F}
    (h : Reachable AsyncLLM.Initial (fun s op => AsyncLLM.Legal s op ∧ s.LogprobsFit op ∧ s.WeightsSuffice op)
      AsyncLLM.step s) :
    (∀ id state q parent part, s.processor.requestStates.lookup id = some state → state.parentReq = some q →
      s.processor.parents.lookup q = some parent → parent.powerSmc = some part →
      ∃ particle, part.manager.particles[state.requestIndex]? = some particle ∧
        state.Follows particle.tokenIds) ∧
    ∀ e ∈ s.emitted, ∀ q parent part, e.queue = some q → s.processor.parents.lookup q = some parent →
      parent.powerSmc = some part → ∃ (i : ℕ) (output : CompletionOutput F),
        ∃ particle promptLogprobs diagnostics,
          e.output.body = .completions [some output] promptLogprobs diagnostics ∧
          part.manager.particles[i]? = some particle ∧ output.BelongsTo particle := by
  have hs := Tracked.of_reachable h
  refine ⟨fun id state q parent part hstate hreq hparent hpart => ?_, fun e he q parent part heq hparent hpart => ?_⟩
  · obtain ⟨particle, hparticle, -, hfollows, -⟩ := (hs.tracks q parent part hparent hpart).live id state hstate hreq
    exact ⟨particle, hparticle, hfollows⟩
  have htracks := hs.tracks q parent part hparent hpart
  obtain ⟨i, c, text, promptLogprobs, diagnostics, hc, hbody⟩ := htracks.emission e he heq
  obtain ⟨-, particle, hparticle, hbelongs⟩ := htracks.ended i c hc
  exact ⟨i, _, particle, promptLogprobs, diagnostics, hbody, hparticle, hbelongs.tokenIds, hbelongs.logprobs,
    hbelongs.finished, hbelongs.reasons⟩

end AsyncLLM

/-! ## Two particles with logprobs -/

instance (m : PowerSMCGroupManager F) : Decidable m.EssSuffices :=
  decidable_of_iff (∀ boundary ∈ m.eligibleResampleBoundary.1, m.eligibleResampleBoundary.2 = false →
      m.lastBoundaryCheckLength < boundary →
      ∀ states ∈ (m.particles.mapM fun particle : PowerSMCParticleState F => particle.stateAt boundary).toOption,
        PyFloat.le (m.config.essThreshold * (m.config.particles : F))
          (boundaryWeights m.config.particles (states.map (·.logWeight))).2 = true)
    ⟨fun h boundary states hboundary hdue hstates =>
      h boundary (by rw [hboundary]; rfl) (by rw [hboundary]) hdue states (by rw [hstates]; rfl),
    fun h boundary hboundary hdone hdue states hstates => by
      refine h boundary states (Prod.ext hboundary hdone) hdue ?_
      cases hmap : m.particles.mapM fun particle => particle.stateAt boundary with
      | error e => rw [hmap] at hstates; cases hstates
      | ok found => rw [hmap] at hstates; rw [some.inj hstates]⟩

instance (p : OutputProcessor D F) (outs : List (DeliveredOutput F)) : Decidable (p.EssSuffices outs) :=
  decidable_of_iff (∀ entry ∈ p.parents.entries, ∀ part ∈ entry.2.powerSmc,
      (p.observeAll entry.1 part.manager outs).EssSuffices)
    ⟨fun h q parent part hparent hpart => h ⟨q, parent⟩ (AList.mem_lookup_iff.mp hparent) part hpart,
      fun h entry hentry part hpart => h entry.1 entry.2 part (AList.mem_lookup_iff.mpr hentry) hpart⟩

instance (p : OutputProcessor D F) (outs : List (DeliveredOutput F)) : Decidable (p.LogprobsMatch outs) :=
  decidable_of_iff (∀ out ∈ outs, ∀ state ∈ p.requestStates.lookup out.requestId,
      ∀ processor ∈ state.logprobsProcessor, processor.logprobs.isSome = true →
        (out.newLogprobs.getD []).map (·.tokenIds.head?) = out.newTokenIds.map some)
    ⟨fun h out hout state processor hstate hprocessor => h out hout state hstate processor hprocessor,
      fun h out hout state hstate processor hprocessor => h out hout state processor hstate hprocessor⟩

namespace AsyncLLM

instance (s : AsyncLLM D F) (op : FrontEndOp F) : Decidable (s.LogprobsFit op) :=
  match op with
  | .processOutputs outs => inferInstanceAs (Decidable (s.processor.LogprobsMatch outs))
  | .abort _ _ => isTrue trivial
  | .addRequest _ _ => isTrue trivial
  | .fanOut _ _ _ => isTrue trivial
  | .nextChild _ => isTrue trivial

instance (s : AsyncLLM D F) (op : FrontEndOp F) : Decidable (s.WeightsSuffice op) :=
  match op with
  | .processOutputs outs => inferInstanceAs (Decidable (s.processor.EssSuffices outs))
  | .abort _ _ => isTrue trivial
  | .addRequest _ _ => isTrue trivial
  | .fanOut _ _ _ => isTrue trivial
  | .nextChild _ => isTrue trivial

/-- Two particles with logprobs, of which the second one is selected. -/
def scoredPair : ParentRequest ℚ :=
  .newPowerSmc "p" "p" { numLogprobs := some 0 } ⟨1, 2, 2, 1, 1, true⟩ false fun _ => 3 / 4

theorem scoredPair_isNew : scoredPair.IsNew :=
  ⟨by decide, Or.inr ⟨_, _, _, _, _, _, by decide +kernel, rfl⟩⟩

def scoredOutput (index : ℕ) (token : Token) (proposalLogq : ℚ) (finishReason : Option FinishReason) :
    DeliveredOutput ℚ :=
  { tokenOutput index token proposalLogq with
    finishReason := finishReason
    newLogprobs := some [⟨[token], [-1], 1⟩] }

def scoredTokens (s : AsyncLLM Unit ℚ) : Option (List (List Token)) × List (List Token × List Token) :=
  (pairTokens s.processor, [0, 1].filterMap fun index => do
    let state ← s.processor.requestStates.lookup (scoredPair.childRequestId index)
    let detokenizer ← state.detokenizer
    let processor ← state.logprobsProcessor
    let positions ← processor.logprobs
    return (detokenizer.tokenIds, LogprobsProcessor.describedTokens positions))

def scoredCompletions (s : AsyncLLM Unit ℚ) : List (List Token × List Token) :=
  s.emitted.flatMap fun e =>
    match e.output.body with
    | .completions outputs _ _ => outputs.reduceOption.map fun output =>
        (output.tokenIds, LogprobsProcessor.describedTokens (output.logprobs.getD []))
    | .pooling _ => []

/-- Both particles come to a boundary with equal weights, and end. -/
theorem scoredPair_follows : ∃ s : AsyncLLM Unit ℚ, scoredCompletions s = [([5, 6, 4], [5, 6, 4])] ∧
    ∀ e ∈ s.emitted, ∀ q parent part, e.queue = some q → s.processor.parents.lookup q = some parent →
      parent.powerSmc = some part → ∃ (i : ℕ) (output : CompletionOutput ℚ),
        ∃ particle promptLogprobs diagnostics,
          e.output.body = .completions [some output] promptLogprobs diagnostics ∧
          part.manager.particles[i]? = some particle ∧ output.BelongsTo particle := by
  obtain ⟨s, hreach, hs⟩ := exists_of_fanOut (C := fun s op => s.LogprobsFit op ∧ s.WeightsSuffice op)
    (fun _ _ => And.intro) scoredPair_isNew (P := fun s => scoredCompletions s = [([5, 6, 4], [5, 6, 4])])
    [.nextChild "p", .processOutputs [scoredOutput 0 7 0 none, scoredOutput 1 5 0 none],
      .processOutputs [scoredOutput 0 8 0 none, scoredOutput 1 6 0 none],
      .processOutputs [scoredOutput 0 9 0 (some .length), scoredOutput 1 4 0 (some .length)]] (by simp)
    (by decide +kernel)
  exact ⟨s, hs, (children_follow_particles hreach).2⟩

/-- The second particle has no weight at the first boundary and takes over the tokens of the first one.
Its child keeps its own tokens and logprobs, and when it is selected the completion has the tokens of the
one and the logprobs of the other. -/
theorem resampled_child_keeps_tokens : (∃ s : AsyncLLM Unit ℚ,
      Reachable AsyncLLM.Initial (fun s op => AsyncLLM.Legal s op ∧ s.LogprobsFit op) AsyncLLM.step s ∧
      scoredTokens s = (some [[7, 8], [7, 8]], [([7, 8], [7, 8]), ([5, 6], [5, 6])])) ∧
    ∃ s : AsyncLLM Unit ℚ,
      Reachable AsyncLLM.Initial (fun s op => AsyncLLM.Legal s op ∧ s.LogprobsFit op) AsyncLLM.step s ∧
      scoredCompletions s = [([7, 8, 4], [5, 6, 4])] := by
  exact ⟨exists_of_fanOut (C := AsyncLLM.LogprobsFit) (fun _ _ => And.intro) scoredPair_isNew
    [.nextChild "p", .processOutputs [scoredOutput 0 7 0 none, scoredOutput 1 5 1000 none],
      .processOutputs [scoredOutput 0 8 0 none, scoredOutput 1 6 0 none]] (by simp) (by decide +kernel),
    exists_of_fanOut (C := AsyncLLM.LogprobsFit) (fun _ _ => And.intro) scoredPair_isNew
      [.nextChild "p", .processOutputs [scoredOutput 0 7 0 none, scoredOutput 1 5 1000 none],
        .processOutputs [scoredOutput 0 8 0 none, scoredOutput 1 6 0 none],
        .processOutputs [scoredOutput 0 9 0 (some .length), scoredOutput 1 4 0 (some .length)]] (by simp)
      (by decide +kernel)⟩

end AsyncLLM

end VllmPs
