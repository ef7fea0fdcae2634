import VllmPs.FrontEnd.AsyncLLM

/-!
# Completeness of the fan-out

A parent takes an empty set of children for the end of its request, while `add_request` still creates children.
As long as one child is left until the last one is created, the parent reports the end once, and every particle
that can be selected has an output.
-/

namespace VllmPs

open Lib ParentRequest ProcessLoop List Option AList

variable {D F : Type} [PyFloat F]
variable {parent : ParentRequest F}

/-! ## Outputs that do not end a request -/

def RequestState.GoesOn (tokenizer : TokenizerLike D) (state : RequestState D F) (out : DeliveredOutput F) :
    Prop :=
  out.finishReason = none ∧ ∀ d, state.detokenizer = some d →
    (d.update tokenizer out.newTokenIds false).2.filter (· ≠ []) = none

theorem RequestState.receive_goesOn {tokenizer : TokenizerLike D} {state : RequestState D F}
    {out : DeliveredOutput F} {received : Received D F} (hgoes : state.GoesOn tokenizer out)
    (h : state.receive tokenizer out = .ok received) : received.finishReason = none := by
  obtain ⟨hfinish, hstop⟩ := hgoes
  unfold receive at h
  dsimp only at h
  set started : RequestState D F := if state.isPrefilling then _ else state with hstarted
  have hdetokenizer : started.detokenizer = state.detokenizer := by
    rw [hstarted]
    split_ifs <;> rfl
  split_ifs at h
  · cases h
    exact hfinish
  split at h
  case h_1 d _ hd _ =>
    obtain ⟨processor, -, h⟩ := bind_eq_ok.mp h
    have hnone := hstop d (hdetokenizer ▸ hd)
    rw [show decide (out.finishReason = some FinishReason.stop) = false by rw [hfinish]; rfl, hnone] at h
    cases h
    exact hfinish
  case h_2 => cases h

theorem ParentRequest.Keeps.n {parent' : ParentRequest F} (h : parent.Keeps parent') :
    parent'.n = parent.n := by
  unfold ParentRequest.n
  cases hpart' : parent'.powerSmc with
  | none =>
    have hindices := h.indices
    rw [hpart', map_none, eq_comm, map_eq_none_iff] at hindices
    rw [hindices, h.samplingParams]
  | some part' =>
    obtain ⟨part, hpart, -, -, hconfig⟩ := h.part hpart'
    rw [hpart]
    dsimp only
    rw [hconfig]

theorem ParentRequest.observePowerSmcStep_part {observed : ParentRequest F} {part : PowerSMCPart F}
    {id : RequestId} {tokenIds : List Token} {logprobs : Option (F × F)} {finish stop : Option String}
    {asked : Bool} (hpart : parent.powerSmc = some part)
    (h : parent.observePowerSmcStep id tokenIds logprobs finish stop = .ok (observed, asked)) :
    ∃ part', observed.powerSmc = some part' ∧ part'.manager.particles.length = part.manager.particles.length ∧
      part'.manager.chosenParticle = part.manager.chosenParticle := by
  rcases observePowerSmcStep_spec h with ⟨rfl, -, -⟩ |
    ⟨part₁, _, _, _, index, updated, _, hpart₁, -, -, -, hupdate, rfl, -⟩
  · exact ⟨part, hpart, rfl, rfl⟩
  · obtain rfl := mem_unique hpart hpart₁
    obtain ⟨particle, -, -, rfl, -⟩ := PowerSMCGroupManager.updateAfterToken_eq_ok.mp hupdate
    exact ⟨_, rfl, length_set, rfl⟩

/-! ## What holds while children are created and end -/

/-- The `i`-th child is live. -/
def OutputProcessor.LiveChild (p : OutputProcessor D F) (q : String) (parent : ParentRequest F) (i : ℕ) :
    Prop :=
  ∃ state, p.requestStates.lookup (parent.childRequestId i) = some state ∧ state.parentReq = some q ∧
    state.requestIndex = i

namespace FanOutComplete

/-- Of the particles of a parent `next` have a child. Each of these is live or has left its output, and the
selected particle has one. -/
structure Particles (next : ℕ) (p : OutputProcessor D F) (q : String) (parent : ParentRequest F)
    (m : PowerSMCGroupManager F) : Prop where
  created : ∀ i < next, p.LiveChild q parent i ∨ ∃ output, parent.outputAggregator[i]? = some (some output)
  length : m.particles.length = m.config.particles
  ended : ∀ (i : ℕ) (output : CompletionOutput F), parent.outputAggregator[i]? = some (some output) →
    output.finished = true
  chosen : ∀ i, m.chosenParticle = some i → ∃ output, parent.outputAggregator[i]? = some (some output)

structure At (next : ℕ) (p : OutputProcessor D F) (emitted : List (Emission F)) (q : String)
    (parent : ParentRequest F) : Prop where
  bound : 1 ≤ next ∧ next ≤ parent.n
  live : ∀ id ∈ parent.childRequests,
    ∃ state, p.requestStates.lookup id = some state ∧ state.parentReq = some q
  kept : next < parent.n → parent.childRequests ≠ []
  finished : ∀ e ∈ emitted, e.queue = some q → e.output.finished = true →
    next = parent.n ∧ parent.childRequests = []
  particles : ∀ part, parent.powerSmc = some part → Particles next p q parent part.manager
  reported : ∀ part, parent.powerSmc = some part →
    (emitted.filter fun e => e.queue = some q).length = (if parent.childRequests = [] then 1 else 0) ∧
      ∀ e ∈ emitted, e.queue = some q → e.output.finished = true ∧ ∃ output promptLogprobs diagnostics,
        e.output.body = .completions [some output] promptLogprobs diagnostics ∧ output.finished = true

end FanOutComplete

structure FanOutComplete (next : String → ℕ) (p : OutputProcessor D F) (emitted : List (Emission F)) :
    Prop where
  queue : ∀ id state q, p.requestStates.lookup id = some state → state.parentReq = some q →
    state.queue = some q
  parents : ∀ q parent, p.parents.lookup q = some parent → FanOutComplete.At (next q) p emitted q parent

namespace FanOutComplete

variable {next : String → ℕ} {p p' : OutputProcessor D F} {emitted emitted' : List (Emission F)}
variable {outputs : List (Option (CompletionOutput F))} {output : CompletionOutput F}
variable {q : String} {parent : ParentRequest F}

theorem At.frame {n : ℕ} (h : At n p emitted q parent)
    (hkept : ∀ a state, p.requestStates.lookup a = some state → state.parentReq = some q →
      p'.requestStates.lookup a = some state)
    (outputs : List (Emission F)) (hqueue : ∀ e ∈ outputs, e.queue ≠ some q) :
    At n p' (emitted ++ outputs) q parent := by
  have hold {e : Emission F} (he : e ∈ emitted ++ outputs) (heq : e.queue = some q) : e ∈ emitted :=
    (mem_append.mp he).resolve_right fun hnew => hqueue e hnew heq
  refine { h with
    live := fun a ha => ?_
    finished := fun e he heq => h.finished e (hold he heq) heq
    particles := fun part hpart => { h.particles part hpart with created := fun i hi => ?_ }
    reported := fun part hpart => ⟨?_, fun e he heq => (h.reported part hpart).2 e (hold he heq) heq⟩ }
  · obtain ⟨state, hstate, hreq⟩ := h.live a ha
    exact ⟨state, hkept a state hstate hreq, hreq⟩
  · refine ((h.particles part hpart).created i hi).imp_left ?_
    rintro ⟨state, hstate, hreq, hindex⟩
    exact ⟨state, hkept _ state hstate hreq, hreq, hindex⟩
  · have hnone : outputs.filter (fun e => e.queue = some q) = [] :=
      filter_eq_nil_iff.mpr fun e he => by simpa using hqueue e he
    rw [filter_append, hnone, append_nil]
    exact (h.reported part hpart).1

theorem alone (h : FanOutComplete next p emitted) (id : RequestId) (outputs : List (Emission F))
    (hparents : p'.parents = p.parents)
    (hother : ∀ a, a ≠ id → p'.requestStates.lookup a = p.requestStates.lookup a)
    (halone : ∀ state, p.requestStates.lookup id = some state → state.parentReq = none)
    (halone' : ∀ state, p'.requestStates.lookup id = some state → state.parentReq = none)
    (hemitted : emitted' = emitted ++ outputs)
    (hqueue : ∀ e ∈ outputs, ∀ q, e.queue = some q → p.parents.lookup q = none) :
    FanOutComplete next p' emitted' := by
  rw [hemitted]
  refine ⟨fun a state q hstate hreq => ?_, fun q parent hq => ?_⟩
  · rcases eq_or_ne a id with rfl | hne
    · simp [halone' state hstate] at hreq
    · exact h.queue a state q (hother a hne ▸ hstate) hreq
  rw [hparents] at hq
  refine (h.parents q parent hq).frame (fun a state hstate hreq => ?_) outputs fun e he heq => ?_
  · rw [hother a, hstate]
    rintro rfl
    simp [halone state hstate] at hreq
  · simp [hqueue e he q heq] at hq

theorem setManager (h : FanOutComplete next p emitted) {parent' : ParentRequest F}
    (hparent : p.parents.lookup q = some parent) (hid : parent'.requestId = q)
    (hkeeps : parent.Keeps parent') (hchildren : parent'.childRequests = parent.childRequests)
    (haggregator : parent'.outputAggregator = parent.outputAggregator)
    (hmanager : ∀ part part', parent.powerSmc = some part → parent'.powerSmc = some part' →
      part'.manager.particles.length = part.manager.particles.length ∧
        part'.manager.chosenParticle = part.manager.chosenParticle) :
    FanOutComplete next (p.setParent (some parent')) emitted := by
  refine ⟨h.queue, fun r other hother => ?_⟩
  rw [OutputProcessor.setParent, hid] at hother
  rcases Table.lookup_insert_cases hother with ⟨rfl, rfl⟩ | ⟨-, hother⟩
  · have hold := h.parents r parent hparent
    refine ⟨hkeeps.n ▸ hold.bound, hchildren ▸ hold.live, hkeeps.n ▸ hchildren ▸ hold.kept,
      hkeeps.n ▸ hchildren ▸ hold.finished, fun part' hpart' => ?_, fun part' hpart' => ?_⟩
    · obtain ⟨part, hpart, -, -, hconfig⟩ := hkeeps.part hpart'
      obtain ⟨hlength, hchosen⟩ := hmanager part part' hpart hpart'
      have hparticles := hold.particles part hpart
      refine ⟨fun i hi => ?_, ?_, haggregator ▸ hparticles.ended, ?_⟩
      · unfold OutputProcessor.LiveChild
        rw [hkeeps.childRequestId, haggregator]
        exact hparticles.created i hi
      · rw [hlength, hconfig]
        exact hparticles.length
      · rw [haggregator, hchosen]
        exact hparticles.chosen
    · obtain ⟨part, hpart, -⟩ := hkeeps.part hpart'
      rw [hchildren]
      exact hold.reported part hpart
  · have hold := h.parents r other hother
    exact { hold with particles := fun part hpart => { hold.particles part hpart with } }

variable {l l' : ProcessLoop D F} {out : DeliveredOutput F} {state : RequestState D F}
  {received : Received D F} {observed parent' : ParentRequest F} {asked : Bool} {made : MadeOutput D F}

omit [PyFloat F] in
theorem exists_set {index i : ℕ} (hlt : index < outputs.length) (h : ∃ old, outputs[i]? = some (some old)) :
    ∃ new, (outputs.set index (some output))[i]? = some (some new) := by
  rcases eq_or_ne index i with rfl | hne
  · exact ⟨output, getElem?_set_self hlt⟩
  · rwa [getElem?_set_ne hne]

omit [PyFloat F] in
theorem finished_of_set {index i : ℕ} {written : CompletionOutput F} (hwritten : written.finished = true)
    (hold : outputs[i]? = some (some output) → output.finished = true)
    (h : (outputs.set index (some written))[i]? = some (some output)) : output.finished = true := by
  rw [getElem?_set] at h
  split_ifs at h
  · obtain rfl := some.inj (some.inj h)
    exact hwritten
  · exact hold h

omit [PyFloat F] in
theorem mem_emitted {queue : Option String} {made : Option (FrontEnd.RequestOutput F)} {e : Emission F}
    (he : e ∈ emitted ++ made.toList.map (⟨queue, ·⟩)) :
    e ∈ emitted ∨ ∃ result, made = some result ∧ e.output = result := by
  refine (mem_append.mp he).imp_right fun he => ?_
  obtain ⟨result, hresult, rfl⟩ := mem_map.mp he
  exact ⟨result, Option.mem_toList.mp hresult, rfl⟩

section

variable (hstep : ProcessLoop.ChildStep l l' out q state received parent observed parent' asked made)
include hstep

theorem particle_step (hwf : l.processor.WellFormed none)
    {part' : PowerSMCPart F} (hpart' : parent'.powerSmc = some part') :
    ∃ part, parent.powerSmc = some part ∧ part'.manager.particles.length = part.manager.particles.length ∧
      ((received.finishReason = none ∧ made.output = none ∧ parent'.outputAggregator = parent.outputAggregator ∧
          part'.manager.chosenParticle = part.manager.chosenParticle) ∨
        ∃ output m, output.finished = true ∧ m.chosenParticle = part.manager.chosenParticle ∧
          state.EndsParticle parent parent' m part'.manager made.output output) := by
  obtain ⟨known, hknown, -, hknows⟩ := hwf.child _ state q hstep.lookup hstep.parentReq nofun
  obtain rfl := mem_unique hstep.lookupParent hknown
  obtain ⟨part, hpart, -⟩ := hstep.keepsParent.part hpart'
  obtain ⟨middle, hmiddle, hlength, hchosen⟩ := observePowerSmcStep_part hpart hstep.observe
  have haggregator := (observePowerSmcStep_keeps hstep.observe).2.2
  have hkeeps := RequestState.receive_meets.ensures hstep.receive
  refine ⟨part, hpart, ?_⟩
  rcases RequestState.makeRequestOutput_particle (hkeeps.outputKind.trans (hknows.kind (by simp [hpart]))) hmiddle
      hstep.make hstep.madeParent hpart' with ⟨hnone, rfl, hmade⟩ | ⟨output, _, _, hsome, hcompletes, hends⟩
  · obtain rfl := mem_unique hmiddle hpart'
    exact ⟨hlength, Or.inl ⟨hnone, by rw [hmade], haggregator, hchosen⟩⟩
  · refine ⟨by rw [hends.particles, hlength], Or.inr ⟨output, middle.manager, hcompletes.ended.trans hsome,
      hchosen, ?_⟩⟩
    exact { hends with
      aggregator := by rw [hends.aggregator, haggregator, hkeeps.requestIndex]
      index := hkeeps.requestIndex ▸ haggregator ▸ hends.index }

theorem childRequests_of_finished {result : FrontEnd.RequestOutput F} (hresult : made.output = some result)
    (hdone : result.finished = true) : parent'.childRequests = [] := by
  obtain ⟨-, hcases⟩ := RequestState.makeRequestOutput_spec hstep.make
  rcases hcases with ⟨-, -, hnone, -⟩ | ⟨parent₁, output, outputs, finished, hparent₁, hcompletes⟩
  · simp [hnone] at hresult
  obtain rfl := mem_unique hparent₁ hstep.madeParent
  obtain ⟨-, hchildren, hfinished, -⟩ := getOutputs_spec hcompletes.getOutputs
  rcases hcompletes.emitted with ⟨-, hnone⟩ | ⟨made₁, _, _, -, hmade₁, hdone₁, -⟩
  · simp [hnone] at hresult
  · obtain rfl := mem_unique hmade₁ hresult
    rwa [hchildren, ← List.isEmpty_iff, ← hfinished, ← hdone₁]

section

variable {n : ℕ} (hwf : l.processor.WellFormed none) (hold : At n l.processor emitted q parent)
include hwf hold

theorem At.live_step : ∀ id ∈ parent'.childRequests,
    ∃ state, l'.processor.requestStates.lookup id = some state ∧ state.parentReq = some q := by
  intro a ha
  rw [hstep.children] at ha
  split_ifs at ha with hfinished
  · have hne : a ≠ out.requestId := by
      rintro rfl
      exact (hwf.nodup q parent hstep.lookupParent).not_mem_erase ha
    rw [hstep.lookup_other hne]
    exact hold.live a (mem_of_mem_erase ha)
  rcases eq_or_ne a out.requestId with rfl | hne
  · refine ⟨made.state, by rw [hstep.lookup_self, if_neg hfinished], ?_⟩
    rw [hstep.keeps.parentReq, hstep.parentReq]
  · rw [hstep.lookup_other hne]
    exact hold.live a ha

variable {part' : PowerSMCPart F} (hpart' : parent'.powerSmc = some part')
include hpart'

theorem At.particles_step : Particles n l'.processor q parent' part'.manager := by
  obtain ⟨part, hpart, hlength, hparticle⟩ := particle_step hstep hwf hpart'
  have hparticles := hold.particles part hpart
  have hkept {i : ℕ} (hended : ∃ output, parent.outputAggregator[i]? = some (some output)) :
      ∃ output, parent'.outputAggregator[i]? = some (some output) := by
    rcases hparticle with ⟨-, -, haggregator, -⟩ | ⟨output, _, -, -, hends⟩
    · rwa [haggregator]
    · rw [hends.aggregator]
      exact exists_set hends.index hended
  refine ⟨fun i hi => ?_, ?_, fun i output houtput => ?_, fun i hchosen => ?_⟩
  · unfold OutputProcessor.LiveChild
    rw [hstep.keepsParent.childRequestId]
    rcases hparticles.created i hi with ⟨s, hs, hreq, hindex⟩ | hended
    · rcases eq_or_ne (parent.childRequestId i) out.requestId with heq | hne
      · -- the child of this output: it stays, or it leaves its output
        rw [heq] at hs ⊢
        obtain rfl := mem_unique hs hstep.lookup
        rcases hparticle with ⟨hnone, -⟩ | ⟨output, _, -, -, hends⟩
        · refine Or.inl ⟨made.state, by rw [hstep.lookup_self, hnone]; rfl, ?_, ?_⟩
          · rw [hstep.keeps.parentReq, hreq]
          · rw [hstep.keeps.requestIndex, hindex]
        · refine Or.inr ⟨output, ?_⟩
          rw [hends.aggregator, ← hindex, getElem?_set_self hends.index]
      · exact Or.inl ⟨s, by rw [hstep.lookup_other hne, hs], hreq, hindex⟩
    exact Or.inr (hkept hended)
  · obtain ⟨part₁, hpart₁, -, -, hconfig⟩ := hstep.keepsParent.part hpart'
    obtain rfl := mem_unique hpart hpart₁
    rw [hlength, hconfig]
    exact hparticles.length
  · rcases hparticle with ⟨-, -, haggregator, -⟩ | ⟨ending, _, hending, -, hends⟩
    · exact hparticles.ended i output (haggregator ▸ houtput)
    · rw [hends.aggregator] at houtput
      exact finished_of_set hending (hparticles.ended i output) houtput
  rcases hparticle with ⟨-, -, -, hsame⟩ | ⟨output, m, -, hm, hends⟩
  · exact hkept (hparticles.chosen i (hsame ▸ hchosen))
  rcases hends.selected with ⟨-, -, hsame⟩ | ⟨chosen, _, selected, _, _, _, _, -, hselect, -, hsome, -⟩
  · exact hkept (hparticles.chosen i (hm ▸ hsame ▸ hchosen))
  · obtain rfl := mem_unique hselect hchosen
    exact ⟨selected, hsome⟩

theorem At.reported_step (hqueue : state.queue = some q) (hnonempty : parent.childRequests ≠ [])
    (hemitted : emitted' = emitted ++ made.output.toList.map (⟨state.queue, ·⟩)) :
    (emitted'.filter fun e => e.queue = some q).length = (if parent'.childRequests = [] then 1 else 0) ∧
      ∀ e ∈ emitted', e.queue = some q → e.output.finished = true ∧ ∃ output promptLogprobs diagnostics,
        e.output.body = .completions [some output] promptLogprobs diagnostics ∧ output.finished = true := by
  subst hemitted
  obtain ⟨part, hpart, -, hparticle⟩ := particle_step hstep hwf hpart'
  obtain ⟨honce, hsingle⟩ := hold.reported part hpart
  rw [filter_append, length_append, honce, if_neg hnonempty]
  rcases hparticle with ⟨hnone, hquiet, -⟩ | ⟨output, _, houtput, -, haggregator, -, -, -, ⟨hquiet, hsome, -⟩ |
    ⟨chosen, particle, selected, result, text, promptLogprobs, diagnostics, hnil, -, -, hsome, hresult, hdone, hbody⟩⟩
  · have hsome : parent'.childRequests ≠ [] := by
      rw [hstep.children, hnone]
      exact hnonempty
    simpa [hquiet, hsome] using hsingle
  · simpa [hquiet, hsome] using hsingle
  rw [hresult, if_pos hnil, hqueue]
  refine ⟨by simp, fun e he heq => ?_⟩
  rcases mem_emitted he with hmem | ⟨_, ⟨⟩, rfl⟩
  · exact hsingle e hmem heq
  refine ⟨hdone, _, promptLogprobs, diagnostics, hbody, ?_⟩
  rw [haggregator] at hsome
  change selected.finished = true
  exact finished_of_set houtput ((hold.particles part hpart).ended chosen selected) hsome

end

theorem child (h : FanOutComplete next l.processor emitted) (hwf : l.processor.WellFormed none)
    (hleft : next q < parent.n → parent'.childRequests ≠ []) :
    FanOutComplete next l'.processor (emitted ++ made.output.toList.map (⟨state.queue, ·⟩)) := by
  obtain ⟨known, hknown, hmem, -⟩ := hwf.child _ state q hstep.lookup hstep.parentReq nofun
  obtain rfl := mem_unique hstep.lookupParent hknown
  have hold := h.parents q parent hknown
  have hkeeps := hstep.keepsParent
  have hnonempty : parent.childRequests ≠ [] := ne_nil_of_mem hmem
  have hqueue : state.queue = some q := h.queue _ state q hstep.lookup hstep.parentReq
  refine ⟨fun a s r hs hreq => ?_, fun r other hr => ?_⟩
  · rcases eq_or_ne a out.requestId with rfl | hne
    · rw [hstep.lookup_self] at hs
      split_ifs at hs
      cases hs
      rw [hstep.keeps.queue, hqueue, ← hstep.parentReq, ← hstep.keeps.parentReq, hreq]
    · exact h.queue a s r (hstep.lookup_other hne ▸ hs) hreq
  rw [hstep.parents] at hr
  rcases Table.lookup_insert_cases hr with ⟨rfl, rfl⟩ | ⟨hne, hr⟩
  · refine ⟨hkeeps.n ▸ hold.bound, At.live_step hstep hwf hold, hkeeps.n ▸ hleft, fun e he heq hdone => ?_,
      fun part' => At.particles_step hstep hwf hold,
      fun part' hpart' => At.reported_step hstep hwf hold hpart' hqueue hnonempty rfl⟩
    rw [hkeeps.n]
    rcases mem_emitted he with hmem | ⟨result, hresult, rfl⟩
    · exact absurd (hold.finished e hmem heq hdone).2 hnonempty
    · have hnil := childRequests_of_finished hstep hresult hdone
      refine ⟨?_, hnil⟩
      by_contra hne
      exact hleft (lt_of_le_of_ne hold.bound.2 hne) hnil
  refine (h.parents r other hr).frame (fun a s hs hreq => ?_) _ fun e he heq => ?_
  · rw [hstep.lookup_other, hs]
    rintro rfl
    obtain rfl := mem_unique hs hstep.lookup
    exact hne (mem_unique hreq hstep.parentReq)
  · obtain ⟨result, -, rfl⟩ := mem_map.mp he
    exact hne (mem_unique heq hqueue)

end

end FanOutComplete

/-! ## Calls of `process_outputs` -/

def KeepsOne (next : String → ℕ) (p : OutputProcessor D F) (outs : List (DeliveredOutput F)) : Prop :=
  ∀ q parent, p.parents.lookup q = some parent → next q < parent.n → ∃ id ∈ parent.childRequests,
    ∀ out ∈ outs, out.requestId = id → ∀ state, p.requestStates.lookup id = some state →
      state.GoesOn p.tokenizer out

namespace KeepsOne

variable {next : String → ℕ} {l l' : ProcessLoop D F} {out : DeliveredOutput F}
  {rest : List (DeliveredOutput F)}

theorem left {q : String} {state : RequestState D F} {received : Received D F}
    {parent observed parent' : ParentRequest F} {asked : Bool} {made : MadeOutput D F}
    (h : KeepsOne next l.processor (out :: rest))
    (hstep : ProcessLoop.ChildStep l l' out q state received parent observed parent' asked made)
    (hearly : next q < parent.n) :
    ∃ id ∈ parent'.childRequests, ∀ other ∈ out :: rest, other.requestId = id → ∀ state,
      l.processor.requestStates.lookup id = some state → state.GoesOn l.processor.tokenizer other := by
  obtain ⟨id, hmem, hgoes⟩ := h q parent hstep.lookupParent hearly
  refine ⟨id, ?_, hgoes⟩
  rw [hstep.children]
  split_ifs with hfinished
  · refine (mem_erase_of_ne ?_).mpr hmem
    rintro rfl
    rw [RequestState.receive_goesOn (hgoes out mem_cons_self rfl state hstep.lookup) hstep.receive]
      at hfinished
    cases hfinished
  · exact hmem

theorem step (h : KeepsOne next l.processor (out :: rest)) (hnot : out.requestId ∉ rest.map (·.requestId))
    (hwf : l.processor.WellFormed none) (hfits : ProcessLoop.Fits l.processor out)
    (hstep : l.processOutput out = .ok l') : KeepsOne next l'.processor rest := by
  -- the states that the remaining outputs meet are as before
  have hkept {id : RequestId} (htokenizer : l'.processor.tokenizer = l.processor.tokenizer)
      (hgoes : ∀ other ∈ out :: rest, other.requestId = id → ∀ state,
        l.processor.requestStates.lookup id = some state → state.GoesOn l.processor.tokenizer other) :
      ∀ other ∈ rest, other.requestId = id → ∀ state,
        l'.processor.requestStates.lookup id = some state → state.GoesOn l'.processor.tokenizer other := by
    intro other hother heq state hstate
    rw [htokenizer]
    refine hgoes other (mem_cons_of_mem _ hother) heq state ?_
    rw [← hstate, lookup_other hwf hfits hstep]
    rintro rfl
    exact hnot (mem_map.mpr ⟨other, hother, heq⟩)
  intro q parent' hparent' hearly
  rcases processOutput_cases hwf hfits hstep with ⟨-, rfl⟩ | ⟨_, halone⟩ |
    ⟨r, state, received, parent, observed, changed, asked, made, hchild⟩
  · obtain ⟨id, hmem, hgoes⟩ := h q parent' hparent' hearly
    exact ⟨id, hmem, hkept rfl hgoes⟩
  · obtain ⟨id, hmem, hgoes⟩ := h q parent' (halone.parents ▸ hparent') hearly
    exact ⟨id, hmem, hkept halone.tokenizer hgoes⟩
  rw [hchild.parents] at hparent'
  rcases Table.lookup_insert_cases hparent' with ⟨rfl, rfl⟩ | ⟨-, hparent'⟩
  · rw [hchild.keepsParent.n] at hearly
    obtain ⟨id, hmem, hgoes⟩ := h.left hchild hearly
    exact ⟨id, hmem, hkept hchild.tokenizer hgoes⟩
  · obtain ⟨id, hmem, hgoes⟩ := h q parent' hparent' hearly
    exact ⟨id, hmem, hkept hchild.tokenizer hgoes⟩

end KeepsOne

namespace FanOutComplete

variable {next : String → ℕ} {p : OutputProcessor D F} {emitted : List (Emission F)} {l l' : ProcessLoop D F}
  {out : DeliveredOutput F} {rest : List (DeliveredOutput F)}
variable {p' : OutputProcessor D F}

theorem processOutput (h : FanOutComplete next l.processor (emitted ++ l.emitted))
    (hwf : l.processor.WellFormed none) (hown : l.processor.OwnQueues) (hfits : ProcessLoop.Fits l.processor out)
    (hkeeps : KeepsOne next l.processor (out :: rest)) (hstep : l.processOutput out = .ok l') :
    FanOutComplete next l'.processor (emitted ++ l'.emitted) := by
  rcases processOutput_cases hwf hfits hstep with ⟨-, rfl⟩ | ⟨state, halone⟩ |
    ⟨q, state, received, parent, observed, parent', asked, made, hchild⟩
  · exact h
  · obtain ⟨outputs, hemitted, hqueue⟩ := halone.emitted
    obtain ⟨hother, hnone⟩ := OutputProcessor.lookup_alone halone.after
    refine h.alone out.requestId outputs halone.parents hother (fun s hs => ?_) hnone
      (by rw [hemitted, append_assoc])
      fun e he q heq => hown.foreign halone.lookup halone.alone ((hqueue e he).symm.trans heq)
    rw [← mem_unique halone.lookup hs]
    exact halone.alone
  · rw [hchild.emitted, ← append_assoc]
    refine h.child hchild hwf fun hearly => ?_
    obtain ⟨id, hmem, -⟩ := hkeeps.left hchild hearly
    exact ne_nil_of_mem hmem

theorem processAll {outs : List (DeliveredOutput F)} (hnodup : (outs.map (·.requestId)).Nodup)
    (h : FanOutComplete next l.processor (emitted ++ l.emitted)) (hwf : l.processor.WellFormed none)
    (hown : l.processor.OwnQueues) (hfits : ∀ out ∈ outs, ProcessLoop.Fits l.processor out)
    (hkeeps : KeepsOne next l.processor outs) (hrun : outs.foldlM ProcessLoop.processOutput l = .ok l') :
    FanOutComplete next l'.processor (emitted ++ l'.emitted) ∧ l'.processor.WellFormed none := by
  obtain ⟨⟨hall, -⟩, hl, -⟩ := OutputProcessor.OwnQueues.processAll_rule (P := fun outs l =>
    FanOutComplete next l.processor (emitted ++ l.emitted) ∧ KeepsOne next l.processor outs)
    (fun l l' out rest hl hwf hown hout hnot hstep =>
      ⟨hl.1.processOutput hwf hown hout hl.2 hstep, hl.2.step hnot hwf hout hstep⟩)
    hnodup ⟨h, hkeeps⟩ hwf hown hfits hrun
  exact ⟨hall, hl⟩

theorem finishCall (h : FanOutComplete next l.processor emitted)
    (hwf : l.processor.WellFormed none) (hfinish : l.finishCall = .ok p') : FanOutComplete next p' emitted := by
  refine (finishCall_rule (P := (FanOutComplete next · emitted)) h hwf (fun p q parent parent' hp hwf hparent hnew =>
    hp.setManager hparent (hnew.keeps.requestId.trans (hwf.parentKey q parent hparent)) hnew.keeps hnew.children
      hnew.aggregator fun part part' hpart hpart' => ?_) hfinish).1
  obtain ⟨part₁, hpart₁, hresample⟩ := hnew.redone part' hpart'
  obtain rfl := mem_unique hpart hpart₁
  rcases hresample with ⟨flag, hmaybe⟩ | ⟨event, heq⟩
  · refine ⟨?_, (PowerSMCGroupManager.maybeResample_fixed hmaybe).chosenParticle⟩
    rcases PowerSMCGroupManager.maybeResample_spec ((hp.parents q parent hparent).particles part hpart).length
      hmaybe with
      hskip | hresampled
    · rw [hskip.particles]
    · exact hresampled.length
  · rw [heq]
    exact ⟨rfl, rfl⟩

theorem addChild {q : String} {parent : ParentRequest F} {state : RequestState D F}
    {i : ℕ} (h : FanOutComplete next p emitted) (hi : i < parent.n)
    (hchildren : ∀ id ∈ parent.childRequests, ∃ state, p.requestStates.lookup id = some state ∧
      state.parentReq = some q)
    (hunfinished : ∀ e ∈ emitted, e.queue = some q → e.output.finished = false)
    (hparticles : ∀ part, parent.powerSmc = some part →
      Particles i p q parent part.manager ∧ ∀ e ∈ emitted, e.queue ≠ some q)
    (hfresh : p.requestStates.lookup (parent.childRequestId i) = none)
    (hreq : state.parentReq = some q) (hindex : state.requestIndex = i) (hqueue : state.queue = some q)
    (hstates : p'.requestStates = p.requestStates.insert (parent.childRequestId i) state)
    (hparents : p'.parents = p.parents.insert q (parent.getChildInfo i).1) :
    FanOutComplete (Function.update next q (i + 1)) p' emitted := by
  have hkept {a : RequestId} {s : RequestState D F} (hs : p.requestStates.lookup a = some s) :
      p'.requestStates.lookup a = some s := by
    rw [hstates, lookup_insert_ne, hs]
    rintro rfl
    simp [hfresh] at hs
  have hself : p'.requestStates.lookup (parent.childRequestId i) = some state := by
    rw [hstates, lookup_insert]
  have hn : (parent.getChildInfo i).1.n = parent.n := by
    unfold n getChildInfo
    cases parent.powerSmc <;> rfl
  have hchildId (j : ℕ) : (parent.getChildInfo i).1.childRequestId j = parent.childRequestId j := by
    unfold childRequestId getChildInfo
    cases parent.powerSmc <;> rfl
  have hnonempty : (parent.getChildInfo i).1.childRequests ≠ [] :=
    ne_nil_of_mem (mem_insert_self : _ ∈ parent.childRequests.insert (parent.childRequestId i))
  refine ⟨fun a s r hs hsreq => ?_, fun r other hr => ?_⟩
  · rw [hstates] at hs
    rcases Table.lookup_insert_cases hs with ⟨rfl, rfl⟩ | ⟨-, hs⟩
    · rw [hqueue, ← hreq, hsreq]
    · exact h.queue a s r hs hsreq
  rw [hparents] at hr
  rcases Table.lookup_insert_cases hr with ⟨rfl, rfl⟩ | ⟨hne, hr⟩
  · rw [Function.update_self]
    constructor
    case bound =>
      rw [hn]
      omega
    case live =>
      intro a ha
      rcases mem_insert_iff.mp ha with rfl | ha
      · exact ⟨state, hself, hreq⟩
      · obtain ⟨s, hs, hsreq⟩ := hchildren a ha
        exact ⟨s, hkept hs, hsreq⟩
    case kept => exact fun _ => hnonempty
    case finished =>
      intro e he heq hdone
      simp [hunfinished e he heq] at hdone
    case particles =>
      intro part' hpart'
      obtain ⟨part, hpart, rfl⟩ := Option.map_eq_some_iff.mp hpart'
      obtain ⟨⟨hcreated, hlength, hended, hchosen⟩, -⟩ := hparticles part hpart
      refine ⟨fun j hj => ?_, hlength, hended, hchosen⟩
      unfold OutputProcessor.LiveChild
      rw [hchildId]
      rcases Nat.lt_succ_iff_lt_or_eq.mp hj with hj | rfl
      · refine (hcreated j hj).imp_left ?_
        rintro ⟨s, hs, hsreq, hsindex⟩
        exact ⟨s, hkept hs, hsreq, hsindex⟩
      · exact Or.inl ⟨state, hself, hreq, hindex⟩
    case reported =>
      intro part' hpart'
      obtain ⟨part, hpart, -⟩ := Option.map_eq_some_iff.mp hpart'
      have hnone := (hparticles part hpart).2
      rw [if_neg hnonempty, length_eq_zero_iff]
      exact ⟨filter_eq_nil_iff.mpr fun e he => by simpa using hnone e he,
        fun e he heq => absurd heq (hnone e he)⟩
  · rw [Function.update_of_ne hne, ← append_nil emitted]
    exact (h.parents r other hr).frame (fun a s hs _ => hkept hs) [] nofun

end FanOutComplete

end VllmPs
