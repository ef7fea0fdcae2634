import VllmPs.FrontEnd.AsyncLLM

/-!
# Children and their particles

Each child of a Power-SMC parent has a detokenizer and a logprobs processor that are fed token by token, while
the parent's manager keeps the tokens of the particles and replaces them when it resamples. The three agree as
long as nothing is resampled.
-/

namespace VllmPs

open Lib List Option AList

variable {D F : Type} [PyFloat F]
variable {tokenizer : TokenizerLike D} {state : RequestState D F} {out : DeliveredOutput F}
  {received : Received D F}

/-! ## Logprobs of a sequence of tokens -/

namespace LogprobsProcessor

def sumOf (positions : List (PositionLogprobs F)) : F :=
  positions.foldl (fun sum entries => ((entries.head?.map (·.logprob)).map (sum + ·)).getD sum) 0

structure Describe (logprobs : Option (List (PositionLogprobs F))) (cumulative : Option F)
    (tokens : List Token) : Prop where
  tokens : ∀ positions, logprobs = some positions →
    positions.map (fun entries => entries.head?.map (·.tokenId)) = tokens.map some
  cumulative : cumulative = logprobs.map sumOf

/-- The rows that the engine sends are those of its tokens. -/
def Matches (p : LogprobsProcessor F) (out : DeliveredOutput F) : Prop :=
  p.logprobs.isSome = true → (out.newLogprobs.getD []).map (·.tokenIds.head?) = out.newTokenIds.map some

variable {tokenizer : TokenizerLike D} {p p' : LogprobsProcessor F} {tokens : List Token}

theorem updateSampleLogprob_describe {row : LogprobRow F} {token : Token}
    (h : Describe p.logprobs p.cumulativeLogprob tokens) (hrow : row.tokenIds.head? = some token)
    (hstep : p.updateSampleLogprob tokenizer row = .ok p') :
    Describe p'.logprobs p'.cumulativeLogprob (tokens ++ [token]) := by
  unfold updateSampleLogprob at hstep
  split at hstep
  case h_2 => cases hstep
  case h_1 positions cumulative numLogprobs hpositions hcumulative hnum =>
    split at hstep
    · cases hstep
    case h_2 sampled rest hsampled =>
      cases hstep
      obtain ⟨first, others, hids⟩ : ∃ first others, row.tokenIds = first :: others := by
        cases hids : row.tokenIds with
        | nil => rw [hids] at hrow; cases hrow
        | cons first others => exact ⟨first, others, rfl⟩
      rw [hids] at hrow
      obtain rfl := some.inj hrow
      -- the sampled token comes first among the entries
      have hhead : (nextPosition tokenizer p.hasTokenizer positions row numLogprobs).head? =
          some ⟨first, sampled, row.rank, if p.hasTokenizer then some (tokenizer.decodeAlternative
            (describedTokens (positions.drop (positions.length - 4))) first) else none⟩ := by
        unfold nextPosition
        rw [hids, hsampled]
        rfl
      refine ⟨fun all hall => ?_, ?_⟩
      · rw [← some.inj hall, map_append, map_append, h.tokens positions hpositions,
          map_singleton, hhead]
        rfl
      have hsum := h.cumulative
      rw [hpositions, hcumulative] at hsum
      have hsum := some.inj hsum
      change some (cumulative + sampled) = some (sumOf (positions ++ [_]))
      rw [sumOf, foldl_append, foldl_cons, hhead, hsum]
      rfl

theorem updateSampleLogprobs_describe {rows : List (LogprobRow F)} {newTokenIds : List Token}
    (h : Describe p.logprobs p.cumulativeLogprob tokens)
    (hrows : rows.map (·.tokenIds.head?) = newTokenIds.map some)
    (hstep : rows.foldlM (updateSampleLogprob tokenizer) p = .ok p') :
    Describe p'.logprobs p'.cumulativeLogprob (tokens ++ newTokenIds) := by
  induction rows generalizing p tokens newTokenIds with
  | nil =>
    cases hstep
    obtain rfl : newTokenIds = [] := map_eq_nil_iff.mp hrows.symm
    rwa [append_nil]
  | cons row rest ih =>
    cases newTokenIds with
    | nil => cases hrows
    | cons token others =>
      obtain ⟨hrow, hrest⟩ := List.cons.inj hrows
      obtain ⟨middle, hfirst, hstep⟩ := foldlM_cons_eq_ok.mp hstep
      rw [← singleton_append, ← append_assoc]
      exact ih (updateSampleLogprob_describe h hrow hfirst) hrest hstep

omit [PyFloat F] in
theorem updatePromptLogprobs_keeps {rows : Option (List (LogprobRow F))}
    (h : p.updatePromptLogprobs tokenizer rows = .ok p') :
    p'.logprobs = p.logprobs ∧ p'.cumulativeLogprob = p.cumulativeLogprob := by
  cases rows with
  | none =>
    cases h
    exact ⟨rfl, rfl⟩
  | some rows =>
    unfold updatePromptLogprobs at h
    dsimp only at h
    by_cases hnone : p.numPromptLogprobs.isNone = true ∨ p.promptLogprobs.isNone = true
    · rw [if_pos hnone] at h
      cases h
    rw [if_neg hnone] at h
    refine foldlM_invariant (P := fun other : LogprobsProcessor F => other.logprobs = p.logprobs ∧
      other.cumulativeLogprob = p.cumulativeLogprob) rows (fun other row other' _ hother hstep => ?_)
      ⟨rfl, rfl⟩ h
    unfold updatePromptLogprob at hstep
    split at hstep
    · cases hstep
      exact hother
    · cases hstep

theorem updateFromOutput_describe {out : DeliveredOutput F}
    (h : Describe p.logprobs p.cumulativeLogprob tokens) (hmatches : p.Matches out)
    (hstep : p.updateFromOutput tokenizer out.newLogprobs out.newPromptLogprobs = .ok p') :
    Describe p'.logprobs p'.cumulativeLogprob (tokens ++ out.newTokenIds) := by
  obtain ⟨middle, hsample, hprompt⟩ := bind_eq_ok.mp hstep
  obtain ⟨hlogprobs, hcumulative⟩ := updatePromptLogprobs_keeps hprompt
  rw [hlogprobs, hcumulative]
  -- without logprobs nothing is described
  have hnone (hp : p.logprobs = none) (hmiddle : middle = p) :
      Describe middle.logprobs middle.cumulativeLogprob (tokens ++ out.newTokenIds) := by
    rw [hmiddle]
    refine ⟨fun positions hpositions => ?_, h.cumulative⟩
    simp [hp] at hpositions
  cases hrows : out.newLogprobs with
  | none =>
    rw [hrows] at hsample
    cases hsample
    cases hp : p.logprobs with
    | none => exact hp ▸ hnone hp rfl
    | some positions =>
      have hmatch := hmatches (by rw [hp]; rfl)
      rw [hrows] at hmatch
      rwa [map_eq_nil_iff.mp hmatch.symm, append_nil, ← hp]
  | some rows =>
    rw [hrows] at hsample
    unfold updateSampleLogprobs at hsample
    dsimp only at hsample
    by_cases hmissing : p.numLogprobs.isNone = true ∨ p.logprobs.isNone = true ∨
        p.cumulativeLogprob.isNone = true
    · rw [if_pos hmissing] at hsample
      cases hsample
    rw [if_neg hmissing] at hsample
    push Not at hmissing
    have hmatch := hmatches (Option.isSome_iff_ne_none.mpr (by simpa using hmissing.2.1))
    rw [hrows] at hmatch
    exact updateSampleLogprobs_describe h hmatch hsample

end LogprobsProcessor

/-! ## What a child holds -/

structure RequestState.Follows (state : RequestState D F) (tokens : List Token) : Prop where
  detokenizer : ∃ d, state.detokenizer = some d ∧ d.tokenIds = tokens
  logprobs : ∃ processor, state.logprobsProcessor = some processor ∧
    LogprobsProcessor.Describe processor.logprobs processor.cumulativeLogprob tokens

theorem RequestState.receive_none (h : state.receive tokenizer out = .ok received)
    (hnone : received.finishReason = none) : out.finishReason = none := by
  unfold receive at h
  dsimp only at h
  set started : RequestState D F := if state.isPrefilling then _ else state
  split_ifs at h
  · cases h
    exact hnone
  split at h
  case h_1 =>
    obtain ⟨processor, -, h⟩ := bind_eq_ok.mp h
    split at h
    · cases h
      cases hnone
    · cases h
      exact hnone
  case h_2 => cases h

theorem RequestState.Follows.receive {tokens : List Token} (h : state.Follows tokens)
    (hpooling : out.poolingOutput = none)
    (hmatches : ∀ processor, state.logprobsProcessor = some processor → processor.Matches out)
    (hreceive : state.receive tokenizer out = .ok received) :
    received.state.Follows (tokens ++ out.newTokenIds) := by
  obtain ⟨⟨d, hd, rfl⟩, processor, hprocessor, hdescribe⟩ := h
  unfold RequestState.receive at hreceive
  set started : RequestState D F := if state.isPrefilling then _ else state with hstarted
  have hsame : started.detokenizer = state.detokenizer ∧
      started.logprobsProcessor = state.logprobsProcessor := by
    rw [hstarted]
    split_ifs <;> exact ⟨rfl, rfl⟩
  rw [hpooling] at hreceive
  simp only [isSome_none, Bool.false_eq_true, if_false, hsame.1, hsame.2, hd, hprocessor] at hreceive
  obtain ⟨updated, hupdate, hreceive⟩ := bind_eq_ok.mp hreceive
  have hfollows {state' : RequestState D F}
      (hd' : state'.detokenizer = some (d.update tokenizer out.newTokenIds (out.finishReason = some .stop)).1)
      (hp' : state'.logprobsProcessor = some updated) : state'.Follows (d.tokenIds ++ out.newTokenIds) :=
    ⟨⟨_, hd', d.update_tokenIds tokenizer _ _⟩, updated, hp',
      LogprobsProcessor.updateFromOutput_describe hdescribe (hmatches processor hprocessor) hupdate⟩
  split at hreceive
  · cases hreceive
    exact hfollows rfl rfl
  · cases hreceive
    exact hfollows rfl rfl

/-! ## Boundaries without resampling -/

namespace PowerSMCGroupManager

variable {m m' : PowerSMCGroupManager F}

/-- At the next boundary that all particles have reached, if it is due, the effective sample size is
large enough. -/
def EssSuffices (m : PowerSMCGroupManager F) : Prop :=
  ∀ boundary states, m.eligibleResampleBoundary = (some boundary, false) →
    m.lastBoundaryCheckLength < boundary →
    m.particles.mapM (fun particle => particle.stateAt boundary) = .ok states →
    PyFloat.le (m.config.essThreshold * (m.config.particles : F))
      (boundaryWeights m.config.particles (states.map (·.logWeight))).2 = true

theorem EssSuffices.congr (h : m.EssSuffices) (hparticles : m'.particles = m.particles)
    (hconfig : m'.config = m.config) (hlast : m.lastBoundaryCheckLength ≤ m'.lastBoundaryCheckLength) :
    m'.EssSuffices := by
  intro boundary states hboundary hdue hstates
  unfold eligibleResampleBoundary at hboundary
  rw [hparticles, hconfig] at hboundary
  rw [hparticles] at hstates
  rw [hconfig]
  exact h boundary states hboundary (hlast.trans_lt hdue) hstates

theorem essSuffices_of_done (h : ∃ particle ∈ m.particles, particle.done = true) : m.EssSuffices := by
  intro boundary states hboundary
  obtain ⟨particle, hmem, hdone⟩ := h
  simp [((eligibleResampleBoundary_spec hboundary).2 particle hmem).1] at hdone

theorem EssSuffices.maybeResample {flag : Bool} (h : m.EssSuffices)
    (hstep : m.maybeResample = .ok (m', flag)) : m'.particles = m.particles ∧ m'.EssSuffices := by
  have hkept (hparticles : m'.particles = m.particles)
      (hlast : m.lastBoundaryCheckLength ≤ m'.lastBoundaryCheckLength) :
      m'.particles = m.particles ∧ m'.EssSuffices :=
    ⟨hparticles, h.congr hparticles (maybeResample_fixed hstep).config hlast⟩
  cases maybeResample_outcome hstep with
  | idle => exact hkept rfl le_rfl
  | kept hat => exact hkept rfl (eligible_of_due hat.due).2.le
  | resampled hat hess =>
    have hess' := h _ _ (eligible_of_due hat.due).1 (eligible_of_due hat.due).2 hat.recorded
    simp [hat.normalized, hess] at hess'

end PowerSMCGroupManager

/-! ## Children and particles agree -/

structure CompletionOutput.BelongsTo (c : CompletionOutput F) (particle : PowerSMCParticleState F) :
    Prop where
  tokenIds : c.tokenIds = particle.tokenIds
  logprobs : LogprobsProcessor.Describe c.logprobs c.cumulativeLogprob particle.tokenIds
  finished : c.finished = true
  reasons : particle.done = true →
    c.finishReason = particle.finishReason ∧ c.stopReason.map (·.toStr) = particle.stopReason

/-- Of the children of a parent `count` were created. Each live one holds the tokens of its particle, and what
ended ones left belongs to their particles. -/
structure TracksParent (states : Table RequestId (RequestState D F)) (emitted : List (Emission F)) (q : String)
    (count : ℕ) (aggregator : List (Option (CompletionOutput F))) (m : PowerSMCGroupManager F) : Prop where
  length : m.particles.length = m.config.particles
  live : ∀ id state, states.lookup id = some state → state.parentReq = some q →
    ∃ particle, m.particles[state.requestIndex]? = some particle ∧ particle.done = false ∧
      state.Follows particle.tokenIds ∧ state.requestIndex < count ∧
      ∀ c, aggregator[state.requestIndex]? ≠ some (some c)
  ended : ∀ (i : ℕ) (c : CompletionOutput F), aggregator[i]? = some (some c) →
    i < count ∧ ∃ particle, m.particles[i]? = some particle ∧ c.BelongsTo particle
  fresh : ∀ (i : ℕ) (particle : PowerSMCParticleState F), count ≤ i → m.particles[i]? = some particle →
    particle.tokenIds = [] ∧ particle.done = false
  emission : ∀ e ∈ emitted, e.queue = some q → ∃ (i : ℕ) (c : CompletionOutput F) (text : Text),
    ∃ promptLogprobs diagnostics, aggregator[i]? = some (some c) ∧
      e.output.body = .completions [some { c with index := 0, text := text }] promptLogprobs diagnostics

section

variable {states states' : Table RequestId (RequestState D F)} {emitted outputs : List (Emission F)} {q : String}
  {count : ℕ} {aggregator : List (Option (CompletionOutput F))} {m m' : PowerSMCGroupManager F}
  (h : TracksParent states emitted q count aggregator m)
include h

theorem TracksParent.congr (hparticles : m'.particles = m.particles)
    (hconfig : m'.config = m.config) : TracksParent states emitted q count aggregator m' := by
  obtain ⟨hlength, hlive, hended, hfresh, hemission⟩ := h
  rw [← hparticles] at hlength hlive hended hfresh
  exact ⟨hconfig ▸ hlength, hlive, hended, hfresh, hemission⟩

theorem TracksParent.frame
    (hstates : ∀ a state, states'.lookup a = some state → state.parentReq = some q → states.lookup a = some state)
    (houtputs : ∀ e ∈ outputs, e.queue ≠ some q) : TracksParent states' (emitted ++ outputs) q count aggregator m :=
  { h with
    live := fun a state hstate hreq => h.live a state (hstates a state hstate hreq) hreq
    emission := fun e he heq => h.emission e ((mem_append.mp he).resolve_right (houtputs e · heq)) heq }

end

/-- This is so for every Power-SMC parent. -/
def Tracks (next : String → ℕ) (p : OutputProcessor D F) (emitted : List (Emission F)) : Prop :=
  ∀ q parent part, p.parents.lookup q = some parent → parent.powerSmc = some part →
    TracksParent p.requestStates emitted q (next q) parent.outputAggregator part.manager

namespace Tracks

variable {next : String → ℕ} {p p' : OutputProcessor D F} {emitted emitted' : List (Emission F)}

theorem congr (h : Tracks next p emitted) (hstates : p'.requestStates = p.requestStates)
    (hparents : p'.parents = p.parents) : Tracks next p' emitted := by
  unfold Tracks
  rwa [hstates, hparents]

theorem other (h : Tracks next p emitted) {id : RequestId} {outputs : List (Emission F)}
    (hparents : p'.parents = p.parents)
    (hother : ∀ a, a ≠ id → p'.requestStates.lookup a = p.requestStates.lookup a)
    (halone : ∀ state, p'.requestStates.lookup id = some state → state.parentReq = none)
    (hemitted : emitted' = emitted ++ outputs)
    (hqueue : ∀ e ∈ outputs, ∀ q, e.queue = some q → p.parents.lookup q = none) : Tracks next p' emitted' := by
  intro q parent part hparent hpart
  rw [hparents] at hparent
  rw [hemitted]
  refine (h q parent part hparent hpart).frame (fun a state hstate hreq => ?_) fun e he heq => ?_
  · rcases eq_or_ne a id with rfl | hne
    · simp [halone state hstate] at hreq
    · rwa [← hother a hne]
  · simp [hqueue e he q heq] at hparent

theorem setManager (h : Tracks next p emitted) {q : String} {parent parent' : ParentRequest F}
    (hparent : p.parents.lookup q = some parent) (hid : parent'.requestId = q)
    (haggregator : parent'.outputAggregator = parent.outputAggregator)
    (hmanager : ∀ part', parent'.powerSmc = some part' → ∃ part, parent.powerSmc = some part ∧
      part'.manager.particles = part.manager.particles ∧ part'.manager.config = part.manager.config) :
    Tracks next (p.setParent (some parent')) emitted := by
  intro r other part' hr hpart'
  rw [OutputProcessor.setParent, hid] at hr
  rcases Table.lookup_insert_cases hr with ⟨rfl, rfl⟩ | ⟨-, hr⟩
  · obtain ⟨part, hpart, hparticles, hconfig⟩ := hmanager part' hpart'
    rw [haggregator]
    exact (h r parent part hparent hpart).congr hparticles hconfig
  · exact h r other part' hr hpart'

variable {id : RequestId} {q : String} {state state₁ : RequestState D F}
  {parent observed parent' : ParentRequest F} {made : MadeOutput D F} {tokenizer : TokenizerLike D}
  {newTokenIds : List Token} {finishReason : Option FinishReason} {stopReason : Option StopValue}

/-- What a child and its particle are when the completion of the child is made. -/
def Observed (state state₁ : RequestState D F) (parent observed : ParentRequest F)
    (finishReason : Option FinishReason) (stopReason : Option StopValue) : Prop :=
  ∀ part, parent.powerSmc = some part → ∃ middle particle, observed.powerSmc = some middle ∧
    middle.manager.config = part.manager.config ∧
    middle.manager.particles = part.manager.particles.set state.requestIndex particle ∧
    state₁.Follows particle.tokenIds ∧ (finishReason = none → particle.done = false) ∧
    (particle.done = true → particle.finishReason = finishReason.map (·.toStr) ∧
      particle.stopReason = stopReason.map (·.toStr))

theorem belongsTo_of_completes {particle : PowerSMCParticleState F} {output : CompletionOutput F}
    {outputs : List (Option (CompletionOutput F))} {finished : Bool} (hkind : state.outputKind = .finalOnly)
    (hfollows : state.Follows particle.tokenIds) (hsome : finishReason.isSome = true)
    (hdone : particle.done = true → particle.finishReason = finishReason.map (·.toStr) ∧
      particle.stopReason = stopReason.map (·.toStr))
    (hcompletes : state.Completes parent parent' finishReason stopReason made.output output outputs finished) :
    output.BelongsTo particle := by
  obtain ⟨⟨d, hd, hd'⟩, processor, hprocessor, hdescribe⟩ := hfollows
  obtain ⟨d', processor', hd₁, hprocessor₁, hown⟩ := hcompletes.own
  obtain rfl := mem_unique hd hd₁
  obtain rfl := mem_unique hprocessor hprocessor₁
  obtain ⟨htokens, hlogprobs, hcumulative⟩ := hown (by rw [hkind]; decide)
  refine ⟨htokens.trans hd', ?_, hcompletes.ended.trans hsome, fun hparticle => ?_⟩
  · rw [hlogprobs, hcumulative]
    exact hdescribe
  · rw [hcompletes.reasons.1, hcompletes.reasons.2, (hdone hparticle).1, (hdone hparticle).2, if_pos hsome]
    exact ⟨rfl, rfl⟩

section

variable (hwf : p.WellFormed none) (hstate : p.requestStates.lookup id = some state)
  (hreq : state.parentReq = some q) (hparent : p.parents.lookup q = some parent) (hkeeps : state.Keeps state₁)
  (hkeepsParent : parent.Keeps parent') (haggregator : observed.outputAggregator = parent.outputAggregator)
  (hobserved : Observed state state₁ parent observed finishReason stopReason)
  (hmake : state₁.makeRequestOutput tokenizer (some observed) newTokenIds none finishReason stopReason = .ok made)
  (hmade : made.parent = some parent')

include hkeeps haggregator hmake hmade in
theorem after_completion {part middle part' : PowerSMCPart F} {particle : PowerSMCParticleState F}
    (hkind : state₁.outputKind = .finalOnly) (hmiddle : observed.powerSmc = some middle)
    (hparticles : middle.manager.particles = part.manager.particles.set state.requestIndex particle)
    (hpart' : parent'.powerSmc = some part') :
    part'.manager.particles = part.manager.particles.set state.requestIndex particle ∧
      ∀ i, state.requestIndex ≠ i → parent'.outputAggregator[i]? = parent.outputAggregator[i]? := by
  rcases RequestState.makeRequestOutput_particle hkind hmiddle hmake hmade hpart' with ⟨-, rfl, -⟩ |
    ⟨_, _, _, -, -, hends⟩
  · rw [← mem_unique hmiddle hpart', hparticles, haggregator]
    exact ⟨rfl, fun _ _ => rfl⟩
  · rw [hends.particles, hparticles, hends.aggregator, haggregator, hkeeps.requestIndex]
    exact ⟨rfl, fun _ hne => List.getElem?_set_ne hne⟩

variable (hkeepsMade : state.Keeps made.state)
  (hother : ∀ a, a ≠ id → p'.requestStates.lookup a = p.requestStates.lookup a)
  (hself : p'.requestStates.lookup id = if finishReason.isSome then none else some made.state)
  (hemitted : emitted' = emitted ++ made.output.toList.map (⟨state.queue, ·⟩))
include hwf hstate hreq hparent hkeeps hkeepsParent haggregator hobserved hmake hmade hkeepsMade hother hself hemitted

theorem move_parent (h : Tracks next p emitted) {part' : PowerSMCPart F} (hpart' : parent'.powerSmc = some part') :
    TracksParent p'.requestStates emitted' q (next q) parent'.outputAggregator part'.manager := by
  -- the particle of the child, before and after
  obtain ⟨part, hpart, -, -, hconfig'⟩ := hkeepsParent.part hpart'
  obtain ⟨middle, particle, hmiddle, -, hparticles, hfollows, hgoes, hdone⟩ := hobserved part hpart
  obtain ⟨known, hknown, -, hknows⟩ := hwf.child id state q hstate hreq (by simp)
  obtain rfl := mem_unique hparent hknown
  have hkind := hkeeps.outputKind.trans (hknows.kind (by simp [hpart]))
  have hcases := RequestState.makeRequestOutput_particle hkind hmiddle hmake hmade hpart'
  obtain ⟨hafter, hrest⟩ := after_completion hkeeps haggregator hmake hmade hkind hmiddle hparticles hpart'
  have hold := h q parent part hparent hpart
  obtain ⟨old, hfound, -, -, hlt, hunended⟩ := hold.live id state hstate hreq
  have hchanged : part'.manager.particles[state.requestIndex]? = some particle := by
    rw [hafter]
    exact List.getElem?_set_self (List.getElem?_eq_some_iff.mp hfound).1
  have hkept {i : ℕ} (hne : state.requestIndex ≠ i) :
      part'.manager.particles[i]? = part.manager.particles[i]? := by
    rw [hafter, List.getElem?_set_ne hne]
  have hended (i : ℕ) (c : CompletionOutput F) (hc : parent'.outputAggregator[i]? = some (some c)) :
      i < next q ∧ ∃ particle, part'.manager.particles[i]? = some particle ∧ c.BelongsTo particle := by
    rcases eq_or_ne state.requestIndex i with rfl | hne
    · rcases hcases with ⟨-, rfl, -⟩ | ⟨output, _, _, hsome, hcompletes, hends⟩
      · exact absurd (haggregator ▸ hc) (hunended c)
      · rw [hends.aggregator, ← hkeeps.requestIndex, List.getElem?_set_self hends.index] at hc
        rw [← some.inj (some.inj hc)]
        exact ⟨hlt, particle, hchanged, belongsTo_of_completes hkind hfollows hsome hdone hcompletes⟩
    · rw [hkept hne]
      exact hold.ended i c (hrest i hne ▸ hc)
  refine ⟨?_, fun a s hs hsreq => ?_, hended, fun i fresh hi hget => ?_, fun e he heq => ?_⟩
  · rw [hafter, hconfig', length_set]
    exact hold.length
  · rcases eq_or_ne a id with rfl | hne
    · rw [hself] at hs
      split_ifs at hs with hfinished
      cases hs
      rw [hkeepsMade.requestIndex]
      rcases hcases with ⟨hnone, rfl, hmade'⟩ | ⟨_, _, _, hfinished', -⟩
      · rw [haggregator, hmade']
        exact ⟨particle, hchanged, hgoes hnone, hfollows, hlt, hunended⟩
      · exact absurd hfinished' hfinished
    -- another child of the parent has another particle
    rw [hother a hne] at hs
    have hindex : state.requestIndex ≠ s.requestIndex := by
      intro heq
      have ha := hwf.eq_childRequestId hs hsreq hparent hpart
      rw [← heq] at ha
      exact hne (ha.trans (hwf.eq_childRequestId hstate hreq hparent hpart).symm)
    rw [hkept hindex, hrest _ hindex]
    exact hold.live a s hs hsreq
  · rw [hkept (by omega)] at hget
    exact hold.fresh i fresh hi hget
  rw [hemitted] at he
  rcases mem_append.mp he with he | he
  · obtain ⟨i, c, text, promptLogprobs, diagnostics, hc, hbody⟩ := hold.emission e he heq
    refine ⟨i, c, text, promptLogprobs, diagnostics, ?_, hbody⟩
    rwa [hrest i fun hi => hunended c (hi ▸ hc)]
  -- the selected completion, whose tokens are those of its particle
  obtain ⟨result, hresult, rfl⟩ := mem_map.mp he
  rw [mem_toList] at hresult
  rcases hcases with ⟨-, -, rfl⟩ | ⟨_, _, _, -, -, -, -, -, -, ⟨hnone, -⟩ |
    ⟨i, chosen, selected, _, text, promptLogprobs, diagnostics, -, -, hchosen, hsome, hresult', -, hbody⟩⟩
  · cases hresult
  · simp [hnone] at hresult
  obtain rfl := mem_unique hresult' hresult
  obtain ⟨-, found, hfound', hbelongs⟩ := hended i selected hsome
  obtain rfl := mem_unique hfound' hchosen
  refine ⟨i, selected, text, promptLogprobs, diagnostics, hsome, ?_⟩
  rw [hbody, ← hbelongs.tokenIds]

/-- A child that receives an output or is aborted. -/
theorem move (h : Tracks next p emitted) (hown : p.OwnQueues) (hparents : p'.parents = p.parents.insert q parent') :
    Tracks next p' emitted' := by
  intro r other part' hr hpart'
  rw [hparents] at hr
  rcases Table.lookup_insert_cases hr with ⟨rfl, rfl⟩ | ⟨hne, hr⟩
  · exact move_parent hwf hstate hreq hparent hkeeps hkeepsParent haggregator hobserved hmake hmade hkeepsMade hother
      hself hemitted h hpart'
  -- the child is not one of this parent
  rw [hemitted]
  refine (h r other part' hr hpart').frame (fun a s hs hsreq => ?_) fun e he heq => ?_
  · rcases eq_or_ne a id with rfl | hne'
    · rw [hself] at hs
      split_ifs at hs
      rw [← some.inj hs, hkeepsMade.parentReq, hreq] at hsreq
      exact absurd (some.inj hsreq).symm hne
    · rwa [← hother a hne']
  · obtain ⟨result, -, rfl⟩ := mem_map.mp he
    have hrq := hown id state r hstate heq (by rw [hr]; rfl)
    exact hne (some.inj (hrq.symm.trans hreq))

end

/-! ## Calls of `process_outputs` -/

variable {l l' : ProcessLoop D F} {out : DeliveredOutput F} {received : Received D F} {asked : Bool}

theorem observed_of_step (h : Tracks next l.processor emitted) (hwf : l.processor.WellFormed none)
    (hstep : ProcessLoop.ChildStep l l' out q state received parent observed parent' asked made)
    (hpooling : out.poolingOutput = none)
    (hmatches : ∀ processor, state.logprobsProcessor = some processor → processor.Matches out) :
    Observed state received.state parent observed received.finishReason received.stopReason := by
  intro part hpart
  obtain ⟨particle, hparticle, hgoes, hfollows, -⟩ :=
    (h q parent part hstep.lookupParent hpart).live _ state hstep.lookup hstep.parentReq
  have hreceived := hfollows.receive hpooling hmatches hstep.receive
  rcases ParentRequest.observePowerSmcStep_spec hstep.observe with ⟨rfl, -, hnone | hnil⟩ |
    ⟨part₁, token, base, proposal, index, updated, _, hpart₁, htokens, -, hindex, hupdate, rfl, -⟩
  · simp [hnone] at hpart
  · refine ⟨part, particle, hpart, rfl, ?_, ?_, fun _ => hgoes, fun hdone => ?_⟩
    · obtain ⟨hlt, hget⟩ := List.getElem?_eq_some_iff.mp hparticle
      rw [← hget, set_getElem_self]
    · rwa [hnil, append_nil] at hreceived
    · simp [hgoes] at hdone
  obtain rfl := mem_unique hpart hpart₁
  obtain ⟨known, hknown, -, hknows⟩ := hwf.child _ state q hstep.lookup hstep.parentReq nofun
  obtain rfl := mem_unique hstep.lookupParent hknown
  have hknown' := hknows.index part hpart
  rw [hwf.key _ state hstep.lookup, hindex] at hknown'
  cases hknown'
  obtain ⟨old, hold, -, rfl, -⟩ := PowerSMCGroupManager.updateAfterToken_eq_ok.mp hupdate
  obtain rfl := mem_unique hold hparticle
  refine ⟨_, _, rfl, rfl, rfl, ?_, fun hnone => ?_, fun hdone => ⟨rfl, ?_⟩⟩
  · rwa [htokens] at hreceived
  · rw [hnone]
    rfl
  · exact if_pos hdone

/-- One output. -/
theorem processOutput (h : Tracks next l.processor (emitted ++ l.emitted)) (hwf : l.processor.WellFormed none)
    (hown : l.processor.OwnQueues) (hfits : ProcessLoop.Fits l.processor out)
    (hmatches : ∀ state processor, l.processor.requestStates.lookup out.requestId = some state →
      state.logprobsProcessor = some processor → processor.Matches out)
    (hstep : l.processOutput out = .ok l') : Tracks next l'.processor (emitted ++ l'.emitted) := by
  rcases ProcessLoop.processOutput_cases hwf hfits hstep with ⟨-, rfl⟩ | ⟨state, halone⟩ |
    ⟨q, state, received, parent, observed, parent', asked, made, hchild⟩
  · exact h
  · obtain ⟨outputs, hemitted, hqueue⟩ := halone.emitted
    obtain ⟨hother, hnone⟩ := OutputProcessor.lookup_alone halone.after
    exact h.other halone.parents hother hnone (by rw [hemitted, append_assoc])
      fun e he q heq => hown.foreign halone.lookup halone.alone ((hqueue e he).symm.trans heq)
  have hpooling : out.poolingOutput = none := by
    by_contra hsome
    have hnone := hfits state hchild.lookup (Option.isSome_iff_ne_none.mpr hsome)
    simp [hchild.parentReq] at hnone
  exact move hwf hchild.lookup hchild.parentReq hchild.lookupParent
    (RequestState.receive_meets.ensures hchild.receive) hchild.keepsParent
    (ParentRequest.observePowerSmcStep_keeps hchild.observe).2.2
    (h.observed_of_step hwf hchild hpooling (hmatches state · hchild.lookup)) hchild.make hchild.madeParent
    hchild.keeps (fun a hne => hchild.lookup_other hne) hchild.lookup_self
    (by rw [hchild.emitted, append_assoc]) h hown hchild.parents

end Tracks

end VllmPs
