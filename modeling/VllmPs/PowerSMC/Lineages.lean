import Mathlib
import VllmPs.PowerSMC.Operations

/-!
# Histories and lineages of the particles

A particle records its state at every block boundary since it was last resampled, so the state at the boundary
that is due is recorded. In exact arithmetic the recorded weights telescope along the lineage of a particle,
which is the prefix of its ancestor's lineage and what it drew since.
-/

namespace VllmPs

open Lib PowerSMCGroupManager List

variable {F : Type} [PyFloat F]

/-- The calls that change the particles of a group. -/
inductive GroupAction (F : Type)
  | updateAfterToken (particleIdx : ℕ) (tokenId : Token) (baseLogp proposalLogq : F)
      (finishReason stopReason : Option String)
  | maybeResample

namespace PowerSMCParticleState

structure Records (particle : PowerSMCParticleState F) (blockSize last : ℕ) : Prop where
  start : particle.historyStartLength ≤ last
  recorded : ∀ b, blockSize ∣ b → particle.historyStartLength < b → b ≤ particle.tokenIds.length →
    ∃ state, (b, state) ∈ particle.boundaryStateHistory

def restarted (ancestor : PowerSMCParticleState F) (boundary : ℕ) (state : WeightState F) :
    PowerSMCParticleState F where
  tokenIds := ancestor.tokenIds.take boundary
  weight := { state with logWeight := 0 }
  historyStartLength := (ancestor.tokenIds.take boundary).length
  historyStartState := { state with logWeight := 0 }

variable {particle : PowerSMCParticleState F} {blockSize last b : ℕ}

theorem Records.stateAt (h : particle.Records blockSize last) (hdvd : blockSize ∣ b) (hlast : last < b)
    (hb : b ≤ particle.tokenIds.length) : ∃ state, particle.stateAt b = .ok state := by
  have hstart := h.start
  obtain ⟨state, hmem⟩ := h.recorded b hdvd (by omega) hb
  unfold PowerSMCParticleState.stateAt
  split_ifs
  · exact ⟨_, rfl⟩
  · exact ⟨_, rfl⟩
  · exact ⟨_, rfl⟩
  · omega
  · split
    · exact ⟨_, rfl⟩
    case _ hnone => simpa using find?_eq_none.mp hnone _ (mem_reverse.mpr hmem)

theorem Records.appendToken {config : PowerSMCConfig F} (h : particle.Records config.blockSize last)
    (tokenId : Token) (baseLogp proposalLogq : F) (finishReason stopReason : Option String) :
    (appendToken config particle tokenId baseLogp proposalLogq finishReason stopReason).Records
      config.blockSize last := by
  refine ⟨h.start, fun b hdvd hstart hb => ?_⟩
  rw [length_appendToken] at hb
  unfold PowerSMCGroupManager.appendToken
  dsimp only
  rcases Nat.lt_or_eq_of_le hb with hlt | rfl
  · obtain ⟨state, hmem⟩ := h.recorded b hdvd hstart (by omega)
    refine ⟨state, ?_⟩
    split_ifs
    · exact mem_append_left _ hmem
    · exact hmem
  · rw [if_pos (Nat.mod_eq_zero_of_dvd hdvd)]
    exact ⟨_, mem_append_right _ mem_cons_self⟩

end PowerSMCParticleState

namespace PowerSMCGroupManager

variable {m m' : PowerSMCGroupManager F} {action : GroupAction F} {boundary i : ℕ} {resampled : Bool}
  {particle : PowerSMCParticleState F} {states : List (WeightState F)} {ess : F}

def step (m : PowerSMCGroupManager F) : GroupAction F → Except PyError (PowerSMCGroupManager F)
  | .updateAfterToken particleIdx tokenId baseLogp proposalLogq finishReason stopReason => do
    let result ← m.updateAfterToken particleIdx tokenId baseLogp proposalLogq finishReason stopReason
    return result.1
  | .maybeResample => do
    let result ← m.maybeResample
    return result.1

/-- A new group of a valid configuration. -/
def Initial (m : PowerSMCGroupManager F) : Prop :=
  ∃ config rng, config.validateSelf = true ∧ m = .new config rng

theorem due_spec (h : m.dueBoundary = some boundary) : m.config.blockSize ∣ boundary ∧
    0 < boundary ∧ m.lastBoundaryCheckLength < boundary ∧ ∀ particle ∈ m.particles,
      boundary ≤ particle.tokenIds.length := by
  obtain ⟨heligible, hlast⟩ := eligible_of_due h
  obtain ⟨⟨hpos, hdvd⟩, hreached⟩ := eligibleResampleBoundary_spec heligible
  exact ⟨hdvd, hpos, hlast, fun particle hmem => (hreached particle hmem).2.trans (Nat.div_mul_le_self ..)⟩

theorem AtBoundary.restarted {weights : List F} {draw : F} {particle' : PowerSMCParticleState F}
    (hat : m.AtBoundary boundary states (some weights) ess) (hlength : m.particles.length = m.config.particles)
    (h : ((systematicResample weights draw).map (resampledParticle m.particles states boundary))[i]? =
      some particle') :
    ∃ ancestor particle state, (systematicResample weights draw)[i]? = some ancestor ∧
      m.particles[ancestor]? = some particle ∧ particle.stateAt boundary = .ok state ∧
      particle' = particle.restarted boundary state := by
  rw [getElem?_map] at h
  obtain ⟨ancestor, hancestor, rfl⟩ := Option.map_eq_some_iff.mp h
  have hlt := (systematicResample_spec weights draw).2 ancestor (mem_of_getElem? hancestor)
  rw [hat.length hlength] at hlt
  have hparticle := getElem?_eq_getElem hlt
  have hstate := congrArg (·[ancestor]?) (map_of_mapM hat.recorded)
  simp only [getElem?_map, hparticle, Option.map_some] at hstate
  obtain ⟨state, hstate, hrecorded⟩ := Option.map_eq_some_iff.mp hstate.symm
  refine ⟨ancestor, _, state, hancestor, hparticle, hrecorded.symm, ?_⟩
  simp [resampledParticle, hparticle, getD_eq_getElem?_getD, hstate, PowerSMCParticleState.restarted]

/-- What holds of a group between calls. -/
structure Available (m : PowerSMCGroupManager F) : Prop where
  valid : m.config.validateSelf = true
  length : m.particles.length = m.config.particles
  aligned : m.config.blockSize ∣ m.lastBoundaryCheckLength
  records : ∀ particle ∈ m.particles, particle.Records m.config.blockSize m.lastBoundaryCheckLength

theorem boundaryWeights_none {count : ℕ} {logWeights : List F} (h : (boundaryWeights count logWeights).1 = none) :
    (boundaryWeights count logWeights).2 = (count : F) := by
  cases logWeights with
  | nil => rfl
  | cons first rest =>
    unfold boundaryWeights at h ⊢
    dsimp only at h ⊢
    split_ifs at h ⊢
    rfl

omit [PyFloat F] in
theorem exists_mapM {α β : Type} {f : α → Except PyError β} {items : List α}
    (h : ∀ a ∈ items, ∃ b, f a = .ok b) : ∃ results, items.mapM f = .ok results := by
  induction items with
  | nil => exact ⟨[], rfl⟩
  | cons a rest ih =>
    obtain ⟨b, hb⟩ := h a mem_cons_self
    obtain ⟨bs, hbs⟩ := ih fun a ha => h a (mem_cons_of_mem _ ha)
    exact ⟨b :: bs, by rw [mapM_cons, hb, hbs]; rfl⟩

/-- `maybe_resample` returns: the states at the boundary that is due are recorded, and where the
weights are equal the effective sample size is large enough. -/
theorem Available.maybeResample (h : m.Available)
    (hround : ∀ (x : F) (n : ℕ), PyFloat.lt 0 x = true → PyFloat.le x 1 = true →
      PyFloat.le (x * (n : F)) (n : F) = true) :
    ∃ m' resampled, m.maybeResample = .ok (m', resampled) := by
  rw [maybeResample_eq]
  cases hdue : m.dueBoundary with
  | none => exact ⟨_, _, rfl⟩
  | some boundary =>
    obtain ⟨hdvd, -, hlast, hreached⟩ := due_spec hdue
    obtain ⟨states, hstates⟩ := exists_mapM fun particle (hmem : particle ∈ m.particles) =>
      (h.records particle hmem).stateAt hdvd hlast (hreached particle hmem)
    cases hcheck : m.called.checkBoundary boundary with
    | ok result => exact ⟨_, _, hcheck⟩
    | error e =>
      rcases bind_eq_error.mp hcheck with herror | ⟨states', -, herror⟩
      · cases hstates.symm.trans herror
      · dsimp only at herror
        split_ifs at herror with hess
        · cases herror
        split at herror
        case h_2 => cases herror
        case h_1 hnone =>
          have hvalid := h.valid
          simp only [PowerSMCConfig.validateSelf, Bool.and_eq_true] at hvalid
          rw [boundaryWeights_none hnone] at hess
          exact absurd (hround _ _ hvalid.1.2.1 hvalid.1.2.2) hess

theorem Available.step (h : m.Available) (hstep : m.step action = .ok m') : m'.Available := by
  cases action with
  | updateAfterToken i tokenId baseLogp proposalLogq finish stop =>
    obtain ⟨⟨m', flag⟩, hupdate, rfl⟩ := bind_pure_eq_ok.mp hstep
    obtain ⟨particle, hparticle, -, rfl, -⟩ := updateAfterToken_eq_ok.mp hupdate
    refine ⟨h.valid, length_set.trans h.length, h.aligned, fun p hmem => ?_⟩
    rcases mem_or_eq_of_mem_set hmem with hmem | rfl
    · exact h.records p hmem
    · exact (h.records particle (mem_of_getElem? hparticle)).appendToken ..
  | maybeResample =>
    obtain ⟨⟨m', flag⟩, hresample, rfl⟩ := bind_pure_eq_ok.mp hstep
    cases maybeResample_outcome hresample with
    | idle => exact { h with }
    | kept hat =>
      obtain ⟨hdvd, -, hlast, -⟩ := due_spec hat.due
      exact ⟨h.valid, h.length, hdvd, fun p hmem =>
        ⟨(h.records p hmem).start.trans hlast.le, (h.records p hmem).recorded⟩⟩
    | resampled hat =>
      obtain ⟨hdvd, -, hlast, hreached⟩ := due_spec hat.due
      refine ⟨h.valid, ?_, hdvd, fun p hmem => ?_⟩
      · exact (length_map _).trans ((systematicResample_spec _ _).1.trans ((hat.length h.length).trans h.length))
      · obtain ⟨i, hi⟩ := mem_iff_getElem?.mp hmem
        obtain ⟨_, particle, state, -, -, -, rfl⟩ := hat.restarted h.length hi
        exact ⟨length_take_le _ _, fun b _ hstart hb => absurd hb (Nat.not_le.mpr hstart)⟩

theorem available_of_reachable (h : Reachable Initial (fun _ _ => True) step m) : m.Available := by
  refine h.invariant (fun m hinit => ?_) fun m action m' hm _ hstep => hm.step hstep
  obtain ⟨config, rng, hvalid, rfl⟩ := hinit
  refine ⟨hvalid, length_replicate, dvd_zero _, fun particle hmem => ?_⟩
  obtain rfl := eq_of_mem_replicate hmem
  exact ⟨le_rfl, fun b _ hstart hb => absurd hb (Nat.not_le.mpr hstart)⟩

/-- In every state that calls of `update_after_token` and `maybe_resample` reach, `maybe_resample`
returns. A boundary that it checks lies beyond the last one, and a particle that it resamples has
exactly the tokens of its ancestor up to there, no weight, and what its ancestor recorded. -/
theorem maybeResample_available (h : Reachable Initial (fun _ _ => True) step m)
    (hround : ∀ (x : F) (n : ℕ), PyFloat.lt 0 x = true → PyFloat.le x 1 = true →
      PyFloat.le (x * (n : F)) (n : F) = true) :
    m.particles.length = m.config.particles ∧ m.config.blockSize ∣ m.lastBoundaryCheckLength ∧
    ∃ m' resampled, m.maybeResample = .ok (m', resampled) ∧
      (m'.blockBoundaryChecks = m.blockBoundaryChecks ∧ resampled = false ∧
          m'.lastBoundaryCheckLength = m.lastBoundaryCheckLength ∨
        m'.blockBoundaryChecks = m.blockBoundaryChecks + 1 ∧
          m.lastBoundaryCheckLength < m'.lastBoundaryCheckLength) ∧
      (resampled = true → ∃ plan, m'.lastResamplePlan = some plan ∧
        ∀ (i : ℕ) (particle : PowerSMCParticleState F), m'.particles[i]? = some particle →
        particle.tokenIds.length = m'.lastBoundaryCheckLength ∧ particle.weight.logWeight = 0 ∧
          ∃ (a : ℕ) (ancestor : PowerSMCParticleState F) (state : WeightState F),
            plan.ancestors[i]? = some a ∧ m.particles[a]? = some ancestor ∧
            particle.tokenIds = ancestor.tokenIds.take m'.lastBoundaryCheckLength ∧
            ancestor.stateAt m'.lastBoundaryCheckLength = .ok state ∧
            particle.weight.cumLogp = state.cumLogp ∧ particle.weight.prevAlpha = state.prevAlpha) := by
  have hm := available_of_reachable h
  obtain ⟨m', resampled, hresample⟩ := hm.maybeResample hround
  refine ⟨hm.length, hm.aligned, m', resampled, hresample, ?_⟩
  cases maybeResample_outcome hresample with
  | idle => exact ⟨Or.inl ⟨rfl, rfl, rfl⟩, nofun⟩
  | kept hat => exact ⟨Or.inr ⟨rfl, (due_spec hat.due).2.2.1⟩, nofun⟩
  | resampled hat =>
    obtain ⟨-, -, hlast, hreached⟩ := due_spec hat.due
    refine ⟨Or.inr ⟨rfl, hlast⟩, fun _ => ⟨_, rfl, fun i particle hi => ?_⟩⟩
    obtain ⟨a, ancestor, state, ha, hancestor, hstate, rfl⟩ := hat.restarted hm.length hi
    exact ⟨length_take_of_le (hreached _ (mem_of_getElem? hancestor)), rfl, a, ancestor, state, ha, hancestor, rfl,
      hstate, rfl, rfl⟩

/-- The boundary after the first token is checked. -/
theorem maybeResample_available_two : ∃ (m m' : PowerSMCGroupManager ℚ) (resampled : Bool),
    m.lastBoundaryCheckLength = 1 ∧ m.maybeResample = .ok (m', resampled) := by
  have hstart : Reachable Initial (fun _ _ => True) step
      (.new (⟨2, 2, 1, 1, 2, true⟩ : PowerSMCConfig ℚ) fun _ => 1 / 2) := .start ⟨_, _, by decide +kernel, rfl⟩
  obtain ⟨m, hreach, hlast⟩ := hstart.exists_checkedRun (P := fun m => m.lastBoundaryCheckLength = 1)
    [.updateAfterToken 0 7 (-1) (-1) none none, .updateAfterToken 1 5 (-999) 0 none none, .maybeResample]
    (by decide +kernel)
  obtain ⟨-, -, m', resampled, hresample, -⟩ := maybeResample_available hreach fun x n _ hx =>
    decide_eq_true (mul_le_of_le_one_left n.cast_nonneg (of_decide_eq_true hx))
  exact ⟨m, m', resampled, hlast, hresample⟩

end PowerSMCGroupManager

/-! ## Lineages -/

structure Drawn (F : Type) where
  tokenId : Token
  baseLogp : F
  proposalLogq : F

/-- What a particle's tokens were drawn with, and the length at which it was last resampled. -/
structure Lineage (F : Type) where
  drawn : List (Drawn F) := []
  start : ℕ := 0

/-- A group with the lineages of its particles. -/
structure Traced (F : Type) [PyFloat F] where
  manager : PowerSMCGroupManager F
  lineages : ℕ → Lineage F := fun _ => {}

namespace Traced

/-- The lineages after a call: one is longer, or each is the prefix of its ancestor's. -/
def follow (lineages : ℕ → Lineage F) (m' : PowerSMCGroupManager F) : GroupAction F → ℕ → Lineage F
  | .updateAfterToken i tokenId baseLogp proposalLogq _ _ => Function.update lineages i
      { lineages i with drawn := (lineages i).drawn ++ [⟨tokenId, baseLogp, proposalLogq⟩] }
  | .maybeResample =>
    match m'.lastResamplePlan with
    | none => lineages
    | some plan => fun i => ⟨(lineages (plan.ancestors.getD i 0)).drawn.take m'.lastBoundaryCheckLength,
        m'.lastBoundaryCheckLength⟩

def step (s : Traced F) (action : GroupAction F) : Except PyError (Traced F) := do
  let m' ← s.manager.step action
  return ⟨m', follow s.lineages m' action⟩

/-- A new group of a valid configuration. -/
def Initial (s : Traced F) : Prop :=
  ∃ config rng, config.validateSelf = true ∧ s = { manager := .new config rng }

end Traced

/-- The weight of a lineage as a function that each draw and each resampling keeps. -/
structure Telescopes (config : PowerSMCConfig F) (weight : List (Drawn F) → ℕ → WeightState F) : Prop where
  initial : weight [] 0 = .initial
  append : ∀ drawn start d, start ≤ drawn.length → weight (drawn ++ [d]) start =
    nextWeight (alphaAtStep config drawn.length) (weight drawn start) d.baseLogp d.proposalLogq
  restart : ∀ drawn start, { weight drawn start with logWeight := 0 } = weight drawn drawn.length

structure Follows (weight : List (Drawn F) → ℕ → WeightState F) (particle : PowerSMCParticleState F)
    (lineage : Lineage F) : Prop where
  tokenIds : particle.tokenIds = lineage.drawn.map (·.tokenId)
  start : particle.historyStartLength = lineage.start
  start_le : lineage.start ≤ lineage.drawn.length
  current : particle.weight = weight lineage.drawn lineage.start
  first : particle.historyStartState = weight (lineage.drawn.take lineage.start) lineage.start
  recorded : ∀ entry ∈ particle.boundaryStateHistory, entry.1 ≤ lineage.drawn.length ∧
    entry.2 = weight (lineage.drawn.take entry.1) lineage.start

namespace Follows

variable {config : PowerSMCConfig F} {weight : List (Drawn F) → ℕ → WeightState F}
  {particle : PowerSMCParticleState F} {lineage : Lineage F} {b : ℕ} {state : WeightState F}

section

variable (h : Follows weight particle lineage)
include h

theorem length : particle.tokenIds.length = lineage.drawn.length := by
  rw [h.tokenIds, length_map]

theorem stateAt (hpos : 0 < b) (hstate : particle.stateAt b = .ok state) :
    state = weight (lineage.drawn.take b) lineage.start := by
  unfold PowerSMCParticleState.stateAt at hstate
  split_ifs at hstate with hlength hzero hstart
  · cases hstate
    rw [hlength, h.length, take_length, h.current]
  · omega
  · cases hstate
    rw [hstart, h.start, h.first]
  · split at hstate
    case h_1 entry hfind =>
      cases hstate
      obtain rfl : entry.1 = b := by simpa using find?_some hfind
      exact (h.recorded entry (mem_reverse.mp (mem_of_find?_eq_some hfind))).2
    · cases hstate

theorem appendToken (hweight : Telescopes config weight) (d : Drawn F)
    (finishReason stopReason : Option String) :
    Follows weight (appendToken config particle d.tokenId d.baseLogp d.proposalLogq finishReason stopReason)
      { lineage with drawn := lineage.drawn ++ [d] } := by
  have hcurrent : nextWeight (alphaAtStep config particle.tokenIds.length) particle.weight d.baseLogp d.proposalLogq =
      weight (lineage.drawn ++ [d]) lineage.start := by
    rw [hweight.append _ _ _ h.start_le, h.length, h.current]
  have hold (entry : ℕ × WeightState F) (hmem : entry ∈ particle.boundaryStateHistory) :
      entry.1 ≤ (lineage.drawn ++ [d]).length ∧
        entry.2 = weight ((lineage.drawn ++ [d]).take entry.1) lineage.start := by
    obtain ⟨hle, hentry⟩ := h.recorded entry hmem
    rw [take_append_of_le_length hle, length_append]
    exact ⟨hle.trans (Nat.le_add_right ..), hentry⟩
  refine ⟨?_, h.start, ?_, hcurrent, ?_, fun entry hmem => ?_⟩
  · simp [PowerSMCGroupManager.appendToken, h.tokenIds]
  · simpa using Nat.le_succ_of_le h.start_le
  · rw [take_append_of_le_length h.start_le]
    exact h.first
  · unfold PowerSMCGroupManager.appendToken at hmem
    dsimp only at hmem
    split_ifs at hmem
    · rcases mem_append.mp hmem with hmem | hmem
      · exact hold entry hmem
      · obtain rfl := mem_singleton.mp hmem
        rw [hcurrent, h.length, take_of_length_le (by simp)]
        exact ⟨by simp, rfl⟩
    · exact hold entry hmem

theorem restarted (hweight : Telescopes config weight) (hpos : 0 < b)
    (hb : b ≤ particle.tokenIds.length) (hstate : particle.stateAt b = .ok state) :
    Follows weight (particle.restarted b state) ⟨lineage.drawn.take b, b⟩ := by
  have hlength : (lineage.drawn.take b).length = b := length_take_of_le (h.length ▸ hb)
  have hrestart : { state with logWeight := 0 } = weight (lineage.drawn.take b) b := by
    rw [h.stateAt hpos hstate, hweight.restart, hlength]
  refine ⟨?_, length_take_of_le hb, hlength.ge, hrestart, ?_, nofun⟩
  · rw [PowerSMCParticleState.restarted, h.tokenIds, map_take]
  · rwa [take_of_length_le hlength.le]

end

end Follows

namespace Traced

variable {s s' : Traced F} {action : GroupAction F} {weight : PowerSMCConfig F → List (Drawn F) → ℕ → WeightState F}

/-- Every particle follows its lineage. -/
structure Inv (weight : PowerSMCConfig F → List (Drawn F) → ℕ → WeightState F) (s : Traced F) : Prop where
  available : s.manager.Available
  follows : ∀ (i : ℕ) (particle : PowerSMCParticleState F), s.manager.particles[i]? = some particle →
    Follows (weight s.manager.config) particle (s.lineages i)

theorem Inv.step (h : s.Inv weight) (hweight : ∀ config, Telescopes config (weight config))
    (hstep : s.step action = .ok s') : s'.Inv weight := by
  obtain ⟨m', hm', rfl⟩ := bind_pure_eq_ok.mp hstep
  refine ⟨h.available.step hm', fun i p hp => ?_⟩
  cases action with
  | updateAfterToken index tokenId baseLogp proposalLogq finish stop =>
    obtain ⟨⟨m', flag⟩, hupdate, rfl⟩ := bind_pure_eq_ok.mp hm'
    obtain ⟨particle, hparticle, -, rfl, -⟩ := updateAfterToken_eq_ok.mp hupdate
    rcases eq_or_ne i index with rfl | hne
    · obtain rfl := Option.some.inj ((List.getElem?_set_self (List.getElem?_eq_some_iff.mp hparticle).1).symm.trans hp)
      dsimp only [follow]
      rw [Function.update_self]
      exact (h.follows i particle hparticle).appendToken (hweight _) ⟨_, _, _⟩ ..
    · dsimp only [follow]
      rw [Function.update_of_ne hne]
      exact h.follows i p ((List.getElem?_set_ne hne.symm).symm.trans hp)
  | maybeResample =>
    obtain ⟨⟨m', flag⟩, hresample, rfl⟩ := bind_pure_eq_ok.mp hm'
    cases maybeResample_outcome hresample with
    | idle => exact h.follows i p hp
    | kept => exact h.follows i p hp
    | resampled hat =>
      obtain ⟨-, hpos, -, hreached⟩ := due_spec hat.due
      obtain ⟨a, ancestor, state, ha, hancestor, hstate, rfl⟩ := hat.restarted h.available.length hp
      have hfollows := (h.follows a ancestor hancestor).restarted (hweight _) hpos
        (hreached _ (mem_of_getElem? hancestor)) hstate
      change Follows _ _ ⟨(s.lineages ((systematicResample _ _).getD i 0)).drawn.take _, _⟩
      rwa [getD_eq_getElem?_getD, ha]

end Traced

/-! ## Exact arithmetic -/

/-- `alpha_ramp` -/
def alphaRamp (step : ℕ) (alphaFinal : F) (rampTokens : ℕ) : F :=
  if rampTokens ≤ 1 then alphaFinal
  else if step < rampTokens then
    1 + (alphaFinal - 1) * (((step + 1 : ℕ) : F) / (rampTokens : F))
  else alphaFinal

/-- The exponent after a number of tokens. -/
def alphaAfter (config : PowerSMCConfig F) (length : ℕ) : F :=
  if length = 0 then 1 else alphaRamp (length - 1) config.alpha config.alphaRampTokens

/-- The log probability of a lineage under the model. -/
def sumBaseLogp (drawn : List (Drawn F)) : F := (drawn.map (·.baseLogp)).sum

/-- The weight of a lineage in closed form. -/
def telescoped (config : PowerSMCConfig F) (drawn : List (Drawn F)) (start : ℕ) : WeightState F where
  logWeight := alphaAfter config drawn.length * sumBaseLogp drawn -
    alphaAfter config start * sumBaseLogp (drawn.take start) - ((drawn.drop start).map (·.proposalLogq)).sum
  cumLogp := sumBaseLogp drawn
  prevAlpha := alphaAfter config drawn.length

/-- What exact arithmetic leaves open: the exponential, which values are finite, and the comparisons. -/
class ExactFloat (K : Type) where
  exp : K → K
  isFinite : K → Bool
  lt : K → K → Bool
  le : K → K → Bool

section

variable {K : Type} [Field K] [DecidableEq K] [ExactFloat K]

@[reducible] instance (priority := low) ExactFloat.toPyFloat : PyFloat K where
  exp := ExactFloat.exp
  fsum := List.sum
  isFinite := ExactFloat.isFinite
  lt := ExactFloat.lt
  le := ExactFloat.le
  eq x y := decide (x = y)

theorem telescopes_exact (config : PowerSMCConfig K) : Telescopes config (telescoped config) := by
  have halpha (step : ℕ) : alphaAtStep config step = alphaAfter config (step + 1) := by
    rw [alphaAtStep, alphaAfter, if_neg (Nat.succ_ne_zero _), Nat.add_sub_cancel, alphaRamp]
    split_ifs with hconstant hone hlt hlt'
    · rfl
    · omega
    · rfl
    · omega
    · rw [div_mul_eq_mul_div, mul_div_assoc]
    · omega
  refine ⟨?_, fun drawn start d hstart => ?_, fun drawn start => ?_⟩
  · simp [telescoped, sumBaseLogp, alphaAfter, WeightState.initial]
  · rw [halpha]
    have hsame (x y : K) : (PyFloat.eq x y = true) = (x = y) := decide_eq_true_eq
    simp only [telescoped, nextWeight, sumBaseLogp, length_append, length_singleton, map_append,
      sum_append, map_cons, map_nil, sum_singleton, take_append_of_le_length hstart,
      drop_append_of_le_length hstart, hsame, WeightState.mk.injEq, and_true]
    split_ifs with heq
    · rw [heq]
      ring
    · ring
  · simp [telescoped]

/-- In exact arithmetic, in every state that calls of `update_after_token` and `maybe_resample` reach,
each particle has the tokens of its lineage, and its weight is that of the lineage in closed form. -/
theorem weights_telescope {s : Traced K} (h : Reachable Traced.Initial (fun _ _ => True) Traced.step s) (i : ℕ)
    (particle : PowerSMCParticleState K) (hparticle : s.manager.particles[i]? = some particle) :
    particle.tokenIds = (s.lineages i).drawn.map (·.tokenId) ∧
      particle.weight = telescoped s.manager.config (s.lineages i).drawn (s.lineages i).start := by
  have hinv : s.Inv telescoped := by
    refine h.invariant (fun s hinit => ?_) fun s action s' hs _ hstep => hs.step telescopes_exact hstep
    obtain ⟨config, rng, hvalid, rfl⟩ := hinit
    have hm : PowerSMCGroupManager.Available (.new config rng) :=
      available_of_reachable (.start ⟨config, rng, hvalid, rfl⟩)
    refine ⟨hm, fun i particle hi => ?_⟩
    obtain rfl := eq_of_mem_replicate (mem_of_getElem? hi)
    have hnew := (telescopes_exact config).initial.symm
    exact ⟨rfl, rfl, le_rfl, hnew, hnew, nofun⟩
  have hfollows := hinv.follows i particle hparticle
  exact ⟨hfollows.tokenIds, hfollows.current⟩

end

/-- Two particles with a boundary at every token; the second is resampled away. -/
def twoParticles : PowerSMCConfig ℚ := ⟨2, 2, 1, 1, 2, true⟩

def twoParticlesActions : List (GroupAction ℚ) :=
  [.updateAfterToken 0 7 (-1) (-1) none none, .updateAfterToken 0 8 (-1) (-2) none none,
    .updateAfterToken 1 5 (-999) 0 none none, .maybeResample, .updateAfterToken 1 9 (-1) 0 none none]

/-- A particle has taken over the other's first token. -/
theorem weights_telescope_two : ∃ (s : Traced ℚ) (particle : PowerSMCParticleState ℚ),
    s.manager.particles[1]? = some particle ∧ particle.tokenIds = [7, 9] ∧
      particle.weight = telescoped twoParticles (s.lineages 1).drawn 1 := by
  have hstart : Reachable Traced.Initial (fun _ _ => True) Traced.step
      { manager := .new twoParticles fun _ => 1 / 2 } := .start ⟨_, _, by decide +kernel, rfl⟩
  obtain ⟨s, hreach, hids, hlineage, hconfig⟩ := hstart.exists_checkedRun (P := fun s =>
    s.manager.particles[1]?.map (·.tokenIds) = some [7, 9] ∧ (s.lineages 1).start = 1 ∧
      s.manager.config = twoParticles) twoParticlesActions (by decide +kernel)
  obtain ⟨particle, hparticle, hids⟩ := Option.map_eq_some_iff.mp hids
  let : ExactFloat ℚ := ⟨PyFloat.exp, PyFloat.isFinite, PyFloat.lt, PyFloat.le⟩
  have hweight := (weights_telescope hreach 1 particle hparticle).2
  rw [hconfig, hlineage] at hweight
  exact ⟨s, particle, hparticle, hids, hweight⟩

end VllmPs
