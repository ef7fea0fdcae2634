import VllmPs.PowerSMC.Manager
import VllmPs.Lib.Transition

/-!
# What the manager's operations do

Observing a token changes one particle. A call of `maybe_resample` skips, or replaces all
particles after they have reached a common boundary; a done particle, or one that is not
beyond the last checked boundary, makes it skip.
-/

namespace VllmPs

open Lib PowerSMCGroupManager List Option

variable {F : Type} [PyFloat F]

namespace Replicas

/-- The tokens of a particle. -/
def tokenIdsOf (m : PowerSMCGroupManager F) (index : ℕ) : List Token :=
  (m.particles[index]?.map (·.tokenIds)).getD []

end Replicas

open Replicas (tokenIdsOf)

namespace PowerSMCGroupManager

variable {m m' : PowerSMCGroupManager F}
variable {index : ℕ} {flag : Bool}
variable {particle : PowerSMCParticleState F} {particles : List (PowerSMCParticleState F)}
  {minLength : Option ℕ} {logWeights : List F} {result : PowerSMCGroupManager F × Bool}

/-- Where `update_after_token` succeeds and what it does. -/
theorem updateAfterToken_eq_ok {token : Token} {base proposal : F} {finish stop : Option String} :
    m.updateAfterToken index token base proposal finish stop = .ok (m', flag) ↔
      ∃ particle, m.particles[index]? = some particle ∧ particle.done = false ∧ m' = m.setParticle index
          (appendToken m.config particle token base proposal finish stop) ∧
        flag = decide ((particle.tokenIds.length + 1) % m.config.blockSize = 0) := by
  unfold updateAfterToken
  cases m.particles[index]? with
  | none => simp
  | some particle =>
    cases hdone : particle.done with
    | true => simp [hdone]
    | false =>
      simp only [hdone, Bool.false_eq_true, if_false]
      constructor
      · intro h
        cases h
        exact ⟨particle, rfl, hdone, rfl, rfl⟩
      · rintro ⟨p, hp, -, rfl, rfl⟩
        cases hp
        rfl

theorem length_appendToken (config : PowerSMCConfig F) (particle : PowerSMCParticleState F) (token : Token)
    (base proposal : F) (finish stop : Option String) :
    (appendToken config particle token base proposal finish stop).tokenIds.length =
      particle.tokenIds.length + 1 :=
  length_append

theorem tokenIdsOf_set {i : ℕ} (hindex : index < m.particles.length) :
    tokenIdsOf (m.setParticle index particle) i =
      if i = index then particle.tokenIds else tokenIdsOf m i := by
  unfold Replicas.tokenIdsOf setParticle
  rcases eq_or_ne i index with rfl | hne
  · simp [getElem?_set_self hindex]
  · simp [getElem?_set_ne (Ne.symm hne), hne]

theorem tokenIdsOf_of_getElem?
    (h : m.particles[index]? = some particle) : tokenIdsOf m index = particle.tokenIds := by
  rw [Replicas.tokenIdsOf, h]
  rfl

theorem minLengthLoop_spec {found : Option ℕ} (h : minLengthLoop particles minLength = some found) :
    (∀ particle ∈ particles, particle.done = false) ∧ ∀ k, found = some k →
      (∀ shortest, minLength = some shortest → k ≤ shortest) ∧
        ∀ particle ∈ particles, k ≤ particle.tokenIds.length := by
  induction particles generalizing minLength with
  | nil =>
    cases h
    exact ⟨nofun, fun k hk => ⟨fun s hs => (mem_unique hk hs).le, nofun⟩⟩
  | cons particle rest ih =>
    unfold minLengthLoop at h
    split_ifs at h with hdone
    -- the search goes on with a length that is no larger than that of the particle
    obtain ⟨x, hx, hle, hlength⟩ : ∃ x, minLengthLoop rest (some x) = some found ∧
        (∀ shortest, minLength = some shortest → x ≤ shortest) ∧ x ≤ particle.tokenIds.length := by
      dsimp only at h
      split_ifs at h with hzero
      · exact ⟨0, h, fun _ _ => Nat.zero_le _, Nat.zero_le _⟩
      cases minLength with
      | none => exact ⟨_, h, nofun, le_rfl⟩
      | some shortest =>
        refine ⟨_, h, fun s hs => ?_, ?_⟩
        · cases hs
          split_ifs <;> omega
        · split_ifs <;> omega
    obtain ⟨hgo, hfound⟩ := ih hx
    refine ⟨forall_mem_cons.mpr ⟨Bool.eq_false_iff.mpr hdone, hgo⟩, fun k hk => ?_⟩
    obtain ⟨hkx, hrest⟩ := hfound k hk
    exact ⟨fun s hs => (hkx x rfl).trans (hle s hs), forall_mem_cons.mpr ⟨(hkx x rfl).trans hlength, hrest⟩⟩

theorem eligibleResampleBoundary_spec {b : ℕ} (h : m.eligibleResampleBoundary = (some b, false)) :
    (0 < b ∧ m.config.blockSize ∣ b) ∧ ∀ particle ∈ m.particles, particle.done = false ∧
      b ≤ particle.tokenIds.length / m.config.blockSize * m.config.blockSize := by
  unfold eligibleResampleBoundary at h
  split at h
  · cases h
  · cases h
  case h_3 k hloop =>
    dsimp only at h
    split_ifs at h with hzero
    · cases h
    · obtain rfl : k / m.config.blockSize * m.config.blockSize = b := some.inj (Prod.mk.inj h).1
      obtain ⟨hgo, hk⟩ := minLengthLoop_spec hloop
      exact ⟨⟨Nat.pos_of_ne_zero hzero, Nat.dvd_mul_left ..⟩, fun particle hmem => ⟨hgo particle hmem,
        Nat.mul_le_mul_right _ (Nat.div_le_div_right ((hk k rfl).2 particle hmem))⟩⟩

/-- The boundary that a call of `maybe_resample` checks, if it does not skip before. -/
def dueBoundary (m : PowerSMCGroupManager F) : Option ℕ :=
  if m.config.particles = 1 then none
  else
    match m.eligibleResampleBoundary with
    | (some boundary, false) => if boundary ≤ m.lastBoundaryCheckLength then none else some boundary
    | _ => none

def called (m : PowerSMCGroupManager F) : PowerSMCGroupManager F :=
  { m with maybeResampleCalls := m.maybeResampleCalls + 1, lastResamplePlan := none }

/-- Why a call of `maybe_resample` without a boundary to check skips. -/
def skipReason (m : PowerSMCGroupManager F) : ResampleSkip :=
  if m.config.particles = 1 then .particlesOne
  else
    match m.eligibleResampleBoundary with
    | (_, true) => .doneParticle
    | (none, false) => .notBlockBoundary
    | (some _, false) => .staleBlockBoundary

/-- `maybe_resample` skips or checks the boundary that is due. -/
theorem maybeResample_eq (m : PowerSMCGroupManager F) : m.maybeResample =
    match m.dueBoundary with
    | none => .ok (m.called.recordResampleSkip m.skipReason, false)
    | some b => m.called.checkBoundary b := by
  have hcalled : ({ m with maybeResampleCalls := m.maybeResampleCalls + 1, lastResamplePlan := none } :
    PowerSMCGroupManager F).eligibleResampleBoundary = m.eligibleResampleBoundary := rfl
  unfold maybeResample dueBoundary skipReason
  by_cases hone : m.config.particles = 1
  · simp only [hone, if_true]
    rfl
  simp only [hone, if_false]
  rw [hcalled]
  rcases m.eligibleResampleBoundary with ⟨_ | b, _ | _⟩
  case some.false =>
    by_cases hstale : b ≤ m.lastBoundaryCheckLength <;> simp only [hstale, if_true, if_false] <;> rfl
  all_goals rfl

theorem eligible_of_due {b : ℕ} (h : m.dueBoundary = some b) :
    m.eligibleResampleBoundary = (some b, false) ∧ m.lastBoundaryCheckLength < b := by
  unfold dueBoundary at h
  split_ifs at h
  split at h
  case h_1 boundary hboundary =>
    split_ifs at h with hstale
    cases h
    exact ⟨hboundary, Nat.lt_of_not_le hstale⟩
  · cases h

theorem dueBoundary_eq_none (h : ∃ particle ∈ m.particles, particle.done = true ∨
      particle.tokenIds.length / m.config.blockSize * m.config.blockSize ≤ m.lastBoundaryCheckLength) :
    m.dueBoundary = none := by
  obtain ⟨particle, hmem, hparticle⟩ := h
  refine Option.eq_none_iff_forall_not_mem.mpr fun b hb => ?_
  obtain ⟨hboundary, hlast⟩ := eligible_of_due hb
  obtain ⟨hgo, hle⟩ := (eligibleResampleBoundary_spec hboundary).2 particle hmem
  rcases hparticle with hdone | hbehind
  · simp [hgo] at hdone
  · omega

/-- A call of `maybe_resample` that decides nothing. -/
structure Skipped (m m' : PowerSMCGroupManager F) : Prop where
  particles : m'.particles = m.particles
  config : m'.config = m.config
  plan : m'.lastResamplePlan = none

variable {weights : List F}

theorem advance_lt {state : F × ℕ} (pos : F) (fuel : ℕ) (h : state.2 < weights.length) :
    (advance weights pos fuel state).2 < weights.length := by
  induction fuel generalizing state with
  | zero => exact h
  | succ fuel ih =>
    unfold advance
    rw [getElem?_eq_getElem h]
    dsimp only
    split_ifs with hnext
    · rw [Bool.and_eq_true, decide_eq_true_eq] at hnext
      exact ih (by dsimp only; omega)
    · exact h

theorem systematicResample_spec (weights : List F) (draw : F) :
    (systematicResample weights draw).length = weights.length ∧
      ∀ ancestor ∈ systematicResample weights draw, ancestor < weights.length := by
  have hfold (pos : ℕ → F) (fuel : ℕ) (indices : List ℕ) (state : (F × ℕ) × List ℕ)
      (hstate : state.1.2 < weights.length) (hlt : ∀ ancestor ∈ state.2, ancestor < weights.length) :
      let picked := (indices.foldl (fun (state : (F × ℕ) × List ℕ) i =>
        (advance weights (pos i) fuel state.1, state.2 ++ [(advance weights (pos i) fuel state.1).2])) state).2
      picked.length = state.2.length + indices.length ∧ ∀ ancestor ∈ picked, ancestor < weights.length := by
    induction indices generalizing state with
    | nil => exact ⟨rfl, hlt⟩
    | cons i rest ih =>
      have hmoved := advance_lt (pos i) fuel hstate
      obtain ⟨hlength, hall⟩ := ih (_, state.2 ++ [_]) hmoved fun ancestor hmem =>
        (mem_append.mp hmem).elim (hlt ancestor) fun hlast => mem_singleton.mp hlast ▸ hmoved
      refine ⟨hlength.trans ?_, hall⟩
      rw [length_append, length_singleton, length_cons]
      omega
  rcases eq_or_ne weights [] with rfl | hne
  · exact ⟨rfl, nofun⟩
  · obtain ⟨hlength, hlt⟩ := hfold _ _ (List.range weights.length) ((0, 0), [])
      (length_pos_iff.mpr hne) nofun
    exact ⟨hlength.trans (by simp), hlt⟩

variable {count : ℕ}

theorem length_normalizeLogWeights (maxLogWeight : F) (hcount : logWeights.length = count) :
    (normalizeLogWeightsAndEssFromMax logWeights maxLogWeight count).1.length = count := by
  unfold normalizeLogWeightsAndEssFromMax
  dsimp only
  split_ifs
  · exact length_replicate
  all_goals simpa only [length_map] using hcount

theorem length_boundaryWeights {ess : F} (hcount : logWeights.length = count)
    (h : boundaryWeights count logWeights = (some weights, ess)) : weights.length = count := by
  cases logWeights with
  | nil => simp [boundaryWeights] at h
  | cons first rest =>
    unfold boundaryWeights at h
    dsimp only at h
    split_ifs at h
    · simp at h
    · obtain ⟨hweights, -⟩ := Prod.mk.inj h
      rw [← some.inj hweights]
      exact length_normalizeLogWeights _ hcount

/-- A call of `maybe_resample` that replaces the particles: all had reached a boundary, there are as
many afterwards, and the plan holds their tokens. -/
structure Resampled (m m' : PowerSMCGroupManager F) : Prop where
  config : m'.config = m.config
  length : m'.particles.length = m.particles.length
  notDone : ∀ particle ∈ m'.particles, particle.done = false
  reached : ∀ particle ∈ m.particles, particle.tokenIds ≠ []
  plan : ∃ ancestors, m'.lastResamplePlan = some ⟨ancestors, m'.particles.map (·.tokenIds)⟩

omit [PyFloat F] in
theorem map_of_mapM {α β : Type} {f : α → Except PyError β} {items : List α} {results : List β}
    (h : items.mapM f = .ok results) : items.map f = results.map .ok := by
  induction items generalizing results with
  | nil =>
    cases h
    rfl
  | cons a rest ih =>
    rw [mapM_cons] at h
    obtain ⟨b, hb, h⟩ := bind_eq_ok.mp h
    obtain ⟨bs, hrest, rfl⟩ := bind_pure_eq_ok.mp h
    rw [map_cons, map_cons, hb, ih hrest]

/-- The manager with a boundary checked. -/
def checked (m : PowerSMCGroupManager F) (boundary : ℕ) (ess : F) : PowerSMCGroupManager F :=
  { m with
    blockBoundaryChecks := m.blockBoundaryChecks + 1
    essHistory := m.essHistory ++ [ess]
    lastBoundaryCheckLength := boundary }

structure AtBoundary (m : PowerSMCGroupManager F) (boundary : ℕ) (states : List (WeightState F))
    (weights : Option (List F)) (ess : F) : Prop where
  due : m.dueBoundary = some boundary
  recorded : m.particles.mapM (fun particle => particle.stateAt boundary) = .ok states
  normalized : boundaryWeights m.config.particles (states.map (·.logWeight)) = (weights, ess)

/-- What a call of `maybe_resample` does: with nothing due it skips, at a boundary it keeps the particles
where the effective sample size is large enough, and resamples otherwise. -/
inductive Outcome (m : PowerSMCGroupManager F) : PowerSMCGroupManager F → Bool → Prop
  | idle : m.dueBoundary = none → Outcome m (m.called.recordResampleSkip m.skipReason) false
  | kept {boundary : ℕ} {states : List (WeightState F)} {weights : Option (List F)} {ess : F} :
      m.AtBoundary boundary states weights ess →
      Outcome m ((m.called.checked boundary ess).recordResampleSkip .essAboveThreshold) false
  | resampled {boundary : ℕ} {states : List (WeightState F)} {weights : List F} {ess : F} :
      m.AtBoundary boundary states (some weights) ess →
      PyFloat.le (m.config.essThreshold * (m.config.particles : F)) ess = false →
      Outcome m ((m.called.checked boundary ess).resampleAt boundary states weights) true

theorem maybeResample_outcome (h : m.maybeResample = .ok (m', flag)) : m.Outcome m' flag := by
  rw [maybeResample_eq] at h
  cases hdue : m.dueBoundary with
  | none =>
    rw [hdue] at h
    cases h
    exact .idle hdue
  | some boundary =>
    rw [hdue] at h
    obtain ⟨states, hstates, h⟩ := bind_eq_ok.mp h
    rcases hweights : boundaryWeights m.config.particles (states.map (·.logWeight)) with ⟨weights, ess⟩
    dsimp only [called] at h
    rw [hweights] at h
    split_ifs at h with hess
    · cases h
      exact .kept ⟨hdue, hstates, hweights⟩
    cases weights with
    | none => cases h
    | some weights =>
      cases h
      exact .resampled ⟨hdue, hstates, hweights⟩ (Bool.eq_false_iff.mpr hess)

/-- What resampling does not change. -/
structure Fixed (m m' : PowerSMCGroupManager F) : Prop where
  config : m'.config = m.config
  chosenParticle : m'.chosenParticle = m.chosenParticle
  kvResampleEvents : m'.kvResampleEvents = m.kvResampleEvents
  rng : m'.rng = m.rng

theorem maybeResample_fixed (h : m.maybeResample = .ok result) : Fixed m result.1 := by
  obtain ⟨m', flag⟩ := result
  cases maybeResample_outcome h <;> exact ⟨rfl, rfl, rfl, rfl⟩

variable {boundary : ℕ} {states : List (WeightState F)}

theorem AtBoundary.length {ess : F} (h : m.AtBoundary boundary states (some weights) ess)
    (hlength : m.particles.length = m.config.particles) : weights.length = m.particles.length := by
  have hcount : (states.map (·.logWeight)).length = m.config.particles := by
    rw [length_map, ← length_map Except.ok, ← map_of_mapM h.recorded, length_map, hlength]
  rw [length_boundaryWeights hcount h.normalized, hlength]

/-- `maybe_resample` skips or resamples. -/
theorem maybeResample_spec (hlength : m.particles.length = m.config.particles)
    (h : m.maybeResample = .ok (m', flag)) : Skipped m m' ∨ Resampled m m' := by
  cases maybeResample_outcome h with
  | idle => exact Or.inl ⟨rfl, rfl, rfl⟩
  | kept => exact Or.inl ⟨rfl, rfl, rfl⟩
  | resampled hat =>
    refine Or.inr ⟨rfl, ?_, fun particle hmem => ?_, fun particle hmem hnil => ?_, _, rfl⟩
    · exact (length_map _).trans ((systematicResample_spec _ _).1.trans (hat.length hlength))
    · obtain ⟨ancestor, -, rfl⟩ := mem_map.mp hmem
      rfl
    · obtain ⟨⟨hpos, -⟩, hreached⟩ := eligibleResampleBoundary_spec (eligible_of_due hat.due).1
      have hle := (hreached particle hmem).2
      simp [hnil] at hle
      omega

theorem maybeResample_of_due_none (h : m.dueBoundary = none) :
    m.maybeResample = .ok (m.called.recordResampleSkip m.skipReason, false) := by
  rw [maybeResample_eq, h]

theorem sampleIndexFrom_lt {draw cumulative : F} {idx i : ℕ}
    (h : sampleIndexFrom draw weights cumulative idx = some i) : i < idx + weights.length := by
  induction weights generalizing cumulative idx with
  | nil => cases h
  | cons weight rest ih =>
    rw [length_cons]
    unfold sampleIndexFrom at h
    split_ifs at h
    · cases h
      omega
    · have := ih h
      omega

theorem length_normalizeLogWeightsAndEss (logWeights : List F) :
    (normalizeLogWeightsAndEss logWeights).1.length = logWeights.length := by
  unfold normalizeLogWeightsAndEss
  cases h : boundaryWeights logWeights.length logWeights with
  | mk weights ess =>
    cases weights with
    | none => exact length_replicate
    | some weights => exact length_boundaryWeights rfl h

theorem finalSelect_lt (h : 0 < m.particles.length) : m.finalSelect.2 < m.particles.length := by
  unfold finalSelect sampleIndex
  dsimp only
  rw [length_normalizeLogWeightsAndEss, length_map]
  cases hindex : sampleIndexFrom (m.rng m.numDraws)
      (normalizeLogWeightsAndEss (m.particles.map (·.weight.logWeight))).1 0 0 with
  | none =>
    rw [getD_none]
    omega
  | some i =>
    have hlt := sampleIndexFrom_lt hindex
    rwa [length_normalizeLogWeightsAndEss, length_map, Nat.zero_add] at hlt

/-! ## Generators -/

variable {rng : ℕ → F} {frontEnd frontEnd' : PowerSMCGroupManager F}

/-- The manager with another generator. -/
def withRng (m : PowerSMCGroupManager F) (rng : ℕ → F) : PowerSMCGroupManager F :=
  { m with rng := rng }

def dueWeights (m : PowerSMCGroupManager F) : Option (List F) := do
  let boundary ← if m.eligibleResampleBoundary.2 then none else m.eligibleResampleBoundary.1
  let states ← (m.particles.mapM fun particle : PowerSMCParticleState F => particle.stateAt boundary).toOption
  (boundaryWeights m.config.particles (states.map (·.logWeight))).1

/-- The next draws of two generators pick the same ancestors. -/
def SameDraw (m m' : PowerSMCGroupManager F) : Prop :=
  ∀ weights ∈ m.dueWeights, systematicResample weights (m.rng m.numDraws) =
    systematicResample weights (m'.rng m'.numDraws)

theorem checkBoundary_withRng
    (hdraw : ∀ states, m.particles.mapM (fun particle => particle.stateAt boundary) = .ok states →
      ∀ weights ∈ (boundaryWeights m.config.particles (states.map (·.logWeight))).1,
      systematicResample weights (m.rng m.numDraws) = systematicResample weights (rng m.numDraws))
    (h : m.checkBoundary boundary = .ok (m', flag)) :
    (m.withRng rng).checkBoundary boundary = .ok (m'.withRng rng, flag) := by
  obtain ⟨states, hstates, h⟩ := bind_eq_ok.mp h
  refine bind_eq_ok.mpr ⟨states, hstates, ?_⟩
  dsimp only [withRng] at h ⊢
  split_ifs at h ⊢ with hess
  · cases h
    rfl
  cases hweights : (boundaryWeights m.config.particles (states.map (·.logWeight))).1 with
  | none =>
    simp [hweights] at h
  | some weights =>
    rw [hweights] at h
    cases h
    have hsame := hdraw states hstates weights hweights
    simp only [resampleAt, hsame]
    rfl

theorem mem_dueWeights (hboundary : m.eligibleResampleBoundary = (some boundary, false))
    (hstates : m.particles.mapM (fun particle => particle.stateAt boundary) = .ok states)
    (hweights : weights ∈ (boundaryWeights m.config.particles (states.map (·.logWeight))).1) :
    weights ∈ m.dueWeights := by
  unfold dueWeights
  rw [hboundary]
  refine Option.bind_eq_some_iff.mpr ⟨states, ?_, hweights⟩
  rw [hstates]
  rfl

theorem maybeResample_withRng (hdraw : ∀ weights ∈ m.dueWeights,
      systematicResample weights (m.rng m.numDraws) = systematicResample weights (rng m.numDraws))
    (h : m.maybeResample = .ok (m', flag)) :
    (m.withRng rng).maybeResample = .ok (m'.withRng rng, flag) := by
  have hdue : (m.withRng rng).dueBoundary = m.dueBoundary := rfl
  rw [maybeResample_eq] at h ⊢
  rw [hdue]
  cases hb : m.dueBoundary with
  | none =>
    rw [hb] at h
    cases h
    rfl
  | some boundary =>
    rw [hb] at h
    exact checkBoundary_withRng (m := m.called)
      (fun states hstates weights hweights => hdraw weights (mem_dueWeights (eligible_of_due hb).1 hstates hweights)) h

theorem maybeResample_sameDraw {flag' : Bool} (hsame : m.withRng frontEnd.rng = frontEnd)
    (hdraw : m.SameDraw frontEnd) (h : m.maybeResample = .ok (m', flag))
    (h' : frontEnd.maybeResample = .ok (frontEnd', flag')) : m'.withRng frontEnd'.rng = frontEnd' := by
  have hdraws : frontEnd.numDraws = m.numDraws := congrArg (·.numDraws) hsame.symm
  have hresample : (m.withRng frontEnd.rng).maybeResample = .ok (m'.withRng frontEnd.rng, flag) :=
    maybeResample_withRng (fun weights hweights => by rw [hdraw weights hweights, hdraws]) h
  rw [hsame] at hresample
  obtain ⟨rfl, -⟩ := Prod.mk.inj (Except.ok.inj (hresample.symm.trans h'))
  rfl

end PowerSMCGroupManager

end VllmPs
