import VllmPs.PowerSMC.Operations

/-!
# The two replicas of a Power-SMC group

The scheduler and the front end each keep a group manager for the same parent request. The scheduler creates
its manager at the first output it observes, does not observe stopping outputs, and drops the manager when all
observed children have finished; the front end marks particles as done.
-/

namespace VllmPs

open Lib PowerSMCGroupManager List Option

variable {F : Type} [PyFloat F]

structure ChildOutput (F : Type) where
  particleIdx : ℕ
  tokenId : Token
  baseLogp : F
  proposalLogq : F
  finishReason : Option String := none
  stopReason : Option String := none
deriving DecidableEq

/-- The children whose outputs stop them. -/
def stopped (outs : List (ChildOutput F)) : List ℕ :=
  (outs.filter (·.finishReason.isSome)).map (·.particleIdx)

def tokensFor (outs : List (ChildOutput F)) (index : ℕ) : ℕ :=
  outs.countP fun out => decide (out.particleIdx = index) && out.finishReason.isNone

/-- A parent request: its configuration, its seed, and what `random.Random(seed)` draws. -/
structure PowerSMCParent (F : Type) where
  config : PowerSMCConfig F
  seed : ℤ
  randomOf : ℤ → ℕ → F

namespace PowerSMCParent

variable (parent : PowerSMCParent F)

def childSeed (index : ℕ) : ℤ := parent.seed + index

/-- The front end's new manager. -/
def newFrontEnd : PowerSMCGroupManager F := .new parent.config (parent.randomOf parent.seed)

def newScheduler (index : ℕ) : PowerSMCGroupManager F :=
  .new parent.config (parent.randomOf (parent.childSeed index - index))

theorem newScheduler_eq (index : ℕ) : parent.newScheduler index = parent.newFrontEnd := by
  rw [newScheduler, newFrontEnd, childSeed, add_sub_cancel_right]

end PowerSMCParent

structure SchedulerReplica (F : Type) [PyFloat F] where
  manager : Option (PowerSMCGroupManager F) := none
  children : List ℕ := []

namespace SchedulerReplica

/-- The part of `_free_blocks` about the group: forget the child, and the group with its last child. -/
def freeChild (s : SchedulerReplica F) (index : ℕ) : SchedulerReplica F :=
  match s.manager with
  | none => s
  | some _ =>
    let children := s.children.erase index
    if children.isEmpty then {} else { s with children := children }

/-- One output in `update_from_output`: a stopping output frees the child, any other is observed. The
flag asks for resampling. -/
def observe (parent : PowerSMCParent F) (s : SchedulerReplica F) (out : ChildOutput F) :
    Except PyError (SchedulerReplica F × Bool) :=
  if out.finishReason.isSome then .ok (s.freeChild out.particleIdx, false)
  else if parent.config.particles ≤ out.particleIdx then .error .runtimeError
  else do
    let manager := s.manager.getD (parent.newScheduler out.particleIdx)
    let updated ← manager.updateAfterToken out.particleIdx out.tokenId out.baseLogp out.proposalLogq
      none none
    return (⟨some updated.1, s.children.insert out.particleIdx⟩, updated.2)

/-- The outputs of a step in turn. -/
def observeAll (parent : PowerSMCParent F) (s : SchedulerReplica F) (outs : List (ChildOutput F)) :
    Except PyError (SchedulerReplica F × Bool) :=
  outs.foldlM (fun state out => do
    let observed ← observe parent state.1 out
    return (observed.1, state.2 || observed.2)) (s, false)

/-- `_maybe_resample_power_smc_parent`, if the step asked for it; the ancestors if it resampled. -/
def resample (s : SchedulerReplica F) (asked : Bool) :
    Except PyError (SchedulerReplica F × Option (List ℕ)) :=
  match s.manager, asked with
  | some manager, true => do
    let resampled ← manager.maybeResample
    return ({ s with manager := some resampled.1 }, resampled.1.lastResamplePlan.map (·.ancestors))
  | _, _ => .ok (s, none)

end SchedulerReplica

variable (m : PowerSMCGroupManager F)

/-- One output in `observe_power_smc_step`. -/
def observeFrontEnd (out : ChildOutput F) : Except PyError (PowerSMCGroupManager F × Bool) := do
  let updated ← m.updateAfterToken out.particleIdx out.tokenId out.baseLogp out.proposalLogq
    out.finishReason out.stopReason
  return (updated.1, out.finishReason.isSome || updated.2)

/-- The outputs of a step in turn. -/
def observeAllFrontEnd (outs : List (ChildOutput F)) : Except PyError (PowerSMCGroupManager F × Bool) :=
  outs.foldlM (fun state out => do
    let observed ← observeFrontEnd state.1 out
    return (observed.1, state.2 || observed.2)) (m, false)

/-- `maybe_resample_power_smc`, if the step asked for it; the ancestors if it resampled. -/
def resampleFrontEnd (asked : Bool) : Except PyError (PowerSMCGroupManager F × Option (List ℕ)) :=
  if asked then do
    let resampled ← m.maybeResample
    return (resampled.1, resampled.1.lastResamplePlan.map (·.ancestors))
  else .ok (m, none)

/-- Both replicas with the children that have finished and the decisions of the last step. -/
structure Replicas (F : Type) [PyFloat F] where
  parent : PowerSMCParent F
  scheduler : SchedulerReplica F := {}
  frontEnd : PowerSMCGroupManager F
  finished : List ℕ := []
  schedulerDecision : Option (List ℕ) := none
  frontEndDecision : Option (List ℕ) := none

namespace Replicas

variable (s : Replicas F)
variable (outs : List (ChildOutput F))

/-- One engine step. -/
def step : Except PyError (Replicas F) := do
  let observed ← s.scheduler.observeAll s.parent outs
  let scheduler ← observed.1.resample observed.2
  let observedFrontEnd ← observeAllFrontEnd s.frontEnd outs
  let frontEnd ← resampleFrontEnd observedFrontEnd.1 observedFrontEnd.2
  return { s with
    scheduler := scheduler.1
    frontEnd := frontEnd.1
    finished := s.finished ++ stopped outs
    schedulerDecision := scheduler.2
    frontEndDecision := frontEnd.2 }

/-- Both sides before the first output of a valid request. -/
def Initial : Prop :=
  ∃ parent : PowerSMCParent F, parent.config.validateSelf = true ∧
    s = { parent := parent, frontEnd := parent.newFrontEnd }

/-- A step has at most one output of each child, and none of a finished one. -/
def Legal : Prop :=
  (outs.map (·.particleIdx)).Nodup ∧
    ∀ out ∈ outs, out.particleIdx < s.parent.config.particles ∧ out.particleIdx ∉ s.finished
  deriving Decidable

def schedulerManager : PowerSMCGroupManager F :=
  s.scheduler.manager.getD s.parent.newFrontEnd

def KeepsCheckedBoundary : Prop :=
  (s.finished ≠ [] ∨ ∃ out ∈ outs, out.finishReason.isSome = true) →
    ∃ index < s.parent.config.particles,
      ((tokenIdsOf s.schedulerManager index).length + tokensFor outs index) /
          s.parent.config.blockSize * s.parent.config.blockSize ≤
        s.schedulerManager.lastBoundaryCheckLength

end Replicas

open Replicas (tokenIdsOf)

/-! ## Agreement while outputs are observed -/

/-- The scheduler's manager, or a new one. -/
def SchedulerReplica.managerOr (config : PowerSMCConfig F) (s : SchedulerReplica F) : PowerSMCGroupManager F :=
  s.manager.getD (.new config fun _ => 0)

/-- The two sides agree on every particle that has not finished, and are equal up to their generators while
none has. The generators are the given one, if one is given. -/
structure Agree (config : PowerSMCConfig F) (rng : Option (ℕ → F)) (scheduler : SchedulerReplica F)
    (frontEnd : PowerSMCGroupManager F) (finished : List ℕ) : Prop where
  schedulerLength : (scheduler.managerOr config).particles.length = config.particles
  frontEndLength : frontEnd.particles.length = config.particles
  schedulerConfig : (scheduler.managerOr config).config = config
  frontEndConfig : frontEnd.config = config
  notDone : ∀ particle ∈ (scheduler.managerOr config).particles, particle.done = false
  tokens : ∀ i, i ∉ finished → tokenIdsOf (scheduler.managerOr config) i = tokenIdsOf frontEnd i
  done : ∀ i ∈ finished, ∃ particle, frontEnd.particles[i]? = some particle ∧ particle.done = true
  observed : ∀ i, i ∉ finished → tokenIdsOf frontEnd i ≠ [] → i ∈ scheduler.children
  same : finished = [] → (scheduler.managerOr config).withRng frontEnd.rng = frontEnd
  rngs : ∀ r ∈ rng, (∀ m ∈ scheduler.manager, m.rng = r) ∧ frontEnd.rng = r

namespace Agree

variable {config : PowerSMCConfig F} {rng : Option (ℕ → F)} {parent : PowerSMCParent F}
  {scheduler scheduler' : SchedulerReplica F} {frontEnd frontEnd' : PowerSMCGroupManager F} {finished : List ℕ}
  {out : ChildOutput F} {asked askedFrontEnd : Bool}
variable {start : PowerSMCGroupManager F} {received : ℕ → ℕ}
variable {rest outs : List (ChildOutput F)}

theorem tokenIdsOf_new (config : PowerSMCConfig F) (draws : ℕ → F) (i : ℕ) :
    tokenIdsOf (.new config draws) i = [] := by
  change ((List.replicate config.particles _)[i]?.map _).getD [] = []
  rw [getElem?_replicate]
  split_ifs <;> rfl

theorem initial (config : PowerSMCConfig F) (draws : ℕ → F) (hrng : ∀ r ∈ rng, draws = r) :
    Agree config rng {} (.new config draws) [] where
  schedulerLength := length_replicate
  frontEndLength := length_replicate
  schedulerConfig := rfl
  frontEndConfig := rfl
  notDone particle hmem := by
    rw [eq_of_mem_replicate hmem]
  tokens i _ := (tokenIdsOf_new config _ i).trans (tokenIdsOf_new config draws i).symm
  done _ hmem := absurd hmem not_mem_nil
  observed i _ hne := absurd (tokenIdsOf_new config draws i) hne
  same _ := rfl
  rngs r hr := ⟨nofun, hrng r hr⟩

theorem freeChild_cases (scheduler : SchedulerReplica F) (index : ℕ) :
    ((scheduler.freeChild index).manager = scheduler.manager ∧
      ∀ i ∈ scheduler.children, i ≠ index → i ∈ (scheduler.freeChild index).children) ∨
    (scheduler.freeChild index = {} ∧ ∀ i ∈ scheduler.children, i = index) := by
  unfold SchedulerReplica.freeChild
  cases hmanager : scheduler.manager with
  | none => exact Or.inl ⟨hmanager, fun _ hi _ => hi⟩
  | some manager =>
    dsimp only
    split_ifs with hempty
    · refine Or.inr ⟨rfl, fun i hi => ?_⟩
      by_contra hne
      have hmem := (mem_erase_of_ne hne).mpr hi
      rw [isEmpty_iff.mp hempty] at hmem
      exact absurd hmem not_mem_nil
    · exact Or.inl ⟨rfl, fun i hi hne => (mem_erase_of_ne hne).mpr hi⟩

theorem stop (h : Agree config rng scheduler frontEnd finished) (hstop : out.finishReason.isSome = true)
    (hscheduler : scheduler.observe parent out = .ok (scheduler', asked))
    (hfrontEnd : observeFrontEnd frontEnd out = .ok (frontEnd', askedFrontEnd)) :
    Agree config rng scheduler' frontEnd' (finished ++ [out.particleIdx]) := by
  unfold SchedulerReplica.observe at hscheduler
  rw [if_pos hstop] at hscheduler
  obtain ⟨rfl, -⟩ := ok_mk_inj hscheduler
  obtain ⟨⟨updated, flag⟩, hupdate, hret⟩ := bind_pure_eq_ok.mp hfrontEnd
  obtain ⟨rfl, -⟩ := Prod.mk.inj hret
  obtain ⟨particle, hparticle, -, rfl, -⟩ := updateAfterToken_eq_ok.mp hupdate
  have hindex : out.particleIdx < frontEnd.particles.length := (List.getElem?_eq_some_iff.mp hparticle).1
  have hkeep (i : ℕ) (hi : i ∉ finished ++ [out.particleIdx]) : i ∉ finished ∧ i ≠ out.particleIdx := by
    simpa using hi
  set marked := appendToken frontEnd.config particle out.tokenId out.baseLogp out.proposalLogq
    out.finishReason out.stopReason with hmarked
  have htokens (i : ℕ) (hi : i ∉ finished ++ [out.particleIdx]) :
      tokenIdsOf (frontEnd.setParticle out.particleIdx marked) i = tokenIdsOf frontEnd i := by
    rw [tokenIdsOf_set hindex, if_neg (hkeep i hi).2]
  have hlength : (frontEnd.setParticle out.particleIdx marked).particles.length = config.particles := by
    rw [setParticle, length_set, h.frontEndLength]
  have hdone (i : ℕ) (hi : i ∈ finished ++ [out.particleIdx]) : ∃ particle,
      (frontEnd.setParticle out.particleIdx marked).particles[i]? = some particle ∧ particle.done = true := by
    rcases eq_or_ne i out.particleIdx with rfl | hne
    · exact ⟨marked, List.getElem?_set_self hindex, hstop⟩
    · rw [setParticle, List.getElem?_set_ne (Ne.symm hne)]
      exact h.done i (by simpa [hne] using hi)
  rcases freeChild_cases scheduler out.particleIdx with ⟨hmanager, hchildren⟩ | ⟨hempty, hchildren⟩
  · have hsame : (scheduler.freeChild out.particleIdx).managerOr config = scheduler.managerOr config := by
      rw [SchedulerReplica.managerOr, hmanager, SchedulerReplica.managerOr]
    refine ⟨hsame ▸ h.schedulerLength, hlength, hsame ▸ h.schedulerConfig, h.frontEndConfig,
      hsame ▸ h.notDone, fun i hi => ?_, hdone, fun i hi hne => ?_, by simp, hmanager ▸ h.rngs⟩
    · rw [hsame, htokens i hi]
      exact h.tokens i (hkeep i hi).1
    · rw [htokens i hi] at hne
      exact hchildren i (h.observed i (hkeep i hi).1 hne) (hkeep i hi).2
  -- the group is dropped; whatever has not finished has no tokens yet
  have hnew : Agree config none {} (.new config fun _ => 0) [] := initial config _ nofun
  rw [hempty]
  have hnone (i : ℕ) (hi : i ∉ finished ++ [out.particleIdx]) : tokenIdsOf frontEnd i = [] := by
    by_contra hne
    exact (hkeep i hi).2 (hchildren i (h.observed i (hkeep i hi).1 hne))
  refine ⟨hnew.schedulerLength, hlength, rfl, h.frontEndConfig, hnew.notDone, fun i hi => ?_, hdone,
    fun i hi hne => ?_, by simp, fun r hr => ⟨nofun, (h.rngs r hr).2⟩⟩
  · rw [htokens i hi, hnone i hi]
    exact tokenIdsOf_new config _ i
  · rw [htokens i hi] at hne
    exact absurd (hnone i hi) hne

theorem observe_of_none (hgoes : out.finishReason = none)
    (h : scheduler.observe parent out = .ok (scheduler', asked)) :
    ∃ draws particle, draws = (scheduler.manager.getD (parent.newScheduler out.particleIdx)).rng ∧
      (scheduler.managerOr parent.config).particles[out.particleIdx]? = some particle ∧
      scheduler' = ⟨some (((scheduler.managerOr parent.config).withRng draws).setParticle out.particleIdx
        (appendToken (scheduler.managerOr parent.config).config particle out.tokenId out.baseLogp out.proposalLogq
          none none)), scheduler.children.insert out.particleIdx⟩ ∧
      asked = decide ((particle.tokenIds.length + 1) % (scheduler.managerOr parent.config).config.blockSize = 0) := by
  unfold SchedulerReplica.observe at h
  rw [hgoes, isSome_none, if_neg (by decide)] at h
  split_ifs at h
  obtain ⟨⟨updated, flag⟩, hupdate, hret⟩ := bind_pure_eq_ok.mp h
  cases hret
  obtain ⟨particle, hparticle, -, rfl, rfl⟩ := updateAfterToken_eq_ok.mp hupdate
  obtain ⟨manager, children⟩ := scheduler
  cases manager <;> exact ⟨_, particle, rfl, hparticle, rfl, rfl⟩

/-- An output that does not stop is observed by both sides, and both ask for resampling alike. -/
theorem observe (h : Agree parent.config rng scheduler frontEnd finished)
    (hrng : ∀ r ∈ rng, ∀ i, (parent.newScheduler i).rng = r) (hgoes : out.finishReason = none)
    (hunfinished : out.particleIdx ∉ finished)
    (hscheduler : scheduler.observe parent out = .ok (scheduler', asked))
    (hfrontEnd : observeFrontEnd frontEnd out = .ok (frontEnd', askedFrontEnd)) :
    Agree parent.config rng scheduler' frontEnd' finished ∧ asked = askedFrontEnd := by
  obtain ⟨draws, particle, hdraws, hparticle, rfl, rfl⟩ := observe_of_none hgoes hscheduler
  obtain ⟨⟨updated', flag'⟩, hupdate', hret'⟩ := bind_eq_ok.mp hfrontEnd
  cases hret'
  obtain ⟨particle', hparticle', -, rfl, rfl⟩ := updateAfterToken_eq_ok.mp hupdate'
  set manager := scheduler.managerOr parent.config
  have hindex : out.particleIdx < (manager.withRng draws).particles.length :=
    (List.getElem?_eq_some_iff.mp hparticle).1
  have hindex' : out.particleIdx < frontEnd.particles.length :=
    (List.getElem?_eq_some_iff.mp hparticle').1
  have hsame : particle.tokenIds = particle'.tokenIds := by
    rw [← tokenIdsOf_of_getElem? hparticle, ← tokenIdsOf_of_getElem? hparticle']
    exact h.tokens _ hunfinished
  refine ⟨⟨?_, ?_, h.schedulerConfig, h.frontEndConfig, fun p hp => ?_, fun i hi => ?_, fun i hi => ?_,
    fun i hi hne => ?_, fun hnil => ?_, fun r hr => ⟨?_, (h.rngs r hr).2⟩⟩, ?_⟩
  · change (manager.particles.set _ _).length = _
    rw [length_set]
    exact h.schedulerLength
  · rw [setParticle, length_set, h.frontEndLength]
  · rcases mem_or_eq_of_mem_set hp with hp | rfl
    · exact h.notDone p hp
    · rfl
  · rw [SchedulerReplica.managerOr, getD_some, tokenIdsOf_set hindex, tokenIdsOf_set hindex']
    split_ifs
    · change particle.tokenIds ++ [out.tokenId] = particle'.tokenIds ++ [out.tokenId]
      rw [hsame]
    · exact h.tokens i hi
  · have hne : i ≠ out.particleIdx := fun heq => hunfinished (heq ▸ hi)
    rw [setParticle, List.getElem?_set_ne (Ne.symm hne)]
    exact h.done i hi
  · rcases eq_or_ne i out.particleIdx with rfl | hneq
    · exact mem_insert_self
    · rw [tokenIdsOf_set hindex', if_neg hneq] at hne
      exact mem_insert_of_mem (h.observed i hi hne)
  · have heq : manager.withRng frontEnd.rng = frontEnd := h.same hnil
    rw [← heq] at hparticle' ⊢
    obtain rfl := mem_unique hparticle hparticle'
    rw [hgoes]
    rfl
  · rintro m hm
    cases hm
    rw [hdraws]
    cases hmanager : scheduler.manager with
    | none => exact hrng r hr _
    | some m => exact (h.rngs r hr).1 m hmanager
  · rw [hgoes, hsame, h.schedulerConfig, h.frontEndConfig]
    rfl

omit [PyFloat F] in
theorem stopped_cons_of_stop (h : out.finishReason.isSome = true) :
    stopped (out :: rest) = out.particleIdx :: stopped rest := by
  simp [stopped, h]

omit [PyFloat F] in
theorem stopped_cons_of_none (h : out.finishReason = none) : stopped (out :: rest) = stopped rest := by
  simp [stopped, h]

def GrowsBy (config : PowerSMCConfig F) (start m : PowerSMCGroupManager F) (received : ℕ → ℕ)
    (finished : List ℕ) : Prop :=
  (m.lastBoundaryCheckLength = start.lastBoundaryCheckLength ∧
    ∀ i, (tokenIdsOf m i).length ≤ (tokenIdsOf start i).length + received i) ∨
  ∃ i ∈ finished, i < config.particles ∧ tokenIdsOf m i = []

section

variable (h : GrowsBy parent.config start (scheduler.managerOr parent.config) received finished)
  (hobserve : scheduler.observe parent out = .ok (scheduler', asked))
include h hobserve

theorem GrowsBy.observe (hgoes : out.finishReason = none) (hunfinished : out.particleIdx ∉ finished) :
    GrowsBy parent.config start (scheduler'.managerOr parent.config)
      (fun i => received i + if i = out.particleIdx then 1 else 0) finished := by
  obtain ⟨draws, particle, -, hparticle, rfl, -⟩ := observe_of_none hgoes hobserve
  have hindex : out.particleIdx < ((scheduler.managerOr parent.config).withRng draws).particles.length :=
    (List.getElem?_eq_some_iff.mp hparticle).1
  rw [SchedulerReplica.managerOr, getD_some]
  rcases h with ⟨hlast, hlength⟩ | ⟨i, hi, hin, hnil⟩
  · refine Or.inl ⟨hlast, fun i => ?_⟩
    have hi := hlength i
    rw [tokenIdsOf_set hindex]
    rcases eq_or_ne i out.particleIdx with rfl | hne
    · rw [tokenIdsOf_of_getElem? hparticle] at hi
      simp only [if_true, length_appendToken]
      omega
    · simp only [hne, if_false]
      exact hi
  · have hne : i ≠ out.particleIdx := fun heq => hunfinished (heq ▸ hi)
    refine Or.inr ⟨i, hi, hin, ?_⟩
    rwa [tokenIdsOf_set hindex, if_neg hne]

theorem GrowsBy.stop (hstop : out.finishReason.isSome = true) (hlt : out.particleIdx < parent.config.particles) :
    GrowsBy parent.config start (scheduler'.managerOr parent.config) received
      (finished ++ [out.particleIdx]) := by
  unfold SchedulerReplica.observe at hobserve
  rw [if_pos hstop] at hobserve
  obtain ⟨rfl, -⟩ := ok_mk_inj hobserve
  rcases freeChild_cases scheduler out.particleIdx with ⟨hmanager, -⟩ | ⟨hempty, -⟩
  · rw [SchedulerReplica.managerOr, hmanager]
    rcases h with h | ⟨i, hi, hrest⟩
    · exact Or.inl h
    · exact Or.inr ⟨i, mem_append_left _ hi, hrest⟩
  · refine Or.inr ⟨out.particleIdx, by simp, hlt, ?_⟩
    rw [hempty]
    exact tokenIdsOf_new parent.config _ _

end

omit [PyFloat F] in
theorem tokensFor_cons (rest : List (ChildOutput F)) (i : ℕ) : tokensFor (out :: rest) i =
    tokensFor rest i + if i = out.particleIdx ∧ out.finishReason = none then 1 else 0 := by
  rw [tokensFor, tokensFor, countP_cons]
  congr 1
  rcases eq_or_ne i out.particleIdx with rfl | hne
  · cases out.finishReason <;> simp
  · simp [hne, Ne.symm hne]

/-- All outputs of a step. Without a stopping one, both sides ask for resampling alike, and only if
the scheduler has a manager. -/
theorem observeAll (h : Agree parent.config rng scheduler frontEnd finished)
    (hgrows : GrowsBy parent.config start (scheduler.managerOr parent.config) received finished)
    (hrng : ∀ r ∈ rng, ∀ i, (parent.newScheduler i).rng = r) (hnodup : (outs.map (·.particleIdx)).Nodup)
    (hlegal : ∀ out ∈ outs, out.particleIdx < parent.config.particles ∧ out.particleIdx ∉ finished)
    {flag flagFrontEnd : Bool}
    (hscheduler : outs.foldlM (fun state out => do
      let observed ← SchedulerReplica.observe parent state.1 out
      return (observed.1, state.2 || observed.2)) (scheduler, flag) = .ok (scheduler', asked))
    (hfrontEnd : outs.foldlM (fun state out => do
      let observed ← observeFrontEnd state.1 out
      return (observed.1, state.2 || observed.2)) (frontEnd, flagFrontEnd) = .ok (frontEnd', askedFrontEnd)) :
    Agree parent.config rng scheduler' frontEnd' (finished ++ stopped outs) ∧
      GrowsBy parent.config start (scheduler'.managerOr parent.config)
        (fun i => received i + tokensFor outs i) (finished ++ stopped outs) ∧
      (stopped outs = [] → flag = flagFrontEnd → asked = askedFrontEnd) ∧
      (stopped outs = [] → (flag = true → scheduler.manager ≠ none) →
        asked = true → scheduler'.manager ≠ none) := by
  induction outs generalizing scheduler frontEnd finished received flag flagFrontEnd with
  | nil =>
    cases hscheduler
    cases hfrontEnd
    exact ⟨by simpa [stopped] using h, by simpa [stopped, tokensFor] using hgrows, fun _ heq => heq,
      fun _ hstart => hstart⟩
  | cons out rest ih =>
    obtain ⟨middle, hfirst, hscheduler⟩ := foldlM_cons_eq_ok.mp hscheduler
    obtain ⟨⟨scheduler₁, asked₁⟩, hobserve, rfl⟩ := bind_pure_eq_ok.mp hfirst
    obtain ⟨middle', hfirst', hfrontEnd⟩ := foldlM_cons_eq_ok.mp hfrontEnd
    obtain ⟨⟨frontEnd₁, asked₁'⟩, hobserve', hret'⟩ := bind_eq_ok.mp hfirst'
    cases hret'
    rw [map_cons, nodup_cons] at hnodup
    obtain ⟨hlt, hunfinished⟩ := hlegal out mem_cons_self
    have hlegal' : ∀ out' ∈ rest, out'.particleIdx < parent.config.particles ∧
        out'.particleIdx ∉ finished := fun out' hmem => hlegal out' (mem_cons_of_mem _ hmem)
    cases hfinish : out.finishReason with
    | none =>
      obtain ⟨hagree, hasked⟩ := h.observe hrng hfinish hunfinished hobserve hobserve'
      obtain ⟨hagree', hgrows', hasked', hmanager⟩ :=
        ih hagree (hgrows.observe hobserve hfinish hunfinished) hnodup.2 hlegal' hscheduler hfrontEnd
      have hreceived : (fun i => received i + tokensFor (out :: rest) i) =
          fun i => received i + (if i = out.particleIdx then 1 else 0) + tokensFor rest i := by
        funext i
        rw [tokensFor_cons, hfinish]
        simp only [and_true]
        omega
      rw [stopped_cons_of_none hfinish, hreceived]
      refine ⟨hagree', hgrows', fun hnil heq => hasked' hnil (by rw [heq, hasked]), fun hnil _ => hmanager hnil ?_⟩
      obtain ⟨_, _, -, -, rfl, -⟩ := observe_of_none hfinish hobserve
      exact fun _ => nofun
    | some reason =>
      have hstop : out.finishReason.isSome = true := by rw [hfinish]; rfl
      obtain ⟨hagree', hgrows', -⟩ := ih (h.stop hstop hobserve hobserve') (hgrows.stop hobserve hstop hlt) hnodup.2
        (fun out' hmem => ⟨(hlegal' out' hmem).1, by
          have hne : out'.particleIdx ≠ out.particleIdx := fun heq => hnodup.1 (heq ▸ mem_map_of_mem hmem)
          simpa using ⟨(hlegal' out' hmem).2, hne⟩⟩) hscheduler hfrontEnd
      have hreceived : (fun i => received i + tokensFor (out :: rest) i) =
          fun i => received i + tokensFor rest i := by
        funext i
        rw [tokensFor_cons, hfinish]
        simp
      rw [stopped_cons_of_stop hstop, hreceived, append_cons]
      exact ⟨hagree', hgrows', by simp, by simp⟩

theorem GrowsBy.boundary {m : PowerSMCGroupManager F}
    (h : GrowsBy config start m received finished) (hlength : m.particles.length = config.particles)
    (hkeeps : ∃ index < config.particles,
      ((tokenIdsOf start index).length + received index) / config.blockSize * config.blockSize ≤
        start.lastBoundaryCheckLength) :
    ∃ particle ∈ m.particles,
      particle.tokenIds.length / config.blockSize * config.blockSize ≤ m.lastBoundaryCheckLength := by
  have hparticle (i : ℕ) (hi : i < config.particles) :
      ∃ particle ∈ m.particles, tokenIdsOf m i = particle.tokenIds := by
    rw [← hlength] at hi
    exact ⟨_, getElem_mem hi, tokenIdsOf_of_getElem? (getElem?_eq_getElem hi)⟩
  rcases h with ⟨hlast, hgrows⟩ | ⟨i, -, hi, hnil⟩
  · obtain ⟨index, hindex, hle⟩ := hkeeps
    obtain ⟨particle, hmem, htokens⟩ := hparticle index hindex
    refine ⟨particle, hmem, ?_⟩
    rw [hlast, ← htokens]
    exact (Nat.mul_le_mul_right _ (Nat.div_le_div_right (hgrows index))).trans hle
  · obtain ⟨particle, hmem, htokens⟩ := hparticle i hi
    refine ⟨particle, hmem, ?_⟩
    rw [← htokens, hnil, length_nil, Nat.zero_div, Nat.zero_mul]
    exact Nat.zero_le _

/-! ## Agreement when a step resamples -/

variable {decision decision' : Option (List ℕ)} {m m' : PowerSMCGroupManager F}

theorem tokenIdsOf_congr (h : m'.particles = m.particles) (i : ℕ) : tokenIdsOf m' i = tokenIdsOf m i := by
  rw [Replicas.tokenIdsOf, h, Replicas.tokenIdsOf]

theorem keep (h : Agree config rng scheduler frontEnd finished) (hfinished : finished ≠ [])
    (hscheduler : (scheduler'.managerOr config).particles = (scheduler.managerOr config).particles ∧
      (scheduler'.managerOr config).config = (scheduler.managerOr config).config ∧
      scheduler'.children = scheduler.children)
    (hfrontEnd : frontEnd'.particles = frontEnd.particles ∧ frontEnd'.config = frontEnd.config)
    (hrngs : ∀ r ∈ rng, (∀ m ∈ scheduler'.manager, m.rng = r) ∧ frontEnd'.rng = r) :
    Agree config rng scheduler' frontEnd' finished := by
  obtain ⟨hparticles, hconfig, hchildren⟩ := hscheduler
  refine ⟨hparticles ▸ h.schedulerLength, hfrontEnd.1 ▸ h.frontEndLength, hconfig.trans h.schedulerConfig,
    hfrontEnd.2.trans h.frontEndConfig, hparticles ▸ h.notDone, fun i hi => ?_, hfrontEnd.1 ▸ h.done,
    fun i hi hne => ?_, fun hnil => absurd hnil hfinished, hrngs⟩
  · rw [tokenIdsOf_congr hparticles, tokenIdsOf_congr hfrontEnd.1]
    exact h.tokens i hi
  · rw [tokenIdsOf_congr hfrontEnd.1] at hne
    exact hchildren ▸ h.observed i hi hne

theorem resample_of_behind (hconfig : (scheduler.managerOr config).config = config)
    (hboundary : ∃ particle ∈ (scheduler.managerOr config).particles,
      particle.tokenIds.length / config.blockSize * config.blockSize ≤
        (scheduler.managerOr config).lastBoundaryCheckLength)
    (h : scheduler.resample asked = .ok (scheduler', decision)) :
    ((scheduler'.managerOr config).particles = (scheduler.managerOr config).particles ∧
      (scheduler'.managerOr config).config = (scheduler.managerOr config).config ∧
      scheduler'.children = scheduler.children) ∧ decision = none ∧
      (∀ m' ∈ scheduler'.manager, ∃ m ∈ scheduler.manager, m'.rng = m.rng) ∧
      (asked = true → (scheduler'.manager.bind fun m => m.lastResamplePlan) = none) := by
  obtain ⟨_ | manager, children⟩ := scheduler
  · cases h
    exact ⟨⟨rfl, rfl, rfl⟩, rfl, nofun, fun _ => rfl⟩
  cases asked with
  | false =>
    cases h
    exact ⟨⟨rfl, rfl, rfl⟩, rfl, fun m hm => ⟨m, hm, rfl⟩, nofun⟩
  | true =>
    obtain ⟨⟨resampled, flag⟩, hresample, hret⟩ := bind_pure_eq_ok.mp h
    cases hret
    rw [← hconfig] at hboundary
    obtain ⟨particle, hmem, hle⟩ := hboundary
    rw [maybeResample_of_due_none (m := manager) (dueBoundary_eq_none ⟨particle, hmem, .inr hle⟩)] at hresample
    obtain ⟨rfl, -⟩ := ok_mk_inj hresample
    refine ⟨⟨rfl, rfl, rfl⟩, rfl, fun m hm => ⟨manager, rfl, ?_⟩, fun _ => rfl⟩
    rw [← some.inj hm]
    rfl

theorem resampleFrontEnd_of_done (hdone : ∃ particle ∈ m.particles, particle.done = true)
    (h : resampleFrontEnd m asked = .ok (m', decision)) :
    (m'.particles = m.particles ∧ m'.config = m.config) ∧ m'.rng = m.rng ∧ decision = none := by
  unfold resampleFrontEnd at h
  split_ifs at h
  · obtain ⟨⟨resampled, flag⟩, hresample, hret⟩ := bind_pure_eq_ok.mp h
    cases hret
    obtain ⟨particle, hmem, hdone⟩ := hdone
    rw [maybeResample_of_due_none (dueBoundary_eq_none ⟨particle, hmem, .inl hdone⟩)] at hresample
    obtain ⟨rfl, -⟩ := ok_mk_inj hresample
    exact ⟨⟨rfl, rfl⟩, rfl, rfl⟩
  · cases h
    exact ⟨⟨rfl, rfl⟩, rfl, rfl⟩

theorem exists_done (h : Agree config rng scheduler frontEnd finished) (hfinished : finished ≠ []) :
    ∃ particle ∈ frontEnd.particles, particle.done = true := by
  obtain ⟨i, hi⟩ := exists_mem_of_ne_nil finished hfinished
  obtain ⟨particle, hparticle, hdone⟩ := h.done i hi
  exact ⟨particle, mem_of_getElem? hparticle, hdone⟩

/-- One manager on both sides up to the generators, after a call of `maybe_resample`. -/
theorem resampled {children : List ℕ} (h : Agree config rng ⟨some m, children⟩ frontEnd [])
    (hsame : m'.withRng frontEnd'.rng = frontEnd') (hspec : Skipped m m' ∨ Resampled m m')
    (hrngs : ∀ r ∈ rng, m'.rng = r ∧ frontEnd'.rng = r) :
    Agree config rng ⟨some m', children⟩ frontEnd' [] ∧
      (Skipped m m' ∨ (Resampled m m' ∧ ∀ i < m'.particles.length, i ∈ children)) := by
  have hparticles : frontEnd'.particles = m'.particles := congrArg (·.particles) hsame.symm
  have hconfig' : frontEnd'.config = m'.config := congrArg (·.config) hsame.symm
  have hmanager : m.config = config := h.schedulerConfig
  have hagree (hlength : m'.particles.length = m.particles.length) (hconfig : m'.config = m.config)
      (hdone : ∀ particle ∈ m'.particles, particle.done = false)
      (hobserved : ∀ i, tokenIdsOf m' i ≠ [] → i ∈ children) : Agree config rng ⟨some m', children⟩ frontEnd' [] :=
    ⟨hlength.trans h.schedulerLength, (congrArg List.length hparticles).trans (hlength.trans h.schedulerLength),
      hconfig.trans hmanager, hconfig'.trans (hconfig.trans hmanager), hdone,
      fun i _ => (tokenIdsOf_congr hparticles i).symm, nofun,
      fun i _ hne => hobserved i (tokenIdsOf_congr hparticles i ▸ hne), fun _ => hsame, fun r hr =>
      ⟨fun found hfound => some.inj hfound ▸ (hrngs r hr).1, (hrngs r hr).2⟩⟩
  have hbefore (i : ℕ) (hne : tokenIdsOf m i ≠ []) : i ∈ children :=
    h.observed i not_mem_nil (h.tokens i not_mem_nil ▸ hne)
  rcases hspec with hskip | hdone
  · exact ⟨hagree (congrArg _ hskip.particles) hskip.config (hskip.particles ▸ h.notDone)
      fun i hne => hbefore i (tokenIdsOf_congr hskip.particles i ▸ hne), Or.inl hskip⟩
  -- every particle had reached the boundary, so each was observed
  have hall (i : ℕ) (hi : i < m'.particles.length) : i ∈ children := by
    rw [hdone.length] at hi
    refine hbefore i ?_
    rw [tokenIdsOf_of_getElem? (getElem?_eq_getElem hi)]
    exact hdone.reached _ (getElem_mem hi)
  refine ⟨hagree hdone.length hdone.config hdone.notDone fun i hne => hall i ?_, Or.inr ⟨hdone, hall⟩⟩
  by_contra hge
  apply hne
  rw [Replicas.tokenIdsOf, getElem?_eq_none (Nat.le_of_not_lt hge)]
  rfl

/-- While no child has finished, both sides resample alike if their draws pick the same ancestors. -/
theorem resample_same (h : Agree config rng scheduler frontEnd [])
    (hasked : asked = true → scheduler.manager ≠ none) (hdraw : ∀ m ∈ scheduler.manager, m.SameDraw frontEnd)
    (hscheduler : scheduler.resample asked = .ok (scheduler', decision))
    (hfrontEnd : resampleFrontEnd frontEnd asked = .ok (frontEnd', decision')) :
    Agree config rng scheduler' frontEnd' [] ∧ decision = decision' ∧
      ((asked = false ∧ frontEnd' = frontEnd) ∨ (asked = true ∧ ∃ m m', m.particles = frontEnd.particles ∧
        scheduler'.manager = some m' ∧ m'.particles = frontEnd'.particles ∧
        (Skipped m m' ∨ (Resampled m m' ∧ ∀ i < m'.particles.length, i ∈ scheduler'.children)))) := by
  obtain ⟨manager, children⟩ := scheduler
  cases asked with
  | false =>
    have hnone : SchedulerReplica.resample ⟨manager, children⟩ false = .ok (⟨manager, children⟩, none) := by
      cases manager <;> rfl
    obtain ⟨rfl, rfl⟩ := Prod.mk.inj (Except.ok.inj (hnone.symm.trans hscheduler))
    cases hfrontEnd
    exact ⟨h, rfl, Or.inl ⟨rfl, rfl⟩⟩
  | true =>
    cases manager with
    | none => exact absurd rfl (hasked rfl)
    | some manager =>
      obtain ⟨⟨m', flag⟩, hresample, hret⟩ := bind_pure_eq_ok.mp hscheduler
      cases hret
      obtain ⟨⟨frontEnd₁, flag'⟩, hresample', hret'⟩ := bind_eq_ok.mp hfrontEnd
      cases hret'
      have hbefore : manager.withRng frontEnd.rng = frontEnd := h.same rfl
      have hafter := maybeResample_sameDraw hbefore (hdraw manager rfl) hresample hresample'
      obtain ⟨hagree, hspec⟩ := h.resampled hafter
        (maybeResample_spec (h.schedulerLength.trans (congrArg _ h.schedulerConfig.symm)) hresample) fun r hr =>
          ⟨(maybeResample_fixed hresample).rng.trans ((h.rngs r hr).1 manager rfl),
            (maybeResample_fixed hresample').rng.trans (h.rngs r hr).2⟩
      refine ⟨hagree, congrArg (·.lastResamplePlan.map (·.ancestors)) hafter,
        Or.inr ⟨rfl, manager, m', ?_, rfl, ?_, hspec⟩⟩
      · exact congrArg (·.particles) hbefore
      · exact congrArg (·.particles) hafter

theorem sameDraw {r : ℕ → F} (h : Agree config (some r) scheduler frontEnd []) :
    ∀ m ∈ scheduler.manager, m.SameDraw frontEnd := by
  intro m hm weights _
  obtain ⟨hscheduler, hfrontEnd⟩ := h.rngs r rfl
  have hsame := h.same rfl
  rw [SchedulerReplica.managerOr, hm, getD_some] at hsame
  rw [hscheduler m hm, hfrontEnd, ← congrArg (·.numDraws) hsame]
  rfl

end Agree

/-! ## Agreement along runs -/

namespace Replicas

variable {finished : List ℕ} {outs : List (ChildOutput F)}

/-- The invariant of a run: the two sides agree, and took the same decision in the last step. -/
structure Inv (s : Replicas F) : Prop where
  agree : Agree s.parent.config (some (s.parent.randomOf s.parent.seed)) s.scheduler s.frontEnd s.finished
  decisions : s.schedulerDecision = s.frontEndDecision

omit [PyFloat F] in
theorem finished_or_stops (h : finished ++ stopped outs ≠ []) :
    finished ≠ [] ∨ ∃ out ∈ outs, out.finishReason.isSome = true := by
  by_contra hnone
  push Not at hnone
  refine h (append_eq_nil_iff.mpr ⟨hnone.1, ?_⟩)
  rw [stopped, map_eq_nil_iff, filter_eq_nil_iff]
  exact hnone.2

theorem Inv.step {s s' : Replicas F} (h : s.Inv) (hlegal : s.Legal outs)
    (hkeeps : s.KeepsCheckedBoundary outs) (hstep : s.step outs = .ok s') : s'.Inv := by
  obtain ⟨⟨scheduler₁, asked⟩, hobserve, hstep⟩ := bind_eq_ok.mp hstep
  obtain ⟨⟨scheduler₂, decision⟩, hresample, hstep⟩ := bind_eq_ok.mp hstep
  obtain ⟨⟨frontEnd₁, asked'⟩, hobserve', hstep⟩ := bind_eq_ok.mp hstep
  obtain ⟨⟨frontEnd₂, decision'⟩, hresample', rfl⟩ := bind_pure_eq_ok.mp hstep
  have hstart : Agree.GrowsBy s.parent.config s.schedulerManager (s.scheduler.managerOr s.parent.config)
      (fun _ => 0) s.finished := by
    rw [schedulerManager, SchedulerReplica.managerOr]
    cases s.scheduler.manager <;> exact Or.inl ⟨rfl, fun _ => le_rfl⟩
  obtain ⟨hagree, hgrows, hasked, hmanager⟩ := h.agree.observeAll hstart
    (fun r hr i => some.inj hr ▸ congrArg (·.rng) (s.parent.newScheduler_eq i)) hlegal.1 hlegal.2
    hobserve hobserve'
  by_cases hfinished : s.finished ++ stopped outs = []
  · obtain ⟨-, hstopped⟩ := append_eq_nil_iff.mp hfinished
    obtain rfl := hasked hstopped rfl
    rw [hfinished] at hagree
    obtain ⟨hagree', hdecision, -⟩ :=
      hagree.resample_same (hmanager hstopped nofun) hagree.sameDraw hresample hresample'
    exact ⟨by simpa only [hfinished] using hagree', hdecision⟩
  simp only [Nat.zero_add] at hgrows
  obtain ⟨hscheduler, hnone, hrngs, -⟩ := Agree.resample_of_behind hagree.schedulerConfig
    (hgrows.boundary hagree.schedulerLength (hkeeps (finished_or_stops hfinished))) hresample
  obtain ⟨hfrontEnd, hrng, hnone'⟩ := Agree.resampleFrontEnd_of_done (hagree.exists_done hfinished) hresample'
  refine ⟨hagree.keep hfinished hscheduler hfrontEnd fun r hr => ⟨fun m' hm' => ?_, ?_⟩, hnone.trans hnone'.symm⟩
  · obtain ⟨m, hm, heq⟩ := hrngs m' hm'
    exact heq.trans ((hagree.rngs r hr).1 m hm)
  · exact hrng.trans (hagree.rngs r hr).2

theorem Inv.of_reachable {s : Replicas F}
    (h : Reachable Replicas.Initial (fun s outs => s.Legal outs ∧ s.KeepsCheckedBoundary outs)
      Replicas.step s) : s.Inv := by
  refine h.invariant (fun s hinit => ?_) fun s outs s' hs hok hstep => hs.step hok.1 hok.2 hstep
  obtain ⟨parent, -, rfl⟩ := hinit
  exact ⟨Agree.initial _ _ fun r hr => some.inj hr, rfl⟩

/-- Two particles, a boundary at every second token, and resampling whenever the weights differ. -/
def twoParticles : Replicas ℚ :=
  let parent : PowerSMCParent ℚ :=
    { config := ⟨1, 2, 2, 1, 1, true⟩, seed := 0, randomOf := fun _ _ => 1 / 2 }
  { parent := parent, frontEnd := parent.newFrontEnd }

instance (s : Replicas F) (outs : List (ChildOutput F)) : Decidable (s.KeepsCheckedBoundary outs) := by
  unfold KeepsCheckedBoundary
  infer_instance

end Replicas

end VllmPs
