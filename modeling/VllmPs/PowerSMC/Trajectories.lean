import Mathlib.Data.List.SplitLengths
import VllmPs.PowerSMC.Replicas

/-!
# Trajectories of a request without a seed

Without a seed the generators of the scheduler's and the front end's managers are independent. The front end
returns the tokens of the particle that it selects. They are the tokens that the child's request had when it
finished if both sides pick the same ancestors whenever they resample and the front end gets every step as the
scheduler has seen it: in one piece, for children it knows, none of which it has ended on its own.
-/

namespace VllmPs

open Lib PowerSMCGroupManager List Function
open Replicas (tokenIdsOf)

variable {F : Type} [PyFloat F]

/-- One engine step and what the front end makes of it. -/
structure TrajectoryStep (F : Type) where
  /-- The children whose aborts by the front end reach the scheduler before the step. -/
  aborted : List ℕ := []
  outs : List (ChildOutput F)
  draws : ℕ → F
  /-- How many children `add_request` has fanned out when the outputs are handed over. -/
  fannedOut : ℕ
  /-- The lengths of the slices in which the output handler passes the outputs to `process_outputs`. -/
  slices : List ℕ
  /-- The stop string that the detokenizer finds in the text of a child. -/
  stopString : ℕ → Option String := fun _ => none

/-- A request without a seed: the scheduler's side, the child requests and the front end's side. -/
structure Trajectories (F : Type) [PyFloat F] where
  config : PowerSMCConfig F
  scheduler : SchedulerReplica F := {}
  /-- The output tokens of each child request. -/
  requests : ℕ → List Token := fun _ => []
  frontEnd : PowerSMCGroupManager F
  /-- The children that are finished or aborted on the scheduler's side. -/
  finished : List ℕ := []
  /-- The children that are finished on the front end's side. -/
  gone : List ℕ := []
  /-- The selected child, and the tokens of its completion. -/
  returned : Option (ℕ × List Token) := none

namespace Trajectories

def seedless (config : PowerSMCConfig F) (draws : ℕ → F) : PowerSMCParent F :=
  { config := config, seed := 0, randomOf := fun _ => draws }

/-- Every child request gets its sampled token. -/
def appendOutputs (requests : ℕ → List Token) (outs : List (ChildOutput F)) : ℕ → List Token :=
  outs.foldl (fun requests out =>
    update requests out.particleIdx (requests out.particleIdx ++ [out.tokenId])) requests

/-- `_apply_power_smc_resample_plan`, for the output tokens of the children observed. -/
def applyPlan (requests : ℕ → List Token) (children : List ℕ) (plan : Option PowerSMCResamplePlan) :
    ℕ → List Token := fun i =>
  match plan.bind fun plan => plan.particleTokenIds[i]? with
  | none => requests i
  | some tokenIds => if i ∈ children then tokenIds else requests i

variable (s : Trajectories F)

/-- The parent returns a completion when the last child it knows finishes. -/
def select (fannedOut : ℕ) (frontEnd : PowerSMCGroupManager F) (gone : List ℕ) :
    PowerSMCGroupManager F × Option (ℕ × List Token) :=
  if (∃ i < fannedOut, i ∉ s.gone) ∧ ∀ i < fannedOut, i ∈ gone then
    (frontEnd.finalSelect.1, some (frontEnd.finalSelect.2, tokenIdsOf frontEnd frontEnd.finalSelect.2))
  else (frontEnd, s.returned)

variable (a : TrajectoryStep F)

/-- An output as `process_outputs` observes it: a stop string ends the child. -/
def withStopString (out : ChildOutput F) : ChildOutput F :=
  match a.stopString out.particleIdx with
  | none => out
  | some stopString => { out with finishReason := some "stop", stopReason := some stopString }

/-- `process_outputs` for one slice of the outputs. It ignores those of children that it has finished. -/
def processOutputs (slice : List (ChildOutput F)) : Except PyError (Trajectories F) := do
  let outs := (slice.filter fun out => decide (out.particleIdx ∉ s.gone)).map (withStopString a)
  let observed ← observeAllFrontEnd s.frontEnd outs
  let gone := s.gone ++ stopped outs
  let selected := s.select a.fannedOut observed.1 gone
  let frontEnd ← resampleFrontEnd selected.1 observed.2
  return { s with frontEnd := frontEnd.1, gone, returned := selected.2 }

/-- One engine step. -/
def step : Except PyError (Trajectories F) := do
  let observed ← (a.aborted.foldl (·.freeChild ·) s.scheduler).observeAll (seedless s.config a.draws) a.outs
  let scheduler ← observed.1.resample observed.2
  let plan := if observed.2 then scheduler.1.manager.bind (·.lastResamplePlan) else none
  let processed ← (a.slices.splitLengths a.outs).foldlM (·.processOutputs a ·) s
  return { processed with
    scheduler := scheduler.1
    requests := applyPlan (appendOutputs s.requests a.outs) scheduler.1.children plan
    finished := s.finished ++ a.aborted ++ stopped a.outs }

/-- Both sides before the first output of a valid request. -/
def Initial : Prop :=
  ∃ config draws, config.validateSelf = true ∧ s = { config := config, frontEnd := .new config draws }

/-- A step has at most one output of each child, and none of one that is not there yet or is finished. Its
outputs are handed over completely, and only children that the front end has finished are aborted. -/
def Legal : Prop :=
  (a.outs.map (·.particleIdx)).Nodup ∧ a.fannedOut ≤ s.config.particles ∧ a.slices.sum = a.outs.length ∧
    (∀ i ∈ a.aborted, i ∈ s.gone) ∧ ∀ out ∈ a.outs, out.particleIdx < a.fannedOut ∧
      out.particleIdx ∉ s.finished ++ a.aborted
  deriving Decidable

/-- The front end knows all children, gets the outputs of the step in one call, and finds no stop string in
them, so that no child is aborted. -/
def HandedOverWhole : Prop :=
  a.fannedOut = s.config.particles ∧ a.slices = [a.outs.length] ∧ a.aborted = [] ∧
    ∀ out ∈ a.outs, a.stopString out.particleIdx = none
  deriving Decidable

/-- The scheduler's manager, or a new one. -/
def schedulerManager : PowerSMCGroupManager F :=
  s.scheduler.manager.getD (.new s.config fun _ => 0)

def KeepsCheckedBoundary : Prop :=
  (s.finished ≠ [] ∨ ∃ out ∈ a.outs, out.finishReason.isSome = true) →
    ∃ index < s.config.particles,
      ((tokenIdsOf s.schedulerManager index).length + tokensFor a.outs index) /
          s.config.blockSize * s.config.blockSize ≤
        s.schedulerManager.lastBoundaryCheckLength

/-- With the outputs of a step, the draws of the two sides pick the same ancestors. -/
def SameAncestors : Prop :=
  ∀ observed ∈ (s.scheduler.observeAll (seedless s.config a.draws) a.outs).toOption,
    ∀ observedFrontEnd ∈ (observeAllFrontEnd s.frontEnd a.outs).toOption,
      ∀ m ∈ observed.1.manager, m.SameDraw observedFrontEnd.1

variable {m m' frontEnd : PowerSMCGroupManager F} {config : PowerSMCConfig F} {outs : List (ChildOutput F)}
  {asked : Bool} {requests : ℕ → List Token} {finished : List ℕ} {s : Trajectories F} {i : ℕ}

/-! ## The tokens of the child requests -/

omit [PyFloat F] in
theorem appendOutputs_of_not_mem (requests : ℕ → List Token)
    (h : ∀ out ∈ outs, out.particleIdx ≠ i) : appendOutputs requests outs i = requests i := by
  induction outs generalizing requests with
  | nil => rfl
  | cons out rest ih =>
    unfold appendOutputs at ih ⊢
    rw [foldl_cons, ih _ fun out' hmem => h out' (mem_cons_of_mem _ hmem)]
    exact update_of_ne (h out mem_cons_self).symm _ _

theorem appendOutputs_eq {start : Bool} (h : outs.foldlM (fun state out => do
      let observed ← observeFrontEnd state.1 out
      return (observed.1, state.2 || observed.2)) (m, start) = .ok (m', asked))
    (hrequests : ∀ i, requests i = tokenIdsOf m i) (i : ℕ) :
    appendOutputs requests outs i = tokenIdsOf m' i := by
  induction outs generalizing m requests start with
  | nil =>
    obtain ⟨rfl, -⟩ := ok_mk_inj h
    exact hrequests i
  | cons out rest ih =>
    obtain ⟨middle, hfirst, h⟩ := foldlM_cons_eq_ok.mp h
    obtain ⟨⟨observed, flag⟩, hobserve, rfl⟩ := bind_pure_eq_ok.mp hfirst
    refine ih h fun j => ?_
    obtain ⟨⟨updated, boundary⟩, hupdate, hret⟩ := bind_pure_eq_ok.mp hobserve
    obtain ⟨rfl, -⟩ := Prod.mk.inj hret
    obtain ⟨particle, hparticle, -, rfl, -⟩ := updateAfterToken_eq_ok.mp hupdate
    rw [tokenIdsOf_set (List.getElem?_eq_some_iff.mp hparticle).1]
    change update requests out.particleIdx _ j = _
    rw [update_apply]
    split_ifs with hj
    · rw [hrequests, tokenIdsOf_of_getElem? hparticle]
      rfl
    · exact hrequests j

theorem applyPlan_eq {children ancestors : List ℕ} (hchildren : ∀ i < m.particles.length, i ∈ children)
    (hbeyond : ∀ i, m.particles.length ≤ i → requests i = []) (i : ℕ) :
    applyPlan requests children (some ⟨ancestors, m.particles.map (·.tokenIds)⟩) i = tokenIdsOf m i := by
  unfold applyPlan Replicas.tokenIdsOf
  rw [Option.bind_some, getElem?_map]
  rcases Nat.lt_or_ge i m.particles.length with hi | hi
  · rw [getElem?_eq_getElem hi]
    exact if_pos (hchildren i hi)
  · rw [getElem?_eq_none hi]
    exact hbeyond i hi

/-! ## Runs -/

structure Inv (s : Trajectories F) : Prop where
  particles : 0 < s.config.particles
  gone : s.gone = s.finished
  agree : Agree s.config none s.scheduler s.frontEnd s.finished
  requests : ∀ i, s.requests i = tokenIdsOf s.frontEnd i
  returned : ∀ i tokens, s.returned = some (i, tokens) → i ∈ s.finished ∧ tokens = s.requests i

theorem select_particles (fannedOut : ℕ) (frontEnd : PowerSMCGroupManager F) (gone : List ℕ) :
    (s.select fannedOut frontEnd gone).1.particles = frontEnd.particles ∧
      (s.select fannedOut frontEnd gone).1.config = frontEnd.config := by
  unfold select
  split_ifs <;> exact ⟨rfl, rfl⟩

/-- A whole step is one call of `process_outputs`, which observes the outputs as they are. -/
theorem HandedOverWhole.processed {a : TrajectoryStep F} (h : s.HandedOverWhole a)
    (hnew : ∀ out ∈ a.outs, out.particleIdx ∉ s.gone) :
    (a.slices.splitLengths a.outs).foldlM (·.processOutputs a ·) s = s.processOutputs a a.outs ∧
      (a.outs.filter fun out => decide (out.particleIdx ∉ s.gone)).map (withStopString a) = a.outs := by
  obtain ⟨-, hslices, -, hstops⟩ := h
  constructor
  · rw [hslices, splitLengths_cons, splitLengths_nil, take_length, foldlM_cons]
    exact bind_pure _
  · rw [filter_eq_self.mpr fun out hout => decide_eq_true (hnew out hout)]
    refine (map_congr_left fun out hout => ?_).trans (map_id _)
    unfold withStopString
    rw [hstops out hout]
    rfl

theorem select_returned {tokens : List Token} (hparticles : 0 < s.config.particles)
    (hlength : frontEnd.particles.length = s.config.particles)
    (h : (s.select s.config.particles frontEnd finished).2 = some (i, tokens)) :
    (i ∈ finished ∧ tokens = tokenIdsOf frontEnd i) ∨ s.returned = some (i, tokens) := by
  unfold select at h
  split_ifs at h with hall
  · cases h
    exact Or.inl ⟨hall.2 _ (hlength ▸ finalSelect_lt (hlength ▸ hparticles)), rfl⟩
  · exact Or.inr h

theorem applyPlan_resampled {scheduler : SchedulerReplica F} {frontEnd' : PowerSMCGroupManager F}
    (hrequests : ∀ i, requests i = tokenIdsOf frontEnd i)
    (h : (asked = false ∧ frontEnd' = frontEnd) ∨ (asked = true ∧ ∃ m m', m.particles = frontEnd.particles ∧
      scheduler.manager = some m' ∧ m'.particles = frontEnd'.particles ∧
      (Skipped m m' ∨ (Resampled m m' ∧ ∀ i < m'.particles.length, i ∈ scheduler.children)))) (i : ℕ) :
    applyPlan requests scheduler.children
      (if asked then scheduler.manager.bind fun m => m.lastResamplePlan else none) i = tokenIdsOf frontEnd' i := by
  rcases h with ⟨rfl, rfl⟩ | ⟨rfl, m, m', hm, hmanager, hm', hspec⟩
  · exact hrequests i
  rw [if_pos rfl, hmanager, Option.bind_some, ← Agree.tokenIdsOf_congr hm']
  have htokens (i : ℕ) : requests i = tokenIdsOf m i := (hrequests i).trans (Agree.tokenIdsOf_congr hm i).symm
  rcases hspec with hskip | ⟨hdone, hall⟩
  · rw [hskip.plan, Agree.tokenIdsOf_congr hskip.particles]
    exact htokens i
  obtain ⟨ancestors, hplan⟩ := hdone.plan
  rw [hplan]
  refine applyPlan_eq hall (fun i hi => ?_) i
  rw [htokens, Replicas.tokenIdsOf, getElem?_eq_none (hdone.length ▸ hi)]
  rfl

theorem Inv.step {s' : Trajectories F} (h : s.Inv) {a : TrajectoryStep F} (hlegal : s.Legal a)
    (hwhole : s.HandedOverWhole a) (hkeeps : s.KeepsCheckedBoundary a) (hdraw : s.SameAncestors a)
    (hstep : s.step a = .ok s') : s'.Inv := by
  have ⟨hfan, _, haborted, _⟩ := hwhole
  have hin : ∀ out ∈ a.outs, out.particleIdx < s.config.particles ∧ out.particleIdx ∉ s.finished := by
    intro out hout
    obtain ⟨hlt, hnot⟩ := hlegal.2.2.2.2 out hout
    exact ⟨hfan ▸ hlt, fun hmem => hnot (mem_append_left _ hmem)⟩
  obtain ⟨hprocessed, houts⟩ := hwhole.processed fun out hout => h.gone ▸ (hin out hout).2
  obtain ⟨⟨scheduler₁, asked⟩, hobserve, hstep⟩ := bind_eq_ok.mp hstep
  obtain ⟨⟨scheduler₂, decision⟩, hresample, hstep⟩ := bind_eq_ok.mp hstep
  obtain ⟨processed, hprocess, rfl⟩ := bind_pure_eq_ok.mp hstep
  rw [hprocessed, processOutputs, houts] at hprocess
  obtain ⟨⟨frontEnd₁, asked'⟩, hobserve', hprocess⟩ := bind_eq_ok.mp hprocess
  obtain ⟨⟨frontEnd₂, decision'⟩, hresample', rfl⟩ := bind_pure_eq_ok.mp hprocess
  simp only [haborted, foldl_nil, append_nil, h.gone, hfan] at hobserve hresample' ⊢
  have hstart : Agree.GrowsBy s.config s.schedulerManager (s.scheduler.managerOr s.config) (fun _ => 0) s.finished :=
    Or.inl ⟨rfl, fun _ => le_rfl⟩
  have hbefore : Agree (seedless s.config a.draws).config none s.scheduler s.frontEnd s.finished := h.agree
  obtain ⟨hagree, hgrows, hasked, hmanager⟩ :=
    hbefore.observeAll hstart nofun hlegal.1 hin hobserve hobserve'
  have hrequests := appendOutputs_eq hobserve' h.requests
  by_cases hfinished : s.finished ++ stopped a.outs = []
  · obtain ⟨hnil, hstopped⟩ := append_eq_nil_iff.mp hfinished
    obtain rfl := hasked hstopped rfl
    -- no child has finished, so none is selected
    have hselect : s.select s.config.particles frontEnd₁ (s.finished ++ stopped a.outs) = (frontEnd₁, s.returned) := by
      refine if_neg fun hall => ?_
      have hmem := hall.2 0 h.particles
      rw [hfinished] at hmem
      exact absurd hmem not_mem_nil
    rw [hfinished] at hagree
    rw [hselect] at hresample' ⊢
    have hsame : ∀ m ∈ scheduler₁.manager, m.SameDraw frontEnd₁ :=
      hdraw (scheduler₁, asked) (by rw [hobserve]; rfl) (frontEnd₁, asked) (by rw [hobserve']; rfl)
    obtain ⟨hagree', -, hspec⟩ := hagree.resample_same (hmanager hstopped nofun) hsame hresample hresample'
    refine ⟨h.particles, rfl, by rw [hfinished]; exact hagree', applyPlan_resampled hrequests hspec,
      fun i tokens hreturned => ?_⟩
    have hmem := (h.returned i tokens hreturned).1
    rw [hnil] at hmem
    exact absurd hmem not_mem_nil
  simp only [Nat.zero_add] at hgrows
  obtain ⟨hscheduler, -, -, hplan⟩ := Agree.resample_of_behind hagree.schedulerConfig
    (hgrows.boundary hagree.schedulerLength (hkeeps (Replicas.finished_or_stops hfinished))) hresample
  have hnone : (if asked = true then scheduler₂.manager.bind fun m => m.lastResamplePlan else none) =
      none := by
    split_ifs with htrue
    · exact hplan htrue
    · rfl
  -- the finished particle is done, so the front end keeps its particles
  obtain ⟨hparticles, hconfig⟩ := s.select_particles s.config.particles frontEnd₁ (s.finished ++ stopped a.outs)
  obtain ⟨⟨hparticles', hconfig'⟩, -⟩ :=
    Agree.resampleFrontEnd_of_done (hparticles ▸ hagree.exists_done hfinished) hresample'
  have htokens := Agree.tokenIdsOf_congr (hparticles'.trans hparticles)
  have hset : Agree s.config none scheduler₂ frontEnd₂ (s.finished ++ stopped a.outs) :=
    hagree.keep hfinished hscheduler ⟨hparticles'.trans hparticles, hconfig'.trans hconfig⟩ nofun
  refine ⟨h.particles, rfl, hset, fun i => ?_, fun i tokens hreturned => ?_⟩
  · rw [hnone, htokens]
    exact hrequests i
  rw [hnone]
  have hlength : frontEnd₁.particles.length = s.config.particles := hagree.frontEndLength
  rcases select_returned h.particles hlength hreturned with ⟨hmem, rfl⟩ | hbefore
  · exact ⟨hmem, (hrequests i).symm⟩
  · obtain ⟨hmem, rfl⟩ := h.returned i tokens hbefore
    refine ⟨mem_append_left _ hmem, (appendOutputs_of_not_mem _ fun out hout heq => ?_).symm⟩
    exact (hin out hout).2 (heq ▸ hmem)

/-- In every run without a seed in which the front end gets every step whole, both sides pick the same ancestors
whenever they resample and a particle stays at the checked boundary once a child has finished, the completion
returned is that of a finished child and has the tokens its request had when it finished. -/
theorem returned_tokens {s : Trajectories F} (h : Reachable Trajectories.Initial
      (fun s a => s.Legal a ∧ s.HandedOverWhole a ∧ s.KeepsCheckedBoundary a ∧ s.SameAncestors a) Trajectories.step s)
    {chosen : ℕ} {tokens : List Token} (hreturned : s.returned = some (chosen, tokens)) :
    chosen ∈ s.finished ∧ tokens = s.requests chosen := by
  have hinv : s.Inv := by
    refine h.invariant (fun s hinit => ?_) fun s a s' hs hok hstep => hs.step hok.1 hok.2.1 hok.2.2.1 hok.2.2.2 hstep
    obtain ⟨config, draws, hvalid, rfl⟩ := hinit
    refine ⟨?_, rfl, Agree.initial config draws nofun, fun i => ?_, nofun⟩
    · unfold PowerSMCConfig.validateSelf at hvalid
      simp only [Bool.and_eq_true, decide_eq_true_eq] at hvalid
      exact hvalid.1.1.1.2
    · exact (Agree.tokenIdsOf_new config draws i).symm
  exact hinv.returned chosen tokens hreturned

/-- Three particles, a boundary at every second token, and resampling whenever the weights differ. The
front end draws three fifths, then one half. -/
def threeChildren : Trajectories ℚ where
  config := ⟨1, 3, 2, 1, 1, true⟩
  frontEnd := .new ⟨1, 3, 2, 1, 1, true⟩ fun n => if n = 0 then 3 / 5 else 1 / 2

theorem threeChildren_initial : threeChildren.Initial := ⟨_, _, by decide +kernel, rfl⟩

instance (s : Trajectories F) (a : TrajectoryStep F) : Decidable (s.KeepsCheckedBoundary a) :=
  inferInstanceAs (Decidable (_ → _))

instance (m m' : PowerSMCGroupManager F) : Decidable (m.SameDraw m') :=
  inferInstanceAs (Decidable (∀ weights ∈ m.dueWeights, _ = _))

instance (s : Trajectories F) (a : TrajectoryStep F) : Decidable (s.SameAncestors a) :=
  inferInstanceAs (Decidable (∀ observed ∈ Except.toOption _, ∀ observedFrontEnd ∈ Except.toOption _,
    ∀ m ∈ _, PowerSMCGroupManager.SameDraw m _))

/-- What the children get: two tokens each, with no weight for the last child, then one that ends them. The
scheduler's generator draws the given value. -/
def threeChildrenSteps (draw : ℚ) : List (TrajectoryStep ℚ) :=
  [[⟨0, 7, 0, 0, none, none⟩, ⟨1, 5, 0, 0, none, none⟩, ⟨2, 3, 0, 1000, none, none⟩],
    [⟨0, 8, 0, 0, none, none⟩, ⟨1, 6, 0, 0, none, none⟩, ⟨2, 2, 0, 0, none, none⟩],
    [⟨0, 9, 0, 0, some "stop", none⟩, ⟨1, 4, 0, 0, some "stop", none⟩, ⟨2, 1, 0, 0, some "stop", none⟩]].map
      fun outs => { outs := outs, draws := fun _ => draw, fannedOut := 3, slices := [3] }

/-- The two sides draw different values but pick the same ancestors; the second child is returned. -/
theorem returned_tokens_second : ∃ s : Trajectories ℚ,
    s.returned = some (1, [5, 6, 4]) ∧ 1 ∈ s.finished ∧ [5, 6, 4] = s.requests 1 := by
  have hstart : Reachable Initial (fun s a => s.Legal a ∧ s.HandedOverWhole a ∧ s.KeepsCheckedBoundary a ∧
    s.SameAncestors a) step
      threeChildren := .start threeChildren_initial
  obtain ⟨s, hreach, hreturned⟩ := hstart.exists_checkedRun (P := fun s => s.returned = some (1, [5, 6, 4]))
    (threeChildrenSteps (3 / 4)) (by decide +kernel)
  exact ⟨s, hreturned, returned_tokens hreach hreturned⟩

/-- The scheduler draws zero and picks the first particle twice, the front end the second one. It returns
tokens that the second child's request did not have when it finished. -/
theorem returned_other_tokens : ∃ s : Trajectories ℚ,
    Reachable Trajectories.Initial (fun s a => s.Legal a ∧ s.HandedOverWhole a ∧
      s.KeepsCheckedBoundary a) Trajectories.step s ∧
      s.returned = some (1, [5, 6, 4]) ∧ s.requests 1 = [7, 8, 4] ∧ s.finished = [0, 1, 2] := by
  exact (Reachable.start threeChildren_initial).exists_checkedRun (threeChildrenSteps 0) (by decide +kernel)

end Trajectories

end VllmPs
