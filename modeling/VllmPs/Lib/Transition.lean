import Mathlib.Tactic

/-!
# Runs of a fallible transition function

A step takes a state and an action to a new state or raises. A run is admissible when
every action meets a side condition in the state it is taken in; an invariant that the
admissible steps keep holds in every state such a run reaches.
-/

namespace VllmPs.Lib

open List

universe u

variable {S L E : Type*} {A B : Type u}
variable {x : Except E A} {f : A → Except E B} {e : E} {step : S → L → Except E S}
  {items actions : List L} {P init : S → Prop} {s s' : S}

theorem bind_eq_ok {b : B} : x >>= f = .ok b ↔ ∃ a, x = .ok a ∧ f a = .ok b := by
  cases x with
  | error e => simp [bind, Except.bind]
  | ok a => simp [bind, Except.bind]

theorem bind_pure_eq_ok {g : A → B} {b : B} :
    (x >>= fun a => pure (g a)) = .ok b ↔ ∃ a, x = .ok a ∧ g a = b := by
  cases x with
  | error e => simp [bind, Except.bind]
  | ok a => simp [bind, Except.bind, pure, Except.pure]

theorem ok_mk_inj {a a' : A} {b b' : B} (h : (.ok (a, b) : Except E (A × B)) = .ok (a', b')) :
    a = a' ∧ b = b' :=
  Prod.mk.inj (Except.ok.inj h)

theorem bind_eq_error : x >>= f = .error e ↔ x = .error e ∨ ∃ a, x = .ok a ∧ f a = .error e := by
  cases x with
  | error e => simp [bind, Except.bind]
  | ok a => simp [bind, Except.bind]

/-- Raise unless a condition holds. -/
def require (c : Prop) [Decidable c] (e : E) : Except E PUnit := if c then .ok ⟨⟩ else .error e

theorem require_eq_ok {c : Prop} [Decidable c] {u : PUnit} : require c e = .ok u ↔ c := by
  unfold require
  split_ifs with h <;> simp [h]

def OnlyRaises (P : E → Prop) (x : Except E A) : Prop := ∀ e, x = .error e → P e

/-- A computation that does not raise a given error. -/
abbrev NeverRaises (e : E) (x : Except E A) : Prop := OnlyRaises (· ≠ e) x

namespace OnlyRaises

variable {P Q : E → Prop}
variable {x : Except E A}

theorem mono (h : OnlyRaises P x) (hPQ : ∀ e, P e → Q e) : OnlyRaises Q x :=
  fun e he => hPQ e (h e he)

theorem ok (a : A) : OnlyRaises P (.ok a : Except E A) := nofun

theorem error (h : P e) : OnlyRaises P (.error e : Except E A) := by
  rintro _ ⟨⟩
  exact h

theorem require {c : Prop} [Decidable c] (h : ¬c → P e) : OnlyRaises P (require c e) := by
  unfold Lib.require
  split_ifs with hc
  · exact ok _
  · exact error (h hc)

theorem bind (hx : OnlyRaises P x) (hf : ∀ a, x = .ok a → OnlyRaises P (f a)) : OnlyRaises P (x >>= f) := by
  intro e he
  rcases bind_eq_error.mp he with he | ⟨a, ha, he⟩
  · exact hx e he
  · exact hf a ha e he

theorem ite {c : Prop} [Decidable c] {y : Except E A} (hx : c → OnlyRaises P x)
    (hy : ¬c → OnlyRaises P y) : OnlyRaises P (if c then x else y) := by
  split_ifs with h
  · exact hx h
  · exact hy h

theorem foldlM (hstep : ∀ s, ∀ a ∈ items, OnlyRaises P (step s a)) : OnlyRaises P (items.foldlM step s) := by
  induction items generalizing s with
  | nil => exact ok _
  | cons a rest ih =>
    rw [foldlM_cons]
    exact bind (hstep s a mem_cons_self) fun _ _ => ih fun s b hb => hstep s b (mem_cons_of_mem a hb)

theorem mapM {f : L → Except E A} (hf : ∀ a, OnlyRaises P (f a)) (items : List L) :
    OnlyRaises P (items.mapM f) := by
  induction items with
  | nil => exact ok _
  | cons a rest ih =>
    rw [mapM_cons]
    exact bind (hf a) fun _ _ => bind ih fun _ _ => ok _

theorem forM {f : L → Except E PUnit} (hf : ∀ a ∈ items, OnlyRaises P (f a)) : OnlyRaises P (items.forM f) := by
  induction items with
  | nil => exact ok _
  | cons a rest ih =>
    exact bind (hf a mem_cons_self) fun _ _ => ih fun b hb => hf b (mem_cons_of_mem a hb)

end OnlyRaises

/-- Every value that a computation returns has a property. -/
def Ensures (Q : A → Prop) (x : Except E A) : Prop := ∀ ⦃a⦄, x = .ok a → Q a

namespace Ensures

variable {Q : A → Prop} {R : B → Prop} {x y : Except E A} {a : A}

theorem ok (h : Q a) : Ensures Q (.ok a : Except E A) := by
  rintro _ ⟨⟩
  exact h

theorem error : Ensures Q (.error e : Except E A) := nofun

theorem bind (h : ∀ a, x = .ok a → Ensures R (f a)) : Ensures R (x >>= f) := by
  intro b hb
  obtain ⟨a, ha, hb⟩ := bind_eq_ok.mp hb
  exact h a ha hb

theorem require {c : Prop} [Decidable c] {f : PUnit → Except E B} (h : c → Ensures R (f ⟨⟩)) :
    Ensures R (require c e >>= f) :=
  bind fun _ hc => h (require_eq_ok.mp hc)

theorem ite {c : Prop} [Decidable c] (hx : c → Ensures Q x) (hy : ¬c → Ensures Q y) :
    Ensures Q (if c then x else y) := by
  split_ifs with h
  · exact hx h
  · exact hy h

end Ensures

/-- A computation raises only errors and returns only values with given properties. -/
structure Meets (P : E → Prop) (Q : A → Prop) (x : Except E A) : Prop where
  raises : OnlyRaises P x
  ensures : Ensures Q x

/-- A computation that raises nothing and returns values with a property. -/
abbrev Succeeds (Q : A → Prop) (x : Except E A) : Prop := Meets (fun _ => False) Q x

namespace Meets

variable {P : E → Prop} {Q : A → Prop} {R : B → Prop} {x y : Except E A} {a : A}

theorem ok (h : Q a) : Meets P Q (.ok a) := ⟨.ok a, .ok h⟩

theorem error (h : P e) : Meets P Q (.error e) := ⟨.error h, .error⟩

theorem bind (hx : Meets P Q x) (hf : ∀ a, Q a → Meets P R (f a)) : Meets P R (x >>= f) :=
  ⟨.bind hx.raises fun a ha => (hf a (hx.ensures ha)).raises,
    .bind fun a ha => (hf a (hx.ensures ha)).ensures⟩

theorem of_ensures (h : Ensures Q x) : Meets (fun _ => True) Q x := ⟨fun _ _ => trivial, h⟩

theorem bind' (hx : OnlyRaises P x) (hf : ∀ a, x = .ok a → Meets P R (f a)) : Meets P R (x >>= f) :=
  ⟨hx.bind fun a ha => (hf a ha).raises, .bind fun a ha => (hf a ha).ensures⟩

theorem ite {c : Prop} [Decidable c] (hx : c → Meets P Q x) (hy : ¬c → Meets P Q y) :
    Meets P Q (if c then x else y) := by
  split_ifs with h
  · exact hx h
  · exact hy h

theorem mono {P' : E → Prop} {Q' : A → Prop} (h : Meets P Q x) (hP : ∀ e, P e → P' e) (hQ : ∀ a, Q a → Q' a) :
    Meets P' Q' x :=
  ⟨h.raises.mono hP, fun a ha => hQ a (h.ensures ha)⟩

theorem require {c : Prop} [Decidable c] {f : PUnit → Except E B} (hc : ¬c → P e) (hf : c → Meets P R (f ⟨⟩)) :
    Meets P R (require c e >>= f) :=
  ⟨.bind (.require hc) fun _ h => (hf (require_eq_ok.mp h)).raises, .require fun h => (hf h).ensures⟩

theorem foldlM_done {I : List L → S → Prop}
    (hstep : ∀ done a rest s, items = done ++ a :: rest → I done s → Meets P (I (done ++ [a])) (step s a))
    (hs : I [] s) : Meets P (I items) (items.foldlM step s) := by
  suffices hrest : ∀ rest done s, items = done ++ rest → I done s → Meets P (I items) (rest.foldlM step s) from
    hrest items [] s rfl hs
  intro rest
  induction rest with
  | nil =>
    intro done s hitems hs
    rw [append_nil] at hitems
    exact .ok (hitems ▸ hs)
  | cons a rest ih =>
    intro done s hitems hs
    rw [foldlM_cons]
    exact .bind (hstep done a rest s hitems hs) fun s' hs' =>
      ih (done ++ [a]) s' (by rw [hitems, append_assoc, singleton_append]) hs'

theorem foldlM {I : S → Prop} (hstep : ∀ s, ∀ a ∈ items, I s → Meets P I (step s a)) (hs : I s) :
    Meets P I (items.foldlM step s) :=
  foldlM_done (I := fun _ => I) (fun done a rest s hitems => hstep s a (by simp [hitems])) hs

end Meets

theorem Ensures.map {g : A → B} {R : B → Prop} (h : Ensures (fun a => R (g a)) x) : Ensures R (x.map g) := by
  cases x with
  | error e => exact .error
  | ok a => exact .ok (h rfl)

theorem foldlM_cons_eq_ok {a : L} {rest : List L} : (a :: rest).foldlM step s = .ok s' ↔
      ∃ middle, step s a = .ok middle ∧ rest.foldlM step middle = .ok s' := by
  rw [foldlM_cons]
  exact bind_eq_ok

theorem Ensures.foldlM (hstep : ∀ s, ∀ a ∈ items, P s → Ensures P (step s a)) (hs : P s) :
    Ensures P (items.foldlM step s) :=
  (Meets.foldlM (fun s a ha h => .of_ensures (hstep s a ha h)) hs).ensures

theorem foldlM_invariant (items : List L)
    (hstep : ∀ s a s', a ∈ items → P s → step s a = .ok s' → P s') (hs : P s)
    (h : items.foldlM step s = .ok s') : P s' :=
  Ensures.foldlM (fun s a ha hP s' => hstep s a s' ha hP) hs h

theorem foldlM_done_invariant {P : List L → S → Prop}
    (hstep : ∀ done a rest s s', items = done ++ a :: rest → P done s → step s a = .ok s' →
      P (done ++ [a]) s') (hs : P [] s) (h : items.foldlM step s = .ok s') : P items s' :=
  (Meets.foldlM_done (fun done a rest s hitems hP => .of_ensures fun s' => hstep done a rest s s' hitems hP)
    hs).ensures h

/-- The states reached by runs whose every action meets `ok` in the state it is taken in. -/
inductive Reachable (init : S → Prop) (ok : S → L → Prop) (step : S → L → Except E S) : S → Prop
  | start {s : S} : init s → Reachable init ok step s
  | next {s s' : S} {a : L} :
      Reachable init ok step s → ok s a → step s a = .ok s' → Reachable init ok step s'

variable {ok : S → L → Prop}

theorem Reachable.invariant (hinit : ∀ s, init s → P s)
    (hstep : ∀ s a s', P s → ok s a → step s a = .ok s' → P s')
    (hs : Reachable init ok step s) : P s := by
  induction hs with
  | start h => exact hinit _ h
  | next _ hok hs' ih => exact hstep _ _ _ ih hok hs'

def run (step : S → L → Except E S) (s : S) (actions : List L) : Except E S :=
  actions.foldlM step s

theorem exists_ok_of_observed {A : Type*} {B : Type*} {x : Except E A} {f : A → B} {b : B}
    (h : x.toOption.map f = some b) : ∃ a, x = .ok a ∧ f a = b := by
  cases x with
  | error e => cases h
  | ok a => exact ⟨a, rfl, Option.some.inj h⟩

theorem exists_ok_of_decide {A : Type*} {x : Except E A} {P : A → Prop} [DecidablePred P]
    (h : (x.toOption.map fun a => decide (P a)) = some true) : ∃ a, x = .ok a ∧ P a :=
  (exists_ok_of_observed h).imp fun _ ha => ⟨ha.1, of_decide_eq_true ha.2⟩

/-- Whether a computation raises a given error can be tested. -/
instance decidableError {A : Type*} [DecidableEq E] (x : Except E A) (e : E) : Decidable (x = .error e) :=
  match x with
  | .error e' => decidable_of_iff (e' = e) ⟨congrArg _, Except.error.inj⟩
  | .ok _ => isFalse nofun

theorem Reachable.run (hs : Reachable init ok step s) (hok : ∀ a ∈ actions, ∀ s, ok s a)
    (hrun : Lib.run step s actions = .ok s') : Reachable init ok step s' :=
  foldlM_invariant (P := Reachable init ok step) actions
    (fun s a _ ha h hstep => h.next (hok a ha s) hstep) hs hrun

/-- Run a list of actions while each is admissible and succeeds. -/
def checkedRun (ok : S → L → Prop) [∀ s a, Decidable (ok s a)] (step : S → L → Except E S) :
    S → List L → Option S
  | s, [] => some s
  | s, a :: rest => if ok s a then (step s a).toOption.bind fun s' => checkedRun ok step s' rest else none

theorem Reachable.checkedRun_of {check : S → L → Prop} [∀ s a, Decidable (check s a)]
    (hs : Reachable init ok step s) (hcheck : ∀ a ∈ actions, ∀ s, check s a → ok s a)
    (hrun : Lib.checkedRun check step s actions = some s') : Reachable init ok step s' := by
  induction actions generalizing s with
  | nil => exact Option.some.inj hrun ▸ hs
  | cons a rest ih =>
    unfold Lib.checkedRun at hrun
    split_ifs at hrun with hok
    obtain ⟨middle, hmiddle, hrest⟩ := Option.bind_eq_some_iff.mp hrun
    cases hstep : step s a with
    | error e => simp [hstep, Except.toOption] at hmiddle
    | ok s₁ =>
      rw [hstep] at hmiddle
      have hnext := hs.next (hcheck a mem_cons_self s hok) (Option.some.inj hmiddle ▸ hstep)
      exact ih hnext (fun a ha => hcheck a (mem_cons_of_mem _ ha)) hrest

theorem Reachable.checkedRun [∀ s a, Decidable (ok s a)] (hs : Reachable init ok step s)
    (hrun : Lib.checkedRun ok step s actions = some s') : Reachable init ok step s' :=
  hs.checkedRun_of (fun _ _ _ => id) hrun

theorem exists_checkedRun [∀ s a, Decidable (ok s a)] {P Q : S → Prop} [DecidablePred P]
    (h : ((checkedRun ok step s actions).map fun s => decide (P s)) = some true)
    (hQ : ∀ s', Reachable (· = s) ok step s' → P s' → Q s') :
    ∃ s', checkedRun ok step s actions = some s' ∧ Q s' := by
  obtain ⟨s', hrun, hP⟩ := Option.map_eq_some_iff.mp h
  exact ⟨s', hrun, hQ s' (.checkedRun (.start rfl) hrun) (of_decide_eq_true hP)⟩

theorem Reachable.exists_checkedRun [∀ s a, Decidable (ok s a)] (hs : Reachable init ok step s) {P : S → Prop}
    [DecidablePred P] (actions : List L)
    (h : ((Lib.checkedRun ok step s actions).map fun s => decide (P s)) = some true) :
    ∃ s', Reachable init ok step s' ∧ P s' := by
  obtain ⟨s', hrun, hP⟩ := Option.map_eq_some_iff.mp h
  exact ⟨s', hs.checkedRun hrun, of_decide_eq_true hP⟩

theorem steps_invariant {R : S → S → Prop} (hstep : ∀ s s', P s → R s s' → P s')
    (hs : P s) (h : Relation.ReflTransGen R s s') : P s' := by
  induction h with
  | refl => exact hs
  | tail _ hlast ih => exact hstep _ _ ih hlast

end VllmPs.Lib
