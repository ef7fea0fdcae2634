import VllmPs.Lib.Matching
import VllmPs.Worker.InputBatch

/-!
# Rows and requests

Which request is in which row, seen as partial functions that match. Each operation of the batch is one on this
view: a request leaves its row, takes a free row or moves to one, or two requests exchange their rows. `condense`
moves requests until the filled rows are the first ones.
-/

namespace VllmPs.Worker

open Lib Function InputBatch List AList Table

variable {F G : Type}

/-! ## Lists by row -/

section Lists

variable {A B : Type} {l : List A} {i j : ℕ} (f : Option A → B)

theorem comp_set (h : i < l.length) (v : A) :
    (fun j : ℕ => f (l.set i v)[j]?) = update (fun j : ℕ => f l[j]?) i (f (some v)) := by
  funext j
  rcases eq_or_ne j i with rfl | hne
  · rw [update_self, getElem?_set_self h]
  · rw [update_of_ne hne, getElem?_set_ne hne.symm]

theorem comp_append (l : List A) (v : A) :
    (fun j : ℕ => f (l ++ [v])[j]?) = update (fun j : ℕ => f l[j]?) l.length (f (some v)) := by
  funext j
  rcases eq_or_ne j l.length with rfl | hne
  · rw [update_self, getElem?_concat_length]
  rw [update_of_ne hne]
  rcases Nat.lt_or_ge j l.length with hlt | hge
  · rw [getElem?_append_left hlt]
  · rw [getElem?_eq_none hge, getElem?_eq_none]
    rw [length_append, length_singleton]
    omega

theorem length_swapEntries : (swapEntries l i j).length = l.length := by
  unfold swapEntries
  split
  · rw [length_set, length_set]
  · rfl

theorem comp_swapEntries (hi : i < l.length) (hj : j < l.length) :
    (fun m : ℕ => f (swapEntries l i j)[m]?) = update (update (fun m : ℕ => f l[m]?) i (f l[j]?)) j (f l[i]?) := by
  have hj' : j < (l.set i l[j]).length := by rwa [length_set]
  unfold swapEntries
  rw [getElem?_eq_getElem hi, getElem?_eq_getElem hj]
  exact (comp_set f hj' _).trans (by rw [comp_set f hi])

theorem comp_take {n : ℕ} (h : ∀ m, n ≤ m → f l[m]? = f none) :
    (fun m : ℕ => f (l.take n)[m]?) = fun m : ℕ => f l[m]? := by
  funext m
  rcases Nat.lt_or_ge m n with hlt | hge
  · rw [getElem?_take_of_lt hlt]
  · rw [h m hge, getElem?_take_eq_none hge]

end Lists

/-! ## The view -/

structure RowView (F G : Type) where
  index : RequestId → Option ℕ
  reqAt : ℕ → Option RequestId
  spec : ℕ → List Token
  rows : ℕ → BatchRow F G

namespace RowView

variable (v : RowView F G) (config : BatchConfig)

/-- A request leaves its row. -/
def remove (reqId : RequestId) (i : ℕ) : RowView F G where
  index := update v.index reqId none
  reqAt := update v.reqAt i none
  spec := update v.spec i []
  rows := update v.rows i ((v.rows i).remove config)

/-- A request takes a row. -/
def place (reqId : RequestId) (i : ℕ) (row : BatchRow F G) : RowView F G where
  index := update v.index reqId (some i)
  reqAt := update v.reqAt i (some reqId)
  spec := update v.spec i []
  rows := update v.rows i row

/-- A request moves to another row. -/
def move (reqId : RequestId) (i j : ℕ) : RowView F G where
  index := update v.index reqId (some j)
  reqAt := update (update v.reqAt j (some reqId)) i none
  spec := update (update v.spec j (v.spec i)) i []
  rows := update (update v.rows j ((v.rows i).moveTo config ((v.rows i).numTokensNoSpec + (v.spec i).length)
    (v.rows j))) i ((v.rows i).moveFrom config)

/-- Two requests exchange their rows. -/
def swap (reqId₁ reqId₂ : RequestId) (i₁ i₂ : ℕ) : RowView F G :=
  let numTokens := max ((v.rows i₁).numTokensNoSpec + (v.spec i₁).length)
    ((v.rows i₂).numTokensNoSpec + (v.spec i₂).length)
  { index := update (update v.index reqId₁ (some i₂)) reqId₂ (some i₁)
    reqAt := update (update v.reqAt i₁ (v.reqAt i₂)) i₂ (v.reqAt i₁)
    spec := update (update v.spec i₁ (v.spec i₂)) i₂ (v.spec i₁)
    rows := update (update v.rows i₁ ((v.rows i₁).swapWith config numTokens false (v.rows i₂))) i₂
      ((v.rows i₂).swapWith config numTokens true (v.rows i₁)) }

/-- A request in a row from `n` on moves to an empty row. -/
def MoveStep (n : ℕ) (v v' : RowView F G) : Prop :=
  ∃ reqId i j, v.reqAt i = some reqId ∧ v.reqAt j = none ∧ n ≤ i ∧ v' = v.move config reqId i j

variable {v}

structure Sound (v : RowView F G) : Prop where
  matching : Matches v.index v.reqAt
  unused : ∀ i, v.reqAt i = none → v.spec i = []

theorem unused_update {reqAt : ℕ → Option RequestId} {spec : ℕ → List Token} {entry : Option RequestId}
    {drafts : List Token} (h : ∀ j, reqAt j = none → spec j = []) (hentry : entry = none → drafts = []) (i j : ℕ)
    (hj : update reqAt i entry j = none) : update spec i drafts j = [] := by
  rcases eq_or_ne j i with rfl | hne
  · rw [update_self] at hj ⊢
    exact hentry hj
  · rw [update_of_ne hne] at hj ⊢
    exact h j hj

namespace Sound

variable {config} {reqId reqId₁ reqId₂ : RequestId} {i j i₁ i₂ : ℕ} (h : v.Sound)
include h

theorem remove (hindex : v.index reqId = some i) : (v.remove config reqId i).Sound :=
  ⟨h.matching.erase hindex, unused_update h.unused (fun _ => rfl) i⟩

theorem place (hnew : v.index reqId = none) (hfree : v.reqAt i = none) (row : BatchRow F G) :
    (v.place reqId i row).Sound :=
  ⟨h.matching.insert hnew hfree, unused_update h.unused (fun hnone => absurd hnone (Option.some_ne_none reqId)) i⟩

theorem move (hindex : v.index reqId = some i) (hfree : v.reqAt j = none) : (v.move config reqId i j).Sound :=
  ⟨h.matching.move hindex hfree,
    unused_update (unused_update h.unused (fun hnone => absurd hnone (Option.some_ne_none reqId)) j) (fun _ => rfl) i⟩

theorem swap (h₁ : v.reqAt i₁ = some reqId₁) (h₂ : v.reqAt i₂ = some reqId₂) :
    (v.swap config reqId₁ reqId₂ i₁ i₂).Sound :=
  ⟨h.matching.swap h₁ h₂, unused_update (unused_update h.unused (h.unused i₂) i₁) (h.unused i₁) i₂⟩

end Sound

theorem isSome_swap {reqId₁ reqId₂ : RequestId} {i₁ i₂ : ℕ} (h₁ : v.index reqId₁ = some i₁)
    (h₂ : v.index reqId₂ = some i₂) (reqId : RequestId) :
    ((v.swap config reqId₁ reqId₂ i₁ i₂).index reqId).isSome = (v.index reqId).isSome := by
  simp only [RowView.swap]
  rcases eq_or_ne reqId reqId₂ with rfl | hne₂
  · rw [update_self, h₂]
    rfl
  rw [update_of_ne hne₂]
  rcases eq_or_ne reqId reqId₁ with rfl | hne₁
  · rw [update_self, h₁]
    rfl
  · rw [update_of_ne hne₁]

end RowView

namespace InputBatch

variable {b b' : InputBatch F G}

def view (b : InputBatch F G) : RowView F G := ⟨b.reqIdToIndex.lookup, b.reqAt, b.spec, b.rows⟩

/-- The lists and the dictionary by row fit together. -/
structure Indexed (b : InputBatch F G) : Prop where
  sound : b.view.Sound
  owners : b.reqOutputTokenIds = b.reqIds
  specs : b.reqIds.length ≤ b.specTokenIds.length

/-- The empty rows are those of the removed requests. -/
structure Holes (b : InputBatch F G) : Prop where
  removed : ∀ i, i ∈ b.builder.removed ↔ i < b.reqIds.length ∧ b.reqAt i = none
  nodup : b.builder.removed.Nodup
  sorted : b.builder.isRemovedSorted = true → b.builder.removed.Pairwise (· > ·)

/-- The requests are in the first rows. -/
structure Dense (b : InputBatch F G) : Prop where
  length : b.reqIds.length = b.numReqs
  filled : ∀ i < b.numReqs, b.reqAt i ≠ none

theorem Indexed.matching (h : b.Indexed) : Matches b.view.index b.view.reqAt := h.sound.matching

theorem lt_of_reqAt {i : ℕ} (h : b.reqAt i ≠ none) : i < b.reqIds.length := by
  by_contra hge
  unfold reqAt at h
  rw [getElem?_eq_none (Nat.not_lt.mp hge)] at h
  exact h rfl

theorem Indexed.of_lists (h : b.Indexed) (hindex : b'.reqIdToIndex = b.reqIdToIndex)
    (hreqIds : b'.reqIds = b.reqIds) (howners : b'.reqOutputTokenIds = b.reqOutputTokenIds)
    (hspecs : b'.specTokenIds = b.specTokenIds) : b'.Indexed := by
  refine ⟨?_, by rw [howners, hreqIds]; exact h.owners, by rw [hspecs, hreqIds]; exact h.specs⟩
  refine ⟨?_, ?_⟩ <;> unfold view reqAt spec
  · rw [hindex, hreqIds]
    exact h.matching
  · rw [hspecs, hreqIds]
    exact h.sound.unused

theorem Holes.of_lists (h : b.Holes) (hreqIds : b'.reqIds = b.reqIds)
    (hbuilder : b'.builder = b.builder) : b'.Holes := by
  constructor
  · unfold reqAt
    rw [hbuilder, hreqIds]
    exact h.removed
  · rw [hbuilder]
    exact h.nodup
  · rw [hbuilder]
    exact h.sorted

theorem Holes.count (h : b.Holes) (hindexed : b.Indexed) :
    b.numReqs + b.builder.removed.length = b.reqIds.length := by
  have hfilled : b.numReqs = ((Finset.range b.reqIds.length).filter fun i => b.reqAt i ≠ none).card :=
    hindexed.matching.length_eq_card fun i hi => lt_of_reqAt hi
  have hempty : b.builder.removed.length =
      ((Finset.range b.reqIds.length).filter fun i => ¬b.reqAt i ≠ none).card := by
    rw [← toFinset_card_of_nodup h.nodup]
    congr 1
    ext i
    rw [mem_toFinset, h.removed, Finset.mem_filter, Finset.mem_range, not_not]
  rw [hfilled, hempty, Finset.card_filter_add_card_filter_not, Finset.card_range]

/-! ## Removed rows -/

end InputBatch

namespace BatchUpdateBuilder

variable {builder : BatchUpdateBuilder F}

theorem ensureRemovedSorted_spec (hnodup : builder.removed.Nodup)
    (hsorted : builder.isRemovedSorted = true → builder.removed.Pairwise (· > ·)) :
    builder.ensureRemovedSorted.removed.Perm builder.removed ∧
      builder.ensureRemovedSorted.removed.Pairwise (· > ·) ∧
      builder.ensureRemovedSorted.isRemovedSorted = true := by
  unfold ensureRemovedSorted
  split_ifs with hflag
  · exact ⟨List.Perm.refl _, hsorted hflag, hflag⟩
  have hperm := perm_insertionSort (· ≥ ·) builder.removed
  refine ⟨hperm, ?_, rfl⟩
  have hge := pairwise_insertionSort (· ≥ ·) builder.removed
  have hne := hperm.nodup_iff.mpr hnodup
  exact (hge.and hne).imp fun h => lt_of_le_of_ne h.1 h.2.symm

theorem popRemoved_spec (hne : builder.removed ≠ []) (hnodup : builder.removed.Nodup)
    (hsorted : builder.isRemovedSorted = true → builder.removed.Pairwise (· > ·)) :
    ∃ i rest, builder.popRemoved = (some i, { builder with removed := rest, isRemovedSorted := true }) ∧
      (rest ++ [i]).Perm builder.removed ∧ (rest ++ [i]).Pairwise (· > ·) := by
  obtain ⟨hperm, hpairwise, hflag⟩ := ensureRemovedSorted_spec hnodup hsorted
  have hne' : builder.ensureRemovedSorted.removed ≠ [] := fun hnil => hne (hnil ▸ hperm).symm.eq_nil
  have hsplit := dropLast_append_getLast hne'
  refine ⟨builder.ensureRemovedSorted.removed.getLast hne', builder.ensureRemovedSorted.removed.dropLast, ?_, ?_, ?_⟩
  · unfold popRemoved
    rw [if_neg hne]
    refine Prod.ext (getLast?_eq_getLast_of_ne_nil hne') ?_
    unfold ensureRemovedSorted
    split_ifs with hsorted'
    · dsimp only
      rw [hsorted']
    · rfl
  · rwa [hsplit]
  · rwa [hsplit]

end BatchUpdateBuilder

namespace InputBatch

variable {b b' : InputBatch F G} {i : ℕ} {reqId : RequestId}

/-! ## Operations on the view -/

theorem placeRequest_spec (h : b.Indexed) (hi : i ≤ b.reqIds.length) (hfree : b.reqAt i = none)
    (hnew : b.view.index reqId = none) :
    (b.placeRequest i reqId).view = { b.view.place reqId i (b.rows i) with rows := b.rows } ∧
      (b.placeRequest i reqId).Indexed ∧
      (b.placeRequest i reqId).reqIds.length = max b.reqIds.length (i + 1) := by
  have hview : (b.placeRequest i reqId).view = { b.view.place reqId i (b.rows i) with rows := b.rows } := by
    unfold placeRequest
    split_ifs with hlast
    · subst hlast
      have hspec : update b.spec b.reqIds.length [] = b.spec :=
        update_eq_self_iff.mpr (h.sound.unused _ hfree).symm
      refine RowView.mk.injEq .. |>.mpr ⟨lookup_insert_eq_update .., comp_append Option.join .., ?_, rfl⟩
      refine ((comp_append (·.getD []) _ []).trans (update_eq_self_iff.mpr ?_)).trans hspec.symm
      rw [getElem?_eq_none le_rfl]
      rfl
    · have hlt : i < b.reqIds.length := lt_of_le_of_ne hi hlast
      refine RowView.mk.injEq .. |>.mpr ⟨lookup_insert_eq_update .., comp_set Option.join hlt _, ?_, rfl⟩
      exact comp_set (·.getD []) (hlt.trans_le h.specs) _
  refine ⟨hview, ⟨?_, ?_, ?_⟩, ?_⟩
  · rw [hview]
    exact ⟨h.sound.matching.insert hnew hfree, (h.sound.place hnew hfree (b.rows i)).unused⟩
  · unfold placeRequest
    split_ifs <;> simp only [h.owners]
  · unfold placeRequest
    split_ifs
    · simp only [length_append, length_singleton, Nat.add_le_add_iff_right, h.specs]
    · simp only [length_set, h.specs]
  unfold placeRequest
  split_ifs with hlast
  · simp only [length_append, length_singleton]
    omega
  · simp only [length_set]
    omega

theorem registerAddRequest_spec [PyFloat F] {request : CachedRequestState F G} {registered : InputBatch F G × ℕ}
    (h : b.registerAddRequest request = .ok registered) (hindexed : b.Indexed) (hholes : b.Holes) :
    ∃ builder, registered.1 = { b with builder := builder } ∧ registered.2 ≤ b.reqIds.length ∧
      b.reqAt registered.2 = none ∧ builder.removed.Nodup ∧
      (builder.isRemovedSorted = true → builder.removed.Pairwise (· > ·)) ∧
      ∀ j, j ∈ builder.removed ↔ j < b.reqIds.length ∧ b.reqAt j = none ∧ j ≠ registered.2 := by
  unfold registerAddRequest at h
  dsimp only at h
  split_ifs at h with hmax
  cases h
  refine ⟨_, rfl, ?_⟩
  by_cases hnil : b.builder.removed = []
  · have hpop : b.builder.popRemoved = (none, b.builder) := if_pos hnil
    have hlength := hholes.count hindexed
    rw [hnil, length_nil, Nat.add_zero] at hlength
    rw [hpop, Option.getD_none, hlength]
    refine ⟨le_rfl, ?_, hholes.nodup, hholes.sorted, fun j => ?_⟩
    · unfold reqAt
      rw [getElem?_eq_none le_rfl]
      rfl
    · rw [hholes.removed]
      exact ⟨fun hj => ⟨hj.1, hj.2, hj.1.ne⟩, fun hj => ⟨hj.1, hj.2.1⟩⟩
  obtain ⟨i, rest, hpop, hperm, hsorted⟩ := BatchUpdateBuilder.popRemoved_spec hnil hholes.nodup hholes.sorted
  have hrest := pairwise_append.mp hsorted
  have hnodup := (hperm.nodup_iff.mpr hholes.nodup)
  have hi : i < b.reqIds.length ∧ b.reqAt i = none :=
    (hholes.removed i).mp (hperm.mem_iff.mp (mem_append_right _ (mem_singleton_self i)))
  rw [hpop, Option.getD_some]
  refine ⟨hi.1.le, hi.2, (nodup_append.mp hnodup).1, fun _ => hrest.1, fun j => ?_⟩
  have hj : j ∈ rest ++ [i] ↔ j < b.reqIds.length ∧ b.reqAt j = none :=
    hperm.mem_iff.trans (hholes.removed j)
  rw [← and_assoc, ← hj, mem_append, mem_singleton]
  refine ⟨fun hmem => ⟨.inl hmem, ?_⟩, fun hmem => hmem.1.resolve_right hmem.2⟩
  exact (hrest.2.2 j hmem i (mem_singleton_self i)).ne'

end InputBatch

/-! ## Sets of requests -/

/-- The sets and dictionaries by request. -/
structure RequestSets (F : Type) where
  randomReqs : List RequestId
  hasAllowedTokenIds : List RequestId
  powerSmcConfigs : Table RequestId (PowerSMCConfig F)

namespace RequestSets

def enter (sets : RequestSets F) (reqId : RequestId) (params : SamplingParams F) : RequestSets F where
  randomReqs := addIf sets.randomReqs reqId (!params.greedy || params.powerSmcConfig.isSome)
  hasAllowedTokenIds := addIf sets.hasAllowedTokenIds reqId (!params.allowedTokenIds.isEmpty)
  powerSmcConfigs :=
    match params.powerSmcConfig with
    | some powerSmcConfig => sets.powerSmcConfigs.insert reqId powerSmcConfig
    | none => sets.powerSmcConfigs

def leave (sets : RequestSets F) (reqId : RequestId) : RequestSets F where
  randomReqs := sets.randomReqs.erase reqId
  hasAllowedTokenIds := sets.hasAllowedTokenIds.erase reqId
  powerSmcConfigs := sets.powerSmcConfigs.erase reqId

structure Registered (sets : RequestSets F) (params : RequestId → Option (SamplingParams F)) : Prop where
  power : ∀ reqId, sets.powerSmcConfigs.lookup reqId = (params reqId).bind (·.powerSmcConfig)
  random : ∀ reqId p, params reqId = some p → p.powerSmcConfig ≠ none → reqId ∈ sets.randomReqs
  allowed : ∀ reqId p, params reqId = some p → p.allowedTokenIds ≠ [] → reqId ∈ sets.hasAllowedTokenIds

variable {sets : RequestSets F} {params : RequestId → Option (SamplingParams F)} {reqId : RequestId}

theorem mem_addIf {reqs : List RequestId} {c : Bool} {reqId' : RequestId} :
    reqId' ∈ addIf reqs reqId c ↔ reqId' ∈ reqs ∨ (reqId' = reqId ∧ c = true) := by
  unfold addIf
  split_ifs with hc
  · rw [mem_insert_iff, or_comm, and_iff_left hc]
  · exact (or_iff_left fun h => hc h.2).symm

theorem Registered.enter (h : sets.Registered params) (hnew : params reqId = none) (p : SamplingParams F) :
    (sets.enter reqId p).Registered (update params reqId (some p)) := by
  refine ⟨fun reqId' => ?_, fun reqId' p' hp' hpower => ?_, fun reqId' p' hp' hallowed => ?_⟩
  · rcases eq_or_ne reqId' reqId with rfl | hne
    · rw [update_self, Option.bind_some]
      unfold RequestSets.enter
      cases hpower : p.powerSmcConfig with
      | some powerSmcConfig => exact lookup_insert _
      | none =>
        refine (h.power reqId').trans ?_
        rw [hnew, Option.bind_none]
    rw [update_of_ne hne, ← h.power]
    unfold RequestSets.enter
    cases p.powerSmcConfig with
    | some powerSmcConfig => exact lookup_insert_ne hne
    | none => rfl
  · refine mem_addIf.mpr ?_
    rcases eq_or_ne reqId' reqId with rfl | hne
    · rw [update_self] at hp'
      cases hp'
      exact .inr ⟨rfl, Bool.or_eq_true_iff.mpr (.inr (Option.isSome_iff_ne_none.mpr hpower))⟩
    · rw [update_of_ne hne] at hp'
      exact .inl (h.random reqId' p' hp' hpower)
  refine mem_addIf.mpr ?_
  rcases eq_or_ne reqId' reqId with rfl | hne
  · rw [update_self] at hp'
    cases hp'
    exact .inr ⟨rfl, by simpa using hallowed⟩
  · rw [update_of_ne hne] at hp'
    exact .inl (h.allowed reqId' p' hp' hallowed)

theorem Registered.leave (h : sets.Registered params) (reqId : RequestId) :
    (sets.leave reqId).Registered (update params reqId none) := by
  have hne {reqId' : RequestId} {p' : SamplingParams F} (hp' : update params reqId none reqId' = some p') :
      reqId' ≠ reqId ∧ params reqId' = some p' := by
    rcases eq_or_ne reqId' reqId with rfl | hne
    · simp [update_self] at hp'
    · rw [update_of_ne hne] at hp'
      exact ⟨hne, hp'⟩
  refine ⟨fun reqId' => ?_, fun reqId' p' hp' hpower => ?_, fun reqId' p' hp' hallowed => ?_⟩
  · rcases eq_or_ne reqId' reqId with rfl | hne
    · rw [update_self]
      exact lookup_erase _ _
    · rw [update_of_ne hne, ← h.power]
      exact lookup_erase_ne hne
  · exact (mem_erase_of_ne (hne hp').1).mpr (h.random reqId' p' (hne hp').2 hpower)
  · exact (mem_erase_of_ne (hne hp').1).mpr (h.allowed reqId' p' (hne hp').2 hallowed)

end RequestSets

namespace InputBatch

variable {b b' : InputBatch F G} {i : ℕ} {reqId : RequestId} {request : CachedRequestState F G}

def sets (b : InputBatch F G) : RequestSets F := ⟨b.randomReqs, b.hasAllowedTokenIds, b.powerSmcConfigs⟩

inductive Entered [PyFloat F] (config : BatchConfig) (request : CachedRequestState F G) (old : BatchRow F G)
    (sets : RequestSets F) : BatchRow F G → RequestSets F → Prop
  | sampling {params : SamplingParams F} {row : BatchRow F G} (hparams : request.samplingParams = some params)
      (hrow : (old.addTokens config request).addSampling config request params = .ok row) :
      Entered config request old sets row (sets.enter request.reqId params)
  | pooling {pooling : PoolingParams} (hparams : request.samplingParams = none)
      (hpooling : request.poolingParams = some pooling) :
      Entered config request old sets
        { old.addTokens config request with needsTokenIds := pooling.requiresTokenIds } sets

theorem Entered.registered [PyFloat F] {config : BatchConfig} {old row : BatchRow F G} {sets sets' : RequestSets F}
    {params : RequestId → Option (SamplingParams F)} (h : Entered config request old sets row sets')
    (hsets : sets.Registered params) (hnew : params request.reqId = none) :
    sets'.Registered (update params request.reqId request.samplingParams) := by
  cases h with
  | sampling hparams _ =>
    rw [hparams]
    exact hsets.enter hnew _
  | pooling hparams _ =>
    rwa [hparams, update_eq_self_iff.mpr hnew.symm]

theorem addRequest_spec [PyFloat F] (h : b.addRequest request = .ok b') (hindexed : b.Indexed)
    (hholes : b.Holes) (hnew : b.view.index request.reqId = none) :
    ∃ i row, b'.view = b.view.place request.reqId i row ∧ b.reqAt i = none ∧ b'.Indexed ∧ b'.Holes ∧
      b'.config = b.config ∧ Entered b.config request (b.rows i) b.sets row b'.sets := by
  obtain ⟨registered, hregister, h⟩ := bind_eq_ok.mp h
  obtain ⟨builder, hb, hi, hfree, hnodup, hsorted, hremoved⟩ := registerAddRequest_spec hregister hindexed hholes
  obtain ⟨hview, hindexed', hlength⟩ := placeRequest_spec (b := { b with builder := builder })
    { hindexed with } hi hfree hnew
  generalize registered.2 = i at *
  rw [hb] at h
  dsimp only at h
  generalize hplaced : placeRequest { b with builder := builder } i request.reqId = placed at *
  have hconfig : placed.config = b.config := by
    rw [← hplaced]
    unfold placeRequest
    split_ifs <;> rfl
  have hsets : placed.sets = b.sets := by
    rw [← hplaced]
    unfold placeRequest
    split_ifs <;> rfl
  have hrows : placed.rows = b.rows := congrArg RowView.rows hview
  have hholes' : placed.Holes := by
    have hbuilder : placed.builder = builder := by
      rw [← hplaced]
      unfold placeRequest
      split_ifs <;> rfl
    refine ⟨fun j => ?_, hbuilder ▸ hnodup, hbuilder ▸ hsorted⟩
    have hj : placed.reqAt j = update b.reqAt i (some request.reqId) j := congrFun (congrArg RowView.reqAt hview) j
    rw [hbuilder, hremoved, hj, hlength]
    rcases eq_or_ne j i with rfl | hne
    · rw [update_self]
      exact ⟨fun hjs => absurd rfl hjs.2.2, fun hjs => nomatch hjs.2⟩
    rw [update_of_ne hne]
    change _ ↔ j < max b.reqIds.length (i + 1) ∧ _
    constructor
    · rintro ⟨hlt, hnone, -⟩
      exact ⟨lt_max_of_lt_left hlt, hnone⟩
    · rintro ⟨hlt, hnone⟩
      exact ⟨by omega, hnone, hne⟩
  have hplace (row : BatchRow F G) : { placed.view with rows := update placed.rows i row } =
      b.view.place request.reqId i row := by
    rw [hview, hrows]
    rfl
  rw [hrows, hconfig] at h
  split at h
  case h_1 params hparams =>
    obtain ⟨row, hrow, h⟩ := bind_eq_ok.mp h
    cases h
    rw [← hsets]
    exact ⟨i, row, hplace row, hfree, hindexed'.of_lists rfl rfl rfl rfl, hholes'.of_lists rfl rfl, hconfig,
      .sampling hparams hrow⟩
  case h_2 pooling hparams hpooling =>
    cases h
    have hsets' : (placed.modifyRow i fun _ => { (b.rows i).addTokens b.config request with
        needsTokenIds := pooling.requiresTokenIds }).sets = b.sets := hsets
    rw [hsets']
    exact ⟨i, _, hplace _, hfree, hindexed'.of_lists rfl rfl rfl rfl, hholes'.of_lists rfl rfl, hconfig,
      .pooling hparams hpooling⟩
  case h_3 => cases h

theorem write_nil {A : Type} (f : ℕ → A) (start : ℕ) : write f start [] = f := by
  funext k
  unfold write
  split_ifs <;> rfl

theorem updateReqSpecTokenIds_spec {draftTokenIds : List Token}
    (h : b.updateReqSpecTokenIds reqId draftTokenIds = .ok b') (hindexed : b.Indexed) :
    ∃ i, b.view.index reqId = some i ∧ b'.view = { b.view with
        rows := update b.rows i ((b.rows i).writeTokens draftTokenIds)
        spec := update b.spec i draftTokenIds } ∧
      b'.Indexed ∧ b'.reqIds = b.reqIds ∧ b'.builder = b.builder ∧ b'.config = b.config ∧ b'.sets = b.sets := by
  unfold updateReqSpecTokenIds at h
  split at h
  case h_1 => cases h
  case h_2 i hindex =>
    have hreq : b.reqAt i = some reqId := (hindexed.matching reqId i).mp hindex
    have hlt : i < b.specTokenIds.length := (lt_of_reqAt (hreq ▸ nofun)).trans_le hindexed.specs
    generalize hwritten : { b with specTokenIds := b.specTokenIds.set i draftTokenIds } = written at h
    have hspec : written.spec = update b.spec i draftTokenIds := hwritten ▸ comp_set (·.getD []) hlt _
    have hindexed' : written.Indexed := by
      refine ⟨⟨hwritten ▸ hindexed.matching, ?_⟩, hwritten ▸ hindexed.owners, ?_⟩
      · have hreqAt : written.view.reqAt = update b.reqAt i (some reqId) := by
          rw [update_eq_self_iff.mpr hreq.symm, ← hwritten]
          rfl
        change ∀ j, written.view.reqAt j = none → written.spec j = []
        rw [hspec, hreqAt]
        exact RowView.unused_update hindexed.sound.unused (fun hnone => absurd hnone (Option.some_ne_none reqId)) i
      · rw [← hwritten, length_set]
        exact hindexed.specs
    refine ⟨i, hindex, ?_⟩
    split_ifs at h with hnil
    · cases h
      have hrow : (b.rows i).writeTokens draftTokenIds = b.rows i := by
        subst hnil
        unfold BatchRow.writeTokens
        rw [write_nil, length_nil, replicate_zero, write_nil]
      refine ⟨?_, hindexed', hwritten ▸ rfl, hwritten ▸ rfl, hwritten ▸ rfl, hwritten ▸ rfl⟩
      rw [hrow, update_eq_self, ← hspec, ← hwritten]
      rfl
    · cases h
      refine ⟨?_, hindexed'.of_lists rfl rfl rfl rfl, hwritten ▸ rfl, hwritten ▸ rfl, hwritten ▸ rfl, hwritten ▸ rfl⟩
      rw [← hspec, ← hwritten]
      rfl

theorem Indexed.lt_of_index (h : b.Indexed) (hindex : b.view.index reqId = some i) : i < b.reqIds.length := by
  refine lt_of_reqAt (b := b) fun hnone => ?_
  have hreq : b.reqAt i = some reqId := (h.matching reqId i).mp hindex
  simp [hreq] at hnone

theorem removeRequest_spec (h : b.removeRequest reqId = .ok b') (hindexed : b.Indexed) (hholes : b.Holes) :
    (b.view.index reqId = none ∧ b' = b) ∨
      ∃ i, b.view.index reqId = some i ∧ b'.view = b.view.remove b.config reqId i ∧ b'.Indexed ∧ b'.Holes ∧
        b'.config = b.config ∧ b'.sets = if b.config.isPoolingModel then b.sets else b.sets.leave reqId := by
  unfold removeRequest at h
  split at h
  case h_1 hnone =>
    cases h
    exact .inl ⟨hnone, rfl⟩
  case h_2 i hindex =>
    refine .inr ⟨i, hindex, ?_⟩
    have hlt : i < b.reqIds.length := hindexed.lt_of_index hindex
    have hreq : b.reqAt i = some reqId := (hindexed.matching reqId i).mp hindex
    obtain ⟨builder, hbuilder, h⟩ := bind_eq_ok.mp h
    unfold BatchUpdateBuilder.removedAppend at hbuilder
    split_ifs at hbuilder with hflag
    cases hbuilder
    generalize hvacated : ({ b with builder := { b.builder with
      removed := b.builder.removed ++ [i], batchChanged := true } }.vacateRow i reqId).modifyRow i
        (·.remove b.config) = vacated at h
    dsimp only at h
    have hconfig : vacated.config = b.config := hvacated ▸ rfl
    have hview : vacated.view = b.view.remove b.config reqId i := by
      rw [← hvacated]
      refine RowView.mk.injEq .. |>.mpr ⟨lookup_erase_eq_update .., comp_set Option.join hlt _, ?_, rfl⟩
      exact comp_set (·.getD []) (hlt.trans_le hindexed.specs) _
    have hreqAt (j : ℕ) : vacated.reqAt j = update b.reqAt i none j := congrFun (congrArg RowView.reqAt hview) j
    have hindexed' : vacated.Indexed := by
      refine ⟨?_, ?_, ?_⟩
      · rw [hview]
        exact hindexed.sound.remove hindex
      · rw [← hvacated]
        exact congrArg (List.set · i none) hindexed.owners
      · rw [← hvacated]
        change (b.reqIds.set i none).length ≤ (b.specTokenIds.set i []).length
        rw [length_set, length_set]
        exact hindexed.specs
    have hholes' : vacated.Holes := by
      have hremoved : vacated.builder.removed = b.builder.removed ++ [i] := hvacated ▸ rfl
      have hlength : vacated.reqIds.length = b.reqIds.length := hvacated ▸ length_set
      have hfresh : i ∉ b.builder.removed := fun hmem => by
        have hnone := ((hholes.removed i).mp hmem).2
        simp [hreq] at hnone
      have hsame : vacated.builder.isRemovedSorted = b.builder.isRemovedSorted := hvacated ▸ rfl
      refine ⟨fun j => ?_, ?_, fun hsorted => absurd (hsame ▸ hsorted) hflag⟩
      · rw [hremoved, hlength, hreqAt, mem_append, mem_singleton, hholes.removed]
        rcases eq_or_ne j i with rfl | hne
        · rw [update_self]
          exact ⟨fun _ => ⟨hlt, rfl⟩, fun _ => .inr rfl⟩
        · rw [update_of_ne hne]
          exact or_iff_left hne
      · rw [hremoved, ← concat_eq_append]
        exact hholes.nodup.concat hfresh
    rw [hconfig] at h
    split_ifs at h ⊢ with hpooling
    · cases h
      exact ⟨hview, hindexed', hholes', hconfig, hvacated ▸ rfl⟩
    · cases h
      exact ⟨hview, hindexed'.of_lists rfl rfl rfl rfl, hholes'.of_lists rfl rfl, hconfig, hvacated ▸ rfl⟩

theorem moveRequest_spec {j : ℕ} (h : b.moveRequest i j = .ok b') (hindexed : b.Indexed)
    (hj : j < b.reqIds.length) (hfree : b.reqAt j = none) :
    ∃ reqId, b.reqAt i = some reqId ∧ b'.view = b.view.move b.config reqId i j ∧ b'.Indexed ∧
      b'.config = b.config ∧ b'.sets = b.sets ∧ b'.reqIds.length = b.reqIds.length ∧
      b'.numReqs = b.numReqs ∧ b'.builder.removed = b.builder.removed := by
  unfold moveRequest at h
  split at h
  case h_1 => cases h
  case h_2 reqId hreq =>
    cases h
    have hi : i < b.reqIds.length := lt_of_reqAt fun hnone => by
      simp [hreq] at hnone
    have hindex : b.view.index reqId = some i := (hindexed.matching reqId i).mpr hreq
    have hview : RowView.mk (b.reqIdToIndex.insert reqId j).lookup
        (fun m => (((b.reqIds.set j (some reqId)).set i none)[m]?).join)
        (fun m : ℕ => (((b.specTokenIds.set j (b.spec i)).set i [])[m]?).getD [])
        (update (update b.rows j ((b.rows i).moveTo b.config (b.activeTokenCount i) (b.rows j))) i
          ((b.rows i).moveFrom b.config)) = b.view.move b.config reqId i j := by
      have hi' : i < (b.reqIds.set j (some reqId)).length := by rwa [length_set]
      have his : i < (b.specTokenIds.set j (b.spec i)).length := by
        rw [length_set]
        exact hi.trans_le hindexed.specs
      refine RowView.mk.injEq .. |>.mpr ⟨lookup_insert_eq_update .., ?_, ?_, rfl⟩
      · exact (comp_set Option.join hi' _).trans (by rw [comp_set Option.join hj]; rfl)
      · exact (comp_set (·.getD []) his _).trans (by rw [comp_set (·.getD []) (hj.trans_le hindexed.specs)]; rfl)
    refine ⟨reqId, hreq, hview, ⟨?_, ?_, ?_⟩, rfl, rfl, ?_, ?_, ?_⟩
    · exact (congrArg RowView.Sound hview).mpr (hindexed.sound.move hindex hfree)
    · rw [hindexed.owners]
      change (b.reqIds.set j (b.reqAt i)).set i none = _
      rw [hreq]
    · rw [length_set, length_set, length_set, length_set]
      exact hindexed.specs
    · rw [length_set, length_set]
    · exact length_insert_of_lookup hindex j
    · split_ifs <;> rfl

theorem swapStates_spec {j : ℕ} (h : b.swapStates i j = .ok b') (hindexed : b.Indexed) :
    ∃ reqId₁ reqId₂, b.reqAt i = some reqId₁ ∧ b.reqAt j = some reqId₂ ∧
      b'.view = b.view.swap b.config reqId₁ reqId₂ i j ∧ b'.Indexed ∧ b'.config = b.config ∧
      b'.sets = b.sets ∧ b'.reqIds.length = b.reqIds.length ∧ b'.numReqs = b.numReqs := by
  unfold swapStates at h
  split at h
  case h_1 reqId₁ reqId₂ hreq₁ hreq₂ =>
    cases h
    have hi : i < b.reqIds.length := hindexed.lt_of_index ((hindexed.matching _ i).mpr hreq₁)
    have hj : j < b.reqIds.length := hindexed.lt_of_index ((hindexed.matching _ j).mpr hreq₂)
    have hspecs := hindexed.specs
    have hview : RowView.mk ((b.reqIdToIndex.insert reqId₁ j).insert reqId₂ i).lookup
        (fun m : ℕ => ((swapEntries b.reqIds i j)[m]?).join)
        (fun m : ℕ => ((swapEntries b.specTokenIds i j)[m]?).getD [])
        (update (update b.rows i ((b.rows i).swapWith b.config
          (max (b.activeTokenCount i) (b.activeTokenCount j)) false (b.rows j))) j
          ((b.rows j).swapWith b.config (max (b.activeTokenCount i) (b.activeTokenCount j)) true (b.rows i))) =
        b.view.swap b.config reqId₁ reqId₂ i j := by
      rw [lookup_insert_eq_update, lookup_insert_eq_update]
      exact RowView.mk.injEq .. |>.mpr ⟨rfl, comp_swapEntries Option.join hi hj,
        comp_swapEntries (·.getD []) (hi.trans_le hspecs) (hj.trans_le hspecs), rfl⟩
    have hnumReqs : ((b.reqIdToIndex.insert reqId₁ j).insert reqId₂ i).entries.length =
        b.reqIdToIndex.entries.length := by
      have hindex₁ : b.reqIdToIndex.lookup reqId₁ = some i := (hindexed.matching _ i).mpr hreq₁
      have hindex₂ : ∃ m, (b.reqIdToIndex.insert reqId₁ j).lookup reqId₂ = some m := by
        rcases eq_or_ne reqId₂ reqId₁ with rfl | hne
        · exact ⟨j, lookup_insert _⟩
        · exact ⟨j, (lookup_insert_ne hne).trans ((hindexed.matching _ j).mpr hreq₂)⟩
      obtain ⟨m, hm⟩ := hindex₂
      rw [length_insert_of_lookup hm, length_insert_of_lookup hindex₁]
    refine ⟨reqId₁, reqId₂, hreq₁, hreq₂, hview, ⟨?_, ?_, ?_⟩, rfl, rfl, length_swapEntries, hnumReqs⟩
    · exact (congrArg RowView.Sound hview).mpr (hindexed.sound.swap hreq₁ hreq₂)
    · rw [hindexed.owners]
    · rwa [length_swapEntries, length_swapEntries]
  case h_2 => cases h

/-! ## Condensing -/

theorem lastFilled_spec {removed : List ℕ} {k : ℕ} (hk : k ∉ removed) :
    ∀ {last : ℕ}, k ≤ last → lastFilled removed last ≤ last ∧ lastFilled removed last ∉ removed ∧
      ∀ m, lastFilled removed last < m → m ≤ last → m ∈ removed := by
  intro last hle
  induction last with
  | zero =>
    obtain rfl : k = 0 := Nat.le_zero.mp hle
    exact ⟨le_rfl, hk, fun m hm hm' => absurd hm' (Nat.not_le.mpr hm)⟩
  | succ last ih =>
    unfold lastFilled
    split_ifs with hmem
    · have hle' : k ≤ last := Nat.le_of_lt_succ (lt_of_le_of_ne hle fun heq => hk (heq ▸ hmem))
      obtain ⟨hbound, hfilled, habove⟩ := ih hle'
      refine ⟨hbound.trans (Nat.le_succ _), hfilled, fun m hm hm' => ?_⟩
      rcases Nat.lt_or_ge last m with hlt | hge
      · obtain rfl : m = last + 1 := Nat.le_antisymm hm' hlt
        exact hmem
      · exact habove m hm hge
    · exact ⟨le_rfl, hmem, fun m hm hm' => absurd hm' (Nat.not_le.mpr hm)⟩

/-- What holds when `condense` looks for the last request up to a row. -/
structure Condensing (b : InputBatch F G) (last : ℕ) : Prop where
  indexed : b.Indexed
  below : ∀ m ≤ last, b.reqAt m = none ↔ m ∈ b.builder.removed
  above : ∀ m, last < m → b.reqAt m = none
  bound : last < b.reqIds.length
  sorted : b.builder.removed.Pairwise (· > ·)

/-- The requests are in the rows up to this one. -/
structure Packed (b : InputBatch F G) (last : ℕ) : Prop where
  indexed : b.Indexed
  filled : ∀ m ≤ last, b.reqAt m ≠ none
  above : ∀ m, last < m → b.reqAt m = none
  bound : last < b.reqIds.length

theorem Indexed.numReqs_eq (h : b.Indexed) {n : ℕ} (hbound : ∀ m, b.reqAt m ≠ none → m < n) :
    b.numReqs = ((Finset.range n).filter fun m => b.reqAt m ≠ none).card :=
  h.matching.length_eq_card hbound

theorem Indexed.reqAt_of_numReqs (h : b.Indexed) (hzero : b.numReqs = 0) (m : ℕ) : b.reqAt m = none := by
  by_contra hne
  have hempty := h.numReqs_eq fun m hm => lt_of_reqAt hm
  rw [hzero, eq_comm, Finset.card_eq_zero, Finset.filter_eq_empty_iff] at hempty
  exact hempty (Finset.mem_range.mpr (lt_of_reqAt hne)) hne

theorem Packed.numReqs {last : ℕ} (h : b.Packed last) : b.numReqs = last + 1 := by
  have hbound : ∀ m, b.reqAt m ≠ none → m < last + 1 := fun m hm => by
    by_contra hge
    exact hm (h.above m (by omega))
  rw [h.indexed.numReqs_eq hbound, Finset.filter_true_of_mem fun m hm => h.filled m ?_, Finset.card_range]
  exact Nat.le_of_lt_succ (Finset.mem_range.mp hm)

namespace Condensing

variable {last : ℕ}

section

variable (h : b.Condensing last)
include h

theorem exists_filled (hne : b.numReqs ≠ 0) : ∃ k ≤ last, k ∉ b.builder.removed := by
  by_contra hall
  push Not at hall
  apply hne
  have hnone (m : ℕ) : b.reqAt m = none := by
    rcases Nat.lt_or_ge last m with hlt | hge
    · exact h.above m hlt
    · exact (h.below m hge).mpr (hall m hge)
  rw [h.indexed.numReqs_eq (n := 0) fun m hm => absurd (hnone m) hm]
  rfl

theorem lastFilled (hne : b.numReqs ≠ 0) :
    b.Condensing (lastFilled b.builder.removed last) ∧ b.reqAt (lastFilled b.builder.removed last) ≠ none := by
  obtain ⟨k, hk, hfilled⟩ := h.exists_filled hne
  obtain ⟨hle, hmem, habove⟩ := lastFilled_spec hfilled hk
  refine ⟨⟨h.indexed, fun m hm => h.below m (hm.trans hle), fun m hm => ?_, hle.trans_lt h.bound, h.sorted⟩, ?_⟩
  · rcases Nat.lt_or_ge last m with hlt | hge
    · exact h.above m hlt
    · exact (h.below m hge).mpr (habove m hm hge)
  · exact fun hnone => hmem ((h.below _ hle).mp hnone)

theorem packed (hremoved : ∀ m ∈ b.builder.removed, last < m) : b.Packed last :=
  ⟨h.indexed, fun m hm hnone => absurd (hremoved m ((h.below m hm).mp hnone)) (Nat.not_lt.mpr hm), h.above, h.bound⟩

theorem moveRequest {e : ℕ} (hlast : b.reqAt last ≠ none) (hlt : e < last)
    (hgetLast : b.builder.removed.getLast? = some e)
    (hmove : { b with builder := { b.builder with removed := b.builder.removed.dropLast } }.moveRequest last e =
      .ok b') :
    b'.Condensing (last - 1) ∧ b.view.MoveStep b.config b.numReqs b'.view ∧ b'.numReqs = b.numReqs ∧
      b'.config = b.config ∧ b'.sets = b.sets ∧ b'.builder.removed = b.builder.removed.dropLast := by
  have hsplit : b.builder.removed = b.builder.removed.dropLast ++ [e] :=
    (dropLast_append_getLast? e hgetLast).symm
  have hmem (m : ℕ) : m ∈ b.builder.removed ↔ m ∈ b.builder.removed.dropLast ∨ m = e := by
    conv_lhs => rw [hsplit]
    rw [mem_append, mem_singleton]
  have hsorted := h.sorted
  rw [hsplit, pairwise_append] at hsorted
  have he : e ∉ b.builder.removed.dropLast := fun hin =>
    lt_irrefl e (hsorted.2.2 e hin e (mem_singleton_self e))
  have hfree : b.reqAt e = none := (h.below e hlt.le).mpr ((hmem e).mpr (.inr rfl))
  obtain ⟨reqId, hreq, hview, hindexed, hconfig, hsets, hlength, hnumReqs, hremoved⟩ :=
    moveRequest_spec hmove (h.indexed.of_lists rfl rfl rfl rfl) (hlt.trans h.bound) hfree
  have hreqAt (m : ℕ) : b'.reqAt m = update (update b.reqAt e (some reqId)) last none m :=
    congrFun (congrArg RowView.reqAt hview) m
  have hmoves : b.numReqs ≤ last := by
    have hbound (m : ℕ) (hm : b.reqAt m ≠ none) : m < last + 1 := by
      by_contra hge
      exact hm (h.above m (by omega))
    have hsubset : ((Finset.range (last + 1)).filter fun m => b.reqAt m ≠ none) ⊆ (Finset.range (last + 1)).erase e :=
      fun m hm => Finset.mem_erase.mpr
        ⟨fun heq => (Finset.mem_filter.mp hm).2 (heq ▸ hfree), (Finset.mem_filter.mp hm).1⟩
    have hcard := Finset.card_le_card hsubset
    rwa [← h.indexed.numReqs_eq hbound, Finset.card_erase_of_mem (Finset.mem_range.mpr (by omega)),
      Finset.card_range] at hcard
  refine ⟨⟨hindexed, fun m hm => ?_, fun m hm => ?_, ?_, ?_⟩, ?_, hnumReqs, hconfig, hsets, hremoved⟩
  · rw [hreqAt, hremoved, update_of_ne (by omega)]
    rcases eq_or_ne m e with rfl | hne
    · rw [update_self]
      exact ⟨nofun, fun hin => absurd hin he⟩
    · rw [update_of_ne hne, h.below m (by omega), hmem]
      exact or_iff_left hne
  · rw [hreqAt]
    rcases eq_or_ne m last with rfl | hne
    · exact update_self ..
    · rw [update_of_ne hne, update_of_ne (by omega)]
      exact h.above m (by omega)
  · rw [hlength]
    exact (Nat.sub_le ..).trans_lt h.bound
  · rw [hremoved]
    exact hsorted.1
  · exact ⟨reqId, last, e, hreq, hfree, hmoves, hview⟩

end

end Condensing

open Relation in
theorem condenseLoop_spec : ∀ {fuel last : ℕ} {b b' : InputBatch F G}, b.condenseLoop fuel last = .ok b' →
    b.Condensing last → b.numReqs ≠ 0 → b.builder.removed.length ≤ fuel →
    (∃ last', b'.Packed last') ∧ ReflTransGen (RowView.MoveStep b.config b.numReqs) b.view b'.view ∧
      b'.numReqs = b.numReqs ∧ b'.config = b.config ∧ b'.sets = b.sets := by
  intro fuel
  induction fuel with
  | zero =>
    intro last b b' h hcondensing hne hfuel
    cases h
    have hnil : b.builder.removed = [] := eq_nil_of_length_eq_zero (Nat.le_zero.mp hfuel)
    exact ⟨⟨last, hcondensing.packed fun m hm => by rw [hnil] at hm; cases hm⟩, .refl, rfl, rfl, rfl⟩
  | succ fuel ih =>
    intro last b b' h hcondensing hne hfuel
    obtain ⟨hcondensing', hfilled⟩ := hcondensing.lastFilled hne
    unfold condenseLoop at h
    dsimp only at h
    generalize lastFilled b.builder.removed last = last' at *
    split at h
    case h_1 hnone =>
      cases h
      have hnil : b.builder.removed = [] := getLast?_eq_none_iff.mp hnone
      exact ⟨⟨last', hcondensing'.packed fun m hm => by rw [hnil] at hm; cases hm⟩, .refl, rfl, rfl, rfl⟩
    case h_2 e hgetLast =>
      split_ifs at h with hle
      · -- the first empty row is after the last request
        cases h
        refine ⟨⟨last', hcondensing'.packed fun m hm => ?_⟩, .refl, rfl, rfl, rfl⟩
        have hne' : m ≠ last' := fun heq => hfilled ((hcondensing'.below _ le_rfl).mpr (heq ▸ hm))
        have hlast : e ≤ m := by
          rw [← dropLast_append_getLast? e hgetLast, mem_append, mem_singleton] at hm
          have hsorted := hcondensing'.sorted
          rw [← dropLast_append_getLast? e hgetLast, pairwise_append] at hsorted
          rcases hm with hm | rfl
          · exact (hsorted.2.2 m hm e (mem_singleton_self e)).le
          · exact le_rfl
        omega
      obtain ⟨moved, hmove, h⟩ := bind_eq_ok.mp h
      obtain ⟨hmoved, hstep, hnumReqs, hconfig, hsets, hremoved⟩ :=
        hcondensing'.moveRequest hfilled (Nat.not_le.mp hle) hgetLast hmove
      have hfuel' : moved.builder.removed.length ≤ fuel := by
        rw [hremoved, length_dropLast]
        omega
      obtain ⟨hpacked, hmoves, hnumReqs', hconfig', hsets'⟩ := ih h hmoved (hnumReqs ▸ hne) hfuel'
      rw [hnumReqs, hconfig] at hmoves
      exact ⟨hpacked, .head hstep hmoves, hnumReqs'.trans hnumReqs, hconfig'.trans hconfig, hsets'.trans hsets⟩

theorem Packed.dense {last n : ℕ} (h : b.Packed last) (hn : b.numReqs = n) :
    let cut := { b with
      reqIds := b.reqIds.take n, reqOutputTokenIds := b.reqOutputTokenIds.take n
      specTokenIds := b.specTokenIds.take n }
    cut.view = b.view ∧ cut.Indexed ∧ cut.Dense := by
  intro cut
  obtain rfl : n = last + 1 := hn.symm.trans h.numReqs
  have hspec (m : ℕ) (hm : last + 1 ≤ m) : b.spec m = [] := h.indexed.sound.unused m (h.above m hm)
  have hview : cut.view = b.view :=
    RowView.mk.injEq .. |>.mpr ⟨rfl, comp_take Option.join fun m hm => h.above m hm, comp_take (·.getD []) hspec, rfl⟩
  have hlength : cut.reqIds.length = last + 1 := length_take_of_le h.bound
  refine ⟨hview, ⟨?_, ?_, ?_⟩, ?_, fun m hm => ?_⟩
  · rw [hview]
    exact h.indexed.sound
  · exact congrArg (List.take (last + 1)) h.indexed.owners
  · rw [hlength]
    exact (length_take_of_le (h.bound.trans_le h.indexed.specs)).ge
  · exact hlength.trans h.numReqs.symm
  · have hreqAt : cut.reqAt m = b.reqAt m := congrFun (congrArg RowView.reqAt hview) m
    rw [hreqAt]
    exact h.filled m (Nat.le_of_lt_succ (hm.trans_eq h.numReqs))

open Relation in
/-- `condense` moves requests to empty rows until they are in the first rows. -/
theorem condense_spec (h : b.condense = .ok b') (hindexed : b.Indexed) (hholes : b.Holes) :
    ReflTransGen (RowView.MoveStep b.config b.numReqs) b.view b'.view ∧ b'.Indexed ∧ b'.Dense ∧
      b'.config = b.config ∧ b'.sets = b.sets := by
  obtain ⟨hperm, hsorted, -⟩ := BatchUpdateBuilder.ensureRemovedSorted_spec hholes.nodup hholes.sorted
  have hcount := hholes.count hindexed
  unfold condense at h
  dsimp only at h
  rw [← hperm.length_eq] at hcount
  have hremoved (m : ℕ) : m ∈ b.builder.ensureRemovedSorted.removed ↔ m < b.reqIds.length ∧ b.reqAt m = none :=
    hperm.mem_iff.trans (hholes.removed m)
  generalize b.builder.ensureRemovedSorted = builder at *
  split_ifs at h with hnil hzero
  · cases h
    refine ⟨.refl, hindexed.of_lists rfl rfl rfl rfl, ⟨?_, fun m hm hnone => ?_⟩, rfl, rfl⟩
    · rw [hnil, length_nil] at hcount
      exact hcount.symm
    · have hlt : m < b.reqIds.length := hcount ▸ hm.trans_le (Nat.le_add_right ..)
      have hmem := (hremoved m).mpr ⟨hlt, hnone⟩
      simp [hnil] at hmem
  · cases h
    have hnone (m : ℕ) : b.reqAt m = none := hindexed.reqAt_of_numReqs hzero m
    have hview : view { b with
        builder := builder, reqIds := [], reqOutputTokenIds := [], specTokenIds := [] } = b.view :=
      RowView.mk.injEq .. |>.mpr
        ⟨rfl, funext fun m => (hnone m).symm, funext fun m => (hindexed.sound.unused m (hnone m)).symm, rfl⟩
    refine ⟨hview ▸ .refl, ⟨?_, rfl, le_rfl⟩, ⟨hzero.symm, fun m hm => ?_⟩, rfl, rfl⟩
    · rw [hview]
      exact hindexed.sound
    · exact absurd (hm.trans_eq hzero) (Nat.not_lt_zero m)
  obtain ⟨moved, hloop, h⟩ := bind_eq_ok.mp h
  cases h
  have hcondensing : Condensing { b with builder := builder } (b.numReqs + builder.removed.length - 1) := by
    refine ⟨hindexed.of_lists rfl rfl rfl rfl, fun m hm => ?_, fun m hm => ?_, ?_, hsorted⟩
    · rw [hremoved]
      exact (and_iff_right (by omega)).symm
    · unfold reqAt
      rw [getElem?_eq_none (by dsimp only; omega)]
      rfl
    · dsimp only
      omega
  obtain ⟨⟨last, hpacked⟩, hmoves, hnumReqs, hconfig, hsets⟩ := condenseLoop_spec hloop hcondensing hzero le_rfl
  obtain ⟨hview, hindexed', hdense⟩ := hpacked.dense hnumReqs
  exact ⟨hview ▸ hmoves, hindexed', hdense, hconfig, hsets⟩

end InputBatch

end VllmPs.Worker
