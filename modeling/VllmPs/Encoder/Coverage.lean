import Mathlib.Data.List.TakeWhile
import VllmPs.Encoder.Cache
import VllmPs.Lib.Transition

/-!
# What a scheduled range needs is at hand

The inputs with an embedding in the range that a request is given are referenced by the request
in the scheduler's view of the encoder cache, or are among those that the plan schedules or loads.
-/

namespace VllmPs

open List Option AList

variable {features : List EncoderFeature} {start finish : ℕ}
variable {input : EncoderFeature × ℕ}

open Lib

/-! ## Embeddings in a range -/

namespace EncoderFeature

variable {f : EncoderFeature} {startIdx endIdx : ℕ}

theorem embedsCumsum_getD (mask : List Bool) {idx : ℕ} (hpos : 0 < idx) (hidx : idx ≤ mask.length) :
    (embedsCumsum mask).getD (idx - 1) 0 = (mask.take idx).count true := by
  have hlt : idx - 1 < mask.length := by omega
  unfold embedsCumsum
  rw [getD_eq_getElem?_getD, getElem?_map, getElem?_range hlt]
  simp only [map_some, getD_some, Nat.sub_add_cancel hpos]

theorem count_take_eq_iff (mask : List Bool) (hle : startIdx ≤ endIdx) :
    (mask.take startIdx).count true = (mask.take endIdx).count true ↔
      ∀ i, startIdx ≤ i → i < endIdx → mask[i]? ≠ some true := by
  have hsplit : mask.take endIdx = mask.take startIdx ++ (mask.drop startIdx).take (endIdx - startIdx) := by
    rw [← take_add, Nat.add_sub_cancel' hle]
  rw [hsplit, count_append, left_eq_add, count_eq_zero, mem_iff_getElem?]
  constructor
  · intro h i hi hlt hsome
    refine h ⟨i - startIdx, ?_⟩
    rwa [getElem?_take_of_lt (by omega), getElem?_drop, Nat.add_sub_cancel' hi]
  rintro h ⟨i, hi⟩
  have hlt : i < endIdx - startIdx := by
    by_contra hge
    rw [getElem?_take_eq_none (by omega)] at hi
    cases hi
  rw [getElem?_take_of_lt hlt, getElem?_drop] at hi
  exact h (startIdx + i) (by omega) (by omega) hi

theorem getEmbedsIndicesInRange_eq_iff (hle : startIdx ≤ endIdx) (hend : endIdx ≤ f.length) :
    (f.getEmbedsIndicesInRange startIdx endIdx).1 = (f.getEmbedsIndicesInRange startIdx endIdx).2 ↔
      ∀ position, f.offset + startIdx ≤ position → position < f.offset + endIdx → ¬f.EmbedsAt position := by
  unfold getEmbedsIndicesInRange EmbedsAt
  cases hmask : f.isEmbed with
  | none =>
    constructor
    · intro heq position hlow hhigh
      have : startIdx = endIdx := heq
      omega
    · intro h
      by_contra hne
      change ¬startIdx = endIdx at hne
      exact h (f.offset + startIdx) le_rfl (by omega) ⟨by omega, by omega, nofun⟩
  | some mask =>
    have hlength := f.mask_length mask hmask
    have hbefore (idx : ℕ) (hidx : idx ≤ f.length) :
        (if idx > 0 then (embedsCumsum mask).getD (idx - 1) 0 else 0) = (mask.take idx).count true := by
      split_ifs with hpos
      · exact embedsCumsum_getD mask hpos (by omega)
      · rw [Nat.eq_zero_of_not_pos hpos]
        rfl
    dsimp only
    rw [hbefore startIdx (by omega), hbefore endIdx hend, count_take_eq_iff mask hle]
    constructor
    · rintro h position hlow hhigh ⟨-, -, hembed⟩
      exact h (position - f.offset) (by omega) (by omega) (hembed mask rfl)
    intro h i hi hlt hembed
    refine h (f.offset + i) (by omega) (by omega) ⟨by omega, by omega, fun other hother => ?_⟩
    cases hother
    rwa [Nat.add_sub_cancel_left]

end EncoderFeature

/-! ## The window -/

/-- Sorted features that do not overlap. -/
def Disjoined (features : List EncoderFeature) : Prop :=
  features.Pairwise fun f g => f.offset + f.length ≤ g.offset
  deriving Decidable

theorem lt_length_takeWhile_iff {A : Type*} {R : A → A → Prop} {p : A → Bool} (hp : ∀ a b, R a b → p b → p a)
    {l : List A} (hl : l.Pairwise R) {i : ℕ} {a : A} (ha : l[i]? = some a) :
    i < (l.takeWhile p).length ↔ p a = true := by
  induction l generalizing i with
  | nil => cases ha
  | cons b l ih =>
    obtain ⟨hb, hl⟩ := pairwise_cons.mp hl
    rw [List.takeWhile_cons]
    cases i with
    | zero =>
      cases ha
      split_ifs with hpb <;> simp [hpb]
    | succ i =>
      split_ifs with hpb
      · rw [length_cons, Nat.succ_lt_succ_iff]
        exact ih hl ha
      · exact ⟨nofun, fun hpa => absurd (hp b a (hb a (mem_of_getElem? ha)) hpa) hpb⟩

theorem mem_getMmFeaturesInWindow (hsorted : Disjoined features) :
    input ∈ getMmFeaturesInWindow features start finish ↔ features[input.2]? = some input.1 ∧
      start < input.1.offset + input.1.length ∧ input.1.offset < finish := by
  have hlo := fun i f (h : features[i]? = some f) => lt_length_takeWhile_iff
    (p := fun f => decide (f.offset + f.length < start + 1)) (fun a b hab hb => by
      simp only [decide_eq_true_eq] at hb ⊢
      omega) hsorted h
  have hhi := fun i f (h : features[i]? = some f) => lt_length_takeWhile_iff
    (p := fun f => decide (f.offset < finish)) (fun a b hab hb => by
      simp only [decide_eq_true_eq] at hb ⊢
      omega) hsorted h
  simp only [decide_eq_true_eq] at hlo hhi
  unfold getMmFeaturesInWindow
  rw [mem_iff_getElem?]
  constructor
  · rintro ⟨i, hi⟩
    rw [getElem?_drop, getElem?_take, getElem?_zipIdx] at hi
    split_ifs at hi with hlt
    obtain ⟨f, hf, rfl⟩ := Option.map_eq_some_iff.mp hi
    have hstart := (hlo _ f hf).not.mp (by omega)
    rw [Nat.zero_add]
    exact ⟨hf, Nat.lt_of_not_le fun hle => hstart (Nat.lt_succ_of_le hle), (hhi _ f hf).mp hlt⟩
  rintro ⟨hf, hstart, hfinish⟩
  have hlow := (hlo _ _ hf).not.mpr (by omega)
  refine ⟨input.2 - (features.takeWhile fun f => decide (f.offset + f.length < start + 1)).length, ?_⟩
  rw [getElem?_drop, Nat.add_sub_cancel' (Nat.le_of_not_lt hlow),
    getElem?_take_of_lt ((hhi _ _ hf).mpr hfinish), getElem?_zipIdx, hf, Nat.zero_add]
  rfl

theorem pairwise_getMmFeaturesInWindow (hsorted : Disjoined features)
    (start finish : ℕ) : (getMmFeaturesInWindow features start finish).Pairwise fun a b =>
      a.1.offset + a.1.length ≤ b.1.offset := by
  have hzip : features.zipIdx.Pairwise fun a b => a.1.offset + a.1.length ≤ b.1.offset := by
    rw [← pairwise_map (f := Prod.fst) (R := fun f g : EncoderFeature => f.offset + f.length ≤ g.offset),
      List.zipIdx_map_fst]
    exact hsorted
  exact hzip.sublist (((drop_sublist _ _).trans (take_sublist _ _)))

/-! ## The manager -/

namespace EncoderCacheManager

variable {m m' m'' : EncoderCacheManager} {requestId : RequestId} {mmHash : String}
variable {lost refs : List RequestId} {freeable : List (String × ℕ)} {numEmbeds : ℤ}

/-- A request references a hash. -/
def References (m : EncoderCacheManager) (requestId : RequestId) (mmHash : String) : Prop :=
  ∃ refs, m.cached.lookup mmHash = some refs ∧ requestId ∈ refs

/-- The hashes that may be evicted are cached and have no references. -/
structure Managed (m : EncoderCacheManager) : Prop where
  nodup : (m.freeable.map Prod.fst).Nodup
  unreferenced : ∀ entry ∈ m.freeable, m.cached.lookup entry.1 = some []

structure Shrinks (lost : List RequestId) (m m' : EncoderCacheManager) : Prop where
  references : ∀ r ∉ lost, ∀ h, m.References r h → m'.References r h
  keys : ∀ h, (m'.cached.lookup h).isSome → (m.cached.lookup h).isSome
  freed : ∀ h, (m'.cached.lookup h).isSome → h ∈ m'.freed → h ∈ m.freed

theorem Shrinks.refl (lost : List RequestId) (m : EncoderCacheManager) : Shrinks lost m m :=
  ⟨fun _ _ _ h => h, fun _ h => h, fun _ _ h => h⟩

theorem Shrinks.trans (h : Shrinks lost m m') (h' : Shrinks lost m' m'') : Shrinks lost m m'' where
  references r hr mmHash hrefs := h'.references r hr mmHash (h.references r hr mmHash hrefs)
  keys mmHash hsome := h.keys mmHash (h'.keys mmHash hsome)
  freed mmHash hsome hfreed := h.freed mmHash (h'.keys mmHash hsome) (h'.freed mmHash hsome hfreed)

theorem Shrinks.uncached (h : Shrinks lost m m') (hnone : m.cached.lookup mmHash = none) :
    m'.cached.lookup mmHash = none := by
  rw [← not_isSome_iff_eq_none]
  intro hsome
  have hold := h.keys mmHash hsome
  simp [hnone] at hold

theorem Shrinks.insert {refs' : List RequestId} (hlookup : m.cached.lookup mmHash = some refs)
    (hcached : m'.cached = m.cached.insert mmHash refs') (hfreed : m'.freed = m.freed)
    (hrefs : ∀ r ∉ lost, r ∈ refs → r ∈ refs') : Shrinks lost m m' := by
  refine ⟨fun r hr other hother => ?_, fun other hsome => ?_, fun other _ hmem => hfreed ▸ hmem⟩
  · obtain ⟨refs₁, hrefs₁, hmem⟩ := hother
    rcases eq_or_ne other mmHash with rfl | hne
    · obtain rfl := mem_unique hlookup hrefs₁
      exact ⟨refs', hcached ▸ lookup_insert _, hrefs r hr hmem⟩
    · exact ⟨refs₁, hcached ▸ (lookup_insert_ne hne).trans hrefs₁, hmem⟩
  · rw [hcached] at hsome
    rcases eq_or_ne other mmHash with rfl | hne
    · rw [hlookup]
      rfl
    · exact (lookup_insert_ne hne) ▸ hsome

theorem Managed.insert (h : m.Managed)
    (hsub : freeable.Sublist m.freeable) (hnot : ∀ entry ∈ freeable, entry.1 ≠ mmHash)
    (hcached : m'.cached = m.cached.insert mmHash refs) (hfreeable : m'.freeable = freeable) : m'.Managed where
  nodup := by
    rw [hfreeable]
    exact h.nodup.sublist (hsub.map _)
  unreferenced entry hentry := by
    rw [hfreeable] at hentry
    rw [hcached, lookup_insert_ne (hnot entry hentry)]
    exact h.unreferenced entry (hsub.subset hentry)

theorem Managed.ne_of_references (h : m.Managed) (hrefs : refs ≠ [])
    (hcached : m.cached.lookup mmHash = some refs) : ∀ entry ∈ m.freeable, entry.1 ≠ mmHash := by
  rintro entry hentry rfl
  exact hrefs (some.inj (hcached.symm.trans (h.unreferenced entry hentry)))

theorem checkAndUpdateCache_spec {inputId : ℕ} (hm : m.Managed) :
    Ensures (fun (m', found) => m'.Managed ∧ Shrinks [] m m' ∧
        ((found = false ∧ m' = m ∧ m.cached.lookup mmHash = none) ∨ (found = true ∧ m'.References requestId mmHash)))
      (m.checkAndUpdateCache requestId mmHash inputId) := by
  unfold checkAndUpdateCache
  cases hlookup : m.cached.lookup mmHash with
  | none => exact .ok ⟨hm, Shrinks.refl _ _, Or.inl ⟨rfl, rfl, rfl⟩⟩
  | some refs =>
    -- in both cases the references are inserted and the hash is not to be evicted
    have hinsert {freeable : List (String × ℕ)} (slots : ℤ) (hsub : freeable.Sublist m.freeable)
        (hnot : ∀ entry ∈ freeable, entry.1 ≠ mmHash) :
        let m' := { m with
          freeable := freeable
          numFreeableSlots := slots
          cached := m.cached.insert mmHash (refs.insert requestId) }.addCachedId requestId inputId
        m'.Managed ∧ Shrinks [] m m' ∧ m'.References requestId mmHash := by
      exact ⟨hm.insert hsub hnot rfl rfl, .insert hlookup rfl rfl fun _ _ => mem_insert_of_mem,
        _, lookup_insert _, mem_insert_self⟩
    refine .map (.ite (fun _ => ?_) fun hempty => .ok ?_)
    · cases m.freeable.lookup mmHash with
      | none => exact .error
      | some size =>
        obtain ⟨hm', hshrinks, hrefs⟩ := hinsert (m.numFreeableSlots - size) filter_sublist
          fun entry hentry => of_decide_eq_true (mem_filter.mp hentry).2
        exact .ok ⟨hm', hshrinks, Or.inr ⟨rfl, hrefs⟩⟩
    · obtain ⟨hm', hshrinks, hrefs⟩ := hinsert m.numFreeableSlots (List.Sublist.refl _)
        (hm.ne_of_references (fun hnil => hempty (by rw [hnil]; rfl)) hlookup)
      exact ⟨hm', hshrinks, Or.inr ⟨rfl, hrefs⟩⟩

theorem evictUntil_spec (hm : Managed { m with freeable := freeable }) :
    Ensures (fun m' => m'.Managed ∧ Shrinks [] m m') (evictUntil numEmbeds m freeable) := by
  have hkept {freeable : List (String × ℕ)} {m : EncoderCacheManager} (hm : Managed { m with freeable := freeable }) :
      Managed { m with freeable := freeable } ∧ Shrinks [] m { m with freeable := freeable } :=
    ⟨hm, fun _ _ _ h => h, fun _ h => h, fun _ _ h => h⟩
  induction freeable generalizing m with
  | nil => exact .ite (fun _ => .error) fun _ => .ok (hkept hm)
  | cons entry rest ih =>
    obtain ⟨mmHash, size⟩ := entry
    refine .ite (fun _ m' h => ?_) fun _ => .ok (hkept hm)
    have hunreferenced : m.cached.lookup mmHash = some [] := hm.unreferenced _ mem_cons_self
    have hnodup := nodup_cons.mp hm.nodup
    have hrest := ih ⟨hnodup.2, fun entry hentry => by
      have hne : entry.1 ≠ mmHash := fun heq => hnodup.1 (mem_map.mpr ⟨entry, hentry, heq⟩)
      exact (lookup_erase_ne hne).trans (hm.unreferenced entry (mem_cons_of_mem _ hentry))⟩ h
    refine ⟨hrest.1, Shrinks.trans ⟨fun r _ other hrefs => ?_, fun other hsome => ?_,
      fun other hsome hfreed => ?_⟩ hrest.2⟩
    · obtain ⟨refs, hrefs, hr⟩ := hrefs
      have hne : other ≠ mmHash := by
        rintro rfl
        obtain rfl : refs = [] := mem_unique hrefs hunreferenced
        cases hr
      exact ⟨refs, (lookup_erase_ne hne).trans hrefs, hr⟩
    · rcases eq_or_ne other mmHash with rfl | hne
      · have hnone : (m.cached.erase other).lookup other = none := lookup_erase _ _
        simp [hnone] at hsome
      · exact (lookup_erase_ne hne) ▸ hsome
    rcases mem_append.mp hfreed with hfreed | hlast
    · exact hfreed
    · obtain rfl := mem_singleton.mp hlast
      simp [lookup_erase] at hsome

theorem canAllocate_spec {f : EncoderFeature} {budget : ℤ} (hm : m.Managed) :
    Ensures (fun r => r.1.Managed ∧ Shrinks [] m r.1) (m.canAllocate f budget numEmbeds) := by
  have hkept : m.Managed ∧ Shrinks [] m m := ⟨hm, Shrinks.refl _ _⟩
  exact .ite (fun _ => .ok hkept) fun _ => .ite (fun _ => .ok hkept) fun _ => .ite (fun _ => .ok hkept) fun _ =>
    .map (evictUntil_spec hm)

end EncoderCacheManager

/-! ## The plan -/

namespace EncoderPlan

open EncoderCacheManager

variable {config : EncoderConfig} {requestId : RequestId} {c : ℕ} {p p' : EncoderPlan} {f : EncoderFeature}

/-- The request will find the input in the cache. -/
def Covers (p : EncoderPlan) (requestId : RequestId) (f : EncoderFeature) : Prop :=
  f.identifier ∈ p.mmHashesToSchedule ∨ p.manager.References requestId f.identifier

structure Fresh (p : EncoderPlan) : Prop where
  managed : p.manager.Managed
  nodup : p.mmHashesToSchedule.Nodup
  uncached : ∀ h ∈ p.mmHashesToSchedule, p.manager.cached.lookup h = none

/-- What one input does to the plan: the hashes may grow, references stay. -/
structure Extends (p p' : EncoderPlan) : Prop where
  shrinks : Shrinks [] p.manager p'.manager
  hashes : p.mmHashesToSchedule ⊆ p'.mmHashesToSchedule

theorem Extends.refl (p : EncoderPlan) : Extends p p := ⟨Shrinks.refl _ _, fun _ h => h⟩

theorem Extends.trans {p'' : EncoderPlan} (h : Extends p p') (h' : Extends p' p'') : Extends p p'' :=
  ⟨h.shrinks.trans h'.shrinks, fun _ hmem => h'.hashes (h.hashes hmem)⟩

theorem Covers.extends (h : p.Covers requestId f) (hextends : Extends p p') : p'.Covers requestId f :=
  h.imp (fun hmem => hextends.hashes hmem) fun hrefs =>
    hextends.shrinks.references requestId not_mem_nil f.identifier hrefs

theorem Fresh.shrink (h : p.Fresh) {m : EncoderCacheManager} (hm : m.Managed)
    (hshrinks : Shrinks [] p.manager m) : Fresh { p with manager := m } where
  managed := hm
  nodup := h.nodup
  uncached mmHash hmem := hshrinks.uncached (h.uncached mmHash hmem)

theorem add_spec (config : EncoderConfig) (p : EncoderPlan) (input : EncoderFeature × ℕ) :
    (p.add config input).mmHashesToSchedule.Perm (input.1.identifier :: p.mmHashesToSchedule) ∧
      (p.add config input).manager = p.manager ∧ (p.add config input).numNewTokens = p.numNewTokens := by
  unfold add mmHashesToSchedule
  split_ifs
  · refine ⟨?_, rfl, rfl⟩
    simp only [map_append, ← append_assoc, map_cons, map_nil]
    exact perm_append_singleton _ _
  · refine ⟨?_, rfl, rfl⟩
    simp only [map_append, append_assoc, map_cons, map_nil]
    exact perm_middle

/-- No position of the range takes an embedding of the input. -/
def NoEmbeds (f : EncoderFeature) (start finish : ℕ) : Prop :=
  ∀ position, start ≤ position → position < finish → ¬f.EmbedsAt position

theorem embedsInRange_eq_iff {n : ℕ} (hstart : c < f.offset + f.length) :
    (embedsInRange f c n).2 = (embedsInRange f c n).1 ↔ NoEmbeds f c (c + n) := by
  unfold embedsInRange NoEmbeds
  rw [eq_comm, EncoderFeature.getEmbedsIndicesInRange_eq_iff (by omega) (Nat.min_le_left _ _)]
  constructor
  · rintro h position hlow hhigh hembeds
    have hle := hembeds.1
    have hlt := hembeds.2.1
    exact h position (by omega) (by omega) hembeds
  · intro h position hlow hhigh hembeds
    have hle := hembeds.1
    exact h position (by omega) (by omega) hembeds

theorem consider_spec {input : EncoderFeature × ℕ} (hfresh : p.Fresh)
    (hstart : c < input.1.offset + input.1.length) :
    Ensures (fun (p', goesOn) => p'.Fresh ∧ Extends p p' ∧ ((goesOn = true ∧ p'.numNewTokens = p.numNewTokens ∧
          (p'.Covers requestId input.1 ∨ NoEmbeds input.1 c (c + p.numNewTokens) ∧
            ∀ r, ¬p.manager.References r input.1.identifier)) ∨
        (goesOn = false ∧ p'.numNewTokens = input.1.offset - (c + config.shift))))
      (p.consider config requestId c input) := by
  refine .ite (fun hscheduled => .ok ?_) fun hscheduled => .bind fun (m₁, found) hcheck => ?_
  · exact ⟨hfresh, Extends.refl _, Or.inl ⟨rfl, rfl, Or.inl (Or.inl hscheduled)⟩⟩
  obtain ⟨hm₁, hshrinks₁, ⟨rfl, rfl, hnone⟩ | ⟨rfl, hrefs⟩⟩ := checkAndUpdateCache_spec hfresh.managed hcheck
  swap
  · exact .ok ⟨hfresh.shrink hm₁ hshrinks₁, ⟨hshrinks₁, fun _ hmem => hmem⟩, Or.inl ⟨rfl, rfl, Or.inl (Or.inr hrefs)⟩⟩
  have hunreferenced (r : RequestId) : ¬p.manager.References r input.1.identifier := by
    rintro ⟨refs, hrefs, -⟩
    exact nomatch hnone.symm.trans hrefs
  refine .ite nofun fun _ => .ite (fun _ => .ok ?_) fun _ => .bind fun (m₂, fits) hallocate => ?_
  · exact ⟨{ hfresh with }, ⟨Shrinks.refl _ _, fun _ hmem => hmem⟩, Or.inr ⟨rfl, rfl⟩⟩
  obtain ⟨hm₂, hshrinks₂⟩ := canAllocate_spec hfresh.managed hallocate
  have hfresh₂ := hfresh.shrink hm₂ hshrinks₂
  refine .ite (fun _ => .ok ?_) fun _ => .ite (fun hembeds => .ok ?_) fun _ => .ok ?_
  · exact ⟨{ hfresh₂ with }, ⟨hshrinks₂, fun _ hmem => hmem⟩, Or.inr ⟨rfl, rfl⟩⟩
  · exact ⟨hfresh₂, ⟨hshrinks₂, fun _ hmem => hmem⟩,
      Or.inl ⟨rfl, rfl, Or.inr ⟨(embedsInRange_eq_iff hstart).mp hembeds, hunreferenced⟩⟩⟩
  obtain ⟨hperm, hmanager, htokens⟩ := add_spec config { p with manager := m₂ } input
  refine ⟨⟨hmanager ▸ hm₂, ?_, fun mmHash hmem => ?_⟩, ⟨hmanager ▸ hshrinks₂, fun mmHash hmem => ?_⟩,
    Or.inl ⟨rfl, htokens, Or.inl (Or.inl ?_)⟩⟩
  · exact hperm.nodup_iff.mpr (nodup_cons.mpr ⟨hscheduled, hfresh.nodup⟩)
  · rw [hmanager]
    rcases mem_cons.mp (hperm.mem_iff.mp hmem) with rfl | hold
    · exact hshrinks₂.uncached hnone
    · exact hfresh₂.uncached mmHash hold
  · exact hperm.mem_iff.mpr (mem_cons_of_mem _ hmem)
  · exact hperm.mem_iff.mpr mem_cons_self

/-- After the loop every input is covered, has no embedding in the range or is not reached by it. -/
theorem considerAll_spec {inputs : List (EncoderFeature × ℕ)} (hfresh : p.Fresh)
    (hsorted : inputs.Pairwise fun a b => a.1.offset + a.1.length ≤ b.1.offset)
    (hwindow : ∀ input ∈ inputs, c < input.1.offset + input.1.length ∧
      input.1.offset < c + p.numNewTokens + config.shift)
    (hpos : 0 < p.numNewTokens) (h : p.considerAll config requestId c inputs = .ok p') :
    p'.Fresh ∧ Extends p p' ∧ p'.numNewTokens ≤ p.numNewTokens ∧ ∀ input ∈ inputs, p'.Covers requestId input.1 ∨
        (NoEmbeds input.1 c (c + p.numNewTokens) ∧ ∀ r, ¬p.manager.References r input.1.identifier) ∨
        p'.numNewTokens = 0 ∨ c + config.shift + p'.numNewTokens ≤ input.1.offset := by
  induction inputs generalizing p with
  | nil =>
    cases h
    exact ⟨hfresh, Extends.refl _, le_rfl, nofun⟩
  | cons input rest ih =>
    obtain ⟨⟨p₁, goesOn⟩, hconsider, h⟩ := bind_eq_ok.mp h
    obtain ⟨hstart, hfinish⟩ := hwindow input mem_cons_self
    obtain ⟨hlater, hrest⟩ := pairwise_cons.mp hsorted
    obtain ⟨hfresh₁, hextends₁, hgoes | hbreaks⟩ := consider_spec hfresh hstart hconsider
    · obtain ⟨rfl, htokens, hself⟩ := hgoes
      obtain ⟨hfresh', hextends, hle, hothers⟩ := ih hfresh₁ hrest
        (fun other hmem => htokens ▸ hwindow other (mem_cons_of_mem _ hmem)) (htokens ▸ hpos) h
      refine ⟨hfresh', hextends₁.trans hextends, htokens ▸ hle, fun other hmem => ?_⟩
      rcases mem_cons.mp hmem with rfl | hmem
      · rcases hself with hcovers | hnone
        · exact Or.inl (hcovers.extends hextends)
        · exact Or.inr (Or.inl hnone)
      rcases hothers other hmem with hcovers | ⟨hnone, hunreferenced⟩ | hcut
      · exact Or.inl hcovers
      · refine Or.inr (Or.inl ⟨htokens ▸ hnone, fun r hrefs => hunreferenced r ?_⟩)
        exact hextends₁.shrinks.references r not_mem_nil _ hrefs
      · exact Or.inr (Or.inr hcut)
    obtain ⟨rfl, htokens⟩ := hbreaks
    cases h
    refine ⟨hfresh₁, hextends₁, by rw [htokens]; omega, fun other hmem => Or.inr (Or.inr ?_)⟩
    rcases mem_cons.mp hmem with rfl | hmem
    · rw [htokens]
      omega
    · have := hlater other hmem
      rw [htokens]
      omega

end EncoderPlan

open EncoderCacheManager EncoderPlan

def NoLateStart (config : EncoderConfig) (m : EncoderCacheManager) (request : EncoderRequest) (c n : ℕ) : Prop :=
  config.useEagle = true → ∀ f ∈ request.mmFeatures, f.EmbedsAt (c + n) →
    (m.cached.lookup f.identifier).getD [] ≠ [] ∨ ∃ position ∈ List.range' c n, f.EmbedsAt position
  deriving Decidable

/-- A plan covers every input with an embedding in the range it leaves, also shifted by the draft. -/
theorem tryScheduleEncoderInputs_spec {config : EncoderConfig} {m : EncoderCacheManager}
    {request : EncoderRequest} {c n : ℕ} {budget : ℤ} {p : EncoderPlan} (hm : m.Managed)
    (hsorted : Disjoined request.mmFeatures) (hlate : NoLateStart config m request c n)
    (h : tryScheduleEncoderInputs config m request c n budget = .ok p) :
    p.Fresh ∧ Shrinks [] m p.manager ∧ ∀ f ∈ request.mmFeatures, ∀ shift ≤ config.shift, ∀ position,
      c + shift ≤ position → position < c + shift + p.numNewTokens → f.EmbedsAt position →
        p.Covers request.requestId f := by
  have hfresh (budget : ℤ) : Fresh { manager := m, numNewTokens := n, encoderComputeBudget := budget } :=
    ⟨hm, nodup_nil, nofun⟩
  unfold tryScheduleEncoderInputs at h
  by_cases hn : n = 0
  · rw [if_pos hn] at h
    cases h
    refine ⟨hfresh budget, Shrinks.refl _ _, fun f _ shift _ position hlow hhigh => ?_⟩
    dsimp only at hhigh
    omega
  rw [if_neg hn] at h
  have hwindow : ∀ input ∈ getMmFeaturesInWindow request.mmFeatures c (c + n + config.shift),
      c < input.1.offset + input.1.length ∧ input.1.offset < c + n + config.shift := fun input hmem =>
    ((mem_getMmFeaturesInWindow hsorted).mp hmem).2
  obtain ⟨hfresh', hextends, hle, hcovers⟩ := considerAll_spec (hfresh budget)
    (pairwise_getMmFeaturesInWindow hsorted _ _) hwindow (Nat.pos_of_ne_zero hn) h
  refine ⟨hfresh', hextends.shrinks, fun f hf shift hshift position hlow hhigh hembeds => ?_⟩
  have hoffset := hembeds.1
  have hend := hembeds.2.1
  dsimp only at hle hcovers
  have hbefore : f.offset < c + n + config.shift := by omega
  have hafter : c < f.offset + f.length := by omega
  obtain ⟨i, hi⟩ := mem_iff_getElem?.mp hf
  rcases hcovers (f, i) ((mem_getMmFeaturesInWindow hsorted).mpr ⟨hi, hafter, hbefore⟩) with
    hcovered | ⟨hnone, hunreferenced⟩ | hzero | hcut
  · exact hcovered
  · -- the embedding is the one just after the range
    exfalso
    by_cases hinside : position < c + n
    · exact hnone position (by omega) hinside hembeds
    have heagle : config.useEagle = true := by
      by_contra hoff
      rw [EncoderConfig.shift, if_neg hoff] at hshift
      omega
    have hone : config.shift = 1 := if_pos heagle
    obtain rfl : position = c + n := by omega
    rcases hlate heagle f hf hembeds with hreferenced | ⟨other, hother, hembeds'⟩
    · cases hlookup : m.cached.lookup f.identifier with
      | none =>
        rw [hlookup] at hreferenced
        exact hreferenced rfl
      | some refs =>
        rw [hlookup] at hreferenced
        obtain ⟨r, hr⟩ := exists_mem_of_ne_nil refs hreferenced
        exact hunreferenced r ⟨refs, hlookup, hr⟩
    · obtain ⟨hlow', hhigh'⟩ := mem_range'_1.mp hother
      exact hnone other hlow' hhigh' hembeds'
  · omega
  · dsimp only at hcut
    omega

end VllmPs
