import VllmPs.MultiModal.ShmObjectStorage

/-!
# Reclamation of shared objects

While a reader's touch counts exactly if the sender's touch for the same request did, an object is free
exactly when nothing is to be done on it. This is so as long as no reader runs ahead to a later request
before every reader has got the object, and no new item is repeated within its request.
-/

namespace VllmPs.MultiModal

open Lib ReaderOp ShmStorage ShmObject List Function SenderPhase

variable {K : Type} {n : ℕ}

/-! ## Counting operations -/

namespace ReaderOp

def id : ReaderOp → ℕ
  | touch id _ => id
  | get id _ => id

/-- How often an operation should count: a touch if the sender's touch found the object stored. -/
def weight : ReaderOp → ℕ
  | touch _ stored => stored.toNat
  | get _ _ => 1

end ReaderOp

variable (id : ℕ)

/-- The number of operations on an object that should count. -/
def counted (ops : List ReaderOp) : ℕ := (ops.map fun op => if op.id = id then op.weight else 0).sum

@[simp] theorem counted_nil : counted id [] = 0 := rfl

@[simp] theorem counted_cons (op : ReaderOp) (ops : List ReaderOp) :
    counted id (op :: ops) = (if op.id = id then op.weight else 0) + counted id ops := rfl

@[simp] theorem counted_append (ops others : List ReaderOp) :
    counted id (ops ++ others) = counted id ops + counted id others := by
  unfold counted
  rw [map_append, sum_append]

variable {ops : List ReaderOp}

theorem weight_le_counted {a : ReaderOp} (h : a ∈ ops) : a.weight ≤ counted a.id ops := by
  obtain ⟨before, after, rfl⟩ := append_of_mem h
  rw [counted_append, counted_cons, if_pos rfl]
  omega

theorem counted_eq_zero {id : ℕ} (h : ∀ op ∈ ops, op.id = id → op.weight = 0) : counted id ops = 0 := by
  refine sum_eq_zero fun w hw => ?_
  obtain ⟨op, hop, rfl⟩ := mem_map.mp hw
  split_ifs with hid
  · exact h op hop hid
  · rfl

def SentItem.weight (item : SentItem) : ℕ := if item.id = id then item.stored.toNat + 1 else 0

theorem counted_readerOps (items : List SentItem) :
    counted id (readerOps items) = (items.map (SentItem.weight id)).sum := by
  unfold readerOps
  rw [counted_append]
  induction items with
  | nil => rfl
  | cons item rest ih =>
    by_cases hid : item.id = id <;>
      simp [hid, SentItem.weight, ReaderOp.id, ReaderOp.weight] <;> omega

/-- How often the request at hand has announced an object. -/
def SenderPhase.announced : SenderPhase K → ℕ
  | .idle => 0
  | .touching _ touched => touched.countP (·.2 = some id)
  | .updating rest items => rest.countP (·.2 = some id) + (items.map (SentItem.weight id)).sum

/-! ## The order of the operations -/

/-- Where an operation may stand: the touch and the read of the request that stores the object before anything
counts, the read after the touch, a later touch after the first read, and a later read after a touch. -/
def ReaderOp.Fits (before after : List ReaderOp) : ReaderOp → Prop
  | touch id false => counted id before = 0 ∧ get id true ∈ after
  | get id true => counted id before = 0
  | touch id true => get id true ∈ before
  | get id false => 2 ≤ counted id before

variable {before after : List ReaderOp} {op : ReaderOp}

theorem ReaderOp.Fits.counted_pos (h : op.Fits before after) : 1 ≤ counted op.id (op :: after) := by
  match op, h with
  | touch id false, ⟨_, hget⟩ => exact weight_le_counted (mem_cons_of_mem _ hget)
  | touch id true, _ => exact weight_le_counted (a := .touch id true) mem_cons_self
  | .get id first, _ => exact weight_le_counted (a := .get id first) mem_cons_self

theorem ReaderOp.Fits.append {more : List ReaderOp} (h : op.Fits before after) :
    op.Fits before (after ++ more) := by
  match op, h with
  | touch _ false, ⟨hzero, hget⟩ => exact ⟨hzero, mem_append_left _ hget⟩
  | touch _ true, h | .get _ true, h | .get _ false, h => exact h

theorem append_eq_append_cons {A : Type} {a : A} {xs ys before after : List A} (h : xs ++ ys = before ++ a :: after) :
    (∃ middle, xs = before ++ a :: middle ∧ after = middle ++ ys) ∨
      ∃ middle, before = xs ++ middle ∧ ys = middle ++ a :: after := by
  rcases append_eq_append_iff.mp h with ⟨middle, hbefore, hys⟩ | ⟨middle, hxs, hafter⟩
  · exact Or.inr ⟨middle, hbefore, hys⟩
  cases middle with
  | nil => exact Or.inr ⟨[], by simpa using hxs.symm, hafter.symm⟩
  | cons b middle =>
    obtain ⟨rfl, rfl⟩ := List.cons.inj hafter
    exact Or.inl ⟨middle, hxs, rfl⟩

theorem fits_readerOps {sent : List ReaderOp} {items : List SentItem}
    (hitems : ∀ item ∈ items, item.stored = !item.first ∧
      (item.first = false → get item.id true ∈ sent) ∧ (item.first = true → ∀ op ∈ sent, op.id ≠ item.id))
    (hnew : (items.filter fun item => item.first).Pairwise fun a b => a.id ≠ b.id)
    (hsplit : readerOps items = before ++ op :: after) : op.Fits (sent ++ before) after := by
  -- nothing that counts was done for a new object
  have hzero {item : SentItem} (hitem : item ∈ items) (hfirst : item.first = true) {others : List SentItem}
      (hothers : ∀ other ∈ others, other ∈ items) :
      counted item.id (sent ++ others.map fun item => .touch item.id item.stored) = 0 := by
    have hsent := (hitems item hitem).2.2 hfirst
    refine counted_eq_zero fun op hop hid => ?_
    rcases mem_append.mp hop with hop | hop
    · exact absurd hid (hsent op hop)
    obtain ⟨other, hother, rfl⟩ := mem_map.mp hop
    obtain ⟨hstored, hlater, -⟩ := hitems other (hothers other hother)
    cases hotherFirst : other.first with
    | false => exact absurd hid (hsent (.get other.id true) (hlater hotherFirst))
    | true => simp [ReaderOp.weight, hstored, hotherFirst]
  rcases append_eq_append_cons hsplit with ⟨middle, htouches, rfl⟩ | ⟨middle, rfl, hgets⟩
  · obtain ⟨done, rest, rfl, rfl, hrest⟩ := map_eq_append_iff.mp htouches
    obtain ⟨item, others, rfl, rfl, rfl⟩ := map_eq_cons_iff.mp hrest
    have hitem : item ∈ done ++ item :: others := mem_append_right _ mem_cons_self
    obtain ⟨hstored, hlater, -⟩ := hitems item hitem
    rw [hstored]
    cases hfirst : item.first with
    | false => exact mem_append_left _ (hlater hfirst)
    | true =>
      refine ⟨hzero hitem hfirst fun other => mem_append_left _, mem_append_right _ ?_⟩
      exact mem_map.mpr ⟨item, hitem, by rw [hfirst]⟩
  obtain ⟨done, rest, rfl, rfl, hrest⟩ := map_eq_append_iff.mp hgets
  obtain ⟨item, others, rfl, rfl, rfl⟩ := map_eq_cons_iff.mp hrest
  have hitem : item ∈ done ++ item :: others := mem_append_right _ mem_cons_self
  obtain ⟨hstored, hlater, -⟩ := hitems item hitem
  rw [← append_assoc]
  cases hfirst : item.first with
  | false =>
    have hget : 1 ≤ counted item.id sent := weight_le_counted (hlater hfirst)
    have htouch : 1 ≤ counted item.id
        ((done ++ item :: others).map fun item => ReaderOp.touch item.id item.stored) := by
      refine weight_le_counted (a := .touch item.id true) (mem_map.mpr ⟨item, hitem, ?_⟩)
      rw [hstored, hfirst]
      rfl
    simp only [ReaderOp.Fits, counted_append]
    omega
  | true =>
    rw [filter_append, filter_cons_of_pos hfirst, pairwise_append] at hnew
    simp only [ReaderOp.Fits]
    rw [counted_append, hzero hitem hfirst fun _ h => h, Nat.zero_add]
    refine counted_eq_zero fun op hop hid => ?_
    obtain ⟨other, hother, rfl⟩ := mem_map.mp hop
    by_cases hotherFirst : other.first = true
    · exact absurd hid (hnew.2.2 other (mem_filter.mpr ⟨hother, hotherFirst⟩) item mem_cons_self)
    · obtain ⟨-, hlater', -⟩ := hitems other (mem_append_left _ hother)
      exact absurd hid
        ((hitems item hitem).2.2 hfirst (.get other.id true) (hlater' (Bool.eq_false_iff.mpr hotherFirst)))

/-! ## What the operations do to the storage -/

namespace ShmStorage

variable {nReaders : ℕ}

theorem freeLoop_objects (dataBufferSize nReaders nbytes freedBytes : ℕ) (start stop : ℤ)
    (objects : List (ShmObject K)) :
    ∃ freed, objects = freed ++ (freeLoop dataBufferSize nReaders nbytes freedBytes start stop objects).2.2 ∧
      ∀ o ∈ freed, o.isFree nReaders := by
  induction objects generalizing freedBytes start with
  | nil => exact ⟨[], rfl, nofun⟩
  | cons o rest ih =>
    unfold freeLoop
    by_cases hfree : freedBytes < nbytes ∧ o.isFree nReaders
    · rw [if_pos hfree]
      cases rest with
      | nil => exact ⟨[o], rfl, fun o' ho' => mem_singleton.mp ho' ▸ hfree.2⟩
      | cons next others =>
        obtain ⟨freed, hfreed, hall⟩ :=
          ih (freedBytes + o.size) (start + (next.address - start) % dataBufferSize)
        refine ⟨o :: freed, congrArg (List.cons o) hfreed, fun o' ho' => ?_⟩
        rcases mem_cons.mp ho' with rfl | ho'
        · exact hfree.2
        · exact hall o' ho'
    · rw [if_neg hfree]
      exact ⟨[], rfl, nofun⟩

/-- Identifiers and keys are distinct, and later identifiers are larger. -/
structure Wf (st : ShmStorage K) : Prop where
  keys : (st.objects.map key).Nodup
  ids : (st.objects.map monotonicId).Nodup
  fresh : ∀ o ∈ st.objects, o.monotonicId < st.monotonicIdEnd

structure Shrinks (nReaders : ℕ) (st st' : ShmStorage K) : Prop where
  objects : ∃ freed, st.objects = freed ++ st'.objects ∧ ∀ o ∈ freed, o.isFree nReaders
  monotonicIdEnd : st'.monotonicIdEnd = st.monotonicIdEnd

/-- A new object was added at the end. -/
structure Adds (key : K) (st st' : ShmStorage K) : Prop where
  objects : ∃ o : ShmObject K, st'.objects = st.objects ++ [o] ∧ o.monotonicId = st.monotonicIdEnd ∧
    o.key = key ∧ o.readerCount = 0 ∧ o.writerFlag = 1
  monotonicIdEnd : st'.monotonicIdEnd = st.monotonicIdEnd + 1

variable {st st' : ShmStorage K} {key : K} {id : ℕ}

theorem freeUnused_shrinks (nReaders : ℕ) (st : ShmStorage K) : Shrinks nReaders st (st.freeUnused nReaders) :=
  ⟨freeLoop_objects _ _ _ _ _ _ _, rfl⟩

theorem Shrinks.refl (nReaders : ℕ) (st : ShmStorage K) : Shrinks nReaders st st := ⟨⟨[], rfl, nofun⟩, rfl⟩

theorem Shrinks.wf (h : Shrinks nReaders st st') (hwf : st.Wf) : st'.Wf := by
  obtain ⟨freed, hobjects, -⟩ := h.objects
  have hsub : st'.objects.Sublist st.objects := hobjects ▸ sublist_append_right freed _
  refine ⟨hwf.keys.sublist (hsub.map _), hwf.ids.sublist (hsub.map _), fun o ho => ?_⟩
  rw [h.monotonicIdEnd]
  exact hwf.fresh o (hsub.subset ho)

variable {o : ShmObject K}

theorem Shrinks.mem (h : Shrinks nReaders st st') (ho : o ∈ st.objects) (hbusy : ¬o.isFree nReaders)
    : o ∈ st'.objects := by
  obtain ⟨freed, hobjects, hfree⟩ := h.objects
  rw [hobjects] at ho
  exact (mem_append.mp ho).resolve_left fun ho => hbusy (hfree o ho)

theorem Shrinks.subset (h : Shrinks nReaders st st') (ho : o ∈ st'.objects) : o ∈ st.objects := by
  obtain ⟨freed, hobjects, -⟩ := h.objects
  rw [hobjects]
  exact mem_append_right _ ho

theorem Adds.wf (h : Adds key st st') (hwf : st.Wf) (hnew : ∀ o ∈ st.objects, o.key ≠ key) : st'.Wf := by
  obtain ⟨new, hobjects, hid, hkey, -, -⟩ := h.objects
  refine ⟨?_, ?_, fun o ho => ?_⟩
  · rw [hobjects, map_append, map_singleton, ← concat_eq_append]
    refine hwf.keys.concat fun hmem => ?_
    obtain ⟨o, ho, heq⟩ := mem_map.mp hmem
    exact hnew o ho (heq.trans hkey)
  · rw [hobjects, map_append, map_singleton, ← concat_eq_append]
    refine hwf.ids.concat fun hmem => ?_
    obtain ⟨o, ho, heq⟩ := mem_map.mp hmem
    have hlt := hwf.fresh o ho
    omega
  rw [h.monotonicIdEnd]
  rw [hobjects] at ho
  rcases mem_append.mp ho with ho | ho
  · exact Nat.lt_succ_of_lt (hwf.fresh o ho)
  · rw [mem_singleton.mp ho, hid]
    exact Nat.lt_succ_self _

theorem allocateBuf_adds {bufferSize : ℕ} (hwf : st.Wf) (hid : st.monotonicIdEnd + 1 < idMax)
    (h : st.allocateBuf key bufferSize = .ok st') :
    Adds key st (st'.incrementWriterFlag st.monotonicIdEnd) := by
  have hnext : (st.monotonicIdEnd + 1) % idMax = st.monotonicIdEnd + 1 := Nat.mod_eq_of_lt hid
  have hothers (f : ShmObject K → ShmObject K) :
      st.objects.map (fun o => if o.monotonicId = st.monotonicIdEnd then f o else o) = st.objects := by
    refine (map_congr_left fun o ho => if_neg ?_).trans (map_id _)
    exact (hwf.fresh o ho).ne
  unfold allocateBuf at h
  dsimp only at h
  generalize (if st.dataBufferEnd % st.dataBufferSize + (bufferSize + mdSize : ℕ) > st.dataBufferSize then
    (st.dataBufferEnd / st.dataBufferSize + 1) * st.dataBufferSize else st.dataBufferEnd) = address at h
  split_ifs at h
  cases h
  refine ⟨⟨⟨st.monotonicIdEnd, key, address, bufferSize + mdSize, 0, 1⟩, ?_, rfl, rfl, rfl, rfl⟩, hnext⟩
  simp only [incrementWriterFlag, modify, map_append, map_singleton, if_true, hothers]

theorem put_cases (nReaders : ℕ) (hwf : st.Wf) (hid : st.monotonicIdEnd + 1 < idMax) (key : K) (bufferSize : ℕ) :
    ∃ middle, Shrinks nReaders st middle ∧ (st.put nReaders key bufferSize = (middle, none) ∨
        ∃ st', st.put nReaders key bufferSize = (st', some st.monotonicIdEnd) ∧ Adds key middle st') := by
  unfold put
  split_ifs with hlarge
  · exact ⟨st, Shrinks.refl nReaders st, Or.inl rfl⟩
  dsimp only
  have hshrinks := freeUnused_shrinks nReaders st
  cases hfirst : st.allocateBuf key bufferSize with
  | ok allocated =>
    exact ⟨st, Shrinks.refl nReaders st, Or.inr ⟨_, rfl, allocateBuf_adds hwf hid hfirst⟩⟩
  | error e =>
    refine ⟨st.freeUnused nReaders, hshrinks, ?_⟩
    dsimp only [Except.map]
    cases hsecond : (st.freeUnused nReaders).allocateBuf key bufferSize with
    | ok allocated =>
      exact Or.inr ⟨_, rfl, allocateBuf_adds (hshrinks.wf hwf) hid hsecond⟩
    | error e => exact Or.inl rfl

variable {f : ShmObject K → ShmObject K}

theorem mem_modify {o' : ShmObject K} :
    o' ∈ (st.modify id f).objects ↔ ∃ o ∈ st.objects, (if o.monotonicId = id then f o else o) = o' :=
  mem_map

variable {A : Type}

theorem map_modify (g : ShmObject K → A) (hg : ∀ o, g (f o) = g o) :
    (st.modify id f).objects.map g = st.objects.map g := by
  unfold modify
  rw [map_map]
  refine map_congr_left fun o _ => ?_
  simp only [comp_apply]
  split_ifs
  · exact hg o
  · rfl

theorem modify_id : st.modify id (fun o => o) = st := by
  unfold modify
  simp only [ite_self, map_id']

theorem Wf.modify (h : st.Wf) (hid : ∀ o, (f o).monotonicId = o.monotonicId) (hkey : ∀ o, (f o).key = o.key) :
    (st.modify id f).Wf := by
  refine ⟨(map_modify _ hkey).symm ▸ h.keys, (map_modify _ hid).symm ▸ h.ids, fun o' ho' => ?_⟩
  obtain ⟨o, ho, rfl⟩ := mem_modify.mp ho'
  split_ifs
  · rw [hid]
    exact h.fresh o ho
  · exact h.fresh o ho

theorem find?_of_nodup_map {B : Type} [DecidableEq B] {f : A → B} {xs : List A} {a : A} (h : (xs.map f).Nodup)
    (ha : a ∈ xs) : xs.find? (f · = f a) = some a := by
  obtain ⟨b, hfind⟩ := Option.isSome_iff_exists.mp
    (find?_isSome.mpr ⟨a, ha, decide_eq_true rfl⟩ : (xs.find? (f · = f a)).isSome = true)
  have hb : f b = f a := by simpa using find?_some hfind
  rw [hfind, inj_on_of_nodup_map h (mem_of_find?_eq_some hfind) ha hb]

theorem object_eq_some (h : st.Wf) (ho : o ∈ st.objects) (hid : o.monotonicId = id) : st.object id = some o :=
  hid ▸ find?_of_nodup_map h.ids ho

variable [DecidableEq K]

def storedId (st : ShmStorage K) (key : K) : Option ℕ := (st.cached key).map monotonicId

theorem storedId_eq_some (hwf : st.Wf) :
    st.storedId key = some id ↔ ∃ o ∈ st.objects, o.key = key ∧ o.monotonicId = id := by
  unfold storedId cached
  rw [Option.map_eq_some_iff]
  constructor
  · rintro ⟨o, hfind, hid⟩
    exact ⟨o, mem_of_find?_eq_some hfind, by simpa using find?_some hfind, hid⟩
  · rintro ⟨o, ho, rfl, hid⟩
    exact ⟨o, find?_of_nodup_map hwf.keys ho, hid⟩

theorem storedId_eq_none : st.storedId key = none ↔ ∀ o ∈ st.objects, o.key ≠ key := by
  unfold storedId cached
  rw [Option.map_eq_none_iff, find?_eq_none]
  simp only [decide_eq_true_eq]

theorem Shrinks.storedId (h : Shrinks nReaders st st') (hwf : st.Wf)
    (hbusy : ∀ o ∈ st.objects, o.key = key → ¬o.isFree nReaders) : st'.storedId key = st.storedId key := by
  cases hstored : st.storedId key with
  | none =>
    rw [storedId_eq_none] at hstored ⊢
    exact fun o ho => hstored o (h.subset ho)
  | some id =>
    obtain ⟨o, ho, hkey, hid⟩ := (storedId_eq_some hwf).mp hstored
    exact (storedId_eq_some (h.wf hwf)).mpr ⟨o, h.mem ho (hbusy o ho hkey), hkey, hid⟩

theorem Adds.storedId {other : K} (h : Adds key st st') (hne : other ≠ key) :
    st'.storedId other = st.storedId other := by
  obtain ⟨new, hobjects, -, hkey, -, -⟩ := h.objects
  unfold ShmStorage.storedId cached
  rw [hobjects, find?_append, find?_singleton, if_neg, Option.or_none]
  rw [decide_eq_true_eq, hkey]
  exact hne.symm

theorem storedId_modify (h : st.Wf) (hid : ∀ o, (f o).monotonicId = o.monotonicId)
    (hkey : ∀ o, (f o).key = o.key) (key : K) : (st.modify id f).storedId key = st.storedId key := by
  have hkept (o : ShmObject K) : (if o.monotonicId = id then f o else o).key = o.key ∧
      (if o.monotonicId = id then f o else o).monotonicId = o.monotonicId := by
    split_ifs
    · exact ⟨hkey o, hid o⟩
    · exact ⟨rfl, rfl⟩
  cases hstored : st.storedId key with
  | none =>
    rw [storedId_eq_none] at hstored ⊢
    intro o' ho'
    obtain ⟨o, ho, rfl⟩ := mem_modify.mp ho'
    rw [(hkept o).1]
    exact hstored o ho
  | some stored =>
    obtain ⟨o, ho, hkey', hid'⟩ := (storedId_eq_some h).mp hstored
    exact (storedId_eq_some (h.modify hid hkey)).mpr
      ⟨_, mem_modify.mpr ⟨o, ho, rfl⟩, (hkept o).1.trans hkey', (hkept o).2.trans hid'⟩

end ShmStorage

/-! ## Exact counts -/

namespace ShmState

variable [DecidableEq K]
variable {o : ShmObject K} {r : Fin n} {op : ReaderOp} {st' : ShmStorage K} {phase : SenderPhase K}
  {rest : List (ShmItem K × Option ℕ)} {items : List SentItem}
variable {t : ShmItem K × Option ℕ}

def PhaseSound (st : ShmStorage K) (sent : List ReaderOp) : SenderPhase K → Prop
  | .idle => ∀ o ∈ st.objects, get o.monotonicId true ∈ sent
  | .touching rest touched =>
    (∀ o ∈ st.objects, get o.monotonicId true ∈ sent) ∧
      (∀ t ∈ touched, st.storedId t.1.mmHash = t.2) ∧
      ((touched.map Prod.fst ++ rest).filter fun item => (st.storedId item.mmHash).isNone).Pairwise
        fun a b => a.mmHash ≠ b.mmHash
  | .updating rest items =>
    (∀ t ∈ rest, st.storedId t.1.mmHash = t.2 ∧ ∀ id ∈ t.2, get id true ∈ sent) ∧
      ((rest.filter fun t => t.2.isNone).Pairwise fun a b => a.1.mmHash ≠ b.1.mmHash) ∧
      (∀ item ∈ items, (∃ o ∈ st.objects, o.monotonicId = item.id) ∧ item.stored = !item.first ∧
        (item.first = false → get item.id true ∈ sent) ∧
        (item.first = true → ∀ op ∈ sent, op.id ≠ item.id)) ∧
      ((items.filter fun item => item.first).Pairwise fun a b => a.id ≠ b.id) ∧
      ∀ o ∈ st.objects, get o.monotonicId true ∈ sent ∨
        ∃ item ∈ items, item.id = o.monotonicId ∧ item.first = true

/-- Counters and flags are exact, and everything still to be done is about stored objects. -/
structure Exact (s : ShmState K n) : Prop where
  wf : s.storage.Wf
  sentFresh : ∀ op ∈ s.sent, op.id < s.storage.monotonicIdEnd
  position : ∀ r, s.position r ≤ s.sent.length
  ordered : ∀ before op after, s.sent = before ++ op :: after → op.Fits before after
  /-- If a reader is at a later request, every reader has got the object. -/
  ahead : ∀ id r, 2 ≤ counted id (s.sent.take (s.position r)) → ∀ r', get id true ∉ s.pending r'
  counts : ∀ o ∈ s.storage.objects,
    o.readerCount = ∑ r, counted o.monotonicId (s.sent.take (s.position r)) ∧
      o.writerFlag = counted o.monotonicId s.sent + s.phase.announced o.monotonicId
  live : ∀ r, ∀ op ∈ s.pending r, ∃ o ∈ s.storage.objects, o.monotonicId = op.id
  phase : PhaseSound s.storage s.sent s.phase

variable {s s' : ShmState K n}

theorem Exact.sound (h : s.Exact) (hphase : s.phase = phase) : PhaseSound s.storage s.sent phase := hphase ▸ h.phase

omit [DecidableEq K] in
theorem counted_take_add_pending (s : ShmState K n) (r : Fin n) (id : ℕ) :
    counted id (s.sent.take (s.position r)) + counted id (s.pending r) = counted id s.sent := by
  rw [← counted_append, pending, take_append_drop]

theorem Exact.fits (h : s.Exact) (before : List ReaderOp) {after : List ReaderOp}
    (hpending : s.pending r = before ++ op :: after) : op.Fits (s.sent.take (s.position r) ++ before) after :=
  h.ordered _ op after (by rw [append_assoc, ← hpending, pending, take_append_drop])

theorem Exact.nothing_pending (h : s.Exact) (hn : 0 < n) (ho : o ∈ s.storage.objects) (hfree : o.isFree n) :
    s.phase.announced o.monotonicId = 0 ∧ ∀ r, ∀ op ∈ s.pending r, op.id ≠ o.monotonicId := by
  have hsum : ∑ r, counted o.monotonicId (s.sent.take (s.position r)) + ∑ r, counted o.monotonicId (s.pending r) =
      counted o.monotonicId s.sent * n := by
    rw [← Finset.sum_add_distrib]
    simp [counted_take_add_pending, Nat.mul_comm]
  obtain ⟨hcount, hflag⟩ := h.counts o ho
  rw [isFree, hflag, hcount, Nat.add_mul] at hfree
  have hannounced : s.phase.announced o.monotonicId * n = 0 := by omega
  have hdone : ∑ r, counted o.monotonicId (s.pending r) = 0 := by omega
  refine ⟨(Nat.mul_eq_zero.mp hannounced).resolve_right hn.ne', fun r op hop hid => ?_⟩
  obtain ⟨before, after, hsplit⟩ := append_of_mem hop
  have hpos := (h.fits before hsplit).counted_pos
  have hzero := Finset.sum_eq_zero_iff.mp hdone r (Finset.mem_univ r)
  rw [hsplit, counted_append, ← hid] at hzero
  omega

/-! ### Steps of the sender -/

variable {st : ShmStorage K} {sent : List ReaderOp}

theorem PhaseSound.congr (h : PhaseSound st sent phase) (hstored : ∀ key, st'.storedId key = st.storedId key)
    (hids : st'.objects.map monotonicId = st.objects.map monotonicId) : PhaseSound st' sent phase := by
  have hmem (id : ℕ) : (∃ o ∈ st'.objects, o.monotonicId = id) ↔ ∃ o ∈ st.objects, o.monotonicId = id := by
    rw [← mem_map, ← mem_map, hids]
  have hall (P : ℕ → Prop) (hP : ∀ o ∈ st.objects, P o.monotonicId) : ∀ o ∈ st'.objects, P o.monotonicId := by
    intro o ho
    obtain ⟨o', ho', heq⟩ := (hmem o.monotonicId).mp ⟨o, ho, rfl⟩
    exact heq ▸ hP o' ho'
  cases phase with
  | idle => exact hall (get · true ∈ sent) h
  | touching rest touched =>
    obtain ⟨hfirst, htouched, hdistinct⟩ := h
    refine ⟨hall (get · true ∈ sent) hfirst, fun t ht => (hstored _).trans (htouched t ht), ?_⟩
    simpa only [hstored] using hdistinct
  | updating rest items =>
    obtain ⟨htouched, hdistinct, hitems, hnew, hfirst⟩ := h
    refine ⟨fun t ht => ⟨(hstored _).trans (htouched t ht).1, (htouched t ht).2⟩, hdistinct,
      fun item hitem => ?_, hnew, ?_⟩
    rotate_left
    · exact hall (fun id => get id true ∈ sent ∨ ∃ item ∈ items, item.id = id ∧ item.first = true) hfirst
    exact ⟨(hmem item.id).mpr (hitems item hitem).1, (hitems item hitem).2⟩

theorem Exact.withPhase (h : s.Exact) (hannounced : ∀ id, phase.announced id = s.phase.announced id)
    (hsound : PhaseSound s.storage s.sent phase) : Exact { s with phase } :=
  { h with
    counts := fun o ho => by rw [hannounced]; exact h.counts o ho
    phase := hsound }

variable {id : ℕ}

theorem Exact.modify (h : s.Exact) {f : ShmObject K → ShmObject K} {position : Fin n → ℕ}
    (hid : ∀ o, (f o).monotonicId = o.monotonicId) (hkey : ∀ o, (f o).key = o.key)
    (hposition : ∀ r, position r ≤ s.sent.length)
    (hahead : ∀ id r, 2 ≤ counted id (s.sent.take (position r)) → ∀ r', get id true ∉ s.pending r')
    (hpending : ∀ r, ∀ op ∈ s.sent.drop (position r), op ∈ s.pending r)
    (hcounts : ∀ o ∈ s.storage.objects, (if o.monotonicId = id then f o else o).readerCount =
        ∑ r, counted o.monotonicId (s.sent.take (position r)) ∧
      (if o.monotonicId = id then f o else o).writerFlag = counted o.monotonicId s.sent + phase.announced o.monotonicId)
    (hsound : PhaseSound s.storage s.sent phase) :
    Exact { s with storage := s.storage.modify id f, phase, position } := by
  have hids : (s.storage.modify id f).objects.map monotonicId = s.storage.objects.map monotonicId :=
    map_modify monotonicId hid
  refine ⟨h.wf.modify hid hkey, h.sentFresh, hposition, h.ordered,
    fun id r hcounted r' hget => hahead id r hcounted r' (hpending r' _ hget), fun o' ho' => ?_,
    fun r op hop => ?_, hsound.congr (storedId_modify h.wf hid hkey) hids⟩
  · obtain ⟨o, ho, rfl⟩ := mem_modify.mp ho'
    have hsame : (if o.monotonicId = id then f o else o).monotonicId = o.monotonicId := by
      split_ifs
      · exact hid o
      · rfl
    rw [hsame]
    exact hcounts o ho
  · have hlive := h.live r op (hpending r op hop)
    rwa [← mem_map, ← hids, mem_map] at hlive

theorem Exact.announce (h : s.Exact)
    (hannounced : ∀ id', phase.announced id' = s.phase.announced id' + if id' = id then 1 else 0)
    (hsound : PhaseSound s.storage s.sent phase) :
    Exact { s with storage := s.storage.incrementWriterFlag id, phase } := by
  refine h.modify (fun _ => rfl) (fun _ => rfl) h.position h.ahead (fun _ _ hop => hop) (fun o ho => ?_) hsound
  obtain ⟨hcount, hflag⟩ := h.counts o ho
  rw [hannounced]
  split_ifs
  · exact ⟨hcount, by rw [hflag, Nat.add_assoc]⟩
  · exact ⟨hcount, hflag⟩

theorem Exact.busy_of_announced (h : s.Exact) (hn : 0 < n) (ho : o ∈ s.storage.objects)
    (hannounced : 0 < s.phase.announced o.monotonicId) : ¬o.isFree n :=
  fun hfree => hannounced.ne' (h.nothing_pending hn ho hfree).1

theorem Exact.shrink (h : s.Exact) (hn : 0 < n) (hshrinks : s.storage.Shrinks n st')
    (hphase : s.phase = .updating rest items) : Exact { s with storage := st' } := by
  obtain ⟨htouched, hdistinct, hitems, hnew, hfirst⟩ := h.sound hphase
  refine ⟨hshrinks.wf h.wf, ?_, h.position, h.ordered, h.ahead, fun o ho => h.counts o (hshrinks.subset ho),
    fun r op hop => ?_, ?_⟩
  · rw [hshrinks.monotonicIdEnd]
    exact h.sentFresh
  · obtain ⟨o, ho, hid⟩ := h.live r op hop
    refine ⟨o, hshrinks.mem ho fun hfree => ?_, hid⟩
    exact (h.nothing_pending hn ho hfree).2 r op hop hid.symm
  rw [hphase]
  refine ⟨fun t ht => ⟨?_, (htouched t ht).2⟩, hdistinct, fun item hitem => ?_, hnew,
    fun o ho => hfirst o (hshrinks.subset ho)⟩
  · rw [← (htouched t ht).1]
    refine hshrinks.storedId h.wf fun o ho hkey => h.busy_of_announced hn ho ?_
    have hstored := (storedId_eq_some h.wf).mpr ⟨o, ho, hkey, rfl⟩
    rw [(htouched t ht).1] at hstored
    rw [hphase]
    refine Nat.lt_of_lt_of_le ?_ (Nat.le_add_right _ _)
    exact countP_pos_iff.mpr ⟨t, ht, decide_eq_true hstored⟩
  obtain ⟨⟨o, ho, hid⟩, hrest⟩ := hitems item hitem
  refine ⟨⟨o, hshrinks.mem ho (h.busy_of_announced hn ho ?_), hid⟩, hrest⟩
  rw [hphase]
  refine Nat.lt_of_lt_of_le ?_ (Nat.le_add_left _ _)
  refine Nat.lt_of_lt_of_le ?_ (le_sum_of_mem (mem_map_of_mem hitem))
  rw [SentItem.weight, if_pos hid.symm]
  exact Nat.succ_pos _

theorem PhaseSound.tail (h : PhaseSound st sent (.updating (t :: rest) items))
    : PhaseSound st sent (.updating rest items) := by
  obtain ⟨htouched, hdistinct, hothers⟩ := h
  refine ⟨fun t' ht' => htouched t' (mem_cons_of_mem t ht'), ?_, hothers⟩
  exact hdistinct.sublist ((sublist_cons_self t rest).filter _)

variable {item : ShmItem K}

theorem Exact.add (h : s.Exact) (hphase : s.phase = .updating ((item, none) :: rest) items)
    (hadds : s.storage.Adds item.mmHash st') :
    Exact { s with
      storage := st'
      phase := .updating rest (items ++ [⟨s.storage.monotonicIdEnd, false, true⟩]) } := by
  have hsound := h.sound hphase
  obtain ⟨htouched, hdistinct, hitems, hnew, hfirst⟩ := hsound.tail
  have hmissing : s.storage.storedId item.mmHash = none := (hsound.1 _ mem_cons_self).1
  have hkeys := storedId_eq_none.mp hmissing
  obtain ⟨new, hobjects, hid, hkey, hcount, hflag⟩ := hadds.objects
  set id := s.storage.monotonicIdEnd with hidEnd
  have hmem {o : ShmObject K} : o ∈ st'.objects ↔ o ∈ s.storage.objects ∨ o = new := by
    rw [hobjects, mem_append, mem_singleton]
  have hne : ∀ op ∈ s.sent, op.id ≠ id := fun op hop => (h.sentFresh op hop).ne
  have hzero {ops : List ReaderOp} (hops : ops.Sublist s.sent) : counted id ops = 0 :=
    counted_eq_zero fun op hop hid => absurd hid (hne op (hops.subset hop))
  have hannounced (id' : ℕ) :
      announced (K := K) id' (.updating rest (items ++ [⟨id, false, true⟩])) =
        s.phase.announced id' + if id' = id then 1 else 0 := by
    rw [hphase]
    simp only [announced, map_append, map_singleton, sum_append,
      sum_singleton, SentItem.weight, countP_cons, eq_comm (a := id'), Bool.toNat_false]
    simp [Nat.add_assoc]
  have hnone : s.phase.announced id = 0 := by
    rw [hphase]
    refine Nat.add_eq_zero_iff.mpr ⟨countP_eq_zero.mpr fun t ht => ?_, sum_eq_zero fun w hw => ?_⟩
    · intro hstored
      exact hne _ ((hsound.1 t ht).2 id (of_decide_eq_true hstored)) rfl
    · obtain ⟨i, hi, rfl⟩ := mem_map.mp hw
      obtain ⟨⟨o, ho, hoid⟩, -⟩ := hitems i hi
      exact if_neg (hoid ▸ (h.wf.fresh o ho).ne)
  refine ⟨hadds.wf h.wf hkeys, fun op hop => ?_, h.position, h.ordered, h.ahead, fun o ho => ?_,
    fun r op hop => ?_, ?_⟩
  · have hlt := h.sentFresh op hop
    have hend := hadds.monotonicIdEnd
    change op.id < st'.monotonicIdEnd
    omega
  · rw [hannounced]
    rcases hmem.mp ho with ho | rfl
    · rw [if_neg (h.wf.fresh o ho).ne, Nat.add_zero]
      exact h.counts o ho
    · rw [hcount, hflag, hid, if_pos rfl, hnone, hzero (List.Sublist.refl _), Finset.sum_eq_zero]
      · exact ⟨rfl, rfl⟩
      · exact fun r _ => hzero (take_sublist _ _)
  · obtain ⟨o, ho, hoid⟩ := h.live r op hop
    exact ⟨o, hmem.mpr (Or.inl ho), hoid⟩
  refine ⟨fun t ht => ⟨?_, (htouched t ht).2⟩, hdistinct, fun i hi => ?_, ?_, fun o ho => ?_⟩
  · -- the other items have other keys
    rw [← (htouched t ht).1]
    refine hadds.storedId fun hsame => ?_
    have hnone' : t.2 = none := by rw [← (htouched t ht).1, hsame, hmissing]
    have hpairs := (hsound.2.1 : List.Pairwise _ (List.filter _ ((item, none) :: rest)))
    rw [filter_cons_of_pos (by rfl)] at hpairs
    exact (pairwise_cons.mp hpairs).1 t (mem_filter.mpr ⟨ht, by rw [hnone']; rfl⟩) hsame.symm
  · rcases mem_append.mp hi with hi | hi
    · obtain ⟨⟨o, ho, hoid⟩, hothers⟩ := hitems i hi
      exact ⟨⟨o, hmem.mpr (Or.inl ho), hoid⟩, hothers⟩
    · rw [mem_singleton.mp hi]
      exact ⟨⟨new, hmem.mpr (Or.inr rfl), hid⟩, rfl, nofun, fun _ => hne⟩
  · rw [filter_append, pairwise_append]
    refine ⟨hnew, pairwise_singleton _ _, fun i hi j hj => ?_⟩
    rw [mem_singleton.mp (mem_of_mem_filter hj)]
    obtain ⟨⟨o, ho, hoid⟩, -⟩ := hitems i (mem_of_mem_filter hi)
    exact hoid ▸ (h.wf.fresh o ho).ne
  rcases hmem.mp ho with ho | rfl
  · rcases hfirst o ho with hsent | ⟨i, hi, hothers⟩
    · exact Or.inl hsent
    · exact Or.inr ⟨i, mem_append_left _ hi, hothers⟩
  · exact Or.inr ⟨_, mem_append_right _ mem_cons_self, hid.symm, rfl⟩

theorem Exact.send (h : s.Exact) (hphase : s.phase = .updating [] items) :
    Exact { s with phase := .idle, sent := s.sent ++ readerOps items } := by
  obtain ⟨-, -, hitems, hnew, hfirst⟩ := h.sound hphase
  have htake (r : Fin n) : (s.sent ++ readerOps items).take (s.position r) = s.sent.take (s.position r) :=
    take_append_of_le_length (h.position r)
  have hpending (r : Fin n) : pending { s with phase := .idle, sent := s.sent ++ readerOps items } r =
      s.pending r ++ readerOps items := drop_append_of_le_length (h.position r)
  have hops {op : ReaderOp} (hop : op ∈ readerOps items) : ∃ item ∈ items,
      op = .touch item.id item.stored ∨ op = .get item.id item.first := by
    rcases mem_append.mp hop with hop | hop <;> obtain ⟨item, hitem, rfl⟩ := mem_map.mp hop
    · exact ⟨item, hitem, Or.inl rfl⟩
    · exact ⟨item, hitem, Or.inr rfl⟩
  have hlive {op : ReaderOp} (hop : op ∈ readerOps items) : ∃ o ∈ s.storage.objects, o.monotonicId = op.id := by
    obtain ⟨item, hitem, rfl | rfl⟩ := hops hop <;> exact (hitems item hitem).1
  refine ⟨h.wf, fun op hop => ?_, fun r => ?_, fun before op after hsplit => ?_,
    fun id r hcounted r' hget => ?_, fun o ho => ?_, fun r op hop => ?_, fun o ho => ?_⟩
  · rcases mem_append.mp hop with hop | hop
    · exact h.sentFresh op hop
    · obtain ⟨o, ho, hid⟩ := hlive hop
      exact hid ▸ h.wf.fresh o ho
  · exact (h.position r).trans (by rw [length_append]; exact Nat.le_add_right _ _)
  · rcases append_eq_append_cons hsplit with ⟨middle, hsent, rfl⟩ | ⟨middle, rfl, hreaderOps⟩
    · exact (h.ordered _ _ _ hsent).append
    · exact fits_readerOps (fun item hitem => (hitems item hitem).2) hnew hreaderOps
  · rw [htake] at hcounted
    rw [hpending] at hget
    rcases mem_append.mp hget with hget | hget
    · exact h.ahead id r hcounted r' hget
    -- an object that is new was not read before
    obtain ⟨item, hitem, hop | hop⟩ := hops hget
    · cases hop
    obtain ⟨rfl, hitemFirst⟩ := get.inj hop
    have hne := (hitems item hitem).2.2.2 hitemFirst.symm
    have hzero : counted item.id (s.sent.take (s.position r)) = 0 :=
      counted_eq_zero fun op hop hid => absurd hid (hne op (mem_of_mem_take hop))
    omega
  · simp only [htake]
    obtain ⟨hcount, hflag⟩ := h.counts o ho
    refine ⟨hcount, ?_⟩
    rw [hflag, hphase, counted_append, counted_readerOps]
    simp [announced]
  · rw [hpending] at hop
    rcases mem_append.mp hop with hop | hop
    · exact h.live r op hop
    · exact hlive hop
  · rcases hfirst o ho with hsent | ⟨item, hitem, hid, hitemFirst⟩
    · exact mem_append_left _ hsent
    · refine mem_append_right _ (mem_append_right _ (mem_map.mpr ⟨item, hitem, ?_⟩))
      rw [hid, hitemFirst]

/-! ### Steps of a reader -/

omit [DecidableEq K] in
theorem take_position_succ {rest : List ReaderOp} (hpending : s.pending r = op :: rest) :
    s.sent.take (s.position r + 1) = s.sent.take (s.position r) ++ [op] ∧
      s.sent.drop (s.position r + 1) = rest ∧ s.position r + 1 ≤ s.sent.length := by
  have hlength : s.position r < s.sent.length := by
    by_contra hle
    simp [pending, drop_eq_nil_of_le (Nat.not_lt.mp hle)] at hpending
  rw [pending, drop_eq_getElem_cons hlength] at hpending
  obtain ⟨hop, hrest⟩ := List.cons.inj hpending
  exact ⟨by rw [← hop, take_append_getElem hlength], hrest, hlength⟩

theorem Exact.readerOp_eq (h : s.Exact) (hok : s.InStep (.reader r))
    {rest : List ReaderOp} (hpending : s.pending r = op :: rest) :
    readerOp (n := n) s.storage op =
      .ok (s.storage.modify op.id fun o => { o with readerCount := o.readerCount + op.weight }) := by
  obtain ⟨o, ho, hid⟩ := h.live r op (hpending ▸ mem_cons_self)
  have hobject := object_eq_some h.wf ho hid
  have hroom := hok.2 o ho
  have hfits := h.fits [] hpending
  rw [append_nil] at hfits
  cases op with
  | get id first =>
    simp only [readerOp, ReaderOp.id] at hobject ⊢
    rw [hobject]
    exact if_pos hroom
  | touch id stored =>
    obtain rfl : o.monotonicId = id := hid
    have hcounts : n ≤ o.readerCount ↔ stored = true := by
      rw [(h.counts o ho).1]
      have hone : ∑ _r : Fin n, 1 = n := by simp
      cases stored with
      | false =>
        -- every reader has at most got the object, and this one has not
        refine iff_of_false (Nat.not_le.mpr (lt_of_lt_of_eq ?_ hone)) Bool.false_ne_true
        have hget : get o.monotonicId true ∈ s.pending r := hpending ▸ mem_cons_of_mem _ hfits.2
        refine Finset.sum_lt_sum (fun r' _ => ?_) ⟨r, Finset.mem_univ r, ?_⟩
        · by_contra hmany
          exact h.ahead o.monotonicId r' (by omega) r hget
        · rw [hfits.1]
          exact Nat.zero_lt_one
      | true =>
        -- every reader has got the object
        refine iff_of_true (hone.symm.trans_le (Finset.sum_le_sum fun r' _ => ?_)) rfl
        have hsent : get o.monotonicId true ∈ s.sent := mem_of_mem_take hfits
        rw [← take_append_drop (s.position r') s.sent] at hsent
        have hdone := hok.1 o.monotonicId (by rw [hpending]; rfl) r'
        exact weight_le_counted ((mem_append.mp hsent).resolve_right hdone)
    simp only [readerOp, ReaderOp.id] at hobject ⊢
    rw [hobject]
    dsimp only
    cases stored with
    | false =>
      rw [if_neg (by simp [hcounts])]
      exact congrArg Except.ok modify_id.symm
    | true =>
      rw [if_pos (hcounts.mpr rfl)]
      exact if_pos hroom

omit [DecidableEq K] in
theorem sum_counted_advance {rest : List ReaderOp} (hpending : s.pending r = op :: rest) (id : ℕ) :
    ∑ r', counted id (s.sent.take (update s.position r (s.position r + 1) r')) =
      ∑ r', counted id (s.sent.take (s.position r')) + if op.id = id then op.weight else 0 := by
  have hupdate : (fun r' => counted id (s.sent.take (update s.position r (s.position r + 1) r'))) =
      update (fun r' => counted id (s.sent.take (s.position r'))) r
        (counted id (s.sent.take (s.position r)) + if op.id = id then op.weight else 0) := by
    funext r'
    rcases eq_or_ne r' r with rfl | hne
    · rw [update_self, update_self, (take_position_succ hpending).1, counted_append,
        counted_cons, counted_nil, Nat.add_zero]
    · rw [update_of_ne hne, update_of_ne hne]
  have hsplit := Finset.sum_eq_add_sum_sdiff_singleton_of_mem (Finset.mem_univ r)
    fun r' => counted id (s.sent.take (s.position r'))
  rw [hupdate, Finset.sum_update_of_mem (Finset.mem_univ r)]
  omega

theorem Exact.advance (h : s.Exact) (hok : s.InStep (.reader r))
    {rest : List ReaderOp} (hpending : s.pending r = op :: rest) :
    Exact { s with
      storage := s.storage.modify op.id fun o => { o with readerCount := o.readerCount + op.weight }
      position := update s.position r (s.position r + 1) } := by
  obtain ⟨htake, hdrop, hlength⟩ := take_position_succ hpending
  refine h.modify (fun _ => rfl) (fun _ => rfl) (fun r' => ?_) (fun id r' hcounted r'' hget => ?_)
    (fun r' op' hop' => ?_) (fun o ho => ?_) h.phase
  · rcases eq_or_ne r' r with rfl | hne
    · rwa [update_self]
    · rw [update_of_ne hne]
      exact h.position r'
  · rcases eq_or_ne r' r with rfl | hne
    · rw [update_self, htake, counted_append, counted_cons, counted_nil, Nat.add_zero] at hcounted
      split_ifs at hcounted with hop
      · have hfits := h.fits [] hpending
        rw [append_nil] at hfits
        subst hop
        match op, hfits with
        | touch _ false, _ => exact h.ahead _ r' hcounted r'' hget
        | .get _ true, (hzero : counted _ _ = 0) =>
          simp only [ReaderOp.id, weight] at hcounted hzero
          omega
        | touch _ true, _ => exact hok.1 _ (by rw [hpending]; rfl) r'' hget
        | .get _ false, htwo => exact h.ahead _ r' htwo r'' hget
      · exact h.ahead id r' hcounted r'' hget
    · rw [update_of_ne hne] at hcounted
      exact h.ahead id r' hcounted r'' hget
  · rcases eq_or_ne r' r with rfl | hne
    · rw [update_self, hdrop] at hop'
      exact hpending ▸ mem_cons_of_mem op hop'
    · rwa [update_of_ne hne] at hop'
  obtain ⟨hcount, hflag⟩ := h.counts o ho
  rw [sum_counted_advance hpending, ← hcount]
  by_cases hid : o.monotonicId = op.id
  · rw [if_pos hid, if_pos hid.symm]
    exact ⟨rfl, hflag⟩
  · rw [if_neg hid, if_neg (Ne.symm hid)]
    exact ⟨rfl, hflag⟩

theorem Exact.reader (h : s.Exact) (hok : s.InStep (.reader r)) (hstep : s.reader r = .ok s') : s'.Exact := by
  unfold ShmState.reader at hstep
  cases hpending : s.pending r with
  | nil =>
    rw [pending] at hpending
    rw [hpending] at hstep
    exact Except.ok.inj hstep ▸ h
  | cons op rest =>
    have hread := h.readerOp_eq hok hpending
    obtain ⟨htake, hdrop, hlength⟩ := take_position_succ hpending
    rw [pending] at hpending
    rw [hpending] at hstep
    obtain ⟨storage, hstorage, hresult⟩ := bind_eq_ok.mp hstep
    rw [hread] at hstorage
    cases hstorage
    cases hresult
    exact h.advance hok hpending

/-! ### Runs -/

theorem Exact.request (h : s.Exact) {items : List (ShmItem K)} (hok : s.InStep (.request items)) :
    (s.request items).Exact := by
  unfold ShmState.request
  cases hphase : s.phase with
  | idle =>
    have hsound := h.sound hphase
    refine h.withPhase (fun id => by rw [hphase]; rfl) ⟨hsound, nofun, ?_⟩
    have hdistinct : (items.filter fun item => (s.storage.cached item.mmHash).isNone).Pairwise
        fun a b => a.mmHash ≠ b.mmHash := hok.1
    simpa only [storedId, Option.isNone_map, map_nil, nil_append] using hdistinct
  | touching _ _ => exact h
  | updating _ _ => exact h

theorem Exact.touchItem (h : s.Exact) {rest : List (ShmItem K)} {touched : List (ShmItem K × Option ℕ)}
    (hphase : s.phase = .touching (item :: rest) touched) : s.sender.Exact := by
  obtain ⟨hfirst, htouched, hdistinct⟩ := h.sound hphase
  have hnext (found : Option ℕ) (hfound : s.storage.storedId item.mmHash = found) :
      PhaseSound s.storage s.sent (.touching rest (touched ++ [(item, found)])) := by
    refine ⟨hfirst, fun t ht => ?_, ?_⟩
    · rcases mem_append.mp ht with ht | ht
      · exact htouched t ht
      · rwa [mem_singleton.mp ht]
    · rwa [map_append, map_singleton, append_assoc, singleton_append]
  unfold ShmState.sender
  rw [hphase]
  dsimp only
  cases hcached : s.storage.cached item.mmHash with
  | none =>
    refine h.withPhase (fun id => ?_) (hnext none (by rw [storedId, hcached]; rfl))
    rw [hphase]
    simp [announced, countP_append]
  | some o =>
    refine h.announce (fun id => ?_) (hnext (some o.monotonicId) (by rw [storedId, hcached]; rfl))
    rw [hphase]
    simp [announced, countP_append, eq_comm]

theorem Exact.updateItem (h : s.Exact) (hn : 0 < n) (hok : s.InStep .sender)
    (hphase : s.phase = .updating (t :: rest) items) : s.sender.Exact := by
  obtain ⟨item, touched⟩ := t
  have hsound := h.sound hphase
  obtain ⟨hstored, hget⟩ := hsound.1 _ mem_cons_self
  dsimp only at hstored hget
  unfold ShmState.sender
  rw [hphase]
  dsimp only
  cases hcached : s.storage.cached item.mmHash with
  | some o =>
    -- the object that was touched is announced once more
    have htouched : touched = some o.monotonicId := by rw [← hstored, storedId, hcached]; rfl
    subst htouched
    have ho : o ∈ s.storage.objects := mem_of_find?_eq_some hcached
    refine h.announce (fun id => ?_) ?_
    · rw [hphase]
      simp only [announced, countP_cons, map_append, map_singleton,
        sum_append, sum_singleton, SentItem.weight, Option.isSome_some, Bool.toNat_true, Option.some.injEq,
        decide_eq_true_eq, eq_comm (a := id)]
      split_ifs <;> omega
    obtain ⟨htouched, hdistinct, hitems, hnew, hfirst⟩ := hsound.tail
    refine ⟨htouched, hdistinct, fun i hi => ?_, ?_, fun o' ho' => ?_⟩
    · rcases mem_append.mp hi with hi | hi
      · exact hitems i hi
      · rw [mem_singleton.mp hi]
        exact ⟨⟨o, ho, rfl⟩, rfl, fun _ => hget _ rfl, nofun⟩
    · rw [filter_append]
      exact (append_nil _).symm ▸ hnew
    · rcases hfirst o' ho' with hsent | ⟨i, hi, hothers⟩
      · exact Or.inl hsent
      · exact Or.inr ⟨i, mem_append_left _ hi, hothers⟩
  | none =>
    have htouched : touched = none := by rw [← hstored, storedId, hcached]; rfl
    subst htouched
    obtain ⟨middle, hshrinks, hput | ⟨st', hput, hadds⟩⟩ :=
      put_cases n h.wf hok item.mmHash item.nbytes
    · rw [hput]
      have hmiddle := h.shrink hn hshrinks hphase
      refine hmiddle.withPhase (fun id => ?_) (hphase ▸ hmiddle.phase : PhaseSound _ _ (.updating _ _)).tail
      rw [hphase]
      simp [announced]
    · rw [hput]
      have hadded := (h.shrink hn hshrinks hphase).add hphase hadds
      rwa [hshrinks.monotonicIdEnd] at hadded

theorem Exact.sender (h : s.Exact) (hn : 0 < n) (hok : s.InStep .sender) : s.sender.Exact := by
  cases hphase : s.phase with
  | idle =>
    unfold ShmState.sender
    rwa [hphase]
  | touching rest touched =>
    cases rest with
    | cons item rest => exact h.touchItem hphase
    | nil =>
      obtain ⟨hfirst, htouched, hdistinct⟩ := h.sound hphase
      unfold ShmState.sender
      rw [hphase]
      refine h.withPhase (fun id => ?_) ⟨fun t ht => ⟨htouched t ht, fun id hid => ?_⟩, ?_, nofun, ?_, ?_⟩
      · rw [hphase]
        exact Nat.add_zero _
      · obtain ⟨o, ho, -, rfl⟩ := (storedId_eq_some h.wf).mp ((htouched t ht).trans hid)
        exact hfirst o ho
      · rw [append_nil, filter_map, pairwise_map] at hdistinct
        rwa [filter_congr fun t ht => by rw [comp_apply, htouched t ht]] at hdistinct
      · exact List.Pairwise.nil
      · exact fun o ho => Or.inl (hfirst o ho)
  | updating rest items =>
    cases rest with
    | cons t rest => exact h.updateItem hn hok hphase
    | nil =>
      have hsent := h.send hphase
      unfold ShmState.sender
      rwa [hphase]

/-- Reclamation is exact in every run in which no reader runs ahead, no new item is repeated in its request and
identifiers and counters stay below `ID_MAX`: whatever a reader has still to get is stored, and once every
reader has done everything sent, every stored object is free. -/
theorem reclamation_exact (dataBufferSize maxObjectSize : ℕ) (s : ShmState K n)
    (hs : Reachable (· = start dataBufferSize maxObjectSize) InStep ShmState.step s) :
    (∀ r id first, ReaderOp.get id first ∈ s.pending r → (s.storage.object id).isSome = true) ∧
      (s.phase = .idle → (∀ r, s.pending r = []) → ∀ o ∈ s.storage.objects, o.isFree n) := by
  rcases Nat.eq_zero_or_pos n with rfl | hn
  · exact ⟨fun r => r.elim0, fun _ _ o _ => Nat.zero_le _⟩
  have hexact : s.Exact := by
    refine hs.invariant ?_ ?_
    · rintro _ rfl
      exact ⟨⟨nodup_nil, nodup_nil, nofun⟩, nofun, fun _ => le_rfl, fun _ _ _ h => absurd h (by simp [start]),
        fun _ _ h => absurd h (by simp [start]), nofun, fun _ _ h => absurd h (by simp [pending, start]), nofun⟩
    intro s a s' h hok hstep
    cases a with
    | request items => exact Except.ok.inj hstep ▸ h.request hok
    | sender => exact Except.ok.inj hstep ▸ h.sender hn hok
    | reader r => exact h.reader hok hstep
  refine ⟨fun r id first hget => ?_, fun hidle hdone o ho => ?_⟩
  · obtain ⟨o, ho, hid⟩ := hexact.live r _ hget
    exact Option.isSome_of_eq_some (object_eq_some hexact.wf ho hid)
  have hall (r : Fin n) :
      counted o.monotonicId (s.sent.take (s.position r)) = counted o.monotonicId s.sent := by
    have hsplit := counted_take_add_pending s r o.monotonicId
    rwa [hdone r, counted_nil, Nat.add_zero] at hsplit
  obtain ⟨hcount, hflag⟩ := hexact.counts o ho
  rw [isFree, hcount, hflag, hidle, Finset.sum_congr rfl fun r _ => hall r,
    Finset.sum_const, Finset.card_univ, Fintype.card_fin, smul_eq_mul, SenderPhase.announced, Nat.add_zero,
    Nat.mul_comm]

/-- The item of the runs below. -/
def sampleItem : ShmItem ℕ := ⟨7, 10⟩

/-- A reader that touches the object for the second request before the other reader has got it does not count:
the object is never free. A reader that comes to a repeated new item late counts its touches: the object is
freed while it has still to get it. -/
theorem reclamation_inexact : (∃ s : ShmState ℕ 2, Lib.run ShmState.step (start 100 50)
        [.request [sampleItem], .sender, .sender, .sender, .sender,
          .request [sampleItem], .sender, .sender, .sender, .sender,
          .reader 0, .reader 0, .reader 0, .reader 1, .reader 1, .reader 1, .reader 1, .reader 0] = .ok s ∧
      s.phase = .idle ∧ (∀ r, s.pending r = []) ∧ ∃ o ∈ s.storage.objects, ¬o.isFree 2) ∧
    ∃ s : ShmState ℕ 2, Lib.run ShmState.step (start 60 50)
        [.request [sampleItem, sampleItem], .sender, .sender, .sender, .sender, .sender, .sender,
          .reader 0, .reader 0, .reader 0, .reader 0, .reader 1, .reader 1, .reader 1,
          .request [⟨8, 40⟩], .sender, .sender, .sender] = .ok s ∧
      ReaderOp.get 0 false ∈ s.pending 1 ∧ s.storage.object 0 = none := by
  constructor <;> exact exists_ok_of_decide (by decide +kernel)

/-- Two requests for one item, the second after every reader has got it for the first. -/
theorem reclamation_exact_inStep : ∃ s : ShmState ℕ 2, Lib.checkedRun InStep ShmState.step (start 100 50)
        [.request [sampleItem], .sender, .sender, .sender, .sender,
          .request [sampleItem], .sender, .reader 0, .reader 0, .sender, .sender, .sender,
          .reader 1, .reader 1, .reader 0, .reader 0, .reader 1, .reader 1] = some s ∧
      (∃ o ∈ s.storage.objects, o.writerFlag = 3) ∧ ∀ o ∈ s.storage.objects, o.isFree 2 := by
  refine exists_checkedRun (P := fun s => s.phase = .idle ∧ (∀ r, s.pending r = []) ∧
    ∃ o ∈ s.storage.objects, o.writerFlag = 3) (by decide +kernel) fun s hreach ⟨hidle, hdone, hannounced⟩ => ?_
  exact ⟨hannounced, (reclamation_exact 100 50 s hreach).2 hidle hdone⟩

end ShmState

end VllmPs.MultiModal
