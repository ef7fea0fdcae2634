import Mathlib.Tactic

/-!
# Reference-counted pools with a free list

A pool counts the references to each item and keeps the items without references on a free list. It is
balanced against an occurrence count when its counters are those occurrences and its free list holds exactly
the items that do not occur, each once. Items that are not managed never enter the free list.
-/

namespace VllmPs.Lib

open List

variable {ι : Type*}

structure RefPool (ι : Type*) where
  refCnt : ι → ℤ
  free : List ι
  numFree : ℤ

namespace RefPool

variable (counted : Prop) (managed : ι → Bool) (p : RefPool ι) (occ occ' : ι → ℕ)

/-- The counters and the free list agree with the occurrences, and so does the count of the free list
if it is kept. -/
structure Balanced : Prop where
  count : ∀ i, managed i = true → p.refCnt i = occ i
  nodup : p.free.Nodup
  mem_free : ∀ i, i ∈ p.free ↔ managed i = true ∧ occ i = 0
  numFree : counted → p.numFree = p.free.length

variable {counted managed p occ occ'}

theorem Balanced.congr (h : Balanced counted managed p occ)
    (hocc : ∀ i, managed i = true → occ' i = occ i) : Balanced counted managed p occ' where
  count i hi := by rw [hocc i hi, h.count i hi]
  nodup := h.nodup
  mem_free i := by
    rw [h.mem_free]
    constructor
    · rintro ⟨hi, hzero⟩
      exact ⟨hi, by rw [hocc i hi, hzero]⟩
    · rintro ⟨hi, hzero⟩
      exact ⟨hi, by rw [← hocc i hi, hzero]⟩
  numFree := h.numFree

theorem Balanced.mem_free_of_refCnt (h : Balanced counted managed p occ) {i : ι} (hi : managed i = true)
    (hzero : p.refCnt i = 0) : i ∈ p.free := by
  rw [h.count i hi] at hzero
  exact (h.mem_free i).mpr ⟨hi, by exact_mod_cast hzero⟩

theorem Balanced.free_perm (h : Balanced counted managed p occ) (items : List ι) (hitems : items.Nodup)
    (hmanaged : ∀ i, i ∈ items ↔ managed i = true) (hzero : ∀ i ∈ items, occ i = 0) :
    p.free.Perm items := by
  refine (perm_ext_iff_of_nodup h.nodup hitems).mpr fun i => ?_
  rw [h.mem_free, hmanaged]
  exact ⟨fun hi => hi.1, fun hi => ⟨hi, hzero i ((hmanaged i).mpr hi)⟩⟩

variable [DecidableEq ι]

/-- Add `d` to the counter of one item. -/
def bump (p : RefPool ι) (d : ℤ) (i : ι) : RefPool ι :=
  { p with refCnt := Function.update p.refCnt i (p.refCnt i + d) }

theorem bump_refCnt (p : RefPool ι) (d : ℤ) (i j : ι) :
    (p.bump d i).refCnt j = p.refCnt j + if j = i then d else 0 := by
  unfold bump
  rcases eq_or_ne j i with rfl | hne
  · simp
  · simp [hne]

variable (managed)

/-- Reference one item, taking it out of the free list if it had no reference. -/
def pin (p : RefPool ι) (i : ι) : RefPool ι :=
  if p.refCnt i = 0 ∧ managed i = true then
    bump { p with free := p.free.erase i, numFree := p.numFree - 1 } 1 i
  else bump p 1 i

/-- Reference items one after the other. -/
def pinAll (p : RefPool ι) (items : List ι) : RefPool ι :=
  items.foldl (pin managed) p

/-- Drop one reference of each item, then put those left without any at an end of the free list. -/
def release (p : RefPool ι) (items : List ι) (prepend : Bool) : RefPool ι :=
  let p' := items.foldl (bump · (-1)) p
  let freed := items.filter fun i => decide (p'.refCnt i = 0) && managed i
  { p' with
    free := if prepend then freed ++ p'.free else p'.free ++ freed
    numFree := p'.numFree + freed.length }

/-- Take the first `n` items of the free list and reference each of them; the count of the free list
moves by `d`. -/
def acquire (p : RefPool ι) (n : ℕ) (d : ℤ) : RefPool ι :=
  (p.free.take n).foldl (bump · 1)
    { p with free := p.free.drop n, numFree := p.numFree - d }

variable {managed}

theorem foldl_bump_free (d : ℤ) (items : List ι) (p : RefPool ι) :
    (items.foldl (bump · d) p).free = p.free ∧ (items.foldl (bump · d) p).numFree = p.numFree := by
  induction items generalizing p with
  | nil => exact ⟨rfl, rfl⟩
  | cons i rest ih => exact ih (p.bump d i)

theorem foldl_bump_refCnt (d : ℤ) (items : List ι) (p : RefPool ι) (j : ι) :
    (items.foldl (bump · d) p).refCnt j = p.refCnt j + d * items.count j := by
  induction items generalizing p with
  | nil => simp
  | cons i rest ih =>
    rw [foldl_cons, ih, count_cons, bump_refCnt]
    rcases eq_or_ne j i with rfl | hne
    · rw [beq_self_eq_true, if_pos rfl, if_pos rfl]
      push_cast
      ring
    · have hbeq : (i == j) = false := by simpa using Ne.symm hne
      rw [hbeq, if_neg hne]
      simp

section

variable (h : Balanced counted managed p occ)
include h

/-- Referencing an item adds one occurrence of it. -/
theorem Balanced.pin (i : ι) (hocc : ∀ j, managed j = true → occ' j = occ j + if j = i then 1 else 0) :
    Balanced counted managed (p.pin managed i) occ' := by
  have hcount (q : RefPool ι) (hq : q.refCnt = p.refCnt) (j : ι) (hj : managed j = true) :
      (q.bump 1 i).refCnt j = occ' j := by
    rw [hocc j hj, bump_refCnt, hq, h.count j hj]
    push_cast
    rfl
  unfold RefPool.pin
  split_ifs with hfree
  · obtain ⟨hzero, hi⟩ := hfree
    have hmem := h.mem_free_of_refCnt hi hzero
    refine ⟨hcount _ rfl, h.nodup.erase i, fun j => ?_, ?_⟩
    · change j ∈ p.free.erase i ↔ _
      rw [h.nodup.mem_erase_iff, h.mem_free]
      constructor
      · rintro ⟨hne, hj, hzero⟩
        exact ⟨hj, by rw [hocc j hj, if_neg hne, hzero]⟩
      rintro ⟨hj, hzero⟩
      rw [hocc j hj] at hzero
      have hne : j ≠ i := by
        rintro rfl
        rw [if_pos rfl] at hzero
        omega
      exact ⟨hne, hj, by omega⟩
    intro hcounted
    change p.numFree - 1 = ((p.free.erase i).length : ℤ)
    have hpos := length_pos_of_mem hmem
    rw [length_erase_of_mem hmem, h.numFree hcounted]
    omega
  refine ⟨hcount p rfl, h.nodup, fun j => ?_, h.numFree⟩
  change j ∈ p.free ↔ _
  rw [h.mem_free]
  constructor
  · rintro ⟨hj, hzero⟩
    have hne : j ≠ i := by
      rintro rfl
      exact hfree ⟨by rw [h.count j hj, hzero]; rfl, hj⟩
    exact ⟨hj, by rw [hocc j hj, if_neg hne, hzero]⟩
  · rintro ⟨hj, hzero⟩
    rw [hocc j hj] at hzero
    exact ⟨hj, by omega⟩

theorem Balanced.pinAll (items : List ι) (hocc : ∀ j, managed j = true → occ' j = occ j + items.count j) :
    Balanced counted managed (p.pinAll managed items) occ' := by
  induction items generalizing p occ with
  | nil => exact h.congr fun j hj => by rw [hocc j hj, count_nil, Nat.add_zero]
  | cons i rest ih =>
    refine ih (h.pin i fun j _ => rfl) fun j hj => ?_
    rw [hocc j hj, count_cons]
    rcases eq_or_ne j i with rfl | hne
    · simp only [beq_self_eq_true, if_true]
      omega
    · have hbeq : (i == j) = false := by simpa using Ne.symm hne
      rw [hbeq, if_neg hne]
      simp

/-- Dropping the references held by a list of items, no managed one twice, removes their
occurrences. -/
theorem Balanced.release (items : List ι) (prepend : Bool) (hnodup : (items.filter managed).Nodup)
    (hocc : ∀ j, managed j = true → occ j = occ' j + items.count j) :
    Balanced counted managed (p.release managed items prepend) occ' := by
  set p' := items.foldl (bump · (-1)) p with hp'
  set freed := items.filter (fun i => decide (p'.refCnt i = 0) && managed i) with hfreed
  obtain ⟨hfree', hnum'⟩ := foldl_bump_free (-1) items p
  have hcount (j : ι) (hj : managed j = true) : p'.refCnt j = occ' j := by
    rw [hp', foldl_bump_refCnt, h.count j hj, hocc j hj]
    push_cast
    ring
  have hmem (j : ι) : j ∈ freed ↔ j ∈ items ∧ managed j = true ∧ occ' j = 0 := by
    rw [hfreed, mem_filter, Bool.and_eq_true, decide_eq_true_eq]
    constructor
    · rintro ⟨hitem, hzero, hj⟩
      rw [hcount j hj] at hzero
      exact ⟨hitem, hj, by exact_mod_cast hzero⟩
    · rintro ⟨hitem, hj, hzero⟩
      exact ⟨hitem, by rw [hcount j hj, hzero]; rfl, hj⟩
  have hfreedNodup : freed.Nodup := by
    have hsub : freed.Sublist (items.filter managed) := by
      rw [hfreed, ← filter_filter]
      exact filter_sublist
    exact hnodup.sublist hsub
  have hdisjoint : ∀ j ∈ p.free, j ∉ freed := by
    intro j hj hjf
    obtain ⟨hmanaged, hzero⟩ := (h.mem_free j).mp hj
    have hpos := count_pos_iff.mpr ((hmem j).mp hjf).1
    have := hocc j hmanaged
    omega
  have hall (j : ι) : (j ∈ p.free ∨ j ∈ freed) ↔ managed j = true ∧ occ' j = 0 := by
    rw [h.mem_free, hmem]
    constructor
    · rintro (⟨hj, hzero⟩ | ⟨-, hj, hzero⟩)
      · have := hocc j hj
        exact ⟨hj, by omega⟩
      · exact ⟨hj, hzero⟩
    rintro ⟨hj, hzero⟩
    by_cases hitem : j ∈ items
    · exact Or.inr ⟨hitem, hj, hzero⟩
    · have := hocc j hj
      rw [count_eq_zero_of_not_mem hitem] at this
      exact Or.inl ⟨hj, by omega⟩
  refine ⟨hcount, ?_, fun j => ?_, ?_⟩
  · change (if prepend = true then freed ++ p'.free else p'.free ++ freed).Nodup
    rw [hfree']
    split_ifs
    · exact nodup_append.mpr ⟨hfreedNodup, h.nodup, fun a ha b hb hab =>
        hdisjoint b hb (hab ▸ ha)⟩
    · exact nodup_append.mpr ⟨h.nodup, hfreedNodup, fun a ha b hb hab =>
        hdisjoint a ha (hab ▸ hb)⟩
  · change j ∈ (if prepend = true then freed ++ p'.free else p'.free ++ freed) ↔ _
    rw [hfree', ← hall]
    split_ifs
    · rw [mem_append, or_comm]
    · rw [mem_append]
  intro hcounted
  change p'.numFree + freed.length =
    (((if prepend = true then freed ++ p'.free else p'.free ++ freed) : List ι).length : ℤ)
  rw [hfree', hnum', h.numFree hcounted]
  split_ifs <;> rw [length_append] <;> push_cast <;> ring

/-- Taking items off the front of the free list gives each of them one occurrence. -/
theorem Balanced.acquire (n : ℕ) (d : ℤ) (hd : counted → d = n ∧ n ≤ p.free.length)
    (hocc : ∀ j, managed j = true → occ' j = occ j + (p.free.take n).count j) :
    Balanced counted managed (p.acquire n d) occ' := by
  obtain ⟨hfree', hnum'⟩ := foldl_bump_free 1 (p.free.take n)
    { p with free := p.free.drop n, numFree := p.numFree - d }
  have hsplit := h.nodup
  rw [← take_append_drop n p.free] at hsplit
  obtain ⟨-, hdrop, hdisjoint⟩ := nodup_append.mp hsplit
  refine ⟨fun j hj => ?_, ?_, fun j => ?_, ?_⟩
  · rw [RefPool.acquire, foldl_bump_refCnt, hocc j hj]
    push_cast
    rw [one_mul, h.count j hj]
  · rwa [RefPool.acquire, hfree']
  · rw [RefPool.acquire, hfree']
    constructor
    · intro hj
      obtain ⟨hmanaged, hzero⟩ := (h.mem_free j).mp (mem_of_mem_drop hj)
      have hnot : j ∉ p.free.take n := fun hj' => hdisjoint j hj' j hj rfl
      exact ⟨hmanaged, by rw [hocc j hmanaged, hzero, count_eq_zero_of_not_mem hnot]⟩
    rintro ⟨hj, hzero⟩
    rw [hocc j hj] at hzero
    have hfree := (h.mem_free j).mpr ⟨hj, by omega⟩
    rw [← take_append_drop n p.free, mem_append] at hfree
    rcases hfree with htake | hdrop'
    · have := count_pos_iff.mpr htake
      omega
    · exact hdrop'
  intro hcounted
  obtain ⟨rfl, hn⟩ := hd hcounted
  rw [RefPool.acquire, hfree', hnum', length_drop]
  change p.numFree - n = _
  rw [h.numFree hcounted]
  omega

end

end RefPool

end VllmPs.Lib
