import Mathlib.Tactic

/-!
# Insertion-ordered dictionaries

An ordered dictionary lists its entries from the oldest to the newest, one per key. Writing a key
that is present keeps its place; the other operations are those of an ordered dictionary used as a
recency list: moving an entry to the end and dropping the first one.
-/

namespace VllmPs.Lib

open List

variable {κ α : Type*}

structure OrderedDict (κ α : Type*) where
  entries : List (κ × α)
  nodup : (entries.map Prod.fst).Nodup

namespace OrderedDict

/-- The dictionary without entries. -/
def empty : OrderedDict κ α := ⟨[], nodup_nil⟩

instance : EmptyCollection (OrderedDict κ α) := ⟨empty⟩

/-- The number of entries. -/
def size (d : OrderedDict κ α) : ℕ := d.entries.length

/-- `popitem(last=False)` -/
def popFirst (d : OrderedDict κ α) : OrderedDict κ α :=
  ⟨d.entries.tail, d.nodup.sublist ((tail_sublist _).map _)⟩

variable [DecidableEq κ]
variable (d : OrderedDict κ α)
variable (k : κ)

/-- The value under a key. -/
def get : Option α := (d.entries.find? (·.1 = k)).map Prod.snd

/-- Whether a key has an entry. -/
@[grind =] def contains : Bool := (d.get k).isSome

/-- Delete an entry. -/
def erase : OrderedDict κ α :=
  ⟨d.entries.filter (·.1 ≠ k), d.nodup.sublist (filter_sublist.map _)⟩

/-- Change the value of an entry where it stands. -/
def modify (f : α → α) : OrderedDict κ α :=
  ⟨d.entries.map fun e => if e.1 = k then (e.1, f e.2) else e, by
    have hkeys : (d.entries.map fun e => if e.1 = k then (e.1, f e.2) else e).map Prod.fst =
        d.entries.map Prod.fst := by
      rw [map_map]
      refine map_congr_left fun e _ => ?_
      by_cases h : e.1 = k <;> simp [h]
    rw [hkeys]
    exact d.nodup⟩

theorem get_eq_some_iff {d : OrderedDict κ α} {k : κ} {v : α} : d.get k = some v ↔ (k, v) ∈ d.entries := by
  unfold get
  constructor
  · intro h
    obtain ⟨e, he, rfl⟩ := Option.map_eq_some_iff.mp h
    have hkey : e.1 = k := by simpa using find?_some he
    exact hkey ▸ mem_of_find?_eq_some he
  intro h
  cases hfind : d.entries.find? (·.1 = k) with
  | none => simpa using find?_eq_none.mp hfind (k, v) h
  | some e =>
    have hkey : e.1 = k := by simpa using find?_some hfind
    have heq : e = (k, v) :=
      inj_on_of_nodup_map d.nodup (mem_of_find?_eq_some hfind) h hkey
    rw [heq, Option.map_some]

theorem get_eq_none_iff {d : OrderedDict κ α} {k : κ} : d.get k = none ↔ k ∉ d.entries.map Prod.fst := by
  rw [Option.eq_none_iff_forall_not_mem]
  constructor
  · intro h hk
    obtain ⟨e, he, rfl⟩ := mem_map.mp hk
    exact h e.2 (get_eq_some_iff.mpr he)
  · intro h v hv
    exact h (mem_map.mpr ⟨(k, v), get_eq_some_iff.mp hv, rfl⟩)

/-- Write an entry: in place if the key is present, at the end otherwise. -/
def set (v : α) : OrderedDict κ α :=
  match h : d.get k with
  | some _ => d.modify k fun _ => v
  | none => ⟨d.entries ++ [(k, v)], by
      rw [map_append, nodup_append]
      refine ⟨d.nodup, nodup_singleton _, ?_⟩
      rintro a ha _ hb rfl
      have hkey : a = k := by simpa using hb
      exact get_eq_none_iff.mp h (hkey ▸ ha)⟩

/-- `move_to_end` -/
def moveToEnd : OrderedDict κ α :=
  match d.get k with
  | some v => (d.erase k).set k v
  | none => d

@[grind =] theorem get_erase (k k' : κ) : (d.erase k).get k' = if k' = k then none else d.get k' := by
  ext v
  rw [get_eq_some_iff, erase, mem_filter]
  split_ifs with h
  · simp [h]
  · rw [get_eq_some_iff]
    simp [h]

@[grind =] theorem get_modify (k k' : κ) (f : α → α) :
    (d.modify k f).get k' = if k' = k then (d.get k').map f else d.get k' := by
  unfold get modify
  rw [find?_map]
  have hcomp : (fun e : κ × α => decide (e.1 = k')) ∘ (fun e => if e.1 = k then (e.1, f e.2) else e) =
      fun e => decide (e.1 = k') := by
    funext e
    by_cases h : e.1 = k <;> simp [h]
  rw [hcomp]
  cases hfind : d.entries.find? (·.1 = k') with
  | none => simp
  | some e =>
    have hkey : e.1 = k' := by simpa using find?_some hfind
    subst hkey
    by_cases h : e.1 = k <;> simp [h]

@[grind =] theorem get_set (k k' : κ) (v : α) : (d.set k v).get k' = if k' = k then some v else d.get k' := by
  unfold set
  split
  next w hw =>
    rw [get_modify]
    split_ifs with h
    · rw [h, hw, Option.map_some]
    · rfl
  next hnone =>
    ext w
    rw [get_eq_some_iff, mem_append, ← get_eq_some_iff (d := d), mem_singleton, Prod.mk.injEq]
    split_ifs with h
    · rw [h, hnone, Option.some.injEq]
      simp [eq_comm]
    · simp [h]

@[simp] theorem get_moveToEnd (k k' : κ) : (d.moveToEnd k).get k' = d.get k' := by
  unfold moveToEnd
  split
  next v hv =>
    rw [get_set, get_erase]
    split_ifs with h
    · rw [h, hv]
    · rfl
  next => rfl

/-- Deleting a key adds no entry. -/
theorem size_erase_le (k : κ) : (d.erase k).size ≤ d.size := length_filter_le _ _

/-- Moving an entry to the end adds none. -/
theorem size_moveToEnd_le (k : κ) : (d.moveToEnd k).size ≤ d.size := by
  unfold moveToEnd
  split
  next v hv =>
    have herase : (d.erase k).get k = none := by rw [get_erase, if_pos rfl]
    have hlt : (d.erase k).size < d.size := length_filter_lt_length_iff_exists.mpr
      ⟨(k, v), get_eq_some_iff.mp hv, by simp⟩
    unfold set
    split
    next w hw => exact absurd (hw.symm.trans herase) nofun
    next => simpa [size] using hlt
  next => exact le_rfl

variable (f : α → ℕ)

/-- The total weight of the entries. -/
def total (d : OrderedDict κ α) : ℕ := (d.entries.map fun e => f e.2).sum

private theorem sum_modify (k : κ) (g : α → α) (entries : List (κ × α))
    (hnodup : (entries.map Prod.fst).Nodup) :
    ((entries.map fun e => if e.1 = k then (e.1, g e.2) else e).map fun e => f e.2).sum +
        (((entries.find? (·.1 = k)).map Prod.snd).map f).getD 0 =
      (entries.map fun e => f e.2).sum + (((entries.find? (·.1 = k)).map Prod.snd).map (f ∘ g)).getD 0 := by
  induction entries with
  | nil => rfl
  | cons e rest ih =>
    rw [map_cons, nodup_cons] at hnodup
    by_cases hk : e.1 = k
    · have hrest : (rest.map fun e => if e.1 = k then (e.1, g e.2) else e) = rest := by
        refine (map_congr_left fun e' he' => if_neg fun heq => ?_).trans (map_id rest)
        exact hnodup.1 (mem_map.mpr ⟨e', he', heq.trans hk.symm⟩)
      rw [map_cons, if_pos hk, hrest, find?_cons_of_pos (by simpa using hk)]
      simp only [map_cons, sum_cons, Option.map_some, Option.getD_some, Function.comp_apply]
      omega
    · rw [map_cons, if_neg hk, find?_cons_of_neg (by simpa using hk)]
      simp only [map_cons, sum_cons]
      have := ih hnodup.2
      omega

theorem total_set (d : OrderedDict κ α) (k : κ) (v : α) :
    total f (d.set k v) + ((d.get k).map f).getD 0 = total f d + f v := by
  unfold set
  split
  next w hw =>
    have hsum := sum_modify f k (fun _ => v) d.entries d.nodup
    have hfind : (d.entries.find? (·.1 = k)).map Prod.snd = some w := hw
    rw [hfind] at hsum
    rwa [hw]
  next hnone =>
    simp [total, hnone]

end OrderedDict

end VllmPs.Lib
