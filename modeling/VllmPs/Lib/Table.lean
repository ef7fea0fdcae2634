import Mathlib.Data.List.AList
import Mathlib.Tactic

/-!
# Totals over finite tables

Dictionaries are Mathlib's association lists. The total of a weight over all entries of a
table changes by the weights of the old and the new value under the key that is written,
also when the weight itself changes at that key.
-/

namespace VllmPs.Lib

open List AList Function

variable {κ α : Type*}

/-- A finite dictionary. -/
abbrev Table (κ α : Type*) := AList fun _ : κ => α

namespace Table

variable {f f' : κ → α → ℕ} {k : κ}

def total (f : κ → α → ℕ) (t : Table κ α) : ℕ := (t.entries.map fun e => f e.1 e.2).sum

@[simp] theorem total_empty (f : κ → α → ℕ) : total f (∅ : Table κ α) = 0 := rfl

variable [DecidableEq κ]

/-- The weight under one key, zero if the key is absent. -/
def weightAt (f : κ → α → ℕ) (t : Table κ α) (k : κ) : ℕ := ((t.lookup k).map (f k)).getD 0

private theorem sum_kerase (f : κ → α → ℕ) (k : κ) (entries : List (Sigma fun _ : κ => α)) :
    ((List.kerase k entries).map fun e => f e.1 e.2).sum +
      ((List.dlookup k entries).map (f k)).getD 0 = (entries.map fun e => f e.1 e.2).sum := by
  induction entries with
  | nil => rfl
  | cons e rest ih =>
    obtain ⟨k', v⟩ := e
    rcases eq_or_ne k k' with rfl | hne
    · have herase : List.kerase k (⟨k, v⟩ :: rest) = rest := List.kerase_cons_eq rfl
      rw [herase, List.dlookup_cons_eq]
      simp [Nat.add_comm]
    · rw [List.kerase_cons_ne hne, List.dlookup_cons_ne _ _ hne]
      simp only [map_cons, sum_cons]
      omega

theorem total_erase_congr (hf : ∀ k', k' ≠ k → f' k' = f k')
    (t : Table κ α) : total f' (t.erase k) = total f (t.erase k) := by
  unfold total
  congr 1
  refine map_congr_left fun e he => ?_
  have hmem : e.1 ∈ t.erase k := mem_keys_of_mem he
  rw [hf e.1 (AList.mem_erase.mp hmem).1]

theorem total_erase (hf : ∀ k', k' ≠ k → f' k' = f k') (t : Table κ α) :
    total f' (t.erase k) + weightAt f t k = total f t := by
  rw [total_erase_congr hf]
  exact sum_kerase f k t.entries

theorem total_insert (hf : ∀ k', k' ≠ k → f' k' = f k') (t : Table κ α)
    (v : α) : total f' (t.insert k v) + weightAt f t k = total f t + f' k v := by
  rw [← total_erase hf t]
  change f' k v + total f' (t.erase k) + _ = _
  omega

theorem total_erase_of_lookup {t : Table κ α} {v : α} (h : t.lookup k = some v) (f : κ → α → ℕ) :
    total f (t.erase k) + f k v = total f t := by
  rw [← total_erase (fun _ _ => rfl) t, weightAt, h]
  rfl

theorem total_insert_of_lookup {t : Table κ α} (h : t.lookup k = none) (f : κ → α → ℕ) (v : α) :
    total f (t.insert k v) = total f t + f k v := by
  rw [← total_insert (fun _ _ => rfl) t v, weightAt, h]
  rfl

theorem le_total (f : κ → α → ℕ) (t : Table κ α) (k : κ) : weightAt f t k ≤ total f t := by
  rw [← total_erase (fun _ _ => rfl) t]
  exact Nat.le_add_left _ _

omit [DecidableEq κ] in
theorem total_le_total {g : κ → α → ℕ} (h : ∀ k v, f k v ≤ g k v) (t : Table κ α) : total f t ≤ total g t :=
  sum_le_sum fun e _ => h e.1 e.2

omit [DecidableEq κ] in
theorem keys_map_entries (f : κ → α → α) (entries : List (Sigma fun _ : κ => α)) :
    (entries.map fun e => (⟨e.1, f e.1 e.2⟩ : Sigma fun _ : κ => α)).keys = entries.keys := by
  unfold List.keys
  rw [map_map]
  rfl

omit [DecidableEq κ] in
/-- Change every value of a table. -/
def mapValues (f : κ → α → α) (t : Table κ α) : Table κ α :=
  ⟨t.entries.map fun e => ⟨e.1, f e.1 e.2⟩, by
    unfold List.NodupKeys
    rw [keys_map_entries]
    exact t.nodupKeys⟩

@[simp] theorem lookup_mapValues (f : κ → α → α) (t : Table κ α) (k : κ) :
    (t.mapValues f).lookup k = (t.lookup k).map (f k) := by
  change List.dlookup k (t.entries.map fun e => (⟨e.1, f e.1 e.2⟩ : Sigma fun _ : κ => α)) =
    (List.dlookup k t.entries).map (f k)
  induction t.entries with
  | nil => rfl
  | cons e rest ih =>
    obtain ⟨k', v⟩ := e
    rcases eq_or_ne k k' with rfl | hne
    · rw [map_cons, List.dlookup_cons_eq, List.dlookup_cons_eq, Option.map_some]
    · rw [map_cons, List.dlookup_cons_ne _ _ hne, List.dlookup_cons_ne _ _ hne, ih]

theorem mem_of_lookup {t : Table κ α} {v : α} (h : t.lookup k = some v) : k ∈ t :=
  AList.lookup_isSome.mp (by rw [h]; rfl)

theorem exists_lookup {t : Table κ α} (h : k ∈ t) : ∃ v, t.lookup k = some v :=
  Option.isSome_iff_exists.mp (AList.lookup_isSome.mpr h)

variable (t : Table κ α)

theorem lookup_insert_eq_ite (k k' : κ) (v : α) :
    (t.insert k v).lookup k' = if k' = k then some v else t.lookup k' := by
  split_ifs with heq
  · rw [heq, lookup_insert]
  · exact lookup_insert_ne heq

theorem lookup_insert_eq_update (k : κ) (v : α) :
    (t.insert k v).lookup = update t.lookup k (some v) := by
  funext k'
  rw [lookup_insert_eq_ite, update_apply]

theorem lookup_insert_cases {t : Table κ α} {k' : κ} {v v' : α}
    (h : (t.insert k v).lookup k' = some v') : (k' = k ∧ v' = v) ∨ (k' ≠ k ∧ t.lookup k' = some v') := by
  rw [lookup_insert_eq_ite] at h
  split_ifs at h with heq
  · exact Or.inl ⟨heq, (Option.some.inj h).symm⟩
  · exact Or.inr ⟨heq, h⟩

theorem isSome_lookup_insert {t : Table κ α} {v : α} (h : t.lookup k = some v) (k' : κ) (v' : α) :
    ((t.insert k v').lookup k').isSome = (t.lookup k').isSome := by
  rw [lookup_insert_eq_ite]
  split_ifs with heq
  · rw [heq, h]
    rfl
  · rfl

theorem lookup_erase_eq_update (k : κ) : (t.erase k).lookup = update t.lookup k none := by
  funext k'
  rcases eq_or_ne k' k with rfl | hne
  · rw [lookup_erase, update_self]
  · rw [lookup_erase_ne hne, update_of_ne hne]

theorem lookup_erase_eq_some {t : Table κ α} {k' : κ} {v : α} :
    (t.erase k).lookup k' = some v ↔ k' ≠ k ∧ t.lookup k' = some v := by
  rcases eq_or_ne k' k with rfl | hne
  · rw [lookup_erase]
    exact ⟨nofun, fun h => absurd rfl h.1⟩
  · rw [lookup_erase_ne hne]
    exact (and_iff_right hne).symm

omit [DecidableEq κ] in
theorem total_one : total (fun _ _ => 1) t = t.entries.length := by
  unfold total
  rw [map_const', sum_replicate, smul_eq_mul, Nat.mul_one]

theorem length_insert_of_lookup {t : Table κ α} {v : α} (h : t.lookup k = some v) (v' : α) :
    (t.insert k v').entries.length = t.entries.length := by
  have htotal := total_insert (f := fun _ _ => 1) (k := k) (fun _ _ => rfl) t v'
  rw [total_one, total_one, weightAt, h] at htotal
  exact Nat.add_right_cancel htotal

end Table

end VllmPs.Lib
