import VllmPs.Lib.Table

/-!
# Matchings

A table from keys to positions and the positions' own record of their keys, which are kept consistent. Both are
partial functions; writing one of them without the other breaks the matching, writing both as below keeps it.
-/

namespace VllmPs.Lib

open Function Option

variable {κ ι : Type*}

/-- The positions of the keys and the keys of the positions agree. -/
def Matches (f : κ → Option ι) (g : ι → Option κ) : Prop := ∀ k i, f k = some i ↔ g i = some k

namespace Matches

variable {f : κ → Option ι} {g : ι → Option κ} {k l : κ} {i j : ι}

theorem key_injective (h : Matches f g) (hk : f k = some i) (hl : f l = some i) : k = l := by
  have heq := ((h k i).mp hk).symm.trans ((h l i).mp hl)
  exact some.inj heq

variable [DecidableEq κ] [DecidableEq ι]

theorem erase (h : Matches f g) (hk : f k = some i) : Matches (update f k none) (update g i none) := by
  intro a m
  rcases eq_or_ne a k with rfl | hne
  · rw [update_self]
    refine ⟨nofun, fun hm => ?_⟩
    rcases eq_or_ne m i with rfl | hm'
    · simp [update_self] at hm
    · rw [update_of_ne hm', ← h a m, hk] at hm
      exact absurd (some.inj hm).symm hm'
  rw [update_of_ne hne]
  rcases eq_or_ne m i with rfl | hm
  · rw [update_self]
    refine ⟨fun ha => absurd (h.key_injective ha hk) hne, nofun⟩
  · rw [update_of_ne hm]
    exact h a m

theorem insert (h : Matches f g) (hk : f k = none) (hi : g i = none) :
    Matches (update f k (some i)) (update g i (some k)) := by
  intro a m
  rcases eq_or_ne a k with rfl | hne
  · rw [update_self]
    rcases eq_or_ne m i with rfl | hm
    · rw [update_self]
      exact ⟨fun _ => rfl, fun _ => rfl⟩
    · rw [update_of_ne hm, ← h a m, hk]
      exact ⟨fun heq => absurd (some.inj heq).symm hm, nofun⟩
  rw [update_of_ne hne]
  rcases eq_or_ne m i with rfl | hm
  · rw [update_self, h a m, hi]
    exact ⟨nofun, fun heq => absurd (some.inj heq).symm hne⟩
  · rw [update_of_ne hm]
    exact h a m

theorem move (h : Matches f g) (hk : f k = some i) (hj : g j = none) :
    Matches (update f k (some j)) (update (update g j (some k)) i none) := by
  have hne : j ≠ i := by
    rintro rfl
    simp [h k j, hj] at hk
  have hmoved := (h.erase hk).insert (update_self k none f) ((update_of_ne hne _ _).trans hj)
  rwa [update_idem, update_comm hne.symm] at hmoved

theorem swap (h : Matches f g) (hi : g i = some k) (hj : g j = some l) :
    Matches (update (update f k (some j)) l (some i)) (update (update g i (g j)) j (g i)) := by
  rw [hi, hj]
  rcases eq_or_ne i j with rfl | hij
  · obtain rfl := mem_unique hi hj
    have hf : update f k (some i) = f := update_eq_self_iff.mpr ((h k i).mpr hi).symm
    have hg : update g i (some k) = g := update_eq_self_iff.mpr hi.symm
    rwa [update_idem, update_idem, hf, hg]
  have hkl : k ≠ l := by
    rintro rfl
    exact hij (some.inj (((h k i).mpr hi).symm.trans ((h k j).mpr hj)))
  have hboth := (h.erase ((h k i).mpr hi)).erase (i := j)
    ((update_of_ne hkl.symm none f).trans ((h l j).mpr hj))
  have hfirst := hboth.insert (k := k) (i := j) ((update_of_ne hkl _ _).trans (update_self ..)) (update_self ..)
  have hsecond := hfirst.insert (k := l) (i := i) ((update_of_ne hkl.symm _ _).trans (update_self ..))
    ((update_of_ne hij _ _).trans ((update_of_ne hij _ _).trans (update_self ..)))
  have hf : update (update (update (update f k none) l none) k (some j)) l (some i) =
      update (update f k (some j)) l (some i) := by
    rw [update_comm hkl.symm, update_idem, update_idem]
  have hg : update (update (update (update g i none) j none) j (some k)) i (some l) =
      update (update g i (some l)) j (some k) := by
    rw [update_idem, update_comm hij.symm, update_idem]
  rwa [hf, hg] at hsecond

theorem length_eq_card {t : Table κ ℕ} {g : ℕ → Option κ} {n : ℕ} (h : Matches t.lookup g)
    (hbound : ∀ i, g i ≠ none → i < n) : t.entries.length = ((Finset.range n).filter fun i => g i ≠ none).card := by
  have hkeys : t.keys.toFinset.card = t.entries.length := by
    rw [List.toFinset_card_of_nodup t.keys_nodup]
    exact List.length_map _
  have hmem (k : κ) : k ∈ t.keys.toFinset ↔ ∃ i, t.lookup k = some i := by
    rw [List.mem_toFinset, ← AList.mem_keys, ← AList.lookup_isSome, isSome_iff_exists]
  rw [← hkeys]
  refine Finset.card_bij (fun k hk => ((t.lookup k).getD 0)) (fun k hk => ?_) (fun k hk l hl heq => ?_) fun i hi => ?_
  · obtain ⟨i, hi⟩ := (hmem k).mp hk
    have hkey := (h k i).mp hi
    rw [hi, getD_some, Finset.mem_filter, Finset.mem_range, hkey]
    exact ⟨hbound i (by rw [hkey]; exact nofun), nofun⟩
  · obtain ⟨i, hi⟩ := (hmem k).mp hk
    obtain ⟨j, hj⟩ := (hmem l).mp hl
    rw [hi, hj, getD_some, getD_some] at heq
    exact h.key_injective hi (heq ▸ hj)
  · obtain ⟨k, hk⟩ := Option.ne_none_iff_exists'.mp (Finset.mem_filter.mp hi).2
    have hi' : t.lookup k = some i := (h k i).mpr hk
    exact ⟨k, (hmem k).mpr ⟨i, hi'⟩, by rw [hi', getD_some]⟩

end Matches

end VllmPs.Lib
