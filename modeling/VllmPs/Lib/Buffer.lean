import Mathlib.Tactic

/-!
# Buffers that are reused

A buffer is written in slices and never cleared. What a slice of it holds is determined by the last writes to
that slice, whatever else the buffer held before.
-/

namespace VllmPs.Lib

open List

variable {α : Type*}
variable {start n : ℕ}
variable (f : ℕ → α)

/-- The entries of a buffer from a position on. -/
def slice (start n : ℕ) : List α := (List.range' start n).map f

def write (start : ℕ) (l : List α) : ℕ → α := fun k =>
  if start ≤ k then l[k - start]?.getD (f k) else f k

def copyFirst (n : ℕ) (source target : ℕ → α) : ℕ → α := fun k => if k < n then source k else target k

@[simp] theorem length_slice (start n : ℕ) : (slice f start n).length = n := by
  unfold slice
  rw [length_map, length_range']

theorem slice_congr {f g : ℕ → α} (h : ∀ k, start ≤ k → k < start + n → f k = g k) :
    slice f start n = slice g start n := by
  refine map_congr_left fun k hk => ?_
  obtain ⟨i, hi, rfl⟩ := mem_range'.mp hk
  exact h _ (by omega) (by omega)

theorem slice_add (start m n : ℕ) : slice f start (m + n) = slice f start m ++ slice f (start + m) n := by
  unfold slice
  rw [← map_append, List.range'_append_1]

theorem slice_write_self (start : ℕ) (l : List α) : slice (write f start l) start l.length = l := by
  refine ext_getElem (length_slice ..) fun k hk hk' => ?_
  simp only [slice, getElem_map, getElem_range', write, Nat.one_mul, Nat.le_add_right, if_true,
    Nat.add_sub_cancel_left, List.getElem?_eq_getElem hk', Option.getD_some]

theorem slice_write_replicate (start n : ℕ) (a : α) :
    slice (write f start (List.replicate n a)) start n = List.replicate n a := by
  have h := slice_write_self f start (List.replicate n a)
  rwa [length_replicate] at h

theorem slice_write_of_le {position : ℕ} (l : List α) (h : start + n ≤ position) :
    slice (write f position l) start n = slice f start n := by
  refine slice_congr fun k _ hk => ?_
  exact if_neg (by omega)

theorem slice_copyFirst {source target : ℕ → α} {m : ℕ} (h : start + n ≤ m) :
    slice (copyFirst m source target) start n = slice source start n :=
  slice_congr fun _ _ hk => if_pos (by omega)

end VllmPs.Lib
