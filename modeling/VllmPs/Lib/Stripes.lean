import Mathlib.Data.Nat.Count
import Mathlib.Tactic

/-!
# Positions dealt out in stripes

Positions are dealt out to a number of owners in turn, a stripe of consecutive positions at a time. Each owner
numbers the positions it gets from zero on.
-/

namespace VllmPs.Lib

structure Stripes where
  width : ℕ
  owners : ℕ
  width_pos : 0 < width
  owners_pos : 0 < owners

namespace Stripes

variable (s : Stripes)
variable (p : ℕ)

def owner : ℕ := p / s.width % s.owners

/-- The number that its owner gives a position. -/
def index : ℕ := p / (s.owners * s.width) * s.width + p % s.width

/-- The part of the positions below `n` that belongs to an owner, as a closed formula. -/
def share (rank n : ℕ) : ℕ :=
  n / (s.owners * s.width) * s.width + min (n % (s.owners * s.width) - rank * s.width) s.width

theorem exists_coords : ∃ a b c, b < s.owners ∧ c < s.width ∧ p = (a * s.owners + b) * s.width + c := by
  refine ⟨p / s.width / s.owners, p / s.width % s.owners, p % s.width, Nat.mod_lt _ s.owners_pos,
    Nat.mod_lt _ s.width_pos, ?_⟩
  rw [Nat.div_add_mod', Nat.div_add_mod']

section Coords

variable {s} {a b c : ℕ} (hb : b < s.owners) (hc : c < s.width)

include hb hc

theorem owner_coords : s.owner ((a * s.owners + b) * s.width + c) = b := by
  unfold owner
  rw [Nat.mul_comm _ s.width, Nat.mul_add_div s.width_pos, Nat.div_eq_of_lt hc, Nat.add_zero,
    Nat.mul_add_mod_self_right, Nat.mod_eq_of_lt hb]

theorem stripe_lt : b * s.width + c < s.owners * s.width :=
  calc b * s.width + c < (b + 1) * s.width := by linarith [Nat.succ_mul b s.width]
    _ ≤ s.owners * s.width := Nat.mul_le_mul_right _ hb

theorem div_coords : ((a * s.owners + b) * s.width + c) / (s.owners * s.width) = a := by
  rw [Nat.add_mul, Nat.mul_assoc, Nat.add_assoc, Nat.mul_comm a,
    Nat.mul_add_div (Nat.mul_pos s.owners_pos s.width_pos), Nat.div_eq_of_lt (stripe_lt hb hc), Nat.add_zero]

theorem mod_coords : ((a * s.owners + b) * s.width + c) % (s.owners * s.width) = b * s.width + c := by
  rw [Nat.add_mul, Nat.mul_assoc, Nat.add_assoc, Nat.mul_comm a, Nat.mul_add_mod,
    Nat.mod_eq_of_lt (stripe_lt hb hc)]

theorem index_coords : s.index ((a * s.owners + b) * s.width + c) = a * s.width + c := by
  unfold index
  rw [div_coords hb hc, Nat.mul_add_mod_self_right, Nat.mod_eq_of_lt hc]

theorem share_coords (rank : ℕ) : s.share rank ((a * s.owners + b) * s.width + c) =
    a * s.width + if b < rank then 0 else if b = rank then c else s.width := by
  unfold share
  rw [div_coords hb hc, mod_coords hb hc, Nat.add_left_cancel_iff]
  rcases Nat.lt_trichotomy b rank with hlt | rfl | hgt
  · have hle : (b + 1) * s.width ≤ rank * s.width := Nat.mul_le_mul_right _ hlt
    rw [Nat.succ_mul] at hle
    rw [if_pos hlt, Nat.sub_eq_zero_of_le (by omega), Nat.zero_min]
  · rw [if_neg (lt_irrefl b), if_pos rfl, Nat.add_sub_cancel_left, Nat.min_eq_left hc.le]
  · have hle : (rank + 1) * s.width ≤ b * s.width := Nat.mul_le_mul_right _ hgt
    rw [Nat.succ_mul] at hle
    rw [if_neg hgt.not_gt, if_neg hgt.ne', Nat.min_eq_right (by omega)]

end Coords

theorem share_succ {rank : ℕ} (hrank : rank < s.owners) (n : ℕ) :
    s.share rank (n + 1) = s.share rank n + if s.owner n = rank then 1 else 0 := by
  obtain ⟨a, b, c, hb, hc, rfl⟩ := s.exists_coords n
  rw [share_coords hb hc, owner_coords hb hc]
  rcases Nat.lt_or_ge (c + 1) s.width with hnext | hlast
  · -- the next position lies in the same stripe
    rw [Nat.add_assoc, share_coords hb hnext]
    split_ifs <;> omega
  have hwidth : c + 1 = s.width := by omega
  rw [Nat.add_assoc, hwidth]
  rcases Nat.lt_or_ge (b + 1) s.owners with hnext | hlast
  · -- the next position starts the stripe of the next owner
    have hcoords : (a * s.owners + b) * s.width + s.width = (a * s.owners + (b + 1)) * s.width + 0 := by ring
    rw [hcoords, share_coords hnext s.width_pos]
    split_ifs <;> omega
  -- the next position starts the next round
  obtain hround : b + 1 = s.owners := by omega
  have hcoords : (a * s.owners + b) * s.width + s.width = ((a + 1) * s.owners + 0) * s.width + 0 := by
    rw [← hround]
    ring
  rw [hcoords, share_coords s.owners_pos s.width_pos, Nat.succ_mul]
  split_ifs <;> omega

theorem count_eq_share {rank : ℕ} (hrank : rank < s.owners) (n : ℕ) :
    Nat.count (s.owner · = rank) n = s.share rank n := by
  induction n with
  | zero => simp [share]
  | succ n ih => rw [Nat.count_succ, ih, s.share_succ hrank]

theorem index_eq_count : s.index p = Nat.count (s.owner · = s.owner p) p := by
  obtain ⟨a, b, c, hb, hc, rfl⟩ := s.exists_coords p
  rw [owner_coords hb hc, index_coords hb hc, s.count_eq_share hb, share_coords hb hc, if_neg (lt_irrefl b),
    if_pos rfl]

end Stripes

end VllmPs.Lib
