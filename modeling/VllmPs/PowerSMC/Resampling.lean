import Mathlib
import VllmPs.PowerSMC.Manager

/-!
# Systematic resampling

In exact arithmetic, the loop of `systematic_resample` picks for each grid position the index whose
interval between running sums holds it. So an index is picked its expected number of times, rounded
down or up.
-/

namespace VllmPs.Resampling

open List

structure Valid (weights : List ℚ) (u : ℚ) : Prop where
  nonneg : ∀ w ∈ weights, 0 ≤ w
  sum : weights.sum = 1
  pos : 0 < u
  lt : u < 1 / weights.length

/-- The sum of the weights before an index. -/
def cumulative (weights : List ℚ) (k : ℕ) : ℚ := (weights.take k).sum

/-- The position `start + i * inv_n` of the grid. -/
def position (weights : List ℚ) (u : ℚ) (i : ℕ) : ℚ := u + i * (1 / weights.length)

/-- The interval of an index holds a position. -/
def Holds (weights : List ℚ) (pos : ℚ) (k : ℕ) : Prop :=
  cumulative weights k < pos ∧ pos ≤ cumulative weights (k + 1)

/-- The last grid position before the interval of an index. -/
def gridBefore (weights : List ℚ) (u : ℚ) (k : ℕ) : ℤ := ⌊weights.length * (cumulative weights k - u)⌋

variable {weights : List ℚ} {u pos w : ℚ} {i k : ℕ}

theorem cumulative_succ (hw : weights[k]? = some w) :
    cumulative weights (k + 1) = cumulative weights k + w := by
  simp [cumulative, take_add_one, hw]

theorem advance_spec (fuel : ℕ) (hpos : pos ≤ weights.sum) (hi : cumulative weights i < pos)
    (hlt : i < weights.length) (hfuel : weights.length ≤ i + fuel) :
    ∃ k < weights.length, Holds weights pos k ∧
      advance weights pos fuel (cumulative weights i, i) = (cumulative weights k, k) := by
  induction fuel generalizing i with
  | zero => omega
  | succ fuel ih =>
    have hw := List.getElem?_eq_getElem hlt
    by_cases hnext : cumulative weights (i + 1) < pos
    · have hlast : i + 1 < weights.length := by
        by_contra hge
        rw [cumulative, take_of_length_le (Nat.le_of_not_lt hge)] at hnext
        linarith
      obtain ⟨k, hk, hholds, hadvance⟩ := ih hnext hlast (by omega)
      rw [cumulative_succ hw] at hnext hadvance
      refine ⟨k, hk, hholds, ?_⟩
      simp [advance, hw, PyFloat.lt, hnext, hadvance, show i < weights.length - 1 by omega]
    · refine ⟨i, hlt, ⟨hi, not_lt.mp hnext⟩, ?_⟩
      rw [cumulative_succ hw] at hnext
      simp [advance, hw, PyFloat.lt, hnext]

theorem countP_range {a b : ℤ} (ha : -1 ≤ a) (hab : a ≤ b) (n : ℕ) :
    ((List.range n).countP fun j : ℕ => decide (a < j ∧ j ≤ b) : ℕ) = min b (n - 1) - min a (n - 1) := by
  induction n with
  | zero =>
    rw [range_zero, countP_nil]
    omega
  | succ n ih =>
    rw [range_succ, countP_append, Nat.cast_add, ih]
    simp only [countP_singleton, decide_eq_true_eq]
    split_ifs <;> push_cast <;> omega

namespace Valid

variable (h : Valid weights u)
include h

theorem length_pos : 0 < (weights.length : ℚ) := one_div_pos.mp (h.pos.trans h.lt)

theorem cumulative_le (hik : i ≤ k) : cumulative weights i ≤ cumulative weights k :=
  (take_sublist_take_left hik).sum_le_sum fun w hw => h.nonneg w (mem_of_mem_take hw)

theorem le_of_holds {pos' : ℚ} (hi : Holds weights pos i) (hk : Holds weights pos' k) (hle : pos ≤ pos') :
    i ≤ k := by
  by_contra hlt
  have := h.cumulative_le (Nat.succ_le_of_lt (Nat.lt_of_not_le hlt))
  linarith [hi.1, hk.2]

theorem holds_position (j : ℕ) : Holds weights (position weights u j) i ↔
    gridBefore weights u i < j ∧ j ≤ gridBefore weights u (i + 1) := by
  rw [gridBefore, gridBefore, Int.floor_lt, Int.le_floor, Holds, position, mul_one_div,
    ← sub_lt_iff_lt_add', ← le_sub_iff_add_le', lt_div_iff₀' h.length_pos, div_le_iff₀' h.length_pos,
    Int.cast_natCast]

theorem position_le (hi : i < weights.length) : position weights u i ≤ weights.sum := by
  have hi : (i : ℚ) + 1 ≤ weights.length := by exact_mod_cast hi
  have hone : (i + 1 : ℚ) * (1 / weights.length) ≤ 1 := by rwa [mul_one_div, div_le_one h.length_pos]
  rw [h.sum, position]
  linarith [h.lt]

/-- The loop of `systematic_resample` picks for each position the index whose interval holds it. -/
theorem systematicResample_eq_map : ∃ pick : ℕ → ℕ,
    (∀ i < weights.length, pick i < weights.length ∧ Holds weights (position weights u i) (pick i)) ∧
      systematicResample weights (u * weights.length) = (List.range weights.length).map pick := by
  have hfirst (i : ℕ) : cumulative weights 0 < position weights u i :=
    add_pos_of_pos_of_nonneg h.pos (by positivity)
  have hexists (i : ℕ) (hi : i < weights.length) :
      ∃ k, k < weights.length ∧ Holds weights (position weights u i) k := by
    obtain ⟨k, hk, hholds, -⟩ := advance_spec _ (h.position_le hi) (hfirst i) (by omega) le_add_self
    exact ⟨k, hk, hholds⟩
  choose! pick hpick using hexists
  refine ⟨pick, hpick, ?_⟩
  -- the two pointers after the first positions
  suffices hloop : ∀ k ≤ weights.length, ∃ c < weights.length, cumulative weights c < position weights u k ∧
      (List.range k).foldl (fun (state : (ℚ × ℕ) × List ℕ) (i : ℕ) =>
        let moved := advance weights (u * weights.length * (1 / weights.length) + i * (1 / weights.length))
          weights.length state.1
        (moved, state.2 ++ [moved.2])) ((0, 0), []) = ((cumulative weights c, c), (List.range k).map pick) by
    obtain ⟨c, -, -, hfold⟩ := hloop _ le_rfl
    exact congrArg Prod.snd hfold
  intro k
  induction k with
  | zero => exact fun _ => ⟨0, by exact_mod_cast h.length_pos, hfirst 0, rfl⟩
  | succ k ih =>
    intro hk
    obtain ⟨c, hc, hbefore, hfold⟩ := ih (by omega)
    obtain ⟨k', hk', hholds, hadvance⟩ := advance_spec _ (h.position_le hk) hbefore hc le_add_self
    have hsame : k' = pick k := le_antisymm (h.le_of_holds hholds (hpick k hk).2 le_rfl)
      (h.le_of_holds (hpick k hk).2 hholds le_rfl)
    refine ⟨k', hk', hholds.1.trans ?_, ?_⟩
    · rw [position, position, Nat.cast_succ, add_one_mul]
      linarith [one_div_pos.mpr h.length_pos]
    · have hstart : u * weights.length * (1 / weights.length) + k * (1 / weights.length) =
          position weights u k := by
        rw [position, mul_one_div, mul_div_cancel_right₀ u h.length_pos.ne']
      rw [range_succ, foldl_append, hfold, map_append]
      simp only [foldl_cons, foldl_nil, hstart, hadvance, hsame, map_cons, map_nil]

omit h in
theorem gridBefore_succ (hw : weights[i]? = some w) :
    gridBefore weights u i + ⌊weights.length * w⌋ ≤ gridBefore weights u (i + 1) ∧
      gridBefore weights u (i + 1) ≤ gridBefore weights u i + ⌈weights.length * w⌉ := by
  have hsplit : weights.length * (cumulative weights (i + 1) - u) =
      weights.length * (cumulative weights i - u) + weights.length * w := by
    rw [cumulative_succ hw]
    ring
  rw [gridBefore, gridBefore, hsplit, ← Int.floor_add_intCast, ← Int.floor_add_intCast]
  exact ⟨Int.floor_le_floor (add_le_add_right (Int.floor_le _) _),
    Int.floor_le_floor (add_le_add_right (Int.le_ceil _) _)⟩

theorem gridBefore_bounds : -1 ≤ gridBefore weights u i ∧
    gridBefore weights u i ≤ gridBefore weights u (i + 1) ∧ gridBefore weights u (i + 1) < weights.length := by
  have hoffset : weights.length * u < 1 := (lt_div_iff₀' h.length_pos).mp h.lt
  refine ⟨?_, Int.floor_le_floor ?_, ?_⟩
  · have := mul_nonneg h.length_pos.le (h.cumulative_le (Nat.zero_le i))
    rw [gridBefore, Int.le_floor, mul_sub]
    push_cast
    linarith
  · exact mul_le_mul_of_nonneg_left (sub_le_sub_right (h.cumulative_le i.le_succ) u) h.length_pos.le
  · have hle : cumulative weights (i + 1) ≤ 1 := h.sum ▸ (take_sublist _ _).sum_le_sum h.nonneg
    rw [gridBefore, Int.floor_lt, Int.cast_natCast]
    nlinarith [h.length_pos, h.pos]

theorem count_pick {pick : ℕ → ℕ}
    (hpick : ∀ j < weights.length, Holds weights (position weights u j) (pick j)) :
    (((List.range weights.length).map pick).count i : ℤ) =
      gridBefore weights u (i + 1) - gridBefore weights u i := by
  obtain ⟨hfirst, hle, hlast⟩ := h.gridBefore_bounds (i := i)
  have hholds (j : ℕ) (hj : j ∈ List.range weights.length) : ((· == i) ∘ pick) j = true ↔
      decide (gridBefore weights u i < j ∧ j ≤ gridBefore weights u (i + 1)) = true := by
    have hj := hpick j (mem_range.mp hj)
    rw [decide_eq_true_iff, ← h.holds_position, Function.comp_apply, beq_iff_eq]
    exact ⟨fun hi => hi ▸ hj, fun hi => le_antisymm (h.le_of_holds hj hi le_rfl) (h.le_of_holds hi hj le_rfl)⟩
  rw [List.count, countP_map, countP_congr hholds, countP_range hfirst hle]
  omega

end Valid

/-- Systematic resampling picks as many indices as there are weights, in order, and each as often as
its share of them rounded down or up. -/
theorem systematicResample_counts (weights : List ℚ) (u : ℚ) (hweights : ∀ w ∈ weights, 0 ≤ w)
    (hsum : weights.sum = 1) (hu : 0 < u) (hlt : u < 1 / weights.length) :
    let chosen := systematicResample weights (u * weights.length)
    chosen.length = weights.length ∧ (∀ i ∈ chosen, i < weights.length) ∧ chosen.Pairwise (· ≤ ·) ∧
      ∀ (i : ℕ) (w : ℚ), weights[i]? = some w →
        ((chosen.count i : ℤ) = ⌊weights.length * w⌋ ∨ (chosen.count i : ℤ) = ⌈weights.length * w⌉) ∧
          (w = 0 → i ∉ chosen) ∧ ∀ k : ℕ, (k : ℚ) / weights.length ≤ w → k ≤ chosen.count i := by
  have h : Valid weights u := ⟨hweights, hsum, hu, hlt⟩
  obtain ⟨pick, hpick, hchosen⟩ := h.systematicResample_eq_map
  intro chosen
  rw [show chosen = _ from hchosen]
  refine ⟨by simp, by simpa using fun i hi => (hpick i hi).1, ?_, fun i w hw => ?_⟩
  · refine pairwise_map.mpr (pairwise_lt_range.imp_of_mem fun {a b} ha hb hlt => ?_)
    refine h.le_of_holds (hpick a (mem_range.mp ha)).2 (hpick b (mem_range.mp hb)).2 ?_
    unfold position
    gcongr
  · have hcount := h.count_pick (i := i) fun j hj => (hpick j hj).2
    obtain ⟨hdown, hup⟩ := Valid.gridBefore_succ (u := u) hw
    have hround := Int.ceil_le_floor_add_one (weights.length * w)
    refine ⟨by omega, ?_, fun k hk => ?_⟩
    · rintro rfl
      rw [mul_zero, Int.floor_zero] at hdown
      rw [mul_zero, Int.ceil_zero] at hup
      exact count_eq_zero.mp (by omega)
    · have hk : (k : ℤ) ≤ ⌊weights.length * w⌋ := Int.le_floor.mpr ((div_le_iff₀' h.length_pos).mp hk)
      omega

/-- With the offset one sixth, a weightless index in the middle is not picked. -/
theorem systematicResample_counts_three : 1 ∉ systematicResample [1 / 4, 0, 3 / 4] (1 / 6 * (3 : ℕ) : ℚ) :=
  ((systematicResample_counts [1 / 4, 0, 3 / 4] (1 / 6) (by decide +kernel) (by decide +kernel)
    (by norm_num) (by norm_num)).2.2.2 1 0 rfl).2.1 rfl

end VllmPs.Resampling
