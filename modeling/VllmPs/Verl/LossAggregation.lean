import Mathlib
import VllmPs.PowerSMC.Manager

/-!
# Loss aggregation of the trainer

The rows of a mini-batch are spread over ranks and micro-batches, whose losses are summed in a rank and averaged
over the ranks. Every mode divides a sum over the rows: the sum does not depend on how the rows are spread or
padded, and the divisor does where it is taken from the micro-batch.
-/

namespace VllmPs.Verl

open List Function

/-- The ways to reduce a loss matrix to one number. -/
inductive LossAggMode
  | tokenMean | seqMeanTokenSum | seqMeanTokenSumNorm | seqMeanTokenMean
  deriving DecidableEq

/-- A loss and whether it is unmasked. -/
structure Cell where
  loss : ℚ
  mask : Bool
  deriving DecidableEq

/-- The mask as a number. -/
def Cell.weight (c : Cell) : ℚ := if c.mask then 1 else 0

/-- A padded matrix, all of whose rows have `shape[-1]` positions. -/
structure Mat (α : Type) where
  width : ℕ
  rows : List (List α)
  rect : ∀ row ∈ rows, row.length = width

/-- A loss, or `⊤` after a division by zero, which gives no finite number. -/
abbrev Loss := WithTop ℚ

/-- A division by zero is not finite. -/
def divide (a : Loss) (b : ℚ) : Loss := if b = 0 then ⊤ else a.map (· / b)

/-- `total / count * dp_size`. -/
def ratio (total count : ℚ) (dpSize : ℕ) : Loss := (divide total count).map (· * dpSize)

/-- `masked_sum`: entries of weight zero are replaced before the product. -/
def maskedSum (values : List (ℚ × ℚ)) : ℚ :=
  (values.map fun v => (if v.2 ≠ 0 then v.1 else 0) * v.2).sum

variable (row : List Cell)

/-- The unmasked tokens of a row. -/
def rowTokens : ℚ := (row.map Cell.weight).sum

/-- The loss of a row, over its unmasked tokens. -/
def rowSum : ℚ := (row.map fun c => c.loss * c.weight).sum

/-- Whether a row has an unmasked token. -/
def seqMask : ℚ := if 0 < rowTokens row then 1 else 0

/-- A count that is given, or the own one on a single rank. -/
def globalCount (required : String) (dpSize : ℕ) (count : Option ℚ) (own : ℚ) : Except String ℚ :=
  match count with
  | some n => .ok n
  | none => if 1 < dpSize then .error (required ++ " is required when dp_size > 1") else .ok own

/-- The mean over the rows with an unmasked token. -/
def seqMean (mat : Mat Cell) (seqLosses : List Cell → ℚ) (dpSize : ℕ) (globalBatchSize : Option ℚ) :
    Except String Loss := do
  let size ← globalCount "global_batch_size" dpSize globalBatchSize (mat.rows.map seqMask).sum
  let total := maskedSum (mat.rows.map fun row => (seqLosses row, seqMask row))
  pure (ratio total size dpSize)

/-- `agg_loss` -/
def aggLoss (mat : Mat Cell) (mode : LossAggMode) (dpSize : ℕ)
    (batchNumTokens globalBatchSize lossScaleFactor : Option ℚ) : Except String Loss :=
  match mode with
  | .tokenMean => do
    let cells := mat.rows.flatten
    let tokens ← globalCount "(global) batch_num_tokens" dpSize batchNumTokens (cells.map Cell.weight).sum
    pure (ratio (maskedSum (cells.map fun c => (c.loss, c.weight))) tokens dpSize)
  | .seqMeanTokenSum => seqMean mat rowSum dpSize globalBatchSize
  | .seqMeanTokenSumNorm => do
    let loss ← seqMean mat rowSum dpSize globalBatchSize
    pure (divide loss (lossScaleFactor.getD mat.width))
  | .seqMeanTokenMean => seqMean mat (fun row => rowSum row / (rowTokens row + 1 / 10 ^ 8)) dpSize globalBatchSize

/-! ## One formula for the four modes -/

variable (mode : LossAggMode)
variable (row : List Cell)

/-- What a row adds in a mode. -/
def rowTerm : ℚ :=
  match mode with
  | .seqMeanTokenMean => rowSum row / (rowTokens row + 1 / 10 ^ 8)
  | _ => rowSum row

/-- What a row counts in a mode. -/
def rowCount : ℚ :=
  match mode with
  | .tokenMean => rowTokens row
  | _ => seqMask row

/-- What a mode divides by beside the count. -/
def horizon (lossScaleFactor : Option ℚ) (width : ℕ) : ℚ :=
  if mode = .seqMeanTokenSumNorm then lossScaleFactor.getD width else 1

/-- The divisor depends on the width only in norm mode without a scale factor. -/
theorem horizon_congr {mode : LossAggMode} {lossScaleFactor : Option ℚ} {width width' : ℕ}
    (h : mode = .seqMeanTokenSumNorm → lossScaleFactor = none → width = width') :
    horizon mode lossScaleFactor width = horizon mode lossScaleFactor width' := by
  unfold horizon
  split_ifs with hmode
  · cases lossScaleFactor with
    | none => rw [h hmode rfl]
    | some s => rfl
  · rfl

/-- A total over a count and a scale. -/
def average (total count scale : ℚ) : Loss :=
  if count = 0 ∨ scale = 0 then ⊤ else ((total / count / scale : ℚ) : Loss)

/-- A ratio that is divided again. -/
theorem divide_ratio (total count scale : ℚ) (dpSize : ℕ) :
    divide (ratio total count dpSize) scale = average (total * dpSize) count scale := by
  by_cases hzero : count = 0 ∨ scale = 0
  · rcases hzero with rfl | rfl <;> simp [divide, ratio, average]
  · obtain ⟨hcount, hscale⟩ := not_or.mp hzero
    simp only [divide, ratio, average, hcount, hscale, or_self, if_false]
    rw [mul_div_right_comm total]
    rfl

/-- A ratio as an average without a scale. -/
theorem ratio_eq (total count : ℚ) (dpSize : ℕ) :
    ratio total count dpSize = average (total * dpSize) count 1 := by
  by_cases hcount : count = 0 <;> simp [divide, ratio, average, hcount, mul_div_right_comm]

/-- Token counts are not negative. -/
theorem rowTokens_nonneg : 0 ≤ rowTokens row := by
  apply sum_nonneg
  simp only [mem_map]
  rintro _ ⟨c, -, rfl⟩
  unfold Cell.weight
  split_ifs <;> norm_num

/-- A row without unmasked tokens has no loss. -/
theorem rowSum_of_masked {row : List Cell} (h : ¬0 < rowTokens row) : rowSum row = 0 := by
  induction row with
  | nil => rfl
  | cons c row ih =>
    have hrest := rowTokens_nonneg row
    simp only [rowTokens, rowSum, map_cons, sum_cons] at h ih hrest ⊢
    cases hmask : c.mask with
    | true =>
      rw [Cell.weight, if_pos hmask] at h
      linarith
    | false =>
      have hzero : c.weight = 0 := by simp [Cell.weight, hmask]
      rw [hzero] at h ⊢
      rw [ih (by linarith)]
      simp

variable (rows : List (List Cell))

/-- Rows without unmasked tokens can be added, as they add nothing. -/
theorem maskedSum_rows {f : List Cell → ℚ} (h : ∀ row, ¬0 < rowTokens row → f row = 0) :
    maskedSum (rows.map fun row => (f row, seqMask row)) = (rows.map f).sum := by
  unfold maskedSum
  rw [map_map]
  congr 2
  funext row
  by_cases hrow : 0 < rowTokens row
  · simp [seqMask, hrow]
  · simp [seqMask, hrow, h row hrow]

/-- A sum over all tokens, row by row. -/
theorem maskedSum_cells : maskedSum (rows.flatten.map fun c => (c.loss, c.weight)) = (rows.map rowSum).sum := by
  have hcell (c : Cell) : (if c.weight ≠ 0 then c.loss else 0) * c.weight = c.loss * c.weight := by
    by_cases hzero : c.weight = 0 <;> simp [hzero]
  simp only [maskedSum, map_map, comp_def, hcell, map_flatten, sum_flatten]
  rfl

/-- A token count, row by row. -/
theorem weights_cells : (rows.flatten.map Cell.weight).sum = (rows.map rowTokens).sum := by
  simp only [map_flatten, sum_flatten, map_map]
  rfl

/-- The four modes as one average of row terms. -/
theorem aggLoss_eq (mat : Mat Cell) (mode : LossAggMode) (dpSize : ℕ) (counts : Option (ℚ × ℚ))
    (lossScaleFactor : Option ℚ) (h : counts = none → dpSize ≤ 1) :
    aggLoss mat mode dpSize (counts.map Prod.fst) (counts.map Prod.snd) lossScaleFactor =
      .ok (average ((mat.rows.map (rowTerm mode)).sum * dpSize)
        ((counts.map fun n => if mode = .tokenMean then n.1 else n.2).getD (mat.rows.map (rowCount mode)).sum)
        (horizon mode lossScaleFactor mat.width)) := by
  have hmasked {row : List Cell} (hrow : ¬0 < rowTokens row) :
      rowSum row / (rowTokens row + 1 / 10 ^ 8) = 0 := by
    rw [rowSum_of_masked hrow, zero_div]
  have hcount (required : String) (pick : ℚ × ℚ → ℚ) (own : ℚ) :
      globalCount required dpSize (counts.map pick) own = .ok ((counts.map pick).getD own) := by
    cases counts with
    | none => exact if_neg (not_lt.mpr (h rfl))
    | some n => rfl
  have hseq (f : List Cell → ℚ) (hf : ∀ row, ¬0 < rowTokens row → f row = 0) :
      seqMean mat f dpSize (counts.map Prod.snd) = .ok (ratio (mat.rows.map f).sum
        ((counts.map Prod.snd).getD (mat.rows.map seqMask).sum) dpSize) := by
    rw [seqMean, hcount, maskedSum_rows _ hf]
    rfl
  cases mode with
  | tokenMean =>
    simp only [horizon, aggLoss, hcount, maskedSum_cells, weights_cells, ratio_eq, reduceCtorEq, if_false,
      if_true]
    rfl
  | seqMeanTokenSum =>
    simp only [horizon, aggLoss, hseq _ fun _ => rowSum_of_masked, ratio_eq, reduceCtorEq, if_false]
    rfl
  | seqMeanTokenSumNorm =>
    simp only [horizon, aggLoss, hseq _ fun _ => rowSum_of_masked, reduceCtorEq, if_false, if_true]
    exact congrArg Except.ok (divide_ratio _ _ _ _)
  | seqMeanTokenMean =>
    simp only [horizon, aggLoss, hseq _ fun _ => hmasked, ratio_eq, reduceCtorEq, if_false]
    rfl

/-! ## Rows spread over ranks and micro-batches -/

/-- Rows that fit a width. -/
structure MicroBatch (α : Type) where
  width : ℕ
  rows : List (List α)
  fits : ∀ row ∈ rows, row.length ≤ width

/-- The rows padded to the width. -/
def MicroBatch.pad {α : Type} (b : MicroBatch α) (fill : α) : Mat α where
  width := b.width
  rows := b.rows.map fun row => row ++ List.replicate (b.width - row.length) fill
  rect := by
    simp only [mem_map]
    rintro _ ⟨row, hrow, rfl⟩
    have := b.fits row hrow
    simp only [length_append, length_replicate]
    omega

/-- Entries mapped one by one. -/
def Mat.map {α β : Type} (f : α → β) (m : Mat α) : Mat β :=
  ⟨m.width, m.rows.map (List.map f), by simpa using m.rect⟩

/-- Entries mapped one by one. -/
def MicroBatch.map {α β : Type} (f : α → β) (b : MicroBatch α) : MicroBatch β :=
  ⟨b.width, b.rows.map (List.map f), by simpa using b.fits⟩

/-- Mapping after padding. -/
theorem MicroBatch.map_pad {α β : Type} (f : α → β) (b : MicroBatch α) (fill : α) :
    (b.pad fill).map f = (b.map f).pad (f fill) := by
  simp [Mat.map, MicroBatch.map, MicroBatch.pad]

/-- Masked padding changes nothing in a row. -/
theorem pad_row {fill : Cell} (hfill : fill.mask = false) (n : ℕ) (row : List Cell) :
    rowTerm mode (row ++ List.replicate n fill) = rowTerm mode row ∧
      rowCount mode (row ++ List.replicate n fill) = rowCount mode row := by
  have hsum : rowSum (row ++ List.replicate n fill) = rowSum row := by
    simp [rowSum, Cell.weight, hfill]
  have htokens : rowTokens (row ++ List.replicate n fill) = rowTokens row := by
    simp [rowTokens, Cell.weight, hfill]
  cases mode <;> simp [rowTerm, rowCount, seqMask, hsum, htokens]

/-- The loss of a padded micro-batch. -/
theorem aggLoss_pad (b : MicroBatch Cell) (fill : Cell) (hfill : fill.mask = false) (mode : LossAggMode)
    (dpSize : ℕ) (counts : Option (ℚ × ℚ)) (lossScaleFactor : Option ℚ) (h : counts = none → dpSize ≤ 1) :
    aggLoss (b.pad fill) mode dpSize (counts.map Prod.fst) (counts.map Prod.snd) lossScaleFactor =
      .ok (average ((b.rows.map (rowTerm mode)).sum * dpSize)
        ((counts.map fun n => if mode = .tokenMean then n.1 else n.2).getD (b.rows.map (rowCount mode)).sum)
        (horizon mode lossScaleFactor b.width)) := by
  rw [aggLoss_eq _ _ _ _ _ h]
  simp only [MicroBatch.pad, map_map, comp_def, (pad_row mode hfill _ _).1,
    (pad_row mode hfill _ _).2]

/-- Gradients add up over the micro-batches of a rank and are averaged over ranks. -/
def meanOverRanks {α : Type} (loss : MicroBatch α → Except String Loss) (ranks : List (List (MicroBatch α))) :
    Except String Loss := do
  let sums ← ranks.mapM fun batches => do
    let losses ← batches.mapM loss
    pure losses.sum
  pure (divide sums.sum ranks.length)

/-- A function of the micro-batches can be applied before or in the loop. -/
theorem meanOverRanks_map {α β : Type} (loss : MicroBatch β → Except String Loss)
    (f : MicroBatch α → MicroBatch β) (ranks : List (List (MicroBatch α))) :
    meanOverRanks loss (ranks.map (·.map f)) = meanOverRanks (fun b => loss (f b)) ranks := by
  simp [meanOverRanks, mapM_map, comp_def]

/-- The mean over the ranks as one sum over all micro-batches. -/
theorem meanOverRanks_eq {α : Type} {loss : MicroBatch α → Except String Loss} {value : MicroBatch α → Loss}
    (h : ∀ b, loss b = .ok (value b)) (ranks : List (List (MicroBatch α))) :
    meanOverRanks loss ranks = .ok (divide (ranks.flatten.map value).sum ranks.length) := by
  have hloss : loss = fun b => pure (value b) := funext h
  simp only [meanOverRanks, hloss, mapM_pure, pure_bind, map_flatten, sum_flatten, map_map]
  rfl

/-- An average as one division. -/
theorem average_eq (total count scale : ℚ) :
    average total count scale = if count * scale = 0 then ⊤ else ((total * (count * scale)⁻¹ : ℚ) : Loss) := by
  rw [average, div_div, div_eq_mul_inv]
  simp only [mul_eq_zero]

/-- Micro-batches whose rows are summed and divided, each by its own divisor. -/
def spreadLoss {α : Type} (divisor : MicroBatch α → ℚ) (f : List α → ℚ) (batches : List (MicroBatch α)) : Loss :=
  if ∃ b ∈ batches, divisor b = 0 then ⊤
  else (((batches.map fun b => (b.rows.map f).sum * (divisor b)⁻¹).sum : ℚ) : Loss)

/-- A sum of averages is finite exactly if no divisor is zero. -/
theorem sum_averages {α : Type} (batches : List (MicroBatch α)) (f : List α → ℚ) (count scale : MicroBatch α → ℚ) :
    (batches.map fun b => average (b.rows.map f).sum (count b) (scale b)).sum =
      spreadLoss (fun b => count b * scale b) f batches := by
  unfold spreadLoss
  induction batches with
  | nil => simp
  | cons b rest ih =>
    rw [map_cons, sum_cons, ih, average_eq]
    by_cases hb : count b * scale b = 0
    · rw [if_pos hb, top_add, if_pos ⟨b, mem_cons_self, hb⟩]
    · simp only [mem_cons, exists_eq_or_imp, hb, false_or, if_false, map_cons, sum_cons]
      split_ifs
      · rfl
      · rw [WithTop.coe_add]

/-- A factor of all rows and all divisors cancels. -/
theorem spreadLoss_mul {α : Type} {k : ℚ} (hk : k ≠ 0) (divisor : MicroBatch α → ℚ) (f : List α → ℚ)
    (batches : List (MicroBatch α)) :
    spreadLoss (fun b => k * divisor b) (fun row => f row * k) batches = spreadLoss divisor f batches := by
  unfold spreadLoss
  simp only [mul_eq_zero, hk, false_or, sum_map_mul_right, mul_inv_rev, mul_assoc]
  simp only [mul_left_comm k, mul_inv_cancel₀ hk, mul_one]

section Spread

variable {α : Type} {ranks : List (List (MicroBatch α))} {whole : MicroBatch α}
  (hne : whole.rows ≠ []) (hrows : (ranks.flatten.flatMap (·.rows)).Perm whole.rows)
include hne hrows

/-- There is a micro-batch and a rank, as there is a row. -/
theorem flatten_ne_nil : ranks.flatten ≠ [] ∧ (ranks.length : ℚ) ≠ 0 := by
  have hsome : ranks.flatten ≠ [] := by
    intro hnil
    rw [hnil] at hrows
    exact hne hrows.nil_eq.symm
  refine ⟨hsome, Nat.cast_ne_zero.mpr fun hnil => hsome ?_⟩
  rw [length_eq_zero_iff.mp hnil, flatten_nil]

/-- The mean over the ranks of averages over rows. -/
theorem meanOverRanks_averages {loss : MicroBatch α → Except String Loss} {f : List α → ℚ}
    {count scale : MicroBatch α → ℚ}
    (hloss : ∀ b, loss b = .ok (average (b.rows.map f).sum (count b) (scale b))) :
    meanOverRanks loss ranks = .ok (spreadLoss (fun b => ranks.length * (count b * scale b)) f ranks.flatten) := by
  have hrank := (flatten_ne_nil hne hrows).2
  rw [meanOverRanks_eq hloss, sum_averages, divide, if_neg hrank]
  simp only [spreadLoss, mul_eq_zero, hrank, false_or]
  split_ifs
  · rfl
  · rw [WithTop.map_coe, div_eq_mul_inv, ← sum_map_mul_right]
    simp only [mul_inv_rev, mul_assoc]

omit hne in
/-- A sum over the rows of all micro-batches is the sum over the rows of the mini-batch. -/
theorem sum_rows (f : List α → ℚ) :
    (ranks.flatten.map fun b => (b.rows.map f).sum).sum = (whole.rows.map f).sum := by
  rw [← (hrows.map f).sum_eq, map_flatMap, flatMap_def, sum_flatten, map_map]
  rfl

omit hne in
/-- The rows can be spread if the divisors that count agree with that of the mini-batch. -/
theorem spreadLoss_eq {divisor divisor' : MicroBatch α → ℚ} {f : List α → ℚ}
    (hzero : (∃ b ∈ ranks.flatten, divisor b = 0) ↔ divisor' whole = 0)
    (hsame : divisor' whole ≠ 0 → ∀ b ∈ ranks.flatten, (b.rows.map f).sum ≠ 0 → divisor b = divisor' whole) :
    spreadLoss divisor f ranks.flatten = spreadLoss divisor' f [whole] := by
  simp only [spreadLoss, hzero, mem_singleton, exists_eq_left, map_singleton, sum_singleton]
  split_ifs with hwhole
  · rfl
  refine congrArg _ (Eq.trans (congrArg List.sum (map_congr_left fun b hb => ?_))
    ((sum_map_mul_right ..).trans (congrArg (· * (divisor' whole)⁻¹) (sum_rows hrows f))))
  by_cases hb0 : (b.rows.map f).sum = 0
  · rw [hb0, zero_mul, zero_mul]
  · rw [hsame hwhole b hb hb0]

end Spread

section Positions

variable {P : Type} {ranks : List (List (MicroBatch P))}

/-- A row function that is zero on the rows without a position picks the micro-batch of that position, as the
positions of the mini-batch are distinct. -/
theorem sum_eq_single (hnodup : (ranks.flatten.flatMap (·.rows)).flatten.Nodup) {b : MicroBatch P}
    (hb : b ∈ ranks.flatten) {row : List P} (hrow : row ∈ b.rows) {pos : P} (hpos : pos ∈ row) {f : List P → ℚ}
    (hf : ∀ row, pos ∉ row → f row = 0) (weight : MicroBatch P → ℚ) :
    (ranks.flatten.map fun b => (b.rows.map f).sum * weight b).sum = f row * weight b := by
  have hsum {β : Type} (g : β → ℚ) {l : List β} (h : ∀ x ∈ l, g x = 0) : (l.map g).sum = 0 := by
    rw [map_congr_left h]
    simp
  obtain ⟨before, after, hsplit⟩ := append_of_mem hb
  obtain ⟨above, below, hrows⟩ := append_of_mem hrow
  rw [hsplit] at hnodup ⊢
  simp only [flatMap_append, flatMap_cons, flatten_append, hrows, flatten_cons] at hnodup
  obtain ⟨-, hrest, hbefore⟩ := nodup_append.mp hnodup
  obtain ⟨hmid, -, hafter⟩ := nodup_append.mp hrest
  obtain ⟨-, hmid', habove⟩ := nodup_append.mp hmid
  obtain ⟨-, -, hbelow⟩ := nodup_append.mp hmid'
  have houtside (l : List (MicroBatch P)) (h : pos ∉ (l.flatMap (·.rows)).flatten) :
      (l.map fun b => (b.rows.map f).sum * weight b).sum = 0 := by
    refine hsum _ fun b' hb' => ?_
    rw [hsum f fun row' hrow' => hf row' fun hmem => h ?_, zero_mul]
    exact mem_flatten_of_mem (mem_flatMap_of_mem hb' hrow') hmem
  have hinside : (b.rows.map f).sum = f row := by
    rw [hrows, map_append, map_cons, sum_append, sum_cons, hsum f fun row' hrow' => hf row' fun hmem =>
      habove pos (mem_flatten_of_mem hrow' hmem) pos (mem_append_left _ hpos) rfl, hsum f fun row' hrow' =>
      hf row' fun hmem => hbelow pos hpos pos (mem_flatten_of_mem hrow' hmem) rfl, zero_add, add_zero]
  rw [map_append, map_cons, sum_append, sum_cons, hinside, houtside before, houtside after, zero_add, add_zero]
  · exact fun hmem => hafter pos (mem_append_right _ (mem_append_left _ hpos)) pos hmem rfl
  · exact fun hmem => hbefore pos hmem pos (mem_append_left _ (mem_append_right _ (mem_append_left _ hpos))) rfl

/-- For every loss of a family that can be zero but at the rows of one unmasked position, the rows can be spread
exactly if the divisors of all micro-batches with an unmasked position agree with that of the mini-batch. -/
theorem forall_spreadLoss_eq_iff {L : Type} [Nonempty L] {f : L → List P → ℚ} {mask : P → Bool} {whole : MicroBatch P}
    {divisor divisor' : MicroBatch P → ℚ} (hrows : (ranks.flatten.flatMap (·.rows)).Perm whole.rows)
    (hnodup : (ranks.flatten.flatMap (·.rows)).flatten.Nodup)
    (hpick : ∀ row, ∀ pos ∈ row, mask pos → ∃ loss, f loss row ≠ 0 ∧ ∀ row', pos ∉ row' → f loss row' = 0)
    (hmasked : ∀ loss row, (∀ pos ∈ row, ¬mask pos) → f loss row = 0) :
    (∀ loss, spreadLoss divisor (f loss) ranks.flatten = spreadLoss divisor' (f loss) [whole]) ↔
      ((∃ b ∈ ranks.flatten, divisor b = 0) ↔ divisor' whole = 0) ∧ (divisor' whole ≠ 0 →
        ∀ b ∈ ranks.flatten, ∀ row ∈ b.rows, ∀ pos ∈ row, mask pos → divisor b = divisor' whole) := by
  constructor
  · intro h
    have hfinite : (∃ b ∈ ranks.flatten, divisor b = 0) ↔ divisor' whole = 0 := by
      have heq := h (Classical.arbitrary L)
      rw [spreadLoss, spreadLoss] at heq
      refine ⟨fun hleft => ?_, fun hright => ?_⟩ <;> by_contra hnot
      · rw [if_pos hleft, if_neg (by simpa using hnot)] at heq
        exact WithTop.top_ne_coe heq
      · rw [if_neg hnot, if_pos (by simpa using hright)] at heq
        exact WithTop.coe_ne_top heq
    refine ⟨hfinite, fun hwhole b hb row hrow pos hpos hmask => ?_⟩
    obtain ⟨loss, hne, hpicked⟩ := hpick row pos hpos hmask
    have hmem : row ∈ whole.rows := hrows.mem_iff.mp (mem_flatMap_of_mem hb hrow)
    have hnodup' : ([[whole]].flatten.flatMap (·.rows)).flatten.Nodup := by
      simpa using hrows.flatten.nodup_iff.mp hnodup
    have hright := @sum_eq_single P [[whole]] hnodup' _ (by simp) _ hmem _ hpos _ hpicked fun b => (divisor' b)⁻¹
    have heq := h loss
    have hright' : [[whole]].flatten = [whole] := rfl
    rw [hright'] at hright
    rw [spreadLoss, spreadLoss, if_neg (hfinite.not.mpr hwhole), if_neg (by simpa using hwhole),
      sum_eq_single hnodup hb hrow hpos hpicked fun b => (divisor b)⁻¹, hright, WithTop.coe_inj] at heq
    exact inv_injective (mul_left_cancel₀ hne heq)
  · rintro ⟨hfinite, hsame⟩ loss
    refine spreadLoss_eq hrows hfinite fun hwhole b hb hsum => ?_
    by_contra hne
    refine hsum ?_
    rw [map_congr_left fun row hrow => hmasked loss row fun pos hpos hmask => hne ?_]
    · simp
    · exact hsame hwhole b hb row hrow pos hpos hmask

end Positions

/-! ## The policy loss -/

/-- The policy loss of a mini-batch, with the counts of the whole mini-batch. -/
def policyLoss (lossScaleFactor : Option ℚ) (fill : ℚ)
    (ranks : List (List (MicroBatch Cell))) : Except String Loss :=
  let rows := ranks.flatten.flatMap (·.rows)
  meanOverRanks (fun b => aggLoss (b.pad ⟨fill, false⟩) mode ranks.length (some (rows.map rowTokens).sum)
    (some rows.length) lossScaleFactor) ranks

variable {P : Type}

/-- The matrix entries at the positions of a micro-batch. -/
def cells (mask : P → Bool) (loss : P → ℚ) : MicroBatch P → MicroBatch Cell :=
  MicroBatch.map fun pos => ⟨loss pos, mask pos⟩

/-- What a row of positions adds in a mode. -/
def posTerm (mask : P → Bool) (loss : P → ℚ) (row : List P) : ℚ :=
  rowTerm mode (row.map fun pos => ⟨loss pos, mask pos⟩)

/-- A row without unmasked positions, or whose losses are zero, adds nothing. -/
theorem posTerm_eq_zero {mask : P → Bool} {loss : P → ℚ} {row : List P}
    (h : ∀ pos ∈ row, mask pos → loss pos = 0) : posTerm mode mask loss row = 0 := by
  have hsum : rowSum (row.map fun pos => ⟨loss pos, mask pos⟩) = 0 := by
    rw [rowSum, map_map, map_congr_left (g := fun _ => 0)]
    · simp
    · intro pos hpos
      by_cases hmask : mask pos <;> simp [Cell.weight, hmask]
      exact h pos hpos hmask
  cases mode <;> simp [posTerm, rowTerm, hsum]

/-- A loss that is positive at one unmasked position of a row and not negative elsewhere adds something. -/
theorem posTerm_ne_zero {mask : P → Bool} {loss : P → ℚ} {row : List P} {pos : P} (hpos : pos ∈ row)
    (hmask : mask pos) (hloss : 0 < loss pos) (hnonneg : ∀ pos, 0 ≤ loss pos) : posTerm mode mask loss row ≠ 0 := by
  have hsum : 0 < rowSum (row.map fun pos => ⟨loss pos, mask pos⟩) := by
    refine lt_of_lt_of_le hloss (single_le_sum ?_ _ (mem_map.mpr ⟨⟨loss pos, mask pos⟩, mem_map_of_mem hpos, ?_⟩))
    · simp only [mem_map]
      rintro _ ⟨_, ⟨pos, -, rfl⟩, rfl⟩
      exact mul_nonneg (hnonneg pos) (by unfold Cell.weight; split_ifs <;> norm_num)
    · simp [Cell.weight, hmask]
  have htokens := rowTokens_nonneg (row.map fun pos => (⟨loss pos, mask pos⟩ : Cell))
  cases mode <;> simp only [posTerm, rowTerm]
  · exact hsum.ne'
  · exact hsum.ne'
  · exact hsum.ne'
  · exact (div_pos hsum (by positivity)).ne'

/-- The policy loss as a sum over rows of positions. -/
theorem policyLoss_cells {lossScaleFactor : Option ℚ} {fill : ℚ} {mask : P → Bool} {loss : P → ℚ}
    {ranks : List (List (MicroBatch P))} {whole : MicroBatch P} (hne : whole.rows ≠ [])
    (hrows : (ranks.flatten.flatMap (·.rows)).Perm whole.rows) :
    policyLoss mode lossScaleFactor fill (ranks.map (·.map (cells mask loss))) = .ok (spreadLoss (fun b =>
      (if mode = .tokenMean then ((cells mask loss whole).rows.map rowTokens).sum else whole.rows.length) *
        horizon mode lossScaleFactor b.width) (posTerm mode mask loss) ranks.flatten) := by
  have hperm : ((ranks.map (·.map (cells mask loss))).flatten.flatMap (·.rows)).Perm (cells mask loss whole).rows := by
    rw [← map_flatten, flatMap_map]
    exact (Perm.of_eq (map_flatMap ..).symm).trans (hrows.map _)
  have hloss (b : MicroBatch P) := aggLoss_pad (cells mask loss b) ⟨fill, false⟩ rfl mode ranks.length
    (some (((cells mask loss whole).rows.map rowTokens).sum, (whole.rows.length : ℚ))) lossScaleFactor nofun
  have hterms (b : MicroBatch P) : ((cells mask loss b).rows.map (rowTerm mode)).sum * ranks.length =
      (b.rows.map fun row => posTerm mode mask loss row * ranks.length).sum := by
    rw [sum_map_mul_right, cells, MicroBatch.map, map_map]
    rfl
  simp only [Option.map_some, Option.getD_some, hterms] at hloss
  have hlength : (cells mask loss whole).rows.length = whole.rows.length := length_map _
  simp only [policyLoss, (hperm.map rowTokens).sum_eq, hperm.length_eq, length_map, hlength]
  rw [meanOverRanks_map, ← spreadLoss_mul (flatten_ne_nil hne hrows).2]
  exact meanOverRanks_averages hne hrows hloss

/-- For all losses at the positions of a mini-batch, the policy loss does not depend on how its rows are spread
over ranks and micro-batches and padded, exactly if no micro-batch is normalised by its own width, or if all with an
unmasked position have the width of the whole, and an empty width divides by zero on both sides or on none. -/
theorem policyLoss_invariant (lossScaleFactor : Option ℚ) (fill : ℚ) (mask : P → Bool)
    (ranks : List (List (MicroBatch P))) (whole : MicroBatch P) (hne : whole.rows ≠ [])
    (hrows : (ranks.flatten.flatMap (·.rows)).Perm whole.rows)
    (hnodup : (ranks.flatten.flatMap (·.rows)).flatten.Nodup) :
    (∀ loss : P → ℚ, policyLoss mode lossScaleFactor fill (ranks.map (·.map (cells mask loss))) =
      policyLoss mode lossScaleFactor fill [[cells mask loss whole]]) ↔
    (mode = .seqMeanTokenSumNorm → lossScaleFactor = none →
      ((∃ b ∈ ranks.flatten, b.width = 0) ↔ whole.width = 0) ∧
      ∀ b ∈ ranks.flatten, ∀ row ∈ b.rows, ∀ pos ∈ row, mask pos → b.width = whole.width) := by
  classical
  have hwhole (loss : P → ℚ) := @policyLoss_cells mode P lossScaleFactor fill mask loss [[whole]] whole hne (by simp)
  simp only [map_cons, map_nil] at hwhole
  have hsome := (flatten_ne_nil hne hrows).1
  by_cases hnorm : mode = .seqMeanTokenSumNorm ∧ lossScaleFactor = none
  · obtain ⟨rfl, rfl⟩ := hnorm
    have hcount : (whole.rows.length : ℚ) ≠ 0 := by simpa using hne
    simp only [policyLoss_cells _ hne hrows, hwhole, Except.ok.injEq, reduceCtorEq, if_false, forall_const]
    rw [show [[whole]].flatten = [whole] from rfl, @forall_spreadLoss_eq_iff P ranks (P → ℚ) _ _ mask _ _ _ hrows hnodup
      (fun row pos hpos hmask => ⟨Pi.single pos 1,
        posTerm_ne_zero _ hpos hmask (by simp) fun q => ?_, fun row' hnot => posTerm_eq_zero _ fun q hq _ => ?_⟩)
      fun loss row hnone => posTerm_eq_zero _ fun q hq hmask => absurd hmask (hnone q hq)]
    · simp only [horizon, if_true, Option.getD_none, mul_eq_zero, ne_eq, hcount, false_or, Nat.cast_eq_zero,
        mul_right_inj' hcount, Nat.cast_inj]
      refine and_congr_right fun hempty => ⟨fun h b hb row hrow pos hpos hmask => ?_, fun h _ => h⟩
      have hfits := whole.fits row (hrows.mem_iff.mp (mem_flatMap_of_mem hb hrow))
      have hpositive := length_pos_of_mem hpos
      exact h (by omega) b hb row hrow pos hpos hmask
    · by_cases hq : q = pos
      · simp [hq]
      · simp [hq]
    · rw [Pi.single_eq_of_ne]
      rintro rfl
      exact hnot hq
  · refine iff_of_true (fun loss => ?_) fun hmode hnone => absurd ⟨hmode, hnone⟩ hnorm
    have hsame (width : ℕ) : horizon mode lossScaleFactor width = horizon mode lossScaleFactor whole.width :=
      horizon_congr fun hmode hnone => absurd ⟨hmode, hnone⟩ hnorm
    rw [policyLoss_cells _ hne hrows, hwhole]
    refine congrArg _ (spreadLoss_eq hrows ?_ fun _ b _ _ => by rw [hsame])
    obtain ⟨first, hfirst⟩ := exists_mem_of_ne_nil _ hsome
    exact ⟨fun ⟨b, hb, h⟩ => hsame b.width ▸ h, fun h => ⟨first, hfirst, (hsame first.width).symm ▸ h⟩⟩

/-- Two rows of one and two positions, as two micro-batches and as one. -/
def unevenRows : List (MicroBatch ℕ) × MicroBatch ℕ :=
  ([⟨1, [[0]], by simp⟩, ⟨2, [[1, 2]], by simp⟩], ⟨2, [[0], [1, 2]], by simp⟩)

/-- A given scale makes the uneven rows agree. -/
theorem policyLoss_unevenRows :
    policyLoss .seqMeanTokenSumNorm (some 2) 0 ([unevenRows.1].map (·.map (cells (fun _ => true) (↑)))) =
      policyLoss .seqMeanTokenSumNorm (some 2) 0 [[cells (fun _ => true) (↑) unevenRows.2]] :=
  (policyLoss_invariant .seqMeanTokenSumNorm (some 2) 0 (fun _ => true) [unevenRows.1] unevenRows.2
    (cons_ne_nil _ _) (.refl _) (by decide)).mpr nofun (↑)

/-- Without one, each micro-batch is normalised by the length of its own longest response. -/
theorem policyLoss_depends_on_micro_batches :
    policyLoss .seqMeanTokenSumNorm none 0 ([unevenRows.1].map (·.map (cells (fun _ => true) fun _ => 1))) ≠
      policyLoss .seqMeanTokenSumNorm none 0 [[cells (fun _ => true) (fun _ => 1) unevenRows.2]] := by
  decide +kernel

/-! ## The critic loss -/

/-- A position of a batch of value predictions. -/
structure ValueCell where
  vpred : ℚ
  value : ℚ
  ret : ℚ
  mask : Bool

/-- `clip_by_value` -/
def clipByValue (x low high : ℚ) : ℚ := max (min x high) low

variable (cliprangeValue : ℚ)

/-- The clipped squared error at a position. -/
def ValueCell.cell (c : ValueCell) : Cell where
  loss := max ((c.vpred - c.ret) ^ 2)
    ((clipByValue c.vpred (c.value - cliprangeValue) (c.value + cliprangeValue) - c.ret) ^ 2)
  mask := c.mask

variable (mode : LossAggMode)

/-- The loss that `compute_value_loss` returns, beside the clip fraction, which is only reported. -/
def computeValueLoss (mat : Mat ValueCell) : Except String Loss := do
  let loss ← aggLoss (mat.map (ValueCell.cell cliprangeValue)) mode 1 none none none
  pure (loss.map (1 / 2 * ·))

/-- The critic loss of a mini-batch; the tensors are padded with zeros. -/
def valueLoss (ranks : List (List (MicroBatch ValueCell))) : Except String Loss :=
  meanOverRanks (fun b => computeValueLoss cliprangeValue mode (b.pad ⟨0, 0, 0, false⟩)) ranks

/-- What a mode counts in a micro-batch. -/
def valueCount (b : MicroBatch ValueCell) : ℚ :=
  (b.rows.map fun row => rowCount mode (row.map (ValueCell.cell cliprangeValue))).sum

/-- The loss of a micro-batch in closed form. -/
theorem computeValueLoss_eq (b : MicroBatch ValueCell) :
    computeValueLoss cliprangeValue mode (b.pad ⟨0, 0, 0, false⟩) =
      .ok (average (b.rows.map fun row => 1 / 2 * rowTerm mode (row.map (ValueCell.cell cliprangeValue))).sum
        (valueCount cliprangeValue mode b) (horizon mode none b.width)) := by
  have hagg := aggLoss_pad (b.map (ValueCell.cell cliprangeValue))
    (ValueCell.cell cliprangeValue ⟨0, 0, 0, false⟩) rfl mode 1 none none fun _ => le_rfl
  simp only [Option.map_none, Option.getD_none, MicroBatch.map, map_map, comp_def, Nat.cast_one,
    mul_one] at hagg
  rw [computeValueLoss, MicroBatch.map_pad, MicroBatch.map, hagg, sum_map_mul_left]
  unfold average valueCount
  split_ifs
  · rfl
  · rw [mul_div_assoc, mul_div_assoc]
    rfl

/-- The value prediction at each position. -/
structure Predictions (P : Type) where
  vpred : P → ℚ
  value : P → ℚ
  ret : P → ℚ

/-- The matrix entries at the positions of a micro-batch. -/
def Predictions.cells (d : Predictions P) (mask : P → Bool) : MicroBatch P → MicroBatch ValueCell :=
  MicroBatch.map fun pos => ⟨d.vpred pos, d.value pos, d.ret pos, mask pos⟩

/-- The clipped loss at each position. -/
def Predictions.loss (d : Predictions P) (pos : P) : ℚ :=
  (ValueCell.cell cliprangeValue ⟨d.vpred pos, d.value pos, d.ret pos, true⟩).loss

/-- What a mode counts in a micro-batch: unmasked positions, or rows that have one. -/
def maskCount (mask : P → Bool) (b : MicroBatch P) : ℚ :=
  (b.rows.map fun row => rowCount mode (row.map fun pos => ⟨0, mask pos⟩)).sum

/-- The critic loss as a sum over rows of positions. -/
theorem valueLoss_cells {mask : P → Bool} {d : Predictions P} {ranks : List (List (MicroBatch P))}
    {whole : MicroBatch P} (hne : whole.rows ≠ []) (hrows : (ranks.flatten.flatMap (·.rows)).Perm whole.rows) :
    valueLoss cliprangeValue mode (ranks.map (·.map (d.cells mask))) = .ok (spreadLoss
      (fun b => ranks.length * (maskCount mode mask b * horizon mode none b.width))
      (fun row => 1 / 2 * posTerm mode mask (d.loss cliprangeValue) row) ranks.flatten) := by
  have hcount (b : MicroBatch P) : valueCount cliprangeValue mode (d.cells mask b) = maskCount mode mask b := by
    have hrow (row : List P) : rowCount mode (row.map fun pos =>
        ValueCell.cell cliprangeValue ⟨d.vpred pos, d.value pos, d.ret pos, mask pos⟩) =
          rowCount mode (row.map fun pos => ⟨0, mask pos⟩) := by
      have htokens : rowTokens (row.map fun pos =>
          ValueCell.cell cliprangeValue ⟨d.vpred pos, d.value pos, d.ret pos, mask pos⟩) =
            rowTokens (row.map fun pos => ⟨0, mask pos⟩) := by
        simp [rowTokens, Cell.weight, ValueCell.cell, comp_def]
      cases mode <;> simp [rowCount, seqMask, htokens]
    simp [valueCount, maskCount, Predictions.cells, MicroBatch.map, comp_def, hrow]
  have hloss (b : MicroBatch P) := computeValueLoss_eq cliprangeValue mode (d.cells mask b)
  have hterms (b : MicroBatch P) : ((d.cells mask b).rows.map fun row =>
      1 / 2 * rowTerm mode (row.map (ValueCell.cell cliprangeValue))) =
        b.rows.map fun row => 1 / 2 * posTerm mode mask (d.loss cliprangeValue) row := by
    simp [Predictions.cells, MicroBatch.map, posTerm, Predictions.loss, ValueCell.cell, comp_def]
  simp only [hcount, hterms] at hloss
  rw [valueLoss, meanOverRanks_map]
  exact meanOverRanks_averages hne hrows hloss

/-- What a mode counts in a row with an unmasked position is positive. -/
theorem rowCount_pos {mask : P → Bool} {row : List P} (h : ∃ pos ∈ row, mask pos = true) :
    0 < rowCount mode (row.map fun pos => ⟨0, mask pos⟩) := by
  have htokens : 0 < rowTokens (row.map fun pos => ⟨0, mask pos⟩) := by
    obtain ⟨pos, hpos, hmask⟩ := h
    refine lt_of_lt_of_le one_pos (single_le_sum ?_ _ (mem_map.mpr ⟨⟨0, mask pos⟩, mem_map_of_mem hpos, ?_⟩))
    · simp only [mem_map]
      rintro _ ⟨c, -, rfl⟩
      unfold Cell.weight
      split_ifs <;> norm_num
    · simp [Cell.weight, hmask]
  cases mode <;> simp [rowCount, seqMask, htokens]

/-- The mini-batch divides by a positive number. -/
theorem divisor_ne_zero {mask : P → Bool} {whole : MicroBatch P} (hne : whole.rows ≠ [])
    (hmask : ∀ row ∈ whole.rows, ∃ pos ∈ row, mask pos = true) :
    maskCount mode mask whole * horizon mode none whole.width ≠ 0 := by
  obtain ⟨row, hrow⟩ := exists_mem_of_ne_nil _ hne
  have hcount : 0 < maskCount mode mask whole := by
    refine lt_of_lt_of_le (rowCount_pos mode (hmask row hrow)) (single_le_sum ?_ _ (mem_map_of_mem hrow))
    simp only [mem_map]
    rintro _ ⟨row', hrow', rfl⟩
    exact (rowCount_pos mode (hmask row' hrow')).le
  have hwidth : whole.width ≠ 0 := by
    obtain ⟨pos, hpos, -⟩ := hmask row hrow
    exact (lt_of_lt_of_le (length_pos_of_mem hpos) (whole.fits row hrow)).ne'
  refine mul_ne_zero hcount.ne' ?_
  unfold horizon
  split_ifs
  · simpa using hwidth
  · exact one_ne_zero

/-- A prediction that is wrong at one position only. -/
def onlyWrongAt [DecidableEq P] (pos : P) : Predictions P where
  vpred := Pi.single pos 1
  value _ := min cliprangeValue 0
  ret _ := 0

/-- Its loss is zero at the other positions, and positive there. -/
theorem onlyWrongAt_loss [DecidableEq P] (pos : P) :
    0 < (onlyWrongAt cliprangeValue pos).loss cliprangeValue pos ∧
      ∀ pos' ≠ pos, (onlyWrongAt cliprangeValue pos).loss cliprangeValue pos' = 0 := by
  refine ⟨lt_max_of_lt_left (by simp [onlyWrongAt]), fun pos' hne => ?_⟩
  have hclip : clipByValue 0 (min cliprangeValue 0 - cliprangeValue) (min cliprangeValue 0 + cliprangeValue) = 0 := by
    unfold clipByValue
    rcases le_total cliprangeValue 0 with hle | hle
    · rw [min_eq_left hle, sub_self, min_eq_right (by linarith), max_eq_right (by linarith)]
    · rw [min_eq_right hle, zero_sub, zero_add, min_eq_left hle, max_eq_left (by linarith)]
  simp [Predictions.loss, ValueCell.cell, onlyWrongAt, hne, hclip]

/-- For all predictions at the positions of a mini-batch each row of which has an unmasked one, the critic loss is
that of a single micro-batch exactly if the number of ranks times what a micro-batch divides by is what the single
one divides by, for every micro-batch. -/
theorem valueLoss_invariant (mask : P → Bool) (ranks : List (List (MicroBatch P))) (whole : MicroBatch P)
    (hne : whole.rows ≠ []) (hmask : ∀ row ∈ whole.rows, ∃ pos ∈ row, mask pos = true)
    (hrows : (ranks.flatten.flatMap (·.rows)).Perm whole.rows)
    (hnodup : (ranks.flatten.flatMap (·.rows)).flatten.Nodup) :
    (∀ d : Predictions P, valueLoss cliprangeValue mode (ranks.map (·.map (d.cells mask))) =
      valueLoss cliprangeValue mode [[d.cells mask whole]]) ↔
    ∀ b ∈ ranks.flatten, ranks.length * (maskCount mode mask b * horizon mode none b.width) =
      maskCount mode mask whole * horizon mode none whole.width := by
  classical
  have : Nonempty (Predictions P) := ⟨⟨0, 0, 0⟩⟩
  have hwhole (d : Predictions P) := @valueLoss_cells P cliprangeValue mode mask d [[whole]] whole hne (by simp)
  simp only [map_cons, map_nil, length_cons, length_nil, zero_add, Nat.cast_one, one_mul] at hwhole
  simp only [valueLoss_cells cliprangeValue mode hne hrows, hwhole, Except.ok.injEq]
  have hdivisor := divisor_ne_zero mode hne hmask
  have hpick (row : List P) (pos : P) (hpos : pos ∈ row) (hunmasked : mask pos = true) :
      ∃ d : Predictions P, 1 / 2 * posTerm mode mask (d.loss cliprangeValue) row ≠ 0 ∧
        ∀ row', pos ∉ row' → 1 / 2 * posTerm mode mask (d.loss cliprangeValue) row' = 0 := by
    obtain ⟨hwrong, hright⟩ := onlyWrongAt_loss cliprangeValue pos
    refine ⟨onlyWrongAt cliprangeValue pos, mul_ne_zero (by norm_num)
      (posTerm_ne_zero mode hpos hunmasked hwrong fun pos' => ?_), fun row' hnot => ?_⟩
    · by_cases heq : pos' = pos
      · exact heq ▸ hwrong.le
      · exact (hright pos' heq).ge
    · rw [posTerm_eq_zero mode fun pos' hpos' _ => hright pos' fun heq => hnot (heq ▸ hpos'), mul_zero]
  rw [show [[whole]].flatten = [whole] from rfl, forall_spreadLoss_eq_iff hrows hnodup hpick
    fun d row hnone => mul_eq_zero_of_right _
      (posTerm_eq_zero mode fun pos hpos hunmasked => absurd hunmasked (hnone pos hpos))]
  simp only [hdivisor, iff_false, not_exists, not_and, ne_eq, not_false_eq_true, true_implies]
  constructor
  · rintro ⟨hnonzero, hsame⟩ b hb
    -- a micro-batch without rows would divide by zero
    have hsome : b.rows ≠ [] := fun hempty => hnonzero b hb (by simp [maskCount, hempty])
    obtain ⟨row, hrow⟩ := exists_mem_of_ne_nil _ hsome
    obtain ⟨pos, hpos, hunmasked⟩ := hmask row (hrows.mem_iff.mp (mem_flatMap_of_mem hb hrow))
    exact hsame b hb row hrow pos hpos hunmasked
  · exact fun hsame => ⟨fun b hb hzero => hdivisor (hsame b hb ▸ hzero), fun b hb _ _ _ _ _ => hsame b hb⟩

/-- Two rows of one position, each a micro-batch, and the two as one. -/
def twoRows : MicroBatch ℕ × MicroBatch ℕ × MicroBatch ℕ :=
  (⟨1, [[0]], by simp⟩, ⟨1, [[1]], by simp⟩, ⟨1, [[0], [1]], by simp⟩)

def oddPredictions : Predictions ℕ := ⟨fun pos => 2 * pos + 1, fun _ => 0, fun _ => 0⟩

/-- One row on each of two ranks. -/
theorem valueLoss_twoRows :
    valueLoss 1 .tokenMean ([[twoRows.1], [twoRows.2.1]].map (·.map (oddPredictions.cells fun _ => true))) =
      valueLoss 1 .tokenMean [[oddPredictions.cells (fun _ => true) twoRows.2.2]] :=
  (valueLoss_invariant 1 .tokenMean (fun _ => true) [[twoRows.1], [twoRows.2.1]] twoRows.2.2 (cons_ne_nil _ _)
    (by decide) (.refl _) (by decide)).mpr (by decide +kernel) _

/-- The rows in turn on one rank add up to twice the loss, in every mode. -/
theorem valueLoss_depends_on_micro_batches :
    [LossAggMode.tokenMean, .seqMeanTokenSum, .seqMeanTokenSumNorm, .seqMeanTokenMean].Forall fun mode =>
      valueLoss 1 mode ([[twoRows.1, twoRows.2.1]].map (·.map (oddPredictions.cells fun _ => true))) ≠
        valueLoss 1 mode [[oddPredictions.cells (fun _ => true) twoRows.2.2]] := by
  refine ⟨?_, ?_, ?_, ?_⟩ <;> decide +kernel

/-! ## Supervised fine-tuning on packed sequences -/

section Packing

/-- A token and whether it is trained on. -/
structure SftToken (T : Type) where
  id : T
  lossMask : Bool
deriving DecidableEq

variable {T : Type} (logProb : List T → T → ℚ)

/-- The tokens that each position of a sequence attends to. -/
def contexts (seq : List (SftToken T)) : List (List T) := (seq.map (·.id)).inits.tail

/-- The log-prob of each next token of a packed batch, after the context of its own sequence. -/
def packedLogProbs (batch : List (List (SftToken T))) : List ℚ :=
  zipWith logProb (batch.flatMap contexts) ((batch.flatten.map (·.id)).rotate 1)

/-- The loss mask, rolled by one as the labels are. -/
def rolledLossMask (batch : List (List (SftToken T))) : List ℚ :=
  (batch.flatten.map fun token => if token.lossMask then 1 else 0).rotate 1

/-- `sft_loss` with `NO_PADDING` -/
def sftLoss (dpSize batchNumTokens : ℚ) (batch : List (List (SftToken T))) : ℚ :=
  -maskedSum ((packedLogProbs logProb batch).zip (rolledLossMask batch)) / batchNumTokens * dpSize

/-- What a token adds after a context. -/
def contribution (context : List T) (token : SftToken T) : ℚ :=
  if token.lossMask then logProb context token.id else 0

/-- The log-probs of the masked tokens of a sequence but the first. -/
def sequenceLogProb (seq : List (SftToken T)) : ℚ :=
  (zipWith (contribution logProb) (contexts seq) seq.tail).sum

/-- A sequence is not trained on its first token. -/
def FirstUnmasked (seq : List (SftToken T)) : Prop := ∀ token ∈ seq.head?, token.lossMask = false

instance (seq : List (SftToken T)) : Decidable (FirstUnmasked seq) :=
  inferInstanceAs (Decidable (∀ token ∈ seq.head?, token.lossMask = false))

variable {logProb}

/-- The masked sum of a packed batch, token by token. -/
theorem maskedSum_packed (batch : List (List (SftToken T))) :
    maskedSum ((packedLogProbs logProb batch).zip (rolledLossMask batch)) =
      (zipWith (contribution logProb) (batch.flatMap contexts) (batch.flatten.rotate 1)).sum := by
  rw [packedLogProbs, rolledLossMask, ← map_rotate, ← map_rotate, maskedSum]
  generalize batch.flatMap contexts = contexts
  generalize batch.flatten.rotate 1 = tokens
  congr 1
  induction contexts generalizing tokens with
  | nil => simp
  | cons context rest ih =>
    cases tokens with
    | nil => simp
    | cons token others =>
      cases hmask : token.lossMask <;> simpa [contribution, hmask] using ih others

/-- A token that is not trained on adds nothing at the end. -/
theorem sum_contributions_concat {next : SftToken T} (hnext : next.lossMask = false)
    (contexts : List (List T)) (tokens : List (SftToken T)) :
    (zipWith (contribution logProb) contexts (tokens ++ [next])).sum =
      (zipWith (contribution logProb) contexts tokens).sum := by
  induction tokens generalizing contexts with
  | nil => cases contexts <;> simp [contribution, hnext]
  | cons token rest ih =>
    cases contexts with
    | nil => rfl
    | cons context others => simpa using ih others

section Batch

variable {batch : List (List (SftToken T))} (hfirst : ∀ seq ∈ batch, FirstUnmasked seq)
include hfirst

/-- A packed batch of such sequences is not trained on its first token. -/
theorem firstUnmasked_flatten : FirstUnmasked batch.flatten := by
  induction batch with
  | nil => simp [FirstUnmasked]
  | cons seq rest ih =>
    cases seq with
    | nil => exact ih fun seq hseq => hfirst seq (mem_cons_of_mem _ hseq)
    | cons token others => exact fun first hhead => hfirst (token :: others) mem_cons_self first hhead

/-- The position before each sequence pairs with its first token, which adds nothing. -/
theorem sum_contributions {next : SftToken T} (hnext : next.lossMask = false) :
    (zipWith (contribution logProb) (batch.flatMap contexts) (batch.flatten ++ [next]).tail).sum =
      (batch.map (sequenceLogProb logProb)).sum := by
  induction batch with
  | nil => simp
  | cons seq rest ih =>
    have hrest : ∀ seq ∈ rest, FirstUnmasked seq := fun seq hseq => hfirst seq (mem_cons_of_mem _ hseq)
    specialize ih hrest
    cases seq with
    | nil => simpa [contexts, sequenceLogProb] using ih
    | cons token others =>
      -- the last position of the sequence is paired with the unmasked token after it
      obtain ⟨z, after, hafter, hz⟩ : ∃ z after, rest.flatten ++ [next] = z :: after ∧ z.lossMask = false := by
        cases hflat : rest.flatten with
        | nil => exact ⟨next, [], rfl, hnext⟩
        | cons z others => exact ⟨z, others ++ [next], rfl, firstUnmasked_flatten hrest z (by simp [hflat])⟩
      have hlength : (contexts (token :: others)).length = (others ++ [z]).length := by simp [contexts]
      rw [hafter, tail_cons] at ih
      rw [flatMap_cons, flatten_cons, cons_append, cons_append, tail_cons, append_assoc, hafter,
        ← singleton_append (l := after), ← append_assoc, zipWith_append hlength, sum_append,
        sum_contributions_concat hz, ih]
      rfl

/-- The loss of a packed batch is the scaled sum over its sequences. -/
theorem sftLoss_eq (dpSize batchNumTokens : ℚ) :
    sftLoss logProb dpSize batchNumTokens batch =
      -(dpSize / batchNumTokens) * (batch.map (sequenceLogProb logProb)).sum := by
  have hsum : (zipWith (contribution logProb) (batch.flatMap contexts) (batch.flatten.rotate 1)).sum =
      (batch.map (sequenceLogProb logProb)).sum := by
    cases hflat : batch.flatten with
    | nil =>
      have hempty : ∀ seq ∈ batch, seq = [] := flatten_eq_nil_iff.mp hflat
      have hzero : batch.map (sequenceLogProb logProb) = batch.map fun _ => 0 :=
        map_congr_left fun seq hseq => by rw [hempty seq hseq]; rfl
      simp [hzero]
    | cons first others =>
      rw [rotate_cons_succ, rotate_zero, ← sum_contributions hfirst
        (firstUnmasked_flatten hfirst first (by simp [hflat])), hflat]
      rfl
  rw [sftLoss, maskedSum_packed, hsum]
  ring

end Batch

/-- The number of masked tokens. -/
def maskedTokens (tokens : List (SftToken T)) : ℚ := (tokens.map fun token => if token.lossMask then 1 else 0).sum

/-- If every log-prob is one, the contributions count the masked tokens. -/
theorem sum_contributions_one {contexts : List (List T)} {tokens : List (SftToken T)}
    (h : tokens.length ≤ contexts.length) :
    (zipWith (contribution fun _ _ => 1) contexts tokens).sum = maskedTokens tokens := by
  induction tokens generalizing contexts with
  | nil => simp [maskedTokens]
  | cons token rest ih =>
    cases contexts with
    | nil => simp at h
    | cons context others =>
      simpa [contribution, maskedTokens] using ih (Nat.le_of_succ_le_succ h)

/-- Every position of a batch has a context. -/
theorem length_contexts (batch : List (List (SftToken T))) :
    (batch.flatMap contexts).length = batch.flatten.length := by
  simp [length_flatMap, length_flatten, contexts]

/-- The loss then counts the masked tokens of the batch, the first ones with the others. -/
theorem sftLoss_one (dpSize batchNumTokens : ℚ) (batch : List (List (SftToken T))) :
    sftLoss (fun _ _ => 1) dpSize batchNumTokens batch =
      -(dpSize / batchNumTokens) * (batch.map maskedTokens).sum := by
  have hperm : maskedTokens (batch.flatten.rotate 1) = (batch.map maskedTokens).sum := by
    rw [maskedTokens, ((rotate_perm _ 1).map _).sum_eq, map_flatten, sum_flatten, map_map]
    rfl
  rw [sftLoss, maskedSum_packed, sum_contributions_one (by rw [length_rotate, length_contexts]), hperm]
  ring

/-- The log-prob of a sequence counts its masked tokens but the first. -/
theorem sequenceLogProb_one (seq : List (SftToken T)) :
    maskedTokens seq = maskedTokens (seq.take 1) + sequenceLogProb (fun _ _ => 1) seq := by
  rw [sequenceLogProb, sum_contributions_one (by simp [contexts])]
  cases seq <;> simp [maskedTokens]

/-- However the sequences are packed, the losses of the micro-batches add up to the scaled log-probs of the
masked tokens, for every log-prob, exactly if no sequence is trained on its first token. -/
theorem sum_sftLoss {dpSize batchNumTokens : ℚ} (hdp : dpSize ≠ 0) (hcount : batchNumTokens ≠ 0)
    {seqs : List (List (SftToken T))} {batches : List (List (List (SftToken T)))}
    (hpacked : batches.flatten.Perm seqs) :
    (∀ logProb, (batches.map (sftLoss logProb dpSize batchNumTokens)).sum =
      -(dpSize / batchNumTokens) * (seqs.map (sequenceLogProb logProb)).sum) ↔
    ∀ seq ∈ seqs, FirstUnmasked seq := by
  have hspread (f : List (SftToken T) → ℚ) : (batches.map fun batch => (batch.map f).sum).sum = (seqs.map f).sum := by
    rw [← (hpacked.map _).sum_eq, map_flatten, sum_flatten, map_map]
    rfl
  constructor
  · intro h seq hseq
    have hone := h fun _ _ => 1
    rw [funext (sftLoss_one (T := T) dpSize batchNumTokens), sum_map_mul_left, hspread] at hone
    have hsums := mul_left_cancel₀ (neg_ne_zero.mpr (div_ne_zero hdp hcount)) hone
    rw [funext sequenceLogProb_one, sum_map_add, add_eq_right] at hsums
    have hnonneg : ∀ x ∈ seqs.map fun seq => maskedTokens (seq.take 1), 0 ≤ x := by
      simp only [mem_map]
      rintro _ ⟨seq, -, rfl⟩
      cases seq <;> simp [maskedTokens]
      split_ifs <;> norm_num
    have hle := (single_le_sum hnonneg _ (mem_map_of_mem hseq)).trans_eq hsums
    intro token htoken
    obtain ⟨rest, rfl⟩ : ∃ rest, seq = token :: rest := by
      cases seq <;> simp_all
    by_contra hmask
    norm_num [maskedTokens, Bool.eq_true_of_not_eq_false hmask] at hle
  · intro hfirst logProb
    have hloss : batches.map (sftLoss logProb dpSize batchNumTokens) =
        batches.map fun batch => -(dpSize / batchNumTokens) * (batch.map (sequenceLogProb logProb)).sum :=
      map_congr_left fun batch hbatch => sftLoss_eq
        (fun seq hseq => hfirst seq (hpacked.mem_iff.mp (mem_flatten_of_mem hbatch hseq))) _ _
    rw [hloss, sum_map_mul_left, hspread]

/-- A sequence that is trained on its second token, and one of a single token. -/
def twoSequences (mask : Bool) : List (List (SftToken ℕ)) := [[⟨1, false⟩, ⟨2, true⟩], [⟨3, mask⟩]]

/-- If the single token is not trained on, the losses add up. -/
theorem sum_sftLoss_two : ([twoSequences false].map (sftLoss (fun context _ => -context.length) 1 1)).sum =
    -(1 / 1) * ((twoSequences false).map (sequenceLogProb fun context _ => -context.length)).sum :=
  (sum_sftLoss one_ne_zero one_ne_zero (by simp)).mpr (by decide) _

/-- If the second sequence is trained on its only token, that token is scored after the first sequence. -/
theorem sum_sftLoss_first_masked :
    ([twoSequences true].map (sftLoss (fun context _ => -context.length) 1 1)).sum = 3 ∧
      -(1 / 1) * ((twoSequences true).map (sequenceLogProb fun context _ => -context.length)).sum = 1 := by
  decide +kernel

end Packing

end VllmPs.Verl
