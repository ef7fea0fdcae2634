import Mathlib.Tactic

/-!
# Speculative decoding

Drafts are checked at indices that are cumulative sums over the requests of a batch, spread over their tokens.
Read request by request, each of them is an interval.
-/

namespace VllmPs.Worker

open List

/-- `np.cumsum`, continued from `start`. -/
def cumsum (start : ℕ) : List ℕ → List ℕ
  | [] => []
  | n :: counts => (start + n) :: cumsum (start + n) counts

/-- `np.repeat` -/
def npRepeat (values counts : List ℕ) : List ℕ := (zipWith replicate counts values).flatten

/-- `_get_cumsum_and_arange`: the sums, and what `arange_out` holds then. An empty batch has no last sum. -/
def getCumsumAndArange (numTokens arangeOut : List ℕ) : Option (List ℕ × List ℕ) := do
  let cuNumTokens := cumsum 0 numTokens
  let totalNumTokens ← cuNumTokens.getLast?
  let cumsumsOffsets := npRepeat (zipWith (· - ·) cuNumTokens numTokens) numTokens
  return (cuNumTokens, zipWith (· - ·) (range totalNumTokens) cumsumsOffsets ++ arangeOut.drop totalNumTokens)

/-- A draft is `none` where its index is out of range. -/
structure SpecDecodeMetadata (Token : Type) where
  draftTokenIds : List (Option Token)
  numDraftTokens : List ℕ
  cuNumDraftTokens : List ℕ
  cuNumSampledTokens : List ℕ
  targetLogitsIndices : List ℕ
  bonusLogitsIndices : List ℕ
  logitsIndices : List ℕ

/-- `_calc_spec_decode_metadata`; `scratch` is what `_arange_scratch` holds before. -/
def calcSpecDecodeMetadata {Token : Type} (inputIds : ℕ → Token)
    (scratch numDraftTokens cuNumScheduledTokens : List ℕ) : Option (SpecDecodeMetadata Token) := do
  let numSampledTokens := numDraftTokens.map (· + 1)
  let (cuNumSampledTokens, scratch) ← getCumsumAndArange numSampledTokens scratch
  let logitsIndices := zipWith (· + ·)
    (npRepeat (zipWith (· - ·) cuNumScheduledTokens numSampledTokens) numSampledTokens)
    (scratch.take (← cuNumSampledTokens.getLast?))
  let bonusLogitsIndices := cuNumSampledTokens.map (· - 1)
  let (cuNumDraftTokens, scratch) ← getCumsumAndArange numDraftTokens scratch
  let targetLogitsIndices := zipWith (· + ·)
    (npRepeat (zipWith (· - ·) cuNumSampledTokens numSampledTokens) numDraftTokens)
    (scratch.take (← cuNumDraftTokens.getLast?))
  let draftTokenIds := logitsIndices.map inputIds
  let draftTokenIds := targetLogitsIndices.map fun i => draftTokenIds[i + 1]?
  return { draftTokenIds, numDraftTokens, cuNumDraftTokens, cuNumSampledTokens, targetLogitsIndices,
           bonusLogitsIndices, logitsIndices }

structure ScheduledDrafts where
  scheduled : ℕ
  drafts : ℕ
  lt : drafts < scheduled

variable {R Token : Type} {f g h : R → ℕ}

theorem getLast?_cumsum {counts : List ℕ} (hcounts : counts ≠ []) (start : ℕ) :
    (cumsum start counts).getLast? = some (start + counts.sum) := by
  induction counts generalizing start with
  | nil => exact absurd rfl hcounts
  | cons n counts ih =>
    cases counts with
    | nil => rfl
    | cons m counts =>
      rw [cumsum, cumsum, getLast?_cons_cons, ← cumsum, ih nofun, Nat.add_assoc, ← sum_cons]

theorem getElem?_cumsum (start : ℕ) (before after : List R) (r : R) :
    (cumsum start ((before ++ r :: after).map f))[before.length]? = some (start + (before.map f).sum + f r) := by
  induction before generalizing start with
  | nil => rfl
  | cons b before ih =>
    rw [cons_append, map_cons, cumsum, length_cons, getElem?_cons_succ, ih, map_cons, sum_cons,
      Nat.add_assoc start]

theorem arange_eq (start : ℕ) (counts : List ℕ) :
    zipWith (· - ·) (range' start counts.sum) (npRepeat (zipWith (· - ·) (cumsum start counts) counts) counts) =
      counts.flatMap range := by
  induction counts generalizing start with
  | nil => rfl
  | cons n counts ih =>
    rw [sum_cons, ← range'_append_1, cumsum, zipWith_cons_cons, npRepeat, zipWith_cons_cons, flatten_cons,
      zipWith_append (by simp), flatMap_cons]
    congr 1
    · exact List.ext_getElem (by simp) (by simp)
    · exact ih (start + n)

theorem getCumsumAndArange_eq {counts : List ℕ} (hcounts : counts ≠ []) (out : List ℕ) :
    getCumsumAndArange counts out = some (cumsum 0 counts, counts.flatMap range ++ out.drop counts.sum) := by
  simp [getCumsumAndArange, getLast?_cumsum hcounts, range_eq_range', arange_eq]

/-- The intervals of the requests: each starts `g` before the end of the sums of `f`, and has the length `h`. -/
def spread (f g h : R → ℕ) (start : ℕ) : List R → List ℕ
  | [] => []
  | r :: l => range' (start + f r - g r) (h r) ++ spread f g h (start + f r) l

theorem spread_eq (start : ℕ) (l : List R) :
    zipWith (· + ·) (npRepeat (zipWith (· - ·) (cumsum start (l.map f)) (l.map g)) (l.map h))
      ((l.map h).flatMap range) = spread f g h start l := by
  induction l generalizing start with
  | nil => rfl
  | cons r l ih =>
    rw [map_cons, map_cons, map_cons, cumsum, zipWith_cons_cons, npRepeat, zipWith_cons_cons, flatten_cons,
      flatMap_cons, zipWith_append (by simp), spread]
    congr 1
    · exact List.ext_getElem (by simp) (by simp)
    · exact ih (start + f r)

theorem length_spread (start : ℕ) (l : List R) : (spread f g h start l).length = (l.map h).sum := by
  induction l generalizing start with
  | nil => rfl
  | cons r l ih => simp [spread, ih]

theorem getElem?_spread (start : ℕ) (before after : List R) (r : R) {i : ℕ} (hi : i < h r) :
    (spread f g h start (before ++ r :: after))[(before.map h).sum + i]? =
      some (start + (before.map f).sum + f r - g r + i) := by
  induction before generalizing start with
  | nil => simp [spread, getElem?_append_left, hi]
  | cons b before ih => simp [spread, getElem?_append_right, Nat.add_assoc, ih]

theorem target_bonus_perm (start : ℕ) (l : List R) :
    (spread (h · + 1) (h · + 1) h start l ++ (cumsum start (l.map (h · + 1))).map (· - 1)).Perm
      (range' start (l.map (h · + 1)).sum) := by
  induction l generalizing start with
  | nil => rfl
  | cons r l ih =>
    have hrest := ih (start + (h r + 1))
    rw [spread, map_cons, cumsum, map_cons, sum_cons, ← range'_append_1, range'_concat, Nat.add_sub_cancel,
      append_assoc, append_assoc, Nat.one_mul, ← Nat.add_assoc start, Nat.add_sub_cancel]
    exact (perm_middle.trans (hrest.cons _)).append_left _

theorem calcSpecDecodeMetadata_eq (inputIds : ℕ → Token) (scratch : List ℕ) {l : List ScheduledDrafts}
    (hl : l ≠ []) :
    calcSpecDecodeMetadata inputIds scratch (l.map (·.drafts)) (cumsum 0 (l.map (·.scheduled))) =
      let logits := spread (·.scheduled) (·.drafts + 1) (·.drafts + 1) 0 l
      let targets := spread (·.drafts + 1) (·.drafts + 1) (·.drafts) 0 l
      let sampled := cumsum 0 (l.map (·.drafts + 1))
      some ⟨targets.map fun i => (logits.map inputIds)[i + 1]?, l.map (·.drafts), cumsum 0 (l.map (·.drafts)),
        sampled, targets, sampled.map (· - 1), logits⟩ := by
  have harange (counts out : List ℕ) : (counts.flatMap range ++ out).take counts.sum = counts.flatMap range :=
    take_left' (by simp)
  have hne (f : ScheduledDrafts → ℕ) : l.map f ≠ [] := by simpa using hl
  simp only [calcSpecDecodeMetadata, map_map, Function.comp_def, getCumsumAndArange_eq (hne _),
    Option.bind_eq_bind, getLast?_cumsum (hne _), Option.bind_some, Nat.zero_add, harange, spread_eq]
  rfl

/-- The drafts of each request are the last tokens scheduled for it, the target row of a draft is the row of the
position before it, and the bonus row that of the last position. Each row is the target of one draft, or the bonus
row of one request. -/
theorem calcSpecDecodeMetadata_checks (inputIds : ℕ → Token) (scratch : List ℕ)
    (before after : List ScheduledDrafts) (r : ScheduledDrafts) :
    ∃ m, calcSpecDecodeMetadata inputIds scratch ((before ++ r :: after).map (·.drafts))
        (cumsum 0 ((before ++ r :: after).map (·.scheduled))) = some m ∧
      (∀ k : Fin r.drafts, ∃ row,
        m.draftTokenIds[(before.map (·.drafts)).sum + k]? =
          some (some (inputIds ((before.map (·.scheduled)).sum + (r.scheduled - r.drafts + k)))) ∧
        m.targetLogitsIndices[(before.map (·.drafts)).sum + k]? = some row ∧
        m.logitsIndices[row]? = some ((before.map (·.scheduled)).sum + (r.scheduled - r.drafts + k) - 1)) ∧
      (∃ row, m.bonusLogitsIndices[before.length]? = some row ∧
        m.logitsIndices[row]? = some ((before.map (·.scheduled)).sum + r.scheduled - 1)) ∧
      m.draftTokenIds.length = m.targetLogitsIndices.length ∧
      (m.targetLogitsIndices ++ m.bonusLogitsIndices).Perm (range m.logitsIndices.length) := by
  have hlt := r.lt
  have hrow (i : ℕ) (hi : i < r.drafts + 1) :=
    getElem?_spread (f := (·.scheduled)) (g := (·.drafts + 1)) (h := (·.drafts + 1)) 0 before after r hi
  refine ⟨_, calcSpecDecodeMetadata_eq inputIds scratch (by simp), fun k => ?_, ?_, length_map _, ?_⟩
  · have htarget := getElem?_spread (f := (·.drafts + 1)) (g := (·.drafts + 1)) 0 before after r k.isLt
    rw [Nat.add_sub_cancel] at htarget
    refine ⟨_, ?_, htarget, ?_⟩
    · rw [getElem?_map, htarget, Option.map_some, getElem?_map, Nat.zero_add, Nat.add_assoc, hrow _ (by omega),
        Option.map_some]
      congr 3
      omega
    · rw [Nat.zero_add, hrow _ (by omega)]
      congr 1
      omega
  · refine ⟨(before.map (·.drafts + 1)).sum + r.drafts, ?_, ?_⟩
    · rw [getElem?_map, getElem?_cumsum, Nat.zero_add]
      rfl
    · rw [hrow _ (Nat.lt_succ_self _)]
      congr 1
      omega
  · rw [length_spread, range_eq_range']
    exact target_bonus_perm 0 _

end VllmPs.Worker
