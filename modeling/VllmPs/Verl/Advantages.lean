import Mathlib
import VllmPs.PowerSMC.Manager

/-!
# Advantage estimators of the trainer

Generalized advantage estimation carries the value and the advantage of the next token that the policy has
written, so observation tokens drop out. The group-relative estimators come as a loop and as a computation
by counting, which differ for a row that is alone in its group.
-/

namespace VllmPs.Verl

open List Function

/-! ## Generalized advantage estimation -/

/-- A position of a response. -/
structure ResponseToken where
  reward : ℚ
  value : ℚ
  mask : Bool
deriving DecidableEq

/-- The variables of the loop; the advantages stand in the order of the positions. -/
structure GaeState where
  nextvalues : ℚ := 0
  lastgaelam : ℚ := 0
  advantages : List ℚ := []

variable (gamma lam : ℚ)

/-- One round of the loop, which goes from the last position to the first. -/
def gaeRound (token : ResponseToken) (s : GaeState) : GaeState :=
  let mask : ℚ := if token.mask then 1 else 0
  let delta := token.reward + gamma * s.nextvalues - token.value
  let lastgaelam' := delta + gamma * lam * s.lastgaelam
  let lastgaelam := lastgaelam' * mask + (1 - mask) * s.lastgaelam
  { nextvalues := token.value * mask + (1 - mask) * s.nextvalues
    lastgaelam := lastgaelam
    advantages := lastgaelam :: s.advantages }

/-- The `returns` of `compute_gae_advantage_return` for one row; whitening the advantages comes after
and does not affect them. -/
def gaeReturns (row : List ResponseToken) : List ℚ :=
  zipWith (· + ·) (row.foldr (gaeRound gamma lam) {}).advantages (row.map (·.value))

/-- The generalized advantage estimates of a sequence, with nothing after its last position. -/
def gae : List ResponseToken → List ℚ
  | [] => []
  | token :: rest =>
    let delta := token.reward + gamma * (rest.head?.map (·.value)).getD 0 - token.value
    (delta + gamma * lam * (gae rest).head?.getD 0) :: gae rest

/-- The positions that the policy has written. -/
def kept (row : List ResponseToken) : List ResponseToken := row.filter (·.mask)

variable {gamma lam} {row row' : List ResponseToken} {token : ResponseToken}

variable (gamma lam) in
/-- The loop carries the value and the estimate of the next kept position. -/
theorem foldr_gaeRound (row : List ResponseToken) :
    (row.foldr (gaeRound gamma lam) {}).nextvalues = ((kept row).head?.map (·.value)).getD 0 ∧
      (row.foldr (gaeRound gamma lam) {}).lastgaelam = (gae gamma lam (kept row)).head?.getD 0 := by
  induction row with
  | nil => exact ⟨rfl, rfl⟩
  | cons token rest ih =>
    cases hmask : token.mask with
    | false => simpa [gaeRound, kept, hmask] using ih
    | true =>
      obtain ⟨hvalue, hadvantage⟩ := ih
      simp only [kept] at hvalue hadvantage
      simp [gaeRound, kept, gae, hmask, hvalue, hadvantage]

variable (gamma lam) in
/-- At a kept position the loop writes the estimate of the sequence of kept positions. -/
theorem advantages_kept {t : ℕ} (ht : row[t]? = some token) (hmask : token.mask = true) :
    ∃ a, (row.foldr (gaeRound gamma lam) {}).advantages[t]? = some a ∧
      (gae gamma lam (kept row))[(kept (row.take t)).length]? = some a := by
  induction row generalizing t with
  | nil => simp at ht
  | cons first rest ih =>
    cases t with
    | zero =>
      obtain rfl : first = token := by simpa using ht
      obtain ⟨hvalue, hadvantage⟩ := foldr_gaeRound gamma lam rest
      simp only [kept] at hvalue hadvantage
      simp [gaeRound, kept, gae, hmask, hvalue, hadvantage]
    | succ t =>
      obtain ⟨a, ha, hkept⟩ := ih (by simpa using ht)
      refine ⟨a, by simpa [gaeRound] using ha, ?_⟩
      cases hfirst : first.mask <;> simpa [kept, hfirst, gae] using hkept

/-- Rows that agree at kept positions have the same kept positions. -/
theorem kept_congr (h : Forall₂ (fun a b => a.mask = b.mask ∧ (a.mask = true → a = b)) row row') :
    kept row = kept row' := by
  induction h with
  | nil => rfl
  | @cons a b _ _ hab _ ih =>
    cases hm : a.mask with
    | false => simpa [kept, hm, ← hab.1] using ih
    | true => simpa [kept, hm, ← hab.2 hm] using ih

/-- At a kept position the return minus the value is the estimate of the sequence of kept positions,
and rows that differ at deleted positions only have the same returns at kept positions. -/
theorem gaeReturns_kept {t : ℕ} (ht : row[t]? = some token) (hmask : token.mask = true) :
    (∃ r, (gaeReturns gamma lam row)[t]? = some r ∧
      (gae gamma lam (kept row))[(kept (row.take t)).length]? = some (r - token.value)) ∧
    ∀ row', Forall₂ (fun a b => a.mask = b.mask ∧ (a.mask = true → a = b)) row row' →
      (gaeReturns gamma lam row')[t]? = (gaeReturns gamma lam row)[t]? := by
  have hreturn {row} (ht : row[t]? = some token) : ∃ r, (gaeReturns gamma lam row)[t]? = some r ∧
      (gae gamma lam (kept row))[(kept (row.take t)).length]? = some (r - token.value) := by
    obtain ⟨a, ha, hkept⟩ := advantages_kept gamma lam ht hmask
    exact ⟨a + token.value, by simp [gaeReturns, getElem?_zipWith, ha, ht], by simpa using hkept⟩
  refine ⟨hreturn ht, fun row' hagree => ?_⟩
  have ht' : row'[t]? = some token := by
    have hlt := (List.getElem?_eq_some_iff.mp ht).1
    have hlt' : t < row'.length := hagree.length_eq ▸ hlt
    have hsame := (hagree.get hlt hlt').2
    simp only [get_eq_getElem, (List.getElem?_eq_some_iff.mp ht).2] at hsame
    rw [getElem?_eq_getElem hlt', ← hsame hmask]
  obtain ⟨r, hr, ha⟩ := hreturn ht
  obtain ⟨r', hr', ha'⟩ := hreturn ht'
  rw [← kept_congr hagree, ← kept_congr (forall₂_take t hagree), ha, Option.some.injEq, sub_left_inj] at ha'
  rw [hr, hr', ha']

/-- An observation between two tokens of the policy. -/
theorem gaeReturns_kept_gap : ∃ r,
    (gaeReturns 1 1 [⟨1, 2, true⟩, ⟨7, 9, false⟩, ⟨3, 4, true⟩])[0]? = some r ∧
      (gae 1 1 [⟨1, 2, true⟩, ⟨3, 4, true⟩])[0]? = some (r - 2) :=
  (@gaeReturns_kept 1 1 _ ⟨1, 2, true⟩ 0 rfl rfl).1

/-- The discounted rewards of a sequence. -/
def rewardToGo (gamma : ℚ) : List ResponseToken → ℚ
  | [] => 0
  | token :: rest => token.reward + gamma * rewardToGo gamma rest

/-- Without a decay the carried value and estimate add up to the discounted rewards. -/
theorem foldr_gaeRound_one (gamma : ℚ) (row : List ResponseToken) :
    (row.foldr (gaeRound gamma 1) {}).lastgaelam + (row.foldr (gaeRound gamma 1) {}).nextvalues =
      rewardToGo gamma (kept row) := by
  induction row with
  | nil => exact add_zero 0
  | cons token rest ih =>
    cases hmask : token.mask
    · simpa [gaeRound, kept, hmask] using ih
    · simp only [foldr_cons, gaeRound, kept, hmask, filter_cons_of_pos, rewardToGo, if_true]
      rw [← kept, ← ih]
      ring

/-- Without a decay the return at a kept position is the sum of the discounted rewards of the kept positions from
there on, whatever the values are. -/
theorem gaeReturns_eq_rewardToGo (gamma : ℚ) {t : ℕ} (ht : row[t]? = some token) (hmask : token.mask = true) :
    (gaeReturns gamma 1 row)[t]? = some (rewardToGo gamma (kept (row.drop t))) := by
  induction row generalizing t with
  | nil => simp at ht
  | cons first rest ih =>
    cases t with
    | zero =>
      obtain rfl : first = token := by simpa using ht
      have h := foldr_gaeRound_one gamma (first :: rest)
      simp only [foldr_cons, gaeRound, hmask, if_true] at h
      simp only [gaeReturns, foldr_cons, gaeRound, hmask, if_true, map_cons, zipWith_cons_cons,
        getElem?_cons_zero, drop_zero, ← h]
      ring_nf
    | succ t => exact ih (by simpa using ht)

/-- An observation between two tokens of the policy. -/
theorem gaeReturns_eq_rewardToGo_gap :
    (gaeReturns (1 / 2) 1 [⟨1, 2, true⟩, ⟨7, 9, false⟩, ⟨3, 4, true⟩])[0]? = some (5 / 2) := by
  have hfirst : ([⟨1, 2, true⟩, ⟨7, 9, false⟩, ⟨3, 4, true⟩] : List ResponseToken)[0]? = some ⟨1, 2, true⟩ := rfl
  exact (gaeReturns_eq_rewardToGo (1 / 2) hfirst rfl).trans (by decide +kernel)

/-! ## Estimators relative to a group -/

/-- A response with its rewards, its mask and the label of its group. -/
structure OutcomeRow (L : Type) where
  rewards : List ℚ
  responseMask : List ℚ
  label : L

variable {L : Type}

/-- `token_level_rewards.sum(dim=-1)` -/
def OutcomeRow.score (row : OutcomeRow L) : ℚ := row.rewards.sum

/-- `scores.unsqueeze(-1) * response_mask` -/
def OutcomeRow.spread (row : OutcomeRow L) (scalar : ℚ) : List ℚ := row.responseMask.map (scalar * ·)

variable (rows : List (OutcomeRow L))

/-- The place of a label among the sorted distinct ones. -/
def place [LinearOrder L] (index : List L) (label : L) : ℕ := (index.dedup.mergeSort (· ≤ ·)).idxOf label

section Loop

variable [DecidableEq L]

/-- The dictionary of lists to which the first loop appends the scores. -/
def id2score : L → List ℚ :=
  rows.foldl (fun d row => update d row.label (d row.label ++ [row.score])) fun _ => []

/-- `id2mean[idx]` -/
def id2mean (idx : L) : ℚ :=
  let scores := id2score rows idx
  if scores.length = 1 then 0 else scores.sum / scores.length

/-- `compute_rloo_outcome_advantage` -/
def computeRlooOutcomeAdvantage : List (List ℚ) :=
  rows.map fun row =>
    let responseNum : ℚ := (id2score rows row.label).length
    row.spread (if responseNum > 1 then
      row.score * responseNum / (responseNum - 1) - id2mean rows row.label * responseNum / (responseNum - 1)
    else row.score)

end Loop

section Vectorized

variable {C : Type} [DecidableEq C]

variable [LinearOrder L]

end Vectorized

variable {rows}

/-- The scores of the rows with a label. -/
def groupScores [DecidableEq L] (rows : List (OutcomeRow L)) (idx : L) : List ℚ :=
  (rows.filter (·.label = idx)).map (·.score)

/-- The dictionary holds the scores of each group. -/
theorem id2score_eq [DecidableEq L] (idx : L) : id2score rows idx = groupScores rows idx := by
  have hfold (d : L → List ℚ) : rows.foldl (fun (d : L → List ℚ) row =>
      update d row.label (d row.label ++ [row.score])) d idx = d idx ++ groupScores rows idx := by
    induction rows generalizing d with
    | nil => simp [groupScores]
    | cons row rest ih =>
      rw [foldl_cons, ih]
      rcases eq_or_ne row.label idx with rfl | hne
      · simp [groupScores]
      · simp [groupScores, hne, update_of_ne hne.symm]
  exact hfold _

section Codes

variable {C : Type} [DecidableEq C] {code : L → C} {row : OutcomeRow L}
variable [DecidableEq L]

variable (hcode : ∀ a ∈ rows, code a.label = code row.label → a.label = row.label)
include hcode

end Codes

/-- The leave-one-out advantage of a row is its score minus the mean score of the other rows of its group. -/
theorem rloo_eq_sub_mean_others [DecidableEq L] (before after : List (OutcomeRow L)) (row : OutcomeRow L)
    (hothers : groupScores (before ++ after) row.label ≠ []) :
    (computeRlooOutcomeAdvantage (before ++ row :: after))[before.length]? =
      some (row.spread (row.score - (groupScores (before ++ after) row.label).sum /
        (groupScores (before ++ after) row.label).length)) := by
  have hperm : (groupScores (before ++ row :: after) row.label).Perm
      (row.score :: groupScores (before ++ after) row.label) := by
    rw [groupScores, groupScores, filter_append, filter_cons_of_pos (by simp), filter_append]
    exact perm_middle.map _
  have hn : ((groupScores (before ++ after) row.label).length : ℚ) ≠ 0 :=
    Nat.cast_ne_zero.mpr (length_pos_iff.mpr hothers).ne'
  rw [computeRlooOutcomeAdvantage, getElem?_map, getElem?_append_right le_rfl, Nat.sub_self, getElem?_cons_zero,
    Option.map_some, id2mean, id2score_eq, hperm.length_eq, hperm.sum_eq]
  generalize groupScores (before ++ after) row.label = others at *
  have hpos := length_pos_iff.mpr hothers
  simp only [length_cons, sum_cons, Nat.cast_succ, add_sub_cancel_right]
  rw [if_pos (by simpa using hpos), if_neg (by omega)]
  refine congrArg (fun scalar => some (row.spread scalar)) ?_
  have hn' : (others.length : ℚ) + 1 ≠ 0 := by positivity
  field_simp
  ring

/-- Two rows of one group with a row of another group between them. -/
theorem rloo_eq_sub_mean_others_pair :
    (computeRlooOutcomeAdvantage [⟨[1], [1], "a"⟩, ⟨[9], [1], "b"⟩, ⟨[3], [1, 0], "a"⟩])[2]? = some [2, 0] := by
  have h := rloo_eq_sub_mean_others [⟨[1], [1], "a"⟩, ⟨[9], [1], "b"⟩] [] ⟨[3], [1, 0], "a"⟩ (by decide)
  exact h.trans (by decide +kernel)

variable [LinearOrder L]

/-- What a row is beside its rewards. -/
def OutcomeRow.shape (row : OutcomeRow L) : L × List ℚ := (row.label, row.responseMask)

/-- If all labels are cast, none becomes negative, and the code of a row with an unmasked position is that of its
label only. -/
def Distinguishes (toInt64 : L → Option ℤ) (rows : List (OutcomeRow L)) : Prop :=
  ∀ codes, (rows.map (·.label)).mapM toInt64 = some codes → (∀ code ∈ codes, 0 ≤ code) ∧
    ∀ row ∈ rows, (∃ m ∈ row.responseMask, m ≠ 0) →
      ∀ a ∈ rows, toInt64 a.label = toInt64 row.label → a.label = row.label

omit [LinearOrder L] in
/-- The condition does not depend on the rewards. -/
theorem Distinguishes.congr {toInt64 : L → Option ℤ} {rows' : List (OutcomeRow L)} (h : Distinguishes toInt64 rows)
    (hshape : rows'.map (·.shape) = rows.map (·.shape)) : Distinguishes toInt64 rows' := by
  have hlabels : rows'.map (·.label) = rows.map (·.label) := by
    simpa [OutcomeRow.shape, comp_def] using congrArg (List.map Prod.fst) hshape
  have hmem {a : OutcomeRow L} (ha : a ∈ rows') : ∃ b ∈ rows, b.label = a.label ∧ b.responseMask = a.responseMask := by
    have hin : a.shape ∈ rows.map (·.shape) := hshape ▸ mem_map_of_mem ha
    simpa [OutcomeRow.shape] using hin
  intro codes hcodes
  obtain ⟨hnonneg, hinj⟩ := h codes (hlabels ▸ hcodes)
  refine ⟨hnonneg, fun row hrow hmask a ha heq => ?_⟩
  obtain ⟨row', hrow', hlabel, hmask'⟩ := hmem hrow
  obtain ⟨a', ha', halabel, -⟩ := hmem ha
  rw [← hlabel, ← halabel] at heq ⊢
  exact hinj row' hrow' (hmask' ▸ hmask) a' ha' heq

end VllmPs.Verl
