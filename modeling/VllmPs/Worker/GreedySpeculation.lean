import Mathlib.Tactic

/-!
# Greedy speculative decoding

The rejection sampler on the greedy requests of a batch. A draft is accepted if it is the token that the target
model ranks first, so the tokens that a request receives, whatever its drafts, are those of plain greedy decoding.
-/

namespace VllmPs.Worker

open List

/-- What `rejection_sample` gives to `rejection_greedy_sample_kernel`. -/
structure GreedyBatch where
  cuNumDraftTokens : List ℕ
  draftTokenIds : List ℤ
  targetArgmax : List ℤ
  bonusTokenIds : List ℤ
  isGreedy : Option (List Bool) := none
  maxSpecLen : ℕ
  /-- The uniform probabilities and the conditional rates of synthetic mode. -/
  synthetic : Option (List ℚ × List ℚ) := none

/-- `PLACEHOLDER_TOKEN_ID` -/
def placeholderTokenId : ℤ := -1

namespace GreedyBatch

variable (b : GreedyBatch) (reqIdx : ℕ)

def startIdx : ℕ := if reqIdx = 0 then 0 else b.cuNumDraftTokens.getD (reqIdx - 1) 0

def numDraftTokens : ℕ := b.cuNumDraftTokens.getD reqIdx 0 - b.startIdx reqIdx

/-- One position of the loop: the row that is written, and `rejected`. -/
def samplePosition (s : List ℤ × Bool) (pos : ℕ) : List ℤ × Bool :=
  if s.2 then s
  else
    let draftTokenId := b.draftTokenIds.getD (b.startIdx reqIdx + pos) 0
    let targetArgmaxId := b.targetArgmax.getD (b.startIdx reqIdx + pos) 0
    match b.synthetic with
    | some (uniformProbs, rates) =>
      let accepted := decide (uniformProbs.getD (b.startIdx reqIdx + pos) 0 < rates.getD pos 0)
      (s.1.set pos (if accepted then draftTokenId else targetArgmaxId), !accepted)
    | none => (s.1.set pos targetArgmaxId, decide (draftTokenId ≠ targetArgmaxId))

/-- `rejection_greedy_sample_kernel` on the row of one request. -/
def rejectionGreedySampleKernel (row : List ℤ) : List ℤ :=
  if b.isGreedy.all (·.getD reqIdx false) = false then row
  else
    let s := (range (b.numDraftTokens reqIdx)).foldl (b.samplePosition reqIdx) (row, false)
    if s.2 then s.1 else s.1.set (b.numDraftTokens reqIdx) (b.bonusTokenIds.getD reqIdx 0)

/-- `parse_output` on the row of a request that is not discarded. -/
def parseOutput (vocabSize : ℕ) (row : List ℤ) : List ℤ :=
  row.filter fun id => decide (id ≠ placeholderTokenId) && decide (id < vocabSize)

/-- The tokens that a step gives to a request. -/
def sampled (vocabSize : ℕ) : List ℤ :=
  parseOutput vocabSize (b.rejectionGreedySampleKernel reqIdx (replicate (b.maxSpecLen + 1) placeholderTokenId))

/-- The batch holds the drafts of a greedy request after a context, and what the target model ranks first after
the context and each of them. -/
structure Holds (argmax : List ℤ → ℤ) (context drafts : List ℤ) : Prop where
  synthetic : b.synthetic = none
  greedy : b.isGreedy.all (·.getD reqIdx false) = true
  numDrafts : b.numDraftTokens reqIdx = drafts.length
  le_maxSpecLen : drafts.length ≤ b.maxSpecLen
  draft : ∀ i < drafts.length, b.draftTokenIds.getD (b.startIdx reqIdx + i) 0 = drafts.getD i 0
  target : ∀ i < drafts.length, b.targetArgmax.getD (b.startIdx reqIdx + i) 0 = argmax (context ++ drafts.take i)
  bonus : b.bonusTokenIds.getD reqIdx 0 = argmax (context ++ drafts)

end GreedyBatch

/-! ## Plain greedy decoding -/

/-- `n` tokens of plain decoding. `argmax` is the token that the target model ranks first after a context. -/
def greedyDecode (argmax : List ℤ → ℤ) : List ℤ → ℕ → List ℤ
  | _, 0 => []
  | context, n + 1 => argmax context :: greedyDecode argmax (context ++ [argmax context]) n

variable {argmax : List ℤ → ℤ} {vocabSize : ℕ} {context : List ℤ}

theorem greedyDecode_add (context : List ℤ) (m n : ℕ) : greedyDecode argmax context (m + n) =
    greedyDecode argmax context m ++ greedyDecode argmax (context ++ greedyDecode argmax context m) n := by
  induction m generalizing context with
  | zero => simp [greedyDecode]
  | succ m ih => simp [Nat.succ_add, greedyDecode, ih]

theorem mem_greedyDecode {n : ℕ} {id : ℤ} (h : id ∈ greedyDecode argmax context n) :
    ∃ context', id = argmax context' := by
  induction n generalizing context with
  | zero => cases h
  | succ n ih => exact (mem_cons.mp h).elim (fun h => ⟨context, h⟩) fun h => ih h

/-! ## One step -/

namespace GreedyBatch

variable {b : GreedyBatch} {reqIdx : ℕ}

theorem foldl_rejected (row : List ℤ) (positions : List ℕ) :
    positions.foldl (b.samplePosition reqIdx) (row, true) = (row, true) := by
  induction positions with
  | nil => rfl
  | cons pos positions ih => exact ih

/-- A position that is reached takes the token of the target model, which rejects any other draft. -/
theorem samplePosition_reached (hsynthetic : b.synthetic = none) (out : List ℤ) (n : ℕ) :
    b.samplePosition reqIdx (out ++ replicate (n + 1) placeholderTokenId, false) out.length =
      let target := b.targetArgmax.getD (b.startIdx reqIdx + out.length) 0
      (out ++ [target] ++ replicate n placeholderTokenId,
        decide (b.draftTokenIds.getD (b.startIdx reqIdx + out.length) 0 ≠ target)) := by
  simp [samplePosition, hsynthetic, replicate_succ]

/-- The loop from the position on before which the row holds `out`. -/
theorem foldl_samplePosition (hsynthetic : b.synthetic = none) (drafts context out : List ℤ)
    (hdraft : ∀ i < drafts.length, b.draftTokenIds.getD (b.startIdx reqIdx + (out.length + i)) 0 = drafts.getD i 0)
    (htarget : ∀ i < drafts.length,
      b.targetArgmax.getD (b.startIdx reqIdx + (out.length + i)) 0 = argmax (context ++ drafts.take i)) (m : ℕ) :
    let s := (range' out.length drafts.length).foldl (b.samplePosition reqIdx)
      (out ++ replicate (drafts.length + m + 1) placeholderTokenId, false)
    ∃ k ≤ drafts.length, ∃ m, (if s.2 then s.1 else s.1.set (out.length + drafts.length) (argmax (context ++ drafts))) =
      out ++ greedyDecode argmax context (k + 1) ++ replicate m placeholderTokenId := by
  induction drafts generalizing context out with
  | nil =>
    refine ⟨0, le_rfl, m, ?_⟩
    simp [greedyDecode, replicate_succ]
  | cons draft drafts ih =>
    have hdraft' := hdraft 0 (Nat.succ_pos _)
    have htarget' := htarget 0 (Nat.succ_pos _)
    rw [Nat.add_zero] at hdraft' htarget'
    intro s
    have hs : s = (range' (out.length + 1) drafts.length).foldl (b.samplePosition reqIdx)
        (out ++ [argmax context] ++ replicate (drafts.length + m + 1) placeholderTokenId,
          decide (draft ≠ argmax context)) := by
      change (range' (out.length + 1) drafts.length).foldl _ (b.samplePosition reqIdx _ out.length) = _
      rw [length_cons, Nat.add_right_comm _ 1 m, samplePosition_reached hsynthetic, hdraft', htarget']
      simp
    rw [hs]
    by_cases heq : draft = argmax context
    · obtain ⟨k, hk, m', hrow⟩ := ih (context ++ [argmax context]) (out ++ [argmax context])
        (fun i hi => by
          rw [length_append, Nat.add_assoc, Nat.add_comm _ i]
          exact hdraft (i + 1) (Nat.succ_lt_succ hi))
        (fun i hi => by
          rw [length_append, Nat.add_assoc, Nat.add_comm _ i, append_assoc, singleton_append, ← heq]
          exact htarget (i + 1) (Nat.succ_lt_succ hi))
      refine ⟨k + 1, Nat.succ_le_succ hk, m', ?_⟩
      rw [decide_eq_false (not_not.mpr heq), greedyDecode]
      simp only [append_assoc, singleton_append, length_append, length_singleton, Nat.add_assoc,
        Nat.add_comm 1] at hrow ⊢
      rwa [heq, length_cons]
    · refine ⟨0, Nat.zero_le _, drafts.length + m + 1, ?_⟩
      rw [decide_eq_true heq, foldl_rejected]
      rfl

/-- A step gives a request between one and `drafts.length + 1` tokens of plain decoding. -/
theorem Holds.sampled (hvocab : ∀ context, 0 ≤ argmax context ∧ argmax context < vocabSize) {drafts : List ℤ}
    (h : b.Holds reqIdx argmax context drafts) :
    ∃ k ≤ drafts.length, b.sampled reqIdx vocabSize = greedyDecode argmax context (k + 1) := by
  obtain ⟨m, hm⟩ := Nat.exists_eq_add_of_le h.le_maxSpecLen
  obtain ⟨k, hk, m', hrow⟩ := foldl_samplePosition h.synthetic drafts context []
    (by simpa only [length_nil, Nat.zero_add] using h.draft)
    (by simpa only [length_nil, Nat.zero_add] using h.target) m
  refine ⟨k, hk, ?_⟩
  rw [nil_append, nil_append, length_nil, Nat.zero_add, ← range_eq_range'] at hrow
  rw [GreedyBatch.sampled, rejectionGreedySampleKernel, if_neg (by rw [h.greedy]; decide), h.numDrafts, h.bonus,
    hm, hrow, parseOutput, filter_append]
  have hpadding : (replicate m' placeholderTokenId).filter
      (fun id => decide (id ≠ placeholderTokenId) && decide (id < vocabSize)) = [] := by simp
  rw [hpadding, append_nil]
  refine filter_eq_self.mpr fun id hid => ?_
  obtain ⟨context', rfl⟩ := mem_greedyDecode hid
  obtain ⟨hnonneg, hlt⟩ := hvocab context'
  have hne : argmax context' ≠ -1 := by omega
  simp [placeholderTokenId, hne, hlt]

end GreedyBatch

/-! ## Runs -/

/-- What a greedy request receives in a number of steps, each with a batch that holds it and any drafts. -/
inductive SpeculativeRun (argmax : List ℤ → ℤ) (vocabSize : ℕ) : List ℤ → ℕ → List ℤ → Prop
  | nil {context : List ℤ} : SpeculativeRun argmax vocabSize context 0 []
  | step {b : GreedyBatch} {reqIdx n : ℕ} {context drafts tokens : List ℤ}
      (h : b.Holds reqIdx argmax context drafts)
      (rest : SpeculativeRun argmax vocabSize (context ++ b.sampled reqIdx vocabSize) n tokens) :
      SpeculativeRun argmax vocabSize context (n + 1) (b.sampled reqIdx vocabSize ++ tokens)

/-- Whatever the drafts and the other requests of its batches, a greedy request receives the tokens of plain
greedy decoding, at least one in each step. -/
theorem SpeculativeRun.eq_greedyDecode (hvocab : ∀ context, 0 ≤ argmax context ∧ argmax context < vocabSize)
    {n : ℕ} {tokens : List ℤ} (h : SpeculativeRun argmax vocabSize context n tokens) :
    ∃ m, n ≤ m ∧ tokens = greedyDecode argmax context m := by
  induction h with
  | nil => exact ⟨0, le_rfl, rfl⟩
  | step h _ ih =>
    obtain ⟨k, -, hnew⟩ := h.sampled hvocab
    obtain ⟨m, hm, rfl⟩ := ih
    refine ⟨k + 1 + m, by omega, ?_⟩
    rw [greedyDecode_add, ← hnew]

/-- The target model counts up. Of three drafts after another request's draft it accepts the first. -/
theorem SpeculativeRun.eq_greedyDecode_counting :
    let b : GreedyBatch := ⟨[1, 4], [7, 1, 5, 3], [4, 1, 2, 3], [9, 4], none, 3, none⟩
    b.sampled 1 10 = [1, 2] ∧
      ∃ m, 1 ≤ m ∧ [1, 2] = greedyDecode (fun context => context.length % 10) [0] m := by
  intro b
  refine ⟨by decide +kernel, ?_⟩
  have hholds : b.Holds 1 (fun context => context.length % 10) [0] [1, 5, 3] :=
    ⟨rfl, rfl, rfl, by decide, by decide, by decide, rfl⟩
  have hrun : SpeculativeRun _ 10 [0] 1 (b.sampled 1 10 ++ []) := .step hholds .nil
  exact hrun.eq_greedyDecode fun context => ⟨by omega, by omega⟩

end VllmPs.Worker
