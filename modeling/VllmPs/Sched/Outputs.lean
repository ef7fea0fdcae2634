import VllmPs.Lib.Transition
import VllmPs.Sched.State

/-!
# What processing an output can do

The part of `update_from_output` about one request is a function of the request and of its
output. The request goes on, is finished, or waits for the next input of its session.
-/

namespace VllmPs

open Lib Scheduler

variable {H F : Type}

namespace Request

variable {blockHasher : Option (BlockHasher H)} {r r' : Request H F}
variable {maxModelLen : ℕ}

/-! ## The request -/

/-- `check_stop` changes the status and the stop reason of a request that it stops. -/
theorem checkStop_spec {stopped : Bool} (h : r.checkStop maxModelLen = .ok (r', stopped)) :
    (stopped = false ∧ r' = r) ∨ (stopped = true ∧ ∃ status stopReason, status.isFinished = true ∧
      r' = { r with status := status, stopReason := stopReason }) := by
  unfold checkStop at h
  by_cases hpooling : r.pooling = true
  · simp [if_pos hpooling] at h
  rw [if_neg hpooling] at h
  by_cases hmin : r.numOutputTokens < r.samplingParams.minTokens
  · rw [if_pos hmin] at h
    cases h
    exact Or.inl ⟨rfl, rfl⟩
  rw [if_neg hmin] at h
  cases hlast : r.outputTokenIds.getLast? with
  | none =>
    simp [hlast] at h
  | some lastTokenId =>
    rw [hlast] at h
    dsimp only at h
    split_ifs at h
    all_goals obtain ⟨rfl, rfl⟩ := ok_mk_inj h
    · exact Or.inr ⟨rfl, _, _, rfl, rfl⟩
    · exact Or.inr ⟨rfl, _, _, rfl, rfl⟩
    · exact Or.inr ⟨rfl, _, _, rfl, rfl⟩
    · exact Or.inr ⟨rfl, _, _, rfl, rfl⟩
    · exact Or.inl ⟨rfl, rfl⟩

def extend (r : Request H F) (kept : List Token) (blockHashes : List H) (status : RequestStatus)
    (stopReason : Option StopReason) : Request H F :=
  { r with
    allTokenIds := r.allTokenIds ++ kept
    outputTokenIds := r.outputTokenIds ++ kept
    blockHashes := blockHashes
    status := status
    stopReason := stopReason }

theorem extend_extend (r : Request H F) (kept kept' : List Token) (hashes hashes' : List H)
    (status status' : RequestStatus) (reason reason' : Option StopReason) :
    (r.extend kept hashes status reason).extend kept' hashes' status' reason' =
      r.extend (kept ++ kept') hashes' status' reason' := by
  simp only [extend, List.append_assoc]

theorem appendOutputTokenIds_eq (blockHasher : Option (BlockHasher H)) (r : Request H F)
    (tokenIds : List Token) :
    ∃ hashes, r.appendOutputTokenIds blockHasher tokenIds = r.extend tokenIds hashes r.status r.stopReason := by
  cases blockHasher with
  | none => exact ⟨_, rfl⟩
  | some hasher => exact ⟨_, rfl⟩

/-- The tokens are appended until one stops the request. -/
theorem updateWithOutput_spec {tokens kept : List Token} {stopped : Bool}
    (h : r.updateWithOutput blockHasher maxModelLen tokens = .ok (r', kept, stopped)) :
    ∃ hashes status reason, r' = r.extend kept hashes status reason ∧ kept <+: tokens ∧
      (stopped = false → status = r.status ∧ kept = tokens) ∧
      (stopped = true → status.isFinished = true ∧ kept ≠ []) := by
  induction tokens generalizing r kept with
  | nil =>
    obtain ⟨rfl, hrest⟩ := ok_mk_inj h
    cases hrest
    refine ⟨r.blockHashes, r.status, r.stopReason, ?_, List.nil_prefix, fun _ => ⟨rfl, rfl⟩, nofun⟩
    simp only [extend, List.append_nil]
  | cons token rest ih =>
    obtain ⟨⟨checked, stops⟩, hcheck, h⟩ := bind_eq_ok.mp h
    obtain ⟨hashes, happend⟩ := appendOutputTokenIds_eq blockHasher r [token]
    rw [happend] at hcheck
    have hspec := checkStop_spec hcheck
    cases stops with
    | true =>
      obtain ⟨rfl, hrest⟩ := ok_mk_inj h
      cases hrest
      obtain ⟨-, status, stopReason, hfinished, rfl⟩ := hspec.resolve_left (by simp)
      exact ⟨hashes, status, stopReason, rfl, ⟨rest, rfl⟩, nofun, fun _ => ⟨hfinished, by simp⟩⟩
    | false =>
      obtain ⟨-, rfl⟩ := hspec.resolve_right (by simp)
      obtain ⟨⟨last, keptRest, stops⟩, hothers, hret⟩ := bind_pure_eq_ok.mp h
      obtain ⟨rfl, hrest⟩ := Prod.mk.inj hret
      cases hrest
      obtain ⟨hashes', status, reason, rfl, hprefixed, hgoes, hstops⟩ := ih hothers
      refine ⟨hashes', status, reason, extend_extend .., (List.cons_prefix_cons).mpr ⟨rfl, hprefixed⟩,
        fun hfalse => ?_, fun htrue => ⟨(hstops htrue).1, by simp⟩⟩
      obtain ⟨hstatus, rfl⟩ := hgoes hfalse
      exact ⟨hstatus, rfl⟩

/-- What `_update_request_with_output` does to the request. -/
def receiveTokens (config : SchedulerConfig) (blockHasher : Option (BlockHasher H)) (r : Request H F)
    (newTokenIds : List Token) : Except PyError (Request H F × List Token × Bool) :=
  if config.asyncScheduling = false then r.updateWithOutput blockHasher config.maxModelLen newTokenIds
  else if r.asyncTokensToDiscard > 0 then
    .ok ({ r with asyncTokensToDiscard := r.asyncTokensToDiscard - 1 }, [], false)
  else do
    let updated ← r.updateWithOutput blockHasher config.maxModelLen newTokenIds
    let numOutputPlaceholders := r.numOutputPlaceholders - updated.2.1.length
    if numOutputPlaceholders < 0 then throw .negativePlaceholders
    return ({ updated.1 with numOutputPlaceholders := numOutputPlaceholders }, updated.2)

/-- What `update_from_output` makes of an output of the request: its sampled tokens or its pooled result. -/
def receiveOutput (config : SchedulerConfig) (blockHasher : Option (BlockHasher H))
    (output : RequestOutput F) (r : Request H F) : Except PyError (Request H F × List Token × Bool) :=
  if output.sampledTokenIds ≠ [] then r.receiveTokens config blockHasher output.sampledTokenIds
  else if r.pooling && output.hasPoolerOutput then .ok ({ r with status := .finishedStopped }, [], true)
  else .ok (r, [], false)

/-- What may change in a request that receives an output, besides its tokens. -/
structure Counters where
  resumable : Bool
  asyncTokensToDiscard : ℤ
  numOutputPlaceholders : ℤ
  numComputedTokens : ℤ

/-- Other counters. -/
def withCounters (r : Request H F) (c : Counters) : Request H F :=
  { r with
    resumable := c.resumable
    asyncTokensToDiscard := c.asyncTokensToDiscard
    numOutputPlaceholders := c.numOutputPlaceholders
    numComputedTokens := c.numComputedTokens }

theorem rejectDraftTokens_eq (drafts generated : List Token) (r : Request H F) :
    ∃ c, rejectDraftTokens drafts generated r = r.withCounters c := by
  unfold rejectDraftTokens
  by_cases hdrafts : drafts ≠ [] ∧ generated ≠ []
  · rw [if_pos hdrafts]
    exact ⟨⟨_, _, _, _⟩, rfl⟩
  · rw [if_neg hdrafts]
    exact ⟨⟨_, _, _, _⟩, rfl⟩

end Request

end VllmPs
