import VllmPs.Sched.Reasoning

/-!
# Noticing the end of reasoning

The computed tokens of a request are fewer than its tokens and placeholders while there are placeholders, or,
with synchronous scheduling, at most its tokens and outstanding drafts. So the last token of an output is one
that `should_advance` looks at.
-/

namespace VllmPs

open Lib Scheduler List

variable {H F : Type} {config : SchedulerConfig} {blockHasher : Option (BlockHasher H)}

namespace Request

variable {r r' : Request H F} {kept : List Token} {stopped : Bool}

theorem updateRequestAsSession_fields {update : StreamingUpdate}
    (h : r.updateRequestAsSession blockHasher update = .ok r') :
    r'.allTokenIds = r.allTokenIds.take r.numComputedTokens.toNat ++ update.promptTokenIds.getD [] ∧
      r'.numComputedTokens = r.numComputedTokens ∧ r'.numOutputPlaceholders = r.numOutputPlaceholders ∧
      r'.useStructuredOutput = r.useStructuredOutput := by
  unfold updateRequestAsSession at h
  cases hprompt : r.promptTokenIds with
  | none =>
    simp [hprompt] at h
  | some prompt =>
    rw [hprompt] at h
    cases h
    cases blockHasher <;> exact ⟨rfl, rfl, rfl, rfl⟩

theorem advance_useStructuredOutput (config : SchedulerConfig) (currentStep : ℕ) (drafts : List Token) (n : ℤ)
    (r : Request H F) : (r.advance config currentStep drafts n).useStructuredOutput = r.useStructuredOutput := by
  unfold advance
  dsimp only
  split_ifs <;> rfl

theorem rejectDraftTokens_allTokenIds (drafts sampled : List Token) (r : Request H F) :
    (rejectDraftTokens drafts sampled r).allTokenIds = r.allTokenIds := by
  obtain ⟨c, heq⟩ := rejectDraftTokens_eq drafts sampled r
  rw [heq]
  rfl

theorem rejectDraftTokens_useStructuredOutput (drafts sampled : List Token) (r : Request H F) :
    (rejectDraftTokens drafts sampled r).useStructuredOutput = r.useStructuredOutput := by
  obtain ⟨c, heq⟩ := rejectDraftTokens_eq drafts sampled r
  rw [heq]
  rfl

theorem deltaStart_lt (htokens : 0 < r.numTokens) (h : r.numComputedTokens - r.numOutputPlaceholders < r.numTokens) :
    r.deltaStart < r.numTokens := by
  unfold deltaStart
  dsimp only
  split_ifs with hsign
  · omega
  · omega

/-- What an output does to the counters of a request. -/
structure Receives (config : SchedulerConfig) (sampled : List Token) (r r' : Request H F) (kept : List Token) :
    Prop where
  kept_sampled : kept <+: sampled
  tokens : r'.allTokenIds = r.allTokenIds ++ kept
  computed : r'.numComputedTokens = r.numComputedTokens
  structured : r'.useStructuredOutput = r.useStructuredOutput
  placeholders : config.asyncScheduling = true →
    r'.numOutputPlaceholders = r.numOutputPlaceholders - kept.length ∧ (kept ≠ [] → 0 ≤ r'.numOutputPlaceholders)
  sync : config.asyncScheduling = false → r'.numOutputPlaceholders = r.numOutputPlaceholders
  whole : config.asyncScheduling = false → r'.isFinished = false → kept = sampled

theorem receiveTokens_receives {tokens : List Token}
    (h : r.receiveTokens config blockHasher tokens = .ok (r', kept, stopped)) : Receives config tokens r r' kept := by
  unfold receiveTokens at h
  split_ifs at h with hsync hdiscard
  · obtain ⟨hashes, status, reason, rfl, hkept, hgoes, hstops⟩ := updateWithOutput_spec h
    refine ⟨hkept, rfl, rfl, rfl, fun hasync => ?_, fun _ => rfl, fun _ hfinished => ?_⟩
    · simp [hsync] at hasync
    cases stopped with
    | false => exact (hgoes rfl).2
    | true =>
      have hstatus : status.isFinished = false := hfinished
      simp [(hstops rfl).1] at hstatus
  · obtain ⟨rfl, hrest⟩ := ok_mk_inj h
    cases hrest
    refine ⟨ nil_prefix, (append_nil _).symm, rfl, rfl, fun _ => ⟨?_, fun hne => absurd rfl hne⟩,
      fun _ => rfl, fun hsync' => absurd hsync' hsync⟩
    exact (sub_zero _).symm
  obtain ⟨⟨updated, keptTokens, stops⟩, hupdate, h⟩ := bind_eq_ok.mp h
  dsimp only at h
  split_ifs at h with hnegative
  · cases h
  obtain ⟨rfl, hrest⟩ := ok_mk_inj h
  cases hrest
  obtain ⟨hashes, status, reason, rfl, hkept, -, -⟩ := updateWithOutput_spec hupdate
  exact ⟨hkept, rfl, rfl, rfl, fun _ => ⟨rfl, fun _ => not_lt.mp hnegative⟩,
    fun hsync' => absurd hsync' hsync, fun hsync' => absurd hsync' hsync⟩

theorem receiveOutput_receives {output : RequestOutput F}
    (h : r.receiveOutput config blockHasher output = .ok (r', kept, stopped)) :
    Receives config output.sampledTokenIds r r' kept := by
  unfold receiveOutput at h
  split_ifs at h with htokens hpooling
  · exact receiveTokens_receives h
  · obtain ⟨rfl, hrest⟩ := ok_mk_inj h
    cases hrest
    exact ⟨ nil_prefix, (append_nil _).symm, rfl, rfl,
      fun _ => ⟨(sub_zero _).symm, fun hne => absurd rfl hne⟩, fun _ => rfl, fun _ hfinished => nomatch hfinished⟩
  obtain ⟨rfl, hrest⟩ := ok_mk_inj h
  cases hrest
  exact ⟨ nil_prefix, (append_nil _).symm, rfl, rfl,
    fun _ => ⟨(sub_zero _).symm, fun hne => absurd rfl hne⟩, fun _ => rfl,
    fun _ _ => (not_not.mp htokens).symm⟩

end Request

namespace ReasoningState

variable {s s' : ReasoningState H F}
variable {currentStep : ℕ} {drafts sampled : List Token} {n : ℤ} {r : Request H F}
  {frames : List (List Token)}
variable {specTokenIds validTokenIds : List Token}

/-- The counters of a request never run ahead of its tokens. -/
structure Counts (config : SchedulerConfig) (s : ReasoningState H F) : Prop where
  async : config.asyncScheduling = true → 0 < s.request.numOutputPlaceholders →
    s.request.numComputedTokens < s.request.numTokens + s.request.numOutputPlaceholders
  sync : config.asyncScheduling = false → s.request.numOutputPlaceholders = 0
  frames : config.asyncScheduling = false → s.request.isFinished = false →
    ∀ drafts ∈ s.frames, s.request.numComputedTokens ≤ s.request.numTokens + drafts.length

theorem Counts.of_computed_le (hsync : config.asyncScheduling = false → s.request.numOutputPlaceholders = 0)
    (hcomputed : s.request.numComputedTokens ≤ s.request.numTokens) : s.Counts config := by
  refine ⟨fun _ hpos => ?_, hsync, fun _ _ drafts _ => ?_⟩
  · omega
  · omega

theorem Counts.of_le (h : s.Counts config)
    (hplaceholders : s'.request.numOutputPlaceholders = s.request.numOutputPlaceholders)
    (hcomputed : s'.request.numComputedTokens ≤ s.request.numComputedTokens)
    (htokens : s'.request.numTokens = s.request.numTokens)
    (hfinished : s'.request.isFinished = false → s.request.isFinished = false)
    (hframes : ∀ drafts ∈ s'.frames, ∃ drafts' ∈ s.frames, drafts'.length = drafts.length) : s'.Counts config := by
  refine ⟨fun hasync hpos => ?_, fun hsync => hplaceholders.trans (h.sync hsync), fun hsync hrunning drafts hmem => ?_⟩
  · have hlt := h.async hasync (hplaceholders ▸ hpos)
    rw [hplaceholders, htokens]
    omega
  · obtain ⟨drafts', hmem', hlength⟩ := hframes drafts hmem
    have hle := h.frames hsync (hfinished hrunning) drafts' hmem'
    rw [htokens]
    omega

theorem Counts.enterStep (hsync : config.asyncScheduling = false → s.request.numOutputPlaceholders = 0)
    (hasync : config.asyncScheduling = true → 0 ≤ s.request.numOutputPlaceholders + drafts.length →
      s.request.numComputedTokens + n ≤ s.request.numTokens + s.request.numOutputPlaceholders + drafts.length)
    (hnew : config.asyncScheduling = false → s.request.numComputedTokens + n ≤ s.request.numTokens + drafts.length)
    (hold : config.asyncScheduling = false → s.frames = [] ∨ drafts = []) :
    (s.enterStep config currentStep drafts n).Counts config := by
  cases hmode : config.asyncScheduling with
  | true =>
    refine ⟨fun _ hpos => ?_, fun hsync => Bool.noConfusion (hmode.symm.trans hsync),
      fun hsync => Bool.noConfusion (hmode.symm.trans hsync)⟩
    unfold ReasoningState.enterStep modify Request.advance at hpos ⊢
    dsimp only at hpos ⊢
    rw [hmode, Bool.true_and] at hpos ⊢
    by_cases hchunk : s.request.numComputedTokens + n < s.request.numTokens + s.request.numOutputPlaceholders
    · rw [decide_eq_true hchunk] at hpos ⊢
      exact hchunk
    rw [decide_eq_false hchunk] at hpos ⊢
    have hle := hasync hmode
    change 0 < s.request.numOutputPlaceholders + 1 + drafts.length at hpos
    change s.request.numComputedTokens + n <
      s.request.numTokens + (s.request.numOutputPlaceholders + 1 + drafts.length)
    omega
  | false =>
    have hrequest : (s.enterStep config currentStep drafts n).request = { s.request with
        numComputedTokens := s.request.numComputedTokens + n
        isPrefillChunk := decide (s.request.numComputedTokens + n <
          s.request.numTokens + s.request.numOutputPlaceholders) } := by
      unfold ReasoningState.enterStep modify Request.advance
      dsimp only
      rw [hmode, Bool.false_and, if_neg Bool.false_ne_true]
    refine ⟨fun hasync => Bool.noConfusion (hmode.symm.trans hasync), fun _ => ?_, fun _ _ drafts' hmem => ?_⟩
    · rw [hrequest]
      exact hsync hmode
    rw [hrequest]
    change s.request.numComputedTokens + n ≤ s.request.numTokens + drafts'.length
    have hle := hnew hmode
    rcases mem_append.mp hmem with hmem | hmem
    · rcases hold hmode with hnone | rfl
      · simp [hnone] at hmem
      · rw [length_nil] at hle
        omega
    · rwa [mem_singleton.mp hmem]

theorem length_scheduledDrafts (h : n ≤ r.numTokensWithSpec + r.numOutputPlaceholders - r.numComputedTokens) :
    r.numComputedTokens + n ≤ r.numTokens + r.numOutputPlaceholders + (r.scheduledDrafts n).length := by
  have hspec : r.numTokensWithSpec = r.numTokens + r.specTokenIds.length := rfl
  unfold Request.scheduledDrafts
  dsimp only
  split_ifs with hdrafts
  · rw [length_take_of_le (by omega)]
    omega
  rw [length_nil]
  by_cases hnil : r.specTokenIds = []
  · rw [hnil] at hspec
    simp only [length_nil] at hspec
    omega
  · have hle := not_and.mp hdrafts hnil
    omega

theorem Counts.schedule (h : s.Counts config)
    (hdrafts : config.asyncScheduling = true ∨ s.frames = [] ∨ s.request.scheduledDrafts n = [])
    (hstep : s.schedule config currentStep n = .ok s') : s'.Counts config := by
  obtain ⟨_, hguard, hreturn⟩ := bind_eq_ok.mp hstep
  obtain ⟨-, hle⟩ := require_eq_ok.mp hguard
  cases hreturn
  have hlength := length_scheduledDrafts hle
  refine Counts.enterStep h.sync (fun _ _ => hlength) (fun hsync => ?_) fun hsync => ?_
  · have hzero := h.sync hsync
    change s.request.numComputedTokens + n ≤ s.request.numTokens + (s.request.scheduledDrafts n).length
    omega
  · exact hdrafts.resolve_left (by rw [hsync]; exact Bool.false_ne_true)

theorem Counts.admitWaiting {numComputedTokens : ℤ} (h : s.Counts config)
    (hstep : s.admitWaiting config currentStep numComputedTokens n = .ok s') : s'.Counts config := by
  obtain ⟨_, hguard, hreturn⟩ := bind_eq_ok.mp hstep
  obtain ⟨-, hle⟩ := require_eq_ok.mp hguard
  cases hreturn
  refine Counts.enterStep h.sync (fun _ hpos => ?_) (fun _ => ?_) fun _ => .inr rfl
  · change 0 ≤ s.request.numOutputPlaceholders + (0 : ℕ) at hpos
    change numComputedTokens + n ≤ s.request.numTokens + s.request.numOutputPlaceholders + (0 : ℕ)
    omega
  · change numComputedTokens + n ≤ s.request.numTokens + (0 : ℕ)
    omega

/-! ## Outputs -/

section

variable (h : s.Counts config) (hframes : s.frames = drafts :: frames)
  (hfinished : s.request.isFinished = false)
include h hframes hfinished

theorem Counts.rejectDraftTokens (hsampled : sampled ≠ []) :
    let r := Scheduler.rejectDraftTokens drafts sampled s.request
    (config.asyncScheduling = true → 0 < r.numOutputPlaceholders →
      r.numComputedTokens < s.request.numTokens + r.numOutputPlaceholders) ∧
    (config.asyncScheduling = false → r.numOutputPlaceholders = 0 ∧
      r.numComputedTokens < s.request.numTokens + sampled.length) := by
  have hpos : 0 < sampled.length := length_pos_iff.mpr hsampled
  unfold Scheduler.rejectDraftTokens
  refine ⟨fun hasync => ?_, fun hsync => ?_⟩
  · have hlt := h.async hasync
    by_cases hdrafts : drafts = []
    · rwa [if_neg fun hboth => hboth.1 hdrafts]
    · rw [if_pos ⟨hdrafts, hsampled⟩]
      dsimp only
      split_ifs <;> omega
  have hzero := h.sync hsync
  have hle := h.frames hsync hfinished drafts (hframes ▸ mem_cons_self)
  by_cases hdrafts : drafts = []
  · rw [if_neg fun hboth => hboth.1 hdrafts]
    rw [hdrafts, length_nil] at hle
    exact ⟨hzero, by omega⟩
  rw [if_pos ⟨hdrafts, hsampled⟩]
  dsimp only
  rw [hzero, if_neg (lt_irrefl 0)]
  refine ⟨rfl, ?_⟩
  split_ifs <;> omega

/-- An output keeps the counters behind the tokens. -/
theorem Counts.receive {kept : List Token}
    (hreceives : (Scheduler.rejectDraftTokens drafts sampled s.request).Receives config sampled r kept) :
    Counts config { s with request := r, frames := frames, appended := s.appended ++ kept } := by
  have htokens : r.numTokens = s.request.numTokens + kept.length := by
    unfold Request.numTokens
    rw [hreceives.tokens, Request.rejectDraftTokens_allTokenIds, length_append]
  by_cases hsampled : sampled = []
  · subst hsampled
    obtain rfl := prefix_nil.mp hreceives.kept_sampled
    have hsame : Scheduler.rejectDraftTokens drafts [] s.request = s.request := if_neg fun hboth => hboth.2 rfl
    rw [hsame] at hreceives
    have hplaceholders : r.numOutputPlaceholders = s.request.numOutputPlaceholders := by
      cases hmode : config.asyncScheduling with
      | true => rw [(hreceives.placeholders hmode).1, length_nil, Nat.cast_zero, sub_zero]
      | false => exact hreceives.sync hmode
    refine h.of_le hplaceholders hreceives.computed.le htokens (fun _ => hfinished) fun drafts' hmem => ?_
    exact ⟨drafts', hframes ▸ mem_cons_of_mem _ hmem, rfl⟩
  obtain ⟨hasync, hsync⟩ := h.rejectDraftTokens hframes hfinished hsampled
  refine ⟨fun hmode hpos => ?_, fun hmode => ?_, fun hmode hrunning drafts' _ => ?_⟩
  · have hlt := hasync hmode
    have hcount := (hreceives.placeholders hmode).1
    change 0 < r.numOutputPlaceholders at hpos
    change r.numComputedTokens < r.numTokens + r.numOutputPlaceholders
    rw [hreceives.computed, htokens, Nat.cast_add]
    omega
  · exact (hreceives.sync hmode).trans (hsync hmode).1
  · have hlt := (hsync hmode).2
    rw [hreceives.computed, htokens, hreceives.whole hmode hrunning, Nat.cast_add]
    omega

theorem Counts.deltaStart_lt
    (hreceives : (Scheduler.rejectDraftTokens drafts sampled s.request).Receives config sampled r sampled)
    (hsampled : sampled ≠ []) : r.deltaStart < r.numTokens := by
  have hpos : 0 < sampled.length := length_pos_iff.mpr hsampled
  have htokens : r.numTokens = s.request.numTokens + sampled.length := by
    unfold Request.numTokens
    rw [hreceives.tokens, Request.rejectDraftTokens_allTokenIds, length_append]
  obtain ⟨hasync, hsync⟩ := h.rejectDraftTokens hframes hfinished hsampled
  refine Request.deltaStart_lt (by omega) ?_
  rw [hreceives.computed, htokens, Nat.cast_add]
  cases hmode : config.asyncScheduling with
  | true =>
    have hlt := hasync hmode
    obtain ⟨hcount, hnonneg⟩ := hreceives.placeholders hmode
    have hle := hnonneg hsampled
    omega
  | false =>
    have hlt := hsync hmode
    have hcount := hreceives.sync hmode
    omega

end

/-! ## Noticing -/

variable {manager : StructuredOutputManager} {reasoner : ReasoningParser}

structure Notices (config : SchedulerConfig) (reasoner : ReasoningParser) (s : ReasoningState H F) : Prop where
  counts : s.Counts config
  structured : s.request.useStructuredOutput = true
  noticed : reasoner.endTokenId ∈ s.appended → s.reasoningEnded = some true

theorem Notices.of_counts (h : s.Notices config reasoner) (hcounts : s'.Counts config)
    (hstructured : s'.request.useStructuredOutput = s.request.useStructuredOutput)
    (happended : s'.appended = s.appended) (hended : s'.reasoningEnded = s.reasoningEnded) :
    s'.Notices config reasoner :=
  ⟨hcounts, hstructured.trans h.structured, fun hmem => hended.trans (h.noticed (happended ▸ hmem))⟩

theorem eq_of_not_mem_dropLast {part : List Token} {token : Token} (hpart : part <+: sampled)
    (hmem : token ∈ part) (hnot : token ∉ sampled.dropLast) : part = sampled ∧ sampled.getLast? = some token := by
  have hne : sampled ≠ [] := ne_nil_of_mem (hpart.subset hmem)
  have hsplit := dropLast_append_getLast hne
  constructor
  · by_contra hother
    have hlength : part.length < sampled.length :=
      lt_of_le_of_ne hpart.length_le fun heq => hother (hpart.eq_of_length heq)
    have hbefore : part <+: sampled.dropLast := by
      rw [← hsplit] at hpart
      refine prefix_of_prefix_length_le hpart (prefix_append _ _) ?_
      rw [length_dropLast]
      omega
    exact hnot (hbefore.subset hmem)
  · have hin := hpart.subset hmem
    rw [← hsplit, mem_append, mem_singleton] at hin
    rw [getLast?_eq_getLast_of_ne_nil hne, hin.resolve_left hnot]

theorem Counts.updateSession {update : StreamingUpdate} (h : s.Counts config)
    (hnone : config.asyncScheduling = true ∨ s.frames = [])
    (hupdate : s.request.updateRequestAsSession blockHasher update = .ok r) :
    Counts config { s with request := r } ∧ r.useStructuredOutput = s.request.useStructuredOutput := by
  obtain ⟨htokens, hcomputed, hplaceholders, hstructured⟩ := Request.updateRequestAsSession_fields hupdate
  refine ⟨⟨fun hasync hpos => ?_, fun hsync => hplaceholders.trans (h.sync hsync), fun hsync _ drafts hmem => ?_⟩,
    hstructured⟩
  · have hlt := h.async hasync (hplaceholders ▸ hpos)
    have hlength : r.numTokens = min s.request.numComputedTokens.toNat s.request.numTokens +
        (update.promptTokenIds.getD []).length := by
      unfold Request.numTokens
      rw [htokens, length_append, length_take]
    rw [hcomputed, hplaceholders, hlength]
    change 0 < r.numOutputPlaceholders at hpos
    omega
  · have hnone := hnone.resolve_left (by rw [hsync]; exact Bool.false_ne_true)
    simp [hnone] at hmem

section

variable (hreasoner : manager.reasoner = some reasoner) (hreasoning : manager.enableInReasoning = false)
include hreasoner hreasoning

theorem shouldAdvance_spec (s : ReasoningState H F) :
    ∃ ended, (s.shouldAdvance manager).2 = { s with reasoningEnded := ended } ∧
      (s.reasoningEnded = some true → ended = some true) ∧
      (s.request.useStructuredOutput = true →
        reasoner.endTokenId ∈ s.request.allTokenIds.drop s.request.deltaStart → ended = some true) := by
  unfold shouldAdvance
  rw [hreasoner, hreasoning]
  simp only [Bool.false_eq_true, if_false]
  split_ifs with hstructured hended hdelta
  · exact ⟨s.reasoningEnded, rfl, id, fun htrue => Bool.noConfusion (hstructured.symm.trans htrue)⟩
  · exact ⟨s.reasoningEnded, rfl, id, fun _ _ => hended⟩
  · exact ⟨some true, rfl, fun _ => rfl, fun _ _ => rfl⟩
  · exact ⟨s.reasoningEnded, rfl, id, fun _ hmem => absurd (decide_eq_true hmem) hdelta⟩

variable (h : s.Notices config reasoner)
include h

theorem Notices.shouldAdvance : (s.shouldAdvance manager).2.Notices config reasoner := by
  obtain ⟨ended, heq, hkeeps, -⟩ := shouldAdvance_spec hreasoner hreasoning s
  rw [heq]
  exact ⟨{ h.counts with }, h.structured, fun hmem => hkeeps (h.noticed hmem)⟩

theorem Notices.updateFromOutput {output : RequestOutput F}
    (hlast : reasoner.endTokenId ∉ output.sampledTokenIds.dropLast)
    (hstep : s.updateFromOutput manager config blockHasher output = .ok s') : s'.Notices config reasoner := by
  unfold ReasoningState.updateFromOutput at hstep
  cases hframes : s.frames with
  | nil =>
    simp [hframes] at hstep
  | cons drafts frames =>
    rw [hframes] at hstep
    dsimp only at hstep
    cases hfinished : s.request.isFinished with
    | true =>
      rw [hfinished, if_pos rfl] at hstep
      cases hstep
      refine h.of_counts (h.counts.of_le rfl le_rfl rfl id fun drafts' hmem => ?_) rfl rfl rfl
      exact ⟨drafts', hframes ▸ mem_cons_of_mem _ hmem, rfl⟩
    | false =>
      rw [hfinished, if_neg Bool.false_ne_true] at hstep
      obtain ⟨⟨r, kept, stopped⟩, hreceived, hstep⟩ := bind_eq_ok.mp hstep
      have hreceives := Request.receiveOutput_receives hreceived
      have hcounts := h.counts.receive hframes hfinished hreceives
      have hstructured : r.useStructuredOutput = true := by
        rw [hreceives.structured, Request.rejectDraftTokens_useStructuredOutput, h.structured]
      by_cases hkept : kept = []
      · rw [if_pos hkept] at hstep
        cases hstep
        refine ⟨hcounts, hstructured, fun hmem => h.noticed ?_⟩
        rwa [hkept, append_nil] at hmem
      rw [if_neg hkept] at hstep
      obtain ⟨ended, hadvanced, hkeeps, hfinds⟩ := shouldAdvance_spec hreasoner hreasoning
        { s with request := r, frames := frames, appended := s.appended ++ kept }
      have hnoticed : reasoner.endTokenId ∈ s.appended ++ kept → ended = some true := by
        intro hmem
        rcases mem_append.mp hmem with hmem | hmem
        · exact hkeeps (h.noticed hmem)
        obtain ⟨rfl, hend⟩ := eq_of_not_mem_dropLast hreceives.kept_sampled hmem hlast
        have hstart : ¬r.allTokenIds.length ≤ r.deltaStart :=
          not_le.mpr (h.counts.deltaStart_lt hframes hfinished hreceives hkept)
        refine hfinds hstructured (mem_of_getLast? ?_)
        rw [getLast?_drop, if_neg hstart, hreceives.tokens, getLast?_append, hend]
        rfl
      rw [hadvanced] at hstep
      split_ifs at hstep
      · cases hstep
        refine ⟨hcounts.of_le rfl le_rfl rfl (fun hfalse => nomatch hfalse) fun drafts' hmem => ?_,
          hstructured, hnoticed⟩
        exact ⟨drafts', hmem, rfl⟩
      · cases hstep
        exact ⟨{ hcounts with }, hstructured, hnoticed⟩

/-! ## Runs -/

theorem Notices.updateDraftTokenIds :
    (s.updateDraftTokenIds manager specTokenIds validTokenIds).Notices config reasoner := by
  have hmodify {s : ReasoningState H F} (h : s.Notices config reasoner) (tokens : List Token) :
      (s.modify fun r => { r with specTokenIds := tokens }).Notices config reasoner :=
    ⟨{ h.counts with }, h.structured, h.noticed⟩
  unfold ReasoningState.updateDraftTokenIds
  split_ifs
  · exact h
  · exact hmodify h []
  · exact hmodify (h.shouldAdvance hreasoner hreasoning) _

theorem Notices.updateDraftTokenIdsInOutput :
    (s.updateDraftTokenIdsInOutput manager specTokenIds validTokenIds).Notices config reasoner := by
  unfold ReasoningState.updateDraftTokenIdsInOutput
  cases hlast : s.frames.getLast? with
  | none => exact h
  | some drafts =>
    dsimp only
    by_cases hskip : (s.request.isFinished || drafts.isEmpty) = true
    · rwa [if_pos hskip]
    rw [if_neg hskip]
    have hadvance := h.shouldAdvance hreasoner hreasoning
    obtain ⟨ended, hadvanced, -, -⟩ := shouldAdvance_spec hreasoner hreasoning s
    generalize (if (s.shouldAdvance manager).1 = true then validTokenIds else specTokenIds) = tokens
    rw [hadvanced] at hadvance ⊢
    refine hadvance.of_counts (hadvance.counts.of_le rfl le_rfl rfl id fun drafts' hmem => ?_) rfl rfl rfl
    have hframes : s.frames = s.frames.dropLast ++ [drafts] := (dropLast_append_getLast? _ hlast).symm
    rcases mem_append.mp hmem with hmem | hmem
    · exact ⟨drafts', dropLast_subset _ hmem, rfl⟩
    · rw [mem_singleton.mp hmem, length_append, length_replicate]
      refine ⟨drafts, hframes ▸ mem_append_right _ mem_cons_self, ?_⟩
      have hle := length_take_le drafts.length tokens
      omega

/-- Every call keeps the end token noticed. -/
theorem Notices.step {op : ReasoningOp F} (hok : s.EndsWithStep config reasoner op)
    (hstep : s.step manager config blockHasher op = .ok s') : s'.Notices config reasoner := by
  cases op with
  | schedule currentStep n =>
    have hcounts := h.counts.schedule hok hstep
    obtain ⟨_, -, rfl⟩ := bind_pure_eq_ok.mp hstep
    exact h.of_counts hcounts (Request.advance_useStructuredOutput _ _ _ _ _) rfl rfl
  | admitWaiting currentStep numComputedTokens n =>
    have hcounts := h.counts.admitWaiting hstep
    obtain ⟨_, -, rfl⟩ := bind_pure_eq_ok.mp hstep
    exact h.of_counts hcounts (Request.advance_useStructuredOutput _ _ _ _ _) rfl rfl
  | load numComputedTokens =>
    obtain ⟨_, hguard, rfl⟩ := bind_pure_eq_ok.mp hstep
    exact h.of_counts (.of_computed_le h.counts.sync (require_eq_ok.mp hguard)) rfl rfl rfl
  | truncate status numComputedTokens =>
    obtain ⟨_, hguard, hreturn⟩ := bind_eq_ok.mp hstep
    obtain ⟨hfinished, hle⟩ := require_eq_ok.mp hguard
    cases hreturn
    exact h.of_counts (h.counts.of_le rfl hle rfl (fun _ => hfinished) fun drafts hmem => ⟨drafts, hmem, rfl⟩)
      rfl rfl rfl
  | preempt =>
    cases hstep
    exact h.of_counts (.of_computed_le h.counts.sync (Int.natCast_nonneg _)) rfl rfl rfl
  | reset =>
    cases hstep
    exact h.of_counts (.of_computed_le (fun _ => rfl) (Int.natCast_nonneg _)) rfl rfl rfl
  | resample tokenIds numComputedTokens =>
    obtain ⟨_, hguard, rfl⟩ := bind_pure_eq_ok.mp hstep
    refine h.of_counts (.of_computed_le (fun _ => rfl) (require_eq_ok.mp hguard)) ?_ rfl rfl
    cases blockHasher <;> rfl
  | updateSession update =>
    obtain ⟨r, hupdate, rfl⟩ := bind_pure_eq_ok.mp hstep
    obtain ⟨hcounts, hstructured⟩ := h.counts.updateSession hok hupdate
    exact h.of_counts hcounts hstructured rfl rfl
  | awaitSession =>
    cases hstep
    refine h.of_counts ⟨h.counts.async, h.counts.sync, fun hsync _ drafts hmem => ?_⟩ rfl rfl rfl
    have hnone := hok.resolve_left (by rw [hsync]; exact Bool.false_ne_true)
    change drafts ∈ s.frames at hmem
    simp [hnone] at hmem
  | finish status =>
    obtain ⟨_, hguard, hreturn⟩ := bind_eq_ok.mp hstep
    have hfinished := require_eq_ok.mp hguard
    cases hreturn
    refine h.of_counts (h.counts.of_le rfl le_rfl rfl (fun hfalse => ?_) fun drafts hmem => ⟨drafts, hmem, rfl⟩)
      rfl rfl rfl
    exact Bool.noConfusion (hfinished.symm.trans hfalse)
  | fillBitmask =>
    cases hstep
    unfold shouldFillBitmask
    rw [hreasoner, hreasoning]
    dsimp only
    rw [if_neg Bool.false_ne_true]
    cases hended : s.reasoningEnded with
    | some ended => exact h
    | none =>
      refine ⟨{ h.counts with }, h.structured, fun hmem => ?_⟩
      simp [h.noticed hmem] at hended
  | updateFromOutput output => exact h.updateFromOutput hreasoner hreasoning hok hstep
  | skipOutput =>
    cases hstep
    exact h.of_counts (h.counts.of_le rfl le_rfl rfl id fun drafts hmem => ⟨drafts, mem_of_mem_tail hmem, rfl⟩)
      rfl rfl rfl
  | updateDraftTokenIds specTokenIds validTokenIds =>
    cases hstep
    exact h.updateDraftTokenIds hreasoner hreasoning
  | updateDraftTokenIdsInOutput specTokenIds validTokenIds =>
    cases hstep
    exact h.updateDraftTokenIdsInOutput hreasoner hreasoning

end

/-- If no output has the end token before its last token, an appended end token has been noticed, and the
grammar masks the next token. -/
theorem reasoningEnded_of_appended (hreasoner : manager.reasoner = some reasoner)
    (hreasoning : manager.enableInReasoning = false)
    (h : Reachable Fresh (EndsWithStep config reasoner) (step manager config blockHasher) s)
    (hmem : reasoner.endTokenId ∈ s.appended) :
    s.reasoningEnded = some true ∧ (s.shouldFillBitmask manager).1 = true := by
  have hnotices : s.Notices config reasoner := by
    refine h.invariant ?_ fun s op s' hs hok hstep => hs.step hreasoner hreasoning hok hstep
    rintro s ⟨hstructured, hplaceholders, hframes, happended⟩
    refine ⟨⟨fun _ hpos => ?_, fun _ => hplaceholders, fun _ _ drafts hmem => ?_⟩, hstructured, fun hmem => ?_⟩
    · rw [hplaceholders] at hpos
      exact absurd hpos (lt_irrefl 0)
    · simp [hframes] at hmem
    · simp [happended] at hmem
  have hended := hnotices.noticed hmem
  refine ⟨hended, ?_⟩
  unfold shouldFillBitmask
  rw [hreasoner, hreasoning, hended]
  rfl

def sampleState : ReasoningState Unit ℚ where
  request :=
    { requestId := "0", useStructuredOutput := true, promptTokenIds := some [10], numPromptTokens := 1,
      allTokenIds := [10] }

def sampleConfig (asyncScheduling : Bool) : SchedulerConfig :=
  { maxModelLen := 100, numSpecTokens := 2, asyncScheduling := asyncScheduling }

def sampleManager (enableInReasoning : Bool) : StructuredOutputManager :=
  { reasoner := some ⟨98, 99⟩, enableInReasoning := enableInReasoning, hasSpeculativeConfig := true }

def acceptedRun (asyncScheduling : Bool) : List (ReasoningOp ℚ) :=
  [.admitWaiting 0 0 1, .updateFromOutput { sampledTokenIds := [11] }] ++
    (if asyncScheduling then [] else [.updateDraftTokenIds [99, 12] [99, 12]]) ++
    [.schedule 1 3, .updateFromOutput { sampledTokenIds := [99, 12, 13] }]

/-- An end token that is an accepted draft token is missed by either scheduler, and the grammar does not mask
the next token. If the grammar applies to the reasoning too, no end token is recorded. -/
theorem accepted_end_token_missed :
    (∀ asyncScheduling, ∃ s, Lib.run (step (sampleManager false) (sampleConfig asyncScheduling) none) sampleState
        (acceptedRun asyncScheduling) = .ok s ∧
      s.appended = [11, 99, 12, 13] ∧ s.reasoningEnded = none ∧
      (s.shouldFillBitmask (sampleManager false)).1 = false) ∧
    ∃ s, Lib.run (step (sampleManager true) (sampleConfig false) none) sampleState
        [.admitWaiting 0 0 1, .updateFromOutput { sampledTokenIds := [99] }] = .ok s ∧
      s.appended = [99] ∧ s.reasoningEnded = none := by
  exact ⟨fun asyncScheduling => exists_ok_of_decide (by cases asyncScheduling <;> decide +kernel),
    exists_ok_of_decide (by decide +kernel)⟩

/-- With asynchronous scheduling, the end token comes after an accepted draft token, while the next step is
already scheduled. -/
theorem reasoningEnded_of_appended_async : ∃ s, Lib.checkedRun (EndsWithStep (sampleConfig true) ⟨98, 99⟩)
        (step (sampleManager false) (sampleConfig true) none) sampleState
        [.admitWaiting 0 0 1, .schedule 1 3, .updateFromOutput { sampledTokenIds := [11] }, .schedule 2 3,
          .updateFromOutput { sampledTokenIds := [12, 99] }] = some s ∧
      s.appended = [11, 12, 99] ∧ s.reasoningEnded = some true := by
  have hrun : ((Lib.checkedRun (EndsWithStep (sampleConfig true) ⟨98, 99⟩)
      (step (sampleManager false) (sampleConfig true) none) sampleState
      [.admitWaiting 0 0 1, .schedule 1 3, .updateFromOutput { sampledTokenIds := [11] }, .schedule 2 3,
        .updateFromOutput { sampledTokenIds := [12, 99] }]).map fun s => s.appended) = some [11, 12, 99] := by
    decide +kernel
  obtain ⟨s, hs, happended⟩ := Option.map_eq_some_iff.mp hrun
  refine ⟨s, hs, happended, ?_⟩
  have hreasoner : (sampleManager false).reasoner = some ⟨98, 99⟩ := rfl
  refine (reasoningEnded_of_appended hreasoner rfl (Reachable.checkedRun (.start ?_) hs) ?_).1
  · exact ⟨rfl, rfl, rfl, rfl⟩
  · rw [happended]
    decide

end ReasoningState

end VllmPs
