import Mathlib.Data.List.Fold
import VllmPs.FrontEnd.StopStrings
import VllmPs.Lib.Transition

/-!
# Streamed text

Between the updates a streaming caller reads the text that may already be sent. A read holds back as much text
as a stop string that is still to be completed could cut off, so what was sent is never retracted while the
caller heeds the first stop that is reported.
-/

namespace VllmPs

open Lib IncrementalDetokenizer List Option

variable {D : Type}

namespace IncrementalDetokenizer

/-! ## What an update and a read do to the text -/

/-- The number of characters held back while more text may follow. -/
def stopBufferLength (d : IncrementalDetokenizer D) : ℕ :=
  if d.stop ≠ [] ∧ d.includeStopStrInOutput = false then (d.stop.map List.length).foldl max 0 - 1 else 0

/-- The same detokenizer with more text. -/
structure Extends (d d' : IncrementalDetokenizer D) : Prop where
  stop : d'.stop = d.stop
  includeStopStrInOutput : d'.includeStopStrInOutput = d.includeStopStrInOutput
  lastOutputTextOffset : d'.lastOutputTextOffset = d.lastOutputTextOffset
  stream : d'.stream.isNone = d.stream.isNone
  outputText : d.outputText <+: d'.outputText
  untokenized : d.stream.isNone = true → d'.outputText = d.outputText

theorem Extends.refl (d : IncrementalDetokenizer D) : d.Extends d :=
  ⟨rfl, rfl, rfl, rfl, prefix_rfl, fun _ => rfl⟩

theorem Extends.stopBufferLength {d d' : IncrementalDetokenizer D} (h : d.Extends d') :
    d'.stopBufferLength = d.stopBufferLength := by
  unfold IncrementalDetokenizer.stopBufferLength
  rw [h.stop, h.includeStopStrInOutput]

theorem length_le_stopBufferLength {d : IncrementalDetokenizer D} {s : Text} (hs : s ∈ d.stop)
    (hinclude : d.includeStopStrInOutput = false) : s.length ≤ d.stopBufferLength + 1 := by
  have hmax : s.length ≤ (d.stop.map List.length).foldl max 0 := by
    rw [foldl_eq_foldr]
    exact le_max_of_le' 0 (mem_map_of_mem hs) le_rfl
  unfold stopBufferLength
  rw [if_pos ⟨ne_nil_of_mem hs, hinclude⟩]
  omega

variable {tokenizer : TokenizerLike D} {d : IncrementalDetokenizer D}

theorem foldl_decodeToken_extends (tokens : List Token) {d₀ : IncrementalDetokenizer D}
    {state : IncrementalDetokenizer D × ℕ} (h : d₀.Extends state.1) (hoffset : d₀.outputText.length ≤ state.2) :
    d₀.Extends (tokens.foldl (decodeToken tokenizer) state).1 ∧
      d₀.outputText.length ≤ (tokens.foldl (decodeToken tokenizer) state).2 := by
  induction tokens generalizing state with
  | nil => exact ⟨h, hoffset⟩
  | cons token rest ih =>
    rw [foldl_cons]
    have hnext : d₀.Extends (decodeToken tokenizer state token).1 := by
      refine ⟨h.stop, h.includeStopStrInOutput, h.lastOutputTextOffset, ?_, ?_, fun hnone => ?_⟩
      · rw [← h.stream]
        simp only [decodeToken, isNone_map]
      · exact h.outputText.trans (prefix_append _ _)
      · rw [← h.untokenized hnone]
        rw [← h.stream, isNone_iff_eq_none] at hnone
        simp [decodeToken, hnone]
    refine ih hnext ?_
    change _ ≤ if _ then _ else _
    split_ifs
    · exact hnext.outputText.length_le
    · exact hoffset

theorem checkStopStrings_eq_some {text : Text} {offset : ℕ} {stop : List Text} {includeInOutput : Bool}
    {s : Text} {cut : Option ℕ} (hstop : ∀ s ∈ stop, s ≠ [])
    (h : checkStopStrings text (text.length - offset) stop includeInOutput = some (s, cut)) :
    s ∈ stop ∧ offset < text.length ∧ ∃ i, offset < i + s.length ∧ cut = if includeInOutput = true then
        (if text.length ≤ i + s.length then none else some (i + s.length)) else some i := by
  unfold checkStopStrings at h
  by_cases hnew : text.length - offset = 0
  · simp [if_pos hnew] at h
  rw [if_neg hnew] at h
  obtain ⟨s', hs', hmap⟩ := exists_of_findSome?_eq_some h
  dsimp only at hmap
  obtain ⟨i, hfind, hpair⟩ := Option.map_eq_some_iff.mp hmap
  have hstart := (findFrom_eq_some.mp hfind).1
  have hpos := length_pos_of_ne_nil (hstop s' hs')
  rw [if_neg (by omega)] at hstart
  have hs : s' = s := by split_ifs at hpair <;> exact (Prod.mk.inj hpair).1
  subst hs
  refine ⟨hs', by omega, i, by omega, ?_⟩
  split_ifs at hpair ⊢ <;> exact (Prod.mk.inj hpair).2.symm

/-- The search for stop strings keeps the text unless it reports one, and then cuts off no more than
was held back before the text that is new to the search. -/
theorem evaluateStop_cases (offset : ℕ) (hstop : ∀ s ∈ d.stop, s ≠ []) : d.evaluateStop offset = (d, none) ∨
      ∃ s k, d.evaluateStop offset = ({ d with outputText := d.outputText.take k }, some s) ∧
        offset - d.stopBufferLength ≤ k := by
  unfold evaluateStop
  split_ifs with hskip
  · exact Or.inl rfl
  cases hcheck : checkStopStrings d.outputText (d.outputText.length - offset) d.stop
      d.includeStopStrInOutput with
  | none => exact Or.inl rfl
  | some found =>
    obtain ⟨s, cut⟩ := found
    obtain ⟨hs, hlt, i, hi, hcut⟩ := checkStopStrings_eq_some hstop hcheck
    right
    cases cut with
    | none =>
      refine ⟨s, d.outputText.length, ?_, by omega⟩
      rw [take_length]
    | some k =>
      refine ⟨s, k, rfl, ?_⟩
      cases hinclude : d.includeStopStrInOutput with
      | true =>
        rw [hinclude, if_pos rfl] at hcut
        split_ifs at hcut
        have hk := some.inj hcut
        omega
      | false =>
        rw [hinclude, if_neg Bool.false_ne_true] at hcut
        have hk := some.inj hcut
        have hbuffer := length_le_stopBufferLength hs hinclude
        omega

theorem update_cut (tokenizer : TokenizerLike D) (newTokenIds : List Token) (stopTerminated : Bool)
    (hstop : ∀ s ∈ d.stop, s ≠ []) :
    ∃ d', d.Extends d' ∧ (d.update tokenizer newTokenIds stopTerminated = (d', none) ∨
      ∃ s k, d.update tokenizer newTokenIds stopTerminated =
          ({ d' with outputText := d'.outputText.take k }, some s) ∧
        d.outputText.length - d.stopBufferLength ≤ k) := by
  unfold update
  split_ifs with hstream hnil
  · exact ⟨{ d with tokenIds := d.tokenIds ++ newTokenIds },
      ⟨rfl, rfl, rfl, rfl, prefix_rfl, fun _ => rfl⟩, Or.inl rfl⟩
  · exact ⟨d, Extends.refl d, Or.inl rfl⟩
  set tokens :=
    if (stopTerminated && !d.includeStopStrInOutput) = true then newTokenIds.dropLast else newTokenIds
  set state := tokens.foldl (decodeToken tokenizer) (d, d.outputText.length)
  obtain ⟨hextends, hoffset⟩ : d.Extends state.1 ∧ d.outputText.length ≤ state.2 :=
    foldl_decodeToken_extends tokens (Extends.refl d) (le_refl d.outputText.length)
  have hextends' : d.Extends { state.1 with
      tokenIds := state.1.tokenIds ++ newTokenIds.drop tokens.length } :=
    { hextends with }
  refine ⟨_, hextends', ?_⟩
  rcases evaluateStop_cases state.2 (hextends'.stop ▸ hstop) with hkept | ⟨s, k, hcut, hk⟩
  · exact Or.inl hkept
  · rw [hextends'.stopBufferLength] at hk
    exact Or.inr ⟨s, k, hcut, by omega⟩

theorem getNextOutputText_delta (d : IncrementalDetokenizer D) (finished : Bool) :
    let length := d.outputText.length - if finished then 0 else d.stopBufferLength
    d.getNextOutputText finished true =
      if d.stream.isNone = false ∧ d.lastOutputTextOffset < length then
        ({ d with lastOutputTextOffset := length }, (d.outputText.take length).drop d.lastOutputTextOffset)
      else (d, []) := by
  intro length
  unfold getNextOutputText
  cases d.stream.isNone <;> simp [length, stopBufferLength]

end IncrementalDetokenizer

/-! ## Calls of a streaming caller -/

/-- Feed new tokens, or read the text that may be sent while more may follow. -/
inductive StreamCall
  | update (newTokenIds : List Token) (stopTerminated : Bool)
  | read
deriving DecidableEq

structure TextStream (D : Type) where
  detokenizer : IncrementalDetokenizer D
  emitted : Text := []
  stopReported : Option Text := none

namespace TextStream

/-- One call, and what the caller keeps of its result. -/
def step (tokenizer : TokenizerLike D) (s : TextStream D) : StreamCall → Except Empty (TextStream D)
  | .update newTokenIds stopTerminated =>
    let updated := s.detokenizer.update tokenizer newTokenIds stopTerminated
    .ok { s with detokenizer := updated.1, stopReported := s.stopReported.or updated.2 }
  | .read =>
    let next := s.detokenizer.getNextOutputText false true
    .ok { s with detokenizer := next.1, emitted := s.emitted ++ next.2 }

def HeedsStop (s : TextStream D) : StreamCall → Prop
  | .update _ _ => s.stopReported = none
  | .read => True

instance (s : TextStream D) (call : StreamCall) : Decidable (s.HeedsStop call) :=
  match call with
  | .update _ _ => inferInstanceAs (Decidable (_ = _))
  | .read => inferInstanceAs (Decidable True)

structure Sound (stop : List Text) (s : TextStream D) : Prop where
  stop : s.detokenizer.stop = stop
  emitted : s.emitted = s.detokenizer.outputText.take s.detokenizer.lastOutputTextOffset
  offset_le : s.detokenizer.lastOutputTextOffset ≤ s.detokenizer.outputText.length
  heldBack : s.stopReported = none →
    s.detokenizer.lastOutputTextOffset ≤ s.detokenizer.outputText.length - s.detokenizer.stopBufferLength
  untokenized : s.detokenizer.stream.isNone = true → s.detokenizer.outputText = []

variable {tokenizer : TokenizerLike D} {stop : List Text} {s s' : TextStream D}

theorem take_append_drop_take {text : Text} {a b : ℕ} (h : a ≤ b) :
    text.take a ++ (text.take b).drop a = text.take b := by
  have htake : text.take a = (text.take b).take a := by rw [take_take, min_eq_left h]
  rw [htake, take_append_drop]

theorem Sound.read (h : s.Sound stop) (hstep : s.step tokenizer .read = .ok s') : s'.Sound stop := by
  cases hstep
  rw [getNextOutputText_delta]
  by_cases hread : s.detokenizer.stream.isNone = false ∧ s.detokenizer.lastOutputTextOffset <
      s.detokenizer.outputText.length - s.detokenizer.stopBufferLength
  · rw [if_neg Bool.false_ne_true, if_pos hread]
    refine ⟨h.stop, ?_, Nat.sub_le _ _, fun _ => le_rfl, h.untokenized⟩
    rw [h.emitted, take_append_drop_take hread.2.le]
  · rw [if_neg Bool.false_ne_true, if_neg hread]
    exact { h with emitted := (append_nil _).trans h.emitted }

theorem Sound.update (hstop : ∀ s ∈ stop, s ≠ []) (h : s.Sound stop) (hreported : s.stopReported = none)
    (newTokenIds : List Token) (stopTerminated : Bool)
    (hstep : s.step tokenizer (.update newTokenIds stopTerminated) = .ok s') : s'.Sound stop := by
  cases hstep
  have hheld := h.heldBack hreported
  have hstop' : ∀ text ∈ s.detokenizer.stop, text ≠ [] := h.stop.symm ▸ hstop
  obtain ⟨d', hextends, hupdate⟩ :=
    update_cut tokenizer newTokenIds stopTerminated hstop'
  have hlength := hextends.outputText.length_le
  have hoffset := hextends.lastOutputTextOffset
  have hemitted : s.emitted = d'.outputText.take s.detokenizer.lastOutputTextOffset := by
    rw [h.emitted, prefix_iff_eq_take.mp hextends.outputText, take_take, min_eq_left h.offset_le]
  have huntokenized (hnone : d'.stream.isNone = true) : d'.outputText = [] := by
    rw [hextends.stream] at hnone
    rw [hextends.untokenized hnone, h.untokenized hnone]
  rcases hupdate with hnone | ⟨reported, k, hcut, hk⟩
  · rw [hnone]
    refine ⟨hextends.stop.trans h.stop, ?_, ?_, fun _ => ?_, huntokenized⟩ <;> dsimp only <;> rw [hoffset]
    · exact hemitted
    · exact h.offset_le.trans hlength
    · rw [hextends.stopBufferLength]
      omega
  rw [hcut]
  refine ⟨hextends.stop.trans h.stop, ?_, ?_, ?_, fun hnone => ?_⟩ <;> dsimp only
  · rw [hoffset, take_take, min_eq_left (hheld.trans hk), hemitted]
  · rw [hoffset, length_take]
    have hle := h.offset_le
    omega
  · rw [hreported]
    exact nofun
  · rw [huntokenized hnone, take_nil]

theorem Sound.step (hstop : ∀ s ∈ stop, s ≠ []) {call : StreamCall} (h : s.Sound stop)
    (hheeds : s.HeedsStop call) (hstep : s.step tokenizer call = .ok s') : s'.Sound stop := by
  cases call with
  | update newTokenIds stopTerminated => exact h.update hstop hheeds newTokenIds stopTerminated hstep
  | read => exact h.read hstep

/-- The stream of a new request. -/
def start (stream : Option D) (stop : List Text) (minTokens : ℕ) (includeStopStrInOutput : Bool) :
    TextStream D where
  detokenizer := { stream, stop, minTokens, includeStopStrInOutput }

/-- Streamed text is never retracted: whatever the calls, what was sent is the beginning of the text, and
the final read sends what is missing, if no tokens are fed after a stop was reported. -/
theorem deltas_eq_outputText (tokenizer : TokenizerLike D) (stream : Option D) (stop : List Text)
    (hstop : ∀ s ∈ stop, s ≠ []) (minTokens : ℕ) (includeStopStrInOutput : Bool) (s : TextStream D)
    (hs : Reachable (· = start stream stop minTokens includeStopStrInOutput) HeedsStop
      (TextStream.step tokenizer) s) :
    s.emitted <+: s.detokenizer.outputText ∧
      s.emitted ++ (s.detokenizer.getNextOutputText true true).2 = s.detokenizer.outputText := by
  have hsound : s.Sound stop := by
    refine hs.invariant ?_ fun _ _ _ h hheeds hstep => h.step hstop hheeds hstep
    rintro _ rfl
    exact ⟨rfl, rfl, le_rfl, fun _ => Nat.zero_le _, fun _ => rfl⟩
  refine ⟨hsound.emitted ▸ take_prefix _ _, ?_⟩
  rw [getNextOutputText_delta, if_pos rfl, Nat.sub_zero, hsound.emitted, take_length]
  split_ifs with hread
  · exact take_append_drop _ _
  -- everything was sent, or there is no tokenizer and no text
  rw [append_nil]
  refine take_of_length_le (Nat.le_of_not_lt fun hlt => hread ⟨?_, hlt⟩)
  refine Bool.eq_false_iff.mpr fun hnone => ?_
  rw [hsound.untokenized hnone] at hlt
  exact Nat.not_lt_zero _ hlt

/-- Tokens fed after a reported stop complete another stop string with text that was already sent. -/
theorem deltas_retracted_after_stop : ∃ s, Lib.run (TextStream.step IncrementalDetokenizer.charTokenizer)
        (start (some ()) [['c', 'd', 'e'], ['a', 'b']] 0 false)
        [.update [97, 99, 100] false, .read, .update [101] false, .update [98] false] = .ok s ∧
      s.emitted = ['a'] ∧ s.detokenizer.outputText = [] ∧
      (s.detokenizer.getNextOutputText true true).2 = [] := by
  exact exists_ok_of_decide (by decide)

theorem deltas_eq_outputText_heldBack :
    ∃ s, Lib.checkedRun HeedsStop (TextStream.step IncrementalDetokenizer.charTokenizer)
        (start (some ()) [['c', 'd', 'e'], ['a', 'b']] 0 false)
        [.update [97, 99, 100] false, .read, .update [101, 102] false, .read] = some s ∧
      s.emitted = ['a'] ∧ s.stopReported = some ['c', 'd', 'e'] ∧
      s.emitted ++ (s.detokenizer.getNextOutputText true true).2 = s.detokenizer.outputText := by
  refine exists_checkedRun (P := fun s => s.emitted = ['a'] ∧ s.stopReported = some ['c', 'd', 'e']) (by decide)
    fun s hreach ⟨hemitted, hreported⟩ => ⟨hemitted, hreported, ?_⟩
  exact (deltas_eq_outputText charTokenizer (some ()) [['c', 'd', 'e'], ['a', 'b']] (by decide) 0 false s hreach).2

end TextStream

end VllmPs
