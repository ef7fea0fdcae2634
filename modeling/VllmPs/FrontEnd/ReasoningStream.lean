import VllmPs.FrontEnd.StopStrings
import VllmPs.Sched.Reasoning

/-!
# Reasoning in streamed outputs

A reasoning parser separates the reasoning from the answer, in a whole text or in deltas. The two agree on every
grouping into deltas, except that the parser for DeepSeek R1 leaves the start marker in the text of a delta that
goes on after it and does not reach the end marker.
-/

namespace VllmPs

open List

variable {tag : Text}

/-! ## Texts -/

/-- The position that a Python index stands for in a sequence of length `n`. -/
def pyIndex (n : ℕ) (i : ℤ) : ℕ := if 0 ≤ i then i.toNat else (n + i).toNat

variable (text : Text)

/-- `text[start:stop]` -/
def pySlice (start stop : ℤ) : Text :=
  (text.take (pyIndex text.length stop)).drop (pyIndex text.length start)

/-- `text.find(pattern)` -/
def pyFind (text pattern : Text) : ℤ := ((findFrom text pattern 0).map Int.ofNat).getD (-1)

/-- `text.partition(separator)` -/
def pyPartition (text separator : Text) : Text × Text × Text :=
  match findFrom text separator 0 with
  | some i => (text.take i, separator, text.drop (i + separator.length))
  | none => (text, [], [])

/-- `text or None` -/
def orNone : Option Text := if text = [] then none else some text

/-! ## The parsers -/

structure DeltaMessage where
  reasoning : Option Text := none
  content : Option Text := none
deriving DecidableEq

def thinkStart : Text := "<think>".toList

def thinkEnd : Text := "</think>".toList

def toolCallTag : Text := "<tool_call>".toList

namespace ReasoningParser

variable (parser : ReasoningParser)

/-- `BaseThinkingReasoningParser.extract_content_ids` -/
def extractContentIds (inputIds : List Token) : List Token :=
  if parser.endTokenId ∉ inputIds.dropLast then []
  else inputIds.drop (inputIds.idxOf parser.endTokenId + 1)

def splitAtEnd (deltaText : Text) (start : ℤ) : DeltaMessage :=
  let endIndex := pyFind deltaText thinkEnd
  { reasoning := some (pySlice deltaText start endIndex)
    content := orNone (pySlice deltaText (endIndex + thinkEnd.length) deltaText.length) }

/-- `BaseThinkingReasoningParser.extract_reasoning_streaming` -/
def extractReasoningStreaming (previousTokenIds deltaTokenIds : List Token) (deltaText : Text) :
    Option DeltaMessage :=
  if deltaTokenIds = [parser.startTokenId] ∨ deltaTokenIds = [parser.endTokenId] then none
  else if parser.startTokenId ∈ previousTokenIds then
    if parser.endTokenId ∈ deltaTokenIds then some (splitAtEnd deltaText 0)
    else if parser.endTokenId ∈ previousTokenIds then some { content := some deltaText }
    else some { reasoning := some deltaText }
  else if parser.startTokenId ∈ deltaTokenIds then
    if parser.endTokenId ∈ deltaTokenIds then
      some (splitAtEnd deltaText (pyFind deltaText thinkStart + thinkStart.length))
    else some { reasoning := some deltaText }
  else some { content := some deltaText }

def stripStart (modelOutput : Text) : Text :=
  let parts := pyPartition modelOutput thinkStart
  if parts.2.1 ≠ [] then parts.2.2 else parts.1

end ReasoningParser

/-- The parsers: `DeepSeekR1ReasoningParser` and `Qwen3ReasoningParser`. -/
inductive ThinkingParser
  | deepSeekR1 (base : ReasoningParser)
  | qwen3 (base : ReasoningParser) (toolCallTokenId toolCallEndTokenId : Option Token) (thinkingEnabled : Bool)
deriving DecidableEq

namespace ThinkingParser

open ReasoningParser

def base : ThinkingParser → ReasoningParser
  | deepSeekR1 base => base
  | qwen3 base _ _ _ => base

/-- The loop of `Qwen3ReasoningParser.is_reasoning_end`, from the last token on. -/
def reasoningEndLoop (base : ReasoningParser) (toolCallTokenId toolCallEndTokenId : Option Token) :
    List Token → List Token → Bool
  | [], _ => false
  | id :: rest, later =>
    if id = base.startTokenId then false
    else if id = base.endTokenId then true
    else if toolCallTokenId = some id ∧ ¬ ∃ stop ∈ toolCallEndTokenId, stop ∈ later then true
    else reasoningEndLoop base toolCallTokenId toolCallEndTokenId rest (id :: later)

def isReasoningEnd (inputIds : List Token) : ThinkingParser → Bool
  | deepSeekR1 base => base.isReasoningEnd inputIds
  | qwen3 base call callEnd _ => reasoningEndLoop base call callEnd inputIds.reverse []

def isReasoningEndStreaming (deltaIds : List Token) : ThinkingParser → Bool
  | deepSeekR1 base => base.isReasoningEndStreaming deltaIds
  | qwen3 base call _ _ => base.isReasoningEndStreaming deltaIds || decide (∃ id ∈ call, id ∈ deltaIds)

def extractContentIds (inputIds : List Token) : ThinkingParser → List Token
  | deepSeekR1 base => base.extractContentIds inputIds
  | qwen3 base call _ _ =>
    let result := base.extractContentIds inputIds
    if result ≠ [] then result
    else match call with
      | some id =>
        if id ∈ inputIds then inputIds.drop (inputIds.length - 1 - inputIds.reverse.idxOf id) else []
      | none => []

/-- `extract_reasoning`: the reasoning and the content of a whole output. The parsers differ if there is no end
marker. -/
def extractReasoning (modelOutput : Text) (parser : ThinkingParser) : Option Text × Option Text :=
  let modelOutput := stripStart modelOutput
  let parts := pyPartition modelOutput thinkEnd
  match findFrom modelOutput thinkEnd 0, parser with
  | some _, _ => (some parts.1, orNone parts.2.2)
  | none, deepSeekR1 _ => (some modelOutput, none)
  | none, qwen3 _ _ _ thinkingEnabled =>
    if !thinkingEnabled then (none, some modelOutput)
    else match findFrom modelOutput toolCallTag 0 with
      | some i => (orNone (modelOutput.take i), orNone (modelOutput.drop i))
      | none => (some modelOutput, none)

/-- The text of a delta after a start marker. -/
def stripDelta (base : ReasoningParser) (deltaTokenIds : List Token) (deltaText : Text) : Text :=
  let startIdx := pyFind deltaText thinkStart
  if base.startTokenId ∈ deltaTokenIds ∧ startIdx ≥ 0 then
    pySlice deltaText (startIdx + thinkStart.length) deltaText.length
  else deltaText

/-- `Qwen3ReasoningParser.extract_reasoning_streaming` -/
def extractQwen3Streaming (base : ReasoningParser) (call : Option Token)
    (previousTokenIds deltaTokenIds : List Token) (deltaText : Text) : Option DeltaMessage :=
  let deltaText := stripDelta base deltaTokenIds deltaText
  let endIndex := pyFind deltaText thinkEnd
  let toolIndex := pyFind deltaText toolCallTag
  if base.endTokenId ∈ deltaTokenIds then
    if endIndex ≥ 0 then
      let reasoning := pySlice deltaText 0 endIndex
      let content := pySlice deltaText (endIndex + thinkEnd.length) deltaText.length
      if reasoning = [] ∧ content = [] then none
      else some { reasoning := orNone reasoning, content := orNone content }
    else none
  else if (∃ id ∈ call, id ∈ deltaTokenIds) ∧ toolIndex ≥ 0 then
    some { reasoning := orNone (pySlice deltaText 0 toolIndex)
           content := orNone (pySlice deltaText toolIndex deltaText.length) }
  else if deltaText = [] then none
  else if base.endTokenId ∈ previousTokenIds ∨ ∃ id ∈ call, id ∈ previousTokenIds then
    some { content := some deltaText }
  else some { reasoning := some deltaText }

/-- `extract_reasoning_streaming` -/
def extractReasoningStreaming (previousTokenIds deltaTokenIds : List Token) (deltaText : Text) :
    ThinkingParser → Option DeltaMessage
  | deepSeekR1 base =>
    let ret := base.extractReasoningStreaming previousTokenIds deltaTokenIds deltaText
    if ret.isSome ∧ base.startTokenId ∉ previousTokenIds ∧ base.startTokenId ∉ deltaTokenIds then
      if base.endTokenId ∈ deltaTokenIds then some (splitAtEnd deltaText 0)
      else if base.endTokenId ∈ previousTokenIds then some { content := some deltaText }
      else some { reasoning := some deltaText }
    else ret
  | qwen3 base call _ _ => extractQwen3Streaming base call previousTokenIds deltaTokenIds deltaText

end ThinkingParser

/-! ## `parse_delta` -/

/-- The part of the stream state that is used without a tool parser. -/
structure StreamState where
  promptReasoningChecked : Bool := false
  reasoningEnded : Bool := false
  previousText : Text := []
  previousTokenIds : List Token := []
deriving DecidableEq

namespace ThinkingParser

variable (parser : ThinkingParser)

/-- The first delta looks for the end of the reasoning in the prompt. -/
def checkPrompt (promptTokenIds : Option (List Token)) (state : StreamState) : StreamState :=
  match promptTokenIds with
  | some ids =>
    if !state.promptReasoningChecked then
      { state with
        promptReasoningChecked := true
        reasoningEnded := state.reasoningEnded || parser.isReasoningEnd ids }
    else state
  | none => state

/-- `parse_delta` of a parser with a reasoning parser and without a tool parser. -/
def parseDelta (promptTokenIds : Option (List Token)) (state : StreamState) (deltaText : Text)
    (deltaTokenIds : List Token) : StreamState × Option DeltaMessage :=
  let state := parser.checkPrompt promptTokenIds state
  let currentText := state.previousText ++ deltaText
  let currentTokenIds := state.previousTokenIds ++ deltaTokenIds
  if state.reasoningEnded then
    ({ state with previousText := currentText, previousTokenIds := currentTokenIds },
      some { content := some deltaText })
  else
    let message := parser.extractReasoningStreaming state.previousTokenIds deltaTokenIds deltaText
    if parser.isReasoningEndStreaming deltaTokenIds then
      let currentText := (message.bind (·.content)).getD []
      ({ state with
          reasoningEnded := true
          previousText := currentText
          previousTokenIds := parser.extractContentIds deltaTokenIds },
        some (message.getD { content := some currentText }))
    else
      ({ state with previousText := currentText, previousTokenIds := currentTokenIds }, message)

def stream (decode : Token → Text) (promptTokenIds : Option (List Token)) :
    StreamState → List (List Token) → List (Option DeltaMessage)
  | _, [] => []
  | state, delta :: rest =>
    let parsed := parser.parseDelta promptTokenIds state (delta.flatMap decode) delta
    parsed.2 :: stream decode promptTokenIds parsed.1 rest

end ThinkingParser

def delivered (message : Option DeltaMessage) : Text × Text :=
  ((message.bind (·.reasoning)).getD [], (message.bind (·.content)).getD [])

def streamed (messages : List (Option DeltaMessage)) : Text × Text :=
  ((messages.map delivered).flatMap Prod.fst, (messages.map delivered).flatMap Prod.snd)

/-! ## Markers in a text -/

/-- A marker starts with a character that does not occur in it again. -/
def IsTag (tag : Text) : Prop := ∃ body, tag = '<' :: body ∧ '<' ∉ body

theorem isTag_thinkStart : IsTag thinkStart := ⟨"think>".toList, rfl, by decide⟩

theorem isTag_thinkEnd : IsTag thinkEnd := ⟨"/think>".toList, rfl, by decide⟩

theorem not_prefix_append {other b : Text} (i : ℕ) (hi : i < tag.length) (hi' : i < other.length)
    (hne : tag[i] ≠ other[i]) : ¬ tag <+: other ++ b := by
  intro h
  have hchar := prefix_iff_getElem?.mp h i hi
  rw [getElem?_append_left hi', getElem?_eq_getElem hi'] at hchar
  exact hne (Option.some.inj hchar).symm

namespace IsTag

variable {tag other a b : Text}

theorem occursAt_left (h : IsTag tag) {j : ℕ} (hocc : OccursAt tag (a ++ '<' :: b) j) (hj : j < a.length) :
    OccursAt tag a j := by
  obtain ⟨body, rfl, hbody⟩ := h
  refine hocc.of_end_le (prefix_append ..) ?_
  by_contra hlong
  rw [length_cons] at hlong
  have hlt : a.length - j < ('<' :: body).length := by
    rw [length_cons]
    omega
  have hchar := prefix_iff_getElem?.mp hocc (a.length - j) hlt
  rw [getElem?_drop, Nat.add_sub_of_le hj.le, getElem?_append_right le_rfl, Nat.sub_self,
    getElem?_cons_zero] at hchar
  obtain ⟨k, hk⟩ := Nat.exists_eq_succ_of_ne_zero (show a.length - j ≠ 0 by omega)
  simp only [hk, Nat.succ_eq_add_one, getElem_cons_succ, Option.some.injEq] at hchar
  exact hbody (hchar ▸ getElem_mem _)

theorem find (b : Text) (h : IsTag tag) (ha : ¬ tag <:+: a) : findFrom (a ++ (tag ++ b)) tag 0 = some a.length := by
  refine findFrom_eq_some.mpr ⟨Nat.zero_le _, by simp, ?_, fun j _ hj hocc => ha ?_⟩
  · rw [OccursAt, drop_left]
    exact prefix_append ..
  · obtain ⟨body, htag, -⟩ := id h
    rw [htag, cons_append, ← htag] at hocc
    exact infix_iff_occursAt.mpr ⟨j, h.occursAt_left hocc hj⟩

theorem not_infix_append (h : IsTag tag) (ha : ¬ tag <:+: a) (hb : ¬ tag <:+: '<' :: b) :
    ¬ tag <:+: a ++ '<' :: b := by
  intro hpart
  obtain ⟨j, hocc⟩ := infix_iff_occursAt.mp hpart
  rcases Nat.lt_or_ge j a.length with hj | hj
  · exact ha (infix_iff_occursAt.mpr ⟨j, h.occursAt_left hocc hj⟩)
  · rw [OccursAt, drop_append, drop_eq_nil_of_le hj, nil_append] at hocc
    exact hb (infix_iff_occursAt.mpr ⟨_, hocc⟩)

theorem not_infix_tag_append (h : IsTag tag) (hother : IsTag other) (hne : ¬ tag <+: other ++ b)
    (hb : ¬ tag <:+: b) : ¬ tag <:+: other ++ b := by
  obtain ⟨body, rfl, -⟩ := h
  obtain ⟨rest, rfl, hrest⟩ := hother
  rw [cons_append, List.infix_cons_iff, ← cons_append]
  rintro (hpre | hpart)
  · exact hne hpre
  clear hne
  induction rest with
  | nil => exact hb hpart
  | cons c rest ih =>
    rw [mem_cons, not_or] at hrest
    rcases List.infix_cons_iff.mp hpart with hpre | hpart
    · exact hrest.1 (cons_prefix_cons.mp hpre).1
    · exact ih hrest.2 hpart

end IsTag

theorem pySlice_natCast (start stop : ℕ) : pySlice text start stop = (text.take stop).drop start := by
  simp [pySlice, pyIndex]

theorem pySlice_append (a b : Text) (start : ℕ) : pySlice (a ++ b) start a.length = a.drop start := by
  rw [pySlice_natCast, take_left]

theorem pySlice_from (a b : Text) (start : ℕ) (h : start = a.length) :
    pySlice (a ++ b) start (a ++ b).length = b := by
  rw [pySlice_natCast, take_length, h, drop_left]

theorem pyFind_tag {a : Text} (b : Text) (h : IsTag tag) (ha : ¬ tag <:+: a) :
    pyFind (a ++ (tag ++ b)) tag = a.length := by
  rw [pyFind, h.find b ha]
  rfl

theorem pyFind_tag_left {b : Text} (h : IsTag tag) : pyFind (tag ++ b) tag = 0 := by
  obtain ⟨body, rfl, -⟩ := id h
  exact pyFind_tag b h (a := []) (by simp)

theorem splitAtEnd_eq {a : Text} (b : Text) (ha : ¬ thinkEnd <:+: a) (start : ℕ) :
    ReasoningParser.splitAtEnd (a ++ (thinkEnd ++ b)) start =
      { reasoning := some (a.drop start), content := orNone b } := by
  unfold ReasoningParser.splitAtEnd
  dsimp only
  rw [pyFind_tag b isTag_thinkEnd ha, pySlice_append, ← append_assoc, ← Nat.cast_add,
    pySlice_from _ _ _ (by rw [length_append])]

/-! ## What a delta contributes -/

namespace ThinkingParser

variable {content : Option (List Token)}

def toolCallTokenId : ThinkingParser → Option Token
  | deepSeekR1 _ => none
  | qwen3 _ call _ _ => call

variable {parser : ThinkingParser} {decode : Token → Text}

structure Marks (parser : ThinkingParser) (decode : Token → Text) : Prop where
  start : decode parser.base.startTokenId = thinkStart
  stop : decode parser.base.endTokenId = thinkEnd
  ne : parser.base.startTokenId ≠ parser.base.endTokenId
  call : parser.base.startTokenId ∉ parser.toolCallTokenId

/-- Tokens of a text that is free of markers. -/
structure Plain (parser : ThinkingParser) (decode : Token → Text) (ids : List Token) : Prop where
  start : parser.base.startTokenId ∉ ids
  stop : parser.base.endTokenId ∉ ids
  call : ∀ id ∈ parser.toolCallTokenId, id ∉ ids
  text : ∀ tag ∈ [thinkStart, thinkEnd, toolCallTag], ¬ tag <:+: ids.flatMap decode

theorem Plain.of_append {a b : List Token} (h : parser.Plain decode (a ++ b)) :
    parser.Plain decode a ∧ parser.Plain decode b := by
  obtain ⟨hstart, hstop, hcall, htext⟩ := h
  simp only [mem_append, not_or, flatMap_append] at hstart hstop hcall htext
  exact ⟨⟨hstart.1, hstop.1, fun id hid => (hcall id hid).1,
      fun tag htag hpart => htext tag htag (hpart.trans (List.infix_append' [] _ _))⟩,
    ⟨hstart.2, hstop.2, fun id hid => (hcall id hid).2,
      fun tag htag hpart => htext tag htag (hpart.trans (List.suffix_append _ _).isInfix)⟩⟩

theorem getD_orNone (text : Text) : (orNone text).getD [] = text := by
  unfold orNone
  split_ifs with h
  · exact h.symm
  · rfl

/-- The text of the deltas that the parser for DeepSeek R1 reads right: the start marker stands alone, or the end
marker stands in its delta, too. -/
def StartApart (parser : ThinkingParser) (delta : List Token) : Prop :=
  match parser with
  | deepSeekR1 base => base.startTokenId ∈ delta → delta = [base.startTokenId] ∨ base.endTokenId ∈ delta
  | qwen3 .. => True

instance (parser : ThinkingParser) (delta : List Token) : Decidable (parser.StartApart delta) :=
  match parser with
  | deepSeekR1 _ => inferInstanceAs (Decidable (_ → _))
  | qwen3 .. => inferInstanceAs (Decidable True)

section Deltas

variable {base : ReasoningParser} {call callEnd : Option Token} {thinkingEnabled : Bool} {pre ids d c : List Token}
  {text : Text}

theorem deepSeekR1_plain (hstart : base.startTokenId ∉ ids) (hstop : base.endTokenId ∉ ids)
    (hpre : base.endTokenId ∉ pre) :
    delivered ((deepSeekR1 base).extractReasoningStreaming pre ids text) = (text, []) := by
  have hsingle : ¬(ids = [base.startTokenId] ∨ ids = [base.endTokenId]) := by
    rintro (rfl | rfl)
    · exact hstart (mem_singleton_self _)
    · exact hstop (mem_singleton_self _)
  by_cases hbefore : base.startTokenId ∈ pre
  · simp [extractReasoningStreaming, ReasoningParser.extractReasoningStreaming, delivered, *]
  · simp [extractReasoningStreaming, ReasoningParser.extractReasoningStreaming, delivered, *]

theorem deepSeekR1_end (hstart : base.startTokenId ∉ ids) (hids : ids = d ++ base.endTokenId :: c)
    (hclean : ¬ thinkEnd <:+: d.flatMap decode)
    (htext : text = d.flatMap decode ++ (thinkEnd ++ c.flatMap decode)) :
    delivered ((deepSeekR1 base).extractReasoningStreaming pre ids text) =
      (d.flatMap decode, c.flatMap decode) := by
  have hstop : base.endTokenId ∈ ids := hids ▸ mem_append_right _ mem_cons_self
  have hfirst : ids ≠ [base.startTokenId] := fun h => hstart (h ▸ mem_singleton_self _)
  have hsplit := splitAtEnd_eq (c.flatMap decode) hclean 0
  rw [← htext, Nat.cast_zero, drop_zero] at hsplit
  by_cases hsingle : ids = [base.endTokenId]
  · obtain ⟨rfl, rfl⟩ : d = [] ∧ c = [] := by simpa [append_eq_cons_iff] using hids.symm.trans hsingle
    simp [extractReasoningStreaming, ReasoningParser.extractReasoningStreaming, delivered, hsingle]
  by_cases hbefore : base.startTokenId ∈ pre
  · simp [extractReasoningStreaming, ReasoningParser.extractReasoningStreaming, delivered, getD_orNone, hbefore,
      hsingle, hfirst, hstop, hsplit]
  · simp [extractReasoningStreaming, ReasoningParser.extractReasoningStreaming, delivered, getD_orNone, hbefore,
      hsingle, hfirst, hstart, hstop, hsplit]

theorem deepSeekR1_whole (hids : ids = base.startTokenId :: (d ++ base.endTokenId :: c))
    (hclean : ¬ thinkEnd <:+: d.flatMap decode)
    (htext : text = thinkStart ++ (d.flatMap decode ++ (thinkEnd ++ c.flatMap decode))) :
    delivered ((deepSeekR1 base).extractReasoningStreaming [] ids text) =
      (d.flatMap decode, c.flatMap decode) := by
  have hstart : base.startTokenId ∈ ids := hids ▸ mem_cons_self
  have hstop : base.endTokenId ∈ ids := by simp [hids]
  have hsingle : ∀ id, ids ≠ [id] := by simp [hids]
  have hfind : pyFind text thinkStart + thinkStart.length = (thinkStart.length : ℕ) := by
    rw [htext, pyFind_tag_left isTag_thinkStart, Int.zero_add]
  have hbefore : ¬ thinkEnd <:+: thinkStart ++ d.flatMap decode :=
    isTag_thinkEnd.not_infix_tag_append isTag_thinkStart (not_prefix_append 1 (by decide) (by decide) (by decide))
      hclean
  have hsplit := splitAtEnd_eq (c.flatMap decode) hbefore thinkStart.length
  rw [append_assoc, ← htext, drop_left] at hsplit
  simp [extractReasoningStreaming, ReasoningParser.extractReasoningStreaming, delivered, getD_orNone, hstart, hstop,
    hsingle, hfind, hsplit]

theorem qwen3_plain (hstop : base.endTokenId ∉ ids) (hcall : ∀ id ∈ call, id ∉ ids)
    (hpre : base.endTokenId ∉ pre) (hcallPre : ∀ id ∈ call, id ∉ pre)
    (htext : stripDelta base ids text = d.flatMap decode) :
    delivered ((qwen3 base call callEnd thinkingEnabled).extractReasoningStreaming pre ids text) =
      (d.flatMap decode, []) := by
  have hnone : ¬∃ id ∈ call, id ∈ ids := fun ⟨id, hid, hmem⟩ => hcall id hid hmem
  have hnonePre : ¬∃ id ∈ call, id ∈ pre := fun ⟨id, hid, hmem⟩ => hcallPre id hid hmem
  simp only [extractReasoningStreaming, extractQwen3Streaming, htext, hstop, hpre, hnone, hnonePre, if_false, or_self,
    false_and]
  split_ifs with hempty
  · rw [hempty]
    rfl
  · rfl

theorem qwen3_end (hstop : base.endTokenId ∈ ids) (hclean : ¬ thinkEnd <:+: d.flatMap decode)
    (htext : stripDelta base ids text = d.flatMap decode ++ (thinkEnd ++ c.flatMap decode)) :
    delivered ((qwen3 base call callEnd thinkingEnabled).extractReasoningStreaming pre ids text) =
      (d.flatMap decode, c.flatMap decode) := by
  have hfind := pyFind_tag (c.flatMap decode) isTag_thinkEnd hclean
  have hreasoning := pySlice_append (d.flatMap decode) (thinkEnd ++ c.flatMap decode) 0
  have hcontent := pySlice_from (d.flatMap decode ++ thinkEnd) (c.flatMap decode) _ length_append.symm
  rw [append_assoc, Nat.cast_add] at hcontent
  rw [drop_zero, Nat.cast_zero] at hreasoning
  simp only [extractReasoningStreaming, extractQwen3Streaming, htext, hstop, hfind, hreasoning, hcontent, if_true,
    ge_iff_le, Nat.cast_nonneg]
  split_ifs with hempty
  · rw [hempty.1, hempty.2]
    rfl
  · simp [delivered, getD_orNone]

end Deltas

def markers (parser : ThinkingParser) (hasStart : Bool) : List Token :=
  if hasStart then [parser.base.startTokenId] else []

/-- The tokens before a delta belong to the reasoning. -/
structure Before (parser : ThinkingParser) (pre : List Token) (hasStart : Bool) : Prop where
  stop : parser.base.endTokenId ∉ pre
  call : ∀ id ∈ parser.toolCallTokenId, id ∉ pre
  first : hasStart = true → pre = []

variable {pre d c : List Token} {hasStart : Bool}

theorem Plain.no_end (hd : parser.Plain decode d) (hmarks : parser.Marks decode) (hasStart : Bool) :
    parser.base.endTokenId ∉ parser.markers hasStart ++ d ∧
      ∀ id ∈ parser.toolCallTokenId, id ∉ parser.markers hasStart ++ d := by
  refine ⟨?_, fun id hid => ?_⟩
  · cases hasStart <;> simp [markers, hd.stop, hmarks.ne.symm]
  · have hne : id ≠ parser.base.startTokenId := by
      rintro rfl
      exact hmarks.call hid
    cases hasStart <;> simp [markers, hd.call id hid, hne]

section

variable (hmarks : parser.Marks decode)
include hmarks

theorem flatMap_markers (ids : List Token) :
    (parser.markers true ++ ids).flatMap decode = thinkStart ++ ids.flatMap decode := by
  rw [← hmarks.start]
  rfl

theorem stripDelta_markers (hasStart : Bool) {ids : List Token} (hids : parser.base.startTokenId ∉ ids) :
    stripDelta parser.base (parser.markers hasStart ++ ids) ((parser.markers hasStart ++ ids).flatMap decode) =
      ids.flatMap decode := by
  unfold stripDelta
  dsimp only
  cases hasStart with
  | false => exact if_neg fun h => hids h.1
  | true =>
    have hslice := pySlice_from thinkStart (ids.flatMap decode) _ rfl
    rw [flatMap_markers hmarks, pyFind_tag_left isTag_thinkStart, Int.zero_add, hslice,
      if_pos ⟨mem_append_left _ (mem_singleton_self _), le_rfl⟩]

theorem extractReasoningStreaming_plain (hbefore : parser.Before pre hasStart)
    (hd : parser.Plain decode d) (hapart : parser.StartApart (parser.markers hasStart ++ d)) :
    delivered (parser.extractReasoningStreaming pre (parser.markers hasStart ++ d)
      ((parser.markers hasStart ++ d).flatMap decode)) = (d.flatMap decode, []) := by
  obtain ⟨hstop, hcall⟩ := hd.no_end hmarks hasStart
  have hstrip := stripDelta_markers hmarks hasStart hd.start
  cases parser with
  | deepSeekR1 base =>
    cases hasStart with
    | false => exact deepSeekR1_plain hd.start hd.stop hbefore.stop
    | true =>
      obtain hd' | hmem := hapart (mem_append_left _ (mem_singleton_self _))
      · obtain rfl : d = [] := (List.cons.inj hd').2
        simp [extractReasoningStreaming, ReasoningParser.extractReasoningStreaming, markers, ThinkingParser.base,
          delivered]
      · exact absurd hmem hstop
  | qwen3 base call callEnd thinkingEnabled =>
    exact qwen3_plain hstop hcall hbefore.stop hbefore.call hstrip

theorem extractReasoningStreaming_end (hbefore : parser.Before pre hasStart)
    (hd : parser.Plain decode d) (hc : parser.Plain decode c) :
    delivered (parser.extractReasoningStreaming pre (parser.markers hasStart ++ (d ++ parser.base.endTokenId :: c))
      ((parser.markers hasStart ++ (d ++ parser.base.endTokenId :: c)).flatMap decode)) =
      (d.flatMap decode, c.flatMap decode) := by
  have hclean : ¬ thinkEnd <:+: d.flatMap decode := hd.text _ (by simp)
  have hstart : parser.base.startTokenId ∉ d ++ parser.base.endTokenId :: c := by
    simp [hd.start, hc.start, hmarks.ne]
  have htext : (d ++ parser.base.endTokenId :: c).flatMap decode =
      d.flatMap decode ++ (thinkEnd ++ c.flatMap decode) := by
    rw [flatMap_append, flatMap_cons, hmarks.stop]
  have hstrip := (stripDelta_markers hmarks hasStart hstart).trans htext
  cases parser with
  | deepSeekR1 base =>
    cases hasStart with
    | false => exact deepSeekR1_end hstart rfl hclean htext
    | true =>
      obtain rfl := hbefore.first rfl
      exact deepSeekR1_whole rfl hclean (htext ▸ flatMap_markers hmarks _)
  | qwen3 base call callEnd thinkingEnabled =>
    exact qwen3_end (mem_append_right _ (mem_append_right _ mem_cons_self)) hclean hstrip

end

/-! ## Whole streams -/

/-- The prompt does not end the reasoning. -/
def Thinks (parser : ThinkingParser) (prompt : Option (List Token)) : Prop :=
  ∀ ids ∈ prompt, parser.isReasoningEnd ids = false

variable {prompt : Option (List Token)} {state : StreamState}

theorem parseDelta_ended (h : state.reasoningEnded = true) (text : Text) (delta : List Token) :
    (parser.parseDelta prompt state text delta).1.reasoningEnded = true ∧
      (parser.parseDelta prompt state text delta).2 = some { content := some text } := by
  have hended : (parser.checkPrompt prompt state).reasoningEnded = true := by
    unfold checkPrompt
    cases prompt with
    | none => exact h
    | some ids => split_ifs <;> simp [h]
  unfold parseDelta
  rw [if_pos hended]
  exact ⟨hended, rfl⟩

theorem parseDelta_thinking (hprompt : parser.Thinks prompt) (h : state.reasoningEnded = false) (text : Text)
    (delta : List Token) :
    (parser.parseDelta prompt state text delta).1.reasoningEnded = parser.isReasoningEndStreaming delta ∧
      (parser.isReasoningEndStreaming delta = false →
        (parser.parseDelta prompt state text delta).1.previousTokenIds = state.previousTokenIds ++ delta) ∧
      delivered (parser.parseDelta prompt state text delta).2 =
        delivered (parser.extractReasoningStreaming state.previousTokenIds delta text) := by
  obtain ⟨hthinks, hids⟩ : (parser.checkPrompt prompt state).reasoningEnded = false ∧
      (parser.checkPrompt prompt state).previousTokenIds = state.previousTokenIds := by
    unfold checkPrompt
    cases prompt with
    | none => exact ⟨h, rfl⟩
    | some ids => split_ifs <;> simp [h, hprompt ids rfl]
  unfold parseDelta
  dsimp only
  rw [hthinks, if_neg Bool.false_ne_true, hids]
  cases hends : parser.isReasoningEndStreaming delta with
  | false =>
    rw [if_neg Bool.false_ne_true]
    exact ⟨rfl, fun _ => rfl, rfl⟩
  | true =>
    rw [if_pos rfl]
    refine ⟨rfl, nofun, ?_⟩
    cases parser.extractReasoningStreaming state.previousTokenIds delta text <;> rfl

theorem streamed_cons {delta : List Token} {reasoning content : Text} (deltas : List (List Token))
    (h : delivered (parser.parseDelta prompt state (delta.flatMap decode) delta).2 = (reasoning, content)) :
    streamed (parser.stream decode prompt state (delta :: deltas)) =
      (reasoning ++ (streamed (parser.stream decode prompt
          (parser.parseDelta prompt state (delta.flatMap decode) delta).1 deltas)).1,
        content ++ (streamed (parser.stream decode prompt
          (parser.parseDelta prompt state (delta.flatMap decode) delta).1 deltas)).2) := by
  simp only [streamed, stream, map_cons, flatMap_cons, h]

theorem stream_ended (deltas : List (List Token)) (h : state.reasoningEnded = true) :
    streamed (parser.stream decode prompt state deltas) = ([], deltas.flatten.flatMap decode) := by
  induction deltas generalizing state with
  | nil => rfl
  | cons delta rest ih =>
    obtain ⟨hended, hmessage⟩ := parseDelta_ended h (delta.flatMap decode) delta
    rw [streamed_cons rest (congrArg delivered hmessage), ih hended, flatten_cons, flatMap_append]
    rfl

theorem first_delta {delta rest r : List Token} (hne : delta ≠ [])
    (h : delta ++ rest = parser.markers hasStart ++ (r ++ content.elim [] (parser.base.endTokenId :: ·))) :
    (∃ d r', delta = parser.markers hasStart ++ d ∧ r = d ++ r' ∧
      rest = parser.markers false ++ (r' ++ content.elim [] (parser.base.endTokenId :: ·))) ∨
    ∃ c, delta = parser.markers hasStart ++ (r ++ parser.base.endTokenId :: c) ∧ content = some (c ++ rest) := by
  obtain ⟨d, rfl, hd⟩ : ∃ d, delta = parser.markers hasStart ++ d ∧
      d ++ rest = r ++ content.elim [] (parser.base.endTokenId :: ·) := by
    cases hasStart with
    | false => exact ⟨delta, rfl, h⟩
    | true =>
      obtain ⟨id, d, rfl⟩ := exists_cons_of_ne_nil hne
      obtain ⟨rfl, hd⟩ := List.cons.inj h
      exact ⟨d, rfl, hd⟩
  rcases append_eq_append_iff.mp hd with ⟨r', rfl, hrest⟩ | ⟨tail, rfl, htail⟩
  · exact Or.inl ⟨d, r', rfl, rfl, hrest⟩
  cases tail with
  | nil => exact Or.inl ⟨r, [], by simp, by simp, by simpa [markers] using htail.symm⟩
  | cons id c =>
    cases content with
    | none => cases htail
    | some text =>
      obtain ⟨rfl, rfl⟩ := List.cons.inj htail
      exact Or.inr ⟨c, rfl, rfl⟩

theorem stream_thinking (hmarks : parser.Marks decode) (hprompt : parser.Thinks prompt)
    {deltas : List (List Token)} {r : List Token}
    (h : state.reasoningEnded = false) (hbefore : parser.Before state.previousTokenIds hasStart)
    (hnonempty : ∀ delta ∈ deltas, delta ≠ []) (hapart : ∀ delta ∈ deltas, parser.StartApart delta)
    (hr : parser.Plain decode r) (hc : ∀ c ∈ content, parser.Plain decode c)
    (hdeltas : deltas.flatten = parser.markers hasStart ++
      (r ++ content.elim [] (parser.base.endTokenId :: ·))) :
    streamed (parser.stream decode prompt state deltas) =
      (r.flatMap decode, (content.getD []).flatMap decode) := by
  induction deltas generalizing state hasStart r with
  | nil =>
    obtain ⟨-, hrest⟩ := append_eq_nil_iff.mp hdeltas.symm
    obtain ⟨rfl, hend⟩ := append_eq_nil_iff.mp hrest
    cases content with
    | none => rfl
    | some c => cases hend
  | cons delta rest ih =>
    have hapartDelta := hapart delta mem_cons_self
    rcases first_delta (hnonempty delta mem_cons_self) hdeltas with
      ⟨d, r', rfl, rfl, hrest⟩ | ⟨c, rfl, rfl⟩
    · -- the delta belongs to the reasoning
      obtain ⟨hd, hr'⟩ := hr.of_append
      obtain ⟨hstop, hcall⟩ := hd.no_end hmarks hasStart
      have hgoes : parser.isReasoningEndStreaming (parser.markers hasStart ++ d) = false := by
        cases parser with
        | deepSeekR1 base => exact decide_eq_false hstop
        | qwen3 base call callEnd thinkingEnabled =>
          refine Bool.or_eq_false_iff.mpr ⟨decide_eq_false hstop, decide_eq_false ?_⟩
          rintro ⟨id, hid, hmem⟩
          exact hcall id hid hmem
      obtain ⟨hended, hids, hdelivers⟩ := parseDelta_thinking hprompt h
        ((parser.markers hasStart ++ d).flatMap decode) (parser.markers hasStart ++ d)
      rw [extractReasoningStreaming_plain hmarks hbefore hd hapartDelta] at hdelivers
      have hnext : parser.Before (state.previousTokenIds ++ (parser.markers hasStart ++ d)) false := by
        refine ⟨?_, fun id hid => ?_, nofun⟩
        · rw [mem_append, not_or]
          exact ⟨hbefore.stop, hstop⟩
        · rw [mem_append, not_or]
          exact ⟨hbefore.call id hid, hcall id hid⟩
      rw [streamed_cons rest hdelivers, ih (hended.trans hgoes) (by rw [hids hgoes]; exact hnext)
        (fun delta hmem => hnonempty delta (mem_cons_of_mem _ hmem))
        (fun delta hmem => hapart delta (mem_cons_of_mem _ hmem)) hr' hrest, flatMap_append]
      rfl
    -- the delta reaches the content
    have hends : parser.isReasoningEndStreaming
        (parser.markers hasStart ++ (r ++ parser.base.endTokenId :: c)) = true := by
      have hmem : parser.base.endTokenId ∈ parser.markers hasStart ++ (r ++ parser.base.endTokenId :: c) :=
        mem_append_right _ (mem_append_right _ mem_cons_self)
      cases parser with
      | deepSeekR1 base => exact decide_eq_true hmem
      | qwen3 base call callEnd thinkingEnabled => exact Bool.or_eq_true_iff.mpr (Or.inl (decide_eq_true hmem))
    obtain ⟨hplain, -⟩ := (hc _ rfl).of_append
    obtain ⟨hended, -, hdelivers⟩ := parseDelta_thinking hprompt h
      ((parser.markers hasStart ++ (r ++ parser.base.endTokenId :: c)).flatMap decode) _
    rw [extractReasoningStreaming_end hmarks hbefore hr hplain] at hdelivers
    rw [streamed_cons rest hdelivers, stream_ended rest (hended.trans hends), append_nil, Option.getD_some,
      flatMap_append]

/-! ## Whole outputs -/

structure Output (parser : ThinkingParser) (decode : Token → Text) where
  hasStart : Bool
  reasoning : List Token
  content : Option (List Token)
  plain : parser.Plain decode reasoning
  plain_content : ∀ c ∈ content, parser.Plain decode c

def Output.ids (output : parser.Output decode) : List Token :=
  parser.markers output.hasStart ++
    (output.reasoning ++ output.content.elim [] (parser.base.endTokenId :: ·))

/-- The texts of an output are not read as content from the start on. -/
def ThinkingEnabled : ThinkingParser → Prop
  | deepSeekR1 _ => True
  | qwen3 _ _ _ thinkingEnabled => thinkingEnabled = true

theorem findFrom_none {text : Text} (htag : tag ≠ []) (h : ¬ tag <:+: text) : findFrom text tag 0 = none :=
  (findFrom_eq_none htag).mpr fun i _ hocc => h (infix_iff_occursAt.mpr ⟨i, hocc⟩)

theorem stripStart_markers (hmarks : parser.Marks decode) (hasStart : Bool) {ids : List Token}
    (hids : ¬ thinkStart <:+: ids.flatMap decode) :
    ReasoningParser.stripStart ((parser.markers hasStart ++ ids).flatMap decode) = ids.flatMap decode := by
  unfold ReasoningParser.stripStart pyPartition
  cases hasStart with
  | false =>
    rw [show parser.markers false ++ ids = ids from rfl, findFrom_none (by decide) hids]
    rfl
  | true =>
    have hfind := isTag_thinkStart.find (a := []) (ids.flatMap decode) (by decide)
    rw [nil_append, ← flatMap_markers hmarks] at hfind
    rw [hfind, flatMap_markers hmarks]
    dsimp only
    rw [if_pos (by decide), length_nil, Nat.zero_add, drop_left]

theorem extractReasoning_output (hmarks : parser.Marks decode) (hthinking : parser.ThinkingEnabled)
    (output : parser.Output decode) : parser.extractReasoning (output.ids.flatMap decode) =
      (some (output.reasoning.flatMap decode), output.content.bind fun c => orNone (c.flatMap decode)) := by
  obtain ⟨hasStart, r, content, hr, hc⟩ := output
  have hstart : ¬ thinkStart <:+: r.flatMap decode := hr.text _ (by simp)
  have hstop : ¬ thinkEnd <:+: r.flatMap decode := hr.text _ (by simp)
  unfold Output.ids
  cases content with
  | none =>
    have hstrip := stripStart_markers hmarks hasStart hstart
    have hcall : ¬ toolCallTag <:+: r.flatMap decode := hr.text _ (by simp)
    rw [Option.elim_none, append_nil]
    unfold extractReasoning
    dsimp only
    rw [hstrip, findFrom_none (by decide) hstop]
    cases parser with
    | deepSeekR1 base => rfl
    | qwen3 base call callEnd thinkingEnabled =>
      obtain rfl : thinkingEnabled = true := hthinking
      rw [findFrom_none (by decide) hcall]
      rfl
  | some c =>
    have htext : (r ++ parser.base.endTokenId :: c).flatMap decode =
        r.flatMap decode ++ (thinkEnd ++ c.flatMap decode) := by
      rw [flatMap_append, flatMap_cons, hmarks.stop]
    have hclean : ¬ thinkStart <:+: (r ++ parser.base.endTokenId :: c).flatMap decode := by
      rw [htext]
      refine isTag_thinkStart.not_infix_append hstart ?_
      exact isTag_thinkStart.not_infix_tag_append isTag_thinkEnd
        (not_prefix_append 1 (by decide) (by decide) (by decide)) ((hc c rfl).text _ (by simp))
    have hstrip := stripStart_markers hmarks hasStart hclean
    have hfind := isTag_thinkEnd.find (c.flatMap decode) hstop
    rw [← htext] at hfind
    have hparts : pyPartition ((r ++ parser.base.endTokenId :: c).flatMap decode) thinkEnd =
        (r.flatMap decode, thinkEnd, c.flatMap decode) := by
      unfold pyPartition
      rw [hfind, htext]
      dsimp only
      rw [take_left, ← append_assoc, ← length_append, drop_left]
    rw [Option.elim_some]
    unfold extractReasoning
    dsimp only
    rw [hstrip, hfind, hparts]
    cases parser <;> rfl

/-- Streamed deltas deliver the reasoning and the content that are extracted from the whole output, if the parser
is not for DeepSeek R1 or its start marker stands alone in a delta or with the end marker. -/
theorem stream_eq_extractReasoning {parser : ThinkingParser} {decode : Token → Text} (hmarks : parser.Marks decode)
    (hthinking : parser.ThinkingEnabled) (output : parser.Output decode) (prompt : Option (List Token))
    (hprompt : parser.Thinks prompt) (deltas : List (List Token)) (hdeltas : deltas.flatten = output.ids)
    (hnonempty : ∀ delta ∈ deltas, delta ≠ []) (hapart : ∀ delta ∈ deltas, parser.StartApart delta) :
    let whole := parser.extractReasoning (output.ids.flatMap decode)
    streamed (parser.stream decode prompt {} deltas) = (whole.1.getD [], whole.2.getD []) := by
  rw [extractReasoning_output hmarks hthinking, stream_thinking hmarks hprompt rfl
    ⟨not_mem_nil, fun _ _ => not_mem_nil, fun _ => rfl⟩ hnonempty hapart output.plain output.plain_content
    hdeltas]
  cases output.content with
  | none => rfl
  | some c => exact congrArg (Prod.mk _) (getD_orNone _).symm

/-! ## Two outputs -/

/-- A vocabulary of the two markers and of letters. -/
def sampleDecode (id : Token) : Text :=
  if id = 0 then thinkStart else if id = 1 then thinkEnd else if id = 2 then ['a'] else ['b']

def sampleParser : ThinkingParser := deepSeekR1 { startTokenId := 0, endTokenId := 1 }

/-- The output `<think>a</think>b`. -/
def sampleOutput : sampleParser.Output sampleDecode where
  hasStart := true
  reasoning := [2]
  content := some [3]
  plain := ⟨by decide, by decide, nofun, by decide⟩
  plain_content := by
    intro c hc
    cases hc
    exact ⟨by decide, by decide, nofun, by decide⟩

/-- The start marker in a delta of its own, and the end marker in a delta with text on both sides. -/
theorem stream_eq_extractReasoning_apart :
    streamed (sampleParser.stream sampleDecode none {} [[0], [2, 1, 3]]) = (['a'], ['b']) := by
  have hmarks : sampleParser.Marks sampleDecode := ⟨rfl, rfl, by decide, Option.not_mem_none _⟩
  exact stream_eq_extractReasoning hmarks trivial sampleOutput none nofun [[0], [2, 1, 3]] rfl (by decide)
    (by decide)

/-- A delta that goes on after the start marker delivers the marker as reasoning. -/
theorem start_marker_in_reasoning : [[0, 2], [1, 3]].flatten = sampleOutput.ids ∧
      streamed (sampleParser.stream sampleDecode none {} [[0, 2], [1, 3]]) = ("<think>a".toList, ['b']) ∧
      sampleParser.extractReasoning (sampleOutput.ids.flatMap sampleDecode) = (some ['a'], some ['b']) := by
  refine ⟨rfl, ?_, ?_⟩ <;> decide +kernel

end ThinkingParser

end VllmPs
