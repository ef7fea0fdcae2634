import VllmPs.Lib.Utf8

/-!
# The incremental decoder of the Rust front end

The decoder keeps a window of token ids whose text is known and decodes it again with every new token. Its
chunks make up the text of the generated tokens if at least one token was generated, the text of the prompt does
not end in U+FFFD, and no four tokens in a row are without bytes.
-/

namespace VllmPs.Rust

open Lib.Utf8 List

abbrev TokenId := ℕ

structure DecodeStream where
  minBytesToBuffer : ℕ
  ids : List TokenId
  prefixText : Bytes := []
  prefixIndex : ℕ := 0
  cumulativeOutput : Bytes := []
  outputIndex : ℕ := 0
deriving DecidableEq

/-- `String::truncate`, which panics within a character. -/
def truncate (s : Bytes) (newLen : ℕ) : Option Bytes :=
  if s.length < newLen then some s else if isCharBoundary s newLen then some (s.take newLen) else none

namespace DecodeStream

def new (promptTokenIds : List TokenId) (minBytesToBuffer : ℕ) : DecodeStream :=
  { minBytesToBuffer := minBytesToBuffer, ids := promptTokenIds }

def safeSuffixMin : ℕ := 4

def safeSuffixMax : ℕ := 6

section Calls

variable (decode : List TokenId → Bytes)
variable (s : DecodeStream)

/-- Start the window with the shortest suffix that decodes without U+FFFD, or with all ids. -/
def seedPrefix : DecodeStream :=
  let promptLen := s.ids.length
  let sizes :=
    if promptLen > safeSuffixMin then
      List.range' safeSuffixMin (min safeSuffixMax (promptLen - 1) + 1 - safeSuffixMin)
    else []
  match sizes.find? fun n => decide (¬replacement <:+: decode (s.ids.drop (promptLen - n))) with
  | some n =>
    let ids := s.ids.drop (promptLen - n)
    { s with ids := ids, prefixText := decode ids, prefixIndex := ids.length }
  | none =>
    if replacement <:+ decode s.ids then s
    else { s with prefixText := decode s.ids, prefixIndex := s.ids.length }

/-- `push_token` after the window was started. -/
def appendToken (tokenId : TokenId) : DecodeStream × ℕ :=
  let ids := s.ids ++ [tokenId]
  let string := decode ids
  let prefixLen := s.prefixText.length
  if string.length ≤ prefixLen ∨ replacement <:+ string then ({ s with ids := ids }, 0)
  else
    let newChunk := string.drop (floorCharBoundary string prefixLen)
    let ids := ids.drop s.prefixIndex
    ({ s with
        cumulativeOutput := s.cumulativeOutput ++ newChunk
        ids := ids
        prefixText := decode ids
        prefixIndex := ids.length }, newChunk.length)

/-- The new state and the number of new bytes. -/
def pushToken (tokenId : TokenId) : DecodeStream × ℕ :=
  (if s.prefixText = [] ∧ s.ids ≠ [] then s.seedPrefix decode else s).appendToken decode tokenId

def nextChunk : DecodeStream × Option Bytes :=
  let cutoff := floorCharBoundary s.cumulativeOutput (s.cumulativeOutput.length - s.minBytesToBuffer)
  if cutoff > s.outputIndex then
    ({ s with outputIndex := cutoff }, some ((s.cumulativeOutput.take cutoff).drop s.outputIndex))
  else (s, none)

/-- The text with what is left in the window. -/
def flushedOutput : Bytes :=
  if s.ids ≠ [] then
    let string := decode s.ids
    s.cumulativeOutput ++ string.drop (floorCharBoundary string s.prefixText.length)
  else s.cumulativeOutput

/-- The last chunk and the whole text. -/
def flush (truncateOutputTo : Option ℕ) : Option (Option Bytes × Bytes) := do
  let output ← truncateOutputTo.elim (some (s.flushedOutput decode)) (truncate (s.flushedOutput decode))
  return (if s.outputIndex < output.length then some (output.drop s.outputIndex) else none, output)

end Calls

end DecodeStream

inductive DecoderCall
  | pushToken (tokenId : TokenId)
  | nextChunk
deriving DecidableEq

/-- The tokens that calls push. -/
def pushed : List DecoderCall → List TokenId
  | [] => []
  | .pushToken tokenId :: rest => tokenId :: pushed rest
  | .nextChunk :: rest => pushed rest

namespace DecodeStream

def run (decode : List TokenId → Bytes) (s : DecodeStream) : List DecoderCall → DecodeStream × List Bytes
  | [] => (s, [])
  | .pushToken tokenId :: rest => run decode (s.pushToken decode tokenId).1 rest
  | .nextChunk :: rest =>
    let result := run decode s.nextChunk.1 rest
    (result.1, s.nextChunk.2.toList ++ result.2)

variable {decode : List TokenId → Bytes} {s : DecodeStream} {t : TokenId}

/-! ## Chunks -/

/-- The text that has been handed out. -/
structure Released (s : DecodeStream) (text : Bytes) : Prop where
  index : s.outputIndex = text.length
  output : text <+: s.cumulativeOutput

variable {released : Bytes}

section

variable (h : s.Released released)
include h

theorem Released.seedPrefix : (s.seedPrefix decode).Released released := by
  unfold DecodeStream.seedPrefix
  dsimp only
  split
  · exact ⟨h.index, h.output⟩
  · split_ifs <;> exact ⟨h.index, h.output⟩

theorem Released.appendToken (t : TokenId) : (s.appendToken decode t).1.Released released := by
  unfold DecodeStream.appendToken
  dsimp only
  split_ifs
  · exact ⟨h.index, h.output⟩
  · exact ⟨h.index, h.output.trans (prefix_append ..)⟩

theorem Released.pushToken (t : TokenId) : (s.pushToken decode t).1.Released released := by
  unfold DecodeStream.pushToken
  split_ifs
  · exact h.seedPrefix.appendToken t
  · exact h.appendToken t

theorem Released.nextChunk : s.nextChunk.1.Released (released ++ s.nextChunk.2.toList.flatten) := by
  obtain ⟨hindex, rest, hrest⟩ := h
  unfold DecodeStream.nextChunk
  dsimp only
  split_ifs with hcutoff
  · have hle := floorCharBoundary_le s.cumulativeOutput (s.cumulativeOutput.length - s.minBytesToBuffer)
    generalize floorCharBoundary _ _ = cutoff at hcutoff hle
    have hchunk : released ++ (s.cumulativeOutput.take cutoff).drop s.outputIndex = s.cumulativeOutput.take cutoff := by
      rw [← hrest, hindex, take_append, take_of_length_le (by omega), drop_left]
    rw [Option.toList_some, flatten_singleton, hchunk]
    exact ⟨(length_take_of_le hle).symm, take_prefix ..⟩
  · simpa using ⟨hindex, rest, hrest⟩

theorem Released.run (calls : List DecoderCall) :
    (s.run decode calls).1.Released (released ++ (s.run decode calls).2.flatten) := by
  induction calls generalizing s released with
  | nil => simpa [DecodeStream.run] using h
  | cons call rest ih =>
    cases call with
    | pushToken t => exact ih (h.pushToken t)
    | nextChunk =>
      rw [DecodeStream.run, flatten_append, ← append_assoc]
      exact ih h.nextChunk

theorem Released.flush (hadds : s.cumulativeOutput <+: s.flushedOutput decode) :
    ∃ last, s.flush decode none = some (last, s.flushedOutput decode) ∧
      released ++ last.getD [] = s.flushedOutput decode := by
  obtain ⟨rest, hrest⟩ := h.output.trans hadds
  refine ⟨_, rfl, ?_⟩
  split_ifs with hmore
  · rw [Option.getD_some, h.index, ← hrest, drop_left]
  · obtain rfl : rest = [] := by
      rw [h.index, ← hrest, length_append] at hmore
      exact length_eq_zero_iff.mp (by omega)
    simpa using hrest

end

/-! ## The window -/

section Window

variable (bytes : TokenId → Bytes)

def decodeBytes (ids : List TokenId) : Bytes := lossy (ids.flatMap bytes)

/-- Tokens that stop between characters. -/
def Whole (ids : List TokenId) : Prop :=
  ∀ more, decodeBytes bytes (ids ++ more) = decodeBytes bytes ids ++ decodeBytes bytes more

structure Reads (s : DecodeStream) (window emitted pending : List TokenId) : Prop where
  ids : s.ids = window ++ pending
  index : s.prefixIndex = window.length
  text : s.prefixText = decodeBytes bytes window
  whole : Whole bytes window
  output : s.cumulativeOutput = decodeBytes bytes emitted
  done : Whole bytes emitted
  held : s.prefixText = [] → decodeBytes bytes pending = [] ∨ replacement <:+ decodeBytes bytes pending

end Window

variable {bytes : TokenId → Bytes} {window emitted pending : List TokenId}

theorem whole_of_not_suffix (h : ¬replacement <:+ decodeBytes bytes window) : Whole bytes window := by
  intro more
  rw [decodeBytes, flatMap_append]
  exact lossy_append_of_not_suffix h _

theorem Whole.append {a b : List TokenId} (ha : Whole bytes a) (hb : Whole bytes b) : Whole bytes (a ++ b) := by
  intro more
  rw [append_assoc, ha, ha, hb, append_assoc]

theorem Whole.of_nil {a : List TokenId} (h : a.flatMap bytes = []) : Whole bytes a := by
  intro more
  rw [decodeBytes, decodeBytes, flatMap_append, h]
  rfl

theorem Reads.appendToken (h : s.Reads bytes window emitted pending) (t : TokenId) :
    ∃ window' emitted' pending', emitted' ++ pending' = emitted ++ pending ++ [t] ∧
      (s.appendToken (decodeBytes bytes) t).1.Reads bytes window' emitted' pending' := by
  have hstring : decodeBytes bytes (s.ids ++ [t]) = s.prefixText ++ decodeBytes bytes (pending ++ [t]) := by
    rw [h.ids, append_assoc, h.whole, h.text]
  unfold DecodeStream.appendToken
  dsimp only
  split_ifs with hheld
  · refine ⟨window, emitted, pending ++ [t], by rw [append_assoc], ?_, h.index, h.text, h.whole, h.output,
      h.done, fun hnil => ?_⟩
    · rw [h.ids, append_assoc]
    · rw [hstring, hnil, nil_append] at hheld
      exact hheld.imp_left fun hlength => length_eq_zero_iff.mp (Nat.le_zero.mp hlength)
  rw [not_or, hstring, length_append] at hheld
  have hids : (s.ids ++ [t]).drop s.prefixIndex = pending ++ [t] := by
    rw [h.ids, h.index, append_assoc, drop_left]
  have hwhole : Whole bytes (pending ++ [t]) :=
    whole_of_not_suffix fun hends => hheld.2 (hends.trans (List.suffix_append ..))
  refine ⟨pending ++ [t], emitted ++ (pending ++ [t]), [], by simp, ?_, ?_, ?_, hwhole, ?_, h.done.append hwhole,
    fun _ => Or.inl rfl⟩
  · rw [hids, append_nil]
  · rw [hids]
  · rw [hids]
  · dsimp only
    rw [hstring, decodeBytes, drop_floorCharBoundary, h.output, ← decodeBytes, ← h.done]

theorem seedPrefix_cases (decode : List TokenId → Bytes) (s : DecodeStream) :
    s.seedPrefix decode = s ∧ replacement <:+ decode s.ids ∨ ∃ window, window <:+ s.ids ∧
      ¬replacement <:+ decode window ∧ (window = s.ids ∨ 4 ≤ window.length ∧ ¬replacement <:+: decode window) ∧
      s.seedPrefix decode = { s with ids := window, prefixText := decode window, prefixIndex := window.length } := by
  unfold seedPrefix
  dsimp only
  split
  · rename_i n hfind
    have hlength : 4 ≤ (s.ids.drop (s.ids.length - n)).length := by
      have hmem := mem_of_find?_eq_some hfind
      split_ifs at hmem with hlong
      · simp only [safeSuffixMin, safeSuffixMax, mem_range'_1] at hmem hlong
        rw [length_drop]
        omega
      · cases hmem
    have hclean : ¬replacement <:+: decode (s.ids.drop (s.ids.length - n)) := by
      simpa using List.find?_some hfind
    exact Or.inr ⟨_, drop_suffix .., fun hends => hclean hends.isInfix, Or.inr ⟨hlength, hclean⟩, rfl⟩
  · split_ifs with hends
    · exact Or.inl ⟨rfl, hends⟩
    · exact Or.inr ⟨s.ids, List.suffix_refl _, hends, Or.inl rfl, rfl⟩

theorem Reads.start (hprompt : ¬replacement <:+ decodeBytes bytes s.ids) (hnew : s.cumulativeOutput = []) :
    ∃ window, (s.seedPrefix (decodeBytes bytes)).Reads bytes window [] [] := by
  rcases seedPrefix_cases (decodeBytes bytes) s with ⟨-, hends⟩ | ⟨window, -, hclean, -, heq⟩
  · exact absurd hends hprompt
  · rw [heq]
    exact ⟨window, (append_nil _).symm, rfl, rfl, whole_of_not_suffix hclean, hnew, .of_nil rfl,
      fun _ => Or.inl rfl⟩

/-- Among four tokens in a row, one has bytes. -/
def Voiced (bytes : TokenId → Bytes) (ids : List TokenId) : Prop :=
  ∀ four, four <:+: ids → four.length = 4 → four.flatMap bytes ≠ []

theorem Reads.seedPrefix (h : s.Reads bytes window emitted pending) (hnil : s.prefixText = [])
    (hvoiced : Voiced bytes (emitted ++ pending)) :
    ∃ window' emitted' pending', emitted' ++ pending' = emitted ++ pending ∧
      (s.seedPrefix (decodeBytes bytes)).Reads bytes window' emitted' pending' := by
  rcases seedPrefix_cases (decodeBytes bytes) s with ⟨heq, -⟩ | ⟨window', ⟨before, hbefore⟩, hends, hsize, heq⟩
  · exact ⟨window, emitted, pending, rfl, by rwa [heq]⟩
  have hsilent : window.flatMap bytes = [] := eq_nil_of_lossy (h.text.symm.trans hnil)
  have hids : s.ids.flatMap bytes = pending.flatMap bytes := by
    rw [h.ids, flatMap_append, hsilent, nil_append]
  have hpending : pending.flatMap bytes = [] := by
    rcases h.held hnil with hempty | hheld
    · exact eq_nil_of_lossy hempty
    rw [decodeBytes, ← hids] at hheld
    rcases hsize with rfl | ⟨hlength, hclean⟩
    · exact absurd hheld hends
    have hquiet : window'.flatMap bytes = [] := by
      by_contra hne
      rw [← hbefore, flatMap_append] at hheld
      exact not_suffix_lossy_append hne hclean _ hheld
    rcases List.suffix_or_suffix_of_suffix ⟨before, hbefore⟩ ⟨window, h.ids.symm⟩ with hinner | ⟨outer, rfl⟩
    · -- the last four ids are generated tokens without bytes
      refine absurd ?_ (hvoiced (window'.drop (window'.length - 4)) ?_ (by rw [length_drop]; omega))
      · rw [← take_append_drop (window'.length - 4) window', flatMap_append] at hquiet
        exact (append_eq_nil_iff.mp hquiet).2
      · exact ((drop_suffix ..).trans (hinner.trans (List.suffix_append ..))).isInfix
    · rw [flatMap_append] at hquiet
      exact (append_eq_nil_iff.mp hquiet).2
  rw [heq]
  refine ⟨window', emitted ++ pending, [], append_nil _, (append_nil _).symm, rfl, rfl,
    whole_of_not_suffix hends, ?_, h.done.append (.of_nil hpending), fun _ => Or.inl rfl⟩
  rw [h.done, h.output, decodeBytes.eq_def bytes pending, hpending]
  exact (append_nil _).symm

/-! ## Whole runs -/

/-- A stream before the first token. -/
structure Fresh (s : DecodeStream) (prompt : List TokenId) : Prop where
  ids : s.ids = prompt
  text : s.prefixText = []
  index : s.prefixIndex = 0
  output : s.cumulativeOutput = []

def Follows (bytes : TokenId → Bytes) (prompt : List TokenId) (s : DecodeStream) (generated : List TokenId) : Prop :=
  s.Fresh prompt ∧ generated = [] ∨
    ∃ window emitted pending, emitted ++ pending = generated ∧ s.Reads bytes window emitted pending

variable {prompt generated : List TokenId}

theorem Fresh.reads (h : s.Fresh []) : s.Reads bytes [] [] [] :=
  ⟨h.ids, h.index, h.text, .of_nil rfl, h.output, .of_nil rfl, fun _ => Or.inl rfl⟩

section

variable (h : Follows bytes prompt s generated)
include h

theorem Follows.pushToken
    (hprompt : ¬replacement <:+ decodeBytes bytes prompt) (hvoiced : Voiced bytes generated) (t : TokenId) :
    Follows bytes prompt (s.pushToken (decodeBytes bytes) t).1 (generated ++ [t]) := by
  right
  have hstarted : ∃ window emitted pending, emitted ++ pending = generated ∧
      (if s.prefixText = [] ∧ s.ids ≠ [] then s.seedPrefix (decodeBytes bytes) else s).Reads bytes window emitted
        pending := by
    rcases h with ⟨hfresh, rfl⟩ | ⟨window, emitted, pending, rfl, hreads⟩
    · split_ifs with hseed
      · obtain ⟨window, hreads⟩ := Reads.start (hfresh.ids ▸ hprompt) hfresh.output
        exact ⟨window, [], [], rfl, hreads⟩
      · rw [not_and_not_right] at hseed
        obtain rfl := hfresh.ids.symm.trans (hseed hfresh.text)
        exact ⟨[], [], [], rfl, hfresh.reads⟩
    · split_ifs with hseed
      · exact hreads.seedPrefix hseed.1 hvoiced
      · exact ⟨window, emitted, pending, rfl, hreads⟩
  obtain ⟨window, emitted, pending, rfl, hreads⟩ := hstarted
  exact hreads.appendToken t

theorem Follows.nextChunk : Follows bytes prompt s.nextChunk.1 generated := by
  unfold DecodeStream.nextChunk
  dsimp only
  split_ifs
  · exact h.imp (fun ⟨hfresh, hnil⟩ => ⟨{ hfresh with }, hnil⟩)
      fun ⟨window, emitted, pending, hall, hreads⟩ => ⟨window, emitted, pending, hall, { hreads with }⟩
  · exact h

theorem Follows.run (hprompt : ¬replacement <:+ decodeBytes bytes prompt)
    (calls : List DecoderCall) (hvoiced : Voiced bytes (generated ++ pushed calls)) :
    Follows bytes prompt (s.run (decodeBytes bytes) calls).1 (generated ++ pushed calls) := by
  induction calls generalizing s generated with
  | nil => rwa [pushed, append_nil]
  | cons call rest ih =>
    cases call with
    | pushToken t =>
      have hvoicedFirst : Voiced bytes generated := fun four hfour =>
        hvoiced four (hfour.trans (prefix_append ..).isInfix)
      rw [pushed, append_cons] at hvoiced ⊢
      exact ih (h.pushToken hprompt hvoicedFirst t) hvoiced
    | nextChunk => exact ih h.nextChunk hvoiced

end

theorem Reads.flushedOutput (h : s.Reads bytes window emitted pending) :
    s.flushedOutput (decodeBytes bytes) = s.cumulativeOutput ++ decodeBytes bytes pending := by
  unfold DecodeStream.flushedOutput
  split_ifs with hids
  · dsimp only
    rw [h.ids, h.whole, ← h.text, decodeBytes.eq_def bytes pending, drop_floorCharBoundary]
  · rw [not_not, h.ids, append_eq_nil_iff] at hids
    rw [hids.2]
    exact (append_nil _).symm

/-- The chunks of a decoder and its flush make up the text of the generated tokens, for every tokenizer that
decodes the bytes of its tokens, if the prompt does not end in U+FFFD, a token was pushed after it, and no four
tokens in a row are without bytes. -/
theorem chunks_eq_text (hold : ℕ) {calls : List DecoderCall}
    (hprompt : ¬replacement <:+ decodeBytes bytes prompt) (hstarted : prompt = [] ∨ pushed calls ≠ [])
    (hvoiced : Voiced bytes (pushed calls)) :
    ∃ last, ((new prompt hold).run (decodeBytes bytes) calls).1.flush (decodeBytes bytes) none =
        some (last, decodeBytes bytes (pushed calls)) ∧
      ((new prompt hold).run (decodeBytes bytes) calls).2.flatten ++ last.getD [] =
        decodeBytes bytes (pushed calls) := by
  have hnew : Follows bytes prompt (new prompt hold) [] := Or.inl ⟨⟨rfl, rfl, rfl, rfl⟩, rfl⟩
  have hreleased : (new prompt hold).Released [] := ⟨rfl, nil_prefix⟩
  obtain ⟨window, emitted, pending, hall, hreads⟩ : ∃ window emitted pending, emitted ++ pending = pushed calls ∧
      ((new prompt hold).run (decodeBytes bytes) calls).1.Reads bytes window emitted pending := by
    rcases hnew.run hprompt calls hvoiced with ⟨hfresh, hnone⟩ | hreads
    · obtain rfl := hstarted.resolve_right (not_not.mpr hnone)
      exact ⟨[], [], [], hnone.symm, hfresh.reads⟩
    · exact hreads
  have htext := hreads.flushedOutput
  obtain ⟨last, hflush, hlast⟩ := (hreleased.run calls).flush (htext ▸ prefix_append ..)
  rw [htext, hreads.output, ← hreads.done, hall] at hflush hlast
  exact ⟨last, hflush, hlast⟩

def byteTokens (t : TokenId) : Bytes := if t < 256 then [UInt8.ofNat t] else []

/-- The text after calls and the flush. -/
def textAfter (prompt : List TokenId) (calls : List DecoderCall) : Option Bytes :=
  (((new prompt 0).run (decodeBytes byteTokens) calls).1.flush (decodeBytes byteTokens) none).map Prod.snd

/-- The letter é in two tokens after a prompt, with all but one byte handed out before the flush. -/
theorem chunks_eq_text_split : ∃ last,
    ((new [104] 1).run (decodeBytes byteTokens) [.pushToken 195, .pushToken 169, .pushToken 33, .nextChunk]).1.flush
        (decodeBytes byteTokens) none = some (last, [195, 169, 33]) ∧
      [[195, 169]].flatten ++ last.getD [] = [195, 169, 33] :=
  @chunks_eq_text byteTokens [104] 1 [.pushToken 195, .pushToken 169, .pushToken 33, .nextChunk] (by decide)
    (Or.inr (by decide)) fun four hfour hlength => by simpa [hlength, pushed] using hfour.length_le

/-- The prompt is returned as text if nothing is generated or if it ends in U+FFFD, and four special tokens
within the letter é lose its first byte. -/
theorem text_not_generated : (textAfter [104] [] = some [104] ∧ decodeBytes byteTokens [] = []) ∧
    (textAfter [239, 191, 189] [.pushToken 104] = some [239, 191, 189, 104] ∧
      decodeBytes byteTokens [104] = [104]) ∧
    textAfter [] ([195, 256, 256, 256, 256, 169].map .pushToken) = some [239, 191, 189] ∧
      decodeBytes byteTokens [195, 256, 256, 256, 256, 169] = [195, 169] := by
  decide +kernel

end DecodeStream

end VllmPs.Rust
