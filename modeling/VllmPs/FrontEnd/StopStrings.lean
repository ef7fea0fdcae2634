import VllmPs.FrontEnd.Text

/-!
# Stop strings

The stop strings are tried in the order of their list, each only in the part of the text where a new occurrence
can begin. The text is cut before the earliest occurrence of any of them unless a string further back in the
list occurs before the first listed one.
-/

namespace VllmPs

open List Option

variable {pattern text : Text} {start i : ℕ}

/-! ## Occurrences -/

/-- A pattern stands at a position of a text. -/
def OccursAt (pattern text : Text) (i : ℕ) : Prop := pattern <+: text.drop i

namespace OccursAt

variable {pattern text text' : Text} {i : ℕ}

theorem end_le (h : OccursAt pattern text i) (hpattern : pattern ≠ []) : i + pattern.length ≤ text.length := by
  have hlength := h.length_le
  have hpos := length_pos_of_ne_nil hpattern
  rw [length_drop] at hlength
  omega

theorem mono (h : OccursAt pattern text i) (htext : text <+: text') : OccursAt pattern text' i :=
  h.trans (htext.drop i)

theorem of_end_le (h : OccursAt pattern text' i) (htext : text <+: text')
    (hend : i + pattern.length ≤ text.length) : OccursAt pattern text i := by
  refine prefix_of_prefix_length_le h (htext.drop i) ?_
  rw [length_drop]
  omega

end OccursAt

theorem findFrom_eq_some :
    findFrom text pattern start = some i ↔ start ≤ i ∧ i ≤ text.length ∧ OccursAt pattern text i ∧
      ∀ j, start ≤ j → j < i → ¬OccursAt pattern text j := by
  unfold findFrom OccursAt
  rw [find?_range_eq_some]
  simp only [Bool.and_eq_true, decide_eq_true_eq, List.isPrefixOf_iff_prefix, mem_range,
    Bool.not_eq_eq_eq_not, Bool.not_true, Bool.and_eq_false_iff, decide_eq_false_iff_not]
  constructor
  · rintro ⟨⟨hstart, hoccurs⟩, hlt, hbefore⟩
    refine ⟨hstart, by omega, hoccurs, fun j hj hji hoccurs' => ?_⟩
    rcases hbefore j hji with hnot | hnot
    · exact hnot hj
    · simp [List.isPrefixOf_iff_prefix.mpr hoccurs'] at hnot
  rintro ⟨hstart, hle, hoccurs, hbefore⟩
  refine ⟨⟨hstart, hoccurs⟩, by omega, fun j hji => ?_⟩
  by_cases hj : start ≤ j
  · refine Or.inr (Bool.eq_false_iff.mpr fun htrue => ?_)
    exact hbefore j hj hji (List.isPrefixOf_iff_prefix.mp htrue)
  · exact Or.inl hj

theorem findFrom_eq_none (hpattern : pattern ≠ []) :
    findFrom text pattern start = none ↔ ∀ i, start ≤ i → ¬OccursAt pattern text i := by
  unfold findFrom OccursAt
  rw [find?_eq_none]
  simp only [mem_range, Bool.and_eq_true, decide_eq_true_eq, List.isPrefixOf_iff_prefix, not_and]
  constructor
  · intro h i hi hoccurs
    have hend := OccursAt.end_le hoccurs hpattern
    exact h i (by omega) hi hoccurs
  · intro h i _ hi
    exact h i hi

theorem findFrom_congr (hpattern : pattern ≠ [])
    (h : ∀ i < start, ¬OccursAt pattern text i) : findFrom text pattern start = findFrom text pattern 0 := by
  cases hfind : findFrom text pattern 0 with
  | none =>
    rw [findFrom_eq_none hpattern] at hfind ⊢
    exact fun i _ => hfind i (Nat.zero_le i)
  | some i =>
    rw [findFrom_eq_some] at hfind ⊢
    obtain ⟨-, hle, hoccurs, hbefore⟩ := hfind
    refine ⟨Nat.le_of_not_lt fun hlt => h i hlt hoccurs, hle, hoccurs, fun j _ => ?_⟩
    exact hbefore j (Nat.zero_le j)

theorem infix_iff_occursAt : pattern <:+: text ↔ ∃ i, OccursAt pattern text i := by
  constructor
  · rintro ⟨before, after, rfl⟩
    refine ⟨before.length, ?_⟩
    rw [OccursAt, append_assoc, drop_left]
    exact prefix_append _ _
  · rintro ⟨i, hoccurs⟩
    exact hoccurs.isInfix.trans (drop_suffix i text).isInfix

/-! ## The check -/

variable (stop : List Text)

/-- No stop string occurs in the text. -/
def Clean (text : Text) : Prop := ∀ s ∈ stop, ¬s <:+: text
  deriving Decidable

def IsEarliest (text : Text) (i : ℕ) : Prop :=
  (∃ s ∈ stop, OccursAt s text i) ∧ ∀ j < i, ∀ s ∈ stop, ¬OccursAt s text j

/-- The first string of the list that occurs in the text decoded so far begins no later than any
string of the list in the full text. -/
def FoundFirst (text full : Text) : Prop :=
  ∀ s ∈ stop.find? fun s => (findFrom text s 0).isSome, ∀ s' ∈ stop, ∀ j ∈ findFrom full s' 0,
    ∃ i ∈ findFrom text s 0, i ≤ j
  deriving Decidable

variable {stop : List Text} {text full old s : Text}

theorem IsEarliest.clean_take (h : IsEarliest stop text i) (hstop : ∀ s ∈ stop, s ≠ []) :
    Clean stop (text.take i) := by
  intro s hs hinfix
  obtain ⟨j, hoccurs⟩ := infix_iff_occursAt.mp hinfix
  have hend := hoccurs.end_le (hstop s hs)
  have hpos := length_pos_of_ne_nil (hstop s hs)
  have hlength := length_take_le i text
  exact h.2 j (by omega) s hs (hoccurs.mono ( take_prefix i text))

theorem findFrom_window {new : Text} (hclean : Clean stop old) (hs : s ∈ stop) (hne : s ≠ []) :
    findFrom (old ++ new) s ((old ++ new).length - (new.length + s.length - 1)) =
      findFrom (old ++ new) s 0 := by
  have hpos := length_pos_of_ne_nil hne
  refine findFrom_congr hne fun i hi hoccurs => ?_
  rw [length_append] at hi
  -- an occurrence before the window would lie in the old text
  exact hclean s hs (infix_iff_occursAt.mpr ⟨i, hoccurs.of_end_le (prefix_append old new) (by omega)⟩)

theorem findSome?_congr {A B : Type*} {f g : A → Option B} {items : List A} (h : ∀ a ∈ items, f a = g a) :
    items.findSome? f = items.findSome? g := by
  induction items with
  | nil => rfl
  | cons a rest ih =>
    rw [List.findSome?_cons, List.findSome?_cons, h a mem_cons_self,
      ih fun b hb => h b (mem_cons_of_mem a hb)]

theorem checkStopStrings_eq (new : Text) (hstop : ∀ s ∈ stop, s ≠ []) (hclean : Clean stop old) :
    checkStopStrings (old ++ new) new.length stop false =
      stop.findSome? fun s => (findFrom (old ++ new) s 0).map fun i => (s, some i) := by
  unfold checkStopStrings
  by_cases hnew : new.length = 0
  · -- nothing is new, and nothing occurs
    rw [if_pos hnew, length_eq_zero_iff.mp hnew, append_nil, eq_comm, List.findSome?_eq_none_iff]
    intro s hs
    rw [map_eq_none_iff, findFrom_eq_none (hstop s hs)]
    exact fun i _ hoccurs => hclean s hs (infix_iff_occursAt.mpr ⟨i, hoccurs⟩)
  rw [if_neg hnew]
  refine findSome?_congr fun s hs => ?_
  have hpos := length_pos_of_ne_nil (hstop s hs)
  dsimp only
  rw [if_neg (by omega), findFrom_window hclean hs (hstop s hs)]
  rfl

theorem clean_of_findSome?_none (hstop : ∀ s ∈ stop, s ≠ [])
    (h : (stop.findSome? fun s => (findFrom text s 0).map fun i => (s, some i)) = none) : Clean stop text := by
  intro s hs hinfix
  obtain ⟨i, hoccurs⟩ := infix_iff_occursAt.mp hinfix
  rw [List.findSome?_eq_none_iff] at h
  have hnone := Option.map_eq_none_iff.mp (h s hs)
  exact (findFrom_eq_none (hstop s hs)).mp hnone i (Nat.zero_le i) hoccurs

/-- The string that cuts the text is the first listed one that occurs, and it cuts at its first occurrence. -/
theorem listed_of_findSome?_some {cut : Option ℕ}
    (h : (stop.findSome? fun s => (findFrom text s 0).map fun i => (s, some i)) = some (s, cut)) :
    s ∈ stop ∧ (∃ i, cut = some i ∧ findFrom text s 0 = some i) ∧
      s ∈ stop.find? fun s => (findFrom text s 0).isSome := by
  rw [List.findSome?_eq_some_iff] at h
  obtain ⟨before, s₀, after, hsplit, hfound, hbefore⟩ := h
  obtain ⟨i, hfind, hpair⟩ := Option.map_eq_some_iff.mp hfound
  obtain ⟨rfl, rfl⟩ := Prod.mk.inj hpair
  refine ⟨hsplit ▸ mem_append_right _ mem_cons_self, ⟨i, rfl, hfind⟩, ?_⟩
  rw [mem_def, find?_eq_some_iff_append]
  refine ⟨by rw [hfind]; rfl, before, after, hsplit, fun s' hs' => ?_⟩
  rw [Option.map_eq_none_iff.mp (hbefore s' hs')]
  rfl

theorem isEarliest_of_findSome?_some {cut : Option ℕ} (hstop : ∀ s ∈ stop, s ≠ [])
    (htext : text <+: full) (hfirst : FoundFirst stop text full)
    (h : (stop.findSome? fun s => (findFrom text s 0).map fun i => (s, some i)) = some (s, cut)) :
    s ∈ stop ∧ ∃ i, cut = some i ∧ IsEarliest stop full i ∧ i ≤ text.length := by
  obtain ⟨hs, ⟨i, rfl, hfind⟩, hlisted⟩ := listed_of_findSome?_some h
  obtain ⟨-, hle, hoccurs, -⟩ := findFrom_eq_some.mp hfind
  refine ⟨hs, i, rfl, ⟨⟨s, hs, hoccurs.mono htext⟩, fun j hj s' hs' hoccurs' => ?_⟩, hle⟩
  -- the first occurrence of another string is not before this one
  cases hother : findFrom full s' 0 with
  | none => exact (findFrom_eq_none (hstop s' hs')).mp hother j (Nat.zero_le j) hoccurs'
  | some j' =>
    obtain ⟨i', hi', hle'⟩ := hfirst s hlisted s' hs' j' hother
    obtain rfl := mem_unique hfind hi'
    obtain ⟨-, -, -, hnone⟩ := findFrom_eq_some.mp hother
    exact hnone j (Nat.zero_le j) (by omega) hoccurs'

theorem foundFirst_of_isEarliest
    (h : (stop.findSome? fun s => (findFrom text s 0).map fun i => (s, some i)) = some (s, some i))
    (hearliest : IsEarliest stop full i) : FoundFirst stop text full := by
  obtain ⟨-, ⟨_, ⟨rfl⟩, hfind⟩, hlisted⟩ := listed_of_findSome?_some h
  intro s' hs' other hother j hj
  obtain rfl := mem_unique hlisted hs'
  refine ⟨i, hfind, not_lt.mp fun hlt => ?_⟩
  exact hearliest.2 j hlt other hother (findFrom_eq_some.mp hj).2.2.1

theorem foundFirst_of_clean (h : Clean stop text) (full : Text) : FoundFirst stop text full := by
  intro s hs
  have hfound : (findFrom text s 0).isSome = true := find?_some (p := fun s => (findFrom text s 0).isSome) hs
  obtain ⟨i, hfind⟩ := Option.isSome_iff_exists.mp hfound
  exact absurd (infix_iff_occursAt.mpr ⟨i, (findFrom_eq_some.mp hfind).2.2.1⟩) (h s (mem_of_find?_eq_some hs))

/-! ## Updates -/

namespace IncrementalDetokenizer

variable {D : Type}

/-- The arguments of a call of `update`. -/
structure UpdateCall where
  newTokenIds : List Token
  stopTerminated : Bool := false

def UpdateCall.decoded (call : UpdateCall) : List Token :=
  if call.stopTerminated then call.newTokenIds.dropLast else call.newTokenIds

/-- Decode tokens one after the other. -/
def decodeTokens (tokenizer : TokenizerLike D) : D → List Token → Text × D
  | stream, [] => ([], stream)
  | stream, token :: rest =>
    let decoded := tokenizer.decodeNext stream token
    let others := decodeTokens tokenizer decoded.2 rest
    (decoded.1 ++ others.1, others.2)

/-- The full decoded text of some calls. -/
def decodedText (tokenizer : TokenizerLike D) (stream : D) (calls : List UpdateCall) : Text :=
  (decodeTokens tokenizer stream (calls.flatMap UpdateCall.decoded)).1

/-- Update until a stop is reported. -/
def updateUntilStop (tokenizer : TokenizerLike D) (d : IncrementalDetokenizer D) :
    List UpdateCall → IncrementalDetokenizer D × Option Text
  | [] => (d, none)
  | call :: rest =>
    let updated := d.update tokenizer call.newTokenIds call.stopTerminated
    if updated.2.isSome then updated else updated.1.updateUntilStop tokenizer rest

variable {tokenizer : TokenizerLike D}

theorem decodeTokens_append (stream : D) (first others : List Token) :
    decodeTokens tokenizer stream (first ++ others) =
      let decoded := decodeTokens tokenizer stream first
      let rest := decodeTokens tokenizer decoded.2 others
      (decoded.1 ++ rest.1, rest.2) := by
  induction first generalizing stream with
  | nil => rfl
  | cons token first ih =>
    rw [cons_append, decodeTokens, decodeTokens, ih]
    simp only [append_assoc]

theorem decodedText_cons (stream : D) (call : UpdateCall) (rest : List UpdateCall) :
    decodedText tokenizer stream (call :: rest) = (decodeTokens tokenizer stream call.decoded).1 ++
        decodedText tokenizer (decodeTokens tokenizer stream call.decoded).2 rest := by
  rw [decodedText, flatMap_cons, decodeTokens_append]
  rfl

structure Decoding (d : IncrementalDetokenizer D) (stop : List Text) (stream : D) (text : Text) : Prop where
  stop : d.stop = stop
  minTokens : d.minTokens = 0
  includeStopStrInOutput : d.includeStopStrInOutput = false
  stream : d.stream = some stream
  outputText : d.outputText = text

variable {d : IncrementalDetokenizer D} {stream : D} {old : Text}

theorem foldl_decodeToken (h : d.Decoding stop stream old) (offset : ℕ) (tokens : List Token) :
    tokens.foldl (decodeToken tokenizer) (d, offset) = ({ d with
        tokenIds := d.tokenIds ++ tokens
        outputText := old ++ (decodeTokens tokenizer stream tokens).1
        stream := some (decodeTokens tokenizer stream tokens).2 }, offset) := by
  induction tokens generalizing d stream old with
  | nil =>
    obtain ⟨-, -, -, hstream, rfl⟩ := h
    simp only [foldl_nil, decodeTokens, append_nil, ← hstream]
  | cons token rest ih =>
    have hdecoded : decodeToken tokenizer (d, offset) token = ({ d with
          tokenIds := d.tokenIds ++ [token]
          outputText := old ++ (tokenizer.decodeNext stream token).1
          stream := some (tokenizer.decodeNext stream token).2 }, offset) := by
      simp only [decodeToken, h.stream, h.outputText, h.minTokens, ne_eq, not_true_eq_false, false_and,
        if_false, map_some, getD_some]
    have hnext : Decoding { d with
        tokenIds := d.tokenIds ++ [token]
        outputText := old ++ (tokenizer.decodeNext stream token).1
        stream := some (tokenizer.decodeNext stream token).2 } stop _ _ :=
      { h with stream := rfl, outputText := rfl }
    rw [foldl_cons, hdecoded, ih hnext]
    simp only [decodeTokens, append_assoc, singleton_append]

/-- A call appends the text of its tokens and cuts it where the check says. -/
theorem update_cases (tokenizer : TokenizerLike D) (h : d.Decoding stop stream old)
    (hstop : ∀ s ∈ stop, s ≠ []) (hclean : Clean stop old) (call : UpdateCall) :
    let decoded := decodeTokens tokenizer stream call.decoded
    let updated := d.update tokenizer call.newTokenIds call.stopTerminated
    (updated.2 = none ∧ updated.1.Decoding stop decoded.2 (old ++ decoded.1) ∧ Clean stop (old ++ decoded.1)) ∨
      ∃ s i, updated.2 = some s ∧ updated.1.outputText = (old ++ decoded.1).take i ∧
        (stop.findSome? fun s => (findFrom (old ++ decoded.1) s 0).map fun i => (s, some i)) =
          some (s, some i) := by
  intro decoded updated
  by_cases hempty : call.newTokenIds = []
  · have hdecoded : decoded = ([], stream) := by
      simp only [decoded, UpdateCall.decoded, hempty, dropLast_nil, ite_self, decodeTokens]
    have hupdated : updated = (d, none) := by
      simp only [updated, update, h.stream, isNone_some, hempty, Bool.false_eq_true, if_false, if_true]
    rw [hupdated, hdecoded, append_nil]
    exact Or.inl ⟨rfl, h, hclean⟩
  -- the tokens are decoded and the text is searched
  set d' : IncrementalDetokenizer D := { d with
    tokenIds := d.tokenIds ++ call.newTokenIds
    outputText := old ++ decoded.1
    stream := some decoded.2 } with hd'
  have hupdated : updated = d'.evaluateStop old.length := by
    simp only [updated, update, h.stream, h.includeStopStrInOutput, isNone_some, hempty,
      Bool.false_eq_true, if_false, Bool.not_false, Bool.and_true]
    rw [foldl_decodeToken h, h.outputText]
    have htokens : d.tokenIds ++ call.decoded ++ call.newTokenIds.drop call.decoded.length =
        d.tokenIds ++ call.newTokenIds := by
      unfold UpdateCall.decoded
      split_ifs
      · rw [length_dropLast, dropLast_eq_take, append_assoc, take_append_drop]
      · rw [drop_length, append_nil]
    rw [hd', ← htokens]
    rfl
  have hlength : d'.outputText.length - old.length = decoded.1.length := by
    rw [hd', length_append, Nat.add_sub_cancel_left]
  have hcheck := checkStopStrings_eq decoded.1 hstop hclean
  have hdecoding : d'.Decoding stop decoded.2 (old ++ decoded.1) :=
    { h with stream := rfl, outputText := rfl }
  rw [hupdated]
  unfold evaluateStop
  by_cases hskip : d'.stop = [] ∨ d'.tokenIds.length ≤ d'.minTokens
  · rw [if_pos hskip]
    refine Or.inl ⟨rfl, hdecoding, ?_⟩
    rcases hskip with hskip | hskip
    · rw [← hdecoding.stop, hskip]
      exact nofun
    · have hpos := length_pos_of_ne_nil hempty
      rw [hdecoding.minTokens, hd', length_append] at hskip
      omega
  rw [if_neg hskip, hlength, hdecoding.stop, hdecoding.includeStopStrInOutput, hdecoding.outputText, hcheck]
  cases hfound : stop.findSome? fun s => (findFrom (old ++ decoded.1) s 0).map fun i => (s, some i) with
  | none => exact Or.inl ⟨rfl, hdecoding, clean_of_findSome?_none hstop hfound⟩
  | some found =>
    obtain ⟨s, cut⟩ := found
    obtain ⟨_, _, hmap⟩ := exists_of_findSome?_eq_some hfound
    obtain ⟨i, -, hpair⟩ := Option.map_eq_some_iff.mp hmap
    cases hpair
    exact Or.inr ⟨_, i, rfl, rfl, rfl⟩

def Outcome (stop : List Text) (full : Text) (result : IncrementalDetokenizer D × Option Text) : Prop :=
  Clean stop result.1.outputText ∧
    match result.2 with
    | none => result.1.outputText = full
    | some s => s ∈ stop ∧ ∃ i, IsEarliest stop full i ∧ result.1.outputText = full.take i

theorem updateUntilStop_outcome (hstop : ∀ s ∈ stop, s ≠ []) (calls : List UpdateCall)
    (h : d.Decoding stop stream old) (hclean : Clean stop old)
    (hfirst : ∀ k < calls.length, Clean stop (old ++ decodedText tokenizer stream (calls.take k)) →
      FoundFirst stop (old ++ decodedText tokenizer stream (calls.take (k + 1)))
        (old ++ decodedText tokenizer stream calls)) :
    Outcome stop (old ++ decodedText tokenizer stream calls) (d.updateUntilStop tokenizer calls) := by
  induction calls generalizing d stream old with
  | nil =>
    refine ⟨h.outputText ▸ hclean, h.outputText.trans ?_⟩
    exact (append_nil old).symm
  | cons call rest ih =>
    have hupdate := update_cases tokenizer h hstop hclean call
    simp only [length_cons, take_succ_cons, decodedText_cons, ← append_assoc] at hfirst hupdate ⊢
    set decoded := decodeTokens tokenizer stream call.decoded with hdecoded
    set full := old ++ decoded.1 ++ decodedText tokenizer decoded.2 rest with hfull
    rcases hupdate with ⟨hnone, hdecoding, hclean'⟩ | ⟨s, i, hsome, htext, hfound⟩
    · rw [updateUntilStop, if_neg (by rw [hnone]; exact Bool.false_ne_true)]
      refine ih hdecoding hclean' fun k hk hk' => hfirst (k + 1) (by omega) ?_
      rwa [take_succ_cons, decodedText_cons, ← append_assoc]
    rw [updateUntilStop, if_pos (by rw [hsome]; rfl)]
    have hnil (stream : D) : decodedText tokenizer stream [] = [] := rfl
    have hlisted : FoundFirst stop (old ++ decoded.1) full := by
      have hzero := hfirst 0 (by omega)
      simp only [take_zero, hnil, append_nil] at hzero
      exact hzero hclean
    obtain ⟨hs, i', hi', hearliest, hle⟩ :=
      isEarliest_of_findSome?_some hstop (prefix_append _ _) hlisted hfound
    cases hi'
    have hcut : (d.update tokenizer call.newTokenIds call.stopTerminated).1.outputText = full.take i :=
      htext.trans (take_append_of_le_length hle).symm
    refine ⟨hcut ▸ hearliest.clean_take hstop, ?_⟩
    rw [hsome]
    exact ⟨hs, i, hearliest, hcut⟩

/-- Conversely, the text is right only if the string that ends the run is the earliest one. -/
theorem foundFirst_of_outcome (hstop : ∀ s ∈ stop, s ≠ []) (calls : List UpdateCall)
    (h : d.Decoding stop stream old) (hclean : Clean stop old)
    (houtcome : Outcome stop (old ++ decodedText tokenizer stream calls) (d.updateUntilStop tokenizer calls)) :
    ∀ k < calls.length, Clean stop (old ++ decodedText tokenizer stream (calls.take k)) →
      FoundFirst stop (old ++ decodedText tokenizer stream (calls.take (k + 1)))
        (old ++ decodedText tokenizer stream calls) := by
  induction calls generalizing d stream old with
  | nil => exact fun k hk => absurd hk (Nat.not_lt_zero k)
  | cons call rest ih =>
    have hupdate := update_cases tokenizer h hstop hclean call
    have hnil (stream : D) : decodedText tokenizer stream [] = [] := rfl
    simp only [decodedText_cons, ← append_assoc] at houtcome hupdate
    set decoded := decodeTokens tokenizer stream call.decoded with hdecoded
    intro k hk hbefore
    simp only [take_succ_cons, decodedText_cons, ← append_assoc] at hbefore ⊢
    rcases hupdate with ⟨hnone, hdecoding, hclean'⟩ | ⟨s, i, hsome, htext, hfound⟩
    · rw [updateUntilStop, if_neg (by rw [hnone]; exact Bool.false_ne_true)] at houtcome
      cases k with
      | zero =>
        rw [take_zero, hnil, append_nil]
        exact foundFirst_of_clean hclean' _
      | succ k =>
        simp only [take_succ_cons, decodedText_cons, ← append_assoc] at hbefore
        exact ih hdecoding hclean' houtcome k (Nat.lt_of_succ_lt_succ hk) hbefore
    obtain ⟨hs, ⟨_, ⟨rfl⟩, hfind⟩, -⟩ := listed_of_findSome?_some hfound
    obtain ⟨-, hle, hoccurs, -⟩ := findFrom_eq_some.mp hfind
    cases k with
    | zero =>
      rw [updateUntilStop, if_pos (by rw [hsome]; rfl)] at houtcome
      have hright := houtcome.2
      rw [hsome] at hright
      obtain ⟨-, i', hearliest, hcut⟩ := hright
      obtain ⟨other, hother, hat⟩ := hearliest.1
      -- both cuts have the same length
      have hlength := congrArg length (htext.symm.trans hcut)
      have hend := hat.end_le (hstop other hother)
      rw [length_take_of_le hle, length_take_of_le (by omega)] at hlength
      rw [take_zero, hnil, append_nil]
      exact foundFirst_of_isEarliest hfound (hlength ▸ hearliest)
    | succ k =>
      simp only [take_succ_cons, decodedText_cons, ← append_assoc] at hbefore
      exact absurd (infix_iff_occursAt.mpr ⟨i, hoccurs.mono (prefix_append _ _)⟩) (hbefore s hs)

/-- The output text never contains a stop string, it is all that was decoded until a stop is reported,
and then it is the text before the earliest occurrence of a stop string in the full decoded text,
however the tokens are grouped: exactly if, at the call after which a stop string occurs, the first listed
one that does begins no later than any in the full text. -/
theorem text_before_earliest_stop (tokenizer : TokenizerLike D) (stream : D) (stop : List Text)
    (hstop : ∀ s ∈ stop, s ≠ []) (calls : List UpdateCall) :
    (∀ k < calls.length, Clean stop (decodedText tokenizer stream (calls.take k)) →
      FoundFirst stop (decodedText tokenizer stream (calls.take (k + 1)))
        (decodedText tokenizer stream calls)) ↔
    Outcome stop (decodedText tokenizer stream calls)
      (updateUntilStop tokenizer { stream := some stream, stop := stop } calls) := by
  have hclean : Clean stop [] := fun s hs hinfix => hstop s hs (eq_nil_of_infix_nil hinfix)
  have hdecoding : Decoding { stream := some stream, stop := stop } stop stream [] := ⟨rfl, rfl, rfl, rfl, rfl⟩
  exact ⟨updateUntilStop_outcome hstop calls hdecoding hclean, foundFirst_of_outcome hstop calls hdecoding hclean⟩

def charTokenizer : TokenizerLike Unit where
  start _ := ()
  decodeNext _ token := ([Char.ofNat token.toNat], ())
  decode tokens := tokens.map fun token => Char.ofNat token.toNat
  decodeAlternative _ token := [Char.ofNat token.toNat]

/-- The stop string that is listed first cuts the text before it and leaves the other one in, unless
the other one arrives in a call of its own. -/
theorem listed_stop_leaves_other :
    let d : IncrementalDetokenizer Unit := { stream := some (), stop := [['b'], ['a']] }
    let together := d.updateUntilStop charTokenizer [⟨[97, 98], false⟩]
    let apart := d.updateUntilStop charTokenizer [⟨[97], false⟩, ⟨[98], false⟩]
    together.2 = some ['b'] ∧ together.1.outputText = ['a'] ∧ ¬Clean d.stop together.1.outputText ∧
      apart.2 = some ['a'] ∧ apart.1.outputText = [] := by
  decide

theorem text_before_earliest_stop_across_calls : Outcome [['b', 'c'], ['d']] ['a', 'b', 'c', 'd']
      (updateUntilStop charTokenizer { stream := some (), stop := [['b', 'c'], ['d']] }
        [⟨[97, 98], false⟩, ⟨[99], false⟩, ⟨[100], false⟩]) :=
  (text_before_earliest_stop charTokenizer () [['b', 'c'], ['d']] (by decide)
    [⟨[97, 98], false⟩, ⟨[99], false⟩, ⟨[100], false⟩]).mp (by decide)

end IncrementalDetokenizer

end VllmPs
