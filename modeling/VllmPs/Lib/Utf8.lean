import Mathlib.Tactic

/-!
# Lossy decoding of UTF-8

Strings are their bytes in UTF-8. Lossy decoding replaces every maximal part of a byte sequence that starts
no character by U+FFFD. What is decoded from a sequence does not depend on what follows, unless the sequence
stops within a character, and does not depend on what precedes if it starts with no continuation byte.
-/

namespace VllmPs.Lib.Utf8

open List

abbrev Bytes := List UInt8

/-- The bytes of U+FFFD. -/
def replacement : Bytes := [0xEF, 0xBF, 0xBD]

/-- A byte that continues a character. -/
def IsContinuation (b : UInt8) : Prop := 0x80 ≤ b.toNat ∧ b.toNat ≤ 0xBF
  deriving Decidable

/-- A position where a character starts or the string ends. -/
def isCharBoundary (s : Bytes) (i : ℕ) : Bool :=
  i = 0 ∨ i = s.length ∨ ∃ b ∈ s[i]?, ¬IsContinuation b

/-- The last boundary that is not after a position. -/
def floorCharBoundary (s : Bytes) : ℕ → ℕ
  | 0 => 0
  | i + 1 => if s.length ≤ i + 1 then s.length else if isCharBoundary s (i + 1) then i + 1 else
    floorCharBoundary s i

/-! ## The decoder -/

/-- The ranges of the bytes that must follow the first byte of a character. -/
def follow (b : UInt8) : Option (List (ℕ × ℕ)) :=
  let n := b.toNat
  if n ≤ 0x7F then some []
  else if 0xC2 ≤ n ∧ n ≤ 0xDF then some [(0x80, 0xBF)]
  else if n = 0xE0 then some [(0xA0, 0xBF), (0x80, 0xBF)]
  else if n = 0xED then some [(0x80, 0x9F), (0x80, 0xBF)]
  else if 0xE1 ≤ n ∧ n ≤ 0xEF then some [(0x80, 0xBF), (0x80, 0xBF)]
  else if n = 0xF0 then some [(0x90, 0xBF), (0x80, 0xBF), (0x80, 0xBF)]
  else if n = 0xF4 then some [(0x80, 0x8F), (0x80, 0xBF), (0x80, 0xBF)]
  else if 0xF1 ≤ n ∧ n ≤ 0xF3 then some [(0x80, 0xBF), (0x80, 0xBF), (0x80, 0xBF)]
  else none

/-- Between characters, or after some bytes of one, with the range of the next byte and those after it. -/
inductive State
  | ground
  | within (bytes : Bytes) (range : ℕ × ℕ) (more : List (ℕ × ℕ))

/-- The bytes of a character are text once none is missing. -/
def advance (bytes : Bytes) : List (ℕ × ℕ) → Bytes × State
  | [] => (bytes, .ground)
  | range :: more => ([], .within bytes range more)

/-- A byte between characters. -/
def first (b : UInt8) : Bytes × State :=
  match follow b with
  | none => (replacement, .ground)
  | some ranges => advance [b] ranges

/-- The text that a byte makes certain, and the state after it. -/
def step : State → UInt8 → Bytes × State
  | .ground, b => first b
  | .within bytes range more, b =>
    if IsContinuation b ∧ range.1 ≤ b.toNat ∧ b.toNat ≤ range.2 then advance (bytes ++ [b]) more
    else (replacement ++ (first b).1, (first b).2)

def finish : State → Bytes
  | .ground => []
  | .within .. => replacement

def decodeFrom : State → Bytes → Bytes
  | s, [] => finish s
  | s, b :: rest => (step s b).1 ++ decodeFrom (step s b).2 rest

/-- `String::from_utf8_lossy` -/
def lossy : Bytes → Bytes := decodeFrom .ground

variable {s : State} {b : UInt8} {x y : Bytes}

/-! ## What precedes and what follows -/

theorem decodeFrom_append (s : State) (x : Bytes) : ∃ text s', decodeFrom s x = text ++ finish s' ∧
    ∀ y, decodeFrom s (x ++ y) = text ++ decodeFrom s' y := by
  induction x generalizing s with
  | nil => exact ⟨[], s, rfl, fun _ => rfl⟩
  | cons b rest ih =>
    obtain ⟨text, s', hfinish, happend⟩ := ih (step s b).2
    refine ⟨(step s b).1 ++ text, s', ?_, fun y => ?_⟩
    · rw [decodeFrom, hfinish, append_assoc]
    · rw [cons_append, decodeFrom, happend, append_assoc]

theorem lossy_append_of_not_suffix (h : ¬replacement <:+ lossy x) (y : Bytes) :
    lossy (x ++ y) = lossy x ++ lossy y := by
  obtain ⟨text, s, hfinish, happend⟩ := decodeFrom_append .ground x
  cases s with
  | ground =>
    rw [lossy, happend, hfinish, finish, append_nil]
  | within bytes range more => exact absurd ⟨text, hfinish.symm⟩ h

theorem lossy_append_of_head (h : ∀ b ∈ y.head?, ¬IsContinuation b) (x : Bytes) :
    lossy (x ++ y) = lossy x ++ lossy y := by
  obtain ⟨text, s, hfinish, happend⟩ := decodeFrom_append .ground x
  rw [lossy, happend, hfinish, append_assoc]
  cases y with
  | nil => rw [decodeFrom, decodeFrom, finish, append_nil]
  | cons b rest =>
    cases s with
    | ground => rfl
    | within bytes range more =>
      have hstep : step (.within bytes range more) b = (replacement ++ (first b).1, (first b).2) :=
        if_neg fun hmore => h b rfl hmore.1
      rw [decodeFrom, hstep, append_assoc]
      rfl

/-! ## How a text starts -/

/-- The string starts with a character. -/
def Starts (s : Bytes) : Prop := ∃ b ∈ s.head?, ¬IsContinuation b

/-- A character that is not complete has its first byte. -/
def State.Entered : State → Prop
  | .ground => False
  | .within bytes _ _ => Starts bytes

theorem Starts.append (h : Starts x) (y : Bytes) : Starts (x ++ y) := by
  obtain ⟨b, hb, hstart⟩ := h
  exact ⟨b, mem_head?_append_of_mem_head? hb, hstart⟩

theorem starts_replacement : Starts replacement := ⟨0xEF, rfl, by decide⟩

theorem follow_of_isContinuation (h : IsContinuation b) : follow b = none := by
  obtain ⟨hlow, hhigh⟩ := h
  unfold follow
  dsimp only
  split_ifs <;> first | rfl | omega

theorem advance_starts (h : Starts x) (ranges : List (ℕ × ℕ)) :
    (advance x ranges).1 = [] ∧ (advance x ranges).2.Entered ∨ Starts (advance x ranges).1 := by
  cases ranges with
  | nil => exact Or.inr h
  | cons range more => exact Or.inl ⟨rfl, h⟩

theorem first_starts (b : UInt8) : (first b).1 = [] ∧ (first b).2.Entered ∨ Starts (first b).1 := by
  unfold first
  cases hfollow : follow b with
  | none => exact Or.inr starts_replacement
  | some ranges =>
    refine advance_starts ⟨b, rfl, fun hmore => ?_⟩ ranges
    simp [follow_of_isContinuation hmore] at hfollow

theorem step_starts (h : s = .ground ∨ s.Entered) (b : UInt8) :
    (step s b).1 = [] ∧ (step s b).2.Entered ∨ Starts (step s b).1 := by
  cases s with
  | ground => exact first_starts b
  | within bytes range more =>
    rw [step]
    split_ifs
    · exact advance_starts (Starts.append (h.resolve_left nofun) [b]) more
    · exact Or.inr (starts_replacement.append _)

theorem starts_decodeFrom (h : s = .ground ∧ x ≠ [] ∨ s.Entered) : Starts (decodeFrom s x) := by
  induction x generalizing s with
  | nil =>
    obtain ⟨-, hne⟩ | hentered := h
    · exact absurd rfl hne
    · cases s with
      | ground => exact hentered.elim
      | within bytes range more => exact starts_replacement
  | cons b rest ih =>
    rw [decodeFrom]
    rcases step_starts (h.imp_left And.left) b with ⟨hnil, hentered⟩ | hstarts
    · rw [hnil]
      exact ih (Or.inr hentered)
    · exact hstarts.append _

theorem starts_lossy (h : x ≠ []) : Starts (lossy x) := starts_decodeFrom (Or.inl ⟨rfl, h⟩)

theorem eq_nil_of_lossy (h : lossy x = []) : x = [] := by
  by_contra hne
  obtain ⟨b, hb, -⟩ := starts_lossy hne
  simp [h] at hb

theorem not_suffix_append (hstarts : Starts y) (h : ¬replacement <:+: y) (x : Bytes) :
    ¬replacement <:+ x ++ y := by
  intro hends
  rcases List.suffix_or_suffix_of_suffix hends (List.suffix_append x y) with hwithin | hpart
  · exact h hwithin.isInfix
  -- no proper part of the bytes of U+FFFD starts with a character
  have hparts : y ∈ [[], [0xBD], [0xBF, 0xBD], replacement] := by
    rw [← mem_tails] at hpart
    simpa [replacement, or_comm, or_left_comm, or_assoc] using hpart
  simp only [mem_cons, not_mem_nil, or_false] at hparts
  obtain ⟨b, hb, hstart⟩ := hstarts
  rcases hparts with rfl | rfl | rfl | rfl
  · cases hb
  · cases hb
    exact hstart (by decide)
  · cases hb
    exact hstart (by decide)
  · exact h (List.infix_refl _)

theorem not_suffix_lossy_append (hy : y ≠ []) (h : ¬replacement <:+: lossy y) (x : Bytes) :
    ¬replacement <:+ lossy (x ++ y) := by
  rw [lossy_append_of_head (fun b hb hmore => h ?_)]
  · exact not_suffix_append (starts_lossy hy) h _
  · obtain ⟨rest, rfl⟩ : ∃ rest, y = b :: rest := List.head?_eq_some_iff.mp hb
    have hfirst : first b = (replacement, .ground) := by rw [first, follow_of_isContinuation hmore]
    rw [lossy, decodeFrom, step, hfirst]
    exact (prefix_append ..).isInfix

theorem floorCharBoundary_le (s : Bytes) (i : ℕ) : floorCharBoundary s i ≤ s.length := by
  induction i with
  | zero => exact Nat.zero_le _
  | succ i ih =>
    unfold floorCharBoundary
    split_ifs with hlong
    · exact le_rfl
    · exact (Nat.lt_of_not_le hlong).le
    · exact ih

theorem drop_floorCharBoundary (x y : Bytes) :
    (x ++ lossy y).drop (floorCharBoundary (x ++ lossy y) x.length) = lossy y := by
  have hfloor : floorCharBoundary (x ++ lossy y) x.length = x.length := by
    cases hlength : x.length with
    | zero => rfl
    | succ n =>
      rw [floorCharBoundary]
      split_ifs with hlong hboundary
      · rw [length_append] at hlong ⊢
        omega
      · rfl
      have hne : y ≠ [] := by
        rintro rfl
        simp [lossy, decodeFrom, finish, hlength] at hlong
      obtain ⟨b, hb, hstart⟩ := starts_lossy hne
      obtain ⟨rest, hrest⟩ := List.head?_eq_some_iff.mp hb
      simp [isCharBoundary, hrest, ← hlength, hstart] at hboundary
  rw [hfloor, drop_left]

end VllmPs.Lib.Utf8
