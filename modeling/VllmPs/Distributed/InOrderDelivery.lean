import VllmPs.Distributed.MessageQueue

/-!
# In-order delivery

The writer is at most one round of the ring ahead of the slowest reader, and the chunk of a message that is not
overwritten has its flags and its bytes. A reader that waits for the socket until its message is there returns
the messages in the order in which they were enqueued.
-/

namespace VllmPs.Distributed

open Lib List Option Function

variable {A : Type} {n : ℕ}

/-! ## Bytes -/

namespace Codec

variable {codec : Codec A} {obj : A} {bytes : List UInt8}

theorem parse_eq_some {found : Option A} (hbytes : bytes <+: codec.content obj)
    (h : codec.parse bytes = some found) : found = if codec.overflows obj then none else some obj := by
  unfold content at hbytes
  cases bytes with
  | nil => cases h
  | cons first rest =>
    unfold parse at h
    dsimp only at h
    cases hoverflows : codec.overflows obj with
    | true =>
      rw [hoverflows, if_pos rfl, cons_prefix_cons] at hbytes
      rw [if_pos hbytes.1] at h
      exact (some.inj h).symm
    | false =>
      rw [hoverflows, if_neg Bool.false_ne_true, cons_prefix_cons] at hbytes
      obtain ⟨rfl, hrest⟩ := hbytes
      rw [if_neg (by decide)] at h
      obtain ⟨obj', hdecode, rfl⟩ := Option.map_eq_some_iff.mp h
      by_cases heq : rest = codec.encode obj
      · rw [heq, codec.decode_encode] at hdecode
        exact hdecode.symm
      · simp [codec.decode_part obj rest hrest heq] at hdecode

theorem length_lt_of_parse (hbytes : bytes <+: codec.content obj) (h : codec.parse bytes = none) :
    bytes.length < (codec.content obj).length := by
  refine lt_of_le_of_ne hbytes.length_le fun hlength => ?_
  rw [hbytes.eq_of_length hlength] at h
  unfold content parse at h
  cases hoverflows : codec.overflows obj with
  | true =>
    simp [hoverflows] at h
  | false =>
    rw [hoverflows, if_neg Bool.false_ne_true] at h
    dsimp only at h
    rw [if_neg (by decide), codec.decode_encode] at h
    cases h

end Codec

/-! ## The invariant -/

/-- The writer changes its chunk. -/
def WriterPhase.overwrites : WriterPhase A → Prop
  | .writing _ _ | .clearing _ _ | .publishing _ => True
  | _ => False

/-- The writer has passed the check for its chunk. -/
def WriterPhase.claims : WriterPhase A → Prop
  | .granted _ | .writing _ _ | .clearing _ _ | .publishing _ => True
  | _ => False

theorem WriterPhase.claims_of_overwrites {phase : WriterPhase A} (h : phase.overwrites) : phase.claims := by
  cases phase <;> first | exact trivial | exact h.elim

/-- What is still to be sent through the socket. -/
def WriterPhase.unsent : WriterPhase A → List A
  | .sending obj => [obj]
  | _ => []

def ReaderPhase.inChunk : ReaderPhase A → Prop
  | .reading _ | .marking _ => True
  | _ => False

/-- A reader that waits for the socket has not returned the object of its last chunk. -/
def ReaderPhase.unreturned : ReaderPhase A → ℕ
  | .receiving => 1
  | _ => 0

def Chunk.Contains (chunk : Chunk n) (bytes : List UInt8) : Prop :=
  ∀ k byte, bytes[k]? = some byte → chunk.cells k = byte

def Chunk.WriterSound (codec : Codec A) (chunk : Chunk n) : WriterPhase A → Prop
  | .idle | .granted _ | .sending _ => True
  | .checking _ seen => seen.length ≤ n ∧ ∀ r : Fin n, seen[r.val]? = some true → chunk.readFlag r = true
  | .writing obj count => chunk.written = false ∧ chunk.Contains ((codec.content obj).take count)
  | .clearing obj count => chunk.written = false ∧ chunk.Contains (codec.content obj) ∧
      ∀ r : Fin n, r.val < count → chunk.readFlag r = false
  | .publishing obj => chunk.written = false ∧ chunk.Contains (codec.content obj) ∧
      ∀ r, chunk.readFlag r = false

namespace QueueState

variable (codec : Codec A) (maxChunks : ℕ)
variable {i k : ℕ} {obj : A} {r : Fin n} {s' : QueueState A n} {phase : ReaderPhase A}

structure Holds (s : QueueState A n) (i : ℕ) (obj : A) : Prop where
  written : (s.chunks (i % maxChunks)).written = true
  readFlag : ∀ r, (s.chunks (i % maxChunks)).readFlag r = decide (i < s.taken r)
  cells : (s.chunks (i % maxChunks)).Contains (codec.content obj)

/-- Every reader has finished the message in the chunk of the writer. -/
def ChunkFree (s : QueueState A n) : Prop := ∀ r, s.enqueued.length < s.taken r + maxChunks

def ReaderSound (s : QueueState A n) (r : Fin n) : ReaderPhase A → Prop
  | .idle | .checking => True
  | .checked readFlag => readFlag = false → (s.chunks (s.taken r % maxChunks)).readFlag r = false
  | .reading bytes => ∃ obj, s.enqueued[s.taken r]? = some obj ∧ bytes <+: codec.content obj
  | .marking found => ∃ obj, s.enqueued[s.taken r]? = some obj ∧
      found = if codec.overflows obj then none else some obj
  | .receiving => ∃ k obj, s.taken r = k + 1 ∧ s.enqueued[k]? = some obj ∧ codec.overflows obj = true

/-- The queue delivers in order. -/
structure Delivers (s : QueueState A n) : Prop where
  writerIdx : s.writerIdx = s.enqueued.length % maxChunks
  readerIdx : ∀ r, s.readerIdx r = s.taken r % maxChunks
  taken_le : ∀ r, s.taken r ≤ s.enqueued.length
  le_taken : ∀ r, s.enqueued.length ≤ s.taken r + maxChunks
  unwritten : ∀ j, s.enqueued.length ≤ j → j < maxChunks → (s.chunks j).written = false
  slots : ∀ i obj, s.enqueued[i]? = some obj → s.enqueued.length ≤ i + maxChunks →
    (s.writer.overwrites → s.enqueued.length < i + maxChunks) → s.Holds codec maxChunks i obj
  writer : (s.chunks (s.enqueued.length % maxChunks)).WriterSound codec s.writer
  free : s.writer.claims → s.ChunkFree maxChunks
  readers : ∀ r, s.ReaderSound codec maxChunks r (s.reader r)
  socket : s.published ++ s.writer.unsent = s.enqueued.filter codec.overflows
  returned : ∀ r, s.returned r = s.enqueued.take (s.taken r - (s.reader r).unreturned)
  received : ∀ r, s.received r =
    ((s.enqueued.take (s.taken r - (s.reader r).unreturned)).filter codec.overflows).length

variable {codec maxChunks} {s : QueueState A n} {l : List A}

theorem mod_ne_mod (hlt : i < k) (hround : k < i + maxChunks) : i % maxChunks ≠ k % maxChunks := by
  intro heq
  have hdvd := (Nat.modEq_iff_dvd' hlt.le).mp heq
  have hle := Nat.le_of_dvd (by omega) hdvd
  omega

theorem Delivers.chunkFree_of_check (h : s.Delivers codec maxChunks) (hchunks : 0 < maxChunks)
    {seen : List Bool} (hphase : s.writer = .checking obj seen) (hlength : ¬seen.length < n)
    (hcheck : ¬((s.chunks s.writerIdx).written = true ∧ seen.count true ≠ n)) : s.ChunkFree maxChunks := by
  intro r
  by_contra hbehind
  -- the reader has still to read the message one round ago, which is in the chunk
  have htaken := h.taken_le r
  have hle := h.le_taken r
  have hlt : s.taken r < s.enqueued.length := by omega
  obtain ⟨old, hold⟩ : ∃ old, s.enqueued[s.taken r]? = some old := ⟨_, getElem?_eq_getElem hlt⟩
  have hslot := h.slots (s.taken r) old hold hle (hphase ▸ False.elim)
  have hidx : s.taken r % maxChunks = s.enqueued.length % maxChunks := by
    have heq : s.enqueued.length = s.taken r + maxChunks := by omega
    rw [heq, Nat.add_mod_right]
  rw [h.writerIdx, ← hidx] at hcheck
  have hcount : seen.count true = n := by
    by_contra hne
    exact hcheck ⟨hslot.written, hne⟩
  have hwriter := h.writer
  rw [hphase] at hwriter
  obtain ⟨hseen, hflags⟩ := hwriter
  have hall : ∀ b ∈ seen, true = b := count_eq_length.mp (by omega)
  have hr : r.val < seen.length := by omega
  have hflag := hflags r (by rw [getElem?_eq_getElem hr, ← hall _ (getElem_mem hr)])
  rw [← hidx, hslot.readFlag, decide_eq_true_eq] at hflag
  omega

theorem Delivers.message_of_check (h : s.Delivers codec maxChunks) (hchunks : 0 < maxChunks)
    {readFlag : Bool} (hphase : s.reader r = .checked readFlag)
    (hcheck : (s.chunks (s.readerIdx r)).written = true ∧ readFlag = false) :
    s.taken r < s.enqueued.length := by
  obtain ⟨hwritten, rfl⟩ := hcheck
  have hsound := h.readers r
  rw [hphase] at hsound
  have hflag := hsound rfl
  rw [h.readerIdx] at hwritten
  by_contra hge
  have heq : s.taken r = s.enqueued.length := le_antisymm (h.taken_le r) (Nat.not_lt.mp hge)
  rw [heq] at hflag hwritten
  by_cases hfirst : s.enqueued.length < maxChunks
  · simp [Nat.mod_eq_of_lt hfirst, h.unwritten _ le_rfl hfirst] at hwritten
  -- the chunk holds the message one round ago, which the reader has read, or it is being written
  have hidx : (s.enqueued.length - maxChunks) % maxChunks = s.enqueued.length % maxChunks := by
    conv_rhs => rw [← Nat.sub_add_cancel (Nat.not_lt.mp hfirst), Nat.add_mod_right]
  obtain ⟨old, hold⟩ : ∃ old, s.enqueued[s.enqueued.length - maxChunks]? = some old :=
    ⟨_, getElem?_eq_getElem (by omega)⟩
  by_cases hoverwrites : s.writer.overwrites
  · have hwriter := h.writer
    have hcleared : (s.chunks (s.enqueued.length % maxChunks)).written = false := by
      cases hw : s.writer <;> rw [hw] at hwriter hoverwrites
      case writing => exact hwriter.1
      case clearing => exact hwriter.1
      case publishing => exact hwriter.1
      all_goals cases hoverwrites
    simp [hcleared] at hwritten
  · have hslot := h.slots _ old hold (by omega) fun hw => absurd hw hoverwrites
    have hread := hslot.readFlag r
    rw [hidx, hflag, eq_comm, decide_eq_false_iff_not] at hread
    omega

/-! ## Steps of the writer -/

@[simp] theorem modifyChunk_self (s : QueueState A n) (idx : ℕ) (f : Chunk n → Chunk n) :
    (s.modifyChunk idx f).chunks idx = f (s.chunks idx) := update_self _ _ _

theorem modifyChunk_of_ne (s : QueueState A n) {idx j : ℕ} (f : Chunk n → Chunk n) (h : j ≠ idx) :
    (s.modifyChunk idx f).chunks j = s.chunks j := update_of_ne h _ _

theorem Holds.congr (h : s.Holds codec maxChunks i obj)
    (hchunk : s'.chunks (i % maxChunks) = s.chunks (i % maxChunks)) (htaken : s'.taken = s.taken) :
    s'.Holds codec maxChunks i obj :=
  ⟨hchunk ▸ h.written, fun r => by rw [hchunk, htaken]; exact h.readFlag r, hchunk ▸ h.cells⟩

theorem ReaderSound.congr (h : s.ReaderSound codec maxChunks r phase) (htaken : s'.taken r = s.taken r)
    (henqueued : s.enqueued <+: s'.enqueued)
    (hflag : (s.chunks (s.taken r % maxChunks)).readFlag r = false →
      (s'.chunks (s.taken r % maxChunks)).readFlag r = false) : s'.ReaderSound codec maxChunks r phase := by
  have hget {i : ℕ} {obj : A} (hi : s.enqueued[i]? = some obj) : s'.enqueued[i]? = some obj := by
    obtain ⟨rest, hrest⟩ := henqueued
    rwa [← hrest, getElem?_append_left (List.getElem?_eq_some_iff.mp hi).1]
  cases phase with
  | idle => trivial
  | checking => trivial
  | checked readFlag =>
    intro hread
    rw [htaken]
    exact hflag (h hread)
  | reading bytes =>
    obtain ⟨obj, hobj, hbytes⟩ := h
    exact ⟨obj, htaken ▸ hget hobj, hbytes⟩
  | marking found =>
    obtain ⟨obj, hobj, hfound⟩ := h
    exact ⟨obj, htaken ▸ hget hobj, hfound⟩
  | receiving =>
    obtain ⟨k, obj, hk, hobj, hoverflows⟩ := h
    exact ⟨k, obj, htaken.trans hk, hget hobj, hoverflows⟩

section

variable (h : s.Delivers codec maxChunks) {phase : WriterPhase A} {count : ℕ}
include h

theorem Delivers.withWriter
    (hunsent : phase.unsent = s.writer.unsent) (hoverwrites : s.writer.overwrites → phase.overwrites)
    (hsound : (s.chunks (s.enqueued.length % maxChunks)).WriterSound codec phase)
    (hfree : phase.claims → s.ChunkFree maxChunks) : Delivers codec maxChunks { s with writer := phase } where
  writerIdx := h.writerIdx
  readerIdx := h.readerIdx
  taken_le := h.taken_le
  le_taken := h.le_taken
  unwritten := h.unwritten
  slots := fun i obj hobj hround hbusy =>
    (h.slots i obj hobj hround fun hw => hbusy (hoverwrites hw)).congr rfl rfl
  writer := hsound
  free := hfree
  readers := fun r => (h.readers r).congr rfl prefix_rfl id
  socket := by
    rw [hunsent]
    exact h.socket
  returned := h.returned
  received := h.received

theorem Delivers.modifyWriter {f : Chunk n → Chunk n}
    (hunsent : phase.unsent = s.writer.unsent) (hoverwrites : phase.overwrites) (hclaims : s.writer.claims)
    (hflags : ∀ chunk r, chunk.readFlag r = false → (f chunk).readFlag r = false)
    (hwritten : (f (s.chunks (s.enqueued.length % maxChunks))).written = false)
    (hsound : (f (s.chunks (s.enqueued.length % maxChunks))).WriterSound codec phase) :
    Delivers codec maxChunks { s.modifyChunk s.writerIdx f with writer := phase } := by
  rw [h.writerIdx]
  set idx := s.enqueued.length % maxChunks with hidx
  have hself := modifyChunk_self s idx f
  refine ⟨h.writerIdx, h.readerIdx, h.taken_le, h.le_taken, fun j hj hlt => ?_, fun i obj hobj hround hbusy => ?_,
    ?_, fun _ => h.free hclaims, fun r => ?_, ?_, h.returned, h.received⟩
  · by_cases hj' : j = idx
    · rw [hj', hself, hwritten]
    · rw [modifyChunk_of_ne s f hj']
      exact h.unwritten j hj hlt
  · -- a message less than a round ago is in another chunk
    have hnear : s.enqueued.length < i + maxChunks := hbusy hoverwrites
    have hlt : i < s.enqueued.length := (List.getElem?_eq_some_iff.mp hobj).1
    exact (h.slots i obj hobj hround fun _ => hnear).congr (modifyChunk_of_ne s f (mod_ne_mod hlt hnear)) rfl
  · change ((s.modifyChunk idx f).chunks idx).WriterSound codec phase
    rwa [hself]
  · refine (h.readers r).congr rfl prefix_rfl fun hread => ?_
    by_cases htaken : s.taken r % maxChunks = idx
    · rw [htaken, hself]
      exact hflags _ r (htaken ▸ hread)
    · rwa [modifyChunk_of_ne s f htaken]
  · rw [hunsent]
    exact h.socket

theorem Delivers.check (hchunks : 0 < maxChunks) {seen : List Bool}
    (hphase : s.writer = .checking obj seen) : (s.writerStep codec maxChunks).Delivers codec maxChunks := by
  obtain ⟨hseen, hflags⟩ : Chunk.WriterSound codec _ (.checking obj seen) := hphase ▸ h.writer
  unfold writerStep
  rw [hphase]
  dsimp only
  by_cases hlength : seen.length < n
  · rw [dif_pos hlength]
    refine h.withWriter (hphase ▸ rfl) (hphase ▸ id) ⟨?_, fun r hr => ?_⟩ nofun
    · rwa [length_append]
    rcases Nat.lt_trichotomy r.val seen.length with hlt | heq | hgt
    · rw [getElem?_append_left hlt] at hr
      exact hflags r hr
    · rw [heq, getElem?_append_right le_rfl, Nat.sub_self] at hr
      have hr' : (⟨seen.length, hlength⟩ : Fin n) = r := Fin.ext heq.symm
      rw [← h.writerIdx, ← hr']
      exact some.inj hr
    · rw [getElem?_eq_none (by rw [length_append]; exact hgt)] at hr
      cases hr
  rw [dif_neg hlength]
  by_cases hcheck : (s.chunks s.writerIdx).written = true ∧ seen.count true ≠ n
  · rw [if_pos hcheck]
    exact h.withWriter (hphase ▸ rfl) (hphase ▸ id) ⟨Nat.zero_le n, nofun⟩ nofun
  · rw [if_neg hcheck]
    exact h.withWriter (hphase ▸ rfl) (hphase ▸ False.elim) trivial
      fun _ => h.chunkFree_of_check hchunks hphase hlength hcheck

theorem Delivers.write
    (hphase : s.writer = .writing obj count) : (s.writerStep codec maxChunks).Delivers codec maxChunks := by
  obtain ⟨hwritten, hcells⟩ : Chunk.WriterSound codec _ (.writing obj count) := hphase ▸ h.writer
  have hclaims : s.writer.claims := hphase ▸ trivial
  unfold writerStep
  rw [hphase]
  dsimp only
  cases hbyte : (codec.content obj)[count]? with
  | none =>
    refine h.withWriter (hphase ▸ rfl) (fun _ => trivial) ⟨hwritten, ?_, nofun⟩ fun _ => h.free hclaims
    rwa [take_of_length_le (getElem?_eq_none_iff.mp hbyte)] at hcells
  | some byte =>
    refine h.modifyWriter (hphase ▸ rfl) trivial hclaims (fun _ _ => id) hwritten ⟨hwritten, ?_⟩
    intro k byte' hk
    dsimp only
    rw [getElem?_take] at hk
    split_ifs at hk with hlt
    rcases eq_or_ne k count with rfl | hne
    · rw [update_self]
      exact mem_unique hbyte hk
    · rw [update_of_ne hne]
      refine hcells k byte' ?_
      rw [getElem?_take, if_pos (by omega), hk]

theorem Delivers.clear
    (hphase : s.writer = .clearing obj count) : (s.writerStep codec maxChunks).Delivers codec maxChunks := by
  obtain ⟨hwritten, hcells, hcleared⟩ : Chunk.WriterSound codec _ (.clearing obj count) := hphase ▸ h.writer
  have hclaims : s.writer.claims := hphase ▸ trivial
  unfold writerStep
  rw [hphase]
  dsimp only
  by_cases hcount : count < n
  · rw [dif_pos hcount]
    refine h.modifyWriter (hphase ▸ rfl) trivial hclaims (fun chunk r hr => ?_) hwritten
      ⟨hwritten, hcells, fun r hr => ?_⟩
    · dsimp only
      rcases eq_or_ne r ⟨count, hcount⟩ with rfl | hne
      · rw [update_self]
      · rwa [update_of_ne hne]
    dsimp only
    rcases eq_or_ne r ⟨count, hcount⟩ with rfl | hne
    · rw [update_self]
    · rw [update_of_ne hne]
      have hne' : r.val ≠ count := fun heq => hne (Fin.ext heq)
      exact hcleared r (by omega)
  · rw [dif_neg hcount]
    refine h.withWriter (hphase ▸ rfl) (fun _ => trivial)
      ⟨hwritten, hcells, fun r => hcleared r (by omega)⟩ fun _ => h.free hclaims

theorem Delivers.grant (hphase : s.writer = .granted obj) :
    (s.writerStep codec maxChunks).Delivers codec maxChunks := by
  unfold writerStep
  rw [hphase]
  refine h.modifyWriter (hphase ▸ rfl) trivial (hphase ▸ trivial) (fun _ _ => id) rfl ⟨rfl, ?_⟩
  rw [take_zero]
  intro k byte hk
  cases hk

/-- The writer sets the written flag: the message is enqueued. -/
theorem Delivers.publish
    (hphase : s.writer = .publishing obj) : (s.writerStep codec maxChunks).Delivers codec maxChunks := by
  obtain ⟨-, hcells, hcleared⟩ : Chunk.WriterSound codec _ (.publishing obj) := hphase ▸ h.writer
  have hfree := h.free (hphase ▸ trivial)
  have hsocket := h.socket
  unfold writerStep
  rw [hphase] at hsocket ⊢
  rw [h.writerIdx]
  generalize hf : (fun chunk : Chunk n => ({ chunk with written := true } : Chunk n)) = f
  have hlength : (s.enqueued ++ [obj]).length = s.enqueued.length + 1 := length_append
  have hphase' {p : WriterPhase A → Prop} (hidle : p .idle) (hsending : p (.sending obj)) :
      p (if codec.overflows obj then .sending obj else .idle) := by
    split_ifs
    · exact hsending
    · exact hidle
  have hmessages (r : Fin n) (k : ℕ) : (s.enqueued ++ [obj]).take (s.taken r - k) = s.enqueued.take (s.taken r - k) :=
    take_append_of_le_length ((Nat.sub_le _ _).trans (h.taken_le r))
  refine ⟨?_, h.readerIdx, fun r => ?_, fun r => ?_, fun j hj hlt => ?_, fun i obj' hobj hround _ => ?_,
    ?_, ?_, fun r => ?_, ?_, fun r => ?_, fun r => ?_⟩
  · rw [hlength, Nat.mod_add_mod]
  · exact (h.taken_le r).trans (hlength ▸ Nat.le_succ _)
  · exact hlength ▸ hfree r
  · rw [hlength] at hj
    have hne : j ≠ s.enqueued.length % maxChunks := by
      rw [Nat.mod_eq_of_lt (by omega)]
      omega
    rw [modifyChunk_of_ne s f hne]
    exact h.unwritten j (by omega) hlt
  · rw [hlength] at hround
    have hlt := (List.getElem?_eq_some_iff.mp hobj).1
    rw [hlength] at hlt
    rcases Nat.lt_succ_iff_lt_or_eq.mp hlt with hlt | rfl
    · rw [getElem?_append_left hlt] at hobj
      exact (h.slots i obj' hobj (by omega) fun _ => hround).congr
        (modifyChunk_of_ne s f (mod_ne_mod hlt hround)) rfl
    rw [getElem?_append_right le_rfl, Nat.sub_self] at hobj
    obtain rfl : obj = obj' := some.inj hobj
    refine ⟨?_, fun r => ?_, ?_⟩
    · rw [modifyChunk_self, ← hf]
    · change ((s.modifyChunk (s.enqueued.length % maxChunks) f).chunks _).readFlag r =
        decide (s.enqueued.length < s.taken r)
      rw [modifyChunk_self, ← hf, decide_eq_false (Nat.not_lt.mpr (h.taken_le r))]
      exact hcleared r
    · rwa [modifyChunk_self, ← hf]
  · exact hphase' trivial trivial
  · exact hphase' (p := fun phase => phase.claims → _) False.elim False.elim
  · refine (h.readers r).congr rfl (prefix_append _ _) fun hread => ?_
    by_cases htaken : s.taken r % maxChunks = s.enqueued.length % maxChunks
    · rw [htaken, modifyChunk_self, ← hf]
      exact hcleared r
    · rwa [modifyChunk_of_ne s f htaken]
  · change s.published ++ _ = (s.enqueued ++ [obj]).filter codec.overflows
    rw [filter_append, ← hsocket]
    cases hoverflows : codec.overflows obj
    · simp [WriterPhase.unsent, hoverflows]
    · simp [WriterPhase.unsent, hoverflows]
  · exact (h.returned r).trans (hmessages r _).symm
  · exact (h.received r).trans (congrArg (fun l => (l.filter codec.overflows).length) (hmessages r _).symm)

theorem Delivers.send (hphase : s.writer = .sending obj) :
    (s.writerStep codec maxChunks).Delivers codec maxChunks := by
  have hsocket := h.socket
  unfold writerStep
  rw [hphase] at hsocket ⊢
  refine ⟨h.writerIdx, h.readerIdx, h.taken_le, h.le_taken, h.unwritten, fun i obj hobj hround _ => ?_, trivial,
    False.elim, fun r => (h.readers r).congr rfl prefix_rfl id, ?_, h.returned, h.received⟩
  · exact (h.slots i obj hobj hround (hphase ▸ False.elim)).congr rfl rfl
  · exact (append_nil _).trans hsocket

theorem Delivers.writerStep (hchunks : 0 < maxChunks) :
    (s.writerStep codec maxChunks).Delivers codec maxChunks := by
  cases hphase : s.writer with
  | idle =>
    unfold QueueState.writerStep
    rwa [hphase]
  | checking obj seen => exact h.check hchunks hphase
  | granted obj => exact h.grant hphase
  | writing obj count => exact h.write hphase
  | clearing obj count => exact h.clear hphase
  | publishing obj => exact h.publish hphase
  | sending obj => exact h.send hphase

theorem Delivers.enqueue (obj : A) : (s.enqueue obj).Delivers codec maxChunks := by
  unfold QueueState.enqueue
  split
  case h_1 hphase =>
    exact h.withWriter (hphase ▸ rfl) (hphase ▸ id) ⟨Nat.zero_le n, nofun⟩ nofun
  case h_2 => exact h

theorem Delivers.writerTimeout : s.writerTimeout.Delivers codec maxChunks := by
  unfold QueueState.writerTimeout
  split
  case h_1 hphase =>
    exact h.withWriter (hphase ▸ rfl) (hphase ▸ id) trivial nofun
  case h_2 => exact h

end

/-! ## Steps of a reader -/

section

variable (h : s.Delivers codec maxChunks)
include h

theorem Delivers.holds_of_reader
    (hobj : s.enqueued[s.taken r]? = some obj) : s.Holds codec maxChunks (s.taken r) obj := by
  exact h.slots _ obj hobj (h.le_taken r) fun hoverwrites => h.free (WriterPhase.claims_of_overwrites hoverwrites) r

theorem Delivers.lt_of_inChunk (hin : (s.reader r).inChunk) : s.taken r < s.enqueued.length := by
  have hsound := h.readers r
  cases hphase : s.reader r with
  | reading bytes =>
    rw [hphase] at hsound
    obtain ⟨obj, hobj, -⟩ := hsound
    exact (List.getElem?_eq_some_iff.mp hobj).1
  | marking found =>
    rw [hphase] at hsound
    obtain ⟨obj, hobj, -⟩ := hsound
    exact (List.getElem?_eq_some_iff.mp hobj).1
  | _ =>
    rw [hphase] at hin
    exact hin.elim

theorem Delivers.withReader {given : List A} {count : ℕ} (hsound : s.ReaderSound codec maxChunks r phase)
    (hgiven : given = s.enqueued.take (s.taken r - phase.unreturned))
    (hcount : count = ((s.enqueued.take (s.taken r - phase.unreturned)).filter codec.overflows).length) :
    Delivers codec maxChunks { s with
      reader := update s.reader r phase, returned := update s.returned r given,
      received := update s.received r count } where
  writerIdx := h.writerIdx
  readerIdx := h.readerIdx
  taken_le := h.taken_le
  le_taken := h.le_taken
  unwritten := h.unwritten
  slots := fun i obj hobj hround hbusy => (h.slots i obj hobj hround hbusy).congr rfl rfl
  writer := h.writer
  free := h.free
  readers := fun r' => by
    refine ReaderSound.congr (s := s) ?_ rfl prefix_rfl id
    rcases eq_or_ne r' r with rfl | hne
    · simpa using hsound
    · simpa [hne] using h.readers r'
  socket := h.socket
  returned := fun r' => by
    rcases eq_or_ne r' r with rfl | hne
    · simpa using hgiven
    · simpa [hne] using h.returned r'
  received := fun r' => by
    rcases eq_or_ne r' r with rfl | hne
    · simpa using hcount
    · simpa [hne] using h.received r'

theorem Delivers.setReader
    (hunreturned : phase.unreturned = (s.reader r).unreturned) (hsound : s.ReaderSound codec maxChunks r phase) :
    (s.setReader r phase).Delivers codec maxChunks := by
  have hself := h.withReader hsound (hunreturned ▸ h.returned r) (hunreturned ▸ h.received r)
  rwa [update_eq_self, update_eq_self] at hself

theorem Delivers.checkRead (hchunks : 0 < maxChunks)
    {readFlag : Bool} (hphase : s.reader r = .checked readFlag) :
    (s.readerStep codec maxChunks r).Delivers codec maxChunks := by
  unfold readerStep
  rw [hphase]
  dsimp only
  split_ifs with hcheck
  · have hlt := h.message_of_check hchunks hphase hcheck
    refine h.setReader (hphase ▸ rfl) ?_
    exact ⟨_, getElem?_eq_getElem hlt, nil_prefix⟩
  · exact h.setReader (hphase ▸ rfl) trivial

theorem Delivers.read {bytes : List UInt8}
    (hphase : s.reader r = .reading bytes) : (s.readerStep codec maxChunks r).Delivers codec maxChunks := by
  obtain ⟨obj, hobj, hbytes⟩ : s.ReaderSound codec maxChunks r (.reading bytes) := hphase ▸ h.readers r
  unfold readerStep
  rw [hphase]
  dsimp only
  cases hparse : codec.parse bytes with
  | some found => exact h.setReader (hphase ▸ rfl) ⟨obj, hobj, Codec.parse_eq_some hbytes hparse⟩
  | none =>
    refine h.setReader (hphase ▸ rfl) ⟨obj, hobj, ?_⟩
    have hlt := Codec.length_lt_of_parse hbytes hparse
    obtain ⟨rest, hrest⟩ := hbytes
    rw [← hrest, length_append] at hlt
    obtain ⟨byte, rest, rfl⟩ := exists_cons_of_length_pos (show 0 < rest.length by omega)
    have hcell := (h.holds_of_reader hobj).cells bytes.length byte (by
      rw [← hrest, getElem?_append_right le_rfl, Nat.sub_self, getElem?_cons_zero])
    rw [h.readerIdx, hcell, ← hrest]
    exact ⟨rest, (append_cons bytes byte rest).symm⟩

end

theorem getElem?_filter_take {p : A → Bool} {a : A} (h : l[k]? = some a) (hp : p a = true) :
    (l.filter p)[((l.take k).filter p).length]? = some a := by
  obtain ⟨hk, rfl⟩ := List.getElem?_eq_some_iff.mp h
  have hsplit : l.filter p = (l.take k).filter p ++ (l.drop k).filter p := by
    rw [← filter_append, take_append_drop]
  rw [hsplit, drop_eq_getElem_cons hk, filter_cons_of_pos hp]
  rw [getElem?_append_right le_rfl, Nat.sub_self, getElem?_cons_zero]

theorem markRead_chunks (s : QueueState A n) (r : Fin n) (j : ℕ) :
    (s.markRead maxChunks r).chunks j = if j = s.readerIdx r then
      { s.chunks j with readFlag := update (s.chunks j).readFlag r true } else s.chunks j := by
  split_ifs with hj
  · rw [hj]
    exact modifyChunk_self s (s.readerIdx r) fun chunk =>
      { chunk with readFlag := update chunk.readFlag r true }
  · exact modifyChunk_of_ne s (fun chunk => { chunk with readFlag := update chunk.readFlag r true }) hj

theorem markRead_written (s : QueueState A n) (r : Fin n) (j : ℕ) :
    ((s.markRead maxChunks r).chunks j).written = (s.chunks j).written := by
  rw [markRead_chunks]
  split_ifs <;> rfl

theorem markRead_cells (s : QueueState A n) (r : Fin n) (j : ℕ) :
    ((s.markRead maxChunks r).chunks j).cells = (s.chunks j).cells := by
  rw [markRead_chunks]
  split_ifs <;> rfl

theorem markRead_readFlag (s : QueueState A n) (r r' : Fin n) (j : ℕ) :
    ((s.markRead maxChunks r).chunks j).readFlag r' =
      if j = s.readerIdx r ∧ r' = r then true else (s.chunks j).readFlag r' := by
  rw [markRead_chunks]
  by_cases hj : j = s.readerIdx r
  · rw [if_pos hj]
    dsimp only
    rw [update_apply]
    exact if_congr (and_iff_right hj).symm rfl rfl
  · rw [if_neg hj, if_neg fun h => hj h.1]

theorem Holds.markRead (h : s.Holds codec maxChunks i obj)
    (hidx : i % maxChunks = s.readerIdx r ↔ i = s.taken r) :
    (s.markRead maxChunks r).Holds codec maxChunks i obj := by
  refine ⟨(markRead_written s r _).trans h.written, fun r' => ?_, ?_⟩
  · change _ = decide (i < update s.taken r (s.taken r + 1) r')
    rw [markRead_readFlag, if_congr (and_congr_left' hidx) rfl rfl, h.readFlag]
    rcases eq_or_ne r' r with rfl | hne
    · rw [update_self]
      split_ifs with hi
      · rw [hi.1, decide_eq_true (Nat.lt_succ_self _)]
      · rw [decide_eq_decide]
        have hne : i ≠ s.taken r' := fun heq => hi ⟨heq, rfl⟩
        omega
    · rw [update_of_ne hne, if_neg fun hi => hne hi.2]
  · intro k byte hk
    rw [markRead_cells]
    exact h.cells k byte hk

section

variable (h : s.Delivers codec maxChunks) (hlt : s.taken r < s.enqueued.length)
include h hlt

theorem Delivers.writerSound_markRead :
    ((s.markRead maxChunks r).chunks (s.enqueued.length % maxChunks)).WriterSound codec s.writer := by
  have hwriter := h.writer
  have hchunk (hclaims : s.writer.claims) : (s.markRead maxChunks r).chunks (s.enqueued.length % maxChunks) =
      s.chunks (s.enqueued.length % maxChunks) := by
    rw [markRead_chunks, if_neg]
    rw [h.readerIdx]
    exact (mod_ne_mod hlt (h.free hclaims r)).symm
  by_cases hclaims : s.writer.claims
  · rwa [hchunk hclaims]
  cases hphase : s.writer with
  | idle => trivial
  | sending obj => trivial
  | checking obj seen =>
    rw [hphase] at hwriter
    refine ⟨hwriter.1, fun r' hr' => ?_⟩
    rw [markRead_readFlag, hwriter.2 r' hr', ite_self]
  | _ =>
    rw [hphase] at hclaims
    exact absurd trivial hclaims

theorem Delivers.markRead {returned : Fin n → List A}
    (hsound : ∀ t : QueueState A n, t.enqueued = s.enqueued → t.taken r = s.taken r + 1 →
      t.ReaderSound codec maxChunks r phase)
    (hself : returned r = s.enqueued.take (s.taken r + 1 - phase.unreturned))
    (hother : ∀ r' ≠ r, returned r' = s.returned r')
    (hreceived : s.received r =
      ((s.enqueued.take (s.taken r + 1 - phase.unreturned)).filter codec.overflows).length) :
    Delivers codec maxChunks { s.markRead maxChunks r with
      reader := update s.reader r phase, returned := returned } := by
  have hle := h.le_taken r
  have htaken (r' : Fin n) : (s.markRead maxChunks r).taken r' = if r' = r then s.taken r + 1 else s.taken r' :=
    update_apply ..
  refine ⟨h.writerIdx, fun r' => ?_, fun r' => ?_, fun r' => ?_, fun j hj hj' => ?_,
    fun i obj' hobj' hround hbusy => ?_, h.writerSound_markRead hlt, fun hclaims r' => ?_, fun r' => ?_, h.socket,
    fun r' => ?_, fun r' => ?_⟩
  · change update s.readerIdx r ((s.readerIdx r + 1) % maxChunks) r' =
      (s.markRead maxChunks r).taken r' % maxChunks
    rw [htaken, update_apply, h.readerIdx, h.readerIdx, Nat.mod_add_mod]
    split_ifs <;> rfl
  · change (s.markRead maxChunks r).taken r' ≤ s.enqueued.length
    have hle' := h.taken_le r'
    rw [htaken]
    split_ifs <;> omega
  · change s.enqueued.length ≤ (s.markRead maxChunks r).taken r' + maxChunks
    have hle' := h.le_taken r'
    rw [htaken]
    split_ifs <;> omega
  · rw [markRead_written]
    exact h.unwritten j hj hj'
  · refine ((h.slots i obj' hobj' hround hbusy).markRead (r := r) ?_).congr rfl rfl
    change s.enqueued.length ≤ _ at hround
    have hi : i < s.enqueued.length := (List.getElem?_eq_some_iff.mp hobj').1
    rw [h.readerIdx]
    refine ⟨fun hmod => ?_, fun heq => by rw [heq]⟩
    rcases Nat.lt_trichotomy i (s.taken r) with hlt' | heq | hgt
    · exact absurd hmod (mod_ne_mod hlt' (by omega))
    · exact heq
    · exact absurd hmod.symm (mod_ne_mod hgt (by omega))
  · change s.enqueued.length < (s.markRead maxChunks r).taken r' + maxChunks
    have hfree := h.free hclaims r'
    rw [htaken]
    split_ifs with hr
    · omega
    · exact hfree
  · rcases eq_or_ne r' r with rfl | hne
    · change ReaderSound codec maxChunks _ r' (update s.reader r' phase r')
      rw [update_self]
      exact hsound _ rfl ((htaken r').trans (if_pos rfl))
    change ReaderSound codec maxChunks _ r' (update s.reader r phase r')
    rw [update_of_ne hne]
    refine (h.readers r').congr ((htaken r').trans (if_neg hne)) prefix_rfl fun hread => ?_
    rwa [markRead_readFlag, if_neg fun hr => hne hr.2]
  · change returned r' = s.enqueued.take ((s.markRead maxChunks r).taken r' -
      (update s.reader r phase r').unreturned)
    rcases eq_or_ne r' r with rfl | hne
    · rw [htaken, if_pos rfl, update_self, hself]
    · rw [htaken, if_neg hne, update_of_ne hne, hother r' hne]
      exact h.returned r'
  change s.received r' = ((s.enqueued.take ((s.markRead maxChunks r).taken r' -
    (update s.reader r phase r').unreturned)).filter codec.overflows).length
  rcases eq_or_ne r' r with rfl | hne
  · rw [htaken, if_pos rfl, update_self, hreceived]
  · rw [htaken, if_neg hne, update_of_ne hne]
    exact h.received r'

end

theorem take_succ_of_getElem? {a : A} (h : l[k]? = some a) : l.take (k + 1) = l.take k ++ [a] := by
  rw [take_add_one, h, toList_some]

section

variable (h : s.Delivers codec maxChunks)
include h

theorem Delivers.mark {found : Option A}
    (hphase : s.reader r = .marking found) : (s.readerStep codec maxChunks r).Delivers codec maxChunks := by
  obtain ⟨obj, hobj, hfound⟩ : s.ReaderSound codec maxChunks r (.marking found) := hphase ▸ h.readers r
  have hlt : s.taken r < s.enqueued.length := (List.getElem?_eq_some_iff.mp hobj).1
  have hreturned := h.returned r
  have hreceived := h.received r
  rw [hphase] at hreturned hreceived
  unfold readerStep
  rw [hphase]
  cases hoverflows : codec.overflows obj with
  | true =>
    rw [hoverflows, if_pos rfl] at hfound
    subst hfound
    exact h.markRead hlt (fun t ht htaken => ⟨s.taken r, obj, htaken, ht ▸ hobj, hoverflows⟩) hreturned
      (fun _ _ => rfl) hreceived
  | false =>
    rw [hoverflows, if_neg Bool.false_ne_true] at hfound
    subst hfound
    refine h.markRead hlt (fun _ _ _ => trivial) ?_ (fun r' hne => update_of_ne hne _ _) ?_
    · refine (update_self _ _ _).trans ?_
      change s.returned r ++ [obj] = s.enqueued.take (s.taken r + 1)
      rw [take_succ_of_getElem? hobj, hreturned]
      rfl
    · change s.received r = ((s.enqueued.take (s.taken r + 1)).filter codec.overflows).length
      rw [take_succ_of_getElem? hobj, filter_append, filter_singleton, hoverflows, cond_false,
        append_nil, hreceived]
      rfl

/-- The reader takes an object from the socket. -/
theorem Delivers.receive
    (hphase : s.reader r = .receiving) : (s.readerStep codec maxChunks r).Delivers codec maxChunks := by
  obtain ⟨k, obj, hk, hobj, hoverflows⟩ : s.ReaderSound codec maxChunks r .receiving := hphase ▸ h.readers r
  have hreturned := h.returned r
  have hreceived := h.received r
  rw [hphase, hk] at hreturned hreceived
  change s.returned r = s.enqueued.take k at hreturned
  change s.received r = ((s.enqueued.take k).filter codec.overflows).length at hreceived
  unfold readerStep
  rw [hphase]
  cases hsocket : s.published[s.received r]? with
  | none => exact h
  | some obj' =>
    -- the next message on the socket is the one that the chunk announced
    obtain rfl : obj' = obj := by
      have hnext := getElem?_filter_take hobj hoverflows
      rw [← hreceived, ← h.socket, getElem?_append_left (List.getElem?_eq_some_iff.mp hsocket).1, hsocket] at hnext
      exact some.inj hnext
    refine h.withReader (show s.ReaderSound codec maxChunks r .idle from trivial) ?_ ?_
    · rw [hk, hreturned, ← take_succ_of_getElem? hobj]
      rfl
    · rw [hk, hreceived]
      change _ = ((s.enqueued.take (k + 1)).filter codec.overflows).length
      rw [take_succ_of_getElem? hobj, filter_append, filter_singleton, hoverflows, cond_true,
        length_append, length_singleton]

theorem Delivers.readerStep (hchunks : 0 < maxChunks) (r : Fin n) :
    (s.readerStep codec maxChunks r).Delivers codec maxChunks := by
  cases hphase : s.reader r with
  | idle =>
    unfold QueueState.readerStep
    rwa [hphase]
  | checking =>
    unfold QueueState.readerStep
    rw [hphase]
    refine h.setReader (hphase ▸ rfl) fun hread => ?_
    rwa [← h.readerIdx]
  | checked readFlag => exact h.checkRead hchunks hphase
  | reading bytes => exact h.read hphase
  | marking found => exact h.mark hphase
  | receiving => exact h.receive hphase

theorem Delivers.dequeue (r : Fin n) : (s.dequeue r).Delivers codec maxChunks := by
  unfold QueueState.dequeue
  split
  case h_1 hphase => exact h.setReader (hphase ▸ rfl) trivial
  case h_2 => exact h

theorem Delivers.readerTimeout (hr : s.reader r ≠ .receiving) :
    (s.readerTimeout r).Delivers codec maxChunks := by
  unfold QueueState.readerTimeout
  split
  case h_1 hphase => exact h.setReader (hphase ▸ rfl) trivial
  case h_2 hphase => exact absurd hphase hr
  case h_3 => exact h

theorem Delivers.step {action : QueueAction A n}
    (hchunks : 0 < maxChunks) (hwaits : s.CopiesAndWaits codec action)
    (hstep : s.step codec maxChunks action = .ok s') :
    s'.Delivers codec maxChunks := by
  cases action <;> cases hstep
  case enqueue obj => exact h.enqueue obj
  case writer => exact h.writerStep hchunks
  case writerTimeout => exact h.writerTimeout
  case dequeue r => exact h.dequeue r
  case reader r => exact h.readerStep hchunks r
  case readerTimeout r => exact h.readerTimeout hwaits

end

theorem Delivers.start : Delivers codec maxChunks ({} : QueueState A n) where
  writerIdx := (Nat.zero_mod _).symm
  readerIdx := fun _ => (Nat.zero_mod _).symm
  taken_le := fun _ => le_rfl
  le_taken := fun _ => Nat.zero_le _
  unwritten := fun _ _ _ => rfl
  slots := nofun
  writer := trivial
  free := nofun
  readers := fun _ => trivial
  socket := rfl
  returned := fun _ => take_nil.symm
  received := fun _ => rfl

/-! ## Runs -/

/-- Where readers wait for the socket until their message is there and no object with out-of-band buffers stays
in a chunk, each reader returns the messages in the order in which they were enqueued. The writer changes a
chunk only when every reader has finished every message in it. -/
theorem delivers_in_order (codec : Codec A) {maxChunks : ℕ} (hchunks : 0 < maxChunks) {s : QueueState A n}
    (h : Reachable (· = {}) (CopiesAndWaits codec) (step codec maxChunks) s) :
    (∀ r, s.returned r <+: s.enqueued) ∧
      (s.writer.claims → ∀ r, (∀ i < s.enqueued.length, i % maxChunks = s.writerIdx → i < s.taken r) ∧
        ((s.reader r).inChunk → s.readerIdx r ≠ s.writerIdx)) := by
  have hdelivers : s.Delivers codec maxChunks := by
    refine h.invariant ?_ fun s action s' hs hwaits hstep => hs.step hchunks hwaits hstep
    rintro _ rfl
    exact Delivers.start
  refine ⟨fun r => hdelivers.returned r ▸ take_prefix _ _, fun hclaims r => ?_⟩
  have hfree := hdelivers.free hclaims r
  rw [hdelivers.writerIdx, hdelivers.readerIdx]
  refine ⟨fun i hi hidx => ?_, fun hin => ?_⟩
  · by_contra hnot
    exact mod_ne_mod hi (by omega) hidx
  · exact mod_ne_mod (hdelivers.lt_of_inChunk hin) hfree

/-- Objects of one byte; those from 128 on are sent through the socket, and those from 192 on have a buffer out
of band. -/
def byteCodec : Codec UInt8 where
  encode a := [a]
  decode
    | [a] => some a
    | _ => none
  decode_encode _ := rfl
  decode_part a bytes hpart hne := by
    cases bytes with
    | nil => rfl
    | cons first rest =>
      obtain ⟨rfl, hrest⟩ := cons_prefix_cons.mp hpart
      exact absurd (congrArg _ (prefix_nil.mp hrest)) hne
  overflows a := decide (128 ≤ a)
  outOfBand a := decide (192 ≤ a)

/-- A reader gives up waiting for a message of the socket, and comes back after the next message. -/
def skippingRun : List (QueueAction UInt8 1) :=
  List.flatten [[.enqueue 200], List.replicate 8 .writer, [.dequeue 0], List.replicate 5 (.reader 0),
    [.readerTimeout 0, .writer, .enqueue 5], List.replicate 9 .writer, [.dequeue 0], List.replicate 6 (.reader 0)]

/-- A reader that gives up waiting for the socket never returns that message, and returns the next one. -/
theorem message_skipped : ∃ s, Lib.run (step byteCodec 2) {} skippingRun = .ok s ∧
      s.enqueued = [200, 5] ∧ s.returned 0 = [5] ∧ ¬s.returned 0 <+: s.enqueued := by
  exact exists_ok_of_decide (by decide +kernel)

/-- Two readers get a message through the socket and one of them a message through a chunk, after a timeout at
a chunk; then the writer comes to the first chunk again. -/
def wrappingRun : List (QueueAction UInt8 2) :=
  List.flatten [[.dequeue 0, .readerTimeout 0, .enqueue 200], List.replicate 10 .writer, [.dequeue 0],
    List.replicate 5 (.reader 0), [.dequeue 1], List.replicate 5 (.reader 1), [.reader 0, .writer, .reader 0],
    [.enqueue 5], List.replicate 11 .writer, [.dequeue 0], List.replicate 6 (.reader 0), [.reader 1, .enqueue 6],
    List.replicate 4 .writer]

/-- The writer changes the first chunk again while a reader has still to read the second. -/
theorem delivers_in_order_wrapping :
    ∃ s, Lib.checkedRun (CopiesAndWaits byteCodec) (step byteCodec 2) {} wrappingRun = some s ∧
      s.returned 0 = [200, 5] ∧ s.returned 1 = [200] ∧ s.writer = .writing 6 0 ∧ s.returned 1 <+: s.enqueued ∧
      ∀ r, ∀ i < s.enqueued.length, i % 2 = s.writerIdx → i < s.taken r := by
  refine exists_checkedRun (P := fun s => s.returned 0 = [200, 5] ∧ s.returned 1 = [200] ∧
    s.writer = .writing 6 0) (by decide +kernel) fun s hreach ⟨hfirst, hsecond, hwriter⟩ => ?_
  have horder := delivers_in_order byteCodec Nat.two_pos hreach
  exact ⟨hfirst, hsecond, hwriter, horder.1 1, fun r => (horder.2 (by rw [hwriter]; trivial) r).1⟩

end QueueState

end VllmPs.Distributed
