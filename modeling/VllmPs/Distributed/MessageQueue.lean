import VllmPs.Lib.Transition

/-!
# The broadcast queue

One writer broadcasts objects through a ring of chunks in shared memory, each with a flag that it is written and
one for each reader. An object that does not fit into a chunk is sent through a socket. A step below is one load
or store of a flag or a byte, or one operation on the socket.
-/

namespace VllmPs.Distributed

open Lib Function

variable {A : Type} {n : ℕ}

/-- How an object is laid out in a chunk after its first byte. The number and the lengths of the buffers
precede their contents, so a reader knows when it has read all of it. -/
structure Codec (A : Type) where
  encode : A → List UInt8
  decode : List UInt8 → Option A
  decode_encode : ∀ a, decode (encode a) = some a
  decode_part : ∀ a bytes, bytes <+: encode a → bytes ≠ encode a → decode bytes = none
  /-- The object does not fit into a chunk. -/
  overflows : A → Bool
  /-- `oob_callback` takes a buffer of at least 1 MiB out of the pickled bytes. Such a buffer of an object that
  a reader takes from a chunk is a view into that chunk; every other byte is copied. -/
  outOfBand : A → Bool

/-- The bytes that the writer stores for an object. -/
def Codec.content (codec : Codec A) (a : A) : List UInt8 :=
  if codec.overflows a then [1] else 0 :: codec.encode a

/-- What a reader makes of the bytes it has read: nothing yet, an overflow, or an object. -/
def Codec.parse (codec : Codec A) : List UInt8 → Option (Option A)
  | [] => none
  | first :: bytes => if first = 1 then some none else (codec.decode bytes).map some

/-- A chunk with its flags. -/
structure Chunk (n : ℕ) where
  written : Bool := false
  readFlag : Fin n → Bool := fun _ => false
  cells : ℕ → UInt8 := fun _ => 0

/-- Where the writer is in `enqueue`. -/
inductive WriterPhase (A : Type)
  | idle
  /-- The check of `acquire_write`, after some of the read flags. -/
  | checking (obj : A) (seen : List Bool)
  /-- The check has passed, and the written flag is to be cleared. -/
  | granted (obj : A)
  | writing (obj : A) (count : ℕ)
  /-- Some of the read flags are cleared. -/
  | clearing (obj : A) (count : ℕ)
  /-- All read flags are cleared, and the written flag is to be set. -/
  | publishing (obj : A)
  /-- The object is to be sent through the socket. -/
  | sending (obj : A)
deriving DecidableEq

/-- Where a reader is in `dequeue`. -/
inductive ReaderPhase (A : Type)
  | idle
  /-- The check of `acquire_read`, before and after the load of the read flag. -/
  | checking
  | checked (readFlag : Bool)
  | reading (bytes : List UInt8)
  /-- The chunk was read, and the read flag is to be set. -/
  | marking (found : Option A)
  /-- The object is to be received from the socket. -/
  | receiving
deriving DecidableEq

/-- Shared memory, socket and the states of the writer and the readers. The objects enqueued, the objects
returned and the numbers of chunks read are histories. -/
structure QueueState (A : Type) (n : ℕ) where
  chunks : ℕ → Chunk n := fun _ => {}
  /-- The messages published on the socket, and how many of them each subscriber has received. -/
  published : List A := []
  received : Fin n → ℕ := fun _ => 0
  writer : WriterPhase A := .idle
  writerIdx : ℕ := 0
  reader : Fin n → ReaderPhase A := fun _ => .idle
  readerIdx : Fin n → ℕ := fun _ => 0
  enqueued : List A := []
  returned : Fin n → List A := fun _ => []
  taken : Fin n → ℕ := fun _ => 0

inductive QueueAction (A : Type) (n : ℕ)
  | enqueue (obj : A)
  | writer
  | writerTimeout
  | dequeue (r : Fin n)
  | reader (r : Fin n)
  | readerTimeout (r : Fin n)
deriving DecidableEq

namespace QueueState

variable (codec : Codec A) (maxChunks : ℕ)
variable (s : QueueState A n)

/-- Change the chunk with an index. -/
def modifyChunk (idx : ℕ) (f : Chunk n → Chunk n) : QueueState A n :=
  { s with chunks := update s.chunks idx (f (s.chunks idx)) }

def enqueue (obj : A) : QueueState A n :=
  match s.writer with
  | .idle => { s with writer := .checking obj [] }
  | _ => s

/-- The next load or store of `enqueue`. -/
def writerStep : QueueState A n :=
  let chunk := s.chunks s.writerIdx
  match s.writer with
  | .idle => s
  | .checking obj seen =>
    if h : seen.length < n then { s with writer := .checking obj (seen ++ [chunk.readFlag ⟨seen.length, h⟩]) }
    else if chunk.written = true ∧ seen.count true ≠ n then { s with writer := .checking obj [] }
    else { s with writer := .granted obj }
  | .granted obj =>
    { s.modifyChunk s.writerIdx (fun chunk => { chunk with written := false }) with writer := .writing obj 0 }
  | .writing obj count =>
    match (codec.content obj)[count]? with
    | some byte => { s.modifyChunk s.writerIdx (fun chunk =>
        { chunk with cells := update chunk.cells count byte }) with writer := .writing obj (count + 1) }
    | none => { s with writer := .clearing obj 0 }
  | .clearing obj count =>
    if h : count < n then { s.modifyChunk s.writerIdx (fun chunk =>
        { chunk with readFlag := update chunk.readFlag ⟨count, h⟩ false }) with
      writer := .clearing obj (count + 1) }
    else { s with writer := .publishing obj }
  | .publishing obj => { s.modifyChunk s.writerIdx (fun chunk => { chunk with written := true }) with
      writer := if codec.overflows obj then .sending obj else .idle
      writerIdx := (s.writerIdx + 1) % maxChunks
      enqueued := s.enqueued ++ [obj] }
  | .sending obj => { s with published := s.published ++ [obj], writer := .idle }

def writerTimeout : QueueState A n :=
  match s.writer with
  | .checking _ [] => { s with writer := .idle }
  | _ => s

variable (r : Fin n)

/-- A reader goes on with a phase. -/
def setReader (phase : ReaderPhase A) : QueueState A n :=
  { s with reader := update s.reader r phase }

/-- A reader returns an object. -/
def giveBack (obj : A) : QueueState A n :=
  { s.setReader r .idle with returned := update s.returned r (s.returned r ++ [obj]) }

def dequeue : QueueState A n :=
  match s.reader r with
  | .idle => s.setReader r .checking
  | _ => s

def markRead : QueueState A n :=
  { s.modifyChunk (s.readerIdx r) (fun chunk =>
      { chunk with readFlag := update chunk.readFlag r true }) with
    readerIdx := update s.readerIdx r ((s.readerIdx r + 1) % maxChunks)
    taken := update s.taken r (s.taken r + 1) }

/-- The next load or store of `dequeue`. -/
def readerStep : QueueState A n :=
  let chunk := s.chunks (s.readerIdx r)
  match s.reader r with
  | .idle => s
  | .checking => s.setReader r (.checked (chunk.readFlag r))
  | .checked readFlag =>
    if chunk.written = true ∧ readFlag = false then s.setReader r (.reading []) else s.setReader r .checking
  | .reading bytes =>
    match codec.parse bytes with
    | some found => s.setReader r (.marking found)
    | none => s.setReader r (.reading (bytes ++ [chunk.cells bytes.length]))
  | .marking (some obj) => (s.markRead maxChunks r).giveBack r obj
  | .marking none => (s.markRead maxChunks r).setReader r .receiving
  | .receiving =>
    match s.published[s.received r]? with
    | none => s
    | some obj => { s.giveBack r obj with received := update s.received r (s.received r + 1) }

/-- A reader gives up waiting for the chunk or for the socket. -/
def readerTimeout : QueueState A n :=
  match s.reader r with
  | .checking => s.setReader r .idle
  | .receiving => s.setReader r .idle
  | _ => s

def step : QueueAction A n → Except Empty (QueueState A n)
  | .enqueue obj => .ok (s.enqueue obj)
  | .writer => .ok (s.writerStep codec maxChunks)
  | .writerTimeout => .ok s.writerTimeout
  | .dequeue r => .ok (s.dequeue r)
  | .reader r => .ok (s.readerStep codec maxChunks r)
  | .readerTimeout r => .ok (s.readerTimeout r)

/-- No reader gives up waiting for the socket, and an object with out-of-band buffers goes through the socket:
then no returned object is a view into a chunk, and `decode` may copy. -/
def CopiesAndWaits : QueueAction A n → Prop
  | .enqueue obj => codec.outOfBand obj → codec.overflows obj
  | .readerTimeout r => s.reader r ≠ .receiving
  | _ => True

instance [DecidableEq A] (codec : Codec A) (s : QueueState A n) (action : QueueAction A n) :
    Decidable (s.CopiesAndWaits codec action) :=
  match action with
  | .enqueue obj => inferInstanceAs (Decidable (codec.outOfBand obj → codec.overflows obj))
  | .readerTimeout r => inferInstanceAs (Decidable (s.reader r ≠ .receiving))
  | .writer | .writerTimeout | .dequeue _ | .reader _ => inferInstanceAs (Decidable True)

end QueueState

end VllmPs.Distributed
