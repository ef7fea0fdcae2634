import VllmPs.Lib.Transition

/-!
# Objects in shared memory

One sender stores multimodal items in shared memory and every worker reads them. `writer_flag` counts the
announcements of an object and one counter beside it the uses of all readers; it may be freed when the two match.
A reader's touch counts only if the counter has reached the number of readers.
-/

namespace VllmPs.MultiModal

open Lib

variable {K : Type}

/-! ## The ring buffer -/

/-- An object of the ring buffer: its header, the readers' counter in its first bytes, and what the
sender keeps for it in its dictionaries, which all have the same keys. -/
structure ShmObject (K : Type) where
  monotonicId : ℕ
  key : K
  address : ℤ
  /-- The size with the header. -/
  size : ℕ
  readerCount : ℕ := 0
  writerFlag : ℕ := 0
deriving DecidableEq

/-- What the storage raises. -/
inductive ShmError
  /-- Not enough space in the data buffer. -/
  | memoryError
  /-- The object exceeds the maximal size. -/
  | tooLarge
  /-- `int2byte` of a number that needs more than four bytes. -/
  | overflow
  /-- The data was modified or is invalid: the memory of a freed object may be anything. -/
  | invalid
deriving DecidableEq

/-- The storage as its one writer sees it, the oldest object first. -/
structure ShmStorage (K : Type) where
  dataBufferSize : ℕ
  maxObjectSize : ℕ
  dataBufferStart : ℤ := 0
  dataBufferEnd : ℤ := 0
  monotonicIdEnd : ℕ := 0
  objects : List (ShmObject K) := []
deriving DecidableEq

/-- The bytes of the identifier and the size before each buffer. -/
def mdSize : ℕ := 8

/-- `ID_MAX`: identifiers are taken modulo it, and every number in the shared memory is below it. -/
def idMax : ℕ := 2 ^ 31

/-- `default_is_free_check` -/
def ShmObject.isFree (nReaders : ℕ) (o : ShmObject K) : Prop := o.writerFlag * nReaders ≤ o.readerCount
  deriving Decidable

namespace ShmStorage

/-- `allocate_buf`: the address and identifier of a new buffer, with the end moved behind it. -/
def allocateBuf (st : ShmStorage K) (key : K) (size : ℕ) : Except ShmError (ShmStorage K) :=
  let size := size + mdSize
  let bufferEndReset :=
    if st.dataBufferEnd % st.dataBufferSize + size > st.dataBufferSize then
      (st.dataBufferEnd / st.dataBufferSize + 1) * st.dataBufferSize
    else st.dataBufferEnd
  if bufferEndReset + size - st.dataBufferStart > st.dataBufferSize then .error .memoryError
  else .ok { st with
    objects := st.objects ++ [{ monotonicId := st.monotonicIdEnd, key, address := bufferEndReset, size }]
    dataBufferEnd := bufferEndReset + size
    monotonicIdEnd := (st.monotonicIdEnd + 1) % idMax }

/-- The loop of `free_buf`: free the oldest objects until enough bytes are freed or one is in use. -/
def freeLoop (dataBufferSize nReaders nbytes : ℕ) : ℕ → ℤ → ℤ → List (ShmObject K) →
    ℤ × ℤ × List (ShmObject K)
  | _, start, stop, [] => (start, stop, [])
  | freedBytes, start, stop, o :: rest =>
    if freedBytes < nbytes ∧ o.isFree nReaders then
      match rest with
      | [] => (0, 0, [])
      | next :: others =>
        freeLoop dataBufferSize nReaders nbytes (freedBytes + o.size)
          (start + (next.address - start) % dataBufferSize) stop (next :: others)
    else (start, stop, o :: rest)

/-- `free_unused`: room for two objects of the maximal size is asked for. -/
def freeUnused (nReaders : ℕ) (st : ShmStorage K) : ShmStorage K :=
  let freed := freeLoop st.dataBufferSize nReaders (2 * st.maxObjectSize) 0 st.dataBufferStart
    st.dataBufferEnd st.objects
  let wrap : ℤ := if (st.dataBufferSize : ℤ) ≤ freed.1 then st.dataBufferSize else 0
  { st with
    dataBufferStart := freed.1 - wrap
    dataBufferEnd := freed.2.1 - wrap
    objects := freed.2.2 }

variable [DecidableEq K]
variable (st : ShmStorage K)

/-- The object stored under a key. -/
def cached (key : K) : Option (ShmObject K) := st.objects.find? (·.key = key)

variable (id : ℕ)

def object : Option (ShmObject K) := st.objects.find? (·.monotonicId = id)

/-- Change the object with an identifier. -/
def modify (f : ShmObject K → ShmObject K) : ShmStorage K :=
  { st with objects := st.objects.map fun o => if o.monotonicId = id then f o else o }

def incrementWriterFlag : ShmStorage K :=
  st.modify id fun o => { o with writerFlag := o.writerFlag + 1 }

/-- `increment_reader_flag` of an object that was found. -/
def incrementReaderFlag (o : ShmObject K) : Except ShmError (ShmStorage K) :=
  if o.readerCount + 1 < idMax then .ok (st.modify id fun o => { o with readerCount := o.readerCount + 1 })
  else .error .overflow

/-- `put` for a key that is not stored: the storage after the attempt, and the identifier unless there is
no room or the object is too large. -/
def put (nReaders : ℕ) (st : ShmStorage K) (key : K) (bufferSize : ℕ) : ShmStorage K × Option ℕ :=
  if bufferSize > st.maxObjectSize then (st, none)
  else
    let allocated (st : ShmStorage K) :=
      (st.allocateBuf key bufferSize).map fun st' => (st'.incrementWriterFlag st.monotonicIdEnd,
        some st.monotonicIdEnd)
    match allocated st with
    | .ok result => result
    | .error _ =>
      let st := st.freeUnused nReaders
      match allocated st with
      | .ok result => result
      | .error _ => (st, none)

end ShmStorage

/-! ## The sender and the readers -/

/-- A multimodal item: its hash and the bytes that it takes with its flag. -/
structure ShmItem (K : Type) where
  mmHash : K
  nbytes : ℕ
deriving DecidableEq

/-- An item as it is sent with an address: the object, whether the sender's touch found it stored, and
whether it was stored by this request. Readers see the object only. -/
structure SentItem where
  id : ℕ
  stored : Bool
  first : Bool
deriving DecidableEq

inductive SenderPhase (K : Type)
  | idle
  | touching (rest : List (ShmItem K)) (touched : List (ShmItem K × Option ℕ))
  | updating (rest : List (ShmItem K × Option ℕ)) (items : List SentItem)
deriving DecidableEq

/-- What a reader has to do for an item of a request. -/
inductive ReaderOp
  | touch (id : ℕ) (stored : Bool)
  | get (id : ℕ) (first : Bool)
deriving DecidableEq

def ReaderOp.laterTouch : ReaderOp → Option ℕ
  | .touch id true => some id
  | _ => none

/-- The operations for a request: all touches, then all reads. -/
def readerOps (items : List SentItem) : List ReaderOp :=
  items.map (fun item => .touch item.id item.stored) ++ items.map fun item => .get item.id item.first

structure ShmState (K : Type) (n : ℕ) where
  storage : ShmStorage K
  phase : SenderPhase K := .idle
  sent : List ReaderOp := []
  position : Fin n → ℕ := fun _ => 0

inductive ShmAction (K : Type) (n : ℕ)
  /-- A request begins. -/
  | request (items : List (ShmItem K))
  /-- The sender does its next operation for the request. -/
  | sender
  | reader (r : Fin n)
deriving DecidableEq

namespace ShmState

variable [DecidableEq K] {n : ℕ}

/-- The empty storage. -/
def start (dataBufferSize maxObjectSize : ℕ) : ShmState K n where
  storage := { dataBufferSize, maxObjectSize }

variable (s : ShmState K n)

def request (items : List (ShmItem K)) : ShmState K n :=
  match s.phase with
  | .idle => { s with phase := .touching items [] }
  | _ => s

/-- `touch_sender_cache_item`, `get_and_update_item`, or sending the request. -/
def sender : ShmState K n :=
  match s.phase with
  | .idle => s
  | .touching [] touched => { s with phase := .updating touched [] }
  | .touching (item :: rest) touched =>
    match s.storage.cached item.mmHash with
    | none => { s with phase := .touching rest (touched ++ [(item, none)]) }
    | some o => { s with
        storage := s.storage.incrementWriterFlag o.monotonicId
        phase := .touching rest (touched ++ [(item, some o.monotonicId)]) }
  | .updating [] items => { s with phase := .idle, sent := s.sent ++ readerOps items }
  | .updating ((item, touched) :: rest) items =>
    match s.storage.cached item.mmHash with
    | some o => { s with
        storage := s.storage.incrementWriterFlag o.monotonicId
        phase := .updating rest (items ++ [⟨o.monotonicId, touched.isSome, false⟩]) }
    | none =>
      match s.storage.put n item.mmHash item.nbytes with
      | (storage, some id) => { s with
          storage
          phase := .updating rest (items ++ [⟨id, touched.isSome, true⟩]) }
      -- the item itself is sent, and the readers have nothing to do for it
      | (storage, none) => { s with storage, phase := .updating rest items }

/-- A reader's operation on the memory. -/
def readerOp (st : ShmStorage K) : ReaderOp → Except ShmError (ShmStorage K)
  | .touch id _ =>
    match st.object id with
    | none => .error .invalid
    | some o => if n ≤ o.readerCount then st.incrementReaderFlag id o else .ok st
  | .get id _ =>
    match st.object id with
    | none => .error .invalid
    | some o => st.incrementReaderFlag id o

/-- A reader does its next operation. -/
def reader (r : Fin n) : Except ShmError (ShmState K n) :=
  match (s.sent.drop (s.position r)).head? with
  | none => .ok s
  | some op => do
    let storage ← readerOp (n := n) s.storage op
    return { s with storage, position := Function.update s.position r (s.position r + 1) }

def step : ShmAction K n → Except ShmError (ShmState K n)
  | .request items => .ok (s.request items)
  | .sender => .ok s.sender
  | .reader r => s.reader r

/-- Operations that a reader has still to do. -/
def pending (r : Fin n) : List ReaderOp := s.sent.drop (s.position r)

/-- No item that is not stored is repeated in a request, and no reader touches an object for a later request
before every reader has got it for the one that stored it. The identifiers have not come round yet, and sizes and
counters fit into their four bytes. -/
def InStep : ShmAction K n → Prop
  | .request items => ((items.filter fun item => (s.storage.cached item.mmHash).isNone).Pairwise
      fun a b => a.mmHash ≠ b.mmHash) ∧ ∀ item ∈ items, item.nbytes + mdSize < idMax
  | .sender => s.storage.monotonicIdEnd + 1 < idMax
  | .reader r => (∀ id ∈ (s.pending r).head?.bind ReaderOp.laterTouch,
      ∀ r', ReaderOp.get id true ∉ s.pending r') ∧ ∀ o ∈ s.storage.objects, o.readerCount + 1 < idMax

instance (s : ShmState K n) (a : ShmAction K n) : Decidable (s.InStep a) :=
  match a with
  | .request _ => inferInstanceAs (Decidable (List.Pairwise _ _ ∧ _))
  | .sender => inferInstanceAs (Decidable (_ < _))
  | .reader _ => inferInstanceAs (Decidable ((∀ _ ∈ _, _) ∧ _))

end ShmState

end VllmPs.MultiModal
