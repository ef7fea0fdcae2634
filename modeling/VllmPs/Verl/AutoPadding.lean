import VllmPs.Lib.Transition

/-!
# Auto-padded dispatch of the controller

A blocking call to a worker group pads the batch to a multiple of the number of workers and strips as
many rows from the outputs. The rows are added to the caller's object, so the next call with it
returns outputs for them too.
-/

namespace VllmPs.Verl

open List Lib

variable {α β : Type}

/-- What a call can raise. -/
inductive DispatchError
  | assertion
  | index
deriving DecidableEq

/-- A batch, whose tensors and arrays are cut and joined row by row, and whether it may be padded. -/
structure DataProto (α : Type) where
  rows : List α
  autoPadding : Bool
deriving DecidableEq

namespace DataProto

variable (d : DataProto α)

/-- `padding`: repeat the last row. -/
def padding (paddingSize : ℕ) : Except DispatchError (DataProto α) :=
  if paddingSize = 0 then .ok d
  else
    match d.rows.getLast? with
    | none => .error .index
    | some last => .ok { d with rows := d.rows ++ replicate paddingSize last }

/-- `chunk`: pieces of one size, rounded up, of which there may be too few. -/
def chunk (chunks : ℕ) : Except DispatchError (List (DataProto α)) :=
  let size := (d.rows.length + chunks - 1) / chunks
  if d.autoPadding = false ∧ d.rows.length % chunks ≠ 0 then .error .assertion
  else if (d.rows.length + size - 1) / size < chunks then .error .index
  else .ok ((range chunks).map fun i => { d with rows := (d.rows.drop (i * size)).take size })

/-- The rows that are missing to a multiple of the number of chunks. -/
def paddingSize (dataProtoLen chunks : ℕ) : ℕ :=
  if dataProtoLen % chunks > 0 then chunks - dataProtoLen % chunks else 0

/-- `_split_args_kwargs_data_proto_with_auto_padding` for one argument: the caller's object afterwards, its
chunks, and the padding size if there is one. -/
def splitWithAutoPadding (chunks : ℕ) : Except DispatchError (DataProto α × List (DataProto α) × Option ℕ) := do
  if d.autoPadding then
    let paddingSize := paddingSize d.rows.length chunks
    let d ← d.padding paddingSize
    let splitted ← d.chunk chunks
    return (d, splitted, some paddingSize)
  else
    let splitted ← d.chunk chunks
    return (d, splitted, none)

/-- The functor of `func_generator` for a blocking method that maps each row of its chunk: the rows it
returns and the caller's object afterwards. -/
def call (worldSize : ℕ) (method : α → β) : Except DispatchError (List β × DataProto α) := do
  let (d, splitted, paddingSize) ← d.splitWithAutoPadding worldSize
  let paddingCount := paddingSize.getD 0
  let outputs := splitted.map fun chunk => chunk.rows.map method
  if outputs.length ≠ worldSize then .error .assertion
  else
    let output := outputs.flatten
    return (if paddingCount > 0 then output.take (output.length - paddingCount) else output, d)

/-- Calls with one object, one after the other. -/
def calls : DataProto α → List (ℕ × (α → β)) → Except DispatchError (List (List β) × DataProto α)
  | d, [] => .ok ([], d)
  | d, (worldSize, method) :: rest => do
    let (output, d) ← d.call worldSize method
    let (outputs, d) ← calls d rest
    return (output :: outputs, d)

variable {d}

theorem flatMap_pieces (rows : List α) (size count : ℕ) :
    ((range count).flatMap fun i => (rows.drop (i * size)).take size) = rows.take (count * size) := by
  induction count with
  | zero => simp
  | succ count ih => rw [range_succ, flatMap_append, ih, Nat.succ_mul, take_add, flatMap_singleton]

theorem chunk_eq {chunks m : ℕ} (hm : 0 < m) (hlength : d.rows.length = chunks * m) (hchunks : 0 < chunks) :
    d.chunk chunks = .ok ((range chunks).map fun i => { d with rows := (d.rows.drop (i * m)).take m }) := by
  have hsize : (d.rows.length + chunks - 1) / chunks = m := by
    rw [hlength, Nat.add_sub_assoc hchunks, Nat.mul_add_div hchunks, Nat.div_eq_of_lt (Nat.sub_one_lt_of_lt hchunks),
      Nat.add_zero]
  have hpieces : ¬(d.rows.length + m - 1) / m < chunks := by
    rw [hlength, Nat.add_sub_assoc hm, Nat.mul_comm, Nat.mul_add_div hm]
    exact Nat.not_lt.mpr (Nat.le_add_right _ _)
  have hmod : ¬(d.autoPadding = false ∧ d.rows.length % chunks ≠ 0) := by simp [hlength]
  simp only [chunk, hsize, if_neg hmod, if_neg hpieces]

section Padding

variable (n : ℕ) {chunks : ℕ} (hchunks : 0 < chunks)
include hchunks

theorem exists_padded : ∃ m, n + paddingSize n chunks = chunks * m := by
  have hlt := Nat.mod_lt n hchunks
  have hdiv := Nat.div_add_mod n chunks
  unfold paddingSize
  split_ifs with hrest
  · exact ⟨n / chunks + 1, by rw [Nat.mul_succ]; omega⟩
  · exact ⟨n / chunks, by omega⟩

theorem paddingSize_eq_zero : paddingSize n chunks = 0 ↔ chunks ∣ n := by
  have hlt := Nat.mod_lt n hchunks
  unfold paddingSize
  rw [Nat.dvd_iff_mod_eq_zero]
  split_ifs <;> omega

end Padding

section Calls

variable (hne : d.rows ≠ []) (hpad : d.autoPadding = true)
include hne

theorem padding_eq (size : ℕ) :
    d.padding size = .ok { d with rows := d.rows ++ replicate size (d.rows.getLast hne) } := by
  unfold padding
  split_ifs with hzero
  · simp [hzero]
  · simp only [getLast?_eq_some_getLast hne]

include hpad

/-- A call returns an output for every row that the caller's object has at that moment, and adds to the
object what is missing to a multiple of the number of workers. -/
theorem call_eq {worldSize : ℕ} (hw : 0 < worldSize) (method : α → β) :
    d.call worldSize method = .ok (d.rows.map method,
      { d with rows := d.rows ++ replicate (paddingSize d.rows.length worldSize) (d.rows.getLast hne) }) := by
  obtain ⟨m, hm⟩ := exists_padded d.rows.length hw
  have hpadding := padding_eq hne (paddingSize d.rows.length worldSize)
  generalize hsize : paddingSize d.rows.length worldSize = size at hm hpadding ⊢
  generalize hrows : d.rows ++ replicate size (d.rows.getLast hne) = padded at hpadding ⊢
  have hlength : padded.length = worldSize * m := by rw [← hrows, length_append, length_replicate, hm]
  have hpos : 0 < m := Nat.pos_of_mul_pos_left (hlength ▸ length_pos_of_ne_nil (by simp [← hrows, hne]))
  have hsplit : d.splitWithAutoPadding worldSize = .ok ({ d with rows := padded },
      (range worldSize).map fun i => { d with rows := (padded.drop (i * m)).take m }, some size) := by
    simp only [splitWithAutoPadding, if_pos hpad, hsize, hpadding]
    change (chunk { d with rows := padded } worldSize >>= fun splitted => pure _) = _
    rw [chunk_eq hpos hlength hw]
    rfl
  have hflat : (((range worldSize).map fun i => { d with rows := (padded.drop (i * m)).take m }).map
      fun chunk => chunk.rows.map method).flatten = padded.map method := by
    have hpieces := congrArg (map method) (flatMap_pieces padded m worldSize)
    rw [← hlength, take_length, map_flatMap] at hpieces
    rw [map_map, ← flatMap_def]
    exact hpieces
  have hstrip : (if size > 0 then (padded.map method).take ((padded.map method).length - size)
      else padded.map method) = d.rows.map method := by
    rw [← hrows]
    split_ifs with hpositive
    · simp
    · simp [Nat.eq_zero_of_not_pos hpositive]
  simp only [call, hsplit]
  change (if _ ≠ worldSize then _ else _) = _
  rw [if_neg (by simp), hflat, Option.getD_some, hstrip]
  rfl

theorem calls_eq {steps : List (ℕ × (α → β))} (hsteps : ∀ step ∈ steps, 0 < step.1 ∧ step.1 ∣ d.rows.length) :
    d.calls steps = .ok (steps.map fun step => d.rows.map step.2, d) := by
  induction steps with
  | nil => rfl
  | cons step rest ih =>
    obtain ⟨⟨hw, hdvd⟩, hrest⟩ := forall_mem_cons.mp hsteps
    simp only [calls, call_eq hne hpad hw, (paddingSize_eq_zero _ hw).mpr hdvd, replicate_zero, append_nil]
    change (d.calls rest >>= fun result => pure _) = _
    rw [ih hrest]
    rfl

end Calls

/-- After calls on worker groups whose sizes divide the number of rows, a call on a group of any size returns
one output for each row, in order, and the caller's object keeps its rows if the size divides their number. -/
theorem autoPadding_invisible (d : DataProto α) (hne : d.rows ≠ []) (hpad : d.autoPadding = true)
    (steps : List (ℕ × (α → β))) (hsteps : ∀ step ∈ steps, 0 < step.1 ∧ step.1 ∣ d.rows.length)
    (worldSize : ℕ) (hw : 0 < worldSize) (method : α → β) :
    d.calls steps = .ok (steps.map fun step => d.rows.map step.2, d) ∧
      ∃ d', d.call worldSize method = .ok (d.rows.map method, d') ∧
        (d'.rows = d.rows ↔ worldSize ∣ d.rows.length) := by
  refine ⟨calls_eq hne hpad hsteps, _, call_eq hne hpad hw method, ?_⟩
  rw [← paddingSize_eq_zero _ hw]
  simp

theorem autoPadding_invisible_two :
    (⟨[5, 7], true⟩ : DataProto ℕ).calls [(2, (· + 1)), (1, (· * 2))] = .ok ([[6, 8], [10, 14]], ⟨[5, 7], true⟩) :=
  (autoPadding_invisible ⟨[5, 7], true⟩ (by decide) rfl [(2, (· + 1)), (1, (· * 2))] (by decide) 3 (by decide) id).1

/-- A call on two workers adds a row to a batch of one row, and the next call returns two outputs. -/
theorem autoPadding_visible :
    (⟨[5], true⟩ : DataProto ℕ).calls [(2, (· + 1)), (1, (· + 1))] = .ok ([[6], [6, 6]], ⟨[5, 5], true⟩) := by
  decide +kernel

end DataProto

end VllmPs.Verl
