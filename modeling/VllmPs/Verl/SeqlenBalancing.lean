import Mathlib.Data.List.Sort
import Mathlib.Data.Prod.Lex
import Mathlib.Order.Lex
import Mathlib.Tactic
import VllmPs.Lib.Transition

/-!
# Balanced micro-batches

`rearrange_micro_batches` takes the number of micro-batches from the total number of tokens, and distributes
the sequences by the largest differencing method on an estimate of their workload, which bounds how far the sums
of two partitions differ. Only this keeps a micro-batch below `max_token_len`.
-/

namespace VllmPs.Verl

open Lib List

/-! ## The largest differencing method -/

inductive BalanceError
  | assertionError
  | indexError
  | valueError
  | zeroDivisionError
  deriving DecidableEq

/-- `calculate_workload` of one sequence. -/
def calculateWorkload (seqlen : ℕ) : ℕ := 24576 * seqlen + seqlen ^ 2

/-- `Set`: items, each an index and its value. -/
structure ItemSet where
  items : List (ℕ × ℕ) := []

namespace ItemSet

def sum (s : ItemSet) : ℕ := (s.items.map (·.2)).sum

def merge (s other : ItemSet) : ItemSet := ⟨s.items ++ other.items⟩

/-- What `__lt__` compares, in this order. -/
def key (s : ItemSet) : ℕ ×ₗ ℕ ×ₗ List (ℕ ×ₗ ℕ) := toLex (s.sum, toLex (s.items.length, s.items.map toLex))

end ItemSet

/-- `sorted(sets, reverse=True)` -/
def sortSets (sets : List ItemSet) : List ItemSet := sets.insertionSort fun a b => b.key ≤ a.key

/-- `State`: its sets in decreasing order. -/
structure State where
  sets : List ItemSet

namespace State

/-- The state of one item; `k` is positive. -/
def new (k : ℕ) (item : ℕ × ℕ) : State := ⟨sortSets (⟨[item]⟩ :: List.replicate (k - 1) {})⟩

def merge (s other : State) : State := ⟨sortSets (List.zipWith ItemSet.merge s.sets other.sets.reverse)⟩

def spread (s : State) : ℕ := (s.sets.headD {}).sum - (s.sets.getLastD {}).sum

/-- `__lt__`: the state with the largest spread comes first, then the one with the largest set. -/
def lt (s other : State) : Bool :=
  if s.spread ≠ other.spread then decide (other.spread < s.spread)
  else decide ((other.sets.headD {}).key < (s.sets.headD {}).key)

def getPartitions (s : State) : List (List ℕ) := s.sets.map fun set => set.items.map (·.1)

end State

/-- `heapq.heappush`, where the heap is the list of its states in the order in which they are popped. No two
states share an item, so `lt` decides the order. -/
def heappush (heap : List State) (s : State) : List State := heap.orderedInsert (fun a b => !b.lt a) s

/-- The loop that merges the first two states; one state less is left after each round. -/
def mergeStates : ℕ → List State → List State
  | n + 1, state0 :: state1 :: rest => mergeStates n (heappush rest (state0.merge state1))
  | _, heap => heap

/-- `karmarkar_karp` with `equal_size=False` -/
def karmarkarKarp (seqlenList : List ℕ) (k : ℕ) : Except BalanceError (List (List ℕ)) :=
  if k = 0 then .error .indexError
  else
    let sorted := seqlenList.zipIdx.insertionSort fun a b => toLex a ≤ toLex b
    let heap := sorted.foldl (fun heap x => heappush heap (.new k (x.2, x.1))) []
    match mergeStates heap.length heap with
    | [] => .error .indexError
    | final :: _ => .ok final.getPartitions

/-- `get_seqlen_balanced_partitions` with `equal_size=False` -/
def getSeqlenBalancedPartitions (seqlenList : List ℕ) (k : ℕ) : Except BalanceError (List (List ℕ)) :=
  if seqlenList.length < k then .error .assertionError
  else do
    let partitions ← karmarkarKarp seqlenList k
    if partitions.length ≠ k ∨ [] ∈ partitions ∨ ¬ (∀ i ∈ partitions.flatten, i < seqlenList.length) ∨
        ¬ (∀ i < seqlenList.length, i ∈ partitions.flatten) then .error .assertionError
    else return partitions.map (·.insertionSort (· ≤ ·))

/-! ## Micro-batches -/

def roundupDivisible (a b : ℕ) : ℕ := (a + b - 1) / b * b

structure BatchLengths where
  seqLenEffective : List ℕ
  width : Option ℕ := none

structure RearrangeOptions where
  maxTokenLen : ℕ
  /-- The largest number of micro-batches of the data parallel group, if it is reduced. -/
  dpMax : Option ℕ := none
  numBatchesDividedBy : Option ℕ := none
  minNumMicroBatch : Option ℕ := none
  useDynamicBszBalance : Bool := true
  forceGroupSize : ℕ := 1

/-- `num_micro_batches` for a number of groups and a total number of tokens. -/
def numMicroBatches (o : RearrangeOptions) (numGroups totalSeqlen : ℕ) : Except BalanceError ℕ :=
  if o.maxTokenLen = 0 then .error .zeroDivisionError
  else
    let n := min numGroups ((totalSeqlen + o.maxTokenLen - 1) / o.maxTokenLen)
    let n := max (o.minNumMicroBatch.getD n) n
    let n := max (o.dpMax.getD n) n
    match o.numBatchesDividedBy with
    | none => .ok n
    | some 0 => .error .zeroDivisionError
    | some (d + 1) => .ok (roundupDivisible n (d + 1))

variable {α : Type}

/-- `l[start::step]` -/
def slice (start step : ℕ) (l : List α) : List α :=
  (l.zipIdx.filter fun x => decide (start ≤ x.2 ∧ (x.2 - start) % step = 0)).map (·.1)

def groupWorkloads (size : ℕ) (seqLens : List ℕ) : List ℕ :=
  let workloads := seqLens.map calculateWorkload
  if 1 < size then
    (List.range (seqLens.length / size)).map fun i => ((workloads.drop (i * size)).take size).sum
  else workloads

/-- The samples of the groups of a partition. -/
def samplesOf (size : ℕ) (partition : List ℕ) : List ℕ :=
  if 1 < size then partition.flatMap fun i => (List.range size).map (i * size + ·) else partition

/-- With `use_dynamic_bsz_balance`, sort by workload and place the smaller micro-batches at both ends. -/
def balance (o : RearrangeOptions) (workloads : List ℕ) (partitions : List (List ℕ)) : List (List ℕ) :=
  let key (partition : List ℕ) : ℕ ×ₗ ℕ :=
    toLex (((slice 0 o.forceGroupSize partition).map fun i => workloads.getD (i / o.forceGroupSize) 0).sum,
      partition.headD 0)
  let sorted := partitions.insertionSort fun a b => key b ≤ key a
  if o.useDynamicBszBalance then (slice 0 2 sorted).reverse ++ slice 1 2 sorted else partitions

/-- `rearrange_micro_batches`: the indices of each micro-batch. -/
def rearrangeMicroBatches (b : BatchLengths) (o : RearrangeOptions) : Except BalanceError (List (List ℕ)) :=
  match b.width.or b.seqLenEffective.max? with
  | none => .error .valueError
  | some maxSeqLen =>
    let batchSize := b.seqLenEffective.length
    if o.maxTokenLen < maxSeqLen then .error .assertionError
    else if o.forceGroupSize = 0 then .error .zeroDivisionError
    else if batchSize % o.forceGroupSize ≠ 0 then .error .assertionError
    else do
      let numGroups := batchSize / o.forceGroupSize
      let n ← numMicroBatches o numGroups b.seqLenEffective.sum
      if numGroups < n then .error .assertionError
      else
        let workloads := groupWorkloads o.forceGroupSize b.seqLenEffective
        let partitions ← getSeqlenBalancedPartitions workloads n
        return balance o workloads (partitions.map (samplesOf o.forceGroupSize))

/-! ## Sums of partitions -/

theorem ItemSet.sum_merge (s other : ItemSet) : (s.merge other).sum = s.sum + other.sum := by
  rw [sum, merge, map_append, sum_append]
  rfl

theorem ItemSet.sum_le_of_key_le {s other : ItemSet} (h : s.key ≤ other.key) : s.sum ≤ other.sum := by
  rcases Prod.Lex.le_iff.mp h with hlt | ⟨heq, -⟩
  · exact le_of_lt hlt
  · exact le_of_eq heq

theorem sortSets_perm (sets : List ItemSet) : (sortSets sets).Perm sets := perm_insertionSort _ _

namespace State

variable {d k : ℕ} {s other : State}

/-- The items of all sets. -/
def items (s : State) : List (ℕ × ℕ) := s.sets.flatMap (·.items)

/-- The sums of the sets are in decreasing order and differ by at most `d`. -/
def Balanced (d : ℕ) (s : State) : Prop := s.sets.Pairwise fun a b => b.sum ≤ a.sum ∧ a.sum ≤ b.sum + d

theorem balanced_sortSets {sets : List ItemSet}
    (h : sets.Pairwise fun a b => a.sum ≤ b.sum + d ∧ b.sum ≤ a.sum + d) : Balanced d ⟨sortSets sets⟩ := by
  have hsorted : (sortSets sets).Pairwise fun a b => b.key ≤ a.key := pairwise_insertionSort _ _
  have hclose := ((sortSets_perm sets).pairwise_iff fun h => h.symm).mpr h
  exact (hsorted.and hclose).imp fun hab => ⟨ItemSet.sum_le_of_key_le hab.1, hab.2.1⟩

theorem new_spec (hk : 0 < k) {item : ℕ × ℕ} (hd : item.2 ≤ d) :
    (new k item).sets.length = k ∧ (new k item).Balanced d ∧ (new k item).items.Perm [item] := by
  refine ⟨?_, balanced_sortSets (pairwise_cons.mpr ⟨fun set hset => ?_, ?_⟩), ?_⟩
  · rw [new, (sortSets_perm _).length_eq, length_cons, length_replicate]
    omega
  · rw [eq_of_mem_replicate hset]
    change item.2 + 0 ≤ 0 + d ∧ 0 ≤ item.2 + 0 + d
    omega
  · exact pairwise_replicate.mpr (.inr ⟨Nat.zero_le _, Nat.zero_le _⟩)
  · refine ((sortSets_perm _).flatMap_right _).trans ?_
    simp

theorem Balanced.merge (h : s.Balanced d) (hother : other.Balanced d) : (s.merge other).Balanced d := by
  refine balanced_sortSets (pairwise_iff_getElem.mpr fun i j hi hj hij => ?_)
  simp only [length_zipWith, lt_min_iff] at hi hj
  have hs := pairwise_iff_getElem.mp h i j hi.1 hj.1 hij
  have hreverse := pairwise_iff_getElem.mp (pairwise_reverse.mpr hother) i j hi.2 hj.2 hij
  simp only [getElem_zipWith, ItemSet.sum_merge]
  omega

theorem zipWith_merge_perm {a b : List ItemSet} (h : a.length = b.length) :
    ((List.zipWith ItemSet.merge a b).flatMap (·.items)).Perm (a.flatMap (·.items) ++ b.flatMap (·.items)) := by
  induction a generalizing b with
  | nil => rw [eq_nil_of_length_eq_zero h.symm]; rfl
  | cons x a ih =>
    obtain ⟨y, b, rfl⟩ := exists_cons_of_length_eq_add_one h.symm
    simp only [zipWith_cons_cons, flatMap_cons, ItemSet.merge, append_assoc]
    refine List.Perm.append_left _ (((ih (Nat.succ.inj h)).append_left _).trans ?_)
    exact perm_append_comm_assoc _ _ _

theorem merge_spec (hs : s.sets.length = k) (hother : other.sets.length = k) :
    (s.merge other).sets.length = k ∧ (s.merge other).items.Perm (s.items ++ other.items) := by
  have hlength : s.sets.length = other.sets.reverse.length := by rw [length_reverse, hs, hother]
  constructor
  · rw [State.merge, (sortSets_perm _).length_eq, length_zipWith, ← hlength, min_self, hs]
  · refine (((sortSets_perm _).flatMap_right _).trans (zipWith_merge_perm hlength)).trans ?_
    exact ((reverse_perm _).flatMap_right _).append_left _

end State

section

variable {d k : ℕ} {items : List (ℕ × ℕ)} {heap : List State} {s : State} {values : List ℕ}
  {partitions : List (List ℕ)}

/-- The states of the heap hold the items, in `k` sets each whose sums differ by at most `d`. -/
def HeapInv (d k : ℕ) (items : List (ℕ × ℕ)) (heap : List State) : Prop :=
  (∀ s ∈ heap, s.sets.length = k ∧ s.Balanced d) ∧ (heap.flatMap (·.items)).Perm items

theorem HeapInv.push (h : HeapInv d k items heap) (hs : s.sets.length = k ∧ s.Balanced d) :
    HeapInv d k (s.items ++ items) (heappush heap s) := by
  have hperm := perm_orderedInsert (fun a b => !b.lt a) s heap
  constructor
  · intro s' hmem
    rcases mem_cons.mp (hperm.mem_iff.mp hmem) with rfl | hmem
    · exact hs
    · exact h.1 s' hmem
  · exact (hperm.flatMap_right _).trans (h.2.append_left _)

theorem HeapInv.mergeStates (n : ℕ) (h : HeapInv d k items heap) (hn : heap.length ≤ n + 1) :
    HeapInv d k items (mergeStates n heap) ∧ (Verl.mergeStates n heap).length ≤ 1 := by
  induction n generalizing heap with
  | zero => exact ⟨h, hn⟩
  | succ n ih =>
    match heap, h, hn with
    | [], h, _ => exact ⟨h, Nat.zero_le _⟩
    | [_], h, _ => exact ⟨h, le_rfl⟩
    | state0 :: state1 :: rest, h, hn =>
      have h0 := h.1 state0 mem_cons_self
      have h1 := h.1 state1 (mem_cons_of_mem _ mem_cons_self)
      obtain ⟨hlength, hitems⟩ := State.merge_spec h0.1 h1.1
      have hrest : HeapInv d k (rest.flatMap (·.items)) rest :=
        ⟨fun s hs => h.1 s (mem_cons_of_mem _ (mem_cons_of_mem _ hs)), .rfl⟩
      have hpush := hrest.push ⟨hlength, h0.2.merge h1.2⟩
      refine ih ⟨hpush.1, hpush.2.trans ((hitems.append_right _).trans ?_)⟩ ?_
      · rw [append_assoc]
        exact h.2
      · rw [heappush, List.orderedInsert_length]
        simp only [length_cons] at hn
        omega

theorem HeapInv.pushAll (hk : 0 < k) (h : HeapInv d k items heap) {l : List (ℕ × ℕ)} (hl : ∀ x ∈ l, x.1 ≤ d) :
    HeapInv d k ((l.map Prod.swap).reverse ++ items)
      (l.foldl (fun heap x => heappush heap (.new k (x.2, x.1))) heap) := by
  induction l generalizing heap items with
  | nil => exact h
  | cons x l ih =>
    obtain ⟨hlength, hbalanced, hitems⟩ :=
      State.new_spec hk (show (x.2, x.1).2 ≤ d from hl x mem_cons_self)
    have hnext := ih (h.push ⟨hlength, hbalanced⟩) fun y hy => hl y (mem_cons_of_mem _ hy)
    refine ⟨hnext.1, hnext.2.trans ?_⟩
    rw [map_cons, reverse_cons, append_assoc]
    exact (hitems.append_right _).append_left _

theorem karmarkarKarp_spec (hd : ∀ v ∈ values, v ≤ d) (h : karmarkarKarp values k = .ok partitions) :
    ∃ final : State, partitions = final.getPartitions ∧ final.sets.length = k ∧ final.Balanced d ∧
      final.items.Perm (values.zipIdx.map Prod.swap) := by
  unfold karmarkarKarp at h
  split_ifs at h with hk
  dsimp only at h
  have hsorted := perm_insertionSort (fun a b : ℕ × ℕ => toLex a ≤ toLex b) values.zipIdx
  have hstart : HeapInv d k [] [] := ⟨nofun, .rfl⟩
  have hheap := hstart.pushAll (Nat.pos_of_ne_zero hk) fun x hx =>
    hd x.1 (List.fst_mem_of_mem_zipIdx (hsorted.mem_iff.mp hx))
  obtain ⟨⟨hstates, hitems⟩, hone⟩ := hheap.mergeStates _ (Nat.le_succ _)
  split at h
  · cases h
  rename_i final rest hmerged
  rw [hmerged] at hstates hitems hone
  obtain rfl : rest = [] := eq_nil_of_length_eq_zero (Nat.le_zero.mp (Nat.le_of_succ_le_succ hone))
  obtain ⟨hlength, hbalanced⟩ := hstates final mem_cons_self
  refine ⟨final, (Except.ok.inj h).symm, hlength, hbalanced, ?_⟩
  rw [flatMap_singleton, append_nil] at hitems
  exact hitems.trans ((reverse_perm _).trans (hsorted.map _))

end

/-! ## The tokens of a micro-batch -/

/-- The tokens of a micro-batch. -/
def BatchLengths.tokens (b : BatchLengths) (partition : List ℕ) : ℕ :=
  (partition.map (b.seqLenEffective.getD · 0)).sum

/-- The workload at a position is that of the sequence there. -/
theorem BatchLengths.workload_getD (b : BatchLengths) (i : ℕ) :
    (b.seqLenEffective.map calculateWorkload).getD i 0 = calculateWorkload (b.seqLenEffective.getD i 0) := by
  rw [getD_eq_getElem?_getD, List.getElem?_map, getD_eq_getElem?_getD]
  cases b.seqLenEffective[i]? <;> rfl

/-- A sequence at a position is one of the batch, or empty. -/
theorem BatchLengths.getD_mem (b : BatchLengths) (i : ℕ) :
    b.seqLenEffective.getD i 0 = 0 ∨ b.seqLenEffective.getD i 0 ∈ b.seqLenEffective := by
  rw [getD_eq_getElem?_getD]
  cases hget : b.seqLenEffective[i]? with
  | none => exact .inl rfl
  | some l => exact .inr (mem_of_getElem? hget)

/-- A common divisor of the workloads of a batch. -/
def BatchLengths.Divides (b : BatchLengths) (unit : ℕ) : Prop := ∀ l ∈ b.seqLenEffective, unit ∣ calculateWorkload l

/-- It divides the workload of every micro-batch. -/
theorem BatchLengths.Divides.sum {b : BatchLengths} {unit : ℕ} (h : b.Divides unit) (partition : List ℕ) :
    unit ∣ (partition.map ((b.seqLenEffective.map calculateWorkload).getD · 0)).sum := by
  refine dvd_sum fun w hw => ?_
  obtain ⟨i, -, rfl⟩ := mem_map.mp hw
  rw [b.workload_getD]
  rcases b.getD_mem i with hzero | hmem
  · rw [hzero]
    exact dvd_zero unit
  · exact h _ hmem

/-- The length of the longest sequence. -/
def BatchLengths.longest (b : BatchLengths) : ℕ := b.seqLenEffective.foldr max 0

variable {b : BatchLengths} {o : RearrangeOptions} {result : List (List ℕ)} {m k : ℕ}

/-- An even share of the sequences, with the longest one once more for each further micro-batch, in multiples of a
unit. -/
def BatchLengths.share (b : BatchLengths) (unit m : ℕ) : ℕ :=
  unit * (((b.seqLenEffective.map calculateWorkload).sum + (m - 1) * calculateWorkload b.longest) / (m * unit))

end VllmPs.Verl
