import VllmPs.Verl.SeqlenBalancing

/-!
# Restoring a batch after dynamic batching

The rows of a batch go to the model in the micro-batches of `rearrange_micro_batches`, and
`restore_dynamic_batch` puts what the model returns back into the order of the batch.
-/

namespace VllmPs.Verl

open Lib List

variable {α : Type}

/-! ## The calls -/

/-- Index a tensor by a list of rows. -/
def selectRows (data : List α) (indices : List ℕ) : Except BalanceError (List α) :=
  indices.mapM fun i => (data[i]?).elim (.error .indexError) .ok

/-- `reverse_idx_map[idx] = i` -/
def setEntry (reverse : List ℕ) (x : ℕ × ℕ) : Except BalanceError (List ℕ) :=
  if x.1 < reverse.length then .ok (reverse.set x.1 x.2) else .error .indexError

/-- `get_reverse_idx` -/
def getReverseIdx (idxMap : List ℕ) : Except BalanceError (List ℕ) :=
  idxMap.zipIdx.foldlM setEntry idxMap

/-- `restore_dynamic_batch` -/
def restoreDynamicBatch (data : List α) (batchIdxList : List (List ℕ)) : Except BalanceError (List α) :=
  let indices := batchIdxList.flatten
  if indices.length ≠ data.length then .error .assertionError
  else do
    let revertIndices ← getReverseIdx indices
    selectRows data revertIndices

/-! ## Every row is in one micro-batch -/

theorem slice_append_perm (l : List α) : (slice 0 2 l ++ slice 1 2 l).Perm l := by
  have hodd : ∀ i, decide (1 ≤ i ∧ (i - 1) % 2 = 0) = !decide (0 ≤ i ∧ (i - 0) % 2 = 0) := by
    intro i
    rw [← decide_not, decide_eq_decide]
    omega
  have hperm := (filter_append_perm (fun x : α × ℕ => decide (0 ≤ x.2 ∧ (x.2 - 0) % 2 = 0)) l.zipIdx).map (·.1)
  rw [map_append, zipIdx_map_fst] at hperm
  simp only [slice, hodd]
  exact hperm

theorem balance_perm (o : RearrangeOptions) (workloads : List ℕ) (partitions : List (List ℕ)) :
    (balance o workloads partitions).Perm partitions := by
  unfold balance
  split_ifs
  · exact ((reverse_perm _).append_right _).trans ((slice_append_perm _).trans (perm_insertionSort _ _))
  · exact .rfl

theorem range_flatMap_range (n size : ℕ) :
    (range n).flatMap (fun i => (range size).map (i * size + ·)) = range (n * size) := by
  induction n with
  | zero => rw [Nat.zero_mul]; rfl
  | succ n ih => rw [range_succ, flatMap_append, ih, flatMap_singleton, Nat.succ_mul, range_add]

/-- A partition of the groups gives a partition of the samples. -/
theorem flatten_samplesOf {size n : ℕ} (hsize : size ≠ 0) {partitions : List (List ℕ)}
    (h : partitions.flatten.Perm (range n)) :
    ((partitions.map (samplesOf size)).flatten).Perm (range (n * size)) := by
  by_cases hone : 1 < size
  · have hflat : (partitions.map (samplesOf size)).flatten =
        partitions.flatten.flatMap fun i => (range size).map (i * size + ·) := by
      clear h
      induction partitions <;> simp_all [samplesOf]
    rw [hflat, ← range_flatMap_range]
    exact h.flatMap_right _
  · obtain rfl : size = 1 := by omega
    rw [Nat.mul_one, show samplesOf 1 = id from rfl, map_id]
    exact h

theorem getSeqlenBalancedPartitions_perm {values : List ℕ} {k : ℕ} {partitions : List (List ℕ)}
    (h : getSeqlenBalancedPartitions values k = .ok partitions) :
    partitions.flatten.Perm (range values.length) := by
  unfold getSeqlenBalancedPartitions at h
  split_ifs at h
  obtain ⟨found, hfound, h⟩ := bind_eq_ok.mp h
  split_ifs at h
  cases h
  obtain ⟨final, rfl, -, -, hitems⟩ := karmarkarKarp_spec (fun v hv => le_sum_of_mem hv) hfound
  have hsorted : ∀ l : List (List ℕ), ((l.map (·.insertionSort (· ≤ ·))).flatten).Perm l.flatten := fun l => by
    induction l with
    | nil => exact .rfl
    | cons a l ih => exact (perm_insertionSort _ _).append ih
  refine (hsorted _).trans ?_
  have hindices := hitems.map (·.1)
  rw [map_map, State.items, map_flatMap, flatMap_def] at hindices
  refine hindices.trans (.of_eq ?_)
  rw [range_eq_range']
  exact zipIdx_map_snd 0 values

theorem rearrangeMicroBatches_spec {b : BatchLengths} {o : RearrangeOptions} {result : List (List ℕ)}
    (h : rearrangeMicroBatches b o = .ok result) :
    o.forceGroupSize ≠ 0 ∧ b.seqLenEffective.length % o.forceGroupSize = 0 ∧ ∃ n partitions,
      getSeqlenBalancedPartitions (groupWorkloads o.forceGroupSize b.seqLenEffective) n = .ok partitions ∧
      result = balance o (groupWorkloads o.forceGroupSize b.seqLenEffective)
        (partitions.map (samplesOf o.forceGroupSize)) := by
  unfold rearrangeMicroBatches at h
  split at h
  · cases h
  dsimp only at h
  split_ifs at h with _ hsize hmod
  obtain ⟨n, -, h⟩ := bind_eq_ok.mp h
  split_ifs at h
  obtain ⟨partitions, hpartitions, rfl⟩ := bind_pure_eq_ok.mp h
  exact ⟨hsize, not_not.mp hmod, n, partitions, hpartitions, rfl⟩

variable {b : BatchLengths} {o : RearrangeOptions} {batchIdxList : List (List ℕ)}

/-- The micro-batches are a partition of the batch. -/
theorem rearrangeMicroBatches_perm (h : rearrangeMicroBatches b o = .ok batchIdxList) :
    batchIdxList.flatten.Perm (range b.seqLenEffective.length) := by
  obtain ⟨hsize, hmod, n, partitions, hpartitions, rfl⟩ := rearrangeMicroBatches_spec h
  refine (balance_perm _ _ _).flatten.trans ?_
  have hperm := flatten_samplesOf hsize (getSeqlenBalancedPartitions_perm hpartitions)
  have hlength : (groupWorkloads o.forceGroupSize b.seqLenEffective).length * o.forceGroupSize =
      b.seqLenEffective.length := by
    unfold groupWorkloads
    split_ifs with hone
    · rw [length_map, length_range]
      exact Nat.div_mul_cancel (Nat.dvd_of_mod_eq_zero hmod)
    · rw [length_map, show o.forceGroupSize = 1 by omega, Nat.mul_one]
  rwa [hlength] at hperm

/-! ## The round trip -/

theorem selectRows_eq {data : List α} {entry : ℕ → ℕ} {f : ℕ → α} {l : List ℕ}
    (h : ∀ j ∈ l, data[entry j]? = some (f j)) : selectRows data (l.map entry) = .ok (l.map f) := by
  induction l with
  | nil => rfl
  | cons j l ih =>
    obtain ⟨hj, hrest⟩ := forall_mem_cons.mp h
    have hrun := ih hrest
    rw [selectRows] at hrun
    rw [selectRows, map_cons, mapM_cons, hj, hrun]
    rfl

/-- The loop of `get_reverse_idx` writes each index of a list at its entry, and nothing else. -/
theorem setEntries_spec (indices : List ℕ) (k : ℕ) (reverse : List ℕ) (hnodup : indices.Nodup)
    (hlt : ∀ i ∈ indices, i < reverse.length) :
    ∃ reverse', (indices.zipIdx k).foldlM setEntry reverse = .ok reverse' ∧
      reverse'.length = reverse.length ∧ (∀ i ∉ indices, reverse'[i]? = reverse[i]?) ∧
      ∀ x ∈ indices.zipIdx k, reverse'[x.1]? = some x.2 := by
  induction indices generalizing k reverse with
  | nil => exact ⟨reverse, rfl, rfl, fun _ _ => rfl, by simp⟩
  | cons i indices ih =>
    obtain ⟨hi, hnodup⟩ := nodup_cons.mp hnodup
    obtain ⟨hlt, hlts⟩ := forall_mem_cons.mp hlt
    obtain ⟨reverse', hrun, hlength, hrest, hset⟩ := ih (k + 1) (reverse.set i k) hnodup (by simpa using hlts)
    refine ⟨reverse', ?_, hlength.trans length_set, fun j hj => ?_, fun x hx => ?_⟩
    · rw [zipIdx_cons, foldlM_cons, setEntry, if_pos hlt]
      exact hrun
    · rw [hrest j fun hmem => hj (mem_cons_of_mem _ hmem), getElem?_set_ne]
      exact fun heq => hj (heq ▸ mem_cons_self)
    · rcases mem_cons.mp (zipIdx_cons ▸ hx) with rfl | hx
      · rw [hrest i hi, getElem?_set_self hlt]
      · exact hset x hx

/-- The reverse index says where each row is. -/
theorem getReverseIdx_eq {indices : List ℕ} {n : ℕ} (h : indices.Perm (range n)) :
    getReverseIdx indices = .ok ((range n).map indices.idxOf) := by
  have hn : indices.length = n := h.length_eq.trans length_range
  obtain ⟨reverse, hrun, hlength, -, hset⟩ := setEntries_spec indices 0 indices (h.nodup_iff.mpr nodup_range)
    fun i hi => hn ▸ mem_range.mp (h.mem_iff.mp hi)
  refine hrun.trans (congrArg _ (List.ext_getElem? fun j => ?_))
  by_cases hj : j < n
  · have hmem := idxOf_lt_length_of_mem (h.mem_iff.mpr (mem_range.mpr hj))
    rw [getElem?_map, getElem?_range hj]
    exact hset (j, indices.idxOf j) (mem_zipIdx_iff_getElem?.mpr (by simp [getElem?_eq_getElem hmem]))
  · rw [getElem?_eq_none (by omega), getElem?_eq_none (by simpa using hj)]

/-- What the model returns for the rows of the micro-batches comes back in the order of the batch. -/
theorem restoreDynamicBatch_rearrangeMicroBatches (output : ℕ → α)
    (h : rearrangeMicroBatches b o = .ok batchIdxList) :
    restoreDynamicBatch (batchIdxList.flatMap (·.map output)) batchIdxList =
      .ok ((range b.seqLenEffective.length).map output) := by
  have hperm := rearrangeMicroBatches_perm h
  rw [flatMap_def, ← map_flatten, restoreDynamicBatch, if_neg (not_not.mpr (length_map _).symm),
    getReverseIdx_eq hperm]
  refine selectRows_eq fun j hj => ?_
  have hmem := idxOf_lt_length_of_mem (hperm.mem_iff.mpr hj)
  rw [getElem?_map, getElem?_eq_getElem hmem, getElem_idxOf hmem]
  rfl

/-- Of three rows the longest one is in a micro-batch of its own, which comes first. -/
theorem restoreDynamicBatch_rearrangeMicroBatches_three :
    rearrangeMicroBatches ⟨[1, 4, 2], none⟩ { maxTokenLen := 4 } = .ok [[1], [0, 2]] ∧
      restoreDynamicBatch [11, 10, 12] [[1], [0, 2]] = .ok [10, 11, 12] := by
  have hrun : rearrangeMicroBatches ⟨[1, 4, 2], none⟩ { maxTokenLen := 4 } = .ok [[1], [0, 2]] := by
    decide +kernel
  exact ⟨hrun, restoreDynamicBatch_rearrangeMicroBatches (10 + ·) hrun⟩

end VllmPs.Verl
