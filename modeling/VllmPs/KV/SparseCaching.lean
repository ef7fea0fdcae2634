import VllmPs.KV.CacheHits

/-!
# Sparse caching in sliding-window groups

`reachable_block_mask` leaves out of the cache the blocks that no search for a hit consults, so two caches that
hold the others give hits of the same length. For a window of one token the mask selects no block, while the
search still asks for one.
-/

namespace VllmPs

open List

variable {H : Type} [DecidableEq H]
variable {cachedAt cachedAt' : ℕ → Option (List BlockId)}
  {contiguous blockSize alignment maxNumBlocks i run : ℕ} {drop : Bool} {rows rows' : List (List BlockId)}

/-- The sliding-window search may start a run at this position. -/
def IsEdge (blockSize alignment : ℕ) (drop : Bool) (i : ℕ) : Prop :=
  blockSize = alignment ∨ (if drop then i else i + 1) * blockSize % alignment = 0

/-- Each run that a search from an edge consults is cached. -/
def HoldsRuns (cachedAt : ℕ → Option (List BlockId)) (contiguous blockSize alignment : ℕ) (drop : Bool)
    (maxNumBlocks : ℕ) : Prop :=
  ∀ edge < maxNumBlocks, IsEdge blockSize alignment drop edge → (drop = true → edge ≠ 0) →
    ∀ i ≤ edge, edge < i + contiguous → (cachedAt i).isSome

/-- The length of the result depends on the lengths of the rows only. -/
theorem length_finishSlidingWindow (hlength : rows.length = rows'.length) (run : ℕ) (found : Bool) :
    (finishSlidingWindow blockSize drop alignment (rows, run, found)).length =
      (finishSlidingWindow blockSize drop alignment (rows', run, found)).length := by
  have htrim {rows rows' : List (List BlockId)} (h : rows.length = rows'.length) :
      (trimAligned blockSize alignment rows).length = (trimAligned blockSize alignment rows').length := by
    simp [trimAligned, h]
  have hcomputed : (if found then rows else trimAligned blockSize alignment (rows.take run)).length =
      (if found then rows' else trimAligned blockSize alignment (rows'.take run)).length := by
    cases found with
    | true => exact hlength
    | false => exact htrim (by simp [hlength])
  unfold finishSlidingWindow
  dsimp only
  generalize (if found then rows else _) = computed at hcomputed ⊢
  generalize (if found then rows' else _) = computed' at hcomputed ⊢
  have hempty : computed.isEmpty = computed'.isEmpty := by
    cases computed <;> cases computed' <;> simp_all
  rw [hempty]
  split
  · exact htrim (by simp [hcomputed])
  · exact hcomputed

/-- A position at which no run may start is passed over. -/
theorem slidingWindowLoop_skip (hedge : ¬IsEdge blockSize alignment drop i) :
    slidingWindowLoop cachedAt contiguous blockSize drop alignment (i + 1) rows 0 =
      slidingWindowLoop cachedAt contiguous blockSize drop alignment i rows 0 := by
  rw [slidingWindowLoop]
  cases cachedAt i with
  | none => rfl
  | some row => exact if_pos ⟨rfl, not_or.mp hedge⟩

/-- A cached position starts a run or makes it longer. -/
theorem slidingWindowLoop_take {row : List BlockId} (hcached : cachedAt i = some row)
    (hedge : run = 0 → IsEdge blockSize alignment drop i) :
    slidingWindowLoop cachedAt contiguous blockSize drop alignment (i + 1) rows run =
      if run + 1 ≥ contiguous then ((rows.set i row).take (i + (run + 1)), run + 1, true)
      else slidingWindowLoop cachedAt contiguous blockSize drop alignment i (rows.set i row) (run + 1) := by
  rw [slidingWindowLoop, hcached]
  exact if_neg fun ⟨hrun, hne, halign⟩ => (hedge hrun).elim hne halign

/-- Dropping the EAGLE block of a run of one leaves nothing. -/
theorem length_finish_dropped {found : Bool} (hone : (if found then rows.length else run) ≤ 1) :
    (finishSlidingWindow blockSize true alignment (rows, run, found)).length = 0 := by
  cases found with
  | true => exact Nat.eq_zero_of_le_zero ((prefix_finishSlidingWindow _ _ _ _).2.trans (Nat.sub_le_sub_right hone 1))
  | false =>
    have htake : finishSlidingWindow blockSize true alignment (rows, run, false) =
        finishSlidingWindow blockSize true alignment (rows.take run, run, false) := by
      simp [finishSlidingWindow, take_take]
    rw [htake]
    exact Nat.eq_zero_of_le_zero ((prefix_finishSlidingWindow _ _ _ _).2.trans
      (Nat.sub_le_sub_right ((length_take_le _ _).trans hone) 1))

/-- A run that starts at the first position is dropped. -/
theorem length_finish_first :
    (finishSlidingWindow blockSize true alignment
      (slidingWindowLoop cachedAt contiguous blockSize true alignment 1 rows 0)).length = 0 := by
  cases hcached : cachedAt 0 with
  | none =>
    rw [slidingWindowLoop, hcached]
    exact length_finish_dropped (Nat.zero_le 1)
  | some row =>
    rw [slidingWindowLoop_take hcached fun _ => Or.inr (by simp)]
    split_ifs
    · exact length_finish_dropped (by simp)
    · exact length_finish_dropped le_rfl

/-- Two caches that hold all runs give hits of the same length. -/
theorem length_finish_slidingWindowLoop (h : HoldsRuns cachedAt contiguous blockSize alignment drop maxNumBlocks)
    (h' : HoldsRuns cachedAt' contiguous blockSize alignment drop maxNumBlocks) (hpos : 0 < contiguous)
    (hi : i ≤ maxNumBlocks) (hlength : rows.length = rows'.length)
    (hrun : run ≠ 0 → run < contiguous ∧ ∃ edge < maxNumBlocks, IsEdge blockSize alignment drop edge ∧
      (drop = true → edge ≠ 0) ∧ edge + 1 = i + run) :
    (finishSlidingWindow blockSize drop alignment
      (slidingWindowLoop cachedAt contiguous blockSize drop alignment i rows run)).length =
    (finishSlidingWindow blockSize drop alignment
      (slidingWindowLoop cachedAt' contiguous blockSize drop alignment i rows' run)).length := by
  induction i generalizing rows rows' run with
  | zero => exact length_finishSlidingWindow hlength run false
  | succ i ih =>
    by_cases hskip : run = 0 ∧ ¬IsEdge blockSize alignment drop i
    · obtain ⟨rfl, hedge⟩ := hskip
      rw [slidingWindowLoop_skip hedge, slidingWindowLoop_skip hedge]
      exact ih (by omega) hlength nofun
    by_cases hfirst : run = 0 ∧ drop = true ∧ i = 0
    · obtain ⟨rfl, rfl, rfl⟩ := hfirst
      rw [length_finish_first, length_finish_first]
    -- the run that this position starts or continues
    have hstart : run = 0 → IsEdge blockSize alignment drop i := fun h0 => by_contra fun hne => hskip ⟨h0, hne⟩
    obtain ⟨hlt, edge, hbound, hedge, hdrop, heq⟩ : run < contiguous ∧ ∃ edge < maxNumBlocks,
        IsEdge blockSize alignment drop edge ∧ (drop = true → edge ≠ 0) ∧ edge + 1 = i + 1 + run := by
      rcases Nat.eq_zero_or_pos run with rfl | hpos'
      · exact ⟨hpos, i, by omega, hstart rfl, fun hd h0 => hfirst ⟨rfl, hd, h0⟩, rfl⟩
      · exact hrun (by omega)
    obtain ⟨row, hrow⟩ := Option.isSome_iff_exists.mp (h edge hbound hedge hdrop i (by omega) (by omega))
    obtain ⟨row', hrow'⟩ := Option.isSome_iff_exists.mp (h' edge hbound hedge hdrop i (by omega) (by omega))
    rw [slidingWindowLoop_take hrow hstart, slidingWindowLoop_take hrow' hstart]
    split_ifs with hfound
    · exact length_finishSlidingWindow (by simp [hlength]) _ _
    · exact ih (by omega) (by simp [hlength]) fun _ => ⟨by omega, edge, hbound, hedge, hdrop, by omega⟩

/-- The pool has, for every group of the list, each block of the prefix that the mask selects; `none`
selects every block. -/
def CachesSelected (mask : Option (List Bool)) (pool : BlockPool H) (blockHashes : List (List H))
    (kvCacheGroupIds : List ℕ) : Prop :=
  ∀ i < blockHashes.length, (∀ selected ∈ mask, selected[i]? = some true) →
    (cachedRow pool blockHashes kvCacheGroupIds i).isSome

/-- A position close before a multiple is in the tail of its segment. -/
theorem le_mod_of_run {per need bound : ℕ} (hdvd : per ∣ bound) (hlt : i < bound) (hrun : bound ≤ i + need)
    (hneed : need < per) : per - need ≤ i % per := by
  obtain ⟨k, rfl⟩ := hdvd
  cases k with
  | zero => omega
  | succ k =>
    rw [Nat.mul_succ] at hlt hrun
    have hmod : i % per = i - per * k := by
      rw [← Nat.sub_add_cancel (show per * k ≤ i by omega), Nat.add_mul_mod_self_left, Nat.add_sub_cancel]
      exact Nat.mod_eq_of_lt (by omega)
    omega

/-- A window of two tokens or more needs a block. -/
theorem contiguousBlocksForHit_pos {windowSize : ℕ} (hwindow : 2 ≤ windowSize) (hpos : 0 < blockSize)
    (useEagle : Bool) : 0 < contiguousBlocksForHit windowSize blockSize useEagle := by
  have hneg : -((windowSize : ℤ) - 1) / blockSize < 0 := Int.ediv_neg_of_neg_of_pos (by omega) (by omega)
  unfold contiguousBlocksForHit cdiv
  omega

/-- The positions of a run before an aligned edge are in the tail of a segment. -/
theorem tail_of_run {per need edge : ℕ} {useEagle : Bool} (hdrop : drop = true → useEagle = true)
    (hneed : need + (if useEagle then 1 else 0) < per) (hdvd : per ∣ if drop then edge else edge + 1)
    (hfirst : drop = true → edge ≠ 0) (hi : i ≤ edge) (hrun : edge < i + (need + if drop then 1 else 0)) :
    (if useEagle then 1 else 0) ≤ i ∧
      per - (need + if useEagle then 1 else 0) ≤ (i - if useEagle then 1 else 0) % per := by
  have hle : per ≤ if drop then edge else edge + 1 := by
    refine Nat.le_of_dvd ?_ hdvd
    cases drop with
    | true => exact Nat.pos_of_ne_zero (hfirst rfl)
    | false => exact Nat.succ_pos edge
  cases drop <;> cases useEagle <;> simp only [if_true, if_false, Bool.false_eq_true] at *
  · exact ⟨by omega, le_mod_of_run hdvd (by omega) (by omega) hneed⟩
  · exact ⟨by omega, le_mod_of_run hdvd (by omega) (by omega) hneed⟩
  · cases hdrop trivial
  · exact ⟨by omega, le_mod_of_run hdvd (by omega) (by omega) hneed⟩

/-- The selected blocks include every run that a search consults. -/
theorem holdsRuns_of_mask (mgr : SingleTypeManager) {slidingWindow numPromptTokens : ℕ} {pool : BlockPool H}
    {blockHashes : List (List H)} {groupIds : List ℕ} (hkind : mgr.spec.kind = .slidingWindow slidingWindow)
    (hpos : 0 < mgr.blockSize) (hdvd : mgr.blockSize ∣ mgr.schedulerBlockSize)
    (hdrop : drop = true → mgr.useEagle = true) (hmax : maxNumBlocks ≤ blockHashes.length)
    (h : CachesSelected (mgr.reachableBlockMask 0 blockHashes.length none numPromptTokens) pool blockHashes groupIds) :
    HoldsRuns (cachedRow pool blockHashes groupIds) (contiguousBlocksForHit slidingWindow mgr.blockSize drop)
      mgr.blockSize mgr.schedulerBlockSize drop maxNumBlocks := by
  intro edge hbound hedge hfirst i hi hrun
  refine h i (by omega) fun selected hselected => ?_
  obtain ⟨per, hper⟩ := hdvd
  have hdiv : mgr.schedulerBlockSize / mgr.blockSize = per := by rw [hper, Nat.mul_div_cancel_left _ hpos]
  simp only [SingleTypeManager.reachableBlockMask, hkind, Option.map_some, Option.any_some, hdiv] at hselected
  generalize hshift : (if mgr.useEagle = true then 1 else 0) = shift at hselected
  split_ifs at hselected with hall
  · cases hselected
  rw [decide_eq_true_eq, not_le] at hall
  have hpost : per ∣ if drop then edge else edge + 1 := by
    rcases hedge with heq | hmod
    · have hone : mgr.blockSize * 1 = mgr.blockSize * per := by rw [Nat.mul_one, ← hper, heq]
      exact Nat.eq_of_mul_eq_mul_left hpos hone ▸ one_dvd _
    · rw [hper, Nat.mul_comm, Nat.mul_mod_mul_left] at hmod
      exact Nat.dvd_of_mod_eq_zero ((Nat.mul_eq_zero.mp hmod).resolve_left hpos.ne')
  have htail : shift ≤ i ∧ per - contiguousBlocksForHit slidingWindow mgr.blockSize mgr.useEagle ≤ (i - shift) % per :=
    hshift ▸ tail_of_run hdrop hall hpost hfirst hi hrun
  cases hselected
  rw [getElem?_map, getElem?_range' (show i < blockHashes.length - 0 by omega)]
  simp only [Option.map_some, Nat.zero_add, Nat.one_mul, decide_eq_true htail.1, decide_eq_true htail.2, Bool.true_and,
    Bool.true_or]

/-- A run of no blocks is found as soon as one of one block is. -/
theorem slidingWindowLoop_zero :
    slidingWindowLoop cachedAt 0 blockSize drop alignment i rows run =
      slidingWindowLoop cachedAt 1 blockSize drop alignment i rows run := by
  induction i generalizing rows run with
  | zero => rfl
  | succ i ih =>
    rw [slidingWindowLoop, slidingWindowLoop]
    cases cachedAt i with
    | none => exact ih
    | some row => simp only [ih, ge_iff_le, if_true, Nat.le_add_left]

/-- Without a cached position at which a run may start, nothing is found. -/
theorem slidingWindowLoop_no_edge (h : ∀ j < i, (cachedAt j).isSome → ¬IsEdge blockSize alignment drop j) :
    slidingWindowLoop cachedAt contiguous blockSize drop alignment i rows 0 = (rows, 0, false) := by
  induction i with
  | zero => rfl
  | succ i ih =>
    have hrest := ih fun j hj => h j (Nat.lt_succ_of_lt hj)
    cases hcached : cachedAt i with
    | none => rw [slidingWindowLoop, hcached, hrest]
    | some row => rw [slidingWindowLoop_skip (h i (Nat.lt_succ_self i) (by simp [hcached])), hrest]

/-- If every position is cached, the last one at which a run may start gives a hit. -/
theorem length_finish_pos (hcached : ∀ j < i, (cachedAt j).isSome) (hlength : i ≤ rows.length)
    (hedge : ∃ edge < i, IsEdge blockSize alignment false edge) :
    0 < (finishSlidingWindow blockSize false alignment
      (slidingWindowLoop cachedAt 1 blockSize false alignment i rows 0)).length := by
  induction i with
  | zero => simp at hedge
  | succ i ih =>
    by_cases hi : IsEdge blockSize alignment false i
    · obtain ⟨row, hrow⟩ := Option.isSome_iff_exists.mp (hcached i (Nat.lt_succ_self i))
      rw [slidingWindowLoop_take hrow fun _ => hi, if_pos le_rfl]
      simp only [finishSlidingWindow, if_true, Bool.false_and, Bool.false_eq_true, if_false, length_take, length_set]
      omega
    · rw [slidingWindowLoop_skip hi]
      obtain ⟨edge, hlt, hedge⟩ := hedge
      have hne : edge ≠ i := fun heq => hi (heq ▸ hedge)
      exact ih (fun j hj => hcached j (Nat.lt_succ_of_lt hj)) (by omega) ⟨edge, by omega, hedge⟩

/-- A window of less than two tokens needs no block of its own. -/
theorem contiguousBlocksForHit_of_lt {windowSize : ℕ} (hwindow : windowSize < 2) (useEagle : Bool) :
    contiguousBlocksForHit windowSize blockSize useEagle = if useEagle then 1 else 0 := by
  have hneg : 0 ≤ -((windowSize : ℤ) - 1) / blockSize := Int.ediv_nonneg (by omega) (by omega)
  unfold contiguousBlocksForHit cdiv
  omega

/-- Up to a length below the alignment no run may start. -/
theorem not_isEdge_of_lt {maxLength : ℕ} (hpos : 0 < blockSize) (hlt : maxLength < alignment)
    (hi : i < maxLength / blockSize) : ¬IsEdge blockSize alignment false i := by
  have hend : (i + 1) * blockSize ≤ maxLength := (Nat.mul_le_mul_right _ hi).trans (Nat.div_mul_le_self _ _)
  have hle : blockSize ≤ (i + 1) * blockSize := Nat.le_mul_of_pos_left _ (Nat.succ_pos i)
  rintro (heq | hmod)
  · omega
  · simp only [Bool.false_eq_true, if_false] at hmod
    rw [Nat.mod_eq_of_lt (hend.trans_lt hlt)] at hmod
    omega

/-- The window has two tokens or more, the EAGLE block is dropped, no aligned boundary is within the length, or EAGLE
is on and a segment is one block. -/
def LosesNoHit (mgr : SingleTypeManager) (slidingWindow : ℕ) (drop : Bool) (maxLength : ℕ) : Prop :=
  2 ≤ slidingWindow ∨ drop = true ∨ maxLength < mgr.schedulerBlockSize ∨
    (mgr.useEagle = true ∧ mgr.schedulerBlockSize = mgr.blockSize)

/-- The pool has exactly the blocks of the prefix that the mask selects. -/
def CachesExactly (mask : Option (List Bool)) (pool : BlockPool H) (blockHashes : List (List H))
    (kvCacheGroupIds : List ℕ) : Prop :=
  ∀ i < blockHashes.length, (cachedRow pool blockHashes kvCacheGroupIds i).isSome ↔
    ∀ selected ∈ mask, selected[i]? = some true

section Search

variable (mgr : SingleTypeManager) {slidingWindow numPromptTokens maxLength : ℕ} {sparse full : BlockPool H}
  {blockHashes : List (List H)} {kvCacheGroupIds : List ℕ}
  (hkind : mgr.spec.kind = .slidingWindow slidingWindow) (hpos : 0 < mgr.blockSize)
  (hdvd : mgr.blockSize ∣ mgr.schedulerBlockSize) (hdrop : drop = true → mgr.useEagle = true)
  (hfull : CachesSelected none full blockHashes kvCacheGroupIds)
  (hmax : maxLength / mgr.blockSize ≤ blockHashes.length)

include hkind in
/-- The search as a loop over the cached rows. -/
theorem findLongestCacheHit_eq (pool : BlockPool H) (alignment : ℕ) :
    findLongestCacheHit pool mgr.spec blockHashes maxLength kvCacheGroupIds drop alignment =
      finishSlidingWindow mgr.blockSize drop alignment (slidingWindowLoop (cachedRow pool blockHashes kvCacheGroupIds)
        (contiguousBlocksForHit slidingWindow mgr.blockSize drop) mgr.blockSize drop alignment
        (maxLength / mgr.blockSize)
        (List.replicate (maxLength / mgr.blockSize) (kvCacheGroupIds.map fun _ => nullBlock)) 0) := by
  simp only [findLongestCacheHit, hkind]
  rfl

include hkind hpos hdvd hdrop hfull hmax in
/-- A pool with the selected blocks gives a hit of the same length as one with every block, under the condition. -/
theorem length_hit_of_losesNoHit (hsafe : LosesNoHit mgr slidingWindow drop maxLength)
    (hsparse : CachesSelected (mgr.reachableBlockMask 0 blockHashes.length none numPromptTokens) sparse blockHashes
      kvCacheGroupIds) :
    (findLongestCacheHit sparse mgr.spec blockHashes maxLength kvCacheGroupIds drop mgr.schedulerBlockSize).length =
      (findLongestCacheHit full mgr.spec blockHashes maxLength kvCacheGroupIds drop mgr.schedulerBlockSize).length := by
  have hall {pool : BlockPool H} {contiguous : ℕ} (h : CachesSelected none pool blockHashes kvCacheGroupIds) :
      HoldsRuns (cachedRow pool blockHashes kvCacheGroupIds) contiguous mgr.blockSize mgr.schedulerBlockSize drop
        (maxLength / mgr.blockSize) :=
    fun edge hbound _ _ i hi _ => h i (hi.trans_lt (hbound.trans_le hmax)) nofun
  rw [findLongestCacheHit_eq mgr hkind, findLongestCacheHit_eq mgr hkind]
  by_cases hneed : 0 < contiguousBlocksForHit slidingWindow mgr.blockSize drop
  · exact length_finish_slidingWindowLoop (holdsRuns_of_mask mgr hkind hpos hdvd hdrop hmax hsparse) (hall hfull)
      hneed le_rfl rfl fun hne => absurd rfl hne
  -- no block is needed beside the one at the boundary
  have hwindow : slidingWindow < 2 := Nat.lt_of_not_le fun h => hneed (contiguousBlocksForHit_pos h hpos drop)
  obtain rfl : drop = false := Bool.eq_false_iff.mpr fun h =>
    hneed (by rw [contiguousBlocksForHit_of_lt hwindow, h]; exact one_pos)
  rcases hsafe with h | h | hlt | ⟨heagle, hone⟩
  · omega
  · cases h
  · have hedge {pool : BlockPool H} (j : ℕ) (hj : j < maxLength / mgr.blockSize)
        (_ : (cachedRow pool blockHashes kvCacheGroupIds j).isSome) := not_isEdge_of_lt hpos hlt hj
    rw [slidingWindowLoop_no_edge hedge, slidingWindowLoop_no_edge hedge]
  · have hmask : mgr.reachableBlockMask 0 blockHashes.length none numPromptTokens = none := by
      simp only [SingleTypeManager.reachableBlockMask, hkind, contiguousBlocksForHit_of_lt hwindow, heagle, hone,
        Option.map_some, Option.any_some, Nat.div_self hpos, if_true, ge_iff_le, le_refl, decide_true]
    rw [hmask] at hsparse
    rw [contiguousBlocksForHit_of_lt hwindow, if_neg Bool.false_ne_true, slidingWindowLoop_zero,
      slidingWindowLoop_zero]
    exact length_finish_slidingWindowLoop (hall hsparse) (hall hfull) one_pos le_rfl rfl fun hne => absurd rfl hne

omit [DecidableEq H] in
include hkind hpos hdvd in
/-- Otherwise no selected block is at a position at which a run may start. -/
theorem not_isEdge_of_selected (halign : 0 < mgr.schedulerBlockSize)
    (hlost : ¬LosesNoHit mgr slidingWindow false maxLength) (hi : i < blockHashes.length)
    (hselected : ∀ selected ∈ mgr.reachableBlockMask 0 blockHashes.length none numPromptTokens,
      selected[i]? = some true) : ¬IsEdge mgr.blockSize mgr.schedulerBlockSize false i := by
  simp only [LosesNoHit, not_or, not_le, Bool.false_eq_true, not_false_eq_true, true_and] at hlost
  obtain ⟨hwindow, -, hsegment⟩ := hlost
  obtain ⟨per, hper⟩ := hdvd
  have hperPos : 0 < per := Nat.pos_of_mul_pos_left (hper ▸ halign)
  have hdiv : mgr.schedulerBlockSize / mgr.blockSize = per := by rw [hper, Nat.mul_div_cancel_left _ hpos]
  have hper1 : mgr.useEagle = true → per ≠ 1 := fun heagle hone =>
    hsegment ⟨heagle, by rw [hper, hone, Nat.mul_one]⟩
  have hneed : ¬per ≤ if mgr.useEagle = true then 1 else 0 := by
    split_ifs with heagle
    · have := hper1 heagle
      omega
    · omega
  simp only [SingleTypeManager.reachableBlockMask, hkind, contiguousBlocksForHit_of_lt hwindow, Option.map_some,
    Option.any_some, hdiv, ge_iff_le, hneed, decide_false, Bool.false_eq_true, if_false, Option.mem_some_iff,
    forall_eq'] at hselected
  rw [getElem?_map, getElem?_range' (show i < blockHashes.length - 0 by omega)] at hselected
  simp only [Option.map_some, Nat.zero_add, Nat.one_mul, Option.isSome_none, Bool.false_and, Bool.or_false,
    Option.some.injEq, Bool.and_eq_true, decide_eq_true_eq] at hselected
  obtain ⟨hshift, htail⟩ := hselected
  have hmod := Nat.mod_lt (i - if mgr.useEagle = true then 1 else 0) hperPos
  cases heagle : mgr.useEagle with
  | false =>
    simp only [heagle, Bool.false_eq_true, if_false] at htail hmod
    omega
  | true =>
    -- the selected blocks stand right after the boundaries
    simp only [heagle, if_true] at hshift htail hmod
    have hone := hper1 heagle
    have hdvd : per ∣ i := by
      refine Nat.dvd_of_mod_eq_zero ?_
      rw [show i = i - 1 + 1 by omega, Nat.add_mod, show (i - 1) % per = per - 1 by omega,
        Nat.mod_eq_of_lt (show 1 < per by omega), Nat.sub_add_cancel hperPos, Nat.mod_self]
    rintro (heq | hmod)
    · refine hone (Nat.eq_of_mul_eq_mul_left hpos ?_)
      rw [← hper, Nat.mul_one, heq]
    · simp only [Bool.false_eq_true, if_false] at hmod
      rw [hper, Nat.mul_comm, Nat.mul_mod_mul_left] at hmod
      have hnext := Nat.dvd_of_mod_eq_zero ((Nat.mul_eq_zero.mp hmod).resolve_left hpos.ne')
      exact hone (Nat.dvd_one.mp ((Nat.dvd_add_right hdvd).mp hnext))

end Search

/-- Sparse caching loses no hit under the condition: a pool with the blocks that `reachable_block_mask` selects gives
a hit of the same length as one with every full block; and if it holds no others, only then. -/
theorem length_findLongestCacheHit_of_mask (mgr : SingleTypeManager) {slidingWindow : ℕ}
    (hkind : mgr.spec.kind = .slidingWindow slidingWindow) (hpos : 0 < mgr.blockSize)
    (hdvd : mgr.blockSize ∣ mgr.schedulerBlockSize) (halign : 0 < mgr.schedulerBlockSize)
    {drop : Bool} (hdrop : drop = true → mgr.useEagle = true)
    (sparse full : BlockPool H) (blockHashes : List (List H)) (kvCacheGroupIds : List ℕ) (numPromptTokens : ℕ)
    (hfull : CachesSelected none full blockHashes kvCacheGroupIds)
    {maxLength : ℕ} (hmax : maxLength / mgr.blockSize ≤ blockHashes.length) :
    (LosesNoHit mgr slidingWindow drop maxLength →
      CachesSelected (mgr.reachableBlockMask 0 blockHashes.length none numPromptTokens) sparse blockHashes
        kvCacheGroupIds →
      (findLongestCacheHit sparse mgr.spec blockHashes maxLength kvCacheGroupIds drop mgr.schedulerBlockSize).length =
        (findLongestCacheHit full mgr.spec blockHashes maxLength kvCacheGroupIds drop mgr.schedulerBlockSize).length) ∧
    (CachesExactly (mgr.reachableBlockMask 0 blockHashes.length none numPromptTokens) sparse blockHashes
        kvCacheGroupIds →
      ((findLongestCacheHit sparse mgr.spec blockHashes maxLength kvCacheGroupIds drop mgr.schedulerBlockSize).length =
        (findLongestCacheHit full mgr.spec blockHashes maxLength kvCacheGroupIds drop mgr.schedulerBlockSize).length ↔
          LosesNoHit mgr slidingWindow drop maxLength)) := by
  refine ⟨length_hit_of_losesNoHit mgr hkind hpos hdvd hdrop hfull hmax, fun hexact => ⟨fun hequal => ?_, fun hsafe =>
    length_hit_of_losesNoHit mgr hkind hpos hdvd hdrop hfull hmax hsafe fun i hi => (hexact i hi).mpr⟩⟩
  by_contra hlost
  have hcases := hlost
  simp only [LosesNoHit, not_or] at hcases
  obtain ⟨hwindow, hfalse, hlength, -⟩ := hcases
  obtain rfl : drop = false := Bool.eq_false_iff.mpr hfalse
  have hsparse (j : ℕ) (hj : j < maxLength / mgr.blockSize) (hcached : (cachedRow sparse blockHashes kvCacheGroupIds
      j).isSome) : ¬IsEdge mgr.blockSize mgr.schedulerBlockSize false j :=
    not_isEdge_of_selected mgr hkind hpos hdvd halign hlost (hj.trans_le hmax)
      ((hexact j (hj.trans_le hmax)).mp hcached)
  rw [findLongestCacheHit_eq mgr hkind, findLongestCacheHit_eq mgr hkind,
    contiguousBlocksForHit_of_lt (Nat.lt_of_not_le hwindow), if_neg Bool.false_ne_true, slidingWindowLoop_zero,
    slidingWindowLoop_zero, slidingWindowLoop_no_edge hsparse] at hequal
  have hhit := @length_finish_pos (cachedRow full blockHashes kvCacheGroupIds) mgr.blockSize mgr.schedulerBlockSize
    (maxLength / mgr.blockSize) (List.replicate (maxLength / mgr.blockSize) (kvCacheGroupIds.map fun _ => nullBlock))
    (fun j hj => hfull j (hj.trans_le hmax) nofun) (by simp) (by
      refine ⟨mgr.schedulerBlockSize / mgr.blockSize - 1, ?_, .inr ?_⟩
      · have hle := Nat.div_le_div_right (c := mgr.blockSize) (Nat.le_of_not_lt hlength)
        have hper := Nat.div_pos (Nat.le_of_dvd halign hdvd) hpos
        exact lt_of_lt_of_le (by omega) hle
      · simp only [Bool.false_eq_true, if_false]
        rw [Nat.sub_add_cancel (Nat.div_pos (Nat.le_of_dvd halign hdvd) hpos), Nat.div_mul_cancel hdvd, Nat.mod_self])
  rw [← hequal] at hhit
  simp [finishSlidingWindow, trimAligned] at hhit

/-- A manager of blocks of two tokens whose hits are multiples of eight tokens. -/
def windowManager (slidingWindow : ℕ) : SingleTypeManager where
  spec := ⟨.slidingWindow slidingWindow, 2, 0⟩
  kvCacheGroupId := 0
  schedulerBlockSize := 8

/-- A pool with the blocks of eight positions that a mask selects. -/
def windowPool (mask : Option (List Bool)) : BlockPool ℕ :=
  ((BlockPool.new 9 true 2).cacheFullBlocks (List.range 8) (List.range' 1 8) 0 8 2 0 mask).toOption.getD
    (BlockPool.new 9 true 2)

/-- A window of four tokens loses no hit. -/
theorem length_findLongestCacheHit_window_four :
    (findLongestCacheHit (windowPool ((windowManager 4).reachableBlockMask 0 8 none 16)) (windowManager 4).spec
        ((List.range 8).map ([·])) 15 [0] false 8).length =
      (findLongestCacheHit (windowPool none) (windowManager 4).spec ((List.range 8).map ([·])) 15 [0] false 8).length :=
  (length_findLongestCacheHit_of_mask (windowManager 4) rfl (by decide) (by decide) (by decide) (by decide) _ _ _ _ 16
    (by unfold CachesSelected; decide +kernel) (by decide)).1 (.inl (by decide))
      (by unfold CachesSelected; decide +kernel)

/-- A window of one token: the mask selects none of the eight blocks, and the hit of four blocks that
the full cache gives is lost. -/
theorem window_one_loses_hit :
    (windowManager 1).reachableBlockMask 0 8 none 16 = some (List.replicate 8 false) ∧
      (findLongestCacheHit (windowPool ((windowManager 1).reachableBlockMask 0 8 none 16)) (windowManager 1).spec
        ((List.range 8).map ([·])) 15 [0] false 8).length = 0 ∧
      (findLongestCacheHit (windowPool none) (windowManager 1).spec ((List.range 8).map ([·])) 15 [0] false 8).length =
        4 := by
  decide +kernel

end VllmPs
