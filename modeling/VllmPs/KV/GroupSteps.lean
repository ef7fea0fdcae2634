import VllmPs.KV.Ledger

/-!
# The operations of one manager keep the ledger

Freeing, aliasing, window eviction, allocation and caching of one manager against the
ledger of the others. The pool's assertion that a block to be cached has no hash holds as
long as no pending block is shared.
-/

namespace VllmPs

open Lib BlockPool SingleTypeManager Ledger List

variable {H F : Type} [DecidableEq H]

theorem BlockPool.PoolInv.freeTwo {counted : Prop} {pool : BlockPool H}
    {occ occ' : BlockId → ℕ} (h : PoolInv counted pool occ)
    {first second : List BlockId} (hlt : ∀ block ∈ first ++ second, block < pool.numGpuBlocks)
    (hdistinct : ∀ block, block ≠ nullBlock → first.count block + second.count block ≤ 1)
    (hocc : ∀ block, block ≠ nullBlock → occ block = occ' block + (first.count block + second.count block)) :
    PoolInv counted ((pool.freeBlocks first false).freeBlocks second true) occ' ∧
      SameConfig pool ((pool.freeBlocks first false).freeBlocks second true) ∧
      ∀ block, (((pool.freeBlocks first false).freeBlocks second true).blocks block).blockHash =
        (pool.blocks block).blockHash := by
  have hfirstOcc : ∀ block, pool.managed block = true →
      occ block = occ' block + second.count block + first.count block := fun block hmanaged => by
    rw [hocc block (of_decide_eq_true hmanaged).1]
    omega
  obtain ⟨hfirst, hconfig, hhash⟩ := h.freeBlocks false
    (fun block hb => hlt block (mem_append_left _ hb))
    (fun block hb => (Nat.le_add_right _ _).trans (hdistinct block hb)) hfirstOcc
  obtain ⟨hsecond, hconfig', hhash'⟩ := hfirst.freeBlocks true
    (fun block hb => hconfig.numGpuBlocks ▸ hlt block (mem_append_right _ hb))
    (fun block hb => (Nat.le_add_left _ _).trans (hdistinct block hb)) (fun _ _ => rfl)
  exact ⟨hsecond, hconfig.trans hconfig', fun block => (hhash' block).trans (hhash block)⟩

namespace GroupInv

variable {tracked : Tracked} {other : Ledger} {pool pool' : BlockPool H} {mgr mgr' : SingleTypeManager}
  {requestId : RequestId}
variable {numTokens : ℤ}
variable {blocks hits : List BlockId} {blockHashes : List H} {numPromptTokens : ℕ}
  {retentionInterval : Option ℕ}

/-- `free` drops the table of a request. -/
theorem free (h : GroupInv tracked other pool mgr) (requestId : RequestId) :
    GroupStep tracked other pool mgr (mgr.free requestId pool).1 (mgr.free requestId pool).2 := by
  have hupdates : mgr.Updates requestId (mgr.free requestId pool).2 [] 0 := updates_free pool
  have hocc (block : BlockId) : (other + mgr.ledger).occ block =
      (other + (mgr.free requestId pool).2.ledger).occ block +
        (mgr.blocksOf requestId).reverse.count block := by
    rw [count_reverse]
    exact (occ_of_updates _ hupdates block).symm
  have hlt : ∀ block ∈ (mgr.blocksOf requestId).reverse, block < pool.numGpuBlocks :=
    fun block hmem => h.tableInv.lt requestId block (mem_reverse.mp hmem)
  have hdistinct (block : BlockId) (hnull : block ≠ nullBlock) :
      (mgr.blocksOf requestId).reverse.count block ≤ 1 := by
    rw [count_reverse]
    exact h.tableInv.distinct requestId block hnull
  have hpool : PoolInv tracked.counted (mgr.free requestId pool).1 (other + (mgr.free requestId pool).2.ledger).occ ∧
      SameConfig pool (mgr.free requestId pool).1 ∧
      ∀ block, ((mgr.free requestId pool).1.blocks block).blockHash = (pool.blocks block).blockHash := by
    cases hkind : mgr.spec.kind with
    | full =>
      have hfreed := h.poolInv.freeBlocks false hlt hdistinct fun block _ => hocc block
      simpa only [SingleTypeManager.free, hkind] using hfreed
    | slidingWindow window =>
      set reqBlocks := (mgr.blocksOf requestId).reverse with hreq
      have hsplit (block : BlockId) : (reqBlocks.filter fun b => (pool.blocks b).blockHash.isSome).count block +
            (reqBlocks.filter fun b => (pool.blocks b).blockHash.isNone).count block =
          reqBlocks.count block := by
        rw [← count_append]
        refine List.Perm.count_eq ?_ block
        simpa using filter_append_perm (fun b => (pool.blocks b).blockHash.isSome) reqBlocks
      have hfreed := h.poolInv.freeTwo (fun block hmem => hlt block
          ((mem_append.mp hmem).elim mem_of_mem_filter mem_of_mem_filter))
        (fun block hnull => (hsplit block).symm ▸ hdistinct block hnull)
        (fun block _ => (hsplit block).symm ▸ hocc block)
      simpa only [SingleTypeManager.free, hkind, ← hreq] using hfreed
  exact h.step_kept hupdates hpool (by simp) (by simp) (by simp)

/-- Aliasing gives a request the front of a fine table. If sharing is tracked, only blocks that
the source has cached may be aliased. -/
theorem aliasFromSnapshot (h : GroupInv tracked other pool mgr) {srcBlocks : List BlockId}
    {srcNumCachedBlocks : ℕ} {numPrefixBlocks : ℤ}
    (hdistinct : ∀ block, block ≠ nullBlock → srcBlocks.count block ≤ 1)
    (hlt : ∀ block ∈ srcBlocks, block < pool.numGpuBlocks)
    (hcached : tracked.unshared → numPrefixBlocks ≤ srcNumCachedBlocks) :
    Ensures (fun r => GroupStep tracked other pool mgr r.1 r.2)
      (mgr.aliasRequestBlocksFromSnapshot requestId pool srcBlocks srcNumCachedBlocks numPrefixBlocks) := by
  refine .ite (fun _ => .error) fun _ => .ite (fun _ => .error) fun _ => .bind fun touched htouch => .ok ?_
  set aliased := srcBlocks.take numPrefixBlocks.toNat with haliased
  have hsub : aliased.Sublist srcBlocks := take_sublist _ _
  have hupdates : mgr.Updates requestId _ aliased (min srcNumCachedBlocks numPrefixBlocks.toNat) :=
    updates_setBoth _ _
  -- the table of the request is freed before the aliased blocks are touched
  have hfreedOcc : ∀ block, pool.managed block = true → (other + mgr.ledger).occ block =
      ((other + mgr.ledger).occ block - (mgr.blocksOf requestId).count block) +
        (mgr.blocksOf requestId).reverse.count block := fun block _ => by
    have := mgr.count_blocksOf_le requestId block
    rw [count_reverse, add_occ]
    omega
  obtain ⟨hfreed, hconfig, hhash⟩ := h.poolInv.freeBlocks false
    (fun block hmem => h.tableInv.lt requestId block (mem_reverse.mp hmem))
    (fun block hnull => by
      rw [count_reverse]
      exact h.tableInv.distinct requestId block hnull) hfreedOcc
  have hocc : ∀ block, (pool.freeBlocks (mgr.blocksOf requestId).reverse false).managed block = true →
      (other + ((mgr.setBlocks requestId aliased).setNumCached requestId
        (min srcNumCachedBlocks numPrefixBlocks.toNat)).ledger).occ block =
      ((other + mgr.ledger).occ block - (mgr.blocksOf requestId).count block) +
        (aliased.filter (· ≠ nullBlock)).count block := fun block hmanaged => by
    have hnull : block ≠ nullBlock := (of_decide_eq_true hmanaged).1
    have := mgr.count_blocksOf_le requestId block
    have := occ_of_updates other hupdates block
    rw [count_filter (by simpa using hnull)]
    simp only [add_occ] at this ⊢
    omega
  obtain ⟨htouched, hconfig', hhash'⟩ := hfreed.touch
    (fun block hmem => hconfig.numGpuBlocks ▸ hlt block (hsub.subset (mem_of_mem_filter hmem)))
    hocc htouch
  refine h.step_kept hupdates ⟨htouched, hconfig.trans hconfig', fun block => (hhash' block).trans (hhash block)⟩
    (fun block hnull => (hsub.count_le block).trans (hdistinct block hnull))
    (fun block hmem => hlt block (hsub.subset hmem)) fun hun block _ => ?_
  -- everything aliased counts as cached
  have hmin : min srcNumCachedBlocks numPrefixBlocks.toNat = numPrefixBlocks.toNat := by
    have := hcached hun
    omega
  rw [hmin, haliased, drop_take_self, count_nil]
  exact Nat.zero_le _

omit [DecidableEq H] in
/-- Window eviction splits a table into hashed and unhashed blocks to free and a table with null
blocks in their places. -/
theorem removeLoop_spec (pool : BlockPool H) (n : ℕ) (blocks : List BlockId) :
    (∀ block, block ≠ nullBlock → blocks.count block = (removeLoop pool n blocks).2.2.count block +
        ((removeLoop pool n blocks).1.count block + (removeLoop pool n blocks).2.1.count block)) ∧
      (∀ block ∈ (removeLoop pool n blocks).1 ++ (removeLoop pool n blocks).2.1, block ≠ nullBlock) ∧
      ∀ (i : ℕ) block, (removeLoop pool n blocks).2.2[i]? = some block →
        block = nullBlock ∨ blocks[i]? = some block := by
  induction n generalizing blocks with
  | zero => exact ⟨by simp [removeLoop], by simp [removeLoop], fun i block h => Or.inr h⟩
  | succ n ih =>
    by_cases hnull : blocks.getD n nullBlock = nullBlock
    · rw [removeLoop, if_pos hnull]
      exact ⟨by simp, by simp, fun i block h => Or.inr h⟩
    obtain ⟨hcount, hmem, hentry⟩ := ih (blocks.set n nullBlock)
    have hn : n < blocks.length := by
      by_contra hge
      exact hnull (by simp [getD_eq_getElem?_getD, getElem?_eq_none (not_lt.mp hge)])
    set block := blocks.getD n nullBlock with hblock
    have hget : blocks[n] = block := by simp [hblock, hn]
    have hset (b : BlockId) (hb : b ≠ nullBlock) :
        blocks.count b = (blocks.set n nullBlock).count b + if block == b then 1 else 0 := by
      have hpos : (if block == b then 1 else 0) ≤ blocks.count b := by
        split_ifs with heq
        · rw [one_le_count_iff, ← beq_iff_eq.mp heq, ← hget]
          exact getElem_mem hn
        · exact Nat.zero_le _
      rw [count_set hn, hget]
      have hne : (nullBlock == b) = false := by simpa using Ne.symm hb
      rw [hne]
      simp only [Bool.false_eq_true, if_false]
      omega
    have hentry' (i : ℕ) (b : BlockId) (h : (removeLoop pool n (blocks.set n nullBlock)).2.2[i]? = some b) :
        b = nullBlock ∨ blocks[i]? = some b := by
      rcases hentry i b h with hb | hb
      · exact Or.inl hb
      · rw [getElem?_set] at hb
        split_ifs at hb
        · exact Or.inl (Option.some.inj hb).symm
        · exact Or.inr hb
    rw [removeLoop, if_neg hnull]
    cases hhash : (pool.blocks block).blockHash.isNone with
    | true =>
      simp only [if_true]
      refine ⟨fun b hb => ?_, fun b hb => ?_, hentry'⟩
      · rw [hset b hb, hcount b hb, ← hblock, count_cons]
        omega
      simp only [mem_append, mem_cons] at hb
      rcases hb with hb | rfl | hb
      · exact hmem b (mem_append_left _ hb)
      · exact hnull
      · exact hmem b (mem_append_right _ hb)
    | false =>
      simp only [Bool.false_eq_true, if_false]
      refine ⟨fun b hb => ?_, fun b hb => ?_, hentry'⟩
      · rw [hset b hb, hcount b hb, ← hblock, count_cons]
        omega
      · rcases mem_cons.mp hb with rfl | hb
        · exact hnull
        · exact hmem b hb

omit [DecidableEq H] in
theorem count_le_of_entries {blocks' : List BlockId}
    (h : ∀ (i : ℕ) block, blocks'[i]? = some block → block = nullBlock ∨ blocks[i]? = some block)
    {block : BlockId} (hnull : block ≠ nullBlock) : blocks'.count block ≤ blocks.count block := by
  induction blocks' generalizing blocks with
  | nil => simp
  | cons a rest ih =>
    have htail : rest.count block ≤ blocks.tail.count block := ih fun i b hb => by
      rw [getElem?_tail]
      exact h (i + 1) b hb
    rw [count_cons]
    rcases h 0 a rfl with rfl | hhead
    · have hne : (nullBlock == block) = false := by simpa using Ne.symm hnull
      rw [hne]
      exact htail.trans ((tail_sublist blocks).count_le block)
    obtain ⟨_, rfl⟩ : ∃ tail, blocks = a :: tail := by
      cases blocks with
      | nil => simp at hhead
      | cons b tail =>
        rw [getElem?_cons_zero, Option.some_inj] at hhead
        exact ⟨tail, by rw [hhead]⟩
    rw [count_cons]
    exact Nat.add_le_add_right htail _

section

variable (h : GroupInv tracked other pool mgr) {new : List BlockId}
include h

/-- `remove_skipped_blocks` frees the blocks of a request that left its window. -/
theorem removeSkippedBlocks (requestId : RequestId) (totalComputedTokens : ℤ) :
    GroupStep tracked other pool mgr (mgr.removeSkippedBlocks requestId pool totalComputedTokens).1
      (mgr.removeSkippedBlocks requestId pool totalComputedTokens).2 := by
  unfold SingleTypeManager.removeSkippedBlocks
  by_cases hnone : mgr.getNumSkippedTokens totalComputedTokens ≤ 0
  · rw [if_pos hnone]
    exact ⟨h, .refl _, rfl⟩
  rw [if_neg hnone]
  set n := min (mgr.getNumSkippedTokens totalComputedTokens / mgr.blockSize).toNat
    (mgr.blocksOf requestId).length
  obtain ⟨hcount, hfreed, hentry⟩ := removeLoop_spec pool n (mgr.blocksOf requestId)
  set removed := removeLoop pool n (mgr.blocksOf requestId)
  have hupdates : mgr.Updates requestId (mgr.setBlocks requestId removed.2.2) removed.2.2 _ :=
    updates_setBlocks _
  have hcountFreed (block : BlockId) (hnull : block ≠ nullBlock) :
      removed.1.count block + removed.2.1.count block ≤ (mgr.blocksOf requestId).count block := by
    rw [hcount block hnull]
    exact Nat.le_add_left _ _
  have hdistinct := h.tableInv.distinct requestId
  have hlt := h.tableInv.lt requestId
  have hocc (block : BlockId) (hnull : block ≠ nullBlock) : (other + mgr.ledger).occ block =
      (other + (mgr.setBlocks requestId removed.2.2).ledger).occ block +
        (removed.1.count block + removed.2.1.count block) := by
    have := occ_of_updates other hupdates block
    have := hcount block hnull
    omega
  have hpool := h.poolInv.freeTwo
    (fun block hmem => hlt block <| count_pos_iff.mp <| by
      have hpos := count_pos_iff.mpr hmem
      rw [count_append] at hpos
      exact hpos.trans_le (hcountFreed block (hfreed block hmem)))
    (fun block hnull => (hcountFreed block hnull).trans (hdistinct block hnull)) hocc
  refine h.step_kept hupdates hpool (fun block hnull => ?_) (fun block hmem => ?_) fun _ block hnull => ?_
  · exact (count_le_of_entries hentry hnull).trans (hdistinct block hnull)
  · obtain ⟨i, hi⟩ := mem_iff_getElem?.mp hmem
    rcases hentry i block hi with rfl | hb
    · exact h.tableInv.pos
    · exact hlt block (mem_of_getElem? hb)
  · refine count_le_of_entries (fun i b hb => ?_) hnull
    rw [getElem?_drop] at hb
    rw [pendingOf, getElem?_drop]
    exact hentry _ b hb

theorem appendNew (hconfig : SameConfig pool pool')
    (hpool : PoolInv tracked.counted pool' (other + (mgr.setBlocks requestId
      (mgr.blocksOf requestId ++ new)).ledger).occ)
    (hnodup : new.Nodup)
    (hnew : ∀ block ∈ new, pool.managed block = true ∧ (other + mgr.ledger).occ block = 0)
    (hhash : ∀ block, (pool'.blocks block).blockHash =
      if block ∈ new then none else (pool.blocks block).blockHash) :
    GroupStep tracked other pool mgr pool' (mgr.setBlocks requestId (mgr.blocksOf requestId ++ new)) := by
  have hupdates : mgr.Updates requestId (mgr.setBlocks requestId (mgr.blocksOf requestId ++ new))
    (mgr.blocksOf requestId ++ new) (mgr.numCached requestId) := updates_setBlocks _
  have hdrop (block : BlockId) : ((mgr.blocksOf requestId ++ new).drop (mgr.numCached requestId)).count block ≤
        (mgr.pendingOf requestId).count block + new.count block := by
    rw [drop_append, count_append, pendingOf]
    exact Nat.add_le_add_left ((drop_sublist _ new).count_le block) _
  refine h.step_of_updates hupdates hconfig hpool (fun block hnull => ?_) (fun block hmem => ?_)
    fun _ block _ _ => ?_
  · rw [count_append]
    by_cases hmem : block ∈ new
    · have hzero := (hnew block hmem).2
      have hle := mgr.count_blocksOf_le requestId block
      rw [add_occ] at hzero
      have := nodup_iff_count_le_one.mp hnodup block
      omega
    · rw [count_eq_zero_of_not_mem hmem]
      exact h.tableInv.distinct requestId block hnull
  · rcases mem_append.mp hmem with hold | hmem
    · exact h.tableInv.lt requestId block hold
    · exact (of_decide_eq_true (hnew block hmem).1).2
  have hpending := hupdates.pending block
  have hdrop := hdrop block
  simp only [add_pending]
  by_cases hmem : block ∈ new
  · have hzero := (hnew block hmem).2
    have hle := (other + mgr.ledger).pending_le block
    rw [add_pending] at hle
    have := nodup_iff_count_le_one.mp hnodup block
    exact Or.inl ⟨by omega, by rw [hhash, if_pos hmem]⟩
  · rw [count_eq_zero_of_not_mem hmem] at hdrop
    exact Or.inr ⟨by omega, fun hnone => by rw [hhash, if_neg hmem, hnone]⟩

theorem appendFromPool {numBlocks : ℤ}
    (hnonneg : tracked.counted → 0 ≤ numBlocks) (hstep : pool.getNewBlocks numBlocks = .ok (pool', new)) :
    GroupStep tracked other pool mgr pool' (mgr.setBlocks requestId (mgr.blocksOf requestId ++ new)) := by
  have hupdates : mgr.Updates requestId (mgr.setBlocks requestId (mgr.blocksOf requestId ++ new))
    (mgr.blocksOf requestId ++ new) (mgr.numCached requestId) := updates_setBlocks _
  have hocc : ∀ block, pool.managed block = true →
      (other + (mgr.setBlocks requestId (mgr.blocksOf requestId ++ new)).ledger).occ block =
        (other + mgr.ledger).occ block + new.count block := fun block _ => by
    have := occ_of_updates other hupdates block
    rw [count_append] at this
    omega
  obtain ⟨hpool, hconfig, hnodup, hnew, hhash⟩ := h.poolInv.getNewBlocks hnonneg hstep hocc
  exact h.appendNew hconfig hpool hnodup hnew hhash

theorem allocateNewBlocks : Ensures (fun r => GroupStep tracked other pool mgr r.1 r.2)
    (mgr.allocateNewBlocks requestId pool numTokens) := by
  refine .ite (fun _ => .ok ?_) fun hmore => .bind fun _ hnew =>
    .ok (h.appendFromPool (fun _ => (not_le.mp hmore).le) hnew)
  have hupdates : mgr.Updates requestId (mgr.setBlocks requestId (mgr.blocksOf requestId))
    (mgr.blocksOf requestId) (mgr.numCached requestId) := updates_setBlocks _
  exact h.step_kept hupdates ⟨h.poolInv.congr fun block _ => Nat.add_right_cancel (occ_of_updates _ hupdates block),
    .refl _, fun _ => rfl⟩ (h.tableInv.distinct requestId) (h.tableInv.lt requestId) fun _ _ _ => le_rfl

end

theorem le_cdiv {numBlocks : ℤ} {blockSize : ℕ} (hpos : 0 < blockSize)
    (h : numBlocks * blockSize ≤ numTokens) : numBlocks ≤ cdiv numTokens blockSize := by
  have hdiv : -numTokens / (blockSize : ℤ) ≤ -numBlocks :=
    Int.ediv_le_of_le_mul (by exact_mod_cast hpos) (by linarith)
  unfold cdiv
  omega

theorem skipped_mul_le (mgr : SingleTypeManager) (hsize : 0 < mgr.blockSize)
    (hwindow : ∀ w, mgr.spec.kind = .slidingWindow w → 0 < w) {total : ℤ} (htotal : 0 ≤ total) :
    ((mgr.getNumSkippedTokens total / mgr.blockSize).toNat : ℤ) * mgr.blockSize ≤ total := by
  have hle : mgr.getNumSkippedTokens total ≤ total := by
    unfold getNumSkippedTokens
    cases hkind : mgr.spec.kind with
    | full => exact htotal
    | slidingWindow w =>
      have := hwindow w hkind
      simp only [sup_le_iff]
      omega
  have hnonneg : 0 ≤ mgr.getNumSkippedTokens total := by
    unfold getNumSkippedTokens
    split
    · exact le_rfl
    · exact le_max_left _ _
  rw [Int.toNat_of_nonneg (Int.ediv_nonneg hnonneg (Int.natCast_nonneg _))]
  exact (Int.ediv_mul_le _ (by exact_mod_cast hsize.ne')).trans hle

theorem storeHits (h : GroupInv tracked other pool mgr) (hempty : mgr.blocksOf requestId = [])
    (numSkippedBlocks : ℕ) (hdistinct : ∀ block, block ≠ nullBlock → hits.count block ≤ 1)
    (hlt : ∀ block ∈ hits, block < pool.numGpuBlocks) (htouch : touchComputedBlocks pool hits = .ok pool') :
    GroupStep tracked other pool mgr pool'
      ((mgr.setNumCached requestId (List.replicate numSkippedBlocks nullBlock ++ hits).length).setBlocks
        requestId (List.replicate numSkippedBlocks nullBlock ++ hits)) := by
  set table := List.replicate numSkippedBlocks nullBlock ++ hits with htable
  have hupdates : mgr.Updates requestId
      ((mgr.setNumCached requestId table.length).setBlocks requestId table) table table.length :=
    updates_setBoth table table.length
  have hcount (block : BlockId) (hnull : block ≠ nullBlock) : table.count block = hits.count block := by
    rw [htable, count_append, count_replicate]
    simp [Ne.symm hnull]
  have hocc (block : BlockId) (hmanaged : pool.managed block = true) :
      (other + ((mgr.setNumCached requestId table.length).setBlocks requestId table).ledger).occ block =
        (other + mgr.ledger).occ block + hits.count block := by
    have := occ_of_updates other hupdates block
    rw [hempty, count_nil, hcount block (of_decide_eq_true hmanaged).1] at this
    omega
  have hpool : PoolInv tracked.counted pool'
      (other + ((mgr.setNumCached requestId table.length).setBlocks requestId table).ledger).occ ∧
      SameConfig pool pool' ∧
      ∀ block, (pool'.blocks block).blockHash = (pool.blocks block).blockHash := by
    unfold touchComputedBlocks at htouch
    split_ifs at htouch with hon hnil
    · exact h.poolInv.touch hlt hocc htouch
    · cases htouch
      obtain rfl : hits = [] := not_not.mp hnil
      exact ⟨h.poolInv.congr fun block hb => by simpa using hocc block hb, .refl _, fun _ => rfl⟩
  refine h.step_kept hupdates hpool (fun block hnull => ?_) (fun block hmem => ?_) (by simp)
  · rw [hcount block hnull]
    exact hdistinct block hnull
  · rcases mem_append.mp hmem with hnull | hmem
    · rw [eq_of_mem_replicate hnull]
      exact h.tableInv.pos
    · exact hlt block hmem

/-- `allocate_new_computed_blocks` stores the hits of a new request and allocates the blocks of
external tokens. Their number is not negative if the hits cover no more than the computed tokens. -/
theorem allocateNewComputedBlocks (h : GroupInv tracked other pool mgr) (hsize : 0 < mgr.blockSize)
    (hwindow : ∀ w, mgr.spec.kind = .slidingWindow w → 0 < w)
    {numLocalComputedTokens numExternalComputedTokens : ℤ}
    (hdistinct : ∀ block, block ≠ nullBlock → hits.count block ≤ 1)
    (hlt : ∀ block ∈ hits, block < pool.numGpuBlocks)
    (hlength : tracked.counted → 0 < numExternalComputedTokens →
      0 ≤ numLocalComputedTokens + numExternalComputedTokens ∧
        (hits.length : ℤ) * mgr.blockSize ≤ numLocalComputedTokens + numExternalComputedTokens) :
    Ensures (fun r => GroupStep tracked other pool mgr r.1 r.2) (mgr.allocateNewComputedBlocks requestId pool hits
      numLocalComputedTokens numExternalComputedTokens) := by
  refine .ite (fun _ => .ite (fun _ => .error) fun _ => .ok ⟨h, .refl _, rfl⟩) fun _ =>
    .ite (fun _ => .error) fun hempty => ?_
  rw [not_not] at hempty
  generalize htotal : numLocalComputedTokens + numExternalComputedTokens = total at hlength
  set numSkippedBlocks := (mgr.getNumSkippedTokens total / mgr.blockSize).toNat with hskipped
  have hsub : (hits.drop numSkippedBlocks).Sublist hits := drop_sublist _ _
  refine .bind fun touched htouch => ?_
  have hstored := h.storeHits hempty numSkippedBlocks
    (fun block hnull => (hsub.count_le block).trans (hdistinct block hnull))
    (fun block hmem => hlt block (hsub.subset hmem)) htouch
  set table := List.replicate numSkippedBlocks nullBlock ++ hits.drop numSkippedBlocks with htable
  set stored := (mgr.setNumCached requestId table.length).setBlocks requestId table with hstoredDef
  refine .ite (fun hmore => .bind fun (allocated, new) hnew => .ok ?_) fun _ => .ok hstored
  have hpositive : 0 < numExternalComputedTokens := by
    split_ifs at hmore
    · exact (lt_min_iff.mp hmore).2
    · exact hmore
  have htableLength : table.length = max numSkippedBlocks hits.length := by
    rw [htable, length_append, length_replicate, length_drop]
    omega
  have hnonneg (hcounted : tracked.counted) : 0 ≤ cdiv total mgr.blockSize - table.length := by
    obtain ⟨htotal, hcover⟩ := hlength hcounted hpositive
    have hskip := skipped_mul_le mgr hsize hwindow htotal
    rw [sub_nonneg, htableLength]
    refine le_cdiv hsize ?_
    rcases max_choice numSkippedBlocks hits.length with hmax | hmax
    · rwa [hmax]
    · rwa [hmax]
  have hblocks : stored.blocksOf requestId = table := by
    rw [hstoredDef, blocksOf_setBlocks, if_pos rfl]
  have happended : (mgr.setNumCached requestId table.length).setBlocks requestId (table ++ new) =
      stored.setBlocks requestId (stored.blocksOf requestId ++ new) := by
    rw [hblocks]
    simp [hstoredDef, setBlocks, AList.insert_insert]
  rw [happended]
  exact hstored.trans (hstored.inv.appendFromPool hnonneg hnew)

omit [DecidableEq H] in
theorem drop_eq_append {m n : ℕ} (h : m ≤ n) : blocks.drop m = (blocks.take n).drop m ++ blocks.drop n := by
  conv_lhs => rw [← take_append_drop n blocks, drop_append]
  rcases le_total n blocks.length with hle | hle
  · rw [length_take, min_eq_left hle, Nat.sub_eq_zero_of_le h, drop_zero]
  · rw [drop_eq_nil_of_le hle, drop_nil]

/-- `cache_blocks` registers full blocks of a request, which are no longer pending. -/
theorem cacheBlocks (h : GroupInv tracked other pool mgr) (hon : pool.enableCaching = true) :
    Ensures (fun r => GroupStep tracked other pool mgr r.1 r.2)
      (mgr.cacheBlocks requestId pool blockHashes numPromptTokens numTokens retentionInterval) := by
  refine .ite (fun _ => .ok ⟨h, .refl _, rfl⟩) fun hdone => .bind fun cached hcache => .ok ?_
  rw [ge_iff_le, not_le] at hdone
  set numFull := (numTokens / mgr.blockSize).toNat
  obtain ⟨hinv, hconfig, hhash⟩ :=
    h.poolInv.cacheFullBlocks hon (h.tableInv.lt requestId) hcache
  have hupdates : mgr.Updates requestId _ (mgr.blocksOf requestId) numFull := updates_setBoth _ _
  -- what is registered leaves the pending part, which holds the rest of the table
  have hpending (block : BlockId) :
      mgr.ledger.pending block = (((mgr.setBlocks requestId (mgr.blocksOf requestId)).setNumCached
        requestId numFull).ledger.pending block +
          (((mgr.blocksOf requestId).take numFull).drop (mgr.numCached requestId)).count block) := by
    have hpending := hupdates.pending block
    rw [pendingOf, drop_eq_append hdone.le, count_append] at hpending
    omega
  refine h.step_of_updates hupdates hconfig
    (hinv.congr fun block _ => Nat.add_right_cancel (occ_of_updates _ hupdates block))
    (h.tableInv.distinct requestId) (h.tableInv.lt requestId) fun hun block hnull hpos =>
      Or.inr ⟨?_, fun hnone => ?_⟩
  · simp only [add_pending, hpending block]
    omega
  rw [hhash block, hnone]
  intro hmem
  have hone := (h.unhashed hun block hnull).1
  have := count_pos_iff.mpr hmem
  dsimp only [add_pending] at hpos
  rw [add_pending, hpending block] at hone
  omega

theorem cacheBlocks_raises (h : GroupInv tracked other pool mgr) (hun : tracked.unshared) :
    NeverRaises .blockAlreadyHashed
      (mgr.cacheBlocks requestId pool blockHashes numPromptTokens numTokens retentionInterval) := by
  have hpending (block : BlockId) (hnull : block ≠ nullBlock) : (mgr.pendingOf requestId).count block ≤ 1 ∧
        (block ∈ mgr.pendingOf requestId → (pool.blocks block).blockHash = none) := by
    obtain ⟨hone, hnone⟩ := h.unhashed hun block hnull
    have hle : (mgr.pendingOf requestId).count block ≤ (other + mgr.ledger).pending block :=
      (mgr.count_pendingOf_le requestId block).trans (Nat.le_add_left _ _)
    exact ⟨hle.trans hone, fun hmem => hnone ((count_pos_iff.mpr hmem).trans_le hle)⟩
  exact .ite (fun _ => .ok _) fun _ => .bind (cacheFullBlocks_raises hpending) fun _ _ => .ok _

end GroupInv

end VllmPs
