import VllmPs.KV.RefCounts

/-!
# The prefix-cache index along runs of the cache manager

A block has a hash exactly when the index maps that hash to it. That a block to be cached
has no hash yet is asserted on pending blocks only, and holds as long as aliasing gives
away cached blocks only.
-/

namespace VllmPs

open Lib BlockPool SingleTypeManager List

variable {H F : Type}

/-! ## Operations that make no such assertion -/

section NoAssertion

namespace BlockPool

variable {pool : BlockPool H}

theorem touch_raises {blocks : List BlockId} : NeverRaises .blockAlreadyHashed (pool.touch blocks) := by
  refine .foldlM fun pool block _ => ?_
  unfold touchBlock
  split_ifs <;> nofun

variable [DecidableEq H]

theorem getNewBlocks_raises {n : ℤ} : NeverRaises .blockAlreadyHashed (pool.getNewBlocks n) := by
  refine .ite (fun _ => .error nofun) fun _ => .ite (fun _ => .error nofun) fun _ =>
    .bind (.foldlM fun pool block _ => ?_) fun _ _ => .ok _
  unfold takeBlock
  dsimp only
  generalize (if pool.enableCaching then pool.maybeEvictCachedBlock block else pool) = pool'
  split_ifs <;> nofun

theorem evictBlocks_raises {blockIds : List BlockId} :
    NeverRaises .blockAlreadyHashed (pool.evictBlocks blockIds) :=
  .foldlM fun _ _ _ => .ite (fun _ => .ok _) fun _ => .error nofun

end BlockPool

namespace SingleTypeManager

variable {mgr : SingleTypeManager} {requestId : RequestId} {pool : BlockPool H} {hits : List BlockId}
  {numTokens : ℤ}

theorem aliasFromSnapshot_raises {srcBlocks : List BlockId} {numCached : ℕ} {numPrefixBlocks : ℤ} :
    NeverRaises .blockAlreadyHashed
      (mgr.aliasRequestBlocksFromSnapshot requestId pool srcBlocks numCached numPrefixBlocks) :=
  .ite (fun _ => .error nofun) fun _ => .ite (fun _ => .error nofun) fun _ => .bind touch_raises fun _ _ => .ok _

theorem getNumBlocksToAllocate_raises {totalComputedTokens : ℤ}
    {applyAdmissionCap : Bool} : NeverRaises .blockAlreadyHashed
      (mgr.getNumBlocksToAllocate requestId pool numTokens hits totalComputedTokens applyAdmissionCap) := by
  unfold getNumBlocksToAllocate
  split_ifs <;> nofun

variable [DecidableEq H]

theorem allocateNewBlocks_raises :
    NeverRaises .blockAlreadyHashed (mgr.allocateNewBlocks requestId pool numTokens) :=
  .ite (fun _ => .ok _) fun _ => .bind getNewBlocks_raises fun _ _ => .ok _

theorem allocateNewComputedBlocks_raises
    {numLocalComputedTokens numExternalComputedTokens : ℤ} : NeverRaises .blockAlreadyHashed
      (mgr.allocateNewComputedBlocks requestId pool hits numLocalComputedTokens numExternalComputedTokens) := by
  refine .ite (fun _ => .ite (fun _ => .error nofun) fun _ => .ok _) fun _ => .ite (fun _ => .error nofun) fun _ =>
    .bind (.ite (fun _ => touch_raises) fun _ => .ite (fun _ => .error nofun) fun _ => .ok _) fun pool' _ =>
      .ite (fun _ => .bind getNewBlocks_raises fun _ _ => .ok _) fun _ => .ok _

end SingleTypeManager

theorem forManagers_raises
    {f : ℕ → BlockPool H → SingleTypeManager → Except PyError (BlockPool H × SingleTypeManager)}
    {P : PyError → Prop} (hf : ∀ i pool mgr, OnlyRaises P (f i pool mgr)) {i : ℕ} {pool : BlockPool H}
    {managers : List SingleTypeManager} : OnlyRaises P (forManagers f i pool managers) := by
  induction managers generalizing i pool with
  | nil => exact .ok _
  | cons mgr rest ih => exact .bind (hf i pool mgr) fun step _ => .bind ih fun _ _ => .ok _

namespace KVCacheManager

variable {kv : KVCacheManager H} {requestId : RequestId}

theorem getNumBlocksToAllocate_raises {numTokens : ℤ} {hits : List (List BlockId)}
    {totalComputedTokens : ℤ} {applyAdmissionCap : Bool} : NeverRaises .blockAlreadyHashed
      (kv.getNumBlocksToAllocate requestId numTokens hits totalComputedTokens applyAdmissionCap) :=
  .foldlM fun _ _ _ => .bind SingleTypeManager.getNumBlocksToAllocate_raises fun _ _ => .ok _

theorem aliasManagers_raises {dst : RequestId} {source : ℕ → SingleTypeManager → Option (List BlockId × ℕ)}
    {numPrefixBlocks : ℤ} {i : ℕ} {pool : BlockPool H} {managers : List SingleTypeManager} :
    NeverRaises .blockAlreadyHashed (aliasManagers dst source numPrefixBlocks i pool managers) := by
  induction managers generalizing i pool with
  | nil => exact .ok _
  | cons mgr rest ih =>
    unfold aliasManagers
    cases source i mgr with
    | none => exact .ok _
    | some src =>
      dsimp only
      cases hstep : mgr.aliasRequestBlocksFromSnapshot dst pool src.1 src.2 numPrefixBlocks with
      | error e =>
        have halias := aliasFromSnapshot_raises e hstep
        cases e with
        | blockAlreadyHashed => exact absurd rfl halias
        | _ => simp [OnlyRaises]
      | ok step => exact .bind ih fun _ _ => .ok _

variable [DecidableEq H] {args : AllocateArgs}

theorem allocateBlocks_raises {numLocalComputedTokens numTokensNeedSlot : ℤ} : NeverRaises .blockAlreadyHashed
      (kv.allocateBlocks requestId args numLocalComputedTokens numTokensNeedSlot) :=
  .bind (.ite (fun _ => forManagers_raises fun _ _ _ => allocateNewComputedBlocks_raises) fun _ => .ok _)
    fun _ _ => .bind (forManagers_raises fun _ _ _ => allocateNewBlocks_raises) fun _ _ => .ok _

theorem Inv.allocateSlots_raises {tracked : Tracked} (h : kv.Inv tracked) (hun : tracked.unshared)
    {r : Request H F} (hargs : kv.FineArgs tracked.counted r args) :
    NeverRaises .blockAlreadyHashed (kv.allocateSlots r args) := by
  refine .ite (fun _ => .error nofun) fun _ =>
    .bind (.ite (fun _ => .bind getNumBlocksToAllocate_raises fun _ _ => .ok _) fun _ => .ok _) fun fits _ =>
    .ite (fun _ => .ok _) fun _ => .bind getNumBlocksToAllocate_raises fun numBlocks _ =>
    .ite (fun _ => .ok _) fun _ => .bind allocateBlocks_raises fun kv'' halloc =>
    .ite (fun _ => .ok _) fun hdelay => .bind ?_ fun _ _ => .ok _
  exact ((h.allocateAfterRemoval hargs halloc).inv.cacheBlocksCoordinator
    (enableCaching_of_not_delayed hdelay)).raises.mono fun _ he => he hun

end KVCacheManager

end NoAssertion

/-! ## The index along runs -/

variable [DecidableEq H]

structure BlockPool.IndexConsistent (pool : BlockPool H) : Prop where
  mem_iff : ∀ key block,
    (pool.blocks block).blockHash = some key ↔ block ∈ pool.cachedBlockHashToBlock.blocksOf key
  null : ∀ key, nullBlock ∉ pool.cachedBlockHashToBlock.blocksOf key
  nonempty : ∀ key, pool.cachedBlockHashToBlock.lookup key ≠ some (.many [])

theorem BlockPool.IndexInv.consistent {pool : BlockPool H} (h : pool.IndexInv) : pool.IndexConsistent where
  mem_iff := h.mem_iff
  null key hmem := by
    simp [← h.mem_iff, h.null] at hmem
  nonempty := h.nonempty

/-- Side conditions under which no pending block is shared. -/
def KVOp.KeepsPrivate (s : KVState H) (op : KVOp H F) : Prop :=
  op.FromSnapshot s ∧ op.HashesDistinct ∧ op.AliasesCached s

theorem KVState.Inv.step_raises {s : KVState H} {tracked : Tracked} (h : s.Inv tracked)
    (hun : tracked.unshared) (hcounted : ¬tracked.counted) {op : KVOp H F} (hdistinct : op.HashesDistinct) :
    NeverRaises .blockAlreadyHashed (s.step op) := by
  cases op with
  | allocateSlots r withHits args =>
    have hargs := h.managerInv.fineArgs args withHits hdistinct fun hc => absurd hc hcounted
    exact .bind (h.managerInv.allocateSlots_raises hun hargs) fun _ _ => .ok _
  | cacheBlocks r numComputedTokens =>
    exact .bind (.ite (fun hon => (h.managerInv.cacheBlocksCoordinator hon).raises.mono fun _ he => he hun)
      fun _ => .ok _) fun _ _ => .ok _
  | aliasRequestBlocks dst src numPrefixBlocks =>
    exact .bind (.bind KVCacheManager.aliasManagers_raises fun _ _ => .ok _) fun _ _ => .ok _
  | aliasFromSnapshot dst srcBlocks srcNumCachedBlocks numPrefixBlocks =>
    exact .bind (.ite (fun _ => .ok _) fun _ =>
      .bind KVCacheManager.aliasManagers_raises fun _ _ => .ok _) fun _ _ => .ok _
  | evictBlocks blockIds => exact .bind (.bind evictBlocks_raises fun _ _ => .ok _) fun _ _ => .ok _
  | free requestId => exact .ok _
  | removeSkippedBlocks requestId totalComputedTokens => exact .ok _
  | takeSnapshot requestId => exact .ok _
  | resetPrefixCache => exact .ok _

/-- In every run over a well-formed configuration in which block hashes are distinct and aliasing gives
away cached blocks only, the index is consistent, no further operation meets a hashed block where it
asserts that there is none, and new blocks have no hash. -/
theorem KVState.index_consistent {s : KVState H}
    (hs : Reachable KVState.Initial (fun s (op : KVOp H F) => op.KeepsPrivate s) KVState.step s) :
    s.manager.pool.IndexConsistent ∧
      (∀ op : KVOp H F, op.HashesDistinct → s.step op ≠ .error .blockAlreadyHashed) ∧
      ∀ n pool' blocks, s.manager.pool.getNewBlocks n = .ok (pool', blocks) →
        ∀ block ∈ blocks, (pool'.blocks block).blockHash = none := by
  have hinv : s.Inv ⟨False, True⟩ := hs.invariant (P := KVState.Inv ⟨False, True⟩) (fun s h => h.inv _)
    fun s op s' h hok hstep => h.step hok.1 hok.2.1 False.elim (fun _ => hok.2.2) hstep
  have hpool := hinv.managerInv.managersInv.poolInv
  refine ⟨hpool.index.consistent, fun op hdistinct hstep =>
    hinv.step_raises trivial not_false hdistinct _ hstep rfl, fun n pool' blocks hnew block hmem => ?_⟩
  obtain ⟨-, -, -, -, hhash⟩ := hpool.getNewBlocks False.elim hnew fun _ _ => rfl
  rw [hhash, if_pos hmem]

/-- A request that has cached two blocks shares both. -/
theorem KVState.index_consistent_two_aliased : ∃ s : KVState ℕ,
    s.manager.getBlocks "b" = [[1, 2]] ∧ s.manager.pool.IndexConsistent ∧
      s.step (.cacheBlocks (countingRequest "b" 5) 5) ≠ .error .blockAlreadyHashed := by
  let allocate : KVOp ℕ ℚ := .allocateSlots (countingRequest "a" 5) true { numNewTokens := 5 }
  let share : KVOp ℕ ℚ := .aliasRequestBlocks "b" "a" 2
  let start : KVState ℕ := { manager := oneFullAttentionGroup.newManager }
  have hresult : (start.step allocate).toOption.map (fun s =>
      (s.manager.managers.map fun mgr => mgr.numCached "a",
        (s.step share).toOption.map fun s' => s'.manager.getBlocks "b")) =
      some ([2], some [[1, 2]]) := by decide +kernel
  obtain ⟨s, hallocate, hs⟩ := exists_ok_of_observed hresult
  obtain ⟨hcached, hs'⟩ := Prod.mk.inj hs
  obtain ⟨s', hshare, hblocks⟩ := exists_ok_of_observed hs'
  have hfresh : allocate.KeepsPrivate start := ⟨trivial, nodup_range, trivial⟩
  have hprivate : share.KeepsPrivate s := by
    refine ⟨trivial, trivial, fun mgr hmem => ?_⟩
    have : mgr.numCached "a" ∈ s.manager.managers.map fun mgr => mgr.numCached "a" :=
      mem_map_of_mem hmem
    rw [hcached, mem_singleton] at this
    rw [this]
    rfl
  have hreach : Reachable KVState.Initial (fun s (op : KVOp ℕ ℚ) => op.KeepsPrivate s)
      KVState.step s' :=
    .next (.next (.start ⟨_, oneFullAttentionGroup_wellFormed, rfl⟩) hfresh hallocate) hprivate hshare
  obtain ⟨hindex, hassert, -⟩ := KVState.index_consistent hreach
  exact ⟨s', hblocks, hindex, hassert _ trivial⟩

/-- A request of five tokens has computed three of them when its first two blocks are shared. It then
fills and caches the second block, which the other request still takes for one without a hash. -/
theorem KVState.shared_pending_block_already_hashed : ∃ s : KVState ℕ,
    Reachable KVState.Initial (fun s (op : KVOp ℕ ℚ) => op.FromSnapshot s ∧ op.HashesDistinct) KVState.step s ∧
    s.step (.allocateSlots (F := ℚ) { countingRequest "b" 5 with numComputedTokens := 4 } false
      { numNewTokens := 1 }) = .error .blockAlreadyHashed := by
  let ops : List (KVOp ℕ ℚ) := [.allocateSlots (countingRequest "a" 5) true { numNewTokens := 3 },
    .aliasRequestBlocks "b" "a" 2,
    .allocateSlots { countingRequest "a" 5 with numComputedTokens := 3 } false { numNewTokens := 2 }]
  let start : KVState ℕ := { manager := oneFullAttentionGroup.newManager }
  let failing : KVOp ℕ ℚ := .allocateSlots { countingRequest "b" 5 with numComputedTokens := 4 } false
    { numNewTokens := 1 }
  obtain ⟨s, hrun, hs⟩ : ∃ s, run KVState.step start ops = .ok s ∧ s.step failing = .error .blockAlreadyHashed :=
    exists_ok_of_decide (by decide +kernel)
  refine ⟨s, Reachable.run (.start ⟨_, oneFullAttentionGroup_wellFormed, rfl⟩) (fun op hop s => ?_) hrun, hs⟩
  simp only [ops, mem_cons, not_mem_nil, or_false] at hop
  rcases hop with rfl | rfl | rfl
  · exact ⟨trivial, nodup_range⟩
  · exact ⟨trivial, trivial⟩
  · exact ⟨trivial, nodup_range⟩

end VllmPs
