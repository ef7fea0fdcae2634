import VllmPs.KV.Config
import VllmPs.KV.Managers

/-!
# Reference counts along runs of the cache manager

In every state that a run of the cache manager's operations reaches, the reference count of
a block is the number of its occurrences in block tables, and the free queue holds exactly
the blocks without one. Snapshots of block tables are kept until the next allocation.
-/

namespace VllmPs

open Lib BlockPool SingleTypeManager List

variable {H F : Type} [DecidableEq H]

/-! ## The initial state -/

omit [DecidableEq H] in
theorem BlockPool.mem_range_iff_managed (pool : BlockPool H) (block : BlockId) :
    block ∈ List.range' 1 (pool.numGpuBlocks - 1) ↔ pool.managed block = true := by
  have hmanaged : pool.managed block = true ↔ block ≠ nullBlock ∧ block < pool.numGpuBlocks :=
    decide_eq_true_iff
  have hrange (i n : ℕ) : 1 ≤ i ∧ i < 1 + (n - 1) ↔ i ≠ 0 ∧ i < n := by omega
  rw [hmanaged, mem_range'_1]
  exact hrange block pool.numGpuBlocks

theorem BlockPool.new_poolInv {n : ℕ} (hn : 0 < n) (counted : Prop) (enableCaching : Bool) (hashBlockSize : ℕ) :
    PoolInv counted (BlockPool.new n enableCaching hashBlockSize : BlockPool H) 0 where
  balanced :=
    { count := fun block _ => rfl
      nodup := nodup_range' 1 Nat.one_pos
      mem_free := fun block => by
        rw [← mem_range_iff_managed]
        exact (and_iff_left rfl).symm
      numFree := fun _ => by
        change (n : ℤ) - 1 = ((List.range' 1 (n - 1)).length : ℤ)
        rw [length_range']
        omega }
  index := .of_empty (fun _ => rfl) rfl
  off := fun _ _ => rfl

omit [DecidableEq H] in
theorem ledgerOf_eq_zero {managers : List SingleTypeManager} (h : ∀ mgr ∈ managers, mgr.reqToBlocks = ∅) :
    ledgerOf managers = 0 := by
  induction managers with
  | nil => rfl
  | cons mgr rest ih =>
    have hmgr : mgr.ledger = 0 := by
      have hempty := h mgr mem_cons_self
      ext block
      · rw [ledger_occ, hempty, Table.total_empty, Ledger.zero_occ]
      · rw [ledger_pending, hempty, Table.total_empty, Ledger.zero_pending]
    rw [ledgerOf_cons, hmgr, zero_add, ih fun mgr hmem => h mgr (mem_cons_of_mem _ hmem)]

theorem KVCacheConfig.WellFormed.inv {config : KVCacheConfig} (h : config.WellFormed) (tracked : Tracked) :
    (config.newManager : KVCacheManager H).Inv tracked := by
  have hempty : ∀ mgr ∈ (config.newManager : KVCacheManager H).managers, mgr.reqToBlocks = ∅ := by
    intro mgr hmem
    obtain ⟨g, -, rfl⟩ := mem_map.mp hmem
    rfl
  have hledger : (0 : Ledger) + ledgerOf (config.newManager : KVCacheManager H).managers = 0 := by
    rw [ledgerOf_eq_zero hempty, zero_add]
  refine ⟨⟨?_, fun _ block _ => ?_, fun mgr hmem => ⟨h.numBlocks_pos, fun requestId block _ => ?_,
    fun requestId block hb => ?_⟩⟩, h.newManager⟩
  · rw [hledger]
    exact BlockPool.new_poolInv h.numBlocks_pos _ _ _
  · rw [hledger]
    exact ⟨Nat.zero_le 1, fun _ => rfl⟩
  · simp [SingleTypeManager.blocksOf, hempty mgr hmem]
  · simp [SingleTypeManager.blocksOf, hempty mgr hmem] at hb

/-! ## Runs -/

def Snapshot.Shows (snapshot : Snapshot) (srcBlocks : List (List BlockId)) : Prop :=
  ∀ (i j : ℕ) block, (srcBlocks.getD i [])[j]? = some block →
    block = nullBlock ∨ (snapshot.blocks.getD i [])[j]? = some block

structure KVState (H : Type) where
  manager : KVCacheManager H
  snapshots : List Snapshot := []

/-- The operations of a run. -/
inductive KVOp (H F : Type)
  /-- `allocate_slots`, with the hits of `get_computed_blocks` or without computed blocks. -/
  | allocateSlots (r : Request H F) (withHits : Bool) (args : KVCacheManager.AllocateArgs)
  | free (requestId : RequestId)
  | cacheBlocks (r : Request H F) (numComputedTokens : ℤ)
  | removeSkippedBlocks (requestId : RequestId) (totalComputedTokens : ℤ)
  | aliasRequestBlocks (dst src : RequestId) (numPrefixBlocks : ℤ)
  | takeSnapshot (requestId : RequestId)
  | aliasFromSnapshot (dst : RequestId) (srcBlocks : List (List BlockId))
      (srcNumCachedBlocks : List ℕ) (numPrefixBlocks : ℤ)
  | evictBlocks (blockIds : List BlockId)
  | resetPrefixCache

/-- The arguments of an allocation with its hits. -/
def KVCacheManager.withComputed (kv : KVCacheManager H) (r : Request H F) (withHits : Bool)
    (args : KVCacheManager.AllocateArgs) : KVCacheManager.AllocateArgs :=
  let hits := if withHits then kv.getComputedBlocks r else (kv.managers.map fun _ => [], 0)
  { args with newComputedBlocks := hits.1, numNewComputedTokens := hits.2 }

variable (s : KVState H)

/-- One operation. -/
def KVState.step : KVOp H F → Except PyError (KVState H)
  | .allocateSlots r withHits args => do
    let allocated ← s.manager.allocateSlots r (s.manager.withComputed r withHits args)
    return { manager := allocated.1, snapshots := [] }
  | .free requestId => .ok { s with manager := s.manager.free requestId }
  | .cacheBlocks r numComputedTokens => do
    let cached ← s.manager.cacheBlocks r numComputedTokens
    return { s with manager := cached }
  | .removeSkippedBlocks requestId totalComputedTokens =>
    .ok { s with manager := s.manager.removeSkippedBlocks requestId totalComputedTokens }
  | .aliasRequestBlocks dst src numPrefixBlocks => do
    let aliased ← s.manager.aliasRequestBlocks dst src numPrefixBlocks
    return { s with manager := aliased.1 }
  | .takeSnapshot requestId =>
    .ok { s with snapshots :=
      ⟨s.manager.getBlocks requestId, s.manager.getNumCachedBlocks requestId⟩ :: s.snapshots }
  | .aliasFromSnapshot dst srcBlocks srcNumCachedBlocks numPrefixBlocks => do
    let aliased ← s.manager.aliasRequestBlocksFromSnapshot dst srcBlocks srcNumCachedBlocks
      numPrefixBlocks
    return { s with manager := aliased.1 }
  | .evictBlocks blockIds => do
    let evicted ← s.manager.evictBlocks blockIds
    return { s with manager := evicted }
  | .resetPrefixCache => .ok { s with manager := s.manager.resetPrefixCache.1 }

/-- Aliasing from a snapshot uses one taken since the last allocation. -/
def KVOp.FromSnapshot : KVOp H F → Prop
  | .aliasFromSnapshot _ srcBlocks srcNumCachedBlocks _ =>
    ∃ snapshot ∈ s.snapshots, snapshot.Shows srcBlocks ∧ snapshot.numCached = srcNumCachedBlocks
  | _ => True

def KVOp.HashesDistinct : KVOp H F → Prop
  | .allocateSlots r _ _ => r.blockHashes.Nodup
  | _ => True

def KVOp.CountsBlocks : KVOp H F → Prop
  | .allocateSlots r _ args => 0 ≤ r.numComputedTokens ∧
    (args.numExternalComputedTokens ≤ 0 ∨ s.manager.OneFullAttention)
  | _ => True

def KVOp.AliasesCached : KVOp H F → Prop
  | .aliasRequestBlocks _ src numPrefixBlocks =>
    ∀ mgr ∈ s.manager.managers, numPrefixBlocks ≤ mgr.numCached src
  | .aliasFromSnapshot _ _ srcNumCachedBlocks numPrefixBlocks =>
    ∀ n ∈ srcNumCachedBlocks, numPrefixBlocks ≤ (n : ℕ)
  | _ => True

/-! ## The invariant -/

structure KVState.Inv (tracked : Tracked) (s : KVState H) : Prop where
  managerInv : s.manager.Inv tracked
  distinct : ∀ snapshot ∈ s.snapshots, ∀ i block, block ≠ nullBlock →
    (snapshot.blocks.getD i []).count block ≤ 1
  lt : ∀ snapshot ∈ s.snapshots, ∀ i, ∀ block ∈ snapshot.blocks.getD i [],
    block < s.manager.pool.numGpuBlocks

theorem KVCacheManager.Inv.fineArgs {tracked : Tracked} {kv : KVCacheManager H} (h : kv.Inv tracked)
    {r : Request H F} (args : KVCacheManager.AllocateArgs) (withHits : Bool)
    (hnodup : r.blockHashes.Nodup) (hcounts : tracked.counted → 0 ≤ r.numComputedTokens ∧
      (args.numExternalComputedTokens ≤ 0 ∨ kv.OneFullAttention)) :
    kv.FineArgs tracked.counted r (kv.withComputed r withHits args) := by
  have hok : kv.HitsOk (if withHits then kv.getComputedBlocks r else (kv.managers.map fun _ => [], 0)).1
      (if withHits then kv.getComputedBlocks r else (kv.managers.map fun _ => [], 0)).2 := by
    split_ifs
    · exact KVCacheManager.getComputedBlocks_ok h.configInv h.managersInv.poolInv.index r hnodup
    · rw [map_const']
      exact .empty kv _ 0
  refine ⟨hok.distinct, hok.lt, fun hcounted hpos => ?_⟩
  obtain ⟨hcomputed, hone⟩ := hcounts hcounted
  have hone : kv.OneFullAttention := hone.resolve_left (not_le.mpr hpos)
  simp only [KVCacheManager.withComputed]
  refine ⟨by omega, fun i mgr hmgr => ?_⟩
  have hlength := hok.length hone i mgr hmgr
  have : ((((if withHits then kv.getComputedBlocks r else (kv.managers.map fun _ => [], 0)).1.getD i
      []).length * mgr.blockSize : ℕ) : ℤ) ≤ _ := Int.ofNat_le.mpr hlength
  push_cast at this ⊢
  omega

namespace KVState

variable {tracked : Tracked} {s s' : KVState H}

section

variable (h : s.Inv tracked)
include h

theorem Inv.setManager {kv : KVCacheManager H}
    (hstep : KVCacheManager.Step tracked s.manager kv) : Inv tracked { s with manager := kv } :=
  ⟨hstep.inv, h.distinct, fun snapshot hmem i => by
    rw [hstep.config.numGpuBlocks]
    exact h.lt snapshot hmem i⟩

theorem Inv.shows {snapshot : Snapshot} (hmem : snapshot ∈ s.snapshots)
    {srcBlocks : List (List BlockId)} (hshows : snapshot.Shows srcBlocks) :
    (∀ i block, block ≠ nullBlock → (srcBlocks.getD i []).count block ≤ 1) ∧
      ∀ i, ∀ block ∈ srcBlocks.getD i [], block < s.manager.pool.numGpuBlocks := by
  refine ⟨fun i block hnull => ?_, fun i block hblock => ?_⟩
  · exact (GroupInv.count_le_of_entries (hshows i) hnull).trans (h.distinct snapshot hmem i block hnull)
  · obtain ⟨j, hj⟩ := mem_iff_getElem?.mp hblock
    rcases hshows i j block hj with rfl | hold
    · exact h.managerInv.configInv.numGpuBlocks_pos
    · exact h.lt snapshot hmem i block (mem_of_getElem? hold)

theorem Inv.takeSnapshot (requestId : RequestId) : Inv tracked { s with snapshots :=
      ⟨s.manager.getBlocks requestId, s.manager.getNumCachedBlocks requestId⟩ :: s.snapshots } := by
  have hentry (i : ℕ) : (s.manager.getBlocks requestId).getD i [] = [] ∨
      ∃ mgr ∈ s.manager.managers, (s.manager.getBlocks requestId).getD i [] = mgr.blocksOf requestId := by
    rw [KVCacheManager.getBlocks, getD_eq_getElem?_getD, List.getElem?_map]
    cases hmgr : s.manager.managers[i]? with
    | none => exact Or.inl rfl
    | some mgr => exact Or.inr ⟨mgr, mem_of_getElem? hmgr, rfl⟩
  refine ⟨h.managerInv, fun snapshot hmem i block hnull => ?_, fun snapshot hmem i block hb => ?_⟩
  · rcases mem_cons.mp hmem with rfl | hmem
    · rcases hentry i with hnil | ⟨mgr, hmgr, heq⟩
      · simp only [hnil, count_nil, Nat.zero_le]
      · simp only [heq]
        exact (h.managerInv.managersInv.tableInv mgr hmgr).distinct requestId block hnull
    · exact h.distinct snapshot hmem i block hnull
  rcases mem_cons.mp hmem with rfl | hmem
  · rcases hentry i with hnil | ⟨mgr, hmgr, heq⟩
    · simp only [hnil] at hb
      exact absurd hb not_mem_nil
    · simp only [heq] at hb
      exact (h.managerInv.managersInv.tableInv mgr hmgr).lt requestId block hb
  · exact h.lt snapshot hmem i block hb

/-- Every operation keeps the invariant; its optional parts have side conditions of their own. -/
theorem Inv.step {op : KVOp H F} (hsnapshot : op.FromSnapshot s)
    (hdistinct : op.HashesDistinct) (hcounts : tracked.counted → op.CountsBlocks s)
    (halias : tracked.unshared → op.AliasesCached s) (hstep : s.step op = .ok s') : s'.Inv tracked := by
  cases op with
  | allocateSlots r withHits args =>
    obtain ⟨⟨kv, flag⟩, hallocate, rfl⟩ := bind_pure_eq_ok.mp hstep
    have hargs := h.managerInv.fineArgs args withHits hdistinct hcounts
    exact ⟨(h.managerInv.allocateSlots hargs hallocate).inv, by simp, by simp⟩
  | free requestId =>
    cases hstep
    exact h.setManager (h.managerInv.free requestId)
  | cacheBlocks r numComputedTokens =>
    obtain ⟨kv, hcache, rfl⟩ := bind_pure_eq_ok.mp hstep
    exact h.setManager (h.managerInv.cacheBlocks hcache)
  | removeSkippedBlocks requestId totalComputedTokens =>
    cases hstep
    exact h.setManager (h.managerInv.removeSkippedBlocks requestId totalComputedTokens)
  | aliasRequestBlocks dst src numPrefixBlocks =>
    obtain ⟨⟨kv, flag⟩, haliased, rfl⟩ := bind_pure_eq_ok.mp hstep
    exact h.setManager (h.managerInv.aliasRequestBlocks halias haliased)
  | takeSnapshot requestId =>
    cases hstep
    exact h.takeSnapshot requestId
  | aliasFromSnapshot dst srcBlocks srcNumCachedBlocks numPrefixBlocks =>
    obtain ⟨⟨kv, flag⟩, haliased, rfl⟩ := bind_pure_eq_ok.mp hstep
    obtain ⟨snapshot, hmem, hshows, -⟩ := hsnapshot
    obtain ⟨hdistinct, hlt⟩ := h.shows hmem hshows
    exact h.setManager (h.managerInv.aliasRequestBlocksFromSnapshot hdistinct hlt halias haliased)
  | evictBlocks blockIds =>
    obtain ⟨kv, hevict, rfl⟩ := bind_pure_eq_ok.mp hstep
    exact h.setManager (h.managerInv.evictBlocks hevict)
  | resetPrefixCache =>
    cases hstep
    exact h.setManager h.managerInv.resetPrefixCache

end

def Initial (s : KVState H) : Prop :=
  ∃ config : KVCacheConfig, config.WellFormed ∧ s = { manager := config.newManager }

theorem Initial.inv (h : s.Initial) (tracked : Tracked) : s.Inv tracked := by
  obtain ⟨config, hconfig, rfl⟩ := h
  exact ⟨hconfig.inv tracked, by simp, by simp⟩

end KVState

/-! ## Reference counts and free blocks -/

namespace KVCacheManager

variable {mgr' : SingleTypeManager} {requestIds : List RequestId}

omit [DecidableEq H] in
/-- How often a block occurs in the block tables of all groups. -/
def occurrences (kv : KVCacheManager H) (block : BlockId) : ℕ :=
  (kv.managers.map fun mgr => (mgr.reqToBlocks.entries.map fun e => e.2.count block).sum).sum

structure RefCountsMatch (kv : KVCacheManager H) : Prop where
  refCnt : ∀ block, block < kv.pool.numGpuBlocks → block ≠ nullBlock →
    (kv.pool.blocks block).refCnt = kv.occurrences block
  mem_free : ∀ block, block ∈ kv.pool.freeBlockQueue ↔
    block < kv.pool.numGpuBlocks ∧ block ≠ nullBlock ∧ (kv.pool.blocks block).refCnt = 0
  nodup : kv.pool.freeBlockQueue.Nodup
  numFree : kv.pool.numFreeBlocks = kv.pool.freeBlockQueue.length

/-- Free several requests. -/
def freeRequests (kv : KVCacheManager H) (requestIds : List RequestId) : KVCacheManager H :=
  requestIds.foldl KVCacheManager.free kv

variable {tracked : Tracked} {kv : KVCacheManager H}

omit [DecidableEq H] in
theorem ledgerOf_occ (managers : List SingleTypeManager) (block : BlockId) : (ledgerOf managers).occ block =
      (managers.map fun mgr => (mgr.reqToBlocks.entries.map fun e => e.2.count block).sum).sum := by
  induction managers with
  | nil => rfl
  | cons mgr rest ih =>
    rw [ledgerOf_cons, Ledger.add_occ, ih, map_cons, sum_cons]
    rfl

theorem Inv.refCountsMatch (h : kv.Inv tracked) (hcounted : tracked.counted) : kv.RefCountsMatch := by
  have hbalanced := h.managersInv.poolInv.balanced
  rw [zero_add] at hbalanced
  have hmanaged (block : BlockId) : kv.pool.managed block = true ↔
      block ≠ nullBlock ∧ block < kv.pool.numGpuBlocks := decide_eq_true_iff
  have hcount (block : BlockId) (hlt : block < kv.pool.numGpuBlocks) (hnull : block ≠ nullBlock) :
      (kv.pool.blocks block).refCnt = (ledgerOf kv.managers).occ block :=
    hbalanced.count block ((hmanaged block).mpr ⟨hnull, hlt⟩)
  refine ⟨fun block hlt hnull => ?_, fun block => ?_, hbalanced.nodup, hbalanced.numFree hcounted⟩
  · rw [hcount block hlt hnull, ledgerOf_occ]
    rfl
  have hmem := hbalanced.mem_free block
  rw [hmanaged] at hmem
  change block ∈ kv.pool.freeBlockQueue ↔ _ at hmem
  rw [hmem]
  constructor
  · rintro ⟨⟨hnull, hlt⟩, hzero⟩
    exact ⟨hlt, hnull, by rw [hcount block hlt hnull, hzero]; rfl⟩
  · rintro ⟨hlt, hnull, hzero⟩
    rw [hcount block hlt hnull] at hzero
    exact ⟨⟨hnull, hlt⟩, by exact_mod_cast hzero⟩

omit [DecidableEq H] in
theorem mem_mapManagers {f : BlockPool H → SingleTypeManager → BlockPool H × SingleTypeManager}
    {pool : BlockPool H} {managers : List SingleTypeManager}
    (h : mgr' ∈ (mapManagers f pool managers).2) : ∃ mgr ∈ managers, ∃ p, mgr' = (f p mgr).2 := by
  induction managers generalizing pool with
  | nil => simp [mapManagers] at h
  | cons mgr rest ih =>
    rcases mem_cons.mp h with rfl | h
    · exact ⟨mgr, mem_cons_self, pool, rfl⟩
    · obtain ⟨mgr, hmem, hp⟩ := ih h
      exact ⟨mgr, mem_cons_of_mem _ hmem, hp⟩

omit [DecidableEq H] in
theorem mem_freeRequests (h : mgr' ∈ (kv.freeRequests requestIds).managers) :
    ∃ mgr ∈ kv.managers, ∀ k ∈ mgr'.reqToBlocks, k ∈ mgr.reqToBlocks ∧ k ∉ requestIds := by
  induction requestIds generalizing kv with
  | nil => exact ⟨mgr', h, fun k hk => ⟨hk, not_mem_nil⟩⟩
  | cons requestId rest ih =>
    obtain ⟨mgr₁, hmem₁, hkeys⟩ := ih h
    obtain ⟨mgr, hmem, p, rfl⟩ := mem_mapManagers hmem₁
    refine ⟨mgr, hmem, fun k hk => ?_⟩
    obtain ⟨hk₁, hrest⟩ := hkeys k hk
    obtain ⟨hne, hk₂⟩ := AList.mem_erase.mp (show k ∈ mgr.reqToBlocks.erase requestId from hk₁)
    exact ⟨hk₂, by simp [hne, hrest]⟩

theorem Inv.freeRequests (h : kv.Inv tracked) (requestIds : List RequestId) :
    Step tracked kv (kv.freeRequests requestIds) := by
  induction requestIds generalizing kv with
  | nil => exact h.step_refl
  | cons requestId rest ih => exact (h.free requestId).trans (ih (h.free requestId).inv)

theorem Inv.numFreeBlocks_freeRequests (h : kv.Inv tracked) (hcounted : tracked.counted)
    (hall : ∀ mgr ∈ kv.managers, ∀ k ∈ mgr.reqToBlocks, k ∈ requestIds) :
    (kv.freeRequests requestIds).pool.numFreeBlocks = kv.pool.numGpuBlocks - 1 := by
  have hfreed := h.freeRequests requestIds
  have hempty : ∀ mgr ∈ (kv.freeRequests requestIds).managers, mgr.reqToBlocks = ∅ := by
    intro mgr' hmem'
    obtain ⟨mgr, hmem, hkeys⟩ := mem_freeRequests hmem'
    have hnone (k : RequestId) : k ∉ mgr'.reqToBlocks := fun hk =>
      (hkeys k hk).2 (hall mgr hmem k (hkeys k hk).1)
    exact AList.ext (eq_nil_iff_forall_not_mem.mpr fun e he =>
      hnone e.1 (mem_keys_of_mem he))
  have hbalanced := hfreed.inv.managersInv.poolInv.balanced
  rw [ledgerOf_eq_zero hempty, zero_add] at hbalanced
  have hperm := hbalanced.free_perm _ (nodup_range' 1 Nat.one_pos)
    (mem_range_iff_managed _) (fun _ _ => rfl)
  have hnum : (kv.freeRequests requestIds).pool.numFreeBlocks =
      ((kv.freeRequests requestIds).pool.freeBlockQueue.length : ℤ) :=
    hbalanced.numFree hcounted
  have hlength : (kv.freeRequests requestIds).pool.freeBlockQueue.length =
      (kv.freeRequests requestIds).pool.numGpuBlocks - 1 :=
    hperm.length_eq.trans length_range'
  have hpos := h.configInv.numGpuBlocks_pos
  rw [hnum, hlength, hfreed.config.numGpuBlocks]
  omega

end KVCacheManager

/-- In every run over a well-formed configuration in which block hashes are distinct and no allocation counts a
negative number of new blocks, the reference counts are the occurrences in block tables, the free queue holds
exactly the blocks without one, and freeing every request frees every block but the null block. -/
theorem KVState.refCounts_match_tables {s : KVState H} (hs : Reachable KVState.Initial
      (fun s (op : KVOp H F) => op.FromSnapshot s ∧ op.HashesDistinct ∧ op.CountsBlocks s)
      KVState.step s) :
    s.manager.RefCountsMatch ∧
      ∀ requestIds, (∀ mgr ∈ s.manager.managers, ∀ k ∈ mgr.reqToBlocks, k ∈ requestIds) →
        (s.manager.freeRequests requestIds).pool.numFreeBlocks = s.manager.pool.numGpuBlocks - 1 := by
  have hinv : s.Inv ⟨True, False⟩ := hs.invariant (P := KVState.Inv ⟨True, False⟩) (fun s h => h.inv _)
    fun s op s' h hok hstep => h.step hok.1 hok.2.1 (fun _ => hok.2.2) False.elim hstep
  exact ⟨hinv.managerInv.refCountsMatch trivial, fun _ =>
    hinv.managerInv.numFreeBlocks_freeRequests trivial⟩

/-! ## Concrete runs -/

def twoFullAttentionTypes : KVCacheConfig where
  numBlocks := 20
  kvCacheGroups := [(⟨.full, 2, 0⟩, false), (⟨.full, 4, 0⟩, false), (⟨.slidingWindow 2, 2, 0⟩, false)]
  maxModelLen := 100
  maxNumBatchedTokens := 100
  enableCaching := true
  schedulerBlockSize := 4
  hashBlockSize := 2

/-- One full-attention group. -/
def oneFullAttentionGroup : KVCacheConfig where
  numBlocks := 10
  kvCacheGroups := [(⟨.full, 2, 0⟩, false)]
  maxModelLen := 100
  maxNumBatchedTokens := 100
  enableCaching := true
  schedulerBlockSize := 2
  hashBlockSize := 2

/-- A request with the tokens `0, …, n - 1` and distinct hashes of its blocks of two tokens. -/
def countingRequest (requestId : RequestId) (n : ℕ) : Request ℕ ℚ where
  requestId := requestId
  promptTokenIds := some (List.range n)
  numPromptTokens := n
  allTokenIds := List.range n
  blockHashes := List.range (n / 2)

theorem twoFullAttentionTypes_wellFormed : twoFullAttentionTypes.WellFormed where
  numBlocks_pos := by decide
  hashBlockSize_pos := by decide
  blockSize_pos := by decide
  window_pos := by simp [twoFullAttentionTypes]
  divides := by decide

theorem oneFullAttentionGroup_wellFormed : oneFullAttentionGroup.WellFormed where
  numBlocks_pos := by decide
  hashBlockSize_pos := by decide
  blockSize_pos := by decide
  window_pos := by simp [oneFullAttentionGroup]
  divides := by decide

/-- Allocate, share the first block, and free the first request. -/
theorem KVState.refCounts_match_tables_shared_block : ∃ s : KVState ℕ,
    s.manager.getBlocks "b" = [[1]] ∧ s.manager.RefCountsMatch ∧
      (s.manager.freeRequests ["b"]).pool.numFreeBlocks = 9 := by
  let ops : List (KVOp ℕ ℚ) := [.allocateSlots (countingRequest "a" 5) true { numNewTokens := 5 },
    .aliasRequestBlocks "b" "a" 1, .free "a"]
  let start : KVState ℕ := { manager := oneFullAttentionGroup.newManager }
  obtain ⟨s, hrun, hblocks, hkeys, hnum⟩ : ∃ s, run KVState.step start ops = .ok s ∧
      s.manager.getBlocks "b" = [[1]] ∧ (∀ mgr ∈ s.manager.managers, mgr.reqToBlocks.keys = ["b"]) ∧
      s.manager.pool.numGpuBlocks = 10 := exists_ok_of_decide (by decide +kernel)
  have hreach : Reachable KVState.Initial
      (fun s (op : KVOp ℕ ℚ) => op.FromSnapshot s ∧ op.HashesDistinct ∧ op.CountsBlocks s)
      KVState.step s := by
    refine Reachable.run (.start ⟨_, oneFullAttentionGroup_wellFormed, rfl⟩) (fun op hop s => ?_) hrun
    simp only [ops, mem_cons, not_mem_nil, or_false] at hop
    rcases hop with rfl | rfl | rfl
    · exact ⟨trivial, nodup_range, by decide, Or.inl (by decide)⟩
    · exact ⟨trivial, trivial, trivial⟩
    · exact ⟨trivial, trivial, trivial⟩
  obtain ⟨hmatch, hfree⟩ := KVState.refCounts_match_tables hreach
  refine ⟨s, hblocks, hmatch, ?_⟩
  rw [hfree ["b"] fun mgr hmem k hk => hkeys mgr hmem ▸ hk, hnum]
  rfl

/-- The hits of the second full-attention type stay longer than the common hit. With one external
token, a request then allocates minus one block for it, which leaves twelve blocks in the free queue
and thirteen in its counter. -/
theorem KVState.free_count_exceeds_queue : ∃ s : KVState ℕ,
    Reachable KVState.Initial (fun s (op : KVOp ℕ ℚ) => op.FromSnapshot s) KVState.step s ∧
      s.manager.pool.freeBlockQueue.length = 12 ∧ s.manager.pool.numFreeBlocks = 13 := by
  let ops : List (KVOp ℕ ℚ) := [.allocateSlots (countingRequest "a" 13) true { numNewTokens := 13 },
    .free "a", .evictBlocks [15, 17], .allocateSlots (countingRequest "b" 13) true
      { numNewTokens := 1, numExternalComputedTokens := 1 }]
  let start : KVState ℕ := { manager := twoFullAttentionTypes.newManager }
  obtain ⟨s, hrun, hs⟩ : ∃ s, run KVState.step start ops = .ok s ∧
      s.manager.pool.freeBlockQueue.length = 12 ∧ s.manager.pool.numFreeBlocks = 13 :=
    exists_ok_of_decide (by decide +kernel)
  refine ⟨s, Reachable.run (.start ⟨_, twoFullAttentionTypes_wellFormed, rfl⟩) (fun op hop s => ?_) hrun, hs⟩
  simp only [ops, mem_cons, not_mem_nil, or_false] at hop
  rcases hop with rfl | rfl | rfl | rfl <;> exact trivial

end VllmPs
