import VllmPs.KV.GroupSteps
import VllmPs.KV.CacheHits

/-!
# The operations of the cache manager keep the ledger

An operation that every manager keeps against the ledger of the others is kept when it runs
on all managers in turn. Each operation of the cache manager is such a run.
-/

namespace VllmPs

open Lib BlockPool SingleTypeManager List

variable {H F : Type}

/-- The ledger of all managers. -/
def ledgerOf (managers : List SingleTypeManager) : Ledger := (managers.map ledger).sum

@[simp] theorem ledgerOf_cons (mgr : SingleTypeManager) (rest : List SingleTypeManager) :
    ledgerOf (mgr :: rest) = mgr.ledger + ledgerOf rest := sum_cons

variable [DecidableEq H]

/-- The pool and all managers, with `outer` a ledger of occurrences elsewhere. -/
structure ManagersInv (tracked : Tracked) (outer : Ledger) (pool : BlockPool H)
    (managers : List SingleTypeManager) : Prop where
  poolInv : PoolInv tracked.counted pool (outer + ledgerOf managers).occ
  unhashed : tracked.unshared → PendingUnhashed pool (outer + ledgerOf managers).pending
  tableInv : ∀ mgr ∈ managers, TableInv pool.numGpuBlocks mgr

/-- The outcome of an operation on all managers. -/
structure ManagersStep (tracked : Tracked) (outer : Ledger) (pool : BlockPool H)
    (managers : List SingleTypeManager) (pool' : BlockPool H) (managers' : List SingleTypeManager) :
    Prop where
  inv : ManagersInv tracked outer pool' managers'
  config : SameConfig pool pool'
  specs : managers'.map spec = managers.map spec

namespace ManagersInv

variable {tracked : Tracked} {outer : Ledger} {pool pool' : BlockPool H} {mgr : SingleTypeManager}
  {rest managers managers' : List SingleTypeManager}
variable {i : ℕ}
variable
  {f : ℕ → BlockPool H → SingleTypeManager → Except PyError (BlockPool H × SingleTypeManager)}
variable {mgr' : SingleTypeManager} {pool'' : BlockPool H}

theorem head (h : ManagersInv tracked outer pool (mgr :: rest)) :
    GroupInv tracked (outer + ledgerOf rest) pool mgr := by
  have hledger : outer + ledgerOf (mgr :: rest) = outer + ledgerOf rest + mgr.ledger := by
    rw [ledgerOf_cons, add_comm mgr.ledger, add_assoc]
  exact ⟨hledger ▸ h.poolInv, hledger ▸ h.unhashed, h.tableInv mgr mem_cons_self⟩

theorem tail (h : ManagersInv tracked outer pool (mgr :: rest))
    (hstep : GroupStep tracked (outer + ledgerOf rest) pool mgr pool' mgr') :
    ManagersInv tracked (outer + mgr'.ledger) pool' rest := by
  have hledger : outer + ledgerOf rest + mgr'.ledger = outer + mgr'.ledger + ledgerOf rest :=
    add_right_comm _ _ _
  refine ⟨hledger ▸ hstep.inv.poolInv, hledger ▸ hstep.inv.unhashed, fun mgr₂ hmem => ?_⟩
  rw [hstep.config.numGpuBlocks]
  exact h.tableInv mgr₂ (mem_cons_of_mem _ hmem)

theorem step_cons {rest' : List SingleTypeManager}
    (hstep : GroupStep tracked (outer + ledgerOf rest) pool mgr pool' mgr')
    (hrest : ManagersStep tracked (outer + mgr'.ledger) pool' rest pool'' rest') :
    ManagersStep tracked outer pool (mgr :: rest) pool'' (mgr' :: rest') := by
  have hledger : outer + mgr'.ledger + ledgerOf rest' = outer + ledgerOf (mgr' :: rest') := by
    rw [ledgerOf_cons, add_assoc]
  refine ⟨⟨hledger ▸ hrest.inv.poolInv, hledger ▸ hrest.inv.unhashed, fun mgr₂ hmem => ?_⟩,
    hstep.config.trans hrest.config, ?_⟩
  · rcases mem_cons.mp hmem with rfl | hmem
    · rw [hrest.config.numGpuBlocks]
      exact hstep.inv.tableInv
    · exact hrest.inv.tableInv mgr₂ hmem
  · rw [map_cons, map_cons, hstep.spec, hrest.specs]

theorem step_refl (h : ManagersInv tracked outer pool managers) :
    ManagersStep tracked outer pool managers pool managers :=
  ⟨h, .refl _, rfl⟩

theorem step_trans {managers'' : List SingleTypeManager}
    (h : ManagersStep tracked outer pool managers pool' managers')
    (h' : ManagersStep tracked outer pool' managers' pool'' managers'') :
    ManagersStep tracked outer pool managers pool'' managers'' :=
  ⟨h'.inv, h.config.trans h'.config, h'.specs.trans h.specs⟩

section

variable (h : ManagersInv tracked outer pool managers)
include h

theorem forManagers {P : PyError → Prop}
    (hf : ∀ (j : ℕ) mgr other pool₁, managers[j]? = some mgr → SameConfig pool pool₁ →
      GroupInv tracked other pool₁ mgr →
      Meets P (fun r => GroupStep tracked other pool₁ mgr r.1 r.2) (f (i + j) pool₁ mgr)) :
    Meets P (fun r => ManagersStep tracked outer pool managers r.1 r.2) (VllmPs.forManagers f i pool managers) := by
  induction managers generalizing outer pool i with
  | nil => exact .ok h.step_refl
  | cons mgr rest ih =>
    refine .bind (hf 0 mgr _ pool rfl (.refl _) h.head) fun (pool₁, mgr₁) hhead =>
      .bind (ih (h.tail hhead) fun j mgr₂ other p hj hconfig hinv => ?_) fun _ hrest => .ok (step_cons hhead hrest)
    have hindex : i + (j + 1) = i + 1 + j := by omega
    exact hindex ▸ hf (j + 1) mgr₂ other p hj (hhead.config.trans hconfig) hinv

theorem mapManagers {f : BlockPool H → SingleTypeManager → BlockPool H × SingleTypeManager}
    (hf : ∀ mgr other pool, GroupInv tracked other pool mgr →
      GroupStep tracked other pool mgr (f pool mgr).1 (f pool mgr).2) :
    ManagersStep tracked outer pool managers (VllmPs.mapManagers f pool managers).1
      (VllmPs.mapManagers f pool managers).2 := by
  induction managers generalizing outer pool with
  | nil => exact h.step_refl
  | cons mgr rest ih =>
    have hhead := hf mgr _ pool h.head
    exact step_cons hhead (ih (h.tail hhead))

/-- Aliasing from fine source tables, also when it stops at a manager that refuses. -/
theorem aliasManagers {dst : RequestId}
    {source : ℕ → SingleTypeManager → Option (List BlockId × ℕ)} {numPrefixBlocks : ℤ}
    (hsource : ∀ (j : ℕ) mgr src, managers[j]? = some mgr → source (i + j) mgr = some src →
      (∀ block, block ≠ nullBlock → src.1.count block ≤ 1) ∧
        (∀ block ∈ src.1, block < pool.numGpuBlocks) ∧ (tracked.unshared → numPrefixBlocks ≤ src.2)) :
    Ensures (fun r => ManagersStep tracked outer pool managers r.1 r.2.1)
      (VllmPs.aliasManagers dst source numPrefixBlocks i pool managers) := by
  induction managers generalizing outer pool i with
  | nil => exact .ok h.step_refl
  | cons mgr rest ih =>
    have hsource₀ := hsource 0 mgr
    unfold VllmPs.aliasManagers
    cases hsrc : source i mgr with
    | none => exact .ok h.step_refl
    | some src =>
      obtain ⟨hdistinct, hlt, hcached⟩ := hsource₀ src rfl hsrc
      dsimp only
      cases halias : mgr.aliasRequestBlocksFromSnapshot dst pool src.1 src.2 numPrefixBlocks with
      | error e =>
        cases e with
        | valueError => exact .ok h.step_refl
        | _ => exact .error
      | ok step =>
        have hhead := h.head.aliasFromSnapshot hdistinct hlt hcached halias
        refine .bind fun others hothers => .ok (step_cons hhead ?_)
        refine ih (h.tail hhead) (fun j mgr₂ src₂ hj hsrc₂ => ?_) hothers
        rw [hhead.config.numGpuBlocks]
        have hindex : i + (j + 1) = i + 1 + j := by omega
        exact hsource (j + 1) mgr₂ src₂ hj (hindex ▸ hsrc₂)

end

end ManagersInv

namespace KVCacheManager

variable {tracked : Tracked} {kv kv' : KVCacheManager H}
variable {r : Request H F} {numComputedTokens : ℤ} {flag : Bool} {args : AllocateArgs}
variable {numPrefixBlocks numTokensNeedSlot : ℤ}

/-- The invariant of the cache manager. -/
structure Inv (tracked : Tracked) (kv : KVCacheManager H) : Prop where
  managersInv : ManagersInv tracked 0 kv.pool kv.managers
  configInv : kv.ConfigInv

structure Step (tracked : Tracked) (kv kv' : KVCacheManager H) : Prop where
  inv : kv'.Inv tracked
  config : SameConfig kv.pool kv'.pool
  specs : kv'.managers.map spec = kv.managers.map spec
  coordinator : kv'.coordinator = kv.coordinator

omit [DecidableEq H] in
/-- The configuration facts only depend on what no operation changes. -/
theorem ConfigInv.congr (h : kv.ConfigInv) (hconfig : SameConfig kv.pool kv'.pool)
    (hspecs : kv'.managers.map spec = kv.managers.map spec)
    (hcoordinator : kv'.coordinator = kv.coordinator) : kv'.ConfigInv := by
  have hspec (mgr : SingleTypeManager) (hmem : mgr ∈ kv'.managers) :
      ∃ mgr₀ ∈ kv.managers, mgr₀.spec = mgr.spec := by
    have hmap := mem_map_of_mem (f := spec) hmem
    rw [hspecs] at hmap
    exact mem_map.mp hmap
  have hlength : kv'.managers.length = kv.managers.length := by
    simpa using congrArg List.length hspecs
  refine ⟨?_, fun mgr hmem => ?_, fun mgr hmem w hw => ?_, fun hunitary => ?_, fun groups hhybrid => ?_⟩
  · rw [hconfig.numGpuBlocks]
    exact h.numGpuBlocks_pos
  · obtain ⟨mgr₀, hmem₀, heq⟩ := hspec mgr hmem
    rw [blockSize, ← heq]
    exact h.blockSize_pos mgr₀ hmem₀
  · obtain ⟨mgr₀, hmem₀, heq⟩ := hspec mgr hmem
    exact h.window_pos mgr₀ hmem₀ w (heq ▸ hw)
  · rw [hlength]
    exact h.unitary (hcoordinator ▸ hunitary)
  obtain ⟨hgroups, hcover⟩ := h.hybrid groups (hcoordinator ▸ hhybrid)
  refine ⟨⟨hgroups.size, ?_, fun g hg groupId hid => ?_⟩, hlength ▸ hcover⟩
  · rw [hconfig.hashBlockSize]
    exact hgroups.scale
  · rw [← getElem?_map, hspecs, getElem?_map]
    exact hgroups.spec g hg groupId hid

theorem Inv.step (h : kv.Inv tracked) {pool : BlockPool H} {managers : List SingleTypeManager}
    (hstep : ManagersStep tracked 0 kv.pool kv.managers pool managers) :
    Step tracked kv { kv with pool := pool, managers := managers } :=
  ⟨⟨hstep.inv, h.configInv.congr hstep.config hstep.specs rfl⟩, hstep.config, hstep.specs, rfl⟩

theorem Inv.step_refl (h : kv.Inv tracked) : Step tracked kv kv := ⟨h, .refl _, rfl, rfl⟩

theorem Step.trans {kv'' : KVCacheManager H} (h : Step tracked kv kv')
    (h' : Step tracked kv' kv'') : Step tracked kv kv'' :=
  ⟨h'.inv, h.config.trans h'.config, h'.specs.trans h.specs, h'.coordinator.trans h.coordinator⟩

section

variable (h : kv.Inv tracked)
include h

/-- `free` -/
theorem Inv.free (requestId : RequestId) : Step tracked kv (kv.free requestId) :=
  h.step (h.managersInv.mapManagers fun _ _ _ hgroup => hgroup.free requestId)

theorem Inv.removeSkippedBlocks (requestId : RequestId) (totalComputedTokens : ℤ) :
    Step tracked kv (kv.removeSkippedBlocks requestId totalComputedTokens) :=
  h.step (h.managersInv.mapManagers fun _ _ _ hgroup =>
    hgroup.removeSkippedBlocks requestId totalComputedTokens)

theorem Inv.unhash {pool : BlockPool H} (hinv : PoolInv tracked.counted pool (0 + ledgerOf kv.managers).occ)
    (hconfig : SameConfig kv.pool pool) (hhash : ∀ block, (pool.blocks block).blockHash = none ∨
      (pool.blocks block).blockHash = (kv.pool.blocks block).blockHash) :
    Step tracked kv { kv with pool := pool } := by
  refine h.step ⟨⟨hinv, fun hun => (h.managersInv.unhashed hun).step fun block _ _ =>
    Or.inr ⟨le_rfl, fun hnone => ?_⟩, ?_⟩, hconfig, rfl⟩
  · rcases hhash block with hb | hb
    · exact hb
    · rw [hb, hnone]
  · rw [hconfig.numGpuBlocks]
    exact h.managersInv.tableInv

theorem Inv.evictBlocks {blockIds : List BlockId} : Ensures (Step tracked kv) (kv.evictBlocks blockIds) := by
  refine .bind fun pool hevict => .ok ?_
  obtain ⟨hinv, hconfig, hhash⟩ := h.managersInv.poolInv.evictBlocks hevict
  exact h.unhash hinv hconfig hhash

theorem Inv.resetPrefixCache : Step tracked kv kv.resetPrefixCache.1 := by
  obtain ⟨hinv, hconfig, hhash⟩ := h.managersInv.poolInv.resetPrefixCache
  exact h.unhash hinv hconfig hhash

/-- `cache_blocks` of the coordinator; as long as no pending block is shared, it never meets a block with a
hash. -/
theorem Inv.cacheBlocksCoordinator (hon : kv.pool.enableCaching = true) :
    Meets (fun e => tracked.unshared → e ≠ .blockAlreadyHashed) (Step tracked kv)
      (kv.cacheBlocksCoordinator r numComputedTokens) := by
  refine .bind (h.managersInv.forManagers fun _ _ _ _ _ hconfig hgroup => ⟨fun e he hun => ?_, ?_⟩)
    fun _ hstep => .ok (h.step hstep)
  · exact hgroup.cacheBlocks_raises hun e he
  · exact hgroup.cacheBlocks (hconfig.enableCaching.trans hon)

theorem Inv.cacheBlocks : Ensures (Step tracked kv) (kv.cacheBlocks r numComputedTokens) :=
  .ite (fun hon => (h.cacheBlocksCoordinator hon).ensures) fun _ => .ok h.step_refl

theorem Inv.aliasRequestBlocks {dst src : RequestId}
    (hcached : tracked.unshared → ∀ mgr ∈ kv.managers, numPrefixBlocks ≤ mgr.numCached src) :
    Ensures (Step tracked kv ·.1) (kv.aliasRequestBlocks dst src numPrefixBlocks) := by
  refine .bind fun _ halias => .ok (h.step (h.managersInv.aliasManagers (fun j mgr source hmgr hsource => ?_) halias))
  have hmem : mgr ∈ kv.managers := mem_of_getElem? hmgr
  obtain ⟨blocks, hlookup, rfl⟩ := Option.map_eq_some_iff.mp hsource
  have hblocks : mgr.blocksOf src = blocks := by rw [blocksOf, hlookup, Option.getD_some]
  have htable := h.managersInv.tableInv mgr hmem
  exact ⟨hblocks ▸ htable.distinct src, hblocks ▸ htable.lt src, fun hun => hcached hun mgr hmem⟩

/-- `alias_request_blocks_from_snapshot`; if sharing is tracked, no more blocks than were cached. -/
theorem Inv.aliasRequestBlocksFromSnapshot {dst : RequestId}
    {srcBlocks : List (List BlockId)} {srcNumCachedBlocks : List ℕ}
    (hdistinct : ∀ i block, block ≠ nullBlock → (srcBlocks.getD i []).count block ≤ 1)
    (hlt : ∀ i, ∀ block ∈ srcBlocks.getD i [], block < kv.pool.numGpuBlocks)
    (hcached : tracked.unshared → ∀ n ∈ srcNumCachedBlocks, numPrefixBlocks ≤ (n : ℕ)) :
    Ensures (Step tracked kv ·.1)
      (kv.aliasRequestBlocksFromSnapshot dst srcBlocks srcNumCachedBlocks numPrefixBlocks) := by
  refine .ite (fun _ => .ok h.step_refl) fun hlengths => .bind fun _ halias =>
    .ok (h.step (h.managersInv.aliasManagers (fun j mgr source hmgr hsource => ?_) halias))
  cases hsource
  rw [Nat.zero_add]
  refine ⟨hdistinct j, hlt j, fun hun => hcached hun _ ?_⟩
  have hj : j < srcNumCachedBlocks.length := by
    have := (List.getElem?_eq_some_iff.mp hmgr).1
    omega
  change srcNumCachedBlocks.getD j 0 ∈ srcNumCachedBlocks
  rw [getD_eq_getElem?_getD, List.getElem?_eq_getElem hj, Option.getD_some]
  exact getElem_mem hj

theorem Inv.allocateBlocks {requestId : RequestId} {numLocalComputedTokens : ℤ}
    (hdistinct : ∀ i block, block ≠ nullBlock → (args.newComputedBlocks.getD i []).count block ≤ 1)
    (hlt : ∀ i, ∀ block ∈ args.newComputedBlocks.getD i [], block < kv.pool.numGpuBlocks)
    (hlength : tracked.counted → 0 < args.numExternalComputedTokens →
      0 ≤ numLocalComputedTokens + args.numExternalComputedTokens ∧ ∀ (i : ℕ) mgr, kv.managers[i]? = some mgr →
          ((args.newComputedBlocks.getD i []).length : ℤ) * mgr.blockSize ≤
            numLocalComputedTokens + args.numExternalComputedTokens) :
    Ensures (Step tracked kv) (kv.allocateBlocks requestId args numLocalComputedTokens numTokensNeedSlot) := by
  refine .bind fun (pool₁, managers₁) hcomputed => .bind fun (pool₂, managers₂) hallocated => .ok (h.step ?_)
  have hfirst : Ensures (fun r => ManagersStep tracked 0 kv.pool kv.managers r.1 r.2)
      (kv.allocateNewComputedBlocks requestId args numLocalComputedTokens) := by
    refine .ite (fun _ => ?_) fun _ => .ok h.managersInv.step_refl
    refine (h.managersInv.forManagers fun j mgr _ pool hmgr hconfig hgroup => .of_ensures ?_).ensures
    have hmem : mgr ∈ kv.managers := mem_of_getElem? hmgr
    rw [Nat.zero_add]
    refine hgroup.allocateNewComputedBlocks (h.configInv.blockSize_pos mgr hmem)
      (h.configInv.window_pos mgr hmem) (hdistinct j) ?_ fun hcounted hpos => ?_
    · rw [hconfig.numGpuBlocks]
      exact hlt j
    · exact ⟨(hlength hcounted hpos).1, (hlength hcounted hpos).2 j mgr hmgr⟩
  exact ManagersInv.step_trans (hfirst hcomputed) (((hfirst hcomputed).inv.forManagers
    fun _ _ _ _ _ _ hgroup => .of_ensures hgroup.allocateNewBlocks).ensures hallocated)

end

/-- What makes the computed blocks passed to `allocate_slots` fine for a request; their length matters
for the count of free blocks only. -/
structure FineArgs (counted : Prop) (kv : KVCacheManager H) (r : Request H F) (args : AllocateArgs) : Prop where
  distinct : ∀ i block, block ≠ nullBlock → (args.newComputedBlocks.getD i []).count block ≤ 1
  lt : ∀ i, ∀ block ∈ args.newComputedBlocks.getD i [], block < kv.pool.numGpuBlocks
  length : counted → 0 < args.numExternalComputedTokens →
    0 ≤ r.numComputedTokens + args.numNewComputedTokens ∧
      ∀ (i : ℕ) mgr, kv.managers[i]? = some mgr →
        ((args.newComputedBlocks.getD i []).length : ℤ) * mgr.blockSize ≤
          r.numComputedTokens + args.numNewComputedTokens

omit [DecidableEq H] in
theorem FineArgs.congr {counted : Prop} (h : kv.FineArgs counted r args) (hconfig : SameConfig kv.pool kv'.pool)
    (hspecs : kv'.managers.map spec = kv.managers.map spec) : kv'.FineArgs counted r args := by
  refine ⟨h.distinct, hconfig.numGpuBlocks ▸ h.lt, fun hcounted hpos =>
    ⟨(h.length hcounted hpos).1, fun i mgr hmgr => ?_⟩⟩
  have hspec : (kv.managers.map spec)[i]? = some mgr.spec := by
    rw [← hspecs, getElem?_map, hmgr, Option.map_some]
  rw [getElem?_map] at hspec
  obtain ⟨mgr₀, hmgr₀, heq⟩ := Option.map_eq_some_iff.mp hspec
  rw [blockSize, ← heq]
  exact (h.length hcounted hpos).2 i mgr₀ hmgr₀

theorem Inv.allocateAfterRemoval (h : kv.Inv tracked) (hargs : kv.FineArgs tracked.counted r args) {total : ℤ} :
    Ensures (Step tracked kv) ((kv.removeSkippedBlocks r.requestId total).allocateBlocks r.requestId args
      (r.numComputedTokens + args.numNewComputedTokens) numTokensNeedSlot) := by
  have hremoved := h.removeSkippedBlocks r.requestId total
  have hargs' := hargs.congr hremoved.config hremoved.specs
  exact fun _ halloc => hremoved.trans (hremoved.inv.allocateBlocks hargs'.distinct hargs'.lt
    (fun hcounted hpos => ⟨by linarith [(hargs'.length hcounted hpos).1], fun i mgr hmgr =>
      ((hargs'.length hcounted hpos).2 i mgr hmgr).trans (by linarith)⟩) halloc)

omit [DecidableEq H] in
theorem enableCaching_of_not_delayed {delay : Bool} (h : ¬(!kv.pool.enableCaching || delay) = true) :
    kv.pool.enableCaching = true := by
  cases hcaching : kv.pool.enableCaching with
  | true => rfl
  | false => simp [hcaching] at h

theorem Inv.allocateSlots (h : kv.Inv tracked) (hargs : kv.FineArgs tracked.counted r args) :
    Ensures (Step tracked kv ·.1) (kv.allocateSlots r args) := by
  refine .ite (fun _ => .error) fun _ => .bind fun _ _ => .ite (fun _ => .ok h.step_refl) fun _ => .bind fun _ _ =>
    .ite (fun _ => .ok (h.removeSkippedBlocks r.requestId _)) fun _ => .bind fun kv'' halloc => ?_
  have hallocated := h.allocateAfterRemoval hargs halloc
  refine .ite (fun _ => .ok hallocated) fun hdelay => .bind fun _ hcache => .ok (hallocated.trans ?_)
  exact (hallocated.inv.cacheBlocksCoordinator (enableCaching_of_not_delayed hdelay)).ensures hcache

end KVCacheManager

end VllmPs
