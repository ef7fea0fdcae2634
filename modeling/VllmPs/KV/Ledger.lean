import VllmPs.KV.PoolInvariants
import VllmPs.KV.SingleType

/-!
# The ledger of the block tables

The ledger counts the occurrences of each block in block tables, and those that are not
cached yet. Every operation keeps the pool balanced against it; as long as no uncached
block is shared, a block has at most one uncached occurrence and then no hash.
-/

namespace VllmPs

open Lib AList SingleTypeManager

variable {H F : Type}

/-- Occurrences of the blocks in tables, and how many of them are pending, that is, at a position
that is not cached yet. -/
@[ext] structure Ledger where
  occ : BlockId → ℕ
  pending : BlockId → ℕ
  pending_le : ∀ block, pending block ≤ occ block

namespace Ledger

instance : Zero Ledger := ⟨⟨0, 0, fun _ => le_rfl⟩⟩

instance : Add Ledger :=
  ⟨fun l m => ⟨l.occ + m.occ, l.pending + m.pending, fun block =>
    Nat.add_le_add (l.pending_le block) (m.pending_le block)⟩⟩

variable (l m : Ledger)

@[simp] theorem add_occ (block : BlockId) : (l + m).occ block = l.occ block + m.occ block := rfl

@[simp] theorem add_pending (block : BlockId) : (l + m).pending block = l.pending block + m.pending block := rfl

variable (block : BlockId)

@[simp] theorem zero_occ : (0 : Ledger).occ block = 0 := rfl

@[simp] theorem zero_pending : (0 : Ledger).pending block = 0 := rfl

instance : AddCommMonoid Ledger where
  add_assoc l m n := by ext block <;> simp [Nat.add_assoc]
  zero_add l := by ext block <;> simp
  add_zero l := by ext block <;> simp
  add_comm l m := by ext block <;> simp [Nat.add_comm]
  nsmul := nsmulRec

end Ledger

namespace SingleTypeManager

variable (mgr : SingleTypeManager) (requestId other : RequestId)
variable {mgr' : SingleTypeManager} {blocks : List BlockId}

def pendingOf : List BlockId := (mgr.blocksOf requestId).drop (mgr.numCached requestId)

def pendingWeight (block : BlockId) (requestId : RequestId) (blocks : List BlockId) : ℕ :=
  (blocks.drop (mgr.numCached requestId)).count block

/-- The ledger of one manager. -/
def ledger : Ledger where
  occ block := Table.total (fun _ => List.count block) mgr.reqToBlocks
  pending block := Table.total (mgr.pendingWeight block) mgr.reqToBlocks
  pending_le block := Table.total_le_total
    (fun _ blocks => (List.drop_sublist _ blocks).count_le block) mgr.reqToBlocks

variable (block : BlockId)

theorem ledger_occ : mgr.ledger.occ block = Table.total (fun _ => List.count block) mgr.reqToBlocks := rfl

theorem ledger_pending : mgr.ledger.pending block = Table.total (mgr.pendingWeight block) mgr.reqToBlocks := rfl

theorem weightAt_occ : Table.weightAt (fun _ => List.count block) mgr.reqToBlocks requestId =
      (mgr.blocksOf requestId).count block := by
  unfold Table.weightAt blocksOf
  cases mgr.reqToBlocks.lookup requestId <;> simp

theorem weightAt_pending : Table.weightAt (mgr.pendingWeight block) mgr.reqToBlocks requestId =
      (mgr.pendingOf requestId).count block := by
  unfold Table.weightAt pendingOf blocksOf
  cases mgr.reqToBlocks.lookup requestId <;> simp [pendingWeight]

theorem count_blocksOf_le : (mgr.blocksOf requestId).count block ≤ mgr.ledger.occ block := by
  rw [← weightAt_occ]
  exact Table.le_total _ _ _

theorem count_pendingOf_le : (mgr.pendingOf requestId).count block ≤ mgr.ledger.pending block := by
  rw [← weightAt_pending]
  exact Table.le_total _ _ _

/-- Only the table and the cached count of one request differ, and they are the given ones. -/
structure Updates (mgr' : SingleTypeManager) (blocks : List BlockId) (numCached : ℕ) : Prop where
  spec : mgr'.spec = mgr.spec
  kvCacheGroupId : mgr'.kvCacheGroupId = mgr.kvCacheGroupId
  blocksOf : mgr'.blocksOf requestId = blocks
  blocksOf_other : ∀ other, other ≠ requestId → mgr'.blocksOf other = mgr.blocksOf other
  occ : ∀ block, mgr'.ledger.occ block + (mgr.blocksOf requestId).count block =
    mgr.ledger.occ block + blocks.count block
  pending : ∀ block, mgr'.ledger.pending block + (mgr.pendingOf requestId).count block =
    mgr.ledger.pending block + (blocks.drop numCached).count block

variable {mgr requestId}

@[simp] theorem numCached_setNumCached (n : ℕ) :
    (mgr.setNumCached requestId n).numCached other = if other = requestId then n else
      mgr.numCached other := by
  unfold numCached setNumCached
  rcases eq_or_ne other requestId with rfl | hne
  · simp [lookup_insert]
  · simp [lookup_insert_ne hne, hne]

@[simp] theorem blocksOf_setBlocks (blocks : List BlockId) : (mgr.setBlocks requestId blocks).blocksOf other =
      if other = requestId then blocks else mgr.blocksOf other := by
  unfold blocksOf setBlocks
  rcases eq_or_ne other requestId with rfl | hne
  · simp [lookup_insert]
  · simp [lookup_insert_ne hne, hne]

theorem updates_of_insert (hspec : mgr'.spec = mgr.spec) (hid : mgr'.kvCacheGroupId = mgr.kvCacheGroupId)
    (htable : mgr'.reqToBlocks = mgr.reqToBlocks.insert requestId blocks)
    (hcached : ∀ other, other ≠ requestId → mgr'.numCached other = mgr.numCached other) :
    mgr.Updates requestId mgr' blocks (mgr'.numCached requestId) := by
  refine ⟨hspec, hid, ?_, fun other hne => ?_, fun block => ?_, fun block => ?_⟩
  · rw [blocksOf, htable, lookup_insert]
    rfl
  · rw [blocksOf, htable, lookup_insert_ne hne]
    rfl
  · rw [← weightAt_occ, ledger_occ, ledger_occ, htable]
    exact Table.total_insert (fun _ _ => rfl) _ _
  · rw [← weightAt_pending, ledger_pending, ledger_pending, htable]
    exact Table.total_insert (fun other hne => funext fun _ => by
      rw [pendingWeight, pendingWeight, hcached other hne]) _ _

theorem updates_setBoth (blocks : List BlockId) (n : ℕ) :
    mgr.Updates requestId ((mgr.setBlocks requestId blocks).setNumCached requestId n) blocks n := by
  have h : mgr.Updates requestId ((mgr.setBlocks requestId blocks).setNumCached requestId n) blocks
      (((mgr.setBlocks requestId blocks).setNumCached requestId n).numCached requestId) :=
    updates_of_insert rfl rfl rfl fun other hne => by
      rw [numCached_setNumCached, if_neg hne]
      rfl
  rwa [numCached_setNumCached, if_pos rfl] at h

theorem updates_setBlocks (blocks : List BlockId) :
    mgr.Updates requestId (mgr.setBlocks requestId blocks) blocks (mgr.numCached requestId) :=
  updates_of_insert rfl rfl rfl fun _ _ => rfl

theorem updates_free (pool : BlockPool H) : mgr.Updates requestId (mgr.free requestId pool).2 [] 0 := by
  refine ⟨rfl, rfl, ?_, fun other hne => ?_, fun block => ?_, fun block => ?_⟩
  · simp [blocksOf, free]
  · simp [blocksOf, free, lookup_erase_ne hne]
  · rw [← weightAt_occ, ledger_occ, ledger_occ]
    exact Table.total_erase (fun _ _ => rfl) _
  · rw [← weightAt_pending, ledger_pending, ledger_pending]
    refine Table.total_erase (fun other hne => funext fun _ => ?_) _
    simp [pendingWeight, numCached, free, lookup_erase_ne hne]

structure TableInv (numGpuBlocks : ℕ) (mgr : SingleTypeManager) : Prop where
  pos : 0 < numGpuBlocks
  distinct : ∀ requestId block, block ≠ nullBlock → (mgr.blocksOf requestId).count block ≤ 1
  lt : ∀ requestId, ∀ block ∈ mgr.blocksOf requestId, block < numGpuBlocks

theorem TableInv.updates {numGpuBlocks n : ℕ}
    (h : TableInv numGpuBlocks mgr) (hupdates : mgr.Updates requestId mgr' blocks n)
    (hdistinct : ∀ block, block ≠ nullBlock → blocks.count block ≤ 1)
    (hlt : ∀ block ∈ blocks, block < numGpuBlocks) : TableInv numGpuBlocks mgr' := by
  refine ⟨h.pos, ?_, ?_⟩
  · intro other block hnull
    rcases eq_or_ne other requestId with rfl | hne
    · rw [hupdates.blocksOf]
      exact hdistinct block hnull
    · rw [hupdates.blocksOf_other other hne]
      exact h.distinct other block hnull
  intro other block hmem
  rcases eq_or_ne other requestId with rfl | hne
  · rw [hupdates.blocksOf] at hmem
    exact hlt block hmem
  · rw [hupdates.blocksOf_other other hne] at hmem
    exact h.lt other block hmem

end SingleTypeManager

open BlockPool SingleTypeManager

def PendingUnhashed (pool : BlockPool H) (pending : BlockId → ℕ) : Prop :=
  ∀ block, block ≠ nullBlock → pending block ≤ 1 ∧
    (0 < pending block → (pool.blocks block).blockHash = none)

theorem PendingUnhashed.step {pool pool' : BlockPool H} {pending pending' : BlockId → ℕ}
    (h : PendingUnhashed pool pending)
    (hstep : ∀ block, block ≠ nullBlock → 0 < pending' block →
      (pending' block ≤ 1 ∧ (pool'.blocks block).blockHash = none) ∨
      (pending' block ≤ pending block ∧ ((pool.blocks block).blockHash = none →
        (pool'.blocks block).blockHash = none))) :
    PendingUnhashed pool' pending' := by
  intro block hnull
  rcases Nat.eq_zero_or_pos (pending' block) with hzero | hpos
  · rw [hzero]
    exact ⟨Nat.zero_le 1, fun h => absurd h (lt_irrefl 0)⟩
  · rcases hstep block hnull hpos with hnew | ⟨hle, hhash⟩
    · exact ⟨hnew.1, fun _ => hnew.2⟩
    · obtain ⟨hone, hnone⟩ := h block hnull
      exact ⟨hle.trans hone, fun _ => hhash (hnone (hpos.trans_le hle))⟩

/-- The optional parts of the invariant: that the pool counts its free blocks rightly, and that pending
blocks have not been shared. -/
structure Tracked where
  counted : Prop
  unshared : Prop

variable [DecidableEq H]

/-- The pool and one manager, with `other` the ledger of the other managers. If it is tracked, no
pending block has been shared. -/
structure GroupInv (tracked : Tracked) (other : Ledger) (pool : BlockPool H)
    (mgr : SingleTypeManager) : Prop where
  poolInv : PoolInv tracked.counted pool (other + mgr.ledger).occ
  unhashed : tracked.unshared → PendingUnhashed pool (other + mgr.ledger).pending
  tableInv : TableInv pool.numGpuBlocks mgr

/-- The outcome of an operation on one manager. -/
structure GroupStep (tracked : Tracked) (other : Ledger) (pool : BlockPool H) (mgr : SingleTypeManager)
    (pool' : BlockPool H) (mgr' : SingleTypeManager) : Prop where
  inv : GroupInv tracked other pool' mgr'
  config : SameConfig pool pool'
  spec : mgr'.spec = mgr.spec

theorem GroupStep.trans {tracked : Tracked} {other : Ledger} {pool pool' pool'' : BlockPool H}
    {mgr mgr' mgr'' : SingleTypeManager} (h : GroupStep tracked other pool mgr pool' mgr')
    (h' : GroupStep tracked other pool' mgr' pool'' mgr'') : GroupStep tracked other pool mgr pool'' mgr'' :=
  ⟨h'.inv, h.config.trans h'.config, h'.spec.trans h.spec⟩

namespace GroupInv

variable {tracked : Tracked} {other : Ledger} {pool pool' : BlockPool H} {mgr mgr' : SingleTypeManager}
  {requestId : RequestId} {blocks : List BlockId} {n : ℕ}

theorem step_of_updates (h : GroupInv tracked other pool mgr)
    (hupdates : mgr.Updates requestId mgr' blocks n) (hconfig : SameConfig pool pool')
    (hpool : PoolInv tracked.counted pool' (other + mgr'.ledger).occ)
    (hdistinct : ∀ block, block ≠ nullBlock → blocks.count block ≤ 1)
    (hlt : ∀ block ∈ blocks, block < pool.numGpuBlocks)
    (hpending : tracked.unshared → ∀ block, block ≠ nullBlock → 0 < (other + mgr'.ledger).pending block →
      ((other + mgr'.ledger).pending block ≤ 1 ∧ (pool'.blocks block).blockHash = none) ∨
      ((other + mgr'.ledger).pending block ≤ (other + mgr.ledger).pending block ∧
        ((pool.blocks block).blockHash = none → (pool'.blocks block).blockHash = none))) :
    GroupStep tracked other pool mgr pool' mgr' where
  inv :=
    { poolInv := hpool
      unhashed := fun hun => (h.unhashed hun).step (hpending hun)
      tableInv := hconfig.numGpuBlocks ▸ h.tableInv.updates hupdates hdistinct hlt }
  config := hconfig
  spec := hupdates.spec

theorem occ_of_updates (other : Ledger) (hupdates : mgr.Updates requestId mgr' blocks n)
    (block : BlockId) : (other + mgr'.ledger).occ block + (mgr.blocksOf requestId).count block =
      (other + mgr.ledger).occ block + blocks.count block := by
  have := hupdates.occ block
  simp only [Ledger.add_occ]
  omega

theorem step_kept (h : GroupInv tracked other pool mgr) (hupdates : mgr.Updates requestId mgr' blocks n)
    (hpool : PoolInv tracked.counted pool' (other + mgr'.ledger).occ ∧ SameConfig pool pool' ∧
      ∀ block, (pool'.blocks block).blockHash = (pool.blocks block).blockHash)
    (hdistinct : ∀ block, block ≠ nullBlock → blocks.count block ≤ 1)
    (hlt : ∀ block ∈ blocks, block < pool.numGpuBlocks)
    (hpending : tracked.unshared → ∀ block, block ≠ nullBlock →
      (blocks.drop n).count block ≤ (mgr.pendingOf requestId).count block) :
    GroupStep tracked other pool mgr pool' mgr' := by
  obtain ⟨hinv, hconfig, hhash⟩ := hpool
  refine h.step_of_updates hupdates hconfig hinv hdistinct hlt fun hun block hnull _ =>
    Or.inr ⟨?_, fun hnone => by rw [hhash, hnone]⟩
  have := hupdates.pending block
  have := hpending hun block hnull
  simp only [Ledger.add_pending]
  omega

end GroupInv

end VllmPs
