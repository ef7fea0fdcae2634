import VllmPs.Lib.Transition
import VllmPs.Offload.Policy

/-!
# The CPU offloading manager

One tier of offloaded blocks: a pool of buffer slots, a cache policy, and the reference counts that
keep blocks in place during transfers. Every operation is described by what it does to the status
under each key.
-/

namespace VllmPs.Offload

open Lib List

/-- The assertions of the offloading managers. -/
inductive OffloadError (K : Type)
  /-- `Block … not found in cache` -/
  | notInCache (key : K)
  /-- `Block … is not ready for reading` -/
  | notReady (key : K)
  /-- `Block … not found` -/
  | notFound (key : K)
  /-- `Block … ref_cnt is already 0` -/
  | refCntZero (key : K)
  /-- `len(self._free_list) >= num_reused` -/
  | freeListTooShort
  /-- `Finished job_id … not in _transfer_jobs` -/
  | unknownJob (jobId : ℕ)
deriving DecidableEq

variable {K F : Type}

/-- `CPUOffloadingManager` -/
structure CPUOffloadingManager (K F : Type) where
  numBlocks : ℕ
  numAllocatedBlocks : ℕ := 0
  freeList : List ℕ := []
  policy : CachePolicy K F
  storeThreshold : ℕ := 1
  maxTrackerSize : ℕ := 64000
  counts : Option (OrderedDict K ℕ) := none

/-- `PrepareStoreOutput`, with the slots of its store spec. -/
structure PrepareStoreOutput (K : Type) where
  keysToStore : List K
  storeSpec : List ℕ
  evictedKeys : List K
deriving DecidableEq

namespace CPUOffloadingManager

variable (m : CPUOffloadingManager K F)

/-- `_get_num_free_blocks` -/
def getNumFreeBlocks : ℤ :=
  m.freeList.length + m.numBlocks - m.numAllocatedBlocks

/-- `_allocate_blocks` for a number of keys: fresh slots first, then the last freed ones. -/
def allocateBlocks (numKeys : ℕ) : Except (OffloadError K) (List ℕ × CPUOffloadingManager K F) :=
  let numFresh := min numKeys (m.numBlocks - m.numAllocatedBlocks)
  let numReused := numKeys - numFresh
  if m.freeList.length < numReused then throw .freeListTooShort
  else
    let fresh := (List.range numFresh).map (m.numAllocatedBlocks + ·)
    return (fresh ++ m.freeList.reverse.take numReused,
      { m with
        numAllocatedBlocks := m.numAllocatedBlocks + numFresh
        freeList := (m.freeList.reverse.drop numReused).reverse })

/-- `_free_block` -/
def freeBlock (block : BlockStatus) : CPUOffloadingManager K F :=
  { m with freeList := m.freeList ++ [block.blockId] }

variable [DecidableEq K]
variable (m : CPUOffloadingManager K F)
variable (key : K)

/-- The status under a key. -/
def get : Option BlockStatus := m.policy.get key

/-- Change the status under a key. -/
def modify (m : CPUOffloadingManager K F) (key : K) (f : BlockStatus → BlockStatus) :
    CPUOffloadingManager K F :=
  { m with policy := m.policy.modify key f }

/-- The reference tracking of `lookup`. -/
def countLookup : CPUOffloadingManager K F :=
  match m.counts with
  | none => m
  | some counts =>
    match counts.get key with
    | some n => { m with counts := some ((counts.moveToEnd key).modify key fun _ => n + 1) }
    | none =>
      let counts := if m.maxTrackerSize ≤ counts.size then counts.popFirst else counts
      { m with counts := some (counts.set key 1) }

/-- The answer of `lookup`: whether the block is there, nothing while it is being written. -/
def answer : Option Bool :=
  match m.get key with
  | none => some false
  | some block => if block.isReady then some true else none

/-- `lookup` -/
def lookup : Option Bool × CPUOffloadingManager K F :=
  (m.answer key, m.countLookup key)

/-- One key of `prepare_load`. -/
def prepareLoadOne (acc : List ℕ × CPUOffloadingManager K F) (key : K) :
    Except (OffloadError K) (List ℕ × CPUOffloadingManager K F) :=
  match acc.2.get key with
  | none => throw (.notInCache key)
  | some block =>
    if block.isReady then return (acc.1 ++ [block.blockId], acc.2.modify key (·.addRefCnt 1))
    else throw (.notReady key)

/-- `prepare_load` -/
def prepareLoad (keys : List K) : Except (OffloadError K) (List ℕ × CPUOffloadingManager K F) :=
  keys.foldlM prepareLoadOne ([], m)

/-- One key of `complete_load`. -/
def completeLoadOne : Except (OffloadError K) (CPUOffloadingManager K F) :=
  match m.get key with
  | none => throw (.notFound key)
  | some block =>
    if 0 < block.refCnt then return m.modify key (·.addRefCnt (-1)) else throw (.refCntZero key)

/-- `complete_load` -/
def completeLoad (keys : List K) : Except (OffloadError K) (CPUOffloadingManager K F) :=
  keys.foldlM completeLoadOne m

/-- The keys that pass the reference threshold of `prepare_store`. -/
def storableKeys (keys : List K) : List K :=
  match m.counts with
  | none => keys
  | some counts => keys.filter fun k => decide (m.storeThreshold ≤ (counts.get k).getD 0)

/-- The keys `prepare_store` does not find. -/
def missingKeys (keys : List K) : List K :=
  (m.storableKeys keys).filter fun k => (m.get k).isNone

/-- One key of `complete_store`. -/
def completeStoreOne (success : Bool) (m : CPUOffloadingManager K F) (key : K) : CPUOffloadingManager K F :=
  match m.get key with
  | none => m
  | some block =>
    if block.isReady then m
    else if success then m.modify key (·.setRefCnt 0)
    else freeBlock { m with policy := m.policy.remove key } block

/-- `complete_store` -/
def completeStore (keys : List K) (success : Bool) : CPUOffloadingManager K F :=
  keys.foldl (completeStoreOne success) m

variable [ArcFloat F]

/-- `__init__` -/
def new (numBlocks : ℕ) (cachePolicy : CachePolicyName) (storeThreshold maxTrackerSize : ℕ) :
    CPUOffloadingManager K F where
  numBlocks
  policy := .new numBlocks cachePolicy
  storeThreshold
  maxTrackerSize
  counts := if 2 ≤ storeThreshold then some ∅ else none

/-- `touch` -/
def touch (m : CPUOffloadingManager K F) (keys : List K) : CPUOffloadingManager K F :=
  { m with policy := m.policy.touch keys }

variable (m : CPUOffloadingManager K F)

/-- Make room in `prepare_store`: the keys that are evicted, nothing if there are too few. -/
def makeRoom (numKeys : ℕ) (guarded : List K) : Option (List K × CPUOffloadingManager K F) :=
  let numBlocksToEvict := (numKeys : ℤ) - m.getNumFreeBlocks
  if 0 < numBlocksToEvict then
    match m.policy.evict numBlocksToEvict.toNat guarded with
    | none => none
    | some (evicted, policy) =>
      some (evicted.map Prod.fst, evicted.foldl (fun m e => m.freeBlock e.2) { m with policy })
  else some ([], m)

/-- Insert the new blocks of `prepare_store`. -/
def insertBlocks (blocks : List (K × ℕ)) : CPUOffloadingManager K F :=
  { m with policy := blocks.foldl (fun policy b => policy.insert b.1 { blockId := b.2 }) m.policy }

/-- `prepare_store` -/
def prepareStore (keys : List K) :
    Except (OffloadError K) (Option (PrepareStoreOutput K) × CPUOffloadingManager K F) :=
  let keysToStore := m.missingKeys keys
  if keysToStore = [] then return (some ⟨[], [], []⟩, m)
  else
    match m.makeRoom keysToStore.length (m.storableKeys keys) with
    | none => return (none, m)
    | some (toEvict, m) => do
      let (blockIds, m) ← m.allocateBlocks keysToStore.length
      return (some ⟨keysToStore, blockIds, toEvict⟩, m.insertBlocks (keysToStore.zip blockIds))

/-- `reset_cache` -/
def resetCache : CPUOffloadingManager K F :=
  { m with policy := m.policy.clear, freeList := [], numAllocatedBlocks := 0 }

end CPUOffloadingManager

/-! ## What the operations do -/

namespace BlockStatus

variable (block : BlockStatus)

@[simp] theorem refCnt_addRefCnt (d : ℤ) : (block.addRefCnt d).refCnt = int32 (block.refCnt + d) := rfl

@[simp] theorem addRefCnt_zero : block.addRefCnt 0 = block := by
  simp [addRefCnt, int32_of_mem block.inRange]

@[simp] theorem addRefCnt_addRefCnt (d e : ℤ) : (block.addRefCnt d).addRefCnt e = block.addRefCnt (d + e) := by
  simp [addRefCnt, int32_add, add_assoc]

theorem isReady_iff {block : BlockStatus} : block.isReady = true ↔ 0 ≤ block.refCnt := by
  simp [isReady]

end BlockStatus

def SlotsOf (get : K → Option BlockStatus) (keys : List K) (slots : List ℕ) : Prop :=
  List.Forall₂ (fun k slot => (get k).map BlockStatus.blockId = some slot) keys slots

theorem SlotsOf.congr {get get' : K → Option BlockStatus} {keys : List K} {slots : List ℕ}
    (h : SlotsOf get keys slots)
    (hget : ∀ k ∈ keys, (get' k).map BlockStatus.blockId = (get k).map BlockStatus.blockId) :
    SlotsOf get' keys slots := by
  induction h with
  | nil => exact .nil
  | @cons k slot keys slots hk _ ih =>
    exact .cons ((hget k mem_cons_self).trans hk) (ih fun k' hk' => hget k' (mem_cons_of_mem _ hk'))

variable (success : Bool) {block : BlockStatus}

/-- What happens to a block when its store is reported. -/
def settle : Option BlockStatus → Option BlockStatus
  | none => none
  | some block =>
    if block.isReady then some block else if success then some (block.setRefCnt 0) else none

theorem settle_of_ready (h : block.isReady = true) :
    settle success (some block) = some block := if_pos h

theorem settle_of_not_ready (h : ¬block.isReady = true) :
    settle success (some block) = if success then some (block.setRefCnt 0) else none := if_neg h

@[simp] theorem settle_settle (status : Option BlockStatus) :
    settle success (settle success status) = settle success status := by
  cases status with
  | none => rfl
  | some block =>
    by_cases hready : block.isReady = true
    · rw [settle_of_ready success hready, settle_of_ready success hready]
    · rw [settle_of_not_ready success hready]
      cases success <;> rfl

namespace CPUOffloadingManager

variable [DecidableEq K]
variable {m m' : CPUOffloadingManager K F} {keys : List K}
variable {out : PrepareStoreOutput K} {n : ℕ}

structure Sound (m : CPUOffloadingManager K F) : Prop where
  policy : m.policy.Sound
  allocated : m.numAllocatedBlocks ≤ m.numBlocks

@[simp] theorem get_modify (m : CPUOffloadingManager K F) (key k : K) (f : BlockStatus → BlockStatus) :
    (m.modify key f).get k = if k = key then (m.get k).map f else m.get k :=
  CachePolicy.get_modify _ _ _ _

theorem Sound.modify (h : m.Sound) (key : K) (f : BlockStatus → BlockStatus) : (m.modify key f).Sound :=
  ⟨h.policy.modify key f, h.allocated⟩

theorem countLookup_eq (m : CPUOffloadingManager K F) (key : K) :
    ∃ counts, m.countLookup key = { m with counts } := by
  unfold countLookup
  split
  · exact ⟨m.counts, rfl⟩
  · split <;> exact ⟨_, rfl⟩

@[simp] theorem get_countLookup (m : CPUOffloadingManager K F) (key k : K) :
    (m.countLookup key).get k = m.get k := by
  obtain ⟨counts, heq⟩ := m.countLookup_eq key
  rw [heq]
  rfl

theorem Sound.countLookup (h : m.Sound) (key : K) : (m.countLookup key).Sound := by
  obtain ⟨counts, heq⟩ := m.countLookup_eq key
  exact heq ▸ ⟨h.policy, h.allocated⟩

theorem foldl_countLookup_spec (m : CPUOffloadingManager K F) (keys : List K) :
    (m.Sound → (keys.foldl CPUOffloadingManager.countLookup m).Sound) ∧
      ∀ k, (keys.foldl CPUOffloadingManager.countLookup m).get k = m.get k := by
  induction keys generalizing m with
  | nil => exact ⟨id, fun _ => rfl⟩
  | cons key rest ih =>
    obtain ⟨hsound, hget⟩ := ih (m.countLookup key)
    exact ⟨fun hm => hsound (hm.countLookup key), fun k => (hget k).trans (get_countLookup _ _ _)⟩

/-- Every key was ready when it was pinned, once for each occurrence. -/
structure Pinned (m m' : CPUOffloadingManager K F) (keys : List K) (slots : List ℕ) : Prop where
  get : ∀ k, m'.get k = (m.get k).map (·.addRefCnt (keys.count k))
  ready : ∀ k ∈ keys, ∃ block, m.get k = some block ∧ block.isReady = true ∧ block.refCnt + keys.count k ≤ 2 ^ 31
  slots : SlotsOf m.get keys slots
  sound : m.Sound → m'.Sound

theorem map_addRefCnt_cons (m : CPUOffloadingManager K F) (key k : K) (rest : List K) :
    ((m.modify key (·.addRefCnt 1)).get k).map (·.addRefCnt (rest.count k)) =
      (m.get k).map (·.addRefCnt ((key :: rest).count k)) := by
  rw [get_modify, count_cons]
  by_cases hk : k = key
  · subst hk
    rw [if_pos rfl, Option.map_map]
    congr 1
    funext block
    simp [add_comm]
  · have hne : (key == k) = false := by simpa using Ne.symm hk
    rw [if_neg hk, hne]
    simp

/-- A load pins its blocks, or one of them is absent or not ready. -/
theorem meets_prepareLoad (m : CPUOffloadingManager K F) (keys : List K) :
    Meets (fun e => ∃ k, e = .notInCache k ∨ e = .notReady k)
      (fun r => Pinned m r.2 keys r.1) (m.prepareLoad keys) := by
  suffices hgen : ∀ acc, Meets (fun e => ∃ k, e = .notInCache k ∨ e = .notReady k)
      (fun r => ∃ more, r.1 = acc ++ more ∧ Pinned m r.2 keys more) (keys.foldlM prepareLoadOne (acc, m)) by
    refine (hgen []).mono (fun _ => id) ?_
    rintro ⟨slots, m'⟩ ⟨more, rfl, hpinned⟩
    exact hpinned
  induction keys generalizing m with
  | nil => exact fun acc => .ok ⟨[], (append_nil _).symm, fun k => by simp, nofun, .nil, id⟩
  | cons key rest ih =>
    intro acc
    rw [foldlM_cons]
    unfold prepareLoadOne
    split
    next hnone =>
      exact .bind (Q := fun _ => False) (.error ⟨key, .inl rfl⟩) nofun
    next block hblock =>
      refine .bind (Q := fun r => block.isReady = true ∧ r = (acc ++ [block.blockId], m.modify key (·.addRefCnt 1)))
        (.ite (fun hready => .ok ⟨hready, rfl⟩) fun _ => .error ⟨key, .inr rfl⟩) ?_
      rintro _ ⟨hready, rfl⟩
      refine (ih _ _).mono (fun _ => id) ?_
      · rintro ⟨slots, m'⟩ ⟨more, rfl, hpinned⟩
        refine ⟨block.blockId :: more, by simp, fun k => ?_, fun k hk => ?_, ?_,
          fun hm => hpinned.sound (hm.modify key _)⟩
        · rw [hpinned.get, map_addRefCnt_cons]
        · have hrange := block.inRange
          have hnonneg := BlockStatus.isReady_iff.mp hready
          by_cases hin : k ∈ rest
          · obtain ⟨b, hb, hb', hroom⟩ := hpinned.ready k hin
            rw [get_modify] at hb
            split_ifs at hb with heq
            · -- the block was still ready after the first time
              rw [heq, hblock, Option.map_some, Option.some.injEq] at hb
              rw [BlockStatus.isReady_iff, ← hb, BlockStatus.refCnt_addRefCnt] at hb'
              rw [← hb, BlockStatus.refCnt_addRefCnt] at hroom
              refine ⟨block, heq ▸ hblock, hready, ?_⟩
              rw [heq, count_cons_self]
              rw [heq] at hroom
              unfold int32 at hb' hroom
              omega
            · rw [count_cons_of_ne (Ne.symm heq)]
              exact ⟨b, hb, hb', hroom⟩
          · obtain rfl := (mem_cons.mp hk).resolve_right hin
            refine ⟨block, hblock, hready, ?_⟩
            rw [count_cons_self, count_eq_zero.mpr hin]
            omega
        · refine .cons (by rw [hblock, Option.map_some]) (hpinned.slots.congr fun k _ => ?_)
          rw [get_modify]
          split_ifs
          · rw [Option.map_map]
            rfl
          · rfl

/-- Unpinning takes one reference per occurrence. -/
theorem ensures_completeLoad (keys : List K) :
    Ensures (fun m' : CPUOffloadingManager K F => (∀ k, m'.get k = (m.get k).map (·.addRefCnt (-(keys.count k : ℤ)))) ∧
      (m.Sound → m'.Sound)) (m.completeLoad keys) := by
  unfold completeLoad
  induction keys generalizing m with
  | nil => exact .ok ⟨fun k => by simp, id⟩
  | cons key rest ih =>
    rw [foldlM_cons]
    refine .bind fun m₁ hm₁ m' hm' => ?_
    obtain rfl : m₁ = m.modify key (·.addRefCnt (-1)) := by
      unfold completeLoadOne at hm₁
      split at hm₁
      · cases hm₁
      · split_ifs at hm₁
        exact (Except.ok.inj hm₁).symm
    obtain ⟨hget, hsound⟩ := ih hm'
    refine ⟨fun k => ?_, fun hm => hsound (hm.modify key _)⟩
    rw [hget, get_modify]
    by_cases hkey : k = key
    · subst hkey
      rw [if_pos rfl, Option.map_map, count_cons_self]
      congr 1
      funext b
      simp only [Function.comp_apply, BlockStatus.addRefCnt_addRefCnt]
      congr 1
      push_cast
      ring
    · rw [if_neg hkey, count_cons_of_ne (Ne.symm hkey)]

/-- Blocks with enough references can be unpinned. -/
theorem succeeds_completeLoad (keys : List K)
    (h : ∀ k ∈ keys, ∃ block, m.get k = some block ∧ (keys.count k : ℤ) ≤ block.refCnt) :
    Succeeds (fun m' : CPUOffloadingManager K F => (∀ k, m'.get k = (m.get k).map (·.addRefCnt (-(keys.count k : ℤ)))) ∧
      (m.Sound → m'.Sound)) (m.completeLoad keys) := by
  refine ⟨?_, ensures_completeLoad keys⟩
  unfold completeLoad
  induction keys generalizing m with
  | nil => nofun
  | cons key rest ih =>
    obtain ⟨block, hblock, hcount⟩ := h key mem_cons_self
    rw [count_cons_self] at hcount
    have hone : completeLoadOne m key = .ok (m.modify key (·.addRefCnt (-1))) := by
      unfold completeLoadOne
      rw [hblock]
      exact if_pos (by omega)
    rw [foldlM_cons, hone]
    refine ih fun k hk => ?_
    obtain ⟨b, hb, hb'⟩ := h k (mem_cons_of_mem _ hk)
    have hrange := b.inRange
    rw [get_modify]
    by_cases hkey : k = key
    · subst hkey
      rw [if_pos rfl, hb]
      rw [count_cons_self] at hb'
      refine ⟨_, rfl, ?_⟩
      rw [BlockStatus.refCnt_addRefCnt, int32_of_mem (by push_cast at hb'; omega)]
      push_cast at hb'
      omega
    · rw [if_neg hkey]
      rw [count_cons_of_ne (Ne.symm hkey)] at hb'
      exact ⟨b, hb, hb'⟩

theorem completeStore_spec (hm : m.Sound) (keys : List K) (success : Bool) :
    (m.completeStore keys success).Sound ∧
      ∀ k, (m.completeStore keys success).get k = if k ∈ keys then settle success (m.get k) else m.get k := by
  unfold completeStore
  induction keys generalizing m with
  | nil => exact ⟨hm, fun k => by simp⟩
  | cons key rest ih =>
    have hone : (completeStoreOne success m key).Sound ∧
        ∀ k, (completeStoreOne success m key).get k = if k = key then settle success (m.get k) else m.get k := by
      unfold completeStoreOne
      cases hkey : m.get key with
      | none => exact ⟨hm, fun k => by by_cases hk : k = key <;> simp [hk, hkey, settle]⟩
      | some block =>
        dsimp only
        split_ifs with hready hsuccess
        · exact ⟨hm, fun k => by by_cases hk : k = key <;> simp [hk, hkey, settle, hready]⟩
        · exact ⟨hm.modify key _, fun k => by by_cases hk : k = key <;> simp [hk, hkey, settle, hready, hsuccess]⟩
        · refine ⟨⟨hm.policy.remove key, hm.allocated⟩, fun k => (CachePolicy.get_remove hm.policy key k).trans ?_⟩
          by_cases hk : k = key
          · simp [hk, hkey, settle, hready, hsuccess]
          · rw [if_neg hk, if_neg hk]
            rfl
    obtain ⟨hsound, hget⟩ := ih hone.1
    refine ⟨hsound, fun k => ?_⟩
    rw [foldl_cons, hget, hone.2]
    by_cases hk : k = key
    · by_cases hin : k ∈ rest <;> simp [hk]
    · simp [hk]

theorem insertBlocks_spec (hm : m.Sound) (blocks : List (K × ℕ))
    (hnew : ∀ b ∈ blocks, m.policy.Insertable b.1) :
    (m.insertBlocks blocks).Sound ∧ (∀ k ∈ blocks.map Prod.fst, ∃ slot, (k, slot) ∈ blocks ∧
        (m.insertBlocks blocks).get k = some { blockId := slot }) ∧
      ∀ k ∉ blocks.map Prod.fst, (m.insertBlocks blocks).get k = m.get k := by
  suffices hgen : ∀ policy : CachePolicy K F, policy.Sound → (∀ b ∈ blocks, policy.Insertable b.1) →
      (blocks.foldl (fun policy b => policy.insert b.1 { blockId := b.2 }) policy).Sound ∧
        (∀ k ∈ blocks.map Prod.fst, ∃ slot, (k, slot) ∈ blocks ∧
          (blocks.foldl (fun policy b => policy.insert b.1 { blockId := b.2 }) policy).get k =
            some { blockId := slot }) ∧
        ∀ k ∉ blocks.map Prod.fst,
          (blocks.foldl (fun policy b => policy.insert b.1 { blockId := b.2 }) policy).get k = policy.get k by
    obtain ⟨hsound, hin, hout⟩ := hgen m.policy hm.policy hnew
    exact ⟨⟨hsound, hm.allocated⟩, hin, hout⟩
  clear hm hnew
  induction blocks with
  | nil => exact fun policy hp _ => ⟨hp, nofun, fun _ _ => rfl⟩
  | cons b rest ih =>
    intro policy hp hnew
    obtain ⟨hsound, hin, hout⟩ := ih (policy.insert b.1 { blockId := b.2 })
      (hp.insert (hnew b mem_cons_self) _)
      fun c hc => (hnew c (mem_cons_of_mem _ hc)).insert _ _
    refine ⟨hsound, fun k hk => ?_, fun k hk => ?_⟩
    · by_cases hrest : k ∈ rest.map Prod.fst
      · obtain ⟨slot, hslot, hget⟩ := hin k hrest
        exact ⟨slot, mem_cons_of_mem _ hslot, hget⟩
      · have hkey : k = b.1 := (mem_cons.mp hk).resolve_right hrest
        refine ⟨b.2, by rw [hkey]; exact mem_cons_self, ?_⟩
        rw [foldl_cons, hout k hrest, CachePolicy.get_insert, if_pos hkey]
    · rw [map_cons, mem_cons, not_or] at hk
      rw [foldl_cons, hout k hk.2, CachePolicy.get_insert, if_neg hk.1]

omit [DecidableEq K] in
theorem allocateBlocks_spec {slots : List ℕ} (h : m.allocateBlocks n = .ok (slots, m')) :
    slots.length = n ∧ m'.policy = m.policy ∧
      (m.numAllocatedBlocks ≤ m.numBlocks → m'.numAllocatedBlocks ≤ m'.numBlocks) := by
  unfold allocateBlocks at h
  dsimp only at h
  split_ifs at h with hlen
  cases h
  refine ⟨?_, rfl, fun _ => ?_⟩
  · rw [length_append, length_map, length_range, length_take, length_reverse]
    omega
  · dsimp only
    omega

variable [ArcFloat F]

theorem get_touch (hm : m.Sound) (keys : List K) (k : K) : (m.touch keys).get k = m.get k :=
  CachePolicy.get_touch hm.policy keys k

theorem Sound.touch (h : m.Sound) (keys : List K) : (m.touch keys).Sound :=
  ⟨h.policy.touch keys, h.allocated⟩

omit [DecidableEq K] [ArcFloat F] in
theorem foldl_freeBlock (evicted : List (K × BlockStatus)) (m : CPUOffloadingManager K F) :
    evicted.foldl (fun m e => m.freeBlock e.2) m =
      { m with freeList := m.freeList ++ evicted.map (·.2.blockId) } := by
  induction evicted generalizing m with
  | nil => simp
  | cons e rest ih =>
    rw [foldl_cons, ih]
    simp [freeBlock]

theorem makeRoom_cases {guarded toEvict : List K} (h : m.makeRoom n guarded = some (toEvict, m')) :
    (toEvict = [] ∧ m' = m ∧ (n : ℤ) ≤ m.getNumFreeBlocks) ∨ ∃ count taken p,
      m.policy.evict count guarded = some (taken, p) ∧ toEvict = taken.map Prod.fst ∧
      (n : ℤ) = m.getNumFreeBlocks + count ∧
      m' = { m with policy := p, freeList := m.freeList ++ taken.map (·.2.blockId) } := by
  unfold makeRoom at h
  dsimp only at h
  split_ifs at h with hfull
  · split at h
    · cases h
    next taken p hevict =>
      cases h
      exact .inr ⟨_, taken, p, hevict, rfl, by omega, foldl_freeBlock taken _⟩
  · cases h
    exact .inl ⟨rfl, rfl, by omega⟩

theorem makeRoom_spec (hm : m.Sound) {guarded toEvict : List K}
    (h : m.makeRoom n guarded = some (toEvict, m')) :
    m'.Sound ∧ (n : ℤ) ≤ m'.getNumFreeBlocks ∧
      (∀ k ∈ toEvict, k ∉ guarded ∧ ∃ block, m.get k = some block ∧ block.refCnt = 0) ∧
      ∀ k, m'.get k = if k ∈ toEvict then none else m.get k := by
  rcases makeRoom_cases h with ⟨rfl, rfl, hfree⟩ | ⟨count, taken, p, hevict, rfl, hcount, rfl⟩
  · exact ⟨hm, hfree, nofun, fun k => by simp⟩
  obtain ⟨hsound, hspec⟩ := CachePolicy.evict_spec hm.policy hevict
  refine ⟨⟨hsound, hm.allocated⟩, ?_, ?_, hspec.get⟩
  · have hlen := hspec.length
    unfold getNumFreeBlocks at hcount ⊢
    dsimp only
    rw [length_append, length_map]
    omega
  · intro k hk
    obtain ⟨e, he, rfl⟩ := mem_map.mp hk
    exact ⟨hspec.unguarded e he, e.2, hspec.held e he, hspec.free e he⟩

structure Reserved (m m' : CPUOffloadingManager K F) (keys : List K) (out : PrepareStoreOutput K) : Prop where
  keys : out.keysToStore = m.missingKeys keys
  length : out.storeSpec.length = out.keysToStore.length
  stored : ∀ k ∈ out.keysToStore, ∃ slot, (k, slot) ∈ out.keysToStore.zip out.storeSpec ∧
    m'.get k = some { blockId := slot }
  evicted : ∀ k ∈ out.evictedKeys, ∃ block, m.get k = some block ∧ block.refCnt = 0
  other : ∀ k ∉ out.keysToStore, m'.get k = if k ∈ out.evictedKeys then none else m.get k
  sound : m'.Sound

omit [ArcFloat F] in
theorem get_of_mem_missingKeys {k : K} (h : k ∈ m.missingKeys keys) : m.get k = none :=
  Option.isNone_iff_eq_none.mp (mem_filter.mp h).2

omit [ArcFloat F] in
theorem Reserved.new {k : K} (h : Reserved m m' keys out) (hk : k ∈ out.keysToStore) : m.get k = none :=
  get_of_mem_missingKeys (h.keys ▸ hk)

omit [ArcFloat F] in
theorem missingKeys_sublist (m : CPUOffloadingManager K F) (keys : List K) :
    (m.missingKeys keys).Sublist keys := by
  unfold missingKeys storableKeys
  split
  · exact filter_sublist
  · exact filter_sublist.trans filter_sublist

omit [ArcFloat F] in
theorem Reserved.slots (h : Reserved m m' keys out) (hnodup : out.keysToStore.Nodup) :
    SlotsOf m'.get out.keysToStore out.storeSpec := by
  refine forall₂_iff_zip.mpr ⟨h.length.symm, fun {k slot} hzip => ?_⟩
  obtain ⟨slot', hzip', hget⟩ := h.stored k (of_mem_zip hzip).1
  have hfst : ((out.keysToStore.zip out.storeSpec).map Prod.fst).Nodup := by
    rwa [map_fst_zip (by rw [h.length])]
  have hsame : (k, slot') = (k, slot) := inj_on_of_nodup_map hfst hzip' hzip rfl
  rw [hget, (Prod.mk.inj hsame).2]
  rfl

/-- Preparing a store raises nothing, and grants it or not. -/
theorem succeeds_prepareStore (hm : m.Sound) (keys : List K) :
    Succeeds (fun r => ∀ out ∈ r.1, Reserved m r.2 keys out) (m.prepareStore keys) := by
  refine .ite (fun hnone => .ok ?_) fun _ => ?_
  · rintro _ ⟨⟩
    exact ⟨hnone.symm, rfl, nofun, nofun, fun k _ => by simp, hm⟩
  split
  · exact .ok nofun
  next toEvict m₁ hroom =>
    obtain ⟨hsound, hfree, hevicted, hget⟩ := makeRoom_spec hm hroom
    refine .bind ⟨.ite (fun hshort => .error ?_) fun _ => .ok _, fun _ => id⟩ fun (slots, m₂) halloc => .ok ?_
    · have hallocated := hsound.allocated
      unfold getNumFreeBlocks at hfree
      omega
    rintro _ ⟨⟩
    obtain ⟨hlen, hpolicy, hallocated⟩ := allocateBlocks_spec halloc
    have hmissing : ∀ k ∈ m.missingKeys keys, m₂.get k = none := by
      intro k hk
      have hkeep : m₂.get k = m₁.get k := congrArg (fun p => CachePolicy.get p k) hpolicy
      rw [hkeep, hget, get_of_mem_missingKeys hk, ite_self]
    have hfst : ((m.missingKeys keys).zip slots).map Prod.fst = m.missingKeys keys :=
      map_fst_zip (by rw [hlen])
    obtain ⟨hsound₂, hin, hout⟩ := insertBlocks_spec (m := m₂)
      ⟨hpolicy ▸ hsound.policy, hallocated hsound.allocated⟩ ((m.missingKeys keys).zip slots) (by
        intro b hb
        exact CachePolicy.Insertable.of_get_eq_none (hmissing b.1 (hfst ▸ mem_map_of_mem hb)))
    rw [hfst] at hin hout
    exact {
      keys := rfl
      length := hlen
      stored := hin
      evicted := fun k hk => (hevicted k hk).2
      other := fun k hk => by
        have hkeep : m₂.get k = m₁.get k := congrArg (fun p => CachePolicy.get p k) hpolicy
        rw [hout k hk, hkeep, hget]
      sound := hsound₂ }

theorem prepareStore_none (h : m.prepareStore keys = .ok (none, m')) : m' = m := by
  unfold prepareStore at h
  dsimp only at h
  split_ifs at h with hnone
  · cases (ok_mk_inj h).1
  split at h
  · exact (ok_mk_inj h).2.symm
  · obtain ⟨_, _, h⟩ := bind_eq_ok.mp h
    cases (ok_mk_inj h).1

end CPUOffloadingManager

end VllmPs.Offload
