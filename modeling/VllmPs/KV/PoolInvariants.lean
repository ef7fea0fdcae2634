import VllmPs.KV.BlockPool
import VllmPs.Lib.Transition

/-!
# What the pool operations keep

Every operation on reference counts is the corresponding operation of a reference-counted
pool, and leaves the hashes alone; eviction and registration change the hashes and the
prefix-cache index together and leave the counts alone.
-/

namespace VllmPs

open Lib BlockHashToBlockMap CachedBlocks List AList

variable {H : Type}

namespace BlockHashToBlockMap

variable [DecidableEq H]
variable {cache : BlockHashToBlockMap H}

theorem lookup_insertBlock_ne {key key' : BlockKey H} {block : BlockId} (hne : key' ≠ key) :
    (cache.insertBlock key block).lookup key' = cache.lookup key' := by
  unfold insertBlock
  cases cache.lookup key with
  | none => exact lookup_insert_ne hne
  | some cached => cases cached <;> exact lookup_insert_ne hne

theorem lookup_popBlock_ne {key key' : BlockKey H} {block : BlockId} (hne : key' ≠ key) :
    (cache.popBlock key block).2.lookup key' = cache.lookup key' := by
  unfold popBlock
  cases cache.lookup key with
  | none => rfl
  | some cached =>
    cases cached with
    | single other =>
      dsimp only
      split_ifs
      · exact lookup_erase_ne hne
      · rfl
    | many blocks =>
      dsimp only
      split_ifs
      · exact lookup_erase_ne hne
      · exact lookup_insert_ne hne

theorem blocksOf_insertBlock (cache : BlockHashToBlockMap H) (key key' : BlockKey H) (block : BlockId) :
    (cache.insertBlock key block).blocksOf key' =
      if key' = key then
        if block ∈ cache.blocksOf key then cache.blocksOf key else cache.blocksOf key ++ [block]
      else cache.blocksOf key' := by
  rcases eq_or_ne key' key with rfl | hne
  · rw [if_pos rfl]
    unfold insertBlock blocksOf
    cases hlookup : cache.lookup key' with
    | none => simp [lookup_insert, toList]
    | some cached =>
      cases cached with
      | single other =>
        by_cases hsame : other = block
        · simp [lookup_insert, toList, hsame]
        · have hne : block ≠ other := fun h => hsame h.symm
          simp [lookup_insert, toList, hsame, hne]
      | many blocks =>
        by_cases hmem : block ∈ blocks <;>
          simp [lookup_insert, toList, hmem]
  · rw [if_neg hne, blocksOf, lookup_insertBlock_ne hne]
    rfl

theorem popBlock_fst (cache : BlockHashToBlockMap H) (key : BlockKey H) (block : BlockId) :
    (cache.popBlock key block).1 = decide (block ∈ cache.blocksOf key) := by
  unfold popBlock blocksOf
  cases cache.lookup key with
  | none => simp
  | some cached =>
    cases cached with
    | single other =>
      by_cases hsame : other = block
      · simp [toList, hsame]
      · have hne : block ≠ other := fun h => hsame h.symm
        simp [toList, hsame, hne]
    | many blocks => exact decide_eq_decide.mpr Iff.rfl

theorem blocksOf_popBlock (cache : BlockHashToBlockMap H) (key key' : BlockKey H) (block : BlockId) :
    (cache.popBlock key block).2.blocksOf key' =
      if key' = key then (cache.blocksOf key).erase block else cache.blocksOf key' := by
  rcases eq_or_ne key' key with rfl | hne
  · rw [if_pos rfl]
    unfold popBlock blocksOf
    cases hlookup : cache.lookup key' with
    | none => simp [hlookup]
    | some cached =>
      cases cached with
      | single other =>
        by_cases hsame : other = block
        · simp [lookup_erase, toList, hsame]
        · simp [hlookup, toList, hsame]
      | many blocks =>
        by_cases hempty : (blocks.erase block).isEmpty
        · simp only [hempty, if_true, lookup_erase, Option.map_none, Option.getD_none,
            Option.map_some, Option.getD_some, toList]
          exact (isEmpty_iff.mp hempty).symm
        · simp [hempty, lookup_insert, toList]
  · rw [if_neg hne, blocksOf, lookup_popBlock_ne hne]
    rfl

/-- No key maps to an empty dict. -/
def NoEmptyDict (cache : BlockHashToBlockMap H) : Prop :=
  ∀ key, cache.lookup key ≠ some (.many [])

theorem NoEmptyDict.insertBlock (h : cache.NoEmptyDict)
    (key : BlockKey H) (block : BlockId) : (cache.insertBlock key block).NoEmptyDict := by
  intro key'
  rcases eq_or_ne key' key with rfl | hne
  · unfold BlockHashToBlockMap.insertBlock
    cases hlookup : cache.lookup key' with
    | none => simp [lookup_insert]
    | some cached =>
      cases cached with
      | single other => by_cases hsame : other = block <;> simp [lookup_insert, hsame]
      | many blocks =>
        by_cases hmem : block ∈ blocks
        · have := h key'
          rw [hlookup] at this
          simpa [lookup_insert, hmem] using this
        · simp [lookup_insert, hmem]
  · rw [lookup_insertBlock_ne hne]
    exact h key'

theorem NoEmptyDict.popBlock (h : cache.NoEmptyDict)
    (key : BlockKey H) (block : BlockId) : (cache.popBlock key block).2.NoEmptyDict := by
  intro key'
  rcases eq_or_ne key' key with rfl | hne
  · have hold := h key'
    unfold BlockHashToBlockMap.popBlock
    cases hlookup : cache.lookup key' with
    | none => exact hold
    | some cached =>
      cases cached with
      | single other =>
        dsimp only
        split_ifs
        · simp [lookup_erase]
        · exact hold
      | many blocks =>
        dsimp only
        split_ifs with hempty
        · simp [lookup_erase]
        · rw [lookup_insert]
          intro heq
          simp only [Option.some.injEq, many.injEq] at heq
          exact hempty (by rw [heq]; rfl)
  · rw [lookup_popBlock_ne hne]
    exact h key'

end BlockHashToBlockMap

namespace BlockPool

variable {block : BlockId} {blocks : List BlockId} {groupId : ℕ}
variable {hashes : List (List H)} {entries : List (BlockId × Bool)} {blockHashes : List H}
  {mask : Option (List Bool)}

variable (pool : BlockPool H)

def refPool : RefPool BlockId :=
  ⟨fun block => (pool.blocks block).refCnt, pool.freeBlockQueue, pool.numFreeBlocks⟩

def setRefPool (p : RefPool BlockId) : BlockPool H :=
  { pool with
    blocks := fun block => { pool.blocks block with refCnt := p.refCnt block }
    freeBlockQueue := p.free
    numFreeBlocks := p.numFree }

def managed (block : BlockId) : Bool :=
  decide (block ≠ nullBlock ∧ block < pool.numGpuBlocks)

@[simp] theorem refPool_setRefPool (p : RefPool BlockId) : (pool.setRefPool p).refPool = p := rfl

theorem addRef_eq (d : ℤ) (block : BlockId) :
    pool.addRef d block = pool.setRefPool (pool.refPool.bump d block) := by
  have hblocks : Function.update pool.blocks block
        { pool.blocks block with refCnt := (pool.blocks block).refCnt + d } =
      fun b => { pool.blocks b with
        refCnt := Function.update (fun b => (pool.blocks b).refCnt) block
          ((pool.blocks block).refCnt + d) b } := by
    funext b
    rcases eq_or_ne b block with rfl | hne
    · simp
    · simp [hne]
  simp only [addRef, modifyBlock, setRefPool, RefPool.bump, refPool, hblocks]

theorem foldl_addRef_eq (d : ℤ) (blocks : List BlockId) (pool : BlockPool H) : blocks.foldl (addRef · d) pool =
      pool.setRefPool (blocks.foldl (RefPool.bump · d) pool.refPool) := by
  induction blocks generalizing pool with
  | nil => rfl
  | cons block rest ih => rw [foldl_cons, ih, addRef_eq]; rfl

theorem touchBlock_eq {pool pool' : BlockPool H}
    (hlt : block < pool.numGpuBlocks) (h : pool.touchBlock block = .ok pool') :
    pool' = pool.setRefPool (pool.refPool.pin pool.managed block) := by
  unfold touchBlock at h
  have hmanaged : pool.managed block = true ↔ block ≠ nullBlock := by simp [managed, hlt]
  split_ifs at h with hzero hmem
  · cases h
    rw [RefPool.pin, if_pos ⟨hzero.1, hmanaged.mpr hzero.2⟩, addRef_eq]
    rfl
  · cases h
    rw [RefPool.pin, if_neg fun hpin => hzero ⟨hpin.1, hmanaged.mp hpin.2⟩, addRef_eq]

theorem touch_eq {pool pool' : BlockPool H}
    (hlt : ∀ block ∈ blocks, block < pool.numGpuBlocks) (h : pool.touch blocks = .ok pool') :
    pool' = pool.setRefPool (pool.refPool.pinAll pool.managed blocks) := by
  induction blocks generalizing pool with
  | nil =>
    cases h
    rfl
  | cons block rest ih =>
    obtain ⟨middle, hfirst, hrest⟩ := foldlM_cons_eq_ok.mp h
    obtain rfl := touchBlock_eq (hlt block mem_cons_self) hfirst
    have hrest' : (pool.setRefPool (pool.refPool.pin pool.managed block)).touch rest = .ok pool' :=
      hrest
    have hlt' : ∀ b ∈ rest, b < (pool.setRefPool (pool.refPool.pin pool.managed block)).numGpuBlocks :=
      fun b hb => hlt b (mem_cons_of_mem _ hb)
    exact ih hlt' hrest'

theorem freeBlocks_eq (blocks : List BlockId) (prepend : Bool)
    (hlt : ∀ block ∈ blocks, block < pool.numGpuBlocks) :
    pool.freeBlocks blocks prepend = pool.setRefPool (pool.refPool.release pool.managed blocks prepend) := by
  have hfilter : (blocks.filter fun block =>
        decide (((pool.setRefPool (blocks.foldl (RefPool.bump · (-1)) pool.refPool)).blocks
          block).refCnt = 0) && decide (block ≠ nullBlock)) =
      blocks.filter fun block =>
        decide ((blocks.foldl (RefPool.bump · (-1)) pool.refPool).refCnt block = 0) &&
          pool.managed block := by
    refine filter_congr fun block hmem => ?_
    have hmanaged : pool.managed block = decide (block ≠ nullBlock) := by
      simp [managed, hlt block hmem]
    rw [hmanaged]
    rfl
  simp only [freeBlocks, foldl_addRef_eq, hfilter]
  rfl

structure IndexInv [DecidableEq H] (pool : BlockPool H) : Prop where
  mem_iff : ∀ key block,
    (pool.blocks block).blockHash = some key ↔ block ∈ pool.cachedBlockHashToBlock.blocksOf key
  null : (pool.blocks nullBlock).blockHash = none
  nonempty : pool.cachedBlockHashToBlock.NoEmptyDict
  nodup : ∀ key, (pool.cachedBlockHashToBlock.blocksOf key).Nodup
  lt : ∀ block, (pool.blocks block).blockHash.isSome → block < pool.numGpuBlocks

variable [DecidableEq H]

theorem IndexInv.of_empty {pool : BlockPool H} (hnone : ∀ block, (pool.blocks block).blockHash = none)
    (hempty : pool.cachedBlockHashToBlock = ∅) : pool.IndexInv := by
  refine ⟨fun key block => ?_, hnone _, fun key => ?_, fun key => ?_, fun block hsome => ?_⟩
  · simp [hnone, hempty, blocksOf]
  · simp [hempty]
  · simp [hempty, blocksOf]
  · simp [hnone] at hsome

theorem IndexInv.setRefPool {pool : BlockPool H} (h : pool.IndexInv) (p : RefPool BlockId) :
    (pool.setRefPool p).IndexInv :=
  { h with }

variable (pool : BlockPool H)

omit [DecidableEq H] in
theorem refPool_modify_hash (block : BlockId) (key : Option (BlockKey H)) :
    (pool.modifyBlock block fun b => { b with blockHash := key }).refPool = pool.refPool := by
  have hcounts : (fun b => (Function.update pool.blocks block
        { pool.blocks block with blockHash := key } b).refCnt) =
      fun b => (pool.blocks b).refCnt := by
    funext b
    rcases eq_or_ne b block with rfl | hne
    · simp
    · simp [hne]
  simp only [modifyBlock, refPool, hcounts]

omit [DecidableEq H] in
theorem blockHash_modify_hash (block b : BlockId) (key : Option (BlockKey H)) :
    ((pool.modifyBlock block fun b => { b with blockHash := key }).blocks b).blockHash =
      if b = block then key else (pool.blocks b).blockHash := by
  rcases eq_or_ne b block with rfl | hne
  · simp [modifyBlock]
  · simp [modifyBlock, hne]

theorem maybeEvictCachedBlock_frame (block : BlockId) :
    (pool.maybeEvictCachedBlock block).refPool = pool.refPool ∧
      (pool.maybeEvictCachedBlock block).numGpuBlocks = pool.numGpuBlocks ∧
      (pool.maybeEvictCachedBlock block).enableCaching = pool.enableCaching ∧
      (pool.maybeEvictCachedBlock block).hashBlockSize = pool.hashBlockSize := by
  unfold maybeEvictCachedBlock
  cases (pool.blocks block).blockHash with
  | none => exact ⟨rfl, rfl, rfl, rfl⟩
  | some key =>
    dsimp only
    split_ifs
    · exact ⟨refPool_modify_hash _ _ _, rfl, rfl, rfl⟩
    · exact ⟨rfl, rfl, rfl, rfl⟩

theorem IndexInv.blockHash_evict {pool : BlockPool H} (h : pool.IndexInv) (block b : BlockId) :
    ((pool.maybeEvictCachedBlock block).blocks b).blockHash =
      if b = block then none else (pool.blocks b).blockHash := by
  unfold maybeEvictCachedBlock
  cases hhash : (pool.blocks block).blockHash with
  | none =>
    rcases eq_or_ne b block with rfl | hne
    · rw [if_pos rfl, hhash]
    · rw [if_neg hne]
  | some key =>
    have hfound : (pool.cachedBlockHashToBlock.popBlock key block).1 = true := by
      rw [popBlock_fst]
      exact decide_eq_true ((h.mem_iff key block).mp hhash)
    dsimp only
    rw [if_pos hfound, blockHash_modify_hash]

theorem IndexInv.evict {pool : BlockPool H} (h : pool.IndexInv) (block : BlockId) :
    (pool.maybeEvictCachedBlock block).IndexInv := by
  have hhashes := h.blockHash_evict block
  obtain ⟨-, hnum, -, -⟩ := maybeEvictCachedBlock_frame pool block
  cases hhash : (pool.blocks block).blockHash with
  | none =>
    have hsame : pool.maybeEvictCachedBlock block = pool := by simp [maybeEvictCachedBlock, hhash]
    rwa [hsame]
  | some key =>
    have hcached : (pool.maybeEvictCachedBlock block).cachedBlockHashToBlock =
        (pool.cachedBlockHashToBlock.popBlock key block).2 := by
      simp only [maybeEvictCachedBlock, hhash]
      split_ifs <;> rfl
    refine ⟨fun key' b => ?_, ?_, ?_, fun key' => ?_, fun b hb => ?_⟩
    · rw [hhashes, hcached, blocksOf_popBlock]
      rcases eq_or_ne key' key with rfl | hkey
      · rw [if_pos rfl, (h.nodup key').mem_erase_iff, ← h.mem_iff]
        rcases eq_or_ne b block with rfl | hne
        · simp
        · simp [hne]
      rw [if_neg hkey, ← h.mem_iff]
      rcases eq_or_ne b block with rfl | hne
      · rw [if_pos rfl, hhash]
        simp [Ne.symm hkey]
      · rw [if_neg hne]
    · rw [hhashes, h.null, ite_self]
    · rw [hcached]
      exact h.nonempty.popBlock key block
    · rw [hcached, blocksOf_popBlock]
      split_ifs
      · exact (h.nodup key).erase block
      · exact h.nodup key'
    rw [hhashes] at hb
    rw [hnum]
    split_ifs at hb with heq
    · simp at hb
    · exact h.lt b hb

theorem IndexInv.cacheBlock {pool : BlockPool H} (h : pool.IndexInv) (key : BlockKey H) (hnull : block ≠ nullBlock)
    (hlt : block < pool.numGpuBlocks) : Ensures IndexInv (pool.cacheBlock key block) := by
  refine .ite (fun _ => .error) fun hhashed => .ok ?_
  have hnone : (pool.blocks block).blockHash = none := by
    simpa using hhashed
  refine ⟨fun key' b => ?_, ?_, h.nonempty.insertBlock key block, fun key' => ?_, fun b hb => ?_⟩
  · rw [blockHash_modify_hash]
    change _ ↔ b ∈ (pool.cachedBlockHashToBlock.insertBlock key block).blocksOf key'
    have hfresh (k : BlockKey H) : block ∉ pool.cachedBlockHashToBlock.blocksOf k := by
      rw [← h.mem_iff, hnone]
      simp
    rw [blocksOf_insertBlock, if_neg (hfresh key)]
    rcases eq_or_ne b block with rfl | hne
    · rcases eq_or_ne key' key with rfl | hkey
      · simp
      · simp [hkey, Ne.symm hkey, hfresh]
    rw [if_neg hne, h.mem_iff]
    split_ifs with hkey
    · rw [hkey, mem_append, mem_singleton]
      simp [hne]
    · rfl
  · rw [blockHash_modify_hash, if_neg (Ne.symm hnull)]
    exact h.null
  · change ((pool.cachedBlockHashToBlock.insertBlock key block).blocksOf key').Nodup
    have hfresh : block ∉ pool.cachedBlockHashToBlock.blocksOf key := by
      rw [← h.mem_iff, hnone]
      simp
    rw [blocksOf_insertBlock, if_neg hfresh]
    split_ifs
    · exact nodup_append.mpr ⟨h.nodup key, nodup_singleton _, fun a ha b hb hab =>
        hfresh (by rw [← mem_singleton.mp hb, ← hab]; exact ha)⟩
    · exact h.nodup key'
  rw [blockHash_modify_hash] at hb
  split_ifs at hb with heq
  · rwa [heq]
  · exact h.lt b hb

/-- The parts of a pool that no operation changes. -/
structure SameConfig (pool pool' : BlockPool H) : Prop where
  numGpuBlocks : pool'.numGpuBlocks = pool.numGpuBlocks
  enableCaching : pool'.enableCaching = pool.enableCaching
  hashBlockSize : pool'.hashBlockSize = pool.hashBlockSize

omit [DecidableEq H] in
theorem SameConfig.refl : SameConfig pool pool := ⟨rfl, rfl, rfl⟩

omit [DecidableEq H] in
theorem SameConfig.trans {pool pool' pool'' : BlockPool H} (h : SameConfig pool pool')
    (h' : SameConfig pool' pool'') : SameConfig pool pool'' :=
  ⟨h'.numGpuBlocks.trans h.numGpuBlocks, h'.enableCaching.trans h.enableCaching,
    h'.hashBlockSize.trans h.hashBlockSize⟩

omit [DecidableEq H] in
theorem SameConfig.managed {pool pool' : BlockPool H} (h : SameConfig pool pool') :
    pool'.managed = pool.managed := by
  funext block
  simp only [BlockPool.managed, h.numGpuBlocks]

structure PoolInv (counted : Prop) (pool : BlockPool H) (occ : BlockId → ℕ) : Prop where
  balanced : pool.refPool.Balanced counted pool.managed occ
  index : pool.IndexInv
  off : pool.enableCaching = false → ∀ block, (pool.blocks block).blockHash = none

variable {counted : Prop} {pool pool' : BlockPool H} {occ occ' : BlockId → ℕ}

section

variable (h : PoolInv counted pool occ)
include h

theorem PoolInv.setRefPool {p : RefPool BlockId}
    (hp : p.Balanced counted pool.managed occ') : PoolInv counted (pool.setRefPool p) occ' :=
  ⟨hp, h.index.setRefPool p, h.off⟩

theorem PoolInv.congr
    (hocc : ∀ block, pool.managed block = true → occ' block = occ block) : PoolInv counted pool occ' :=
  ⟨h.balanced.congr hocc, h.index, h.off⟩

theorem PoolInv.touch (hlt : ∀ block ∈ blocks, block < pool.numGpuBlocks)
    (hocc : ∀ block, pool.managed block = true → occ' block = occ block + blocks.count block)
    (hstep : pool.touch blocks = .ok pool') :
    PoolInv counted pool' occ' ∧ SameConfig pool pool' ∧
      ∀ block, (pool'.blocks block).blockHash = (pool.blocks block).blockHash := by
  obtain rfl := touch_eq hlt hstep
  exact ⟨h.setRefPool (h.balanced.pinAll blocks hocc), ⟨rfl, rfl, rfl⟩, fun _ => rfl⟩

theorem PoolInv.freeBlocks (prepend : Bool) (hlt : ∀ block ∈ blocks, block < pool.numGpuBlocks)
    (hdistinct : ∀ block, block ≠ nullBlock → blocks.count block ≤ 1)
    (hocc : ∀ block, pool.managed block = true → occ block = occ' block + blocks.count block) :
    PoolInv counted (pool.freeBlocks blocks prepend) occ' ∧ SameConfig pool (pool.freeBlocks blocks prepend) ∧
      ∀ block, ((pool.freeBlocks blocks prepend).blocks block).blockHash = (pool.blocks block).blockHash := by
  have hnodup : (blocks.filter pool.managed).Nodup := by
    refine nodup_iff_count_le_one.mpr fun block => ?_
    by_cases hmanaged : pool.managed block = true
    · rw [count_filter hmanaged]
      exact hdistinct block (of_decide_eq_true hmanaged).1
    · rw [count_eq_zero_of_not_mem fun hmem => hmanaged (mem_filter.mp hmem).2]
      exact Nat.zero_le 1
  rw [freeBlocks_eq pool blocks prepend hlt]
  exact ⟨h.setRefPool (h.balanced.release blocks prepend hnodup hocc), ⟨rfl, rfl, rfl⟩, fun _ => rfl⟩

theorem PoolInv.evict (block : BlockId) : PoolInv counted (pool.maybeEvictCachedBlock block) occ ∧
      SameConfig pool (pool.maybeEvictCachedBlock block) := by
  obtain ⟨href, hnum, hcaching, hsize⟩ := maybeEvictCachedBlock_frame pool block
  have hconfig : SameConfig pool (pool.maybeEvictCachedBlock block) := ⟨hnum, hcaching, hsize⟩
  refine ⟨⟨?_, h.index.evict block, fun hoff b => ?_⟩, hconfig⟩
  · rw [href, hconfig.managed]
    exact h.balanced
  · rw [h.index.blockHash_evict, h.off (hcaching ▸ hoff) b, ite_self]

end

section

variable (hindex : pool.IndexInv) (hoff : pool.enableCaching = false → ∀ b, (pool.blocks b).blockHash = none)
include hindex hoff

theorem takeBlock_spec :
    Ensures (fun pool' => pool'.refPool = pool.refPool.bump 1 block ∧ pool'.IndexInv ∧ SameConfig pool pool' ∧
      ∀ b, (pool'.blocks b).blockHash = if b = block then none else (pool.blocks b).blockHash)
      (pool.takeBlock block) := by
  refine .ite (fun _ => .error) fun _ => .ok ?_
  rw [addRef_eq]
  cases hcaching : pool.enableCaching with
  | false =>
    refine ⟨rfl, hindex.setRefPool _, ⟨rfl, rfl, rfl⟩, fun b => ?_⟩
    change (pool.blocks b).blockHash = _
    rw [hoff hcaching b, ite_self]
  | true =>
    obtain ⟨href, hnum, hcaching', hsize⟩ := maybeEvictCachedBlock_frame pool block
    refine ⟨?_, (hindex.evict block).setRefPool _, ⟨hnum, hcaching', hsize⟩, fun b => ?_⟩
    · rw [refPool_setRefPool]
      exact congrArg (RefPool.bump · 1 block) href
    · exact hindex.blockHash_evict block b

theorem foldlM_takeBlock_spec (hstep : blocks.foldlM takeBlock pool = .ok pool') :
    pool'.refPool = blocks.foldl (RefPool.bump · 1) pool.refPool ∧ pool'.IndexInv ∧ SameConfig pool pool' ∧
      ∀ b, (pool'.blocks b).blockHash = if b ∈ blocks then none else (pool.blocks b).blockHash := by
  induction blocks generalizing pool with
  | nil =>
    cases hstep
    exact ⟨rfl, hindex, .refl _, fun b => by simp⟩
  | cons block rest ih =>
    obtain ⟨middle, hfirst, hrest⟩ := foldlM_cons_eq_ok.mp hstep
    obtain ⟨href, hindex', hconfig, hhash⟩ := takeBlock_spec hindex hoff hfirst
    obtain ⟨href', hindex'', hconfig', hhash'⟩ := ih hindex' (fun hcaching b => by
        rw [hhash, hoff (hconfig.enableCaching ▸ hcaching) b, ite_self]) hrest
    refine ⟨by rw [href', href]; rfl, hindex'', hconfig.trans hconfig', fun b => ?_⟩
    rw [hhash', hhash]
    by_cases hmem : b ∈ rest
    · simp [hmem]
    · by_cases heq : b = block <;> simp [hmem, heq]

end

section

variable (h : PoolInv counted pool occ)
include h

/-- New blocks come off the front of the free queue, unhashed and with one reference each. -/
theorem PoolInv.getNewBlocks {numBlocks : ℤ}
    (hnonneg : counted → 0 ≤ numBlocks) (hstep : pool.getNewBlocks numBlocks = .ok (pool', blocks))
    (hocc : ∀ block, pool.managed block = true → occ' block = occ block + blocks.count block) :
    PoolInv counted pool' occ' ∧ SameConfig pool pool' ∧ blocks.Nodup ∧
      (∀ block ∈ blocks, pool.managed block = true ∧ occ block = 0) ∧
      ∀ block, (pool'.blocks block).blockHash =
        if block ∈ blocks then none else (pool.blocks block).blockHash := by
  unfold BlockPool.getNewBlocks at hstep
  split_ifs at hstep with hfree hlength
  obtain ⟨pool'', hfold, hret⟩ := bind_pure_eq_ok.mp hstep
  obtain ⟨rfl, rfl⟩ := Prod.mk.inj hret
  rw [not_lt] at hlength
  set n := numBlocks.toNat with hn
  set popped : BlockPool H := pool.setRefPool { pool.refPool with
      free := pool.freeBlockQueue.drop n
      numFree := pool.numFreeBlocks - numBlocks } with hpopped
  have hpoppedIndex : popped.IndexInv := h.index.setRefPool _
  have hpoppedConfig : SameConfig pool popped := ⟨rfl, rfl, rfl⟩
  obtain ⟨href, hindex, hconfig, hhash⟩ := foldlM_takeBlock_spec hpoppedIndex h.off hfold
  have hconfig' : SameConfig pool pool'' := hpoppedConfig.trans hconfig
  have hmem : ∀ block ∈ pool.freeBlockQueue.take n, pool.managed block = true ∧ occ block = 0 :=
    fun block hblock => (h.balanced.mem_free block).mp (mem_of_mem_take hblock)
  refine ⟨⟨?_, hindex, fun hoff b => ?_⟩, hconfig', h.balanced.nodup.sublist (take_sublist _ _),
    hmem, hhash⟩
  · rw [hconfig'.managed, href]
    refine h.balanced.acquire n numBlocks (fun hcounted => ?_) hocc
    have := hnonneg hcounted
    change numBlocks = n ∧ n ≤ pool.freeBlockQueue.length
    omega
  · rw [hhash]
    split_ifs
    · rfl
    · exact h.off (hconfig'.enableCaching ▸ hoff) b

theorem PoolInv.evictBlocks {blockIds : List BlockId} (hstep : pool.evictBlocks blockIds = .ok pool') :
    PoolInv counted pool' occ ∧ SameConfig pool pool' ∧ ∀ block, (pool'.blocks block).blockHash = none ∨
        (pool'.blocks block).blockHash = (pool.blocks block).blockHash := by
  refine foldlM_invariant (P := fun pool' => PoolInv counted pool' occ ∧ SameConfig pool pool' ∧
    ∀ block, (pool'.blocks block).blockHash = none ∨
      (pool'.blocks block).blockHash = (pool.blocks block).blockHash) blockIds ?_
    ⟨h, .refl _, fun _ => Or.inr rfl⟩ hstep
  rintro middle block after - ⟨hinv, hconfig, hhash⟩ hevict
  split_ifs at hevict
  cases hevict
  obtain ⟨hinv', hconfig'⟩ := hinv.evict block
  refine ⟨hinv', hconfig.trans hconfig', fun b => ?_⟩
  rw [hinv.index.blockHash_evict]
  split_ifs
  · exact Or.inl rfl
  · exact hhash b

theorem PoolInv.resetPrefixCache :
    PoolInv counted pool.resetPrefixCache.1 occ ∧ SameConfig pool pool.resetPrefixCache.1 ∧
      ∀ block, (pool.resetPrefixCache.1.blocks block).blockHash = none ∨
        (pool.resetPrefixCache.1.blocks block).blockHash = (pool.blocks block).blockHash := by
  unfold BlockPool.resetPrefixCache
  split_ifs
  · exact ⟨h, .refl _, fun _ => Or.inr rfl⟩
  · exact ⟨⟨h.balanced, .of_empty (fun _ => rfl) rfl, fun _ _ => rfl⟩, ⟨rfl, rfl, rfl⟩, fun _ => Or.inl rfl⟩

section

variable (hon : pool.enableCaching = true)
include hon

theorem PoolInv.cacheBlock {key : BlockKey H} (hnull : block ≠ nullBlock)
    (hlt : block < pool.numGpuBlocks) : Ensures (fun pool' => PoolInv counted pool' occ ∧ SameConfig pool pool' ∧
      ∀ b, b ≠ block → (pool'.blocks b).blockHash = (pool.blocks b).blockHash) (pool.cacheBlock key block) := by
  refine .ite (fun _ => .error) fun hnone => .ok ⟨⟨?_, h.index.cacheBlock key hnull hlt (if_neg hnone),
    fun hoff => ?_⟩, ⟨rfl, rfl, rfl⟩, fun b hne => ?_⟩
  · rw [refPool_modify_hash]
    exact h.balanced
  · exact absurd hon (by rw [show pool.enableCaching = false from hoff]; decide)
  · rw [blockHash_modify_hash, if_neg hne]

theorem PoolInv.cacheLoop {i : ℕ} (hlt : ∀ e ∈ entries, e.1 < pool.numGpuBlocks) :
    Ensures (fun pool' => PoolInv counted pool' occ ∧ SameConfig pool pool' ∧
      ∀ b, (∀ e ∈ entries, e.1 = b → b = nullBlock ∨ e.2 = false) →
        (pool'.blocks b).blockHash = (pool.blocks b).blockHash)
      (BlockPool.cacheLoop hashes groupId i entries pool) := by
  induction entries generalizing pool i with
  | nil => exact .ok ⟨h, .refl _, fun _ _ => rfl⟩
  | cons entry rest ih =>
    obtain ⟨block, reachable⟩ := entry
    have hrest : ∀ e ∈ rest, e.1 < pool.numGpuBlocks := fun e he => hlt e (mem_cons_of_mem _ he)
    refine .ite (fun _ pool' hloop => ?_) fun hskip => ?_
    · obtain ⟨hinv, hconfig, hhash⟩ := ih h hon hrest hloop
      exact ⟨hinv, hconfig, fun b hb => hhash b fun e he => hb e (mem_cons_of_mem _ he)⟩
    rw [not_or] at hskip
    cases hashes[i]? with
    | none => exact .ite (fun _ => .error) fun _ => .error
    | some hash =>
      refine .bind fun middle hfirst pool' hloop => ?_
      obtain ⟨hinv, hconfig, hhash⟩ := h.cacheBlock hon hskip.1 (hlt _ mem_cons_self) hfirst
      obtain ⟨hinv', hconfig', hhash'⟩ := ih hinv (hconfig.enableCaching ▸ hon)
        (fun e he => hconfig.numGpuBlocks ▸ hrest e he) hloop
      refine ⟨hinv', hconfig.trans hconfig', fun b hb => ?_⟩
      rw [hhash' b fun e he => hb e (mem_cons_of_mem _ he), hhash b]
      rintro rfl
      exact (hb _ mem_cons_self rfl).elim hskip.1 hskip.2

theorem PoolInv.cacheFullBlocks
    {numCached numFull blockSize : ℕ} (hlt : ∀ block ∈ blocks, block < pool.numGpuBlocks)
    (hstep : pool.cacheFullBlocks blockHashes blocks numCached numFull blockSize groupId mask = .ok pool') :
    PoolInv counted pool' occ ∧ SameConfig pool pool' ∧ ∀ b, b ∉ (blocks.take numFull).drop numCached →
        (pool'.blocks b).blockHash = (pool.blocks b).blockHash := by
  unfold BlockPool.cacheFullBlocks at hstep
  simp only [bind, Except.bind, pure, Except.pure, throw, throwThe, MonadExceptOf.throw] at hstep
  split_ifs at hstep
  · cases hstep
    exact ⟨h, .refl _, fun _ _ => rfl⟩
  have hentries : ∀ e ∈ ((blocks.take numFull).drop numCached).zip
      (mask.getD (List.replicate ((blocks.take numFull).drop numCached).length true)),
      e.1 ∈ (blocks.take numFull).drop numCached := fun e he => (of_mem_zip he).1
  obtain ⟨hinv, hconfig, hhash⟩ := h.cacheLoop hon
    (fun e he => hlt e.1 (mem_of_mem_take (mem_of_mem_drop (hentries e he)))) hstep
  refine ⟨hinv, hconfig, fun b hb => hhash b fun e he heq => ?_⟩
  exact absurd (heq ▸ hentries e he) hb

end

end

theorem cacheLoop_raises {i : ℕ}
    (hentries : ∀ block, block ≠ nullBlock → (entries.map Prod.fst).count block ≤ 1 ∧
      (block ∈ entries.map Prod.fst → (pool.blocks block).blockHash = none)) :
    NeverRaises .blockAlreadyHashed (BlockPool.cacheLoop hashes groupId i entries pool) := by
  induction entries generalizing pool i with
  | nil => exact .ok _
  | cons entry rest ih =>
    obtain ⟨block, reachable⟩ := entry
    have hrest (b : BlockId) (hb : b ≠ nullBlock) : (rest.map Prod.fst).count b ≤ 1 ∧
        (b ∈ rest.map Prod.fst → (pool.blocks b).blockHash = none) :=
      ⟨((sublist_cons_self _ _).count_le b).trans (hentries b hb).1,
        fun hmem => (hentries b hb).2 (mem_cons_of_mem _ hmem)⟩
    refine .ite (fun _ => ih hrest) fun hskip => ?_
    rw [not_or] at hskip
    obtain ⟨hone, hnone⟩ := hentries block hskip.1
    have hunhashed := hnone mem_cons_self
    cases hashes[i]? with
    | none => simp [hunhashed, OnlyRaises]
    | some hash =>
      simp only [BlockPool.cacheBlock, hunhashed, Option.isSome_none, Bool.false_eq_true, if_false]
      refine ih fun b hb => ⟨(hrest b hb).1, fun hmem => ?_⟩
      rw [blockHash_modify_hash]
      split_ifs with heq
      · -- the block just registered does not occur again
        subst heq
        rw [map_cons, count_cons_self] at hone
        have := count_pos_iff.mpr hmem
        omega
      · exact (hrest b hb).2 hmem

/-- `cache_full_blocks` on distinct blocks without a hash never meets a block with a hash. -/
theorem cacheFullBlocks_raises {numCached numFull blockSize : ℕ}
    (hblocks : ∀ block, block ≠ nullBlock → (blocks.drop numCached).count block ≤ 1 ∧
      (block ∈ blocks.drop numCached → (pool.blocks block).blockHash = none)) :
    NeverRaises .blockAlreadyHashed
      (pool.cacheFullBlocks blockHashes blocks numCached numFull blockSize groupId mask) := by
  unfold BlockPool.cacheFullBlocks
  simp only [bind, Except.bind, pure, Except.pure, throw, throwThe, MonadExceptOf.throw]
  split_ifs with hdone hshort hmask hsize
  · exact .ok _
  · exact .error nofun
  · exact .error nofun
  · exact .error nofun
  have hsub : ((blocks.take numFull).drop numCached).Sublist (blocks.drop numCached) :=
    (take_sublist _ _).drop _
  have hlength : ((blocks.take numFull).drop numCached).length =
      (mask.getD (List.replicate ((blocks.take numFull).drop numCached).length true)).length := by
    cases mask with
    | none => simp
    | some entries =>
      have hmask : entries.length = ((blocks.take numFull).drop numCached).length := by
        simpa using hmask
      exact hmask.symm
  refine cacheLoop_raises fun block hnull => ?_
  rw [map_fst_zip hlength.le]
  exact ⟨(hsub.count_le block).trans (hblocks block hnull).1,
    fun hmem => (hblocks block hnull).2 (hsub.subset hmem)⟩

end BlockPool

end VllmPs
