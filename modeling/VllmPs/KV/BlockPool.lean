import VllmPs.Lib.RefPool
import VllmPs.Lib.Table
import VllmPs.Request.Basic

/-!
# The block pool

Blocks are objects under their ids; the free queue is the list of ids in eviction order
with the queue's own counter. Block 0 is the null block: popped when the pool is built,
the only one with `is_null`, its reference count not maintained.
-/

namespace VllmPs

open Lib

variable {H : Type}

abbrev BlockId := ℕ

structure BlockKey (H : Type) where
  hashes : List H
  groupId : ℕ
deriving DecidableEq

structure KVCacheBlock (H : Type) where
  refCnt : ℤ := 0
  blockHash : Option (BlockKey H) := none
deriving DecidableEq

/-- What the prefix-cache index stores under one key: a block, or a dict of blocks in the order of
their insertion. -/
inductive CachedBlocks
  | single (block : BlockId)
  | many (blocks : List BlockId)
deriving DecidableEq

/-- The blocks stored under one key. -/
def CachedBlocks.toList : CachedBlocks → List BlockId
  | .single block => [block]
  | .many blocks => blocks

abbrev BlockHashToBlockMap (H : Type) := Table (BlockKey H) CachedBlocks

namespace BlockHashToBlockMap

variable [DecidableEq H]
variable (cache : BlockHashToBlockMap H)
variable (key : BlockKey H)

/-- The blocks a key maps to. -/
def blocksOf : List BlockId :=
  ((cache.lookup key).map CachedBlocks.toList).getD []

/-- `get_one_block` -/
def getOneBlock : Option BlockId :=
  match cache.lookup key with
  | none => none
  | some (.single block) => some block
  | some (.many blocks) => blocks.head?

/-- `insert`; a dict keeps the position of an id it already has. -/
def insertBlock (block : BlockId) : BlockHashToBlockMap H :=
  match cache.lookup key with
  | none => cache.insert key (.single block)
  | some (.single other) =>
    cache.insert key (.many (if other = block then [block] else [other, block]))
  | some (.many blocks) =>
    cache.insert key (.many (if block ∈ blocks then blocks else blocks ++ [block]))

/-- `pop`: whether the block was found, and the index without it. -/
def popBlock (block : BlockId) : Bool × BlockHashToBlockMap H :=
  match cache.lookup key with
  | none => (false, cache)
  | some (.single other) => if other = block then (true, cache.erase key) else (false, cache)
  | some (.many blocks) =>
    (block ∈ blocks,
      if (blocks.erase block).isEmpty then cache.erase key
      else cache.insert key (.many (blocks.erase block)))

end BlockHashToBlockMap

structure BlockPool (H : Type) where
  numGpuBlocks : ℕ
  enableCaching : Bool
  hashBlockSize : ℕ
  blocks : BlockId → KVCacheBlock H
  freeBlockQueue : List BlockId
  numFreeBlocks : ℤ
  cachedBlockHashToBlock : BlockHashToBlockMap H

/-- The null block, the first one taken from the free queue. -/
def nullBlock : BlockId := 0

namespace BlockPool

/-- `BlockPool.__init__` -/
def new (numGpuBlocks : ℕ) (enableCaching : Bool) (hashBlockSize : ℕ) : BlockPool H where
  numGpuBlocks := numGpuBlocks
  enableCaching := enableCaching
  hashBlockSize := hashBlockSize
  blocks := fun _ => {}
  freeBlockQueue := List.range' 1 (numGpuBlocks - 1)
  numFreeBlocks := (numGpuBlocks : ℤ) - 1
  cachedBlockHashToBlock := ∅

variable (pool : BlockPool H)

/-- Change one block object. -/
def modifyBlock (block : BlockId) (f : KVCacheBlock H → KVCacheBlock H) : BlockPool H :=
  { pool with blocks := Function.update pool.blocks block (f (pool.blocks block)) }

/-- Add `d` to the reference count of one block. -/
def addRef (d : ℤ) (block : BlockId) : BlockPool H :=
  pool.modifyBlock block fun b => { b with refCnt := b.refCnt + d }

/-- `touch` on one block. -/
def touchBlock (block : BlockId) : Except PyError (BlockPool H) :=
  if (pool.blocks block).refCnt = 0 ∧ block ≠ nullBlock then
    if block ∈ pool.freeBlockQueue then
      .ok ({ pool with
        freeBlockQueue := pool.freeBlockQueue.erase block
        numFreeBlocks := pool.numFreeBlocks - 1 }.addRef 1 block)
    else .error .runtimeError
  else .ok (pool.addRef 1 block)

/-- `touch` -/
def touch (blocks : List BlockId) : Except PyError (BlockPool H) :=
  blocks.foldlM touchBlock pool

/-- `free_blocks` -/
def freeBlocks (orderedBlocks : List BlockId) (prepend : Bool) : BlockPool H :=
  let pool' := orderedBlocks.foldl (addRef · (-1)) pool
  let freedBlocks := orderedBlocks.filter fun block =>
    decide ((pool'.blocks block).refCnt = 0) && decide (block ≠ nullBlock)
  { pool' with
    freeBlockQueue :=
      if prepend then freedBlocks ++ pool'.freeBlockQueue else pool'.freeBlockQueue ++ freedBlocks
    numFreeBlocks := pool'.numFreeBlocks + freedBlocks.length }

/-- `reset_prefix_cache` -/
def resetPrefixCache : BlockPool H × Bool :=
  if (pool.numGpuBlocks : ℤ) - pool.numFreeBlocks ≠ 1 then (pool, false)
  else
    ({ pool with
        cachedBlockHashToBlock := ∅
        blocks := fun block => { pool.blocks block with blockHash := none } }, true)

/-- The hashes of a request at the granularity of a group's blocks: one hash each, or the
concatenation of consecutive hashes (`BlockHashListWithBlockSize`). -/
def groupHashes (hashBlockSize blockSize : ℕ) (blockHashes : List H) : List (List H) :=
  if blockSize = hashBlockSize then blockHashes.map fun h => [h]
  else
    let scaleFactor := blockSize / hashBlockSize
    (List.range (blockHashes.length / scaleFactor)).map fun i =>
      (blockHashes.drop (i * scaleFactor)).take scaleFactor

variable [DecidableEq H]
variable (pool : BlockPool H)

/-- `get_cached_block`: the block cached under the hash in every group, or none. -/
def getCachedBlock (hashes : List H) (kvCacheGroupIds : List ℕ) : Option (List BlockId) :=
  kvCacheGroupIds.mapM fun groupId => pool.cachedBlockHashToBlock.getOneBlock ⟨hashes, groupId⟩

/-- `_maybe_evict_cached_block` -/
def maybeEvictCachedBlock (block : BlockId) : BlockPool H :=
  match (pool.blocks block).blockHash with
  | none => pool
  | some key =>
    let popped := pool.cachedBlockHashToBlock.popBlock key block
    let pool' := { pool with cachedBlockHashToBlock := popped.2 }
    if popped.1 then pool'.modifyBlock block fun b => { b with blockHash := none } else pool'

/-- Hand one popped block out: evict it from the prefix cache and give it its first reference. -/
def takeBlock (block : BlockId) : Except PyError (BlockPool H) :=
  let pool' := if pool.enableCaching then pool.maybeEvictCachedBlock block else pool
  if (pool'.blocks block).refCnt ≠ 0 then .error .assertionError else .ok (pool'.addRef 1 block)

/-- `get_new_blocks`. A negative number moves the queue's counter and pops nothing; a number above
the length of the queue would walk off its end. -/
def getNewBlocks (numBlocks : ℤ) : Except PyError (BlockPool H × List BlockId) :=
  if numBlocks > pool.numFreeBlocks then .error .valueError
  else if pool.freeBlockQueue.length < numBlocks then .error .runtimeError
  else do
    let ret := pool.freeBlockQueue.take numBlocks.toNat
    let popped := { pool with
      freeBlockQueue := pool.freeBlockQueue.drop numBlocks.toNat
      numFreeBlocks := pool.numFreeBlocks - numBlocks }
    let pool' ← ret.foldlM takeBlock popped
    return (pool', ret)

/-- `evict_blocks` -/
def evictBlocks (blockIds : List BlockId) : Except PyError (BlockPool H) :=
  blockIds.foldlM (fun pool block =>
    if block < pool.numGpuBlocks then .ok (pool.maybeEvictCachedBlock block)
    else .error .assertionError) pool

/-- Register one full block under its key. -/
def cacheBlock (key : BlockKey H) (block : BlockId) : Except PyError (BlockPool H) :=
  if (pool.blocks block).blockHash.isSome then .error .blockAlreadyHashed
  else
    .ok ({ pool with
      cachedBlockHashToBlock := pool.cachedBlockHashToBlock.insertBlock key block }.modifyBlock block
        fun b => { b with blockHash := some key })

/-- The loop of `cache_full_blocks`: block `i` of the request with its entry of the mask. -/
def cacheLoop (hashes : List (List H)) (groupId : ℕ) :
    ℕ → List (BlockId × Bool) → BlockPool H → Except PyError (BlockPool H)
  | _, [], pool => .ok pool
  | i, (block, reachable) :: rest, pool =>
    if block = nullBlock ∨ reachable = false then cacheLoop hashes groupId (i + 1) rest pool
    else
      match hashes[i]? with
      | none =>
        if (pool.blocks block).blockHash.isSome then .error .blockAlreadyHashed
        else .error .indexError
      | some hash => do
        let pool' ← pool.cacheBlock ⟨hash, groupId⟩ block
        cacheLoop hashes groupId (i + 1) rest pool'

/-- `cache_full_blocks` on the hashes of the request. -/
def cacheFullBlocks (blockHashes : List H) (blocks : List BlockId)
    (numCachedBlocks numFullBlocks : ℕ) (blockSize groupId : ℕ) (blockMask : Option (List Bool)) :
    Except PyError (BlockPool H) := do
  if numCachedBlocks ≥ numFullBlocks then return pool
  let newFullBlocks := (blocks.take numFullBlocks).drop numCachedBlocks
  if blockHashes.length < numFullBlocks then throw .assertionError
  if blockMask.any (·.length ≠ newFullBlocks.length) then throw .assertionError
  if blockSize ≠ pool.hashBlockSize ∧ blockSize % pool.hashBlockSize ≠ 0 then
    throw .assertionError
  let mask := blockMask.getD (List.replicate newFullBlocks.length true)
  cacheLoop (groupHashes pool.hashBlockSize blockSize blockHashes) groupId numCachedBlocks
    (newFullBlocks.zip mask) pool

end BlockPool

end VllmPs
