import VllmPs.KV.BlockPool

/-!
# Managers of one attention type

`SingleTypeKVCacheManager` with its full-attention and sliding-window subclasses: the
block tables of one KV cache group. Counts are integers where the source subtracts; `//`
rounds down.
-/

namespace VllmPs

open Lib

variable {H : Type}

inductive AttentionKind
  | full
  | slidingWindow (slidingWindow : ℕ)
deriving DecidableEq

structure KVCacheSpec where
  kind : AttentionKind
  blockSize : ℕ
  otherFields : ℕ := 0
deriving DecidableEq

/-- Division rounding up. -/
def cdiv (a : ℤ) (b : ℕ) : ℤ := -(-a / b)

/-- `_contiguous_blocks_for_hit` -/
def contiguousBlocksForHit (windowSize blockSize : ℕ) (useEagle : Bool) : ℕ :=
  (cdiv ((windowSize : ℤ) - 1) blockSize).toNat + if useEagle then 1 else 0

structure SingleTypeManager where
  spec : KVCacheSpec
  kvCacheGroupId : ℕ
  schedulerBlockSize : ℕ
  maxAdmissionBlocksPerRequest : Option ℤ := none
  useEagle : Bool := false
  reqToBlocks : Table RequestId (List BlockId) := ∅
  numCachedBlock : Table RequestId ℕ := ∅

namespace SingleTypeManager

variable (mgr : SingleTypeManager) (requestId : RequestId)

def blockSize : ℕ := mgr.spec.blockSize

/-- `req_to_blocks.get(request_id) or []` -/
def blocksOf : List BlockId := (mgr.reqToBlocks.lookup requestId).getD []

/-- `num_cached_block.get(request_id, 0)` -/
def numCached : ℕ := (mgr.numCachedBlock.lookup requestId).getD 0

/-- Store the block table of a request. -/
def setBlocks (blocks : List BlockId) : SingleTypeManager :=
  { mgr with reqToBlocks := mgr.reqToBlocks.insert requestId blocks }

def setNumCached (n : ℕ) : SingleTypeManager :=
  { mgr with numCachedBlock := mgr.numCachedBlock.insert requestId n }

/-- `get_num_skipped_tokens` -/
def getNumSkippedTokens (numComputedTokens : ℤ) : ℤ :=
  match mgr.spec.kind with
  | .full => 0
  | .slidingWindow slidingWindow => max 0 (numComputedTokens - slidingWindow + 1)

variable (pool : BlockPool H)

/-- `get_num_blocks_to_allocate` -/
def getNumBlocksToAllocate (numTokens : ℤ) (newComputedBlocks : List BlockId)
    (totalComputedTokens : ℤ) (applyAdmissionCap : Bool) : Except PyError ℤ :=
  let cap := if applyAdmissionCap then mgr.maxAdmissionBlocksPerRequest else none
  let numRequiredBlocks :=
    match cap with
    | none => cdiv numTokens mgr.blockSize
    | some maxBlocks => min (cdiv numTokens mgr.blockSize) maxBlocks
  let numReqBlocks : ℤ := (mgr.blocksOf requestId).length
  if (mgr.numCachedBlock.lookup requestId).isSome then
    if newComputedBlocks ≠ [] then .error .assertionError
    else .ok (max (numRequiredBlocks - numReqBlocks) 0)
  else
    let numSkippedBlocks := mgr.getNumSkippedTokens totalComputedTokens / mgr.blockSize
    let numLocalComputedBlocks := newComputedBlocks.length + numReqBlocks
    let numNewBlocks := max (numRequiredBlocks - max numSkippedBlocks numLocalComputedBlocks) 0
    let numSkippedNewComputedBlocks := max 0 (numSkippedBlocks - numReqBlocks)
    let evictable := (newComputedBlocks.drop numSkippedNewComputedBlocks.toNat).countP fun block =>
      decide ((pool.blocks block).refCnt = 0) && decide (block ≠ nullBlock)
    .ok (numNewBlocks + evictable)

/-- `reachable_block_mask`; `none` caches every block. -/
def reachableBlockMask (startBlock endBlock : ℕ) (retentionInterval : Option ℕ)
    (numPromptTokens : ℕ) : Option (List Bool) :=
  match mgr.spec.kind with
  | .full => none
  | .slidingWindow slidingWindow =>
    let need := contiguousBlocksForHit slidingWindow mgr.blockSize mgr.useEagle
    let shift := if mgr.useEagle then 1 else 0
    let segmentTokens :=
      match retentionInterval with
      | none => some mgr.schedulerBlockSize
      | some 0 => none
      | some interval => some interval
    let perSegment := segmentTokens.map (· / mgr.blockSize)
    if perSegment.any (need ≥ ·) then none
    else
      let isTail (i : ℕ) : Bool :=
        perSegment.any fun per => shift ≤ i && per - need ≤ (i - shift) % per
      let latest := (numPromptTokens - 1) / mgr.schedulerBlockSize * mgr.schedulerBlockSize
      let promptEndBlock := latest / mgr.blockSize + shift
      let isReplay (i : ℕ) : Bool :=
        retentionInterval.isSome && promptEndBlock - need ≤ i && i < promptEndBlock
      some ((List.range' startBlock (endBlock - startBlock)).map fun i => isTail i || isReplay i)

/-- `free`; a sliding-window manager puts blocks without a hash at the front of the free queue. -/
def free : BlockPool H × SingleTypeManager :=
  let reqBlocks := (mgr.blocksOf requestId).reverse
  let pool' :=
    match mgr.spec.kind with
    | .full => pool.freeBlocks reqBlocks false
    | .slidingWindow _ =>
      let cachedBlocks := reqBlocks.filter fun block => (pool.blocks block).blockHash.isSome
      let uncachedBlocks := reqBlocks.filter fun block => (pool.blocks block).blockHash.isNone
      (pool.freeBlocks cachedBlocks false).freeBlocks uncachedBlocks true
  (pool', { mgr with
    reqToBlocks := mgr.reqToBlocks.erase requestId
    numCachedBlock := mgr.numCachedBlock.erase requestId })

/-- `alias_request_blocks_from_snapshot` -/
def aliasRequestBlocksFromSnapshot (srcBlocks : List BlockId)
    (srcNumCachedBlocks : ℕ) (numPrefixBlocks : ℤ) : Except PyError (BlockPool H × SingleTypeManager) :=
  if numPrefixBlocks < 0 then .error .valueError
  else if srcBlocks.length < numPrefixBlocks then .error .valueError
  else do
    let pool' := pool.freeBlocks (mgr.blocksOf requestId).reverse false
    let aliasedBlocks := srcBlocks.take numPrefixBlocks.toNat
    let pool'' ← pool'.touch (aliasedBlocks.filter (· ≠ nullBlock))
    return (pool'', (mgr.setBlocks requestId aliasedBlocks).setNumCached requestId
      (min srcNumCachedBlocks numPrefixBlocks.toNat))

/-- The loop of `remove_skipped_blocks` from index `n - 1` down: the removed blocks with a hash,
those without, and the table with null blocks in their places. -/
def removeLoop (pool : BlockPool H) :
    ℕ → List BlockId → List BlockId × List BlockId × List BlockId
  | 0, blocks => ([], [], blocks)
  | i + 1, blocks =>
    let block := blocks.getD i nullBlock
    if block = nullBlock then ([], [], blocks)
    else
      let below := removeLoop pool i (blocks.set i nullBlock)
      if (pool.blocks block).blockHash.isNone then (below.1, block :: below.2.1, below.2.2)
      else (block :: below.1, below.2.1, below.2.2)

/-- `remove_skipped_blocks` -/
def removeSkippedBlocks (totalComputedTokens : ℤ) : BlockPool H × SingleTypeManager :=
  let numSkippedTokens := mgr.getNumSkippedTokens totalComputedTokens
  if numSkippedTokens ≤ 0 then (pool, mgr)
  else
    let blocks := mgr.blocksOf requestId
    let numSkippedBlocks := min (numSkippedTokens / mgr.blockSize).toNat blocks.length
    let removed := removeLoop pool numSkippedBlocks blocks
    ((pool.freeBlocks removed.1 false).freeBlocks removed.2.1 true,
      mgr.setBlocks requestId removed.2.2)

variable [DecidableEq H]
variable (pool : BlockPool H)

def touchComputedBlocks (newComputedBlocks : List BlockId) : Except PyError (BlockPool H) :=
  if pool.enableCaching then pool.touch newComputedBlocks
  else if newComputedBlocks ≠ [] then .error .assertionError
  else .ok pool

/-- `allocate_new_computed_blocks` -/
def allocateNewComputedBlocks (newComputedBlocks : List BlockId)
    (numLocalComputedTokens numExternalComputedTokens : ℤ) :
    Except PyError (BlockPool H × SingleTypeManager) :=
  if (mgr.numCachedBlock.lookup requestId).isSome then
    if newComputedBlocks ≠ [] then .error .assertionError else .ok (pool, mgr)
  else if mgr.blocksOf requestId ≠ [] then .error .assertionError
  else do
    let numTotalComputedTokens := numLocalComputedTokens + numExternalComputedTokens
    let numSkippedTokens := mgr.getNumSkippedTokens numTotalComputedTokens
    let numSkippedBlocks := (numSkippedTokens / mgr.blockSize).toNat
    let newComputedBlocks := newComputedBlocks.drop numSkippedBlocks
    let numExternalComputedTokens :=
      if numSkippedBlocks > 0 then
        min (numTotalComputedTokens - numSkippedTokens) numExternalComputedTokens
      else numExternalComputedTokens
    let pool ← touchComputedBlocks pool newComputedBlocks
    let reqBlocks := List.replicate numSkippedBlocks nullBlock ++ newComputedBlocks
    let mgr := mgr.setNumCached requestId reqBlocks.length
    if numExternalComputedTokens > 0 then
      let numNewBlocks := cdiv numTotalComputedTokens mgr.blockSize - reqBlocks.length
      let allocated ← pool.getNewBlocks numNewBlocks
      return (allocated.1, mgr.setBlocks requestId (reqBlocks ++ allocated.2))
    else return (pool, mgr.setBlocks requestId reqBlocks)

/-- `allocate_new_blocks`; the new blocks are the ones appended to the table. -/
def allocateNewBlocks (numTokens : ℤ) : Except PyError (BlockPool H × SingleTypeManager) := do
  let reqBlocks := mgr.blocksOf requestId
  let numNewBlocks := cdiv numTokens mgr.blockSize - reqBlocks.length
  if numNewBlocks ≤ 0 then return (pool, mgr.setBlocks requestId reqBlocks)
  let allocated ← pool.getNewBlocks numNewBlocks
  return (allocated.1, mgr.setBlocks requestId (reqBlocks ++ allocated.2))

/-- `cache_blocks` on the hashes and the prompt length of the request. -/
def cacheBlocks (blockHashes : List H) (numPromptTokens : ℕ) (numTokens : ℤ)
    (retentionInterval : Option ℕ) : Except PyError (BlockPool H × SingleTypeManager) := do
  let numCachedBlocks := mgr.numCached requestId
  let numFullBlocks := (numTokens / mgr.blockSize).toNat
  if numCachedBlocks ≥ numFullBlocks then return (pool, mgr)
  let blockMask :=
    mgr.reachableBlockMask numCachedBlocks numFullBlocks retentionInterval numPromptTokens
  let pool' ← pool.cacheFullBlocks blockHashes (mgr.blocksOf requestId) numCachedBlocks numFullBlocks
    mgr.blockSize mgr.kvCacheGroupId blockMask
  return (pool', (mgr.setBlocks requestId (mgr.blocksOf requestId)).setNumCached requestId
    numFullBlocks)

end SingleTypeManager

def alignedLength (blockSize alignmentTokens : ℕ) : ℕ → ℕ
  | 0 => 0
  | n + 1 =>
    if blockSize ≠ alignmentTokens ∧ (n + 1) * blockSize % alignmentTokens ≠ 0 then
      alignedLength blockSize alignmentTokens n
    else n + 1

/-- The rows left after dropping unaligned ones from the end. -/
def trimAligned (blockSize alignmentTokens : ℕ) (rows : List (List BlockId)) : List (List BlockId) :=
  rows.take (alignedLength blockSize alignmentTokens rows.length)

variable [DecidableEq H]
variable (pool : BlockPool H)
variable (blockHashes : List (List H))

/-- The scan of `FullAttentionManager.find_longest_cache_hit` up to the first miss. Each row holds
the blocks of all groups at one position. -/
def fullAttentionRows (maxNumBlocks : ℕ) (kvCacheGroupIds : List ℕ) : List (List BlockId) :=
  (((blockHashes.take maxNumBlocks).map
    fun hash => pool.getCachedBlock hash kvCacheGroupIds).takeWhile Option.isSome).filterMap id

/-- `FullAttentionManager.find_longest_cache_hit`, position by position. -/
def fullAttentionHit (maxLength : ℕ)
    (kvCacheGroupIds : List ℕ) (blockSize : ℕ) (dropEagleBlock : Bool) (alignmentTokens : ℕ) :
    List (List BlockId) :=
  let computed := fullAttentionRows pool blockHashes (maxLength / blockSize) kvCacheGroupIds
  trimAligned blockSize alignmentTokens (if dropEagleBlock then computed.dropLast else computed)

/-- The search of `SlidingWindowManager.find_longest_cache_hit` from position `i - 1` to the left:
the rows, the length of the current run and whether the run is long enough. -/
def slidingWindowLoop (cachedAt : ℕ → Option (List BlockId)) (contiguousBlocks blockSize : ℕ)
    (dropEagleBlock : Bool) (alignmentTokens : ℕ) :
    ℕ → List (List BlockId) → ℕ → List (List BlockId) × ℕ × Bool
  | 0, rows, numContiguousBlocks => (rows, numContiguousBlocks, false)
  | i + 1, rows, numContiguousBlocks =>
    match cachedAt i with
    | none =>
      slidingWindowLoop cachedAt contiguousBlocks blockSize dropEagleBlock alignmentTokens i rows 0
    | some row =>
      let postPopBlocks := if dropEagleBlock then i else i + 1
      if numContiguousBlocks = 0 ∧ blockSize ≠ alignmentTokens ∧
          postPopBlocks * blockSize % alignmentTokens ≠ 0 then
        slidingWindowLoop cachedAt contiguousBlocks blockSize dropEagleBlock alignmentTokens i rows
          numContiguousBlocks
      else
        let rows' := rows.set i row
        if numContiguousBlocks + 1 ≥ contiguousBlocks then
          (rows'.take (i + (numContiguousBlocks + 1)), numContiguousBlocks + 1, true)
        else
          slidingWindowLoop cachedAt contiguousBlocks blockSize dropEagleBlock alignmentTokens i
            rows' (numContiguousBlocks + 1)

/-- The end of the search: keep the leading run if no long enough run was found, and drop the EAGLE
block. -/
def finishSlidingWindow (blockSize : ℕ) (dropEagleBlock : Bool) (alignmentTokens : ℕ)
    (found : List (List BlockId) × ℕ × Bool) : List (List BlockId) :=
  let computed :=
    if found.2.2 then found.1 else trimAligned blockSize alignmentTokens (found.1.take found.2.1)
  if dropEagleBlock && !computed.isEmpty then
    trimAligned blockSize alignmentTokens computed.dropLast
  else computed

/-- `SlidingWindowManager.find_longest_cache_hit`, position by position. -/
def slidingWindowHit (maxLength : ℕ)
    (kvCacheGroupIds : List ℕ) (slidingWindow blockSize : ℕ) (dropEagleBlock : Bool)
    (alignmentTokens : ℕ) : List (List BlockId) :=
  let maxNumBlocks := maxLength / blockSize
  let cachedAt (i : ℕ) := (blockHashes[i]?).bind fun hash => pool.getCachedBlock hash kvCacheGroupIds
  finishSlidingWindow blockSize dropEagleBlock alignmentTokens
    (slidingWindowLoop cachedAt (contiguousBlocksForHit slidingWindow blockSize dropEagleBlock)
      blockSize dropEagleBlock alignmentTokens maxNumBlocks
      (List.replicate maxNumBlocks (kvCacheGroupIds.map fun _ => nullBlock)) 0)

/-- `find_longest_cache_hit` of the manager class of the spec. -/
def findLongestCacheHit (spec : KVCacheSpec) (blockHashes : List (List H))
    (maxLength : ℕ) (kvCacheGroupIds : List ℕ) (dropEagleBlock : Bool) (alignmentTokens : ℕ) :
    List (List BlockId) :=
  match spec.kind with
  | .full =>
    fullAttentionHit pool blockHashes maxLength kvCacheGroupIds spec.blockSize dropEagleBlock
      alignmentTokens
  | .slidingWindow slidingWindow =>
    slidingWindowHit pool blockHashes maxLength kvCacheGroupIds slidingWindow spec.blockSize
      dropEagleBlock alignmentTokens

end VllmPs
