import VllmPs.KV.SingleType

/-!
# The KV cache manager

The coordinator runs one manager per KV cache group over a shared block pool. It comes in
three kinds: without prefix caching, for a single group, and for several attention types,
where the longest common cache hit is a fixed point over the groups.
-/

namespace VllmPs

open Lib

variable {H F : Type}

structure SpecGroup where
  spec : KVCacheSpec
  groupIds : List ℕ
  useEagle : Bool
deriving DecidableEq

inductive CoordinatorKind
  | noPrefixCache
  | unitary
  | hybrid (attentionGroups : List SpecGroup)
deriving DecidableEq

structure KVCacheManager (H : Type) where
  pool : BlockPool H
  managers : List SingleTypeManager
  maxModelLen : ℤ
  schedulerBlockSize : ℕ
  retentionInterval : Option ℕ
  coordinator : CoordinatorKind

/-- The parts of the configuration that the cache manager reads. -/
structure KVCacheConfig where
  numBlocks : ℕ
  /-- The spec of each group and whether it is an EAGLE group. -/
  kvCacheGroups : List (KVCacheSpec × Bool)
  maxModelLen : ℕ
  maxNumBatchedTokens : ℕ
  useEagle : Bool := false
  enableCaching : Bool
  schedulerBlockSize : ℕ
  hashBlockSize : ℕ
  retentionInterval : Option ℕ := none
deriving DecidableEq

def addToSpecGroups (spec : KVCacheSpec) (groupId : ℕ) (useEagle : Bool) :
    List SpecGroup → List SpecGroup
  | [] => [⟨spec, [groupId], useEagle⟩]
  | group :: rest =>
    if group.spec = spec then
      { group with groupIds := group.groupIds ++ [groupId], useEagle := group.useEagle || useEagle } ::
        rest
    else group :: addToSpecGroups spec groupId useEagle rest

def SpecGroup.isFullAttention (group : SpecGroup) : Bool := group.spec.kind = .full

/-- `verify_and_split_kv_cache_groups`: group by spec, full attention first. -/
def splitKvCacheGroups (groups : List (KVCacheSpec × Bool)) : List SpecGroup :=
  let split := groups.zipIdx.foldl
    (fun split g => addToSpecGroups g.1.1 g.2 g.1.2 split) []
  split.filter SpecGroup.isFullAttention ++ split.filter fun g => !g.isFullAttention

namespace KVCacheConfig

variable (config : KVCacheConfig)

def eagleGroups : List (KVCacheSpec × Bool) :=
  if config.useEagle && !config.kvCacheGroups.any (·.2) then
    config.kvCacheGroups.map fun g => (g.1, true)
  else config.kvCacheGroups

def coordinatorKind : CoordinatorKind :=
  if !config.enableCaching then .noPrefixCache
  else if config.kvCacheGroups.length = 1 then .unitary
  else .hybrid (splitKvCacheGroups config.eagleGroups)

def managerUsesEagle (groupId : ℕ) : Bool :=
  match config.coordinatorKind with
  | .noPrefixCache => false
  | .unitary => (config.eagleGroups.map (·.2)).headD false
  | .hybrid attentionGroups => attentionGroups.any fun g => g.useEagle && g.groupIds.contains groupId

/-- `get_manager_for_kv_cache_spec` -/
def managerFor (spec : KVCacheSpec) (groupId : ℕ) : SingleTypeManager where
  spec := spec
  kvCacheGroupId := groupId
  schedulerBlockSize := config.schedulerBlockSize
  maxAdmissionBlocksPerRequest :=
    match spec.kind with
    | .full => none
    | .slidingWindow slidingWindow =>
      some (cdiv (min ((slidingWindow : ℤ) - 1 + config.maxNumBatchedTokens) config.maxModelLen)
        spec.blockSize + 1)
  useEagle := config.managerUsesEagle groupId

/-- `KVCacheManager.__init__` -/
def newManager : KVCacheManager H where
  pool := BlockPool.new config.numBlocks config.enableCaching config.hashBlockSize
  managers := config.kvCacheGroups.zipIdx.map fun g => config.managerFor g.1.1 g.2
  maxModelLen := config.maxModelLen
  schedulerBlockSize := config.schedulerBlockSize
  retentionInterval := config.retentionInterval
  coordinator := config.coordinatorKind

end KVCacheConfig

/-- Run an operation on every manager in turn, passing the pool along. -/
def forManagers
    (f : ℕ → BlockPool H → SingleTypeManager → Except PyError (BlockPool H × SingleTypeManager)) :
    ℕ → BlockPool H → List SingleTypeManager →
      Except PyError (BlockPool H × List SingleTypeManager)
  | _, pool, [] => .ok (pool, [])
  | i, pool, mgr :: rest => do
    let step ← f i pool mgr
    let others ← forManagers f (i + 1) step.1 rest
    return (others.1, step.2 :: others.2)

/-- Run an operation that cannot fail on every manager in turn. -/
def mapManagers (f : BlockPool H → SingleTypeManager → BlockPool H × SingleTypeManager) :
    BlockPool H → List SingleTypeManager → BlockPool H × List SingleTypeManager
  | pool, [] => (pool, [])
  | pool, mgr :: rest =>
    let step := f pool mgr
    let others := mapManagers f step.1 rest
    (others.1, step.2 :: others.2)

/-- Alias the block prefix of a source in every manager. A `ValueError` raised by one manager leaves
the managers before it changed, which callers that catch it see; the flag says whether all went
through. -/
def aliasManagers (dst : RequestId) (source : ℕ → SingleTypeManager → Option (List BlockId × ℕ))
    (numPrefixBlocks : ℤ) : ℕ → BlockPool H → List SingleTypeManager →
      Except PyError (BlockPool H × List SingleTypeManager × Bool)
  | _, pool, [] => .ok (pool, [], true)
  | i, pool, mgr :: rest =>
    match source i mgr with
    | none => .ok (pool, mgr :: rest, false)
    | some src =>
      match mgr.aliasRequestBlocksFromSnapshot dst pool src.1 src.2 numPrefixBlocks with
      | .error .valueError => .ok (pool, mgr :: rest, false)
      | .error e => .error e
      | .ok step => do
        let others ← aliasManagers dst source numPrefixBlocks (i + 1) step.1 rest
        return (others.1, step.2 :: others.2.1, others.2.2)

structure HybridHit where
  currHitLength : ℕ
  hitBlocksByGroup : List (Option (List BlockId))
  eagleVerified : List ℕ
deriving DecidableEq

def recordHits (groupIds : List ℕ) (rows : List (List BlockId))
    (hitBlocksByGroup : List (Option (List BlockId))) : List (Option (List BlockId)) :=
  groupIds.zipIdx.foldl
    (fun hits g => hits.set g.1 (some (rows.map fun row => row.getD g.2 nullBlock)))
    hitBlocksByGroup

/-- The block tables of a request and its cached counts, one per group. -/
structure Snapshot where
  blocks : List (List BlockId)
  numCached : List ℕ
deriving DecidableEq

namespace KVCacheManager

variable (kv : KVCacheManager H)

def getNumFreeBlocks : ℤ := kv.pool.numFreeBlocks

/-- `get_blocks` -/
def getBlocks (requestId : RequestId) : List (List BlockId) :=
  kv.managers.map fun mgr => mgr.blocksOf requestId

/-- `get_num_cached_blocks` -/
def getNumCachedBlocks (requestId : RequestId) : List ℕ :=
  kv.managers.map fun mgr => mgr.numCached requestId

/-- `free` -/
def free (requestId : RequestId) : KVCacheManager H :=
  let freed := mapManagers (fun pool mgr => mgr.free requestId pool) kv.pool kv.managers
  { kv with pool := freed.1, managers := freed.2 }

/-- `remove_skipped_blocks` -/
def removeSkippedBlocks (requestId : RequestId) (totalComputedTokens : ℤ) : KVCacheManager H :=
  let removed := mapManagers
    (fun pool mgr => mgr.removeSkippedBlocks requestId pool totalComputedTokens) kv.pool kv.managers
  { kv with pool := removed.1, managers := removed.2 }

/-- `alias_request_blocks`, with the flag of a caught `ValueError`. -/
def aliasRequestBlocks (dst src : RequestId) (numPrefixBlocks : ℤ) :
    Except PyError (KVCacheManager H × Bool) := do
  let source (_ : ℕ) (mgr : SingleTypeManager) :=
    (mgr.reqToBlocks.lookup src).map fun blocks => (blocks, mgr.numCached src)
  let aliased ← aliasManagers dst source numPrefixBlocks 0 kv.pool kv.managers
  return ({ kv with pool := aliased.1, managers := aliased.2.1 }, aliased.2.2)

/-- `alias_request_blocks_from_snapshot`, with the flag of a caught `ValueError`. -/
def aliasRequestBlocksFromSnapshot (dst : RequestId) (srcBlocks : List (List BlockId))
    (srcNumCachedBlocks : List ℕ) (numPrefixBlocks : ℤ) :
    Except PyError (KVCacheManager H × Bool) :=
  if srcBlocks.length ≠ kv.managers.length ∨ srcNumCachedBlocks.length ≠ kv.managers.length then
    .ok (kv, false)
  else do
    let source (i : ℕ) (_ : SingleTypeManager) :=
      some (srcBlocks.getD i [], srcNumCachedBlocks.getD i 0)
    let aliased ← aliasManagers dst source numPrefixBlocks 0 kv.pool kv.managers
    return ({ kv with pool := aliased.1, managers := aliased.2.1 }, aliased.2.2)

/-- `get_num_blocks_to_allocate` of the coordinator. -/
def getNumBlocksToAllocate (requestId : RequestId) (numTokens : ℤ)
    (newComputedBlocks : List (List BlockId)) (totalComputedTokens : ℤ) (applyAdmissionCap : Bool) :
    Except PyError ℤ :=
  kv.managers.zipIdx.foldlM
    (fun total m => do
      let n ← m.1.getNumBlocksToAllocate requestId kv.pool numTokens
        (newComputedBlocks.getD m.2 []) totalComputedTokens applyAdmissionCap
      return total + n) 0

/-- `reset_prefix_cache` -/
def resetPrefixCache : KVCacheManager H × Bool :=
  let reset := kv.pool.resetPrefixCache
  ({ kv with pool := reset.1 }, reset.2)

variable [DecidableEq H]

/-- `evict_blocks` -/
def evictBlocks (blockIds : List BlockId) : Except PyError (KVCacheManager H) := do
  let pool ← kv.pool.evictBlocks blockIds
  return { kv with pool := pool }

def hybridSpecGroup (blockHashes : List H) (maxCacheHitLength : ℕ) (hit : HybridHit)
    (group : SpecGroup) (idx : ℕ) : HybridHit :=
  let blockSize := group.spec.blockSize
  let known := ((group.groupIds.head?.bind fun groupId => hit.hitBlocksByGroup[groupId]?).join).isSome
  if group.isFullAttention && known then
    { hit with currHitLength := hit.currHitLength / blockSize * blockSize }
  else
    let dropEagleBlock := group.useEagle && !hit.eagleVerified.contains idx
    let maxLength :=
      if dropEagleBlock then min (hit.currHitLength + blockSize) maxCacheHitLength
      else hit.currHitLength
    let rows := findLongestCacheHit kv.pool group.spec
      (BlockPool.groupHashes kv.pool.hashBlockSize blockSize blockHashes) maxLength group.groupIds
      dropEagleBlock kv.schedulerBlockSize
    let newHitLength := rows.length * blockSize
    { currHitLength := newHitLength
      hitBlocksByGroup := recordHits group.groupIds rows hit.hitBlocksByGroup
      eagleVerified :=
        if dropEagleBlock then idx :: hit.eagleVerified
        else if newHitLength < hit.currHitLength then []
        else hit.eagleVerified }

/-- The `while` loop of the hybrid search; every round but the last shortens the hit. -/
def hybridLoop (attentionGroups : List SpecGroup) (blockHashes : List H) (maxCacheHitLength : ℕ) :
    ℕ → ℕ → List (Option (List BlockId)) → List ℕ → ℕ × List (Option (List BlockId))
  | 0, hitLength, hits, _ => (hitLength, hits)
  | fuel + 1, hitLength, hits, eagleVerified =>
    let round := attentionGroups.zipIdx.foldl
      (fun hit g => kv.hybridSpecGroup blockHashes maxCacheHitLength hit g.1 g.2)
      ⟨hitLength, hits, eagleVerified⟩
    let isSimpleHybrid :=
      attentionGroups.length = 2 ∧ (attentionGroups.head?.any SpecGroup.isFullAttention) = true
    if round.currHitLength ≥ hitLength then (hitLength, round.hitBlocksByGroup)
    else if isSimpleHybrid then (round.currHitLength, round.hitBlocksByGroup)
    else
      hybridLoop attentionGroups blockHashes maxCacheHitLength fuel round.currHitLength
        round.hitBlocksByGroup round.eagleVerified

def trimFirstGroup (attentionGroups : List SpecGroup) (hitLength : ℕ)
    (hits : List (Option (List BlockId))) : List (Option (List BlockId)) :=
  match attentionGroups.head? with
  | some first =>
    if first.isFullAttention then
      first.groupIds.foldl
        (fun hits groupId => hits.modify groupId (Option.map (·.take (hitLength / first.spec.blockSize))))
        hits
    else hits
  | none => hits

/-- `find_longest_cache_hit` of the coordinator: the hits of every group and their length. -/
def findLongestCacheHit (blockHashes : List H) (maxCacheHitLength : ℕ) :
    List (List BlockId) × ℕ :=
  match kv.coordinator with
  | .noPrefixCache => (kv.managers.map fun _ => [], 0)
  | .unitary =>
    match kv.managers.head? with
    | none => ([], 0)
    | some mgr =>
      let rows := VllmPs.findLongestCacheHit kv.pool mgr.spec (blockHashes.map fun h => [h])
        maxCacheHitLength [0] mgr.useEagle mgr.blockSize
      ([rows.map fun row => row.getD 0 nullBlock], rows.length * mgr.blockSize)
  | .hybrid attentionGroups =>
    let found := kv.hybridLoop attentionGroups blockHashes maxCacheHitLength (maxCacheHitLength + 1)
      maxCacheHitLength (kv.managers.map fun _ => none) []
    ((trimFirstGroup attentionGroups found.1 found.2).map (·.getD []), found.1)

variable (r : Request H F)

/-- `get_computed_blocks` -/
def getComputedBlocks : List (List BlockId) × ℕ :=
  if !kv.pool.enableCaching || r.samplingParams.skipReadingPrefixCache then
    (kv.managers.map fun _ => [], 0)
  else kv.findLongestCacheHit r.blockHashes (r.numTokens - 1)

/-- `cache_blocks` of the coordinator; the hybrid one only caches whole scheduler blocks, and one
more block for EAGLE groups. -/
def cacheBlocksCoordinator (numComputedTokens : ℤ) : Except PyError (KVCacheManager H) := do
  let numTokensToCache (mgr : SingleTypeManager) : ℤ :=
    match kv.coordinator with
    | .hybrid _ =>
      let aligned := numComputedTokens / kv.schedulerBlockSize * kv.schedulerBlockSize
      if mgr.useEagle && aligned > 0 then min numComputedTokens (aligned + mgr.blockSize)
      else aligned
    | _ => numComputedTokens
  let cached ← forManagers
    (fun _ pool mgr => mgr.cacheBlocks r.requestId pool r.blockHashes r.numPromptTokens
      (numTokensToCache mgr) kv.retentionInterval) 0 kv.pool kv.managers
  return { kv with pool := cached.1, managers := cached.2 }

/-- `cache_blocks` -/
def cacheBlocks (numComputedTokens : ℤ) : Except PyError (KVCacheManager H) :=
  if kv.pool.enableCaching then kv.cacheBlocksCoordinator r numComputedTokens else .ok kv

/-- The arguments of `allocate_slots` besides the request. The computed blocks count as absent when
no group has any. -/
structure AllocateArgs where
  numNewTokens : ℤ
  numNewComputedTokens : ℤ := 0
  newComputedBlocks : List (List BlockId) := []
  numLookaheadTokens : ℤ := 0
  numExternalComputedTokens : ℤ := 0
  delayCacheBlocks : Bool := false
  fullSequenceMustFit : Bool := false
  reservedBlocks : ℤ := 0
deriving DecidableEq

/-- `allocate_new_computed_blocks` of the coordinator, called if there is something to store. -/
def allocateNewComputedBlocks (requestId : RequestId) (args : AllocateArgs)
    (numLocalComputedTokens : ℤ) : Except PyError (BlockPool H × List SingleTypeManager) :=
  if args.newComputedBlocks.any (!·.isEmpty) || decide (args.numExternalComputedTokens > 0) then
    forManagers (fun i pool mgr =>
      mgr.allocateNewComputedBlocks requestId pool (args.newComputedBlocks.getD i [])
        numLocalComputedTokens args.numExternalComputedTokens) 0 kv.pool kv.managers
  else .ok (kv.pool, kv.managers)

/-- The allocations of `allocate_slots`, `allocate_new_blocks` of the coordinator being the last. -/
def allocateBlocks (requestId : RequestId) (args : AllocateArgs)
    (numLocalComputedTokens numTokensNeedSlot : ℤ) : Except PyError (KVCacheManager H) := do
  let computed ← kv.allocateNewComputedBlocks requestId args numLocalComputedTokens
  let allocated ← forManagers
    (fun _ pool mgr => mgr.allocateNewBlocks requestId pool numTokensNeedSlot) 0 computed.1 computed.2
  return { kv with pool := allocated.1, managers := allocated.2 }

/-- The admission check of `allocate_slots`: whether the whole sequence fits, if it has to. -/
def fullSequenceFits (args : AllocateArgs) (totalComputedTokens : ℤ) : Except PyError Bool :=
  if args.fullSequenceMustFit then do
    let numBlocksToAllocate ← kv.getNumBlocksToAllocate r.requestId
      (min (r.numTokens : ℤ) kv.maxModelLen) args.newComputedBlocks totalComputedTokens true
    return decide (numBlocksToAllocate ≤ kv.getNumFreeBlocks)
  else .ok true

/-- `allocate_slots`: the manager after the call, and whether the slots were allocated. -/
def allocateSlots (args : AllocateArgs) : Except PyError (KVCacheManager H × Bool) :=
  if args.numNewTokens = 0 ∧ args.numExternalComputedTokens = 0 then .error .valueError
  else do
    let numLocalComputedTokens := r.numComputedTokens + args.numNewComputedTokens
    let totalComputedTokens :=
      min (numLocalComputedTokens + args.numExternalComputedTokens) kv.maxModelLen
    let fits ← kv.fullSequenceFits r args totalComputedTokens
    if fits = false then return (kv, false)
    let numTokensMainModel := totalComputedTokens + args.numNewTokens
    let numTokensNeedSlot := min (numTokensMainModel + args.numLookaheadTokens) kv.maxModelLen
    let kv' := kv.removeSkippedBlocks r.requestId totalComputedTokens
    let numBlocksToAllocate ← kv'.getNumBlocksToAllocate r.requestId numTokensNeedSlot
      args.newComputedBlocks (numLocalComputedTokens + args.numExternalComputedTokens) false
    if numBlocksToAllocate > kv'.getNumFreeBlocks - args.reservedBlocks then return (kv', false)
    let kv'' ← kv'.allocateBlocks r.requestId args numLocalComputedTokens numTokensNeedSlot
    if !kv''.pool.enableCaching || args.delayCacheBlocks then return (kv'', true)
    let cached ← kv''.cacheBlocksCoordinator r
      (min (totalComputedTokens + args.numNewTokens) (r.numTokens : ℤ))
    return (cached, true)

end KVCacheManager

end VllmPs
