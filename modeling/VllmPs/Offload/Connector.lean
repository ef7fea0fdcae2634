import VllmPs.Lib.Table
import VllmPs.Offload.CpuManager
import VllmPs.Offload.Tiering

/-!
# The scheduler side of the offloading connector

The connector asks the offloading manager for blocks to load, issues load and store jobs to the workers, and
tells the manager when all workers have reported a job. The manager is a parameter; the requests belong to
the scheduler and are an argument of every call.
-/

namespace VllmPs.Offload

open Lib

/-- `OffloadKey`: a block hash and the KV cache group it is of. -/
abbrev OffloadKey (H : Type) := H × ℕ

structure OffloadingManager (M K : Type) where
  onNewRequest : M → RequestId → OffloadPolicy × M
  lookup : M → K → RequestId → Except (OffloadError K) (Option Bool × M)
  touch : M → List K → M
  prepareLoad : M → List K → Except (OffloadError K) (List ℕ × M)
  completeLoad : M → List K → Except (OffloadError K) M
  prepareStore : M → List K → RequestId → Except (OffloadError K) (Option (PrepareStoreOutput K) × M)
  completeStore : M → List K → RequestId → Except (OffloadError K) M
  onRequestFinished : M → RequestId → M
  onScheduleEnd : M → Except (OffloadError K) M
  resetCache : M → M

/-- The KV cache specs that the connector supports. -/
inductive OffloadedSpec
  | fullAttention
  | slidingWindow (slidingWindow : ℕ)
  | mamba
deriving DecidableEq

/-- `cdiv` -/
def cdiv (a b : ℕ) : ℕ := (a + b - 1) / b

/-- `get_sliding_window_size_in_blocks` -/
def getSlidingWindowSizeInBlocks (offloadedBlockSize : ℕ) : OffloadedSpec → Option ℕ
  | .slidingWindow slidingWindow => some (cdiv slidingWindow offloadedBlockSize)
  | .mamba => some 1
  | .fullAttention => none

/-- `GroupOffloadConfig` -/
structure GroupOffloadConfig where
  groupIdx : ℕ
  gpuBlockSize : ℕ
  offloadedBlockSize : ℕ
  hashBlockSizeFactor : ℕ
  slidingWindowSizeInBlocks : Option ℕ
  alignmentBlockCount : Option ℕ := none
deriving DecidableEq

/-- `SchedulerOffloadConfig`, and whether prefix caching is enabled. -/
structure SchedulerOffloadConfig where
  kvGroupConfigs : List GroupOffloadConfig
  blockSizeFactor : ℕ
  numWorkers : ℕ
  offloadPromptOnly : Bool
  enablePrefixCaching : Bool
deriving DecidableEq

def alignmentTokens (blockSizeFactor : ℕ) (groups : List (ℕ × OffloadedSpec)) : Option ℕ :=
  match ((groups.filter (·.2 = .fullAttention)).map (·.1 * blockSizeFactor)).dedup with
  | [tokens] => some tokens
  | _ => none

/-- `_alignment_block_count` -/
def alignmentBlockCount (alignment : Option ℕ) (offloadedBlockSize : ℕ)
    (slidingWindowSizeInBlocks : Option ℕ) : Option ℕ :=
  match alignment, slidingWindowSizeInBlocks with
  | some tokens, some window =>
    if tokens ≤ offloadedBlockSize then none
    else
      let perSegment := tokens / offloadedBlockSize
      if perSegment ≤ window then none else some perSegment
  | _, _ => none

/-- `SchedulerOffloadConfig.from_spec`, from the GPU block sizes and the specs of the groups. -/
def SchedulerOffloadConfig.fromSpec (groups : List (ℕ × OffloadedSpec))
    (blockSizeFactor hashBlockSize worldSize : ℕ) (offloadPromptOnly enablePrefixCaching : Bool) :
    SchedulerOffloadConfig where
  kvGroupConfigs := groups.zipIdx.map fun ((gpuBlockSize, spec), groupIdx) =>
    let offloadedBlockSize := gpuBlockSize * blockSizeFactor
    let window := getSlidingWindowSizeInBlocks offloadedBlockSize spec
    { groupIdx
      gpuBlockSize
      offloadedBlockSize
      hashBlockSizeFactor := offloadedBlockSize / hashBlockSize
      slidingWindowSizeInBlocks := window
      alignmentBlockCount :=
        alignmentBlockCount (alignmentTokens blockSizeFactor groups) offloadedBlockSize window }
  blockSizeFactor
  numWorkers := worldSize
  offloadPromptOnly
  enablePrefixCaching

/-- The groups without full attention, by decreasing window. -/
def SchedulerOffloadConfig.slidingWindowGroups (config : SchedulerOffloadConfig) : List ℕ :=
  let groups := config.kvGroupConfigs.filterMap fun group =>
    group.slidingWindowSizeInBlocks.map fun window => (window, group.groupIdx)
  (groups.mergeSort fun a b => decide (b.1 ≤ a.1)).map Prod.snd

/-- The groups in the order in which they are looked up. -/
def SchedulerOffloadConfig.lookupGroups (config : SchedulerOffloadConfig) : List ℕ :=
  (config.kvGroupConfigs.filter (·.slidingWindowSizeInBlocks.isNone)).map (·.groupIdx) ++
    config.slidingWindowGroups

variable {H M : Type}

/-- What the connector reads of a request. -/
structure OffloadRequest (H : Type) where
  blockHashes : List H
  numTokens : ℕ
  numPromptTokens : ℕ
  numComputedTokens : ℕ := 0
  isFinished : Bool := false
  /-- A valid `max_offload_tokens` of `kv_transfer_params`. -/
  maxOffloadTokens : Option ℕ := none
deriving DecidableEq

structure GPUBlock where
  blockId : ℕ
  isNull : Bool := false
  isHashed : Bool := false
deriving DecidableEq

/-- `TransferJobStatus` -/
structure TransferJobStatus (K : Type) where
  reqId : RequestId
  pendingCount : ℤ
  keys : List K
  isStore : Bool
  nonSlidingWindowBlockIds : List ℕ := []
  slidingWindowBlockIds : List ℕ := []
deriving DecidableEq

/-- `TransferJob`: the GPU blocks of the groups, where they start, and the offload slots. -/
structure TransferJob where
  reqId : RequestId
  gpuBlockIds : List ℕ
  groupSizes : List ℕ
  blockIndices : List ℕ
  offloadSlots : List ℕ
deriving DecidableEq

/-- `RequestGroupState` -/
structure RequestGroupState (H : Type) where
  offloadKeys : List (OffloadKey H) := []
  blockIds : List ℕ := []
  nextStoredBlockIdx : ℕ := 0
  numHitBlocks : ℕ := 0
deriving DecidableEq

/-- `RequestOffloadState` -/
structure RequestOffloadState (H : Type) where
  policy : OffloadPolicy
  groupStates : List (RequestGroupState H)
  maxOffloadTokens : Option ℕ
  numLocallyComputedTokens : ℕ := 0
  transferJobs : List ℕ := []
deriving DecidableEq

/-- `OffloadingConnectorMetadata` -/
structure OffloadingConnectorMetadata where
  loadJobs : List (ℕ × TransferJob)
  storeJobs : List (ℕ × TransferJob)
  jobsToFlush : List ℕ
deriving DecidableEq

/-- What the connector reads of a scheduler output: the new block ids of the scheduled requests and
whether they resume after a preemption (`yield_req_data`), the scheduled tokens and the preempted
requests. -/
structure StepOutput where
  reqData : List (RequestId × Option (List (List ℕ)) × Bool)
  numScheduledTokens : List (RequestId × ℕ)
  preemptedReqIds : List RequestId
deriving DecidableEq

/-- What the connector can raise. -/
inductive ConnectorError (K : Type)
  | manager (e : OffloadError K)
  /-- `self._req_status[req_id]` -/
  | unknownRequest (reqId : RequestId)
  /-- `self._jobs[job_id]` -/
  | unknownJob (jobId : ℕ)
  /-- `assert not req_status.transfer_jobs` -/
  | transfersPending (jobIds : List ℕ)
  /-- `assert self._jobs[any_jid].is_store` -/
  | loadPending (jobId : ℕ)
  /-- `self._block_id_to_pending_jobs[bid]` and `pending.remove(job_id)` -/
  | notWatched (blockId jobId : ℕ)
  /-- `req_status.transfer_jobs.remove(job_id)` -/
  | notListed (jobId : ℕ)
  /-- `assert count > 0` -/
  | emptyReport (jobId : ℕ)
  /-- `assert job_status.pending_count == 0` -/
  | reportedTooOften (jobId : ℕ)
  /-- `assert len(group_blocks) >= num_gpu_blocks` -/
  | tooFewBlocks
  /-- `assert len(offload_keys) >= …` -/
  | tooFewKeys
  /-- `assert len(offload_keys) == len(offload_block_ids)` -/
  | blockIdsMissing
  /-- The checks of the computed and pending blocks in `update_state_after_alloc`. -/
  | unexpectedBlocks
  /-- `assert len(new_block_id_groups) == len(self.group_states)` -/
  | wrongNumberOfGroups
  /-- The checks of `reset_cache` against an unfinished step. -/
  | stepUnfinished
  /-- The bound on the rounds of `_lookup`. -/
  | tooManyRounds
deriving DecidableEq

/-- `OffloadingConnectorScheduler` -/
structure OffloadingConnectorScheduler (M H : Type) where
  manager : M
  reqStatus : Table RequestId (RequestOffloadState H) := ∅
  currentBatchLoadJobs : List (ℕ × TransferJob) := []
  currentBatchJobsToFlush : List ℕ := []
  currentBatchAllocatedBlockIds : List ℕ := []
  blocksBeingLoaded : List (OffloadKey H) := []
  jobCounter : ℕ := 0
  staleJobThreshold : ℕ := 0
  jobs : Table ℕ (TransferJobStatus (OffloadKey H)) := ∅
  blockIdToPendingJobs : Table ℕ (List ℕ) := ∅

/-- Lift what a manager raises. -/
def liftManager {K A : Type} (x : Except (OffloadError K) A) : Except (ConnectorError K) A :=
  x.mapError .manager

/-! ## Requests -/

namespace RequestGroupState

/-- `update_offload_keys` in one group: one key per offloaded block whose hash is known. -/
def updateOffloadKeys (config : GroupOffloadConfig) (blockHashes : List H) (state : RequestGroupState H) :
    RequestGroupState H :=
  let factor := config.hashBlockSizeFactor
  let newBlocks := (List.range (blockHashes.length / factor)).drop state.offloadKeys.length
  { state with
    offloadKeys := state.offloadKeys ++
      newBlocks.filterMap fun i => (blockHashes[factor * i + factor - 1]?).map (·, config.groupIdx) }

/-- The last GPU block ids of the offloaded blocks from `start` to `stop`. -/
def lastBlockIds (blockSizeFactor start stop : ℕ) (state : RequestGroupState H) : List ℕ :=
  ((List.range stop).drop start).filterMap fun i =>
    state.blockIds[i * blockSizeFactor + blockSizeFactor - 1]?

end RequestGroupState

namespace RequestOffloadState

variable (config : SchedulerOffloadConfig)

def groups (status : RequestOffloadState H) : List (GroupOffloadConfig × RequestGroupState H) :=
  config.kvGroupConfigs.zip status.groupStates

/-- Change the state of every group. -/
def mapGroups
    (f : GroupOffloadConfig → RequestGroupState H → RequestGroupState H) (status : RequestOffloadState H) :
    RequestOffloadState H :=
  { status with groupStates := (status.groups config).map fun (group, state) => f group state }

/-- `update_offload_keys` -/
def updateOffloadKeys (config : SchedulerOffloadConfig) (req : OffloadRequest H)
    (status : RequestOffloadState H) : RequestOffloadState H :=
  status.mapGroups config fun group => .updateOffloadKeys group req.blockHashes

/-- Forget the block ids. -/
def clearBlockIds (status : RequestOffloadState H) : RequestOffloadState H :=
  status.mapGroups config fun _ state => { state with blockIds := [] }

/-- `update_block_id_groups` -/
def updateBlockIdGroups (newBlockIdGroups : List (List ℕ)) (status : RequestOffloadState H) :
    Except (ConnectorError (OffloadKey H)) (RequestOffloadState H) :=
  do
    require (newBlockIdGroups.length = status.groupStates.length) .wrongNumberOfGroups
    return { status with
      groupStates := (status.groupStates.zip newBlockIdGroups).map fun (state, new) =>
        { state with blockIds := state.blockIds ++ new } }

/-- `advance_stored_idx` -/
def advanceStoredIdx (numOffloadableTokens : ℕ) (status : RequestOffloadState H) : RequestOffloadState H :=
  status.mapGroups config fun group state =>
    { state with nextStoredBlockIdx := numOffloadableTokens / group.offloadedBlockSize }

/-- `update_num_hit_blocks` -/
def updateNumHitBlocks (numCachedTokens : ℕ) (status : RequestOffloadState H) : RequestOffloadState H :=
  status.mapGroups config fun group state =>
    { state with numHitBlocks := numCachedTokens / group.offloadedBlockSize }

/-- The tokens that `_build_store_jobs` may offload after the step. -/
def numOffloadableTokens (req : OffloadRequest H) (numScheduledTokens : ℕ)
    (status : RequestOffloadState H) : ℕ :=
  let numTokens := min (req.numComputedTokens + numScheduledTokens) req.numTokens
  let numTokens := match status.maxOffloadTokens with
    | some maxOffloadTokens => min numTokens maxOffloadTokens
    | none => numTokens
  if config.offloadPromptOnly then min numTokens req.numPromptTokens else numTokens

def reachable (group : GroupOffloadConfig) (blockIdx : ℕ) : Bool :=
  match group.alignmentBlockCount with
  | none => true
  | some count => decide (count - group.slidingWindowSizeInBlocks.getD 0 ≤ blockIdx % count)

/-- The keys of one group that `_build_store_jobs` offers to the manager. -/
def newOffloadKeysOf (numTokens : ℕ) (entry : GroupOffloadConfig × RequestGroupState H) :
    Except (ConnectorError (OffloadKey H)) (List (OffloadKey H)) :=
  let (group, state) := entry
  let numBlocks := numTokens / group.offloadedBlockSize
  let start := state.nextStoredBlockIdx
  if numBlocks ≤ start then return []
  else
    let offloadKeys := (state.offloadKeys.take numBlocks).drop start
    let blockIds := state.lastBlockIds config.blockSizeFactor start numBlocks
    if offloadKeys.length = blockIds.length then
      return ((offloadKeys.zip blockIds).zipIdx.filter fun ((_, blockId), i) =>
        decide (blockId ≠ 0) && reachable group (start + i)).map (·.1.1)
    else throw .blockIdsMissing

/-- The keys that `_build_store_jobs` offers to the manager. -/
def newOffloadKeys (numTokens : ℕ) (status : RequestOffloadState H) :
    Except (ConnectorError (OffloadKey H)) (List (OffloadKey H)) := do
  let keys ← (status.groups config).mapM (newOffloadKeysOf config numTokens)
  return keys.flatten

def sourcesOf [DecidableEq H] (config : SchedulerOffloadConfig) (numTokens : ℕ)
    (keysToStore : List (OffloadKey H)) (entry : GroupOffloadConfig × RequestGroupState H) : List (ℕ × ℕ) :=
  let (group, state) := entry
  let numBlocks := numTokens / group.offloadedBlockSize
  let positions := (((state.offloadKeys.take numBlocks).zipIdx).drop state.nextStoredBlockIdx).flatMap
    fun (key, i) =>
      if key ∈ keysToStore then (List.range config.blockSizeFactor).map (i * config.blockSizeFactor + ·)
      else []
  positions.filterMap fun j =>
    match state.blockIds[j]? with
    | some blockId => if blockId = 0 then none else some (j, blockId)
    | none => none

end RequestOffloadState

namespace OffloadingConnectorScheduler

variable [DecidableEq H]

/-- The status of a request. -/
def statusOf (c : OffloadingConnectorScheduler M H) (reqId : RequestId) :
    Except (ConnectorError (OffloadKey H)) (RequestOffloadState H) :=
  match c.reqStatus.lookup reqId with
  | some status => return status
  | none => throw (.unknownRequest reqId)

/-- The status of a job. -/
def jobOf (c : OffloadingConnectorScheduler M H) (jobId : ℕ) :
    Except (ConnectorError (OffloadKey H)) (TransferJobStatus (OffloadKey H)) :=
  match c.jobs.lookup jobId with
  | some job => return job
  | none => throw (.unknownJob jobId)

/-- Change the status of a request. -/
def setStatus (c : OffloadingConnectorScheduler M H) (reqId : RequestId) (status : RequestOffloadState H) :
    OffloadingConnectorScheduler M H :=
  { c with reqStatus := c.reqStatus.insert reqId status }

/-- Watch blocks for a store job. -/
def watch (c : OffloadingConnectorScheduler M H) (jobId : ℕ) (blockIds : List ℕ) :
    OffloadingConnectorScheduler M H :=
  { c with
    blockIdToPendingJobs := blockIds.foldl (fun watched blockId =>
      watched.insert blockId (((watched.lookup blockId).getD []).insert jobId)) c.blockIdToPendingJobs }

/-- `_remove_pending_job` -/
def removePendingJob (c : OffloadingConnectorScheduler M H) (jobId : ℕ) (blockIds : List ℕ) :
    Except (ConnectorError (OffloadKey H)) (OffloadingConnectorScheduler M H) :=
  blockIds.foldlM (fun c blockId =>
    match c.blockIdToPendingJobs.lookup blockId with
    | none => throw (.notWatched blockId jobId)
    | some pending =>
      if jobId ∈ pending then
        let pending := pending.erase jobId
        return { c with
          blockIdToPendingJobs :=
            if pending = [] then c.blockIdToPendingJobs.erase blockId
            else c.blockIdToPendingJobs.insert blockId pending }
      else throw (.notWatched blockId jobId)) c

variable (mgr : OffloadingManager M (OffloadKey H)) (config : SchedulerOffloadConfig)

/-! ## Looking up -/

/-- `_maximal_prefix_lookup` -/
def maximalPrefixLookup (reqId : RequestId) :
    M → List (OffloadKey H) → ℕ → Bool → Except (ConnectorError (OffloadKey H)) (Option ℕ × M)
  | m, [], hitCount, deferLookup => return (if deferLookup then none else some hitCount, m)
  | m, key :: rest, hitCount, deferLookup => do
    let (result, m) ← liftManager (mgr.lookup m key reqId)
    match result with
    | some false => return (if deferLookup then none else some hitCount, m)
    | some true => maximalPrefixLookup reqId m rest (hitCount + 1) deferLookup
    | none => maximalPrefixLookup reqId m rest (hitCount + 1) true

/-- `_sliding_window_lookup`, over the keys from the last one on. -/
def slidingWindowLookup (slidingWindowSize : ℕ) (reqId : RequestId) :
    M → List (OffloadKey H) → ℕ → Bool → Except (ConnectorError (OffloadKey H)) (Option ℕ × M)
  | m, [], consecutiveHits, deferLookup =>
    return (if deferLookup then none else some consecutiveHits, m)
  | m, key :: rest, consecutiveHits, deferLookup => do
    let (result, m) ← liftManager (mgr.lookup m key reqId)
    match result with
    | some true =>
      if consecutiveHits + 1 = slidingWindowSize then
        return (if deferLookup then none else some (rest.length + slidingWindowSize), m)
      else slidingWindowLookup slidingWindowSize reqId m rest (consecutiveHits + 1) deferLookup
    | some false => slidingWindowLookup slidingWindowSize reqId m rest 0 deferLookup
    | none => slidingWindowLookup slidingWindowSize reqId m rest 0 true

/-- The variables of the loops of `_lookup`. -/
structure LookupState (M : Type) where
  manager : M
  maxHitSizeTokens : ℕ
  numHitTokens : ℕ := 0
  deferLookup : Bool := false
  nextGroups : List ℕ := []
  lookedUpSlidingWindow : Bool := false

def lookupKeys (group : GroupOffloadConfig) (reqId : RequestId) (m : M) (keys : List (OffloadKey H)) :
    Except (ConnectorError (OffloadKey H)) (Option ℕ × M) :=
  match group.slidingWindowSizeInBlocks with
  | none => maximalPrefixLookup mgr reqId m keys 0 false
  | some window => slidingWindowLookup mgr window reqId m keys.reverse 0 false

/-- The variables after one group of `_lookup` has been looked up. -/
def LookupState.next (l : LookupState M) (group : GroupOffloadConfig) (m : M) (maxHitSizeTokens : ℕ)
    (newNumHitTokens : ℕ) (deferred : Bool) : LookupState M :=
  let deferLookup := l.deferLookup || deferred
  let shrunk := decide (newNumHitTokens < l.numHitTokens)
  { manager := m
    maxHitSizeTokens
    numHitTokens := newNumHitTokens
    -- a lookup of fewer tokens may not have to be deferred any more
    deferLookup := deferLookup && !shrunk
    nextGroups :=
      if shrunk && deferLookup then config.lookupGroups
      else if shrunk && l.lookedUpSlidingWindow && l.nextGroups.isEmpty then config.slidingWindowGroups
      else l.nextGroups
    lookedUpSlidingWindow := l.lookedUpSlidingWindow || group.slidingWindowSizeInBlocks.isSome }

/-- One group of a round of `_lookup`; nothing if the lookup ends without a hit. -/
def lookupGroup (reqId : RequestId) (req : OffloadRequest H) (numComputedTokens : ℕ) (l : LookupState M)
    (entry : GroupOffloadConfig × RequestGroupState H) :
    Except (ConnectorError (OffloadKey H)) (M × Option (LookupState M)) := do
  let (group, state) := entry
  let blockSize := group.offloadedBlockSize
  require (req.numTokens / blockSize ≤ state.offloadKeys.length) .tooFewKeys
  let maxHitSizeTokens := min l.maxHitSizeTokens (state.offloadKeys.length * blockSize)
  if maxHitSizeTokens < numComputedTokens + blockSize then return (l.manager, none)
  else do
    let numBlocks := min (cdiv maxHitSizeTokens blockSize) state.offloadKeys.length
    let startBlockIdx := numComputedTokens / blockSize
    let (numHitBlocks, m) ←
      lookupKeys mgr group reqId l.manager ((state.offloadKeys.take numBlocks).drop startBlockIdx)
    let maxHitSizeTokens := match numHitBlocks with
      | none => maxHitSizeTokens
      | some n => min maxHitSizeTokens (blockSize * (startBlockIdx + n))
    if numHitBlocks = some 0 ∨ maxHitSizeTokens < numComputedTokens + blockSize then return (m, none)
    else return (m, some (l.next config group m maxHitSizeTokens (maxHitSizeTokens - numComputedTokens)
      numHitBlocks.isNone))

/-- One round of `_lookup` over some groups. -/
def lookupRound (reqId : RequestId) (req : OffloadRequest H) (status : RequestOffloadState H) :
    LookupState M → List ℕ → Except (ConnectorError (OffloadKey H)) (M × Option (LookupState M))
  | l, [] => return (l.manager, some l)
  | l, groupIdx :: rest => do
    match (status.groups config)[groupIdx]? with
    | none => lookupRound reqId req status l rest
    | some entry =>
      match ← lookupGroup mgr config reqId req status.numLocallyComputedTokens l entry with
      | (m, none) => return (m, none)
      | (_, some l) => lookupRound reqId req status l rest

/-- The rounds of `_lookup`. -/
def lookupRounds (reqId : RequestId) (req : OffloadRequest H) (status : RequestOffloadState H) :
    ℕ → LookupState M → List ℕ → Except (ConnectorError (OffloadKey H)) (M × Option (LookupState M))
  | _, l, [] => return (l.manager, some l)
  | 0, _, _ :: _ => throw .tooManyRounds
  | fuel + 1, l, groups => do
    match ← lookupRound mgr config reqId req status
      { l with nextGroups := [], lookedUpSlidingWindow := false } groups with
    | (m, none) => return (m, none)
    | (_, some l) => lookupRounds reqId req status fuel l l.nextGroups

variable (c : OffloadingConnectorScheduler M H)

def hitsBeingLoaded (status : RequestOffloadState H) (numHitTokens : ℕ) : Bool :=
  (status.groups config).any fun (group, state) =>
    let numBlocks := cdiv (status.numLocallyComputedTokens + numHitTokens) group.offloadedBlockSize
    let start := status.numLocallyComputedTokens / group.offloadedBlockSize
    let keys := (state.offloadKeys.take numBlocks).drop start
    let keys := match group.slidingWindowSizeInBlocks with
      | none => keys
      | some window => keys.drop (keys.length - window)
    keys.any (· ∈ c.blocksBeingLoaded)

variable (reqId : RequestId)

/-- `_lookup` -/
def lookup (req : OffloadRequest H) (status : RequestOffloadState H) :
    Except (ConnectorError (OffloadKey H)) (Option ℕ × OffloadingConnectorScheduler M H) := do
  let maxHitSizeTokens := if config.slidingWindowGroups.isEmpty then req.numTokens else req.numTokens - 1
  let (m, result) ← lookupRounds mgr config reqId req status (req.numTokens + 2)
    { manager := c.manager, maxHitSizeTokens } config.lookupGroups
  let c := { c with manager := m }
  match result with
  | none => return (some 0, c)
  | some l =>
    if l.deferLookup then return (none, c)
    else if hitsBeingLoaded config c status l.numHitTokens then return (none, c)
    else return (some l.numHitTokens, c)

/-- `_touch` -/
def touch (m : M) (status : RequestOffloadState H) : M :=
  (status.groups config).foldl (fun m (group, state) =>
    match group.slidingWindowSizeInBlocks with
    | none => mgr.touch m state.offloadKeys
    | some window => mgr.touch m (state.offloadKeys.drop (state.numHitBlocks - window))) m

/-! ## The calls of the scheduler -/

/-- `on_new_request` -/
def onNewRequest (c : OffloadingConnectorScheduler M H) (reqId : RequestId) (req : OffloadRequest H) :
    OffloadingConnectorScheduler M H :=
  let (policy, manager) := mgr.onNewRequest c.manager reqId
  setStatus { c with manager } reqId {
    policy
    groupStates := config.kvGroupConfigs.map fun _ => {}
    maxOffloadTokens := req.maxOffloadTokens }

/-- `get_num_new_matched_tokens` -/
def getNumNewMatchedTokens (req : OffloadRequest H) (numComputedTokens : ℕ) :
    Except (ConnectorError (OffloadKey H)) (Option ℕ × OffloadingConnectorScheduler M H) := do
  let status ← c.statusOf reqId
  let status := { (status.clearBlockIds config).updateOffloadKeys config req with
    numLocallyComputedTokens := numComputedTokens }
  let (numHitTokens, c) ← lookup mgr config c reqId req status
  let status := status.updateNumHitBlocks config (numComputedTokens + numHitTokens.getD 0)
  return (numHitTokens, setStatus { c with manager := touch mgr config c.manager status } reqId status)

structure GroupLoad (H : Type) where
  keys : List (OffloadKey H)
  blockIds : List ℕ
  size : ℕ
  start : ℕ
  numBlocks : ℕ

/-- One group of `update_state_after_alloc`. -/
def groupLoad (numLocallyComputedTokens numCachedTokens : ℕ)
    (entry : (GroupOffloadConfig × RequestGroupState H) × List GPUBlock) :
    Except (ConnectorError (OffloadKey H)) (GroupLoad H) := do
  let ((group, state), blocks) := entry
  let numGpuBlocks := cdiv numCachedTokens group.gpuBlockSize
  require (numGpuBlocks ≤ blocks.length) .tooFewBlocks
  -- null blocks stand for what a sliding window or a state model skips
  let start := ((blocks.take numGpuBlocks).findIdx? fun b => !b.isNull && !b.isHashed).getD numGpuBlocks
  require (numLocallyComputedTokens ≤ start * group.gpuBlockSize) .unexpectedBlocks
  let size := numGpuBlocks - start
  require (∀ window ∈ group.slidingWindowSizeInBlocks, size ≤ window * config.blockSizeFactor)
    .unexpectedBlocks
  let numBlocks := cdiv numCachedTokens group.offloadedBlockSize
  require (numBlocks ≤ state.offloadKeys.length) .tooFewKeys
  let keys := if size = 0 then []
    else (state.offloadKeys.take numBlocks).drop (start / config.blockSizeFactor)
  return { keys, blockIds := ((blocks.take numGpuBlocks).drop start).map (·.blockId), size, start, numBlocks }

def groupsAfterLoad (status : RequestOffloadState H) (loads : List (GroupLoad H)) :
    List (RequestGroupState H) :=
  match status.policy with
  | .blockLevel =>
    (status.groupStates.zip loads).map fun (state, load) => { state with nextStoredBlockIdx := load.numBlocks }
  | .requestLevel => status.groupStates

/-- Issue the load job of a request. -/
def issueLoad (status : RequestOffloadState H)
    (blocks : List (List GPUBlock)) (loads : List (GroupLoad H)) (offloadSlots : List ℕ) :
    OffloadingConnectorScheduler M H :=
  let keysToLoad := loads.flatMap (·.keys)
  let job : TransferJob := {
    reqId
    gpuBlockIds := loads.flatMap (·.blockIds)
    groupSizes := loads.map (·.size)
    blockIndices := loads.map (·.start)
    offloadSlots }
  setStatus { c with
    currentBatchAllocatedBlockIds := c.currentBatchAllocatedBlockIds ++
      (blocks.flatMap fun group => group.map (·.blockId)).filter (· ≠ 0)
    currentBatchLoadJobs := c.currentBatchLoadJobs ++ [(c.jobCounter, job)]
    jobCounter := c.jobCounter + 1
    jobs := c.jobs.insert c.jobCounter {
      reqId
      pendingCount := config.numWorkers
      keys := keysToLoad.dedup
      isStore := false }
    blocksBeingLoaded := if config.enablePrefixCaching then c.blocksBeingLoaded ++ keysToLoad
      else c.blocksBeingLoaded }
    reqId { status with groupStates := groupsAfterLoad status loads, transferJobs := [c.jobCounter] }

/-- `update_state_after_alloc` -/
def updateStateAfterAlloc (blocks : List (List GPUBlock)) (numExternalTokens : ℕ) :
    Except (ConnectorError (OffloadKey H)) (OffloadingConnectorScheduler M H) :=
  if numExternalTokens = 0 then return c
  else do
    let status ← c.statusOf reqId
    let loads ← ((status.groups config).zip blocks).mapM (groupLoad config status.numLocallyComputedTokens
      (status.numLocallyComputedTokens + numExternalTokens))
    let (offloadSlots, manager) ← liftManager (mgr.prepareLoad c.manager (loads.flatMap (·.keys)))
    -- a load can only be issued when no other jobs are pending
    require (status.transferJobs = []) (.transfersPending status.transferJobs)
    return issueLoad config { c with manager } reqId status blocks loads offloadSlots

variable (objs : RequestId → OffloadRequest H)

/-- One scheduled request of `_update_req_states`; with the lengths of its block ids before. -/
def updateReqState (acc : OffloadingConnectorScheduler M H × List (RequestId × List ℕ))
    (entry : RequestId × Option (List (List ℕ)) × Bool) :
    Except (ConnectorError (OffloadKey H))
      (OffloadingConnectorScheduler M H × List (RequestId × List ℕ)) := do
  let (c, ends) := acc
  let (reqId, newBlockIdGroups, preempted) := entry
  let status ← c.statusOf reqId
  let status := status.updateOffloadKeys config (objs reqId)
  let status := if preempted then status.clearBlockIds config else status
  match newBlockIdGroups with
  | none => return (setStatus c reqId status, ends)
  | some new =>
    let status' ← status.updateBlockIdGroups new
    return (setStatus { c with
        currentBatchAllocatedBlockIds := c.currentBatchAllocatedBlockIds ++ new.flatten.filter (· ≠ 0) }
      reqId status', ends ++ [(reqId, status.groupStates.map (·.blockIds.length))])

def zeroStale (allocated : List ℕ) (fin : Option ℕ) (state : RequestGroupState H) : RequestGroupState H :=
  let start := state.nextStoredBlockIdx * config.blockSizeFactor
  { state with
    blockIds := state.blockIds.zipIdx.map fun (blockId, j) =>
      if start ≤ j ∧ j < fin.getD state.blockIds.length ∧ blockId ∈ allocated then 0 else blockId }

/-- `_update_req_states` -/
def updateReqStates
    (output : StepOutput) : Except (ConnectorError (OffloadKey H)) (OffloadingConnectorScheduler M H) := do
  let (c, ends) ← output.reqData.foldlM (updateReqState config objs) (c, [])
  if config.slidingWindowGroups.isEmpty ∨ c.currentBatchAllocatedBlockIds = [] then return c
  else
    return { c with
      reqStatus := c.reqStatus.mapValues fun reqId status => { status with
        groupStates := (status.groups config).zipIdx.map fun ((group, state), i) =>
          if group.slidingWindowSizeInBlocks.isSome then
            zeroStale config c.currentBatchAllocatedBlockIds
              (((ends.find? (·.1 = reqId)).map (·.2)).bind (·[i]?)) state
          else state } }

def storeSources (status : RequestOffloadState H) (numTokens : ℕ) (keysToStore : List (OffloadKey H)) :
    List (Bool × List (ℕ × ℕ)) :=
  (status.groups config).map fun entry =>
    (entry.1.slidingWindowSizeInBlocks.isSome,
      RequestOffloadState.sourcesOf config numTokens keysToStore entry)

/-- The GPU blocks that a store reads in the groups of one kind. -/
def blockIdsOf (sliding : Bool) (sources : List (Bool × List (ℕ × ℕ))) : List ℕ :=
  (sources.filter (·.1 = sliding)).flatMap (·.2.map Prod.snd)

def checkStores (status : RequestOffloadState H) : Except (ConnectorError (OffloadKey H)) Unit :=
  match status.transferJobs with
  | [] => return ()
  | anyJobId :: _ => do
    let job ← c.jobOf anyJobId
    require (job.isStore = true) (.loadPending anyJobId)

variable (reqId : RequestId)

def issueStore (status : RequestOffloadState H)
    (numTokens : ℕ) (keysToStore : List (OffloadKey H)) : OffloadingConnectorScheduler M H :=
  let sources := storeSources config status numTokens keysToStore
  -- sliding window blocks may be freed before the request finishes, the others only then
  let c' := watch c c.jobCounter (blockIdsOf true sources)
  setStatus { c' with
    jobCounter := c.jobCounter + 1
    jobs := c.jobs.insert c.jobCounter {
      reqId
      pendingCount := config.numWorkers
      keys := keysToStore
      isStore := true
      nonSlidingWindowBlockIds := blockIdsOf false sources
      slidingWindowBlockIds := blockIdsOf true sources } }
    reqId { status.advanceStoredIdx config numTokens with
      transferJobs := status.transferJobs ++ [c.jobCounter] }

def storeJob (status : RequestOffloadState H) (numTokens : ℕ)
    (keysToStore : List (OffloadKey H)) (offloadSlots : List ℕ) : TransferJob :=
  let sources := storeSources config status numTokens keysToStore
  { reqId
    gpuBlockIds := sources.flatMap (·.2.map Prod.snd)
    groupSizes := sources.map (·.2.length)
    blockIndices := sources.map fun s => (s.2.head?.map Prod.fst).getD 0
    offloadSlots }

/-- One scheduled request of `_build_store_jobs`. -/
def buildStoreJob
    (acc : List (ℕ × TransferJob) × OffloadingConnectorScheduler M H) (entry : RequestId × ℕ) :
    Except (ConnectorError (OffloadKey H)) (List (ℕ × TransferJob) × OffloadingConnectorScheduler M H) :=
  let (storeJobs, c) := acc
  match c.reqStatus.lookup entry.1 with
  | none => return (storeJobs, c)
  | some status => do
    let numTokens := status.numOffloadableTokens config (objs entry.1) entry.2
    let keys ← status.newOffloadKeys config numTokens
    if keys = [] then return (storeJobs, setStatus c entry.1 (status.advanceStoredIdx config numTokens))
    else do
      let (result, manager) ← liftManager (mgr.prepareStore c.manager keys entry.1)
      match result with
      | none => return (storeJobs, { c with manager })
      | some out =>
        if out.keysToStore = [] then
          return (storeJobs, setStatus { c with manager } entry.1 (status.advanceStoredIdx config numTokens))
        else do
          checkStores c status
          return (storeJobs ++
              [(c.jobCounter, storeJob config entry.1 status numTokens out.keysToStore.dedup out.storeSpec)],
            issueStore config { c with manager := touch mgr config manager status } entry.1 status numTokens
              out.keysToStore.dedup)

def flushPreempted : Except (ConnectorError (OffloadKey H)) (OffloadingConnectorScheduler M H) :=
  match c.reqStatus.lookup reqId with
  | none => return c
  | some status => do
    checkStores c status
    return { c with currentBatchJobsToFlush := c.currentBatchJobsToFlush ++ status.transferJobs }

/-- The store jobs that read a block which is handed out in this step. -/
def reallocatedJobs : List ℕ :=
  c.currentBatchAllocatedBlockIds.flatMap fun blockId => (c.blockIdToPendingJobs.lookup blockId).getD []

/-- The jobs that are flushed because all requests are finished: there might be no later step that
completes them. -/
def leftoverJobs : List ℕ :=
  if !c.reqStatus.entries.isEmpty && c.reqStatus.keys.all fun reqId => (objs reqId).isFinished then
    c.jobs.keys
  else []

/-- `build_connector_meta` -/
def buildConnectorMeta (output : StepOutput) : Except (ConnectorError (OffloadKey H))
      (OffloadingConnectorMetadata × OffloadingConnectorScheduler M H) := do
  let c ← updateReqStates config c objs output
  let manager ← liftManager (mgr.onScheduleEnd c.manager)
  let c ← output.preemptedReqIds.foldlM flushPreempted { c with manager }
  let jobsToFlush := c.currentBatchJobsToFlush ++ c.reallocatedJobs ++ c.leftoverJobs objs
  let (storeJobs, c) ← output.numScheduledTokens.foldlM (buildStoreJob mgr config objs) ([], c)
  return ({ loadJobs := c.currentBatchLoadJobs, storeJobs, jobsToFlush },
    { c with
      currentBatchLoadJobs := []
      currentBatchJobsToFlush := []
      currentBatchAllocatedBlockIds := [] })

/-- Tell the manager that a job is done. -/
def completeTransfer (job : TransferJobStatus (OffloadKey H)) :
    Except (ConnectorError (OffloadKey H)) (OffloadingConnectorScheduler M H) :=
  if job.isStore then do
    let manager ← liftManager (mgr.completeStore c.manager job.keys job.reqId)
    return { c with manager }
  else do
    let manager ← liftManager (mgr.completeLoad c.manager job.keys)
    return { c with manager, blocksBeingLoaded := c.blocksBeingLoaded.filter (· ∉ job.keys) }

/-- Stop watching the blocks of a job; the blocks of full-attention groups are only watched once the
request is finished. -/
def unwatch (finished : Bool) (jobId : ℕ) (job : TransferJobStatus (OffloadKey H)) :
    Except (ConnectorError (OffloadKey H)) (OffloadingConnectorScheduler M H) :=
  if c.blockIdToPendingJobs.entries.isEmpty then return c
  else do
    let c ← c.removePendingJob jobId job.slidingWindowBlockIds
    if finished then c.removePendingJob jobId job.nonSlidingWindowBlockIds else return c

def forgetJob (finished : Bool) (jobId : ℕ) (reqId : RequestId)
    (status : RequestOffloadState H) : OffloadingConnectorScheduler M H :=
  let transferJobs := status.transferJobs.erase jobId
  let c := { c with jobs := c.jobs.erase jobId }
  if transferJobs = [] ∧ finished = true then { c with reqStatus := c.reqStatus.erase reqId }
  else setStatus c reqId { status with transferJobs }

/-- What follows the last report of a job. -/
def completeJob (jobId : ℕ) (job : TransferJobStatus (OffloadKey H)) :
    Except (ConnectorError (OffloadKey H)) (OffloadingConnectorScheduler M H) := do
  let status ← c.statusOf job.reqId
  let c ← completeTransfer mgr c job
  let c ← c.unwatch (objs job.reqId).isFinished jobId job
  require (jobId ∈ status.transferJobs) (.notListed jobId)
  return c.forgetJob (objs job.reqId).isFinished jobId job.reqId status

/-- One job of `update_connector_output`. -/
def reportJob (c : OffloadingConnectorScheduler M H)
    (report : ℕ × ℕ) : Except (ConnectorError (OffloadKey H)) (OffloadingConnectorScheduler M H) := do
  require (0 < report.2) (.emptyReport report.1)
  -- reports of jobs that were discarded by a reset
  if report.1 < c.staleJobThreshold then return c
  else do
    let job ← c.jobOf report.1
    let job := { job with pendingCount := job.pendingCount - report.2 }
    let c := { c with jobs := c.jobs.insert report.1 job }
    if 0 < job.pendingCount then return c
    else do
      require (job.pendingCount = 0) (.reportedTooOften report.1)
      completeJob mgr c objs report.1 job

/-- `update_connector_output`, with the jobs that workers report and how many of them do. -/
def updateConnectorOutput (completedJobs : List (ℕ × ℕ)) :
    Except (ConnectorError (OffloadKey H)) (OffloadingConnectorScheduler M H) :=
  completedJobs.foldlM (reportJob mgr objs) c

def watchJob (jobId : ℕ) : Except (ConnectorError (OffloadKey H)) (OffloadingConnectorScheduler M H) := do
  let job ← c.jobOf jobId
  return c.watch jobId job.nonSlidingWindowBlockIds

/-- `request_finished` -/
def requestFinished : Except (ConnectorError (OffloadKey H)) (OffloadingConnectorScheduler M H) :=
  let c := { c with manager := mgr.onRequestFinished c.manager reqId }
  match c.reqStatus.lookup reqId with
  | none => return c
  | some status =>
    if status.transferJobs = [] then return { c with reqStatus := c.reqStatus.erase reqId }
    -- pending stores outlive the request's ownership of its blocks
    else status.transferJobs.foldlM watchJob c

/-- `reset_cache` -/
def resetCache (c : OffloadingConnectorScheduler M H) :
    Except (ConnectorError (OffloadKey H)) (OffloadingConnectorScheduler M H) := do
  require (c.currentBatchLoadJobs = [] ∧ c.currentBatchJobsToFlush = [] ∧
    c.currentBatchAllocatedBlockIds = []) .stepUnfinished
  return { c with
    currentBatchJobsToFlush := c.jobs.keys
    manager := mgr.resetCache c.manager
    reqStatus := c.reqStatus.mapValues fun _ status => { status with
      groupStates := status.groupStates.map fun state => { state with nextStoredBlockIdx := 0 } }
    staleJobThreshold := c.jobCounter
    jobs := ∅
    blockIdToPendingJobs := ∅
    blocksBeingLoaded := [] }

end OffloadingConnectorScheduler

end VllmPs.Offload
