import VllmPs.Lib.Table
import VllmPs.Offload.CpuManager
import VllmPs.Request.Basic

/-!
# The tiering offloading manager

Blocks that reach the primary CPU tier are cascaded to the secondary tiers, and a block that is only in
a secondary tier is promoted. The secondary tiers are outside of the model: what they answer to a lookup and
which jobs they report is an input of the calls that poll them.
-/

namespace VllmPs.Offload

open Lib

variable {K F : Type}

/-- `JobMetadata` of a transfer between the primary and a secondary tier. -/
structure JobMetadata (K : Type) where
  keys : List K
  blockIds : List ℕ
  isPromotion : Bool
  reqId : RequestId
deriving DecidableEq

/-- `PendingPromotion` -/
structure PendingPromotion (K : Type) where
  keys : List K
  blockIds : List ℕ
  reqId : RequestId
deriving DecidableEq

/-- `JobResult` -/
structure JobResult where
  jobId : ℕ
  success : Bool
deriving DecidableEq

/-- `OffloadPolicy` -/
inductive OffloadPolicy
  | blockLevel
  | requestLevel
deriving DecidableEq

/-- `_pending_load_submissions` -/
abbrev PendingLoads (K : Type) := OrderedDict ℕ (OrderedDict RequestId (PendingPromotion K))

/-- `TieringOffloadingManager`, with the jobs that each secondary tier was given and has not reported. -/
structure TieringOffloadingManager (K F : Type) where
  primaryTier : CPUOffloadingManager K F
  numTiers : ℕ
  jobIdCounter : ℕ := 0
  transferJobs : Table ℕ (JobMetadata K) := ∅
  pendingLoadSubmissions : PendingLoads K := ∅
  processedJobsThisStep : Bool := false
  requestLevelTiers : Table RequestId (List ℕ) := ∅
  submitted : List (ℕ × ℕ) := []

/-- What the tiers report, tier by tier, each result with its tier. -/
def reports (finished : List (List JobResult)) : List (ℕ × JobResult) :=
  finished.zipIdx.flatMap fun p => p.1.map (p.2, ·)

namespace TieringOffloadingManager

def submit (m : TieringOffloadingManager K F) (tier : ℕ) (job : JobMetadata K) :
    TieringOffloadingManager K F :=
  { m with
    jobIdCounter := m.jobIdCounter + 1
    transferJobs := m.transferJobs.insert m.jobIdCounter job
    submitted := m.submitted ++ [(tier, m.jobIdCounter)] }

variable [DecidableEq K]

/-- One finished job of `_process_finished_jobs`. -/
def finishJob (m : TieringOffloadingManager K F) (report : ℕ × JobResult) :
    Except (OffloadError K) (TieringOffloadingManager K F) :=
  match m.transferJobs.lookup report.2.jobId with
  | none => throw (.unknownJob report.2.jobId)
  | some job =>
    let m := { m with
      transferJobs := m.transferJobs.erase report.2.jobId
      submitted := m.submitted.erase (report.1, report.2.jobId) }
    if job.isPromotion then
      return { m with primaryTier := m.primaryTier.completeStore job.keys report.2.success }
    else do
      let primaryTier ← m.primaryTier.completeLoad job.keys
      return { m with primaryTier }

/-- `_process_finished_jobs` -/
def processFinishedJobs (m : TieringOffloadingManager K F) (finished : List (List JobResult)) :
    Except (OffloadError K) (TieringOffloadingManager K F) :=
  (reports finished).foldlM finishJob m

/-- `_maybe_process_finished_jobs` -/
def maybeProcessFinishedJobs (m : TieringOffloadingManager K F) (finished : List (List JobResult)) :
    Except (OffloadError K) (TieringOffloadingManager K F) :=
  if m.processedJobsThisStep then return m
  else processFinishedJobs { m with processedJobsThisStep := true } finished

def cascade (keys : List K) (reqId : RequestId) (m : TieringOffloadingManager K F) (tier : ℕ) :
    Except (OffloadError K) (TieringOffloadingManager K F) := do
  let (blockIds, primaryTier) ← m.primaryTier.prepareLoad keys
  return submit { m with primaryTier } tier { keys, blockIds, isPromotion := false, reqId }

def addPending (pending : PendingLoads K) (tier : ℕ) (reqId : RequestId) (keys : List K)
    (blockIds : List ℕ) : PendingLoads K :=
  let tierPending := (pending.get tier).getD ∅
  let entry := (tierPending.get reqId).getD { keys := [], blockIds := [], reqId }
  pending.set tier (tierPending.set reqId
    { entry with keys := entry.keys ++ keys, blockIds := entry.blockIds ++ blockIds })

/-- The pending promotions with their tiers, in the order in which they are flushed. -/
def pendingEntries (pending : PendingLoads K) : List (ℕ × PendingPromotion K) :=
  pending.entries.flatMap fun p => p.2.entries.map fun q => (p.1, q.2)

/-- `_flush_pending_promotions` -/
def flushPendingPromotions (m : TieringOffloadingManager K F) : TieringOffloadingManager K F :=
  let m' := (pendingEntries m.pendingLoadSubmissions).foldl (fun m e =>
    m.submit e.1 { keys := e.2.keys, blockIds := e.2.blockIds, isPromotion := true, reqId := e.2.reqId }) m
  { m' with pendingLoadSubmissions := ∅ }

/-- `complete_load` -/
def completeLoad (m : TieringOffloadingManager K F) (keys : List K) :
    Except (OffloadError K) (TieringOffloadingManager K F) := do
  let primaryTier ← m.primaryTier.completeLoad keys
  return { m with primaryTier }

/-- `prepare_load` -/
def prepareLoad (m : TieringOffloadingManager K F) (keys : List K) (finished : List (List JobResult)) :
    Except (OffloadError K) (List ℕ × TieringOffloadingManager K F) := do
  let m ← m.maybeProcessFinishedJobs finished
  let (blockIds, primaryTier) ← m.primaryTier.prepareLoad keys
  return (blockIds, { m with primaryTier })

/-- `complete_store` -/
def completeStore (m : TieringOffloadingManager K F) (keys : List K) (reqId : RequestId) (success : Bool) :
    Except (OffloadError K) (TieringOffloadingManager K F) :=
  let m := { m with primaryTier := m.primaryTier.completeStore keys success }
  if success then (List.range m.numTiers).foldlM (cascade keys reqId) m else return m

/-- `_cascade_existing_blocks_to_request_level_tiers` -/
def cascadeExisting (m : TieringOffloadingManager K F) (keys : List K) (reqId : RequestId) (tiers : List ℕ) :
    Except (OffloadError K) (TieringOffloadingManager K F) :=
  let readyKeys := keys.filter fun k => decide (m.primaryTier.answer k = some true)
  let m := { m with primaryTier := keys.foldl CPUOffloadingManager.countLookup m.primaryTier }
  if readyKeys = [] then return m else tiers.foldlM (cascade readyKeys reqId) m

/-- `on_new_request`; the tiers that ask for request-level offloading. -/
def onNewRequest (m : TieringOffloadingManager K F) (reqId : RequestId) (tiers : List ℕ) :
    OffloadPolicy × TieringOffloadingManager K F :=
  let asked := (m.requestLevelTiers.lookup reqId).getD []
  let m := if tiers = [] then m
    else { m with requestLevelTiers := m.requestLevelTiers.insert reqId (asked ++ tiers).dedup }
  (if (m.requestLevelTiers.lookup reqId).isSome then .requestLevel else .blockLevel, m)

/-- `on_request_finished` -/
def onRequestFinished (m : TieringOffloadingManager K F) (reqId : RequestId) : TieringOffloadingManager K F :=
  { m with requestLevelTiers := m.requestLevelTiers.erase reqId }

/-- `on_schedule_end` -/
def onScheduleEnd (m : TieringOffloadingManager K F) (finished : List (List JobResult)) :
    Except (OffloadError K) (TieringOffloadingManager K F) := do
  let m ← m.maybeProcessFinishedJobs finished
  return flushPendingPromotions { m with processedJobsThisStep := false }

variable [ArcFloat F]

/-- `touch` -/
def touch (m : TieringOffloadingManager K F) (keys : List K) : TieringOffloadingManager K F :=
  { m with primaryTier := m.primaryTier.touch keys }

/-- `_initiate_promotion` -/
def initiatePromotion (m : TieringOffloadingManager K F) (tier : ℕ) (key : K) (reqId : RequestId) :
    Except (OffloadError K) (Bool × TieringOffloadingManager K F) := do
  let (result, primaryTier) ← m.primaryTier.prepareStore [key]
  match result with
  | none => return (false, { m with primaryTier })
  | some out =>
    return (true, { m with
      primaryTier
      pendingLoadSubmissions :=
        addPending m.pendingLoadSubmissions tier reqId out.keysToStore out.storeSpec })

def lookupSecondary (m : TieringOffloadingManager K F) (key : K) (reqId : RequestId)
    (answers : List (Option Bool)) : Except (OffloadError K) (Option Bool × TieringOffloadingManager K F) :=
  match answers.findIdx? (· = some true) with
  | some tier => do
    let (started, m) ← m.initiatePromotion tier key reqId
    return (if started then none else some false, m)
  | none => return (if none ∈ answers then none else some false, m)

/-- `lookup`, with the answers of the secondary tiers. -/
def lookup (m : TieringOffloadingManager K F) (key : K) (reqId : RequestId) (answers : List (Option Bool))
    (finished : List (List JobResult)) :
    Except (OffloadError K) (Option Bool × TieringOffloadingManager K F) := do
  let m ← m.maybeProcessFinishedJobs finished
  let (primaryHit, primaryTier) := m.primaryTier.lookup key
  let m := { m with primaryTier }
  if primaryHit = some false then m.lookupSecondary key reqId answers else return (primaryHit, m)

/-- `prepare_store` -/
def prepareStore (m : TieringOffloadingManager K F) (keys : List K) (reqId : RequestId)
    (finished : List (List JobResult)) :
    Except (OffloadError K) (Option (PrepareStoreOutput K) × TieringOffloadingManager K F) := do
  let m ← m.maybeProcessFinishedJobs finished
  let (result, primaryTier) ← m.primaryTier.prepareStore keys
  let m := { m with primaryTier }
  match result, m.requestLevelTiers.lookup reqId with
  | some out, some tiers =>
    let keysAlreadyInPrimary := keys.filter (· ∉ out.keysToStore)
    if keysAlreadyInPrimary = [] then return (some out, m)
    else do
      let m ← m.cascadeExisting keysAlreadyInPrimary reqId tiers
      return (some out, m)
  | result, _ => return (result, m)

end TieringOffloadingManager

end VllmPs.Offload
