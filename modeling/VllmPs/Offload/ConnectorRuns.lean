import VllmPs.Offload.Connector

/-!
# Runs of the offloading connector

The scheduler calls the connector and does not touch a request while blocks are loaded for it.
Each worker reports every job once, possibly long after the connector has forgotten the job.
-/

namespace VllmPs.Offload

open Lib

variable {K F H M : Type}

/-- The connector drives the CPU manager. -/
def cpuManager [DecidableEq K] [ArcFloat F] : OffloadingManager (CPUOffloadingManager K F) K where
  onNewRequest m _ := (.blockLevel, m)
  lookup m key _ := return m.lookup key
  touch m keys := m.touch keys
  prepareLoad m keys := m.prepareLoad keys
  completeLoad m keys := m.completeLoad keys
  prepareStore m keys _ := m.prepareStore keys
  completeStore m keys _ := return m.completeStore keys true
  onRequestFinished m _ := m
  onScheduleEnd m := return m
  resetCache m := m.resetCache

/-- The connector with the scheduler and the workers around it. -/
structure OffloadRun (M H : Type) where
  conn : OffloadingConnectorScheduler M H
  objs : RequestId → OffloadRequest H
  known : List RequestId := []
  /-- How many workers have still to report each job that was issued. -/
  remaining : Table ℕ ℕ := ∅
  /-- The request for which each job was issued, also once the job is over. -/
  owner : ℕ → Option RequestId := fun _ => none
  loading : List (RequestId × ℕ) := []

/-- The requests that a step is about. -/
def StepOutput.reqIds (output : StepOutput) : List RequestId :=
  output.reqData.map Prod.fst ++ output.numScheduledTokens.map Prod.fst ++ output.preemptedReqIds

inductive ConnectorCall (H : Type)
  | onNewRequest (reqId : RequestId) (req : OffloadRequest H)
  /-- The scheduler changes the tokens of a request. -/
  | advance (reqId : RequestId) (req : OffloadRequest H)
  | getNumNewMatchedTokens (reqId : RequestId) (numComputedTokens : ℕ)
  | updateStateAfterAlloc (reqId : RequestId) (blocks : List (List GPUBlock)) (numExternalTokens : ℕ)
  | buildConnectorMeta (output : StepOutput)
  | updateConnectorOutput (completedJobs : List (ℕ × ℕ))
  | requestFinished (reqId : RequestId)
  | resetCache

namespace OffloadRun

variable (mgr : OffloadingManager M (OffloadKey H)) (config : SchedulerOffloadConfig)

/-- Expect the reports of all workers for the jobs issued by a call. -/
def issue (s : OffloadRun M H) (conn : OffloadingConnectorScheduler M H) : OffloadRun M H :=
  { s with
    conn
    remaining := (List.range' s.conn.jobCounter (conn.jobCounter - s.conn.jobCounter)).foldl
      (fun remaining jobId => remaining.insert jobId config.numWorkers) s.remaining
    owner jobId := if s.conn.jobCounter ≤ jobId then (conn.jobs.lookup jobId).map (·.reqId) else s.owner jobId }

/-- Take reports into account. -/
def received (s : OffloadRun M H) (completedJobs : List (ℕ × ℕ)) : Table ℕ ℕ :=
  completedJobs.foldl (fun remaining (jobId, count) =>
    remaining.insert jobId ((remaining.lookup jobId).getD 0 - count)) s.remaining

variable [DecidableEq H]
variable (s : OffloadRun M H)

/-- One call, with the outcome of `build_connector_meta` left out. -/
def step : ConnectorCall H → Except (ConnectorError (OffloadKey H)) (OffloadRun M H)
  | .onNewRequest reqId req =>
    return { s with
      conn := s.conn.onNewRequest mgr config reqId req
      objs := Function.update s.objs reqId req
      known := reqId :: s.known }
  | .advance reqId req => return { s with objs := Function.update s.objs reqId req }
  | .getNumNewMatchedTokens reqId numComputedTokens => do
    let (_, conn) ← s.conn.getNumNewMatchedTokens mgr config reqId (s.objs reqId) numComputedTokens
    return { s with conn }
  | .updateStateAfterAlloc reqId blocks numExternalTokens => do
    let conn ← s.conn.updateStateAfterAlloc mgr config reqId blocks numExternalTokens
    return { s.issue config conn with
      loading := if numExternalTokens = 0 then s.loading else (reqId, s.conn.jobCounter) :: s.loading }
  | .buildConnectorMeta output => do
    let (_, conn) ← s.conn.buildConnectorMeta mgr config s.objs output
    return s.issue config conn
  | .updateConnectorOutput completedJobs => do
    let conn ← s.conn.updateConnectorOutput mgr s.objs completedJobs
    let remaining := s.received completedJobs
    -- a request goes on once all workers have reported its load
    return { s with
      conn
      remaining
      loading := s.loading.filter fun (_, jobId) => decide (remaining.lookup jobId ≠ some 0) }
  | .requestFinished reqId => do
    let conn ← s.conn.requestFinished mgr reqId
    return { s with
      conn
      objs := Function.update s.objs reqId { s.objs reqId with isFinished := true } }
  | .resetCache => do
    let conn ← s.conn.resetCache mgr
    return { s with conn }

/-! ## What the scheduler and the workers keep to -/

/-- A run starts with an empty connector. -/
def Initial : Prop :=
  (∃ manager, s.conn = { manager }) ∧ s.known = [] ∧ s.remaining = ∅ ∧ s.loading = []

/-- The scheduler still has a request. -/
def Active (reqId : RequestId) : Prop :=
  reqId ∈ s.known ∧ (s.objs reqId).isFinished = false
  deriving Decidable

/-- No load of a request is under way. -/
def Idle (reqId : RequestId) : Prop :=
  s.Active reqId ∧ ∀ load ∈ s.loading, load.1 ≠ reqId
  deriving Decidable

/-- The workers have reported every job of the request. -/
def AllReported (reqId : RequestId) : Prop :=
  ∀ jobId ∈ List.range s.conn.jobCounter, s.owner jobId = some reqId → (s.remaining.lookup jobId).getD 0 = 0
  deriving Decidable

/-- The id of a new request is new, a request is neither looked up nor scheduled nor preempted once it is
finished or while it is being loaded, and each worker reports a job that it was given once. -/
def Disciplined : ConnectorCall H → Prop
  | .onNewRequest reqId req => reqId ∉ s.known ∧ req.isFinished = false
  | .advance reqId req => s.Active reqId ∧ req.isFinished = false
  | .getNumNewMatchedTokens reqId _ | .updateStateAfterAlloc reqId _ _ => s.Idle reqId
  | .buildConnectorMeta output => ∀ reqId ∈ output.reqIds, s.Idle reqId
  | .updateConnectorOutput completedJobs => (completedJobs.map Prod.fst).Nodup ∧
    ∀ report ∈ completedJobs, 0 < report.2 ∧ report.2 ≤ (s.remaining.lookup report.1).getD 0
  | .requestFinished reqId => s.Active reqId
  | .resetCache => True

instance (s : OffloadRun M H) : (call : ConnectorCall H) → Decidable (s.Disciplined call)
  | .onNewRequest _ _ | .advance _ _ | .updateConnectorOutput _ => inferInstanceAs (Decidable (_ ∧ _))
  | .getNumNewMatchedTokens reqId _ | .updateStateAfterAlloc reqId _ _ => inferInstanceAs (Decidable (s.Idle reqId))
  | .buildConnectorMeta output => inferInstanceAs (Decidable (∀ reqId ∈ output.reqIds, s.Idle reqId))
  | .requestFinished reqId => inferInstanceAs (Decidable (s.Active reqId))
  | .resetCache => inferInstanceAs (Decidable True)

/-! ## A small set-up -/

def oneWorker : SchedulerOffloadConfig := .fromSpec [(1, .fullAttention)] 1 1 1 false true

/-- A request of three tokens. -/
def threeTokens (numComputedTokens : ℕ) : OffloadRequest ℕ where
  blockHashes := [1, 2, 3]
  numTokens := 3
  numPromptTokens := 3
  numComputedTokens

/-- The first two blocks of a new request are stored. -/
def storeOnce : List (ConnectorCall ℕ) :=
  [.onNewRequest "A" (threeTokens 0),
    .getNumNewMatchedTokens "A" 0,
    .updateStateAfterAlloc "A" [[⟨1, false, false⟩, ⟨2, false, false⟩]] 0,
    .buildConnectorMeta ⟨[("A", some [[1, 2]], false)], [("A", 2)], []⟩,
    .advance "A" (threeTokens 2)]

end OffloadRun

end VllmPs.Offload
