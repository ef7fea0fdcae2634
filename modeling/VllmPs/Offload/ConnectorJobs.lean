import VllmPs.Offload.ConnectorRuns

/-!
# The jobs of the offloading connector

A job is held in the table of jobs and in the set of its request. Most calls leave the two alone,
a load or store adds a job under a new id, and the last report takes it out of both. Which jobs a
call can name in what it raises is shown too.
-/

namespace VllmPs.Offload

open Lib List Option AList

variable {H M : Type}
variable {K : Type}

/-- The jobs that an error is about. -/
def ConnectorError.jobIds : ConnectorError K → List ℕ
  | .unknownJob jobId | .loadPending jobId | .notWatched _ jobId | .notListed jobId | .emptyReport jobId
  | .reportedTooOften jobId => [jobId]
  | .transfersPending jobIds => jobIds
  | _ => []

/-- Whether an error is about jobs. -/
def ConnectorError.isAboutJob : ConnectorError K → Bool
  | .unknownJob _ | .loadPending _ | .notWatched _ _ | .notListed _ | .emptyReport _ | .reportedTooOften _
  | .transfersPending _ => true
  | _ => false

theorem ConnectorError.jobIds_eq_nil {e : ConnectorError K} (h : e.isAboutJob = false) : e.jobIds = [] := by
  cases e <;> first | rfl | cases h

abbrev JobFree {A : Type} (x : Except (ConnectorError K) A) : Prop := OnlyRaises (·.isAboutJob = false) x

/-- A computation that raises nothing about jobs and returns values with a property. -/
abbrev JobFreely {A : Type} (Q : A → Prop) (x : Except (ConnectorError K) A) : Prop :=
  Meets (·.isAboutJob = false) Q x

theorem meets_liftManager {A : Type} (x : Except (OffloadError K) A) : JobFreely (x = .ok ·) (liftManager x) := by
  cases x with
  | ok a => exact .ok rfl
  | error e => exact .error rfl

namespace OffloadingConnectorScheduler

variable {jobId : ℕ} {job : TransferJobStatus (OffloadKey H)} {objs : RequestId → OffloadRequest H}
variable {req : OffloadRequest H}

/-- The jobs of a request. -/
def jobIds (c : OffloadingConnectorScheduler M H) (reqId : RequestId) : Option (List ℕ) :=
  (c.reqStatus.lookup reqId).map (·.transferJobs)

/-- Nothing has happened to jobs. -/
structure SameJobs (c c' : OffloadingConnectorScheduler M H) : Prop where
  jobs : c'.jobs = c.jobs
  jobCounter : c'.jobCounter = c.jobCounter
  staleJobThreshold : c'.staleJobThreshold = c.staleJobThreshold
  jobIds : ∀ reqId, c'.jobIds reqId = c.jobIds reqId

variable {c c' c'' : OffloadingConnectorScheduler M H} {reqId : RequestId} {status : RequestOffloadState H}

theorem SameJobs.refl (c : OffloadingConnectorScheduler M H) : SameJobs c c :=
  ⟨rfl, rfl, rfl, fun _ => rfl⟩

theorem SameJobs.trans (h : SameJobs c c') (h' : SameJobs c' c'') : SameJobs c c'' :=
  ⟨h'.jobs.trans h.jobs, h'.jobCounter.trans h.jobCounter,
    h'.staleJobThreshold.trans h.staleJobThreshold, fun r => (h'.jobIds r).trans (h.jobIds r)⟩

structure Untouched (c c' : OffloadingConnectorScheduler M H) : Prop extends SameJobs c c' where
  manager : c'.manager = c.manager

theorem Untouched.refl (c : OffloadingConnectorScheduler M H) : Untouched c c := ⟨.refl c, rfl⟩

theorem Untouched.trans (h : Untouched c c') (h' : Untouched c' c'') : Untouched c c'' :=
  ⟨h.toSameJobs.trans h'.toSameJobs, h'.manager.trans h.manager⟩

theorem jobIds_setStatus (c : OffloadingConnectorScheduler M H) (reqId : RequestId)
    (status : RequestOffloadState H) (r : RequestId) :
    (c.setStatus reqId status).jobIds r = if r = reqId then some status.transferJobs else c.jobIds r := by
  unfold jobIds setStatus
  split_ifs with h
  · rw [h, lookup_insert, map_some]
  · rw [lookup_insert_ne h]

theorem SameJobs.setStatus {old : RequestOffloadState H} (h : SameJobs c c')
    (hold : c.reqStatus.lookup reqId = some old) (hjobs : status.transferJobs = old.transferJobs) :
    SameJobs c (c'.setStatus reqId status) := by
  refine { h with jobIds := fun r => ?_ }
  rw [jobIds_setStatus]
  split_ifs with hr
  · change _ = (c.reqStatus.lookup r).map _
    rw [hr, hold, map_some, hjobs]
  · exact h.jobIds r

theorem jobIds_of_lookup (h : c.reqStatus.lookup reqId = some status) :
    c.jobIds reqId = some status.transferJobs := by
  unfold jobIds
  rw [h, map_some]

theorem meets_statusOf (c : OffloadingConnectorScheduler M H) (reqId : RequestId) :
    JobFreely (c.reqStatus.lookup reqId = some ·) (c.statusOf reqId) := by
  unfold statusOf
  split
  next status hstatus => exact .ok hstatus
  next => exact .error rfl

theorem jobOf_eq_ok (h : c.jobOf jobId = .ok job) : c.jobs.lookup jobId = some job := by
  unfold jobOf at h
  split at h
  next j hj => rw [hj, Except.ok.inj h]
  next => cases h

variable (mgr : OffloadingManager M (OffloadKey H)) (config : SchedulerOffloadConfig) {before : List ℕ} {id : ℕ}

/-! ## Looking up -/

section

variable {P : M → Prop} (hP : ∀ m key r, P m → mgr.lookup m key reqId = .ok r → P r.2)
variable {m : M} {keys : List (OffloadKey H)} {deferLookup : Bool} {l : LookupState M} {n : ℕ}
include hP

theorem meets_lookupKey (key : OffloadKey H) (hm : P m) :
    JobFreely (P ·.2) (liftManager (mgr.lookup m key reqId)) :=
  (meets_liftManager _).mono (fun _ => id) fun r hr => hP m key r hm hr

theorem meets_maximalPrefixLookup (hm : P m) :
    JobFreely (P ·.2) (maximalPrefixLookup mgr reqId m keys n deferLookup) := by
  induction keys generalizing m n deferLookup with
  | nil => exact .ok hm
  | cons key rest ih =>
    refine .bind (meets_lookupKey mgr hP key hm) fun (result, m') hm' => ?_
    match result with
    | none => exact ih hm'
    | some true => exact ih hm'
    | some false => exact .ok hm'

theorem meets_slidingWindowLookup (window : ℕ) (hm : P m) :
    JobFreely (P ·.2) (slidingWindowLookup mgr window reqId m keys n deferLookup) := by
  induction keys generalizing m n deferLookup with
  | nil => exact .ok hm
  | cons key rest ih =>
    refine .bind (meets_lookupKey mgr hP key hm) fun (result, m') hm' => ?_
    match result with
    | none => exact ih hm'
    | some true => exact .ite (fun _ => .ok hm') fun _ => ih hm'
    | some false => exact ih hm'

theorem meets_lookupGroup (entry : GroupOffloadConfig × RequestGroupState H) (hl : P l.manager) :
    JobFreely (fun r => P r.1 ∧ ∀ l' ∈ r.2, P l'.manager)
      (lookupGroup mgr config reqId req n l entry) := by
  obtain ⟨group, state⟩ := entry
  refine .require (fun _ => rfl) fun _ => .ite (fun _ => .ok ⟨hl, nofun⟩) fun _ => ?_
  refine .bind (Q := (P ·.2)) ?_ fun r hr => .ite (fun _ => .ok ⟨hr, nofun⟩) fun _ => .ok ⟨hr, ?_⟩
  · unfold lookupKeys
    split
    · exact meets_maximalPrefixLookup mgr hP hl
    · exact meets_slidingWindowLookup mgr hP _ hl
  · rintro _ ⟨⟩
    exact hr

theorem meets_lookupRound (groups : List ℕ) (hl : P l.manager) :
    JobFreely (fun r => P r.1 ∧ ∀ l' ∈ r.2, P l'.manager)
      (lookupRound mgr config reqId req status l groups) := by
  induction groups generalizing l with
  | nil => exact .ok ⟨hl, fun l' hl' => some.inj hl' ▸ hl⟩
  | cons groupIdx rest ih =>
    unfold lookupRound
    split
    · exact ih hl
    refine .bind (meets_lookupGroup mgr config hP _ hl) fun (m, result) hr => ?_
    cases result with
    | none => exact .ok hr
    | some l => exact ih (hr.2 l rfl)

theorem meets_lookupRounds (fuel : ℕ) (groups : List ℕ) (hl : P l.manager) :
    JobFreely (P ·.1) (lookupRounds mgr config reqId req status fuel l groups) := by
  induction fuel generalizing l groups with
  | zero =>
    cases groups with
    | nil => exact .ok hl
    | cons _ _ => exact .error rfl
  | succ fuel ih =>
    cases groups with
    | nil => exact .ok hl
    | cons _ _ =>
      refine .bind (meets_lookupRound mgr config hP _ hl) fun (m, result) hr => ?_
      cases result with
      | none => exact .ok hr.1
      | some l => exact ih _ (hr.2 l rfl)

theorem meets_lookup [DecidableEq H] (hc : P c.manager) :
    JobFreely (fun r => ∃ m, r.2 = { c with manager := m } ∧ P m)
      (lookup mgr config c reqId req status) := by
  refine .bind (meets_lookupRounds mgr config hP _ _ hc) fun (m, result) hm => ?_
  cases result with
  | none => exact .ok ⟨m, rfl, hm⟩
  | some l =>
    exact .ite (fun _ => .ok ⟨m, rfl, hm⟩) fun _ => .ite (fun _ => .ok ⟨m, rfl, hm⟩) fun _ => .ok ⟨m, rfl, hm⟩

/-! ### The number of rounds

A round asks for another one only when a group has brought the number of hit tokens down. -/

omit hP in
theorem liftManager_raises {A : Type} (x : Except (OffloadError (OffloadKey H)) A) :
    OnlyRaises (· ≠ .tooManyRounds) (liftManager x) := by
  cases x with
  | ok a => exact .ok _
  | error e => exact .error nofun

omit hP in
theorem lookupKeys_raises (group : GroupOffloadConfig) :
    OnlyRaises (· ≠ .tooManyRounds) (lookupKeys mgr group reqId m keys) := by
  unfold lookupKeys
  split
  · generalize 0 = n, false = deferLookup
    induction keys generalizing m n deferLookup with
    | nil => exact .ok _
    | cons key rest ih =>
      refine .bind (liftManager_raises _) fun (result, m') _ => ?_
      match result with
      | none => exact ih _ _
      | some true => exact ih _ _
      | some false => exact .ok _
  · generalize keys.reverse = keys, 0 = n, false = deferLookup
    induction keys generalizing m n deferLookup with
    | nil => exact .ok _
    | cons key rest ih =>
      refine .bind (liftManager_raises _) fun (result, m') _ => ?_
      match result with
      | none => exact ih _ _
      | some true => exact .ite (fun _ => .ok _) fun _ => ih _ _
      | some false => exact ih _ _

/-- From one lookup to a later one of the same round: the hits have not grown, and have shrunk if another round
is asked for. -/
def Narrows (numComputedTokens : ℕ) (l l' : LookupState M) : Prop :=
  l'.numHitTokens ≤ l'.maxHitSizeTokens - numComputedTokens ∧ l'.maxHitSizeTokens ≤ l.maxHitSizeTokens ∧
    (l'.nextGroups = l.nextGroups ∨ l'.maxHitSizeTokens < l.maxHitSizeTokens)

omit hP in
theorem next_narrows (hl : l.numHitTokens ≤ l.maxHitSizeTokens - n) (group : GroupOffloadConfig) (m : M)
    {maxHitSizeTokens : ℕ} (hle : maxHitSizeTokens ≤ l.maxHitSizeTokens) (deferred : Bool) :
    Narrows n l (l.next config group m maxHitSizeTokens (maxHitSizeTokens - n) deferred) := by
  refine ⟨le_rfl, hle, ?_⟩
  dsimp only [LookupState.next]
  by_cases hshrunk : maxHitSizeTokens - n < l.numHitTokens
  · exact .inr (by omega)
  · left
    simp only [decide_eq_false hshrunk, Bool.false_and, Bool.false_eq_true, if_false]

omit hP in
theorem lookupGroup_narrows (entry : GroupOffloadConfig × RequestGroupState H)
    (hl : l.numHitTokens ≤ l.maxHitSizeTokens - n) :
    Meets (· ≠ .tooManyRounds) (fun r => ∀ l' ∈ r.2, Narrows n l l') (lookupGroup mgr config reqId req n l entry) := by
  obtain ⟨group, state⟩ := entry
  refine .require (fun _ => nofun) fun _ => .ite (fun _ => .ok nofun) fun _ => ?_
  refine .bind (Q := fun _ => True) ⟨lookupKeys_raises mgr group, fun _ _ => trivial⟩ fun (hits, m) _ => ?_
  refine .ite (fun _ => .ok nofun) fun _ => .ok ?_
  rintro _ ⟨⟩
  refine next_narrows config hl group m ?_ _
  cases hits with
  | none => exact min_le_left _ _
  | some k => exact (min_le_left _ _).trans (min_le_left _ _)

omit hP in
theorem lookupRound_narrows (groups : List ℕ)
    (hl : l.numHitTokens ≤ l.maxHitSizeTokens - status.numLocallyComputedTokens) :
    Meets (· ≠ .tooManyRounds) (fun r => ∀ l' ∈ r.2, Narrows status.numLocallyComputedTokens l l')
      (lookupRound mgr config reqId req status l groups) := by
  induction groups generalizing l with
  | nil => exact .ok fun l' hl' => some.inj hl' ▸ ⟨hl, le_rfl, .inl rfl⟩
  | cons groupIdx rest ih =>
    unfold lookupRound
    split
    · exact ih hl
    refine .bind (lookupGroup_narrows mgr config _ hl) fun (m, result) hr => ?_
    cases result with
    | none => exact .ok nofun
    | some l₁ =>
      obtain ⟨hhits, hle, hnext⟩ := hr l₁ rfl
      refine (ih hhits).mono (fun _ => id) fun r hr l' hl' => ?_
      obtain ⟨hhits', hle', hnext'⟩ := hr l' hl'
      refine ⟨hhits', hle'.trans hle, ?_⟩
      rcases hnext' with hsame' | hlt'
      · rcases hnext with hsame | hlt
        · exact .inl (hsame'.trans hsame)
        · exact .inr (hle'.trans_lt hlt)
      · exact .inr (hlt'.trans_le hle)

omit hP in
/-- The bound on the rounds is never reached: every further round has fewer hits to look for. -/
theorem lookupRounds_bounded {fuel : ℕ} (groups : List ℕ) (hfuel : l.maxHitSizeTokens < fuel)
    (hl : l.numHitTokens ≤ l.maxHitSizeTokens - status.numLocallyComputedTokens) :
    OnlyRaises (· ≠ .tooManyRounds) (lookupRounds mgr config reqId req status fuel l groups) := by
  induction fuel generalizing l groups with
  | zero => exact absurd hfuel (Nat.not_lt_zero _)
  | succ fuel ih =>
    cases groups with
    | nil => exact .ok _
    | cons groupIdx rest =>
      have hround : Meets (· ≠ .tooManyRounds) _ (lookupRound mgr config reqId req status
          { l with nextGroups := [], lookedUpSlidingWindow := false } (groupIdx :: rest)) :=
        lookupRound_narrows mgr config (groupIdx :: rest) hl
      refine .bind hround.raises fun (m, result) hresult => ?_
      cases result with
      | none => exact .ok _
      | some l' =>
        obtain ⟨hhits, -, hnext⟩ := hround.ensures hresult l' rfl
        rcases hnext with hdone | hlt
        · dsimp only at hdone ⊢
          rw [hdone]
          cases fuel <;> exact .ok _
        · exact ih _ (by dsimp only at hlt; omega) hhits

omit hP in
theorem lookup_bounded [DecidableEq H] :
    OnlyRaises (· ≠ .tooManyRounds) (lookup mgr config c reqId req status) := by
  refine .bind (lookupRounds_bounded mgr config _ ?_ (Nat.zero_le _)) fun (m, result) _ => ?_
  · dsimp only
    split_ifs <;> omega
  · cases result with
    | none => exact .ok _
    | some l => exact .ite (fun _ => .ok _) fun _ => .ite (fun _ => .ok _) fun _ => .ok _

omit hP in
theorem touch_keeps (htouch : ∀ m keys, P m → P (mgr.touch m keys)) (status : RequestOffloadState H) (hm : P m) :
    P (touch mgr config m status) := by
  refine List.foldlRecOn _ _ hm fun m hm (group, state) _ => ?_
  dsimp only
  split
  · exact htouch _ _ hm
  · exact htouch _ _ hm

theorem meets_getNumNewMatchedTokens [DecidableEq H] (htouch : ∀ m keys, P m → P (mgr.touch m keys))
    (hc : P c.manager) :
    JobFreely (fun r => SameJobs c r.2 ∧ P r.2.manager) (getNumNewMatchedTokens mgr config c reqId req n) := by
  refine .bind (meets_statusOf c reqId) fun status hstatus => .bind (meets_lookup mgr config hP hc) ?_
  rintro ⟨hits, _⟩ ⟨m, rfl, hm⟩
  refine .ok ⟨SameJobs.setStatus (c := c) ⟨rfl, rfl, rfl, fun _ => rfl⟩ hstatus rfl, ?_⟩
  exact touch_keeps mgr config htouch _ hm

end

/-! ## Request states -/

theorem meets_updateReqState (acc : OffloadingConnectorScheduler M H × List (RequestId × List ℕ))
    (entry : RequestId × Option (List (List ℕ)) × Bool) :
    JobFreely (Untouched acc.1 ·.1) (updateReqState config objs acc entry) := by
  obtain ⟨c, ends⟩ := acc
  obtain ⟨reqId, new, preempted⟩ := entry
  refine .bind (meets_statusOf c reqId) fun status hstatus => ?_
  have hcleared : ∀ st : RequestOffloadState H,
      (if preempted then st.clearBlockIds config else st).transferJobs = st.transferJobs := by
    intro st
    split_ifs <;> rfl
  cases new with
  | none => exact .ok ⟨(SameJobs.refl c).setStatus hstatus (hcleared _), rfl⟩
  | some new =>
    refine .bind (Q := (·.transferJobs = status.transferJobs))
      (.require (fun _ => rfl) fun _ => .ok (hcleared _)) fun status' hjobs => .ok ⟨?_, rfl⟩
    exact SameJobs.setStatus (c := c) ⟨rfl, rfl, rfl, fun _ => rfl⟩ hstatus hjobs

theorem meets_updateReqStates (c : OffloadingConnectorScheduler M H) (objs : RequestId → OffloadRequest H)
    (output : StepOutput) : JobFreely (Untouched c) (updateReqStates config c objs output) := by
  refine .bind (Meets.foldlM (I := fun acc => Untouched c acc.1) (fun acc entry _ hacc => ?_) (.refl c))
    fun (c₁, ends) hsame => .ite (fun _ => .ok hsame) fun _ => .ok (hsame.trans ⟨⟨rfl, rfl, rfl, fun r => ?_⟩, rfl⟩)
  · exact (meets_updateReqState config acc entry).mono (fun _ => id) fun _ => hacc.trans
  · unfold jobIds
    rw [Table.lookup_mapValues, Option.map_map]
    rfl

/-! ## Issuing jobs -/

structure Issued (c c' : OffloadingConnectorScheduler M H) (reqId : RequestId) (before : List ℕ)
    (job : TransferJobStatus (OffloadKey H)) : Prop where
  jobs : c'.jobs = c.jobs.insert c.jobCounter job
  jobCounter : c'.jobCounter = c.jobCounter + 1
  staleJobThreshold : c'.staleJobThreshold = c.staleJobThreshold
  had : c.jobIds reqId = some before
  jobIds : ∀ r, c'.jobIds r = if r = reqId then some (before ++ [c.jobCounter]) else c.jobIds r
  owner : job.reqId = reqId
  pendingCount : job.pendingCount = config.numWorkers

theorem meets_updateStateAfterAlloc [DecidableEq H] (c : OffloadingConnectorScheduler M H) (reqId : RequestId)
    (blocks : List (List GPUBlock)) (numExternalTokens : ℕ) :
    Meets (fun e => e.isAboutJob = false ∨ ∃ ids, c.jobIds reqId = some ids ∧ ids ≠ [] ∧ e = .transfersPending ids)
      (fun c' => numExternalTokens = 0 ∧ c' = c ∨ numExternalTokens ≠ 0 ∧
        ∃ job keys slots, job.isStore = false ∧ mgr.prepareLoad c.manager keys = .ok (slots, c'.manager) ∧
          Issued config c c' reqId [] job)
      (updateStateAfterAlloc mgr config c reqId blocks numExternalTokens) := by
  refine .ite (fun hzero => .ok (.inl ⟨hzero, rfl⟩)) fun hzero => ?_
  refine .bind ((meets_statusOf c reqId).mono (fun _ => .inl) fun _ => id) fun status hstatus => ?_
  have hids := jobIds_of_lookup hstatus
  refine .bind ⟨(OnlyRaises.mapM (fun entry => ?_) _).mono fun _ => .inl, fun _ => id⟩ fun loads _ => ?_
  · obtain ⟨⟨group, state⟩, blocks⟩ := entry
    exact .bind (.require fun _ => rfl) fun _ _ => .bind (.require fun _ => rfl) fun _ _ =>
      .bind (.require fun _ => rfl) fun _ _ => .bind (.require fun _ => rfl) fun _ _ => .ok _
  refine .bind ((meets_liftManager _).mono (fun _ => .inl) fun _ => id) fun (slots, manager) hprepare => ?_
  refine .require (fun hne => .inr ⟨_, hids, hne, rfl⟩) fun hnone => .ok (.inr ⟨hzero, _, _, slots, ?_, hprepare,
    rfl, rfl, rfl, hids.trans (congrArg some hnone), jobIds_setStatus _ _ _, rfl, rfl⟩)
  rfl

def FailsCheck (c : OffloadingConnectorScheduler M H) (reqId : RequestId) (e : ConnectorError (OffloadKey H)) : Prop :=
  ∃ status, c.reqStatus.lookup reqId = some status ∧ c.checkStores status = .error e

/-- What one request of `_build_store_jobs` does: nothing, unless the manager takes some of its blocks. -/
inductive StoreStep [DecidableEq H] (c c' : OffloadingConnectorScheduler M H) (reqId : RequestId) : Prop
  | same (h : Untouched c c')
  | declined {keys : List (OffloadKey H)} {result : Option (PrepareStoreOutput (OffloadKey H))}
      (h : SameJobs c c') (hprepare : mgr.prepareStore c.manager keys reqId = .ok (result, c'.manager))
      (hnone : ∀ out ∈ result, out.keysToStore = [])
  | issued {keys : List (OffloadKey H)} {out : PrepareStoreOutput (OffloadKey H)} {manager : M}
      {status : RequestOffloadState H} {before : List ℕ} {job : TransferJobStatus (OffloadKey H)}
      (h : Issued config c c' reqId before job)
      (hprepare : mgr.prepareStore c.manager keys reqId = .ok (some out, manager))
      (hmanager : c'.manager = touch mgr config manager status) (hstore : job.isStore = true)
      (hkeys : job.keys = out.keysToStore.dedup)

theorem jobFree_newOffloadKeys (status : RequestOffloadState H) (numTokens : ℕ) :
    JobFree (status.newOffloadKeys config numTokens) := by
  refine .bind (.mapM (fun entry => ?_) _) fun _ _ => .ok _
  exact .ite (fun _ => .ok _) fun _ => .ite (fun _ => .ok _) fun _ => .error rfl

theorem meets_buildStoreJob [DecidableEq H] (acc : List (ℕ × TransferJob) × OffloadingConnectorScheduler M H)
    (entry : RequestId × ℕ) :
    Meets (fun e => e.isAboutJob = false ∨ FailsCheck acc.2 entry.1 e)
      (fun r => StoreStep mgr config acc.2 r.2 entry.1) (buildStoreJob mgr config objs acc entry) := by
  obtain ⟨storeJobs, c⟩ := acc
  unfold buildStoreJob
  dsimp only
  split
  · exact .ok (.same (.refl c))
  next status hstatus =>
    refine .bind ⟨(jobFree_newOffloadKeys config status _).mono fun _ => .inl, fun _ => id⟩ fun keys _ =>
      .ite (fun _ => .ok (.same ⟨(SameJobs.refl c).setStatus hstatus rfl, rfl⟩)) fun _ => ?_
    refine .bind ((meets_liftManager _).mono (fun _ => .inl) fun _ => id) fun (result, manager) hprepare => ?_
    cases result with
    | none => exact .ok (.declined ⟨rfl, rfl, rfl, fun _ => rfl⟩ hprepare nofun)
    | some out =>
      refine .ite (fun hnone => .ok (.declined ?_ hprepare ?_)) fun _ => ?_
      · exact SameJobs.setStatus (c := c) ⟨rfl, rfl, rfl, fun _ => rfl⟩ hstatus rfl
      · rintro _ ⟨⟩
        exact hnone
      refine .bind ⟨fun e he => .inr ⟨status, hstatus, he⟩, fun _ => id⟩ fun _ _ => .ok ?_
      exact .issued ⟨rfl, rfl, rfl, jobIds_of_lookup hstatus, jobIds_setStatus _ _ _, rfl, rfl⟩ hprepare rfl rfl rfl

theorem meets_flushPreempted (c : OffloadingConnectorScheduler M H) (reqId : RequestId) :
    Meets (FailsCheck c reqId) (Untouched c) (c.flushPreempted reqId) := by
  unfold flushPreempted
  split
  · exact .ok (.refl c)
  next status hstatus =>
    exact .bind ⟨fun e he => ⟨status, hstatus, he⟩, fun _ => id⟩ fun _ _ =>
      .ok ⟨⟨rfl, rfl, rfl, fun _ => rfl⟩, rfl⟩

/-- What every part of `build_connector_meta` keeps, it keeps, and it raises nothing about jobs but where a check
fails on the way. -/
theorem meets_buildConnectorMeta [DecidableEq H] {I : OffloadingConnectorScheduler M H → Prop} {output : StepOutput}
    (hsame : ∀ c c', Untouched c c' → I c → I c')
    (hend : ∀ c m, mgr.onScheduleEnd c.manager = .ok m → I c → I { c with manager := m })
    (hstore : ∀ c c', ∀ entry ∈ output.numScheduledTokens, StoreStep mgr config c c' entry.1 → I c → I c')
    (hc : I c) :
    Meets (fun e => e.isAboutJob = false ∨ ∃ reqId ∈ output.reqIds, ∃ c', I c' ∧ FailsCheck c' reqId e) (I ·.2)
      (buildConnectorMeta mgr config c objs output) := by
  refine .bind ((meets_updateReqStates config c objs output).mono (fun _ => .inl) fun c₁ h => hsame c c₁ h hc)
    fun c₁ hc₁ => ?_
  refine .bind ((meets_liftManager _).mono (fun _ => .inl) fun m hm => hend c₁ m hm hc₁) fun manager hmanager => ?_
  refine .bind (.foldlM (I := I) (fun c₂ reqId hreq hc₂ => ?_) hmanager) fun c₂ hc₂ => ?_
  · refine (meets_flushPreempted c₂ reqId).mono (fun e he => .inr ⟨reqId, ?_, c₂, hc₂, he⟩)
      fun c₃ h => hsame c₂ c₃ h hc₂
    exact mem_append_right _ hreq
  refine .bind (.foldlM (I := (I ·.2)) (fun acc entry hentry hacc => ?_) hc₂) fun (storeJobs, c₃) hc₃ =>
    .ok (hsame c₃ _ ⟨⟨rfl, rfl, rfl, fun _ => rfl⟩, rfl⟩ hc₃)
  refine (meets_buildStoreJob mgr config acc entry).mono (fun e he => he.imp_right fun hfails => ?_) fun r h =>
    hstore acc.2 r.2 entry hentry h hacc
  exact ⟨entry.1, mem_append_left _ (mem_append_right _ (mem_map_of_mem hentry)), acc.2, hacc, hfails⟩

/-! ## Completing jobs -/

theorem meets_removePendingJob (c : OffloadingConnectorScheduler M H) (jobId : ℕ) (blockIds : List ℕ) :
    Meets (·.jobIds = [jobId]) (Untouched c) (c.removePendingJob jobId blockIds) := by
  refine .foldlM (I := Untouched c) (fun c₁ blockId _ hsame => ?_) (.refl c)
  split
  · exact .error rfl
  · exact .ite (fun _ => .ok (hsame.trans ⟨⟨rfl, rfl, rfl, fun _ => rfl⟩, rfl⟩)) fun _ => .error rfl

theorem meets_unwatch (c : OffloadingConnectorScheduler M H) (finished : Bool) (jobId : ℕ)
    (job : TransferJobStatus (OffloadKey H)) :
    Meets (·.jobIds = [jobId]) (Untouched c) (c.unwatch finished jobId job) := by
  refine .ite (fun _ => .ok (.refl c)) fun _ => .bind (meets_removePendingJob c jobId _) fun c₁ h => ?_
  refine .ite (fun _ => ?_) fun _ => .ok h
  exact (meets_removePendingJob c₁ jobId _).mono (fun _ => id) fun _ => h.trans

/-- The manager is told that a job is done. -/
def Transferred (m : M) (job : TransferJobStatus (OffloadKey H)) (m' : M) : Prop :=
  if job.isStore then mgr.completeStore m job.keys job.reqId = .ok m' else mgr.completeLoad m job.keys = .ok m'

theorem meets_completeTransfer [DecidableEq H] (c : OffloadingConnectorScheduler M H)
    (job : TransferJobStatus (OffloadKey H)) :
    JobFreely (fun c' => SameJobs c c' ∧ Transferred mgr c.manager job c'.manager) (completeTransfer mgr c job) := by
  unfold completeTransfer Transferred
  split_ifs
  · exact .bind (meets_liftManager _) fun _ h => .ok ⟨⟨rfl, rfl, rfl, fun _ => rfl⟩, h⟩
  · exact .bind (meets_liftManager _) fun _ h => .ok ⟨⟨rfl, rfl, rfl, fun _ => rfl⟩, h⟩

structure Completed (c c' : OffloadingConnectorScheduler M H) (finished : Bool) (jobId : ℕ)
    (reqId : RequestId) (before : List ℕ) : Prop where
  jobs : c'.jobs = c.jobs.erase jobId
  jobCounter : c'.jobCounter = c.jobCounter
  staleJobThreshold : c'.staleJobThreshold = c.staleJobThreshold
  had : c.jobIds reqId = some before
  mem : jobId ∈ before
  jobIds : ∀ r, c'.jobIds r =
    if r = reqId then if before.erase jobId = [] ∧ finished = true then none else some (before.erase jobId)
    else c.jobIds r

theorem forgetJob_frame (c : OffloadingConnectorScheduler M H) (finished : Bool) (jobId : ℕ) (reqId : RequestId)
    (status : RequestOffloadState H) :
    (c.forgetJob finished jobId reqId status).jobs = c.jobs.erase jobId ∧
      (c.forgetJob finished jobId reqId status).jobCounter = c.jobCounter ∧
      (c.forgetJob finished jobId reqId status).staleJobThreshold = c.staleJobThreshold ∧
      (c.forgetJob finished jobId reqId status).manager = c.manager := by
  unfold forgetJob
  dsimp only
  split_ifs <;> exact ⟨rfl, rfl, rfl, rfl⟩

theorem jobIds_forgetJob (c : OffloadingConnectorScheduler M H) (finished : Bool) (jobId : ℕ) (reqId : RequestId)
    (status : RequestOffloadState H) (r : RequestId) :
    (c.forgetJob finished jobId reqId status).jobIds r =
      if r = reqId then if status.transferJobs.erase jobId = [] ∧ finished = true then none
        else some (status.transferJobs.erase jobId)
      else c.jobIds r := by
  unfold forgetJob
  dsimp only
  split_ifs with hgone hr hr
  · rw [hr, jobIds, lookup_erase, map_none]
  · rw [jobIds, lookup_erase_ne hr, jobIds]
  · rw [jobIds_setStatus, if_pos hr]
  · rw [jobIds_setStatus, if_neg hr]
    rfl

theorem meets_completeJob [DecidableEq H] (c : OffloadingConnectorScheduler M H) (objs : RequestId → OffloadRequest H)
    (jobId : ℕ) (job : TransferJobStatus (OffloadKey H)) :
    Meets (fun e => e.isAboutJob = false ∨ e.jobIds = [jobId])
      (fun c' => (∃ before, Completed c c' (objs job.reqId).isFinished jobId job.reqId before) ∧
        Transferred mgr c.manager job c'.manager) (completeJob mgr c objs jobId job) := by
  refine .bind ((meets_statusOf c _).mono (fun _ => .inl) fun _ => id) fun status hstatus => ?_
  refine .bind ((meets_completeTransfer mgr c job).mono (fun _ => .inl) fun _ => id) fun c₁ hc₁ => ?_
  refine .bind ((meets_unwatch c₁ _ jobId job).mono (fun _ => .inr) fun _ => id) fun c₂ hc₂ => ?_
  have hsame := hc₁.1.trans hc₂.toSameJobs
  obtain ⟨hjobs, hcounter, hthreshold, hmanager⟩ :=
    forgetJob_frame c₂ (objs job.reqId).isFinished jobId job.reqId status
  refine .require (fun _ => .inr rfl) fun hmem => .ok ⟨⟨status.transferJobs, ?_, hcounter.trans hsame.jobCounter,
    hthreshold.trans hsame.staleJobThreshold, jobIds_of_lookup hstatus, hmem, fun r => ?_⟩, ?_⟩
  · rw [hjobs, hsame.jobs]
  · rw [jobIds_forgetJob, hsame.jobIds]
  · rw [hmanager, hc₂.manager]
    exact hc₁.2

inductive Reported (objs : RequestId → OffloadRequest H) (c c' : OffloadingConnectorScheduler M H)
    (report : ℕ × ℕ) : Prop
  | stale (hlt : report.1 < c.staleJobThreshold) (h : c' = c)
  | counted {job job' : TransferJobStatus (OffloadKey H)} (hjob : c.jobs.lookup report.1 = some job)
      (hjob' : job' = { job with pendingCount := job.pendingCount - report.2 }) (hmore : 0 < job'.pendingCount)
      (h : c' = { c with jobs := c.jobs.insert report.1 job' })
  | completed {job job' : TransferJobStatus (OffloadKey H)} {before : List ℕ}
      (hjob : c.jobs.lookup report.1 = some job)
      (hjob' : job' = { job with pendingCount := job.pendingCount - report.2 }) (hzero : job'.pendingCount = 0)
      (h : Completed { c with jobs := c.jobs.insert report.1 job' } c' (objs job'.reqId).isFinished report.1
        job'.reqId before) (htransferred : Transferred mgr c.manager job' c'.manager)

theorem reportJob_reported [DecidableEq H] {report : ℕ × ℕ} :
    Ensures (Reported mgr objs c · report) (reportJob mgr objs c report) := by
  refine .require fun _ => .ite (fun hlt => .ok (.stale hlt rfl)) fun _ => .bind fun job hjob => ?_
  refine .ite (fun hmore => .ok (.counted (jobOf_eq_ok hjob) rfl hmore rfl)) fun _ => .require fun hzero => ?_
  intro c' hc'
  obtain ⟨⟨before, hdone⟩, htransferred⟩ := (meets_completeJob mgr _ objs report.1 _).ensures hc'
  exact .completed (jobOf_eq_ok hjob) rfl hzero hdone htransferred

/-! ## The book of jobs -/

/-- The jobs of the requests are exactly those of the table, each once, under ids from the threshold
to the counter. -/
structure JobBook (c : OffloadingConnectorScheduler M H) : Prop where
  listed : ∀ r l, c.jobIds r = some l → ∀ id ∈ l, ∃ job, c.jobs.lookup id = some job ∧ job.reqId = r
  owned : ∀ id job, c.jobs.lookup id = some job → ∃ l, c.jobIds job.reqId = some l ∧ id ∈ l
  nodup : ∀ r l, c.jobIds r = some l → l.Nodup
  lt : ∀ id ∈ c.jobs, id < c.jobCounter
  ge : ∀ id ∈ c.jobs, c.staleJobThreshold ≤ id
  threshold : c.staleJobThreshold ≤ c.jobCounter

section

variable (h : c.JobBook)
include h

theorem JobBook.congr (hsame : SameJobs c c') : c'.JobBook := by
  have hids : c'.jobIds = c.jobIds := funext hsame.jobIds
  constructor
  all_goals simp only [hids, hsame.jobs, hsame.jobCounter, hsame.staleJobThreshold]
  exacts [h.listed, h.owned, h.nodup, h.lt, h.ge, h.threshold]

theorem JobBook.mem_jobs {r : RequestId} {l : List ℕ} (hl : c.jobIds r = some l)
    (hid : id ∈ l) : id ∈ c.jobs := by
  obtain ⟨job, hjob, -⟩ := h.listed r l hl id hid
  exact Table.mem_of_lookup hjob

theorem JobBook.issued (hissued : Issued config c c' reqId before job) : c'.JobBook where
  listed r l hl id hid := by
    rw [hissued.jobIds] at hl
    rw [hissued.jobs]
    split_ifs at hl with hr
    · cases hl
      rcases mem_append.mp hid with hid | hid
      · obtain ⟨j, hj, hreq⟩ := h.listed reqId before hissued.had id hid
        have hne : id ≠ c.jobCounter := ne_of_lt (h.lt id (h.mem_jobs hissued.had hid))
        exact ⟨j, (lookup_insert_ne hne).trans hj, hreq.trans hr.symm⟩
      · obtain rfl := mem_singleton.mp hid
        exact ⟨job, lookup_insert _, hissued.owner.trans hr.symm⟩
    · obtain ⟨j, hj, hreq⟩ := h.listed r l hl id hid
      have hne : id ≠ c.jobCounter := ne_of_lt (h.lt id (h.mem_jobs hl hid))
      exact ⟨j, (lookup_insert_ne hne).trans hj, hreq⟩
  owned id j hj := by
    rw [hissued.jobs] at hj
    rw [hissued.jobIds]
    rcases eq_or_ne id c.jobCounter with rfl | hne
    · rw [lookup_insert, some.injEq] at hj
      rw [← hj, if_pos hissued.owner]
      exact ⟨_, rfl, mem_append_right _ (mem_singleton_self _)⟩
    rw [lookup_insert_ne hne] at hj
    obtain ⟨l, hl, hid⟩ := h.owned id j hj
    split_ifs with hr
    · rw [hr, hissued.had] at hl
      cases hl
      exact ⟨_, rfl, mem_append_left _ hid⟩
    · exact ⟨l, hl, hid⟩
  nodup r l hl := by
    rw [hissued.jobIds] at hl
    split_ifs at hl
    · cases hl
      rw [nodup_append]
      refine ⟨h.nodup reqId before hissued.had, nodup_singleton _, ?_⟩
      rintro id hid _ hnew rfl
      obtain rfl := mem_singleton.mp hnew
      exact lt_irrefl _ (h.lt _ (h.mem_jobs hissued.had hid))
    · exact h.nodup r l hl
  lt id hid := by
    rw [hissued.jobs, mem_insert] at hid
    rw [hissued.jobCounter]
    rcases hid with rfl | hid
    · exact Nat.lt_succ_self _
    · exact Nat.lt_succ_of_lt (h.lt id hid)
  ge id hid := by
    rw [hissued.jobs, mem_insert] at hid
    rw [hissued.staleJobThreshold]
    rcases hid with rfl | hid
    · exact h.threshold
    · exact h.ge id hid
  threshold := by
    rw [hissued.staleJobThreshold, hissued.jobCounter]
    exact Nat.le_succ_of_le h.threshold

theorem JobBook.reported {job' : TransferJobStatus (OffloadKey H)}
    (hjob : c.jobs.lookup id = some job) (hreq : job'.reqId = job.reqId) :
    JobBook { c with jobs := c.jobs.insert id job' } where
  listed r l hl id' hid := by
    obtain ⟨j, hj, hr⟩ := h.listed r l hl id' hid
    rcases eq_or_ne id' id with rfl | hne
    · rw [hjob, some.injEq] at hj
      exact ⟨job', lookup_insert _, by rw [hreq, hj, hr]⟩
    · exact ⟨j, (lookup_insert_ne hne).trans hj, hr⟩
  owned id' j hj := by
    rcases eq_or_ne id' id with rfl | hne
    · have heq : job' = j := by simpa using hj
      rw [← heq, hreq]
      exact h.owned id' job hjob
    · exact h.owned id' j ((lookup_insert_ne hne).symm.trans hj)
  nodup := h.nodup
  lt id' hid := by
    rcases (mem_insert _).mp hid with rfl | hid
    · exact h.lt id' (Table.mem_of_lookup hjob)
    · exact h.lt id' hid
  ge id' hid := by
    rcases (mem_insert _).mp hid with rfl | hid
    · exact h.ge id' (Table.mem_of_lookup hjob)
    · exact h.ge id' hid
  threshold := h.threshold

theorem JobBook.completed {finished : Bool}
    (hdone : Completed c c' finished jobId reqId before) : c'.JobBook := by
  have hnodup := h.nodup reqId before hdone.had
  have hlist : ∀ r l, c'.jobIds r = some l → ∃ l', c.jobIds r = some l' ∧ l = l'.erase jobId := by
    intro r l hl
    rw [hdone.jobIds] at hl
    split_ifs at hl with hr hgone
    · exact ⟨before, hr ▸ hdone.had, (some.inj hl).symm⟩
    refine ⟨l, hl, (erase_of_not_mem fun hin => hr ?_).symm⟩
    obtain ⟨j, hj, hreq⟩ := h.listed r l hl jobId hin
    obtain ⟨j', hj', hreq'⟩ := h.listed reqId before hdone.had jobId hdone.mem
    rw [hj, some.injEq] at hj'
    rw [← hreq, hj', hreq']
  refine ⟨fun r l hl id hid => ?_, fun id j hj => ?_, fun r l hl => ?_, fun id hid => ?_, fun id hid => ?_, ?_⟩
  · obtain ⟨l', hl', rfl⟩ := hlist r l hl
    obtain ⟨hne, hin⟩ := (List.Nodup.mem_erase_iff (h.nodup r l' hl')).mp hid
    obtain ⟨j, hj, hreq⟩ := h.listed r l' hl' id hin
    rw [hdone.jobs, lookup_erase_ne hne]
    exact ⟨j, hj, hreq⟩
  · rw [hdone.jobs] at hj
    rcases eq_or_ne id jobId with rfl | hne
    · simp [lookup_erase] at hj
    rw [lookup_erase_ne hne] at hj
    obtain ⟨l, hl, hid⟩ := h.owned id j hj
    rw [hdone.jobIds]
    split_ifs with hr hgone
    · rw [hr, hdone.had] at hl
      cases hl
      have := (mem_erase_of_ne hne).mpr hid
      simp [hgone.1] at this
    · rw [hr, hdone.had] at hl
      cases hl
      exact ⟨_, rfl, (mem_erase_of_ne hne).mpr hid⟩
    · exact ⟨l, hl, hid⟩
  · obtain ⟨l', hl', rfl⟩ := hlist r l hl
    exact (h.nodup r l' hl').erase _
  · rw [hdone.jobs, mem_erase] at hid
    rw [hdone.jobCounter]
    exact h.lt id hid.2
  · rw [hdone.jobs, mem_erase] at hid
    rw [hdone.staleJobThreshold]
    exact h.ge id hid.2
  · rw [hdone.staleJobThreshold, hdone.jobCounter]
    exact h.threshold

end

/-! ## Requests that come and go -/

structure Relisted (c c' : OffloadingConnectorScheduler M H) (reqId : RequestId) (entry : Option (List ℕ)) :
    Prop where
  jobs : c'.jobs = c.jobs
  jobCounter : c'.jobCounter = c.jobCounter
  staleJobThreshold : c'.staleJobThreshold = c.staleJobThreshold
  jobIds : ∀ r, c'.jobIds r = if r = reqId then entry else c.jobIds r

theorem onNewRequest_relisted (c : OffloadingConnectorScheduler M H) (reqId : RequestId)
    (req : OffloadRequest H) : Relisted c (onNewRequest mgr config c reqId req) reqId (some []) :=
  ⟨rfl, rfl, rfl, jobIds_setStatus _ _ _⟩

theorem watchJob_untouched : Ensures (Untouched c) (c.watchJob jobId) :=
  .bind fun _ _ => .ok ⟨⟨rfl, rfl, rfl, fun _ => rfl⟩, rfl⟩

theorem requestFinished_cases (h : requestFinished mgr c reqId = .ok c') :
    c'.manager = mgr.onRequestFinished c.manager reqId ∧
      (SameJobs c c' ∧ c.jobIds reqId ≠ some [] ∨ c.jobIds reqId = some [] ∧ Relisted c c' reqId none) := by
  unfold requestFinished at h
  dsimp only at h
  split at h
  next hnone =>
    cases h
    refine ⟨rfl, .inl ⟨⟨rfl, rfl, rfl, fun _ => rfl⟩, ?_⟩⟩
    simp [jobIds, hnone]
  next status hstatus =>
    have hl := jobIds_of_lookup (c := c) hstatus
    by_cases hnil : status.transferJobs = []
    · rw [if_pos hnil] at h
      cases h
      refine ⟨rfl, .inr ⟨hl.trans (congrArg some hnil), rfl, rfl, rfl, fun r => ?_⟩⟩
      unfold jobIds
      split_ifs with hr
      · rw [hr, lookup_erase, map_none]
      · rw [lookup_erase_ne hr]
    rw [if_neg hnil] at h
    have hwatched := foldlM_invariant (P := Untouched { c with manager := mgr.onRequestFinished c.manager reqId })
      status.transferJobs (fun _ _ _ _ hsame hstep => hsame.trans (watchJob_untouched hstep)) (.refl _) h
    have hstart : SameJobs c { c with manager := mgr.onRequestFinished c.manager reqId } :=
      ⟨rfl, rfl, rfl, fun _ => rfl⟩
    exact ⟨hwatched.manager, .inl ⟨hstart.trans hwatched.toSameJobs, fun heq => hnil (mem_unique hl heq)⟩⟩

theorem JobBook.jobFree_requestFinished (h : c.JobBook) (reqId : RequestId) :
    JobFree (requestFinished mgr c reqId) := by
  unfold requestFinished
  dsimp only
  split
  · exact .ok _
  next status hstatus =>
    refine .ite (fun _ => .ok _) fun _ => Meets.raises (Q := SameJobs c) (.foldlM (fun c₁ jobId hid hsame => ?_) ?_)
    · refine ⟨?_, fun _ hstep => hsame.trans (watchJob_untouched hstep).toSameJobs⟩
      obtain ⟨job, hjob, -⟩ := h.listed reqId _ (jobIds_of_lookup hstatus) jobId hid
      unfold watchJob jobOf
      rw [hsame.jobs, hjob]
      exact .bind (.ok _) fun _ _ => .ok _
    · exact ⟨rfl, rfl, rfl, fun _ => rfl⟩

theorem JobBook.relisted {entry : Option (List ℕ)} (h : c.JobBook) (hnew : Relisted c c' reqId entry)
    (hempty : ∀ l, c.jobIds reqId = some l → l = []) (hentry : ∀ l, entry = some l → l = []) : c'.JobBook where
  listed r l hl id hid := by
    rw [hnew.jobIds] at hl
    rw [hnew.jobs]
    split_ifs at hl
    · simp [hentry l hl] at hid
    · exact h.listed r l hl id hid
  owned id job hjob := by
    obtain ⟨l, hl, hid⟩ := h.owned id job (hnew.jobs ▸ hjob)
    rw [hnew.jobIds]
    split_ifs with hr
    · simp [hempty l (hr ▸ hl)] at hid
    · exact ⟨l, hl, hid⟩
  nodup r l hl := by
    rw [hnew.jobIds] at hl
    split_ifs at hl
    · rw [hentry l hl]
      exact nodup_nil
    · exact h.nodup r l hl
  lt id hid := by
    rw [hnew.jobCounter]
    exact h.lt id (hnew.jobs ▸ hid)
  ge id hid := by
    rw [hnew.staleJobThreshold]
    exact h.ge id (hnew.jobs ▸ hid)
  threshold := by
    rw [hnew.staleJobThreshold, hnew.jobCounter]
    exact h.threshold

/-! ## Resets -/

structure Discarded (c c' : OffloadingConnectorScheduler M H) : Prop where
  manager : c'.manager = mgr.resetCache c.manager
  jobs : c'.jobs = ∅
  jobCounter : c'.jobCounter = c.jobCounter
  staleJobThreshold : c'.staleJobThreshold = c.jobCounter
  jobIds : ∀ r, c'.jobIds r = c.jobIds r

theorem resetCache_discarded (h : resetCache mgr c = .ok c') : Discarded mgr c c' := by
  obtain ⟨_, _, rfl⟩ := bind_pure_eq_ok.mp h
  refine ⟨rfl, rfl, rfl, rfl, fun r => ?_⟩
  unfold jobIds
  rw [Table.lookup_mapValues, Option.map_map]
  rfl

end OffloadingConnectorScheduler

end VllmPs.Offload
