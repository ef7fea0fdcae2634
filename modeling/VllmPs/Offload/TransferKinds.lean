import VllmPs.Offload.ConnectorBook

/-!
# Loads and stores of one request

A request has either a single load under way or any number of stores. The connector relies on the scheduler
for that; a scheduler that admits a request again after a preemption asks for a load while stores are
pending, and the connector then fails on its own assertion.
-/

namespace VllmPs.Offload

open Lib OffloadingConnectorScheduler List Option

variable {H M : Type}

namespace OffloadRun

structure Kinds (s : OffloadRun M H) : Prop where
  loads : ∀ load ∈ s.loading, s.conn.jobIds load.1 = some [load.2] ∧
    ∃ job, s.conn.jobs.lookup load.2 = some job ∧ job.isStore = false
  stores : ∀ r l, s.conn.jobIds r = some l → (∀ load ∈ s.loading, load.1 ≠ r) →
    ∀ id ∈ l, ∀ job, s.conn.jobs.lookup id = some job → job.isStore = true

variable {s s' : OffloadRun M H} {config : SchedulerOffloadConfig}

theorem Initial.kinds (h : s.Initial) : s.Kinds := by
  obtain ⟨⟨manager, hconn⟩, -, -, hloading⟩ := h
  refine ⟨fun load hload => ?_, fun r l hl => ?_⟩
  · simp [hloading] at hload
  · rw [hconn] at hl
    cases hl

theorem Kinds.congr (h : s.Kinds) (hsame : SameJobs s.conn s'.conn) (hloading : s'.loading = s.loading) :
    s'.Kinds := by
  refine ⟨fun load hload => ?_, fun r l hl hidle => ?_⟩
  · rw [hsame.jobIds, hsame.jobs]
    exact h.loads load (hloading ▸ hload)
  · rw [hsame.jobs]
    exact h.stores r l (hsame.jobIds r ▸ hl) (hloading ▸ hidle)

theorem Kinds.relisted {reqId : RequestId} {entry : Option (List ℕ)} (h : s.Kinds)
    (hnew : Relisted s.conn s'.conn reqId entry) (hloading : s'.loading = s.loading)
    (hempty : ∀ l, s.conn.jobIds reqId = some l → l = []) (hentry : ∀ l, entry = some l → l = []) :
    s'.Kinds := by
  refine ⟨fun load hload => ?_, fun r l hl hidle id hid => ?_⟩
  · obtain ⟨hids, hjob⟩ := h.loads load (hloading ▸ hload)
    have hne : load.1 ≠ reqId := by
      intro heq
      have := hempty _ (heq ▸ hids)
      cases this
    rw [hnew.jobIds, if_neg hne, hnew.jobs]
    exact ⟨hids, hjob⟩
  rw [hnew.jobIds] at hl
  rw [hnew.jobs]
  split_ifs at hl
  · simp [hentry l hl] at hid
  · exact h.stores r l hl (hloading ▸ hidle) id hid

theorem Kinds.load {reqId : RequestId} {job : TransferJobStatus (OffloadKey H)} (h : s.Kinds)
    (hbook : s.conn.JobBook) (hidle : ∀ load ∈ s.loading, load.1 ≠ reqId)
    (hissued : Issued config s.conn s'.conn reqId [] job) (hload : job.isStore = false)
    (hloading : s'.loading = (reqId, s.conn.jobCounter) :: s.loading) : s'.Kinds := by
  have hold : ∀ r l, r ≠ reqId → s.conn.jobIds r = some l → ∀ id ∈ l,
      s'.conn.jobs.lookup id = s.conn.jobs.lookup id := by
    intro r l _ hl id hid
    rw [hissued.jobs, AList.lookup_insert_ne (ne_of_lt (hbook.lt id (hbook.mem_jobs hl hid)))]
  refine ⟨fun load hmem => ?_, fun r l hl hothers id hid => ?_⟩
  · rw [hloading] at hmem
    rcases mem_cons.mp hmem with rfl | hmem
    · refine ⟨?_, job, ?_, hload⟩
      · rw [hissued.jobIds, if_pos rfl]
        rfl
      · rw [hissued.jobs]
        exact AList.lookup_insert _
    · obtain ⟨hids, hjob⟩ := h.loads load hmem
      have hne := hidle load hmem
      rw [hissued.jobIds, if_neg hne, hold load.1 _ hne hids load.2 (mem_singleton_self _)]
      exact ⟨hids, hjob⟩
  have hne : r ≠ reqId := by
    rintro rfl
    exact hothers (r, s.conn.jobCounter) (hloading ▸ mem_cons_self) rfl
  rw [hissued.jobIds, if_neg hne] at hl
  rw [hold r l hne hl id hid]
  refine h.stores r l hl (fun load hmem => hothers load ?_) id hid
  rw [hloading]
  exact mem_cons_of_mem _ hmem

theorem Kinds.grown (h : s.Kinds) (hbook : s.conn.JobBook)
    (hgrown : Grown config (·.isStore = true) s.conn s'.conn)
    (hframe : ∀ load ∈ s.loading, s'.conn.jobIds load.1 = s.conn.jobIds load.1)
    (hloading : s'.loading = s.loading) : s'.Kinds := by
  refine ⟨fun load hload => ?_, fun r l hl hidle id hid job hjob => ?_⟩
  · rw [hloading] at hload
    obtain ⟨hids, job, hjob, hisload⟩ := h.loads load hload
    exact ⟨(hframe load hload).trans hids, job, hgrown.kept load.2 job hjob, hisload⟩
  rcases hgrown.new id job hjob with hold | ⟨-, -, hstore⟩
  · rcases hgrown.jobIds r with ⟨-, hnone⟩ | ⟨l₀, more, hl₀, hmore, hge⟩
    · simp [hnone] at hl
    rw [hmore] at hl
    cases hl
    rcases mem_append.mp hid with hid | hid
    · exact h.stores r l₀ hl₀ (hloading ▸ hidle) id hid job hold
    · have hlt := hbook.lt id (Table.mem_of_lookup hold)
      exact absurd (hge id hid) (not_le.mpr hlt)
  · exact hstore

section Build

variable [DecidableEq H] (mgr : OffloadingManager M (OffloadKey H)) {objs : RequestId → OffloadRequest H}
  {c c' : OffloadingConnectorScheduler M H}

theorem buildConnectorMeta_jobIds {output : StepOutput} {metadata : OffloadingConnectorMetadata}
    {reqId : RequestId} (hreq : reqId ∉ output.reqIds)
    (h : buildConnectorMeta mgr config c objs output = .ok (metadata, c')) :
    c'.jobIds reqId = c.jobIds reqId := by
  refine (meets_buildConnectorMeta mgr config (I := fun c' => c'.jobIds reqId = c.jobIds reqId)
    (fun _ _ hsame => (hsame.jobIds reqId).trans) (fun _ _ _ => id) (fun c₁ c₂ entry hentry hstep hc₁ => ?_)
    rfl).ensures h
  have hne : reqId ≠ entry.1 := by
    rintro rfl
    exact hreq (mem_append_left _ (mem_append_right _ (mem_map_of_mem hentry)))
  cases hstep with
  | same hsame => exact (hsame.jobIds reqId).trans hc₁
  | declined hsame => exact (hsame.jobIds reqId).trans hc₁
  | issued hissued => rw [hissued.jobIds, if_neg hne, hc₁]

end Build

theorem mem_received (s : OffloadRun M H) (reports : List (ℕ × ℕ)) {id : ℕ} (hid : id ∈ s.remaining) :
    id ∈ s.received reports := by
  unfold received
  generalize s.remaining = remaining at hid
  induction reports generalizing remaining with
  | nil => exact hid
  | cons report rest ih => exact ih _ ((AList.mem_insert _).mpr (.inr hid))

/-- Reports: a load is over exactly when all workers have reported it. -/
theorem Kinds.shrunk (h : s.Kinds) (hold : Booked s.conn s.remaining s.objs s.known)
    (hnew : Booked s'.conn s'.remaining s'.objs s'.known) (hshrunk : Shrunk s.conn s'.conn)
    (hkept : ∀ id ∈ s.remaining, id ∈ s'.remaining)
    (hloading : s'.loading = s.loading.filter fun (_, jobId) =>
      decide (s'.remaining.lookup jobId ≠ some 0)) : s'.Kinds := by
  refine ⟨fun load hload => ?_, fun r l hl hidle id hid job' hjob' => ?_⟩
  · rw [hloading, mem_filter] at hload
    obtain ⟨hmem, hpending⟩ := hload
    have hpending : s'.remaining.lookup load.2 ≠ some 0 := of_decide_eq_true hpending
    obtain ⟨hids, job, hjob, hisload⟩ := h.loads load hmem
    -- the job is still in the table, since not all of its reports have come
    have hin : load.2 ∈ s'.conn.jobs := by
      by_contra hnot
      obtain ⟨n, hn, -⟩ := hold.reports load.2 job hjob
      obtain ⟨n', hn'⟩ := Option.isSome_iff_exists.mp
        (AList.lookup_isSome.mpr (hkept load.2 (Table.mem_of_lookup hn)))
      have hge := hold.book.ge load.2 (hold.book.mem_jobs hids (mem_singleton_self _))
      rw [hnew.settled load.2 n' hn' (hshrunk.staleJobThreshold ▸ hge) hnot] at hn'
      exact hpending hn'
    obtain ⟨job', hjob'⟩ := Table.exists_lookup hin
    obtain ⟨job₀, hjob₀, hkind⟩ := hshrunk.jobs load.2 job' hjob'
    rw [hjob, some.injEq] at hjob₀
    obtain ⟨l', hl', hid'⟩ := hnew.book.owned load.2 job' hjob'
    obtain ⟨l, hl, hsub⟩ := hshrunk.jobIds _ l' hl'
    -- and it is on the list of the same request
    have howner : job'.reqId = load.1 := by
      obtain ⟨j, hj, hjreq⟩ := hold.book.listed _ l hl load.2 (hsub hid')
      obtain ⟨j', hj', hjreq'⟩ := hold.book.listed load.1 _ hids load.2 (mem_singleton_self _)
      rw [hj, some.injEq] at hj'
      rw [← hjreq, hj', hjreq']
    rw [howner] at hl hl'
    rw [hids, some.injEq] at hl
    have hone : l' = [load.2] := by
      refine perm_singleton.mp ((perm_ext_iff_of_nodup (hnew.book.nodup load.1 l' hl')
        (nodup_singleton _)).mpr fun id => ⟨fun hid => hl ▸ hsub hid, fun hid => ?_⟩)
      exact mem_singleton.mp hid ▸ hid'
    refine ⟨hone ▸ hl', job', hjob', ?_⟩
    rwa [← hkind, ← hjob₀]
  obtain ⟨job, hjob, hkind⟩ := hshrunk.jobs id job' hjob'
  obtain ⟨l₀, hl₀, hsub⟩ := hshrunk.jobIds r l hl
  rw [← hkind]
  refine h.stores r l₀ hl₀ (fun load hload hr => ?_) id (hsub hid) job hjob
  -- a load of this request that is over is no longer in the table
  obtain ⟨hids, -⟩ := h.loads load hload
  rw [hr, hl₀, some.injEq] at hids
  have heq : id = load.2 := mem_singleton.mp (hids ▸ hsub hid)
  obtain ⟨n, hn, hpos, -⟩ := hnew.reports id job' hjob'
  have hpending : s'.remaining.lookup load.2 ≠ some 0 := by
    rw [← heq, hn]
    intro hzero
    exact hpos.ne' (some.inj hzero)
  refine hidle load ?_ hr
  rw [hloading, mem_filter]
  exact ⟨hload, decide_eq_true hpending⟩

variable [DecidableEq H] (mgr : OffloadingManager M (OffloadKey H)) {call : ConnectorCall H}

theorem step_kinds (hworkers : 0 < config.numWorkers) (hbooked : Booked s.conn s.remaining s.objs s.known)
    (h : s.Kinds) (hok : s.Disciplined call) (hreset : call ≠ .resetCache)
    (hstep : s.step mgr config call = .ok s') : s'.Kinds := by
  have hbooked' := step_booked mgr hworkers hbooked hok (fun heq => absurd heq hreset) hstep
  cases call with
  | onNewRequest reqId req =>
    cases hstep
    refine h.relisted (onNewRequest_relisted mgr config s.conn reqId req) rfl (fun l hl => ?_)
      fun l hl => (some.inj hl).symm
    exact absurd (hbooked.entries reqId l hl) hok.1
  | advance reqId req =>
    cases hstep
    exact h.congr (SameJobs.refl _) rfl
  | getNumNewMatchedTokens reqId n =>
    obtain ⟨⟨_, conn⟩, hcall, rfl⟩ := bind_pure_eq_ok.mp hstep
    exact h.congr ((meets_matched mgr).ensures hcall) rfl
  | updateStateAfterAlloc reqId blocks n =>
    obtain ⟨conn, hcall, rfl⟩ := bind_pure_eq_ok.mp hstep
    rcases (meets_updateStateAfterAlloc mgr config _ _ _ _).ensures hcall with
      ⟨hzero, rfl⟩ | ⟨hzero, job, -, -, hload, -, hissued⟩
    · exact h.congr (SameJobs.refl _) (if_pos hzero)
    · exact h.load hbooked.book hok.2 hissued hload (if_neg hzero)
  | buildConnectorMeta output =>
    obtain ⟨⟨_, conn⟩, hcall, rfl⟩ := bind_pure_eq_ok.mp hstep
    obtain ⟨-, hgrown⟩ := (meets_buildConnectorMeta_grown mgr hbooked.book).ensures hcall
    refine h.grown hbooked.book hgrown (fun load hload => ?_) rfl
    exact buildConnectorMeta_jobIds mgr (fun hin => (hok load.1 hin).2 load hload rfl) hcall
  | updateConnectorOutput reports =>
    obtain ⟨conn, hcall, rfl⟩ := bind_pure_eq_ok.mp hstep
    exact h.shrunk hbooked hbooked' (updateConnectorOutput_shrunk mgr hcall)
      (fun id hid => s.mem_received reports hid) rfl
  | requestFinished reqId =>
    obtain ⟨conn, hcall, rfl⟩ := bind_pure_eq_ok.mp hstep
    rcases (requestFinished_cases mgr hcall).2 with ⟨hsame, -⟩ | ⟨hnil, hgone⟩
    · exact h.congr hsame rfl
    · exact h.relisted hgone rfl (fun l hl => mem_unique hl hnil) nofun
  | resetCache => exact absurd rfl hreset

/-- A call of a run without resets. -/
def Resetless (s : OffloadRun M H) (call : ConnectorCall H) : Prop :=
  s.Disciplined call ∧ call ≠ .resetCache

/-! ## For whom the jobs were issued -/

/-- The run knows the request of every pending job, and no job was ever discarded. -/
structure Owned (s : OffloadRun M H) : Prop where
  owner : ∀ id job, s.conn.jobs.lookup id = some job → s.owner id = some job.reqId
  undiscarded : s.conn.staleJobThreshold = 0

omit [DecidableEq H] in
theorem Initial.owned (h : s.Initial) : s.Owned := by
  obtain ⟨⟨manager, hconn⟩, -⟩ := h
  refine ⟨fun id job hjob => ?_, by rw [hconn]⟩
  rw [hconn] at hjob
  cases hjob

omit [DecidableEq H] in
/-- A call that issues nothing leaves no job but those there were. -/
theorem Owned.of_jobs (h : s.Owned) (howner : s'.owner = s.owner)
    (hthreshold : s'.conn.staleJobThreshold = s.conn.staleJobThreshold)
    (hjobs : ∀ id job', s'.conn.jobs.lookup id = some job' →
      ∃ job, s.conn.jobs.lookup id = some job ∧ job.reqId = job'.reqId) : s'.Owned := by
  refine ⟨fun id job' hjob' => ?_, hthreshold.trans h.undiscarded⟩
  obtain ⟨job, hjob, hreq⟩ := hjobs id job' hjob'
  rw [howner, ← hreq]
  exact h.owner id job hjob

omit [DecidableEq H] in
theorem Owned.same (h : s.Owned) (howner : s'.owner = s.owner) (hjobs : s'.conn.jobs = s.conn.jobs)
    (hthreshold : s'.conn.staleJobThreshold = s.conn.staleJobThreshold) : s'.Owned :=
  h.of_jobs howner hthreshold fun _ job hjob => ⟨job, hjobs ▸ hjob, rfl⟩

omit [DecidableEq H] in
/-- A call that issues jobs notes their requests. -/
theorem Owned.grown {P : TransferJobStatus (OffloadKey H) → Prop} (h : s.Owned)
    (hgrown : Grown config P s.conn s'.conn) (howner : s'.owner = (s.issue config s'.conn).owner) : s'.Owned := by
  refine ⟨fun id job hjob => ?_, hgrown.staleJobThreshold.trans h.undiscarded⟩
  rw [howner]
  dsimp only [issue]
  split_ifs with hnew
  · rw [hjob]
    rfl
  · rcases hgrown.new id job hjob with hold | ⟨hge, -⟩
    · exact h.owner id job hold
    · exact absurd hge hnew

omit [DecidableEq H] in
/-- A job that is still pending after reports is of the request it was of before. -/
theorem Shrunk.reqId {c c' : OffloadingConnectorScheduler M H} (h : Shrunk c c') (hbook : c.JobBook)
    (hbook' : c'.JobBook) {id : ℕ} {job' : TransferJobStatus (OffloadKey H)}
    (hjob' : c'.jobs.lookup id = some job') : ∃ job, c.jobs.lookup id = some job ∧ job.reqId = job'.reqId := by
  obtain ⟨l', hl', hid'⟩ := hbook'.owned id job' hjob'
  obtain ⟨l, hl, hsub⟩ := h.jobIds _ l' hl'
  exact hbook.listed _ l hl id (hsub hid')

theorem step_owned (hbooked : Booked s.conn s.remaining s.objs s.known)
    (hbooked' : Booked s'.conn s'.remaining s'.objs s'.known) (h : s.Owned) {call : ConnectorCall H}
    (hreset : call ≠ .resetCache) (hstep : s.step mgr config call = .ok s') : s'.Owned := by
  cases call with
  | onNewRequest reqId req =>
    cases hstep
    exact h.same rfl rfl rfl
  | advance reqId req =>
    cases hstep
    exact h.same rfl rfl rfl
  | getNumNewMatchedTokens reqId n =>
    obtain ⟨⟨_, conn⟩, hcall, rfl⟩ := bind_pure_eq_ok.mp hstep
    have hsame : SameJobs s.conn conn := (meets_matched mgr).ensures hcall
    exact h.same rfl hsame.jobs hsame.staleJobThreshold
  | updateStateAfterAlloc reqId blocks n =>
    obtain ⟨conn, hcall, rfl⟩ := bind_pure_eq_ok.mp hstep
    rcases (meets_updateStateAfterAlloc mgr config _ _ _ _).ensures hcall with
      ⟨-, rfl⟩ | ⟨-, job, -, -, -, -, hissued⟩
    · exact h.grown (Grown.same (.refl _) : Grown config (fun _ => True) s.conn s.conn) rfl
    · exact h.grown (P := fun _ => True) (.issued hbooked.book hissued trivial) rfl
  | buildConnectorMeta output =>
    obtain ⟨⟨_, conn⟩, hcall, rfl⟩ := bind_pure_eq_ok.mp hstep
    exact h.grown ((meets_buildConnectorMeta_grown mgr hbooked.book).ensures hcall).2 rfl
  | updateConnectorOutput reports =>
    obtain ⟨conn, hcall, rfl⟩ := bind_pure_eq_ok.mp hstep
    have hshrunk := updateConnectorOutput_shrunk mgr hcall
    exact h.of_jobs rfl hshrunk.staleJobThreshold fun _ _ => Shrunk.reqId hshrunk hbooked.book hbooked'.book
  | requestFinished reqId =>
    obtain ⟨conn, hcall, rfl⟩ := bind_pure_eq_ok.mp hstep
    rcases (requestFinished_cases mgr hcall).2 with ⟨hsame, -⟩ | ⟨-, hgone⟩
    · exact h.same rfl hsame.jobs hsame.staleJobThreshold
    · exact h.same rfl hgone.jobs hgone.staleJobThreshold
  | resetCache => exact absurd rfl hreset

omit [DecidableEq H] in
/-- A request whose jobs are all reported has none pending. -/
theorem jobIds_of_allReported (hbooked : Booked s.conn s.remaining s.objs s.known) (howned : s.Owned)
    {reqId : RequestId} {l : List ℕ} (hl : s.conn.jobIds reqId = some l) (h : s.AllReported reqId) : l = [] := by
  refine eq_nil_iff_forall_not_mem.mpr fun id hid => ?_
  obtain ⟨job, hjob, rfl⟩ := hbooked.book.listed reqId l hl id hid
  obtain ⟨n, hn, hpos, -⟩ := hbooked.reports id job hjob
  have hzero := h id (mem_range.mpr (hbooked.book.lt id (Table.mem_of_lookup hjob))) (howned.owner id job hjob)
  rw [hn, getD_some] at hzero
  omega

omit [DecidableEq H] in
/-- A request without pending jobs has all of them reported. -/
theorem allReported_of_jobIds (hbooked : Booked s.conn s.remaining s.objs s.known) (howned : s.Owned)
    {reqId : RequestId} (hl : s.conn.jobIds reqId = some []) : s.AllReported reqId := by
  intro id _ howner
  cases hn : s.remaining.lookup id with
  | none => rfl
  | some n =>
  refine hbooked.settled id n hn (howned.undiscarded ▸ Nat.zero_le _) fun hmem => ?_
  obtain ⟨job, hjob⟩ := Option.isSome_iff_exists.mp (AList.lookup_isSome.mpr hmem)
  obtain ⟨l, hids, hid⟩ := hbooked.book.owned id job hjob
  have hreq : job.reqId = reqId := some.inj ((howned.owner id job hjob).symm.trans howner)
  rw [hreq, hl, some.injEq] at hids
  exact not_mem_nil (hids ▸ hid)

theorem reachable_kinds (hworkers : 0 < config.numWorkers)
    (h : Reachable Initial Resetless (step mgr config) s) :
    Booked s.conn s.remaining s.objs s.known ∧ s.Kinds ∧ s.Owned := by
  refine h.invariant (P := fun s => Booked s.conn s.remaining s.objs s.known ∧ s.Kinds ∧ s.Owned)
    (fun s hs => ⟨hs.booked, hs.kinds, hs.owned⟩) fun s call s' ⟨hbooked, hkinds, howned⟩ hok hstep => ?_
  have hbooked' := step_booked mgr hworkers hbooked hok.1 (fun heq => absurd heq hok.2) hstep
  exact ⟨hbooked', step_kinds mgr hworkers hbooked hkinds hok.1 hok.2 hstep,
    step_owned mgr hbooked hbooked' howned hok.2 hstep⟩

/-- In every state of a run without resets the jobs of a request are a single load or stores, and building the
metadata of a step fails on no check of jobs. Neither does a load for a request whose jobs the workers have all
reported, and no load for another request succeeds. -/
theorem one_kind_of_transfer (hworkers : 0 < config.numWorkers)
    (h : Reachable Initial Resetless (step mgr config) s) :
    (∀ reqId l, s.conn.jobIds reqId = some l →
      (∃ id job, l = [id] ∧ s.conn.jobs.lookup id = some job ∧ job.isStore = false) ∨
      ∀ id ∈ l, ∃ job, s.conn.jobs.lookup id = some job ∧ job.isStore = true) ∧
    (∀ output, s.Disciplined (.buildConnectorMeta output) →
      OnlyRaises (·.isAboutJob = false) (s.step mgr config (.buildConnectorMeta output))) ∧
    ∀ reqId blocks numExternalTokens, s.Disciplined (.updateStateAfterAlloc reqId blocks numExternalTokens) →
      ((numExternalTokens ≠ 0 → s.AllReported reqId) →
        OnlyRaises (·.isAboutJob = false)
          (s.step mgr config (.updateStateAfterAlloc reqId blocks numExternalTokens))) ∧
      Ensures (fun _ => numExternalTokens ≠ 0 → s.AllReported reqId)
        (s.step mgr config (.updateStateAfterAlloc reqId blocks numExternalTokens)) := by
  obtain ⟨hbooked, hkinds, howned⟩ := reachable_kinds mgr hworkers h
  refine ⟨fun reqId l hl => ?_, fun output hok => ?_, fun reqId blocks n hok => ⟨fun hreported => ?_, ?_⟩⟩
  · by_cases hloading : ∃ load ∈ s.loading, load.1 = reqId
    · obtain ⟨load, hload, rfl⟩ := hloading
      obtain ⟨hids, job, hjob, hisload⟩ := hkinds.loads load hload
      rw [hids, some.injEq] at hl
      exact .inl ⟨load.2, job, hl.symm, hjob, hisload⟩
    · refine .inr fun id hid => ?_
      obtain ⟨job, hjob, -⟩ := hbooked.book.listed reqId l hl id hid
      exact ⟨job, hjob, hkinds.stores reqId l hl (fun load hload hr => hloading ⟨load, hload, hr⟩) id hid
        job hjob⟩
  · refine .bind ((meets_buildConnectorMeta_grown mgr hbooked.book).raises.mono fun e he => ?_) fun _ _ => .ok _
    rcases he with he | ⟨reqId, hreq, l, hl, id, hid, job, hjob, hisload, -⟩
    · exact he
    · simp [hkinds.stores reqId l hl (hok reqId hreq).2 id hid job hjob] at hisload
  · refine .bind ?_ fun _ _ => .ok _
    by_cases hzero : n = 0
    · unfold updateStateAfterAlloc
      rw [if_pos hzero]
      exact .ok _
    · refine (meets_updateStateAfterAlloc mgr config _ _ _ _).raises.mono fun e he => ?_
      rcases he with he | ⟨ids, hids, hne, -⟩
      · exact he
      · exact absurd (jobIds_of_allReported hbooked howned hids (hreported hzero)) hne
  · intro s' hstep hzero
    obtain ⟨conn, hcall, -⟩ := bind_pure_eq_ok.mp hstep
    rcases (meets_updateStateAfterAlloc mgr config _ _ _ _).ensures hcall with
      ⟨hnone, -⟩ | ⟨-, job, -, -, -, -, hissued⟩
    · exact absurd hnone hzero
    · exact allReported_of_jobIds hbooked howned hissued.had

/-! ## A preempted request that is admitted again -/

/-- A connector with two blocks of CPU memory. -/
def twoCpuBlocks : OffloadRun (CPUOffloadingManager (OffloadKey ℕ) ℚ) ℕ where
  conn := { manager := .new 2 .lru 1 64000 }
  objs _ := { blockHashes := [], numTokens := 0, numPromptTokens := 0 }

/-- The store of the third block evicts the second. -/
def storeTwice : List (ConnectorCall ℕ) :=
  storeOnce ++ [.updateConnectorOutput [(0, 1)], .buildConnectorMeta ⟨[("A", some [[3]], false)], [("A", 1)], []⟩]

/-- The request is preempted and looked up again before the last store is reported. -/
def preemptAndResume : List (ConnectorCall ℕ) :=
  storeTwice ++ [.advance "A" (threeTokens 0), .buildConnectorMeta ⟨[], [], ["A"]⟩, .getNumNewMatchedTokens "A" 0]

theorem twoCpuBlocks_initial : twoCpuBlocks.Initial := ⟨⟨_, rfl⟩, rfl, rfl, rfl⟩

theorem exists_of_calls {c : List (ConnectorCall ℕ)} (hcalls : .resetCache ∉ c)
    {P : OffloadRun (CPUOffloadingManager (OffloadKey ℕ) ℚ) ℕ → Prop} [DecidablePred P]
    (h : ((checkedRun Disciplined (step cpuManager oneWorker) twoCpuBlocks c).map fun s => decide (P s)) =
      some true) : ∃ s, Reachable Initial Resetless (step cpuManager oneWorker) s ∧ P s := by
  obtain ⟨s, hrun, hP⟩ := Option.map_eq_some_iff.mp h
  exact ⟨s, (Reachable.start twoCpuBlocks_initial).checkedRun_of
    (fun _ ha _ hs => ⟨hs, fun heq => hcalls (heq ▸ ha)⟩) hrun, of_decide_eq_true hP⟩

/-- What the lookup of the request finds in a state, and what raises a load of that many tokens. -/
def outcome (s : OffloadRun (CPUOffloadingManager (OffloadKey ℕ) ℚ) ℕ) (blocks : List (List GPUBlock))
    (numExternalTokens : ℕ) : Option (Option ℕ) × Option (ConnectorError (OffloadKey ℕ)) :=
  ((s.conn.getNumNewMatchedTokens cpuManager oneWorker "A" (s.objs "A") 0).toOption.map Prod.fst,
    match s.step cpuManager oneWorker (.updateStateAfterAlloc "A" blocks numExternalTokens) with
    | .ok _ => none
    | .error e => some e)

/-- The request hits its first block, and the load of it meets the pending store of the third. -/
theorem one_kind_of_transfer_fails_readmitted : ∃ s : OffloadRun (CPUOffloadingManager (OffloadKey ℕ) ℚ) ℕ,
      Reachable Initial Resetless (step cpuManager oneWorker) s ∧ ¬s.AllReported "A" ∧
      s.Disciplined (.updateStateAfterAlloc "A" [[⟨4, false, false⟩]] 1) ∧
      s.outcome [[⟨4, false, false⟩]] 1 = (some (some 1), some (.transfersPending [1])) := by
  exact exists_of_calls (c := preemptAndResume) (by simp [preemptAndResume, storeTwice, storeOnce])
    (by decide +kernel)

/-- The request has its stores and nothing else, and once they are reported its load is fine. -/
theorem one_kind_of_transfer_reported : ∃ s : OffloadRun (CPUOffloadingManager (OffloadKey ℕ) ℚ) ℕ,
      Reachable Initial Resetless (step cpuManager oneWorker) s ∧ s.AllReported "A" ∧
      s.outcome [[⟨4, false, false⟩]] 1 = (some (some 1), none) ∧
      OnlyRaises (·.isAboutJob = false)
        (s.step cpuManager oneWorker (.updateStateAfterAlloc "A" [[⟨4, false, false⟩]] 1)) := by
  obtain ⟨s, hreach, hok, hreported, houtcome⟩ := exists_of_calls
    (c := preemptAndResume ++ [.updateConnectorOutput [(1, 1)]])
    (P := fun s => s.Disciplined (.updateStateAfterAlloc "A" [[⟨4, false, false⟩]] 1) ∧
      s.AllReported "A" ∧ s.outcome [[⟨4, false, false⟩]] 1 = (some (some 1), none))
    (by simp [preemptAndResume, storeTwice, storeOnce]) (by decide +kernel)
  exact ⟨s, hreach, hreported, houtcome, ((one_kind_of_transfer cpuManager (by decide) hreach).2.2 "A" _ 1
    hok).1 fun _ => hreported⟩

end OffloadRun

end VllmPs.Offload
