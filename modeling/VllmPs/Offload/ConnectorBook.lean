import VllmPs.Offload.ConnectorJobs

/-!
# The jobs of the connector and the reports of the workers

The book of jobs holds along every run. Every job waits for the reports still to come, every
unfinished request has an entry, and a finished one only as long as it has a job.
-/

namespace VllmPs.Offload

open Lib OffloadingConnectorScheduler List Option AList Function Table

variable {H M : Type}

structure Booked (c : OffloadingConnectorScheduler M H) (remaining : Table ℕ ℕ)
    (objs : RequestId → OffloadRequest H) (known : List RequestId) : Prop where
  book : c.JobBook
  reports : ∀ id job, c.jobs.lookup id = some job →
    ∃ n : ℕ, remaining.lookup id = some n ∧ 0 < n ∧ job.pendingCount = n
  issued : ∀ id ∈ remaining, id < c.jobCounter
  settled : ∀ id n, remaining.lookup id = some n → c.staleJobThreshold ≤ id → id ∉ c.jobs → n = 0
  entries : ∀ r l, c.jobIds r = some l → r ∈ known
  present : ∀ r ∈ known, (objs r).isFinished = false → ∃ l, c.jobIds r = some l
  gone : ∀ r l, c.jobIds r = some l → (objs r).isFinished = true → l ≠ []

variable {c c' : OffloadingConnectorScheduler M H} {remaining : Table ℕ ℕ}
  {objs : RequestId → OffloadRequest H} {known : List RequestId} {config : SchedulerOffloadConfig}

theorem Booked.congr (h : Booked c remaining objs known) (hsame : SameJobs c c') :
    Booked c' remaining objs known := by
  have hids : c'.jobIds = c.jobIds := funext hsame.jobIds
  refine ⟨h.book.congr hsame, ?_, ?_, ?_, ?_, ?_, ?_⟩
  all_goals simp only [hids, hsame.jobs, hsame.jobCounter, hsame.staleJobThreshold]
  exacts [h.reports, h.issued, h.settled, h.entries, h.present, h.gone]

/-! ## Calls that issue jobs -/

/-- A call has only issued jobs with a property. -/
structure Grown (config : SchedulerOffloadConfig) (P : TransferJobStatus (OffloadKey H) → Prop)
    (c c' : OffloadingConnectorScheduler M H) : Prop where
  staleJobThreshold : c'.staleJobThreshold = c.staleJobThreshold
  jobCounter : c.jobCounter ≤ c'.jobCounter
  kept : ∀ id job, c.jobs.lookup id = some job → c'.jobs.lookup id = some job
  new : ∀ id job, c'.jobs.lookup id = some job →
    c.jobs.lookup id = some job ∨ c.jobCounter ≤ id ∧ job.pendingCount = config.numWorkers ∧ P job
  covered : ∀ id, c.jobCounter ≤ id → id < c'.jobCounter → id ∈ c'.jobs
  jobIds : ∀ r, (c.jobIds r = none ∧ c'.jobIds r = none) ∨
    ∃ l more, c.jobIds r = some l ∧ c'.jobIds r = some (l ++ more) ∧ ∀ id ∈ more, c.jobCounter ≤ id

variable {P : TransferJobStatus (OffloadKey H) → Prop}

theorem Grown.same (h : SameJobs c c') : Grown config P c c' where
  staleJobThreshold := h.staleJobThreshold
  jobCounter := h.jobCounter.ge
  kept id job hjob := h.jobs ▸ hjob
  new id job hjob := .inl (h.jobs ▸ hjob)
  covered id hge hlt := absurd hlt (not_lt.mpr (h.jobCounter ▸ hge))
  jobIds r := by
    rw [h.jobIds]
    cases hl : c.jobIds r with
    | none => exact .inl ⟨rfl, rfl⟩
    | some l => exact .inr ⟨l, [], rfl, by rw [append_nil], nofun⟩

theorem Grown.issued {reqId : RequestId} {before : List ℕ} {job : TransferJobStatus (OffloadKey H)}
    (hbook : c.JobBook) (h : Issued config c c' reqId before job) (hP : P job) : Grown config P c c' where
  staleJobThreshold := h.staleJobThreshold
  jobCounter := by
    rw [h.jobCounter]
    exact Nat.le_succ _
  kept id j hj := by
    have hmem : id ∈ c.jobs := mem_of_lookup hj
    rwa [h.jobs, lookup_insert_ne (ne_of_lt (hbook.lt id hmem))]
  new id j hj := by
    rw [h.jobs] at hj
    rcases eq_or_ne id c.jobCounter with rfl | hne
    · rw [lookup_insert, some.injEq] at hj
      exact .inr ⟨le_rfl, hj ▸ h.pendingCount, hj ▸ hP⟩
    · rw [lookup_insert_ne hne] at hj
      exact .inl hj
  covered id hge hlt := by
    rw [h.jobCounter] at hlt
    rw [h.jobs, mem_insert]
    exact .inl (by omega)
  jobIds r := by
    rw [h.jobIds]
    split_ifs with hr
    · exact .inr ⟨before, [c.jobCounter], hr ▸ h.had, rfl, fun id hid => (mem_singleton.mp hid).ge⟩
    · cases hl : c.jobIds r with
      | none => exact .inl ⟨rfl, rfl⟩
      | some l => exact .inr ⟨l, [], rfl, by rw [append_nil], nofun⟩

theorem Grown.trans {c'' : OffloadingConnectorScheduler M H} (h : Grown config P c c')
    (h' : Grown config P c' c'') : Grown config P c c'' where
  staleJobThreshold := h'.staleJobThreshold.trans h.staleJobThreshold
  jobCounter := h.jobCounter.trans h'.jobCounter
  kept id job hjob := h'.kept id job (h.kept id job hjob)
  new id job hjob := by
    rcases h'.new id job hjob with hold | ⟨hge, hnew⟩
    · exact h.new id job hold
    · exact .inr ⟨h.jobCounter.trans hge, hnew⟩
  covered id hge hlt := by
    rcases lt_or_ge id c'.jobCounter with hlt' | hge'
    · obtain ⟨job, hjob⟩ := exists_lookup (h.covered id hge hlt')
      exact AList.lookup_isSome.mp (by rw [h'.kept id job hjob]; rfl)
    · exact h'.covered id hge' hlt
  jobIds r := by
    rcases h.jobIds r with ⟨hnone, hnone'⟩ | ⟨l, more, hl, hl', hmore⟩
    · rcases h'.jobIds r with ⟨-, hnone''⟩ | ⟨l, _, hl, -, -⟩
      · exact .inl ⟨hnone, hnone''⟩
      · simp [hnone'] at hl
    rcases h'.jobIds r with ⟨hnone, -⟩ | ⟨l₂, more', hl₂, hl'', hmore'⟩
    · simp [hl'] at hnone
    rw [hl'] at hl₂
    cases hl₂
    refine .inr ⟨l, more ++ more', hl, by rw [hl'', append_assoc], fun id hid => ?_⟩
    rcases mem_append.mp hid with hid | hid
    · exact hmore id hid
    · exact h.jobCounter.trans (hmore' id hid)

theorem lookup_issue (s : OffloadRun M H) (conn : OffloadingConnectorScheduler M H) (id : ℕ) :
    (s.issue config conn).remaining.lookup id =
      if s.conn.jobCounter ≤ id ∧ id < s.conn.jobCounter + (conn.jobCounter - s.conn.jobCounter) then
        some config.numWorkers
      else s.remaining.lookup id := by
  unfold OffloadRun.issue
  generalize conn.jobCounter - s.conn.jobCounter = n
  generalize s.conn.jobCounter = first
  generalize s.remaining = remaining
  induction n generalizing first remaining with
  | zero => simp
  | succ n ih =>
    rw [List.range'_succ, foldl_cons, ih]
    rcases eq_or_ne id first with rfl | hne
    · rw [if_neg (by omega), if_pos (by omega), lookup_insert]
    · rw [lookup_insert_ne hne]
      exact if_congr (by omega) rfl rfl

theorem Booked.grown {s : OffloadRun M H} {conn : OffloadingConnectorScheduler M H}
    (hworkers : 0 < config.numWorkers) (h : Booked s.conn s.remaining s.objs s.known) (hbook : conn.JobBook)
    (hgrown : Grown config P s.conn conn) : Booked conn (s.issue config conn).remaining s.objs s.known := by
  have hcounter := hgrown.jobCounter
  refine ⟨hbook, fun id job hjob => ?_, fun id hid => ?_, fun id n hn hge hid => ?_, fun r l hl => ?_,
    fun r hr hfinished => ?_, fun r l hl hfinished => ?_⟩
  · have hlt := hbook.lt id (mem_of_lookup hjob)
    rw [lookup_issue]
    rcases hgrown.new id job hjob with hold | ⟨hge, hcount, -⟩
    · have hlt' := h.book.lt id (mem_of_lookup hold)
      rw [if_neg (by omega)]
      exact h.reports id job hold
    · rw [if_pos (by omega)]
      exact ⟨config.numWorkers, rfl, hworkers, hcount⟩
  · rw [← lookup_isSome, lookup_issue] at hid
    split_ifs at hid with hnew
    · omega
    · exact (h.issued id (AList.lookup_isSome.mp hid)).trans_le hcounter
  · rw [lookup_issue] at hn
    split_ifs at hn with hnew
    · exact absurd (hgrown.covered id hnew.1 (by omega)) hid
    · refine h.settled id n hn (hgrown.staleJobThreshold ▸ hge) fun hin => hid ?_
      obtain ⟨job, hjob⟩ := exists_lookup hin
      exact AList.lookup_isSome.mp (by rw [hgrown.kept id job hjob]; rfl)
  · rcases hgrown.jobIds r with ⟨-, hnone⟩ | ⟨l', _, hl', -, -⟩
    · simp [hnone] at hl
    · exact h.entries r l' hl'
  · obtain ⟨l, hl⟩ := h.present r hr hfinished
    rcases hgrown.jobIds r with ⟨hnone, -⟩ | ⟨_, _, -, hl', -⟩
    · simp [hnone] at hl
    · exact ⟨_, hl'⟩
  rcases hgrown.jobIds r with ⟨-, hnone⟩ | ⟨l', more, hl', hmore, -⟩
  · simp [hnone] at hl
  · rw [hmore] at hl
    cases hl
    exact fun hnil => h.gone r l' hl' hfinished (append_eq_nil_iff.mp hnil).1

section Build

variable (mgr : OffloadingManager M (OffloadKey H))
variable {reqId : RequestId} {id count n : ℕ} {job job' : TransferJobStatus (OffloadKey H)}
  {reports : List (ℕ × ℕ)} {s : OffloadRun M H} {req : OffloadRequest H}
variable {output : StepOutput} {metadata : OffloadingConnectorMetadata}
  {e : ConnectorError (OffloadKey H)} {report : ℕ × ℕ}

theorem grown_of_storeStep [DecidableEq H] (hbook : c.JobBook) (h : StoreStep mgr config c c' reqId) :
    c'.JobBook ∧ Grown config (·.isStore = true) c c' := by
  cases h with
  | same hsame => exact ⟨hbook.congr hsame.toSameJobs, .same hsame.toSameJobs⟩
  | declined hsame => exact ⟨hbook.congr hsame, .same hsame⟩
  | issued hissued _ _ hstore => exact ⟨hbook.issued config hissued, .issued hbook hissued hstore⟩

/-! ## What building the metadata raises -/

def LoadListed (c : OffloadingConnectorScheduler M H) (reqId : RequestId)
    (e : ConnectorError (OffloadKey H)) : Prop :=
  ∃ l, c.jobIds reqId = some l ∧
    ∃ id ∈ l, ∃ job, c.jobs.lookup id = some job ∧ job.isStore = false ∧ e = .loadPending id

theorem LoadListed.of_grown (hbook : c.JobBook)
    (h : LoadListed c' reqId e) (hgrown : Grown config (·.isStore = true) c c') : LoadListed c reqId e := by
  obtain ⟨l', hl', id, hid, job, hjob, hload, rfl⟩ := h
  rcases hgrown.new id job hjob with hold | ⟨-, -, hstore⟩
  · rcases hgrown.jobIds reqId with ⟨-, hnone⟩ | ⟨l, more, hl, hmore, hge⟩
    · simp [hnone] at hl'
    rw [hmore] at hl'
    cases hl'
    rcases mem_append.mp hid with hid | hid
    · exact ⟨l, hl, id, hid, job, hold, hload, rfl⟩
    · have hlt := hbook.lt id (mem_of_lookup hold)
      exact absurd (hge id hid) (not_le.mpr hlt)
  · simp [hstore] at hload

theorem LoadListed.of_failsCheck (hbook : c.JobBook) (h : FailsCheck c reqId e) : LoadListed c reqId e := by
  obtain ⟨status, hstatus, herror⟩ := h
  have hl := jobIds_of_lookup hstatus
  revert e
  change OnlyRaises _ _
  unfold checkStores
  split
  · exact .ok _
  next anyJobId rest hjobs =>
    have hmem : anyJobId ∈ status.transferJobs := by
      rw [hjobs]
      exact mem_cons_self
    obtain ⟨job, hjob, -⟩ := hbook.listed reqId _ hl anyJobId hmem
    unfold jobOf
    rw [hjob]
    refine .bind (.ok _) fun j hj => .require fun hload => ?_
    cases hj
    exact ⟨_, hl, anyJobId, hmem, job, hjob, Bool.eq_false_iff.mpr hload, rfl⟩

theorem meets_buildConnectorMeta_grown [DecidableEq H] (hbook : c.JobBook) :
    Meets (fun e => e.isAboutJob = false ∨ ∃ reqId ∈ output.reqIds, LoadListed c reqId e)
      (fun r => r.2.JobBook ∧ Grown config (·.isStore = true) c r.2)
      (buildConnectorMeta mgr config c objs output) := by
  have hcongr : ∀ c₁ c₂, SameJobs c₁ c₂ → c₁.JobBook ∧ Grown config (·.isStore = true) c c₁ →
      c₂.JobBook ∧ Grown config (·.isStore = true) c c₂ :=
    fun _ _ hsame h => ⟨h.1.congr hsame, h.2.trans (.same hsame)⟩
  refine (meets_buildConnectorMeta mgr config (fun c₁ c₂ h => hcongr c₁ c₂ h.toSameJobs)
    (fun c₁ _ _ => hcongr c₁ _ ⟨rfl, rfl, rfl, fun _ => rfl⟩) (fun c₁ c₂ _ _ hstep h => ?_)
    ⟨hbook, .same (.refl c)⟩).mono (fun e he => he.imp_right ?_) fun _ => id
  · obtain ⟨hbook', hgrown⟩ := grown_of_storeStep mgr h.1 hstep
    exact ⟨hbook', h.2.trans hgrown⟩
  · rintro ⟨reqId, hreq, c', ⟨hbook', hgrown⟩, hfails⟩
    exact ⟨reqId, hreq, (LoadListed.of_failsCheck hbook' hfails).of_grown hbook hgrown⟩

/-! ## Reports -/

section

variable (h : Booked c remaining objs known)
include h

theorem Booked.exists_job (hn : remaining.lookup id = some n) (hpos : 0 < count) (hle : count ≤ n)
    (hge : c.staleJobThreshold ≤ id) : ∃ job, c.jobs.lookup id = some job := by
  refine exists_lookup (by_contra fun hnot => ?_)
  have := h.settled id n hn hge hnot
  omega

theorem Booked.stale (hin : id ∈ remaining)
    (hlt : id < c.staleJobThreshold) : Booked c (remaining.insert id n) objs known where
  __ := h
  reports id' job hjob := by
    have hge := h.book.ge id' (mem_of_lookup hjob)
    rw [lookup_insert_ne (by omega)]
    exact h.reports id' job hjob
  issued id' hid := by
    rcases (mem_insert _).mp hid with rfl | hid
    · exact h.issued id' hin
    · exact h.issued id' hid
  settled id' n' hn' hge := by
    rw [lookup_insert_ne (by omega)] at hn'
    exact h.settled id' n' hn' hge

section

variable (hjob : c.jobs.lookup id = some job) (hreq : job'.reqId = job.reqId)
include hjob hreq

theorem Booked.reported (hcount : job'.pendingCount = n) (hpos : 0 < n) :
    Booked { c with jobs := c.jobs.insert id job' } (remaining.insert id n) objs known where
  __ := h
  book := h.book.reported hjob hreq
  reports id' j hj := by
    rcases eq_or_ne id' id with rfl | hne
    · have heq : job' = j := by simpa using hj
      exact ⟨n, lookup_insert _, hpos, heq ▸ hcount⟩
    · rw [lookup_insert_ne hne]
      exact h.reports id' j ((lookup_insert_ne hne).symm.trans hj)
  issued id' hid := by
    rcases (mem_insert _).mp hid with rfl | hid
    · exact h.book.lt id' (mem_of_lookup hjob)
    · exact h.issued id' hid
  settled id' n' hn' hge hid := by
    obtain ⟨hne, hid⟩ := not_or.mp (mt (mem_insert _).mpr hid)
    rw [lookup_insert_ne hne] at hn'
    exact h.settled id' n' hn' hge hid

theorem Booked.completed {before : List ℕ}
    (hdone : Completed { c with jobs := c.jobs.insert id job' } c' (objs job'.reqId).isFinished id job'.reqId
      before) :
    Booked c' (remaining.insert id 0) objs known := by
  have hjobs : ∀ id', id' ≠ id → c'.jobs.lookup id' = c.jobs.lookup id' := by
    intro id' hne
    rw [hdone.jobs, lookup_erase_ne hne]
    exact lookup_insert_ne hne
  have hgone : c'.jobs.lookup id = none := by rw [hdone.jobs, lookup_erase]
  have hcounter : c'.jobCounter = c.jobCounter := hdone.jobCounter
  have hbefore : c.jobIds job'.reqId = some before := hdone.had
  have hids : ∀ r, c'.jobIds r = if r = job'.reqId then
      if before.erase id = [] ∧ (objs job'.reqId).isFinished = true then none else some (before.erase id)
      else c.jobIds r := hdone.jobIds
  refine ⟨(h.book.reported hjob hreq).completed hdone, fun id' j hj => ?_, fun id' hid => ?_,
    fun id' n hn hge hid => ?_, fun r l hl => ?_, fun r hr hfinished => ?_, fun r l hl hfinished => ?_⟩
  · rcases eq_or_ne id' id with rfl | hne
    · simp [hgone] at hj
    · rw [lookup_insert_ne hne]
      exact h.reports id' j (hjobs id' hne ▸ hj)
  · rw [hcounter]
    rcases (mem_insert _).mp hid with rfl | hid
    · exact h.book.lt id' (mem_of_lookup hjob)
    · exact h.issued id' hid
  · rcases eq_or_ne id' id with rfl | hne
    · rw [lookup_insert, some.injEq] at hn
      exact hn.symm
    · rw [lookup_insert_ne hne] at hn
      refine h.settled id' n hn (hdone.staleJobThreshold ▸ hge) fun hin => hid ?_
      rwa [← lookup_isSome, hjobs id' hne, lookup_isSome]
  · rw [hids] at hl
    split_ifs at hl with hr
    · exact h.entries r before (hr ▸ hbefore)
    · exact h.entries r l hl
  · rw [hids]
    split_ifs with hreq' hnone
    · rw [← hreq', hfinished] at hnone
      cases hnone.2
    · exact ⟨_, rfl⟩
    · exact h.present r hr hfinished
  rw [hids] at hl
  split_ifs at hl with hreq' hnone
  · cases hl
    exact fun hnil => hnone ⟨hnil, hreq' ▸ hfinished⟩
  · exact h.gone r l hl hfinished

end

end

section

variable (h : Booked c remaining objs known) (hn : remaining.lookup id = some n)
include h hn

theorem Booked.reportJob [DecidableEq H] (hstep : reportJob mgr objs c (id, count) = .ok c') :
    Booked c' (remaining.insert id (n - count)) objs known := by
  cases reportJob_reported mgr hstep with
  | stale hlt heq => exact heq ▸ h.stale (mem_of_lookup hn) hlt
  | counted hjob hjob' hmore heq =>
    obtain ⟨_, hn', -, hcount⟩ := h.reports id _ hjob
    obtain rfl := mem_unique hn hn'
    obtain rfl := hjob'
    dsimp only at hmore
    exact heq ▸ h.reported hjob rfl (by dsimp only; omega) (by omega)
  | completed hjob hjob' hzero hdone =>
    obtain ⟨_, hn', -, hcount⟩ := h.reports id _ hjob
    obtain rfl := mem_unique hn hn'
    have hlast : n - count = 0 := by
      rw [hjob'] at hzero
      dsimp only at hzero
      omega
    rw [hlast]
    exact h.completed hjob (by rw [hjob']) hdone

theorem Booked.onlyRaises_reportJob [DecidableEq H] (hpos : 0 < count) (hle : count ≤ n) :
    OnlyRaises (fun e => e.isAboutJob = false ∨ e.jobIds = [id] ∧ c.staleJobThreshold ≤ id)
      (OffloadingConnectorScheduler.reportJob mgr objs c (id, count)) := by
  refine .bind (.require fun hnot => absurd hpos hnot) fun _ _ => .ite (fun _ => .ok _) fun hlt => ?_
  obtain ⟨job, hjob⟩ := h.exists_job hn hpos hle (not_lt.mp hlt)
  unfold jobOf
  rw [hjob]
  refine .bind (.ok _) fun _ _ => .ite (fun _ => .ok _) fun _ => ?_
  refine .bind (.require fun _ => .inr ⟨rfl, not_lt.mp hlt⟩) fun _ _ => ?_
  exact (meets_completeJob mgr _ objs id _).raises.mono fun e he => he.imp_right fun heq => ⟨heq, not_lt.mp hlt⟩

end

theorem lookup_received (s : OffloadRun M H)
    (hid : id ∉ reports.map Prod.fst) : (s.received reports).lookup id = s.remaining.lookup id := by
  unfold OffloadRun.received
  generalize s.remaining = remaining
  induction reports generalizing remaining with
  | nil => rfl
  | cons report rest ih =>
    obtain ⟨hne, hrest⟩ := not_or.mp (mt mem_cons.mpr hid)
    rw [foldl_cons, ih hrest, lookup_insert_ne hne]

theorem reports_split {done rest : List (ℕ × ℕ)}
    (hok : s.Disciplined (.updateConnectorOutput reports)) (hreports : reports = done ++ report :: rest) :
    ∃ n, (s.received done).lookup report.1 = some n ∧ 0 < report.2 ∧ report.2 ≤ n ∧
      s.received (done ++ [report]) = (s.received done).insert report.1 (n - report.2) := by
  obtain ⟨hnodup, hcounts⟩ := hok
  obtain ⟨hpos, hle⟩ := hcounts report (by rw [hreports]; simp)
  have hnot : report.1 ∉ done.map Prod.fst := by
    rw [hreports, map_append, map_cons] at hnodup
    exact fun hin => (nodup_append.mp hnodup).2.2 _ hin _ mem_cons_self rfl
  have hsame := lookup_received s hnot
  cases hn : s.remaining.lookup report.1 with
  | none =>
    rw [hn, getD_none] at hle
    omega
  | some n =>
    rw [hn] at hle hsame
    refine ⟨n, hsame, hpos, hle, ?_⟩
    have hlast : s.received (done ++ [report]) =
        (s.received done).insert report.1 (((s.received done).lookup report.1).getD 0 - report.2) :=
      foldl_append
    rw [hlast, hsame, getD_some]

/-- Jobs only go away, and stay of their kind. -/
structure Shrunk (c c' : OffloadingConnectorScheduler M H) : Prop where
  staleJobThreshold : c'.staleJobThreshold = c.staleJobThreshold
  jobs : ∀ id job', c'.jobs.lookup id = some job' →
    ∃ job, c.jobs.lookup id = some job ∧ job.isStore = job'.isStore
  jobIds : ∀ r l', c'.jobIds r = some l' → ∃ l, c.jobIds r = some l ∧ l' ⊆ l

theorem Shrunk.refl (c : OffloadingConnectorScheduler M H) : Shrunk c c :=
  ⟨rfl, fun _ job hjob => ⟨job, hjob, rfl⟩, fun _ l hl => ⟨l, hl, List.Subset.refl l⟩⟩

theorem Shrunk.trans {c'' : OffloadingConnectorScheduler M H} (h : Shrunk c c') (h' : Shrunk c' c'') :
    Shrunk c c'' := by
  refine ⟨h'.staleJobThreshold.trans h.staleJobThreshold, fun id job hjob => ?_, fun r l hl => ?_⟩
  · obtain ⟨job₁, hjob₁, hkind⟩ := h'.jobs id job hjob
    obtain ⟨job₀, hjob₀, hkind₀⟩ := h.jobs id job₁ hjob₁
    exact ⟨job₀, hjob₀, hkind₀.trans hkind⟩
  · obtain ⟨l₁, hl₁, hsub⟩ := h'.jobIds r l hl
    obtain ⟨l₀, hl₀, hsub₀⟩ := h.jobIds r l₁ hl₁
    exact ⟨l₀, hl₀, List.Subset.trans hsub hsub₀⟩

theorem Shrunk.completed {finished : Bool} {jobId : ℕ} {before : List ℕ}
    (h : Completed c c' finished jobId reqId before) : Shrunk c c' := by
  refine ⟨h.staleJobThreshold, fun id job hjob => ?_, fun r l hl => ?_⟩
  · rw [h.jobs] at hjob
    rcases eq_or_ne id jobId with rfl | hne
    · simp [lookup_erase] at hjob
    · rw [lookup_erase_ne hne] at hjob
      exact ⟨job, hjob, rfl⟩
  rw [h.jobIds] at hl
  split_ifs at hl with hr
  · cases hl
    exact ⟨before, hr ▸ h.had, erase_subset⟩
  · exact ⟨l, hl, List.Subset.refl l⟩

theorem Shrunk.reported (hjob : c.jobs.lookup id = some job) (hkind : job.isStore = job'.isStore) :
    Shrunk c { c with jobs := c.jobs.insert id job' } := by
  refine ⟨rfl, fun id' j hj => ?_, fun r l hl => ⟨l, hl, List.Subset.refl l⟩⟩
  rcases eq_or_ne id' id with rfl | hne
  · have heq : job' = j := by simpa using hj
    exact ⟨job, hjob, heq ▸ hkind⟩
  · exact ⟨j, (lookup_insert_ne hne).symm.trans hj, rfl⟩

theorem reportJob_shrunk [DecidableEq H] (h : reportJob mgr objs c report = .ok c') : Shrunk c c' := by
  cases reportJob_reported mgr h with
  | stale _ heq => exact heq ▸ .refl c
  | counted hjob hjob' _ heq => exact heq ▸ .reported hjob (by rw [hjob'])
  | completed hjob hjob' _ hdone => exact (Shrunk.reported hjob (by rw [hjob'])).trans (.completed hdone)

theorem updateConnectorOutput_shrunk [DecidableEq H]
    (h : updateConnectorOutput mgr c objs reports = .ok c') : Shrunk c c' :=
  foldlM_invariant (P := Shrunk c) reports
    (fun _ _ _ _ hshrunk hstep => hshrunk.trans (reportJob_shrunk mgr hstep)) (.refl c) h

theorem Booked.meets_updateConnectorOutput [DecidableEq H]
    (h : Booked s.conn s.remaining s.objs s.known) (hok : s.Disciplined (.updateConnectorOutput reports)) :
    Meets (fun e => ∀ id ∈ e.jobIds, s.conn.staleJobThreshold ≤ id)
      (fun c => Booked c (s.received reports) s.objs s.known ∧ c.staleJobThreshold = s.conn.staleJobThreshold)
      (OffloadingConnectorScheduler.updateConnectorOutput mgr s.conn s.objs reports) := by
  refine Meets.foldlM_done (I := fun done c => Booked c (s.received done) s.objs s.known ∧
      c.staleJobThreshold = s.conn.staleJobThreshold) (fun done report rest c₁ hreports hI => ?_) ⟨h, rfl⟩
  obtain ⟨n, hn, hpos, hle, hreceived⟩ := reports_split hok hreports
  refine ⟨(hI.1.onlyRaises_reportJob mgr hn hpos hle).mono fun e he id hid => ?_, fun c₂ hreport => ?_⟩
  · rcases he with hfree | ⟨heq, hge⟩
    · simp [ConnectorError.jobIds_eq_nil hfree] at hid
    · rw [heq, mem_singleton] at hid
      rwa [hid, ← hI.2]
  · rw [hreceived]
    exact ⟨hI.1.reportJob mgr hn hreport, (reportJob_shrunk mgr hreport).staleJobThreshold.trans hI.2⟩

/-! ## Requests that come and go -/

theorem meets_matched [DecidableEq H] :
    JobFreely (SameJobs c ·.2) (getNumNewMatchedTokens mgr config c reqId req n) :=
  (meets_getNumNewMatchedTokens mgr config (P := fun _ => True) (fun _ _ _ _ _ => trivial) (fun _ _ _ => trivial)
    trivial).mono (fun _ => id) fun _ => And.left

section

variable (h : Booked c remaining objs known)
include h

theorem Booked.onNewRequest (hfresh : reqId ∉ known) (hfinished : req.isFinished = false) :
    Booked (c.onNewRequest mgr config reqId req) remaining (update objs reqId req)
      (reqId :: known) := by
  have hnew := onNewRequest_relisted mgr config c reqId req
  have hnone : ∀ l, c.jobIds reqId ≠ some l := fun l hl => hfresh (h.entries reqId l hl)
  have hobjs : ∀ r, r ≠ reqId → update objs reqId req r = objs r :=
    fun r hr => update_of_ne hr req objs
  refine ⟨h.book.relisted hnew (fun l hl => absurd hl (hnone l)) fun l hl => (some.inj hl).symm,
    h.reports, h.issued, h.settled, fun r l hl => ?_, fun r hr hactive => ?_, fun r l hl hdone => ?_⟩
  · rw [hnew.jobIds] at hl
    split_ifs at hl with hr
    · exact hr ▸ mem_cons_self
    · exact mem_cons_of_mem _ (h.entries r l hl)
  · rw [hnew.jobIds]
    split_ifs with hr'
    · exact ⟨_, rfl⟩
    · rw [hobjs r hr'] at hactive
      exact h.present r ((mem_cons.mp hr).resolve_left hr') hactive
  rw [hnew.jobIds] at hl
  split_ifs at hl with hr
  · simp [hr, update_self, hfinished] at hdone
  · exact h.gone r l hl (hobjs r hr ▸ hdone)

theorem Booked.advance (hactive : (objs reqId).isFinished = false) (hfinished : req.isFinished = false) :
    Booked c remaining (update objs reqId req) known := by
  have hobjs : ∀ r, (update objs reqId req r).isFinished = (objs r).isFinished := by
    intro r
    rcases eq_or_ne r reqId with rfl | hr
    · rw [update_self, hfinished, hactive]
    · rw [update_of_ne hr]
  exact { h with
    present := fun r hr hr' => h.present r hr (hobjs r ▸ hr')
    gone := fun r l hl hr => h.gone r l hl (hobjs r ▸ hr) }

theorem Booked.requestFinished
    (hstep : requestFinished mgr c reqId = .ok c') (hfinished : req.isFinished = true) :
    Booked c' remaining (update objs reqId req) known := by
  have hobjs : ∀ r, r ≠ reqId → update objs reqId req r = objs r :=
    fun r hr => update_of_ne hr req objs
  have hself : ∀ r, (update objs reqId req r).isFinished = false → r ≠ reqId := by
    rintro r hr rfl
    simp [update_self, hfinished] at hr
  rcases (requestFinished_cases mgr hstep).2 with ⟨hsame, hne⟩ | ⟨hnil, hgone⟩
  · have hbooked := h.congr hsame
    refine { hbooked with
      present := fun r hr hactive => hbooked.present r hr (hobjs r (hself r hactive) ▸ hactive)
      gone := fun r l hl hdone => ?_ }
    rcases eq_or_ne r reqId with rfl | hr
    · rintro rfl
      exact hne (hsame.jobIds r ▸ hl)
    · exact hbooked.gone r l hl (hobjs r hr ▸ hdone)
  have hids : ∀ r l, c'.jobIds r = some l → r ≠ reqId ∧ c.jobIds r = some l := by
    intro r l hl
    rw [hgone.jobIds] at hl
    split_ifs at hl with hr
    exact ⟨hr, hl⟩
  refine ⟨h.book.relisted hgone (fun l hl => mem_unique hl hnil) nofun,
    fun id job hjob => h.reports id job (hgone.jobs ▸ hjob), fun id hid => ?_, fun id n hn hge hid => ?_,
    fun r l hl => h.entries r l (hids r l hl).2, fun r hr hactive => ?_, fun r l hl hdone => ?_⟩
  · rw [hgone.jobCounter]
    exact h.issued id hid
  · exact h.settled id n hn (hgone.staleJobThreshold ▸ hge) (hgone.jobs ▸ hid)
  · rw [hgone.jobIds, if_neg (hself r hactive)]
    exact h.present r hr (hobjs r (hself r hactive) ▸ hactive)
  · obtain ⟨hr, hl⟩ := hids r l hl
    exact h.gone r l hl (hobjs r hr ▸ hdone)

theorem Booked.resetCache (hjobs : c.jobs = ∅)
    (hstep : resetCache mgr c = .ok c') : Booked c' remaining objs known := by
  have hreset := resetCache_discarded mgr hstep
  have hnojobs : ∀ r l, c.jobIds r = some l → l = [] := by
    intro r l hl
    refine eq_nil_iff_forall_not_mem.mpr fun id hid => ?_
    have := h.book.mem_jobs hl hid
    rw [hjobs] at this
    exact notMem_empty id this
  have hnone : ∀ id job, c'.jobs.lookup id ≠ some job := by
    intro id job hjob
    simp [hreset.jobs] at hjob
  have hnotMem : ∀ id, id ∉ c'.jobs := by
    intro id hid
    rw [hreset.jobs] at hid
    exact notMem_empty id hid
  have hids := hreset.jobIds
  refine ⟨⟨fun r l hl id hid => ?_, fun id job hjob => absurd hjob (hnone id job),
    fun r l hl => h.book.nodup r l (hids r ▸ hl), fun id hid => absurd hid (hnotMem id),
    fun id hid => absurd hid (hnotMem id), ?_⟩, fun id job hjob => absurd hjob (hnone id job), fun id hid => ?_,
    fun id n hn hge => ?_, fun r l hl => h.entries r l (hids r ▸ hl), fun r hr hactive => ?_,
    fun r l hl => h.gone r l (hids r ▸ hl)⟩
  · simp [hnojobs r l (hids r ▸ hl)] at hid
  · rw [hreset.staleJobThreshold, hreset.jobCounter]
  · rw [hreset.jobCounter]
    exact h.issued id hid
  · have hlt := h.issued id (mem_of_lookup hn)
    rw [hreset.staleJobThreshold] at hge
    exact absurd hge (not_le.mpr hlt)
  · rw [hids]
    exact h.present r hr hactive

end

end Build

/-! ## Runs -/

namespace OffloadRun

variable [DecidableEq H] (mgr : OffloadingManager M (OffloadKey H)) {s s' : OffloadRun M H}
  {call : ConnectorCall H}

omit [DecidableEq H] in
theorem Initial.booked (h : s.Initial) : Booked s.conn s.remaining s.objs s.known := by
  obtain ⟨⟨manager, hconn⟩, hknown, hremaining, -⟩ := h
  rw [hconn, hknown, hremaining]
  exact ⟨⟨nofun, nofun, nofun, nofun, nofun, le_rfl⟩, nofun, nofun, nofun, nofun, nofun, nofun⟩

theorem step_booked (hworkers : 0 < config.numWorkers) (h : Booked s.conn s.remaining s.objs s.known)
    (hok : s.Disciplined call) (hreset : call = .resetCache → s.conn.jobs = ∅)
    (hstep : s.step mgr config call = .ok s') : Booked s'.conn s'.remaining s'.objs s'.known := by
  cases call with
  | onNewRequest reqId req =>
    cases hstep
    exact h.onNewRequest mgr hok.1 hok.2
  | advance reqId req =>
    cases hstep
    exact h.advance hok.1.2 hok.2
  | getNumNewMatchedTokens reqId n =>
    obtain ⟨⟨_, conn⟩, hcall, rfl⟩ := bind_pure_eq_ok.mp hstep
    exact h.congr ((meets_matched mgr).ensures hcall)
  | updateStateAfterAlloc reqId blocks n =>
    obtain ⟨conn, hcall, rfl⟩ := bind_pure_eq_ok.mp hstep
    rcases (meets_updateStateAfterAlloc mgr config _ _ _ _).ensures hcall with ⟨-, rfl⟩ | ⟨-, job, -, -, -, -, hissued⟩
    · exact h.grown (P := fun _ => True) hworkers h.book (.same (SameJobs.refl _))
    · exact h.grown (P := fun _ => True) hworkers (h.book.issued config hissued)
        (.issued h.book hissued trivial)
  | buildConnectorMeta output =>
    obtain ⟨⟨_, conn⟩, hcall, rfl⟩ := bind_pure_eq_ok.mp hstep
    obtain ⟨hbook, hgrown⟩ := (meets_buildConnectorMeta_grown mgr h.book).ensures hcall
    exact h.grown hworkers hbook hgrown
  | updateConnectorOutput reports =>
    obtain ⟨conn, hcall, rfl⟩ := bind_pure_eq_ok.mp hstep
    exact ((h.meets_updateConnectorOutput mgr hok).ensures hcall).1
  | requestFinished reqId =>
    obtain ⟨conn, hcall, rfl⟩ := bind_pure_eq_ok.mp hstep
    exact h.requestFinished mgr hcall rfl
  | resetCache =>
    obtain ⟨conn, hcall, rfl⟩ := bind_pure_eq_ok.mp hstep
    exact h.resetCache mgr (hreset rfl) hcall

theorem step_raises (h : Booked s.conn s.remaining s.objs s.known) (hok : s.Disciplined call) :
    OnlyRaises (fun e => ∀ id ∈ e.jobIds, s.conn.staleJobThreshold ≤ id) (s.step mgr config call) := by
  have hfree : ∀ e : ConnectorError (OffloadKey H), e.isAboutJob = false →
      ∀ id ∈ e.jobIds, s.conn.staleJobThreshold ≤ id := by
    intro e he id hid
    simp [ConnectorError.jobIds_eq_nil he] at hid
  cases call with
  | onNewRequest reqId req => exact .ok _
  | advance reqId req => exact .ok _
  | getNumNewMatchedTokens reqId n =>
    exact .bind ((meets_matched mgr).raises.mono hfree) fun _ _ => .ok _
  | updateStateAfterAlloc reqId blocks n =>
    refine .bind ((meets_updateStateAfterAlloc mgr config _ _ _ _).raises.mono fun e he => ?_) fun _ _ => .ok _
    rcases he with he | ⟨ids, hids, -, rfl⟩
    · exact hfree e he
    · exact fun id hid => h.book.ge id (h.book.mem_jobs hids hid)
  | buildConnectorMeta output =>
    refine .bind ((meets_buildConnectorMeta_grown mgr h.book).raises.mono fun e he => ?_) fun _ _ => .ok _
    rcases he with he | ⟨reqId, -, l, hl, id, hid, _, -, -, rfl⟩
    · exact hfree e he
    · intro id' hid'
      obtain rfl := mem_singleton.mp hid'
      exact h.book.ge id' (h.book.mem_jobs hl hid)
  | updateConnectorOutput reports =>
    exact .bind (h.meets_updateConnectorOutput mgr hok).raises fun _ _ => .ok _
  | requestFinished reqId => exact .bind ((h.book.jobFree_requestFinished mgr reqId).mono hfree) fun _ _ => .ok _
  | resetCache => exact .bind (.bind (.require fun _ => hfree _ rfl) fun _ _ => .ok _) fun _ _ => .ok _

end OffloadRun

end VllmPs.Offload
