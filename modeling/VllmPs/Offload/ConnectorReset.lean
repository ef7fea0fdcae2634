import VllmPs.Offload.ConnectorBook

/-!
# Resets of the offloading connector

A reset drops the table of jobs and ignores what the workers still report of them. It does not check that no
request lists a dropped job.
-/

namespace VllmPs.Offload

open Lib OffloadingConnectorScheduler CPUOffloadingManager List Option

variable {H : Type}

namespace OffloadRun

variable [DecidableEq H] {config : SchedulerOffloadConfig}

/-- A reset happens only while no job is outstanding. -/
def QuietReset {M : Type} (s : OffloadRun M H) : ConnectorCall H → Prop
  | .resetCache => s.conn.jobs.keys = []
  | _ => True

instance {M : Type} (s : OffloadRun M H) : (call : ConnectorCall H) → Decidable (s.QuietReset call)
  | .resetCache => inferInstanceAs (Decidable (_ = _))
  | .onNewRequest _ _ | .advance _ _ | .getNumNewMatchedTokens _ _ | .updateStateAfterAlloc _ _ _
  | .buildConnectorMeta _ | .updateConnectorOutput _ | .requestFinished _ => inferInstanceAs (Decidable True)

omit [DecidableEq H] in
theorem QuietReset.jobs_eq_empty {M : Type} {s : OffloadRun M H} (h : s.QuietReset .resetCache) :
    s.conn.jobs = ∅ := by
  apply AList.ext
  exact map_eq_nil_iff.mp h

variable {M : Type} (mgr : OffloadingManager M (OffloadKey H)) {s : OffloadRun M H}

/-- If resets happen only while no job is outstanding, the jobs that requests list are in the table, what a
call raises is never about a job from before the last reset, and a finished request whose jobs are
done has no entry. -/
theorem reset_safe_while_idle (hworkers : 0 < config.numWorkers)
    (h : Reachable Initial (fun s call => s.Disciplined call ∧ s.QuietReset call) (step mgr config) s) :
    (∀ reqId l, s.conn.jobIds reqId = some l → ∀ id ∈ l, id ∈ s.conn.jobs) ∧
    (∀ call, s.Disciplined call →
      OnlyRaises (fun e => ∀ id ∈ e.jobIds, s.conn.staleJobThreshold ≤ id) (s.step mgr config call)) ∧
    ∀ reqId, (s.objs reqId).isFinished = true →
      (∀ id job, s.conn.jobs.lookup id = some job → job.reqId ≠ reqId) → s.conn.jobIds reqId = none := by
  have hbooked : Booked s.conn s.remaining s.objs s.known :=
    h.invariant (P := fun s => Booked s.conn s.remaining s.objs s.known) (fun _ hs => hs.booked)
      fun s call s' hP hok hstep => step_booked mgr hworkers hP hok.1
        (by rintro rfl; exact hok.2.jobs_eq_empty) hstep
  refine ⟨fun reqId l hl id hid => hbooked.book.mem_jobs hl hid,
    fun call hok => step_raises mgr hbooked hok, fun reqId hfinished hdone => ?_⟩
  cases hl : s.conn.jobIds reqId with
  | none => rfl
  | some l =>
    obtain ⟨id, hid⟩ := exists_mem_of_ne_nil l (hbooked.gone reqId l hl hfinished)
    obtain ⟨job, hjob, howner⟩ := hbooked.book.listed reqId l hl id hid
    exact absurd howner (hdone id job hjob)

/-- A connector over a CPU manager of four blocks. -/
def fourCpuBlocks : OffloadRun (CPUOffloadingManager (OffloadKey ℕ) ℚ) ℕ where
  conn := { manager := .new 4 .lru 1 64000 }
  objs _ := { blockHashes := [], numTokens := 0, numPromptTokens := 0 }

/-- It has not been called yet. -/
theorem fourCpuBlocks_initial : fourCpuBlocks.Initial := ⟨⟨_, rfl⟩, rfl, rfl, rfl⟩

/-- A reset between two steps, after which the request stores its blocks again. -/
def storeAgain : List (ConnectorCall ℕ) :=
  storeOnce ++ [.updateConnectorOutput [(0, 1)], .resetCache,
    .buildConnectorMeta ⟨[("A", some [[3]], false)], [("A", 1)], []⟩]

/-- After a reset without outstanding jobs the request stores its blocks again, and can finish. -/
theorem reset_safe_while_idle_storeAgain : ∃ s : OffloadRun (CPUOffloadingManager (OffloadKey ℕ) ℚ) ℕ,
      Reachable Initial (fun s call => s.Disciplined call ∧ s.QuietReset call) (step cpuManager oneWorker) s ∧
      s.conn.staleJobThreshold = 1 ∧ s.conn.jobIds "A" = some [1] ∧ 1 ∈ s.conn.jobs := by
  have hstart : Reachable Initial (fun s call => s.Disciplined call ∧ s.QuietReset call) (step cpuManager oneWorker)
      fourCpuBlocks := .start fourCpuBlocks_initial
  obtain ⟨s, hreach, hthreshold, hids⟩ := hstart.exists_checkedRun (P := fun s =>
    s.conn.staleJobThreshold = 1 ∧ s.conn.jobIds "A" = some [1]) storeAgain (by decide +kernel)
  exact ⟨s, hreach, hthreshold, hids, (reset_safe_while_idle cpuManager (by decide) hreach).1 "A" [1] hids 1
    mem_cons_self⟩

/-- A request with a store under way still lists it after a reset, and then cannot finish. -/
theorem reset_safe_while_idle_fails_during_store : ∃ s : OffloadRun (CPUOffloadingManager (OffloadKey ℕ) ℚ) ℕ,
      Reachable Initial Disciplined (step cpuManager oneWorker) s ∧ s.conn.jobIds "A" = some [0] ∧
      0 ∉ s.conn.jobs ∧ s.conn.staleJobThreshold = 1 ∧ s.Disciplined (.requestFinished "A") ∧
      ∃ e, s.step cpuManager oneWorker (.requestFinished "A") = .error e ∧ e = .unknownJob 0 := by
  have hstart : Reachable Initial Disciplined (step cpuManager oneWorker) fourCpuBlocks :=
    .start fourCpuBlocks_initial
  obtain ⟨s, hreach, hids, hgone, hthreshold, hok, herror⟩ := hstart.exists_checkedRun (P := fun s =>
    s.conn.jobIds "A" = some [0] ∧ 0 ∉ s.conn.jobs ∧ s.conn.staleJobThreshold = 1 ∧
      s.Disciplined (.requestFinished "A") ∧
      s.step cpuManager oneWorker (.requestFinished "A") = .error (.unknownJob 0)) (storeOnce ++ [.resetCache])
    (by decide +kernel)
  exact ⟨s, hreach, hids, hgone, hthreshold, hok, _, herror, rfl⟩

end OffloadRun

end VllmPs.Offload
