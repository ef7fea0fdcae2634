import VllmPs.Offload.TieringLedger

/-!
# Runs of the tiering manager

Loads and stores are prepared and completed in pairs, and the secondary tiers report their jobs in any order
and with any outcome. In every state of such a run the ledger holds, and the only assertion that can fail is
the one against loading a block that is not there.
-/

namespace VllmPs.Offload

open Lib CPUOffloadingManager List

variable {K F : Type} [DecidableEq K]

namespace TieringOffloadingManager

variable {finished : List (List JobResult)} {keys : List K}
variable {primary : CPUOffloadingManager K F}

structure Numbered (m : TieringOffloadingManager K F) : Prop where
  lt : ∀ id ∈ m.transferJobs, id < m.jobIdCounter
  tracked : ∀ p ∈ m.submitted, p.2 ∈ m.transferJobs
  nodup : (m.submitted.map Prod.snd).Nodup

structure Tracked (m : TieringOffloadingManager K F) (loads stores : List (List K)) : Prop where
  sound : m.primaryTier.Sound
  ledger : Ledger m.primaryTier.get m.transferJobs (pendingEntries m.pendingLoadSubmissions) loads stores
  numbered : m.Numbered

def Reports (m : TieringOffloadingManager K F) (finished : List (List JobResult)) : Prop :=
  ((reports finished).map fun r => (r.1, r.2.jobId)).Nodup ∧
    ∀ r ∈ reports finished, (r.1, r.2.jobId) ∈ m.submitted
  deriving Decidable

/-- The references of every block fit its count. -/
def Within (m : TieringOffloadingManager K F) (loads : List (List K)) : Prop :=
  ∀ k, readers m.transferJobs loads k < 2 ^ 31

/-- What a load of a block raises that is absent or not ready. -/
def Unreadable (e : OffloadError K) : Prop := ∃ k, e = .notInCache k ∨ e = .notReady k

variable {m : TieringOffloadingManager K F} {loads stores : List (List K)}

/-- Completing a load raises nothing, if its blocks have enough references. -/
theorem meets_completeLoad {primary : CPUOffloadingManager K F} {enough : Prop}
    (h : enough → ∀ k ∈ keys, ∃ block, primary.get k = some block ∧ (keys.count k : ℤ) ≤ block.refCnt) :
    Meets (fun _ => ¬enough) (fun primary' : CPUOffloadingManager K F =>
      (∀ k, primary'.get k = (primary.get k).map (·.addRefCnt (-(keys.count k : ℤ)))) ∧
        (primary.Sound → primary'.Sound)) (primary.completeLoad keys) :=
  ⟨fun e he hw => (succeeds_completeLoad keys (h hw)).raises e he, ensures_completeLoad keys⟩

omit [DecidableEq K] in
theorem Numbered.lookup_counter (h : m.Numbered) : m.transferJobs.lookup m.jobIdCounter = none := by
  rw [AList.lookup_eq_none]
  exact fun hin => lt_irrefl _ (h.lt _ hin)

omit [DecidableEq K] in
theorem Numbered.submit (h : m.Numbered) (tier : ℕ) (job : JobMetadata K) : (m.submit tier job).Numbered where
  lt id hid := by
    rcases (AList.mem_insert _).mp hid with rfl | hid
    · exact Nat.lt_succ_self _
    · exact Nat.lt_succ_of_lt (h.lt id hid)
  tracked p hp := by
    rcases mem_append.mp hp with hp | hp
    · exact (AList.mem_insert _).mpr (.inr (h.tracked p hp))
    · rw [mem_singleton.mp hp]
      exact (AList.mem_insert _).mpr (.inl rfl)
  nodup := by
    change ((m.submitted ++ [(tier, m.jobIdCounter)]).map Prod.snd).Nodup
    rw [map_append, nodup_append]
    refine ⟨h.nodup, nodup_singleton _, ?_⟩
    rintro _ hin _ hnew rfl
    rw [map_singleton, mem_singleton] at hnew
    obtain ⟨p, hp, rfl⟩ := mem_map.mp hin
    exact absurd (h.lt _ (h.tracked p hp)) (hnew ▸ lt_irrefl _)

omit [DecidableEq K] in
theorem Numbered.finish (h : m.Numbered) {p : ℕ × ℕ} (hp : p ∈ m.submitted)
    (primaryTier : CPUOffloadingManager K F) :
    Numbered { m with
      primaryTier
      transferJobs := m.transferJobs.erase p.2
      submitted := m.submitted.erase p } where
  lt id hid := h.lt id (AList.mem_erase.mp hid).2
  tracked q hq := by
    rw [AList.mem_erase]
    refine ⟨fun heq => ?_, h.tracked q (mem_of_mem_erase hq)⟩
    have hsame : q = p := inj_on_of_nodup_map h.nodup (mem_of_mem_erase hq) hp heq
    exact ((List.Nodup.mem_erase_iff (List.Nodup.of_map _ h.nodup)).mp hq).1 hsame
  nodup := h.nodup.sublist (erase_sublist.map _)

section

variable (h : m.Tracked loads stores)
include h

theorem finishJob_spec {report : ℕ × JobResult} (hreport : (report.1, report.2.jobId) ∈ m.submitted) :
    Meets (fun _ => ¬m.Within loads) (fun m' => m'.Tracked loads stores ∧
      m'.submitted = m.submitted.erase (report.1, report.2.jobId) ∧ (m.Within loads → m'.Within loads))
      (m.finishJob report) := by
  obtain ⟨job, hjob⟩ := Table.exists_lookup (h.numbered.tracked _ hreport)
  have hwithin (hw : m.Within loads) (k : K) : readers (m.transferJobs.erase report.2.jobId) loads k < 2 ^ 31 := by
    have herase := readers_erase loads k hjob
    have hlt := hw k
    dsimp only at herase
    omega
  unfold finishJob
  rw [hjob]
  refine .ite (fun hp => ?_) fun hp => ?_
  · obtain ⟨hsound, hget⟩ := completeStore_spec h.sound job.keys report.2.success
    exact .ok ⟨⟨hsound, h.ledger.erase_promotion hjob hp hget, h.numbered.finish hreport _⟩, rfl, hwithin⟩
  · obtain ⟨hpinned, hledger⟩ := h.ledger.erase_cascade hjob hp
    exact .bind (meets_completeLoad fun hw => hpinned fun k _ => hw k) fun primaryTier hloaded =>
      .ok ⟨⟨hloaded.2 h.sound, hledger _ hloaded.1, h.numbered.finish hreport _⟩, rfl, hwithin⟩

theorem processFinishedJobs_spec (hreports : m.Reports finished) :
    Meets (fun _ => ¬m.Within loads) (Tracked · loads stores) (m.processFinishedJobs finished) := by
  obtain ⟨hnodup, hsub⟩ := hreports
  unfold processFinishedJobs
  generalize reports finished = all at hnodup hsub ⊢
  induction all generalizing m with
  | nil => exact .ok h
  | cons report rest ih =>
    rw [foldlM_cons]
    refine .bind (finishJob_spec h (hsub report mem_cons_self)) fun m₁ ⟨htracked, hsubmitted, hwithin⟩ => ?_
    rw [map_cons, nodup_cons] at hnodup
    refine (ih htracked hnodup.2 fun r hr => ?_).mono (fun _ hnot hw => hnot (hwithin hw)) fun _ => id
    rw [hsubmitted, List.Nodup.mem_erase_iff (List.Nodup.of_map _ h.numbered.nodup)]
    exact ⟨fun heq => hnodup.1 (mem_map.mpr ⟨r, hr, heq⟩), hsub r (mem_cons_of_mem _ hr)⟩

theorem maybeProcessFinishedJobs_spec (hreports : m.processedJobsThisStep = false → m.Reports finished) :
    Meets (fun _ => ¬m.Within loads) (Tracked · loads stores) (m.maybeProcessFinishedJobs finished) := by
  refine .ite (fun _ => .ok h) fun hdone => ?_
  have htracked : Tracked { m with processedJobsThisStep := true } loads stores :=
    ⟨h.sound, h.ledger, { h.numbered with }⟩
  exact processFinishedJobs_spec htracked (hreports (by simpa using hdone))

theorem cascade_spec (reqId : RequestId) (tier : ℕ) :
    Meets Unreadable (Tracked · loads stores) (cascade keys reqId m tier) :=
  .bind (meets_prepareLoad m.primaryTier keys) fun (_, primaryTier) hspec =>
    .ok ⟨hspec.sound h.sound, h.ledger.cascade h.numbered.lookup_counter hspec.ready hspec.slots hspec.get,
      Numbered.submit (m := { m with primaryTier }) { h.numbered with } tier _⟩

theorem cascadeAll_spec (reqId : RequestId) (tiers : List ℕ) :
    Meets Unreadable (Tracked · loads stores) (tiers.foldlM (cascade keys reqId) m) :=
  Meets.foldlM (fun _ tier _ hm => cascade_spec hm reqId tier) h

theorem flushPendingPromotions_spec : m.flushPendingPromotions.Tracked loads stores := by
  have hgen : ∀ (entries : List (ℕ × PendingPromotion K)) (m : TieringOffloadingManager K F),
      m.primaryTier.Sound → Ledger m.primaryTier.get m.transferJobs entries loads stores → m.Numbered →
      Tracked { entries.foldl (fun m e => m.submit e.1
          { keys := e.2.keys, blockIds := e.2.blockIds, isPromotion := true, reqId := e.2.reqId }) m with
        pendingLoadSubmissions := ∅ } loads stores := by
    intro entries
    induction entries with
    | nil => exact fun m hsound hledger hnumbered => ⟨hsound, hledger, { hnumbered with }⟩
    | cons e rest ih =>
      intro m hsound hledger hnumbered
      exact ih (m.submit e.1 _) hsound (hledger.flush hnumbered.lookup_counter) (hnumbered.submit e.1 _)
  exact hgen _ m h.sound h.ledger h.numbered

end

/-- The transfers that are left once one of some keys is done. -/
def without (transfers : List (List K)) (keys : List K) : List (List K) :=
  transfers.eraseP fun transfer => decide (transfer.Perm keys)

theorem readers_without (jobs : Table ℕ (JobMetadata K)) (h : ∃ load ∈ loads, load.Perm keys) (k : K) :
    readers jobs (without loads keys) k + keys.count k = readers jobs loads k := by
  obtain ⟨load, hload, hperm⟩ := h
  obtain ⟨load', before, after, -, hperm', hsplit, hrest⟩ := exists_of_eraseP
    (p := fun load : List K => decide (load.Perm keys)) hload (decide_eq_true hperm)
  unfold readers without
  rw [hrest, hsplit, ← (of_decide_eq_true hperm').count_eq k]
  simp only [map_append, sum_append, map_cons, sum_cons]
  omega

theorem storers_without (h : ∃ store ∈ stores, store.Perm keys) (k : K) :
    storers (without stores keys) k + (if k ∈ keys then 1 else 0) = storers stores k := by
  obtain ⟨store, hstore, hperm⟩ := h
  obtain ⟨store', before, after, -, hperm', hsplit, hrest⟩ := exists_of_eraseP
    (p := fun store : List K => decide (store.Perm keys)) hstore (decide_eq_true hperm)
  have hmem : k ∈ store' ↔ k ∈ keys := (of_decide_eq_true hperm').mem_iff
  unfold storers without
  rw [hrest, hsplit, countP_append, countP_append, countP_cons]
  by_cases hk : k ∈ keys
  · rw [if_pos hk, if_pos (decide_eq_true (hmem.mpr hk))]
    omega
  · rw [if_neg hk, if_neg (fun hin => hk (hmem.mp (of_decide_eq_true hin)))]
    omega

theorem completeLoad_spec (h : m.Tracked loads stores) (hload : ∃ load ∈ loads, load.Perm keys) :
    Meets (fun _ => ¬m.Within loads) (Tracked · (without loads keys) stores) (m.completeLoad keys) := by
  have hreads := readers_without m.transferJobs hload
  refine .bind (meets_completeLoad fun hw => h.ledger.pinned hreads fun k _ => hw k) fun primaryTier hloaded => .ok ?_
  exact ⟨hloaded.2 h.sound, h.ledger.unpin (fun _ _ => id) hreads (fun _ => rfl) hloaded.1,
    { h.numbered with }⟩

/-- Completing a GPU store raises nothing and keeps the ledger, with its cascades. -/
theorem completeStore_spec (h : m.Tracked loads stores) (reqId : RequestId) (success : Bool)
    (hstore : ∃ store ∈ stores, store.Perm keys) :
    Meets Unreadable (Tracked · loads (without stores keys)) (m.completeStore keys reqId success) := by
  obtain ⟨hsound, hget⟩ := CPUOffloadingManager.completeStore_spec h.sound keys success
  have hcount := storers_without hstore
  have htracked : Tracked { m with primaryTier := m.primaryTier.completeStore keys success } loads
      (without stores keys) := by
    refine ⟨hsound, ?_, { h.numbered with }⟩
    refine h.ledger.settled (fun _ _ => id) keys (fun _ => rfl) (fun k hk => ?_) (fun k hk => ?_) hget
    · have := hcount k
      rw [if_pos hk] at this
      dsimp only
      omega
    · have := hcount k
      rw [if_neg hk] at this
      exact ⟨rfl, this⟩
  cases success with
  | false => exact .ok htracked
  | true => exact cascadeAll_spec htracked reqId _

theorem cascadeExisting_spec (h : m.Tracked loads stores) (keys : List K) (reqId : RequestId) (tiers : List ℕ) :
    Meets Unreadable (Tracked · loads stores) (m.cascadeExisting keys reqId tiers) := by
  obtain ⟨hsound, hget⟩ := foldl_countLookup_spec m.primaryTier keys
  have htracked : Tracked { m with primaryTier := keys.foldl countLookup m.primaryTier } loads stores :=
    ⟨hsound h.sound, h.ledger.congr hget, { h.numbered with }⟩
  exact .ite (fun _ => .ok htracked) fun _ => cascadeAll_spec htracked reqId tiers

variable [ArcFloat F]

theorem initiatePromotion_spec (h : m.Tracked loads stores) (tier : ℕ) (key : K) (reqId : RequestId) :
    Succeeds (fun r => r.2.Tracked loads stores) (m.initiatePromotion tier key reqId) := by
  refine .bind ⟨(succeeds_prepareStore h.sound [key]).raises, fun _ => id⟩ fun (result, primaryTier) hstore => ?_
  cases result with
  | none =>
    obtain rfl := prepareStore_none hstore
    exact .ok h
  | some out =>
    have hspec := (succeeds_prepareStore h.sound [key]).ensures hstore out rfl
    refine .ok ⟨hspec.sound, ?_, { h.numbered with }⟩
    have hnodup : out.keysToStore.Nodup :=
      (nodup_singleton key).sublist (hspec.keys ▸ missingKeys_sublist _ _)
    have hpromoters : ∀ k, promoters m.transferJobs
        (pendingEntries (addPending m.pendingLoadSubmissions tier reqId out.keysToStore out.storeSpec)) k =
          promoters m.transferJobs (pendingEntries m.pendingLoadSubmissions) k +
            out.keysToStore.count k := by
      intro k
      unfold promoters
      rw [sum_addPending]
      omega
    refine h.ledger.reserved hspec (fun k hk => ?_) (fun k hk => ?_) fun e he => ?_
    · rw [hpromoters, count_eq_one_of_mem hnodup hk]
      omega
    · rw [hpromoters, count_eq_zero_of_not_mem hk]
      exact ⟨rfl, rfl⟩
    -- what was pending keeps its slots, and the new blocks have theirs
    have hold : ∀ e ∈ pendingEntries m.pendingLoadSubmissions,
        SlotsOf primaryTier.get e.2.keys e.2.blockIds := fun e he =>
      (h.ledger.pendingSlots e he).congr fun k hk => by
        have := held_of_pending m.transferJobs _ he hk
        rw [h.ledger.kept_of_reserved hspec k (by omega)]
    rcases mem_addPending he with he | ⟨entry, hentry, heq⟩
    · exact hold e he
    rw [heq]
    refine rel_append ?_ (hspec.slots hnodup)
    rcases hentry with hentry | rfl
    · exact hold (tier, entry) hentry
    · exact .nil

/-- The GPU stores once another one has been granted or refused. -/
def granted (stores : List (List K)) : Option (PrepareStoreOutput K) → List (List K)
  | none => stores
  | some out => stores ++ [out.keysToStore]

section

variable (h : m.Tracked loads stores) (hreports : m.processedJobsThisStep = false → m.Reports finished)
include h hreports

omit [ArcFloat F] in
theorem onScheduleEnd_spec :
    Meets (fun _ => ¬m.Within loads) (Tracked · loads stores) (m.onScheduleEnd finished) := by
  refine .bind (maybeProcessFinishedJobs_spec h hreports) fun m₁ h₁ => .ok (flushPendingPromotions_spec ?_)
  exact ⟨h₁.sound, h₁.ledger, { h₁.numbered with }⟩

omit [ArcFloat F] in
theorem prepareLoad_spec (keys : List K) :
    Meets (fun e => m.Within loads → Unreadable e) (fun r => r.2.Tracked (loads ++ [keys]) stores)
      (m.prepareLoad keys finished) := by
  refine .bind ((maybeProcessFinishedJobs_spec h hreports).mono (fun _ hnot hw => absurd hw hnot) fun _ => id)
    fun m₁ h₁ => ?_
  refine .bind ((meets_prepareLoad m₁.primaryTier keys).mono (fun _ he _ => he) fun _ => id)
    fun (slots, primaryTier) hspec => .ok ⟨hspec.sound h₁.sound, h₁.ledger.load hspec.ready hspec.get, ?_⟩
  exact { h₁.numbered with }

theorem lookup_spec (key : K) (reqId : RequestId) (answers : List (Option Bool)) :
    Meets (fun _ => ¬m.Within loads) (fun r => r.2.Tracked loads stores) (m.lookup key reqId answers finished) := by
  refine .bind (maybeProcessFinishedJobs_spec h hreports) fun m₁ h₁ => ?_
  have htracked : Tracked { m₁ with primaryTier := m₁.primaryTier.countLookup key } loads stores :=
    ⟨h₁.sound.countLookup key, h₁.ledger.congr fun k => get_countLookup _ _ _, { h₁.numbered with }⟩
  refine .ite (fun _ => ?_) fun _ => .ok htracked
  unfold lookupSecondary
  split
  · exact .bind ((initiatePromotion_spec htracked _ key reqId).mono (fun _ => False.elim) fun _ => id)
      fun _ h₂ => .ok h₂
  · exact .ok htracked

theorem prepareStore_spec (keys : List K) (reqId : RequestId) :
    Meets (fun e => m.Within loads → Unreadable e) (fun r => r.2.Tracked loads (granted stores r.1))
      (m.prepareStore keys reqId finished) := by
  refine .bind ((maybeProcessFinishedJobs_spec h hreports).mono (fun _ hnot hw => absurd hw hnot) fun _ => id)
    fun m₁ h₁ => ?_
  refine .bind (⟨fun e he => ((succeeds_prepareStore h₁.sound keys).raises e he).elim, fun _ => id⟩ :
    Meets _ (fun r => _ = Except.ok r) _) fun (result, primaryTier) hstore => ?_
  cases result with
  | none =>
    obtain rfl := prepareStore_none hstore
    exact .ok h₁
  | some out =>
    have hspec := (succeeds_prepareStore h₁.sound keys).ensures hstore out rfl
    have hstorers : ∀ k, storers (stores ++ [out.keysToStore]) k =
        storers stores k + if k ∈ out.keysToStore then 1 else 0 := by
      intro k
      unfold storers
      rw [countP_append, countP_singleton]
      simp
    have htracked : Tracked { m₁ with primaryTier } loads (stores ++ [out.keysToStore]) := by
      refine ⟨hspec.sound, ?_, { h₁.numbered with }⟩
      refine h₁.ledger.reserved hspec (fun k hk => ?_) (fun k hk => ?_) fun e he => ?_
      · rw [hstorers, if_pos hk]
        dsimp only
        omega
      · rw [hstorers, if_neg hk]
        exact ⟨rfl, rfl⟩
      · refine (h₁.ledger.pendingSlots e he).congr fun k hk => ?_
        have := held_of_pending m₁.transferJobs (pendingEntries m₁.pendingLoadSubmissions) he hk
        rw [h₁.ledger.kept_of_reserved hspec k (by omega)]
    dsimp only
    split
    next tiers hout htiers =>
      cases hout
      refine .ite (fun _ => .ok htracked) fun _ => ?_
      exact .bind ((cascadeExisting_spec htracked _ reqId tiers).mono (fun _ he _ => he) fun _ => id)
        fun _ h₂ => .ok h₂
    next => exact .ok htracked

end

end TieringOffloadingManager

/-! ## The runs -/

structure TieredState (K F : Type) where
  manager : TieringOffloadingManager K F
  loads : List (List K) := []
  stores : List (List K) := []

inductive TieringCall (K : Type)
  | lookup (key : K) (reqId : RequestId) (answers : List (Option Bool)) (finished : List (List JobResult))
  | prepareLoad (keys : List K) (finished : List (List JobResult))
  | touch (keys : List K)
  | completeLoad (keys : List K)
  | prepareStore (keys : List K) (reqId : RequestId) (finished : List (List JobResult))
  | completeStore (keys : List K) (reqId : RequestId) (success : Bool)
  | onNewRequest (reqId : RequestId) (requestLevelTiers : List ℕ)
  | onRequestFinished (reqId : RequestId)
  | onScheduleEnd (finished : List (List JobResult))

namespace TieredState

variable {s : TieredState K F}

open TieringOffloadingManager

def Paired (s : TieredState K F) : TieringCall K → Prop
  | .lookup _ _ _ finished | .prepareLoad _ finished | .prepareStore _ _ finished
  | .onScheduleEnd finished => s.manager.processedJobsThisStep = false → s.manager.Reports finished
  | .completeLoad keys => ∃ load ∈ s.loads, load.Perm keys
  | .completeStore keys _ _ => ∃ store ∈ s.stores, store.Perm keys
  | .touch _ | .onNewRequest _ _ | .onRequestFinished _ => True

instance (s : TieredState K F) : (call : TieringCall K) → Decidable (s.Paired call)
  | .lookup _ _ _ finished | .prepareLoad _ finished | .prepareStore _ _ finished
  | .onScheduleEnd finished =>
    inferInstanceAs (Decidable (s.manager.processedJobsThisStep = false → s.manager.Reports finished))
  | .completeLoad keys => inferInstanceAs (Decidable (∃ load ∈ s.loads, load.Perm keys))
  | .completeStore keys _ _ => inferInstanceAs (Decidable (∃ store ∈ s.stores, store.Perm keys))
  | .touch _ | .onNewRequest _ _ | .onRequestFinished _ => .isTrue trivial

def promotions (s : TieredState K F) : List (List K × List ℕ) :=
  (s.manager.transferJobs.entries.filter (·.2.isPromotion)).map (fun e => (e.2.keys, e.2.blockIds)) ++
    (pendingEntries s.manager.pendingLoadSubmissions).map fun e => (e.2.keys, e.2.blockIds)

variable [ArcFloat F]

def Initial (s : TieredState K F) : Prop :=
  ∃ numBlocks cachePolicy numTiers,
    s = { manager := { primaryTier := .new numBlocks cachePolicy 1 64000, numTiers } }

/-- One call. -/
def step (s : TieredState K F) : TieringCall K → Except (OffloadError K) (TieredState K F)
  | .lookup key reqId answers finished => do
    let (_, manager) ← s.manager.lookup key reqId answers finished
    return { s with manager }
  | .prepareLoad keys finished => do
    let (_, manager) ← s.manager.prepareLoad keys finished
    return { s with manager, loads := s.loads ++ [keys] }
  | .touch keys => return { s with manager := s.manager.touch keys }
  | .completeLoad keys => do
    let manager ← s.manager.completeLoad keys
    return { s with manager, loads := without s.loads keys }
  | .prepareStore keys reqId finished => do
    let (result, manager) ← s.manager.prepareStore keys reqId finished
    return { s with
      manager
      stores := granted s.stores result }
  | .completeStore keys reqId success => do
    let manager ← s.manager.completeStore keys reqId success
    return { s with manager, stores := without s.stores keys }
  | .onNewRequest reqId tiers => return { s with manager := (s.manager.onNewRequest reqId tiers).2 }
  | .onRequestFinished reqId => return { s with manager := s.manager.onRequestFinished reqId }
  | .onScheduleEnd finished => do
    let manager ← s.manager.onScheduleEnd finished
    return { s with manager }

theorem Initial.tracked (h : s.Initial) : s.manager.Tracked s.loads s.stores := by
  obtain ⟨numBlocks, cachePolicy, numTiers, rfl⟩ := h
  refine ⟨⟨.new numBlocks cachePolicy, Nat.zero_le _⟩, ⟨fun k => ?_, nofun, nofun⟩, nofun, nofun, nodup_nil⟩
  have hnone : (new numBlocks cachePolicy 1 64000 : CPUOffloadingManager K F).get k =
      none := CachePolicy.get_new numBlocks cachePolicy k
  rw [hnone]
  exact ⟨rfl, rfl, rfl⟩

theorem step_spec (h : s.manager.Tracked s.loads s.stores) {call : TieringCall K} (hpaired : s.Paired call) :
    Meets (fun e => s.manager.Within s.loads → Unreadable e)
      (fun s' => s'.manager.Tracked s'.loads s'.stores) (step s call) := by
  cases call with
  | lookup key reqId answers finished =>
    exact .bind ((lookup_spec h hpaired key reqId answers).mono (fun _ hnot hw => absurd hw hnot) fun _ => id)
      fun _ h' => .ok h'
  | prepareLoad keys finished =>
    exact .bind (prepareLoad_spec h hpaired keys) fun _ h' => .ok h'
  | touch keys =>
    exact .ok ⟨h.sound.touch keys, h.ledger.congr fun k => get_touch h.sound keys k,
      { h.numbered with }⟩
  | completeLoad keys =>
    exact .bind ((completeLoad_spec h hpaired).mono (fun _ hnot hw => absurd hw hnot) fun _ => id)
      fun _ h' => .ok h'
  | prepareStore keys reqId finished =>
    exact .bind (prepareStore_spec h hpaired keys reqId) fun _ h' => .ok h'
  | completeStore keys reqId success =>
    exact .bind ((completeStore_spec h reqId success hpaired).mono (fun _ he _ => he) fun _ => id) fun _ h' => .ok h'
  | onNewRequest reqId tiers =>
    refine .ok ?_
    unfold onNewRequest
    split_ifs
    · exact h
    · exact ⟨h.sound, h.ledger, { h.numbered with }⟩
  | onRequestFinished reqId =>
    exact .ok ⟨h.sound, h.ledger, { h.numbered with }⟩
  | onScheduleEnd finished =>
    exact .bind ((onScheduleEnd_spec h hpaired).mono (fun _ hnot hw => absurd hw hnot) fun _ => id) fun _ h' => .ok h'

theorem Reachable.tracked (h : Reachable Initial Paired step s) : s.manager.Tracked s.loads s.stores :=
  h.invariant (P := fun s => s.manager.Tracked s.loads s.stores) (fun _ => Initial.tracked)
    fun _ _ _ hs hpaired hstep => (step_spec hs hpaired).ensures hstep

omit [ArcFloat F] in
theorem sum_promotions (s : TieredState K F) (k : K) : (s.promotions.map (·.1.count k)).sum =
      promoters s.manager.transferJobs (pendingEntries s.manager.pendingLoadSubmissions) k := by
  unfold promotions promoters Table.total
  rw [map_append, sum_append, map_map, map_map]
  congr 1
  induction s.manager.transferJobs.entries with
  | nil => rfl
  | cons e rest ih =>
    by_cases hp : e.2.isPromotion = true
    · rw [filter_cons, if_pos hp, map_cons, sum_cons, ih, map_cons, sum_cons]
      simp [hp]
    · rw [filter_cons, if_neg hp, ih, map_cons, sum_cons]
      simp [hp]

omit [ArcFloat F] in
theorem slots_of_mem_promotions (h : s.manager.Tracked s.loads s.stores)
    {promotion : List K × List ℕ} (hp : promotion ∈ s.promotions) :
    SlotsOf s.manager.primaryTier.get promotion.1 promotion.2 := by
  rcases mem_append.mp hp with hp | hp
  · obtain ⟨e, he, rfl⟩ := mem_map.mp hp
    exact h.ledger.jobSlots e.1 e.2 (AList.mem_lookup_iff.mpr (mem_filter.mp he).1)
  · obtain ⟨e, he, rfl⟩ := mem_map.mp hp
    exact h.ledger.pendingSlots e he

/-- In every state reached by paired calls in which fewer than `2 ^ 31` cascades and loads name each block, whatever
the secondary tiers answer and report: the blocks of a cascade are in the primary tier at the slots recorded with it
and have one reference per reader, the blocks of a promotion are at the slots recorded with it, not ready and of no
other promotion, and no call raises but for a block to be read that is absent or not ready. -/
theorem transfers_protected {s : TieredState K F} (h : Reachable Initial Paired step s)
    (hwithin : s.manager.Within s.loads) :
    (∀ id job, s.manager.transferJobs.lookup id = some job → job.isPromotion = false →
      SlotsOf s.manager.primaryTier.get job.keys job.blockIds ∧
        ∀ k ∈ job.keys, ∃ block, s.manager.primaryTier.get k = some block ∧
          block.refCnt = readers s.manager.transferJobs s.loads k) ∧
    (∀ promotion ∈ s.promotions, SlotsOf s.manager.primaryTier.get promotion.1 promotion.2 ∧ ∀ k ∈ promotion.1,
          (∃ block, s.manager.primaryTier.get k = some block ∧ block.isReady = false) ∧
            (s.promotions.map (·.1.count k)).sum = 1) ∧
    ∀ call e, s.Paired call → step s call = .error e → ∃ k, e = .notInCache k ∨ e = .notReady k := by
  have htracked := Reachable.tracked h
  refine ⟨fun id job hjob hp => ⟨htracked.ledger.jobSlots id job hjob, fun k hk => ?_⟩,
    fun promotion hpromotion => ⟨slots_of_mem_promotions htracked hpromotion, fun k hk => ?_⟩,
    fun call e hpaired herror => ?_⟩
  · have hheld := held_of_job s.loads [] hjob hk
    rw [if_neg (by rw [hp]; nofun)] at hheld
    obtain ⟨block, hblock, -, hcnt⟩ := (htracked.ledger.accounted k).refCnt_eq hheld (hwithin k)
    exact ⟨block, hblock, hcnt⟩
  · have hcount : 0 < promotion.1.count k := count_pos_iff.mpr hk
    have hle : promotion.1.count k ≤ (s.promotions.map (·.1.count k)).sum :=
      le_sum_of_mem (mem_map_of_mem hpromotion)
    rw [sum_promotions] at hle ⊢
    obtain ⟨block, hblock, hready, hone⟩ := (htracked.ledger.accounted k).not_ready (by omega)
    exact ⟨⟨block, hblock, hready⟩, by omega⟩
  exact (step_spec htracked hpaired).raises e herror hwithin

def twoTiers : TieredState ℕ ℚ where
  manager := { primaryTier := .new 2 .lru 1 64000, numTiers := 2 }

omit [ArcFloat F] in
/-- Few named keys are few readers. -/
theorem within_of_length (h : (s.manager.transferJobs.entries.map fun e => e.2.keys.length).sum +
    (s.loads.map List.length).sum < 2 ^ 31) : s.manager.Within s.loads := by
  intro k
  refine lt_of_le_of_lt (Nat.add_le_add ?_ ?_) h
  · unfold Table.total
    refine sum_le_sum fun e _ => ?_
    dsimp only
    split_ifs
    · exact Nat.zero_le _
    · exact count_le_length
  · exact sum_le_sum fun load _ => count_le_length

/-- The first block is copied to two tiers and loaded, and a second one is promoted. -/
theorem transfers_protected_cascades_and_promotion : ∃ s : TieredState ℕ ℚ, Reachable Initial Paired step s ∧
      s.manager.transferJobs.lookup 0 = some ⟨[7], [0], false, "a"⟩ ∧
      s.promotions = [([8], [1])] ∧
      (∃ block, s.manager.primaryTier.get 7 = some block ∧
        block.refCnt = readers s.manager.transferJobs s.loads 7) ∧
      ∃ block, s.manager.primaryTier.get 8 = some block ∧ block.isReady = false := by
  have hstart : Reachable Initial Paired step twoTiers := .start ⟨2, .lru, 2, rfl⟩
  obtain ⟨s, hreached, hjob, hpromotions, hshort⟩ := hstart.exists_checkedRun (P := fun s =>
    s.manager.transferJobs.lookup 0 = some ⟨[7], [0], false, "a"⟩ ∧ s.promotions = [([8], [1])] ∧
      (s.manager.transferJobs.entries.map fun e => e.2.keys.length).sum + (s.loads.map List.length).sum < 2 ^ 31)
    [.prepareStore [7] "a" [], .completeStore [7] "a" true, .prepareLoad [7] [],
      .lookup 8 "b" [some false, some true] []] (by decide +kernel)
  obtain ⟨hcascades, hpromoted, -⟩ := transfers_protected hreached (within_of_length hshort)
  refine ⟨s, hreached, hjob, hpromotions, (hcascades 0 _ hjob rfl).2 7 (by decide), ?_⟩
  exact ((hpromoted ([8], [1]) (by rw [hpromotions]; decide)).2 8 (by decide)).1

/-- A block that is read can be loaded once more, while the count can hold its readers. -/
theorem exists_loaded {k : K} (h : Reachable Initial Paired step s)
    (hread : 0 < readers s.manager.transferJobs s.loads k) (hlt : readers s.manager.transferJobs s.loads k < 2 ^ 31) :
    ∃ s' : TieredState K F, Reachable Initial Paired step s' ∧ s'.manager.transferJobs = s.manager.transferJobs ∧
      s'.loads = s.loads ++ [[k]] := by
  obtain ⟨block, hblock, hready, -⟩ := ((Reachable.tracked h).ledger.accounted k).refCnt_eq hread hlt
  obtain ⟨m, hprocessed, hprimary, hjobs⟩ : ∃ m, s.manager.maybeProcessFinishedJobs [] = .ok m ∧
      m.primaryTier = s.manager.primaryTier ∧ m.transferJobs = s.manager.transferJobs := by
    unfold maybeProcessFinishedJobs
    split_ifs
    · exact ⟨_, rfl, rfl, rfl⟩
    · exact ⟨_, rfl, rfl, rfl⟩
  have hload : m.primaryTier.prepareLoad [k] = .ok ([block.blockId], m.primaryTier.modify k (·.addRefCnt 1)) := by
    rw [hprimary, CPUOffloadingManager.prepareLoad, foldlM_cons, prepareLoadOne, hblock]
    simp only [hready, if_true]
    rfl
  have hstep : step s (.prepareLoad [k] []) = .ok { s with
      manager := { m with primaryTier := m.primaryTier.modify k (·.addRefCnt 1) }, loads := s.loads ++ [[k]] } := by
    simp only [step, TieringOffloadingManager.prepareLoad, hprocessed]
    change (do let r ← (do let q ← m.primaryTier.prepareLoad [k]; pure (q.1, { m with primaryTier := q.2 })); _) = _
    rw [hload]
    rfl
  have hpaired : s.Paired (.prepareLoad [k] []) := fun _ => ⟨nodup_nil, nofun⟩
  exact ⟨_, h.next hpaired hstep, hjobs, rfl⟩

/-- So it can get as many readers as the count can hold and one. -/
theorem exists_loads {k : K} (h : Reachable Initial Paired step s)
    (hread : 0 < readers s.manager.transferJobs s.loads k) (n : ℕ)
    (hle : readers s.manager.transferJobs s.loads k + n ≤ 2 ^ 31) :
    ∃ s' : TieredState K F, Reachable Initial Paired step s' ∧ s'.manager.transferJobs = s.manager.transferJobs ∧
      s'.loads = s.loads ++ List.replicate n [k] := by
  induction n with
  | zero => exact ⟨s, h, rfl, by simp⟩
  | succ n ih =>
    obtain ⟨s₁, h₁, hjobs, hloads⟩ := ih (by omega)
    have hcount : readers s₁.manager.transferJobs s₁.loads k = readers s.manager.transferJobs s.loads k + n := by
      unfold readers
      rw [hjobs, hloads]
      simp [Nat.add_assoc]
    obtain ⟨s₂, h₂, hjobs₂, hloads₂⟩ := exists_loaded (k := k) h₁ (by omega) (by omega)
    refine ⟨s₂, h₂, hjobs₂.trans hjobs, ?_⟩
    rw [hloads₂, hloads, append_assoc, ← List.replicate_succ']

/-- With `2 ^ 31` readers the count of a block has wrapped around: it is negative, and completing a load fails. -/
theorem transfers_protected_fails_at_limit : ∃ s : TieredState ℕ ℚ, Reachable Initial Paired step s ∧
      s.manager.transferJobs.lookup 0 = some ⟨[7], [0], false, "a"⟩ ∧
      readers s.manager.transferJobs s.loads 7 = 2 ^ 31 ∧
      (∃ block, s.manager.primaryTier.get 7 = some block ∧ block.refCnt = -2 ^ 31) ∧
      s.Paired (.completeLoad [7]) ∧ step s (.completeLoad [7]) = .error (.refCntZero 7) := by
  have hstart : Reachable Initial Paired step twoTiers := .start ⟨2, .lru, 2, rfl⟩
  obtain ⟨s, hreached, hjob, hread, hloads⟩ := hstart.exists_checkedRun (P := fun s =>
    s.manager.transferJobs.lookup 0 = some ⟨[7], [0], false, "a"⟩ ∧
      readers s.manager.transferJobs s.loads 7 = 2 ∧ s.loads = [])
    [.prepareStore [7] "a" [], .completeStore [7] "a" true] (by decide +kernel)
  obtain ⟨s', hreached', hjobs', hloads'⟩ := exists_loads (k := 7) hreached (by omega) (2 ^ 31 - 2) (by omega)
  have hcount : readers s'.manager.transferJobs s'.loads 7 = 2 ^ 31 := by
    have hfew : readers s.manager.transferJobs s.loads 7 + (2 ^ 31 - 2) = 2 ^ 31 := by omega
    rw [← hfew]
    unfold readers
    rw [hjobs', hloads', map_append, sum_append, map_replicate, sum_replicate]
    simp [Nat.add_assoc]
  have haccounted := (Reachable.tracked hreached').ledger.accounted 7
  rw [hcount] at haccounted
  cases hblock : s'.manager.primaryTier.get 7 with
  | none =>
    rw [hblock] at haccounted
    exact absurd haccounted.1 (by norm_num)
  | some block =>
    rw [hblock] at haccounted
    have hcnt : block.refCnt = -2 ^ 31 := by
      rcases haccounted with ⟨hcnt, -⟩ | ⟨-, hzero, -⟩
      · rw [hcnt]
        rfl
      · omega
    refine ⟨s', hreached', hjobs' ▸ hjob, hcount, ⟨block, hblock, hcnt⟩, ⟨[7], ?_, .refl _⟩, ?_⟩
    · rw [hloads', hloads, nil_append, mem_replicate]
      exact ⟨by norm_num, rfl⟩
    · have hone : s'.manager.primaryTier.completeLoad [7] = .error (.refCntZero 7) := by
        rw [CPUOffloadingManager.completeLoad, foldlM_cons, completeLoadOne, hblock]
        simp only [hcnt]
        rfl
      simp only [step, TieringOffloadingManager.completeLoad, hone]
      rfl

end TieredState

end VllmPs.Offload
