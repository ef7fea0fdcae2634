import VllmPs.Offload.TieringRuns

/-!
# Runs of the CPU offloading manager

The manager on its own, with either policy, called by a connector that completes every load and store it has
prepared once. Each slot is free or holds one block. An eviction finds enough blocks where there are enough, as
long as the target of the adaptive policy does not keep it from its recent list.
-/

namespace VllmPs.Offload

open Lib OrderedDict BlockStatus List

variable {K F : Type} [DecidableEq K]

namespace CachePolicy

variable {p p' : CachePolicy K F} {k : K} {taken : List (K × BlockStatus)}

/-- The cached blocks, list by list. -/
def entries : CachePolicy K F → List (K × BlockStatus)
  | lru p => p.blocks.entries
  | arc p => p.t1.entries ++ p.t2.entries

theorem mem_entries (hp : p.Sound) {block : BlockStatus} : (k, block) ∈ p.entries ↔ p.get k = some block := by
  cases p with
  | lru p => exact get_eq_some_iff.symm
  | arc p =>
    unfold entries get ARCCachePolicy.get
    rw [mem_append, ← get_eq_some_iff, ← get_eq_some_iff]
    rcases hp k with h | h <;> simp [h]

theorem nodup_entries (hp : p.Sound) : (p.entries.map Prod.fst).Nodup := by
  cases p with
  | lru p => exact p.blocks.nodup
  | arc p =>
    unfold entries
    rw [map_append]
    refine p.t1.nodup.append p.t2.nodup fun k h1 h2 => ?_
    rcases hp k with h | h
    · exact get_eq_none_iff.mp h h1
    · exact get_eq_none_iff.mp h h2

theorem entries_perm (hp : p.Sound) (hp' : p'.Sound) (hnodup : (taken.map Prod.fst).Nodup)
    (hheld : ∀ e ∈ taken, p.get e.1 = some e.2)
    (hget : ∀ k, p'.get k = if k ∈ taken.map Prod.fst then none else p.get k) :
    p.entries.Perm (taken ++ p'.entries) := by
  have hout : ∀ e ∈ p'.entries, e.1 ∉ taken.map Prod.fst := by
    intro e he hin
    have := (mem_entries hp').mp he
    simp [hget, if_pos hin] at this
  refine (perm_ext_iff_of_nodup (nodup_entries hp).of_map ?_).mpr fun (k, block) => ?_
  · exact hnodup.of_map.append (nodup_entries hp').of_map fun e h1 h2 => hout e h2 (mem_map_of_mem h1)
  rw [mem_append, mem_entries hp, mem_entries hp', hget]
  by_cases hk : k ∈ taken.map Prod.fst
  · obtain ⟨e, he, rfl⟩ := mem_map.mp hk
    rw [if_pos hk, hheld e he]
    constructor
    · rintro ⟨⟩
      exact .inl he
    · rintro (h | h)
      · exact (hheld _ h) ▸ (hheld e he).symm
      · cases h
  · rw [if_neg hk, or_iff_right]
    exact fun h => hk (mem_map_of_mem h)

theorem map_entries_modify (p : CachePolicy K F) (key : K) {f : BlockStatus → BlockStatus}
    (hf : ∀ block, (f block).blockId = block.blockId) :
    (p.modify key f).entries.map (·.2.blockId) = p.entries.map (·.2.blockId) := by
  have hmap : ∀ d : OrderedDict K BlockStatus,
      (d.modify key f).entries.map (·.2.blockId) = d.entries.map (·.2.blockId) := by
    intro d
    unfold OrderedDict.modify
    rw [map_map]
    refine map_congr_left fun e _ => ?_
    rw [Function.comp_apply]
    split_ifs
    · exact hf e.2
    · rfl
  cases p with
  | lru p => exact hmap p.blocks
  | arc p =>
    change (entries (arc (p.modify key f))).map _ = _
    unfold ARCCachePolicy.modify
    split_ifs <;> simp only [entries, map_append, hmap]

end CachePolicy

namespace CPUOffloadingManager

variable {m m' : CPUOffloadingManager K F} {keys : List K}

/-- The slots of the cached blocks. -/
def slotIds (m : CPUOffloadingManager K F) : List ℕ := m.policy.entries.map (·.2.blockId)

def Slotted (m : CPUOffloadingManager K F) : Prop :=
  (m.slotIds ++ m.freeList).Perm (range m.numAllocatedBlocks)

/-- What an invariant of the manager has to survive. -/
structure Maintained [ArcFloat F] (I : CPUOffloadingManager K F → Prop) : Prop where
  modify {m : CPUOffloadingManager K F} {f : BlockStatus → BlockStatus} (key : K) :
    I m → (∀ block, (f block).blockId = block.blockId) → I (m.modify key f)
  remove {m : CPUOffloadingManager K F} {key : K} {block : BlockStatus} : m.Sound → I m →
    m.get key = some block → I (freeBlock { m with policy := m.policy.remove key } block)
  count {m : CPUOffloadingManager K F} (counts : Option (OrderedDict K ℕ)) : I m → I { m with counts }
  touch {m : CPUOffloadingManager K F} (keys : List K) : m.Sound → I m → I (m.touch keys)
  evict {m : CPUOffloadingManager K F} {n : ℕ} {guarded : List K} {taken : List (K × BlockStatus)}
    {p : CachePolicy K F} : m.Sound → I m → m.policy.evict n guarded = some (taken, p) →
    I { m with policy := p, freeList := m.freeList ++ taken.map (·.2.blockId) }
  place {m m' : CPUOffloadingManager K F} {keys : List K} {slots : List ℕ} : m.Sound → I m → keys.Nodup →
    (∀ k ∈ keys, m.get k = none) → m.allocateBlocks keys.length = .ok (slots, m') →
    I (m'.insertBlocks (keys.zip slots))
  reset {m : CPUOffloadingManager K F} : I m → I m.resetCache

namespace Maintained

variable [ArcFloat F] {I : CPUOffloadingManager K F → Prop} (hI : Maintained I)
include hI

theorem prepareLoad (h : I m) : Ensures (fun r => I r.2) (m.prepareLoad keys) := by
  refine .foldlM (P := fun r : List ℕ × _ => I r.2) (fun r key _ hr => ?_) h
  unfold prepareLoadOne
  split
  · exact .error
  · exact .ite (fun _ => .ok (hI.modify key hr fun _ => rfl)) fun _ => .error

theorem completeLoad (h : I m) : Ensures I (m.completeLoad keys) := by
  refine .foldlM (fun m key _ hm => ?_) h
  unfold completeLoadOne
  split
  · exact .error
  · exact .ite (fun _ => .ok (hI.modify key hm fun _ => rfl)) fun _ => .error

theorem completeStore (hm : m.Sound) (h : I m) (success : Bool) : I (m.completeStore keys success) := by
  unfold CPUOffloadingManager.completeStore
  induction keys generalizing m with
  | nil => exact h
  | cons key rest ih =>
    rw [foldl_cons]
    refine ih (completeStore_spec hm [key] success).1 ?_
    unfold completeStoreOne
    split
    · exact h
    next block hblock =>
      split_ifs
      · exact h
      · exact hI.modify key h fun _ => rfl
      · exact hI.remove hm h hblock

theorem prepareStore (hm : m.Sound) (h : I m) (hkeys : keys.Nodup) :
    Ensures (fun r => I r.2) (m.prepareStore keys) := by
  refine .ite (fun _ => .ok h) fun _ => ?_
  split
  · exact .ok h
  next toEvict m₁ hroom =>
    obtain ⟨hsound, -, -, hget⟩ := makeRoom_spec hm hroom
    have hroomy : I m₁ := by
      rcases makeRoom_cases hroom with ⟨-, rfl, -⟩ | ⟨count, taken, p, hevict, -, -, rfl⟩
      · exact h
      · exact hI.evict hm h hevict
    refine .bind fun (slots, m₂) halloc => .ok (hI.place hsound hroomy
      (hkeys.sublist (missingKeys_sublist m keys)) (fun k hk => ?_) halloc)
    rw [hget, get_of_mem_missingKeys hk, ite_self]

end Maintained

omit [DecidableEq K] in
omit [DecidableEq K] in
theorem allocateBlocks_perm {n : ℕ} {slots : List ℕ} (h : m.allocateBlocks n = .ok (slots, m')) :
    (slots ++ m'.freeList ++ range m.numAllocatedBlocks).Perm (m.freeList ++ range m'.numAllocatedBlocks) := by
  unfold allocateBlocks at h
  dsimp only at h
  split_ifs at h
  obtain ⟨rfl, rfl⟩ := ok_mk_inj h
  refine perm_iff_count.mpr fun i => ?_
  have hfree := congrArg (count i) (take_append_drop
    (n - min n (m.numBlocks - m.numAllocatedBlocks)) m.freeList.reverse)
  rw [count_append, count_reverse] at hfree
  rw [range_add]
  simp only [count_append, count_reverse]
  omega

theorem slotIds_insertBlocks (hm : m.Sound) (hkeys : keys.Nodup) (hnone : ∀ k ∈ keys, m.get k = none)
    {slots : List ℕ} (hlen : slots.length = keys.length) :
    (m.insertBlocks (keys.zip slots)).slotIds.Perm (slots ++ m.slotIds) := by
  have hfst : (keys.zip slots).map Prod.fst = keys := map_fst_zip hlen.ge
  obtain ⟨hsound, hin, hout⟩ := insertBlocks_spec hm (keys.zip slots) fun b hb =>
    .of_get_eq_none (hnone b.1 (hfst ▸ mem_map_of_mem hb))
  have hkeys' : ((keys.zip slots).map fun b => (b.1, ({ blockId := b.2 } : BlockStatus))).map Prod.fst = keys := by
    rwa [map_map]
  have hperm := CachePolicy.entries_perm hsound.policy hm.policy (hkeys'.symm ▸ hkeys) ?_ fun k => ?_
  · have hslots : ((keys.zip slots).map fun b => (b.1, ({ blockId := b.2 } : BlockStatus))).map (·.2.blockId) =
        slots := by
      rw [map_map]
      exact map_snd_zip hlen.le
    have hids := hperm.map (·.2.blockId)
    rwa [map_append, hslots] at hids
  · intro e he
    obtain ⟨b, hb, rfl⟩ := mem_map.mp he
    obtain ⟨slot, hslot, hget⟩ := hin b.1 (mem_map_of_mem hb)
    have hsame : (b.1, slot) = b := inj_on_of_nodup_map (hfst.symm ▸ hkeys) hslot hb rfl
    rwa [← hsame]
  · rw [hkeys']
    split_ifs with hk
    · exact hnone k hk
    · exact (hout k (hfst.symm ▸ hk)).symm

theorem Slotted.of_taken (h : m.Slotted) (hm : m.Sound) (hm' : m'.Sound) (taken : List (K × BlockStatus))
    (hnodup : (taken.map Prod.fst).Nodup) (hheld : ∀ e ∈ taken, m.get e.1 = some e.2)
    (hget : ∀ k, m'.get k = if k ∈ taken.map Prod.fst then none else m.get k)
    (hfree : m'.freeList = m.freeList ++ taken.map (·.2.blockId))
    (hallocated : m'.numAllocatedBlocks = m.numAllocatedBlocks) : m'.Slotted := by
  have hperm := (CachePolicy.entries_perm hm.policy hm'.policy hnodup hheld hget).map (·.2.blockId)
  unfold Slotted slotIds at h ⊢
  rw [hfree, hallocated]
  refine perm_iff_count.mpr fun i => ?_
  have h₁ := h.count_eq i
  have h₂ := hperm.count_eq i
  simp only [map_append, count_append] at h₁ h₂ ⊢
  omega

/-- The slots are accounted for throughout. -/
theorem kept_slotted [ArcFloat F] : Maintained (Slotted (K := K) (F := F)) where
  modify key h hf := by
    unfold Slotted slotIds modify at *
    rwa [CachePolicy.map_entries_modify _ key hf]
  remove hm h hblock := by
    refine h.of_taken hm ⟨hm.policy.remove _, hm.allocated⟩ [(_, _)] (nodup_singleton _)
      (by simpa using hblock) (fun k => ?_) rfl rfl
    simp only [map_singleton, mem_singleton]
    exact CachePolicy.get_remove hm.policy _ k
  count counts h := h
  touch keys hm h := h.of_taken hm (hm.touch keys) [] nodup_nil (by simp)
    (fun k => by simp [get_touch hm]) (append_nil _).symm rfl
  evict {m n guarded taken p} hm h hevict := by
    obtain ⟨hp, hspec⟩ := CachePolicy.evict_spec hm.policy hevict
    exact h.of_taken hm ⟨hp, hm.allocated⟩ taken hspec.nodup hspec.held hspec.get rfl rfl
  place {m m' keys slots} hm h hkeys hnone halloc := by
    have hfree := allocateBlocks_perm halloc
    obtain ⟨hlen, hpolicy, hallocated⟩ := allocateBlocks_spec halloc
    have hm' : m'.Sound := ⟨hpolicy ▸ hm.policy, hallocated hm.allocated⟩
    have hids := slotIds_insertBlocks hm' hkeys (by unfold CPUOffloadingManager.get; rwa [hpolicy]) hlen
    unfold Slotted at h ⊢
    have hsame : m'.slotIds = m.slotIds := by rw [slotIds, hpolicy, slotIds]
    rw [hsame] at hids
    refine perm_iff_count.mpr fun i => ?_
    have h₁ := h.count_eq i
    have h₂ := hfree.count_eq i
    have h₃ := hids.count_eq i
    simp only [count_append] at h₁ h₂ h₃ ⊢
    change _ + count i m'.freeList = count i (range m'.numAllocatedBlocks)
    omega
  reset {m} _ := by
    unfold Slotted slotIds resetCache
    cases m.policy <;> exact .refl _

end CPUOffloadingManager

/-! ## The runs -/

/-- The manager with the transfers that are prepared and not completed; a store writes into its slots as
a promotion does. -/
structure CpuState (K F : Type) where
  manager : CPUOffloadingManager K F
  jobIdCounter : ℕ := 0
  transfers : Table ℕ (JobMetadata K) := ∅

/-- The calls of the connector. -/
inductive CpuCall (K : Type)
  | lookup (key : K)
  | touch (keys : List K)
  | prepareLoad (keys : List K) (reqId : RequestId)
  | prepareStore (keys : List K) (reqId : RequestId)
  | complete (jobId : ℕ) (success : Bool)
  | resetCache

namespace CpuState

variable {s s' : CpuState K F}

open CPUOffloadingManager

/-- Collections of keys have no duplicates, and a transfer is completed that is under way. -/
def Paired (s : CpuState K F) : CpuCall K → Prop
  | .prepareLoad keys _ | .prepareStore keys _ => keys.Nodup
  | .complete jobId _ => jobId ∈ s.transfers
  | .lookup _ | .touch _ | .resetCache => True

instance (s : CpuState K F) : (call : CpuCall K) → Decidable (s.Paired call)
  | .prepareLoad keys _ | .prepareStore keys _ => inferInstanceAs (Decidable keys.Nodup)
  | .complete jobId _ => inferInstanceAs (Decidable (jobId ∈ s.transfers))
  | .lookup _ | .touch _ | .resetCache => .isTrue trivial

/-- Record a transfer under the next id. -/
def submit (s : CpuState K F) (manager : CPUOffloadingManager K F) (job : JobMetadata K) : CpuState K F :=
  { manager, jobIdCounter := s.jobIdCounter + 1, transfers := s.transfers.insert s.jobIdCounter job }

variable [ArcFloat F]

/-- A manager that has not been called yet, with either policy. -/
def Initial (s : CpuState K F) : Prop :=
  ∃ numBlocks cachePolicy storeThreshold maxTrackerSize,
    s = { manager := .new numBlocks cachePolicy storeThreshold maxTrackerSize }

/-- One call; a reset discards the transfers that are under way. -/
def step (s : CpuState K F) : CpuCall K → Except (OffloadError K) (CpuState K F)
  | .lookup key => return { s with manager := (s.manager.lookup key).2 }
  | .touch keys => return { s with manager := s.manager.touch keys }
  | .prepareLoad keys reqId => do
    let (slots, manager) ← s.manager.prepareLoad keys
    return s.submit manager ⟨keys, slots, false, reqId⟩
  | .prepareStore keys reqId => do
    let (result, manager) ← s.manager.prepareStore keys
    match result with
    | none => return { s with manager }
    | some out => return s.submit manager ⟨out.keysToStore, out.storeSpec, true, reqId⟩
  | .complete jobId success =>
    match s.transfers.lookup jobId with
    | none => return s
    | some job =>
      if job.isPromotion then
        return { s with
          manager := s.manager.completeStore job.keys success, transfers := s.transfers.erase jobId }
      else do
        let manager ← s.manager.completeLoad job.keys
        return { s with manager, transfers := s.transfers.erase jobId }
  | .resetCache => return { s with manager := s.manager.resetCache, transfers := ∅ }

structure Tracked (s : CpuState K F) : Prop where
  sound : s.manager.Sound
  ledger : Ledger s.manager.get s.transfers [] [] []
  lt : ∀ id ∈ s.transfers, id < s.jobIdCounter

omit [ArcFloat F] in
theorem Tracked.idle (hsound : s.manager.Sound) (hget : ∀ k, s.manager.get k = none)
    (hnone : s.transfers = ∅) : s.Tracked := by
  refine ⟨hsound, ⟨fun k => ?_, ?_, ?_⟩, ?_⟩
  · rw [hget, hnone]
    exact ⟨rfl, rfl, rfl⟩
  all_goals simp [hnone]

omit [DecidableEq K] [ArcFloat F] in
theorem lt_submit (h : ∀ id ∈ s.transfers, id < s.jobIdCounter) (manager : CPUOffloadingManager K F)
    (job : JobMetadata K) : ∀ id ∈ (s.submit manager job).transfers, id < (s.submit manager job).jobIdCounter := by
  intro id hid
  rcases (AList.mem_insert _).mp hid with rfl | hid
  · exact Nat.lt_succ_self _
  · exact Nat.lt_succ_of_lt (h id hid)

omit [DecidableEq K] [ArcFloat F] in
theorem lookup_counter (h : ∀ id ∈ s.transfers, id < s.jobIdCounter) : s.transfers.lookup s.jobIdCounter = none :=
  AList.lookup_eq_none.mpr fun hin => lt_irrefl _ (h _ hin)

/-- Every call keeps track of the blocks, and whatever else the manager maintains. -/
theorem step_spec {I : CPUOffloadingManager K F → Prop} (hI : Maintained I) (h : s.Tracked) (hs : I s.manager)
    {call : CpuCall K} (hpaired : s.Paired call) : Ensures (fun s' => s'.Tracked ∧ I s'.manager) (step s call) := by
  cases call with
  | lookup key =>
    obtain ⟨counts, heq⟩ := s.manager.countLookup_eq key
    have hcounted : I (s.manager.countLookup key) := heq ▸ hI.count counts hs
    exact .ok ⟨⟨h.sound.countLookup key, h.ledger.congr (get_countLookup _ key), h.lt⟩, hcounted⟩
  | touch keys =>
    exact .ok ⟨⟨h.sound.touch keys, h.ledger.congr (get_touch h.sound keys), h.lt⟩, hI.touch keys h.sound hs⟩
  | prepareLoad keys reqId =>
    refine .bind fun (slots, m) hload => .ok ⟨?_, hI.prepareLoad hs hload⟩
    have hspec := (meets_prepareLoad s.manager keys).ensures hload
    exact ⟨hspec.sound h.sound, h.ledger.cascade (lookup_counter h.lt) hspec.ready hspec.slots hspec.get,
      lt_submit h.lt _ _⟩
  | prepareStore keys reqId =>
    refine .bind fun (result, m) hstore => ?_
    have hkept := hI.prepareStore h.sound hs hpaired hstore
    cases result with
    | none =>
      obtain rfl := prepareStore_none hstore
      exact .ok ⟨h, hs⟩
    | some out =>
      refine .ok ⟨?_, hkept⟩
      have hspec := (succeeds_prepareStore h.sound keys).ensures hstore out rfl
      have hnodup : out.keysToStore.Nodup := hspec.keys ▸ hpaired.sublist (missingKeys_sublist _ keys)
      have hledger : Ledger m.get s.transfers [(0, ⟨out.keysToStore, out.storeSpec, reqId⟩)] [] [] := by
        refine h.ledger.reserved hspec (fun k hk => ?_) (fun k hk => ?_) ?_
        · simp [promoters, storers, count_eq_one_of_mem hnodup hk]
        · simp [promoters, storers, count_eq_zero_of_not_mem hk]
        · simpa using hspec.slots hnodup
      exact ⟨hspec.sound, hledger.flush (lookup_counter h.lt), lt_submit h.lt _ _⟩
  | complete jobId success =>
    cases hjob : s.transfers.lookup jobId with
    | none =>
      simp only [step, hjob]
      exact .ok ⟨h, hs⟩
    | some job =>
      simp only [step, hjob]
      have hlt : ∀ id ∈ s.transfers.erase jobId, id < s.jobIdCounter :=
        fun id hid => h.lt id (AList.mem_erase.mp hid).2
      refine .ite (fun hp => ?_) fun hp => ?_
      · obtain ⟨hsound, hget⟩ := completeStore_spec h.sound job.keys success
        exact .ok ⟨⟨hsound, h.ledger.erase_promotion hjob hp hget, hlt⟩, hI.completeStore h.sound hs success⟩
      · obtain ⟨-, hledger⟩ := h.ledger.erase_cascade hjob hp
        refine .bind fun m hload => .ok ⟨?_, hI.completeLoad hs hload⟩
        have hloaded := ensures_completeLoad job.keys hload
        exact ⟨hloaded.2 h.sound, hledger _ hloaded.1, hlt⟩
  | resetCache =>
    exact .ok ⟨.idle ⟨.clear _, Nat.zero_le _⟩ (CachePolicy.get_clear _) rfl, hI.reset hs⟩

theorem Initial.tracked (h : s.Initial) : s.Tracked := by
  obtain ⟨numBlocks, cachePolicy, storeThreshold, maxTrackerSize, rfl⟩ := h
  exact .idle ⟨.new numBlocks cachePolicy, Nat.zero_le _⟩ (CachePolicy.get_new numBlocks cachePolicy) rfl

/-- In every reached state the blocks are tracked, and what the manager maintains from the start holds. -/
theorem Reachable.maintained (h : Reachable Initial Paired step s) {I : CPUOffloadingManager K F → Prop}
    (hI : Maintained I) (hinit : ∀ numBlocks cachePolicy storeThreshold maxTrackerSize,
      I (.new numBlocks cachePolicy storeThreshold maxTrackerSize)) : s.Tracked ∧ I s.manager := by
  refine h.invariant (P := fun s => s.Tracked ∧ I s.manager) (fun s hs => ⟨hs.tracked, ?_⟩)
    fun s call s' hs hpaired hstep => step_spec hI hs.1 hs.2 hpaired hstep
  obtain ⟨numBlocks, cachePolicy, storeThreshold, maxTrackerSize, rfl⟩ := hs
  exact hinit numBlocks cachePolicy storeThreshold maxTrackerSize

/-- In every reached state the slots are accounted for. -/
theorem Reachable.slotted (h : Reachable Initial Paired step s) : s.Tracked ∧ s.manager.Slotted :=
  Reachable.maintained h kept_slotted fun _ cachePolicy _ _ => by cases cachePolicy <;> exact .refl _

/-- In every state reached by paired calls, with either policy: the slots of the cached blocks and the
free ones are those allocated so far, each once; the transfers under way have the slots of their keys,
so that none is in two of them under different keys; and no block that is not ready or that a transfer
names is evicted. -/
theorem slots_unshared (h : Reachable Initial Paired step s) :
    (s.manager.slotIds ++ s.manager.freeList).Perm (range s.manager.numAllocatedBlocks) ∧
    (∀ id job id' job' k k' slot, s.transfers.lookup id = some job → s.transfers.lookup id' = some job' →
      (k, slot) ∈ job.keys.zip job.blockIds → (k', slot) ∈ job'.keys.zip job'.blockIds → k = k') ∧
    ∀ keys out manager, s.manager.prepareStore keys = .ok (some out, manager) → ∀ k ∈ out.evictedKeys,
      (∃ block, s.manager.get k = some block ∧ block.isReady = true) ∧
        ∀ id job, s.transfers.lookup id = some job → k ∉ job.keys := by
  obtain ⟨htracked, hslotted⟩ := Reachable.slotted h
  refine ⟨hslotted, fun id job id' job' k k' slot hjob hjob' hk hk' => ?_, fun keys out manager hstore k hk => ?_⟩
  · have hnodup : (s.manager.policy.entries.map (·.2.blockId)).Nodup :=
      (nodup_append.mp (hslotted.nodup_iff.mpr nodup_range)).1
    have hheld : ∀ {id job k}, s.transfers.lookup id = some job → (k, slot) ∈ job.keys.zip job.blockIds →
        ∃ block, (k, block) ∈ s.manager.policy.entries ∧ block.blockId = slot := fun {id job k} hjob hk => by
      obtain ⟨block, hblock, hslot⟩ :=
        Option.map_eq_some_iff.mp ((forall₂_iff_zip.mp (htracked.ledger.jobSlots id job hjob)).2 hk)
      exact ⟨block, (CachePolicy.mem_entries htracked.sound.policy).mpr hblock, hslot⟩
    obtain ⟨block, hin, hslot⟩ := hheld hjob hk
    obtain ⟨block', hin', hslot'⟩ := hheld hjob' hk'
    exact congrArg Prod.fst (inj_on_of_nodup_map hnodup hin hin' (hslot.trans hslot'.symm))
  · obtain ⟨block, hblock, hzero⟩ :=
      ((succeeds_prepareStore htracked.sound keys).ensures hstore out rfl).evicted k hk
    refine ⟨⟨block, hblock, isReady_iff.mpr hzero.ge⟩, fun id job hjob hin => ?_⟩
    have haccounted := htracked.ledger.accounted k
    rw [hblock] at haccounted
    obtain ⟨hr, hw, -⟩ := haccounted.evict hzero
    have := held_of_job [] [] hjob hin
    split_ifs at this <;> omega

def twoSlots : CpuState ℕ ℚ where
  manager := .new 2 .arc 1 64000

theorem twoSlots_reachable : Reachable (Initial (K := ℕ) (F := ℚ)) Paired step twoSlots :=
  .start ⟨2, .arc, 1, 64000, rfl⟩

theorem slots_unshared_arc : ∃ s : CpuState ℕ ℚ, Reachable Initial Paired step s ∧
      s.transfers.lookup 1 = some ⟨[7], [0], false, "b"⟩ ∧ s.manager.freeList = [1] ∧
      (s.manager.slotIds ++ s.manager.freeList).Perm (range s.manager.numAllocatedBlocks) := by
  obtain ⟨s, hreached, hjob, hfree⟩ := twoSlots_reachable.exists_checkedRun (P := fun s =>
    s.transfers.lookup 1 = some ⟨[7], [0], false, "b"⟩ ∧ s.manager.freeList = [1])
    [.prepareStore [7] "a", .complete 0 true, .prepareLoad [7] "b", .prepareStore [8] "a", .complete 2 false]
    (by decide +kernel)
  exact ⟨s, hreached, hjob, hfree, (slots_unshared hreached).1⟩

/-! ## Enough blocks to evict -/

variable {guarded : List K} {d : List (K × BlockStatus)} {n : ℕ}

omit [ArcFloat F] in
theorem countP_guard_of_notMem {key : K} (hkey : key ∉ d.map Prod.fst) :
    d.countP (evictable (key :: guarded)) = d.countP (evictable guarded) := by
  refine countP_congr fun e he => ?_
  have hne : e.1 ≠ key := fun heq => hkey (heq ▸ mem_map_of_mem he)
  simp [evictable_iff, hne]

theorem countP_guard (hnodup : (d.map Prod.fst).Nodup) {entry : K × BlockStatus} (hmem : entry ∈ d)
    (hevictable : evictable guarded entry = true) :
    d.countP (evictable guarded) = d.countP (evictable (entry.1 :: guarded)) + 1 := by
  obtain ⟨before, after, rfl⟩ := append_of_mem hmem
  rw [map_append, map_cons, nodup_middle, nodup_cons, mem_append, not_or] at hnodup
  have hself : ¬evictable (entry.1 :: guarded) entry = true := by simp [evictable_iff]
  rw [countP_append, countP_append, countP_cons_of_pos hevictable, countP_cons_of_neg hself,
    countP_guard_of_notMem hnodup.1.1, countP_guard_of_notMem hnodup.1.2, Nat.add_assoc]

/-- An adaptive policy finds as many candidates as there are, as long as its target leaves enough of the
recent list for what the frequent one lacks. -/
theorem isSome_selectCandidates {p : ARCCachePolicy K F} (hp : p.Disjoint) {size : ℕ}
    (henough : n ≤ p.t1.entries.countP (evictable guarded) + p.t2.entries.countP (evictable guarded))
    (hsize : p.t1.entries.countP (evictable guarded) ≤ size)
    (htarget : ArcFloat.toInt p.targetT1Size + n ≤ size + 1 + p.t2.entries.countP (evictable guarded)) :
    (p.selectCandidates n guarded size).isSome := by
  induction n generalizing guarded size with
  | zero => rfl
  | succ n ih =>
    unfold ARCCachePolicy.selectCandidates ARCCachePolicy.nextCandidate
    cases hfirst : if ArcFloat.toInt p.targetT1Size ≤ size then p.t1.entries.find? (evictable guarded) else none with
    | some entry =>
      rw [Option.isSome_map]
      split_ifs at hfirst with hle
      have hmem := mem_of_find?_eq_some hfirst
      have h1 := countP_guard p.t1.nodup hmem (find?_some hfirst)
      have h2 : p.t2.entries.countP (evictable (entry.1 :: guarded)) = _ :=
        countP_guard_of_notMem (get_eq_none_iff.mp ((hp entry.1).resolve_left (by
          simp [get_eq_some_iff.mpr hmem])))
      rw [if_pos rfl]
      exact ih (by omega) (by omega) (by omega)
    | none =>
      have hlacks : n + 1 ≤ p.t2.entries.countP (evictable guarded) := by
        split_ifs at hfirst with hle
        · have hzero : p.t1.entries.countP (evictable guarded) = 0 :=
            countP_eq_zero.mpr (find?_eq_none.mp hfirst)
          omega
        · omega
      cases hsecond : p.t2.entries.find? (evictable guarded) with
      | none =>
        have := countP_eq_zero.mpr (find?_eq_none.mp hsecond)
        omega
      | some entry =>
        dsimp only [Option.map_some]
        rw [Option.isSome_map]
        have hmem := mem_of_find?_eq_some hsecond
        have h2 := countP_guard p.t2.nodup hmem (find?_some hsecond)
        have h1 : p.t1.entries.countP (evictable (entry.1 :: guarded)) = _ :=
          countP_guard_of_notMem (get_eq_none_iff.mp ((hp entry.1).resolve_right (by
            simp [get_eq_some_iff.mpr hmem])))
        exact ih (by omega) (by simpa using by omega) (by simpa using by omega)

/-- If the frequent list has enough candidates, the target does not matter. -/
theorem isSome_selectCandidates_of_frequent {p : ARCCachePolicy K F} (hp : p.Disjoint) {size : ℕ}
    (henough : n ≤ p.t2.entries.countP (evictable guarded)) : (p.selectCandidates n guarded size).isSome := by
  induction n generalizing guarded size with
  | zero => rfl
  | succ n ih =>
    unfold ARCCachePolicy.selectCandidates ARCCachePolicy.nextCandidate
    cases hfirst : if ArcFloat.toInt p.targetT1Size ≤ size then p.t1.entries.find? (evictable guarded) else none with
    | some entry =>
      rw [Option.isSome_map]
      split_ifs at hfirst
      have hmem := mem_of_find?_eq_some hfirst
      have h2 : p.t2.entries.countP (evictable (entry.1 :: guarded)) = _ :=
        countP_guard_of_notMem (get_eq_none_iff.mp ((hp entry.1).resolve_left (by
          simp [get_eq_some_iff.mpr hmem])))
      exact ih (by omega)
    | none =>
      cases hsecond : p.t2.entries.find? (evictable guarded) with
      | none =>
        have := countP_eq_zero.mpr (find?_eq_none.mp hsecond)
        omega
      | some entry =>
        dsimp only [Option.map_some]
        rw [Option.isSome_map]
        have h2 := countP_guard p.t2.nodup (mem_of_find?_eq_some hsecond) (find?_some hsecond)
        exact ih (by omega)

/-- If it has not, and the target keeps the recent list from making up for it, the selection fails. -/
theorem selectCandidates_eq_none {p : ARCCachePolicy K F} (hp : p.Disjoint) {size : ℕ}
    (hsize : p.t1.entries.countP (evictable guarded) ≤ size)
    (hlacks : p.t2.entries.countP (evictable guarded) < n)
    (htarget : size + 1 + p.t2.entries.countP (evictable guarded) < ArcFloat.toInt p.targetT1Size + n) :
    p.selectCandidates n guarded size = none := by
  induction n generalizing guarded size with
  | zero => omega
  | succ n ih =>
    unfold ARCCachePolicy.selectCandidates ARCCachePolicy.nextCandidate
    cases hfirst : if ArcFloat.toInt p.targetT1Size ≤ size then p.t1.entries.find? (evictable guarded) else none with
    | some entry =>
      split_ifs at hfirst with hle
      have hmem := mem_of_find?_eq_some hfirst
      have h1 := countP_guard p.t1.nodup hmem (find?_some hfirst)
      have h2 : p.t2.entries.countP (evictable (entry.1 :: guarded)) = _ :=
        countP_guard_of_notMem (get_eq_none_iff.mp ((hp entry.1).resolve_left (by
          simp [get_eq_some_iff.mpr hmem])))
      rw [Option.map_eq_none_iff, if_pos rfl]
      exact ih (by omega) (by omega) (by omega)
    | none =>
      cases hsecond : p.t2.entries.find? (evictable guarded) with
      | none => rfl
      | some entry =>
        dsimp only [Option.map_some]
        have hmem := mem_of_find?_eq_some hsecond
        have h2 := countP_guard p.t2.nodup hmem (find?_some hsecond)
        have h1 : p.t1.entries.countP (evictable (entry.1 :: guarded)) = _ :=
          countP_guard_of_notMem (get_eq_none_iff.mp ((hp entry.1).resolve_right (by
            simp [get_eq_some_iff.mpr hmem])))
        rw [Option.map_eq_none_iff]
        exact ih (by simpa using by omega) (by omega) (by simpa using by omega)

/-- The target of an adaptive policy leaves enough of the recent list for what the frequent one lacks, if it lacks
any and the two have enough together. -/
def TargetReached (n : ℕ) (guarded : List K) : CachePolicy K F → Prop
  | .lru _ => True
  | .arc p => p.t1.entries.countP (evictable guarded) + p.t2.entries.countP (evictable guarded) < n ∨
      n ≤ p.t2.entries.countP (evictable guarded) ∨
      ArcFloat.toInt p.targetT1Size + n ≤ p.t1.size + 1 + p.t2.entries.countP (evictable guarded)

instance : (p : CachePolicy K F) → Decidable (TargetReached n guarded p)
  | .lru _ => .isTrue trivial
  | .arc _ => inferInstanceAs (Decidable (_ ∨ _ ∨ _))

/-- If there are enough blocks, an eviction succeeds exactly if the target is reached. -/
theorem isSome_evict {p : CachePolicy K F} (hp : p.Sound) (henough : n ≤ p.entries.countP (evictable guarded)) :
    (p.evict n guarded).isSome ↔ TargetReached n guarded p := by
  cases p with
  | lru p =>
    simp only [CachePolicy.entries, countP_eq_length_filter] at henough
    simp [CachePolicy.evict, LRUCachePolicy.evict, henough, TargetReached]
  | arc p =>
    unfold CachePolicy.entries at henough
    rw [countP_append] at henough
    have hselected : ((CachePolicy.arc p).evict n guarded).isSome ↔
        (p.selectCandidates n guarded p.t1.size).isSome := by
      simp only [CachePolicy.evict, ARCCachePolicy.evict]
      split_ifs with hzero
      · subst hzero
        simp [ARCCachePolicy.selectCandidates]
      · cases p.selectCandidates n guarded p.t1.size <;> simp
    rw [hselected]
    refine ⟨fun hsome => ?_, ?_⟩
    · by_contra hnot
      simp only [TargetReached, not_or, not_lt, not_le] at hnot
      have hnone : p.selectCandidates n guarded p.t1.size = none :=
        selectCandidates_eq_none hp countP_le_length hnot.2.1 hnot.2.2
      rw [hnone] at hsome
      cases hsome
    · rintro (hless | hfrequent | hreached)
      · omega
      · exact isSome_selectCandidates_of_frequent hp hfrequent
      · exact isSome_selectCandidates hp henough countP_le_length hreached

/-- In every state reached by paired calls, with either policy: an eviction takes the asked number of
distinct unprotected and unreferenced blocks, and only these, if there are so many, and nothing
otherwise, exactly if the target of an adaptive policy leaves it enough of the recent list. -/
theorem evict_complete (h : Reachable Initial Paired step s) (n : ℕ) (guarded : List K) :
    (if n ≤ s.manager.policy.entries.countP (evictable guarded) then
      ∃ taken p', s.manager.policy.evict n guarded = some (taken, p') ∧ taken.length = n ∧
        (taken.map Prod.fst).Nodup ∧ (∀ e ∈ taken, e.2.refCnt = 0 ∧ e.1 ∉ guarded) ∧
        s.manager.policy.entries.Perm (taken ++ p'.entries)
    else s.manager.policy.evict n guarded = none) ↔ TargetReached n guarded s.manager.policy := by
  have hp := (Reachable.slotted h).1.sound.policy
  have hsome {taken : List (K × BlockStatus)} {p' : CachePolicy K F}
      (hevict : s.manager.policy.evict n guarded = some (taken, p')) :
      n ≤ s.manager.policy.entries.countP (evictable guarded) ∧ taken.length = n ∧
        (taken.map Prod.fst).Nodup ∧ (∀ e ∈ taken, e.2.refCnt = 0 ∧ e.1 ∉ guarded) ∧
        s.manager.policy.entries.Perm (taken ++ p'.entries) := by
    obtain ⟨hp', hspec⟩ := CachePolicy.evict_spec hp hevict
    have hsub : taken ⊆ s.manager.policy.entries.filter (evictable guarded) := fun e he =>
      mem_filter.mpr ⟨(CachePolicy.mem_entries hp).mpr (hspec.held e he),
        evictable_iff.mpr ⟨hspec.free e he, hspec.unguarded e he⟩⟩
    have hle := (subperm_of_subset hspec.nodup.of_map hsub).length_le
    rw [← countP_eq_length_filter, hspec.length] at hle
    exact ⟨hle, hspec.length, hspec.nodup, fun e he => ⟨hspec.free e he, hspec.unguarded e he⟩,
      CachePolicy.entries_perm hp hp' hspec.nodup hspec.held hspec.get⟩
  split_ifs with henough
  · rw [← isSome_evict hp henough, Option.isSome_iff_exists]
    constructor
    · rintro ⟨taken, p', hevict, -⟩
      exact ⟨_, hevict⟩
    · rintro ⟨⟨taken, p'⟩, hevict⟩
      exact ⟨taken, p', hevict, (hsome hevict).2⟩
  · refine iff_of_true ?_ ?_
    · cases hevict : s.manager.policy.evict n guarded with
      | none => rfl
      | some result => exact absurd (hsome hevict).1 henough
    · unfold CachePolicy.entries at henough
      split at henough
      next heq =>
        rw [heq]
        trivial
      next heq =>
        rw [countP_append] at henough
        rw [heq]
        exact .inl (Nat.lt_of_not_le henough)

/-- One of two blocks is protected, and the other is evicted. -/
theorem evict_complete_one : ∃ s : CpuState ℕ ℚ, Reachable Initial Paired step s ∧
      TargetReached 1 [7] s.manager.policy ∧
      ∃ taken p', s.manager.policy.evict 1 [7] = some (taken, p') ∧ taken.length = 1 := by
  obtain ⟨s, hreached, htarget, henough⟩ := twoSlots_reachable.exists_checkedRun (P := fun s =>
    TargetReached 1 [7] s.manager.policy ∧ 1 ≤ s.manager.policy.entries.countP (evictable [7]))
    [.prepareStore [7, 8] "a", .complete 0 true] (by decide +kernel)
  have hevict := (evict_complete hreached 1 [7]).mpr htarget
  rw [if_pos henough] at hevict
  obtain ⟨taken, p', hsome, hlen, -⟩ := hevict
  exact ⟨s, hreached, htarget, taken, p', hsome, hlen⟩

/-- Two of three blocks are cached and unreferenced. Touching the evicted one twice raises the target of
the recent list to two, and an eviction of both fails. -/
theorem evict_fails_at_target : ∃ s : CpuState ℕ ℚ, Reachable Initial Paired step s ∧
      s.manager.policy.entries.countP (evictable []) = 2 ∧ (s.manager.policy.evict 2 []).isNone := by
  obtain ⟨s, hreached, hspec⟩ := twoSlots_reachable.exists_checkedRun (P := fun s =>
    s.manager.policy.entries.countP (evictable []) = 2 ∧ (s.manager.policy.evict 2 []).isNone = true)
    [.prepareStore [1, 2] "a", .complete 0 true, .prepareStore [3] "a", .complete 1 true, .touch [1], .touch [1]]
    (by decide +kernel)
  exact ⟨s, hreached, hspec⟩

end CpuState

/-! ## The lists of the adaptive policy -/

namespace ARCCachePolicy

variable {p p' : ARCCachePolicy K ℚ} {k : K} {n bound : ℕ}

/-- Cached blocks are no ghosts, the ghost lists have no key in common and are bounded, as is the target. -/
structure Arranged (n bound : ℕ) (p : ARCCachePolicy K ℚ) : Prop where
  capacity : p.cacheCapacity = n
  live (k : K) : p.get k ≠ none → p.b1.get k = none ∧ p.b2.get k = none
  ghosts (k : K) : p.b1.get k = none ∨ p.b2.get k = none
  size : p.b1.size ≤ bound ∧ p.b2.size ≤ bound
  target : 0 ≤ p.targetT1Size ∧ p.targetT1Size ≤ n

/-- A change that adds neither blocks nor ghosts. -/
theorem Arranged.of_imp (h : p.Arranged n bound) (hcapacity : p'.cacheCapacity = p.cacheCapacity)
    (hget : ∀ k, p.get k = none → p'.get k = none)
    (hghosts : ∀ k, (p.b1.get k = none → p'.b1.get k = none) ∧ (p.b2.get k = none → p'.b2.get k = none))
    (hsize : p'.b1.size ≤ p.b1.size ∧ p'.b2.size ≤ p.b2.size)
    (htarget : 0 ≤ p'.targetT1Size ∧ p'.targetT1Size ≤ n) : p'.Arranged n bound where
  capacity := hcapacity.trans h.capacity
  live k hk := (h.live k fun hnone => hk (hget k hnone)).imp (hghosts k).1 (hghosts k).2
  ghosts k := (h.ghosts k).imp (hghosts k).1 (hghosts k).2
  size := ⟨hsize.1.trans h.size.1, hsize.2.trans h.size.2⟩
  target := htarget

/-- A change of the cached blocks alone. -/
theorem Arranged.of_live (h : p.Arranged n bound) (hget : ∀ k, p.get k = none → p'.get k = none)
    (hsame : p' = { p with t1 := p'.t1, t2 := p'.t2 }) : p'.Arranged n bound := by
  rw [hsame] at hget ⊢
  exact h.of_imp rfl hget (fun _ => ⟨id, id⟩) ⟨le_rfl, le_rfl⟩ h.target

theorem Arranged.insert (h : p.Arranged n bound) (key : K) (block : BlockStatus) :
    (p.insert key block).Arranged n bound where
  capacity := h.capacity
  live k hk := by
    rw [get_insert] at hk
    simp only [ARCCachePolicy.insert, get_erase]
    split_ifs at hk ⊢
    · exact ⟨rfl, rfl⟩
    · exact h.live k hk
  ghosts k := by
    simp only [ARCCachePolicy.insert, get_erase]
    exact (h.ghosts k).imp (fun hnone => by simp [hnone]) fun hnone => by simp [hnone]
  size := ⟨(size_erase_le _ _).trans h.size.1, (size_erase_le _ _).trans h.size.2⟩
  target := h.target

theorem Arranged.touchOne (h : p.Arranged n bound) (hp : p.Disjoint) (key : K) : (p.touchOne key).Arranged n bound := by
  have hmax : ∀ x y : ℚ, floatMax x y = max x y := fun x y => by simp [floatMax, PyFloat.lt, max_def_lt]
  have hmin : ∀ x y : ℚ, floatMin x y = min x y := fun x y => by
    rw [min_comm]
    simp [floatMin, PyFloat.lt, min_def_lt]
  have hget := (touchOne_spec hp key).2
  unfold ARCCachePolicy.touchOne at hget ⊢
  split at hget <;> split_ifs at hget ⊢
  any_goals exact h.of_live (fun k hk => (hget k).trans hk) rfl
  · refine h.of_imp rfl (fun k hk => (hget k).trans hk) (fun _ => by simp) ⟨size_moveToEnd_le _ _, le_rfl⟩ ?_
    simp only [hmin, hmax, h.capacity]
    exact ⟨le_min (add_nonneg h.target.1 (zero_le_one.trans (le_max_left _ _))) (Nat.cast_nonneg _), min_le_right _ _⟩
  · refine h.of_imp rfl (fun k hk => (hget k).trans hk) (fun _ => by simp) ⟨le_rfl, size_moveToEnd_le _ _⟩ ?_
    simp only [hmax]
    have hdelta := le_max_left (1 : ℚ) (p.b1.size / p.b2.size)
    exact ⟨le_max_right _ _, max_le (by linarith [h.target.2]) (Nat.cast_nonneg _)⟩

omit [DecidableEq K] in
theorem size_trimGhost_le (capacity : ℕ) (ghost : OrderedDict K Unit) : (trimGhost capacity ghost).size ≤ capacity := by
  have hsize : ∀ n (d : OrderedDict K Unit), (popFirst^[n] d).size = d.size - n := by
    intro n
    induction n with
    | zero => exact fun d => rfl
    | succ n ih =>
      intro d
      rw [Function.iterate_succ_apply, ih, size, popFirst, length_tail, size]
      omega
  rw [trimGhost, hsize]
  omega

theorem get_trimGhost (capacity : ℕ) {ghost : OrderedDict K Unit} (h : ghost.get k = none) :
    (trimGhost capacity ghost).get k = none := by
  refine Function.Iterate.rec (fun d : OrderedDict K Unit => d.get k = none) h (fun d hd => ?_) _
  rw [get_eq_none_iff] at hd ⊢
  exact fun hin => hd (((tail_sublist _).map _).subset hin)

/-- A dropped block is a ghost of its side only, as it was none. -/
theorem Arranged.dropCandidate (h : p.Arranged n bound) (hp : p.Disjoint) {c : (K × BlockStatus) × Bool}
    (hc : p.Stands c) : ∃ bound, (p.dropCandidate c).Arranged n bound := by
  obtain ⟨hb1, hb2⟩ := h.live c.1.1 (by simp [hc.get hp])
  have hlive (k : K) (hk : (p.dropCandidate c).get k ≠ none) : k ≠ c.1.1 ∧ p.get k ≠ none := by
    obtain ⟨h1, h2⟩ := dropCandidate_lists hp hc
    have hremove := get_remove hp c.1.1 k
    rw [get, ← h1, ← h2] at hremove
    rw [get, hremove] at hk
    split_ifs at hk with hkey
    · exact absurd rfl hk
    · exact ⟨hkey, hk⟩
  refine ⟨max (p.dropCandidate c).b1.size (p.dropCandidate c).b2.size, ?_, fun k hk => ?_, fun k => ?_,
    ⟨le_max_left _ _, le_max_right _ _⟩, ?_⟩
  · exact (apply_ite cacheCapacity ..).trans ((ite_self _).trans h.capacity)
  · have hghosts := h.live k (hlive k hk).2
    unfold ARCCachePolicy.dropCandidate
    split_ifs <;> simpa [get_set, (hlive k hk).1] using hghosts
  · have hghosts := h.ghosts k
    unfold ARCCachePolicy.dropCandidate
    by_cases hk : k = c.1.1
    · split_ifs <;> simp [hk, hb1, hb2]
    · split_ifs <;> simpa [get_set, hk] using hghosts
  · unfold ARCCachePolicy.dropCandidate
    split_ifs <;> exact h.target

/-- Evicted blocks become ghosts of their side. -/
theorem Arranged.evict (h : p.Arranged n bound) (hp : p.Disjoint) {numBlocks : ℕ} {guarded : List K}
    {taken : List (K × BlockStatus)} (hevict : p.evict numBlocks guarded = some (taken, p')) (hbound : n ≤ bound) :
    p'.Arranged n bound := by
  unfold ARCCachePolicy.evict at hevict
  split_ifs at hevict
  · cases hevict
    exact h
  split at hevict
  · cases hevict
  next candidates hselect =>
    cases hevict
    obtain ⟨-, hnodup, hall⟩ := selectCandidates_spec hselect
    obtain ⟨⟨_, hdropped⟩, -⟩ := foldl_dropCandidate (I := fun p => ∃ bound, p.Arranged n bound)
      (fun p c hp hc ⟨_, h⟩ => h.dropCandidate hp hc) ⟨bound, h⟩ hp hnodup fun c hc => (hall c hc).1
    have hle (ghost : OrderedDict K Unit) : (trimGhost (candidates.foldl ARCCachePolicy.dropCandidate p).cacheCapacity
        ghost).size ≤ bound := ((size_trimGhost_le _ _).trans hdropped.capacity.le).trans hbound
    exact { hdropped with
      live := fun k hk => (hdropped.live k hk).imp (get_trimGhost _) (get_trimGhost _)
      ghosts := fun k => (hdropped.ghosts k).imp (get_trimGhost _) (get_trimGhost _)
      size := ⟨hle _, hle _⟩ }

end ARCCachePolicy

namespace CachePolicy

variable {p : CachePolicy K ℚ} {n : ℕ}

/-- The lists of an adaptive policy are arranged. -/
def Arranged (n : ℕ) : CachePolicy K ℚ → Prop
  | lru _ => True
  | arc p => p.Arranged n n

theorem Arranged.modify (h : p.Arranged n) (key : K) (f : BlockStatus → BlockStatus) : (p.modify key f).Arranged n := by
  cases p with
  | lru p => trivial
  | arc p =>
    refine ARCCachePolicy.Arranged.of_live h (fun k hk => ?_) ?_
    · rw [ARCCachePolicy.get_modify, hk, Option.map_none, ite_self]
    · unfold ARCCachePolicy.modify
      split_ifs <;> rfl

theorem Arranged.remove (h : p.Arranged n) (hp : p.Sound) (key : K) : (p.remove key).Arranged n := by
  cases p with
  | lru p => trivial
  | arc p =>
    refine ARCCachePolicy.Arranged.of_live h (fun k hk => ?_) ?_
    · rw [ARCCachePolicy.get_remove hp, hk, ite_self]
    · unfold ARCCachePolicy.remove
      split_ifs <;> rfl

theorem Arranged.insertAll (h : p.Arranged n) (blocks : List (K × ℕ)) :
    (blocks.foldl (fun policy b => policy.insert b.1 { blockId := b.2 }) p).Arranged n := by
  induction blocks generalizing p with
  | nil => exact h
  | cons b rest ih =>
    cases p with
    | lru p => exact ih trivial
    | arc p => exact ih (ARCCachePolicy.Arranged.insert h _ _)

theorem Arranged.touch (h : p.Arranged n) (hp : p.Sound) (keys : List K) : (p.touch keys).Arranged n := by
  cases p with
  | lru p => trivial
  | arc p =>
    change (keys.reverse.foldl ARCCachePolicy.touchOne p).Arranged n n
    generalize keys.reverse = order
    induction order generalizing p with
    | nil => exact h
    | cons key rest ih =>
      exact ih _ (ARCCachePolicy.Arranged.touchOne h hp key) (ARCCachePolicy.touchOne_spec hp key).1

theorem Arranged.evict (h : p.Arranged n) (hp : p.Sound) {numBlocks : ℕ} {guarded : List K}
    {result : List (K × BlockStatus) × CachePolicy K ℚ} (hevict : p.evict numBlocks guarded = some result) :
    result.2.Arranged n := by
  cases p with
  | lru p =>
    obtain ⟨_, -, rfl⟩ := Option.map_eq_some_iff.mp hevict
    trivial
  | arc p =>
    obtain ⟨_, htaken, rfl⟩ := Option.map_eq_some_iff.mp hevict
    exact ARCCachePolicy.Arranged.evict h hp htaken le_rfl

theorem Arranged.new (n : ℕ) (name : CachePolicyName) : (new n name : CachePolicy K ℚ).Arranged n := by
  cases name with
  | lru => trivial
  | arc =>
    exact ⟨rfl, fun _ hk => absurd rfl hk, fun _ => .inl rfl, ⟨Nat.zero_le _, Nat.zero_le _⟩, le_rfl, Nat.cast_nonneg _⟩

theorem Arranged.clear (h : p.Arranged n) : p.clear.Arranged n := by
  cases p with
  | lru p => trivial
  | arc p => exact ARCCachePolicy.Arranged.capacity h ▸ Arranged.new p.cacheCapacity .arc

end CachePolicy

namespace CPUOffloadingManager

omit [DecidableEq K] in
/-- An allocation does not change how many blocks there are. -/
theorem numBlocks_allocateBlocks {m m' : CPUOffloadingManager K F} {n : ℕ} {slots : List ℕ}
    (h : m.allocateBlocks n = .ok (slots, m')) : m'.numBlocks = m.numBlocks := by
  unfold allocateBlocks at h
  dsimp only at h
  split_ifs at h
  cases h
  rfl

/-- The lists stay arranged. -/
theorem kept_arranged : Maintained fun m : CPUOffloadingManager K ℚ => m.policy.Arranged m.numBlocks where
  modify key h _ := h.modify key _
  remove hm h _ := h.remove hm.policy _
  count counts h := h
  touch keys hm h := h.touch hm.policy keys
  evict hm h hevict := h.evict hm.policy hevict
  place hm h _ _ halloc := by
    obtain ⟨-, hpolicy, -⟩ := allocateBlocks_spec halloc
    have hnum := numBlocks_allocateBlocks halloc
    rw [← hpolicy, ← hnum] at h
    exact h.insertAll _
  reset h := h.clear

end CPUOffloadingManager

namespace CpuState

open CPUOffloadingManager

variable {s : CpuState K ℚ}

/-- In every state reached by paired calls the lists of an adaptive policy have no key in common and are
bounded by the capacity, the cached blocks together and the ghosts of either list, and the target is
between nothing and the capacity. -/
theorem arc_arranged (h : Reachable Initial Paired step s) {p : ARCCachePolicy K ℚ} (hp : s.manager.policy = .arc p) :
    [p.t1.entries.map Prod.fst, p.t2.entries.map Prod.fst, p.b1.entries.map Prod.fst,
      p.b2.entries.map Prod.fst].Pairwise List.Disjoint ∧
    p.t1.size + p.t2.size ≤ p.cacheCapacity ∧ p.b1.size ≤ p.cacheCapacity ∧ p.b2.size ≤ p.cacheCapacity ∧
    0 ≤ p.targetT1Size ∧ p.targetT1Size ≤ p.cacheCapacity := by
  obtain ⟨htracked, hslotted⟩ := Reachable.slotted h
  have harranged := (Reachable.maintained h kept_arranged fun _ cachePolicy _ _ =>
    CachePolicy.Arranged.new _ cachePolicy).2
  have hsound : p.Disjoint := by
    have := htracked.sound.policy
    rwa [hp] at this
  rw [hp] at harranged
  obtain ⟨hcapacity, hlive, hghosts, hsize, htarget⟩ : p.Arranged s.manager.numBlocks _ := harranged
  have hcached : ∀ k, (p.t1.get k = none ∧ p.t2.get k = none) ∨ p.b1.get k = none ∧ p.b2.get k = none := fun k =>
    (or_iff_not_imp_left.mpr (hlive k)).imp_left Option.or_eq_none_iff.mp
  have hapart : ∀ {α β : Type} {d : OrderedDict K α} {d' : OrderedDict K β},
      (∀ k, d.get k = none ∨ d'.get k = none) → List.Disjoint (d.entries.map Prod.fst) (d'.entries.map Prod.fst) := by
    intro α β d d' hnone k hk hk'
    rcases hnone k with hnone | hnone
    · exact get_eq_none_iff.mp hnone hk
    · exact get_eq_none_iff.mp hnone hk'
  have hlen := hslotted.length_eq
  simp only [slotIds, hp, CachePolicy.entries, length_append, length_map, length_range] at hlen
  have hallocated := htracked.sound.allocated
  rw [hcapacity]
  refine ⟨?_, ?_, hsize.1, hsize.2, htarget⟩
  · simp only [pairwise_cons, mem_cons, not_mem_nil, or_false, forall_eq_or_imp, forall_eq]
    exact ⟨⟨hapart hsound, hapart fun k => (hcached k).imp And.left And.left,
      hapart fun k => (hcached k).imp And.left And.right⟩, ⟨hapart fun k => (hcached k).imp And.right And.left,
      hapart fun k => (hcached k).imp And.right And.right⟩, hapart hghosts, nofun, .nil⟩
  · unfold OrderedDict.size
    omega

theorem arc_arranged_ghost : ∃ (s : CpuState ℕ ℚ) (p : ARCCachePolicy ℕ ℚ), Reachable Initial Paired step s ∧
      s.manager.policy = .arc p ∧ p.b1.size = 1 ∧ p.t1.size + p.t2.size ≤ p.cacheCapacity := by
  have hstart : Reachable Initial Paired step twoSlots := .start ⟨2, .arc, 1, 64000, rfl⟩
  obtain ⟨s, hreached, hghost⟩ := hstart.exists_checkedRun (P := fun s =>
    (match s.manager.policy with | .lru _ => 0 | .arc p => p.b1.size) = 1)
    [.prepareStore [1, 2] "a", .complete 0 true, .prepareStore [3] "a"] (by decide +kernel)
  cases hp : s.manager.policy with
  | lru p => simp [hp] at hghost
  | arc p => exact ⟨s, p, hreached, hp, by simpa [hp] using hghost, (arc_arranged hreached hp).2.1⟩

end CpuState

end VllmPs.Offload
