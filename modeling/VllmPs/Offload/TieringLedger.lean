import VllmPs.Offload.Tiering

/-!
# Who holds the blocks of the primary tier

A ready block of the primary tier has one reference for each cascade job and GPU load that reads it; a block
that is not ready has one writer, a promotion or a GPU store. The slots recorded with jobs are those of the
named blocks. Every operation of the manager keeps the ledger.
-/

namespace VllmPs.Offload

open Lib OrderedDict BlockStatus List AList

variable {K F : Type} [DecidableEq K]
variable {pending : PendingLoads K} {e : ℕ × PendingPromotion K}

def readers (jobs : Table ℕ (JobMetadata K)) (loads : List (List K)) (k : K) : ℕ :=
  Table.total (fun _ job => if job.isPromotion then 0 else job.keys.count k) jobs +
    (loads.map (·.count k)).sum

/-- The promotions that name a key. -/
def promoters (jobs : Table ℕ (JobMetadata K)) (pending : List (ℕ × PendingPromotion K)) (k : K) : ℕ :=
  Table.total (fun _ job => if job.isPromotion then job.keys.count k else 0) jobs +
    (pending.map (·.2.keys.count k)).sum

/-- The unfinished GPU stores that name a key. -/
def storers (stores : List (List K)) (k : K) : ℕ := stores.countP (k ∈ ·)

/-- A block counts its readers once it is ready, of which it never gets more than the count can hold and one, as it is
not ready then; before it has one writer. -/
def Accounted : Option BlockStatus → ℕ → ℕ → ℕ → Prop
  | none, reads, promotions, stores => reads = 0 ∧ promotions = 0 ∧ stores = 0
  | some block, reads, promotions, stores =>
    (block.refCnt = int32 reads ∧ reads ≤ 2 ^ 31 ∧ promotions = 0 ∧ stores = 0) ∨
      (block.refCnt < 0 ∧ reads = 0 ∧ promotions + stores = 1)

namespace Accounted

variable {status : Option BlockStatus} {r w s w' s' c : ℕ}

theorem unpin (h : Accounted status (r + c) w s) : Accounted (status.map (·.addRefCnt (-(c : ℤ)))) r w s := by
  cases status with
  | none =>
    obtain ⟨hr, hw, hs⟩ := h
    exact ⟨by omega, hw, hs⟩
  | some block =>
    rcases h with ⟨hr, hle, hw, hs⟩ | ⟨hready, hr, hone⟩
    · refine .inl ⟨?_, by omega, hw, hs⟩
      rw [refCnt_addRefCnt, hr, int32_add]
      congr 1
      push_cast
      ring
    · refine .inr ⟨?_, by omega, hone⟩
      obtain ⟨rfl, rfl⟩ : r = 0 ∧ c = 0 := by omega
      simpa using hready

theorem pin (h : Accounted status r w s)
    (hready : 0 < c → ∃ block, status = some block ∧ block.isReady = true ∧ block.refCnt + c ≤ 2 ^ 31) :
    Accounted (status.map (·.addRefCnt c)) (r + c) w s := by
  rcases Nat.eq_zero_or_pos c with rfl | hc
  · simpa using h
  obtain ⟨block, rfl, hblock, hroom⟩ := hready hc
  have hnonneg := isReady_iff.mp hblock
  rcases h with ⟨hr, hle, hw, hs⟩ | ⟨hneg, -, -⟩
  · refine .inl ⟨?_, ?_, hw, hs⟩
    · rw [refCnt_addRefCnt, hr, int32_add]
      congr 1
    · unfold int32 at hr
      omega
  · omega

theorem settle (h : Accounted status r w s) (hone : w + s = w' + s' + 1) (success : Bool) :
    Accounted (settle success status) r w' s' := by
  cases status with
  | none =>
    obtain ⟨-, hw, hs⟩ := h
    omega
  | some block =>
    rcases h with ⟨-, -, hw, hs⟩ | ⟨hneg, hr, hws⟩
    · omega
    subst hr
    have hnot : ¬block.isReady = true := fun hb => by
      have := isReady_iff.mp hb
      omega
    rw [settle_of_not_ready success hnot]
    cases success with
    | true => exact .inl ⟨rfl, by omega, by omega, by omega⟩
    | false => exact ⟨rfl, by omega, by omega⟩

theorem reserve (h : Accounted none r w s) (hone : w' + s' = w + s + 1) (slot : ℕ) :
    Accounted (some { blockId := slot }) r w' s' := by
  obtain ⟨hr, hw, hs⟩ := h
  exact .inr ⟨neg_one_lt_zero, hr, by omega⟩

theorem evict {block : BlockStatus} (h : Accounted (some block) r w s) (hzero : block.refCnt = 0) :
    Accounted none r w s := by
  rcases h with ⟨hr, hle, hw, hs⟩ | ⟨hneg, -, -⟩
  · refine ⟨?_, hw, hs⟩
    unfold int32 at hr
    omega
  · omega

/-- A block with fewer readers than the count can hold is ready and has one reference for each. -/
theorem refCnt_eq (h : Accounted status r w s) (hpos : 0 < r) (hlt : r < 2 ^ 31) :
    ∃ block, status = some block ∧ block.isReady = true ∧ block.refCnt = r := by
  cases status with
  | none =>
    obtain ⟨hr, -, -⟩ := h
    omega
  | some block =>
    rcases h with ⟨hr, -, -, -⟩ | ⟨-, hr, -⟩
    · rw [int32_of_mem (by omega)] at hr
      exact ⟨block, rfl, isReady_iff.mpr (by omega), hr⟩
    · omega

theorem not_ready (h : Accounted status r w s) (hpos : 0 < w + s) :
    ∃ block, status = some block ∧ block.isReady = false ∧ w + s = 1 ∧ r = 0 := by
  cases status with
  | none =>
    obtain ⟨-, hw, hs⟩ := h
    omega
  | some block =>
    rcases h with ⟨-, -, hw, hs⟩ | ⟨hneg, hr, hone⟩
    · omega
    · exact ⟨block, rfl, decide_eq_false (not_le.mpr hneg), hone, hr⟩

end Accounted

/-! ## Counting readers and writers -/

section Counts

variable (jobs : Table ℕ (JobMetadata K)) (loads : List (List K)) (pending : List (ℕ × PendingPromotion K))
  (k : K)
variable {id : ℕ} {job : JobMetadata K}

theorem readers_erase {jobs : Table ℕ (JobMetadata K)} (h : jobs.lookup id = some job) :
    readers (jobs.erase id) loads k + (if job.isPromotion then 0 else job.keys.count k) =
      readers jobs loads k := by
  unfold readers
  rw [← Table.total_erase_of_lookup h, Nat.add_right_comm]

theorem promoters_erase {jobs : Table ℕ (JobMetadata K)} (h : jobs.lookup id = some job) :
    promoters (jobs.erase id) pending k + (if job.isPromotion then job.keys.count k else 0) =
      promoters jobs pending k := by
  unfold promoters
  rw [← Table.total_erase_of_lookup h, Nat.add_right_comm]

theorem readers_insert {jobs : Table ℕ (JobMetadata K)} (h : jobs.lookup id = none) (job : JobMetadata K) :
    readers (jobs.insert id job) loads k =
      readers jobs loads k + if job.isPromotion then 0 else job.keys.count k := by
  unfold readers
  rw [Table.total_insert_of_lookup h, Nat.add_right_comm]

theorem promoters_insert {jobs : Table ℕ (JobMetadata K)} (h : jobs.lookup id = none) (job : JobMetadata K) :
    promoters (jobs.insert id job) pending k =
      promoters jobs pending k + if job.isPromotion then job.keys.count k else 0 := by
  unfold promoters
  rw [Table.total_insert_of_lookup h, Nat.add_right_comm]

theorem held_of_job {jobs : Table ℕ (JobMetadata K)}
    (h : jobs.lookup id = some job) {k : K} (hk : k ∈ job.keys) :
    0 < if job.isPromotion then promoters jobs pending k else readers jobs loads k := by
  have hcount : 0 < job.keys.count k := count_pos_iff.mpr hk
  by_cases hp : job.isPromotion = true
  · have := promoters_erase pending k h
    rw [if_pos hp] at this ⊢
    omega
  · have := readers_erase loads k h
    rw [if_neg hp] at this ⊢
    omega

theorem held_of_pending {e : ℕ × PendingPromotion K} (he : e ∈ pending) {k : K} (hk : k ∈ e.2.keys) :
    0 < promoters jobs pending k := by
  have hcount : 0 < e.2.keys.count k := count_pos_iff.mpr hk
  have hle : e.2.keys.count k ≤ (pending.map (·.2.keys.count k)).sum :=
    le_sum_of_mem (mem_map_of_mem he)
  unfold promoters
  omega

end Counts

/-! ## The ledger -/

structure Ledger (get : K → Option BlockStatus) (jobs : Table ℕ (JobMetadata K))
    (pending : List (ℕ × PendingPromotion K)) (loads stores : List (List K)) : Prop where
  accounted : ∀ k, Accounted (get k) (readers jobs loads k) (promoters jobs pending k) (storers stores k)
  jobSlots : ∀ id job, jobs.lookup id = some job → SlotsOf get job.keys job.blockIds
  pendingSlots : ∀ e ∈ pending, SlotsOf get e.2.keys e.2.blockIds

namespace Ledger

variable {get get' : K → Option BlockStatus} {jobs : Table ℕ (JobMetadata K)}
  {pending : List (ℕ × PendingPromotion K)} {loads stores loads' stores' : List (List K)}
variable {jobs' : Table ℕ (JobMetadata K)} {keys : List K}

omit [DecidableEq K] in
theorem map_blockId_addRefCnt (status : Option BlockStatus) (d : ℤ) :
    (status.map (·.addRefCnt d)).map blockId = status.map blockId := by
  rw [Option.map_map]
  rfl

section

variable (h : Ledger get jobs pending loads stores)
include h

theorem congr (hget : ∀ k, get' k = get k) : Ledger get' jobs pending loads stores := by
  obtain rfl : get' = get := funext hget
  exact h

/-- Keys that are read have enough references, if the count can hold all readers. -/
theorem pinned (hreads : ∀ k, readers jobs' loads' k + keys.count k = readers jobs loads k)
    (hwithin : ∀ k ∈ keys, readers jobs loads k < 2 ^ 31) :
    ∀ k ∈ keys, ∃ block, get k = some block ∧ (keys.count k : ℤ) ≤ block.refCnt := by
  intro k hk
  have hpos : 0 < keys.count k := count_pos_iff.mpr hk
  have := hreads k
  obtain ⟨block, hblock, -, hcnt⟩ := (h.accounted k).refCnt_eq (by omega) (hwithin k hk)
  exact ⟨block, hblock, by omega⟩

section

variable (hjobs : ∀ id job, jobs'.lookup id = some job → jobs.lookup id = some job)
include hjobs

theorem of_kept (haccounted : ∀ k, Accounted (get' k) (readers jobs' loads' k) (promoters jobs' pending k)
      (storers stores' k))
    (hkept : ∀ k, 0 < readers jobs' loads' k + promoters jobs' pending k →
      (get' k).map blockId = (get k).map blockId) :
    Ledger get' jobs' pending loads' stores' where
  accounted := haccounted
  jobSlots id job hjob := by
    refine (h.jobSlots id job (hjobs id job hjob)).congr fun k hk => hkept k ?_
    have := held_of_job loads' pending hjob hk
    split_ifs at this <;> omega
  pendingSlots e he := by
    refine (h.pendingSlots e he).congr fun k hk => hkept k ?_
    have := held_of_pending jobs' pending he hk
    omega

theorem unpin (hreads : ∀ k, readers jobs' loads' k + keys.count k = readers jobs loads k)
    (hwrites : ∀ k, promoters jobs' pending k = promoters jobs pending k)
    (hget : ∀ k, get' k = (get k).map (·.addRefCnt (-(keys.count k : ℤ)))) :
    Ledger get' jobs' pending loads' stores := by
  refine h.of_kept hjobs (fun k => ?_) fun k _ => ?_
  · have := h.accounted k
    rw [← hreads k, ← hwrites k] at this
    rw [hget]
    exact this.unpin
  · rw [hget, map_blockId_addRefCnt]

theorem settled (keys : List K) {success : Bool} (hreads : ∀ k, readers jobs' loads' k = readers jobs loads k)
    (hin : ∀ k ∈ keys, promoters jobs pending k + storers stores k =
      promoters jobs' pending k + storers stores' k + 1)
    (hout : ∀ k ∉ keys, promoters jobs' pending k = promoters jobs pending k ∧
      storers stores' k = storers stores k)
    (hget : ∀ k, get' k = if k ∈ keys then settle success (get k) else get k) :
    Ledger get' jobs' pending loads' stores' := by
  have haccounted : ∀ k, Accounted (get' k) (readers jobs' loads' k) (promoters jobs' pending k)
      (storers stores' k) := by
    intro k
    rw [hget, hreads]
    by_cases hk : k ∈ keys
    · rw [if_pos hk]
      exact (h.accounted k).settle (hin k hk) success
    · rw [if_neg hk, (hout k hk).1, (hout k hk).2]
      exact h.accounted k
  refine h.of_kept hjobs haccounted fun k hpos => ?_
  by_cases hk : k ∈ keys
  · -- a settled block had one writer and no reader, so nobody is left who names it
    obtain ⟨-, -, -, hone, hzero⟩ := (h.accounted k).not_ready (by rw [hin k hk]; omega)
    have := hin k hk
    rw [hreads] at hpos
    omega
  · rw [hget, if_neg hk]

end

section

variable {id : ℕ} {job : JobMetadata K} (hjob : jobs.lookup id = some job)
include hjob

theorem erase_promotion {success : Bool} (hp : job.isPromotion = true)
    (hget : ∀ k, get' k = if k ∈ job.keys then settle success (get k) else get k) :
    Ledger get' (jobs.erase id) pending loads stores := by
  have hreads := fun k => readers_erase loads k hjob
  have hwrites := fun k => promoters_erase pending k hjob
  simp only [if_pos hp] at hreads hwrites
  refine h.settled (fun _ _ hid => (Table.lookup_erase_eq_some.mp hid).2) job.keys hreads (fun k hk => ?_)
    (fun k hk => ?_) hget
  · -- the promotion is the only writer of its keys
    have hcount := hwrites k
    have hpos : 0 < job.keys.count k := count_pos_iff.mpr hk
    obtain ⟨-, -, -, hone⟩ := (h.accounted k).not_ready (by omega)
    omega
  · have hcount := hwrites k
    rw [count_eq_zero_of_not_mem hk] at hcount
    exact ⟨hcount, rfl⟩

theorem erase_cascade (hp : ¬job.isPromotion = true) :
    ((∀ k ∈ job.keys, readers jobs loads k < 2 ^ 31) →
      ∀ k ∈ job.keys, ∃ block, get k = some block ∧ (job.keys.count k : ℤ) ≤ block.refCnt) ∧
      ∀ get' : K → Option BlockStatus, (∀ k, get' k = (get k).map (·.addRefCnt (-(job.keys.count k : ℤ)))) →
        Ledger get' (jobs.erase id) pending loads stores := by
  have hreads := fun k => readers_erase loads k hjob
  have hwrites := fun k => promoters_erase pending k hjob
  simp only [if_neg hp] at hreads hwrites
  exact ⟨h.pinned hreads, fun get' =>
    h.unpin (fun _ _ hid => (Table.lookup_erase_eq_some.mp hid).2) hreads hwrites⟩

end

theorem cascade {slots : List ℕ} {id : ℕ} {reqId : RequestId} (hid : jobs.lookup id = none)
    (hready : ∀ k ∈ keys, ∃ block, get k = some block ∧ block.isReady = true ∧ block.refCnt + keys.count k ≤ 2 ^ 31)
    (hslots : SlotsOf get keys slots)
    (hget : ∀ k, get' k = (get k).map (·.addRefCnt (keys.count k))) :
    Ledger get' (jobs.insert id ⟨keys, slots, false, reqId⟩) pending loads stores where
  accounted k := by
    rw [readers_insert loads k hid, promoters_insert pending k hid, hget]
    exact (h.accounted k).pin fun hpos => hready k (count_pos_iff.mp hpos)
  jobSlots id' job hjob := by
    have hkept : ∀ k, (get' k).map blockId = (get k).map blockId := fun k => by
      rw [hget, map_blockId_addRefCnt]
    rcases eq_or_ne id' id with rfl | hne
    · rw [lookup_insert, Option.some.injEq] at hjob
      subst hjob
      exact hslots.congr fun k _ => hkept k
    · rw [lookup_insert_ne hne] at hjob
      exact (h.jobSlots id' job hjob).congr fun k _ => hkept k
  pendingSlots e he := (h.pendingSlots e he).congr fun k _ => by rw [hget, map_blockId_addRefCnt]

theorem load
    (hready : ∀ k ∈ keys, ∃ block, get k = some block ∧ block.isReady = true ∧ block.refCnt + keys.count k ≤ 2 ^ 31)
    (hget : ∀ k, get' k = (get k).map (·.addRefCnt (keys.count k))) :
    Ledger get' jobs pending (loads ++ [keys]) stores := by
  refine h.of_kept (fun _ _ => id) (fun k => ?_) fun k _ => ?_
  · have hsum : readers jobs (loads ++ [keys]) k = readers jobs loads k + keys.count k := by
      unfold readers
      rw [map_append, sum_append, map_singleton, sum_singleton]
      omega
    rw [hsum, hget]
    exact (h.accounted k).pin fun hpos => hready k (count_pos_iff.mp hpos)
  · rw [hget, map_blockId_addRefCnt]

end

section

variable {m m' : CPUOffloadingManager K F} {out : PrepareStoreOutput K}
  (h : Ledger m.get jobs pending loads stores) (hspec : m.Reserved m' keys out)
include h hspec

theorem kept_of_reserved (k : K) (hpos : 0 < readers jobs loads k + promoters jobs pending k) :
    m'.get k = m.get k := by
  have haccounted := h.accounted k
  rw [hspec.other k fun hk => ?_, if_neg fun hk => ?_]
  · obtain ⟨block, hblock, hzero⟩ := hspec.evicted k hk
    rw [hblock] at haccounted
    obtain ⟨hr, hw, -⟩ := haccounted.evict hzero
    omega
  · rw [hspec.new hk] at haccounted
    obtain ⟨hr, hw, -⟩ := haccounted
    omega

/-- New blocks with a writer each, and unreferenced blocks that went for them. -/
theorem reserved {pending' : List (ℕ × PendingPromotion K)}
    (hin : ∀ k ∈ out.keysToStore, promoters jobs pending' k + storers stores' k =
      promoters jobs pending k + storers stores k + 1)
    (hout : ∀ k ∉ out.keysToStore, promoters jobs pending' k = promoters jobs pending k ∧
      storers stores' k = storers stores k)
    (hpending : ∀ e ∈ pending', SlotsOf m'.get e.2.keys e.2.blockIds) :
    Ledger m'.get jobs pending' loads stores' where
  accounted k := by
    by_cases hk : k ∈ out.keysToStore
    · obtain ⟨slot, -, hslot⟩ := hspec.stored k hk
      have haccounted := h.accounted k
      rw [hspec.new hk] at haccounted
      rw [hslot]
      exact haccounted.reserve (hin k hk) slot
    rw [(hout k hk).1, (hout k hk).2, hspec.other k hk]
    split_ifs with hevict
    · obtain ⟨block, hblock, hzero⟩ := hspec.evicted k hevict
      have haccounted := h.accounted k
      rw [hblock] at haccounted
      exact haccounted.evict hzero
    · exact h.accounted k
  jobSlots id job hjob := by
    refine (h.jobSlots id job hjob).congr fun k hk => ?_
    rw [h.kept_of_reserved hspec k]
    have := held_of_job loads pending hjob hk
    split_ifs at this <;> omega
  pendingSlots := hpending

end

theorem flush {e : ℕ × PendingPromotion K} {id : ℕ} (h : Ledger get jobs (e :: pending) loads stores)
    (hid : jobs.lookup id = none) :
    Ledger get (jobs.insert id ⟨e.2.keys, e.2.blockIds, true, e.2.reqId⟩) pending loads stores where
  accounted k := by
    have hmoved : promoters jobs pending k + e.2.keys.count k = promoters jobs (e :: pending) k := by
      unfold promoters
      rw [map_cons, sum_cons]
      omega
    rw [readers_insert loads k hid, promoters_insert pending k hid]
    have := h.accounted k
    rw [← hmoved] at this
    exact this
  jobSlots id' job hjob := by
    rcases eq_or_ne id' id with rfl | hne
    · rw [lookup_insert, Option.some.injEq] at hjob
      subst hjob
      exact h.pendingSlots e mem_cons_self
    · rw [lookup_insert_ne hne] at hjob
      exact h.jobSlots id' job hjob
  pendingSlots e' he' := h.pendingSlots e' (mem_cons_of_mem _ he')

end Ledger

/-! ## Pending promotions -/

omit [DecidableEq K] in
open TieringOffloadingManager in
theorem mem_pendingEntries : e ∈ pendingEntries pending ↔
      ∃ tierPending reqId, pending.get e.1 = some tierPending ∧ tierPending.get reqId = some e.2 := by
  unfold pendingEntries
  rw [mem_flatMap]
  constructor
  · rintro ⟨p, hp, he⟩
    obtain ⟨q, hq, rfl⟩ := mem_map.mp he
    exact ⟨p.2, q.1, get_eq_some_iff.mpr hp, get_eq_some_iff.mpr hq⟩
  · rintro ⟨tierPending, reqId, htier, hreq⟩
    exact ⟨(e.1, tierPending), get_eq_some_iff.mp htier,
      mem_map.mpr ⟨(reqId, e.2), get_eq_some_iff.mp hreq, rfl⟩⟩

open TieringOffloadingManager in
theorem sum_pendingEntries (pending : PendingLoads K) (k : K) :
    ((pendingEntries pending).map (·.2.keys.count k)).sum = total (total (·.keys.count k)) pending := by
  unfold pendingEntries total
  induction pending.entries with
  | nil => rfl
  | cons p rest ih =>
    rw [flatMap_cons, map_append, sum_append, ih, map_cons, sum_cons, map_map]
    rfl

open TieringOffloadingManager in
theorem sum_addPending (pending : PendingLoads K) (tier : ℕ) (reqId : RequestId) (keys : List K)
    (blockIds : List ℕ) (k : K) :
    ((pendingEntries (addPending pending tier reqId keys blockIds)).map (·.2.keys.count k)).sum =
      ((pendingEntries pending).map (·.2.keys.count k)).sum + keys.count k := by
  rw [sum_pendingEntries, sum_pendingEntries]
  unfold addPending
  dsimp only
  set tierPending := (pending.get tier).getD ∅ with htier
  set entry := (tierPending.get reqId).getD { keys := [], blockIds := [], reqId } with hentry
  have houter := total_set (total (·.keys.count k)) pending tier
    (tierPending.set reqId { entry with keys := entry.keys ++ keys, blockIds := entry.blockIds ++ blockIds })
  have hinner := total_set (fun e : PendingPromotion K => e.keys.count k) tierPending reqId
    { entry with keys := entry.keys ++ keys, blockIds := entry.blockIds ++ blockIds }
  have hold : ((pending.get tier).map (total (·.keys.count k))).getD 0 =
      total (fun e : PendingPromotion K => e.keys.count k) tierPending := by
    rw [htier]
    cases pending.get tier <;> rfl
  have hentryCount : ((tierPending.get reqId).map fun e : PendingPromotion K => e.keys.count k).getD 0 =
      entry.keys.count k := by
    rw [hentry]
    cases tierPending.get reqId <;> rfl
  rw [hold] at houter
  rw [hentryCount, count_append] at hinner
  omega

omit [DecidableEq K] in
open TieringOffloadingManager in
theorem mem_addPending {tier : ℕ} {reqId : RequestId} {keys : List K} {blockIds : List ℕ}
    (he : e ∈ pendingEntries (addPending pending tier reqId keys blockIds)) :
    e ∈ pendingEntries pending ∨ ∃ entry : PendingPromotion K,
        ((tier, entry) ∈ pendingEntries pending ∨ entry = { keys := [], blockIds := [], reqId }) ∧
        e.2 = { entry with keys := entry.keys ++ keys, blockIds := entry.blockIds ++ blockIds } := by
  obtain ⟨tierPending, reqId', htier, hreq⟩ := mem_pendingEntries.mp he
  unfold addPending at htier
  rw [get_set] at htier
  split_ifs at htier with hsame
  · cases htier
    rw [get_set] at hreq
    split_ifs at hreq with hreqId
    · refine .inr ⟨_, ?_, (Option.some.inj hreq).symm⟩
      cases hp : pending.get tier with
      | none => exact .inr rfl
      | some d =>
        rw [Option.getD_some]
        cases hd : d.get reqId with
        | none => exact .inr rfl
        | some entry => exact .inl (mem_pendingEntries.mpr ⟨d, reqId, hp, hd⟩)
    left
    cases hp : pending.get tier with
    | none =>
      rw [hp] at hreq
      cases hreq
    | some d =>
      rw [hp, Option.getD_some] at hreq
      exact mem_pendingEntries.mpr ⟨d, reqId', hsame ▸ hp, hreq⟩
  · exact .inl (mem_pendingEntries.mpr ⟨tierPending, reqId', htier, hreq⟩)

end VllmPs.Offload
