import VllmPs.Lib.OrderedDict
import VllmPs.PowerSMC.Manager

/-!
# Cache policies of the CPU offloading tier

The two policies, least recently used and adaptive replacement, also change the status of a block in
place. Of both it is proved which key holds which block after every operation, and that an eviction takes
exactly the asked number of distinct unreferenced and unprotected blocks or nothing.
-/

namespace VllmPs.Offload

open Lib List

/-- The value that a `c_int32` keeps of an integer. -/
def int32 (n : ℤ) : ℤ := (n + 2 ^ 31) % 2 ^ 32 - 2 ^ 31

/-- It is in range. -/
theorem int32_mem (n : ℤ) : -2 ^ 31 ≤ int32 n ∧ int32 n < 2 ^ 31 := by
  unfold int32
  omega

/-- It is the integer, if that is in range. -/
theorem int32_of_mem {n : ℤ} (h : -2 ^ 31 ≤ n ∧ n < 2 ^ 31) : int32 n = n := by
  unfold int32
  omega

/-- Sums can be cut to the range once. -/
theorem int32_add (a b : ℤ) : int32 (int32 a + b) = int32 (a + b) := by
  unfold int32
  omega

/-- `BlockStatus`: the reference count of a block, a `c_int32` that is negative while the block is not ready, and its
buffer slot. -/
structure BlockStatus where
  blockId : ℕ
  refCnt : ℤ := -1
  inRange : -2 ^ 31 ≤ refCnt ∧ refCnt < 2 ^ 31 := by decide
deriving DecidableEq

variable (block : BlockStatus)

/-- `is_ready` -/
def BlockStatus.isReady : Bool := decide (0 ≤ block.refCnt)

/-- `ref_cnt = n` -/
def BlockStatus.setRefCnt (n : ℤ) : BlockStatus := { block with refCnt := int32 n, inRange := int32_mem _ }

/-- `ref_cnt += d` -/
def BlockStatus.addRefCnt (d : ℤ) : BlockStatus :=
  { block with refCnt := int32 (block.refCnt + d), inRange := int32_mem _ }

/-- The float operations of the adaptive policy: those of Python with truncation to an integer. -/
class ArcFloat (F : Type) extends PyFloat F where
  toInt : F → ℤ

instance : ArcFloat ℚ where
  toInt x := if 0 ≤ x then x.floor else x.ceil

/-- `max(x, y)` on floats. -/
def floatMax {F : Type} [ArcFloat F] (x y : F) : F := if PyFloat.lt x y then y else x

/-- `min(x, y)` on floats. -/
def floatMin {F : Type} [ArcFloat F] (x y : F) : F := if PyFloat.lt y x then y else x

variable {K F : Type} [DecidableEq K]

/-- Whether a block may be evicted. -/
def evictable (guarded : List K) (entry : K × BlockStatus) : Bool :=
  decide (entry.2.refCnt = 0) && decide (entry.1 ∉ guarded)

/-- Delete the given keys. -/
def eraseAll {α : Type} (d : OrderedDict K α) (keys : List K) : OrderedDict K α :=
  keys.foldl OrderedDict.erase d

/-- `LRUCachePolicy` -/
structure LRUCachePolicy (K : Type) where
  blocks : OrderedDict K BlockStatus

namespace LRUCachePolicy

/-- `touch` -/
def touch (p : LRUCachePolicy K) (keys : List K) : LRUCachePolicy K :=
  ⟨keys.reverse.foldl OrderedDict.moveToEnd p.blocks⟩

/-- `evict` -/
def evict (p : LRUCachePolicy K) (n : ℕ) (guarded : List K) :
    Option (List (K × BlockStatus) × LRUCachePolicy K) :=
  let candidates := (p.blocks.entries.filter (evictable guarded)).take n
  if candidates.length < n then none
  else some (candidates, ⟨eraseAll p.blocks (candidates.map Prod.fst)⟩)

end LRUCachePolicy

/-- `ARCCachePolicy` -/
structure ARCCachePolicy (K F : Type) where
  cacheCapacity : ℕ
  targetT1Size : F
  t1 : OrderedDict K BlockStatus := ∅
  t2 : OrderedDict K BlockStatus := ∅
  b1 : OrderedDict K Unit := ∅
  b2 : OrderedDict K Unit := ∅

namespace ARCCachePolicy

variable (p : ARCCachePolicy K F)

/-- `get` -/
def get (key : K) : Option BlockStatus := (p.t1.get key).or (p.t2.get key)

/-- `insert` -/
def insert (key : K) (block : BlockStatus) : ARCCachePolicy K F :=
  { p with t1 := p.t1.set key block, b1 := p.b1.erase key, b2 := p.b2.erase key }

/-- `remove` -/
def remove (key : K) : ARCCachePolicy K F :=
  if p.t1.contains key then { p with t1 := p.t1.erase key } else { p with t2 := p.t2.erase key }

/-- Change the status of a block. -/
def modify (p : ARCCachePolicy K F) (key : K) (f : BlockStatus → BlockStatus) : ARCCachePolicy K F :=
  if p.t1.contains key then { p with t1 := p.t1.modify key f } else { p with t2 := p.t2.modify key f }

variable [ArcFloat F]
variable (p : ARCCachePolicy K F)

/-- One key of `touch`. -/
def touchOne (key : K) : ARCCachePolicy K F :=
  match p.t1.get key with
  | some block =>
    -- a block that is only prepared to be stored has not been used twice
    if block.isReady then { p with t1 := p.t1.erase key, t2 := p.t2.set key block }
    else { p with t1 := p.t1.moveToEnd key }
  | none =>
    if p.t2.contains key then { p with t2 := p.t2.moveToEnd key }
    else if p.b1.contains key then
      let delta := floatMax 1 ((p.b2.size : F) / (p.b1.size : F))
      { p with
        targetT1Size := floatMin (p.targetT1Size + delta) (p.cacheCapacity : F)
        b1 := p.b1.moveToEnd key }
    else if p.b2.contains key then
      let delta := floatMax 1 ((p.b1.size : F) / (p.b2.size : F))
      { p with
        targetT1Size := floatMax (p.targetT1Size - delta) 0
        b2 := p.b2.moveToEnd key }
    else p

/-- `touch` -/
def touch (keys : List K) : ARCCachePolicy K F :=
  keys.reverse.foldl touchOne p

/-- The next candidate of `evict` and whether it is taken from T1. -/
def nextCandidate (guarded : List K) (virtualT1Size : ℕ) : Option ((K × BlockStatus) × Bool) :=
  let fromT1 :=
    if ArcFloat.toInt p.targetT1Size ≤ virtualT1Size then p.t1.entries.find? (evictable guarded) else none
  match fromT1 with
  | some entry => some (entry, true)
  | none => (p.t2.entries.find? (evictable guarded)).map fun entry => (entry, false)

/-- The candidates of `evict`; those already selected are guarded like the protected ones. -/
def selectCandidates (p : ARCCachePolicy K F) :
    ℕ → List K → ℕ → Option (List ((K × BlockStatus) × Bool))
  | 0, _, _ => some []
  | n + 1, guarded, virtualT1Size =>
    match p.nextCandidate guarded virtualT1Size with
    | none => none
    | some (entry, fromT1) =>
      (p.selectCandidates n (entry.1 :: guarded)
        (if fromT1 then virtualT1Size - 1 else virtualT1Size)).map ((entry, fromT1) :: ·)

/-- Move one selected block to the ghost list of its side. -/
def dropCandidate (candidate : (K × BlockStatus) × Bool) : ARCCachePolicy K F :=
  if candidate.2 then
    { p with t1 := p.t1.erase candidate.1.1, b1 := p.b1.set candidate.1.1 () }
  else { p with t2 := p.t2.erase candidate.1.1, b2 := p.b2.set candidate.1.1 () }

/-- Bound a ghost list by the capacity. -/
def trimGhost (capacity : ℕ) (ghost : OrderedDict K Unit) : OrderedDict K Unit :=
  OrderedDict.popFirst^[ghost.size - capacity] ghost

/-- `evict` -/
def evict (n : ℕ) (guarded : List K) : Option (List (K × BlockStatus) × ARCCachePolicy K F) :=
  if n = 0 then some ([], p)
  else
    match p.selectCandidates n guarded p.t1.size with
    | none => none
    | some candidates =>
      let p := candidates.foldl dropCandidate p
      some (candidates.map Prod.fst,
        { p with b1 := trimGhost p.cacheCapacity p.b1, b2 := trimGhost p.cacheCapacity p.b2 })

end ARCCachePolicy

/-- The policies of `_CACHE_POLICIES`. -/
inductive CachePolicy (K F : Type)
  | lru (p : LRUCachePolicy K)
  | arc (p : ARCCachePolicy K F)

/-- The names of the policies. -/
inductive CachePolicyName
  | lru
  | arc
deriving DecidableEq

namespace CachePolicy

/-- The status of the block under a key. -/
def get : CachePolicy K F → K → Option BlockStatus
  | lru p, key => p.blocks.get key
  | arc p, key => p.get key

/-- `insert` -/
def insert : CachePolicy K F → K → BlockStatus → CachePolicy K F
  | lru p, key, block => lru ⟨p.blocks.set key block⟩
  | arc p, key, block => arc (p.insert key block)

/-- `remove` -/
def remove : CachePolicy K F → K → CachePolicy K F
  | lru p, key => lru ⟨p.blocks.erase key⟩
  | arc p, key => arc (p.remove key)

/-- Change the status of a block. -/
def modify : CachePolicy K F → K → (BlockStatus → BlockStatus) → CachePolicy K F
  | lru p, key, f => lru ⟨p.blocks.modify key f⟩
  | arc p, key, f => arc (p.modify key f)

variable [ArcFloat F]

def new (capacity : ℕ) : CachePolicyName → CachePolicy K F
  | .lru => lru ⟨∅⟩
  | .arc => arc { cacheCapacity := capacity, targetT1Size := 0 }

/-- `touch` -/
def touch : CachePolicy K F → List K → CachePolicy K F
  | lru p, keys => lru (p.touch keys)
  | arc p, keys => arc (p.touch keys)

/-- `evict` -/
def evict : CachePolicy K F → ℕ → List K → Option (List (K × BlockStatus) × CachePolicy K F)
  | lru p, n, guarded => (p.evict n guarded).map fun r => (r.1, lru r.2)
  | arc p, n, guarded => (p.evict n guarded).map fun r => (r.1, arc r.2)

/-- `clear` -/
def clear : CachePolicy K F → CachePolicy K F
  | lru _ => lru ⟨∅⟩
  | arc p => arc { cacheCapacity := p.cacheCapacity, targetT1Size := 0 }

end CachePolicy

/-! ## What the policies keep -/

theorem get_eraseAll {α : Type} (d : OrderedDict K α) (keys : List K) (k : K) :
    (eraseAll d keys).get k = if k ∈ keys then none else d.get k := by
  unfold eraseAll
  induction keys generalizing d with
  | nil => simp
  | cons a rest ih =>
    rw [foldl_cons, ih, OrderedDict.get_erase]
    by_cases hk : k = a <;> simp [hk]

theorem evictable_iff {guarded : List K} {entry : K × BlockStatus} :
    evictable guarded entry = true ↔ entry.2.refCnt = 0 ∧ entry.1 ∉ guarded := by
  simp [evictable]

/-- What a successful eviction takes out of a cache: as many distinct unreferenced and unguarded
blocks as asked for, and nothing else. -/
structure Evicted (before after : K → Option BlockStatus) (n : ℕ) (guarded : List K)
    (taken : List (K × BlockStatus)) : Prop where
  length : taken.length = n
  nodup : (taken.map Prod.fst).Nodup
  held : ∀ e ∈ taken, before e.1 = some e.2
  free : ∀ e ∈ taken, e.2.refCnt = 0
  unguarded : ∀ e ∈ taken, e.1 ∉ guarded
  get : ∀ k, after k = if k ∈ taken.map Prod.fst then none else before k

namespace LRUCachePolicy

theorem get_touch (p : LRUCachePolicy K) (keys : List K) (k : K) :
    (p.touch keys).blocks.get k = p.blocks.get k := by
  unfold touch
  generalize keys.reverse = order
  generalize p.blocks = blocks
  induction order generalizing blocks with
  | nil => rfl
  | cons a rest ih => rw [foldl_cons, ih, OrderedDict.get_moveToEnd]

theorem evict_spec {p p' : LRUCachePolicy K} {n : ℕ} {guarded : List K} {taken : List (K × BlockStatus)}
    (h : p.evict n guarded = some (taken, p')) : Evicted p.blocks.get p'.blocks.get n guarded taken := by
  unfold evict at h
  dsimp only at h
  split_ifs at h with hlen
  cases h
  have hsub : (((p.blocks.entries.filter (evictable guarded)).take n)).Sublist p.blocks.entries :=
    (take_sublist _ _).trans filter_sublist
  have hmem : ∀ e ∈ (p.blocks.entries.filter (evictable guarded)).take n,
      e ∈ p.blocks.entries ∧ evictable guarded e = true :=
    fun e he => mem_filter.mp (mem_of_mem_take he)
  exact {
    length := le_antisymm (length_take_le _ _) (not_lt.mp hlen)
    nodup := p.blocks.nodup.sublist (hsub.map _)
    held := fun e he => OrderedDict.get_eq_some_iff.mpr (hmem e he).1
    free := fun e he => (evictable_iff.mp (hmem e he).2).1
    unguarded := fun e he => (evictable_iff.mp (hmem e he).2).2
    get := get_eraseAll _ _ }

end LRUCachePolicy

namespace ARCCachePolicy

variable {p : ARCCachePolicy K F} {guarded : List K}
variable {p' : ARCCachePolicy K F} {candidate : (K × BlockStatus) × Bool} {virtualT1Size : ℕ}

/-- No block is in both lists. -/
def Disjoint (p : ARCCachePolicy K F) : Prop := ∀ k, p.t1.get k = none ∨ p.t2.get k = none

theorem get_insert (p : ARCCachePolicy K F) (key k : K) (block : BlockStatus) :
    (p.insert key block).get k = if k = key then some block else p.get k := by
  unfold insert get
  rw [OrderedDict.get_set]
  split_ifs <;> rfl

theorem Disjoint.insert (h : p.Disjoint) {key : K} (hkey : p.t2.get key = none)
    (block : BlockStatus) : (p.insert key block).Disjoint := by
  intro k
  by_cases hk : k = key
  · exact .inr (hk ▸ hkey)
  · unfold ARCCachePolicy.insert
    rw [OrderedDict.get_set, if_neg hk]
    exact h k

theorem get_remove (h : p.Disjoint) (key k : K) : (p.remove key).get k = if k = key then none else p.get k := by
  unfold remove get OrderedDict.contains
  by_cases hk : k = key
  · subst hk
    rw [if_pos rfl]
    rcases h k with h1 | h2
    · simp [OrderedDict.get_erase, h1]
    · cases h1 : p.t1.get k <;> simp [OrderedDict.get_erase, h1, h2]
  · rw [if_neg hk]
    split_ifs <;> simp [OrderedDict.get_erase, hk]

theorem Disjoint.of_imp (h : p.Disjoint) (h1 : ∀ k, p.t1.get k = none → p'.t1.get k = none)
    (h2 : ∀ k, p.t2.get k = none → p'.t2.get k = none) : p'.Disjoint :=
  fun k => (h k).imp (h1 k) (h2 k)

theorem Disjoint.remove (h : p.Disjoint) (key : K) : (p.remove key).Disjoint := by
  have hle : ∀ k, ∀ d : OrderedDict K BlockStatus, d.get k = none → (d.erase key).get k = none := by
    intro k d hd
    rw [OrderedDict.get_erase, hd, ite_self]
  unfold ARCCachePolicy.remove
  split_ifs
  · exact h.of_imp (fun k => hle k _) fun _ => id
  · exact h.of_imp (fun _ => id) fun k => hle k _

theorem get_modify (p : ARCCachePolicy K F) (key k : K) (f : BlockStatus → BlockStatus) :
    (p.modify key f).get k = if k = key then (p.get k).map f else p.get k := by
  unfold modify get OrderedDict.contains
  by_cases hk : k = key
  · subst hk
    rw [if_pos rfl]
    cases h1 : p.t1.get k with
    | some b => simp [OrderedDict.get_modify, h1]
    | none => simp [OrderedDict.get_modify, h1]
  · rw [if_neg hk]
    split_ifs <;> simp [OrderedDict.get_modify, hk]

theorem Disjoint.modify (h : p.Disjoint) (key : K)
    (f : BlockStatus → BlockStatus) : (p.modify key f).Disjoint := by
  have hle : ∀ k, ∀ d : OrderedDict K BlockStatus, d.get k = none → (d.modify key f).get k = none := by
    intro k d hd
    rw [OrderedDict.get_modify, hd, Option.map_none, ite_self]
  unfold ARCCachePolicy.modify
  split_ifs
  · exact h.of_imp (fun k => hle k _) fun _ => id
  · exact h.of_imp (fun _ => id) fun k => hle k _

variable [ArcFloat F] {candidates : List ((K × BlockStatus) × Bool)} {n : ℕ}

theorem touchOne_spec (h : p.Disjoint) (key : K) :
    (p.touchOne key).Disjoint ∧ ∀ k, (p.touchOne key).get k = p.get k := by
  unfold touchOne
  split
  next block hblock =>
    have h2 : p.t2.get key = none := (h key).resolve_left (by rw [hblock]; nofun)
    split_ifs
    · constructor
      · intro k
        rw [OrderedDict.get_erase, OrderedDict.get_set]
        by_cases hk : k = key
        · exact .inl (if_pos hk)
        · rw [if_neg hk, if_neg hk]
          exact h k
      intro k
      unfold get
      rw [OrderedDict.get_erase, OrderedDict.get_set]
      by_cases hk : k = key
      · rw [if_pos hk, if_pos hk, hk, hblock]
        rfl
      · rw [if_neg hk, if_neg hk]
    · exact ⟨h.of_imp (fun k => by simp) fun _ => id, fun k => by simp [get]⟩
  next =>
    split_ifs
    · exact ⟨h.of_imp (fun _ => id) fun k => by simp, fun k => by simp [get]⟩
    all_goals exact ⟨h, fun _ => rfl⟩

theorem touch_spec (h : p.Disjoint) (keys : List K) :
    (p.touch keys).Disjoint ∧ ∀ k, (p.touch keys).get k = p.get k := by
  unfold touch
  generalize keys.reverse = order
  induction order generalizing p with
  | nil => exact ⟨h, fun _ => rfl⟩
  | cons a rest ih =>
    obtain ⟨hone, hget⟩ := touchOne_spec h a
    exact ⟨(ih hone).1, fun k => ((ih hone).2 k).trans (hget k)⟩

/-- Where a candidate of an eviction stands. -/
def Stands (p : ARCCachePolicy K F) (candidate : (K × BlockStatus) × Bool) : Prop :=
  (if candidate.2 then p.t1 else p.t2).get candidate.1.1 = some candidate.1.2

omit [ArcFloat F] in
theorem Stands.get (h : p.Disjoint) (hc : p.Stands candidate) : p.get candidate.1.1 = some candidate.1.2 := by
  unfold Stands at hc
  unfold ARCCachePolicy.get
  split_ifs at hc
  · rw [hc, Option.some_or]
  · have h1 : p.t1.get candidate.1.1 = none := (h _).resolve_right (by simp [hc])
    rw [h1, Option.none_or, hc]

theorem nextCandidate_spec (h : p.nextCandidate guarded virtualT1Size = some candidate) :
    p.Stands candidate ∧ evictable guarded candidate.1 = true := by
  have hfind : ∀ (d : OrderedDict K BlockStatus) e, d.entries.find? (evictable guarded) = some e →
      d.get e.1 = some e.2 ∧ evictable guarded e = true := fun d e he =>
    ⟨OrderedDict.get_eq_some_iff.mpr (mem_of_find?_eq_some he), List.find?_some he⟩
  unfold nextCandidate at h
  dsimp only at h
  split at h
  next entry hentry =>
    cases h
    split_ifs at hentry
    exact hfind p.t1 entry hentry
  next =>
    obtain ⟨entry, hentry, rfl⟩ := Option.map_eq_some_iff.mp h
    exact hfind p.t2 entry hentry

theorem selectCandidates_spec (h : p.selectCandidates n guarded virtualT1Size = some candidates) :
    candidates.length = n ∧ (candidates.map (·.1.1)).Nodup ∧
      ∀ c ∈ candidates, p.Stands c ∧ evictable guarded c.1 = true := by
  induction n generalizing guarded virtualT1Size candidates with
  | zero =>
    cases h
    exact ⟨rfl, nodup_nil, by simp⟩
  | succ n ih =>
    unfold selectCandidates at h
    split at h
    · cases h
    next entry fromT1 hnext =>
      obtain ⟨rest, hrest, rfl⟩ := Option.map_eq_some_iff.mp h
      obtain ⟨hlen, hnodup, hall⟩ := ih hrest
      have hother : ∀ c ∈ rest, c.1.1 ≠ entry.1 ∧ evictable guarded c.1 = true := by
        intro c hc
        obtain ⟨hzero, hguarded⟩ := evictable_iff.mp (hall c hc).2
        obtain ⟨hne, hout⟩ := not_or.mp (mem_cons.not.mp hguarded)
        exact ⟨hne, evictable_iff.mpr ⟨hzero, hout⟩⟩
      refine ⟨by rw [length_cons, hlen], ?_, ?_⟩
      · rw [map_cons, nodup_cons]
        refine ⟨fun hin => ?_, hnodup⟩
        obtain ⟨c, hc, heq⟩ := mem_map.mp hin
        exact (hother c hc).1 heq
      · intro c hc
        rcases mem_cons.mp hc with rfl | hc
        · exact nextCandidate_spec hnext
        · exact ⟨(hall c hc).1, (hother c hc).2⟩

omit [ArcFloat F] in
theorem dropCandidate_lists (h : p.Disjoint) (hc : p.Stands candidate) :
    (p.dropCandidate candidate).t1 = (p.remove candidate.1.1).t1 ∧
      (p.dropCandidate candidate).t2 = (p.remove candidate.1.1).t2 := by
  unfold Stands at hc
  unfold dropCandidate remove OrderedDict.contains
  split_ifs at hc ⊢ with hside hin hin
  · exact ⟨rfl, rfl⟩
  · simp [hc] at hin
  · simp [(h candidate.1.1).resolve_right (by simp [hc])] at hin
  · exact ⟨rfl, rfl⟩

omit [ArcFloat F] in
/-- Distinct candidates are dropped one after the other, which keeps the lists apart and whatever else
dropping one of them keeps. -/
theorem foldl_dropCandidate {I : ARCCachePolicy K F → Prop}
    (hstep : ∀ p c, p.Disjoint → p.Stands c → I p → I (p.dropCandidate c)) (hI : I p) (h : p.Disjoint)
    (hnodup : (candidates.map (·.1.1)).Nodup) (hall : ∀ c ∈ candidates, p.Stands c) :
    I (candidates.foldl dropCandidate p) ∧ (candidates.foldl dropCandidate p).Disjoint ∧
      ∀ k, (candidates.foldl dropCandidate p).get k = if k ∈ candidates.map (·.1.1) then none else p.get k := by
  induction candidates generalizing p with
  | nil => exact ⟨hI, h, fun k => by simp⟩
  | cons c rest ih =>
    have hc := hall c mem_cons_self
    obtain ⟨h1, h2⟩ := dropCandidate_lists h hc
    have hdisjoint : (p.dropCandidate c).Disjoint := fun k => by
      rw [h1, h2]
      exact h.remove c.1.1 k
    obtain ⟨hnotMem, hnodup⟩ := nodup_cons.mp hnodup
    have hrest : ∀ d ∈ rest, (p.dropCandidate c).Stands d := fun d hd => by
      have hne : d.1.1 ≠ c.1.1 := fun heq => hnotMem (mem_map.mpr ⟨d, hd, heq⟩)
      have hd := hall d (mem_cons_of_mem _ hd)
      unfold Stands dropCandidate at *
      split_ifs at hd ⊢ <;> simpa [OrderedDict.get_erase, hne] using hd
    obtain ⟨hI', hdisjoint', hget⟩ := ih (hstep p c h hc hI) hdisjoint hnodup hrest
    refine ⟨hI', hdisjoint', fun k => ?_⟩
    have hone : (p.dropCandidate c).get k = (p.remove c.1.1).get k := by
      unfold get
      rw [h1, h2]
    rw [foldl_cons, hget, hone, get_remove h, map_cons]
    simp only [mem_cons, ite_or]
    split_ifs <;> rfl

theorem evict_spec (hp : p.Disjoint)
    {taken : List (K × BlockStatus)} (h : p.evict n guarded = some (taken, p')) :
    p'.Disjoint ∧ Evicted p.get p'.get n guarded taken := by
  unfold evict at h
  split_ifs at h with hn
  · cases h
    exact ⟨hp, hn.symm, nodup_nil, by simp, by simp, by simp, fun k => by simp⟩
  split at h
  · cases h
  next candidates hselect =>
    cases h
    obtain ⟨hlen, hnodup, hall⟩ := selectCandidates_spec hselect
    obtain ⟨-, hdisjoint, hget⟩ := foldl_dropCandidate (I := fun _ => True) (fun _ _ _ _ => id) trivial hp hnodup
      fun c hc => (hall c hc).1
    have htaken {e : K × BlockStatus} (he : e ∈ candidates.map Prod.fst) :
        p.get e.1 = some e.2 ∧ evictable guarded e = true := by
      obtain ⟨c, hc, rfl⟩ := mem_map.mp he
      exact ⟨(hall c hc).1.get hp, (hall c hc).2⟩
    refine ⟨hdisjoint, by rw [length_map, hlen], by rwa [map_map], fun e he => (htaken he).1,
      fun e he => (evictable_iff.mp (htaken he).2).1, fun e he => (evictable_iff.mp (htaken he).2).2, ?_⟩
    rw [map_map]
    exact hget

end ARCCachePolicy

namespace CachePolicy

variable {p : CachePolicy K F} {key : K}

/-- The lists of an adaptive policy hold different blocks. -/
def Sound : CachePolicy K F → Prop
  | lru _ => True
  | arc p => p.Disjoint

/-- Whether a block may be inserted under a key: it is not in the frequent list. -/
def Insertable : CachePolicy K F → K → Prop
  | lru _, _ => True
  | arc p, key => p.t2.get key = none

theorem Insertable.of_get_eq_none (h : p.get key = none) : p.Insertable key := by
  cases p with
  | lru p => trivial
  | arc p => exact (Option.or_eq_none_iff.mp h).2

theorem Insertable.insert (h : p.Insertable key) (key' : K)
    (block : BlockStatus) : (p.insert key' block).Insertable key := by
  cases p with
  | lru p => trivial
  | arc p => exact h

@[simp] theorem get_insert (p : CachePolicy K F) (key k : K) (block : BlockStatus) :
    (p.insert key block).get k = if k = key then some block else p.get k := by
  cases p with
  | lru p => exact OrderedDict.get_set _ _ _ _
  | arc p => exact p.get_insert key k block

theorem Sound.insert (h : p.Sound) (hkey : p.Insertable key)
    (block : BlockStatus) : (p.insert key block).Sound := by
  cases p with
  | lru p => trivial
  | arc p => exact ARCCachePolicy.Disjoint.insert h hkey block

theorem get_remove (h : p.Sound) (key k : K) : (p.remove key).get k = if k = key then none else p.get k := by
  cases p with
  | lru p => exact OrderedDict.get_erase _ _ _
  | arc p => exact ARCCachePolicy.get_remove h key k

theorem Sound.remove (h : p.Sound) (key : K) : (p.remove key).Sound := by
  cases p with
  | lru p => trivial
  | arc p => exact ARCCachePolicy.Disjoint.remove h key

@[simp] theorem get_modify (p : CachePolicy K F) (key k : K) (f : BlockStatus → BlockStatus) :
    (p.modify key f).get k = if k = key then (p.get k).map f else p.get k := by
  cases p with
  | lru p => exact OrderedDict.get_modify _ _ _ _
  | arc p => exact p.get_modify key k f

theorem Sound.modify (h : p.Sound) (key : K) (f : BlockStatus → BlockStatus) : (p.modify key f).Sound := by
  cases p with
  | lru p => trivial
  | arc p => exact ARCCachePolicy.Disjoint.modify h key f

variable [ArcFloat F]

theorem get_touch (h : p.Sound) (keys : List K) (k : K) : (p.touch keys).get k = p.get k := by
  cases p with
  | lru p => exact p.get_touch keys k
  | arc p => exact (ARCCachePolicy.touch_spec h keys).2 k

theorem Sound.touch (h : p.Sound) (keys : List K) : (p.touch keys).Sound := by
  cases p with
  | lru p => trivial
  | arc p => exact (ARCCachePolicy.touch_spec h keys).1

theorem evict_spec {p' : CachePolicy K F} (hp : p.Sound) {n : ℕ} {guarded : List K}
    {taken : List (K × BlockStatus)} (h : p.evict n guarded = some (taken, p')) :
    p'.Sound ∧ Evicted p.get p'.get n guarded taken := by
  cases p with
  | lru p =>
    obtain ⟨⟨taken', q⟩, hq, heq⟩ := Option.map_eq_some_iff.mp h
    cases heq
    exact ⟨trivial, LRUCachePolicy.evict_spec hq⟩
  | arc p =>
    obtain ⟨⟨taken', q⟩, hq, heq⟩ := Option.map_eq_some_iff.mp h
    cases heq
    exact ARCCachePolicy.evict_spec hp hq

@[simp] theorem get_new (capacity : ℕ) (name : CachePolicyName) (k : K) :
    (new capacity name : CachePolicy K F).get k = none := by
  cases name <;> rfl

theorem Sound.new (capacity : ℕ) (name : CachePolicyName) : (new capacity name : CachePolicy K F).Sound := by
  cases name with
  | lru => trivial
  | arc => exact fun _ => .inl rfl

@[simp] theorem get_clear (p : CachePolicy K F) (k : K) : p.clear.get k = none := by
  cases p <;> rfl

theorem Sound.clear (p : CachePolicy K F) : p.clear.Sound := by
  cases p with
  | lru p => trivial
  | arc p => exact fun _ => .inl rfl

end CachePolicy

end VllmPs.Offload
