import VllmPs.Lib.Table
import VllmPs.Lib.Transition

/-!
# Caches with a recency order

A cache of bounded total size that evicts the least recently used key first. A key may be touched before it is
stored; an eviction that arrives there never ends. Two caches that mirror each other evict the same keys, and
keys that fit into the cache together are not evicted once all of them are touched.
-/

namespace VllmPs.Lib

open List AList

variable {K V W : Type}

/-- Why a value cannot be stored. -/
inductive LruError
  | valueTooLarge
  | nothingToEvict
  /-- The oldest key has no value, and the loop that makes room never ends. -/
  | spins
deriving DecidableEq

/-- A cache: the values with their sizes, and the keys from the least to the most recently used. -/
structure LruCache (K V : Type) where
  maxsize : ℕ
  currsize : ℕ := 0
  data : Table K (V × ℕ) := ∅
  order : List K := []

namespace LruCache

variable [DecidableEq K]
variable (c : LruCache K V)
variable (key : K)

/-- Make a key the most recently used one, whether it is stored or not. -/
def touch : LruCache K V := { c with order := c.order.erase key ++ [key] }

/-- Read a value, which touches its key. -/
def get : LruCache K V × Option V :=
  match c.data.lookup key with
  | none => (c, none)
  | some (value, _) => (c.touch key, some value)

def evict (size : ℕ) : LruCache K V → List K → Except LruError (LruCache K V)
  | c, [] => if c.currsize + size ≤ c.maxsize then .ok { c with order := [] } else .error .nothingToEvict
  | c, key :: rest =>
    if c.currsize + size ≤ c.maxsize then .ok { c with order := key :: rest }
    else
      match c.data.lookup key with
      | none => .error .spins
      | some (_, freed) =>
        evict size { c with data := c.data.erase key, currsize := c.currsize - freed } rest

/-- Store a value under a key that has none. -/
def store (value : V) (size : ℕ) : LruCache K V :=
  { c with data := c.data.insert key (value, size), currsize := c.currsize + size }.touch key

/-- Make room for a value and store it; the cache is written only where a read has found nothing. -/
def setItem (value : V) (size : ℕ) : Except LruError (LruCache K V) :=
  if c.maxsize < size then .error .valueTooLarge
  else do
    let c ← c.evict size c.order
    return c.store key value size

theorem lookup_evict {size : ℕ} (order : List K) {c c' : LruCache K V} (h : c.evict size order = .ok c') (k : K) :
    c'.data.lookup k = c.data.lookup k ∨ c'.data.lookup k = none := by
  induction order generalizing c with
  | nil =>
    unfold evict at h
    split_ifs at h
    cases h
    exact Or.inl rfl
  | cons key rest ih =>
    unfold evict at h
    split_ifs at h
    · cases h
      exact Or.inl rfl
    cases hkey : c.data.lookup key with
    | none => simp [hkey] at h
    | some entry =>
      simp only [hkey] at h
      rcases ih h with hsame | hnone
      · rcases eq_or_ne k key with rfl | hne
        · exact Or.inr (hsame.trans (lookup_erase _ _))
        · exact Or.inl (hsame.trans (lookup_erase_ne hne))
      · exact Or.inr hnone

theorem evict_room {size : ℕ} (order : List K) {c c' : LruCache K V} (h : c.evict size order = .ok c') :
    c'.currsize + size ≤ c'.maxsize := by
  induction order generalizing c with
  | nil =>
    unfold evict at h
    split_ifs at h with hroom
    cases h
    exact hroom
  | cons key rest ih =>
    unfold evict at h
    split_ifs at h with hroom
    · cases h
      exact hroom
    cases hkey : c.data.lookup key with
    | none => simp [hkey] at h
    | some entry =>
      rw [hkey] at h
      exact ih h

/-- A value is stored only where there is room for it. -/
theorem currsize_setItem {c c' : LruCache K V} {key : K} {value : V} {size : ℕ}
    (h : c.setItem key value size = .ok c') : c'.currsize ≤ c'.maxsize := by
  unfold setItem at h
  split_ifs at h
  obtain ⟨evicted, hevict, rfl⟩ := bind_pure_eq_ok.mp h
  exact evict_room _ hevict

theorem lookup_setItem {c c' : LruCache K V} {key : K} {value : V} {size : ℕ}
    (h : c.setItem key value size = .ok c') : c'.data.lookup key = some (value, size) ∧
      ∀ k ≠ key, c'.data.lookup k = c.data.lookup k ∨ c'.data.lookup k = none := by
  unfold setItem at h
  split_ifs at h
  obtain ⟨evicted, hevict, rfl⟩ := bind_pure_eq_ok.mp h
  refine ⟨lookup_insert _, fun k hk => ?_⟩
  rw [store, touch, lookup_insert_ne hk]
  exact lookup_evict _ hevict k

/-! ## Caches of single entries -/

/-- Every value has size one, and the keys in order are the stored ones. -/
structure Units (c : LruCache K V) : Prop where
  nodup : c.order.Nodup
  stored : ∀ k, k ∈ c.order ↔ k ∈ c.data
  currsize : c.currsize = c.order.length
  units : ∀ k entry, c.data.lookup k = some entry → entry.2 = 1

namespace Units

variable {c : LruCache K V} {key : K}

theorem touch (h : c.Units) (hkey : key ∈ c.data) : (c.touch key).Units where
  nodup := (nodup_append_comm.mp (nodup_cons.mpr ⟨h.nodup.not_mem_erase, h.nodup.erase key⟩ :
    ([key] ++ c.order.erase key).Nodup))
  stored k := by
    rw [LruCache.touch, mem_append, mem_singleton, h.nodup.mem_erase_iff, ← h.stored]
    have hmem := (h.stored key).mpr hkey
    grind
  currsize := by
    rw [LruCache.touch, length_append, length_erase_of_mem ((h.stored key).mpr hkey), length_singleton,
      Nat.sub_add_cancel (length_pos_of_mem ((h.stored key).mpr hkey))]
    exact h.currsize
  units := h.units

/-- Without a stored key. -/
theorem remove (h : c.Units) (hkey : key ∈ c.data) :
    Units { c with data := c.data.erase key, currsize := c.currsize - 1, order := c.order.erase key } where
  nodup := h.nodup.erase key
  stored k := by
    rw [h.nodup.mem_erase_iff, AList.mem_erase, h.stored]
  currsize := by
    rw [length_erase_of_mem ((h.stored key).mpr hkey), ← h.currsize]
  units k entry hk := by
    rcases eq_or_ne k key with rfl | hne
    · rw [lookup_erase] at hk
      cases hk
    · exact h.units k entry (lookup_erase_ne hne ▸ hk)

/-- A cache for at least one entry always makes room for one. -/
theorem evict (order : List K) (h : Units { c with order }) (hroom : 1 ≤ c.maxsize) :
    ∃ c', c.evict 1 order = .ok c' ∧ c'.Units ∧ c'.maxsize = c.maxsize ∧ ∀ k ∈ c'.data, k ∈ c.data := by
  induction order generalizing c with
  | nil =>
    have hsize : c.currsize = 0 := h.currsize
    exact ⟨_, if_pos (by omega), h, rfl, fun _ => id⟩
  | cons key rest ih =>
    unfold LruCache.evict
    split_ifs with hfits
    · exact ⟨_, rfl, h, rfl, fun _ => id⟩
    obtain ⟨entry, hentry⟩ := Table.exists_lookup ((h.stored key).mp mem_cons_self)
    have hone := h.units key entry hentry
    have hrest := h.remove ((h.stored key).mp mem_cons_self)
    simp only [erase_cons_head] at hrest
    obtain ⟨c', hevict, hunits, hmax, hsub⟩ :=
      ih (c := { c with data := c.data.erase key, currsize := c.currsize - 1 }) hrest hroom
    simp only [hentry, hone]
    exact ⟨c', hevict, hunits, hmax, fun k hk => (AList.mem_erase.mp (hsub k hk)).2⟩

/-- A cache for at least one entry stores every new key. -/
theorem setItem (h : c.Units) (hroom : 1 ≤ c.maxsize) (hnew : key ∉ c.data) (value : V) :
    ∃ c', c.setItem key value 1 = .ok c' ∧ c'.Units ∧ c'.maxsize = c.maxsize := by
  obtain ⟨evicted, hevict, hunits, hmax, hsub⟩ := evict c.order h hroom
  have hfresh : key ∉ evicted.order := fun hmem => hnew (hsub key ((hunits.stored key).mp hmem))
  refine ⟨evicted.store key value 1, ?_, ⟨?_, fun k => ?_, ?_, fun k entry hk => ?_⟩, hmax⟩
  · rw [LruCache.setItem, if_neg (Nat.not_lt.mpr hroom), hevict]
    rfl
  all_goals simp only [LruCache.store, LruCache.touch, erase_of_not_mem hfresh] at *
  · exact nodup_append_comm.mp (nodup_cons.mpr ⟨hfresh, hunits.nodup⟩ : ([key] ++ evicted.order).Nodup)
  · rw [mem_append, mem_singleton, AList.mem_insert, hunits.stored, or_comm]
  · rw [length_append, length_singleton, hunits.currsize]
  · rcases eq_or_ne k key with rfl | hne
    · rw [lookup_insert] at hk
      exact (Option.some.inj hk) ▸ rfl
    · exact hunits.units k entry (lookup_insert_ne hne ▸ hk)

end Units

/-! ## Mirrored caches -/

/-- Two caches that differ in their values only. -/
structure Mirrors (c : LruCache K V) (d : LruCache K W) : Prop where
  maxsize : d.maxsize = c.maxsize
  currsize : d.currsize = c.currsize
  order : d.order = c.order
  sizes : ∀ key, (d.data.lookup key).map Prod.snd = (c.data.lookup key).map Prod.snd

namespace Mirrors

variable {c c' : LruCache K V} {d : LruCache K W} {key : K}

theorem touch (h : c.Mirrors d) (key : K) : (c.touch key).Mirrors (d.touch key) :=
  ⟨h.maxsize, h.currsize, by simp only [LruCache.touch, h.order], h.sizes⟩

theorem foldl_touch (h : c.Mirrors d) (keys : List K) :
    (keys.foldl LruCache.touch c).Mirrors (keys.foldl LruCache.touch d) := by
  induction keys generalizing c d with
  | nil => exact h
  | cons key rest ih => exact ih (h.touch key)

theorem lookup_eq_none (h : c.Mirrors d) : d.data.lookup key = none ↔ c.data.lookup key = none := by
  have hsizes := h.sizes key
  constructor
  · intro hnone
    rw [hnone] at hsizes
    exact Option.map_eq_none_iff.mp hsizes.symm
  · intro hnone
    rw [hnone] at hsizes
    exact Option.map_eq_none_iff.mp hsizes

theorem evict {size : ℕ} (order : List K) (h : c.Mirrors d) (hevict : c.evict size order = .ok c') :
    ∃ d', d.evict size order = .ok d' ∧ c'.Mirrors d' := by
  induction order generalizing c d with
  | nil =>
    unfold LruCache.evict at hevict ⊢
    split_ifs at hevict with hroom
    cases hevict
    rw [if_pos (by rwa [h.currsize, h.maxsize])]
    exact ⟨_, rfl, h.maxsize, h.currsize, rfl, h.sizes⟩
  | cons key rest ih =>
    unfold LruCache.evict at hevict ⊢
    by_cases hroom : c.currsize + size ≤ c.maxsize
    · rw [if_pos hroom] at hevict
      cases hevict
      rw [if_pos (by rwa [h.currsize, h.maxsize])]
      exact ⟨_, rfl, h.maxsize, h.currsize, rfl, h.sizes⟩
    rw [if_neg hroom] at hevict
    rw [if_neg (by rwa [h.currsize, h.maxsize])]
    have hkey := h.sizes key
    cases hc : c.data.lookup key with
    | none =>
      simp [hc] at hevict
    | some entry =>
      rw [hc] at hkey hevict
      obtain ⟨entry', hd, hsize⟩ := Option.map_eq_some_iff.mp hkey
      rw [hd]
      have herased : Mirrors { c with data := c.data.erase key, currsize := c.currsize - entry.2 }
          { d with data := d.data.erase key, currsize := d.currsize - entry'.2 } := by
        refine ⟨h.maxsize, ?_, h.order, fun other => ?_⟩
        · exact congrArg₂ (· - ·) h.currsize hsize
        rcases eq_or_ne other key with rfl | hne
        · rw [lookup_erase, lookup_erase]
          rfl
        · rw [lookup_erase_ne hne, lookup_erase_ne hne, h.sizes]
      exact ih herased hevict

theorem store (h : c.Mirrors d) (key : K) (v : V) (w : W) (size : ℕ) :
    (c.store key v size).Mirrors (d.store key w size) := by
  refine ⟨h.maxsize, ?_, ?_, fun other => ?_⟩
  · exact congrArg (· + size) h.currsize
  · simp only [LruCache.store, LruCache.touch, h.order]
  simp only [LruCache.store, LruCache.touch]
  rcases eq_or_ne other key with rfl | hne
  · rw [lookup_insert, lookup_insert]
    rfl
  · rw [lookup_insert_ne hne, lookup_insert_ne hne, h.sizes]

theorem setItem (h : c.Mirrors d) {v : V} (w : W) {size : ℕ} (hset : c.setItem key v size = .ok c') :
    ∃ d', d.setItem key w size = .ok d' ∧ c'.Mirrors d' := by
  unfold LruCache.setItem at hset ⊢
  split_ifs at hset with hlarge
  obtain ⟨evicted, hevict, rfl⟩ := bind_pure_eq_ok.mp hset
  obtain ⟨d', hd', hmirrors⟩ := h.evict c.order hevict
  refine ⟨d'.store key w size, ?_, hmirrors.store key v w size⟩
  rw [if_neg (by rwa [h.maxsize]), h.order, hd']
  rfl

end Mirrors

/-! ## Keys that fit together -/

structure Recent (size : K → ℕ) (keys : Finset K) (c : LruCache K V) : Prop where
  nodup : c.order.Nodup
  split : ∃ old new, c.order = old ++ new ∧ (∀ k ∈ old, k ∉ keys ∧ k ∈ c.data) ∧ ∀ k ∈ new, k ∈ keys
  stored : ∀ k ∈ c.data, k ∈ c.order
  sizes : ∀ k entry, c.data.lookup k = some entry → entry.2 = size k
  currsize : c.currsize = c.data.total fun _ entry => entry.2

variable {size : K → ℕ} {keys : Finset K} {c : LruCache K V} {key : K}

theorem Recent.currsize_le (h : c.Recent size keys) {others : Finset K} (hsub : ∀ k ∈ c.data, k ∈ others) :
    c.currsize ≤ ∑ k ∈ others, size k := by
  have hkeys : c.data.total (fun _ entry => entry.2) = ∑ k ∈ c.data.keys.toFinset, size k := by
    rw [sum_toFinset _ c.data.keys_nodup]
    unfold Table.total AList.keys List.keys
    rw [map_map]
    congr 1
    refine map_congr_left fun entry hentry => ?_
    exact h.sizes entry.1 entry.2 (AList.mem_lookup_iff.mpr hentry)
  rw [h.currsize, hkeys]
  refine Finset.sum_le_sum_of_subset fun k hk => hsub k ?_
  exact mem_toFinset.mp hk

theorem Recent.touch (h : c.Recent size keys) (key : K) : (c.touch key).Recent size (insert key keys) := by
  obtain ⟨old, new, horder, hold, hnew⟩ := h.split
  have herase : c.order.erase key = old.filter (· != key) ++ new.filter (· != key) := by
    rw [h.nodup.erase_eq_filter, horder, filter_append]
  refine ⟨?_, ⟨old.filter (· != key), new.filter (· != key) ++ [key], ?_, fun k hk => ?_, fun k hk => ?_⟩,
    fun k hk => ?_, h.sizes, h.currsize⟩
  · change (c.order.erase key ++ [key]).Nodup
    rw [nodup_append_comm, singleton_append, nodup_cons]
    exact ⟨h.nodup.not_mem_erase, h.nodup.erase key⟩
  · change c.order.erase key ++ [key] = _
    rw [herase, append_assoc]
  · obtain ⟨hk, hne⟩ := mem_filter.mp hk
    refine ⟨?_, (hold k hk).2⟩
    rw [Finset.mem_insert]
    exact not_or.mpr ⟨bne_iff_ne.mp hne, (hold k hk).1⟩
  · rcases mem_append.mp hk with hk | hk
    · exact Finset.mem_insert_of_mem (hnew k (mem_of_mem_filter hk))
    · rw [mem_singleton.mp hk]
      exact Finset.mem_insert_self key keys
  · rcases eq_or_ne k key with rfl | hne
    · exact mem_append_right _ mem_cons_self
    · exact mem_append_left _ ((mem_erase_of_ne hne).mpr (h.stored k hk))

theorem Recent.touch_mem (h : c.Recent size keys) (hkey : key ∈ keys) : (c.touch key).Recent size keys := by
  have htouch := h.touch key
  rwa [Finset.insert_eq_of_mem hkey] at htouch

theorem Recent.foldl_touch (h : c.Recent size keys) (touched : List K) :
    (touched.foldl LruCache.touch c).Recent size (touched.toFinset ∪ keys) := by
  induction touched generalizing c keys with
  | nil => simpa using h
  | cons key rest ih =>
    have hrest := ih (h.touch key)
    rwa [Finset.union_insert, ← Finset.insert_union, ← toFinset_cons] at hrest

theorem foldl_touch_data (touched : List K) (c : LruCache K V) :
    (touched.foldl LruCache.touch c).data = c.data ∧ (touched.foldl LruCache.touch c).maxsize = c.maxsize ∧
      (touched.foldl LruCache.touch c).currsize = c.currsize := by
  induction touched generalizing c with
  | nil => exact ⟨rfl, rfl, rfl⟩
  | cons key rest ih => exact ih (c.touch key)

theorem Recent.settle (h : c.Recent size keys) (hall : ∀ k ∈ keys, k ∈ c.data) : c.Recent size ∅ := by
  obtain ⟨old, new, horder, hold, hnew⟩ := h.split
  refine ⟨h.nodup,
    ⟨c.order, [], (append_nil _).symm, fun k hk => ⟨Finset.notMem_empty k, ?_⟩, nofun⟩, h.stored, h.sizes, h.currsize⟩
  rw [horder] at hk
  rcases mem_append.mp hk with hk | hk
  · exact (hold k hk).2
  · exact hall k (hnew k hk)

theorem Recent.room (h : c.Recent size keys) (hkey : key ∈ keys) (hmissing : key ∉ c.data)
    (hfits : ∑ k ∈ keys, size k ≤ c.maxsize) (horder : ∀ k ∈ c.order, k ∈ keys) :
    c.currsize + size key ≤ c.maxsize := by
  have hle : c.currsize ≤ ∑ k ∈ keys.erase key, size k := by
    refine h.currsize_le fun k hk => Finset.mem_erase.mpr ⟨?_, horder k (h.stored k hk)⟩
    rintro rfl
    exact hmissing hk
  have hsum := Finset.sum_erase_add keys size hkey
  omega

/-- Making room evicts none of the keys used last, if they fit together. -/
theorem Recent.evict (order : List K) (h : Recent size keys { c with order := order })
    (hkey : key ∈ keys) (hmissing : key ∉ c.data) (hfits : ∑ k ∈ keys, size k ≤ c.maxsize) :
    ∃ c', c.evict (size key) order = .ok c' ∧ c'.Recent size keys ∧ c'.maxsize = c.maxsize ∧
      key ∉ c'.data ∧ ∀ k ∈ keys, k ∈ c.data → k ∈ c'.data := by
  induction order generalizing c with
  | nil =>
    have hroom := h.room hkey hmissing hfits nofun
    refine ⟨{ c with order := [] }, ?_, h, rfl, hmissing, fun _ _ => id⟩
    exact if_pos hroom
  | cons first rest ih =>
    by_cases hroom : c.currsize + size key ≤ c.maxsize
    · exact ⟨{ c with order := first :: rest }, if_pos hroom, h, rfl, hmissing, fun _ _ => id⟩
    obtain ⟨old, new, horder, hold, hnew⟩ := h.split
    cases old with
    | nil => exact absurd (h.room hkey hmissing hfits (horder ▸ hnew)) hroom
    | cons first' old =>
      -- the oldest key is not among the ones used last, and it is stored
      obtain ⟨rfl, hrest⟩ := List.cons.inj horder
      obtain ⟨hfirst, hstored⟩ := hold first mem_cons_self
      obtain ⟨entry, hentry⟩ := Table.exists_lookup hstored
      have hevict : c.evict (size key) (first :: rest) = LruCache.evict (size key)
            { c with data := c.data.erase first, currsize := c.currsize - entry.2 } rest := by
        conv_lhs => unfold LruCache.evict
        rw [if_neg hroom, hentry]
      have hnodup := nodup_cons.mp h.nodup
      have herased : Recent size keys
          { c with data := c.data.erase first, currsize := c.currsize - entry.2, order := rest } := by
        refine ⟨hnodup.2, ⟨old, new, hrest, fun k hk => ?_, hnew⟩, fun k hk => ?_, fun k e hk => ?_, ?_⟩
        · have hk' := hold k (mem_cons_of_mem _ hk)
          refine ⟨hk'.1, AList.mem_erase.mpr ⟨?_, hk'.2⟩⟩
          rintro rfl
          exact hnodup.1 (hrest ▸ mem_append_left _ hk)
        · obtain ⟨hne, hk⟩ := AList.mem_erase.mp hk
          exact mem_of_ne_of_mem hne (h.stored k hk)
        · rcases eq_or_ne k first with rfl | hne
          · simp [lookup_erase] at hk
          · rw [lookup_erase_ne hne] at hk
            exact h.sizes k e hk
        have htotal := Table.total_erase_of_lookup hentry fun _ e => e.2
        have hcurr := h.currsize
        dsimp only at hcurr htotal ⊢
        omega
      have hmissing' : key ∉ c.data.erase first := fun hmem => hmissing (AList.mem_erase.mp hmem).2
      obtain ⟨c', hc', hrecent, hmax, hmissing'', hkept⟩ :=
        ih (c := { c with data := c.data.erase first, currsize := c.currsize - entry.2 }) herased hmissing'
          hfits
      refine ⟨c', hevict.trans hc', hrecent, hmax, hmissing'', fun k hk hstored' => ?_⟩
      refine hkept k hk (AList.mem_erase.mpr ⟨?_, hstored'⟩)
      rintro rfl
      exact hfirst hk

theorem Recent.store (h : c.Recent size keys) (hkey : key ∈ keys) (hmissing : key ∉ c.data) (v : V) :
    (c.store key v (size key)).Recent size keys := by
  have htouch := h.touch_mem hkey
  obtain ⟨old, new, horder, hold, hnew⟩ := htouch.split
  refine ⟨htouch.nodup, ⟨old, new, horder, fun k hk => ⟨(hold k hk).1, ?_⟩, hnew⟩, fun k hk => ?_,
    fun k entry hk => ?_, ?_⟩
  · exact (mem_insert c.data).mpr (Or.inr (hold k hk).2)
  · rcases (mem_insert c.data).mp hk with rfl | hk
    · exact mem_append_right _ mem_cons_self
    · exact htouch.stored k hk
  · change (c.data.insert key (v, size key)).lookup k = some entry at hk
    rcases eq_or_ne k key with rfl | hne
    · rw [lookup_insert] at hk
      exact (congrArg Prod.snd (Option.some.inj hk)).symm
    · rw [lookup_insert_ne hne] at hk
      exact h.sizes k entry hk
  have htotal := Table.total_insert_of_lookup (AList.lookup_eq_none.mpr hmissing) (fun _ e => e.2) (v, size key)
  have hcurr := h.currsize
  change c.currsize + size key = Table.total _ (c.data.insert key (v, size key))
  omega

theorem Recent.setItem (h : c.Recent size keys) (hkey : key ∈ keys) (hmissing : key ∉ c.data)
    (hfits : ∑ k ∈ keys, size k ≤ c.maxsize) (v : V) :
    ∃ c', c.setItem key v (size key) = .ok c' ∧ c'.Recent size keys ∧ c'.maxsize = c.maxsize ∧
      key ∈ c'.data ∧ ∀ k ∈ keys, k ∈ c.data → k ∈ c'.data := by
  obtain ⟨evicted, hevict, hrecent, hmax, hmissing', hkept⟩ :=
    Recent.evict c.order (c := c) h hkey hmissing hfits
  have hsize : size key ≤ c.maxsize := (Finset.single_le_sum (fun _ _ => Nat.zero_le _) hkey).trans hfits
  refine ⟨evicted.store key v (size key), ?_, ?_, hmax, ?_, fun k hk hk' => ?_⟩
  · unfold LruCache.setItem
    rw [if_neg (Nat.not_lt.mpr hsize), hevict]
    rfl
  · exact hrecent.store hkey hmissing' v
  · exact (mem_insert evicted.data).mpr (Or.inl rfl)
  · exact (mem_insert evicted.data).mpr (Or.inr (hkept k hk hk'))

end LruCache

end VllmPs.Lib
