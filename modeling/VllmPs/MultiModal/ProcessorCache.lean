import Mathlib.Data.List.Sort
import VllmPs.Lib.LruCache

/-!
# Mirrored multimodal caches

The front end keeps the keys and sizes of the multimodal items it has sent, the engine the items. Both
caches are touched and written in the order in which each side sees the items: by modality in the front
end, before the request is validated, by position in the engine.
-/

namespace VllmPs.MultiModal

open Lib List

variable {M H P : Type} [DecidableEq M] [DecidableEq H]
variable {cache : LruCache H P}
variable {A : Type}

/-- What the caches raise. -/
inductive MmError
  /-- Cache miss but data is not provided. -/
  | dataNotProvided
  /-- Expected a cached item. -/
  | expectedCachedItem
  | storage (error : LruError)
deriving DecidableEq

structure MmItem (H P : Type) where
  hash : H
  data : Option P
deriving DecidableEq

/-- The multimodal part of a request: the items and the offsets of their placeholders by modality, and
whether the input processor accepts the request after it was processed. -/
structure MmRequest (M H P : Type) where
  items : List (M × List (MmItem H P))
  modalities : (items.map Prod.fst).Nodup
  positions : List (M × List ℕ)
  accepted : Bool

namespace MmRequest

def flatItems (r : MmRequest M H P) : List (MmItem H P) := r.items.flatMap Prod.snd

def mmHashes (r : MmRequest M H P) : List H := r.flatItems.map MmItem.hash

end MmRequest

/-- The keys of a dictionary of lists: a modality and an index. -/
def flatIdxs (table : List (M × List A)) : List (M × ℕ) :=
  table.flatMap fun entry => (List.range entry.2.length).map fun idx => (entry.1, idx)

/-- `argsort_mm_positions`: a stable sort by offset. -/
def argsortMmPositions (positions : List (M × List ℕ)) : List (M × ℕ) :=
  let flat := positions.flatMap fun entry => entry.2.zipIdx.map fun (offset, idx) => (entry.1, idx, offset)
  (flat.insertionSort fun a b => a.2.2 ≤ b.2.2).map fun item => (item.1, item.2.1)

/-! ## The front end -/

variable (itemSize : H → ℕ)

/-- `MultiModalProcessorSenderCache.get_and_update_item`: the data of an item that is found is cleared. -/
def senderGetAndUpdateItem (cache : LruCache H Unit) (mmHash : H) (mmItem : Option P) :
    Except MmError (LruCache H Unit × Option P) :=
  match cache.get mmHash with
  | (cache, some _) => .ok (cache, none)
  | (cache, none) =>
    match mmItem with
    | none => .error .expectedCachedItem
    | some data =>
      match cache.setItem mmHash () (itemSize mmHash) with
      | .ok cache => .ok (cache, some data)
      | .error e => .error (.storage e)

/-- The state of `_merge_mm_kwargs`; what was done before it raises stays done. -/
structure Merge (H P : Type) where
  cache : LruCache H Unit
  mergedKwargs : List (Option P) := []
  raised : Option MmError := none

/-- One round of the loop of `_merge_mm_kwargs`. -/
def Merge.item (itemSize : H → ℕ) (isCached : H → Bool) (m : Merge H P) (item : MmItem H P) : Merge H P :=
  if m.raised.isSome then m
  else
    let missing := if isCached item.hash then none else item.data
    match senderGetAndUpdateItem itemSize m.cache item.hash missing with
    | .ok (cache, kwargs) => { m with cache, mergedKwargs := m.mergedKwargs ++ [kwargs] }
    | .error e => { m with raised := some e }

/-- `_merge_mm_kwargs`, given what was cached when the missing items were looked up. -/
def mergeMmKwargs (cache : LruCache H Unit) (r : MmRequest M H P) : Merge H P :=
  let isCached := fun mmHash => decide (mmHash ∈ cache.data)
  r.flatItems.foldl (Merge.item itemSize isCached) { cache := r.mmHashes.foldl LruCache.touch cache }

def missesData (cache : LruCache H Unit) (r : MmRequest M H P) : Bool :=
  r.flatItems.any fun item => decide (item.hash ∉ cache.data) && item.data.isNone

def mmFeatures (r : MmRequest M H P) (mergedKwargs : List (Option P)) : Option (List (H × Option P)) :=
  (argsortMmPositions r.positions).mapM fun idx =>
    ((flatIdxs r.items).zip (r.mmHashes.zip mergedKwargs)).lookup idx

/-! ## The engine -/

/-- `MultiModalReceiverCache.get_and_update_item` -/
def receiverGetAndUpdateItem (cache : LruCache H P) (mmHash : H) (mmItem : Option P) :
    Except MmError (LruCache H P × P) :=
  match cache.get mmHash with
  | (cache, some cached) => .ok (cache, cached)
  | (cache, none) =>
    match mmItem with
    | none => .error .expectedCachedItem
    | some data =>
      match cache.setItem mmHash data (itemSize mmHash) with
      | .ok cache => .ok (cache, data)
      | .error e => .error (.storage e)

/-- One round of the second loop of `get_and_update_features`. -/
def updateFeature (state : LruCache H P × List P) (feature : H × Option P) :
    Except MmError (LruCache H P × List P) := do
  let updated ← receiverGetAndUpdateItem itemSize state.1 feature.1 feature.2
  return (updated.1, state.2 ++ [updated.2])

/-- `get_and_update_features`: every item is touched before the first one is updated. -/
def getAndUpdateFeatures (cache : LruCache H P) (features : List (H × Option P)) :
    Except MmError (LruCache H P × List P) :=
  features.foldlM (updateFeature itemSize) ((features.map Prod.fst).foldl LruCache.touch cache, [])

/-! ## Both sides -/

structure Caches (H P : Type) where
  sender : LruCache H Unit
  receiver : LruCache H P
  sent : List (List (H × Option P)) := []

/-- The front end takes a request, or the engine handles the next one sent. -/
inductive CacheAction (M H P : Type)
  | request (r : MmRequest M H P)
  | handle

namespace Caches

/-- The empty caches of one capacity. -/
def start (capacity : ℕ) : Caches H P where
  sender := { maxsize := capacity }
  receiver := { maxsize := capacity }

variable (itemSize : H → ℕ)
variable (s : Caches H P)

/-- The front end processes a request and sends it if it is accepted. -/
def request (r : MmRequest M H P) : Except MmError (Caches H P) :=
  if missesData s.sender r then .ok s
  else
    let merge := mergeMmKwargs itemSize s.sender r
    match merge.raised with
    -- the front end does nothing more
    | some (.storage .spins) => .error (.storage .spins)
    | some _ => .ok { s with sender := merge.cache }
    | none =>
      match if r.accepted then mmFeatures r merge.mergedKwargs else none with
      | none => .ok { s with sender := merge.cache }
      | some features => .ok { s with sender := merge.cache, sent := s.sent ++ [features] }

/-- The engine handles the request that was sent first. -/
def handle : Except MmError (Caches H P) :=
  match s.sent with
  | [] => .ok s
  | features :: rest => do
    let updated ← getAndUpdateFeatures itemSize s.receiver features
    return { s with receiver := updated.1, sent := rest }

def step : CacheAction M H P → Except MmError (Caches H P)
  | .request r => s.request itemSize r
  | .handle => s.handle itemSize

def Mirrorable : CacheAction M H P → Prop
  | .request r => missesData s.sender r = true ∨
      r.accepted = true ∧ argsortMmPositions r.positions = flatIdxs r.items ∧
        ∑ mmHash ∈ r.mmHashes.toFinset, itemSize mmHash ≤ s.sender.maxsize
  | .handle => True

instance (itemSize : H → ℕ) (s : Caches H P) (a : CacheAction M H P) : Decidable (s.Mirrorable itemSize a) :=
  match a with
  | .request _ => inferInstanceAs (Decidable (_ ∨ _))
  | .handle => inferInstanceAs (Decidable True)

end Caches

/-! ## One request on both sides -/

variable {itemSize : H → ℕ} {keys : Finset H} {m : Merge H P} {B : Type}

omit [DecidableEq M] in
/-- A request that misses no data has the data of every item that is not cached. -/
theorem data_of_missing {c : LruCache H Unit} {r : MmRequest M H P} (h : missesData c r = false) :
    ∀ item ∈ r.flatItems, decide (item.hash ∈ c.data) = false → item.data.isSome = true := by
  intro item hitem hmissing
  have hnot := any_eq_false.mp h item hitem
  simp only [of_decide_eq_false hmissing, not_false_eq_true, decide_true, Bool.true_and,
    Option.isNone_iff_eq_none] at hnot
  exact Option.isSome_iff_ne_none.mpr hnot

theorem item_mirrored {isCached : H → Bool} {item : MmItem H P}
    (hraised : m.raised = none) (hrecent : m.cache.Recent itemSize keys)
    (hfits : ∑ k ∈ keys, itemSize k ≤ m.cache.maxsize) (hkey : item.hash ∈ keys)
    (hcached : isCached item.hash = true → item.hash ∈ m.cache.data)
    (hdata : isCached item.hash = false → item.data.isSome = true) (hmirrors : m.cache.Mirrors cache) :
    ∃ next kwargs cache' data, m.item itemSize isCached item =
          { cache := next, mergedKwargs := m.mergedKwargs ++ [kwargs], raised := none } ∧
        receiverGetAndUpdateItem itemSize cache item.hash kwargs = .ok (cache', data) ∧
        next.Mirrors cache' ∧ next.Recent itemSize keys ∧ next.maxsize = m.cache.maxsize ∧
        item.hash ∈ next.data ∧ ∀ k ∈ keys, k ∈ m.cache.data → k ∈ next.data := by
  unfold Merge.item senderGetAndUpdateItem receiverGetAndUpdateItem LruCache.get
  rw [hraised]
  cases hlookup : m.cache.data.lookup item.hash with
  | some entry =>
    have hstored : item.hash ∈ m.cache.data := Table.mem_of_lookup hlookup
    obtain ⟨entry', hentry', -⟩ := Option.map_eq_some_iff.mp
      ((hmirrors.sizes item.hash).trans (congrArg (Option.map Prod.snd) hlookup))
    rw [hentry']
    exact ⟨m.cache.touch item.hash, none, cache.touch item.hash, entry'.1, rfl, rfl, hmirrors.touch _,
      hrecent.touch_mem hkey, rfl, hstored, fun _ _ => id⟩
  | none =>
    have hmissing : item.hash ∉ m.cache.data := AList.lookup_eq_none.mp hlookup
    have hnot : isCached item.hash = false := Bool.eq_false_iff.mpr fun h => hmissing (hcached h)
    obtain ⟨data, hsome⟩ := Option.isSome_iff_exists.mp (hdata hnot)
    obtain ⟨next, hset, hrecent', hmax, hstored, hkept⟩ := hrecent.setItem hkey hmissing hfits ()
    obtain ⟨cache', hset', hmirrors'⟩ := hmirrors.setItem data hset
    rw [hmirrors.lookup_eq_none.mpr hlookup]
    refine ⟨next, some data, cache', data, ?_, ?_, hmirrors', hrecent', hmax, hstored, hkept⟩
    · simp [hnot, hsome, hset]
    · simp [hset']

/-- All items of a request are merged and updated alike. -/
theorem items_mirrored (isCached : H → Bool) (items : List (MmItem H P))
    (done : List P) (hraised : m.raised = none)
    (hrecent : m.cache.Recent itemSize keys) (hfits : ∑ k ∈ keys, itemSize k ≤ m.cache.maxsize)
    (hkeys : ∀ item ∈ items, item.hash ∈ keys)
    (hcached : ∀ item ∈ items, isCached item.hash = true → item.hash ∈ m.cache.data)
    (hdata : ∀ item ∈ items, isCached item.hash = false → item.data.isSome = true)
    (hmirrors : m.cache.Mirrors cache) :
    ∃ next kwargs cache' data, items.foldl (Merge.item itemSize isCached) m =
          { cache := next, mergedKwargs := m.mergedKwargs ++ kwargs, raised := none } ∧
        kwargs.length = items.length ∧
        ((items.map MmItem.hash).zip kwargs).foldlM (updateFeature itemSize) (cache, done) =
          .ok (cache', data) ∧
        next.Mirrors cache' ∧ next.Recent itemSize keys ∧ next.maxsize = m.cache.maxsize ∧
        (∀ item ∈ items, item.hash ∈ next.data) ∧ ∀ k ∈ keys, k ∈ m.cache.data → k ∈ next.data := by
  induction items generalizing m cache done with
  | nil =>
    refine ⟨m.cache, [], cache, done, ?_, rfl, rfl, hmirrors, hrecent, rfl, nofun, fun _ _ => id⟩
    rw [foldl_nil, append_nil, ← hraised]
  | cons item rest ih =>
    obtain ⟨middle, kwargs, cache₁, data, hitem, hupdate, hmirrors₁, hrecent₁, hmax₁, hstored₁, hkept₁⟩ :=
      item_mirrored hraised hrecent hfits (hkeys item mem_cons_self) (hcached item mem_cons_self)
        (hdata item mem_cons_self) hmirrors
    obtain ⟨next, others, cache', data', hrest, hlength, hupdates, hmirrors', hrecent', hmax, hstored, hkept⟩ :=
      ih (m := { cache := middle, mergedKwargs := m.mergedKwargs ++ [kwargs], raised := none })
        (done ++ [data]) rfl hrecent₁ (hmax₁ ▸ hfits)
        (fun i hi => hkeys i (mem_cons_of_mem item hi))
        (fun i hi h => hkept₁ i.hash (hkeys i (mem_cons_of_mem item hi))
          (hcached i (mem_cons_of_mem item hi) h))
        (fun i hi => hdata i (mem_cons_of_mem item hi)) hmirrors₁
    refine ⟨next, kwargs :: others, cache', data', ?_, ?_, ?_, hmirrors', hrecent', hmax.trans hmax₁, ?_, ?_⟩
    · rw [foldl_cons, hitem, hrest, append_assoc, singleton_append]
    · rw [length_cons, length_cons, hlength]
    · rw [map_cons, zip_cons_cons, foldlM_cons_eq_ok]
      exact ⟨(cache₁, done ++ [data]), by rw [updateFeature, hupdate]; rfl, hupdates⟩
    · intro i hi
      rcases mem_cons.mp hi with rfl | hi
      · exact hkept i.hash (hkeys i mem_cons_self) hstored₁
      · exact hstored i hi
    · exact fun k hk h => hkept k hk (hkept₁ k hk h)

theorem lookup_eq_some_of_mem [BEq A] [LawfulBEq A] {pairs : List (A × B)}
    (hnodup : (pairs.map Prod.fst).Nodup) {a : A} {b : B} (hmem : (a, b) ∈ pairs) :
    pairs.lookup a = some b := by
  induction pairs with
  | nil => cases hmem
  | cons pair rest ih =>
    obtain ⟨hnot, hrest⟩ := nodup_cons.mp hnodup
    rcases mem_cons.mp hmem with rfl | hmem
    · exact lookup_cons_self
    · have hne : a ≠ pair.1 := fun h => hnot (h ▸ mem_map_of_mem (f := Prod.fst) hmem)
      rw [lookup_cons, beq_eq_false_iff_ne.mpr hne]
      exact ih hrest hmem

theorem mapM_eq_some_of_forall₂ {f : A → Option B} {as : List A} {bs : List B}
    (h : List.Forall₂ (fun a b => f a = some b) as bs) : as.mapM f = some bs := by
  induction h with
  | nil => rfl
  | cons hhead _ ih => rw [mapM_cons, hhead, ih]; rfl

omit [DecidableEq M] in
theorem flatIdxs_nodup {table : List (M × List A)} (h : (table.map Prod.fst).Nodup) :
    (flatIdxs table).Nodup := by
  refine nodup_flatMap.mpr ⟨fun entry _ => ?_, ?_⟩
  · exact nodup_range.map fun _ _ hpair => (Prod.mk.inj hpair).2
  rw [List.Nodup, pairwise_map] at h
  refine h.imp fun hne => ?_
  intro idx hleft hright
  obtain ⟨_, _, rfl⟩ := mem_map.mp hleft
  obtain ⟨_, _, hpair⟩ := mem_map.mp hright
  exact hne (Prod.mk.inj hpair).1.symm

omit [DecidableEq M] in
theorem flatIdxs_length (table : List (M × List A)) :
    (flatIdxs table).length = (table.flatMap Prod.snd).length := by
  unfold flatIdxs
  simp only [length_flatMap, length_map, length_range]

omit [DecidableEq H] in
theorem mmFeatures_of_inOrder {r : MmRequest M H P} {kwargs : List (Option P)}
    (horder : argsortMmPositions r.positions = flatIdxs r.items)
    (hlength : kwargs.length = r.flatItems.length) : mmFeatures r kwargs = some (r.mmHashes.zip kwargs) := by
  have hidxs : (r.mmHashes.zip kwargs).length = (flatIdxs r.items).length := by
    rw [length_zip, hlength, flatIdxs_length, MmRequest.mmHashes, length_map, min_self]
    rfl
  unfold mmFeatures
  rw [horder]
  refine mapM_eq_some_of_forall₂ (forall₂_iff_zip.mpr ⟨hidxs.symm, fun hmem => ?_⟩)
  refine lookup_eq_some_of_mem ?_ hmem
  rw [map_fst_zip hidxs.symm.le]
  exact flatIdxs_nodup r.modalities

/-! ## Runs -/

namespace Caches

/-- The engine handles all requests that are still to arrive. -/
def replay (itemSize : H → ℕ) (receiver : LruCache H P) (sent : List (List (H × Option P))) :
    Except MmError (LruCache H P) :=
  sent.foldlM (fun cache features => (getAndUpdateFeatures itemSize cache features).map Prod.fst) receiver

/-- What the engine has once it has handled everything sent mirrors what the front end has. -/
structure Mirrored (itemSize : H → ℕ) (s : Caches H P) : Prop where
  recent : s.sender.Recent itemSize ∅
  replays : ∃ cache, replay itemSize s.receiver s.sent = .ok cache ∧ s.sender.Mirrors cache

variable {s s' : Caches H P} {r : MmRequest M H P}

omit [DecidableEq M] in
theorem merge_mirrored {cache : LruCache H P} (hrecent : s.sender.Recent itemSize ∅)
    (hmirrors : s.sender.Mirrors cache) (hdata : missesData s.sender r = false)
    (hfits : ∑ mmHash ∈ r.mmHashes.toFinset, itemSize mmHash ≤ s.sender.maxsize) :
    ∃ next kwargs cache' data,
      mergeMmKwargs itemSize s.sender r = { cache := next, mergedKwargs := kwargs, raised := none } ∧
        kwargs.length = r.flatItems.length ∧
        getAndUpdateFeatures itemSize cache (r.mmHashes.zip kwargs) = .ok (cache', data) ∧
        next.Mirrors cache' ∧ next.Recent itemSize ∅ := by
  have htouched := hrecent.foldl_touch r.mmHashes
  rw [Finset.union_empty] at htouched
  obtain ⟨hdata', hmax, -⟩ := LruCache.foldl_touch_data r.mmHashes s.sender
  have hkeys : ∀ item ∈ r.flatItems, item.hash ∈ r.mmHashes.toFinset := fun item hitem =>
    mem_toFinset.mpr (mem_map_of_mem hitem)
  have hcached : ∀ item ∈ r.flatItems, decide (item.hash ∈ s.sender.data) = true →
      item.hash ∈ (r.mmHashes.foldl LruCache.touch s.sender).data := fun item _ h => by
    rw [hdata']
    exact of_decide_eq_true h
  obtain ⟨next, kwargs, cache', data, hmerge, hlength, hupdate, hmirrors', hrecent', -, hstored, -⟩ :=
    items_mirrored (fun mmHash => decide (mmHash ∈ s.sender.data)) r.flatItems
      (m := { cache := r.mmHashes.foldl LruCache.touch s.sender }) [] rfl htouched (hmax ▸ hfits) hkeys
      hcached (data_of_missing hdata) (hmirrors.foldl_touch r.mmHashes)
  refine ⟨next, kwargs, cache', data, hmerge, hlength, ?_, hmirrors', hrecent'.settle fun k hk => ?_⟩
  · unfold getAndUpdateFeatures
    have hhashes : (r.mmHashes.zip kwargs).map Prod.fst = r.mmHashes :=
      map_fst_zip (by rw [hlength, MmRequest.mmHashes, length_map])
    rwa [hhashes]
  · obtain ⟨item, hitem, rfl⟩ := mem_map.mp (mem_toFinset.mp hk)
    exact hstored item hitem

theorem Mirrored.request (h : s.Mirrored itemSize)
    (hok : s.Mirrorable itemSize (.request r)) (hstep : s.request itemSize r = .ok s') :
    s'.Mirrored itemSize := by
  unfold Caches.request at hstep
  cases hmisses : missesData s.sender r with
  | true =>
    rw [hmisses, if_pos rfl] at hstep
    exact Except.ok.inj hstep ▸ h
  | false =>
    rw [hmisses, if_neg Bool.false_ne_true] at hstep
    obtain hmisses' | ⟨haccepted, horder, hfits⟩ := hok
    · simp [hmisses] at hmisses'
    obtain ⟨cache, hreplay, hmirrors⟩ := h.replays
    obtain ⟨next, kwargs, cache', data, hmerge, hlength, hupdate, hmirrors', hrecent'⟩ :=
      merge_mirrored h.recent hmirrors hmisses hfits
    rw [hmerge, haccepted] at hstep
    dsimp only at hstep
    rw [if_pos rfl, mmFeatures_of_inOrder horder hlength] at hstep
    cases hstep
    refine ⟨hrecent', cache', ?_, hmirrors'⟩
    unfold replay at hreplay ⊢
    rw [foldlM_append, hreplay]
    refine bind_eq_ok.mpr ⟨cache, rfl, foldlM_cons_eq_ok.mpr ⟨cache', ?_, rfl⟩⟩
    rw [hupdate]
    rfl

theorem Mirrored.handle (h : s.Mirrored itemSize) (hstep : s.handle itemSize = .ok s') :
    s'.Mirrored itemSize := by
  obtain ⟨cache, hreplay, hmirrors⟩ := h.replays
  unfold Caches.handle at hstep
  cases hsent : s.sent with
  | nil =>
    rw [hsent] at hstep
    exact Except.ok.inj hstep ▸ h
  | cons features rest =>
    rw [hsent] at hstep hreplay
    obtain ⟨updated, hupdate, rfl⟩ := bind_pure_eq_ok.mp hstep
    obtain ⟨middle, hfirst, hrest⟩ := foldlM_cons_eq_ok.mp hreplay
    rw [hupdate] at hfirst
    cases hfirst
    exact ⟨h.recent, cache, hrest, hmirrors⟩

/-- The engine always finds what the front end left out: in every run of requests that are accepted, have
their items by modality in the order of their positions and fit into the cache, it handles the next
request that was sent without an error. -/
theorem handle_next_request (itemSize : H → ℕ) (capacity : ℕ) (s : Caches H P)
    (hs : Reachable (· = start capacity) (Mirrorable (M := M) itemSize) (Caches.step itemSize) s)
    (features : List (H × Option P)) (rest : List (List (H × Option P)))
    (hsent : s.sent = features :: rest) :
    ∃ updated, getAndUpdateFeatures itemSize s.receiver features = .ok updated := by
  have hmirrored : s.Mirrored itemSize := by
    refine hs.invariant ?_ ?_
    · rintro _ rfl
      refine ⟨⟨nodup_nil, ⟨[], [], rfl, nofun, nofun⟩, nofun, nofun, rfl⟩, _, rfl, ?_⟩
      exact ⟨rfl, rfl, rfl, fun _ => rfl⟩
    · intro s a s' h hok hstep
      cases a with
      | request r => exact h.request hok hstep
      | handle => exact h.handle hstep
  obtain ⟨cache, hreplay, -⟩ := hmirrored.replays
  rw [hsent] at hreplay
  obtain ⟨middle, hfirst, -⟩ := foldlM_cons_eq_ok.mp hreplay
  cases hupdate : getAndUpdateFeatures itemSize s.receiver features with
  | ok updated => exact ⟨updated, rfl⟩
  | error e =>
    rw [hupdate] at hfirst
    cases hfirst

def ofHashes (mmHashes : List ℕ) (accepted : Bool) : MmRequest Unit ℕ ℕ where
  items := [((), mmHashes.map fun mmHash => ⟨mmHash, some mmHash⟩)]
  modalities := nodup_singleton _
  positions := [((), List.range mmHashes.length)]
  accepted := accepted

/-- A request that is rejected after it was processed leaves its item in the front end's cache only: the
item of the next request is left out, and the engine does not have it. -/
theorem rejected_request_unmirrors : ∃ s, Lib.run (Caches.step fun _ => 1) (start 4)
        [.request (ofHashes [7] false), .request (ofHashes [7] true)] = .ok s ∧
      s.sent = [[(7, none)]] ∧ s.handle (fun _ => 1) = .error .expectedCachedItem :=
  ⟨_, rfl, rfl, rfl⟩

/-- Items fetched again and evicted by the same request are found on both sides. -/
theorem handle_next_request_evicting :
    ∃ s, Lib.checkedRun (Mirrorable (M := Unit) fun mmHash => mmHash) (Caches.step fun mmHash => mmHash)
        (start 3) [.request (ofHashes [1, 2] true), .handle, .request (ofHashes [1, 2, 1] true),
          .request (ofHashes [3] true), .handle, .request (ofHashes [1] true), .handle] = some s ∧
      s.sent = [[(1, some 1)]] ∧
      ∃ updated, getAndUpdateFeatures (fun mmHash => mmHash) s.receiver [(1, some 1)] = .ok updated := by
  refine exists_checkedRun (P := fun s => s.sent = [[(1, some 1)]]) (by decide +kernel) fun s hreach hsent => ?_
  exact ⟨hsent, handle_next_request (M := Unit) (fun mmHash => mmHash) 3 s hreach _ _ hsent⟩

end Caches

/-! ## Insertions of the front end

All items of a request are touched before the first one is stored. If they do not fit together, the key that an
eviction comes to may be one that is not stored yet; `popitem` then removes nothing and `__setitem__` goes on for
ever. -/

/-- The front end's cache after `_merge_mm_kwargs`, which is reached if every missing item has its data. -/
def mergeStep (itemSize : H → ℕ) (cache : LruCache H Unit) (r : MmRequest M H P) :
    Except MmError (LruCache H Unit) :=
  if missesData cache r then .ok cache
  else
    match (mergeMmKwargs itemSize cache r).raised with
    | some e => .error e
    | none => .ok (mergeMmKwargs itemSize cache r).cache

/-- The distinct items of a request fit into the cache together. -/
def FitsTogether (itemSize : H → ℕ) (cache : LruCache H Unit) (r : MmRequest M H P) : Prop :=
  ∑ mmHash ∈ r.mmHashes.toFinset, itemSize mmHash ≤ cache.maxsize
  deriving Decidable

section Insertions

omit [DecidableEq M]
variable {isCached : H → Bool} {c c' : LruCache H Unit} {r : MmRequest M H P}

theorem senderGetAndUpdateItem_room {mmHash : H} {mmItem kwargs : Option P} (h : c.currsize ≤ c.maxsize)
    (hitem : senderGetAndUpdateItem itemSize c mmHash mmItem = .ok (c', kwargs)) : c'.currsize ≤ c'.maxsize := by
  unfold senderGetAndUpdateItem LruCache.get at hitem
  cases hlookup : c.data.lookup mmHash with
  | some entry =>
    simp only [hlookup] at hitem
    cases hitem
    exact h
  | none =>
    simp only [hlookup] at hitem
    split at hitem
    · cases hitem
    split at hitem
    next hset =>
      cases hitem
      exact LruCache.currsize_setItem hset
    next => cases hitem

theorem item_room {item : MmItem H P} (h : m.cache.currsize ≤ m.cache.maxsize) :
    (m.item itemSize isCached item).cache.currsize ≤ (m.item itemSize isCached item).cache.maxsize := by
  unfold Merge.item
  generalize (if isCached item.hash = true then none else item.data) = missing
  split_ifs with hraised
  · exact h
  dsimp only
  split
  next hitem => exact senderGetAndUpdateItem_room h hitem
  next => exact h

theorem item_merges {item : MmItem H P} (hraised : m.raised = none) (hrecent : m.cache.Recent itemSize keys)
    (hfits : ∑ k ∈ keys, itemSize k ≤ m.cache.maxsize) (hkey : item.hash ∈ keys)
    (hcached : isCached item.hash = true → item.hash ∈ m.cache.data)
    (hdata : isCached item.hash = false → item.data.isSome = true) :
    ∃ next, m.item itemSize isCached item = next ∧ next.raised = none ∧ next.cache.Recent itemSize keys ∧
      next.cache.maxsize = m.cache.maxsize ∧ item.hash ∈ next.cache.data ∧
      ∀ k ∈ keys, k ∈ m.cache.data → k ∈ next.cache.data := by
  unfold Merge.item senderGetAndUpdateItem LruCache.get
  rw [hraised]
  cases hlookup : m.cache.data.lookup item.hash with
  | some entry =>
    exact ⟨_, rfl, rfl, hrecent.touch_mem hkey, rfl, Table.mem_of_lookup hlookup, fun _ _ => id⟩
  | none =>
    have hmissing : item.hash ∉ m.cache.data := AList.lookup_eq_none.mp hlookup
    have hnot : isCached item.hash = false := Bool.eq_false_iff.mpr fun h => hmissing (hcached h)
    obtain ⟨data, hsome⟩ := Option.isSome_iff_exists.mp (hdata hnot)
    obtain ⟨next, hset, hrecent', hmax, hstored, hkept⟩ := hrecent.setItem hkey hmissing hfits ()
    refine ⟨{ cache := next, mergedKwargs := m.mergedKwargs ++ [some data], raised := none }, ?_, rfl, hrecent',
      hmax, hstored, hkept⟩
    simp [hnot, hsome, hset]

theorem items_merge (isCached : H → Bool) (items : List (MmItem H P)) (hraised : m.raised = none)
    (hrecent : m.cache.Recent itemSize keys) (hroom : m.cache.currsize ≤ m.cache.maxsize)
    (hfits : ∑ k ∈ keys, itemSize k ≤ m.cache.maxsize) (hkeys : ∀ item ∈ items, item.hash ∈ keys)
    (hcached : ∀ item ∈ items, isCached item.hash = true → item.hash ∈ m.cache.data)
    (hdata : ∀ item ∈ items, isCached item.hash = false → item.data.isSome = true) :
    ∃ next, items.foldl (Merge.item itemSize isCached) m = next ∧ next.raised = none ∧
      next.cache.Recent itemSize keys ∧ next.cache.currsize ≤ next.cache.maxsize ∧
      next.cache.maxsize = m.cache.maxsize ∧ (∀ item ∈ items, item.hash ∈ next.cache.data) ∧
      ∀ k ∈ keys, k ∈ m.cache.data → k ∈ next.cache.data := by
  induction items generalizing m with
  | nil => exact ⟨m, rfl, hraised, hrecent, hroom, rfl, nofun, fun _ _ => id⟩
  | cons item rest ih =>
    have hroom₁ : (m.item itemSize isCached item).cache.currsize ≤ (m.item itemSize isCached item).cache.maxsize :=
      item_room hroom
    obtain ⟨middle, rfl, hraised₁, hrecent₁, hmax₁, hstored₁, hkept₁⟩ :=
      item_merges hraised hrecent hfits (hkeys item mem_cons_self) (hcached item mem_cons_self)
        (hdata item mem_cons_self)
    obtain ⟨next, hnext, hraised', hrecent', hroom', hmax, hstored, hkept⟩ :=
      ih hraised₁ hrecent₁ hroom₁ (hmax₁ ▸ hfits) (fun i hi => hkeys i (mem_cons_of_mem item hi))
        (fun i hi h => hkept₁ i.hash (hkeys i (mem_cons_of_mem item hi)) (hcached i (mem_cons_of_mem item hi) h))
        fun i hi => hdata i (mem_cons_of_mem item hi)
    refine ⟨next, hnext, hraised', hrecent', hroom', hmax.trans hmax₁, fun i hi => ?_,
      fun k hk h => hkept k hk (hkept₁ k hk h)⟩
    rcases mem_cons.mp hi with rfl | hi
    · exact hkept i.hash (hkeys i mem_cons_self) hstored₁
    · exact hstored i hi

/-- A cache between two requests: the keys in order are the stored ones, and they fit. -/
structure Settled (itemSize : H → ℕ) (capacity : ℕ) (c : LruCache H Unit) : Prop where
  recent : c.Recent itemSize ∅
  room : c.currsize ≤ c.maxsize
  maxsize : c.maxsize = capacity

/-- A request whose items fit together is merged. -/
theorem Settled.merge {capacity : ℕ} (h : Settled itemSize capacity c) (hfits : FitsTogether itemSize c r) :
    ∃ c', mergeStep itemSize c r = .ok c' ∧ Settled itemSize capacity c' := by
  unfold mergeStep
  cases hmisses : missesData c r with
  | true => exact ⟨c, rfl, h⟩
  | false =>
  have htouched := h.recent.foldl_touch r.mmHashes
  rw [Finset.union_empty] at htouched
  obtain ⟨hdata, hmax, hsize⟩ := LruCache.foldl_touch_data r.mmHashes c
  obtain ⟨next, hnext, hraised, hrecent, hroom, hmax', hstored, -⟩ :=
    items_merge (fun mmHash => decide (mmHash ∈ c.data)) r.flatItems
      (m := { cache := r.mmHashes.foldl LruCache.touch c }) rfl htouched (by rw [hmax, hsize]; exact h.room)
      (by rw [hmax]; exact hfits) (fun item hitem => mem_toFinset.mpr (mem_map_of_mem hitem))
      (fun item _ hin => by rw [hdata]; exact of_decide_eq_true hin)
      (data_of_missing hmisses)
  have hmerge : mergeMmKwargs itemSize c r = next := hnext
  rw [if_neg Bool.false_ne_true, hmerge, hraised]
  refine ⟨next.cache, rfl, hrecent.settle fun k hk => ?_, hroom, hmax'.trans (hmax.trans h.maxsize)⟩
  obtain ⟨item, hitem, rfl⟩ := mem_map.mp (mem_toFinset.mp hk)
  exact hstored item hitem

/-- In every run of requests whose distinct items fit into the cache together, the next such request is merged,
the keys in order are the stored ones, and the total size is what is recorded and at most the capacity. -/
theorem insertions_finish (capacity : ℕ)
    (h : Reachable (· = { maxsize := capacity }) (FitsTogether (M := M) (P := P) itemSize) (mergeStep itemSize) c) :
    (∀ r : MmRequest M H P, FitsTogether itemSize c r → ∃ c', mergeStep itemSize c r = .ok c') ∧
      (∀ k, k ∈ c.order ↔ k ∈ c.data) ∧ c.currsize = c.data.total (fun _ entry => entry.2) ∧
      c.currsize ≤ capacity := by
  have hsettled : Settled itemSize capacity c := by
    refine h.invariant ?_ fun c r c' hc hfits hstep => ?_
    · rintro _ rfl
      exact ⟨⟨nodup_nil, ⟨[], [], rfl, nofun, nofun⟩, nofun, nofun, rfl⟩, Nat.zero_le _, rfl⟩
    · obtain ⟨merged, hmerge, hmerged⟩ := hc.merge hfits
      rw [hstep] at hmerge
      exact Except.ok.inj hmerge ▸ hmerged
  obtain ⟨old, new, horder, hold, hnew⟩ := hsettled.recent.split
  refine ⟨fun r hfits => ?_, fun k => ⟨fun hk => ?_, hsettled.recent.stored k⟩, hsettled.recent.currsize,
    hsettled.maxsize ▸ hsettled.room⟩
  · obtain ⟨c', hmerge, -⟩ := hsettled.merge hfits
    exact ⟨c', hmerge⟩
  · rw [horder] at hk
    rcases mem_append.mp hk with hk | hk
    · exact (hold k hk).2
    · exact absurd (hnew k hk) (Finset.notMem_empty k)

end Insertions

/-- The third item evicts the first two. -/
theorem insertions_finish_evicting : ∃ c : LruCache ℕ Unit, c.order = [3] ∧ (∀ k, k ∈ c.order ↔ k ∈ c.data) ∧
    c.currsize ≤ 3 := by
  have hstart : Reachable (· = { maxsize := 3 }) (FitsTogether (M := Unit) (P := ℕ) fun mmHash => mmHash)
      (mergeStep fun mmHash => mmHash) { maxsize := 3 } := .start rfl
  obtain ⟨c, hreach, horder⟩ := hstart.exists_checkedRun (P := fun c => c.order = [3])
    [Caches.ofHashes [1, 2] true, Caches.ofHashes [3] true] (by decide +kernel)
  have hfinish := insertions_finish 3 hreach
  exact ⟨c, horder, hfinish.2.1, hfinish.2.2.2⟩

/-- Two new items of size six for a cache of size ten: the first is stored and becomes the newest key, and to make
room for the second the eviction comes to the second itself, which is not stored. -/
theorem insertion_never_ends : (∀ mmHash ∈ (Caches.ofHashes [1, 2] true).mmHashes, (fun _ => 6) mmHash ≤ 10) ∧
    mergeStep (fun _ => 6) { maxsize := 10 } (Caches.ofHashes [1, 2] true) = .error (.storage .spins) := by
  exact ⟨by decide, by decide +kernel⟩

end VllmPs.MultiModal
