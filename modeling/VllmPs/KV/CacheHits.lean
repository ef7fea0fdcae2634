import VllmPs.KV.Manager
import VllmPs.KV.PoolInvariants

/-!
# Prefix-cache hits

`get_computed_blocks` returns at every position the null block or the block cached under
the position's own key. With distinct hashes no block is hit twice, and with at most one
full-attention group no group's hits exceed the reported length.
-/

namespace VllmPs

open Lib List Option

variable {H F : Type} [DecidableEq H]
variable {pool : BlockPool H} {blockHashes : List (List H)}
variable {cachedAt : ℕ → Option (List BlockId)} {numGroups groupId i : ℕ} {rows : List (List BlockId)}
  {α : Type} {hits : List BlockId}

/-- Row `j` is the row of blocks cached at position `j`, or null blocks only. -/
def ValidRows (cachedAt : ℕ → Option (List BlockId)) (numGroups : ℕ)
    (rows : List (List BlockId)) : Prop :=
  ∀ (j : ℕ) (row : List BlockId), rows[j]? = some row → row = List.replicate numGroups nullBlock ∨ cachedAt j = some row

def cachedRow (pool : BlockPool H) (blockHashes : List (List H)) (kvCacheGroupIds : List ℕ) (i : ℕ) :
    Option (List BlockId) :=
  (blockHashes[i]?).bind fun hash => pool.getCachedBlock hash kvCacheGroupIds

theorem getElem?_of_initial {items items' : List α} (h : items' <+: items) {j : ℕ} {a : α} (ha : items'[j]? = some a) :
    items[j]? = some a := by
  obtain ⟨hj, rfl⟩ := List.getElem?_eq_some_iff.mp ha
  exact prefix_iff_getElem?.mp h j hj

theorem ValidRows.mono {rows' : List (List BlockId)} (h : ValidRows cachedAt numGroups rows)
    (hprefixed : rows' <+: rows) : ValidRows cachedAt numGroups rows' :=
  fun j row hrow => h j row (getElem?_of_initial hprefixed hrow)

theorem ValidRows.set (h : ValidRows cachedAt numGroups rows)
    {row : List BlockId} (hrow : cachedAt i = some row) : ValidRows cachedAt numGroups (rows.set i row) := by
  intro j row' hrow'
  rw [getElem?_set] at hrow'
  split_ifs at hrow' with heq hlt
  · cases hrow'
    exact Or.inr (heq ▸ hrow)
  · exact h j row' hrow'

theorem getElem?_leading (entries : List (Option α)) (j : ℕ) (a : α)
    (h : ((entries.takeWhile Option.isSome).filterMap id)[j]? = some a) : entries[j]? = some (some a) := by
  induction entries generalizing j with
  | nil => simp at h
  | cons entry rest ih =>
    cases entry with
    | none => simp at h
    | some b =>
      simp only [isSome_some, List.takeWhile_cons_of_pos, id] at h
      cases j with
      | zero => simpa using h
      | succ j => exact ih j (by simpa using h)

theorem prefix_trimAligned (blockSize alignment : ℕ) (rows : List (List BlockId)) :
    trimAligned blockSize alignment rows <+: rows :=
  take_prefix _ _

theorem fullAttentionRows_spec (pool : BlockPool H) (blockHashes : List (List H)) (maxNumBlocks : ℕ)
    (groupIds : List ℕ) :
    ValidRows (cachedRow pool blockHashes groupIds) groupIds.length
        (fullAttentionRows pool blockHashes maxNumBlocks groupIds) ∧
      (fullAttentionRows pool blockHashes maxNumBlocks groupIds).length ≤ maxNumBlocks := by
  refine ⟨fun j row hrow => ?_, ?_⟩
  · have hentry := getElem?_leading _ j row hrow
    rw [getElem?_map, getElem?_take] at hentry
    split_ifs at hentry with hj
    · cases hhash : blockHashes[j]? with
      | none => simp [hhash] at hentry
      | some hash => exact Or.inr (by simpa [cachedRow, hhash] using hentry)
    · simp at hentry
  · refine (length_filterMap_le _ _).trans ((List.takeWhile_prefix _).length_le.trans ?_)
    rw [length_map, length_take]
    exact min_le_left _ _

theorem prefix_fullAttentionHit (pool : BlockPool H) (blockHashes : List (List H)) (maxLength : ℕ)
    (groupIds : List ℕ) (blockSize : ℕ) (drop : Bool) (alignment : ℕ) :
    fullAttentionHit pool blockHashes maxLength groupIds blockSize drop alignment <+:
        fullAttentionRows pool blockHashes (maxLength / blockSize) groupIds ∧
      (fullAttentionHit pool blockHashes maxLength groupIds blockSize drop alignment).length ≤
        (fullAttentionRows pool blockHashes (maxLength / blockSize) groupIds).length -
          if drop then 1 else 0 := by
  cases drop with
  | false =>
    have hprefixed := prefix_trimAligned blockSize alignment
      (fullAttentionRows pool blockHashes (maxLength / blockSize) groupIds)
    exact ⟨hprefixed, hprefixed.length_le⟩
  | true =>
    have hprefixed := prefix_trimAligned blockSize alignment
      (fullAttentionRows pool blockHashes (maxLength / blockSize) groupIds).dropLast
    refine ⟨hprefixed.trans ( dropLast_prefix _), ?_⟩
    have hlength := hprefixed.length_le
    rwa [length_dropLast] at hlength

theorem slidingWindowLoop_spec (contiguous blockSize : ℕ) (drop : Bool) (alignment i : ℕ)
    (rows : List (List BlockId)) (run : ℕ) (h : ValidRows cachedAt numGroups rows) :
    ValidRows cachedAt numGroups (slidingWindowLoop cachedAt contiguous blockSize drop alignment i rows run).1 ∧
      (slidingWindowLoop cachedAt contiguous blockSize drop alignment i rows run).1.length ≤ rows.length := by
  induction i generalizing rows run with
  | zero => exact ⟨h, le_rfl⟩
  | succ i ih =>
    unfold slidingWindowLoop
    cases hcached : cachedAt i with
    | none => exact ih rows 0 h
    | some row =>
      dsimp only
      generalize (if drop = true then i else i + 1) = postPopBlocks
      split_ifs
      · exact ih rows run h
      · refine ⟨(h.set hcached).mono ( take_prefix _ _), ?_⟩
        rw [length_take, length_set]
        exact min_le_right _ _
      · obtain ⟨hvalid, hlength⟩ := ih (rows.set i row) (run + 1) (h.set hcached)
        exact ⟨hvalid, hlength.trans_eq length_set⟩

theorem prefix_finishSlidingWindow (blockSize : ℕ) (drop : Bool) (alignment : ℕ)
    (found : List (List BlockId) × ℕ × Bool) :
    finishSlidingWindow blockSize drop alignment found <+: found.1 ∧
      (finishSlidingWindow blockSize drop alignment found).length ≤ found.1.length - if drop then 1 else 0 := by
  unfold finishSlidingWindow
  set computed := if found.2.2 = true then found.1
    else trimAligned blockSize alignment (found.1.take found.2.1) with hcomputed
  have hprefixed : computed <+: found.1 := by
    rw [hcomputed]
    split_ifs
    · exact prefix_rfl
    · exact (prefix_trimAligned _ _ _).trans ( take_prefix _ _)
  cases drop with
  | false => exact ⟨hprefixed, hprefixed.length_le⟩
  | true =>
    cases hempty : computed with
    | nil => exact ⟨ nil_prefix, Nat.zero_le _⟩
    | cons row rest =>
      have htrim := prefix_trimAligned blockSize alignment (row :: rest).dropLast
      refine ⟨(htrim.trans ( dropLast_prefix _)).trans (hempty ▸ hprefixed), ?_⟩
      have hlength := htrim.length_le.trans_eq length_dropLast
      exact hlength.trans (Nat.sub_le_sub_right (hempty ▸ hprefixed).length_le 1)

theorem findLongestCacheHit_spec (pool : BlockPool H) (spec : KVCacheSpec) (blockHashes : List (List H))
    (maxLength : ℕ) (groupIds : List ℕ) (drop : Bool) (alignment : ℕ) :
    ValidRows (cachedRow pool blockHashes groupIds) groupIds.length
        (findLongestCacheHit pool spec blockHashes maxLength groupIds drop alignment) ∧
      (findLongestCacheHit pool spec blockHashes maxLength groupIds drop alignment).length ≤
        maxLength / spec.blockSize - if drop then 1 else 0 := by
  unfold findLongestCacheHit
  cases spec.kind with
  | full =>
    obtain ⟨hvalid, hlength⟩ := fullAttentionRows_spec pool blockHashes (maxLength / spec.blockSize) groupIds
    obtain ⟨hprefixed, hle⟩ :=
      prefix_fullAttentionHit pool blockHashes maxLength groupIds spec.blockSize drop alignment
    exact ⟨hvalid.mono hprefixed, hle.trans (Nat.sub_le_sub_right hlength _)⟩
  | slidingWindow slidingWindow =>
    have hnull : ValidRows (cachedRow pool blockHashes groupIds) groupIds.length
        (List.replicate (maxLength / spec.blockSize) (groupIds.map fun _ => nullBlock)) := by
      intro j row hrow
      have hmem := mem_of_getElem? hrow
      rw [mem_replicate] at hmem
      exact Or.inl (by rw [hmem.2, map_const'])
    obtain ⟨hvalid, hlength⟩ := slidingWindowLoop_spec (contiguousBlocksForHit slidingWindow spec.blockSize drop)
      spec.blockSize drop alignment (maxLength / spec.blockSize) _ 0 hnull
    obtain ⟨hprefixed, hle⟩ := prefix_finishSlidingWindow spec.blockSize drop alignment _
    rw [length_replicate] at hlength
    exact ⟨hvalid.mono hprefixed, hle.trans (Nat.sub_le_sub_right hlength _)⟩

/-- Entry `j` of a group's hits is the null block or a block cached under the key of position `j`. -/
def ValidHits (pool : BlockPool H) (blockHashes : List (List H)) (groupId : ℕ)
    (hits : List BlockId) : Prop :=
  ∀ (j : ℕ) (block : BlockId), hits[j]? = some block → block = nullBlock ∨
    ∃ hash, blockHashes[j]? = some hash ∧
      block ∈ pool.cachedBlockHashToBlock.blocksOf ⟨hash, groupId⟩

theorem BlockHashToBlockMap.mem_blocksOf_of_getOneBlock {cache : BlockHashToBlockMap H}
    {key : BlockKey H} {block : BlockId} (h : cache.getOneBlock key = some block) :
    block ∈ cache.blocksOf key := by
  unfold getOneBlock at h
  unfold blocksOf
  cases hlookup : cache.lookup key with
  | none => simp [hlookup] at h
  | some cached =>
    cases cached with
    | single other =>
      simp only [hlookup, some.injEq] at h
      simp [CachedBlocks.toList, h]
    | many blocks =>
      simp only [hlookup] at h
      simpa [CachedBlocks.toList] using mem_of_mem_head? h

theorem getElem?_mapM_some {β : Type} (f : α → Option β) (items : List α) (row : List β)
    (h : items.mapM f = some row) (c : ℕ) (a : α) (ha : items[c]? = some a) :
    ∃ b, row[c]? = some b ∧ f a = some b := by
  induction items generalizing row c with
  | nil => simp at ha
  | cons x rest ih =>
    rw [mapM_cons] at h
    cases hx : f x with
    | none => simp [hx] at h
    | some y =>
      cases hrest : rest.mapM f with
      | none => simp [hx, hrest] at h
      | some ys =>
        simp only [hx, hrest, Option.bind_eq_bind, bind_some, Option.pure_def, some.injEq] at h
        subst h
        cases c with
        | zero =>
          cases ha
          exact ⟨y, rfl, hx⟩
        | succ c => exact ih ys hrest c ha

theorem ValidRows.column {groupIds : List ℕ}
    (h : ValidRows (cachedRow pool blockHashes groupIds) groupIds.length rows) {c : ℕ}
    (hc : groupIds[c]? = some groupId) :
    ValidHits pool blockHashes groupId (rows.map fun row => row.getD c nullBlock) := by
  intro j block hblock
  rw [getElem?_map] at hblock
  cases hrow : rows[j]? with
  | none => simp [hrow] at hblock
  | some row =>
    rw [hrow, map_some, some_inj] at hblock
    rcases h j row hrow with rfl | hcached
    · left
      rw [← hblock, getD_eq_getElem?_getD, getElem?_replicate]
      split_ifs <;> rfl
    right
    unfold cachedRow at hcached
    cases hhash : blockHashes[j]? with
    | none => simp [hhash] at hcached
    | some hash =>
      rw [hhash, bind_some] at hcached
      obtain ⟨b, hb, hone⟩ := getElem?_mapM_some _ groupIds row hcached c groupId hc
      rw [getD_eq_getElem?_getD, hb, getD_some] at hblock
      subst hblock
      exact ⟨hash, rfl, BlockHashToBlockMap.mem_blocksOf_of_getOneBlock hone⟩

theorem ValidHits.mono {hits' : List BlockId} (h : ValidHits pool blockHashes groupId hits)
    (hprefixed : hits' <+: hits) : ValidHits pool blockHashes groupId hits' :=
  fun j block hblock => h j block (getElem?_of_initial hprefixed hblock)

theorem count_le_one_of_index [DecidableEq α] (items : List α) (a : α)
    (h : ∀ i j : ℕ, items[i]? = some a → items[j]? = some a → i = j) : items.count a ≤ 1 := by
  by_contra hmany
  obtain ⟨i, j, hlt, hi, hj⟩ := duplicate_iff_exists_distinct_get.mp
    (duplicate_iff_two_le_count.mpr (not_le.mp hmany))
  exact hlt.ne (Fin.ext (h i j (hi ▸ getElem?_eq_getElem i.2) (hj ▸ getElem?_eq_getElem j.2)))

theorem ValidHits.distinct (h : ValidHits pool blockHashes groupId hits) (hindex : pool.IndexInv)
    (hpos : 0 < pool.numGpuBlocks) (hnodup : blockHashes.Nodup) :
    (∀ block, block ≠ nullBlock → hits.count block ≤ 1) ∧ ∀ block ∈ hits, block < pool.numGpuBlocks := by
  constructor
  · intro block hnull
    refine count_le_one_of_index hits block fun i j hi hj => ?_
    rcases h i block hi with hzero | ⟨hash, hhash, hmem⟩
    · exact absurd hzero hnull
    rcases h j block hj with hzero | ⟨hash', hhash', hmem'⟩
    · exact absurd hzero hnull
    rw [← hindex.mem_iff] at hmem hmem'
    rw [hmem, some_inj, BlockKey.mk.injEq] at hmem'
    refine (getElem?_inj (List.getElem?_eq_some_iff.mp hhash).1 hnodup).mp ?_
    rw [hhash, hhash', hmem'.1]
  intro block hblock
  obtain ⟨j, hj⟩ := getElem?_of_mem hblock
  rcases h j block hj with rfl | ⟨hash, -, hmem⟩
  · exact hpos
  · rw [← hindex.mem_iff] at hmem
    exact hindex.lt block (by rw [hmem]; rfl)

omit [DecidableEq H] in
theorem groupHashes_nodup (hashBlockSize blockSize : ℕ) (blockHashes : List H)
    (hscale : blockSize ≠ hashBlockSize → 0 < blockSize / hashBlockSize) (hnodup : blockHashes.Nodup) :
    (BlockPool.groupHashes hashBlockSize blockSize blockHashes).Nodup := by
  unfold BlockPool.groupHashes
  split_ifs with hsame
  · exact hnodup.map fun a b hab => (List.cons.inj hab).1
  have hpos := hscale hsame
  set scale := blockSize / hashBlockSize with hscaleDef
  refine (nodup_map_iff_inj_on nodup_range).mpr fun i hi j hj heq => ?_
  have hhead (k : ℕ) : (((blockHashes.drop (k * scale)).take scale))[0]? = blockHashes[k * scale]? := by
    rw [getElem?_take, if_pos hpos, getElem?_drop, Nat.add_zero]
  have hlt (k : ℕ) (hk : k ∈ List.range (blockHashes.length / scale)) : k * scale < blockHashes.length := by
    have := (Nat.lt_div_iff_mul_lt hpos).mp (mem_range.mp hk)
    omega
  have hindex : blockHashes[i * scale]? = blockHashes[j * scale]? := by
    rw [← hhead i, ← hhead j, heq]
  have := (getElem?_inj (hlt i hi) hnodup).mp hindex
  exact Nat.eq_of_mul_eq_mul_right hpos this

namespace KVCacheManager

variable (kv : KVCacheManager H)

/-- What the assertions of the coordinators' constructors give about a hybrid configuration. -/
structure HybridConfig (attentionGroups : List SpecGroup) : Prop where
  size : ∀ g ∈ attentionGroups, 0 < g.spec.blockSize
  scale : ∀ g ∈ attentionGroups, g.spec.blockSize ≠ kv.pool.hashBlockSize →
    0 < g.spec.blockSize / kv.pool.hashBlockSize
  spec : ∀ g ∈ attentionGroups, ∀ groupId ∈ g.groupIds,
    (kv.managers[groupId]?).map SingleTypeManager.spec = some g.spec

def RecordedValid (blockHashes : List H) (hits : List (Option (List BlockId))) : Prop :=
  ∀ (groupId : ℕ) (l : List BlockId), hits[groupId]? = some (some l) →
    ∃ hashes : List (List H), (blockHashes.Nodup → hashes.Nodup) ∧
      ValidHits kv.pool hashes groupId l

/-- The hits recorded for the groups in `groupIds` are at most `hitLength` tokens long. -/
def RecordedLength (hitLength : ℕ) (groupIds : List ℕ) (hits : List (Option (List BlockId))) :
    Prop :=
  ∀ (groupId : ℕ) (l : List BlockId) (mgr : SingleTypeManager), hits[groupId]? = some (some l) →
    kv.managers[groupId]? = some mgr → groupId ∈ groupIds → l.length * mgr.blockSize ≤ hitLength

theorem getElem?_foldl_set (value : ℕ → α) (pairs : List (ℕ × ℕ)) (items : List α) (i : ℕ) (entry : α)
    (h : (pairs.foldl (fun items p => items.set p.1 (value p.2)) items)[i]? = some entry) :
    (items[i]? = some entry ∧ ∀ p ∈ pairs, p.1 ≠ i) ∨ ∃ p ∈ pairs, p.1 = i ∧ entry = value p.2 := by
  induction pairs generalizing items with
  | nil => exact Or.inl ⟨h, by simp⟩
  | cons p rest ih =>
    rcases ih (items.set p.1 (value p.2)) h with ⟨hset, hrest⟩ | ⟨q, hq, hfst, hentry⟩
    · rw [getElem?_set] at hset
      split_ifs at hset with heq hlt
      · exact Or.inr ⟨p, mem_cons_self, heq, (some.inj hset).symm⟩
      · exact Or.inl ⟨hset, forall_mem_cons.mpr ⟨heq, hrest⟩⟩
    · exact Or.inr ⟨q, mem_cons_of_mem _ hq, hfst, hentry⟩

theorem getElem?_recordHits (groupIds : List ℕ) (rows : List (List BlockId))
    (hits : List (Option (List BlockId))) (groupId : ℕ) (entry : Option (List BlockId))
    (h : (recordHits groupIds rows hits)[groupId]? = some entry) :
    (hits[groupId]? = some entry ∧ groupId ∉ groupIds) ∨ ∃ c : ℕ, groupIds[c]? = some groupId ∧
        entry = some (rows.map fun row => row.getD c nullBlock) := by
  rcases getElem?_foldl_set (fun c => some (rows.map fun row : List BlockId => row.getD c nullBlock))
    groupIds.zipIdx hits groupId entry h with ⟨hold, hnone⟩ | ⟨p, hp, hfst, hentry⟩
  · refine Or.inl ⟨hold, fun hmem => ?_⟩
    obtain ⟨c, hc⟩ := getElem?_of_mem hmem
    exact hnone (groupId, c) (mem_zipIdx_iff_getElem?.mpr hc) rfl
  · refine Or.inr ⟨p.2, ?_, hentry⟩
    rw [← hfst]
    exact mem_zipIdx_iff_getElem?.mp hp

variable {kv} {attentionGroups : List SpecGroup} {blockHashes : List H} (maxLength : ℕ)

omit [DecidableEq H] in
theorem HybridConfig.blockSize_eq (hconfig : kv.HybridConfig attentionGroups) {group : SpecGroup}
    (hgroup : group ∈ attentionGroups) (hmem : groupId ∈ group.groupIds) {mgr : SingleTypeManager}
    (hmgr : kv.managers[groupId]? = some mgr) : mgr.blockSize = group.spec.blockSize := by
  have hspec := hconfig.spec group hgroup groupId hmem
  rw [hmgr, map_some, some_inj] at hspec
  rw [SingleTypeManager.blockSize, hspec]

theorem length_search_mul_le {spec : KVCacheSpec} (hsize : 0 < spec.blockSize) (hashes : List (List H))
    (length : ℕ) (groupIds : List ℕ) (drop : Bool) (alignment : ℕ) :
    (VllmPs.findLongestCacheHit pool spec hashes (if drop then min (length + spec.blockSize) maxLength else length)
      groupIds drop alignment).length * spec.blockSize ≤ length := by
  refine (Nat.le_div_iff_mul_le hsize).mp ((findLongestCacheHit_spec ..).2.trans ?_)
  cases drop with
  | false => exact le_rfl
  | true =>
    refine Nat.sub_le_of_le_add ?_
    rw [if_pos rfl, if_pos rfl, ← Nat.add_div_right _ hsize]
    exact Nat.div_le_div_right (min_le_left _ _)

theorem hybridSpecGroup_spec (hconfig : kv.HybridConfig attentionGroups) {group : SpecGroup}
    (hgroup : group ∈ attentionGroups) (hit : HybridHit) (idx hitLength : ℕ) (groupIds : List ℕ)
    (hvalid : kv.RecordedValid blockHashes hit.hitBlocksByGroup)
    (hlength : kv.RecordedLength hitLength groupIds hit.hitBlocksByGroup)
    (hcurr : hit.currHitLength ≤ hitLength) :
    let hit' := kv.hybridSpecGroup blockHashes maxLength hit group idx
    hit'.currHitLength ≤ hit.currHitLength ∧ kv.RecordedValid blockHashes hit'.hitBlocksByGroup ∧
      kv.RecordedLength hitLength
        (groupIds ++ if group.isFullAttention then [] else group.groupIds) hit'.hitBlocksByGroup ∧
      (group.isFullAttention = false →
        kv.RecordedLength hit'.currHitLength group.groupIds hit'.hitBlocksByGroup) := by
  intro hit'
  by_cases hknown : (group.isFullAttention && ((group.groupIds.head?.bind
      fun groupId => hit.hitBlocksByGroup[groupId]?).join).isSome) = true
  · have hhit' : hit' = { hit with
        currHitLength := hit.currHitLength / group.spec.blockSize * group.spec.blockSize } := by
      simp only [hit', hybridSpecGroup]
      rw [if_pos hknown]
    have hfull : group.isFullAttention = true := (Bool.and_eq_true _ _ ▸ hknown).1
    rw [hhit', hfull]
    refine ⟨Nat.div_mul_le_self _ _, hvalid, ?_, fun h => absurd h (by decide)⟩
    simpa using hlength
  obtain ⟨drop, rows, hrows, hcurr', hhits'⟩ : ∃ (drop : Bool) (rows : List (List BlockId)),
      rows = VllmPs.findLongestCacheHit kv.pool group.spec
        (BlockPool.groupHashes kv.pool.hashBlockSize group.spec.blockSize blockHashes)
        (if drop then min (hit.currHitLength + group.spec.blockSize) maxLength
          else hit.currHitLength) group.groupIds drop kv.schedulerBlockSize ∧
      hit'.currHitLength = rows.length * group.spec.blockSize ∧
      hit'.hitBlocksByGroup = recordHits group.groupIds rows hit.hitBlocksByGroup := by
    simp only [hit', hybridSpecGroup]
    rw [if_neg hknown]
    exact ⟨_, _, rfl, rfl, rfl⟩
  have hle : hit'.currHitLength ≤ hit.currHitLength := by
    rw [hcurr', hrows]
    exact length_search_mul_le _ (hconfig.size group hgroup) ..
  have hnew : kv.RecordedLength hit'.currHitLength group.groupIds hit'.hitBlocksByGroup := by
    intro groupId l mgr hentry hmgr hmem
    rw [hhits'] at hentry
    rcases getElem?_recordHits _ _ _ _ _ hentry with ⟨-, hnot⟩ | ⟨c, -, hl⟩
    · exact absurd hmem hnot
    · rw [Option.some_inj.mp hl, length_map, hconfig.blockSize_eq hgroup hmem hmgr, hcurr']
  refine ⟨hle, ?_, ?_, fun _ => hnew⟩
  · intro groupId l hentry
    rw [hhits'] at hentry
    rcases getElem?_recordHits _ _ _ _ _ hentry with ⟨hold, -⟩ | ⟨c, hc, hl⟩
    · exact hvalid groupId l hold
    · refine ⟨_, fun hnodup => groupHashes_nodup kv.pool.hashBlockSize group.spec.blockSize
        blockHashes (hconfig.scale group hgroup) hnodup, ?_⟩
      rw [Option.some_inj.mp hl, hrows]
      exact (findLongestCacheHit_spec ..).1.column hc
  intro groupId l mgr hentry hmgr hmem
  by_cases hin : groupId ∈ group.groupIds
  · exact (hnew groupId l mgr hentry hmgr hin).trans (hle.trans hcurr)
  rw [hhits'] at hentry
  rcases getElem?_recordHits _ _ _ _ _ hentry with ⟨hold, -⟩ | ⟨c, hc, -⟩
  · refine hlength groupId l mgr hold hmgr ?_
    rcases mem_append.mp hmem with hmem | hmem
    · exact hmem
    · split_ifs at hmem
      · simp at hmem
      · exact absurd hmem hin
  · exact absurd (mem_of_getElem? hc) hin

theorem hybridRound_spec (hconfig : kv.HybridConfig attentionGroups) (hitLength : ℕ)
    (groups : List (SpecGroup × ℕ)) (hgroups : ∀ g ∈ groups, g.1 ∈ attentionGroups)
    (groupIds : List ℕ) (hit : HybridHit) (hvalid : kv.RecordedValid blockHashes hit.hitBlocksByGroup)
    (hlength : kv.RecordedLength hitLength groupIds hit.hitBlocksByGroup)
    (hcurr : hit.currHitLength ≤ hitLength) :
    let hit' := groups.foldl (fun hit g => kv.hybridSpecGroup blockHashes maxLength hit g.1 g.2) hit
    hit'.currHitLength ≤ hitLength ∧ kv.RecordedValid blockHashes hit'.hitBlocksByGroup ∧
      kv.RecordedLength hitLength
        (groupIds ++ groups.flatMap fun g => if g.1.isFullAttention then [] else g.1.groupIds)
        hit'.hitBlocksByGroup := by
  induction groups generalizing hit groupIds with
  | nil => exact ⟨hcurr, hvalid, by simpa using hlength⟩
  | cons g rest ih =>
    obtain ⟨hle, hvalid', hlength', -⟩ := hybridSpecGroup_spec maxLength hconfig
      (hgroups g mem_cons_self) hit g.2 hitLength groupIds hvalid hlength hcurr
    have hrest := ih (fun g' hg' => hgroups g' (mem_cons_of_mem _ hg')) _ _ hvalid' hlength'
      (hle.trans hcurr)
    simpa only [foldl_cons, flatMap_cons, append_assoc] using hrest

def OneFullAttentionGroup (attentionGroups : List SpecGroup) : Prop :=
  ∀ g ∈ attentionGroups.tail, g.isFullAttention = false

def trimmedGroupIds (attentionGroups : List SpecGroup) : List ℕ :=
  ((attentionGroups.head?.filter SpecGroup.isFullAttention).map SpecGroup.groupIds).getD []

theorem not_full_of_not_trimmed (hone : OneFullAttentionGroup attentionGroups) {g : SpecGroup}
    (hg : g ∈ attentionGroups) (hi : i ∈ g.groupIds)
    (hnot : i ∉ trimmedGroupIds attentionGroups) : ¬g.isFullAttention = true := by
  intro hfull
  cases attentionGroups with
  | nil => simp at hg
  | cons first rest =>
    rcases mem_cons.mp hg with rfl | hrest
    · exact hnot (by simpa [trimmedGroupIds, Option.filter, hfull] using hi)
    · exact absurd hfull (by rw [hone g hrest]; decide)

theorem hybridLoop_spec (hconfig : kv.HybridConfig attentionGroups) (fuel hitLength : ℕ)
    (hits : List (Option (List BlockId))) (verified : List ℕ) (hfuel : hitLength < fuel)
    (hvalid : kv.RecordedValid blockHashes hits) :
    let found := kv.hybridLoop attentionGroups blockHashes maxLength fuel hitLength hits verified
    kv.RecordedValid blockHashes found.2 ∧ (OneFullAttentionGroup attentionGroups → ∀ groupIds,
        (∀ i ∈ groupIds, i ∉ trimmedGroupIds attentionGroups ∧ ∃ g ∈ attentionGroups, i ∈ g.groupIds) →
        kv.RecordedLength found.1 groupIds found.2) := by
  induction fuel generalizing hitLength hits verified with
  | zero => exact absurd hfuel (Nat.not_lt_zero _)
  | succ fuel ih =>
    have hround := hybridRound_spec maxLength hconfig hitLength attentionGroups.zipIdx
      (fun g hg => (mem_zipIdx' hg).2 ▸ getElem_mem _) []
      ⟨hitLength, hits, verified⟩ hvalid (fun _ _ _ _ _ hmem => absurd hmem (by simp)) le_rfl
    intro found
    simp only [found, hybridLoop]
    set round := attentionGroups.zipIdx.foldl
      (fun hit g => kv.hybridSpecGroup blockHashes maxLength hit g.1 g.2)
      ⟨hitLength, hits, verified⟩ with hroundDef
    obtain ⟨hle, hvalid', hlength'⟩ := hround
    split_ifs with hstable hsimple
    · refine ⟨hvalid', fun hone groupIds hids groupId l mgr hentry hmgr hmem => ?_⟩
      refine hlength' groupId l mgr hentry hmgr ?_
      obtain ⟨hnot, g, hg, hig⟩ := hids groupId hmem
      rw [nil_append, mem_flatMap]
      obtain ⟨c, hc⟩ := getElem?_of_mem hg
      refine ⟨(g, c), mem_zipIdx_iff_getElem?.mpr hc, ?_⟩
      rwa [if_neg (not_full_of_not_trimmed hone hg hig hnot)]
    · -- Two groups, full attention first: the second one fixes the length.
      refine ⟨hvalid', fun hone groupIds hids groupId l mgr hentry hmgr hmem => ?_⟩
      obtain ⟨hnot, g, hg, hig⟩ := hids groupId hmem
      obtain ⟨first, second, hgroups⟩ := length_eq_two.mp hsimple.1
      subst hgroups
      have hsecond : g = second := by
        rcases mem_cons.mp hg with rfl | hg
        · have hfull : g.isFullAttention = true := by simpa using hsimple.2
          exact absurd hfull (not_full_of_not_trimmed hone mem_cons_self hig hnot)
        · exact mem_singleton.mp hg
      obtain ⟨hfirstLe, hfirstValid, -, -⟩ := hybridSpecGroup_spec maxLength hconfig
        mem_cons_self ⟨hitLength, hits, verified⟩ 0 hitLength [] hvalid
        (fun _ _ _ _ _ hmem => absurd hmem (by simp)) le_rfl
      obtain ⟨-, -, -, hlast⟩ := hybridSpecGroup_spec maxLength hconfig
        (mem_cons_of_mem first mem_cons_self) _ 1 hitLength [] hfirstValid
        (fun _ _ _ _ _ hmem => absurd hmem (by simp)) hfirstLe
      exact hlast (hone second mem_cons_self) groupId l mgr hentry hmgr (hsecond ▸ hig)
    · exact ih round.currHitLength round.hitBlocksByGroup round.eagleVerified (by omega) hvalid'

theorem getElem?_foldl_trim (n : ℕ) (groupIds : List ℕ) (hits : List (Option (List BlockId)))
    (i : ℕ) (l : List BlockId)
    (h : (groupIds.foldl (fun hits groupId => hits.modify groupId (Option.map (·.take n)))
      hits)[i]? = some (some l)) :
    ∃ l', hits[i]? = some (some l') ∧ l <+: l' ∧ (i ∉ groupIds → l = l') ∧ (i ∈ groupIds → l.length ≤ n) := by
  induction groupIds generalizing hits with
  | nil => exact ⟨l, h, prefix_rfl, fun _ => rfl, fun hmem => absurd hmem (by simp)⟩
  | cons groupId rest ih =>
    obtain ⟨l', hl', hprefixed, hout, hin⟩ := ih _ h
    rw [getElem?_modify] at hl'
    split_ifs at hl' with heq
    · cases hold : hits[i]? with
      | none => simp [hold] at hl'
      | some entry =>
        cases entry with
        | none => simp [hold] at hl'
        | some whole =>
          simp only [hold, Option.map_eq_map, map_some, some.injEq] at hl'
          subst hl'
          refine ⟨whole, rfl, hprefixed.trans ( take_prefix _ _), fun hnot => ?_, fun _ => ?_⟩
          · exact absurd (mem_cons.mpr (Or.inl heq.symm)) hnot
          · exact hprefixed.length_le.trans (by rw [length_take]; exact min_le_left _ _)
    refine ⟨l', by simpa using hl', hprefixed, fun hnot => ?_, fun hmem => ?_⟩
    · exact hout fun hmem => hnot (mem_cons_of_mem _ hmem)
    · rcases mem_cons.mp hmem with rfl | hmem
      · exact absurd rfl heq
      · exact hin hmem

theorem getElem?_trimFirstGroup (hitLength : ℕ) (hits : List (Option (List BlockId))) (i : ℕ)
    (l : List BlockId) (h : (trimFirstGroup attentionGroups hitLength hits)[i]? = some (some l)) :
    ∃ l', hits[i]? = some (some l') ∧ l <+: l' ∧ (i ∉ trimmedGroupIds attentionGroups → l = l') ∧
      (i ∈ trimmedGroupIds attentionGroups →
        ∃ g ∈ attentionGroups, i ∈ g.groupIds ∧ l.length ≤ hitLength / g.spec.blockSize) := by
  cases attentionGroups with
  | nil => exact ⟨l, h, prefix_rfl, fun _ => rfl, fun hmem => absurd hmem (by simp [trimmedGroupIds])⟩
  | cons first rest =>
    cases hfull : first.isFullAttention with
    | false =>
      simp only [trimFirstGroup, head?_cons, hfull, Bool.false_eq_true, if_false] at h
      exact ⟨l, h, prefix_rfl, fun _ => rfl, fun hmem =>
        absurd hmem (by simp [trimmedGroupIds, Option.filter, hfull])⟩
    | true =>
      simp only [trimFirstGroup, head?_cons, hfull, if_true] at h
      obtain ⟨l', hl', hprefixed, hout, hin⟩ := getElem?_foldl_trim _ _ _ _ _ h
      have hids : trimmedGroupIds (first :: rest) = first.groupIds := by
        simp [trimmedGroupIds, Option.filter, hfull]
      rw [hids]
      exact ⟨l', hl', hprefixed, hout, fun hmem => ⟨first, mem_cons_self, hmem, hin hmem⟩⟩

/-- The configuration facts that every operation keeps. -/
structure ConfigInv (kv : KVCacheManager H) : Prop where
  numGpuBlocks_pos : 0 < kv.pool.numGpuBlocks
  blockSize_pos : ∀ mgr ∈ kv.managers, 0 < mgr.blockSize
  window_pos : ∀ mgr ∈ kv.managers, ∀ w, mgr.spec.kind = .slidingWindow w → 0 < w
  unitary : kv.coordinator = .unitary → kv.managers.length = 1
  hybrid : ∀ attentionGroups, kv.coordinator = .hybrid attentionGroups →
    kv.HybridConfig attentionGroups ∧
      ∀ i < kv.managers.length, ∃ g ∈ attentionGroups, i ∈ g.groupIds

def OneFullAttention (kv : KVCacheManager H) : Prop :=
  ∀ attentionGroups, kv.coordinator = .hybrid attentionGroups →
    OneFullAttentionGroup attentionGroups

structure HitsOk (kv : KVCacheManager H) (hits : List (List BlockId)) (hitLength : ℕ) : Prop where
  distinct : ∀ i block, block ≠ nullBlock → (hits.getD i []).count block ≤ 1
  lt : ∀ i, ∀ block ∈ hits.getD i [], block < kv.pool.numGpuBlocks
  length : kv.OneFullAttention → ∀ (i : ℕ) (mgr : SingleTypeManager), kv.managers[i]? = some mgr →
    (hits.getD i []).length * mgr.blockSize ≤ hitLength

omit [DecidableEq H] in
theorem HitsOk.empty (kv : KVCacheManager H) (n hitLength : ℕ) : kv.HitsOk (List.replicate n []) hitLength := by
  have hnil (i : ℕ) : (List.replicate n ([] : List BlockId))[i]?.getD [] = [] := by
    rw [getElem?_replicate]
    split_ifs <;> rfl
  exact ⟨by simp [hnil], by simp [hnil], by simp [hnil]⟩

section

variable (hconfig : kv.ConfigInv) (hindex : kv.pool.IndexInv)
include hconfig hindex

theorem HitsOk.of_valid {hits : List (List BlockId)} {hitLength : ℕ}
    (hvalid : ∀ (i : ℕ) (l : List BlockId), hits[i]? = some l →
      ∃ hashes : List (List H), hashes.Nodup ∧ ValidHits kv.pool hashes i l)
    (hlength : kv.OneFullAttention → ∀ (i : ℕ) (l : List BlockId) (mgr : SingleTypeManager),
      hits[i]? = some l → kv.managers[i]? = some mgr → l.length * mgr.blockSize ≤ hitLength) :
    kv.HitsOk hits hitLength := by
  have hpos := hconfig.numGpuBlocks_pos
  have hdistinct (i : ℕ) : (∀ block, block ≠ nullBlock → (hits.getD i []).count block ≤ 1) ∧
      ∀ block ∈ hits.getD i [], block < kv.pool.numGpuBlocks := by
    rw [getD_eq_getElem?_getD]
    cases hi : hits[i]? with
    | none => simp
    | some l =>
      obtain ⟨hashes, hnodup, hl⟩ := hvalid i l hi
      exact hl.distinct hindex hpos hnodup
  refine ⟨fun i => (hdistinct i).1, fun i => (hdistinct i).2, fun hone i mgr hmgr => ?_⟩
  rw [getD_eq_getElem?_getD]
  cases hi : hits[i]? with
  | none => simp
  | some l => exact hlength hone i l mgr hi hmgr

omit hconfig hindex in
theorem getElem?_of_getD {hits : List (Option (List BlockId))} {l : List BlockId}
    (hl : (hits.map (·.getD []))[i]? = some l) (hne : l ≠ []) : hits[i]? = some (some l) := by
  obtain ⟨entry, hentry, rfl⟩ := Option.map_eq_some_iff.mp ((getElem?_map ..).symm.trans hl)
  cases entry with
  | none => exact absurd rfl hne
  | some l => exact hentry

/-- `find_longest_cache_hit` returns fine hits. -/
theorem findLongestCacheHit_ok (hnodup : blockHashes.Nodup) :
    kv.HitsOk (kv.findLongestCacheHit blockHashes maxLength).1
      (kv.findLongestCacheHit blockHashes maxLength).2 := by
  unfold findLongestCacheHit
  cases hkind : kv.coordinator with
  | noPrefixCache =>
    rw [map_const']
    exact HitsOk.empty kv _ 0
  | unitary =>
    obtain ⟨mgr, hmgrs⟩ := length_eq_one_iff.mp (hconfig.unitary hkind)
    simp only [hmgrs, head?_cons]
    refine HitsOk.of_valid hconfig hindex (fun i l hl => ?_) fun _ i l mgr' hl hmgr => ?_
    · obtain ⟨rfl, rfl⟩ : i = 0 ∧ _ = l := by simpa [List.getElem?_singleton] using hl
      refine ⟨blockHashes.map fun h => [h], hnodup.map fun a b hab => (List.cons.inj hab).1, ?_⟩
      exact (findLongestCacheHit_spec ..).1.column rfl
    · obtain ⟨rfl, rfl⟩ : i = 0 ∧ _ = l := by simpa [List.getElem?_singleton] using hl
      rw [hmgrs] at hmgr
      cases hmgr
      rw [length_map]
  | hybrid attentionGroups =>
    obtain ⟨hhybrid, hcover⟩ := hconfig.hybrid attentionGroups hkind
    have hnone : kv.RecordedValid blockHashes (kv.managers.map fun _ => none) := by
      intro i l hl
      rw [map_const', getElem?_replicate] at hl
      split_ifs at hl
      · cases some.inj hl
    obtain ⟨hvalid, hlength⟩ := hybridLoop_spec maxLength hhybrid (maxLength + 1) maxLength
      (kv.managers.map fun _ => none) [] (Nat.lt_succ_self _) hnone
    set found := kv.hybridLoop attentionGroups blockHashes maxLength (maxLength + 1) maxLength
      (kv.managers.map fun _ => none) [] with hfound
    refine HitsOk.of_valid hconfig hindex (fun i l hl => ?_) fun hone i l mgr hl hmgr => ?_
    · rcases eq_or_ne l [] with rfl | hne
      · exact ⟨[], nodup_nil, fun j block hj => by simp at hj⟩
      · obtain ⟨l', hl', hprefixed, -, -⟩ := getElem?_trimFirstGroup _ _ _ _ (getElem?_of_getD hl hne)
        obtain ⟨hashes, hhashes, hl''⟩ := hvalid i l' hl'
        exact ⟨hashes, hhashes hnodup, hl''.mono hprefixed⟩
    rcases eq_or_ne l [] with rfl | hne
    · simp
    obtain ⟨l', hl', -, hout, hin⟩ := getElem?_trimFirstGroup _ _ _ _ (getElem?_of_getD hl hne)
    by_cases htrim : i ∈ trimmedGroupIds attentionGroups
    · obtain ⟨g, hg, hig, hle⟩ := hin htrim
      rw [hhybrid.blockSize_eq hg hig hmgr]
      exact (Nat.le_div_iff_mul_le (hhybrid.size g hg)).mp hle
    rw [hout htrim]
    refine hlength (hone attentionGroups hkind) [i] (fun j hj => ?_) i l' mgr hl' hmgr mem_cons_self
    rw [mem_singleton.mp hj]
    exact ⟨htrim, hcover i (List.getElem?_eq_some_iff.mp hmgr).1⟩

theorem getComputedBlocks_ok (r : Request H F) (hnodup : r.blockHashes.Nodup) :
    kv.HitsOk (kv.getComputedBlocks r).1 (kv.getComputedBlocks r).2 := by
  unfold getComputedBlocks
  split_ifs
  · rw [map_const']
    exact HitsOk.empty kv _ 0
  · exact findLongestCacheHit_ok _ hconfig hindex hnodup

end

end KVCacheManager

end VllmPs
