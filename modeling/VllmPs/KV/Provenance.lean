import VllmPs.KV.RefCounts
import VllmPs.Request.BlockHasher

/-!
# Where cached blocks come from

Along every run of the cache manager, the prefix-cache index holds only keys made of block hashes of requests
that were given to it. If a hash determines what was hashed, a hit of a request is therefore a block that was
registered for the same tokens and extra keys.
-/

namespace VllmPs

open Lib BlockPool SingleTypeManager List

variable {H F : Type}

/-! ## Keys of the index -/

/-- Every key of the index has a property. -/
def BlockPool.KeysIn (P : BlockKey H → Prop) (pool : BlockPool H) : Prop :=
  ∀ key ∈ pool.cachedBlockHashToBlock, P key

variable {P : BlockKey H → Prop} {pool pool' : BlockPool H} {blocks : List BlockId}

namespace BlockPool.KeysIn

theorem of_index_eq (h : pool.KeysIn P) (heq : pool'.cachedBlockHashToBlock = pool.cachedBlockHashToBlock) :
    pool'.KeysIn P := by
  rw [KeysIn, heq]
  exact h

section

variable (h : pool.KeysIn P)
include h

theorem touch : Ensures (KeysIn P) (pool.touch blocks) :=
  .foldlM (fun _ _ _ h => .ite (fun _ => .ite (fun _ => .ok h) fun _ => .error) fun _ => .ok h) h

theorem freeBlocks (blocks : List BlockId) (prepend : Bool) : (pool.freeBlocks blocks prepend).KeysIn P := by
  refine h.of_index_eq ?_
  change (blocks.foldl (addRef · (-1)) pool).cachedBlockHashToBlock = _
  clear h
  induction blocks generalizing pool with
  | nil => rfl
  | cons block blocks ih => exact ih

theorem resetPrefixCache : pool.resetPrefixCache.1.KeysIn P := by
  unfold BlockPool.resetPrefixCache
  split_ifs
  · exact h
  · exact fun key hkey => absurd hkey (AList.notMem_empty key)

variable [DecidableEq H]

theorem maybeEvictCachedBlock (block : BlockId) : (pool.maybeEvictCachedBlock block).KeysIn P := by
  unfold BlockPool.maybeEvictCachedBlock
  split
  · exact h
  rename_i key _
  have hpop : ∀ key' ∈ (pool.cachedBlockHashToBlock.popBlock key block).2, P key' := by
    intro key' hmem
    unfold BlockHashToBlockMap.popBlock at hmem
    split at hmem
    · exact h key' hmem
    · split_ifs at hmem
      · exact h key' (AList.mem_erase.mp hmem).2
      · exact h key' hmem
    · rename_i hlookup
      dsimp only at hmem
      split_ifs at hmem
      · exact h key' (AList.mem_erase.mp hmem).2
      · rcases (AList.mem_insert _).mp hmem with rfl | hmem
        · exact h _ (Table.mem_of_lookup hlookup)
        · exact h key' hmem
  dsimp only
  split_ifs <;> exact hpop

theorem takeBlock {block : BlockId} : Ensures (KeysIn P) (pool.takeBlock block) := by
  have hevicted : (if pool.enableCaching then pool.maybeEvictCachedBlock block else pool).KeysIn P := by
    split_ifs
    · exact h.maybeEvictCachedBlock block
    · exact h
  exact .ite (fun _ => .error) fun _ => .ok hevicted

theorem getNewBlocks {n : ℤ} : Ensures (fun r => r.1.KeysIn P) (pool.getNewBlocks n) := by
  refine .ite (fun _ => .error) fun _ => .ite (fun _ => .error) fun _ => .bind fun pool' hpool' => .ok ?_
  refine foldlM_invariant (P := KeysIn P) _ (fun _ _ _ _ h hstep => h.takeBlock hstep) ?_ hpool'
  exact h

theorem evictBlocks {blockIds : List BlockId} : Ensures (KeysIn P) (pool.evictBlocks blockIds) :=
  .foldlM (fun _ block _ h => .ite (fun _ => .ok (h.maybeEvictCachedBlock block)) fun _ => .error) h

theorem cacheLoop {hashes : List (List H)} {groupId : ℕ} (hkeys : ∀ hash ∈ hashes, P ⟨hash, groupId⟩) (i : ℕ)
    (entries : List (BlockId × Bool)) : Ensures (KeysIn P) (cacheLoop hashes groupId i entries pool) := by
  induction entries generalizing i pool with
  | nil => exact .ok h
  | cons entry entries ih =>
    refine .ite (fun _ => ih h _) fun _ => ?_
    cases hhash : hashes[i]? with
    | none => exact .ite (fun _ => .error) fun _ => .error
    | some hash =>
      refine .bind fun pool' hpool' => ih (?_ : pool'.KeysIn P) _
      unfold BlockPool.cacheBlock at hpool'
      split_ifs at hpool'
      cases hpool'
      intro key hkey
      have hinsert : key = ⟨hash, groupId⟩ ∨ key ∈ pool.cachedBlockHashToBlock := by
        change key ∈ pool.cachedBlockHashToBlock.insertBlock _ _ at hkey
        unfold BlockHashToBlockMap.insertBlock at hkey
        split at hkey <;> exact (AList.mem_insert _).mp hkey
      exact hinsert.elim (fun heq => heq ▸ hkeys hash (mem_of_getElem? hhash)) (h key)

end

end BlockPool.KeysIn

/-- A key made of block hashes of one of the requests. -/
def KeyOf (requests : Set (Request H F)) (key : BlockKey H) : Prop :=
  ∃ r ∈ requests, ∀ h ∈ key.hashes, h ∈ r.blockHashes

theorem mem_of_mem_groupHashes {hashBlockSize blockSize : ℕ} {blockHashes hashes : List H} {h : H}
    (hmem : hashes ∈ groupHashes hashBlockSize blockSize blockHashes) (h' : h ∈ hashes) : h ∈ blockHashes := by
  unfold groupHashes at hmem
  split_ifs at hmem <;> obtain ⟨i, hi, rfl⟩ := mem_map.mp hmem
  · exact mem_singleton.mp h' ▸ hi
  · exact mem_of_mem_drop (mem_of_mem_take h')

/-- An exact hash of a block is the digest of the contents of the blocks up to it. -/
theorem BlockHasher.digest_of_getElem? {hasher : BlockHasher H} {r : Request H F} {n : ℕ} {h : H}
    (hr : r.blockHashes = hasher.exactBlockHashes r) (hn : r.blockHashes[n]? = some h) :
    ((range (n + 1)).map (hasher.payloadWith r r.mmFeatures)).foldl hasher.chainStep hasher.noneHash = h := by
  rw [hr, BlockHasher.exactBlockHashes] at hn
  have hlt : n < (hasher.exactPayloads r).length := by simpa using (List.getElem?_eq_some_iff.mp hn).1
  rw [hashChain_getElem? _ _ _ _ hlt, BlockHasher.exactPayloads, ← map_take, take_range,
    min_eq_left (by simpa [BlockHasher.exactPayloads] using hlt)] at hn
  exact Option.some.inj hn

/-! ## Operations of the cache manager -/

section Managers

variable {mgr : SingleTypeManager} {requestId : RequestId}

theorem keysIn_removeSkippedBlocks (h : pool.KeysIn P) (n : ℤ) :
    (mgr.removeSkippedBlocks requestId pool n).1.KeysIn P := by
  unfold SingleTypeManager.removeSkippedBlocks
  dsimp only
  split_ifs
  · exact h
  · exact (h.freeBlocks _ _).freeBlocks _ _

theorem keysIn_free (h : pool.KeysIn P) : (mgr.free requestId pool).1.KeysIn P := by
  unfold SingleTypeManager.free
  dsimp only
  split
  · exact h.freeBlocks _ _
  · exact (h.freeBlocks _ _).freeBlocks _ _

theorem keysIn_mapManagers {f : BlockPool H → SingleTypeManager → BlockPool H × SingleTypeManager}
    (hf : ∀ pool mgr, pool.KeysIn P → (f pool mgr).1.KeysIn P) (h : pool.KeysIn P)
    (managers : List SingleTypeManager) : (mapManagers f pool managers).1.KeysIn P := by
  induction managers generalizing pool with
  | nil => exact h
  | cons mgr rest ih => exact ih (hf pool mgr h)

theorem keysIn_forManagers
    {f : ℕ → BlockPool H → SingleTypeManager → Except PyError (BlockPool H × SingleTypeManager)}
    (hf : ∀ i pool mgr, pool.KeysIn P → Ensures (fun r => r.1.KeysIn P) (f i pool mgr)) (h : pool.KeysIn P)
    (i : ℕ) (managers : List SingleTypeManager) :
    Ensures (fun r => r.1.KeysIn P) (forManagers f i pool managers) := by
  induction managers generalizing i pool with
  | nil => exact .ok h
  | cons mgr rest ih =>
    exact .bind fun r hr => .bind fun others hothers => .ok
      (ih (hf i pool mgr h hr) _ hothers : others.1.KeysIn P)

theorem keysIn_aliasFromSnapshot {numCached : ℕ} {n : ℤ} (h : pool.KeysIn P) :
    Ensures (fun r => r.1.KeysIn P) (mgr.aliasRequestBlocksFromSnapshot requestId pool blocks numCached n) :=
  .ite (fun _ => .error) fun _ => .ite (fun _ => .error) fun _ => .bind fun _ htouch =>
    .ok ((h.freeBlocks _ _).touch htouch)

theorem keysIn_aliasManagers {dst : RequestId} {source : ℕ → SingleTypeManager → Option (List BlockId × ℕ)}
    {n : ℤ} (h : pool.KeysIn P) (i : ℕ) (managers : List SingleTypeManager) :
    Ensures (fun r => r.1.KeysIn P) (aliasManagers dst source n i pool managers) := by
  induction managers generalizing i pool with
  | nil => exact .ok h
  | cons mgr rest ih =>
    unfold aliasManagers
    split
    · exact .ok h
    split
    · exact .ok h
    · exact .error
    · rename_i r hr
      refine .bind fun others hothers => .ok (ih (?_ : r.1.KeysIn P) _ hothers : others.1.KeysIn P)
      exact keysIn_aliasFromSnapshot h hr

variable [DecidableEq H]

theorem keysIn_allocateNewBlocks {numTokens : ℤ} (h : pool.KeysIn P) :
    Ensures (fun r => r.1.KeysIn P) (mgr.allocateNewBlocks requestId pool numTokens) :=
  .ite (fun _ => .ok h) fun _ => .bind fun _ hnew => .ok (h.getNewBlocks hnew)

theorem keysIn_allocateNewComputedBlocks {numLocal numExternal : ℤ} (h : pool.KeysIn P) :
    Ensures (fun r => r.1.KeysIn P)
      (mgr.allocateNewComputedBlocks requestId pool blocks numLocal numExternal) := by
  refine .ite (fun _ => .ite (fun _ => .error) fun _ => .ok h) fun _ => .ite (fun _ => .error) fun _ =>
    .bind fun pool' htouch => ?_
  have hpool' : pool'.KeysIn P := by
    unfold touchComputedBlocks at htouch
    split_ifs at htouch
    · exact h.touch htouch
    · exact Except.ok.inj htouch ▸ h
  exact .ite (fun _ => .bind fun _ hnew => .ok (hpool'.getNewBlocks hnew)) fun _ => .ok hpool'

variable {requests : Set (Request H F)} {r : Request H F}

theorem keysIn_cacheBlocks (h : pool.KeysIn (KeyOf requests)) (hr : r ∈ requests) {numTokens : ℤ}
    {retentionInterval : Option ℕ} : Ensures (fun p => p.1.KeysIn (KeyOf requests))
      (mgr.cacheBlocks requestId pool r.blockHashes r.numPromptTokens numTokens retentionInterval) := by
  refine .ite (fun _ => .ok h) fun _ => .bind fun pool' hpool' => .ok (?_ : pool'.KeysIn (KeyOf requests))
  refine Ensures.ite (fun _ => .ok h) (fun _ => .ite (fun _ => .error) fun _ => .ite (fun _ => .error) fun _ =>
    .ite (fun _ => .error) fun _ => h.cacheLoop (fun hashes hmem => ?_) _ _) hpool'
  exact ⟨r, hr, fun _ => mem_of_mem_groupHashes hmem⟩

end Managers

namespace KVCacheManager

variable [DecidableEq H] {kv : KVCacheManager H} {requests : Set (Request H F)} {r : Request H F}

theorem keysIn_cacheBlocksCoordinator (h : kv.pool.KeysIn (KeyOf requests)) (hr : r ∈ requests) {n : ℤ} :
    Ensures (fun kv' => kv'.pool.KeysIn (KeyOf requests)) (kv.cacheBlocksCoordinator r n) :=
  .bind fun _ hcached => .ok (keysIn_forManagers (fun _ _ _ h => keysIn_cacheBlocks h hr) h 0 _ hcached)

theorem keysIn_allocateSlots (h : kv.pool.KeysIn (KeyOf requests)) (hr : r ∈ requests) {args : AllocateArgs} :
    Ensures (fun p => p.1.pool.KeysIn (KeyOf requests)) (kv.allocateSlots r args) := by
  have hremoved : ∀ n, (kv.removeSkippedBlocks r.requestId n).pool.KeysIn (KeyOf requests) := fun n =>
    keysIn_mapManagers (fun _ _ h => keysIn_removeSkippedBlocks h n) h _
  refine .ite (fun _ => .error) fun _ => .bind fun _ _ => .ite (fun _ => .ok h) fun _ => .bind fun _ _ =>
    .ite (fun _ => .ok (hremoved _)) fun _ => .bind fun kv' hkv' => ?_
  obtain ⟨computed, hcomputed, hkv'⟩ := bind_eq_ok.mp hkv'
  obtain ⟨allocated, hallocated, rfl⟩ := bind_pure_eq_ok.mp hkv'
  have hfirst : computed.1.KeysIn (KeyOf requests) := by
    unfold KVCacheManager.allocateNewComputedBlocks at hcomputed
    split_ifs at hcomputed
    · exact keysIn_forManagers (fun _ _ _ => keysIn_allocateNewComputedBlocks) (hremoved _) 0 _ hcomputed
    · cases hcomputed
      exact hremoved _
  have hsecond : allocated.1.KeysIn (KeyOf requests) :=
    keysIn_forManagers (fun _ _ _ => keysIn_allocateNewBlocks) hfirst 0 _ hallocated
  exact .ite (fun _ => .ok hsecond) fun _ => .bind fun _ hcached =>
    .ok (keysIn_cacheBlocksCoordinator hsecond hr hcached)

end KVCacheManager

/-! ## Runs -/

variable [DecidableEq H] {requests : Set (Request H F)}

/-- The request that an operation is given is one of the requests. -/
def KVOp.OfRequests (requests : Set (Request H F)) : KVOp H F → Prop
  | .allocateSlots r _ _ | .cacheBlocks r _ => r ∈ requests
  | _ => True

theorem KVState.keysIn_step {s : KVState H} (h : s.manager.pool.KeysIn (KeyOf requests)) {op : KVOp H F}
    (hop : op.OfRequests requests) : Ensures (fun s' => s'.manager.pool.KeysIn (KeyOf requests)) (s.step op) := by
  cases op with
  | allocateSlots r withHits args =>
    exact .bind fun _ hkv => .ok (KVCacheManager.keysIn_allocateSlots h hop hkv)
  | free requestId => exact .ok (keysIn_mapManagers (fun _ _ => keysIn_free) h _)
  | cacheBlocks r n =>
    exact .bind fun kv hkv => .ok (Ensures.ite
      (fun _ => KVCacheManager.keysIn_cacheBlocksCoordinator h hop) (fun _ => .ok h) hkv)
  | removeSkippedBlocks requestId n => exact .ok (keysIn_mapManagers (fun _ _ h => keysIn_removeSkippedBlocks h n) h _)
  | aliasRequestBlocks dst src n =>
    refine .bind fun kv hkv => .ok ?_
    obtain ⟨aliased, haliased, rfl⟩ := bind_pure_eq_ok.mp hkv
    exact keysIn_aliasManagers h 0 _ haliased
  | takeSnapshot requestId => exact .ok h
  | aliasFromSnapshot dst srcBlocks srcNumCachedBlocks n =>
    refine .bind fun kv hkv => .ok ?_
    unfold KVCacheManager.aliasRequestBlocksFromSnapshot at hkv
    split_ifs at hkv
    · cases hkv
      exact h
    · obtain ⟨aliased, haliased, rfl⟩ := bind_pure_eq_ok.mp hkv
      exact keysIn_aliasManagers h 0 _ haliased
  | evictBlocks blockIds =>
    refine .bind fun kv hkv => .ok ?_
    obtain ⟨pool, hpool, rfl⟩ := bind_pure_eq_ok.mp hkv
    exact h.evictBlocks hpool
  | resetPrefixCache => exact .ok h.resetPrefixCache

theorem KVState.keysIn {s : KVState H}
    (hs : Reachable KVState.Initial (fun _ (op : KVOp H F) => op.OfRequests requests) KVState.step s) :
    s.manager.pool.KeysIn (KeyOf requests) := by
  refine hs.invariant (P := fun s => s.manager.pool.KeysIn (KeyOf requests)) ?_ fun s op s' h hop hstep =>
    KVState.keysIn_step h hop hstep
  rintro s ⟨config, -, rfl⟩ key hkey
  exact absurd hkey (AList.notMem_empty key)

/-- A hit of the one group of a manager is a block cached under the hash of its position. -/
theorem KVCacheManager.hit_mem_index {kv : KVCacheManager H} (hkind : kv.coordinator = .unitary) {r : Request H F}
    {hits : List BlockId} (hhits : hits ∈ (kv.getComputedBlocks r).1) {j : ℕ} {block : BlockId}
    (hj : hits[j]? = some block) (hnull : block ≠ nullBlock) :
    ∃ h, r.blockHashes[j]? = some h ∧ ⟨[h], 0⟩ ∈ kv.pool.cachedBlockHashToBlock := by
  have hempty : hits ∉ kv.managers.map fun _ => [] := fun hmem => by
    obtain ⟨-, -, rfl⟩ := mem_map.mp hmem
    cases hj
  unfold getComputedBlocks at hhits
  split_ifs at hhits
  · exact absurd hhits hempty
  rw [findLongestCacheHit, hkind] at hhits
  cases hmgrs : kv.managers with
  | nil => simp [hmgrs] at hhits
  | cons mgr rest =>
    simp only [hmgrs, head?_cons, mem_singleton] at hhits
    subst hhits
    rcases (findLongestCacheHit_spec ..).1.column rfl j block hj with rfl | ⟨hash, hhash, hmem⟩
    · exact absurd rfl hnull
    rw [List.getElem?_map] at hhash
    obtain ⟨h, hh, rfl⟩ := Option.map_eq_some_iff.mp hhash
    refine ⟨h, hh, ?_⟩
    by_contra hnot
    rw [BlockHashToBlockMap.blocksOf, AList.lookup_eq_none.mpr hnot] at hmem
    cases hmem

/-- In every run over a set of requests, a block that a request finds in the prefix cache at position `j` was
registered for a request of the set with the same tokens and extra keys in all blocks up to `j`. -/
theorem KVState.hit_same_payloads {hasher : BlockHasher H} (hcollision : hasher.CollisionFree)
    (hstart : ∀ h payload, hasher.chainStep h payload ≠ hasher.noneHash)
    (hexact : ∀ r ∈ requests, r.blockHashes = hasher.exactBlockHashes r) {s : KVState H}
    (hs : Reachable KVState.Initial (fun _ (op : KVOp H F) => op.OfRequests requests) KVState.step s)
    (hkind : s.manager.coordinator = .unitary) {r : Request H F} (hr : r.blockHashes = hasher.exactBlockHashes r)
    {hits : List BlockId} (hhits : hits ∈ (s.manager.getComputedBlocks r).1) {j : ℕ} {block : BlockId}
    (hj : hits[j]? = some block) (hnull : block ≠ nullBlock) :
    ∃ r' ∈ requests, ∀ k ≤ j,
      hasher.payloadWith r' r'.mmFeatures k = hasher.payloadWith r r.mmFeatures k := by
  obtain ⟨h, hh, hmem⟩ := KVCacheManager.hit_mem_index hkind hhits hj hnull
  obtain ⟨r', hr', hhashes⟩ := KVState.keysIn hs _ hmem
  obtain ⟨i, hi⟩ := getElem?_of_mem (hhashes h mem_cons_self)
  -- The two chains end in one digest, so they have the same links.
  have hsame := foldl_injective hcollision hstart _ _
    ((BlockHasher.digest_of_getElem? (hexact r' hr') hi).trans (BlockHasher.digest_of_getElem? hr hh).symm)
  obtain rfl : i = j := by simpa using congrArg length hsame
  exact ⟨r', hr', fun k hk => map_inj_left.mp hsame k (mem_range.mpr (Nat.lt_succ_of_le hk))⟩

/-- A request with its block hashes under the hasher that keeps everything. -/
def transcribed (requestId : RequestId) (tokenIds : List Token) :
    Request (List (List Token × Option (List ExtraKey))) ℚ :=
  .updateBlockHashes (some (BlockHasher.transcriptHasher 2 two_pos))
    { requestId := requestId
      promptTokenIds := some tokenIds
      numPromptTokens := tokenIds.length
      allTokenIds := tokenIds }

/-- Two requests share their first block, which the second one finds cached. -/
theorem KVState.hit_same_payloads_first_block : ∃ s : KVState (List (List Token × Option (List ExtraKey))),
    (s.manager.getComputedBlocks (transcribed "b" [7, 8, 1, 1, 1])).1 = [[1]] ∧
      ∃ r' ∈ ({transcribed "a" [7, 8, 9, 9, 9]} : Set _), ∀ k ≤ 0,
        (BlockHasher.transcriptHasher 2 two_pos).payloadWith r' r'.mmFeatures k =
          (BlockHasher.transcriptHasher 2 two_pos).payloadWith (transcribed "b" [7, 8, 1, 1, 1]) [] k := by
  obtain ⟨s, hrun, hkind, hhits⟩ := exists_ok_of_decide
    (x := run KVState.step { manager := oneFullAttentionGroup.newManager }
      [.allocateSlots (transcribed "a" [7, 8, 9, 9, 9]) true { numNewTokens := 5 }])
    (P := fun s => s.manager.coordinator = .unitary ∧
      (s.manager.getComputedBlocks (transcribed "b" [7, 8, 1, 1, 1])).1 = [[1]]) (by decide +kernel)
  have hs : Reachable KVState.Initial
      (fun _ op => op.OfRequests {transcribed "a" [7, 8, 9, 9, 9]}) KVState.step s :=
    .run (.start ⟨_, oneFullAttentionGroup_wellFormed, rfl⟩) (fun op hop _ => by rw [mem_singleton.mp hop]; rfl) hrun
  refine ⟨s, hhits, KVState.hit_same_payloads (BlockHasher.transcriptHasher_collisionFree 2 two_pos)
    (fun _ _ => cons_ne_nil _ _) (fun r hr => ?_) hs hkind (by decide +kernel)
    (hhits ▸ mem_singleton.mpr rfl) (j := 0) rfl (by decide)⟩
  rw [Set.mem_singleton_iff.mp hr]
  decide +kernel

end VllmPs
