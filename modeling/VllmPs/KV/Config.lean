import VllmPs.KV.CacheHits

/-!
# Configurations of the cache manager

Grouping KV cache groups by spec puts every group into the spec group of its own spec, so
the manager built from a well-formed configuration has the facts that the cache lookup
relies on.
-/

namespace VllmPs

open SingleTypeManager List

variable {H : Type}
variable {split : List SpecGroup}

structure SplitInv (seen : List (KVCacheSpec × ℕ)) (split : List SpecGroup) : Prop where
  ids : ∀ g ∈ split, ∀ groupId ∈ g.groupIds, (g.spec, groupId) ∈ seen
  specs : ∀ g ∈ split, ∃ groupId, (g.spec, groupId) ∈ seen
  cover : ∀ e ∈ seen, ∃ g ∈ split, e.2 ∈ g.groupIds

theorem mem_addToSpecGroups {spec : KVCacheSpec} {groupId : ℕ} {useEagle : Bool}
    {g : SpecGroup} (h : g ∈ addToSpecGroups spec groupId useEagle split) :
    g ∈ split ∨ g.spec = spec ∧ ∀ i ∈ g.groupIds, i = groupId ∨ ∃ g' ∈ split, g'.spec = spec ∧ i ∈ g'.groupIds := by
  induction split with
  | nil =>
    obtain rfl := mem_singleton.mp h
    exact Or.inr ⟨rfl, fun i hi => Or.inl (mem_singleton.mp hi)⟩
  | cons first rest ih =>
    unfold addToSpecGroups at h
    split_ifs at h with hspec
    · rcases mem_cons.mp h with rfl | h
      · refine Or.inr ⟨hspec, fun i hi => ?_⟩
        rcases mem_append.mp hi with hi | hi
        · exact Or.inr ⟨first, mem_cons_self, hspec, hi⟩
        · exact Or.inl (mem_singleton.mp hi)
      · exact Or.inl (mem_cons_of_mem _ h)
    rcases mem_cons.mp h with rfl | h
    · exact Or.inl mem_cons_self
    rcases ih h with hold | ⟨hs, hids⟩
    · exact Or.inl (mem_cons_of_mem _ hold)
    · refine Or.inr ⟨hs, fun i hi => (hids i hi).imp_right ?_⟩
      rintro ⟨g', hg', hg⟩
      exact ⟨g', mem_cons_of_mem _ hg', hg⟩

theorem exists_mem_addToSpecGroups {spec : KVCacheSpec} {groupId i : ℕ} {useEagle : Bool}
    (h : i = groupId ∨ ∃ g ∈ split, i ∈ g.groupIds) :
    ∃ g ∈ addToSpecGroups spec groupId useEagle split, i ∈ g.groupIds := by
  induction split with
  | nil =>
    rcases h with rfl | ⟨g, hg, -⟩
    · exact ⟨_, mem_singleton_self _, mem_singleton_self _⟩
    · simp at hg
  | cons first rest ih =>
    unfold addToSpecGroups
    split_ifs with hspec
    · rcases h with rfl | ⟨g, hg, hi⟩
      · exact ⟨_, mem_cons_self, by simp⟩
      · rcases mem_cons.mp hg with rfl | hg
        · exact ⟨_, mem_cons_self, by simp [hi]⟩
        · exact ⟨g, mem_cons_of_mem _ hg, hi⟩
    rcases h with rfl | ⟨g, hg, hi⟩
    · obtain ⟨g, hg, hi⟩ := ih (Or.inl rfl)
      exact ⟨g, mem_cons_of_mem _ hg, hi⟩
    · rcases mem_cons.mp hg with rfl | hg
      · exact ⟨g, mem_cons_self, hi⟩
      · obtain ⟨g', hg', hi'⟩ := ih (Or.inr ⟨g, hg, hi⟩)
        exact ⟨g', mem_cons_of_mem _ hg', hi'⟩

theorem SplitInv.add {seen : List (KVCacheSpec × ℕ)} (h : SplitInv seen split)
    (spec : KVCacheSpec) (groupId : ℕ) (useEagle : Bool) :
    SplitInv (seen ++ [(spec, groupId)]) (addToSpecGroups spec groupId useEagle split) := by
  refine ⟨fun g hg i hi => ?_, fun g hg => ?_, fun e he => ?_⟩
  · rcases mem_addToSpecGroups hg with hold | ⟨rfl, hids⟩
    · exact mem_append_left _ (h.ids g hold i hi)
    · rcases hids i hi with rfl | ⟨g', hg', hspec, hi'⟩
      · exact mem_append_right _ (mem_singleton_self _)
      · exact mem_append_left _ (hspec ▸ h.ids g' hg' i hi')
  · rcases mem_addToSpecGroups hg with hold | ⟨rfl, -⟩
    · obtain ⟨i, hi⟩ := h.specs g hold
      exact ⟨i, mem_append_left _ hi⟩
    · exact ⟨groupId, mem_append_right _ (mem_singleton_self _)⟩
  · refine exists_mem_addToSpecGroups ?_
    rcases mem_append.mp he with he | he
    · exact Or.inr (h.cover e he)
    · exact Or.inl (by rw [mem_singleton.mp he])

theorem splitKvCacheGroups_inv (groups : List (KVCacheSpec × Bool)) :
    SplitInv (groups.zipIdx.map fun g => (g.1.1, g.2)) (splitKvCacheGroups groups) := by
  have hfold (entries : List ((KVCacheSpec × Bool) × ℕ)) (seen : List (KVCacheSpec × ℕ))
      (split : List SpecGroup) (h : SplitInv seen split) :
      SplitInv (seen ++ entries.map fun g => (g.1.1, g.2))
        (entries.foldl (fun split g => addToSpecGroups g.1.1 g.2 g.1.2 split) split) := by
    induction entries generalizing seen split with
    | nil => simpa using h
    | cons e rest ih =>
      have := ih _ _ (h.add e.1.1 e.2 e.1.2)
      simpa [append_assoc] using this
  have hall := hfold groups.zipIdx [] [] ⟨by simp, by simp, by simp⟩
  rw [nil_append] at hall
  have hmem (g : SpecGroup) : g ∈ splitKvCacheGroups groups ↔ g ∈ groups.zipIdx.foldl
      (fun split g => addToSpecGroups g.1.1 g.2 g.1.2 split) [] := by
    unfold splitKvCacheGroups
    cases hfull : g.isFullAttention <;> simp [hfull]
  refine ⟨fun g hg => hall.ids g ((hmem g).mp hg), fun g hg => hall.specs g ((hmem g).mp hg), fun e he => ?_⟩
  obtain ⟨g, hg, hi⟩ := hall.cover e he
  exact ⟨g, (hmem g).mpr hg, hi⟩

namespace KVCacheConfig

/-- What the constructors assert about a configuration. -/
structure WellFormed (config : KVCacheConfig) : Prop where
  numBlocks_pos : 0 < config.numBlocks
  hashBlockSize_pos : 0 < config.hashBlockSize
  blockSize_pos : ∀ g ∈ config.kvCacheGroups, 0 < g.1.blockSize
  window_pos : ∀ g ∈ config.kvCacheGroups, ∀ w, g.1.kind = .slidingWindow w → 0 < w
  divides : ∀ g ∈ config.kvCacheGroups, g.1.blockSize % config.hashBlockSize = 0

variable {config : KVCacheConfig}

theorem eagleGroups_map_fst (config : KVCacheConfig) :
    config.eagleGroups.map Prod.fst = config.kvCacheGroups.map Prod.fst := by
  unfold eagleGroups
  split_ifs <;> simp

theorem newManager_specs (config : KVCacheConfig) :
    (config.newManager : KVCacheManager H).managers.map spec = config.kvCacheGroups.map Prod.fst := by
  conv_rhs => rw [← List.zipIdx_map_fst 0 config.kvCacheGroups, map_map]
  rw [newManager, map_map]
  rfl

theorem WellFormed.newManager (h : config.WellFormed) : (config.newManager : KVCacheManager H).ConfigInv := by
  have hspecs := newManager_specs (H := H) config
  have hgroup (mgr : SingleTypeManager) (hmem : mgr ∈ (config.newManager : KVCacheManager H).managers) :
      ∃ g ∈ config.kvCacheGroups, g.1 = mgr.spec := by
    have := mem_map_of_mem (f := spec) hmem
    rw [hspecs] at this
    exact mem_map.mp this
  refine ⟨h.numBlocks_pos, fun mgr hmem => ?_, fun mgr hmem w hw => ?_, fun hunitary => ?_,
    fun groups hhybrid => ?_⟩
  · obtain ⟨g, hg, heq⟩ := hgroup mgr hmem
    rw [blockSize, ← heq]
    exact h.blockSize_pos g hg
  · obtain ⟨g, hg, heq⟩ := hgroup mgr hmem
    exact h.window_pos g hg w (heq ▸ hw)
  · have hlength := congrArg List.length hspecs
    rw [length_map, length_map] at hlength
    rw [hlength]
    change config.coordinatorKind = .unitary at hunitary
    unfold coordinatorKind at hunitary
    split_ifs at hunitary with _ hone
    exact hone
  change config.coordinatorKind = .hybrid groups at hhybrid
  unfold coordinatorKind at hhybrid
  split_ifs at hhybrid
  obtain rfl := CoordinatorKind.hybrid.inj hhybrid
  have hsplit := splitKvCacheGroups_inv config.eagleGroups
  have hseen (e : KVCacheSpec × ℕ) (he : e ∈ config.eagleGroups.zipIdx.map fun g => (g.1.1, g.2)) :
      (config.kvCacheGroups.map Prod.fst)[e.2]? = some e.1 := by
    obtain ⟨g, hg, rfl⟩ := mem_map.mp he
    rw [← eagleGroups_map_fst, getElem?_map, mem_zipIdx_iff_getElem?.mp hg]
    rfl
  have hfrom (g : SpecGroup) (hg : g ∈ splitKvCacheGroups config.eagleGroups) :
      ∃ g' ∈ config.kvCacheGroups, g'.1 = g.spec := by
    obtain ⟨i, hi⟩ := hsplit.specs g hg
    exact mem_map.mp (mem_of_getElem? (hseen _ hi))
  refine ⟨⟨fun g hg => ?_, fun g hg _ => ?_, fun g hg groupId hid => ?_⟩, fun i hi => ?_⟩
  · obtain ⟨g', hg', heq⟩ := hfrom g hg
    exact heq ▸ h.blockSize_pos g' hg'
  · obtain ⟨g', hg', heq⟩ := hfrom g hg
    refine Nat.div_pos (Nat.le_of_dvd (heq ▸ h.blockSize_pos g' hg') ?_) h.hashBlockSize_pos
    exact heq ▸ Nat.dvd_of_mod_eq_zero (h.divides g' hg')
  · rw [← getElem?_map, hspecs]
    exact hseen _ (hsplit.ids g hg groupId hid)
  have hlength : i < config.eagleGroups.length := by
    have h₁ := congrArg List.length hspecs
    have h₂ := congrArg List.length (eagleGroups_map_fst config)
    simp only [length_map] at h₁ h₂
    omega
  have hmem : ((config.eagleGroups[i]).1, i) ∈ config.eagleGroups.zipIdx.map fun g => (g.1.1, g.2) :=
    mem_map.mpr ⟨(config.eagleGroups[i], i),
      mem_zipIdx_iff_getElem?.mpr (getElem?_eq_getElem hlength), rfl⟩
  exact hsplit.cover _ hmem

end KVCacheConfig

end VllmPs
