import VllmPs.Request.Basic

/-!
# Extra keys of a block hash

`_gen_mm_extra_hash_keys` stops at the first multimodal item the block does not finish. On
sorted, disjoint items it lists exactly the items from the given index on that overlap the
block, and skips only items that end before the next block.
-/

namespace VllmPs

open List MultiModalFeature

variable {H F : Type}

inductive ExtraKey
  | lora (name : String)
  | mm (identifier : String) (relOffset : ℤ)
  | cacheSalt (salt : String)
  | promptEmbeds (digest : ℕ)
deriving DecidableEq

def MultiModalFeature.key (startTokenIdx : ℕ) (f : MultiModalFeature) : ExtraKey :=
  .mm f.identifier ((f.offset : ℤ) - startTokenIdx)

/-- The item occupies a position of the block `[startTokenIdx, endTokenIdx)`. -/
def MultiModalFeature.overlaps (startTokenIdx endTokenIdx : ℕ) (f : MultiModalFeature) : Bool :=
  f.offset < endTokenIdx && startTokenIdx < f.offset + f.length

/-- The `while` loop of `_gen_mm_extra_hash_keys` over the items from index `currMmIdx` on. -/
def mmKeysLoop (startTokenIdx endTokenIdx : ℕ) :
    List MultiModalFeature → ℕ → List ExtraKey × ℕ
  | [], currMmIdx => ([], currMmIdx)
  | f :: rest, currMmIdx =>
    if endTokenIdx > f.offset then
      if startTokenIdx ≥ f.offset + f.length then
        mmKeysLoop startTokenIdx endTokenIdx rest (currMmIdx + 1)
      else if endTokenIdx ≥ f.offset + f.length then
        let tail := mmKeysLoop startTokenIdx endTokenIdx rest (currMmIdx + 1)
        (f.key startTokenIdx :: tail.1, tail.2)
      else ([f.key startTokenIdx], currMmIdx)
    else ([], currMmIdx)

variable (mmFeatures : List MultiModalFeature)

/-- A negative index counts from the end; the code only ever passes `-1`. -/
def normalizeMmIdx (startMmIdx : ℤ) : ℕ :=
  (if startMmIdx < 0 then mmFeatures.length + startMmIdx else startMmIdx).toNat

/-- `_gen_mm_extra_hash_keys`: the keys of the block and the index to continue from. -/
def genMmExtraHashKeys (startTokenIdx endTokenIdx : ℕ) (startMmIdx : ℤ) : List ExtraKey × ℤ :=
  match mmFeatures.getLast? with
  | none => ([], startMmIdx)
  | some lastPos =>
    if lastPos.offset + lastPos.length ≤ startTokenIdx then ([], startMmIdx)
    else
      let currMmIdx := normalizeMmIdx mmFeatures startMmIdx
      let result := mmKeysLoop startTokenIdx endTokenIdx (mmFeatures.drop currMmIdx) currMmIdx
      (result.1, result.2)

/-- `None` stands for no extra keys at all. -/
def keysOrNone (extraKeys : List ExtraKey) : Option (List ExtraKey) :=
  if extraKeys.isEmpty then none else some extraKeys

theorem keysOrNone_inj (first second : List ExtraKey) :
    keysOrNone first = keysOrNone second ↔ first = second := by
  cases first <;> cases second <;> simp [keysOrNone]

variable (embedsDigest : List ℕ → ℕ)
variable (r : Request H F)

/-- Assemble the extra keys of a block around its multimodal keys. `cache_salt` only enters the
first block and an empty salt counts as absent. -/
def extraKeysAround (startTokenIdx endTokenIdx : ℕ) (mmKeys : List ExtraKey) : Option (List ExtraKey) :=
  let loraKeys := (r.loraName.map ExtraKey.lora).toList
  let cacheSaltKeys :=
    if startTokenIdx = 0 then ((r.cacheSalt.filter (· ≠ "")).map ExtraKey.cacheSalt).toList else []
  let promptEmbedsKeys := (r.promptEmbeds.map fun rows =>
    ExtraKey.promptEmbeds (embedsDigest ((rows.drop startTokenIdx).take (endTokenIdx - startTokenIdx)))).toList
  keysOrNone (loraKeys ++ mmKeys ++ cacheSaltKeys ++ promptEmbedsKeys)

theorem extraKeysAround_inj (a b : ℕ) (first second : List ExtraKey) :
    extraKeysAround embedsDigest r a b first = extraKeysAround embedsDigest r a b second ↔
      first = second := by
  simp only [extraKeysAround, keysOrNone_inj, append_cancel_right_eq, append_cancel_left_eq]

/-- `generate_block_hash_extra_keys` -/
def generateBlockHashExtraKeys
    (startTokenIdx endTokenIdx : ℕ) (startMmIdx : ℤ) : Option (List ExtraKey) × ℤ :=
  let mm := genMmExtraHashKeys r.mmFeatures startTokenIdx endTokenIdx startMmIdx
  (extraKeysAround embedsDigest r startTokenIdx endTokenIdx mm.1, mm.2)

/-- What the multimodal keys of a block should be: one per overlapping item, in order. -/
def overlapKeys (startTokenIdx endTokenIdx : ℕ) : List ExtraKey :=
  (mmFeatures.filter (·.overlaps startTokenIdx endTokenIdx)).map (·.key startTokenIdx)

/-- Items in order of offset, none reaching into the next. -/
def SortedDisjoint : Prop :=
  mmFeatures.Pairwise fun f g => f.offset + f.length ≤ g.offset

variable (mmFeatures : List MultiModalFeature) (a b : ℕ)

theorem overlapKeys_eq_nil_of_ended (hended : ∀ f ∈ mmFeatures, f.offset + f.length ≤ a)
    : overlapKeys mmFeatures a b = [] := by
  have hnone : mmFeatures.filter (·.overlaps a b) = [] := by
    rw [filter_eq_nil_iff]
    intro f hf
    have := hended f hf
    simp only [overlaps, Bool.and_eq_true, decide_eq_true_eq]
    omega
  simp [overlapKeys, hnone]

theorem overlapKeys_eq_nil_of_later (hlater : ∀ f ∈ mmFeatures, b ≤ f.offset)
    : overlapKeys mmFeatures a b = [] := by
  have hnone : mmFeatures.filter (·.overlaps a b) = [] := by
    rw [filter_eq_nil_iff]
    intro f hf
    have := hlater f hf
    simp only [overlaps, Bool.and_eq_true, decide_eq_true_eq]
    omega
  simp [overlapKeys, hnone]

theorem overlapKeys_cons_of_overlaps (f : MultiModalFeature) (rest : List MultiModalFeature)
    (a b : ℕ) (hf : f.overlaps a b = true) : overlapKeys (f :: rest) a b = f.key a :: overlapKeys rest a b := by
  simp [overlapKeys, hf]

theorem overlapKeys_cons_of_not_overlaps (f : MultiModalFeature) (rest : List MultiModalFeature)
    (a b : ℕ) (hf : f.overlaps a b = false) : overlapKeys (f :: rest) a b = overlapKeys rest a b := by
  simp [overlapKeys, hf]

theorem overlapKeys_drop_of_ended (n a b : ℕ) (hended : ∀ f ∈ mmFeatures.take n, f.offset + f.length ≤ a) :
    overlapKeys (mmFeatures.drop n) a b = overlapKeys mmFeatures a b := by
  have hnil := overlapKeys_eq_nil_of_ended (mmFeatures.take n) a b hended
  calc overlapKeys (mmFeatures.drop n) a b
      = overlapKeys (mmFeatures.take n) a b ++ overlapKeys (mmFeatures.drop n) a b := by
        rw [hnil, nil_append]
    _ = overlapKeys (mmFeatures.take n ++ mmFeatures.drop n) a b := by
        simp only [overlapKeys, filter_append, map_append]
    _ = overlapKeys mmFeatures a b := by rw [take_append_drop]

/-- One walk lists the overlapping items of the suffix it starts from, and the items it moves past
end by the end of the block. -/
theorem mmKeysLoop_spec (hab : a ≤ b) (suffix : List MultiModalFeature) (hsorted : SortedDisjoint suffix)
    (curr : ℕ) :
    (mmKeysLoop a b suffix curr).1 = overlapKeys suffix a b ∧
      ∃ passed, (mmKeysLoop a b suffix curr).2 = curr + passed ∧
        ∀ f ∈ suffix.take passed, f.offset + f.length ≤ b := by
  induction suffix generalizing curr with
  | nil => exact ⟨rfl, 0, rfl, by simp⟩
  | cons f rest ih =>
    obtain ⟨hhead, htail⟩ := pairwise_cons.mp hsorted
    obtain ⟨hkeys, passed, hnext, hpassed⟩ := ih htail (curr + 1)
    have hcons (hf : f.offset + f.length ≤ b) :
        ∀ g ∈ (f :: rest).take (passed + 1), g.offset + g.length ≤ b := by
      intro g hg
      rw [take_succ_cons, mem_cons] at hg
      rcases hg with rfl | hg
      · exact hf
      · exact hpassed g hg
    unfold mmKeysLoop
    split_ifs with hreach hpast hends
    · refine ⟨?_, passed + 1, by rw [hnext]; omega, hcons (by omega)⟩
      rw [hkeys, overlapKeys_cons_of_not_overlaps]
      simp only [overlaps, Bool.and_eq_false_iff, decide_eq_false_iff_not]
      omega
    · refine ⟨?_, passed + 1, by simp only [hnext]; omega, hcons hends⟩
      dsimp only
      rw [overlapKeys_cons_of_overlaps, hkeys]
      simp only [overlaps, Bool.and_eq_true, decide_eq_true_eq]
      omega
    · -- The item reaches past the block, so every later item starts after it.
      refine ⟨?_, 0, rfl, by simp⟩
      rw [overlapKeys_cons_of_overlaps, overlapKeys_eq_nil_of_later]
      · intro g hg
        have := hhead g hg
        omega
      · simp only [overlaps, Bool.and_eq_true, decide_eq_true_eq]
        omega
    refine ⟨?_, 0, rfl, by simp⟩
    rw [overlapKeys_eq_nil_of_later]
    intro g hg
    rcases mem_cons.mp hg with rfl | hg
    · omega
    · have := hhead g hg
      omega

theorem SortedDisjoint.ended_of_last {mmFeatures : List MultiModalFeature}
    (hsorted : SortedDisjoint mmFeatures) {last : MultiModalFeature}
    (hlast : mmFeatures.getLast? = some last) {a : ℕ} (ha : last.offset + last.length ≤ a) :
    ∀ f ∈ mmFeatures, f.offset + f.length ≤ a := by
  obtain ⟨front, rfl⟩ := List.getLast?_eq_some_iff.mp hlast
  intro f hf
  rcases mem_append.mp hf with hfront | hend
  · have hbefore := (pairwise_append.mp hsorted).2.2 f hfront last (mem_singleton.mpr rfl)
    omega
  · rwa [mem_singleton.mp hend]

/-- The keys generated from an index are those of the overlapping items from that index on, and
the returned index loses no item that a later block can meet. -/
theorem genMmExtraHashKeys_spec (hsorted : SortedDisjoint mmFeatures) (a b : ℕ) (hab : a ≤ b) (startMmIdx : ℤ) :
    (genMmExtraHashKeys mmFeatures a b startMmIdx).1 =
        overlapKeys (mmFeatures.drop (normalizeMmIdx mmFeatures startMmIdx)) a b ∧
      ∀ a' b', b ≤ a' → overlapKeys (mmFeatures.drop
            (normalizeMmIdx mmFeatures (genMmExtraHashKeys mmFeatures a b startMmIdx).2)) a' b' =
          overlapKeys (mmFeatures.drop (normalizeMmIdx mmFeatures startMmIdx)) a' b' := by
  unfold genMmExtraHashKeys
  cases hlast : mmFeatures.getLast? with
  | none =>
    rw [List.getLast?_eq_none_iff] at hlast
    subst hlast
    simp [overlapKeys]
  | some last =>
    dsimp only
    split_ifs with hended
    · refine ⟨?_, fun _ _ _ => rfl⟩
      rw [overlapKeys_eq_nil_of_ended]
      exact fun f hf => hsorted.ended_of_last hlast hended f (mem_of_mem_drop hf)
    set n := normalizeMmIdx mmFeatures startMmIdx with hn
    obtain ⟨hkeys, passed, hnext, hpassed⟩ :=
      mmKeysLoop_spec a b hab (mmFeatures.drop n) (hsorted.drop) n
    refine ⟨hkeys, fun a' b' ha' => ?_⟩
    have hnorm : normalizeMmIdx mmFeatures ((n + passed : ℕ) : ℤ) = n + passed := by
      unfold normalizeMmIdx
      rw [if_neg (by omega), Int.toNat_natCast]
    rw [hnext, hnorm, ← drop_drop, overlapKeys_drop_of_ended]
    intro f hf
    have := hpassed f hf
    omega

end VllmPs
