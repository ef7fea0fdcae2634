import VllmPs.Lib.Stripes
import VllmPs.Worker.RowContents

/-!
# Slots of a context-parallel KV cache

Stripes of consecutive positions go to the context-parallel ranks in turn. Each rank looks a position up with
the kernel's block size, while the blocks are those of the manager. If a stripe fits evenly into a kernel block,
the slot of a position is found under its number on its rank.
-/

namespace VllmPs.Worker

open Lib List

/-! ## The kernel -/

/-- `PAD_SLOT_ID` -/
def padSlotId : ℤ := -1

/-- The constants of `_compute_slot_mapping_kernel`. -/
structure SlotKernel where
  blockSize : ℕ
  totalCpWorldSize : ℕ
  totalCpRank : ℕ
  cpKvCacheInterleaveSize : ℕ
  tileSize : ℕ := 1024

namespace SlotKernel

variable (k : SlotKernel)

def virtualBlockSize : ℕ := k.blockSize * k.totalCpWorldSize

def virtualBlockOffset (pos : ℕ) : ℕ := pos - pos / k.virtualBlockSize * k.virtualBlockSize

def isLocal (pos : ℕ) : Prop :=
  k.virtualBlockOffset pos / k.cpKvCacheInterleaveSize % k.totalCpWorldSize = k.totalCpRank
  deriving Decidable

def localBlockOffset (pos : ℕ) : ℕ :=
  k.virtualBlockOffset pos / (k.totalCpWorldSize * k.cpKvCacheInterleaveSize) * k.cpKvCacheInterleaveSize +
    k.virtualBlockOffset pos % k.cpKvCacheInterleaveSize

/-- `slot_ids` for one position. -/
def slotId (blockTable : ℕ → BlockId) (rowOffset pos : ℕ) : ℤ :=
  let blockNumber := blockTable (rowOffset + pos / k.virtualBlockSize)
  if k.isLocal pos then (blockNumber * k.blockSize + k.localBlockOffset pos : ℕ) else padSlotId

/-- The batch that the kernel reads. The table is flat, with a row of `stride` entries for each request. -/
structure Input where
  numReqs : ℕ
  numTokens : ℕ
  maxNumTokens : ℕ
  queryStartLoc : ℕ → ℕ
  positions : ℕ → ℕ
  blockTable : ℕ → BlockId
  stride : ℕ

variable (input : Input)

/-- One masked store of a tile. -/
def store (start stop : ℕ) (value : ℕ → ℤ) (slots : ℕ → ℤ) : ℕ → ℤ := fun t =>
  if start ≤ t ∧ t < start + k.tileSize ∧ t < stop then value t else slots t

/-- The stores of `range(start, stop, BLOCK_SIZE)`. -/
def storeTiles (start stop : ℕ) (value : ℕ → ℤ) (slots : ℕ → ℤ) : ℕ → ℤ :=
  (List.range ((stop - start + k.tileSize - 1) / k.tileSize)).foldl
    (fun slots i => k.store (start + i * k.tileSize) stop value slots) slots

def program (slots : ℕ → ℤ) (programId : ℕ) : ℕ → ℤ :=
  if programId = input.numReqs then
    k.storeTiles input.numTokens input.maxNumTokens (fun _ => padSlotId) slots
  else
    k.storeTiles (input.queryStartLoc programId) (input.queryStartLoc (programId + 1))
      (fun t => k.slotId input.blockTable (programId * input.stride) (input.positions t)) slots

/-- `compute_slot_mapping`; the programs of the grid run in some order. -/
def computeSlotMapping (order : List ℕ) (slots : ℕ → ℤ) : ℕ → ℤ :=
  order.foldl (k.program input) slots

theorem storeTiles_apply (htile : 0 < k.tileSize) (start stop : ℕ) (value : ℕ → ℤ) (slots : ℕ → ℤ) (t : ℕ) :
    k.storeTiles start stop value slots t = if start ≤ t ∧ t < stop then value t else slots t := by
  have hbefore (n : ℕ) : (List.range n).foldl
      (fun slots i => k.store (start + i * k.tileSize) stop value slots) slots t =
        if start ≤ t ∧ t < start + n * k.tileSize ∧ t < stop then value t else slots t := by
    induction n with
    | zero => simp; omega
    | succ n ih =>
      rw [range_succ, foldl_append, foldl_cons, foldl_nil, store, ih, Nat.succ_mul]
      split_ifs <;> first | rfl | omega
  unfold storeTiles
  rw [hbefore]
  have hceil := Nat.lt_div_mul_add htile (a := stop - start + k.tileSize - 1)
  split_ifs <;> first | rfl | omega

theorem computeSlotMapping_apply (htile : 0 < k.tileSize) {order : List ℕ}
    (horder : order.Perm (List.range (input.numReqs + 1))) (hmono : Monotone input.queryStartLoc)
    (htokens : input.queryStartLoc input.numReqs ≤ input.numTokens) (slots : ℕ → ℤ) {r t : ℕ}
    (hr : r < input.numReqs) (hstart : input.queryStartLoc r ≤ t) (hstop : t < input.queryStartLoc (r + 1)) :
    k.computeSlotMapping input order slots t =
      k.slotId input.blockTable (r * input.stride) (input.positions t) := by
  have hself (slots : ℕ → ℤ) : k.program input slots r t =
      k.slotId input.blockTable (r * input.stride) (input.positions t) := by
    rw [program, if_neg hr.ne, storeTiles_apply k htile, if_pos ⟨hstart, hstop⟩]
  have hother (slots : ℕ → ℤ) {q : ℕ} (hq : q ≠ r) : k.program input slots q t = slots t := by
    unfold program
    split_ifs with hlast
    · have hle := hmono (Nat.succ_le_of_lt hr)
      rw [storeTiles_apply k htile, if_neg (by simp only [Nat.succ_eq_add_one] at hle; omega)]
    rw [storeTiles_apply k htile, if_neg]
    rintro ⟨hfirst, hlast⟩
    rcases Nat.lt_or_gt_of_ne hq with hlt | hgt
    · have := hmono (Nat.succ_le_of_lt hlt)
      simp only [Nat.succ_eq_add_one] at this
      omega
    · have := hmono (Nat.succ_le_of_lt hgt)
      simp only [Nat.succ_eq_add_one] at this
      omega
  have hmem : r ∈ order := horder.mem_iff.mpr (mem_range.mpr (by omega))
  unfold computeSlotMapping
  clear horder
  induction order using List.reverseRecOn generalizing slots with
  | nil => cases hmem
  | append_singleton order q ih =>
    rw [foldl_append, foldl_cons, foldl_nil]
    rcases eq_or_ne q r with rfl | hq
    · exact hself _
    · rw [hother _ hq]
      refine ih slots ?_
      simpa [hq.symm] using hmem

end SlotKernel

/-- One entry of `get_dcp_local_seq_lens`. -/
def getDcpLocalSeqLens (seqLen dcpSize dcpRank cpKvCacheInterleaveSize : ℕ) : ℤ :=
  let base : ℤ := seqLen / cpKvCacheInterleaveSize / dcpSize * cpKvCacheInterleaveSize
  let remainder : ℤ := seqLen - base * dcpSize
  base + min (max (remainder - dcpRank * cpKvCacheInterleaveSize) 0) cpKvCacheInterleaveSize

/-! ## The numbers of a rank's positions -/

/-- A layout that `validate_block_size` and the block table accept. -/
structure CpLayout where
  blockSize : ℕ
  kernelBlockSize : ℕ
  worldSize : ℕ
  interleaveSize : ℕ
  kernel_dvd : kernelBlockSize ∣ blockSize
  interleave_dvd : interleaveSize ∣ blockSize
  blockSize_pos : 0 < blockSize
  worldSize_pos : 0 < worldSize

namespace CpLayout

variable (c : CpLayout)

def blocksPerKvBlock : ℕ := c.blockSize / c.kernelBlockSize

/-- The kernel on a rank. -/
def kernel (rank : ℕ) : SlotKernel where
  blockSize := c.kernelBlockSize
  totalCpWorldSize := c.worldSize
  totalCpRank := rank
  cpKvCacheInterleaveSize := c.interleaveSize

/-- The number of positions among the first `n` that are local to a rank. -/
def numLocal (rank n : ℕ) : ℕ := Nat.count (c.kernel rank).isLocal n

/-- A stripe fits evenly into a kernel block, or there is one rank. -/
def Even : Prop := c.interleaveSize ∣ c.kernelBlockSize ∨ c.worldSize = 1
  deriving Decidable

theorem kernelBlockSize_pos : 0 < c.kernelBlockSize := Nat.pos_of_dvd_of_pos c.kernel_dvd c.blockSize_pos

theorem interleaveSize_pos : 0 < c.interleaveSize := Nat.pos_of_dvd_of_pos c.interleave_dvd c.blockSize_pos

theorem blocksPerKvBlock_mul : c.blocksPerKvBlock * c.kernelBlockSize = c.blockSize :=
  Nat.div_mul_cancel c.kernel_dvd

def stripes : Stripes where
  width := c.interleaveSize
  owners := c.worldSize
  width_pos := c.interleaveSize_pos
  owners_pos := c.worldSize_pos

theorem virtualBlockOffset_eq (rank p : ℕ) :
    (c.kernel rank).virtualBlockOffset p = p % (c.kernelBlockSize * c.worldSize) := by
  unfold SlotKernel.virtualBlockOffset
  rw [Nat.mul_comm, Nat.sub_eq_of_eq_add (Nat.mod_add_div _ _).symm]
  rfl

variable {c} (heven : c.Even) (p : ℕ)

include heven

theorem isLocal_iff (rank : ℕ) : (c.kernel rank).isLocal p ↔ c.stripes.owner p = rank := by
  unfold SlotKernel.isLocal
  rw [virtualBlockOffset_eq]
  change p % (c.kernelBlockSize * c.worldSize) / c.interleaveSize % c.worldSize = rank ↔
    p / c.interleaveSize % c.worldSize = rank
  rcases heven with ⟨n, hn⟩ | hone
  · rw [hn, Nat.mul_assoc, Nat.mod_mul_right_div_self, Nat.mod_mul_left_mod]
  · rw [hone, Nat.mod_one, Nat.mod_one]

theorem block_eq : p / (c.kernelBlockSize * c.worldSize) = c.stripes.index p / c.kernelBlockSize := by
  obtain ⟨a, b, i, hb, hi, rfl⟩ := c.stripes.exists_coords p
  rw [Stripes.index_coords hb hi]
  rcases heven with ⟨n, hn⟩ | hone
  · have hsize : c.kernelBlockSize * c.worldSize = c.stripes.owners * c.stripes.width * n := by
      rw [hn]
      change c.interleaveSize * n * c.worldSize = c.worldSize * c.interleaveSize * n
      ring
    have hkernel : c.kernelBlockSize = c.stripes.width * n := hn
    rw [hsize, ← Nat.div_div_eq_div_mul, Stripes.div_coords hb hi, hkernel, ← Nat.div_div_eq_div_mul,
      Nat.mul_comm a, Nat.mul_add_div c.stripes.width_pos, Nat.div_eq_of_lt hi, Nat.add_zero]
  · have howners : c.stripes.owners = 1 := hone
    obtain rfl : b = 0 := by omega
    rw [hone, howners, Nat.mul_one, Nat.mul_one, Nat.add_zero]

theorem localBlockOffset_eq (rank : ℕ) :
    (c.kernel rank).localBlockOffset p = c.stripes.index p % c.kernelBlockSize := by
  unfold SlotKernel.localBlockOffset
  rw [virtualBlockOffset_eq]
  change p % (c.kernelBlockSize * c.worldSize) / (c.worldSize * c.interleaveSize) * c.interleaveSize +
    p % (c.kernelBlockSize * c.worldSize) % c.interleaveSize = _
  change _ = (p / (c.worldSize * c.interleaveSize) * c.interleaveSize + p % c.interleaveSize) % _
  rcases heven with ⟨n, hn⟩ | hone
  · have hsize : c.kernelBlockSize * c.worldSize = c.worldSize * c.interleaveSize * n := by
      rw [hn]
      ring
    have hlt : p % c.interleaveSize < c.interleaveSize := Nat.mod_lt _ c.interleaveSize_pos
    rw [hsize, Nat.mod_mul_right_div_self, Nat.mul_comm c.worldSize, Nat.mul_assoc, Nat.mod_mul_right_mod, hn,
      Nat.mod_mul, Nat.mul_add_mod_self_right, Nat.mod_mod, Nat.mul_comm _ c.interleaveSize,
      Nat.add_comm, Nat.mul_comm (p / _), Nat.mul_add_div c.interleaveSize_pos, Nat.div_eq_of_lt hlt, Nat.add_zero]
  · rw [hone, Nat.mul_one, Nat.one_mul, Nat.div_add_mod', Nat.div_add_mod']

theorem numLocal_eq_count (rank n : ℕ) : c.numLocal rank n = Nat.count (c.stripes.owner · = rank) n := by
  unfold numLocal
  induction n with
  | zero => rfl
  | succ n ih => rw [Nat.count_succ, Nat.count_succ, ih, if_congr (isLocal_iff heven n rank) rfl rfl]

theorem numLocal_of_isLocal {rank : ℕ} (hlocal : (c.kernel rank).isLocal p) :
    c.numLocal rank p = c.stripes.index p := by
  rw [numLocal_eq_count heven, Stripes.index_eq_count, (isLocal_iff heven p rank).mp hlocal]

theorem numLocal_eq_getDcpLocalSeqLens {rank : ℕ} (hrank : rank < c.worldSize) (n : ℕ) :
    (c.numLocal rank n : ℤ) = getDcpLocalSeqLens n c.worldSize rank c.interleaveSize := by
  rw [numLocal_eq_count heven, c.stripes.count_eq_share hrank]
  unfold Stripes.share getDcpLocalSeqLens
  change ((n / (c.worldSize * c.interleaveSize) * c.interleaveSize +
    min (n % (c.worldSize * c.interleaveSize) - rank * c.interleaveSize) c.interleaveSize : ℕ) : ℤ) = _
  have hbase : ((n / (c.worldSize * c.interleaveSize) * c.interleaveSize : ℕ) : ℤ) =
      n / c.interleaveSize / c.worldSize * c.interleaveSize := by
    rw [Nat.mul_comm c.worldSize, ← Nat.div_div_eq_div_mul]
    push_cast
    rfl
  have hrest : ((n % (c.worldSize * c.interleaveSize) : ℕ) : ℤ) =
      n - n / c.interleaveSize / c.worldSize * c.interleaveSize * c.worldSize := by
    rw [← hbase, Nat.mod_eq_sub_div_mul, Nat.cast_sub (Nat.div_mul_le_self ..)]
    push_cast
    ring
  dsimp only
  rw [← hrest, ← hbase, ← Nat.cast_mul rank]
  generalize n % (c.worldSize * c.interleaveSize) = rest
  generalize rank * c.interleaveSize = start
  rw [Nat.cast_add]
  omega

end CpLayout

/-! ## The slots of a batch -/

namespace BlockRow

theorem getElem?_mapToKernelBlocks {n : ℕ} (hn : 0 < n) (blockIds : List BlockId) (j : ℕ) :
    (mapToKernelBlocks n blockIds)[j]? = blockIds[j / n]?.map (· * n + j % n) := by
  induction blockIds generalizing j with
  | nil => rfl
  | cons blockId rest ih =>
    change (((List.range n).map (blockId * n + ·)) ++ mapToKernelBlocks n rest)[j]? = _
    rcases Nat.lt_or_ge j n with hlt | hge
    · rw [getElem?_append_left (by simpa using hlt), Nat.div_eq_of_lt hlt, Nat.mod_eq_of_lt hlt]
      simp [hlt]
    · obtain ⟨i, rfl⟩ := Nat.exists_eq_add_of_le hge
      rw [getElem?_append_right (by simp), length_map, length_range, Nat.add_sub_cancel_left, ih,
        Nat.add_div_left i hn, Nat.add_mod_left, getElem?_cons_succ]

/-- The `i`-th slot of the kernel blocks of a row. -/
def slot (row : BlockRow) (blockSize i : ℕ) : ℤ := (row.cells (i / blockSize) * blockSize + i % blockSize : ℕ)

end BlockRow

/-- A step whose requests hold different blocks, with the positions of its tokens among those that the blocks of
their request can hold. The rows of the block table hold the blocks of the requests. -/
structure CpBatch (c : CpLayout) where
  numReqs : ℕ
  numTokens : ℕ
  maxNumTokens : ℕ
  queryStartLoc : ℕ → ℕ
  positions : ℕ → ℕ
  stride : ℕ
  rows : ℕ → BlockRow
  blockIds : ℕ → List BlockId
  monotone : Monotone queryStartLoc
  tokens : queryStartLoc numReqs ≤ numTokens
  holds : ∀ r < numReqs, (rows r).numbers = BlockRow.mapToKernelBlocks c.blocksPerKvBlock (blockIds r)
  fits : ∀ r < numReqs, (rows r).numBlocks ≤ stride
  nodup : ∀ r < numReqs, (blockIds r).Nodup
  disjoint : ∀ r < numReqs, ∀ r' < numReqs, r ≠ r' → (blockIds r).Disjoint (blockIds r')
  allocated : ∀ r < numReqs, ∀ t, queryStartLoc r ≤ t → t < queryStartLoc (r + 1) →
    positions t < (blockIds r).length * (c.blockSize * c.worldSize)

namespace CpBatch

variable {c : CpLayout} (b : CpBatch c)

def input : SlotKernel.Input where
  numReqs := b.numReqs
  numTokens := b.numTokens
  maxNumTokens := b.maxNumTokens
  queryStartLoc := b.queryStartLoc
  positions := b.positions
  blockTable := fun i => (b.rows (i / b.stride)).cells (i % b.stride)
  stride := b.stride

/-- The token `t` of the batch belongs to the request `r`. -/
def Token (r t : ℕ) : Prop := r < b.numReqs ∧ b.queryStartLoc r ≤ t ∧ t < b.queryStartLoc (r + 1)

/-- What the kernel stores on a rank. -/
def slotOn (order : ℕ → List ℕ) (slots : ℕ → ℕ → ℤ) (rank : ℕ) : ℕ → ℤ :=
  (c.kernel rank).computeSlotMapping b.input (order rank) (slots rank)

section

variable {b} {r t : ℕ} (heven : c.Even) (ht : b.Token r t)

include ht in
theorem index_lt : c.stripes.index (b.positions t) < (b.blockIds r).length * c.blockSize := by
  have hlt := b.allocated r ht.1 t ht.2.1 ht.2.2
  obtain ⟨a, rank, i, hrank, hi, hp⟩ := c.stripes.exists_coords (b.positions t)
  rw [hp] at hlt ⊢
  rw [Stripes.index_coords hrank hi]
  obtain ⟨n, hn⟩ := c.interleave_dvd
  have hsize : (b.blockIds r).length * (c.blockSize * c.worldSize) =
      (b.blockIds r).length * n * (c.stripes.owners * c.stripes.width) := by
    rw [hn]
    change _ * (c.interleaveSize * n * c.worldSize) = _ * (c.worldSize * c.interleaveSize)
    ring
  have ha : a < (b.blockIds r).length * n := by
    rw [hsize, ← Nat.div_lt_iff_lt_mul (Nat.mul_pos c.stripes.owners_pos c.stripes.width_pos),
      Stripes.div_coords hrank hi] at hlt
    exact hlt
  calc a * c.stripes.width + i < (a + 1) * c.stripes.width := by linarith [Nat.succ_mul a c.stripes.width]
    _ ≤ (b.blockIds r).length * n * c.stripes.width := Nat.mul_le_mul_right _ ha
    _ = (b.blockIds r).length * c.blockSize := by
      rw [hn]
      change _ * _ * c.interleaveSize = _
      ring

include ht in
theorem slot_eq : ∃ blockId, (b.blockIds r)[c.stripes.index (b.positions t) / c.blockSize]? = some blockId ∧
    c.stripes.index (b.positions t) / c.kernelBlockSize < (b.rows r).numBlocks ∧
    (b.rows r).slot c.kernelBlockSize (c.stripes.index (b.positions t)) =
      (blockId * c.blockSize + c.stripes.index (b.positions t) % c.blockSize : ℕ) := by
  have hlt := index_lt ht
  generalize c.stripes.index (b.positions t) = i at hlt ⊢
  have hpos : 0 < c.blocksPerKvBlock := Nat.div_pos (Nat.le_of_dvd c.blockSize_pos c.kernel_dvd) c.kernelBlockSize_pos
  have hblock : i / c.blockSize < (b.blockIds r).length := (Nat.div_lt_iff_lt_mul c.blockSize_pos).mpr hlt
  have hdiv : i / c.kernelBlockSize / c.blocksPerKvBlock = i / c.blockSize := by
    rw [Nat.div_div_eq_div_mul, Nat.mul_comm, c.blocksPerKvBlock_mul]
  have hcell : (b.rows r).numbers[i / c.kernelBlockSize]? =
      some ((b.blockIds r)[i / c.blockSize] * c.blocksPerKvBlock + i / c.kernelBlockSize % c.blocksPerKvBlock) := by
    rw [b.holds r ht.1, BlockRow.getElem?_mapToKernelBlocks hpos, hdiv, List.getElem?_eq_getElem hblock]
    rfl
  obtain ⟨hnum, hcell⟩ := List.getElem?_eq_some_iff.mp hcell
  have hnum' : i / c.kernelBlockSize < (b.rows r).numBlocks := by simpa [BlockRow.numbers] using hnum
  refine ⟨(b.blockIds r)[i / c.blockSize], List.getElem?_eq_getElem hblock, hnum', ?_⟩
  have hread : (b.rows r).cells (i / c.kernelBlockSize) = (b.rows r).numbers[i / c.kernelBlockSize] := by
    simp [BlockRow.numbers, slice]
  unfold BlockRow.slot
  rw [hread, hcell, Nat.add_mul, Nat.mul_assoc, c.blocksPerKvBlock_mul, Nat.add_assoc]
  congr 2
  rw [← c.blocksPerKvBlock_mul, Nat.mul_comm c.blocksPerKvBlock, Nat.mod_mul]
  ring

variable {order : ℕ → List ℕ} {slots : ℕ → ℕ → ℤ}
  (horder : ∀ rank, (order rank).Perm (List.range (b.numReqs + 1)))

include heven ht horder

theorem slotOn_eq (rank : ℕ) : b.slotOn order slots rank t =
    if (c.kernel rank).isLocal (b.positions t)
    then (b.rows r).slot c.kernelBlockSize (c.stripes.index (b.positions t)) else padSlotId := by
  unfold slotOn
  rw [(c.kernel rank).computeSlotMapping_apply b.input (by decide : 0 < 1024) (horder rank) b.monotone b.tokens _ ht.1
    ht.2.1 ht.2.2, SlotKernel.slotId]
  obtain ⟨-, -, hnum, -⟩ := slot_eq ht
  have hcell : b.input.blockTable (r * b.input.stride + b.input.positions t / (c.kernel rank).virtualBlockSize) =
      (b.rows r).cells (c.stripes.index (b.positions t) / c.kernelBlockSize) := by
    have hblock : b.input.positions t / (c.kernel rank).virtualBlockSize =
        c.stripes.index (b.positions t) / c.kernelBlockSize := CpLayout.block_eq heven _
    have hlt := hnum.trans_le (b.fits r ht.1)
    rw [hblock]
    change (b.rows ((r * b.stride + _) / b.stride)).cells ((r * b.stride + _) % b.stride) = _
    rw [Nat.mul_comm, Nat.mul_add_div (Nat.zero_lt_of_lt hlt), Nat.div_eq_of_lt hlt, Nat.mul_add_mod,
      Nat.mod_eq_of_lt hlt, Nat.add_zero]
  rw [hcell, CpLayout.localBlockOffset_eq heven]
  rfl

theorem slotOn_ne_pad_iff (rank : ℕ) :
    b.slotOn order slots rank t ≠ padSlotId ↔ (c.kernel rank).isLocal (b.positions t) := by
  rw [slotOn_eq heven ht horder]
  split_ifs with hlocal
  · simp only [hlocal, iff_true]
    unfold BlockRow.slot padSlotId
    omega
  · simp [hlocal]

theorem slotOn_injective {r' t' rank : ℕ} (ht' : b.Token r' t') (hpad : b.slotOn order slots rank t ≠ padSlotId)
    (heq : b.slotOn order slots rank t = b.slotOn order slots rank t') :
    r = r' ∧ b.positions t = b.positions t' := by
  have hlocal := (slotOn_ne_pad_iff heven ht horder rank).mp hpad
  have hlocal' := (slotOn_ne_pad_iff heven ht' horder rank).mp (heq ▸ hpad)
  rw [slotOn_eq heven ht horder, slotOn_eq heven ht' horder, if_pos hlocal, if_pos hlocal'] at heq
  obtain ⟨blockId, hblock, -, hslot⟩ := slot_eq ht
  obtain ⟨blockId', hblock', -, hslot'⟩ := slot_eq ht'
  rw [hslot, hslot', Nat.cast_inj] at heq
  -- equal slots lie at one place of one block of the manager
  have hplace {x y i j : ℕ} (h : x * c.blockSize + i % c.blockSize = y * c.blockSize + j % c.blockSize) :
      x = y ∧ i % c.blockSize = j % c.blockSize := by
    have hx := congrArg (· / c.blockSize) h
    have hi := congrArg (· % c.blockSize) h
    simp only [Nat.mul_comm _ c.blockSize, Nat.mul_add_div c.blockSize_pos,
      Nat.div_eq_of_lt (Nat.mod_lt _ c.blockSize_pos), Nat.add_zero, Nat.mul_add_mod, Nat.mod_mod] at hx hi
    exact ⟨hx, hi⟩
  obtain ⟨rfl, hmod⟩ := hplace heq
  have hr : r = r' := by
    by_contra hne
    exact b.disjoint r ht.1 r' ht'.1 hne (mem_of_getElem? hblock) (mem_of_getElem? hblock')
  subst hr
  refine ⟨rfl, ?_⟩
  have hdiv : c.stripes.index (b.positions t) / c.blockSize = c.stripes.index (b.positions t') / c.blockSize := by
    obtain ⟨hlt, hget⟩ := List.getElem?_eq_some_iff.mp hblock
    obtain ⟨hlt', hget'⟩ := List.getElem?_eq_some_iff.mp hblock'
    exact (b.nodup r ht.1).getElem_inj_iff.mp (hget.trans hget'.symm)
  have hindex : c.numLocal rank (b.positions t) = c.numLocal rank (b.positions t') := by
    rw [CpLayout.numLocal_of_isLocal heven _ hlocal, CpLayout.numLocal_of_isLocal heven _ hlocal',
      ← Nat.div_add_mod (c.stripes.index (b.positions t)) c.blockSize, hdiv, hmod, Nat.div_add_mod]
  exact Nat.count_injective hlocal hlocal' hindex

end

/-- Every position has a slot on one rank, the slot under the number of earlier positions of that rank in its
request's row; different positions have different slots, and the ranks' lengths are those that the attention backends
compute. -/
def SlotsExact (order : ℕ → List ℕ) (slots : ℕ → ℕ → ℤ) : Prop :=
  (∀ r t, b.Token r t → ∃ rank < c.worldSize, b.slotOn order slots rank t ≠ padSlotId ∧
    ∀ other < c.worldSize, other ≠ rank → b.slotOn order slots other t = padSlotId) ∧
  (∀ r t, b.Token r t → ∀ rank < c.worldSize, b.slotOn order slots rank t ≠ padSlotId →
    c.numLocal rank (b.positions t) / c.kernelBlockSize < (b.rows r).numBlocks ∧ b.slotOn order slots rank t =
        (b.rows r).slot c.kernelBlockSize (c.numLocal rank (b.positions t))) ∧
  (∀ r t r' t', b.Token r t → b.Token r' t' → ∀ rank < c.worldSize, b.slotOn order slots rank t ≠ padSlotId →
      b.slotOn order slots rank t = b.slotOn order slots rank t' → r = r' ∧ b.positions t = b.positions t') ∧
  ∀ rank < c.worldSize, ∀ n,
    (c.numLocal rank n : ℤ) = getDcpLocalSeqLens n c.worldSize rank c.interleaveSize

/-- The slots are exact if a stripe fits evenly into a kernel block or there is one rank. -/
theorem slotsExact_of_even (heven : c.Even) (order : ℕ → List ℕ) (slots : ℕ → ℕ → ℤ)
    (horder : ∀ rank, (order rank).Perm (List.range (b.numReqs + 1))) : b.SlotsExact order slots := by
  refine ⟨fun r t ht => ?_, fun r t ht rank _ hpad => ?_, fun r t r' t' ht ht' rank _ hpad heq => ?_,
    fun rank hrank n => CpLayout.numLocal_eq_getDcpLocalSeqLens heven hrank n⟩
  · refine ⟨c.stripes.owner (b.positions t), Nat.mod_lt _ c.worldSize_pos, ?_, fun other _ hne => ?_⟩
    · rw [slotOn_ne_pad_iff heven ht horder, CpLayout.isLocal_iff heven]
    · rw [slotOn_eq heven ht horder, if_neg]
      rw [CpLayout.isLocal_iff heven]
      exact hne.symm
  · have hlocal := (slotOn_ne_pad_iff heven ht horder rank).mp hpad
    obtain ⟨-, -, hnum, -⟩ := slot_eq ht
    rw [CpLayout.numLocal_of_isLocal heven _ hlocal, slotOn_eq heven ht horder, if_pos hlocal]
    exact ⟨hnum, rfl⟩
  · exact slotOn_injective heven ht horder ht' hpad heq

end CpBatch

/-! ## Stripes that do not fit -/

namespace CpLayout

variable {c : CpLayout}

/-- Then the manager's block is larger than the kernel's, and there are two ranks. -/
theorem lt_of_not_even (h : ¬c.Even) : c.kernelBlockSize < c.blockSize ∧ 2 ≤ c.worldSize := by
  obtain ⟨hdvd, hworld⟩ := not_or.mp h
  have hne : c.kernelBlockSize ≠ c.blockSize := fun heq => hdvd (heq ▸ c.interleave_dvd)
  have hle := Nat.le_of_dvd c.blockSize_pos c.kernel_dvd
  have hpos := c.worldSize_pos
  omega

/-- The first rank has more positions in the first virtual block than a kernel block holds. -/
theorem numLocal_ne (h : ¬c.Even) : c.numLocal 0 (c.kernelBlockSize * c.worldSize) ≠ c.kernelBlockSize := by
  have hcount : c.numLocal 0 (c.kernelBlockSize * c.worldSize) =
      Nat.count (c.stripes.owner · = 0) (c.kernelBlockSize * c.worldSize) := by
    unfold numLocal
    rw [Nat.count_eq_card_filter_range, Nat.count_eq_card_filter_range]
    refine congrArg Finset.card (Finset.filter_congr fun p hp => ?_)
    unfold SlotKernel.isLocal
    rw [virtualBlockOffset_eq, Nat.mod_eq_of_lt (Finset.mem_range.mp hp)]
    rfl
  rw [hcount, c.stripes.count_eq_share c.worldSize_pos]
  unfold Stripes.share
  change c.kernelBlockSize * c.worldSize / (c.worldSize * c.interleaveSize) * c.interleaveSize +
    min (c.kernelBlockSize * c.worldSize % (c.worldSize * c.interleaveSize) - 0 * c.interleaveSize)
      c.interleaveSize ≠ _
  have htwo := (lt_of_not_even h).2
  rw [Nat.mul_comm c.kernelBlockSize, Nat.mul_div_mul_left _ _ c.worldSize_pos, Nat.mul_mod_mul_left, Nat.zero_mul,
    Nat.sub_zero]
  -- the rest of the kernel block is less than a stripe, and each rank has its share of it
  have hrest : 0 < c.kernelBlockSize % c.interleaveSize :=
    Nat.pos_of_ne_zero fun hzero => (not_or.mp h).1 (Nat.dvd_of_mod_eq_zero hzero)
  have hlt := Nat.mod_lt c.kernelBlockSize c.interleaveSize_pos
  have hsplit := Nat.div_add_mod' c.kernelBlockSize c.interleaveSize
  have hmul := Nat.mul_le_mul_right (c.kernelBlockSize % c.interleaveSize) htwo
  omega

/-- A request with one block of the manager, at the first position of its second virtual block. -/
def nextBlock (c : CpLayout) (h : c.kernelBlockSize < c.blockSize) : CpBatch c where
  numReqs := 1
  numTokens := 1
  maxNumTokens := 1
  queryStartLoc := fun r => min r 1
  positions := fun _ => c.kernelBlockSize * c.worldSize
  stride := c.blocksPerKvBlock
  rows := fun _ => ({} : BlockRow).addRow c.blocksPerKvBlock [0]
  blockIds := fun _ => [0]
  monotone := fun _ _ hle => min_le_min_right 1 hle
  tokens := le_rfl
  holds := fun _ _ => BlockRow.numbers_addRow _
  fits := fun _ _ => by simp [BlockRow.addRow, BlockRow.appendRow, BlockRow.mapToKernelBlocks]
  nodup := fun _ _ => nodup_singleton _
  disjoint := by omega
  allocated := fun _ _ _ _ _ => by
    rw [length_singleton, Nat.one_mul]
    exact Nat.mul_lt_mul_of_pos_right h c.worldSize_pos

/-- The kernel blocks of that request are numbered from zero. -/
theorem nextBlock_cells (h : c.kernelBlockSize < c.blockSize) {j : ℕ}
    (hj : j < ((c.nextBlock h).rows 0).numBlocks) : ((c.nextBlock h).rows 0).cells j = j := by
  have hblocks : ((c.nextBlock h).rows 0).numBlocks = c.blocksPerKvBlock := by
    simp [nextBlock, BlockRow.addRow, BlockRow.appendRow, BlockRow.mapToKernelBlocks]
  have hpos : 0 < c.blocksPerKvBlock := by omega
  have hget : ((c.nextBlock h).rows 0).numbers[j]? = some j := by
    rw [(c.nextBlock h).holds 0 Nat.one_pos, BlockRow.getElem?_mapToKernelBlocks hpos,
      Nat.div_eq_of_lt (hblocks ▸ hj), Nat.mod_eq_of_lt (hblocks ▸ hj)]
    simp [nextBlock]
  obtain ⟨hlt, hget⟩ := List.getElem?_eq_some_iff.mp hget
  have hread : ((c.nextBlock h).rows 0).cells j = ((c.nextBlock h).rows 0).numbers[j] := by
    simp [BlockRow.numbers, slice]
  exact hread.trans hget

/-- Its position has the first slot of the second kernel block on the first rank. -/
theorem nextBlock_slotOn (h : c.kernelBlockSize < c.blockSize) (slots : ℕ → ℕ → ℤ) :
    (c.nextBlock h).slotOn (fun _ => [0, 1]) slots 0 0 = (c.kernelBlockSize : ℕ) := by
  have hone : 1 < c.blocksPerKvBlock := by
    have hmul := c.blocksPerKvBlock_mul
    by_contra hle
    have hle := Nat.mul_le_mul_right c.kernelBlockSize (Nat.le_of_not_lt hle)
    omega
  have hblocks : ((c.nextBlock h).rows 0).numBlocks = c.blocksPerKvBlock := by
    simp [nextBlock, BlockRow.addRow, BlockRow.appendRow, BlockRow.mapToKernelBlocks]
  have hvirtual : 0 < c.kernelBlockSize * c.worldSize := Nat.mul_pos c.kernelBlockSize_pos c.worldSize_pos
  have hoffset : (c.kernel 0).virtualBlockOffset (c.kernelBlockSize * c.worldSize) = 0 := by
    rw [virtualBlockOffset_eq, Nat.mod_self]
  have hlocal : (c.kernel 0).isLocal (c.kernelBlockSize * c.worldSize) := by
    rw [SlotKernel.isLocal, hoffset, Nat.zero_div, Nat.zero_mod]
    rfl
  have hdiv : c.kernelBlockSize * c.worldSize / (c.kernel 0).virtualBlockSize = 1 := Nat.div_self hvirtual
  have hcell : (c.nextBlock h).input.blockTable 1 = 1 := by
    change ((c.nextBlock h).rows (1 / c.blocksPerKvBlock)).cells (1 % c.blocksPerKvBlock) = 1
    rw [Nat.mod_eq_of_lt hone]
    exact nextBlock_cells h (hblocks ▸ hone)
  unfold CpBatch.slotOn
  rw [(c.kernel 0).computeSlotMapping_apply (c.nextBlock h).input (by decide : 0 < 1024)
    (Perm.refl [0, 1]) (c.nextBlock h).monotone (c.nextBlock h).tokens _ (r := 0) Nat.one_pos (Nat.zero_le _)
    Nat.one_pos]
  change (c.kernel 0).slotId _ (0 * _) (c.kernelBlockSize * c.worldSize) = _
  rw [SlotKernel.slotId, if_pos hlocal, hdiv, Nat.zero_mul, Nat.zero_add, hcell, SlotKernel.localBlockOffset, hoffset]
  simp [kernel]

end CpLayout

/-- The slots of all batches of a layout are exact if and only if a stripe fits evenly into a kernel block or there is
one rank. -/
theorem CpBatch.slots_never_collide (c : CpLayout) :
    (∀ (b : CpBatch c) (order : ℕ → List ℕ) (slots : ℕ → ℕ → ℤ),
      (∀ rank, (order rank).Perm (List.range (b.numReqs + 1))) → b.SlotsExact order slots) ↔ c.Even := by
  refine ⟨fun hexact => ?_, fun heven b order slots => b.slotsExact_of_even heven order slots⟩
  by_contra h
  obtain ⟨hlt, -⟩ := CpLayout.lt_of_not_even h
  obtain ⟨-, hslot, -⟩ := hexact (c.nextBlock hlt) (fun _ => [0, 1]) (fun _ _ => 0) fun _ => Perm.refl [0, 1]
  have heq := CpLayout.nextBlock_slotOn hlt fun _ _ => 0
  obtain ⟨hnum, hcell⟩ := hslot 0 0 ⟨Nat.one_pos, Nat.zero_le _, Nat.one_pos⟩ 0 c.worldSize_pos (by
    rw [heq]
    unfold padSlotId
    omega)
  rw [heq, BlockRow.slot, Nat.cast_inj, CpLayout.nextBlock_cells hlt hnum, Nat.div_add_mod'] at hcell
  exact CpLayout.numLocal_ne h hcell.symm

/-- Blocks of 32 over two ranks, with kernel blocks of 16. -/
def splitLayout (interleaveSize : ℕ) (h : interleaveSize ∣ 32) : CpLayout where
  blockSize := 32
  kernelBlockSize := 16
  worldSize := 2
  interleaveSize := interleaveSize
  kernel_dvd := by decide
  interleave_dvd := h
  blockSize_pos := by decide
  worldSize_pos := by decide

/-- A request with one block, at the positions 16 and 32. -/
def twoTokens (interleaveSize : ℕ) (h : interleaveSize ∣ 32) : CpBatch (splitLayout interleaveSize h) where
  numReqs := 1
  numTokens := 2
  maxNumTokens := 4
  queryStartLoc := fun r => if r = 0 then 0 else 2
  positions := fun t => if t = 0 then 16 else 32
  stride := 8
  rows := fun _ => ({} : BlockRow).addRow (splitLayout interleaveSize h).blocksPerKvBlock [1]
  blockIds := fun _ => [1]
  monotone := by
    intro r r' hle
    dsimp only
    split_ifs <;> omega
  tokens := by decide
  holds := fun r _ => BlockRow.numbers_addRow _
  fits := fun _ _ => by
    simp [BlockRow.addRow, BlockRow.appendRow, BlockRow.mapToKernelBlocks, CpLayout.blocksPerKvBlock, splitLayout]
  nodup := fun _ _ => nodup_singleton _
  disjoint := by omega
  allocated := by
    intro r _ t _ _
    change (if t = 0 then 16 else 32) < 1 * (32 * 2)
    split_ifs <;> omega

/-- With stripes of 16, the first position has a slot on a rank. -/
theorem slots_never_collide_evenStripes :
    ∃ rank < 2, (twoTokens 16 (by decide)).slotOn (fun _ => [1, 0]) (fun _ _ => 0) rank 0 ≠ padSlotId := by
  obtain ⟨hone, -⟩ := (CpBatch.slots_never_collide (splitLayout 16 (by decide))).mpr (by decide)
    (twoTokens 16 (by decide)) (fun _ => [1, 0]) (fun _ _ => 0) fun _ => by decide
  obtain ⟨rank, hrank, hpad, -⟩ := hone 0 0 ⟨by decide, by decide, by decide⟩
  exact ⟨rank, hrank, hpad⟩

/-- With stripes of 32, which the configuration accepts, the positions 16 and 32 of a request share a slot. -/
theorem slots_collide : ¬ (splitLayout 32 (by decide)).Even ∧
    ∃ t t', (twoTokens 32 (by decide)).Token 0 t ∧ (twoTokens 32 (by decide)).Token 0 t' ∧
      (twoTokens 32 (by decide)).positions t ≠ (twoTokens 32 (by decide)).positions t' ∧
      (twoTokens 32 (by decide)).slotOn (fun _ => [0, 1]) (fun _ _ => 0) 0 t = 48 ∧
      (twoTokens 32 (by decide)).slotOn (fun _ => [0, 1]) (fun _ _ => 0) 0 t' = 48 := by
  refine ⟨by decide, 0, 1, ⟨by decide, by decide, by decide⟩, ⟨by decide, by decide, by decide⟩, by decide, ?_, ?_⟩
  · decide +kernel
  · decide +kernel

/-! ## The block size of the kernel -/

/-- An entry of `get_supported_kernel_block_sizes`: an `int`, or a `MultipleOf`. -/
inductive SupportedSize
  | exact (size : ℕ+)
  | multipleOf (base : ℕ+)

namespace SupportedSize

/-- The sizes an entry stands for. -/
def Supports : SupportedSize → ℕ+ → Prop
  | exact size, blockSize => blockSize = size
  | multipleOf base, blockSize => base ∣ blockSize

/-- The check of one entry in `block_size_is_supported`. -/
def isSupported (blockSize : ℕ+) : SupportedSize → Bool
  | exact size => blockSize == size
  | multipleOf base => (blockSize : ℕ) % base == 0

/-- The size of an `int` entry. -/
def int? : SupportedSize → Option ℕ+
  | exact size => some size
  | multipleOf _ => none

theorem isSupported_iff (blockSize : ℕ+) (entry : SupportedSize) :
    entry.isSupported blockSize ↔ entry.Supports blockSize := by
  cases entry with
  | exact size => simp [isSupported, Supports]
  | multipleOf base => simp [isSupported, Supports, PNat.dvd_iff, Nat.dvd_iff_mod_eq_zero]

end SupportedSize

def CommonSize (backends : List (List SupportedSize)) (blockSize : ℕ+) : Prop :=
  ∀ sizes ∈ backends, ∃ entry ∈ sizes, entry.Supports blockSize

def blockSizeIsSupported (backends : List (List SupportedSize)) (blockSize : ℕ+) : Bool :=
  backends.all fun sizes => sizes.any (·.isSupported blockSize)

/-- `sorted(all_int_supported_sizes, reverse=True)` -/
def allIntSupportedSizes (backends : List (List SupportedSize)) : List ℕ+ :=
  (backends.flatMap (·.filterMap (·.int?))).dedup.insertionSort (· ≥ ·)

/-- `select_common_block_size`; `none` is its `ValueError`. -/
def selectCommonBlockSize (kvManagerBlockSize : ℕ+) (backends : List (List SupportedSize)) : Option ℕ+ :=
  if blockSizeIsSupported backends kvManagerBlockSize then some kvManagerBlockSize
  else (allIntSupportedSizes backends).find? fun size =>
    (kvManagerBlockSize : ℕ) % size == 0 && blockSizeIsSupported backends size

variable {backends : List (List SupportedSize)} {kvManagerBlockSize blockSize : ℕ+}

theorem blockSizeIsSupported_iff : blockSizeIsSupported backends blockSize ↔ CommonSize backends blockSize := by
  simp [blockSizeIsSupported, CommonSize, SupportedSize.isSupported_iff]

theorem mem_allIntSupportedSizes (h : CommonSize backends blockSize) (hdvd : blockSize ∣ kvManagerBlockSize)
    (hnot : ¬ CommonSize backends kvManagerBlockSize) : blockSize ∈ allIntSupportedSizes backends := by
  by_contra hmem
  refine hnot fun sizes hsizes => ?_
  obtain ⟨entry, hentry, hsupports⟩ := h sizes hsizes
  refine ⟨entry, hentry, ?_⟩
  cases entry with
  | multipleOf base => exact dvd_trans hsupports hdvd
  | exact size =>
    obtain rfl : blockSize = size := hsupports
    simp only [allIntSupportedSizes, mem_insertionSort, mem_dedup, mem_flatMap, mem_filterMap] at hmem
    exact absurd ⟨sizes, hsizes, _, hentry, rfl⟩ hmem

/-- The selected size is the largest divisor of the manager's block size that all backends support; the error
is raised only if they have none in common. -/
theorem selectCommonBlockSize_isGreatest (kvManagerBlockSize : ℕ+) (backends : List (List SupportedSize)) :
    match selectCommonBlockSize kvManagerBlockSize backends with
    | some size => IsGreatest {b | b ∣ kvManagerBlockSize ∧ CommonSize backends b} size
    | none => ∀ b, b ∣ kvManagerBlockSize → ¬ CommonSize backends b := by
  unfold selectCommonBlockSize
  split_ifs with hown <;> rw [blockSizeIsSupported_iff] at hown
  · exact ⟨⟨dvd_rfl, hown⟩, fun b hb => PNat.le_of_dvd hb.1⟩
  have htest (b : ℕ+) : ((kvManagerBlockSize : ℕ) % b == 0 && blockSizeIsSupported backends b) = true ↔
      b ∣ kvManagerBlockSize ∧ CommonSize backends b := by
    simp [blockSizeIsSupported_iff, PNat.dvd_iff, Nat.dvd_iff_mod_eq_zero]
  cases hfind : (allIntSupportedSizes backends).find? _ with
  | none =>
    intro b hdvd hcommon
    have hfails := find?_eq_none.mp hfind b (mem_allIntSupportedSizes hcommon hdvd hown)
    exact hfails ((htest b).mpr ⟨hdvd, hcommon⟩)
  | some size =>
    obtain ⟨hsize, before, after, hsplit, hbefore⟩ := find?_eq_some_iff_append.mp hfind
    have hsorted : (allIntSupportedSizes backends).Pairwise (· ≥ ·) := pairwise_insertionSort _ _
    rw [hsplit, pairwise_append, pairwise_cons] at hsorted
    refine ⟨(htest size).mp hsize, fun b hb => ?_⟩
    -- what stands before the selected size fails the test, and what stands after it is not larger
    have hmem := mem_allIntSupportedSizes hb.2 hb.1 hown
    rw [hsplit, mem_append, mem_cons] at hmem
    rcases hmem with hmem | rfl | hmem
    · exact absurd (hbefore b hmem) (by simp [(htest b).mpr hb])
    · exact le_rfl
    · exact hsorted.2.1.1 b hmem

end VllmPs.Worker
