import XBook.Fs.SuperBlock

/-!
# What formatting leaves on the disk, and what mounting reads

`init_super_block_spec` gives the places of the metadata, counted from the start of the partition;
`make_fs_block` gives each byte of the disk after `BOFS_MakeFS`, and `mount_fs_inode` and
`mount_fs_sector` give each byte of the bitmaps that `BOFS_LoadBitmap` reads.
-/

namespace XBook.Bofs

/-! ## The places of the metadata -/

namespace Geometry

variable (g : Geometry)

theorem blockSize_cases :
    g.blockSize = 512 ∨ g.blockSize = 1024 ∨ g.blockSize = 2048 ∨ g.blockSize = 4096 := by
  simpa using g.blockSize_mem

theorem blockSize_pos : 0 < g.blockSize := by
  rcases g.blockSize_cases with h | h | h | h <;> omega

/-- The block at a distance from the start of the partition. -/
def block (offset : Nat) : Nat := wrap (g.startSector.toNat + offset)

/-- The distance of the block of the root directory from the start of the partition. -/
def dataOffset : Nat :=
  2 + (initSuperBlock g).sectorBitmapSectors + (initSuperBlock g).inodeBitmapSectors +
    (initSuperBlock g).inodeTableSectors

theorem block_injective {o o' : Nat} (ho : o < 2 ^ 32) (ho' : o' < 2 ^ 32) :
    g.block o = g.block o' ↔ o = o' := by
  simp only [block, wrap]
  omega

theorem block_add (o n : Nat) : wrap (g.block o + n) = g.block (o + n) := by
  simp only [block, wrap]
  omega

end Geometry

/-- `DIV_ROUND_UP` of a small number. -/
theorem div_round_up_spec {x size : Nat} (hsize : 0 < size) (hx : x + size < 2 ^ 32) :
    x ≤ divRoundUp x size * size ∧ divRoundUp x size * size < x + size := by
  have hlt : x + size - 1 < 2 ^ 32 := by omega
  rw [divRoundUp, wrap_of_lt hlt]
  have hdiv := Nat.div_add_mod (x + size - 1) size
  have hmod := Nat.mod_lt (x + size - 1) hsize
  rw [Nat.mul_comm] at hdiv
  omega

theorem div_round_up_le (x : Nat) {size : Nat} (hsize : 512 ≤ size) :
    divRoundUp x size ≤ 2 ^ 23 := by
  have hlt := wrap_lt (x + size - 1)
  have hdiv : divRoundUp x size * 512 ≤ wrap (x + size - 1) :=
    Nat.le_trans (Nat.mul_le_mul_left _ hsize) (Nat.div_mul_le_self _ _)
  omega

variable (g : Geometry)

theorem super_block_lba : (initSuperBlock g).superBlockLba = g.block 1 := rfl

theorem sector_bitmap_lba : (initSuperBlock g).sectorBitmapLba = g.block 2 := g.block_add 1 1

theorem inode_bitmap_lba : (initSuperBlock g).inodeBitmapLba =
    g.block (2 + (initSuperBlock g).sectorBitmapSectors) := by
  show wrap ((initSuperBlock g).sectorBitmapLba + _) = _
  rw [sector_bitmap_lba, g.block_add]
  rfl

theorem inode_table_lba : (initSuperBlock g).inodeTableLba =
    g.block (2 + (initSuperBlock g).sectorBitmapSectors +
      (initSuperBlock g).inodeBitmapSectors) := by
  show wrap ((initSuperBlock g).inodeBitmapLba + _) = _
  rw [inode_bitmap_lba, g.block_add]
  rfl

theorem data_start_lba : (initSuperBlock g).dataStartLba = g.block g.dataOffset := by
  show wrap ((initSuperBlock g).inodeTableLba + _) = _
  rw [inode_table_lba, g.block_add]
  rfl

/-- The blocks of the bitmaps hold their bytes, and no block more. -/
theorem bitmap_sectors_spec (bmType : BmType) :
    (initSuperBlock g).bitmapLen bmType ≤ (initSuperBlock g).bitmapSectors bmType * g.blockSize ∧
      (initSuperBlock g).bitmapSectors bmType * g.blockSize <
        (initSuperBlock g).bitmapLen bmType + g.blockSize := by
  have hsize := g.blockSize_cases
  have hsectors := g.totalSectors.toNat_lt
  have hinodes := g.inodeNr.toNat_lt
  cases bmType with
  | sector => exact div_round_up_spec g.blockSize_pos (by simp only [SuperBlock.bitmapLen, initSuperBlock]; omega)
  | inode => exact div_round_up_spec g.blockSize_pos (by simp only [SuperBlock.bitmapLen, initSuperBlock]; omega)

theorem data_offset_le : g.dataOffset ≤ 3 * 2 ^ 23 + 2 := by
  have hsize : 512 ≤ g.blockSize := by
    rcases g.blockSize_cases with h | h | h | h <;> omega
  have hsector := div_round_up_le (g.totalSectors.toNat / 8) hsize
  have hinode := div_round_up_le (g.inodeNr.toNat / 8) hsize
  have htable := div_round_up_le (wrap (g.inodeNr.toNat * sizeofInode)) hsize
  simp only [Geometry.dataOffset, initSuperBlock]
  omega

/-- The used blocks are those from the start of the partition to the root directory's. -/
theorem used_blocks_eq : usedBlocks g = g.dataOffset + 1 := by
  have hle := data_offset_le g
  have hstart := g.startSector.toNat_lt
  rw [usedBlocks, data_start_lba]
  simp only [Geometry.block, wrapSub, wrap]
  omega

/-! ## Writing -/

theorem block_write_apply (d : Blocks) (lba : Nat) (buffer : Nat → UInt8) (lba' i : Nat) :
    blockWrite d lba buffer lba' i =
      if lba' = lba ∧ i < XBook.blockSize then buffer i else d lba' i := by
  rw [blockWrite, Function.update_apply]
  by_cases hlba : lba' = lba
  · simp [hlba]
  · simp [hlba]

theorem block_write_block (d : Blocks) {o o' : Nat} (ho : o < 2 ^ 32) (ho' : o' < 2 ^ 32)
    (buffer : Nat → UInt8) (i : Nat) :
    blockWrite d (g.block o) buffer (g.block o') i =
      if o' = o ∧ i < XBook.blockSize then buffer i else d (g.block o') i := by
  simp only [block_write_apply, g.block_injective ho' ho]

/-- The loop writes the buffer's blocks one after the other. -/
theorem write_blocks_apply (size : Nat) (buffer : Nat → UInt8) {n o p : Nat} (d : Blocks)
    (hn : o + n < 2 ^ 32) {o' : Nat} (ho : o' < 2 ^ 32) (i : Nat) :
    writeBlocks size buffer n (g.block o) p d (g.block o') i =
      if o ≤ o' ∧ o' < o + n ∧ i < XBook.blockSize then buffer (p + (o' - o) * size + i)
      else d (g.block o') i := by
  induction n generalizing o p d with
  | zero => rw [writeBlocks, if_neg (by omega)]
  | succ n ih =>
      rw [writeBlocks, g.block_add, ih _ (by omega), block_write_block g _ (by omega) ho]
      by_cases hfirst : o' = o
      · subst hfirst
        simp [show ¬ o' + 1 ≤ o' by omega]
      · by_cases hin : o + 1 ≤ o' ∧ o' < o + 1 + n ∧ i < XBook.blockSize
        · rw [if_pos hin, if_pos (by omega)]
          congr 1
          have hsub : o' - o = o' - (o + 1) + 1 := by omega
          rw [hsub, Nat.add_mul]
          omega
        · rw [if_neg hin, if_neg (by omega), if_neg (by omega)]

/-- The number of blocks of the sector bitmap that `BOFS_MakeFS` writes. -/
def bufBlocks : Nat := divRoundUp (usedBlocks g / 8 + 1) g.blockSize

theorem buf_blocks_spec : usedBlocks g / 8 < bufBlocks g * g.blockSize ∧
    bufBlocks g * g.blockSize ≤ usedBlocks g / 8 + g.blockSize ∧ bufBlocks g ≤ 2 ^ 23 := by
  have hsize := g.blockSize_cases
  have hle := data_offset_le g
  have hused := used_blocks_eq g
  have hspec := div_round_up_spec (x := usedBlocks g / 8 + 1) g.blockSize_pos (by omega)
  refine ⟨Nat.lt_of_succ_le hspec.1, ?_, div_round_up_le _ (by omega)⟩
  have hlt := hspec.2
  rw [bufBlocks]
  omega

/-- The disk after `BOFS_MakeFS`. -/
theorem make_fs_block (date : Nat) (d : Blocks) {o : Nat} (ho : o < 2 ^ 32) (i : Nat) :
    makeFS g date d (g.block o) i =
      if XBook.blockSize ≤ i then d (g.block o) i
      else if o = 1 then zeroBuffer (initSuperBlock g).bytes i
      else if 2 ≤ o ∧ o < 2 + bufBlocks g then
        usedBuffer (usedBlocks g) ((o - 2) * g.blockSize + i)
      else if o = g.dataOffset then zeroBuffer rootDirEntry i
      else if o = 2 + (initSuperBlock g).sectorBitmapSectors +
          (initSuperBlock g).inodeBitmapSectors then
        zeroBuffer (rootInode (initSuperBlock g) date) i
      else if o = 2 + (initSuperBlock g).sectorBitmapSectors then zeroBuffer [1] i
      else d (g.block o) i := by
  have hdata := data_offset_le g
  obtain ⟨-, -, hbuf⟩ := buf_blocks_spec g
  have hoff : g.dataOffset = 2 + (initSuperBlock g).sectorBitmapSectors +
    (initSuperBlock g).inodeBitmapSectors + (initSuperBlock g).inodeTableSectors := rfl
  rw [makeFS, ← bufBlocks, super_block_lba, sector_bitmap_lba, inode_bitmap_lba, inode_table_lba,
    data_start_lba, block_write_block g _ (by omega) ho,
    write_blocks_apply g _ _ _ (by omega) ho, block_write_block g _ (by omega) ho,
    block_write_block g _ (by omega) ho, block_write_block g _ (by omega) ho]
  by_cases hi : XBook.blockSize ≤ i
  · simp [hi, Nat.not_lt.mpr hi]
  · simp [hi, Nat.not_le.mp hi]

/-! ## Reading -/

/-- The loop reads the blocks one after the other. -/
theorem load_blocks_apply (d : Blocks) {size : Nat} (hsize : 0 < size) (lba bits n i : Nat)
    (mem : Memory) (a : Nat) :
    loadBlocks d size lba bits n i mem a =
      if bits + i * size ≤ a ∧ a < bits + (i + n) * size then
        d (wrap (lba + (a - bits) / size)) ((a - bits) % size)
      else mem a := by
  induction n generalizing i mem with
  | zero => rw [loadBlocks, if_neg (by rw [Nat.add_zero]; omega)]
  | succ n ih =>
      rw [loadBlocks, ih, blockRead]
      have hnext : (i + 1) * size = i * size + size := Nat.succ_mul i size
      have hend : (i + (n + 1)) * size = (i + 1 + n) * size := by
        congr 1
        omega
      have hle : (i + 1) * size ≤ (i + 1 + n) * size := Nat.mul_le_mul_right _ (by omega)
      by_cases hrest : bits + (i + 1) * size ≤ a ∧ a < bits + (i + 1 + n) * size
      · rw [if_pos hrest, if_pos (by omega)]
      · rw [if_neg hrest]
        by_cases hblock : bits + i * size ≤ a ∧ a < bits + i * size + size
        · rw [if_pos hblock, if_pos (by omega)]
          obtain ⟨j, rfl⟩ := Nat.exists_eq_add_of_le hblock.1
          have hj : j < size := by omega
          have hsub : bits + i * size + j - bits = j + size * i := by
            rw [Nat.mul_comm]
            omega
          rw [hsub, Nat.add_mul_div_left _ _ hsize, Nat.add_mul_mod_self_left,
            Nat.div_eq_of_lt hj, Nat.mod_eq_of_lt hj, Nat.zero_add]
          congr 1
          rw [Nat.mul_comm]
          omega
        · rw [if_neg hblock, if_neg (by omega)]

theorem load_blocks_all (d : Blocks) {size : Nat} (hsize : 0 < size) (lba bits n : Nat)
    (mem : Memory) (a : Nat) :
    loadBlocks d size lba bits n 0 mem a =
      if bits ≤ a ∧ a < bits + n * size then
        d (wrap (lba + (a - bits) / size)) ((a - bits) % size)
      else mem a := by
  simpa using load_blocks_apply d hsize lba bits n 0 mem a

/-- A byte of a bitmap on the disk. -/
def diskByte (sb : SuperBlock) (d : Blocks) (bmType : BmType) (k : Nat) : UInt8 :=
  d (wrap (sb.bitmapLba bmType + k / sb.blockSize)) (k % sb.blockSize)

section

variable {sb : SuperBlock} (hsize : 0 < sb.blockSize) (d : Blocks) (sectorBits inodeBits : Nat)
  (mem : Memory)

include hsize

theorem mount_fs_inode {k : Nat} (hk : k < sb.inodeBitmapSectors * sb.blockSize) :
    ((mountFS sb d sectorBits inodeBits mem).bitmap .inode).bits k =
      (diskByte sb d .inode k).toNat := by
  show (loadBlocks d _ _ inodeBits _ 0 _ (inodeBits + k)).toNat = _
  rw [load_blocks_all d hsize, if_pos (by omega), Nat.add_sub_cancel_left]
  rfl

/-- The blocks of the inode bitmap are read later, and can end in the memory of the sector
bitmap. -/
theorem mount_fs_sector (hlen : sb.inodeBitmapLen ≤ sb.inodeBitmapSectors * sb.blockSize) {k : Nat}
    (hk : k < sb.sectorBitmapSectors * sb.blockSize) :
    ((mountFS sb d sectorBits inodeBits mem).bitmap .sector).bits k =
      if inodeBits ≤ sectorBits + k ∧
          sectorBits + k < inodeBits + sb.inodeBitmapSectors * sb.blockSize then
        (diskByte sb d .inode (sectorBits + k - inodeBits)).toNat
      else (diskByte sb d .sector k).toNat := by
  show (loadBlocks d _ _ inodeBits _ 0 _ (sectorBits + k)).toNat = _
  rw [load_blocks_all d hsize]
  split
  · rfl
  · next hout =>
      rw [clearBytes, if_neg (by omega), load_blocks_all d hsize, if_pos (by omega),
        Nat.add_sub_cancel_left]
      rfl

end

end XBook.Bofs
