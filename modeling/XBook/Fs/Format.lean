import XBook.Fs.Layout

/-!
# The bitmaps after formatting

`BOFS_MakeFS` writes one block of the inode bitmap, and of the sector bitmap the blocks up to the
last used bit; `BOFS_LoadBitmap` reads all blocks of both. `format_clean_iff` says for which disks
the bitmaps that are read are clean whatever the disk held before.
-/

namespace XBook

/-- The bit belongs to the bitmap and is set. -/
def Bitmap.Marks (m : Bitmap) (i : Nat) : Prop := i < m.btmpBytesLen * 8 ∧ m.bit i = true

namespace Bofs

/-- The bit of the root directory's inode, and the bits of the blocks from the start of the
partition to the root directory's block, are those that are set. -/
structure CleanBitmaps (g : Geometry) (s : Mounted) : Prop where
  inode : ∀ i, (s.bitmap .inode).Marks i ↔ i = 0
  sector : ∀ i, (s.bitmap .sector).Marks i ↔ i ≤ g.dataOffset

/-- The file system on the disk that `BOFS_MakeFS` leaves. -/
def formatAndMount (g : Geometry) (date : Nat) (d : Blocks) (sectorBits inodeBits : Nat)
    (mem : Memory) : Mounted :=
  mountFS (initSuperBlock g) (makeFS g date d) sectorBits inodeBits mem

/-- The buffers of the bitmaps do not meet. -/
def BuffersApart (g : Geometry) (sectorBits inodeBits : Nat) : Prop :=
  sectorBits + (initSuperBlock g).sectorBitmapLen ≤ inodeBits ∨
    inodeBits + (initSuperBlock g).inodeBitmapLen ≤ sectorBits

/-- The inode bitmap is in the one block that is written of it, the sector bitmap has a bit for each
used block, and each of its bytes is in a block that is written, unless `BOFS_LoadBitmap` covers it
with zeros of the inode bitmap's block. -/
structure CleanFormat (g : Geometry) (sectorBits inodeBits : Nat) : Prop where
  inode_pos : 0 < (initSuperBlock g).inodeBitmapLen
  inode_le : (initSuperBlock g).inodeBitmapLen ≤ min g.blockSize XBook.blockSize
  room : g.dataOffset < (initSuperBlock g).sectorBitmapLen * 8
  sector : ∀ k < (initSuperBlock g).sectorBitmapLen,
    if inodeBits ≤ sectorBits + k ∧ sectorBits + k < inodeBits + g.blockSize then
      sectorBits + k < inodeBits + XBook.blockSize ∧ g.dataOffset < k * 8
    else k / g.blockSize < bufBlocks g ∧ k % g.blockSize < XBook.blockSize

/-! ## Bytes and their bits -/

theorem set_used_bits_bit : ∀ n < 8, ∀ r < 8, (setUsedBits n).toNat.testBit r = decide (r < n) := by
  decide

/-- A bit of the buffer is set when its block is used. -/
theorem used_buffer_bit (usedBlocks i : Nat) :
    (usedBuffer usedBlocks (i / 8)).toNat.testBit (i % 8) = decide (i < usedBlocks) := by
  have hr : i % 8 < 8 := Nat.mod_lt _ (by decide)
  rw [usedBuffer]
  split
  · next hlt =>
      have hones : ∀ r < 8, (0xff : UInt8).toNat.testBit r = true := by decide
      rw [hones _ hr, eq_comm, decide_eq_true_iff]
      omega
  · next hge =>
      split
      · next heq =>
          rw [set_used_bits_bit _ (Nat.mod_lt _ (by decide)) _ hr, decide_eq_decide]
          omega
      · next hne =>
          have hzero : (0 : UInt8).toNat.testBit (i % 8) = false := Nat.zero_testBit _
          rw [hzero, eq_comm, decide_eq_false_iff_not]
          omega

theorem zero_buffer_one (k : Nat) : zeroBuffer [1] k = if k = 0 then 1 else 0 := by
  cases k with
  | zero => rfl
  | succ k => rfl

/-- The first bit of the buffer is set. -/
theorem zero_buffer_one_bit (i : Nat) :
    (zeroBuffer [1] (i / 8)).toNat.testBit (i % 8) = decide (i = 0) := by
  rw [zero_buffer_one]
  split
  · next hbyte =>
      have hfirst : ∀ r < 8, (1 : UInt8).toNat.testBit r = decide (r = 0) := by decide
      rw [hfirst _ (Nat.mod_lt _ (by decide)), decide_eq_decide]
      omega
  · next hbyte =>
      have hzero : (0 : UInt8).toNat.testBit (i % 8) = false := Nat.zero_testBit _
      rw [hzero, eq_comm, decide_eq_false_iff_not]
      omega

variable {g : Geometry}

/-- A byte of the sector bitmap that is not before the inode bitmap is behind it. -/
theorem BuffersApart.behind {sectorBits inodeBits k : Nat}
    (h : BuffersApart g sectorBits inodeBits) (hk : k < (initSuperBlock g).sectorBitmapLen)
    (hle : inodeBits ≤ sectorBits + k) :
    inodeBits + (initSuperBlock g).inodeBitmapLen ≤ sectorBits + k := by
  rcases h with h | h <;> omega

theorem inode_sectors_eq_one (hpos : 0 < (initSuperBlock g).inodeBitmapLen)
    (hle : (initSuperBlock g).inodeBitmapLen ≤ g.blockSize) :
    (initSuperBlock g).inodeBitmapSectors = 1 := by
  have hspec := bitmap_sectors_spec g .inode
  simp only [SuperBlock.bitmapSectors, SuperBlock.bitmapLen] at hspec
  have hlt : (initSuperBlock g).inodeBitmapSectors * g.blockSize < 2 * g.blockSize := by omega
  have hgt : 0 < (initSuperBlock g).inodeBitmapSectors * g.blockSize := by omega
  have := Nat.lt_of_mul_lt_mul_right hlt
  have := Nat.pos_of_mul_pos_right hgt
  omega

/-- With an inode bitmap of one block, the inode table is short. -/
theorem inode_table_sectors_le
    (hle : (initSuperBlock g).inodeBitmapLen ≤ min g.blockSize XBook.blockSize) :
    (initSuperBlock g).inodeTableSectors ≤ 2051 := by
  have hsize := g.blockSize_cases
  have hinodes : g.inodeNr.toNat ≤ 8199 := by
    have : g.inodeNr.toNat / 8 ≤ 1024 := Nat.le_trans hle (Nat.min_le_right _ _)
    omega
  show divRoundUp (wrap (g.inodeNr.toNat * sizeofInode)) g.blockSize ≤ 2051
  rw [divRoundUp, wrap_of_lt (n := g.inodeNr.toNat * sizeofInode) (by simp only [sizeofInode]; omega),
    wrap_of_lt (by simp only [sizeofInode]; omega)]
  simp only [sizeofInode]
  rcases hsize with h | h | h | h <;> rw [h] <;> omega

/-! ## The bytes that are read -/

section

variable {date : Nat} {d : Blocks} {sectorBits inodeBits : Nat} {mem : Memory}

/-- A byte of the inode bitmap on the disk, when the write of the sector bitmap has not reached
it. -/
theorem format_inode_byte {k : Nat} (hk : k < (initSuperBlock g).inodeBitmapSectors * g.blockSize)
    (hbuf : bufBlocks g ≤ (initSuperBlock g).sectorBitmapSectors + k / g.blockSize) :
    diskByte (initSuperBlock g) (makeFS g date d) .inode k =
      if k % g.blockSize < XBook.blockSize ∧ k / g.blockSize = 0 then zeroBuffer [1] k
      else diskByte (initSuperBlock g) d .inode k := by
  have hblock : k / g.blockSize < (initSuperBlock g).inodeBitmapSectors :=
    (Nat.div_lt_iff_lt_mul g.blockSize_pos).mpr hk
  have hoff : g.dataOffset = 2 + (initSuperBlock g).sectorBitmapSectors +
    (initSuperBlock g).inodeBitmapSectors + (initSuperBlock g).inodeTableSectors := rfl
  have hdata := data_offset_le g
  have hsize : (initSuperBlock g).blockSize = g.blockSize := rfl
  rw [diskByte, diskByte, hsize, SuperBlock.bitmapLba, inode_bitmap_lba, g.block_add,
    make_fs_block g date d (by omega)]
  by_cases hlow : k % g.blockSize < XBook.blockSize
  · rw [if_neg (Nat.not_le.mpr hlow), if_neg (by omega), if_neg (by omega), if_neg (by omega),
      if_neg (by omega)]
    by_cases hfirst : k / g.blockSize = 0
    · rw [if_pos (by omega), if_pos ⟨hlow, hfirst⟩,
        Nat.mod_eq_of_lt ((Nat.div_eq_zero_iff_lt g.blockSize_pos).mp hfirst)]
    · rw [if_neg (by omega), if_neg (fun h => hfirst h.2)]
  · rw [if_pos (Nat.not_lt.mp hlow), if_neg (fun h => hlow h.1)]

/-- A byte of the sector bitmap on the disk. -/
theorem format_sector_byte {k : Nat}
    (hk : k < (initSuperBlock g).sectorBitmapSectors * g.blockSize) :
    diskByte (initSuperBlock g) (makeFS g date d) .sector k =
      if k / g.blockSize < bufBlocks g ∧ k % g.blockSize < XBook.blockSize then
        usedBuffer (usedBlocks g) k
      else diskByte (initSuperBlock g) d .sector k := by
  have hblock : k / g.blockSize < (initSuperBlock g).sectorBitmapSectors :=
    (Nat.div_lt_iff_lt_mul g.blockSize_pos).mpr hk
  have hoff : g.dataOffset = 2 + (initSuperBlock g).sectorBitmapSectors +
    (initSuperBlock g).inodeBitmapSectors + (initSuperBlock g).inodeTableSectors := rfl
  have hdata := data_offset_le g
  have hsize : (initSuperBlock g).blockSize = g.blockSize := rfl
  rw [diskByte, diskByte, hsize, SuperBlock.bitmapLba, sector_bitmap_lba, g.block_add,
    make_fs_block g date d (by omega)]
  by_cases hlow : k % g.blockSize < XBook.blockSize
  · have hsum := Nat.div_add_mod k g.blockSize
    generalize k / g.blockSize = q at *
    rw [if_neg (Nat.not_le.mpr hlow), if_neg (by omega)]
    by_cases hbuf : q < bufBlocks g
    · rw [if_pos (by omega), if_pos ⟨hbuf, hlow⟩, Nat.add_sub_cancel_left, Nat.mul_comm, hsum]
    · rw [if_neg (by omega), if_neg (by omega), if_neg (by omega), if_neg (by omega),
        if_neg (fun h => hbuf h.1)]
  · rw [if_pos (Nat.not_lt.mp hlow), if_neg (fun h => hlow h.2)]

/-! ## Disks that are formatted clean -/

/-- The used blocks are marked within the sector bitmap. -/
theorem buf_blocks_le (hpos : 0 < (initSuperBlock g).inodeBitmapLen)
    (hle : (initSuperBlock g).inodeBitmapLen ≤ min g.blockSize XBook.blockSize)
    (hroom : g.dataOffset < (initSuperBlock g).sectorBitmapLen * 8) :
    bufBlocks g ≤ (initSuperBlock g).sectorBitmapSectors := by
  have hone := inode_sectors_eq_one hpos (Nat.le_trans hle (Nat.min_le_left _ _))
  have htable := inode_table_sectors_le hle
  have hlen : (initSuperBlock g).sectorBitmapLen ≤
    (initSuperBlock g).sectorBitmapSectors * g.blockSize := (bitmap_sectors_spec g .sector).1
  have hoff : g.dataOffset = 2 + (initSuperBlock g).sectorBitmapSectors +
    (initSuperBlock g).inodeBitmapSectors + (initSuperBlock g).inodeTableSectors := rfl
  have hused := used_blocks_eq g
  obtain ⟨-, hbuf, -⟩ := buf_blocks_spec g
  have hsize : 512 ≤ g.blockSize := by
    rcases g.blockSize_cases with h | h | h | h <;> omega
  have hbytes : (initSuperBlock g).sectorBitmapSectors * 512 ≤
    (initSuperBlock g).sectorBitmapSectors * g.blockSize := Nat.mul_le_mul_left _ hsize
  have hpos : 0 < (initSuperBlock g).sectorBitmapSectors :=
    Nat.pos_of_mul_pos_right (Nat.lt_of_lt_of_le (by omega) hlen)
  have hlt : bufBlocks g * g.blockSize <
      ((initSuperBlock g).sectorBitmapSectors + 1) * g.blockSize := by
    rw [Nat.add_mul, Nat.one_mul]
    omega
  exact Nat.le_of_lt_succ (Nat.lt_of_mul_lt_mul_right hlt)

/-- A byte of the one block of the inode bitmap. -/
theorem format_inode_first {k : Nat} (hpos : 0 < (initSuperBlock g).inodeBitmapLen)
    (hle : (initSuperBlock g).inodeBitmapLen ≤ min g.blockSize XBook.blockSize)
    (hroom : g.dataOffset < (initSuperBlock g).sectorBitmapLen * 8) (hk : k < g.blockSize)
    (hlow : k < XBook.blockSize) :
    diskByte (initSuperBlock g) (makeFS g date d) .inode k = zeroBuffer [1] k := by
  have hone := inode_sectors_eq_one hpos (Nat.le_trans hle (Nat.min_le_left _ _))
  have hbuf := buf_blocks_le hpos hle hroom
  rw [format_inode_byte (by rw [hone]; omega) (Nat.le_add_right_of_le hbuf), Nat.mod_eq_of_lt hk,
    Nat.div_eq_of_lt hk, if_pos ⟨hlow, rfl⟩]

theorem CleanFormat.clean (h : CleanFormat g sectorBits inodeBits)
    (hapart : BuffersApart g sectorBits inodeBits) :
    CleanBitmaps g (formatAndMount g date d sectorBits inodeBits mem) := by
  have hinode := h.inode_le
  have hone := inode_sectors_eq_one h.inode_pos (Nat.le_trans hinode (Nat.min_le_left _ _))
  refine ⟨fun i => ?_, fun i => ?_⟩
  · by_cases hi : i < (initSuperBlock g).inodeBitmapLen * 8
    · have hbits : ((formatAndMount g date d sectorBits inodeBits mem).bitmap .inode).bits (i / 8) =
          (zeroBuffer [1] (i / 8)).toNat := by
        rw [formatAndMount, mount_fs_inode g.blockSize_pos _ _ _ _ (by
          rw [hone, Nat.one_mul]
          show i / 8 < g.blockSize
          omega), format_inode_first h.inode_pos hinode h.room (by omega) (by omega)]
      rw [Bitmap.Marks, Bitmap.bit, hbits, zero_buffer_one_bit, decide_eq_true_iff]
      exact and_iff_right hi
    · refine ⟨fun hmarks => absurd hmarks.1 hi, fun hzero => absurd ?_ hi⟩
      have := h.inode_pos
      omega
  · have hroom := h.room
    by_cases hi : i < (initSuperBlock g).sectorBitmapLen * 8
    · have hk : i / 8 < (initSuperBlock g).sectorBitmapLen := by omega
      have hspec : (initSuperBlock g).sectorBitmapLen ≤
        (initSuperBlock g).sectorBitmapSectors * g.blockSize := (bitmap_sectors_spec g .sector).1
      have hsize : (initSuperBlock g).blockSize = g.blockSize := rfl
      have hcond := h.sector _ hk
      have hsizepos : 0 < (initSuperBlock g).blockSize := g.blockSize_pos
      have hbits := mount_fs_sector hsizepos (makeFS g date d) sectorBits inodeBits mem
        (bitmap_sectors_spec g .inode).1 (Nat.lt_of_lt_of_le hk hspec)
      rw [Bitmap.Marks, Bitmap.bit, formatAndMount, hbits, hone, Nat.one_mul, hsize]
      refine (and_iff_right hi).trans ?_
      by_cases hover : inodeBits ≤ sectorBits + i / 8 ∧ sectorBits + i / 8 < inodeBits + g.blockSize
      · -- the inode bitmap is not in this part of its block
        rw [if_pos hover] at hcond ⊢
        have hbehind := hapart.behind hk hover.1
        have hpos := h.inode_pos
        rw [format_inode_first h.inode_pos hinode h.room (by omega) (by omega), zero_buffer_one,
          if_neg (by omega)]
        have hzero : (0 : UInt8).toNat.testBit (i % 8) = false := Nat.zero_testBit _
        rw [hzero]
        simp only [Bool.false_eq_true, false_iff]
        omega
      · rw [if_neg hover] at hcond ⊢
        rw [format_sector_byte (Nat.lt_of_lt_of_le hk hspec), if_pos hcond, used_buffer_bit,
          decide_eq_true_iff, used_blocks_eq]
        omega
    · exact ⟨fun hmarks => absurd hmarks.1 hi, fun hle => absurd (by omega) hi⟩

/-! ## What a clean format needs -/

/-- The bytes of a bitmap that are not in the copied part of a block keep what they held. -/
theorem format_byte_high (bmType : BmType) {k : Nat}
    (hk : k < (initSuperBlock g).bitmapSectors bmType * g.blockSize)
    (hhigh : XBook.blockSize ≤ k % g.blockSize) :
    diskByte (initSuperBlock g) (makeFS g date d) bmType k =
      diskByte (initSuperBlock g) d bmType k := by
  have hblock : k / g.blockSize < (initSuperBlock g).bitmapSectors bmType :=
    (Nat.div_lt_iff_lt_mul g.blockSize_pos).mpr hk
  have hdata := data_offset_le g
  have hoff : g.dataOffset = 2 + (initSuperBlock g).sectorBitmapSectors +
    (initSuperBlock g).inodeBitmapSectors + (initSuperBlock g).inodeTableSectors := rfl
  have hsize : (initSuperBlock g).blockSize = g.blockSize := rfl
  cases bmType with
  | sector =>
      simp only [SuperBlock.bitmapSectors] at hblock
      rw [diskByte, diskByte, hsize, SuperBlock.bitmapLba, sector_bitmap_lba, g.block_add,
        make_fs_block g date d (by omega), if_pos hhigh]
  | inode =>
      simp only [SuperBlock.bitmapSectors] at hblock
      rw [diskByte, diskByte, hsize, SuperBlock.bitmapLba, inode_bitmap_lba, g.block_add,
        make_fs_block g date d (by omega), if_pos hhigh]

/-- The first byte of the inode bitmap, when the write of the sector bitmap has reached it. -/
theorem format_inode_overrun (hbuf : (initSuperBlock g).sectorBitmapSectors < bufBlocks g) :
    diskByte (initSuperBlock g) (makeFS g date d) .inode 0 =
      usedBuffer (usedBlocks g) ((initSuperBlock g).sectorBitmapSectors * g.blockSize) := by
  have hdata := data_offset_le g
  have hoff : g.dataOffset = 2 + (initSuperBlock g).sectorBitmapSectors +
    (initSuperBlock g).inodeBitmapSectors + (initSuperBlock g).inodeTableSectors := rfl
  rw [diskByte, SuperBlock.bitmapLba, inode_bitmap_lba, g.block_add, Nat.zero_div, Nat.zero_mod,
    make_fs_block g date d (by omega), if_neg (by decide), if_neg (by omega), if_pos (by omega)]
  simp only [Nat.add_zero, Nat.add_sub_cancel_left]

/-- A disk that holds one value. -/
def filledDisk (v : UInt8) : Blocks := fun _ _ => v

/-- A byte of a clean bitmap is not one that the disk held before. -/
theorem CleanBitmaps.not_kept
    (hclean : ∀ d, CleanBitmaps g (formatAndMount g date d sectorBits inodeBits mem)) {k : Nat}
    (hk : k < (initSuperBlock g).sectorBitmapLen)
    (hkept : ∀ v, ((formatAndMount g date (filledDisk v) sectorBits inodeBits mem).bitmap
      .sector).bits k = v.toNat) : False := by
  have hmarks : ∀ v : UInt8, v.toNat.testBit 0 = true ↔ k * 8 ≤ g.dataOffset := by
    intro v
    rw [← (hclean (filledDisk v)).sector, Bitmap.Marks, Bitmap.bit, Nat.mul_div_cancel _ (by decide),
      Nat.mul_mod_left, hkept]
    refine (and_iff_right ?_).symm
    show k * 8 < (initSuperBlock g).sectorBitmapLen * 8
    omega
  have hones := (hmarks 0xff).mp (by decide)
  exact absurd ((hmarks 0).mpr hones) (by decide)

/-- The inode bitmap of a clean format is in one copied block. -/
theorem inode_le_of_clean
    (hclean : ∀ d, CleanBitmaps g (formatAndMount g date d sectorBits inodeBits mem)) :
    (initSuperBlock g).inodeBitmapLen ≤ min g.blockSize XBook.blockSize := by
  by_contra hlong
  have hlen : (initSuperBlock g).inodeBitmapLen ≤
    (initSuperBlock g).inodeBitmapSectors * g.blockSize := (bitmap_sectors_spec g .inode).1
  have hmarks : ∀ d, ∀ i < (initSuperBlock g).inodeBitmapLen * 8,
      (diskByte (initSuperBlock g) (makeFS g date d) .inode (i / 8)).toNat.testBit (i % 8) = true ↔
        i = 0 := by
    intro d i hi
    have hk : i / 8 < (initSuperBlock g).inodeBitmapSectors * (initSuperBlock g).blockSize :=
      Nat.lt_of_lt_of_le (by omega) hlen
    rw [← (hclean d).inode, Bitmap.Marks, Bitmap.bit, formatAndMount,
      mount_fs_inode g.blockSize_pos _ _ _ _ hk]
    exact (and_iff_right hi).symm
  -- a byte that keeps what the disk held
  have hkept : ∀ k < (initSuperBlock g).inodeBitmapLen, 0 < k →
      (∀ v, diskByte (initSuperBlock g) (makeFS g date (filledDisk v)) .inode k = v) → False := by
    intro k hk hpos hold
    have hones := hmarks (filledDisk 0xff) (k * 8) (by omega)
    rw [Nat.mul_div_cancel _ (by decide), Nat.mul_mod_left, hold] at hones
    have := hones.mp (by decide)
    omega
  by_cases hsize : XBook.blockSize < g.blockSize
  · refine hkept XBook.blockSize (by omega) (by decide) fun v => ?_
    rw [format_byte_high .inode (Nat.lt_of_lt_of_le (by omega) hlen)
      (by rw [Nat.mod_eq_of_lt hsize])]
    rfl
  · have hone : g.blockSize / g.blockSize = 1 := Nat.div_self g.blockSize_pos
    by_cases hbuf : bufBlocks g ≤ (initSuperBlock g).sectorBitmapSectors + 1
    · refine hkept g.blockSize (by omega) g.blockSize_pos fun v => ?_
      rw [format_inode_byte (Nat.lt_of_lt_of_le (by omega) hlen) (by rw [hone]; exact hbuf),
        if_neg (by rw [hone]; omega)]
      rfl
    · -- the used blocks are marked up to the second block of the inode bitmap
      have hfull := hmarks (filledDisk 0) 1 (by omega)
      obtain ⟨-, hend, -⟩ := buf_blocks_spec g
      have hmul : ((initSuperBlock g).sectorBitmapSectors + 2) * g.blockSize ≤
        bufBlocks g * g.blockSize := Nat.mul_le_mul_right _ (by omega)
      rw [Nat.add_mul] at hmul
      have hpos := g.blockSize_pos
      rw [Nat.div_eq_of_lt (by decide), format_inode_overrun (by omega), usedBuffer,
        if_pos (by omega)] at hfull
      exact absurd (hfull.mp (by decide)) (by decide)

theorem clean_format_of_clean
    (hclean : ∀ d, CleanBitmaps g (formatAndMount g date d sectorBits inodeBits mem))
    (hapart : BuffersApart g sectorBits inodeBits) : CleanFormat g sectorBits inodeBits := by
  have hle := inode_le_of_clean hclean
  have hpos : 0 < (initSuperBlock g).inodeBitmapLen := by
    have hfirst : 0 < (initSuperBlock g).inodeBitmapLen * 8 :=
      (((hclean (filledDisk 0)).inode 0).mpr rfl).1
    omega
  have hroom : g.dataOffset < (initSuperBlock g).sectorBitmapLen * 8 :=
    (((hclean (filledDisk 0)).sector g.dataOffset).mpr (Nat.le_refl _)).1
  refine ⟨hpos, hle, hroom, fun k hk => ?_⟩
  have hone := inode_sectors_eq_one hpos (Nat.le_trans hle (Nat.min_le_left _ _))
  have hspec : (initSuperBlock g).sectorBitmapLen ≤
    (initSuperBlock g).sectorBitmapSectors * g.blockSize := (bitmap_sectors_spec g .sector).1
  have hsizepos : 0 < (initSuperBlock g).blockSize := g.blockSize_pos
  have hbits := fun d => mount_fs_sector hsizepos (makeFS g date d) sectorBits inodeBits mem
    (bitmap_sectors_spec g .inode).1 (Nat.lt_of_lt_of_le hk hspec)
  have hsize : (initSuperBlock g).blockSize = g.blockSize := rfl
  simp only [hone, Nat.one_mul, hsize] at hbits
  by_cases hover : inodeBits ≤ sectorBits + k ∧ sectorBits + k < inodeBits + g.blockSize
  · simp only [if_pos hover] at hbits ⊢
    have hbehind := hapart.behind hk hover.1
    by_cases hlow : sectorBits + k - inodeBits < XBook.blockSize
    · refine ⟨by omega, ?_⟩
      by_contra hused
      have hmarks := ((hclean (filledDisk 0)).sector (k * 8)).mpr (by omega)
      have hbit := hmarks.2
      rw [Bitmap.bit, Nat.mul_div_cancel _ (by decide), Nat.mul_mod_left, formatAndMount, hbits,
        format_inode_first hpos hle hroom (by omega) hlow, zero_buffer_one, if_neg (by omega)] at hbit
      exact absurd hbit (by decide)
    · exfalso
      refine CleanBitmaps.not_kept hclean hk fun v => ?_
      rw [formatAndMount, hbits, format_byte_high .inode]
      · rfl
      · show _ < (initSuperBlock g).inodeBitmapSectors * g.blockSize
        rw [hone]
        omega
      · rw [Nat.mod_eq_of_lt (by omega)]
        omega
  · simp only [if_neg hover] at hbits ⊢
    by_contra hwritten
    refine CleanBitmaps.not_kept hclean hk fun v => ?_
    rw [formatAndMount, hbits, format_sector_byte (Nat.lt_of_lt_of_le hk hspec), if_neg hwritten]
    rfl

end

/-- A disk of 800 blocks, with 80 inodes. -/
abbrev smallDisk : Geometry := ⟨0, 0, 800, 1024, 80, by decide⟩

/-- A disk of 20 MB with `DEFAULT_MAX_INODE_NR` inodes. -/
abbrev defaultDisk : Geometry := ⟨0x300000, 0, 20480, 1024, 9182, by decide⟩

end Bofs

end XBook
