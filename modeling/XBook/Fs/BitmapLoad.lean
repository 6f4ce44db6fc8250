import XBook.Fs.Format

/-!
# The buffers of the bitmaps

`BOFS_LoadBitmap` allocates as many bytes as a bitmap has and reads whole blocks into them.
`load_bitmap_iff` says for which disks it stays in these buffers and loads the bit of each sector
and of each inode.
-/

namespace XBook.Bofs

/-- The part of `BOFS_LoadBitmap` that loads one bitmap. -/
def loadOne (sb : SuperBlock) (d : Blocks) (bmType : BmType) (bits : Nat) (mem : Memory) : Memory :=
  loadBlocks d sb.blockSize (sb.bitmapLba bmType) bits (sb.bitmapSectors bmType) 0
    (clearBytes mem bits (sb.bitmapLen bmType))

theorem load_bitmap_eq (sb : SuperBlock) (d : Blocks) (sectorBits inodeBits : Nat) (mem : Memory) :
    loadBitmap sb d sectorBits inodeBits mem =
      loadOne sb d .inode inodeBits (loadOne sb d .sector sectorBits mem) := rfl

/-- The number of the sectors, or of the inodes. -/
def Geometry.count (g : Geometry) : BmType → Nat
  | .sector => g.totalSectors.toNat
  | .inode => g.inodeNr.toNat

/-- What is loaded for a bitmap changes no byte outside the memory that was allocated for it. -/
def StaysInside (sb : SuperBlock) (bmType : BmType) (bits : Nat) : Prop :=
  ∀ d mem a, loadOne sb d bmType bits mem a ≠ mem a → bits ≤ a ∧ a < bits + sb.bitmapLen bmType

/-- Each bit below the number of sectors or inodes is one of the bitmap's, and is as it is on the
disk. -/
def LoadsAll (g : Geometry) (sectorBits inodeBits : Nat) (bmType : BmType) : Prop :=
  ∀ d mem, ∀ i < g.count bmType, i < (initSuperBlock g).bitmapLen bmType * 8 ∧
    ((mountFS (initSuperBlock g) d sectorBits inodeBits mem).bitmap bmType).bit i =
      (diskByte (initSuperBlock g) d bmType (i / 8)).toNat.testBit (i % 8)

/-- `BOFS_LoadBitmap` stays in its buffers, and loads every bit. -/
structure LoadsInside (g : Geometry) (sectorBits inodeBits : Nat) : Prop where
  sector : StaysInside (initSuperBlock g) .sector sectorBits
  inode : StaysInside (initSuperBlock g) .inode inodeBits
  loads : ∀ bmType, LoadsAll g sectorBits inodeBits bmType

/-! ## The bytes that are written -/

variable {g : Geometry}

theorem bitmap_len_eq (g : Geometry) (bmType : BmType) :
    (initSuperBlock g).bitmapLen bmType = g.count bmType / 8 := by
  cases bmType with
  | sector => rfl
  | inode => rfl

/-- Whole blocks are written. -/
theorem load_one_apply (d : Blocks) (bmType : BmType) (bits : Nat) (mem : Memory) (a : Nat) :
    loadOne (initSuperBlock g) d bmType bits mem a =
      if bits ≤ a ∧ a < bits + (initSuperBlock g).bitmapSectors bmType * g.blockSize then
        diskByte (initSuperBlock g) d bmType (a - bits)
      else clearBytes mem bits ((initSuperBlock g).bitmapLen bmType) a := by
  have hsize : 0 < (initSuperBlock g).blockSize := g.blockSize_pos
  rw [loadOne, load_blocks_all d hsize]
  rfl

/-- The blocks are as long as the bitmap when its length is a multiple of their size. -/
theorem bitmap_sectors_eq_iff (g : Geometry) (bmType : BmType) :
    (initSuperBlock g).bitmapSectors bmType * g.blockSize = (initSuperBlock g).bitmapLen bmType ↔
      g.blockSize ∣ (initSuperBlock g).bitmapLen bmType := by
  obtain ⟨hle, hlt⟩ := bitmap_sectors_spec g bmType
  constructor
  · intro heq
    exact ⟨_, heq.symm.trans (Nat.mul_comm ..)⟩
  · rintro ⟨q, hq⟩
    rw [hq, Nat.mul_comm g.blockSize q] at hle hlt ⊢
    have hge : q ≤ (initSuperBlock g).bitmapSectors bmType :=
      Nat.le_of_mul_le_mul_right hle g.blockSize_pos
    rw [← Nat.succ_mul] at hlt
    have hlt : (initSuperBlock g).bitmapSectors bmType < q + 1 := Nat.lt_of_mul_lt_mul_right hlt
    rw [Nat.le_antisymm (Nat.le_of_lt_succ hlt) hge]

theorem stays_inside_iff (g : Geometry) (bmType : BmType) (bits : Nat) :
    StaysInside (initSuperBlock g) bmType bits ↔
      g.blockSize ∣ (initSuperBlock g).bitmapLen bmType := by
  rw [← bitmap_sectors_eq_iff]
  constructor
  · intro hinside
    -- the byte behind the buffer, where the disk has ones
    by_contra hne
    have hle := (bitmap_sectors_spec g bmType).1
    have hwritten : loadOne (initSuperBlock g) (filledDisk 0xff) bmType bits (fun _ => 0)
        (bits + (initSuperBlock g).bitmapLen bmType) = 0xff := by
      rw [load_one_apply, if_pos (by omega)]
      rfl
    have hin := hinside (filledDisk 0xff) (fun _ => 0) _ (by rw [hwritten]; decide)
    omega
  · intro heq d mem a hne
    rw [load_one_apply, heq] at hne
    by_contra hout
    rw [if_neg hout, clearBytes, if_neg hout] at hne
    exact hne rfl

/-! ## The bits that are loaded -/

/-- The bits of the bitmap are those below the count when this is a multiple of 8. -/
theorem count_le_iff (g : Geometry) (bmType : BmType) :
    g.count bmType ≤ (initSuperBlock g).bitmapLen bmType * 8 ↔ 8 ∣ g.count bmType := by
  rw [bitmap_len_eq]
  omega

theorem LoadsAll.count_le {sectorBits inodeBits : Nat} {bmType : BmType}
    (h : LoadsAll g sectorBits inodeBits bmType) :
    g.count bmType ≤ (initSuperBlock g).bitmapLen bmType * 8 := by
  by_contra hlt
  have hin := (h (filledDisk 0) (fun _ => 0) _ (Nat.not_le.mp hlt)).1
  exact Nat.lt_irrefl _ hin

/-- What is loaded into buffers that are apart is there when `BOFS_LoadBitmap` returns. -/
theorem loads_all_of_inside {sectorBits inodeBits : Nat}
    (hapart : BuffersApart g sectorBits inodeBits)
    (hinode : StaysInside (initSuperBlock g) .inode inodeBits) {bmType : BmType}
    (hcount : g.count bmType ≤ (initSuperBlock g).bitmapLen bmType * 8) :
    LoadsAll g sectorBits inodeBits bmType := by
  intro d mem i hi
  have hsize : 0 < (initSuperBlock g).blockSize := g.blockSize_pos
  have hspec := bitmap_sectors_spec g bmType
  have hbyte : i / 8 < (initSuperBlock g).bitmapLen bmType := by omega
  refine ⟨by omega, ?_⟩
  rw [Bitmap.bit]
  congr 1
  cases bmType with
  | inode => exact mount_fs_inode hsize d _ _ mem (Nat.lt_of_lt_of_le hbyte hspec.1)
  | sector =>
      have hlen := (bitmap_sectors_eq_iff g .inode).mpr ((stays_inside_iff g .inode _).mp hinode)
      have hread := mount_fs_sector hsize d sectorBits inodeBits mem (Nat.le_of_eq hlen.symm)
        (Nat.lt_of_lt_of_le hbyte hspec.1)
      have hout : ¬ (inodeBits ≤ sectorBits + i / 8 ∧ sectorBits + i / 8 < inodeBits +
          (initSuperBlock g).inodeBitmapSectors * (initSuperBlock g).blockSize) := by
        intro hin
        have hend : (initSuperBlock g).inodeBitmapSectors * (initSuperBlock g).blockSize =
          (initSuperBlock g).inodeBitmapLen := hlen
        have hbehind := hapart.behind hbyte hin.1
        omega
      rw [hread, if_neg hout]

/-- `BOFS_LoadBitmap` stays in its buffers and loads every bit for the disks on which the bits of
the sectors and those of the inodes fill whole blocks. -/
theorem load_bitmap_iff (g : Geometry) (sectorBits inodeBits : Nat)
    (hapart : BuffersApart g sectorBits inodeBits) :
    LoadsInside g sectorBits inodeBits ↔
      8 * g.blockSize ∣ g.totalSectors.toNat ∧ 8 * g.blockSize ∣ g.inodeNr.toNat := by
  have hfull : ∀ bmType, 8 ∣ g.count bmType ∧ g.blockSize ∣ (initSuperBlock g).bitmapLen bmType ↔
      8 * g.blockSize ∣ g.count bmType := by
    intro bmType
    rw [bitmap_len_eq]
    constructor
    · rintro ⟨height, hdvd⟩
      exact (Nat.dvd_div_iff_mul_dvd height).mp hdvd
    · intro hdvd
      have height : 8 ∣ g.count bmType := dvd_of_mul_right_dvd hdvd
      exact ⟨height, (Nat.dvd_div_iff_mul_dvd height).mpr hdvd⟩
  constructor
  · intro h
    have hcount : ∀ bmType, 8 ∣ g.count bmType :=
      fun bmType => (count_le_iff g bmType).mp (h.loads bmType).count_le
    exact ⟨(hfull .sector).mp ⟨hcount .sector, (stays_inside_iff g .sector _).mp h.sector⟩,
      (hfull .inode).mp ⟨hcount .inode, (stays_inside_iff g .inode _).mp h.inode⟩⟩
  · rintro ⟨hsector, hinode⟩
    obtain ⟨hsectors, hsectorLen⟩ := (hfull .sector).mpr hsector
    obtain ⟨hinodes, hinodeLen⟩ := (hfull .inode).mpr hinode
    have hinside := (stays_inside_iff g .inode inodeBits).mpr hinodeLen
    refine ⟨(stays_inside_iff g .sector sectorBits).mpr hsectorLen, hinside, fun bmType => ?_⟩
    have hcount : 8 ∣ g.count bmType := by
      cases bmType with
      | sector => exact hsectors
      | inode => exact hinodes
    exact loads_all_of_inside hapart hinside ((count_le_iff g bmType).mpr hcount)

/-- A disk whose bitmaps fill a block each. -/
abbrev fullBlocksDisk : Geometry := { smallDisk with totalSectors := 8192, inodeNr := 8192 }

theorem full_blocks_disk_inside : LoadsInside fullBlocksDisk 0x1000 0x2000 :=
  (load_bitmap_iff fullBlocksDisk 0x1000 0x2000 (.inl (by decide))).mpr ⟨by decide, by decide⟩

/-- The sector bitmap of 2560 bytes is read in three blocks, behind its buffer. -/
theorem default_disk_overrun : ¬ LoadsInside defaultDisk 0x1000 0x10000 := by
  intro h
  have hdvd := (stays_inside_iff defaultDisk .sector _).mp h.sector
  exact absurd hdvd (by decide)

end XBook.Bofs
