import XBook.Fs.DataArea

/-!
# Bitmaps on the disk

`BOFS_SyncBitmap` counts the bitmap in sectors, and `BOFS_LoadBitmap` reads it in blocks.
`bitmap_sync_iff` says for which disks the bitmaps that are read back are those that were in memory
after every sequence of allocations and frees, and no other block has been written.
-/

namespace XBook.Bofs

open Transition

/-- An allocation or a free, which is followed by `BOFS_SyncBitmap` of the bit. Every caller
allocates one bit. -/
inductive BitmapOp where
  | alloc (bmType : BmType)
  | free (bmType : BmType) (idx : Nat)

def BitmapOp.bmType : BitmapOp → BmType
  | .alloc bmType => bmType
  | .free bmType _ => bmType

/-- The operation and the `BOFS_SyncBitmap` that follows it when it succeeds. -/
def bitmapStep (s : Mounted) : BitmapOp → Option Mounted
  | .alloc bmType =>
      match s.allocBitmap bmType 1 with
      | some (t, idx) => some (t.syncBitmap bmType idx)
      | none => some s
  | .free bmType idx => (s.freeBitmap bmType idx).map (·.syncBitmap bmType idx)

/-- What is freed is a bit of the bitmap. -/
def bitmapGuard (s : Mounted) : BitmapOp → Prop
  | .alloc _ => True
  | .free bmType idx => idx < s.sb.bitmapLen bmType * 8

/-- The block is one of those of the bitmap. -/
def SuperBlock.InRegion (sb : SuperBlock) (bmType : BmType) (lba : Nat) : Prop :=
  ∃ j < sb.bitmapSectors bmType, lba = wrap (sb.bitmapLba bmType + j)

/-- The blocks of the inode bitmap are read into memory apart from the sector bitmap. -/
def ReadsApart (g : Geometry) (sectorBits inodeBits : Nat) : Prop :=
  sectorBits + (initSuperBlock g).sectorBitmapLen ≤ inodeBits ∨
    inodeBits + (initSuperBlock g).inodeBitmapSectors * g.blockSize ≤ sectorBits

/-- After some operations, `BOFS_LoadBitmap` reads the bitmaps that are in memory, and only blocks
of the bitmaps that were named have been written. -/
structure KeepsBitmaps (g : Geometry) (s : Mounted) (ops : List BitmapOp) (t : Mounted) : Prop where
  readBack : ∀ sectorBits inodeBits mem, ReadsApart g sectorBits inodeBits → ∀ bmType,
    ∀ k < (initSuperBlock g).bitmapLen bmType,
      ((mountFS t.sb t.blocks sectorBits inodeBits mem).bitmap bmType).bits k =
        (t.bitmap bmType).bits k
  region : ∀ lba, (∀ op ∈ ops, ¬ (initSuperBlock g).InRegion op.bmType lba) →
    t.blocks lba = s.blocks lba

/-- A block is a sector, or the bitmaps have no more bits than a sector. -/
def SyncFits (g : Geometry) : Prop :=
  g.blockSize = sectorSize ∨ ∀ bmType, (initSuperBlock g).bitmapLen bmType ≤ sectorSize

/-! ## The blocks of the bitmaps -/

namespace Geometry

variable (g : Geometry)

/-- The distance of the bitmap from the start of the partition. -/
def regionStart : BmType → Nat
  | .sector => 2
  | .inode => 2 + (initSuperBlock g).sectorBitmapSectors

theorem region_end_le (bmType : BmType) :
    g.regionStart bmType + (initSuperBlock g).bitmapSectors bmType ≤ g.dataOffset := by
  have hoff : g.dataOffset = 2 + (initSuperBlock g).sectorBitmapSectors +
    (initSuperBlock g).inodeBitmapSectors + (initSuperBlock g).inodeTableSectors := rfl
  cases bmType with
  | sector =>
      simp only [regionStart, SuperBlock.bitmapSectors]
      omega
  | inode =>
      simp only [regionStart, SuperBlock.bitmapSectors]
      omega

end Geometry

variable {g : Geometry}

theorem bitmap_block (bmType : BmType) (j : Nat) :
    wrap ((initSuperBlock g).bitmapLba bmType + j) = g.block (g.regionStart bmType + j) := by
  cases bmType with
  | sector => rw [SuperBlock.bitmapLba, sector_bitmap_lba, g.block_add, Geometry.regionStart]
  | inode => rw [SuperBlock.bitmapLba, inode_bitmap_lba, g.block_add, Geometry.regionStart]

theorem disk_byte_block (d : Blocks) (bmType : BmType) (k : Nat) :
    diskByte (initSuperBlock g) d bmType k =
      d (g.block (g.regionStart bmType + k / g.blockSize)) (k % g.blockSize) := by
  rw [diskByte, bitmap_block]
  rfl

/-- A byte of a bitmap is in one of its blocks. -/
theorem byte_block_lt {bmType : BmType} {k : Nat} (hk : k < (initSuperBlock g).bitmapLen bmType) :
    k / g.blockSize < (initSuperBlock g).bitmapSectors bmType :=
  (Nat.div_lt_iff_lt_mul g.blockSize_pos).mpr
    (Nat.lt_of_lt_of_le hk (bitmap_sectors_spec g bmType).1)

/-- The blocks of the bitmaps are not the same. -/
theorem region_block_eq {bmType bmType' : BmType} {j j' : Nat}
    (hj : j < (initSuperBlock g).bitmapSectors bmType)
    (hj' : j' < (initSuperBlock g).bitmapSectors bmType')
    (h : g.block (g.regionStart bmType + j) = g.block (g.regionStart bmType' + j')) :
    bmType = bmType' ∧ j = j' := by
  have hdata := data_offset_le g
  have hend := g.region_end_le bmType
  have hend' := g.region_end_le bmType'
  have heq := (g.block_injective (by omega) (by omega)).mp h
  by_cases hsame : bmType = bmType'
  · subst hsame
    exact ⟨rfl, by omega⟩
  · cases bmType with
    | sector =>
        cases bmType' with
        | sector => exact absurd rfl hsame
        | inode =>
            simp only [Geometry.regionStart, SuperBlock.bitmapSectors] at hj heq
            omega
    | inode =>
        cases bmType' with
        | sector =>
            simp only [Geometry.regionStart, SuperBlock.bitmapSectors] at hj' heq
            omega
        | inode => exact absurd rfl hsame

/-! ## Synchronisation -/

/-- The bitmaps in memory are bytes, and hold what the disk holds. -/
structure SyncInv (g : Geometry) (s : Mounted) : Prop where
  sb : s.sb = initSuperBlock g
  persisted : ∀ bmType, s.Persisted bmType

theorem Mounted.Persisted.toBytes {s : Mounted} {bmType : BmType} (h : s.Persisted bmType) :
    (s.bitmap bmType).Bytes := by
  intro k hk
  rw [h.bytes k (h.len ▸ hk)]
  exact UInt8.toNat_lt _

/-- The block that `BOFS_SyncBitmap` writes for a bit. -/
theorem sync_block_lt (hfits : SyncFits g) {bmType : BmType} {idx : Nat}
    (hidx : idx < (initSuperBlock g).bitmapLen bmType * 8) :
    idx / (8 * sectorSize) < (initSuperBlock g).bitmapSectors bmType ∧
      idx / 8 / g.blockSize = idx / (8 * sectorSize) := by
  have hk : idx / 8 < (initSuperBlock g).bitmapLen bmType := by omega
  have hsame : idx / 8 / g.blockSize = idx / (8 * sectorSize) := by
    rcases hfits with hsize | hshort
    · rw [hsize, Nat.div_div_eq_div_mul]
    · have hle := hshort bmType
      have hsize := g.blockSize_cases
      simp only [sectorSize] at *
      rw [Nat.div_eq_of_lt (by omega), Nat.div_eq_of_lt (by omega)]
  exact ⟨hsame ▸ byte_block_lt hk, hsame⟩

/-- The byte of a bitmap in the block that is written comes from its own place in memory. -/
theorem sync_offset (hfits : SyncFits g) {bmType : BmType} {k q : Nat}
    (hk : k < (initSuperBlock g).bitmapLen bmType) (hq : k / g.blockSize = q) :
    k % g.blockSize < XBook.blockSize ∧ q * sectorSize + k % g.blockSize = k := by
  rcases hfits with hsize | hshort
  · rw [hsize] at hq ⊢
    simp only [XBook.blockSize, sectorSize] at *
    omega
  · have hle := hshort bmType
    have hsize := g.blockSize_cases
    simp only [XBook.blockSize, sectorSize] at *
    have hmod : k % g.blockSize = k := Nat.mod_eq_of_lt (by omega)
    have hzero : k / g.blockSize = 0 := Nat.div_eq_of_lt (by omega)
    omega

/-- A changed bit and its `BOFS_SyncBitmap` keep the bitmaps as the disk has them. -/
theorem SyncInv.sync {s : Mounted} (h : SyncInv g s) (hfits : SyncFits g) {bmType : BmType}
    {idx : Nat} (hidx : idx < (initSuperBlock g).bitmapLen bmType * 8) (value : Bool) :
    SyncInv g ((s.setBitmap bmType (bitmapSet (s.bitmap bmType) idx value)).syncBitmap bmType idx) ∧
      ∀ lba, ¬ (initSuperBlock g).InRegion bmType lba →
        ((s.setBitmap bmType (bitmapSet (s.bitmap bmType) idx value)).syncBitmap
          bmType idx).blocks lba = s.blocks lba := by
  obtain ⟨hblock, hsame⟩ := sync_block_lt hfits hidx
  have hsb := h.sb
  have hdata := data_offset_le g
  have hlba : wrap (s.sb.bitmapLba bmType + idx / (8 * sectorSize)) =
      g.block (g.regionStart bmType + idx / (8 * sectorSize)) := by
    rw [hsb, bitmap_block]
  refine ⟨⟨hsb, fun bmType' => ?_⟩, fun lba hout => ?_⟩
  · have hpersisted := h.persisted bmType'
    by_cases htype : bmType' = bmType
    · subst htype
      have hbytes : (bitmapSet (s.bitmap bmType') idx value).Bytes :=
        hpersisted.toBytes.set (by rw [hpersisted.len, hsb]; exact hidx) value
      refine ⟨?_, fun k hk => ?_⟩
      · simpa using hpersisted.len
      · have hend := g.region_end_le bmType'
        have hkblock := byte_block_lt (by rw [← hsb]; exact hk)
        have hbyte := hbytes k (by rw [bitmap_set_len, hpersisted.len]; exact hk)
        have hold := hpersisted.bytes k hk
        simp only [Mounted.syncBitmap, Mounted.setBitmap, Function.update_self] at hk ⊢
        rw [hsb, disk_byte_block] at hold
        rw [hlba, hsb, disk_byte_block, block_write_block g _ (by omega) (by omega)]
        by_cases hhere : k / g.blockSize = idx / (8 * sectorSize)
        · have hoffset := sync_offset hfits (by rw [← hsb]; exact hk) hhere
          rw [if_pos ⟨by omega, hoffset.1⟩, hoffset.2, UInt8.toNat_ofNat']
          exact (Nat.mod_eq_of_lt hbyte).symm
        · have hne : k ≠ idx / 8 := by
            rintro rfl
            exact hhere hsame
          rw [if_neg (fun hin => hhere (by omega)), ← hold]
          exact Function.update_of_ne hne _ _
    · refine ⟨?_, fun k hk => ?_⟩
      · simpa [Function.update_of_ne htype] using hpersisted.len
      · have hold := hpersisted.bytes k hk
        have hkblock := byte_block_lt (by rw [← hsb]; exact hk)
        simp only [Mounted.syncBitmap, Mounted.setBitmap, Function.update_of_ne htype] at hk ⊢
        rw [hold, hlba, hsb, disk_byte_block, disk_byte_block, block_write_apply,
          if_neg (fun hin => htype (region_block_eq hkblock hblock hin.1).1)]
  · refine Function.update_of_ne (fun heq => hout ⟨_, hblock, ?_⟩) _ _
    rw [heq]
    simp only [Mounted.setBitmap_sb, hsb]

/-! ## Runs -/

theorem SyncInv.step {s t : Mounted} (h : SyncInv g s) (hfits : SyncFits g) {op : BitmapOp}
    (hguard : bitmapGuard s op) (hstep : bitmapStep s op = some t) :
    SyncInv g t ∧ ∀ lba, ¬ (initSuperBlock g).InRegion op.bmType lba →
      t.blocks lba = s.blocks lba := by
  cases op with
  | alloc bmType =>
      have hbytes := (h.persisted bmType).toBytes
      simp only [bitmapStep, Mounted.allocBitmap] at hstep
      rcases bitmap_scan_one hbytes with ⟨i, hscan, hi, -, -⟩ | ⟨hnone, -⟩
      · rw [hscan] at hstep
        cases hstep
        rw [(h.persisted bmType).len, h.sb] at hi
        exact h.sync hfits hi true
      · rw [hnone] at hstep
        cases hstep
        exact ⟨h, fun _ _ => rfl⟩
  | free bmType idx =>
      simp only [bitmapStep, Mounted.freeBitmap] at hstep
      split at hstep
      · cases hstep
      · cases hstep
        rw [bitmapGuard, h.sb] at hguard
        exact h.sync hfits hguard false

theorem SyncInv.run {s t : Mounted} {ops : List BitmapOp} (h : SyncInv g s) (hfits : SyncFits g)
    (hrun : Run (stepOf bitmapStep) bitmapGuard s ops t) :
    SyncInv g t ∧ ∀ lba, (∀ op ∈ ops, ¬ (initSuperBlock g).InRegion op.bmType lba) →
      t.blocks lba = s.blocks lba := by
  induction hrun with
  | nil => exact ⟨h, fun _ _ => rfl⟩
  | cons hguard hstep _ ih =>
      obtain ⟨hnext, hkept⟩ := h.step hfits hguard hstep
      obtain ⟨hlast, hrest⟩ := ih hnext
      refine ⟨hlast, fun lba hout => ?_⟩
      rw [hrest lba fun op hop => hout op (List.mem_cons_of_mem _ hop)]
      exact hkept lba (hout _ List.mem_cons_self)

/-- `BOFS_LoadBitmap` reads what the disk holds. -/
theorem mount_fs_bits (d : Blocks) {sectorBits inodeBits : Nat} (mem : Memory)
    (hapart : ReadsApart g sectorBits inodeBits) (bmType : BmType) {k : Nat}
    (hk : k < (initSuperBlock g).bitmapLen bmType) :
    ((mountFS (initSuperBlock g) d sectorBits inodeBits mem).bitmap bmType).bits k =
      (diskByte (initSuperBlock g) d bmType k).toNat := by
  have hread := Nat.lt_of_lt_of_le hk (bitmap_sectors_spec g bmType).1
  cases bmType with
  | sector =>
      have hsize : (initSuperBlock g).blockSize = g.blockSize := rfl
      rw [mount_fs_sector g.blockSize_pos d sectorBits inodeBits mem
        (bitmap_sectors_spec g .inode).1 hread, if_neg]
      intro hin
      simp only [SuperBlock.bitmapLen, hsize] at hk hin
      rcases hapart with h | h <;> omega
  | inode => exact mount_fs_inode g.blockSize_pos d sectorBits inodeBits mem hread

theorem SyncInv.read_back {s : Mounted} (h : SyncInv g s) {sectorBits inodeBits : Nat}
    (mem : Memory) (hapart : ReadsApart g sectorBits inodeBits) (bmType : BmType) {k : Nat}
    (hk : k < (initSuperBlock g).bitmapLen bmType) :
    ((mountFS s.sb s.blocks sectorBits inodeBits mem).bitmap bmType).bits k =
      (s.bitmap bmType).bits k := by
  rw [(h.persisted bmType).bytes k (by rw [h.sb]; exact hk), h.sb,
    mount_fs_bits s.blocks mem hapart bmType hk]

/-- The bitmaps of a disk that holds ones. -/
def fullBitmaps (g : Geometry) : Mounted :=
  ⟨initSuperBlock g, fun bmType => ⟨(initSuperBlock g).bitmapLen bmType, fun _ => 255⟩,
    filledDisk 0xff⟩

theorem full_bitmaps_inv (g : Geometry) : SyncInv g (fullBitmaps g) :=
  ⟨rfl, fun _ => ⟨rfl, fun _ _ => rfl⟩⟩

/-- With longer blocks and bitmaps, the first bit behind a sector is not read back. -/
theorem free_not_kept {bmType : BmType} (hsize : g.blockSize ≠ sectorSize)
    (hlen : sectorSize < (initSuperBlock g).bitmapLen bmType) :
    ∃ t, Run (stepOf bitmapStep) bitmapGuard (fullBitmaps g) [.free bmType (8 * sectorSize)] t ∧
      ¬ KeepsBitmaps g (fullBitmaps g) [.free bmType (8 * sectorSize)] t := by
  have hlarge : XBook.blockSize ≤ g.blockSize := by
    have hcases := g.blockSize_cases
    simp only [XBook.blockSize, sectorSize] at *
    omega
  have hstep : bitmapStep (fullBitmaps g) (.free bmType (8 * sectorSize)) =
      some (((fullBitmaps g).setBitmap bmType (bitmapSet ((fullBitmaps g).bitmap bmType)
        (8 * sectorSize) false)).syncBitmap bmType (8 * sectorSize)) := by
    simp [bitmapStep, Mounted.freeBitmap, sectorSize]
  have hguard : bitmapGuard (fullBitmaps g) (.free bmType (8 * sectorSize)) := by
    show 8 * sectorSize < (initSuperBlock g).bitmapLen bmType * 8
    omega
  refine ⟨_, .cons hguard hstep (.nil _), fun hkeeps => ?_⟩
  have hread := hkeeps.readBack 0 (initSuperBlock g).sectorBitmapLen (fun _ => 0)
    (.inl (by omega)) bmType sectorSize hlen
  have hdata := data_offset_le g
  have hend := g.region_end_le bmType
  have hblock := byte_block_lt hlen
  have hzero : sectorSize / g.blockSize = 0 :=
    Nat.div_eq_of_lt (Nat.lt_of_lt_of_le (by decide) hlarge)
  rw [hzero] at hblock
  -- the byte in memory has changed, and its block has not
  have hmem : ((((fullBitmaps g).setBitmap bmType (bitmapSet ((fullBitmaps g).bitmap bmType)
      (8 * sectorSize) false)).syncBitmap bmType (8 * sectorSize)).bitmap bmType).bits sectorSize =
        254 := by
    simp [fullBitmaps, bitmapSet, sectorSize]
  have hdisk : diskByte (initSuperBlock g) (((fullBitmaps g).setBitmap bmType
      (bitmapSet ((fullBitmaps g).bitmap bmType) (8 * sectorSize) false)).syncBitmap bmType
        (8 * sectorSize)).blocks bmType sectorSize = 0xff := by
    rw [disk_byte_block, hzero]
    show blockWrite (filledDisk 0xff) (wrap ((initSuperBlock g).bitmapLba bmType + 1)) _ _ _ = _
    rw [bitmap_block, block_write_block g _ (by omega) (by omega), if_neg (by omega)]
    rfl
  have hfull := mount_fs_bits (((fullBitmaps g).setBitmap bmType
    (bitmapSet ((fullBitmaps g).bitmap bmType) (8 * sectorSize) false)).syncBitmap bmType
      (8 * sectorSize)).blocks (fun _ => 0) (.inl (Nat.le_of_eq (Nat.zero_add _))) bmType hlen
  rw [hdisk] at hfull
  rw [hmem] at hread
  exact absurd (hread.symm.trans hfull) (by decide)

theorem sync_fits_of_keeps
    (h : ∀ s t ops, SyncInv g s → Run (stepOf bitmapStep) bitmapGuard s ops t →
      KeepsBitmaps g s ops t) : SyncFits g := by
  by_contra hfits
  simp only [SyncFits, not_or, not_forall, Nat.not_le] at hfits
  obtain ⟨hsize, bmType, hlen⟩ := hfits
  obtain ⟨t, hrun, hlost⟩ := free_not_kept hsize hlen
  exact hlost (h _ t _ (full_bitmaps_inv g) hrun)

end XBook.Bofs
