import XBook.Fs.Format
import XBook.Lib.Transition

/-!
# The blocks that files get

`AllocOneSector` turns the index of a clear bit of the sector bitmap into a block, counted from the
start of the data area. The bitmap has a bit for each sector of the partition, so its last bits lie
behind the partition; `data_area_iff` says on which disks no block outside the data area is given
away.
-/

namespace XBook.Bofs

open Transition

/-- The bitmap in memory holds what the disk holds. -/
structure Mounted.Persisted (s : Mounted) (bmType : BmType) : Prop where
  len : (s.bitmap bmType).btmpBytesLen = s.sb.bitmapLen bmType
  bytes : ∀ k < s.sb.bitmapLen bmType,
    (s.bitmap bmType).bits k = (diskByte s.sb s.blocks bmType k).toNat

/-- A file system that has just been made, with the bitmap of the sectors in memory. -/
structure Formatted (g : Geometry) (s : Mounted) : Prop where
  sb : s.sb = initSuperBlock g
  blocks : ∃ date d, s.blocks = makeFS g date d
  sector : s.Persisted .sector

/-- `AllocOneSector` gives away a block. -/
def allocStep (s : Mounted) (lba : Nat) (t : Mounted) : Prop := s.allocOneSector = some (t, lba)

/-- The block holds the superblock, or a part of the bitmaps or of the inode table. -/
def SuperBlock.IsMetadata (sb : SuperBlock) (lba : Nat) : Prop :=
  lba = sb.superBlockLba ∨ (∃ j < sb.sectorBitmapSectors, lba = wrap (sb.sectorBitmapLba + j)) ∨
    (∃ j < sb.inodeBitmapSectors, lba = wrap (sb.inodeBitmapLba + j)) ∨
      ∃ j < sb.inodeTableSectors, lba = wrap (sb.inodeTableLba + j)

/-- The block lies in the data area and in the partition, whose first block `BOFS_MakeFS` takes to
be the one with the number `startSector`. The driver counts the partition in units of which `unit`
make a block: the IDE driver counts blocks, and the RAM disk counts sectors. -/
structure InDataArea (g : Geometry) (unit lba : Nat) : Prop where
  first : g.startSector.toNat ≤ lba
  start : (initSuperBlock g).dataStartLba ≤ lba
  stop : lba < (g.startSector.toNat + g.totalSectors.toNat) / unit
  apart : ¬ (initSuperBlock g).IsMetadata lba

/-- The number of bytes of the sector bitmap up to the last that has a clear bit on some disk that
was formatted. -/
def freeBytes (g : Geometry) : Nat :=
  let len := (initSuperBlock g).sectorBitmapLen
  if usedBlocks g < len * 8 ∨ XBook.blockSize ≤ (len - 1) % g.blockSize then len
  else if g.blockSize ≤ XBook.blockSize then 0
  else (len - 1) / g.blockSize * g.blockSize

/-- The bits of these bytes stand for blocks of the partition. -/
def SectorsFit (g : Geometry) (unit : Nat) : Prop :=
  freeBytes g = 0 ∨ g.startSector.toNat + g.dataOffset + freeBytes g * 8 ≤
    (g.startSector.toNat + g.totalSectors.toNat) / unit

/-! ## Allocation -/

/-- What `AllocOneSector` does: it takes the first clear bit. -/
theorem alloc_one_sector_spec {s : Mounted} (h : (s.bitmap .sector).Bytes) :
    (∃ i t, s.allocOneSector = some (t, s.sb.idxToLba i) ∧ t.sb = s.sb ∧
      t.bitmap .sector = bitmapSet (s.bitmap .sector) i true ∧
      i < (s.bitmap .sector).btmpBytesLen * 8 ∧ (s.bitmap .sector).bit i = false ∧
      ∀ j < i, (s.bitmap .sector).bit j = true) ∨
    (s.allocOneSector = none ∧
      ∀ j < (s.bitmap .sector).btmpBytesLen * 8, (s.bitmap .sector).bit j = true) := by
  rcases bitmap_scan_one h with ⟨i, hscan, hi, hclear, hset⟩ | ⟨hnone, hall⟩
  · have halloc : ∃ t, s.allocOneSector = some (t, s.sb.idxToLba i) ∧ t.sb = s.sb ∧
        t.bitmap .sector = bitmapSet (s.bitmap .sector) i true := by
      rw [Mounted.allocOneSector, Mounted.allocBitmap, hscan]
      refine ⟨_, rfl, rfl, ?_⟩
      show Function.update s.bitmap .sector _ .sector = _
      rw [Function.update_self]
      rfl
    obtain ⟨t, hsome, hsb, hmap⟩ := halloc
    exact .inl ⟨i, t, hsome, hsb, hmap, hi, hclear, hset⟩
  · refine .inr ⟨?_, hall⟩
    rw [Mounted.allocOneSector, Mounted.allocBitmap, hnone]
    rfl

/-- Each clear bit is allocated in some run. -/
theorem exists_alloc_run {s : Mounted} (h : (s.bitmap .sector).Bytes) {i : Nat}
    (hi : i < (s.bitmap .sector).btmpBytesLen * 8) (hclear : (s.bitmap .sector).bit i = false) :
    ∃ lbas t, Run allocStep anyLabel s lbas t ∧ s.sb.idxToLba i ∈ lbas := by
  -- on the number of bits from the first clear one to `i`
  suffices hall : ∀ n s, (s.bitmap .sector).Bytes → i < (s.bitmap .sector).btmpBytesLen * 8 →
      (s.bitmap .sector).bit i = false → (∀ j, j + n ≤ i → (s.bitmap .sector).bit j = true) →
      ∃ lbas t, Run allocStep anyLabel s lbas t ∧ s.sb.idxToLba i ∈ lbas from
    hall (i + 1) s h hi hclear fun j hj => by omega
  intro n
  induction n with
  | zero =>
      intro s _ _ hclear hset
      rw [hset i (Nat.le_refl _)] at hclear
      cases hclear
  | succ n ih =>
      intro s h hi hclear hset
      rcases alloc_one_sector_spec h with ⟨j, t, halloc, hsb, hmap, hj, hfree, hfirst⟩ | ⟨-, hall⟩
      · by_cases hji : j = i
        · exact ⟨[s.sb.idxToLba i], t, .cons trivial (hji ▸ halloc) (.nil t),
            List.mem_singleton_self _⟩
        · have hlt : j < i := by
            by_contra hge
            rw [hfirst i (by omega)] at hclear
            cases hclear
          have hle : i < j + 1 + n := by
            by_contra hge
            rw [hset j (by omega)] at hfree
            cases hfree
          have hmember : t.sb.idxToLba i = s.sb.idxToLba i := by rw [hsb]
          obtain ⟨lbas, u, hrun, hin⟩ := ih t (by rw [hmap]; exact h.set hj true)
            (by rw [hmap]; exact hi) (by rw [hmap, bit_bitmap_set, if_neg (Ne.symm hji)]; exact hclear)
            (fun k hk => by
              rw [hmap, bit_bitmap_set]
              split
              · rfl
              · exact hfirst k (by omega))
          exact ⟨_, u, .cons trivial halloc hrun, List.mem_cons_of_mem _ (hmember ▸ hin)⟩
      · rw [hall i hi] at hclear
        cases hclear

/-! ## The bits that formatting leaves clear -/

variable {g : Geometry} {unit : Nat}

theorem Formatted.bytes {s : Mounted} (h : Formatted g s) : (s.bitmap .sector).Bytes := by
  intro k hk
  rw [h.sector.bytes k (h.sector.len ▸ hk)]
  exact UInt8.toNat_lt _

theorem Formatted.len {s : Mounted} (h : Formatted g s) :
    (s.bitmap .sector).btmpBytesLen = (initSuperBlock g).sectorBitmapLen := by
  rw [h.sector.len, h.sb]
  rfl

theorem free_bytes_cases (g : Geometry) :
    (freeBytes g = (initSuperBlock g).sectorBitmapLen ∧
      (usedBlocks g < (initSuperBlock g).sectorBitmapLen * 8 ∨
        XBook.blockSize ≤ ((initSuperBlock g).sectorBitmapLen - 1) % g.blockSize)) ∨
    (freeBytes g = 0 ∧ g.blockSize ≤ XBook.blockSize) ∨
    (freeBytes g = ((initSuperBlock g).sectorBitmapLen - 1) / g.blockSize * g.blockSize ∧
      XBook.blockSize < g.blockSize) := by
  by_cases hlast : usedBlocks g < (initSuperBlock g).sectorBitmapLen * 8 ∨
      XBook.blockSize ≤ ((initSuperBlock g).sectorBitmapLen - 1) % g.blockSize
  · exact .inl ⟨if_pos hlast, hlast⟩
  · by_cases hsize : g.blockSize ≤ XBook.blockSize
    · exact .inr (.inl ⟨(if_neg hlast).trans (if_pos hsize), hsize⟩)
    · exact .inr (.inr ⟨(if_neg hlast).trans (if_neg hsize), Nat.not_le.mp hsize⟩)

/-- The clear bits are among those that `freeBytes` counts. -/
theorem Formatted.clear_lt {s : Mounted} (h : Formatted g s) {i : Nat}
    (hi : i < (initSuperBlock g).sectorBitmapLen * 8) (hclear : (s.bitmap .sector).bit i = false) :
    i < freeBytes g * 8 := by
  obtain ⟨date, d, hblocks⟩ := h.blocks
  have hspec : (initSuperBlock g).sectorBitmapLen ≤
    (initSuperBlock g).sectorBitmapSectors * g.blockSize := (bitmap_sectors_spec g .sector).1
  have hk : i / 8 < (initSuperBlock g).sectorBitmapLen := by omega
  have hbyte := h.sector.bytes (i / 8) (by rw [h.sb]; exact hk)
  rw [h.sb, hblocks, format_sector_byte (Nat.lt_of_lt_of_le hk hspec)] at hbyte
  rw [Bitmap.bit, hbyte] at hclear
  obtain ⟨hbuf, -, -⟩ := buf_blocks_spec g
  simp only [freeBytes]
  by_cases hlast : usedBlocks g < (initSuperBlock g).sectorBitmapLen * 8 ∨
      XBook.blockSize ≤ ((initSuperBlock g).sectorBitmapLen - 1) % g.blockSize
  · rw [if_pos hlast]
    exact hi
  · rw [if_neg hlast]
    have hdiv := Nat.div_add_mod (i / 8) g.blockSize
    have hlow : XBook.blockSize ≤ i / 8 % g.blockSize := by
      by_contra hlow
      split at hclear
      · rw [used_buffer_bit, decide_eq_false_iff_not] at hclear
        omega
      · next hwritten =>
          -- the byte is behind the used ones
          have hblock : bufBlocks g * g.blockSize ≤ i / 8 / g.blockSize * g.blockSize :=
            Nat.mul_le_mul_right _ (by omega)
          rw [Nat.mul_comm] at hdiv
          omega
    have hsize : XBook.blockSize < g.blockSize := Nat.lt_of_le_of_lt hlow (Nat.mod_lt _ g.blockSize_pos)
    rw [if_neg (by omega)]
    by_contra hge
    -- a byte of the last block, which is copied as far as the bitmap goes
    have hend := Nat.div_add_mod ((initSuperBlock g).sectorBitmapLen - 1) g.blockSize
    have hmod := Nat.mod_lt ((initSuperBlock g).sectorBitmapLen - 1) g.blockSize_pos
    rw [Nat.mul_comm] at hend
    have hsame : i / 8 % g.blockSize =
        i / 8 - ((initSuperBlock g).sectorBitmapLen - 1) / g.blockSize * g.blockSize := by
      obtain ⟨r, hr⟩ := Nat.exists_eq_add_of_le (show
        ((initSuperBlock g).sectorBitmapLen - 1) / g.blockSize * g.blockSize ≤ i / 8 by omega)
      rw [hr, Nat.add_sub_cancel_left, Nat.add_comm, Nat.add_mul_mod_self_right,
        Nat.mod_eq_of_lt (by omega)]
    omega

/-- On a disk that held zeros, the last of the bits that `freeBytes` counts is clear. -/
theorem Formatted.last_clear {s : Mounted} (h : Formatted g s) {date : Nat}
    (hblocks : s.blocks = makeFS g date (filledDisk 0)) (hpos : 0 < freeBytes g) :
    freeBytes g * 8 - 1 < (initSuperBlock g).sectorBitmapLen * 8 ∧
      (s.bitmap .sector).bit (freeBytes g * 8 - 1) = false := by
  have hspec : (initSuperBlock g).sectorBitmapLen ≤
    (initSuperBlock g).sectorBitmapSectors * g.blockSize := (bitmap_sectors_spec g .sector).1
  have hzero : ∀ r, (0 : UInt8).toNat.testBit r = false := fun r => Nat.zero_testBit r
  -- the byte of that bit is one that is not written, or the bit is not used
  have hbyte : freeBytes g - 1 < (initSuperBlock g).sectorBitmapLen ∧
      (usedBlocks g ≤ freeBytes g * 8 - 1 ∨
        XBook.blockSize ≤ (freeBytes g - 1) % g.blockSize) := by
    rcases free_bytes_cases g with ⟨heq, hlast⟩ | ⟨heq, -⟩ | ⟨heq, hsize⟩
    · rw [heq] at hpos ⊢
      exact ⟨by omega, by omega⟩
    · omega
    · rw [heq] at hpos ⊢
      have hle := Nat.div_mul_le_self ((initSuperBlock g).sectorBitmapLen - 1) g.blockSize
      refine ⟨by omega, .inr ?_⟩
      generalize ((initSuperBlock g).sectorBitmapLen - 1) / g.blockSize = q at *
      obtain ⟨p, rfl⟩ := Nat.exists_eq_add_of_lt (Nat.pos_of_mul_pos_right hpos)
      have hsub : (0 + p + 1) * g.blockSize - 1 = g.blockSize - 1 + p * g.blockSize := by
        rw [Nat.zero_add, Nat.succ_mul]
        omega
      rw [hsub, Nat.add_mul_mod_self_right, Nat.mod_eq_of_lt (by omega)]
      omega
  refine ⟨by omega, ?_⟩
  have hdiv : (freeBytes g * 8 - 1) / 8 = freeBytes g - 1 := by omega
  have hread := h.sector.bytes (freeBytes g - 1) (by rw [h.sb]; exact hbyte.1)
  rw [h.sb, hblocks, format_sector_byte (Nat.lt_of_lt_of_le hbyte.1 hspec)] at hread
  rw [Bitmap.bit, hdiv, hread]
  split
  · next hwritten =>
      rw [← hdiv, used_buffer_bit, decide_eq_false_iff_not]
      omega
  · exact hzero _

/-! ## Runs -/

/-- What allocation keeps: the bits that are clear are among those of a formatted disk. -/
structure AreaInv (g : Geometry) (s : Mounted) : Prop where
  sb : s.sb = initSuperBlock g
  bytes : (s.bitmap .sector).Bytes
  len : (s.bitmap .sector).btmpBytesLen = (initSuperBlock g).sectorBitmapLen
  clear : ∀ i < (initSuperBlock g).sectorBitmapLen * 8, (s.bitmap .sector).bit i = false →
    i < freeBytes g * 8

theorem Formatted.area_inv {s : Mounted} (h : Formatted g s) : AreaInv g s :=
  ⟨h.sb, h.bytes, h.len, fun _ hi hclear => h.clear_lt hi hclear⟩

theorem AreaInv.step {s t : Mounted} {lba : Nat} (h : AreaInv g s) (hstep : allocStep s lba t) :
    AreaInv g t ∧ ∃ i < freeBytes g * 8, lba = (initSuperBlock g).idxToLba i := by
  rcases alloc_one_sector_spec h.bytes with ⟨i, u, halloc, hsb, hmap, hi, hclear, -⟩ | ⟨hnone, -⟩
  · rw [allocStep, halloc] at hstep
    cases hstep
    refine ⟨⟨hsb.trans h.sb, ?_, ?_, ?_⟩, i, h.clear i (h.len ▸ hi) hclear, by rw [h.sb]⟩
    · rw [hmap]
      exact h.bytes.set hi true
    · rw [hmap]
      exact h.len
    · intro j hj hfree
      rw [hmap, bit_bitmap_set] at hfree
      split at hfree
      · cases hfree
      · exact h.clear j hj hfree
  · rw [allocStep, hnone] at hstep
    cases hstep

/-- The blocks of a run are those of bits that were clear. -/
theorem AreaInv.run {s t : Mounted} {lbas : List Nat} (h : AreaInv g s)
    (hrun : Run allocStep anyLabel s lbas t) {lba : Nat} (hlba : lba ∈ lbas) :
    ∃ i < freeBytes g * 8, lba = (initSuperBlock g).idxToLba i := by
  induction hrun with
  | nil => cases hlba
  | cons _ hstep _ ih =>
      obtain ⟨hnext, hfirst⟩ := h.step hstep
      rcases List.mem_cons.mp hlba with rfl | hrest
      · exact hfirst
      · exact ih hnext hrest

theorem idx_to_lba_eq (g : Geometry) (i : Nat) :
    (initSuperBlock g).idxToLba i = g.block (g.dataOffset + i) := by
  rw [SuperBlock.idxToLba, data_start_lba, g.block_add]

/-- The metadata is before the data area. -/
theorem metadata_block {lba : Nat} (h : (initSuperBlock g).IsMetadata lba) :
    ∃ o < g.dataOffset, lba = g.block o := by
  have hoff : g.dataOffset = 2 + (initSuperBlock g).sectorBitmapSectors +
    (initSuperBlock g).inodeBitmapSectors + (initSuperBlock g).inodeTableSectors := rfl
  rcases h with rfl | ⟨j, hj, rfl⟩ | ⟨j, hj, rfl⟩ | ⟨j, hj, rfl⟩
  · exact ⟨1, by omega, rfl⟩
  · exact ⟨2 + j, by omega, by rw [sector_bitmap_lba, g.block_add]⟩
  · rw [inode_bitmap_lba, g.block_add]
    exact ⟨_, by omega, rfl⟩
  · rw [inode_table_lba, g.block_add]
    exact ⟨_, by omega, rfl⟩

theorem SectorsFit.in_data_area (h : SectorsFit g unit)
    (hend : g.startSector.toNat + g.totalSectors.toNat ≤ 2 ^ 32) {i : Nat}
    (hi : i < freeBytes g * 8) : InDataArea g unit ((initSuperBlock g).idxToLba i) := by
  have hfit := h.resolve_left (by omega)
  have hdiv := Nat.div_le_self (g.startSector.toNat + g.totalSectors.toNat) unit
  have hplain : ∀ o, o ≤ g.dataOffset + i → g.block o = g.startSector.toNat + o :=
    fun o ho => wrap_of_lt (by omega)
  refine ⟨?_, ?_, ?_, ?_⟩
  · rw [idx_to_lba_eq, hplain _ (Nat.le_refl _)]
    omega
  · rw [idx_to_lba_eq, data_start_lba, hplain _ (Nat.le_add_right _ _), hplain _ (Nat.le_refl _)]
    omega
  · rw [idx_to_lba_eq, hplain _ (Nat.le_refl _)]
    omega
  · intro hmeta
    obtain ⟨o, ho, heq⟩ := metadata_block hmeta
    rw [idx_to_lba_eq, hplain _ (Nat.le_refl _), hplain o (by omega)] at heq
    omega

/-- The loaded bitmap of a disk that held zeros. -/
theorem exists_formatted (g : Geometry) : ∃ s, Formatted g s ∧
    s.blocks = makeFS g 0 (filledDisk 0) := by
  refine ⟨⟨initSuperBlock g, fun bmType => ⟨(initSuperBlock g).bitmapLen bmType, fun k =>
    (diskByte (initSuperBlock g) (makeFS g 0 (filledDisk 0)) bmType k).toNat⟩,
    makeFS g 0 (filledDisk 0)⟩, ⟨rfl, ⟨0, _, rfl⟩, rfl, fun k _ => rfl⟩, rfl⟩

theorem sectors_fit_of_area (hend : g.startSector.toNat + g.totalSectors.toNat ≤ 2 ^ 32)
    (h : ∀ s, Formatted g s → ∀ lbas t, Run allocStep anyLabel s lbas t →
      ∀ lba ∈ lbas, InDataArea g unit lba) : SectorsFit g unit := by
  by_cases hpos : freeBytes g = 0
  · exact .inl hpos
  · refine .inr ?_
    obtain ⟨s, hs, hblocks⟩ := exists_formatted g
    obtain ⟨hlt, hclear⟩ := hs.last_clear hblocks (Nat.pos_of_ne_zero hpos)
    rw [← hs.len] at hlt
    obtain ⟨lbas, t, hrun, hin⟩ := exists_alloc_run hs.bytes hlt hclear
    have harea := h s hs lbas t hrun _ hin
    have hfirst := harea.first
    have hstart := harea.start
    have hstop := harea.stop
    rw [hs.sb, idx_to_lba_eq] at hfirst hstart hstop
    rw [data_start_lba] at hstart
    have hdiv := Nat.div_le_self (g.startSector.toNat + g.totalSectors.toNat) unit
    have hdata := data_offset_le g
    have hlen : (initSuperBlock g).sectorBitmapLen = g.totalSectors.toNat / 8 := rfl
    rw [hs.len] at hlt
    simp only [Geometry.block, wrap] at hfirst hstart hstop
    omega

/-- A disk of 15 sectors with blocks of one sector. -/
abbrev tinyDisk : Geometry := ⟨0, 0, 15, 512, 8, by decide⟩

end XBook.Bofs
