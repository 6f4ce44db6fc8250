import XBook.Fs.InodeData
import XBook.Lib.Forest

/-!
# The map of the blocks of all inodes

`BOFS_GetInodeData` again and again, for any inodes and indices. The pointers of the inodes and of
the indirect blocks are a forest, and each call finds a block or lets the forest grow by sectors
that were free. `block_map_right` says that a block has one inode and one index, that it is never an
indirect block, and that a call fails only at the end of an inode or of the disk.
-/

namespace XBook.Bofs

open Transition

/-! ## Words of a block -/

theorem field_bytes_word {v : Nat} (hv : v < 2 ^ 32) :
    ((fieldBytes v).getD 0 0).toNat + 2 ^ 8 * ((fieldBytes v).getD 1 0).toNat +
      2 ^ 16 * ((fieldBytes v).getD 2 0).toNat + 2 ^ 24 * ((fieldBytes v).getD 3 0).toNat = v := by
  show (UInt8.ofNat v).toNat + 2 ^ 8 * (UInt8.ofNat (v / 2 ^ 8)).toNat +
    2 ^ 16 * (UInt8.ofNat (v / 2 ^ 16)).toNat +
      2 ^ 24 * (UInt8.ofNat (v / 2 ^ 16 / 2 ^ 8)).toNat = v
  simp only [UInt8.toNat_ofNat']
  omega

/-- A byte of a pointer that is stored. -/
theorem patch_inside (buffer : Nat → UInt8) (offset : Nat) {bytes : List UInt8} {k : Nat}
    (hk : k < bytes.length) : patch buffer offset bytes (offset + k) = bytes.getD k 0 := by
  rw [patch, if_pos (by omega), Nat.add_sub_cancel_left]

theorem patch_outside (buffer : Nat → UInt8) {offset i : Nat} {bytes : List UInt8}
    (hi : i < offset ∨ offset + bytes.length ≤ i) : patch buffer offset bytes i = buffer i :=
  if_neg (by omega)

/-- A pointer is stored in its word. -/
theorem word_patch (buffer : Nat → UInt8) (i j : Nat) {v : Nat} (hv : v < 2 ^ 32) :
    wordAt (patch buffer (4 * i) (fieldBytes v)) j = if j = i then v else wordAt buffer j := by
  have hlength : (fieldBytes v).length = 4 := rfl
  split
  · next heq =>
      subst heq
      have hfirst : patch buffer (4 * j) (fieldBytes v) (4 * j) = (fieldBytes v).getD 0 0 :=
        patch_inside buffer (4 * j) (k := 0) (by omega)
      rw [wordAt, hfirst, patch_inside _ _ (by omega), patch_inside _ _ (by omega),
        patch_inside _ _ (by omega)]
      exact field_bytes_word hv
  · next hne =>
      simp only [wordAt]
      rw [patch_outside _ (by omega), patch_outside _ (by omega), patch_outside _ (by omega),
        patch_outside _ (by omega)]

/-- A word is in the part of a block that is copied. -/
theorem word_block_write (d : Blocks) (lba : Nat) (buffer : Nat → UInt8) (lba' : Nat) {j : Nat}
    (hj : j < 256) : wordAt (blockWrite d lba buffer lba') j =
      if lba' = lba then wordAt buffer j else wordAt (d lba') j := by
  have hsize : XBook.blockSize = 1024 := rfl
  simp only [wordAt, block_write_apply]
  by_cases heq : lba' = lba
  · rw [if_pos heq, if_pos ⟨heq, by omega⟩, if_pos ⟨heq, by omega⟩, if_pos ⟨heq, by omega⟩,
      if_pos ⟨heq, by omega⟩]
  · rw [if_neg heq, if_neg fun h => heq h.1, if_neg fun h => heq h.1, if_neg fun h => heq h.1,
      if_neg fun h => heq h.1]

theorem block_write_other (d : Blocks) {lba lba' : Nat} (buffer : Nat → UInt8) (h : lba' ≠ lba) :
    blockWrite d lba buffer lba' = d lba' :=
  Function.update_of_ne h _ _

/-! ## The disk -/

/-- The disks that the drivers have: `BOFS_MakeFileSystem` makes a file system with blocks of two
sectors and `DEFAULT_MAX_INODE_NR` inodes, and the IDE driver halves the number of sectors of a
drive, which is a word. -/
structure DriveGeometry (g : Geometry) : Prop where
  blockSize : g.blockSize = 1024
  inodeNr : g.inodeNr = 9182
  stop : g.startSector.toNat + g.totalSectors.toNat ≤ 2 ^ 31

/-- The number of bits of the sector bitmap. -/
def sectorBits (g : Geometry) : Nat := (initSuperBlock g).sectorBitmapLen * 8

variable {g : Geometry}

theorem sector_bits_le (g : Geometry) : sectorBits g ≤ g.totalSectors.toNat := by
  show g.totalSectors.toNat / 8 * 8 ≤ _
  omega

/-- The blocks of the data area are numbered without a wrap. -/
theorem DriveGeometry.idx_to_lba (hg : DriveGeometry g) {i : Nat} (hi : i < sectorBits g) :
    (initSuperBlock g).idxToLba i = g.startSector.toNat + g.dataOffset + i := by
  have hstop := hg.stop
  have hle := sector_bits_le g
  have hdata := data_offset_le g
  rw [idx_to_lba_eq, Geometry.block, wrap_of_lt (by omega), Nat.add_assoc]

/-- What `BOFS_SyncBitmap` writes is in front of the blocks whose bits formatting leaves clear. -/
theorem DriveGeometry.sync_before (hg : DriveGeometry g) {i : Nat} (hi : i < sectorBits g) :
    wrap ((initSuperBlock g).sectorBitmapLba + i / (8 * sectorSize)) <
      g.startSector.toNat + g.dataOffset + (g.dataOffset + 1) := by
  have hstop := hg.stop
  have hle := sector_bits_le g
  have hspec : (initSuperBlock g).sectorBitmapLen ≤
    (initSuperBlock g).sectorBitmapSectors * g.blockSize := (bitmap_sectors_spec g .sector).1
  have hoff : g.dataOffset = 2 + (initSuperBlock g).sectorBitmapSectors +
    (initSuperBlock g).inodeBitmapSectors + (initSuperBlock g).inodeTableSectors := rfl
  have hi : i < (initSuperBlock g).sectorBitmapLen * 8 := hi
  rw [hg.blockSize] at hspec
  have hsector : sectorSize = 512 := rfl
  rw [sector_bitmap_lba, g.block_add, Geometry.block, hsector, wrap_of_lt (by omega)]
  omega

theorem DriveGeometry.inode_nr_in_sector (hg : DriveGeometry g) :
    (initSuperBlock g).inodeNrInSector = 8 := by
  show g.blockSize / sizeofInode = 8
  rw [hg.blockSize]
  rfl

/-- What `BOFS_SyncInode` writes is in front of the data area. -/
theorem DriveGeometry.inode_before (hg : DriveGeometry g) {n : Nat} (hn : n < g.inodeNr.toNat) :
    wrap ((initSuperBlock g).inodeTableLba + n / (initSuperBlock g).inodeNrInSector) <
      g.startSector.toNat + g.dataOffset := by
  have hstop := hg.stop
  have hdata := data_offset_le g
  have hnr : g.inodeNr.toNat = 9182 := by rw [hg.inodeNr]; rfl
  have hsectors : (initSuperBlock g).inodeTableSectors = 1148 := by
    show divRoundUp (wrap (g.inodeNr.toNat * sizeofInode)) g.blockSize = 1148
    rw [hnr, hg.blockSize]
    rfl
  have hper := hg.inode_nr_in_sector
  have hoff : g.dataOffset = 2 + (initSuperBlock g).sectorBitmapSectors +
    (initSuperBlock g).inodeBitmapSectors + (initSuperBlock g).inodeTableSectors := rfl
  rw [hper, inode_table_lba, g.block_add, Geometry.block, wrap_of_lt (by omega)]
  omega

/-- `BOFS_SyncInode` writes no block behind the inode table. -/
theorem DriveGeometry.sync_inode_blocks (hg : DriveGeometry g) {s : Mounted} {inode : Inode}
    (hsb : s.sb = initSuperBlock g) (hid : inode.id < g.inodeNr.toNat) {a : Nat}
    (ha : g.startSector.toNat + g.dataOffset ≤ a) : (s.syncInode inode).blocks a = s.blocks a := by
  have hbefore := hg.inode_before hid
  rw [Mounted.syncInode, hsb]
  exact block_write_other _ _ (by omega)

/-- What `AllocOneSector` changes. -/
theorem alloc_one_sector_blocks {s t : Mounted} {lba : Nat} (hbytes : (s.bitmap .sector).Bytes)
    (h : s.allocOneSector = some (t, lba)) :
    ∃ i < (s.bitmap .sector).btmpBytesLen * 8, (s.bitmap .sector).bit i = false ∧
      lba = s.sb.idxToLba i ∧ t.sb = s.sb ∧
      t.bitmap .sector = bitmapSet (s.bitmap .sector) i true ∧
      ∃ buffer, t.blocks = blockWrite (blockWrite s.blocks
        (wrap (s.sb.sectorBitmapLba + i / (8 * sectorSize))) buffer) lba fun _ => 0 := by
  rcases bitmap_scan_one hbytes with ⟨i, hscan, hi, hclear, -⟩ | ⟨hnone, -⟩
  · rw [Mounted.allocOneSector, Mounted.allocBitmap, hscan] at h
    cases h
    refine ⟨i, hi, hclear, rfl, rfl, ?_, _, rfl⟩
    show Function.update s.bitmap .sector _ .sector = _
    rw [Function.update_self]
    rfl
  · rw [Mounted.allocOneSector, Mounted.allocBitmap, hnone] at h
    cases h

/-! ## The forest of the pointers -/

/-- The file system, and the inodes in memory, each of which is there once. -/
structure Files where
  fs : Mounted
  inodes : Nat → Inode

/-- How many indirect blocks are below a pointer of an inode. -/
def height (i : Nat) : Nat := if i < 12 then 0 else i - 11

/-- The pointers that are not zero. `kind` says for a block how many indirect blocks are below it,
so that a block of data has kind 0. -/
def Files.forest (f : Files) (g : Geometry) (kind : Nat → Option Nat) : Forest (Nat × Nat) Nat where
  root r :=
    if r.1 < g.inodeNr.toNat ∧ r.2 < blockNr ∧ (f.inodes r.1).blocks r.2 ≠ 0 then
      some ((f.inodes r.1).blocks r.2)
    else none
  child b j :=
    if 0 < (kind b).getD 0 ∧ j < 256 ∧ wordAt (f.fs.blocks b) j ≠ 0 then
      some (wordAt (f.fs.blocks b) j)
    else none

/-- The files of a file system that was made on a drive, with blocks that are marked and that have
one place each. -/
structure Sound (g : Geometry) (kind : Nat → Option Nat) (f : Files) : Prop where
  sb : f.fs.sb = initSuperBlock g
  bytes : (f.fs.bitmap .sector).Bytes
  len : (f.fs.bitmap .sector).btmpBytesLen * 8 = sectorBits g
  ids : ∀ n < g.inodeNr.toNat, (f.inodes n).id = n
  used : ∀ i < sectorBits g, i ≤ g.dataOffset → (f.fs.bitmap .sector).bit i = true
  marked : ∀ b k, kind b = some k → ∃ i < sectorBits g, b = (initSuperBlock g).idxToLba i ∧
    (f.fs.bitmap .sector).bit i = true ∧ (0 < k → g.dataOffset < i)
  root : ∀ r b, (f.forest g kind).root r = some b → kind b = some (height r.2)
  child : ∀ a j b, (f.forest g kind).child a j = some b →
    ∃ k, kind a = some (k + 1) ∧ kind b = some k
  apart : (f.forest g kind).Apart

/-! ## Growth -/

variable {kind : Nat → Option Nat} {f : Files}

/-- The kind of the block that a slot can hold. -/
def SlotKind (kind : Nat → Option Nat) (k : Nat) : Forest.Slot (Nat × Nat) Nat → Prop
  | .root r => k = height r.2
  | .child a _ => kind a = some (k + 1)

/-- The block is behind what `BOFS_SyncBitmap` and `BOFS_SyncInode` write. -/
def Behind (g : Geometry) (lba : Nat) : Prop :=
  g.startSector.toNat + g.dataOffset + g.dataOffset < lba

/-- A new block, which is free and zero. The indirect blocks and the blocks of data are as they
were. -/
structure NewBlock (g : Geometry) (kind : Nat → Option Nat) (s t : Mounted) (i lba : Nat) :
    Prop where
  lt : i < sectorBits g
  clear : (s.bitmap .sector).bit i = false
  place : lba = (initSuperBlock g).idxToLba i
  sb : t.sb = s.sb
  bitmap : t.bitmap .sector = bitmapSet (s.bitmap .sector) i true
  fresh : kind lba = none
  zero : ∀ j < 256, wordAt (t.blocks lba) j = 0
  kept : ∀ a k, kind a = some (k + 1) → ∀ j < 256,
    wordAt (t.blocks a) j = wordAt (s.blocks a) j
  data : ∀ b, kind b = some 0 → Behind g b → t.blocks b = s.blocks b

/-- An indirect block is behind what is written besides it. -/
theorem Sound.table_behind (h : Sound g kind f) (hg : DriveGeometry g) {a k : Nat}
    (ha : kind a = some (k + 1)) : g.startSector.toNat + g.dataOffset + (g.dataOffset + 1) ≤ a := by
  obtain ⟨i, hi, rfl, -, hbehind⟩ := h.marked a (k + 1) ha
  have hlt := hbehind (Nat.zero_lt_succ k)
  rw [hg.idx_to_lba hi]
  omega

theorem Sound.new_block (h : Sound g kind f) (hg : DriveGeometry g) {t : Mounted} {lba : Nat}
    (halloc : f.fs.allocOneSector = some (t, lba)) : ∃ i, NewBlock g kind f.fs t i lba := by
  obtain ⟨i, hi, hclear, hlba, hsb, hbitmap, buffer, hblocks⟩ :=
    alloc_one_sector_blocks h.bytes halloc
  rw [h.len] at hi
  rw [h.sb] at hlba hblocks
  have hnone : kind lba = none := by
    cases hkind : kind lba with
    | none => rfl
    | some k =>
        -- a block that is in use has its bit set, and the bit of the new block is clear
        obtain ⟨i', hi', heq, hset, -⟩ := h.marked lba k hkind
        rw [hlba, hg.idx_to_lba hi, hg.idx_to_lba hi'] at heq
        obtain rfl : i = i' := by omega
        rw [hset] at hclear
        cases hclear
  refine ⟨i, hi, hclear, hlba, hsb, hbitmap, hnone, ?_, ?_, ?_⟩
  · intro j hj
    rw [hblocks, word_block_write _ _ _ _ hj, if_pos rfl]
    rfl
  · intro a k ha j hj
    have hbehind := h.table_behind hg ha
    have hsync := hg.sync_before hi
    have hne : a ≠ lba := by
      rintro rfl
      rw [hnone] at ha
      cases ha
    rw [hblocks, word_block_write _ _ _ _ hj, if_neg hne, word_block_write _ _ _ _ hj,
      if_neg (by omega)]
  · intro b hb hbehind
    have hsync := hg.sync_before hi
    have hbehind : g.startSector.toNat + g.dataOffset + g.dataOffset < b := hbehind
    have hne : b ≠ lba := by
      rintro rfl
      rw [hnone] at hb
      cases hb
    rw [hblocks, block_write_other _ _ hne, block_write_other _ _ (by omega)]

/-- The files stay sound when a slot gets the new block. -/
theorem Sound.grow (h : Sound g kind f) {f' : Files} {t : Mounted} {i lba k : Nat}
    (hnew : NewBlock g kind f.fs t i lba) (hsb : f'.fs.sb = t.sb)
    (hbitmap : f'.fs.bitmap .sector = t.bitmap .sector)
    (hids : ∀ n < g.inodeNr.toNat, (f'.inodes n).id = n) {slot : Forest.Slot (Nat × Nat) Nat}
    (hkind : SlotKind kind k slot)
    (hgrows : (f.forest g kind).Grows (f'.forest g (Function.update kind lba (some k))) slot lba) :
    Sound g (Function.update kind lba (some k)) f' := by
  have hother : ∀ b, b ≠ lba → Function.update kind lba (some k) b = kind b :=
    fun b hb => Function.update_of_ne hb _ _
  have hself : Function.update kind lba (some k) lba = some k := Function.update_self ..
  have hold : ∀ b k', kind b = some k' → b ≠ lba := by
    rintro b k' hb rfl
    rw [hnew.fresh] at hb
    cases hb
  constructor
  case sb => rw [hsb, hnew.sb, h.sb]
  case bytes =>
    rw [hbitmap, hnew.bitmap]
    exact h.bytes.set (by rw [h.len]; exact hnew.lt) true
  case len =>
    rw [hbitmap, hnew.bitmap, bitmap_set_len, h.len]
  case ids => exact hids
  case used =>
    intro j hj hle
    rw [hbitmap, hnew.bitmap, bit_bitmap_set]
    split
    · rfl
    · exact h.used j hj hle
  case marked =>
    intro b k' hb
    by_cases hlba : b = lba
    · subst hlba
      refine ⟨i, hnew.lt, hnew.place, ?_, fun _ => ?_⟩
      · rw [hbitmap, hnew.bitmap, bit_bitmap_set, if_pos rfl]
      · -- the clear bits are behind those of the root directory's block
        by_contra hle
        have hset := h.used i hnew.lt (Nat.not_lt.mp hle)
        rw [hnew.clear] at hset
        cases hset
    · rw [hother b hlba] at hb
      obtain ⟨j, hj, heq, hset, hbehind⟩ := h.marked b k' hb
      refine ⟨j, hj, heq, ?_, hbehind⟩
      rw [hbitmap, hnew.bitmap, bit_bitmap_set]
      split
      · rfl
      · exact hset
  case root =>
    intro r b hb
    by_cases hslot : Forest.Slot.root r = slot
    · subst hslot
      cases hb.symm.trans hgrows.filled
      exact hself.trans (congrArg some hkind)
    · have hb : (f.forest g kind).root r = some b := (hgrows.others _ hslot).symm.trans hb
      have hroot := h.root r b hb
      rw [hother b (hold b _ hroot), hroot]
  case child =>
    intro a j b hb
    by_cases hslot : Forest.Slot.child a j = slot
    · subst hslot
      cases hb.symm.trans hgrows.filled
      exact ⟨k, (hother a (hold a _ hkind)).trans hkind, hself⟩
    · have hb : (f.forest g kind).child a j = some b := (hgrows.others _ hslot).symm.trans hb
      obtain ⟨k', ha, hchild⟩ := h.child a j b hb
      exact ⟨k', (hother a (hold a _ ha)).trans ha, (hother b (hold b _ hchild)).trans hchild⟩
  case apart => exact hgrows.apart h.apart

/-- What a call leaves: sound files, where each block keeps its kind and its place, and blocks of
data what is in them. -/
structure Later (g : Geometry) (kind : Nat → Option Nat) (f : Files) (kind' : Nat → Option Nat)
    (f' : Files) : Prop where
  sound : Sound g kind' f'
  kinds : ∀ b k, kind b = some k → kind' b = some k
  kept : (f.forest g kind).Extends (f'.forest g kind')
  data : ∀ b, kind b = some 0 → Behind g b → f'.fs.blocks b = f.fs.blocks b
  fresh : ∀ b k, kind' b = some k → kind b = none → Behind g b

theorem Sound.later (h : Sound g kind f) : Later g kind f kind f := by
  refine ⟨h, fun _ _ hb => hb, .refl _, fun _ _ _ => rfl, fun b k hb hnone => ?_⟩
  rw [hnone] at hb
  cases hb

theorem Later.trans {kind' kind'' : Nat → Option Nat} {f' f'' : Files}
    (h : Later g kind f kind' f') (h' : Later g kind' f' kind'' f'') :
    Later g kind f kind'' f'' := by
  refine ⟨h'.sound, fun b k hb => h'.kinds b k (h.kinds b k hb), h.kept.trans h'.kept, ?_, ?_⟩
  · intro b hb hbehind
    rw [h'.data b (h.kinds b 0 hb) hbehind, h.data b hb hbehind]
  · intro b k hb hnone
    cases hmid : kind' b with
    | none => exact h'.fresh b k hb hmid
    | some k' => exact h.fresh b k' hmid hnone

/-- The blocks have numbers that are not zero and that a pointer holds. -/
theorem NewBlock.bounds {s t : Mounted} {i lba : Nat} (hnew : NewBlock g kind s t i lba)
    (hg : DriveGeometry g) : lba ≠ 0 ∧ lba < 2 ^ 32 := by
  have hstop := hg.stop
  have hle := sector_bits_le g
  have hdata := data_offset_le g
  have hlt := hnew.lt
  have hoff : g.dataOffset = 2 + (initSuperBlock g).sectorBitmapSectors +
    (initSuperBlock g).inodeBitmapSectors + (initSuperBlock g).inodeTableSectors := rfl
  rw [hnew.place, hg.idx_to_lba hlt]
  omega

/-- The bits up to that of the root directory's block are marked. -/
theorem NewBlock.behind {s : Mounted} {i lba : Nat} (hnew : NewBlock g kind f.fs s i lba)
    (h : Sound g kind f) (hg : DriveGeometry g) : Behind g lba := by
  have hlt : g.dataOffset < i := by
    by_contra hle
    have hset := h.used i hnew.lt (Nat.not_lt.mp hle)
    rw [hnew.clear] at hset
    cases hset
  rw [Behind, hnew.place, hg.idx_to_lba hnew.lt]
  omega

/-- A block without a kind has no pointers. -/
theorem Files.child_leaf (f : Files) (g : Geometry) {a : Nat} (h : kind a = none) (j : Nat) :
    (f.forest g kind).child a j = none := by
  refine if_neg fun hc => ?_
  rw [h] at hc
  exact Nat.lt_irrefl 0 hc.1

/-- The pointers of a block are its words. -/
theorem Files.child_congr {kind' : Nat → Option Nat} {f' : Files} {a j : Nat}
    (hkind : kind' a = kind a)
    (hword : ∀ k, kind a = some (k + 1) → j < 256 →
      wordAt (f'.fs.blocks a) j = wordAt (f.fs.blocks a) j) :
    (f'.forest g kind').child a j = (f.forest g kind).child a j := by
  simp only [forest, hkind]
  by_cases hj : j < 256
  · cases hka : (kind a).getD 0 with
    | zero => rw [if_neg (by omega), if_neg (by omega)]
    | succ k =>
        have htable : kind a = some (k + 1) :=
          (Option.getD_eq_iff.mp hka).resolve_right fun hc => Nat.noConfusion hc.2
        rw [hword k htable hj]
  · rw [if_neg fun hc => hj hc.2.1, if_neg fun hc => hj hc.2.1]

/-- Files with the same pointers. -/
theorem Files.forest_congr {f' : Files}
    (hblocks : ∀ n, (f'.inodes n).blocks = (f.inodes n).blocks)
    (hwords : ∀ a k, kind a = some (k + 1) → ∀ j < 256,
      wordAt (f'.fs.blocks a) j = wordAt (f.fs.blocks a) j) :
    f'.forest g kind = f.forest g kind := by
  have hchild : (f'.forest g kind).child = (f.forest g kind).child := by
    funext a j
    exact Files.child_congr rfl fun k hk hj => hwords a k hk j hj
  have hroot : (f'.forest g kind).root = (f.forest g kind).root := by
    simp only [Files.forest, hblocks]
  exact congrArg₂ Forest.mk hroot hchild

/-- A slot that held nothing gets the new block, and the other slots stay as they are. -/
theorem Sound.new_block_later (h : Sound g kind f) (hg : DriveGeometry g) {f' : Files} {t : Mounted}
    {i lba k : Nat} (hnew : NewBlock g kind f.fs t i lba) (hsb : f'.fs.sb = t.sb)
    (hbitmap : f'.fs.bitmap .sector = t.bitmap .sector)
    (hids : ∀ n < g.inodeNr.toNat, (f'.inodes n).id = n) (slot : Forest.Slot (Nat × Nat) Nat)
    (hkind : SlotKind kind k slot) (hempty : (f.forest g kind).value slot = none)
    (hfilled : (f'.forest g (Function.update kind lba (some k))).value slot = some lba)
    (hroots : ∀ r, .root r ≠ slot → (f'.inodes r.1).blocks r.2 = (f.inodes r.1).blocks r.2)
    (hzero : ∀ j < 256, wordAt (f'.fs.blocks lba) j = 0)
    (hwords : ∀ a k', kind a = some (k' + 1) → ∀ j < 256, .child a j ≠ slot →
      wordAt (f'.fs.blocks a) j = wordAt (f.fs.blocks a) j)
    (hdata : ∀ b, kind b = some 0 → Behind g b → f'.fs.blocks b = f.fs.blocks b) :
    Later g kind f (Function.update kind lba (some k)) f' := by
  have hother : ∀ b, b ≠ lba → Function.update kind lba (some k) b = kind b :=
    fun b hb => Function.update_of_ne hb _ _
  have hold : ∀ b k', kind b = some k' → b ≠ lba := by
    rintro b k' hb rfl
    rw [hnew.fresh] at hb
    cases hb
  have hgrows : (f.forest g kind).Grows (f'.forest g (Function.update kind lba (some k))) slot
      lba := by
    constructor
    case fresh =>
      intro u hu
      cases u with
      | root r => exact hold lba _ (h.root r lba hu) rfl
      | child a j =>
          obtain ⟨k', -, hlba⟩ := h.child a j lba hu
          exact hold lba k' hlba rfl
    case empty => exact hempty
    case filled => exact hfilled
    case others =>
      intro u hu
      cases u with
      | root r =>
          simp only [Forest.value, Files.forest]
          rw [hroots r hu]
      | child a j =>
          by_cases hlba : a = lba
          · -- the new block was zeroed, so it has no pointers whatever its kind
            subst hlba
            rw [Forest.value, Forest.value, f.child_leaf g hnew.fresh, Files.forest]
            exact if_neg fun hc => hc.2.2 (hzero j hc.2.1)
          · exact Files.child_congr (hother a hlba) fun k' htable hj => hwords a k' htable j hj hu
  refine ⟨h.grow hnew hsb hbitmap hids hkind hgrows, ?_, hgrows.kept, hdata, ?_⟩
  · intro b k' hb
    rw [hother b (hold b k' hb), hb]
  · intro b k' hb hnone
    by_cases hlba : b = lba
    · rw [hlba]
      exact hnew.behind h hg
    · rw [hother b hlba, hnone] at hb
      cases hb

/-! ## Calls -/

/-- The files with the file system and the inode that a call leaves. -/
def Files.store (f : Files) (n : Nat) (state : Mounted × Inode) : Files :=
  ⟨state.1, Function.update f.inodes n state.2⟩

theorem Files.store_self (f : Files) (n : Nat) : f.store n (f.fs, f.inodes n) = f := by
  rw [store, Function.update_eq_self]

/-- No bit of the sector bitmap is clear. -/
def Mounted.Full (s : Mounted) : Prop :=
  ∀ i < (s.bitmap .sector).btmpBytesLen * 8, (s.bitmap .sector).bit i = true

/-- What a walk along a path answers: the block that is there afterwards, or none when the sector
bitmap is full. -/
def Answers (g : Geometry) (kind : Nat → Option Nat) (f f' : Files) (r : Nat × Nat)
    (path : List Nat) (block : Option Nat) : Prop :=
  ∃ kind', Later g kind f kind' f' ∧ block = (f'.forest g kind').reach r path ∧
    (block = none → f'.fs.Full)

theorem Sound.full_of_alloc (h : Sound g kind f) (halloc : f.fs.allocOneSector = none) :
    f.fs.Full := by
  rcases alloc_one_sector_spec h.bytes with ⟨i, t, hsome, -⟩ | ⟨-, hfull⟩
  · rw [hsome] at halloc
    cases halloc
  · exact hfull

theorem Inode.set_block_apply (inode : Inode) (i lba j : Nat) :
    (inode.setBlock i lba).blocks j = if j = i then lba else inode.blocks j :=
  Function.update_apply ..

theorem Files.store_blocks (f : Files) (n i lba : Nat) (t : Mounted) (r : Nat × Nat) :
    ((f.store n (t, (f.inodes n).setBlock i lba)).inodes r.1).blocks r.2 =
      if r = (n, i) then lba else (f.inodes r.1).blocks r.2 := by
  simp only [Files.store, Function.update_apply]
  by_cases hn : r.1 = n
  · rw [if_pos hn, Inode.set_block_apply]
    by_cases hi : r.2 = i
    · rw [if_pos hi, if_pos (Prod.ext hn hi)]
    · rw [if_neg hi, if_neg fun heq => hi (congrArg Prod.snd heq), hn]
  · rw [if_neg hn, if_neg fun heq => hn (congrArg Prod.fst heq)]

/-- A pointer of an inode that is zero gets the new block. -/
theorem Sound.set_block (h : Sound g kind f) (hg : DriveGeometry g) {n i : Nat}
    (hn : n < g.inodeNr.toNat) (hi : i < blockNr) (hzero : (f.inodes n).blocks i = 0)
    {t : Mounted} {lba : Nat} (halloc : f.fs.allocOneSector = some (t, lba)) :
    Answers g kind f
      (f.store n (t.syncInode ((f.inodes n).setBlock i lba), (f.inodes n).setBlock i lba)) (n, i) []
      (some lba) := by
  obtain ⟨j, hnew⟩ := h.new_block hg halloc
  have hid : ((f.inodes n).setBlock i lba).id = n := h.ids n hn
  have hwrite : ∀ a, g.startSector.toNat + g.dataOffset ≤ a →
      (t.syncInode ((f.inodes n).setBlock i lba)).blocks a = t.blocks a :=
    fun a ha => hg.sync_inode_blocks (hnew.sb.trans h.sb) (by rw [hid]; exact hn) ha
  have hfilled : ((f.store n (t.syncInode ((f.inodes n).setBlock i lba),
      (f.inodes n).setBlock i lba)).forest g
        (Function.update kind lba (some (height i)))).root (n, i) = some lba := by
    simp only [Files.forest, Files.store, Function.update_self, Inode.set_block_apply, if_true]
    exact if_pos ⟨hn, hi, (hnew.bounds hg).1⟩
  have hempty : (f.forest g kind).root (n, i) = none := if_neg fun hc => hc.2.2 hzero
  refine ⟨_, h.new_block_later hg hnew rfl rfl ?_ (.root (n, i)) rfl hempty hfilled ?_ ?_ ?_ ?_,
    hfilled.symm, fun hnone => ?_⟩
  · intro m hm
    simp only [Files.store, Function.update_apply]
    split
    · next heq => rw [heq, hid]
    · exact h.ids m hm
  · intro r hr
    rw [Files.store_blocks, if_neg fun heq => hr (congrArg _ heq)]
  · intro k hk
    have hplace := hnew.place
    rw [hg.idx_to_lba hnew.lt] at hplace
    exact (congrArg (wordAt · k) (hwrite lba (by omega))).trans (hnew.zero k hk)
  · intro a k' ha k hk _
    have hbehind := h.table_behind hg ha
    exact (congrArg (wordAt · k) (hwrite a (by omega))).trans (hnew.kept a k' ha k hk)
  · intro b hb hbehind
    have hlt : g.startSector.toNat + g.dataOffset + g.dataOffset < b := hbehind
    exact (hwrite b (by omega)).trans (hnew.data b hb hbehind)
  · cases hnone

theorem Sound.pointer_in_inode (h : Sound g kind f) (hg : DriveGeometry g) {n i : Nat}
    (hn : n < g.inodeNr.toNat) (hi : i < blockNr) :
    Answers g kind f (f.store n (f.fs.pointerInInode (f.inodes n) i).1) (n, i) []
      (f.fs.pointerInInode (f.inodes n) i).2 := by
  rw [Mounted.pointerInInode]
  by_cases hzero : (f.inodes n).blocks i = 0
  · rw [if_pos hzero]
    cases halloc : f.fs.allocOneSector with
    | none =>
        rw [Files.store_self]
        have hempty : (f.forest g kind).root (n, i) = none := if_neg fun hc => hc.2.2 hzero
        exact ⟨kind, h.later, hempty.symm, fun _ => h.full_of_alloc halloc⟩
    | some result => exact h.set_block hg hn hi hzero halloc
  · rw [if_neg hzero, Files.store_self]
    have hthere : (f.forest g kind).root (n, i) = some ((f.inodes n).blocks i) :=
      if_pos ⟨hn, hi, hzero⟩
    refine ⟨kind, h.later, hthere.symm, fun hnone => ?_⟩
    cases hnone

/-- The files with a file system that a call leaves. -/
def Files.setFs (f : Files) (fs : Mounted) : Files := { f with fs }

/-- The file system with a pointer stored in a block that was read before. -/
def Mounted.setWord (s : Mounted) (inderect : Nat) (buffer : Nat → UInt8) (i lba : Nat) : Mounted :=
  { s with blocks := blockWrite s.blocks inderect (patch buffer (4 * i) (fieldBytes lba)) }

/-- A pointer of an indirect block that is zero gets the new block. -/
theorem Sound.set_word (h : Sound g kind f) (hg : DriveGeometry g) {a j k : Nat}
    (ha : kind a = some (k + 1)) (hj : j < 256) (hzero : wordAt (f.fs.blocks a) j = 0)
    {t : Mounted} {lba : Nat} (halloc : f.fs.allocOneSector = some (t, lba)) :
    ∃ kind', Later g kind f kind' (f.setFs (t.setWord a (f.fs.blocks a) j lba)) ∧
      ((f.setFs (t.setWord a (f.fs.blocks a) j lba)).forest g kind').child a j = some lba := by
  obtain ⟨i, hnew⟩ := h.new_block hg halloc
  have hne : lba ≠ a := by
    rintro rfl
    rw [hnew.fresh] at ha
    cases ha
  have hbounds := hnew.bounds hg
  have hfilled : ((f.setFs (t.setWord a (f.fs.blocks a) j lba)).forest g
      (Function.update kind lba (some k))).child a j = some lba := by
    have hself : Function.update kind lba (some k) a = some (k + 1) := by
      rw [Function.update_of_ne (Ne.symm hne), ha]
    have hword : wordAt ((t.setWord a (f.fs.blocks a) j lba).blocks a) j = lba := by
      rw [Mounted.setWord, word_block_write _ _ _ _ hj, if_pos rfl, word_patch _ _ _ hbounds.2,
        if_pos rfl]
    simp only [Files.forest, Files.setFs, hword, hself]
    exact if_pos ⟨Nat.succ_pos k, hj, hbounds.1⟩
  have hempty : (f.forest g kind).child a j = none := if_neg fun hc => hc.2.2 hzero
  refine ⟨_, h.new_block_later hg hnew rfl rfl h.ids (.child a j) ha hempty hfilled
    (fun _ _ => rfl) ?_ ?_ ?_, hfilled⟩
  · intro m hm
    exact (word_block_write _ _ _ _ hm).trans ((if_neg hne).trans (hnew.zero m hm))
  · intro b k' hb m hm hslot
    refine (word_block_write _ _ _ _ hm).trans ?_
    split
    · next heq =>
        have hmj : m ≠ j := by
          rintro rfl
          exact hslot (by rw [heq])
        rw [word_patch _ _ _ hbounds.2, if_neg hmj, heq]
    · exact hnew.kept b k' hb m hm
  · intro b hb hbehind
    have hnot : b ≠ a := by
      rintro rfl
      rw [ha] at hb
      cases hb
    exact (block_write_other _ _ hnot).trans (hnew.data b hb hbehind)

/-- The kind of a block that is reached. -/
theorem Sound.kind_reach (h : Sound g kind f) {r : Nat × Nat} {path : List Nat} {b : Nat}
    (hb : (f.forest g kind).reach r path = some b) :
    ∃ k, kind b = some k ∧ k + path.length = height r.2 :=
  Forest.level_reach (h.root r) h.child hb

theorem Sound.pointer_in_block (h : Sound g kind f) (hg : DriveGeometry g) {r : Nat × Nat}
    {path : List Nat} {a j : Nat} (ha : (f.forest g kind).reach r path = some a)
    (hlength : path.length < height r.2) (hj : j < 256) :
    Answers g kind f (f.setFs (f.fs.pointerInBlock a j).1) r (path ++ [j])
      (f.fs.pointerInBlock a j).2 := by
  obtain ⟨level, hlevel, hsum⟩ := h.kind_reach ha
  obtain ⟨k, rfl⟩ : ∃ k, level = k + 1 := ⟨level - 1, by omega⟩
  rw [Mounted.pointerInBlock]
  by_cases hzero : wordAt (f.fs.blocks a) j = 0
  · simp only [if_pos hzero]
    cases halloc : f.fs.allocOneSector with
    | none =>
        have hempty : (f.forest g kind).child a j = none := if_neg fun hc => hc.2.2 hzero
        have hreach : (f.forest g kind).reach r (path ++ [j]) = none := by
          rw [Forest.reach_concat, ha]
          exact hempty
        exact ⟨kind, h.later, hreach.symm, fun _ => h.full_of_alloc halloc⟩
    | some result =>
        obtain ⟨t, lba⟩ := result
        obtain ⟨kind', hlater, hchild⟩ := h.set_word hg hlevel hj hzero halloc
        refine ⟨kind', hlater, ?_, fun hnone => ?_⟩
        · rw [Forest.reach_concat]
          exact (Option.bind_eq_some_iff.mpr ⟨a, hlater.kept.reach ha, hchild⟩).symm
        · cases hnone
  · simp only [if_neg hzero]
    have hthere : (f.forest g kind).child a j = some (wordAt (f.fs.blocks a) j) := by
      simp only [Files.forest, hlevel]
      exact if_pos ⟨Nat.succ_pos k, hj, hzero⟩
    have hreach : (f.forest g kind).reach r (path ++ [j]) = some (wordAt (f.fs.blocks a) j) := by
      rw [Forest.reach_concat, ha]
      exact hthere
    refine ⟨kind, h.later, hreach.symm, fun hnone => ?_⟩
    cases hnone

/-- A walk from a block that is there goes on, or stops for want of a clear bit. -/
theorem Sound.follow_pointers (h : Sound g kind f) (hg : DriveGeometry g) {r : Nat × Nat}
    {front path : List Nat} {a : Nat} (ha : (f.forest g kind).reach r front = some a)
    (hlength : front.length + path.length ≤ height r.2) (hpath : ∀ j ∈ path, j < 256) :
    Answers g kind f (f.setFs (f.fs.followPointers a path).1) r (front ++ path)
      (f.fs.followPointers a path).2 := by
  induction path generalizing kind f front a with
  | nil =>
      rw [List.append_nil]
      refine ⟨kind, h.later, ha.symm, fun hnone => ?_⟩
      cases hnone
  | cons j path ih =>
      -- the walk goes on in the files that the first pointer leaves
      rw [List.length_cons] at hlength
      obtain ⟨kind', hlater, hreach, hfull⟩ := h.pointer_in_block hg ha (by omega)
        (hpath j (List.mem_cons_self ..))
      rw [Mounted.followPointers, List.append_cons]
      generalize f.fs.pointerInBlock a j = result at hlater hreach hfull ⊢
      obtain ⟨t, block⟩ := result
      cases block with
      | none => exact ⟨kind', hlater, (Forest.reach_append_none hreach.symm path).symm, hfull⟩
      | some lba =>
          have hsum : (front ++ [j]).length + path.length ≤ height r.2 := by
            rw [List.length_append, List.length_singleton]
            omega
          obtain ⟨kind'', hlater', hreach', hfull'⟩ := ih hlater.sound hreach.symm hsum
            fun j hj => hpath j (List.mem_cons_of_mem _ hj)
          exact ⟨kind'', hlater.trans hlater', hreach', hfull'⟩

theorem Sound.get_block (h : Sound g kind f) (hg : DriveGeometry g) {n i : Nat}
    (hn : n < g.inodeNr.toNat) (hi : i < blockNr) {path : List Nat}
    (hlength : path.length ≤ height i) (hpath : ∀ j ∈ path, j < 256) :
    Answers g kind f (f.store n (f.fs.getBlock (f.inodes n) i path).1) (n, i) path
      (f.fs.getBlock (f.inodes n) i path).2 := by
  obtain ⟨kind', hlater, hreach, hfull⟩ := h.pointer_in_inode hg hn hi
  rw [Mounted.getBlock]
  generalize f.fs.pointerInInode (f.inodes n) i = result at hlater hreach hfull ⊢
  obtain ⟨⟨t, inode⟩, block⟩ := result
  cases block with
  | none => exact ⟨kind', hlater, (Forest.reach_append_none hreach.symm path).symm, hfull⟩
  | some lba =>
      have hsum : ([] : List Nat).length + path.length ≤ height i := by
        rw [List.length_nil, Nat.zero_add]
        exact hlength
      obtain ⟨kind'', hlater', hreach', hfull'⟩ :=
        hlater.sound.follow_pointers hg hreach.symm hsum hpath
      exact ⟨kind'', hlater.trans hlater', hreach', hfull'⟩

/-! ## The place of a block of data -/

open Mounted (pointerPath)

/-- The levels of the index. -/
theorem pointer_path_cases {index : Nat} (h : index < blockLv3) :
    (index < 12 ∧ pointerPath index = (index, [])) ∨
    (12 ≤ index ∧ index < 268 ∧ pointerPath index = (12, [index - 12])) ∨
    (268 ≤ index ∧ index < 65804 ∧
      pointerPath index = (13, [(index - 268) / 256, (index - 268) % 256])) ∨
    (65804 ≤ index ∧ index < 16843020 ∧ pointerPath index =
      (14, [(index - 65804) / 256 / 256, (index - 65804) / 256 % 256, (index - 65804) % 256])) := by
  have h : index < 16843020 := h
  by_cases h0 : index < 12
  · exact .inl ⟨h0, if_pos h0⟩
  by_cases h1 : index < 268
  · exact .inr (.inl ⟨by omega, h1, (if_neg h0).trans (if_pos h1)⟩)
  by_cases h2 : index < 65804
  · exact .inr (.inr (.inl ⟨by omega, h2, (if_neg h0).trans ((if_neg h1).trans (if_pos h2))⟩))
  · exact .inr (.inr (.inr ⟨by omega, h, (if_neg h0).trans ((if_neg h1).trans (if_neg h2))⟩))

theorem pointer_path_spec {index : Nat} (h : index < blockLv3) :
    (pointerPath index).1 < blockNr ∧
      (pointerPath index).2.length = height (pointerPath index).1 ∧
        ∀ j ∈ (pointerPath index).2, j < 256 := by
  have hnr : blockNr = 15 := rfl
  rcases pointer_path_cases h with ⟨hlt, heq⟩ | ⟨hle, hlt, heq⟩ | ⟨hle, hlt, heq⟩ | ⟨hle, hlt, heq⟩
  · rw [heq]
    refine ⟨by omega, (if_pos hlt).symm, fun j hj => ?_⟩
    cases hj
  · rw [heq]
    refine ⟨by omega, rfl, fun j hj => ?_⟩
    rw [List.mem_singleton.mp hj]
    omega
  · rw [heq]
    refine ⟨by omega, rfl, fun j hj => ?_⟩
    simp only [List.mem_cons, List.not_mem_nil, or_false] at hj
    omega
  · rw [heq]
    refine ⟨by omega, rfl, fun j hj => ?_⟩
    simp only [List.mem_cons, List.not_mem_nil, or_false] at hj
    omega

/-- Two blocks of an inode have different places. -/
theorem pointer_path_injective {index index' : Nat} (h : index < blockLv3)
    (h' : index' < blockLv3) (heq : pointerPath index = pointerPath index') : index = index' := by
  rcases pointer_path_cases h with ⟨hlt, hpath⟩ | ⟨hle, hlt, hpath⟩ | ⟨hle, hlt, hpath⟩ |
    ⟨hle, hlt, hpath⟩ <;>
  rcases pointer_path_cases h' with ⟨hlt', hpath'⟩ | ⟨hle', hlt', hpath'⟩ | ⟨hle', hlt', hpath'⟩ |
    ⟨hle', hlt', hpath'⟩ <;>
  rw [hpath, hpath'] at heq <;>
  simp only [Prod.mk.injEq, List.cons.injEq, and_true, reduceCtorEq, and_false] at heq <;>
  omega

/-! ## Runs of calls -/

/-- A call of `BOFS_GetInodeData` with its answer. -/
structure Call where
  node : Nat
  index : Nat
  block : Option Nat

/-- The inode in memory is there once, so the calls share it. -/
def callStep (g : Geometry) (f : Files) (call : Call) (f' : Files) : Prop :=
  call.node < g.inodeNr.toNat ∧
    f' = f.store call.node (f.fs.getInodeData (f.inodes call.node) call.index).1 ∧
      call.block = (f.fs.getInodeData (f.inodes call.node) call.index).2

/-- The block is an indirect block: it is reached with pointers that go on. -/
def Files.IsTable (g : Geometry) (f : Files) (b : Nat) : Prop :=
  ∃ n < g.inodeNr.toNat, ∃ i < blockNr, (f.inodes n).blocks i ≠ 0 ∧
    ∃ path, path.length < height i ∧ (∀ j ∈ path, j < 256) ∧
      f.fs.blockAt ((f.inodes n).blocks i) path = some b

/-- The files of a file system whose pointers do not meet. -/
def Files.Consistent (g : Geometry) (f : Files) : Prop := ∃ kind, Sound g kind f

/-- The call answered what is there now. -/
structure Answered (g : Geometry) (f : Files) (call : Call) : Prop where
  node : call.node < g.inodeNr.toNat
  block : call.block = f.fs.dataBlock (f.inodes call.node) call.index
  fails : call.block = none → blockLv3 ≤ call.index ∨ f.fs.Full

/-- The pointers from a block on are those of the forest. -/
theorem Sound.fold_eq (h : Sound g kind f) {a : Nat} {path : List Nat} {k : Nat}
    (ha : kind a = some k) (hlength : path.length ≤ k) (hpath : ∀ j ∈ path, j < 256) :
    path.foldl (fun node i => node.bind fun a => (f.forest g kind).child a i) (some a) =
      f.fs.blockAt a path := by
  induction path generalizing a k with
  | nil => rfl
  | cons j path ih =>
      rw [List.length_cons] at hlength
      have hj := hpath j (List.mem_cons_self ..)
      rw [List.foldl_cons, Option.bind_some, Mounted.blockAt]
      by_cases hzero : wordAt (f.fs.blocks a) j = 0
      · have hempty : (f.forest g kind).child a j = none := if_neg fun hc => hc.2.2 hzero
        rw [if_pos hzero, hempty]
        exact List.foldl_fixed' (fun _ => rfl) path
      · have hpos : 0 < (kind a).getD 0 := by
          rw [ha, Option.getD_some]
          omega
        have hchild : (f.forest g kind).child a j = some (wordAt (f.fs.blocks a) j) :=
          if_pos ⟨hpos, hj, hzero⟩
        obtain ⟨k', hkind, hnext⟩ := h.child _ _ _ hchild
        rw [ha] at hkind
        cases hkind
        rw [if_neg hzero, hchild]
        exact ih hnext (by omega) fun j hj => hpath j (List.mem_cons_of_mem _ hj)

/-- What is reached does not depend on the kinds. -/
theorem Sound.reach_eq (h : Sound g kind f) {n i : Nat} (hn : n < g.inodeNr.toNat)
    (hi : i < blockNr) {path : List Nat} (hlength : path.length ≤ height i)
    (hpath : ∀ j ∈ path, j < 256) : (f.forest g kind).reach (n, i) path =
      if (f.inodes n).blocks i = 0 then none
      else f.fs.blockAt ((f.inodes n).blocks i) path := by
  by_cases hzero : (f.inodes n).blocks i = 0
  · have hempty : (f.forest g kind).reach (n, i) [] = none := if_neg fun hc => hc.2.2 hzero
    rw [if_pos hzero]
    exact Forest.reach_append_none hempty path
  · have hroot : (f.forest g kind).root (n, i) = some ((f.inodes n).blocks i) :=
      if_pos ⟨hn, hi, hzero⟩
    rw [if_neg hzero, Forest.reach, hroot]
    exact h.fold_eq (h.root _ _ hroot) hlength hpath

theorem Sound.data_block_eq (h : Sound g kind f) {n index : Nat} (hn : n < g.inodeNr.toNat)
    (hindex : index < blockLv3) : f.fs.dataBlock (f.inodes n) index =
      (f.forest g kind).reach (n, (pointerPath index).1) (pointerPath index).2 := by
  obtain ⟨hi, hlength, hpath⟩ := pointer_path_spec hindex
  rw [h.reach_eq hn hi (Nat.le_of_eq hlength) hpath]
  simp only [Mounted.dataBlock, Nat.not_le.mpr hindex, false_or]

/-- A table is reached, and its kind is not 0. -/
theorem Sound.table_reach (h : Sound g kind f) {b : Nat} (hb : f.IsTable g b) :
    ∃ r path, (f.forest g kind).reach r path = some b ∧ path.length < height r.2 := by
  obtain ⟨n, hn, i, hi, hne, path, hlength, hpath, hat⟩ := hb
  refine ⟨(n, i), path, ?_, hlength⟩
  rw [h.reach_eq hn hi (Nat.le_of_lt hlength) hpath, if_neg hne, hat]

/-! ## A full bitmap -/

theorem Mounted.pointer_in_inode_full {s : Mounted} (halloc : s.allocOneSector = none)
    (inode : Inode) (i : Nat) : (s.pointerInInode inode i).1 = (s, inode) := by
  rw [pointerInInode, halloc]
  split <;> rfl

theorem Mounted.follow_pointers_full {s : Mounted} (halloc : s.allocOneSector = none) (lba : Nat)
    (path : List Nat) : (s.followPointers lba path).1 = s := by
  induction path generalizing lba with
  | nil => rfl
  | cons i path ih =>
      rw [followPointers, pointerInBlock, halloc]
      by_cases hzero : wordAt (s.blocks lba) i = 0
      · rw [if_pos hzero]
      · rw [if_neg hzero]
        exact ih _

/-- Without a clear bit a call changes nothing. -/
theorem Mounted.get_inode_data_full {s : Mounted} (halloc : s.allocOneSector = none)
    (inode : Inode) {index : Nat} (hindex : index < blockLv3) :
    (s.getInodeData inode index).1 = (s, inode) := by
  rw [get_inode_data_path s inode hindex, getBlock]
  have hfirst := pointer_in_inode_full halloc inode (pointerPath index).1
  generalize s.pointerInInode inode (pointerPath index).1 = result at hfirst
  obtain ⟨state, block⟩ := result
  obtain rfl : state = (s, inode) := hfirst
  cases block with
  | none => rfl
  | some lba => exact congrArg (·, inode) (follow_pointers_full halloc lba _)

/-! ## What the calls answer -/

theorem Sound.alloc_of_full (h : Sound g kind f) (hfull : f.fs.Full) :
    f.fs.allocOneSector = none := by
  rcases alloc_one_sector_spec h.bytes with ⟨i, t, -, -, -, hi, hclear, -⟩ | ⟨hnone, -⟩
  · rw [hfull i hi] at hclear
    cases hclear
  · exact hnone

theorem get_inode_data_beyond (s : Mounted) (inode : Inode) {index : Nat}
    (h : blockLv3 ≤ index) : s.getInodeData inode index = ((s, inode), none) := by
  have h2 : blockLv2 ≤ index := (Nat.le_add_right _ _).trans h
  have h1 : blockLv1 ≤ index := (Nat.le_add_right _ _).trans h2
  have h0 : blockLv0 ≤ index := (Nat.le_add_right _ _).trans h1
  rw [Mounted.getInodeData, if_neg (Nat.not_lt.mpr h0), if_neg (Nat.not_lt.mpr h1),
    if_neg (Nat.not_lt.mpr h2), if_neg (Nat.not_lt.mpr h)]

theorem data_block_beyond (s : Mounted) (inode : Inode) {index : Nat} (h : blockLv3 ≤ index) :
    s.dataBlock inode index = none :=
  if_pos (.inl h)

/-- A call finds what is there, and makes it be there while the bitmap has a clear bit. -/
theorem Sound.call {f' : Files} {call : Call} (h : Sound g kind f) (hg : DriveGeometry g)
    (hcall : callStep g f call f') : ∃ kind', Later g kind f kind' f' ∧ Answered g f' call := by
  obtain ⟨hn, rfl, hblock⟩ := hcall
  by_cases hindex : call.index < blockLv3
  · obtain ⟨hi, hlength, hpath⟩ := pointer_path_spec hindex
    obtain ⟨kind', hlater, hreach, hfull⟩ := h.get_block hg hn hi (Nat.le_of_eq hlength) hpath
    rw [← Mounted.get_inode_data_path _ _ hindex] at hlater hreach hfull
    refine ⟨kind', hlater, hn, ?_, fun hnone => .inr (hfull (hblock.symm.trans hnone))⟩
    rw [hblock, hreach, hlater.sound.data_block_eq hn hindex]
  · have hbeyond := Nat.not_lt.mp hindex
    rw [get_inode_data_beyond _ _ hbeyond] at hblock ⊢
    rw [Files.store_self]
    refine ⟨kind, h.later, hn, ?_, fun _ => .inl hbeyond⟩
    rw [hblock, data_block_beyond _ _ hbeyond]

/-- What a call answered stays there, and what it did not find stays away. -/
theorem Answered.call {f' : Files} {call call' : Call} (hans : Answered g f call)
    (h : Sound g kind f) (hg : DriveGeometry g) (hcall : callStep g f call' f') :
    Answered g f' call := by
  obtain ⟨kind', hlater, -⟩ := h.call hg hcall
  by_cases hindex : call.index < blockLv3
  · cases hblock : call.block with
    | some b =>
        refine ⟨hans.node, ?_, fun hnone => ?_⟩
        · have hreach := hans.block.symm.trans hblock
          rw [h.data_block_eq hans.node hindex] at hreach
          rw [hblock, hlater.sound.data_block_eq hans.node hindex, hlater.kept.reach hreach]
        · rw [hblock] at hnone
          cases hnone
    | none =>
        -- the bitmap was full, and without a clear bit a call changes nothing
        have hfull := (hans.fails hblock).resolve_left (Nat.not_le.mpr hindex)
        have halloc := h.alloc_of_full hfull
        obtain ⟨-, rfl, -⟩ := hcall
        by_cases hindex' : call'.index < blockLv3
        · rw [Mounted.get_inode_data_full halloc _ hindex', Files.store_self]
          exact hans
        · rw [get_inode_data_beyond _ _ (Nat.not_lt.mp hindex'), Files.store_self]
          exact hans
  · have hbeyond := Nat.not_lt.mp hindex
    refine ⟨hans.node, ?_, fun _ => .inl hbeyond⟩
    rw [hans.block, data_block_beyond _ _ hbeyond, data_block_beyond _ _ hbeyond]

/-- A block that was answered is reached through all the indirect blocks. -/
theorem Answered.reach {call : Call} (hans : Answered g f call) (h : Sound g kind f) {b : Nat}
    (hb : call.block = some b) : call.index < blockLv3 ∧
      (f.forest g kind).reach (call.node, (pointerPath call.index).1)
        (pointerPath call.index).2 = some b := by
  have hblock := hans.block.symm.trans hb
  have hindex : call.index < blockLv3 := by
    by_contra hbeyond
    rw [data_block_beyond _ _ (Nat.not_lt.mp hbeyond)] at hblock
    cases hblock
  rw [h.data_block_eq hans.node hindex] at hblock
  exact ⟨hindex, hblock⟩

theorem Answered.not_table {call : Call} (hans : Answered g f call) (h : Sound g kind f) {b : Nat}
    (hb : call.block = some b) {r : Nat × Nat} {path : List Nat}
    (hreach : (f.forest g kind).reach r path = some b) : height r.2 ≤ path.length := by
  obtain ⟨hindex, hat⟩ := hans.reach h hb
  obtain ⟨k, hk, hsum⟩ := h.kind_reach hat
  obtain ⟨k', hk', hsum'⟩ := h.kind_reach hreach
  rw [hk] at hk'
  cases hk'
  have hlength := (pointer_path_spec hindex).2.1
  simp only at hsum
  omega

/-- In a run the answers of all calls are there, those of `done` with them. -/
theorem Sound.run {f' : Files} {calls : List Call} (h : Sound g kind f) (hg : DriveGeometry g)
    (hrun : Run (callStep g) anyLabel f calls f') (done : List Call)
    (hdone : ∀ call ∈ done, Answered g f call) :
    ∃ kind', Later g kind f kind' f' ∧ ∀ call ∈ done ++ calls, Answered g f' call := by
  induction hrun generalizing kind done with
  | nil =>
      rw [List.append_nil]
      exact ⟨kind, h.later, hdone⟩
  | @cons f t _ first _ _ hcall _ ih =>
      obtain ⟨kind', hlater, hans⟩ := h.call hg hcall
      have hnext : ∀ call ∈ done ++ [first], Answered g t call := by
        intro call hmem
        rcases List.mem_append.mp hmem with hmem | hmem
        · exact (hdone call hmem).call h hg hcall
        · rw [List.mem_singleton.mp hmem]
          exact hans
      obtain ⟨kind'', hlater', hall⟩ := ih hlater.sound _ hnext
      refine ⟨kind'', hlater.trans hlater', ?_⟩
      rwa [List.append_assoc] at hall

/-! ## A file system that has just been made -/

/-- A bit of the bitmap that formatting leaves. -/
theorem DriveGeometry.formatted_bit (hg : DriveGeometry g) {s : Mounted} (h : Formatted g s)
    {i : Nat} (hi : i < sectorBits g) (hle : i / 8 ≤ (g.dataOffset + 1) / 8) :
    (s.bitmap .sector).bit i = decide (i < g.dataOffset + 1) := by
  obtain ⟨date, d, hblocks⟩ := h.blocks
  have hspec : (initSuperBlock g).sectorBitmapLen ≤
    (initSuperBlock g).sectorBitmapSectors * g.blockSize := (bitmap_sectors_spec g .sector).1
  have hi : i < (initSuperBlock g).sectorBitmapLen * 8 := hi
  have hk : i / 8 < (initSuperBlock g).sectorBitmapLen := by omega
  have hused := used_blocks_eq g
  have hbuf := (buf_blocks_spec g).1
  have hwritten : i / 8 / g.blockSize < bufBlocks g ∧ i / 8 % g.blockSize < XBook.blockSize := by
    refine ⟨(Nat.div_lt_iff_lt_mul g.blockSize_pos).mpr (by omega), ?_⟩
    rw [hg.blockSize]
    exact Nat.mod_lt _ (by decide)
  have hbyte := h.sector.bytes (i / 8) (by rw [h.sb]; exact hk)
  rw [h.sb, hblocks, format_sector_byte (Nat.lt_of_lt_of_le hk hspec), if_pos hwritten] at hbyte
  rw [Bitmap.bit, hbyte, used_buffer_bit, hused]

/-- The inodes of a file system that has just been made: the root directory has a block. -/
structure NewInodes (g : Geometry) (inodes : Nat → Inode) : Prop where
  ids : ∀ n < g.inodeNr.toNat, (inodes n).id = n
  blocks : ∀ n < g.inodeNr.toNat, ∀ i < blockNr, (inodes n).blocks i =
    if n = 0 ∧ i = 0 then (initSuperBlock g).dataStartLba else 0

/-- The block of the root directory is the only one in use. -/
def rootKind (g : Geometry) (b : Nat) : Option Nat :=
  if b = (initSuperBlock g).dataStartLba then some 0 else none

theorem root_kind_eq {b k : Nat} (h : rootKind g b = some k) :
    b = (initSuperBlock g).dataStartLba ∧ k = 0 := by
  rw [rootKind, Option.ite_none_right_eq_some] at h
  exact ⟨h.1, (Option.some.inj h.2).symm⟩

/-- Formatting leaves sound files. -/
theorem Formatted.sound (hg : DriveGeometry g) {s : Mounted} (h : Formatted g s)
    (hroom : 0 < sectorBits g) {inodes : Nat → Inode} (hinodes : NewInodes g inodes) :
    Sound g (rootKind g) ⟨s, inodes⟩ := by
  have hroots : ∀ r b, (Files.forest ⟨s, inodes⟩ g (rootKind g)).root r = some b →
      r = (0, 0) ∧ b = (initSuperBlock g).dataStartLba := by
    intro r b hb
    simp only [Files.forest, Option.ite_none_right_eq_some] at hb
    obtain ⟨⟨hn, hi, hne⟩, heq⟩ := hb
    rw [hinodes.blocks _ hn _ hi] at hne heq
    split at hne
    · next hzero =>
        rw [if_pos hzero] at heq
        exact ⟨Prod.ext hzero.1 hzero.2, (Option.some.inj heq).symm⟩
    · exact absurd rfl hne
  have hchildren : ∀ a j, (Files.forest ⟨s, inodes⟩ g (rootKind g)).child a j = none := by
    intro a j
    refine if_neg fun hc => ?_
    cases hkind : rootKind g a with
    | none =>
        rw [hkind] at hc
        exact Nat.lt_irrefl 0 hc.1
    | some k =>
        rw [hkind, (root_kind_eq hkind).2] at hc
        exact Nat.lt_irrefl 0 hc.1
  refine ⟨h.sb, h.bytes, ?_, hinodes.ids, ?_, ?_, ?_, ?_, ?_⟩
  · exact congrArg (· * 8) h.len
  · intro i hi hle
    rw [hg.formatted_bit h hi (by omega), decide_eq_true_iff]
    omega
  · intro b k hb
    obtain ⟨rfl, rfl⟩ := root_kind_eq hb
    refine ⟨0, hroom, ?_, ?_, fun hlt => absurd hlt (Nat.lt_irrefl 0)⟩
    · rw [idx_to_lba_eq, data_start_lba, Nat.add_zero]
    · rw [hg.formatted_bit h hroom (Nat.zero_le _), decide_eq_true_iff]
      omega
  · intro r b hb
    obtain ⟨rfl, rfl⟩ := hroots r b hb
    exact if_pos rfl
  · intro a j b hb
    rw [hchildren] at hb
    cases hb
  · intro u v b hu hv
    cases u with
    | child a j =>
        rw [Forest.value, hchildren] at hu
        cases hu
    | root r =>
        cases v with
        | child a j =>
            rw [Forest.value, hchildren] at hv
            cases hv
        | root r' => rw [(hroots r b hu).1, (hroots r' b hv).1]

theorem Formatted.consistent (hg : DriveGeometry g) {s : Mounted} (h : Formatted g s)
    (hroom : 0 < sectorBits g) {inodes : Nat → Inode} (hinodes : NewInodes g inodes) :
    Files.Consistent g ⟨s, inodes⟩ :=
  ⟨rootKind g, h.sound hg hroom hinodes⟩

theorem default_disk_geometry : DriveGeometry defaultDisk := ⟨rfl, rfl, by decide⟩

/-- The inodes of the disk when it is new. -/
def defaultInodes (n : Nat) : Inode where
  devno := 0
  id := n
  mode := 0
  links := 0
  size := 0
  crttime := 0
  mdftime := 0
  acstime := 0
  flags := 0
  blocks i := if n = 0 ∧ i = 0 then (initSuperBlock defaultDisk).dataStartLba else 0

theorem exists_call (f : Files) {n : Nat} (hn : n < g.inodeNr.toNat) (index : Nat) :
    ∃ c f', callStep g f c f' ∧ c.node = n ∧ c.index = index ∧
      c.block = (f.fs.getInodeData (f.inodes n) index).2 :=
  ⟨⟨n, index, _⟩, _, ⟨hn, rfl, rfl⟩, rfl, rfl, rfl⟩

/-- On the new disk the first call gives a block to an inode. -/
theorem default_disk_first_block {s : Mounted} (h : Formatted defaultDisk s) :
    (s.getInodeData (defaultInodes 1) 0).2 ≠ none := by
  have hroom : 1156 < sectorBits defaultDisk := by decide
  have hoff : defaultDisk.dataOffset = 1155 := by decide
  rcases alloc_one_sector_spec h.bytes with ⟨i, t, hsome, -⟩ | ⟨-, hfull⟩
  · have hfirst : (s.getInodeData (defaultInodes 1) 0).2 = some (s.sb.idxToLba i) := by
      show (s.pointerInInode (defaultInodes 1) 0).2 = _
      rw [Mounted.pointerInInode, hsome]
      rfl
    rw [hfirst]
    exact Option.some_ne_none _
  · have hset := hfull 1156 (by rw [h.len]; exact hroom)
    rw [default_disk_geometry.formatted_bit h hroom (by omega), hoff] at hset
    cases hset

/-- Calls of one inode and one index answer the same, other calls answer different blocks, and no
block that was answered is an indirect block before or after. A call fails only for an index behind
the last level, or when no bit of the sector bitmap is clear. -/
theorem block_map_right (hg : DriveGeometry g) {f f' : Files} {calls : List Call}
    (h : f.Consistent g) (hrun : Run (callStep g) anyLabel f calls f') :
    (∀ c ∈ calls, ∀ c' ∈ calls, c.node = c'.node → c.index = c'.index → c.block = c'.block) ∧
    (∀ c ∈ calls, ∀ c' ∈ calls, ∀ b, c.block = some b → c'.block = some b →
      c.node = c'.node ∧ c.index = c'.index) ∧
    (∀ front back u, calls = front ++ back → Run (callStep g) anyLabel f front u →
      Run (callStep g) anyLabel u back f' →
        ∀ c ∈ calls, ∀ b, c.block = some b → ¬ u.IsTable g b) ∧
    ∀ front c back u v, calls = front ++ c :: back → Run (callStep g) anyLabel f front u →
      callStep g u c v → Run (callStep g) anyLabel v back f' →
        c.block = none → blockLv3 ≤ c.index ∨ v.fs.Full := by
  obtain ⟨kind, h⟩ := h
  have hnil : ∀ call ∈ ([] : List Call), Answered g f call := fun call hmem => by cases hmem
  obtain ⟨kind', hlater, hall⟩ := h.run hg hrun [] hnil
  rw [List.nil_append] at hall
  refine ⟨?_, ?_, ?_, ?_⟩
  · intro c hc c' hc' hnode hindex
    rw [(hall c hc).block, (hall c' hc').block, hnode, hindex]
  · intro c hc c' hc' b hb hb'
    obtain ⟨hindex, hat⟩ := (hall c hc).reach hlater.sound hb
    obtain ⟨hindex', hat'⟩ := (hall c' hc').reach hlater.sound hb'
    obtain ⟨hroot, hpath⟩ := hlater.sound.apart.reach_unique hat hat'
    obtain ⟨hnode, hfirst⟩ := Prod.mk.inj hroot
    exact ⟨hnode, pointer_path_injective hindex hindex' (Prod.ext hfirst hpath)⟩
  · intro front back u _ hfront hback c hc b hb htable
    obtain ⟨ku, hu, -⟩ := h.run hg hfront [] hnil
    obtain ⟨r, path, hat, hlt⟩ := hu.sound.table_reach htable
    obtain ⟨kf, hf, -⟩ := hu.sound.run hg hback [] fun call hmem => by cases hmem
    exact absurd ((hall c hc).not_table hf.sound hb (hf.kept.reach hat)) (Nat.not_le.mpr hlt)
  · intro front c back u v _ hfront hcall _ hnone
    obtain ⟨ku, hu, -⟩ := h.run hg hfront [] hnil
    obtain ⟨kv, -, hans⟩ := hu.sound.call hg hcall
    exact hans.fails hnone

theorem default_disk_blocks : ∃ f f' c c', f.Consistent defaultDisk ∧
    Run (callStep defaultDisk) anyLabel f [c, c'] f' ∧ (c.node, c.index) = (1, 0) ∧
      (c'.node, c'.index) = (1, 0) ∧ c.block ≠ none ∧ c.block = c'.block := by
  obtain ⟨s, hs, -⟩ := exists_formatted defaultDisk
  have hcons : Files.Consistent defaultDisk ⟨s, defaultInodes⟩ :=
    hs.consistent default_disk_geometry (by decide) ⟨fun _ _ => rfl, fun _ _ _ _ => rfl⟩
  have hnode : 1 < defaultDisk.inodeNr.toNat := by decide
  obtain ⟨c, u, hcall, hn, hindex, hblock⟩ := exists_call ⟨s, defaultInodes⟩ hnode 0
  obtain ⟨c', u', hcall', hn', hindex', -⟩ := exists_call u hnode 0
  have hrun : Run (callStep defaultDisk) anyLabel _ [c, c'] u' :=
    .cons trivial hcall (.cons trivial hcall' (.nil _))
  refine ⟨_, u', c, c', hcons, hrun, Prod.ext hn hindex, Prod.ext hn' hindex', ?_, ?_⟩
  · rw [hblock]
    exact default_disk_first_block hs
  · exact (block_map_right default_disk_geometry hcons hrun).1 c (List.mem_cons_self ..) c'
      (List.mem_cons_of_mem _ (List.mem_cons_self ..)) (hn.trans hn'.symm)
        (hindex.trans hindex'.symm)

end XBook.Bofs
