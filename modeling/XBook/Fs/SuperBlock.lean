import XBook.Kernel.Bitmap
import XBook.Kernel.BlockBuffer

/-!
# The superblock and the bitmaps of the file system

`fs/bofs/super_block.c` and `fs/bofs/bitmap.c`, with `AllocOneSector` and `FreeOneSector` of
`inode.c`. Blocks are read and written through the buffer cache, and every transfer and allocation
of memory succeeds.
-/

namespace XBook.Bofs

/-! ## Blocks and memory -/

/-- What the buffer cache holds of a device: a byte of a block. -/
abbrev Blocks := Nat → Nat → UInt8

/-- The kernel's memory. -/
abbrev Memory := Nat → UInt8

/-- `BlockRead`, of a block of `size` bytes. -/
def blockRead (size : Nat) (d : Blocks) (lba : Nat) (mem : Memory) (buffer : Nat) : Memory :=
  fun a => if buffer ≤ a ∧ a < buffer + size then d lba (a - buffer) else mem a

/-- `BlockWrite`. `Bwrite` copies `BLOCK_SIZE` bytes to the block, whatever its size is. -/
def blockWrite (d : Blocks) (lba : Nat) (buffer : Nat → UInt8) : Blocks :=
  Function.update d lba fun i => if i < XBook.blockSize then buffer i else d lba i

/-- The bytes of a 16-bit and of a 32-bit field. -/
def halfBytes (v : Nat) : List UInt8 := [UInt8.ofNat v, UInt8.ofNat (v / 2 ^ 8)]

@[inherit_doc halfBytes]
def fieldBytes (v : Nat) : List UInt8 := halfBytes v ++ halfBytes (v / 2 ^ 16)

/-- A buffer of zeros into which the bytes are copied. -/
def zeroBuffer (bytes : List UInt8) : Nat → UInt8 := fun i => bytes.getD i 0

/-! ## The superblock -/

/-- The arguments of `BOFS_MakeFS`. The size of a block is one of those that `BlockDeviceInit`
names. -/
structure Geometry where
  devno : UInt32
  startSector : UInt32
  totalSectors : UInt32
  blockSize : Nat
  inodeNr : UInt32
  blockSize_mem : blockSize ∈ [512, 1024, 2048, 4096]

/-- `struct BOFS_SuperBlock`, as it is on the disk, with the lengths of the bitmaps. -/
structure SuperBlock where
  magic : Nat
  devno : Nat
  totalSectors : Nat
  superBlockLba : Nat
  sectorBitmapLba : Nat
  sectorBitmapSectors : Nat
  inodeBitmapLba : Nat
  inodeBitmapSectors : Nat
  inodeTableLba : Nat
  inodeTableSectors : Nat
  dataStartLba : Nat
  rootInodeId : Nat
  inodeNrInSector : Nat
  direntryNrInSector : Nat
  maxInodes : Nat
  blockSize : Nat
  /-- `sectorBitmap.btmpBytesLen` -/
  sectorBitmapLen : Nat
  /-- `inodeBitmap.btmpBytesLen` -/
  inodeBitmapLen : Nat

/-- `BOFS_SUPER_BLOCK_MAGIC`. -/
abbrev superBlockMagic : Nat := 0x19980325

/-- `sizeof(struct BOFS_Inode)`. -/
abbrev sizeofInode : Nat := 128

/-- `sizeof(struct BOFS_DirEntry)`. -/
abbrev sizeofDirEntry : Nat := 256

/-- The superblock that `BOFS_MakeFS` sets up. -/
def initSuperBlock (g : Geometry) : SuperBlock :=
  let superBlockLba := wrap (g.startSector.toNat + 1)
  let sectorBitmapLen := g.totalSectors.toNat / 8
  let inodeBitmapLen := g.inodeNr.toNat / 8
  let sectorBitmapLba := wrap (superBlockLba + 1)
  let sectorBitmapSectors := divRoundUp sectorBitmapLen g.blockSize
  let inodeBitmapLba := wrap (sectorBitmapLba + sectorBitmapSectors)
  let inodeBitmapSectors := divRoundUp inodeBitmapLen g.blockSize
  let inodeTableLba := wrap (inodeBitmapLba + inodeBitmapSectors)
  let inodeTableSectors := divRoundUp (wrap (g.inodeNr.toNat * sizeofInode)) g.blockSize
  { magic := superBlockMagic
    devno := g.devno.toNat
    totalSectors := g.totalSectors.toNat
    superBlockLba
    sectorBitmapLba
    sectorBitmapSectors
    inodeBitmapLba
    inodeBitmapSectors
    inodeTableLba
    inodeTableSectors
    dataStartLba := wrap (inodeTableLba + inodeTableSectors)
    rootInodeId := 0
    inodeNrInSector := g.blockSize / sizeofInode
    direntryNrInSector := g.blockSize / sizeofDirEntry
    maxInodes := g.inodeNr.toNat
    blockSize := g.blockSize
    sectorBitmapLen
    inodeBitmapLen }

/-- The bytes of the superblock. The pointers in it are `NULL`. -/
def SuperBlock.bytes (sb : SuperBlock) : List UInt8 :=
  [sb.magic, sb.devno, sb.totalSectors, sb.superBlockLba, sb.sectorBitmapLba,
    sb.sectorBitmapSectors, sb.inodeBitmapLba, sb.inodeBitmapSectors, sb.inodeTableLba,
    sb.inodeTableSectors, sb.dataStartLba, sb.rootInodeId, sb.inodeNrInSector,
    sb.direntryNrInSector, sb.maxInodes, sb.blockSize, sb.sectorBitmapLen, 0, sb.inodeBitmapLen, 0,
    0].flatMap fieldBytes

/-- The bytes of the root directory's inode, up to its first block. Its mode is
`BOFS_IMODE_D | BOFS_IMODE_R | BOFS_IMODE_W`. -/
def rootInode (sb : SuperBlock) (date : Nat) : List UInt8 :=
  fieldBytes sb.devno ++ fieldBytes 0 ++ halfBytes 0x23 ++ halfBytes 0 ++
    [sizeofDirEntry, date, date, date, 0, sb.dataStartLba].flatMap fieldBytes

/-- The bytes of the entry `.` of the root directory, of type `BOFS_FILE_TYPE_DIRECTORY`. -/
def rootDirEntry : List UInt8 := fieldBytes 0 ++ halfBytes 2 ++ [46]

/-! ## Formatting -/

/-- The loop of `BOFS_MakeFS` that sets the first bits of a byte. -/
def setUsedBits : Nat → UInt8
  | 0 => 0
  | i + 1 => setUsedBits i ||| 1 <<< UInt8.ofNat i

/-- The buffer with the used blocks that `BOFS_MakeFS` writes to the bitmap of the sectors. -/
def usedBuffer (usedBlocks : Nat) : Nat → UInt8 := fun i =>
  if i < usedBlocks / 8 then 0xff
  else if i = usedBlocks / 8 then setUsedBits (usedBlocks % 8) else 0

/-- The loop of `BOFS_MakeFS` over the blocks of a buffer. -/
def writeBlocks (size : Nat) (buffer : Nat → UInt8) : Nat → Nat → Nat → Blocks → Blocks
  | 0, _, _, d => d
  | n + 1, pos, p, d =>
      writeBlocks size buffer n (wrap (pos + 1)) (p + size)
        (blockWrite d pos fun i => buffer (p + i))

/-- The number of blocks that `BOFS_MakeFS` marks as used. -/
def usedBlocks (g : Geometry) : Nat :=
  wrap (wrapSub (initSuperBlock g).dataStartLba g.startSector.toNat + 1)

/-- `BOFS_MakeFS`, at a given date. -/
def makeFS (g : Geometry) (date : Nat) (d : Blocks) : Blocks :=
  let sb := initSuperBlock g
  let d := blockWrite d sb.inodeBitmapLba (zeroBuffer [1])
  let d := blockWrite d sb.inodeTableLba (zeroBuffer (rootInode sb date))
  let d := blockWrite d sb.dataStartLba (zeroBuffer rootDirEntry)
  let usedBytes := usedBlocks g / 8
  let bufBlocks := divRoundUp (usedBytes + 1) g.blockSize
  let d := writeBlocks g.blockSize (usedBuffer (usedBlocks g)) bufBlocks sb.sectorBitmapLba 0 d
  blockWrite d sb.superBlockLba (zeroBuffer sb.bytes)

/-! ## Mounting -/

/-- The loop of `BOFS_LoadBitmap` over the blocks of a bitmap. -/
def loadBlocks (d : Blocks) (size lba bits : Nat) : Nat → Nat → Memory → Memory
  | 0, _, mem => mem
  | n + 1, i, mem =>
      loadBlocks d size lba bits n (i + 1)
        (blockRead size d (wrap (lba + i)) mem (bits + i * size))

/-- The `memset` of `BitmapInit`. -/
def clearBytes (mem : Memory) (bits len : Nat) : Memory :=
  fun a => if bits ≤ a ∧ a < bits + len then 0 else mem a

/-- `BOFS_LoadBitmap`. The bitmap of the sectors gets the memory at `sectorBits`, and that of the
inodes the memory at `inodeBits`. -/
def loadBitmap (sb : SuperBlock) (d : Blocks) (sectorBits inodeBits : Nat) (mem : Memory) :
    Memory :=
  let mem := clearBytes mem sectorBits sb.sectorBitmapLen
  let mem := loadBlocks d sb.blockSize sb.sectorBitmapLba sectorBits sb.sectorBitmapSectors 0 mem
  let mem := clearBytes mem inodeBits sb.inodeBitmapLen
  loadBlocks d sb.blockSize sb.inodeBitmapLba inodeBits sb.inodeBitmapSectors 0 mem

/-- The bitmap at an address. -/
def bitmapAt (mem : Memory) (bits len : Nat) : Bitmap := ⟨len, fun i => (mem (bits + i)).toNat⟩

/-- `enum BOFS_BM_TYPE`. -/
inductive BmType where
  | sector
  | inode
  deriving DecidableEq, Repr

/-- A mounted file system. -/
structure Mounted where
  sb : SuperBlock
  bitmap : BmType → Bitmap
  blocks : Blocks

/-- `BOFS_MountFS`. -/
def mountFS (sb : SuperBlock) (d : Blocks) (sectorBits inodeBits : Nat) (mem : Memory) : Mounted :=
  let mem := loadBitmap sb d sectorBits inodeBits mem
  { sb
    bitmap
      | .sector => bitmapAt mem sectorBits sb.sectorBitmapLen
      | .inode => bitmapAt mem inodeBits sb.inodeBitmapLen
    blocks := d }

namespace SuperBlock

/-- Where the bitmap begins on the disk. -/
def bitmapLba (sb : SuperBlock) : BmType → Nat
  | .sector => sb.sectorBitmapLba
  | .inode => sb.inodeBitmapLba

/-- How many blocks the bitmap has on the disk. -/
def bitmapSectors (sb : SuperBlock) : BmType → Nat
  | .sector => sb.sectorBitmapSectors
  | .inode => sb.inodeBitmapSectors

/-- The number of bytes of the bitmap. -/
def bitmapLen (sb : SuperBlock) : BmType → Nat
  | .sector => sb.sectorBitmapLen
  | .inode => sb.inodeBitmapLen

/-- `BOFS_IDX_TO_LBA`. -/
def idxToLba (sb : SuperBlock) (idx : Nat) : Nat := wrap (sb.dataStartLba + idx)

/-- `BOFS_LBA_TO_IDX`. -/
def lbaToIdx (sb : SuperBlock) (lba : Nat) : Nat := wrapSub lba sb.dataStartLba

end SuperBlock

/-! ## Allocation -/

namespace Mounted

/-- Stores a bitmap. -/
def setBitmap (s : Mounted) (bmType : BmType) (m : Bitmap) : Mounted :=
  { s with bitmap := Function.update s.bitmap bmType m }

/-- `BOFS_AllocBitmap`, with `none` for `-1`. -/
def allocBitmap (s : Mounted) (bmType : BmType) (counts : Nat) : Option (Mounted × Nat) :=
  (bitmapScan (s.bitmap bmType) counts).map fun idx =>
    (s.setBitmap bmType (bitmapSetRange (s.bitmap bmType) true idx counts), idx)

/-- `BOFS_FreeBitmap`, with `none` for `-1`. -/
def freeBitmap (s : Mounted) (bmType : BmType) (idx : Nat) : Option Mounted :=
  if idx = 2 ^ 32 - 1 then none
  else some (s.setBitmap bmType (bitmapSet (s.bitmap bmType) idx false))

/-- `BOFS_SyncBitmap`. -/
def syncBitmap (s : Mounted) (bmType : BmType) (idx : Nat) : Mounted :=
  let offsetSector := idx / (8 * sectorSize)
  let offsetSize := offsetSector * sectorSize
  { s with
    blocks := blockWrite s.blocks (wrap (s.sb.bitmapLba bmType + offsetSector)) fun i =>
      UInt8.ofNat ((s.bitmap bmType).bits (offsetSize + i)) }

/-- `AllocOneSector`, with the block that it finds, and `none` for `-1`. -/
def allocOneSector (s : Mounted) : Option (Mounted × Nat) :=
  (s.allocBitmap .sector 1).map fun (s, idx) =>
    let s := s.syncBitmap .sector idx
    let data := s.sb.idxToLba idx
    ({ s with blocks := blockWrite s.blocks data fun _ => 0 }, data)

/-- `FreeOneSector`. It does not look at what `BOFS_FreeBitmap` returns. -/
def freeOneSector (s : Mounted) (lba : Nat) : Mounted :=
  let idx := s.sb.lbaToIdx lba
  ((s.freeBitmap .sector idx).getD s).syncBitmap .sector idx

@[simp] theorem setBitmap_sb (s : Mounted) (bmType : BmType) (m : Bitmap) :
    (s.setBitmap bmType m).sb = s.sb := rfl

@[simp] theorem setBitmap_blocks (s : Mounted) (bmType : BmType) (m : Bitmap) :
    (s.setBitmap bmType m).blocks = s.blocks := rfl

@[simp] theorem setBitmap_bitmap (s : Mounted) (bmType : BmType) (m : Bitmap) :
    (s.setBitmap bmType m).bitmap = Function.update s.bitmap bmType m := rfl

@[simp] theorem syncBitmap_sb (s : Mounted) (bmType : BmType) (idx : Nat) :
    (s.syncBitmap bmType idx).sb = s.sb := rfl

@[simp] theorem syncBitmap_bitmap (s : Mounted) (bmType : BmType) (idx : Nat) :
    (s.syncBitmap bmType idx).bitmap = s.bitmap := rfl

end Mounted

end XBook.Bofs
