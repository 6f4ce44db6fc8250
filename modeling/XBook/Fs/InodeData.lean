import XBook.Fs.DataArea

/-!
# The blocks of an inode

`BOFS_GetInodeData` of `fs/bofs/inode.c` with the three levels of indirect blocks, and
`BOFS_SyncInode`. Where a pointer is zero a sector is allocated for it. A call that fails does not
store a block. Blocks are read and written through the cache without errors, as `BlockEndRequest`
reports none, and the buffers of the calls are there.
-/

namespace XBook.Bofs

/-- `BOFS_BLOCK_NR`. -/
abbrev blockNr : Nat := 15

/-- `BLOCK_LV0`. -/
abbrev blockLv0 : Nat := 12

/-- `BLOCK_LV1`. -/
abbrev blockLv1 : Nat := blockLv0 + 256

/-- `BLOCK_LV2`. -/
abbrev blockLv2 : Nat := blockLv1 + 256 * 256

/-- `BLOCK_LV3`. -/
abbrev blockLv3 : Nat := blockLv2 + 256 * 256 * 256

/-- `struct BOFS_Inode`. -/
structure Inode where
  devno : Nat
  id : Nat
  mode : Nat
  links : Nat
  size : UInt32
  crttime : Nat
  mdftime : Nat
  acstime : Nat
  flags : Nat
  blocks : Nat → Nat

/-- The bytes of an inode, with its reserved words. -/
def Inode.bytes (inode : Inode) : List UInt8 :=
  fieldBytes inode.devno ++ fieldBytes inode.id ++ halfBytes inode.mode ++ halfBytes inode.links ++
    [inode.size.toNat, inode.crttime, inode.mdftime, inode.acstime, inode.flags].flatMap
      fieldBytes ++
    ((List.range blockNr).flatMap fun i => fieldBytes (inode.blocks i)) ++ List.replicate 36 0

/-- Stores a pointer in an inode. -/
def Inode.setBlock (inode : Inode) (i lba : Nat) : Inode :=
  { inode with blocks := Function.update inode.blocks i lba }

/-- A word of a block. -/
def wordAt (block : Nat → UInt8) (i : Nat) : Nat :=
  (block (4 * i)).toNat + 2 ^ 8 * (block (4 * i + 1)).toNat +
    2 ^ 16 * (block (4 * i + 2)).toNat + 2 ^ 24 * (block (4 * i + 3)).toNat

/-- Stores bytes in a block. -/
def patch (block : Nat → UInt8) (offset : Nat) (bytes : List UInt8) : Nat → UInt8 := fun i =>
  if offset ≤ i ∧ i < offset + bytes.length then bytes.getD (i - offset) 0 else block i

namespace Mounted

/-- `BOFS_SyncInode`. -/
def syncInode (s : Mounted) (inode : Inode) : Mounted :=
  let lba := wrap (s.sb.inodeTableLba + inode.id / s.sb.inodeNrInSector)
  let bufOffset := inode.id % s.sb.inodeNrInSector
  let iobuf := patch (s.blocks lba) (bufOffset * sizeofInode) inode.bytes
  { s with blocks := blockWrite s.blocks lba iobuf }

/-- The pointer in an inode, which gets a sector if it is zero, with `none` for `-1`. -/
def pointerInInode (s : Mounted) (inode : Inode) (i : Nat) : (Mounted × Inode) × Option Nat :=
  if inode.blocks i = 0 then
    match s.allocOneSector with
    | none => ((s, inode), none)
    | some (s, lba) =>
        let inode := inode.setBlock i lba
        ((s.syncInode inode, inode), some lba)
  else ((s, inode), some (inode.blocks i))

/-- The pointer in an indirect block. The block is written back when the pointer gets a sector. -/
def pointerInBlock (s : Mounted) (inderect i : Nat) : Mounted × Option Nat :=
  let buffer := s.blocks inderect
  if wordAt buffer i = 0 then
    match s.allocOneSector with
    | none => (s, none)
    | some (s, lba) =>
        ({ s with blocks := blockWrite s.blocks inderect (patch buffer (4 * i) (fieldBytes lba)) },
          some lba)
  else (s, some (wordAt buffer i))

/-- The pointers through some indirect blocks, with the index in each. -/
def followPointers (s : Mounted) (lba : Nat) : List Nat → Mounted × Option Nat
  | [] => (s, some lba)
  | i :: path =>
      match s.pointerInBlock lba i with
      | (s, none) => (s, none)
      | (s, some lba) => s.followPointers lba path

/-- The pointers from one in the inode on. -/
def getBlock (s : Mounted) (inode : Inode) (i : Nat) (path : List Nat) :
    (Mounted × Inode) × Option Nat :=
  match s.pointerInInode inode i with
  | (state, none) => (state, none)
  | ((s, inode), some lba) =>
      let (s, block) := s.followPointers lba path
      ((s, inode), block)

/-- `GetBlockInInderect1`. -/
def getBlockInInderect1 (s : Mounted) (inode : Inode) (base : Nat) :
    (Mounted × Inode) × Option Nat :=
  s.getBlock inode 12 [base]

/-- `GetBlockInInderect2`. -/
def getBlockInInderect2 (s : Mounted) (inode : Inode) (base : Nat) :
    (Mounted × Inode) × Option Nat :=
  s.getBlock inode 13 [base / 256, base % 256]

/-- `GetBlockInInderect3`. -/
def getBlockInInderect3 (s : Mounted) (inode : Inode) (base : Nat) :
    (Mounted × Inode) × Option Nat :=
  if base < 256 then s.getBlock inode 14 [0, 0, base]
  else if base < 256 * 256 then s.getBlock inode 14 [0, base / 256, base % 256]
  else if base < 256 * 256 * 256 then
    let idxInInderect1 := base / (256 * 256)
    let base := base - idxInInderect1 * (256 * 256)
    s.getBlock inode 14 [idxInInderect1, base / 256, base % 256]
  else s.getBlock inode 14 [0, 0, 0]

/-- `BOFS_GetInodeData`, with `none` for `-1`. -/
def getInodeData (s : Mounted) (inode : Inode) (index : Nat) : (Mounted × Inode) × Option Nat :=
  if index < blockLv0 then s.pointerInInode inode index
  else if index < blockLv1 then s.getBlockInInderect1 inode (index - blockLv0)
  else if index < blockLv2 then s.getBlockInInderect2 inode (index - blockLv1)
  else if index < blockLv3 then s.getBlockInInderect3 inode (index - blockLv2)
  else ((s, inode), none)

/-- The block that the pointers lead to, where none of them is zero. -/
def blockAt (s : Mounted) (lba : Nat) : List Nat → Option Nat
  | [] => some lba
  | i :: path =>
      let next := wordAt (s.blocks lba) i
      if next = 0 then none else s.blockAt next path

/-- The pointer in the inode, and the indices in the indirect blocks, of a block of data. -/
def pointerPath (index : Nat) : Nat × List Nat :=
  if index < blockLv0 then (index, [])
  else if index < blockLv1 then (12, [index - blockLv0])
  else if index < blockLv2 then
    let base := index - blockLv1
    (13, [base / 256, base % 256])
  else
    let base := index - blockLv2
    (14, [base / 256 / 256, base / 256 % 256, base % 256])

/-- The block of data that an inode has, if it has it. -/
def dataBlock (s : Mounted) (inode : Inode) (index : Nat) : Option Nat :=
  let (i, path) := pointerPath index
  if blockLv3 ≤ index ∨ inode.blocks i = 0 then none else s.blockAt (inode.blocks i) path

/-! ## Blocks that are there -/

variable {s : Mounted} {inode : Inode}

theorem follow_pointers_eq {lba block : Nat} {path : List Nat}
    (h : s.blockAt lba path = some block) : s.followPointers lba path = (s, some block) := by
  induction path generalizing lba with
  | nil => rw [followPointers, ← h]; rfl
  | cons i path ih =>
      rw [blockAt] at h
      split at h
      · cases h
      · next hne =>
          rw [followPointers, pointerInBlock, if_neg hne]
          exact ih h

theorem get_block_eq {i block : Nat} {path : List Nat} (hi : inode.blocks i ≠ 0)
    (h : s.blockAt (inode.blocks i) path = some block) :
    s.getBlock inode i path = ((s, inode), some block) := by
  rw [getBlock, pointerInInode, if_neg hi]
  simp only [follow_pointers_eq h]

/-- The indices in the three indirect blocks of the last level. -/
theorem inderect3_path {α : Type*} (get : List Nat → α) {base : Nat}
    (hbase : base < 256 * 256 * 256) :
    (if base < 256 then get [0, 0, base]
    else if base < 256 * 256 then get [0, base / 256, base % 256]
    else if base < 256 * 256 * 256 then
      get [base / (256 * 256), (base - base / (256 * 256) * (256 * 256)) / 256,
        (base - base / (256 * 256) * (256 * 256)) % 256]
    else get [0, 0, 0]) = get [base / 256 / 256, base / 256 % 256, base % 256] := by
  rw [if_pos hbase]
  split
  · have hfirst : base / 256 / 256 = 0 := by omega
    have hsecond : base / 256 % 256 = 0 := by omega
    have hlast : base % 256 = base := by omega
    rw [hfirst, hsecond, hlast]
  · split
    · have hfirst : base / 256 / 256 = 0 := by omega
      have hsecond : base / 256 % 256 = base / 256 := by omega
      rw [hfirst, hsecond]
    · have hfirst : base / (256 * 256) = base / 256 / 256 := by omega
      have hsecond : (base - base / (256 * 256) * (256 * 256)) / 256 = base / 256 % 256 := by
        omega
      have hlast : (base - base / (256 * 256) * (256 * 256)) % 256 = base % 256 := by omega
      rw [hsecond, hlast, hfirst]

/-- The levels of `BOFS_GetInodeData` are the path of the pointers. -/
theorem get_inode_data_path (s : Mounted) (inode : Inode) {index : Nat} (h : index < blockLv3) :
    s.getInodeData inode index =
      s.getBlock inode (pointerPath index).1 (pointerPath index).2 := by
  by_cases h0 : index < blockLv0
  · simp only [getInodeData, pointerPath, if_pos h0, getBlock, followPointers]
    cases s.pointerInInode inode index with
    | mk state block =>
        cases block with
        | none => rfl
        | some lba => rfl
  by_cases h1 : index < blockLv1
  · simp only [getInodeData, pointerPath, if_neg h0, if_pos h1, getBlockInInderect1]
  by_cases h2 : index < blockLv2
  · simp only [getInodeData, pointerPath, if_neg h0, if_neg h1, if_pos h2, getBlockInInderect2]
  simp only [getInodeData, pointerPath, if_neg h0, if_neg h1, if_neg h2, if_pos h,
    getBlockInInderect3]
  have hbase : index - blockLv2 < 256 * 256 * 256 := by
    simp only [blockLv3] at h
    omega
  exact inderect3_path (s.getBlock inode 14) hbase

/-- `BOFS_GetInodeData` finds a block that is there, and changes nothing. -/
theorem get_inode_data_eq {index block : Nat} (h : s.dataBlock inode index = some block) :
    s.getInodeData inode index = ((s, inode), some block) := by
  simp only [dataBlock] at h
  split at h
  · cases h
  · next hne =>
      rw [not_or, Nat.not_le] at hne
      rw [get_inode_data_path s inode hne.1, get_block_eq hne.2 h]

/-! ## The superblock -/

theorem alloc_one_sector_sb {t : Mounted} {lba : Nat} (h : s.allocOneSector = some (t, lba)) :
    t.sb = s.sb := by
  rw [allocOneSector, allocBitmap, Option.map_map, Option.map_eq_some_iff] at h
  obtain ⟨idx, -, heq⟩ := h
  rw [← (Prod.mk.inj heq).1]
  rfl

theorem pointer_in_inode_sb (s : Mounted) (inode : Inode) (i : Nat) :
    (s.pointerInInode inode i).1.1.sb = s.sb := by
  rw [pointerInInode]
  split
  · cases halloc : s.allocOneSector with
    | none => rfl
    | some result =>
        obtain ⟨t, lba⟩ := result
        have hsb := alloc_one_sector_sb halloc
        exact hsb
  · rfl

theorem follow_pointers_sb (s : Mounted) (lba : Nat) (path : List Nat) :
    (s.followPointers lba path).1.sb = s.sb := by
  induction path generalizing s lba with
  | nil => rfl
  | cons i path ih =>
      rw [followPointers]
      by_cases hzero : wordAt (s.blocks lba) i = 0
      · cases halloc : s.allocOneSector with
        | none =>
            simp only [pointerInBlock, if_pos hzero, halloc]
        | some result =>
            obtain ⟨t, lba'⟩ := result
            have hsb := alloc_one_sector_sb halloc
            simp only [pointerInBlock, if_pos hzero, halloc]
            rw [ih]
            exact hsb
      · simp only [pointerInBlock, if_neg hzero]
        exact ih s _

/-- The superblock stays as it is. -/
theorem get_inode_data_sb (s : Mounted) (inode : Inode) (index : Nat) :
    (s.getInodeData inode index).1.1.sb = s.sb := by
  by_cases h : index < blockLv3
  · rw [get_inode_data_path s inode h, getBlock]
    have hfirst := pointer_in_inode_sb s inode (pointerPath index).1
    generalize s.pointerInInode inode (pointerPath index).1 = result at hfirst
    obtain ⟨⟨t, inode'⟩, block⟩ := result
    cases block with
    | none => exact hfirst
    | some lba => exact (follow_pointers_sb t lba _).trans hfirst
  · have hlv : ¬ index < blockLv2 := fun hlt => h (hlt.trans_le (Nat.le_add_right _ _))
    have hlv1 : ¬ index < blockLv1 := fun hlt => hlv (hlt.trans_le (Nat.le_add_right _ _))
    have hlv0 : ¬ index < blockLv0 := fun hlt => hlv1 (hlt.trans_le (Nat.le_add_right _ _))
    rw [getInodeData, if_neg hlv0, if_neg hlv1, if_neg hlv, if_neg h]

end Mounted

end XBook.Bofs
