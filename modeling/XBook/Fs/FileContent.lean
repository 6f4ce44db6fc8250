import XBook.Fs.BlockMap
import XBook.Fs.FileWrite

/-!
# The content of a file

A write by `BOFS_FileWrite` that finds sectors for its blocks, and what `BOFS_FileRead` reads
afterwards. Read `WriteInv` first: it says what the rounds of the loop have done to the bytes of the
file. Only the first block is read before it is written, so the bytes behind the request are lost in
the block where it ends; `file_content_iff` says when this does no harm.
-/

namespace XBook.Bofs

variable {g : Geometry} {kind : Nat → Option Nat} {f : Files}

/-! ## Blocks of data -/

/-- Sound files of a file system with a root directory, whose other blocks are behind what is
written besides them. -/
structure Placed (g : Geometry) (kind : Nat → Option Nat) (f : Files) : Prop where
  sound : Sound g kind f
  root : (f.forest g kind).root (0, 0) = some (initSuperBlock g).dataStartLba
  behind : ∀ b k, kind b = some k → b = (initSuperBlock g).dataStartLba ∨ Behind g b

theorem Placed.later {kind' : Nat → Option Nat} {f' : Files} (h : Placed g kind f)
    (hlater : Later g kind f kind' f') : Placed g kind' f' := by
  refine ⟨hlater.sound, hlater.kept (.root (0, 0)) _ h.root, fun b k hb => ?_⟩
  cases hkind : kind b with
  | none => exact .inr (hlater.fresh b k hb hkind)
  | some k' => exact h.behind b k' hkind

theorem Sound.block_size (h : Sound g kind f) (hg : DriveGeometry g) :
    f.fs.sb.blockSize = 1024 := by
  rw [h.sb]
  exact hg.blockSize

theorem Sound.data_kind (h : Sound g kind f) {n index b : Nat} (hn : n < g.inodeNr.toNat)
    (hb : f.fs.dataBlock (f.inodes n) index = some b) : index < blockLv3 ∧
      (f.forest g kind).reach (n, (Mounted.pointerPath index).1)
        (Mounted.pointerPath index).2 = some b ∧ kind b = some 0 := by
  have hindex : index < blockLv3 := by
    by_contra hbeyond
    rw [data_block_beyond _ _ (Nat.not_lt.mp hbeyond)] at hb
    cases hb
  rw [h.data_block_eq hn hindex] at hb
  obtain ⟨k, hk, hsum⟩ := h.kind_reach hb
  rw [(pointer_path_spec hindex).2.1] at hsum
  obtain rfl : k = 0 := by
    simp only at hsum
    omega
  exact ⟨hindex, hb, hk⟩

/-- A block of data has one place in a file. -/
theorem Sound.data_index (h : Sound g kind f) {n index index' b : Nat} (hn : n < g.inodeNr.toNat)
    (hb : f.fs.dataBlock (f.inodes n) index = some b)
    (hb' : f.fs.dataBlock (f.inodes n) index' = some b) : index = index' := by
  obtain ⟨hindex, hreach, -⟩ := h.data_kind hn hb
  obtain ⟨hindex', hreach', -⟩ := h.data_kind hn hb'
  obtain ⟨hroot, hpath⟩ := h.apart.reach_unique hreach hreach'
  exact pointer_path_injective hindex hindex' (Prod.ext (Prod.mk.inj hroot).2 hpath)

/-- The blocks of a file that is not the root directory. -/
theorem Placed.data_behind (h : Placed g kind f) {n index b : Nat} (hn : n < g.inodeNr.toNat)
    (hfile : n ≠ 0) (hb : f.fs.dataBlock (f.inodes n) index = some b) : Behind g b := by
  obtain ⟨-, hreach, hkind⟩ := h.sound.data_kind hn hb
  refine (h.behind b 0 hkind).resolve_left ?_
  rintro rfl
  have hroot : (f.forest g kind).reach (0, 0) [] = some (initSuperBlock g).dataStartLba := h.root
  exact hfile (Prod.mk.inj (h.sound.apart.reach_unique hreach hroot).1).1

/-- Files with the same pointers. -/
structure SamePointers (g : Geometry) (kind : Nat → Option Nat) (f f' : Files) : Prop where
  sb : f'.fs.sb = f.fs.sb
  bitmap : f'.fs.bitmap .sector = f.fs.bitmap .sector
  ids : ∀ n, (f'.inodes n).id = (f.inodes n).id
  blocks : ∀ n, (f'.inodes n).blocks = (f.inodes n).blocks
  words : ∀ a k, kind a = some (k + 1) → ∀ j < 256,
    wordAt (f'.fs.blocks a) j = wordAt (f.fs.blocks a) j

theorem SamePointers.forest_eq {f' : Files} (h : SamePointers g kind f f') :
    f'.forest g kind = f.forest g kind :=
  Files.forest_congr h.blocks h.words

theorem SamePointers.placed {f' : Files} (h : SamePointers g kind f f') (hf : Placed g kind f) :
    Placed g kind f' := by
  have hforest := h.forest_eq
  have hsound := hf.sound
  refine ⟨⟨h.sb.trans hsound.sb, ?_, ?_, ?_, ?_, ?_, ?_, ?_, ?_⟩, ?_, hf.behind⟩
  · rw [h.bitmap]
    exact hsound.bytes
  · rw [h.bitmap]
    exact hsound.len
  · intro n hn
    rw [h.ids, hsound.ids n hn]
  · rw [h.bitmap]
    exact hsound.used
  · rw [h.bitmap]
    exact hsound.marked
  · rw [hforest]
    exact hsound.root
  · rw [hforest]
    exact hsound.child
  · rw [hforest]
    exact hsound.apart
  · rw [hforest]
    exact hf.root

theorem SamePointers.data_block {f' : Files} (h : SamePointers g kind f f') (hf : Placed g kind f)
    {n : Nat} (hn : n < g.inodeNr.toNat) (index : Nat) :
    f'.fs.dataBlock (f'.inodes n) index = f.fs.dataBlock (f.inodes n) index := by
  by_cases hindex : index < blockLv3
  · rw [(h.placed hf).sound.data_block_eq hn hindex, hf.sound.data_block_eq hn hindex, h.forest_eq]
  · rw [data_block_beyond _ _ (Nat.not_lt.mp hindex), data_block_beyond _ _ (Nat.not_lt.mp hindex)]

/-- Formatting leaves the block of the root directory, and no other. -/
theorem Formatted.placed (hg : DriveGeometry g) {s : Mounted} (h : Formatted g s)
    (hroom : 0 < sectorBits g) {inodes : Nat → Inode} (hinodes : NewInodes g inodes)
    (hinode : 0 < g.inodeNr.toNat) : Placed g (rootKind g) ⟨s, inodes⟩ := by
  refine ⟨h.sound hg hroom hinodes, ?_, fun b k hb => .inl (root_kind_eq hb).1⟩
  have hstart := hinodes.blocks 0 hinode 0 (by decide)
  have hne : (initSuperBlock g).dataStartLba ≠ 0 := by
    have hoff : g.dataOffset = 2 + (initSuperBlock g).sectorBitmapSectors +
      (initSuperBlock g).inodeBitmapSectors + (initSuperBlock g).inodeTableSectors := rfl
    have hfirst := hg.idx_to_lba hroom
    rw [idx_to_lba_eq, Nat.add_zero, ← data_start_lba] at hfirst
    omega
  rw [if_pos ⟨rfl, rfl⟩] at hstart
  simp only [Files.forest, hstart]
  exact if_pos ⟨hinode, by decide, hne⟩

/-! ## Bytes of a file -/

/-- A byte of a file. -/
def Files.byte (f : Files) (n i : Nat) : Option UInt8 := f.fs.fileByte (f.inodes n) i

theorem Files.byte_eq (hg : DriveGeometry g) (h : Sound g kind f) (n i : Nat) : f.byte n i =
    (f.fs.dataBlock (f.inodes n) (i / 1024)).map fun lba => f.fs.blocks lba (i % 1024) := by
  rw [byte, Mounted.fileByte, h.block_size hg]

/-- What a call leaves of the bytes of a file. -/
theorem Placed.byte_later {kind' : Nat → Option Nat} {f' : Files} (h : Placed g kind f)
    (hg : DriveGeometry g) (hlater : Later g kind f kind' f') {n i : Nat} {b : UInt8}
    (hn : n < g.inodeNr.toNat) (hfile : n ≠ 0) (hb : f.byte n i = some b) :
    f'.byte n i = some b := by
  rw [Files.byte_eq hg h.sound, Option.map_eq_some_iff] at hb
  obtain ⟨lba, hlba, hbyte⟩ := hb
  obtain ⟨hindex, hreach, hkind⟩ := h.sound.data_kind hn hlba
  have hblock : f'.fs.dataBlock (f'.inodes n) (i / 1024) = some lba := by
    rw [hlater.sound.data_block_eq hn hindex]
    exact hlater.kept.reach hreach
  rw [Files.byte_eq hg hlater.sound, hblock, Option.map_some,
    hlater.data lba hkind (h.data_behind hn hfile hlba), hbyte]

/-- The files with a block of data written. -/
def Files.writeBlock (f : Files) (lba : Nat) (buffer : Nat → UInt8) : Files :=
  f.setFs { f.fs with blocks := blockWrite f.fs.blocks lba buffer }

theorem Placed.write_same (h : Placed g kind f) {n index lba : Nat} (hn : n < g.inodeNr.toNat)
    (hlba : f.fs.dataBlock (f.inodes n) index = some lba) (buffer : Nat → UInt8) :
    SamePointers g kind f (f.writeBlock lba buffer) := by
  obtain ⟨-, -, hkind⟩ := h.sound.data_kind hn hlba
  refine ⟨rfl, rfl, fun _ => rfl, fun _ => rfl, fun a k ha j hj => ?_⟩
  have hne : a ≠ lba := by
    rintro rfl
    rw [hkind] at ha
    cases ha
  exact congrArg (wordAt · j) (block_write_other _ _ hne)

/-- A write of a block of data changes the bytes of the file in it. -/
theorem Placed.write_block (h : Placed g kind f) (hg : DriveGeometry g) {n index lba : Nat}
    (hn : n < g.inodeNr.toNat) (hlba : f.fs.dataBlock (f.inodes n) index = some lba)
    (buffer : Nat → UInt8) : Placed g kind (f.writeBlock lba buffer) ∧
      ∀ i, (f.writeBlock lba buffer).byte n i =
        if i / 1024 = index then some (buffer (i % 1024)) else f.byte n i := by
  have hsame := h.write_same hn hlba buffer
  have hplaced := hsame.placed h
  refine ⟨hplaced, fun i => ?_⟩
  have hmod : i % 1024 < XBook.blockSize := Nat.mod_lt _ (by decide)
  rw [Files.byte_eq hg hplaced.sound, Files.byte_eq hg h.sound, hsame.data_block h hn]
  by_cases hindex : i / 1024 = index
  · rw [if_pos hindex, hindex, hlba, Option.map_some]
    refine congrArg some ((block_write_apply ..).trans (if_pos ⟨rfl, hmod⟩))
  · rw [if_neg hindex]
    cases hother : f.fs.dataBlock (f.inodes n) (i / 1024) with
    | none => rfl
    | some lba' =>
        have hne : lba' ≠ lba := by
          rintro rfl
          exact hindex (h.sound.data_index hn hother hlba)
        exact congrArg (fun block => some (block (i % 1024))) (block_write_other _ _ hne)

theorem Placed.sync_same (h : Placed g kind f) (hg : DriveGeometry g) {inode : Inode}
    (hid : inode.id < g.inodeNr.toNat) :
    SamePointers g kind f (f.setFs (f.fs.syncInode inode)) := by
  refine ⟨rfl, rfl, fun _ => rfl, fun _ => rfl, fun a k ha j hj => ?_⟩
  have hbehind := h.sound.table_behind hg ha
  exact congrArg (wordAt · j) (hg.sync_inode_blocks h.sound.sb hid (by omega))

/-- `BOFS_SyncInode` changes no byte of a file. -/
theorem Placed.sync_inode (h : Placed g kind f) (hg : DriveGeometry g) {n : Nat}
    (hn : n < g.inodeNr.toNat) (hfile : n ≠ 0) :
    Placed g kind (f.setFs (f.fs.syncInode (f.inodes n))) ∧
      ∀ i, (f.setFs (f.fs.syncInode (f.inodes n))).byte n i = f.byte n i := by
  have hid : (f.inodes n).id < g.inodeNr.toNat := by
    rw [h.sound.ids n hn]
    exact hn
  have hsame := h.sync_same hg hid
  have hplaced := hsame.placed h
  refine ⟨hplaced, fun i => ?_⟩
  rw [Files.byte_eq hg hplaced.sound, Files.byte_eq hg h.sound, hsame.data_block h hn]
  cases hblock : f.fs.dataBlock (f.inodes n) (i / 1024) with
  | none => rfl
  | some lba =>
      have hbehind : g.startSector.toNat + g.dataOffset + g.dataOffset < lba :=
        h.data_behind hn hfile hblock
      have hle : g.startSector.toNat + g.dataOffset ≤ lba := by omega
      exact congrArg (fun block => some (block (i % 1024)))
        (hg.sync_inode_blocks h.sound.sb hid hle)

/-! ## A round of a write -/

theorem get_inode_data_size (s : Mounted) (inode : Inode) (index : Nat) :
    (s.getInodeData inode index).1.2.size = inode.size := by
  have hpointer : ∀ i, (s.pointerInInode inode i).1.2.size = inode.size := by
    intro i
    rw [Mounted.pointerInInode]
    split
    · cases s.allocOneSector with
      | none => rfl
      | some result => rfl
    · rfl
  by_cases hindex : index < blockLv3
  · rw [Mounted.get_inode_data_path s inode hindex, Mounted.getBlock]
    have hsize := hpointer (Mounted.pointerPath index).1
    generalize s.pointerInInode inode (Mounted.pointerPath index).1 = result at hsize
    obtain ⟨state, block⟩ := result
    cases block with
    | none => exact hsize
    | some lba => exact hsize
  · rw [get_inode_data_beyond _ _ (Nat.not_lt.mp hindex)]

/-- The length of the part of the block that a round writes. -/
def WriteState.chunk (w : WriteState) : Nat := min w.sizeLeft (1024 - w.pos % 1024)

/-- The files with the variables of a write. -/
def WriteState.files (w : WriteState) (f : Files) (n : Nat) : Files := f.store n (w.fs, w.inode)

/-- What a round does that finds a block. -/
structure RoundSpec (g : Geometry) (f : Files) (n : Nat) (src : Nat → UInt8) (change : Bool)
    (w w' : WriteState) : Prop where
  placed : ∃ kind, Placed g kind (w'.files f n)
  pos : w'.pos = wrap (w.pos + w.chunk)
  bytesWritten : w'.bytesWritten = w.bytesWritten + w.chunk
  sizeLeft : w'.sizeLeft = w.sizeLeft - w.chunk
  blockID : w'.blockID = wrap (w.blockID + 1)
  first : w'.firstWriteSector = false
  size : w'.inode.size = if change then UInt32.ofNat w'.pos else w.inode.size
  stored : ∀ i, i / 1024 = w.blockID → w.pos % 1024 ≤ i % 1024 →
    i % 1024 < w.pos % 1024 + w.chunk →
      (w'.files f n).byte n i = some (src (w.bytesWritten + (i % 1024 - w.pos % 1024)))
  rest : ∀ i, i / 1024 = w.blockID →
    (i % 1024 < w.pos % 1024 ∨ w.pos % 1024 + w.chunk ≤ i % 1024) →
      if w.firstWriteSector then ∀ b, (w.files f n).byte n i = some b →
        (w'.files f n).byte n i = some b
      else (w'.files f n).byte n i = some 0
  others : ∀ i b, i / 1024 ≠ w.blockID → (w.files f n).byte n i = some b →
    (w'.files f n).byte n i = some b

/-- The block that a round writes. -/
def WriteState.buffer (w : WriteState) (src old : Nat → UInt8) : Nat → UInt8 := fun i =>
  if w.pos % 1024 ≤ i ∧ i < w.pos % 1024 + w.chunk then
    src (w.bytesWritten + (i - w.pos % 1024))
  else if w.firstWriteSector then old i else 0

theorem WriteState.round_eq {w : WriteState} {fs : Mounted} {inode : Inode} {lba : Nat}
    (hsize : w.fs.sb.blockSize = 1024)
    (hcall : w.fs.getInodeData w.inode w.blockID = ((fs, inode), some lba)) (src : Nat → UInt8)
    (change : Bool) : w.round src change =
      { fs := { fs with blocks := blockWrite fs.blocks lba (w.buffer src (fs.blocks lba)) }
        inode := if change then { inode with size := UInt32.ofNat (wrap (w.pos + w.chunk)) }
          else inode
        pos := wrap (w.pos + w.chunk)
        bytesWritten := w.bytesWritten + w.chunk
        sizeLeft := w.sizeLeft - w.chunk
        blockID := wrap (w.blockID + 1)
        sectorLba := lba
        firstWriteSector := false } := by
  have hchunk : (if w.sizeLeft < 1024 - w.pos % 1024 then w.sizeLeft else 1024 - w.pos % 1024) =
      w.chunk := by
    rw [chunk]
    split
    · omega
    · omega
  have hbuffer : ∀ old : Nat → UInt8, (fun i =>
      if w.pos % 1024 ≤ i ∧ i < w.pos % 1024 + w.chunk then
        src (w.bytesWritten + (i - w.pos % 1024))
      else (if w.firstWriteSector then old else fun _ => 0) i) = w.buffer src old := by
    intro old
    funext i
    rw [buffer]
    cases w.firstWriteSector with
    | true => rfl
    | false => rfl
  simp only [round, hcall, hsize, Option.getD_some, hchunk, hbuffer]

/-- Besides the block, a round stores the size. -/
theorem WriteState.round_same {w : WriteState} {fs : Mounted} {inode : Inode} {n lba : Nat}
    (hsize : w.fs.sb.blockSize = 1024)
    (hcall : w.fs.getInodeData w.inode w.blockID = ((fs, inode), some lba)) (src : Nat → UInt8)
    (change : Bool) : SamePointers g kind
      (((w.files f n).store n (fs, inode)).writeBlock lba (w.buffer src (fs.blocks lba)))
      ((w.round src change).files f n) := by
  rw [w.round_eq hsize hcall src change]
  refine ⟨rfl, rfl, fun m => ?_, fun m => ?_, fun _ _ _ _ _ => rfl⟩
  · simp only [WriteState.files, Files.store, Files.writeBlock, Files.setFs,
      Function.update_apply]
    by_cases hm : m = n
    · rw [if_pos hm, if_pos hm]
      cases change with
      | true => rfl
      | false => rfl
    · simp only [if_neg hm]
  · simp only [WriteState.files, Files.store, Files.writeBlock, Files.setFs,
      Function.update_apply]
    by_cases hm : m = n
    · rw [if_pos hm, if_pos hm]
      cases change with
      | true => rfl
      | false => rfl
    · simp only [if_neg hm]

/-- The call of `BOFS_GetInodeData` in a round. -/
theorem WriteState.call_step {w : WriteState} {fs : Mounted} {inode : Inode} {n lba : Nat}
    (hn : n < g.inodeNr.toNat)
    (hcall : w.fs.getInodeData w.inode w.blockID = ((fs, inode), some lba)) :
    callStep g (w.files f n) ⟨n, w.blockID, some lba⟩ ((w.files f n).store n (fs, inode)) := by
  have hself : (w.files f n).inodes n = w.inode := Function.update_self ..
  refine ⟨hn, ?_, ?_⟩
  · rw [hself]
    exact congrArg (fun result => (w.files f n).store n result.1) hcall.symm
  · rw [hself]
    exact congrArg Prod.snd hcall.symm

theorem write_round_spec {w : WriteState} {n lba : Nat} (h : Placed g kind (w.files f n))
    (hg : DriveGeometry g) (hn : n < g.inodeNr.toNat) (hfile : n ≠ 0) (src : Nat → UInt8)
    (change : Bool) (hlba : (w.fs.getInodeData w.inode w.blockID).2 = some lba) :
    RoundSpec g f n src change w (w.round src change) := by
  have hsize := get_inode_data_size w.fs w.inode w.blockID
  rcases hcall : w.fs.getInodeData w.inode w.blockID with ⟨⟨fs, inode⟩, block⟩
  rw [hcall] at hlba hsize
  obtain rfl : block = some lba := hlba
  have hsize : inode.size = w.inode.size := hsize
  obtain ⟨kind', hlater, hans⟩ := h.sound.call hg (w.call_step hn hcall)
  have hplaced := h.later hlater
  obtain ⟨hwritten, hbyte⟩ :=
    hplaced.write_block hg hn hans.block.symm (w.buffer src (fs.blocks lba))
  have hround := w.round_eq (h.sound.block_size hg) hcall src change
  have hsame : SamePointers g kind'
      (((w.files f n).store n (fs, inode)).writeBlock lba (w.buffer src (fs.blocks lba)))
      ((w.round src change).files f n) :=
    WriteState.round_same (h.sound.block_size hg) hcall src change
  have hbytes : ∀ i, ((w.round src change).files f n).byte n i =
      if i / 1024 = w.blockID then some (w.buffer src (fs.blocks lba) (i % 1024))
      else ((w.files f n).store n (fs, inode)).byte n i := by
    intro i
    rw [← hbyte i, Files.byte_eq hg (hsame.placed hwritten).sound, Files.byte_eq hg hwritten.sound,
      hsame.data_block hwritten hn, hround]
    rfl
  constructor
  case placed => exact ⟨kind', hsame.placed hwritten⟩
  case pos => rw [hround]
  case bytesWritten => rw [hround]
  case sizeLeft => rw [hround]
  case blockID => rw [hround]
  case first => rw [hround]
  case size =>
    rw [hround]
    cases change with
    | true => rfl
    | false => exact hsize
  case stored =>
    intro i hi hlow hhigh
    rw [hbytes, if_pos hi, WriteState.buffer, if_pos ⟨hlow, hhigh⟩]
  case rest =>
    intro i hi hout
    cases hfirst : w.firstWriteSector with
    | true =>
        rw [if_pos rfl]
        intro b hb
        have hold := h.byte_later hg hlater hn hfile hb
        rw [Files.byte_eq hg hplaced.sound, hi, ← hans.block, Option.map_some] at hold
        rw [hbytes, if_pos hi, WriteState.buffer, if_neg (by omega), hfirst, if_pos rfl]
        exact hold
    | false =>
        rw [if_neg Bool.false_ne_true, hbytes, if_pos hi, WriteState.buffer, if_neg (by omega),
          hfirst, if_neg Bool.false_ne_true]
  case others =>
    intro i b hi hb
    rw [hbytes, if_neg hi]
    exact h.byte_later hg hlater hn hfile hb

/-! ## The loop of a write -/

/-- The place is behind the request, in the block where this ends and does not start. -/
def Cleared (pos written i : Nat) : Prop :=
  pos / 1024 ≠ (pos + written - 1) / 1024 ∧ pos + written ≤ i ∧
    i / 1024 = (pos + written - 1) / 1024

/-- What the rounds keep: what has been written is in the file, and other bytes are as they were,
unless they are in the last block that was written and this was not read before. -/
structure WriteInv (g : Geometry) (f : Files) (n pos count : Nat) (src : Nat → UInt8)
    (change : Bool) (w : WriteState) : Prop where
  placed : ∃ kind, Placed g kind (w.files f n)
  position : w.pos = pos + w.bytesWritten
  sum : w.bytesWritten + w.sizeLeft = count
  block : w.bytesWritten < count → w.blockID = w.pos / 1024
  first : w.firstWriteSector = decide (w.bytesWritten = 0)
  aligned : 0 < w.bytesWritten → w.bytesWritten < count → w.pos % 1024 = 0
  size : w.inode.size.toNat =
    if change = true ∧ 0 < w.bytesWritten then w.pos else (f.inodes n).size.toNat
  written : ∀ i < w.bytesWritten, (w.files f n).byte n (pos + i) = some (src i)
  kept : ∀ i b, (i < pos ∨ pos + w.bytesWritten ≤ i) → ¬ Cleared pos w.bytesWritten i →
    f.byte n i = some b → (w.files f n).byte n i = some b
  cleared : ∀ i, Cleared pos w.bytesWritten i → (w.files f n).byte n i = some 0

section

variable {n pos count : Nat} {src : Nat → UInt8} {change : Bool} {w : WriteState}

/-- Between two rounds the last block is full. -/
theorem WriteInv.not_cleared (h : WriteInv g f n pos count src change w)
    (hmore : w.bytesWritten < count) (i : Nat) : ¬ Cleared pos w.bytesWritten i := by
  rintro ⟨hstart, hle, hblock⟩
  have hpos := h.position
  by_cases hnone : w.bytesWritten = 0
  · omega
  · have haligned := h.aligned (by omega) hmore
    omega

theorem WriteInv.round (h : WriteInv g f n pos count src change w) (hg : DriveGeometry g)
    (hn : n < g.inodeNr.toNat) (hfile : n ≠ 0) (hfits : pos + count < 2 ^ 32)
    (hmore : w.bytesWritten < count)
    (hfound : (w.fs.getInodeData w.inode w.blockID).2 ≠ none) :
    WriteInv g f n pos count src change (w.round src change) := by
  obtain ⟨kind, hplaced⟩ := h.placed
  obtain ⟨lba, hlba⟩ := Option.ne_none_iff_exists'.mp hfound
  have hspec := write_round_spec hplaced hg hn hfile src change hlba
  have hpos := h.position
  have hsum := h.sum
  have hblock := h.block hmore
  have hchunk : w.chunk = min w.sizeLeft (1024 - w.pos % 1024) := rfl
  have hwrap : wrap (w.pos + w.chunk) = w.pos + w.chunk := wrap_of_lt (by omega)
  have hnext := hspec.pos.trans hwrap
  have hbytes := hspec.bytesWritten
  generalize w.round src change = w' at hspec hnext hbytes
  constructor
  case placed => exact hspec.placed
  case position => omega
  case sum =>
    rw [hspec.sizeLeft]
    omega
  case block =>
    intro hless
    rw [hspec.blockID, hblock, wrap_of_lt (by omega)]
    omega
  case first =>
    rw [hspec.first, eq_comm, decide_eq_false_iff_not]
    omega
  case aligned =>
    intro _ hless
    omega
  case size =>
    rw [hspec.size]
    cases change with
    | true =>
        have hlt : w'.pos < 2 ^ 32 := by omega
        rw [if_pos rfl, if_pos ⟨rfl, by omega⟩]
        exact UInt32.toNat_ofNat_of_lt' hlt
    | false =>
        have hsize := h.size
        rw [if_neg (fun hc => Bool.false_ne_true hc.1)] at hsize
        rw [if_neg Bool.false_ne_true, hsize, if_neg (fun hc => Bool.false_ne_true hc.1)]
  case written =>
    intro i hi
    by_cases hold : i < w.bytesWritten
    · -- the round writes a block that no byte before has reached
      have haligned := h.aligned (by omega) hmore
      exact hspec.others _ _ (by omega) (h.written i hold)
    · have hindex : w.bytesWritten + ((pos + i) % 1024 - w.pos % 1024) = i := by omega
      rw [hspec.stored (pos + i) (by omega) (by omega) (by omega), hindex]
  case kept =>
    intro i b hout hclear hb
    have hthere := h.kept i b (by omega) (h.not_cleared hmore i) hb
    by_cases hi : i / 1024 = w.blockID
    · have hrest := hspec.rest i hi (by omega)
      have hfirst := h.first
      by_cases hnone : w.bytesWritten = 0
      · rw [hfirst, if_pos (decide_eq_true hnone)] at hrest
        exact hrest b hthere
      · have haligned := h.aligned (by omega) hmore
        exact absurd ⟨by omega, by omega, by omega⟩ hclear
    · exact hspec.others i b hi hthere
  case cleared =>
    rintro i ⟨hstart, hle, hlast⟩
    have hnone : w.bytesWritten ≠ 0 := by omega
    have hrest := hspec.rest i (by omega) (by omega)
    rwa [h.first, if_neg (by rw [decide_eq_true_iff]; exact hnone)] at hrest

/-- What each round keeps that the loop takes, the loop keeps. -/
theorem WriteState.loop_rule (keeps : WriteState → Prop) {rounds : Nat} {w' : WriteState}
    (hround : ∀ j, ((WriteState.round src change)^[j] w).bytesWritten < count →
      keeps ((WriteState.round src change)^[j] w) → keeps ((WriteState.round src change)^[j + 1] w))
    (hstart : keeps w) (hloop : w.loop src change count rounds = some w') : keeps w' := by
  induction rounds generalizing w with
  | zero => cases hloop
  | succ rounds ih =>
      rw [WriteState.loop] at hloop
      split at hloop
      · next hmore => exact ih (fun j => hround (j + 1)) (hround 0 hmore hstart) hloop
      · cases hloop
        exact hstart

/-- The loop, when each block that it asks for is there. -/
theorem WriteInv.loop {rounds : Nat} {w' : WriteState} (h : WriteInv g f n pos count src change w)
    (hg : DriveGeometry g) (hn : n < g.inodeNr.toNat) (hfile : n ≠ 0) (hfits : pos + count < 2 ^ 32)
    (hfound : ∀ j, ((WriteState.round src change)^[j] w).bytesWritten < count →
      (((WriteState.round src change)^[j] w).fs.getInodeData
        ((WriteState.round src change)^[j] w).inode
        ((WriteState.round src change)^[j] w).blockID).2 ≠ none)
    (hloop : w.loop src change count rounds = some w') :
    WriteInv g f n pos count src change w' := by
  refine WriteState.loop_rule (WriteInv g f n pos count src change) (fun j hmore hinv => ?_) h hloop
  rw [Function.iterate_succ_apply']
  exact hinv.round hg hn hfile hfits hmore (hfound j hmore)

end

/-! ## The calls -/

theorem start_pos_eq {inode : Inode} {pos : UInt32} (hpos : pos ≤ inode.size) :
    startPos inode pos = pos := by
  rw [startPos, if_neg]
  rw [UInt32.lt_iff_toNat_lt]
  rw [UInt32.le_iff_toNat_le] at hpos
  omega

/-- Before the first round nothing has changed. -/
theorem Placed.start_write {n : Nat} {pos : UInt32} (h : Placed g kind f) (hg : DriveGeometry g)
    (hpos : pos ≤ (f.inodes n).size) (count : UInt32) (src : Nat → UInt8) (change : Bool)
    (sectorLba : Nat) : WriteInv g f n pos.toNat count.toNat src change
      (startWrite f.fs (f.inodes n) pos count sectorLba) := by
  have hsize := h.sound.block_size hg
  have hstart := start_pos_eq hpos
  have hfiles : (startWrite f.fs (f.inodes n) pos count sectorLba).files f n = f := f.store_self n
  constructor
  case placed =>
    rw [hfiles]
    exact ⟨kind, h⟩
  case position => rw [startWrite, hstart, Nat.add_zero]
  case sum => exact Nat.zero_add _
  case block =>
    intro _
    rw [startWrite, hstart, hsize]
  case first => rfl
  case aligned => exact fun hlt => absurd hlt (Nat.lt_irrefl 0)
  case size => exact (if_neg fun hc => Nat.lt_irrefl 0 hc.2).symm
  case written => exact fun i hi => absurd hi (Nat.not_lt_zero i)
  case kept =>
    intro i b _ _ hb
    rw [hfiles]
    exact hb
  case cleared =>
    rintro i ⟨hblock, hle, hlast⟩
    have hnone : (startWrite f.fs (f.inodes n) pos count sectorLba).bytesWritten = 0 := rfl
    omega

/-- What a call leaves that finds its sectors. -/
theorem file_write_spec {n : Nat} {pos count : UInt32} (h : Placed g kind f) (hg : DriveGeometry g)
    (hn : n < g.inodeNr.toNat) (hfile : n ≠ 0) (hpos : pos ≤ (f.inodes n).size)
    (hfits : pos.toNat + count.toNat < 2 ^ 32) (buf : Nat → UInt8) (sectorLba : Nat)
    (hfree : ¬ LacksSectors f.fs (f.inodes n) pos count buf sectorLba) :
    ∃ w, (startWrite f.fs (f.inodes n) pos count sectorLba).loop buf
        (changesFileSize (f.inodes n) pos count) count.toNat (count.toNat + 1) = some w ∧
      fileWrite f.fs (f.inodes n) pos count buf sectorLba true =
        some ({ w with fs := w.fs.syncInode w.inode }, toInt count.toNat) ∧
      w.bytesWritten = count.toNat ∧ WriteInv g f n pos.toNat count.toNat buf
        (changesFileSize (f.inodes n) pos count) w := by
  have hsize := h.sound.block_size hg
  obtain ⟨w, hloop, hall⟩ := write_loop_ends buf (changesFileSize (f.inodes n) pos count)
    count.toNat (count.toNat + 1) (startWrite f.fs (f.inodes n) pos count sectorLba)
    (Nat.zero_add _) (by rw [startWrite, hsize]; decide) (Nat.lt_succ_self _)
  have hinv := h.start_write hg hpos count buf (changesFileSize (f.inodes n) pos count) sectorLba
  refine ⟨w, hloop, ?_, hall, hinv.loop hg hn hfile hfits ?_ hloop⟩
  · simp only [fileWrite, Bool.true_eq_false, if_false, hloop, Option.map_some, hall]
  · intro j hmore hnone
    exact hfree ⟨j, hmore, hnone⟩

/-- A read of the whole file. -/
theorem file_read_whole {s : Mounted} {inode : Inode} (hsize : 0 < s.sb.blockSize)
    (hthere : ∀ i < inode.size.toNat, (s.fileByte inode i).isSome = true) (dst : Nat → UInt8)
    (sectorLba : Nat) : ∃ r result, fileRead s inode 0 inode.size dst sectorLba true =
        some (r, result) ∧ r.bytesRead = inode.size.toNat ∧
      ∀ i < inode.size.toNat, s.fileByte inode i = some (r.dst i) := by
  have hzero : (0 : UInt32).toNat = 0 := rfl
  have hlt := inode.size.toNat_lt
  have hwanted : bytesWanted inode 0 inode.size = inode.size.toNat := Nat.min_self _
  have hpos : 0 ≤ inode.size := UInt32.zero_le
  have hfits : (0 : UInt32).toNat + inode.size.toNat < 2 ^ 32 := by omega
  obtain ⟨r, result, hcall, hread, hinv⟩ := file_read_part hsize hpos hfits (by
    intro i hi
    rw [hwanted] at hi
    rw [hzero, Nat.zero_add]
    exact hthere i hi) dst sectorLba
  rw [hwanted] at hread
  refine ⟨r, result, hcall, hread, fun i hi => ?_⟩
  have hbyte := hinv.content i (by rw [hread]; exact hi)
  rwa [hzero, Nat.zero_add] at hbyte

/-! ## The content -/

/-- After the call the file, as it is read from its start, has the buffer at the position and is as
it was elsewhere; the size and the position are behind what was written. -/
structure StoredContent (s : Mounted) (inode : Inode) (pos count : UInt32) (buf : Nat → UInt8)
    (w : WriteState) : Prop where
  size : w.inode.size.toNat = max inode.size.toNat (pos.toNat + count.toNat)
  position : w.pos = pos.toNat + count.toNat
  read : ∀ dst sectorLba, ∃ r result,
    fileRead w.fs w.inode 0 w.inode.size dst sectorLba true = some (r, result) ∧
      r.bytesRead = w.inode.size.toNat ∧ (∀ i < count.toNat, r.dst (pos.toNat + i) = buf i) ∧
      ∀ i < inode.size.toNat, (i < pos.toNat ∨ pos.toNat + count.toNat ≤ i) →
        s.fileByte inode i = some (r.dst i)

/-- A call that succeeds stores the buffer. -/
def ContentLaw (s : Mounted) (inode : Inode) (pos count : UInt32) (buf : Nat → UInt8)
    (sectorLba : Nat) : Prop :=
  ∃ w result, fileWrite s inode pos count buf sectorLba true = some (w, result) ∧
    (result ≠ -1 → StoredContent s inode pos count buf w)

/-- The bytes of the file that the request clears are zeros. -/
def TailKept (s : Mounted) (inode : Inode) (pos count : UInt32) : Prop :=
  ∀ i < inode.size.toNat, Cleared pos.toNat count.toNat i → s.fileByte inode i = some 0

/-- What a call has done to the bytes of a file of `size` bytes. -/
structure WriteDone (s : Mounted) (inode : Inode) (pos count : Nat) (buf : Nat → UInt8)
    (w : WriteState) : Prop where
  blockSize : w.fs.sb.blockSize = 1024
  size : w.inode.size.toNat = max inode.size.toNat (pos + count)
  position : w.pos = pos + count
  stored : ∀ i < count, w.fs.fileByte w.inode (pos + i) = some (buf i)
  kept : ∀ i b, (i < pos ∨ pos + count ≤ i) → ¬ Cleared pos count i →
    s.fileByte inode i = some b → w.fs.fileByte w.inode i = some b
  cleared : ∀ i, Cleared pos count i → w.fs.fileByte w.inode i = some 0

theorem changes_file_size_iff {inode : Inode} {pos count : UInt32} (hpos : pos ≤ inode.size)
    (hfits : pos.toNat + count.toNat < 2 ^ 32) :
    changesFileSize inode pos count = true ↔ inode.size.toNat < pos.toNat + count.toNat := by
  rw [changesFileSize, start_pos_eq hpos, decide_eq_true_iff, UInt32.lt_iff_toNat_lt,
    UInt32.toNat_add, Nat.mod_eq_of_lt hfits]

/-- The last round leaves what is asked for, except for the bytes that are cleared. -/
theorem WriteInv.done {n : Nat} {pos count : UInt32} {buf : Nat → UInt8} {w : WriteState}
    (h : WriteInv g f n pos.toNat count.toNat buf (changesFileSize (f.inodes n) pos count) w)
    (hg : DriveGeometry g) (hn : n < g.inodeNr.toNat) (hfile : n ≠ 0)
    (hpos : pos ≤ (f.inodes n).size) (hfits : pos.toNat + count.toNat < 2 ^ 32)
    (hall : w.bytesWritten = count.toNat) :
    WriteDone f.fs (f.inodes n) pos.toNat count.toNat buf
      { w with fs := w.fs.syncInode w.inode } := by
  obtain ⟨kind, hplaced⟩ := h.placed
  obtain ⟨hsync, hbytes⟩ := hplaced.sync_inode hg hn hfile
  have hself : (w.files f n).inodes n = w.inode := Function.update_self ..
  have hfinal : ∀ i, (w.fs.syncInode w.inode).fileByte w.inode i = (w.files f n).byte n i := by
    intro i
    rw [← hbytes i, Files.byte, Files.setFs, hself]
    rfl
  constructor
  case blockSize => exact hplaced.sound.block_size hg
  case size =>
    have hchange := changes_file_size_iff hpos hfits
    have hsize := h.size
    have hposition := h.position
    rw [UInt32.le_iff_toNat_le] at hpos
    show w.inode.size.toNat = _
    split at hsize
    · next hgrows =>
        have hless := hchange.mp hgrows.1
        omega
    · next hstays =>
        have hle : ¬ ((f.inodes n).size.toNat < pos.toNat + count.toNat ∧ 0 < w.bytesWritten) :=
          fun hc => hstays ⟨hchange.mpr hc.1, hc.2⟩
        omega
  case position => exact h.position.trans (by rw [hall])
  case stored =>
    intro i hi
    exact (hfinal _).trans (h.written i (by rw [hall]; exact hi))
  case kept =>
    intro i b hout hclear hb
    rw [← hall] at hout hclear
    exact (hfinal _).trans (h.kept i b hout hclear hb)
  case cleared =>
    intro i hclear
    rw [← hall] at hclear
    exact (hfinal _).trans (h.cleared i hclear)

/-- The file that is left has all its bytes. -/
theorem WriteDone.there {s : Mounted} {inode : Inode} {pos count : Nat} {buf : Nat → UInt8}
    {w : WriteState} (h : WriteDone s inode pos count buf w) (hpos : pos ≤ inode.size.toNat)
    (hthere : ∀ i < inode.size.toNat, (s.fileByte inode i).isSome = true) :
    ∀ i < w.inode.size.toNat, (w.fs.fileByte w.inode i).isSome = true := by
  intro i hi
  have hsize := h.size
  by_cases hin : pos ≤ i ∧ i < pos + count
  · obtain ⟨j, rfl⟩ := Nat.exists_eq_add_of_le hin.1
    rw [h.stored j (by omega)]
    rfl
  · by_cases hclear : Cleared pos count i
    · rw [h.cleared i hclear]
      rfl
    · obtain ⟨b, hb⟩ := Option.isSome_iff_exists.mp (hthere i (by omega))
      rw [h.kept i b (by omega) hclear hb]
      rfl

/-- What the call leaves is what is asked for exactly if the bytes that it clears are zeros. -/
theorem WriteDone.content_iff {s : Mounted} {inode : Inode} {pos count : UInt32}
    {buf : Nat → UInt8} {w : WriteState}
    (h : WriteDone s inode pos.toNat count.toNat buf w) (hpos : pos ≤ inode.size)
    (hthere : ∀ i < inode.size.toNat, (s.fileByte inode i).isSome = true) :
    StoredContent s inode pos count buf w ↔ TailKept s inode pos count := by
  rw [UInt32.le_iff_toNat_le] at hpos
  have hblock : 0 < w.fs.sb.blockSize := by
    rw [h.blockSize]
    decide
  have hsize := h.size
  have hread := file_read_whole hblock (h.there hpos hthere)
  constructor
  · intro hcontent i hi hclear
    obtain ⟨r, result, hrun, -, -, hrest⟩ := hcontent.read (fun _ => 0) 0
    obtain ⟨r', _, hrun', -, hbyte⟩ := hread (fun _ => 0) 0
    rw [hrun] at hrun'
    obtain ⟨rfl, -⟩ := Prod.mk.inj (Option.some.inj hrun')
    rw [hrest i hi (.inr hclear.2.1), ← hbyte i (by omega), h.cleared i hclear]
  · intro htail
    refine ⟨hsize, h.position, fun dst sectorLba => ?_⟩
    obtain ⟨r, result, hrun, hlength, hbyte⟩ := hread dst sectorLba
    refine ⟨r, result, hrun, hlength, fun i hi => ?_, fun i hi hout => ?_⟩
    · have hsome := hbyte (pos.toNat + i) (by omega)
      rw [h.stored i hi] at hsome
      exact (Option.some.inj hsome).symm
    · rw [← hbyte i (by omega)]
      by_cases hclear : Cleared pos.toNat count.toNat i
      · rw [h.cleared i hclear, htail i hi hclear]
      · obtain ⟨b, hb⟩ := Option.isSome_iff_exists.mp (hthere i hi)
        rw [hb, h.kept i b hout hclear hb]

/-- A write has the content that is asked for exactly if its end is below `2 ^ 32` and the bytes
that it clears are zeros. The largest count is reported as an error. -/
theorem file_content_iff {n : Nat} {pos count : UInt32} (h : Placed g kind f)
    (hg : DriveGeometry g) (hn : n < g.inodeNr.toNat) (hfile : n ≠ 0)
    (hpos : pos ≤ (f.inodes n).size) (buf : Nat → UInt8) (sectorLba : Nat)
    (hthere : ∀ i < (f.inodes n).size.toNat, (f.fs.fileByte (f.inodes n) i).isSome = true)
    (hfree : ¬ LacksSectors f.fs (f.inodes n) pos count buf sectorLba) :
    ContentLaw f.fs (f.inodes n) pos count buf sectorLba ↔
      count = -1 ∨ pos.toNat + count.toNat < 2 ^ 32 ∧ TailKept f.fs (f.inodes n) pos count := by
  have hblock : 0 < f.fs.sb.blockSize := by
    rw [h.sound.block_size hg]
    decide
  have herror : toInt count.toNat = -1 ↔ count = -1 := to_int_minus_one count
  by_cases hlast : count = -1
  · obtain ⟨w, hcall⟩ := file_write_result f.fs (f.inodes n) pos count buf sectorLba hblock
    rw [herror.mpr hlast] at hcall
    exact iff_of_true ⟨w, -1, hcall, fun hne => absurd rfl hne⟩ (.inl hlast)
  by_cases hfits : pos.toNat + count.toNat < 2 ^ 32
  · obtain ⟨w, -, hcall, hall, hinv⟩ := file_write_spec h hg hn hfile hpos hfits buf sectorLba hfree
    have hcontent := (hinv.done hg hn hfile hpos hfits hall).content_iff hpos hthere
    constructor
    · rintro ⟨w', result, hcall', hlaw⟩
      rw [hcall] at hcall'
      obtain ⟨rfl, rfl⟩ := Prod.mk.inj (Option.some.inj hcall')
      exact .inr ⟨hfits, hcontent.mp (hlaw fun hneg => hlast (herror.mp hneg))⟩
    · intro hcond
      exact ⟨_, _, hcall, fun _ => hcontent.mpr (hcond.resolve_left hlast).2⟩
  · refine iff_of_false ?_ fun hcond => hfits (hcond.resolve_left hlast).1
    rintro ⟨w, result, hcall, hlaw⟩
    obtain ⟨w', hwrite⟩ := file_write_result f.fs (f.inodes n) pos count buf sectorLba hblock
    rw [hwrite] at hcall
    obtain ⟨rfl, rfl⟩ := Prod.mk.inj (Option.some.inj hcall)
    -- the size is a word
    have hsize := (hlaw fun hneg => hlast (herror.mp hneg)).size
    have hlt := w'.inode.size.toNat_lt
    omega

/-- A write of one byte needs one block. -/
theorem not_lacks_sectors_one {s : Mounted} {inode : Inode} {pos : UInt32} {buf : Nat → UInt8}
    {sectorLba : Nat} (hsize : s.sb.blockSize = 1024)
    (hfound : (s.getInodeData inode ((startPos inode pos).toNat / 1024)).2 ≠ none) :
    ¬ LacksSectors s inode pos 1 buf sectorLba := by
  rintro ⟨n, hmore, hnone⟩
  cases n with
  | zero =>
      refine hfound ?_
      rw [← hsize]
      exact hnone
  | succ n =>
      -- the first round has written the byte
      have hmono : ∀ w : WriteState, w.bytesWritten ≤ ((WriteState.round buf
          (changesFileSize inode pos 1))^[n] w).bytesWritten := by
        clear hmore hnone
        induction n with
        | zero => exact fun w => Nat.le_refl _
        | succ n ih =>
            intro w
            have hle : w.bytesWritten ≤ (w.round buf (changesFileSize inode pos 1)).bytesWritten :=
              Nat.le_add_right _ _
            exact hle.trans (ih _)
      have hfirst := hmono ((startWrite s inode pos 1 sectorLba).round buf
        (changesFileSize inode pos 1))
      have hone : ((startWrite s inode pos 1 sectorLba).round buf
          (changesFileSize inode pos 1)).bytesWritten = 1 := by
        have hoff := Nat.mod_lt (startPos inode pos).toNat (show 0 < 1024 by decide)
        show 0 + (if 1 < s.sb.blockSize - (startPos inode pos).toNat % s.sb.blockSize then 1
          else s.sb.blockSize - (startPos inode pos).toNat % s.sb.blockSize) = 1
        rw [hsize]
        split
        · rfl
        · omega
      have hmore : ((WriteState.round buf (changesFileSize inode pos 1))^[n]
        ((startWrite s inode pos 1 sectorLba).round buf
          (changesFileSize inode pos 1))).bytesWritten < 1 := hmore
      omega

/-- A byte is written to an empty file of a new disk. -/
theorem first_byte_stored : ∃ s, Formatted defaultDisk s ∧
    ContentLaw s (defaultInodes 1) 0 1 (fun _ => 7) 0 := by
  obtain ⟨s, hs, -⟩ := exists_formatted defaultDisk
  have hplaced : Placed defaultDisk (rootKind defaultDisk) ⟨s, defaultInodes⟩ :=
    hs.placed default_disk_geometry (by decide) ⟨fun _ _ => rfl, fun _ _ _ _ => rfl⟩ (by decide)
  have hsize : s.sb.blockSize = 1024 := hplaced.sound.block_size default_disk_geometry
  have hfree : ¬ LacksSectors s (defaultInodes 1) 0 1 (fun _ => 7) 0 :=
    not_lacks_sectors_one hsize (default_disk_first_block hs)
  have hthere : ∀ i < (defaultInodes 1).size.toNat,
      (s.fileByte (defaultInodes 1) i).isSome = true := fun i hi => absurd hi (Nat.not_lt_zero i)
  have htail : TailKept s (defaultInodes 1) 0 1 := fun i hi => absurd hi (Nat.not_lt_zero i)
  have hiff := file_content_iff hplaced default_disk_geometry (n := 1) (by decide)
    Nat.one_ne_zero (UInt32.le_refl 0) (fun _ => 7) 0 hthere hfree
  exact ⟨s, hs, hiff.mpr (.inr ⟨by decide, htail⟩)⟩

/-- A file of two blocks. -/
def twoBlockFile : Inode :=
  { shortFile with
    size := 2048
    blocks := fun i => if i = 0 then 100 else if i = 1 then 101 else 0 }

/-- Byte 1100 of the file is lost. -/
theorem tail_lost : ¬ ContentLaw numberedDisk twoBlockFile 0 1100 (fun _ => 1) 0 := by
  rintro ⟨w, result, hcall, hlaw⟩
  -- what the call returns, and the byte that is read afterwards
  have hrun : ((fileWrite numberedDisk twoBlockFile 0 1100 (fun _ => 1) 0 true).bind fun p =>
      (fileRead p.1.fs p.1.inode 0 p.1.inode.size (fun _ => 0) 0 true).map fun q =>
        (p.2, q.1.dst 1100)) = some (1100, 0) := by
    decide +kernel
  rw [hcall, Option.bind_some] at hrun
  obtain ⟨⟨r, last⟩, hread, hpair⟩ := Option.map_eq_some_iff.mp hrun
  obtain ⟨hresult, hlost⟩ := Prod.mk.inj hpair
  have hresult : result = 1100 := hresult
  have hlost : r.dst 1100 = 0 := hlost
  have hcontent := hlaw (by rw [hresult]; decide)
  obtain ⟨r', last', hread', -, -, hrest⟩ := hcontent.read (fun _ => 0) 0
  rw [hread] at hread'
  obtain ⟨rfl, -⟩ := Prod.mk.inj (Option.some.inj hread')
  have hbyte := hrest 1100 (by decide) (.inr (by decide))
  rw [hlost] at hbyte
  exact absurd hbyte (by decide)

end XBook.Bofs
