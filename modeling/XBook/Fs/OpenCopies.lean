import XBook.Fs.Descriptor
import XBook.Fs.WriteGrowth

/-!
# Open copies of an inode

`BOFS_OpenFile` of `fs/bofs/file.c` loads a copy of the inode for each descriptor. A write changes
the copy of its descriptor and stores it with `BOFS_SyncInode`; `BOFS_ChangeMode` changes the inode
on the disk and one copy. `copies_coherent` says what the calls can do through descriptors of one
file without losing anything. Calls are whole, with the buffers that they allocate.
-/

open XBook.Files (maxFdNr)

namespace XBook.Bofs

open Transition
open Mounted (pointerPath)

/-- An entry of `BOFS_GlobalFdTable` in which a file is open: the inode of its directory entry, the
copy of this inode, and the position. -/
structure OpenFile where
  node : Nat
  inode : Inode
  pos : UInt32

/-- The file system, and the entries that are in use. -/
structure OpenFiles where
  fs : Mounted
  fds : Fin maxFdNr → Option OpenFile

/-- A file as its users see it. -/
structure FileImage where
  size : Nat
  byte : Nat → UInt8
  mode : Nat

/-- The calls on a file: a write with what the stack has in `sectorLba`, a read with what it
reads. -/
inductive FileCall where
  | openFile (fd : Fin maxFdNr)
  | write (fd : Fin maxFdNr) (pos count : UInt32) (buf : Nat → UInt8) (sectorLba : Nat)
  | read (fd : Fin maxFdNr) (pos count : UInt32) (bytesRead : Nat) (dst : Nat → UInt8)
  | changeMode (mode : UInt8)

namespace OpenFiles

/-- `BOFS_OpenFile`, with the entry that `BOFS_AllocFdGlobal` gives. -/
def openFile (s : OpenFiles) (fd : Fin maxFdNr) (node : Nat) : OpenFiles :=
  { s with fds := Function.update s.fds fd (some ⟨node, s.fs.loadInodeByID node, 0⟩) }

/-- `BOFS_FileWrite` on a descriptor. -/
def write (s : OpenFiles) (fd : Fin maxFdNr) (file : OpenFile) (count : UInt32)
    (buf : Nat → UInt8) (sectorLba : Nat) : Option OpenFiles :=
  (fileWrite s.fs file.inode file.pos count buf sectorLba true).map fun result =>
    { fs := result.1.fs
      fds := Function.update s.fds fd
        (some { file with inode := result.1.inode, pos := UInt32.ofNat result.1.pos }) }

/-- `BOFS_FileRead` on a descriptor, with what it has read. -/
def read (s : OpenFiles) (fd : Fin maxFdNr) (file : OpenFile) (count : UInt32)
    (buf : Nat → UInt8) (sectorLba : Nat) : Option (OpenFiles × ReadState) :=
  (fileRead s.fs file.inode file.pos count buf sectorLba true).map fun result =>
    ({ fs := result.1.fs
       fds := Function.update s.fds fd
         (some { file with inode := result.1.inode, pos := UInt32.ofNat result.1.pos }) },
      result.1)

/-- The first entry in which the inode is open. -/
def firstOpen (s : OpenFiles) (node : Nat) : Option (Fin maxFdNr) :=
  (List.finRange maxFdNr).find? fun fd => (s.fds fd).any fun file => file.node == node

/-- `BOFS_ChangeMode` on a path to the inode. The loop over the entries ends at the first one. -/
def changeMode (s : OpenFiles) (node : Nat) (mode : UInt8) : OpenFiles :=
  { fs := s.fs.syncInode { s.fs.loadInodeByID node with mode := mode.toNat }
    fds := (s.firstOpen node).elim s.fds fun fd => Function.update s.fds fd
      ((s.fds fd).map fun file => { file with inode := { file.inode with mode := mode.toNat } }) }

/-- The inode on the disk. -/
def disk (s : OpenFiles) (n : Nat) : Inode := s.fs.loadInodeByID n

/-- The files with the inode that is on the disk, and those of the other files. -/
def files (s : OpenFiles) (others : Nat → Inode) (n : Nat) : Files :=
  ⟨s.fs, Function.update others n (s.disk n)⟩

/-- The block is in the block table that is on the disk. -/
def Holds (s : OpenFiles) (n b : Nat) : Prop := Files.Holds ⟨s.fs, s.fs.loadInodeByID⟩ n b

/-- The file that is on the disk. -/
def image (s : OpenFiles) (n : Nat) : FileImage where
  size := (s.disk n).size.toNat
  byte i := (s.fs.fileByte (s.disk n) i).getD 0
  mode := (s.disk n).mode

end OpenFiles

/-- What the calls on a file do to it. -/
inductive CallStep (n : Nat) : OpenFiles → FileCall → OpenFiles → Prop
  | openFile {s : OpenFiles} {fd : Fin maxFdNr} :
      s.fds fd = none → CallStep n s (.openFile fd) (s.openFile fd n)
  | write {s t : OpenFiles} {fd : Fin maxFdNr} {file : OpenFile} {count : UInt32}
      {buf : Nat → UInt8} {sectorLba : Nat} :
      s.fds fd = some file → file.node = n → s.write fd file count buf sectorLba = some t →
      CallStep n s (.write fd file.pos count buf sectorLba) t
  | read {s t : OpenFiles} {fd : Fin maxFdNr} {file : OpenFile} {count : UInt32}
      {buf : Nat → UInt8} {sectorLba : Nat} {r : ReadState} :
      s.fds fd = some file → file.node = n → s.read fd file count buf sectorLba = some (t, r) →
      CallStep n s (.read fd file.pos count r.bytesRead r.dst) t
  | changeMode {s : OpenFiles} {mode : UInt8} :
      CallStep n s (.changeMode mode) (s.changeMode n mode)

namespace FileImage

/-- The file after a call: a write puts its bytes at its position. -/
def after (m : FileImage) : FileCall → FileImage
  | .write _ pos count buf _ =>
      { m with
        size := max m.size (pos.toNat + count.toNat)
        byte := fun i => if pos.toNat ≤ i ∧ i < pos.toNat + count.toNat then buf (i - pos.toNat)
          else m.byte i }
  | .changeMode mode => { m with mode := mode.toNat }
  | _ => m

/-- A read reads what is asked for, up to the end of the file. -/
def Answers (m : FileImage) : FileCall → Prop
  | .read _ pos count bytesRead dst =>
      bytesRead = min count.toNat (m.size - pos.toNat) ∧
        ∀ i < bytesRead, dst i = m.byte (pos.toNat + i)
  | _ => True

end FileImage

/-- The file on the disk is the one that the calls make, its mode is that of all descriptors, and
the sectors that are marked are in its block table, or were marked at the start and not in it. -/
structure Coherent (g : Geometry) (n : Nat) (start s : OpenFiles) (m : FileImage) : Prop where
  size : (s.disk n).size.toNat = m.size
  bytes : ∀ i < m.size, s.fs.fileByte (s.disk n) i = some (m.byte i)
  mode : (s.disk n).mode = m.mode
  modes : ∀ fd file, s.fds fd = some file → file.node = n → file.inode.mode = m.mode
  sectors : ∀ i < sectorBits g, (s.fs.bitmap .sector).bit i = true →
    s.Holds n ((initSuperBlock g).idxToLba i) ∨
      (start.fs.bitmap .sector).bit i = true ∧ ¬ start.Holds n ((initSuperBlock g).idxToLba i)

/-- The file is on the disk with all its bytes, and the descriptors on it have its inode. -/
structure Opened (g : Geometry) (others : Nat → Inode) (n : Nat) (s : OpenFiles) : Prop where
  placed : ∃ kind, Placed g kind (s.files others n)
  node : n < g.inodeNr.toNat
  file : n ≠ 0
  there : ∀ i < (s.disk n).size.toNat, (s.fs.fileByte (s.disk n) i).isSome = true
  copies : ∀ fd file, s.fds fd = some file → file.node = n →
    file.inode = s.disk n ∧ file.pos ≤ (s.disk n).size

/-- The calls that lose nothing. A write is through a copy with the block table that is on the disk,
and with the size unless it reaches the end of the file. A read is through a copy with the size, or
it ends within the copy. The mode is one that all descriptors but the first have. -/
def Current (n : Nat) (s : OpenFiles) : FileCall → Prop
  | .openFile _ => True
  | .write fd pos count buf sectorLba => ∀ file, s.fds fd = some file →
      file.inode.blocks = (s.disk n).blocks ∧
      (file.inode.size = (s.disk n).size ∨ (s.disk n).size.toNat ≤ pos.toNat + count.toNat) ∧
      pos.toNat + count.toNat < 2 ^ 32 ∧ TailKept s.fs (s.disk n) pos count ∧
      ¬ LacksSectors s.fs file.inode pos count buf sectorLba
  | .read fd pos count _ _ => ∀ file, s.fds fd = some file →
      pos.toNat + count.toNat < 2 ^ 32 ∧
      (file.inode.size = (s.disk n).size ∨ pos.toNat + count.toNat ≤ file.inode.size.toNat)
  | .changeMode mode => ∀ fd file, s.fds fd = some file → file.node = n →
      s.firstOpen n = some fd ∨ file.inode.mode = mode.toNat

variable {g : Geometry} {kind : Nat → Option Nat} {others : Nat → Inode} {n : Nat}
  {start s t : OpenFiles} {m : FileImage}

/-! ## Copies -/

theorem OpenFiles.holds_iff (s : OpenFiles) (others : Nat → Inode) (n b : Nat) :
    (s.files others n).Holds n b ↔ s.Holds n b := by
  simp only [Files.Holds, OpenFiles.Holds, OpenFiles.files, Function.update_self]
  exact Iff.rfl

/-- The pointers of an inode say which bytes it has. -/
theorem file_byte_congr {s : Mounted} {inode inode' : Inode} {i : Nat}
    (h : inode'.blocks (pointerPath (i / s.sb.blockSize)).1 =
      inode.blocks (pointerPath (i / s.sb.blockSize)).1) :
    s.fileByte inode' i = s.fileByte inode i := by
  simp only [Mounted.fileByte, Mounted.dataBlock, h]

theorem pointer_of_byte {s : Mounted} {inode : Inode} {i : Nat} {b : UInt8}
    (h : s.fileByte inode i = some b) :
    inode.blocks (pointerPath (i / s.sb.blockSize)).1 ≠ 0 := by
  intro hzero
  rw [Mounted.fileByte, data_block_zero s hzero] at h
  cases h

/-- Inodes with the same pointers. -/
theorem same_pointers_of_inode (g : Geometry) (kind : Nat → Option Nat) (fs : Mounted)
    (others : Nat → Inode) (n : Nat) {inode inode' : Inode} (hid : inode'.id = inode.id)
    (hblocks : inode'.blocks = inode.blocks) : SamePointers g kind
      ⟨fs, Function.update others n inode⟩ ⟨fs, Function.update others n inode'⟩ := by
  refine ⟨rfl, rfl, fun k => ?_, fun k => ?_, fun _ _ _ _ _ => rfl⟩
  · simp only [Function.update_apply]
    split
    · exact hid
    · rfl
  · simp only [Function.update_apply]
    split
    · exact hblocks
    · rfl

/-- The copy has pointers and bytes of the inode on the disk, as far as it goes. -/
structure CopyOf (n : Nat) (disk : Inode) (file : OpenFile) : Prop where
  fits : file.inode.Fits
  id : file.inode.id = n
  mode : file.inode.mode = disk.mode
  size : file.inode.size.toNat ≤ disk.size.toNat
  pos : file.pos ≤ file.inode.size
  blocks : ∀ i, file.inode.blocks i ≠ 0 → file.inode.blocks i = disk.blocks i
  there : ∀ i < file.inode.size.toNat, file.inode.blocks (pointerPath (i / 1024)).1 ≠ 0

theorem CopyOf.file_byte {disk : Inode} {file : OpenFile} (h : CopyOf n disk file) {fs : Mounted}
    (hsize : fs.sb.blockSize = 1024) {i : Nat} (hi : i < file.inode.size.toNat) :
    fs.fileByte file.inode i = fs.fileByte disk i := by
  refine file_byte_congr ?_
  rw [hsize]
  exact h.blocks _ (h.there i hi)

/-- What the calls keep. -/
structure CopyInv (g : Geometry) (others : Nat → Inode) (n : Nat) (start s : OpenFiles)
    (m : FileImage) : Prop where
  placed : ∃ kind, Placed g kind (s.files others n)
  grown : Grown g n (start.files others n) (s.files others n)
  copies : ∀ fd file, s.fds fd = some file → file.node = n → CopyOf n (s.disk n) file
  size : (s.disk n).size.toNat = m.size
  bytes : ∀ i < m.size, s.fs.fileByte (s.disk n) i = some (m.byte i)
  mode : (s.disk n).mode = m.mode

theorem CopyInv.coherent (h : CopyInv g others n start s m) : Coherent g n start s m := by
  refine ⟨h.size, h.bytes, h.mode, fun fd file hfd hnode => ?_, fun i hi hset => ?_⟩
  · rw [(h.copies fd file hfd hnode).mode, h.mode]
  · by_cases hheld : start.Holds n ((initSuperBlock g).idxToLba i)
    · rw [← start.holds_iff others] at hheld
      exact .inl ((s.holds_iff others n _).mp (h.grown.kept _ hheld))
    · rcases h.grown.marked i hi hset with hold | hnew
      · exact .inr ⟨hold, hheld⟩
      · exact .inl ((s.holds_iff others n _).mp hnew)

theorem CopyInv.block_size (h : CopyInv g others n start s m) (hg : DriveGeometry g) :
    s.fs.sb.blockSize = 1024 := by
  obtain ⟨kind, hplaced⟩ := h.placed
  exact hplaced.sound.block_size hg

theorem CopyInv.disk_id (h : CopyInv g others n start s m) (hn : n < g.inodeNr.toNat) :
    (s.disk n).id = n := by
  obtain ⟨kind, hplaced⟩ := h.placed
  have hid := hplaced.sound.ids n hn
  simp only [OpenFiles.files, Function.update_self] at hid
  exact hid

/-- The inode on the disk is a copy of itself. -/
theorem copy_of_disk {fs : Mounted} {disk : Inode} {size : Nat} {byte : Nat → UInt8}
    (hblock : fs.sb.blockSize = 1024) (hfits : disk.Fits) (hid : disk.id = n)
    (hsize : disk.size.toNat = size) (hbytes : ∀ i < size, fs.fileByte disk i = some (byte i))
    {file : OpenFile} (hinode : file.inode = disk) (hpos : file.pos ≤ disk.size) :
    CopyOf n disk file := by
  subst hinode
  refine ⟨hfits, hid, rfl, Nat.le_refl _, hpos, fun _ _ => rfl, fun i hi => ?_⟩
  have hpointer := pointer_of_byte (hbytes i (hsize ▸ hi))
  rwa [hblock] at hpointer

/-! ## The calls -/

/-- The descriptors behind a call on one of them. -/
theorem copies_update {fds : Fin maxFdNr → Option OpenFile} {disk : Inode} {fd : Fin maxFdNr}
    {file : OpenFile} (hfile : CopyOf n disk file)
    (hothers : ∀ fd' file', fd' ≠ fd → fds fd' = some file' → file'.node = n →
      CopyOf n disk file') :
    ∀ fd' file', Function.update fds fd (some file) fd' = some file' → file'.node = n →
      CopyOf n disk file' := by
  intro fd' file' hfd hnode
  rw [Function.update_apply] at hfd
  split at hfd
  · cases hfd
    exact hfile
  · next hne => exact hothers fd' file' hne hfd hnode

/-- A descriptor gets another copy. -/
theorem CopyInv.set_fd (h : CopyInv g others n start s m) (fd : Fin maxFdNr) {file : OpenFile}
    (hfile : CopyOf n (s.disk n) file) :
    CopyInv g others n start ⟨s.fs, Function.update s.fds fd (some file)⟩ m :=
  ⟨h.placed, h.grown,
    copies_update hfile fun fd' file' _ hfd hnode => h.copies fd' file' hfd hnode,
    h.size, h.bytes, h.mode⟩

theorem CopyInv.open_file (h : CopyInv g others n start s m) (hg : DriveGeometry g)
    (hn : n < g.inodeNr.toNat) (fd : Fin maxFdNr) :
    CopyInv g others n start (s.openFile fd n) m := by
  refine h.set_fd fd ?_
  exact copy_of_disk (h.block_size hg) (load_inode_fits s.fs n) (h.disk_id hn) h.size h.bytes rfl
    UInt32.zero_le

theorem CopyInv.read (h : CopyInv g others n start s m) (hg : DriveGeometry g) {fd : Fin maxFdNr}
    {file : OpenFile} {count : UInt32} {buf : Nat → UInt8} {sectorLba : Nat} {r : ReadState}
    (hfd : s.fds fd = some file) (hnode : file.node = n)
    (hread : s.read fd file count buf sectorLba = some (t, r))
    (hfits : file.pos.toNat + count.toNat < 2 ^ 32)
    (hend : file.inode.size = (s.disk n).size ∨
      file.pos.toNat + count.toNat ≤ file.inode.size.toNat) :
    CopyInv g others n start t m ∧ m.Answers (.read fd file.pos count r.bytesRead r.dst) := by
  have hcopy := h.copies fd file hfd hnode
  have hblock := h.block_size hg
  have hpos := UInt32.le_iff_toNat_le.mp hcopy.pos
  have hsize := h.size
  have hshorter := hcopy.size
  have hwanted : bytesWanted file.inode file.pos count =
    min count.toNat (file.inode.size.toNat - file.pos.toNat) := rfl
  have hbyte : ∀ i < file.inode.size.toNat,
      s.fs.fileByte file.inode i = some (m.byte i) := fun i hi => by
    rw [hcopy.file_byte hblock hi]
    exact h.bytes i (by omega)
  obtain ⟨r', result, hcall, hbytes, hinv⟩ := file_read_part (by rw [hblock]; decide) hcopy.pos
    hfits (fun i hi => by rw [hbyte _ (by omega)]; rfl) buf sectorLba
  rw [OpenFiles.read, hcall, Option.map_some] at hread
  obtain ⟨ht, hr⟩ := Prod.mk.inj (Option.some.inj hread)
  obtain rfl : r' = r := hr
  obtain ⟨hfs, hinode⟩ := hinv.file
  constructor
  · have hposition : (UInt32.ofNat r'.pos).toNat = file.pos.toNat + r'.bytesRead := by
      have hlt := file.inode.size.toNat_lt
      rw [hinv.position]
      exact UInt32.toNat_ofNat_of_lt' (by rw [UInt32.size]; omega)
    rw [← ht]
    show CopyInv g others n start
      ⟨r'.fs, Function.update s.fds fd (some ⟨file.node, r'.inode, UInt32.ofNat r'.pos⟩)⟩ m
    rw [hfs, hinode]
    refine h.set_fd fd ⟨hcopy.fits, hcopy.id, hcopy.mode, hcopy.size, ?_, hcopy.blocks, hcopy.there⟩
    rw [UInt32.le_iff_toNat_le, hposition]
    show _ ≤ file.inode.size.toNat
    omega
  · refine ⟨?_, fun i hi => ?_⟩
    · rcases hend with hend | hend
      · rw [hbytes, hwanted, hend, hsize]
      · omega
    · have hthere := hinv.content i hi
      rw [hbyte _ (by omega)] at hthere
      exact (Option.some.inj hthere).symm

theorem Inode.Fits.set_mode {inode : Inode} (h : inode.Fits) (mode : UInt8) :
    ({ inode with mode := mode.toNat } : Inode).Fits := by
  have hmode : mode.toNat < 2 ^ 16 := mode.toNat_lt.trans (by decide)
  exact ⟨h.devno, h.id, hmode, h.links, h.crttime, h.mdftime, h.acstime, h.flags, h.blocks,
    h.beyond⟩

/-- Another inode on the disk that has the pointers, and is not shorter. -/
theorem CopyOf.later {disk disk' : Inode} {file : OpenFile} (h : CopyOf n disk file)
    (hmode : file.inode.mode = disk'.mode) (hsize : disk.size.toNat ≤ disk'.size.toNat)
    (hblocks : ∀ i, disk.blocks i ≠ 0 → disk'.blocks i = disk.blocks i) : CopyOf n disk' file := by
  refine ⟨h.fits, h.id, hmode, h.size.trans hsize, h.pos, fun i hi => ?_, h.there⟩
  have heq := h.blocks i hi
  rw [hblocks i (by rwa [← heq]), heq]

/-- The descriptors behind a change of the mode. -/
theorem OpenFiles.change_mode_copies {s : OpenFiles} {mode : UInt8}
    (hcopies : ∀ fd file, s.fds fd = some file → file.node = n → CopyOf n (s.disk n) file)
    (hothers : ∀ fd file, s.fds fd = some file → file.node = n →
      s.firstOpen n = some fd ∨ file.inode.mode = mode.toNat) (fd : Fin maxFdNr) (file : OpenFile)
    (hfd : (s.changeMode n mode).fds fd = some file) (hnode : file.node = n) :
    CopyOf n { s.disk n with mode := mode.toNat } file := by
  have hkeeps : ∀ file', s.fds fd = some file' → file'.node = n → s.firstOpen n ≠ some fd →
      CopyOf n { s.disk n with mode := mode.toNat } file' := by
    intro file' hfd' hnode' hne
    have hmode := (hothers fd file' hfd' hnode').resolve_left hne
    exact (hcopies fd file' hfd' hnode').later hmode (Nat.le_refl _) fun _ _ => rfl
  cases hfirst : s.firstOpen n with
  | none =>
      rw [OpenFiles.changeMode, hfirst] at hfd
      exact hkeeps file hfd hnode (by rw [hfirst]; exact (Option.some_ne_none fd).symm)
  | some first =>
      rw [OpenFiles.changeMode, hfirst] at hfd
      simp only [Option.elim_some, Function.update_apply] at hfd
      split at hfd
      · -- the entry that the loop changes
        obtain ⟨file', hfd', rfl⟩ := Option.map_eq_some_iff.mp hfd
        have hcopy := hcopies first file' hfd' hnode
        exact ⟨hcopy.fits.set_mode mode, hcopy.id, rfl, hcopy.size, hcopy.pos, hcopy.blocks,
          hcopy.there⟩
      · next hne =>
          refine hkeeps file hfd hnode fun heq => hne ?_
          rw [hfirst] at heq
          exact (Option.some.inj heq).symm

theorem CopyInv.change_mode (h : CopyInv g others n start s m) (hg : DriveGeometry g)
    (hn : n < g.inodeNr.toNat) (hfile : n ≠ 0) {mode : UInt8}
    (hothers : ∀ fd file, s.fds fd = some file → file.node = n →
      s.firstOpen n = some fd ∨ file.inode.mode = mode.toNat) :
    CopyInv g others n start (s.changeMode n mode) (m.after (.changeMode mode)) := by
  obtain ⟨kind, hplaced⟩ := h.placed
  have hid : (s.disk n).id = n := h.disk_id hn
  set inode : Inode := { s.disk n with mode := mode.toNat } with hinode
  set f : Files := ⟨s.fs, Function.update others n inode⟩ with hf
  have hper : s.fs.sb.inodeNrInSector = 8 := by
    rw [show s.fs.sb = initSuperBlock g from hplaced.sound.sb, hg.inode_nr_in_sector]
  have hload : (s.fs.syncInode inode).loadInodeByID inode.id = inode :=
    load_sync_inode hper ((load_inode_fits s.fs n).set_mode mode)
  rw [show inode.id = n from hid] at hload
  have hself : f.inodes n = inode := Function.update_self ..
  have hsame : SamePointers g kind (s.files others n) f :=
    same_pointers_of_inode g kind s.fs others n rfl rfl
  have hmid := hsame.placed hplaced
  have hsync : SamePointers g kind f (f.setFs (s.fs.syncInode inode)) :=
    hmid.sync_same hg (show inode.id < g.inodeNr.toNat from hid.symm ▸ hn)
  have hfiles : (s.changeMode n mode).files others n = f.setFs (s.fs.syncInode inode) :=
    congrArg (fun disk => Files.mk (s.fs.syncInode inode) (Function.update others n disk)) hload
  have hdisk : (s.changeMode n mode).disk n = inode := hload
  have hbytes := (hmid.sync_inode hg hn hfile).2
  rw [hself] at hbytes
  constructor
  case placed =>
    rw [hfiles]
    exact ⟨kind, hsync.placed hmid⟩
  case grown =>
    rw [hfiles]
    exact h.grown.trans ((hsame.grown hplaced hn).trans (hsync.grown hmid hn))
  case copies =>
    rw [hdisk]
    exact OpenFiles.change_mode_copies h.copies hothers
  case size =>
    rw [hdisk]
    exact h.size
  case bytes =>
    intro i hi
    have hbyte := hbytes i
    rw [Files.byte, Files.byte, hself, show (f.setFs (s.fs.syncInode inode)).inodes n = inode
      from hself] at hbyte
    rw [hdisk]
    exact hbyte.trans (h.bytes i hi)
  case mode =>
    rw [hdisk]
    rfl

theorem CopyInv.write (h : CopyInv g others n start s m) (hg : DriveGeometry g)
    (hn : n < g.inodeNr.toNat) (hne : n ≠ 0) {fd : Fin maxFdNr} {file : OpenFile} {count : UInt32}
    {buf : Nat → UInt8} {sectorLba : Nat} (hfd : s.fds fd = some file) (hnode : file.node = n)
    (hwrite : s.write fd file count buf sectorLba = some t)
    (hcurrent : Current n s (.write fd file.pos count buf sectorLba)) :
    CopyInv g others n start t (m.after (.write fd file.pos count buf sectorLba)) := by
  obtain ⟨hblocks, hreach, hfits, htail, hfree⟩ := hcurrent file hfd
  obtain ⟨kind, hplaced⟩ := h.placed
  have hblock := h.block_size hg
  have hcopy := h.copies fd file hfd hnode
  set f : Files := ⟨s.fs, Function.update others n file.inode⟩ with hf
  have hself : f.inodes n = file.inode := Function.update_self ..
  have hsame : SamePointers g kind (s.files others n) f :=
    same_pointers_of_inode g kind s.fs others n (hcopy.id.trans (h.disk_id hn).symm) hblocks
  obtain ⟨w, hcall, hleaves⟩ := file_write_leaves (hsame.placed hplaced) hg hn hne
    (by rw [hself]; exact hcopy.fits) (by rw [hself]; exact hcopy.pos) hfits buf sectorLba
    (by rw [hself]; exact hfree)
  obtain ⟨hnext, hgrown, hkept, hloaded, hdone⟩ := hleaves
  rw [hself] at hcall hkept hdone
  rw [OpenFiles.write, hcall, Option.map_some] at hwrite
  obtain rfl := Option.some.inj hwrite
  have hfiles : OpenFiles.files ⟨w.fs, Function.update s.fds fd
      (some ⟨file.node, w.inode, UInt32.ofNat w.pos⟩)⟩ others n = w.files f n := by
    simp only [OpenFiles.files, OpenFiles.disk, hloaded, WriteState.files, Files.store, hf,
      Function.update_idem]
  have hlonger : (s.disk n).size.toNat ≤ w.inode.size.toNat := by
    have hsize := hdone.size
    rcases hreach with heq | hle
    · rw [heq] at hsize
      omega
    · omega
  have hbyte : ∀ i, s.fs.fileByte file.inode i = s.fs.fileByte (s.disk n) i :=
    fun i => file_byte_congr (by rw [hblocks])
  have hdisk : OpenFiles.disk ⟨w.fs, Function.update s.fds fd
      (some ⟨file.node, w.inode, UInt32.ofNat w.pos⟩)⟩ n = w.inode := hloaded
  have hsize := h.size
  have hshorter := hcopy.size
  have hstart := UInt32.le_iff_toNat_le.mp hcopy.pos
  have hwritten := hdone.size
  have hposition := hdone.position
  have hbytes : ∀ i < max m.size (file.pos.toNat + count.toNat), w.fs.fileByte w.inode i =
      some (if file.pos.toNat ≤ i ∧ i < file.pos.toNat + count.toNat then
        buf (i - file.pos.toNat) else m.byte i) := by
    intro i hi
    split
    · next hin =>
        obtain ⟨k, rfl⟩ := Nat.exists_eq_add_of_le hin.1
        rw [Nat.add_sub_cancel_left]
        exact hdone.stored k (by omega)
    · next hout =>
        have hold := h.bytes i (by omega)
        by_cases hclear : Cleared file.pos.toNat count.toNat i
        · have hzero := htail i (by omega) hclear
          rw [hold] at hzero
          rw [hdone.cleared i hclear, Option.some.inj hzero]
        · exact hdone.kept i _ (by omega) hclear ((hbyte i).trans hold)
  have hnewSize : w.inode.size.toNat = max m.size (file.pos.toNat + count.toNat) := by
    rcases hreach with heq | hle
    · rw [hwritten, heq, hsize]
    · omega
  constructor
  case placed =>
    obtain ⟨kind', hplaced'⟩ := hnext
    rw [hfiles]
    exact ⟨kind', hplaced'⟩
  case grown =>
    rw [hfiles]
    exact h.grown.trans ((hsame.grown hplaced hn).trans hgrown)
  case size =>
    rw [hdisk]
    exact hnewSize
  case bytes =>
    rw [hdisk]
    exact hbytes
  case mode =>
    rw [hdisk, hkept.mode, hcopy.mode, h.mode]
    rfl
  case copies =>
    rw [hdisk]
    refine copies_update ?_ fun fd' file' _ hfd' hnode' => ?_
    · refine copy_of_disk (hdone.blockSize) (hkept.fits hcopy.fits) (hkept.id.trans hcopy.id)
        hnewSize hbytes rfl ?_
      have hpos : (UInt32.ofNat w.pos).toNat = w.pos :=
        UInt32.toNat_ofNat_of_lt' (by rw [UInt32.size]; omega)
      rw [UInt32.le_iff_toNat_le, hpos]
      omega
    · -- the other copies have the mode and pointers that the writer's copy had
      have hother := h.copies fd' file' hfd' hnode'
      refine hother.later ?_ hlonger fun i hi => ?_
      · rw [hother.mode, hkept.mode, hcopy.mode]
      · rw [← hblocks] at hi ⊢
        exact hkept.blocks i hi

theorem CopyInv.step {call : FileCall} (h : CopyInv g others n start s m) (hg : DriveGeometry g)
    (hn : n < g.inodeNr.toNat) (hfile : n ≠ 0) (hcurrent : Current n s call)
    (hstep : CallStep n s call t) : CopyInv g others n start t (m.after call) ∧ m.Answers call := by
  cases hstep with
  | openFile hfree => exact ⟨h.open_file hg hn _, trivial⟩
  | write hfd hnode hwrite => exact ⟨h.write hg hn hfile hfd hnode hwrite hcurrent, trivial⟩
  | read hfd hnode hread =>
      obtain ⟨hfits, hend⟩ := hcurrent _ hfd
      exact h.read hg hfd hnode hread hfits hend
  | changeMode => exact ⟨h.change_mode hg hn hfile hcurrent, trivial⟩

/-! ## Runs -/

theorem Opened.copy_inv (h : Opened g others n s) (hg : DriveGeometry g) :
    CopyInv g others n s s (s.image n) := by
  obtain ⟨kind, hplaced⟩ := h.placed
  have hbytes : ∀ i < (s.disk n).size.toNat,
      s.fs.fileByte (s.disk n) i = some ((s.image n).byte i) := by
    intro i hi
    obtain ⟨b, hb⟩ := Option.isSome_iff_exists.mp (h.there i hi)
    have hread : (s.image n).byte i = b := congrArg (fun byte => byte.getD 0) hb
    rw [hb, hread]
  have hid := hplaced.sound.ids n h.node
  simp only [OpenFiles.files, Function.update_self] at hid
  refine ⟨h.placed, .refl g n _, fun fd file hfd hnode => ?_, rfl, hbytes, rfl⟩
  obtain ⟨hinode, hpos⟩ := h.copies fd file hfd hnode
  exact copy_of_disk (hplaced.sound.block_size hg) (load_inode_fits s.fs n) hid rfl hbytes hinode
    hpos

theorem CopyInv.run {calls : List FileCall} (h : CopyInv g others n start s m)
    (hg : DriveGeometry g) (hn : n < g.inodeNr.toNat) (hfile : n ≠ 0)
    (hrun : Run (CallStep n) (Current n) s calls t) :
    CopyInv g others n start t (calls.foldl FileImage.after m) ∧
      ∀ front call back, calls = front ++ call :: back →
        (front.foldl FileImage.after m).Answers call := by
  induction hrun generalizing m with
  | nil =>
      refine ⟨h, fun front call back heq => ?_⟩
      exact absurd heq (List.append_ne_nil_of_right_ne_nil front (List.cons_ne_nil _ _)).symm
  | cons hcurrent hstep _ ih =>
      obtain ⟨hnext, hanswer⟩ := h.step hg hn hfile hcurrent hstep
      obtain ⟨hlast, hrest⟩ := ih hnext
      refine ⟨hlast, fun front call back heq => ?_⟩
      cases front with
      | nil =>
          cases heq
          exact hanswer
      | cons first front =>
          obtain ⟨rfl, htail⟩ := List.cons.inj heq
          exact hrest front call back htail

/-- A new disk on which inode 1 has no bytes, with what is open. -/
def newDisk (s : Mounted) (fds : Fin maxFdNr → Option OpenFile) : OpenFiles :=
  ⟨s.syncInode (defaultInodes 1), fds⟩

theorem default_inode_fits : (defaultInodes 1).Fits :=
  ⟨by decide, by decide, by decide, by decide, by decide, by decide, by decide, by decide,
    fun _ _ => Nat.two_pow_pos 32, fun _ _ => rfl⟩

theorem new_disk_loads {s : Mounted} (hs : Formatted defaultDisk s)
    (fds : Fin maxFdNr → Option OpenFile) : (newDisk s fds).disk 1 = defaultInodes 1 := by
  have hper : s.sb.inodeNrInSector = 8 := by
    rw [hs.sb, default_disk_geometry.inode_nr_in_sector]
  exact load_sync_inode hper default_inode_fits

theorem new_disk_opened {s : Mounted} (hs : Formatted defaultDisk s) :
    Opened defaultDisk defaultInodes 1 (newDisk s fun _ => none) := by
  have hdisk := new_disk_loads hs fun _ => none
  have hplaced : Placed defaultDisk (rootKind defaultDisk) ⟨s, defaultInodes⟩ :=
    hs.placed default_disk_geometry (by decide) ⟨fun _ _ => rfl, fun _ _ _ _ => rfl⟩ (by decide)
  have hnode : 1 < defaultDisk.inodeNr.toNat := by decide
  have hsync := (hplaced.sync_inode default_disk_geometry hnode Nat.one_ne_zero).1
  refine ⟨⟨rootKind defaultDisk, ?_⟩, hnode, Nat.one_ne_zero, fun i hi => ?_, fun fd file hfd => ?_⟩
  · rw [OpenFiles.files, hdisk, Function.update_eq_self]
    exact hsync
  · rw [hdisk] at hi
    exact absurd hi (Nat.not_lt_zero i)
  · cases hfd

/-- With a sector to spare an empty file gets its first block. -/
theorem Mounted.Spare.first_block {s : Mounted} {k : Nat} (h : s.Spare k) :
    (s.getInodeData (defaultInodes 1) 0).2 ≠ none := by
  show (s.pointerInInode (defaultInodes 1) 0).2 ≠ none
  rcases alloc_one_sector_spec h.bytes with ⟨i, t, hsome, -⟩ | ⟨-, hfull⟩
  · rw [Mounted.pointerInInode, hsome]
    exact Option.some_ne_none _
  · exact absurd hfull h.not_full

end XBook.Bofs
