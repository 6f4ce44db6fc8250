import XBook.Fs.DirEntry
import XBook.Fs.ReleaseKeeps

/-!
# The files of a disk

Inodes are created and released, files are written and read, and directories change, in any order
and for any inodes of one file system. `FileMap` says what the files are for: each has bytes, which
a write changes and a read gives. Read `StoreStep` and `MapStep` first, which say the two; the rest
says what each call leaves of the other files.
-/

namespace XBook.Bofs

open Transition Fifos Dirs

/-- The file system, with the inodes in memory, each of which is there once, and the type that the
directory entry of an inode has, with `none` for an inode that is free. -/
structure FileStore where
  fs : Mounted
  inodes : Nat → Inode
  type : Nat → Option UInt16

/-- The pointers of the inode are those of blocks. -/
abbrev HasData (type : Option UInt16) : Prop := type = some typeNormal ∨ type = some typeDirectory

/-- The inodes with the pointers that are those of blocks. -/
def FileStore.files (s : FileStore) : Files where
  fs := s.fs
  inodes n := if HasData (s.type n) then s.inodes n else { s.inodes n with blocks := fun _ => 0 }

/-- A call, with what it gives. -/
inductive StoreCall where
  | create (n : Nat) (type : UInt16) (inode : Inode)
  | write (n : Nat) (pos count : UInt32) (buf : Nat → UInt8) (sectorLba : Nat)
  | read (n : Nat) (pos count : UInt32) (buf : Nat → UInt8) (sectorLba : Nat) (r : ReadState)
  | lookup (n index : Nat)
  | entries (n index : Nat) (buffer : Nat → UInt8)
  | sync (n : Nat) (inode : Inode)
  | release (n : Nat)

namespace FileStore

/-- The state with another inode. -/
def set (s : FileStore) (fs : Mounted) (n : Nat) (inode : Inode) : FileStore :=
  { s with fs, inodes := Function.update s.inodes n inode }

/-- A new inode, with what `BOFS_CreateFile` and its siblings store for it. -/
def make (s : FileStore) (fs : Mounted) (n : Nat) (type : UInt16) (inode : Inode) : FileStore where
  fs := (fs.syncBitmap .inode n).syncInode inode
  inodes := Function.update s.inodes n inode
  type := Function.update s.type n (some type)

/-- The end of `BOFS_ReleaseDirEntry`, which frees the inode. -/
def free (s : FileStore) (fs : Mounted) (n : Nat) : FileStore :=
  { s with fs := fs.syncBitmap .inode n, type := Function.update s.type n none }

end FileStore

/-- One call. `create` is the part of `BOFS_CreateFile` and its siblings that makes the inode;
`lookup` and `entries` are what the scans of a directory and `BOFS_SyncDirEntry` do with its
blocks, and `sync` what `BOFS_SyncInode` stores besides; `release` is `BOFS_ReleaseDirEntry`. -/
inductive StoreStep : FileStore → StoreCall → FileStore → Prop
  | create {s : FileStore} {fs : Mounted} {n : Nat} {type : UInt16} {inode : Inode}
      (halloc : s.fs.allocBitmap .inode 1 = some (fs, n)) (hid : inode.id = n)
      (hblocks : HasData (some type) → ∀ i, inode.blocks i = 0)
      (hsize : type = typeNormal → inode.size = 0) :
      StoreStep s (.create n type inode) (s.make fs n type inode)
  | write {s : FileStore} {n : Nat} {pos count : UInt32} {buf : Nat → UInt8} {sectorLba : Nat}
      {w : WriteState} {result : Int} (htype : s.type n = some typeNormal)
      (hwrite : fileWrite s.fs (s.inodes n) pos count buf sectorLba true = some (w, result)) :
      StoreStep s (.write n pos count buf sectorLba) (s.set w.fs n w.inode)
  | read {s : FileStore} {n : Nat} {pos count : UInt32} {buf : Nat → UInt8} {sectorLba : Nat}
      {r : ReadState} {result : Int} (htype : s.type n = some typeNormal)
      (hread : fileRead s.fs (s.inodes n) pos count buf sectorLba true = some (r, result)) :
      StoreStep s (.read n pos count buf sectorLba r) (s.set r.fs n r.inode)
  | lookup {s : FileStore} {n index : Nat} {state : Mounted × Inode} {block : Option Nat}
      (htype : s.type n = some typeDirectory)
      (hget : s.fs.getInodeData (s.inodes n) index = (state, block)) :
      StoreStep s (.lookup n index) (s.set state.1 n state.2)
  | entries {s : FileStore} {n index lba : Nat} {buffer : Nat → UInt8} {state : Mounted × Inode}
      (htype : s.type n = some typeDirectory)
      (hget : s.fs.getInodeData (s.inodes n) index = (state, some lba)) :
      StoreStep s (.entries n index buffer)
        (s.set { state.1 with blocks := blockWrite state.1.blocks lba buffer } n state.2)
  | sync {s : FileStore} {n : Nat} {inode : Inode} (hid : inode.id = n) (htype : s.type n ≠ none)
      (hblocks : HasData (s.type n) → inode.blocks = (s.inodes n).blocks)
      (hsize : s.type n = some typeNormal → inode.size = (s.inodes n).size) :
      StoreStep s (.sync n inode) (s.set (s.fs.syncInode inode) n inode)
  | remove {s : FileStore} {n : Nat} {state : Mounted × Inode} {fs : Mounted}
      (htype : s.type n = some typeNormal)
      (hrelease : s.fs.releaseInodeData (s.inodes n) = some state)
      (hfree : state.1.freeBitmap .inode n = some fs) :
      StoreStep s (.release n) ((s.set state.1 n state.2).free fs n)
  | removeOther {s : FileStore} {n : Nat} {type : UInt16} {fs : Mounted}
      (htype : s.type n = some type) (hother : type ≠ typeNormal)
      (hfree : s.fs.freeBitmap .inode n = some fs) : StoreStep s (.release n) (s.free fs n)

/-- A write ends below `2 ^ 32` and finds its sectors, a read starts in the file, and the root
directory is not removed. -/
def StoreGuard (s : FileStore) : StoreCall → Prop
  | .write n pos count buf sectorLba => pos.toNat + count.toNat < 2 ^ 32 ∧
      ¬LacksSectors s.fs (s.inodes n) pos count buf sectorLba
  | .read n pos count _ _ _ => pos ≤ (s.inodes n).size ∧ pos.toNat + count.toNat < 2 ^ 32
  | .release n => n ≠ 0
  | _ => True

/-! ## What the files are for -/

/-- What is in a file. -/
structure Content where
  size : Nat
  byte : Nat → UInt8

/-- The files with their bytes. -/
abbrev FileMap := Nat → Option Content

/-- A write starts at the end of the file if it is behind it. The rest of the block in which it
ends, if it did not begin there, is cleared. -/
def Content.write (c : Content) (pos count : Nat) (buf : Nat → UInt8) : Content where
  size := max c.size (min pos c.size + count)
  byte i :=
    if min pos c.size ≤ i ∧ i < min pos c.size + count then buf (i - min pos c.size)
    else if (min pos c.size / 1024 ≠ (min pos c.size + count - 1) / 1024 ∧
        min pos c.size + count ≤ i ∧ i / 1024 = (min pos c.size + count - 1) / 1024) then 0
    else c.byte i

/-- The calls on the map. -/
inductive MapStep : FileMap → StoreCall → FileMap → Prop
  | create {m : FileMap} {n : Nat} {inode : Inode} (hnew : m n = none) (byte : Nat → UInt8) :
      MapStep m (.create n typeNormal inode) (Function.update m n (some ⟨0, byte⟩))
  | createOther {m : FileMap} {n : Nat} {type : UInt16} {inode : Inode} (hnew : m n = none)
      (htype : type ≠ typeNormal) : MapStep m (.create n type inode) m
  | write {m : FileMap} {n : Nat} {c : Content} {pos count : UInt32} {buf : Nat → UInt8}
      {sectorLba : Nat} (hfile : m n = some c) : MapStep m (.write n pos count buf sectorLba)
        (Function.update m n (some (c.write pos.toNat count.toNat buf)))
  | read {m : FileMap} {n : Nat} {c : Content} {pos count : UInt32} {buf : Nat → UInt8}
      {sectorLba : Nat} {r : ReadState} (hfile : m n = some c)
      (hcount : r.bytesRead = min count.toNat (c.size - pos.toNat))
      (hbytes : ∀ i < r.bytesRead, r.dst i = c.byte (pos.toNat + i))
      (hrest : ∀ i, r.bytesRead ≤ i → r.dst i = buf i) :
      MapStep m (.read n pos count buf sectorLba r) m
  | lookup {m : FileMap} {n index : Nat} : MapStep m (.lookup n index) m
  | entries {m : FileMap} {n index : Nat} {buffer : Nat → UInt8} :
      MapStep m (.entries n index buffer) m
  | sync {m : FileMap} {n : Nat} {inode : Inode} : MapStep m (.sync n inode) m
  | release {m : FileMap} {n : Nat} : MapStep m (.release n) (Function.update m n none)

variable {g : Geometry} {kind : Nat → Option Nat} {f f' f'' : Files} {n : Nat}

/-! ## What is left of the files -/

/-- The files but `n` and the root directory have their bytes. -/
def KeepsFiles (g : Geometry) (n : Nat) (f f' : Files) : Prop :=
  ∀ m < g.inodeNr.toNat, m ≠ n → m ≠ 0 → ∀ i b, f.byte m i = some b → f'.byte m i = some b

theorem KeepsFiles.refl (g : Geometry) (n : Nat) (f : Files) : KeepsFiles g n f f :=
  fun _ _ _ _ _ _ hb => hb

theorem KeepsFiles.trans (h : KeepsFiles g n f f') (h' : KeepsFiles g n f' f'') :
    KeepsFiles g n f f'' :=
  fun m hm hmn hm0 i b hb => h' m hm hmn hm0 i b (h m hm hmn hm0 i b hb)

/-- The pointers and the bitmap of the sectors are as they were, and so are the blocks from the
data area on. -/
structure Still (g : Geometry) (f f' : Files) : Prop where
  sb : f'.fs.sb = f.fs.sb
  bitmap : f'.fs.bitmap .sector = f.fs.bitmap .sector
  ids : ∀ m, (f'.inodes m).id = (f.inodes m).id
  pointers : ∀ m, (f'.inodes m).blocks = (f.inodes m).blocks
  blocks : ∀ b, g.startSector.toNat + g.dataOffset ≤ b → f'.fs.blocks b = f.fs.blocks b

theorem Still.same (h : Still g f f') (hf : Placed g kind f) (hg : DriveGeometry g) :
    SamePointers g kind f f' := by
  refine ⟨h.sb, h.bitmap, h.ids, h.pointers, fun a k ha j _ => ?_⟩
  have hbehind := hf.sound.table_behind hg ha
  rw [h.blocks a (by omega)]

theorem Still.keeps (h : Still g f f') (hf : Placed g kind f) (hg : DriveGeometry g) :
    KeepsFiles g n f f' := by
  have hsame := h.same hf hg
  have hplaced := hsame.placed hf
  intro m hm _ hm0 i b hb
  rw [Files.byte_eq hg hplaced.sound, hsame.data_block hf hm]
  rw [Files.byte_eq hg hf.sound] at hb
  cases hblock : f.fs.dataBlock (f.inodes m) (i / 1024) with
  | none =>
      rw [hblock] at hb
      cases hb
  | some lba =>
      have hbehind := hf.data_behind hm hm0 hblock
      unfold Behind at hbehind
      rw [hblock] at hb
      rw [Option.map_some, h.blocks lba (by omega)]
      exact hb

/-- A file that is kept whole. -/
theorem Still.byte_kept (h : Still g f f') (hf : Placed g kind f) (hg : DriveGeometry g)
    (hn : n < g.inodeNr.toNat) (hfile : n ≠ 0) {i : Nat} {b : UInt8} (hb : f.byte n i = some b) :
    f'.byte n i = some b :=
  h.keeps hf hg (n := 0) n hn hfile hfile i b hb

/-- `BOFS_GetInodeData` gives the inode blocks. -/
theorem Placed.get_keeps (h : Placed g kind f) (hg : DriveGeometry g) (hn : n < g.inodeNr.toNat)
    (index : Nat) : ∃ kind', Placed g kind'
        (f.store n (f.fs.getInodeData (f.inodes n) index).1) ∧
      KeepsFiles g n f (f.store n (f.fs.getInodeData (f.inodes n) index).1) ∧
      ∀ lba, (f.fs.getInodeData (f.inodes n) index).2 = some lba →
        (f.store n (f.fs.getInodeData (f.inodes n) index).1).fs.dataBlock
          ((f.store n (f.fs.getInodeData (f.inodes n) index).1).inodes n) index = some lba := by
  obtain ⟨c, u, ⟨hnode, rfl, hblock⟩, rfl, rfl, -⟩ := exists_call f hn index
  obtain ⟨kind', hlater, hans⟩ := h.sound.call hg ⟨hnode, rfl, hblock⟩
  refine ⟨kind', h.later hlater, fun m hm _ hm0 i b hb => h.byte_later hg hlater hm hm0 hb,
    fun lba hlba => ?_⟩
  exact (hans.block.symm.trans hblock).trans hlba

/-- A block of data of the inode is written. -/
theorem Placed.write_keeps (h : Placed g kind f) (hg : DriveGeometry g) (hn : n < g.inodeNr.toNat)
    {index lba : Nat} (hlba : f.fs.dataBlock (f.inodes n) index = some lba)
    (buffer : Nat → UInt8) : KeepsFiles g n f (f.writeBlock lba buffer) := by
  have hsame := h.write_same hn hlba buffer
  have hplaced := hsame.placed h
  intro m hm hmn _ i b hb
  rw [Files.byte_eq hg hplaced.sound, hsame.data_block h hm]
  rw [Files.byte_eq hg h.sound] at hb
  cases hblock : f.fs.dataBlock (f.inodes m) (i / 1024) with
  | none =>
      rw [hblock] at hb
      cases hb
  | some lba' =>
      -- the block that is written is of one inode
      have hne : lba' ≠ lba := by
        rintro rfl
        obtain ⟨-, hreach, -⟩ := h.sound.data_kind hm hblock
        obtain ⟨-, hreach', -⟩ := h.sound.data_kind hn hlba
        exact hmn (congrArg Prod.fst (h.sound.apart.reach_unique hreach hreach').1)
      rw [hblock, Option.map_some] at hb
      exact (congrArg (fun block => some (block (i % 1024))) (block_write_other _ _ hne)).trans hb

theorem WriteState.round_keeps {w : WriteState} {lba : Nat} (h : Placed g kind (w.files f n))
    (hg : DriveGeometry g) (hn : n < g.inodeNr.toNat) (src : Nat → UInt8) (change : Bool)
    (hlba : (w.fs.getInodeData w.inode w.blockID).2 = some lba) :
    KeepsFiles g n (w.files f n) ((w.round src change).files f n) := by
  have hself : (w.files f n).inodes n = w.inode := Function.update_self ..
  obtain ⟨kind', hplaced, hkeeps, hblock⟩ := h.get_keeps hg hn w.blockID
  rw [hself] at hplaced hkeeps hblock
  rw [show (w.files f n).fs = w.fs from rfl] at hplaced hkeeps hblock
  have hdata := hblock lba hlba
  rcases hcall : w.fs.getInodeData w.inode w.blockID with ⟨⟨fs, inode⟩, block⟩
  rw [hcall] at hlba hplaced hkeeps hdata
  obtain rfl : block = some lba := hlba
  have hround : SamePointers g kind'
      (((w.files f n).store n (fs, inode)).writeBlock lba (w.buffer src (fs.blocks lba)))
      ((w.round src change).files f n) :=
    WriteState.round_same (h.sound.block_size hg) hcall src change
  have hwritten := (hplaced.write_same hn hdata (w.buffer src (fs.blocks lba))).placed hplaced
  have hstill : Still g
      (((w.files f n).store n (fs, inode)).writeBlock lba (w.buffer src (fs.blocks lba)))
      ((w.round src change).files f n) := by
    refine ⟨hround.sb, hround.bitmap, hround.ids, hround.blocks, fun b _ => ?_⟩
    rw [w.round_eq (h.sound.block_size hg) hcall src change]
    rfl
  exact hkeeps.trans ((hplaced.write_keeps hg hn hdata _).trans (hstill.keeps hwritten hg))

/-! ## A write -/

theorem start_pos_idem (inode : Inode) (pos : UInt32) :
    startPos inode (startPos inode pos) = startPos inode pos := by
  unfold startPos
  split
  · rw [if_neg (UInt32.lt_irrefl _)]
  · rfl

theorem start_pos_le (inode : Inode) (pos : UInt32) : startPos inode pos ≤ inode.size := by
  unfold startPos
  split
  · exact UInt32.le_refl _
  · next hle => exact UInt32.not_lt.mp hle

theorem start_pos_nat (inode : Inode) (pos : UInt32) :
    (startPos inode pos).toNat = min pos.toNat inode.size.toNat := by
  unfold startPos
  split
  · next hlt =>
      rw [UInt32.lt_iff_toNat_lt] at hlt
      omega
  · next hle =>
      rw [UInt32.lt_iff_toNat_lt] at hle
      omega

/-- What a write leaves that finds its sectors. -/
structure WriteKeeps (g : Geometry) (f : Files) (n : Nat) (pos count : UInt32)
    (buf : Nat → UInt8) (w : WriteState) : Prop where
  placed : ∃ kind, Placed g kind (w.files f n)
  keeps : KeepsFiles g n f (w.files f n)
  done : WriteDone f.fs (f.inodes n) (startPos (f.inodes n) pos).toNat count.toNat buf w

theorem Placed.file_write_keeps {pos count : UInt32} (h : Placed g kind f) (hg : DriveGeometry g)
    (hn : n < g.inodeNr.toNat) (hfile : n ≠ 0) (hfits : pos.toNat + count.toNat < 2 ^ 32)
    (buf : Nat → UInt8) (sectorLba : Nat)
    (hfree : ¬LacksSectors f.fs (f.inodes n) pos count buf sectorLba) {w : WriteState}
    {result : Int}
    (hwrite : fileWrite f.fs (f.inodes n) pos count buf sectorLba true = some (w, result)) :
    WriteKeeps g f n pos count buf w := by
  have hle := start_pos_le (f.inodes n) pos
  have hnat := start_pos_nat (f.inodes n) pos
  suffices hall : (∃ kind, Placed g kind (w.files f n)) ∧ KeepsFiles g n f (w.files f n) ∧
      WriteDone f.fs (f.inodes n) (startPos (f.inodes n) pos).toNat count.toNat buf w from
    ⟨hall.1, hall.2.1, hall.2.2⟩
  -- the call starts at the end of the file if it is behind it
  have hfits : (startPos (f.inodes n) pos).toNat + count.toNat < 2 ^ 32 := by omega
  have hstart : startWrite f.fs (f.inodes n) (startPos (f.inodes n) pos) count sectorLba =
      startWrite f.fs (f.inodes n) pos count sectorLba := by
    simp only [startWrite, start_pos_idem]
  have hchange : changesFileSize (f.inodes n) (startPos (f.inodes n) pos) count =
      changesFileSize (f.inodes n) pos count := by
    simp only [changesFileSize, start_pos_idem]
  have hfree : ¬LacksSectors f.fs (f.inodes n) (startPos (f.inodes n) pos) count buf sectorLba := by
    unfold LacksSectors afterRounds at hfree ⊢
    rw [hstart, hchange]
    exact hfree
  have hwrite : fileWrite f.fs (f.inodes n) (startPos (f.inodes n) pos) count buf sectorLba true =
      some (w, result) := by
    unfold fileWrite at hwrite ⊢
    rw [hstart, hchange]
    exact hwrite
  generalize startPos (f.inodes n) pos = pos at hle hfits hfree hwrite ⊢
  obtain ⟨v, hloop, hcall, hall, hinv⟩ :=
    file_write_spec h hg hn hfile hle hfits buf sectorLba hfree
  rw [hwrite] at hcall
  obtain ⟨rfl, -⟩ := Prod.mk.inj (Option.some.inj hcall)
  obtain ⟨kind', hplaced⟩ := hinv.placed
  have hkept : WriteInv g f n pos.toNat count.toNat buf (changesFileSize (f.inodes n) pos count) v ∧
      KeepsFiles g n f (v.files f n) := by
    refine WriteState.loop_rule (fun w => WriteInv g f n pos.toNat count.toNat buf
      (changesFileSize (f.inodes n) pos count) w ∧ KeepsFiles g n f (w.files f n))
      (fun j hmore hround => ?_) ⟨h.start_write hg hle count buf _ sectorLba, ?_⟩ hloop
    · obtain ⟨hbefore, hkeeps⟩ := hround
      obtain ⟨kind'', hthere⟩ := hbefore.placed
      have hfound := fun hnone => hfree ⟨j, hmore, hnone⟩
      obtain ⟨lba, hlba⟩ := Option.ne_none_iff_exists'.mp hfound
      rw [Function.iterate_succ_apply']
      exact ⟨hbefore.round hg hn hfile hfits hmore hfound,
        hkeeps.trans (WriteState.round_keeps hthere hg hn buf _ hlba)⟩
    · rw [show (startWrite f.fs (f.inodes n) pos count sectorLba).files f n = f from f.store_self n]
      exact .refl g n f
  have hid : v.inode.id < g.inodeNr.toNat := by
    have hself : (v.files f n).inodes n = v.inode := Function.update_self ..
    rw [← hself, hplaced.sound.ids n hn]
    exact hn
  have hstill : Still g (v.files f n) ((v.files f n).setFs (v.fs.syncInode v.inode)) :=
    ⟨rfl, rfl, fun _ => rfl, fun _ => rfl,
      fun b hb => hg.sync_inode_blocks hplaced.sound.sb hid hb⟩
  exact ⟨⟨kind', (hstill.same hplaced hg).placed hplaced⟩,
    hkept.2.trans (hstill.keeps hplaced hg), hinv.done hg hn hfile hle hfits hall⟩

/-! ## The bitmap of the inodes -/

/-- The bitmap of the inodes is as it was. -/
def SameInodes (s t : Mounted) : Prop := t.bitmap .inode = s.bitmap .inode

theorem alloc_one_sector_inodes {s t : Mounted} {lba : Nat}
    (h : s.allocOneSector = some (t, lba)) : SameInodes s t := by
  rw [Mounted.allocOneSector, Mounted.allocBitmap, Option.map_map, Option.map_eq_some_iff] at h
  obtain ⟨idx, -, heq⟩ := h
  rw [← (Prod.mk.inj heq).1]
  have hne : BmType.inode ≠ .sector := fun h => by cases h
  exact Function.update_of_ne hne (bitmapSetRange (s.bitmap .sector) true idx 1) s.bitmap

theorem follow_pointers_inodes (s : Mounted) (lba : Nat) (path : List Nat) :
    SameInodes s (s.followPointers lba path).1 := by
  induction path generalizing s lba with
  | nil => rfl
  | cons i path ih =>
      rw [Mounted.followPointers, Mounted.pointerInBlock]
      by_cases hzero : wordAt (s.blocks lba) i = 0
      · simp only [if_pos hzero]
        cases halloc : s.allocOneSector with
        | none => rfl
        | some result =>
            have hsame := alloc_one_sector_inodes halloc
            exact (ih _ _).trans hsame
      · simp only [if_neg hzero]
        exact ih s _

theorem get_inode_data_inodes (s : Mounted) (inode : Inode) (index : Nat) :
    SameInodes s (s.getInodeData inode index).1.1 := by
  by_cases h : index < blockLv3
  · rw [Mounted.get_inode_data_path s inode h, Mounted.getBlock, Mounted.pointerInInode]
    by_cases hzero : inode.blocks (Mounted.pointerPath index).1 = 0
    · rw [if_pos hzero]
      cases halloc : s.allocOneSector with
      | none => rfl
      | some result =>
          have hsame := alloc_one_sector_inodes halloc
          exact (follow_pointers_inodes _ _ _).trans hsame
    · rw [if_neg hzero]
      exact follow_pointers_inodes s _ _
  · rw [get_inode_data_beyond _ _ (Nat.not_lt.mp h)]
    rfl

theorem file_write_inodes {s : Mounted} {inode : Inode} {pos count : UInt32} {buf : Nat → UInt8}
    {sectorLba : Nat} {w : WriteState} {result : Int}
    (hwrite : fileWrite s inode pos count buf sectorLba true = some (w, result)) :
    SameInodes s w.fs := by
  simp only [fileWrite, Bool.true_eq_false, if_false, Option.map_eq_some_iff] at hwrite
  obtain ⟨v, hloop, heq⟩ := hwrite
  obtain ⟨rfl, -⟩ := Prod.mk.inj heq
  have hstart : SameInodes s (startWrite s inode pos count sectorLba).fs := rfl
  have hv : SameInodes s v.fs := by
    refine WriteState.loop_rule (fun v => SameInodes s v.fs) (fun j _ hround => ?_) hstart hloop
    rw [Function.iterate_succ_apply']
    exact (get_inode_data_inodes _ _ _).trans hround
  exact hv

/-- `BOFS_SyncBitmap` of an inode writes in front of the data area. -/
theorem DriveGeometry.sync_inode_bit (hg : DriveGeometry g) {s : Mounted}
    (hsb : s.sb = initSuperBlock g) (hn : n < g.inodeNr.toNat) {b : Nat}
    (hb : g.startSector.toNat + g.dataOffset ≤ b) :
    (s.syncBitmap .inode n).blocks b = s.blocks b := by
  have hstop := hg.stop
  have hdata := data_offset_le g
  have hnr : g.inodeNr.toNat = 9182 := by
    rw [hg.inodeNr]
    rfl
  have hsectors : (initSuperBlock g).inodeTableSectors = 1148 := by
    show divRoundUp (wrap (g.inodeNr.toNat * sizeofInode)) g.blockSize = 1148
    rw [hnr, hg.blockSize]
    rfl
  have hoff : g.dataOffset = 2 + (initSuperBlock g).sectorBitmapSectors +
    (initSuperBlock g).inodeBitmapSectors + (initSuperBlock g).inodeTableSectors := rfl
  have hsector : sectorSize = 512 := rfl
  refine block_write_other _ _ ?_
  rw [hsb, SuperBlock.bitmapLba, inode_bitmap_lba, g.block_add, Geometry.block, hsector,
    wrap_of_lt (by omega)]
  omega

end XBook.Bofs
