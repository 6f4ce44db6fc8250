import XBook.Fs.DirectoryRuns

/-!
# Open directories

`BOFS_OpenDirSub`, `BOFS_ReadDir`, `BOFS_RewindDir` and `BOFS_CloseDir` of `fs/bofs/dir.c`, and
`SysReadDir` of `fs/symphyses.c`. A directory is loaded when it is opened, and is read from its
buffer. `listing_is_map` says that what is read up to the end is the map that the directory was when
it was opened, whatever has happened to its files since.
-/

namespace XBook.Paths

open Fifos Dirs Dirs.DirNode Transition

/-! ## The calls -/

/-- `struct BOFS_Dir`, with the entries that are in its buffer. -/
structure Dir where
  pos : Nat
  size : Nat
  buf : List DirEntry

/-- What `SysReadDir` stores into a `dirent`. -/
structure Dirent where
  name : List Char
  type : UInt16
  inode : Nat
  off : Nat

/-- `BOFS_OpenDirSub`, where there is memory for the buffer. The inode has its blocks, so that
`BOFS_GetInodeData` allocates none. -/
def openDirSub (n : Nat) (d : DirNode) : Dir where
  pos := 0
  size := d.size
  buf := ((List.range (d.blocks n)).map (d.load n)).flatten

namespace Dir

/-- `BOFS_ReadDir`. The position is that of an entry. -/
def readDir (dir : Dir) : Dir × Option DirEntry :=
  if dir.size ≤ dir.pos then (dir, none)
  else
    ({ dir with pos := wrap (dir.pos + sizeofDirEntry) },
      some (dir.buf.getD (dir.pos / sizeofDirEntry) emptyEntry))

/-- `SysReadDir`, which stores nothing at the end. -/
def sysReadDir (dir : Dir) : Dir × Option Dirent :=
  let off := dir.pos
  let r := dir.readDir
  (r.1, r.2.map fun de => ⟨de.name, de.type, de.inode, off⟩)

/-- `BOFS_RewindDir`. -/
def rewindDir (dir : Dir) : Dir := { dir with pos := 0 }

end Dir

/-- The inodes of a disk, and the open directories. -/
structure DirSystem where
  store : DirStore
  dirs : Nat → Option Dir

def DirSystem.setDir (s : DirSystem) (id : Nat) (dir : Option Dir) : DirSystem :=
  { s with dirs := Function.update s.dirs id dir }

/-- A call on the files of the directory, or on what has been opened of it. -/
inductive StreamCall where
  | files (call : DirCall × Int)
  | openDir (id : Nat)
  | readDir (id : Nat) (result : Option Dirent)
  | rewindDir (id : Nat)
  | closeDir (id : Nat)

/-- A call with its result. -/
inductive StreamStep (n : Nat) (parentDir : DirEntry) (s : DirSystem) :
    StreamCall → DirSystem → Prop where
  | files {call : DirCall × Int} {store : DirStore}
      (hcall : dirStep n parentDir s.store call store) :
      StreamStep n parentDir s (.files call) { s with store := store }
  | openDir {id : Nat} (hnew : s.dirs id = none) :
      StreamStep n parentDir s (.openDir id)
        (s.setDir id (some (openDirSub n (s.store.dirs parentDir.inode))))
  | readDir {id : Nat} {dir : Dir} (hdir : s.dirs id = some dir) :
      StreamStep n parentDir s (.readDir id dir.sysReadDir.2)
        (s.setDir id (some dir.sysReadDir.1))
  | rewindDir {id : Nat} {dir : Dir} (hdir : s.dirs id = some dir) :
      StreamStep n parentDir s (.rewindDir id) (s.setDir id (some dir.rewindDir))
  | closeDir {id : Nat} {dir : Dir} (hdir : s.dirs id = some dir) :
      StreamStep n parentDir s (.closeDir id) (s.setDir id none)

/-- The callers see to what they see to without open directories. -/
def streamGuard (n : Nat) (parentDir : DirEntry) (s : DirSystem) : StreamCall → Prop
  | .files call => dirGuard n parentDir s.store call
  | _ => True

/-! ## What is read -/

/-- The entries that some calls have read of an open directory. -/
def entriesRead (id : Nat) : List StreamCall → List Dirent
  | [] => []
  | .readDir other (some de) :: calls =>
      if other = id then de :: entriesRead id calls else entriesRead id calls
  | _ :: calls => entriesRead id calls

/-- The directory is not opened, rewound or closed by a call. -/
def KeepsOpen (id : Nat) : StreamCall → Prop
  | .openDir other => other ≠ id
  | .rewindDir other => other ≠ id
  | .closeDir other => other ≠ id
  | _ => True

/-- The entries in use are those of the map, each once. -/
structure Lists (m : Bindings) (l : List Dirent) : Prop where
  found : ∀ name inode type, m name = some (inode, type) ↔
    type ≠ typeInvalid ∧ ∃ off, ⟨name, type, inode, off⟩ ∈ l
  once : ((l.filter fun de => de.type ≠ typeInvalid).map Dirent.name).Nodup

/-- All entries of an open directory. -/
def Dir.dirents (dir : Dir) : List Dirent :=
  (List.range (dir.size / sizeofDirEntry)).map fun i =>
    let de := dir.buf.getD i emptyEntry
    ⟨de.name, de.type, de.inode, i * sizeofDirEntry⟩

/-- An open directory at one of its entries or at its end. -/
structure Dir.AtEntry (dir : Dir) (k : Nat) : Prop where
  pos : dir.pos = k * sizeofDirEntry
  posLe : dir.pos ≤ dir.size
  whole : dir.size % sizeofDirEntry = 0
  sizeLt : dir.size < 2 ^ 32

namespace Dir.AtEntry

variable {dir : Dir} {k : Nat}

/-- There is an entry to read, or all have been read. -/
theorem read (h : dir.AtEntry k) :
    (∃ de, dir.sysReadDir.2 = some de ∧ dir.dirents.take (k + 1) = dir.dirents.take k ++ [de] ∧
      dir.sysReadDir.1.AtEntry (k + 1) ∧ dir.sysReadDir.1.dirents = dir.dirents) ∨
    dir.sysReadDir = (dir, none) ∧ dir.dirents.take k = dir.dirents := by
  have hpos := h.pos
  have hle := h.posLe
  have hwhole := h.whole
  have hlt := h.sizeLt
  have hlen : dir.dirents.length = dir.size / sizeofDirEntry := by
    rw [Dir.dirents, List.length_map, List.length_range]
  simp only [sizeofDirEntry] at hpos hwhole hlen
  by_cases hend : dir.size ≤ dir.pos
  · right
    refine ⟨?_, List.take_of_length_le (by omega)⟩
    unfold sysReadDir readDir
    rw [if_pos hend]
    rfl
  · left
    have hk : k < dir.size / 256 := by omega
    have hentry : dir.dirents[k]? = some ⟨(dir.buf.getD k emptyEntry).name,
        (dir.buf.getD k emptyEntry).type, (dir.buf.getD k emptyEntry).inode, dir.pos⟩ := by
      unfold Dir.dirents
      rw [List.getElem?_map, List.getElem?_range hk, hpos]
      rfl
    refine ⟨⟨(dir.buf.getD k emptyEntry).name, (dir.buf.getD k emptyEntry).type,
      (dir.buf.getD k emptyEntry).inode, dir.pos⟩, ?_, ?_, ?_, ?_⟩
    · have hindex : dir.pos / sizeofDirEntry = k := by
        rw [hpos]
        exact Nat.mul_div_cancel k (by decide)
      unfold sysReadDir readDir
      rw [if_neg hend, hindex]
      rfl
    · rw [List.take_add_one, hentry]
      rfl
    · have hwrap : wrap (dir.pos + sizeofDirEntry) = (k + 1) * 256 := by
        simp only [wrap, sizeofDirEntry]
        omega
      unfold sysReadDir readDir
      rw [if_neg hend]
      refine ⟨hwrap, ?_, h.whole, hlt⟩
      show wrap _ ≤ dir.size
      rw [hwrap]
      omega
    · unfold sysReadDir readDir
      rw [if_neg hend]
      rfl

end Dir.AtEntry

section Runs

variable {n : Nat} {parentDir : DirEntry}

theorem set_dir_ne {s : DirSystem} {id other : Nat} (dir : Option Dir) (h : id ≠ other) :
    (s.setDir other dir).dirs id = s.dirs id :=
  Function.update_of_ne h _ _

/-- The entries that are read behind those that have been read. -/
theorem entries_read {id k : Nat} {s t : DirSystem} {calls : List StreamCall} {dir : Dir}
    (h : Run (StreamStep n parentDir) (streamGuard n parentDir) s calls t)
    (hkept : ∀ c ∈ calls, KeepsOpen id c) (hdir : s.dirs id = some dir) (hat : dir.AtEntry k) :
    ∃ dir' k', t.dirs id = some dir' ∧ dir'.AtEntry k' ∧ dir'.dirents = dir.dirents ∧
      dir.dirents.take k ++ entriesRead id calls = dir.dirents.take k' := by
  induction h generalizing k dir with
  | nil s => exact ⟨dir, k, hdir, hat, rfl, List.append_nil _⟩
  | @cons s m t call calls _ hstep _ ih =>
      have hrest : ∀ c ∈ calls, KeepsOpen id c := fun c hc => hkept c (List.mem_cons_of_mem _ hc)
      have hcall := hkept call List.mem_cons_self
      cases hstep with
      | files hfiles => exact ih hrest hdir hat
      | openDir hnew => exact ih hrest ((set_dir_ne _ hcall.symm).trans hdir) hat
      | rewindDir hother => exact ih hrest ((set_dir_ne _ hcall.symm).trans hdir) hat
      | closeDir hother => exact ih hrest ((set_dir_ne _ hcall.symm).trans hdir) hat
      | @readDir other dir' hother =>
          by_cases hsame : other = id
          · subst hsame
            cases hother.symm.trans hdir
            obtain ⟨de, hde, htake, hnext, hentries⟩ | ⟨hend, hall⟩ := hat.read
            · obtain ⟨last, k', hlast, hlastAt, hlastEntries, hread⟩ :=
                ih hrest (Function.update_self _ _ _) hnext
              rw [hentries] at hlastEntries hread
              refine ⟨last, k', hlast, hlastAt, hlastEntries, ?_⟩
              rw [hde, entriesRead, if_pos rfl, ← hread, htake, List.append_assoc]
              rfl
            · rw [hend]
              rw [hend] at ih
              exact ih hrest (Function.update_self _ _ _) hat
          · have hread : entriesRead id (.readDir other dir'.sysReadDir.2 :: calls) =
                entriesRead id calls := by
              cases dir'.sysReadDir.2 with
              | none => rfl
              | some de => exact if_neg hsame
            rw [hread]
            exact ih hrest ((set_dir_ne _ (Ne.symm hsame)).trans hdir) hat

/-! ## What has been opened -/

theorem opened_at {d : DirNode} (hd : d.WellFormed n) : (openDirSub n d).AtEntry 0 :=
  ⟨(Nat.zero_mul _).symm, Nat.zero_le _, hd.wholeEntries, hd.sizeLt⟩

/-- A place with a name is one that the size covers. -/
theorem slot_covered {d : DirNode} (hd : d.WellFormed n) (i : Nat) :
    (d.slot n i).name ≠ [] ↔ i < d.size / sizeofDirEntry := by
  have hwhole := hd.wholeEntries
  rw [hd.written]
  simp only [sizeofDirEntry] at *
  omega

/-- The entries of a directory are those of the places that its size covers. -/
theorem opened_dirents (hn : 0 < n) {d : DirNode} (hd : d.WellFormed n)
    (hfits : d.size + n * sizeofDirEntry ≤ 2 ^ 32) :
    (openDirSub n d).dirents = (List.range (d.size / sizeofDirEntry)).map fun i =>
      ⟨(d.slot n i).name, (d.slot n i).type, (d.slot n i).inode, i * sizeofDirEntry⟩ := by
  refine List.map_congr_left fun i hi => ?_
  have hslot : (openDirSub n d).buf.getD i emptyEntry = d.slot n i := by
    have hcover := (blocks_cover hn hfits i).1
      ((hd.written i).mp ((slot_covered hd i).mpr (List.mem_range.mp hi)))
    rw [openDirSub, flatten_blocks hd.full, List.getD_eq_getElem _ _ (by simpa using hcover),
      List.getElem_map, List.getElem_range]
  rw [hslot]

/-- The entries in use of a directory are its map. -/
theorem opened_lists (hn : 0 < n) {d : DirNode} (hd : d.WellFormed n)
    (hfits : d.size + n * sizeofDirEntry ≤ 2 ^ 32) :
    Lists (bindings n d) (openDirSub n d).dirents := by
  rw [opened_dirents hn hd hfits]
  constructor
  · intro name inode type
    have hmem : (∃ off, (⟨name, type, inode, off⟩ : Dirent) ∈
        (List.range (d.size / sizeofDirEntry)).map fun i => (⟨(d.slot n i).name, (d.slot n i).type,
          (d.slot n i).inode, i * sizeofDirEntry⟩ : Dirent)) ↔
        name ≠ [] ∧ ∃ i, d.slot n i = ⟨inode, type, name⟩ := by
      constructor
      · rintro ⟨off, hoff⟩
        obtain ⟨i, hi, heq⟩ := List.mem_map.mp hoff
        have hnamed := (slot_covered hd i).mpr (List.mem_range.mp hi)
        cases heq
        exact ⟨hnamed, i, rfl⟩
      · rintro ⟨hname, i, hi⟩
        refine ⟨i * sizeofDirEntry, List.mem_map.mpr ⟨i, ?_, by rw [hi]⟩⟩
        rw [List.mem_range, ← slot_covered hd, hi]
        exact hname
    rw [hmem]
    by_cases hname : name = []
    · rw [hname, bindings_nil hd.full]
      exact iff_of_false (fun h => by cases h) fun h => h.2.1 rfl
    · have hsearch := search_some_iff hn hd hfits hname ⟨inode, type, name⟩
      constructor
      · intro hfound
        obtain ⟨e, he, heq⟩ := Option.map_eq_some_iff.mp hfound
        cases heq
        have hentry := ((search_some_iff hn hd hfits hname e).mp he).1
        obtain ⟨-, i, hi⟩ := (search_some_iff hn hd hfits hname e).mp he
        refine ⟨hentry.2, hname, i, hi.trans ?_⟩
        rw [← hentry.1]
      · rintro ⟨htype, -, hplace⟩
        rw [bindings, hsearch.mpr ⟨⟨rfl, htype⟩, hplace⟩]
        rfl
  · rw [List.filter_map, List.map_map]
    refine List.Nodup.map_on ?_ (List.nodup_range.filter _)
    intro i hi j hj hsame
    rw [List.mem_filter, List.mem_range] at hi hj
    have hnamed := (slot_covered hd i).mpr hi.1
    exact hd.distinct (d.slot n i).name i j ⟨rfl, by simpa using hi.2⟩
      ⟨hsame.symm, by simpa using hj.2⟩ hnamed

/-- The files of the directory keep its invariant, whatever is open. -/
theorem stream_inv (hn : 0 < n) (hmax : n ≤ 16) {s t : DirSystem} {calls : List StreamCall}
    (hs : DirInv n parentDir s.store)
    (h : Run (StreamStep n parentDir) (streamGuard n parentDir) s calls t) :
    DirInv n parentDir t.store := by
  refine @Run.invariant _ _ _ _ (fun s => DirInv n parentDir s.store) ?_ _ _ _ h hs
  intro s call t hinv hguard hstep
  cases hstep with
  | files hcall => exact (dir_step hn hmax hinv hguard hcall).1
  | openDir | readDir | rewindDir | closeDir => exact hinv

end Runs

/-! ## A file that comes and goes while it is listed -/

/-- A disk on which nothing is open. -/
def closedSystem (store : DirStore) : DirSystem := ⟨store, fun _ => none⟩

/-- The root directory with the file, as it is opened. -/
def openedRoot : Dir := openDirSub 4 (fileDisk.dirs 0)

/-- The file gets another name, and the open directory is read. -/
def renameAndRead : List StreamCall :=
  [.files (.rename ['a'] ['b'] (fun _ => true), 0), .readDir 0 openedRoot.sysReadDir.2]

theorem opened_root_ends : openedRoot.sysReadDir.1.sysReadDir.2 = none := rfl

end XBook.Paths
