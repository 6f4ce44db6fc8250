import XBook.Fs.PathHeap
import XBook.Fs.DescriptorRuns

/-!
# Opens that fail

`BOFS_Open` with `BOFS_CreateFile` and `BOFS_OpenFile` of `fs/bofs/file.c`, and `BOFS_Pipe` of
`fs/bofs/pipe.c`, with every object, entry and inode that they take. A call that does not give its
descriptors should leave all as it was; `failed_open_iff` says when it does. The buffers of the
lookups are in `XBook.Fs.PathHeap`.
-/

namespace XBook.Paths

open Fifos Dirs Dirs.DirNode DirTree Heaps Files
open Calls (typeBlock typeChar)

variable {n : Nat}

namespace DirTree

variable (t : DirTree n)

/-- What `BOFS_LoadDirEntry` finds in what it reads. -/
def loadRead (parentDir : DirEntry) (name : List Char) : SearchReads → Option DirEntry
  | .whole => (t.dirs parentDir.inode).loadDirEntry n name
  | .upTo blockID =>
      let node := t.dirs parentDir.inode
      loadDir name ((List.range (min blockID (node.blocks n))).map (node.load n))
  | .unloaded node => node.loadDirEntry n name

/-- The loop of `BOFS_SearchDir` at a slash of the path, with what its lookups read. -/
def searchLoopWith (buffer : Nat → Option SearchReads) (mem : Nat → Char) (p : Nat)
    (parentDir : DirEntry) (i left : Nat) : Search :=
  let name := copyName mem (p + 1) bofsNameLen
  match (buffer i).bind (t.searchRead parentDir (cString name.1)) with
  | none => ⟨-1, parentDir, none, [parentDir], [name.1], name.2⟩
  | some childDir =>
      match left with
      | 0 => ⟨0, parentDir, some childDir, [parentDir], [name.1], name.2⟩
      | left + 1 =>
          let run := searchLoopWith buffer mem name.2 childDir (i + 1) left
          { run with searched := parentDir :: run.searched, names := name.1 :: run.names }

/-- `BOFS_SearchDir`, with what its lookups read. -/
def searchDirWith (buffer : Nat → Option SearchReads) (path : List Char) (beyond : Nat → Char) :
    Search :=
  if path.head? ≠ some '/' then ⟨-1, emptyEntry, some emptyEntry, [], [], 0⟩
  else
    let depth := depth path
    if depth = 1 ∧ path = ['/'] then
      let name := copyName (charAt path beyond) 1 bofsNameLen
      ⟨0, emptyEntry, some t.root, [], [name.1], name.2⟩
    else if 0 < depth then
      t.searchLoopWith buffer (charAt path beyond) 0 t.root 0 (depth.toNat - 1)
    else ⟨-1, emptyEntry, some emptyEntry, [], [], path.length⟩

variable {t}

theorem search_loop_with_whole (mem : Nat → Char) (p : Nat) (parentDir : DirEntry) (i left : Nat) :
    t.searchLoopWith (fun _ => some .whole) mem p parentDir i left =
      t.searchLoop mem p parentDir left := by
  induction left generalizing p parentDir i with
  | zero =>
      rw [searchLoopWith, searchLoop]
      rfl
  | succ left ih =>
      rw [searchLoopWith, searchLoop]
      dsimp only [Option.bind_some, searchRead]
      cases t.searchDirEntry parentDir (cString (copyName mem (p + 1) bofsNameLen).1) with
      | none => rfl
      | some childDir =>
          dsimp only
          rw [ih]

/-- Where all is read, the search is the one of the tree. -/
theorem search_dir_with_whole (path : List Char) (beyond : Nat → Char) :
    t.searchDirWith (fun _ => some .whole) path beyond = t.searchDir path beyond := by
  unfold searchDirWith searchDir
  simp only [search_loop_with_whole]

/-- The search on a heap finds the same entry. -/
theorem search_loop_on_child (buffer : Nat → Option SearchReads) (mem : Nat → Char) (p : Nat)
    (parentDir : DirEntry) (i left : Nat) (h : Heap) :
    (t.searchLoopOn buffer mem p parentDir i left h).2 =
      (t.searchLoopWith buffer mem p parentDir i left).childDir := by
  induction left generalizing p parentDir i h with
  | zero =>
      rw [searchLoopOn, searchLoopWith]
      cases hbuffer : buffer i with
      | none => rfl
      | some reads =>
          dsimp only [searchDirEntryOn, Option.bind_some]
          cases t.searchRead parentDir (cString (copyName mem (p + 1) bofsNameLen).1) reads with
          | none => rfl
          | some childDir => rfl
  | succ left ih =>
      rw [searchLoopOn, searchLoopWith]
      cases hbuffer : buffer i with
      | none => rfl
      | some reads =>
          dsimp only [searchDirEntryOn, Option.bind_some]
          cases t.searchRead parentDir (cString (copyName mem (p + 1) bofsNameLen).1) reads with
          | none => rfl
          | some childDir => exact ih ..

end DirTree

/-! ## The calls -/

variable {τ : Type*}

/-- The disk, the descriptor tables and the heap. -/
structure OpenState (τ : Type*) (n : Nat) where
  volume : Volume n
  files : FileState τ
  heap : Heap

/-- A call of `BOFS_Open`, with what it gets of memory and of the disk. `record` is the memory for
the entries of the search, `entry` what `BOFS_LoadDirEntry` reads, and `synced` says whether the
block of `BOFS_SyncDirEntry` is read and written. -/
structure OpenCall where
  path : List Char
  beyond : Nat → Char
  flags : UInt32
  record : Bool
  buffer : Nat → Option SearchReads
  dirEntry : Bool
  inode : Bool
  entry : Option SearchReads
  room : Nat → Bool
  synced : Bool

/-- A call that opens. -/
inductive OpenOp where
  | open (call : OpenCall)
  | pipe (pipe buf : Bool)

/-- What `BOFS_OpenFile` and `BOFS_CreateFile` leave. -/
structure Opened (τ : Type*) where
  store : DirStore
  files : FileState τ
  heap : Heap
  fd : Option (Fin maxOpenFiles)

/-- What a call leaves, with the descriptors that it gives and its result. -/
structure OpenEnd (τ : Type*) where
  store : DirStore
  files : FileState τ
  heap : Heap
  fds : List (Option (Fin maxOpenFiles))
  result : Int

/-- What `BOFS_Open` does behind its search: it fails and closes the record or does not, or it goes
on to create or to open the file. -/
inductive OpenGoes where
  | closes
  | keeps
  | creates
  | opens
  deriving DecidableEq

/-- `BOFS_Open` between its search and its calls. -/
def openGoes (flags : UInt32) (run : Search) : OpenGoes :=
  let childDir := run.childDir.getD emptyEntry
  if run.result = 0 then
    if childDir.type = typeDirectory then .closes
    else if flags &&& oCreat ≠ 0 then
      if childDir.type = typeNormal then if Accesses flags then .opens else .closes
      else .creates
    else if Accesses flags then if Opens childDir.type then .opens else .closes
    else .keeps
  else if flags &&& oCreat = 0 then .closes
  else .creates

/-- The step of `BOFS_Open` as far as the disk goes. -/
def OpenGoes.step (parentDir : DirEntry) (name : List Char) : OpenGoes → OpenStep
  | .closes => .fail
  | .keeps => .fail
  | .creates => .createFile parentDir name
  | .opens => .openFile

/-- A call that gets all that it asks memory and the disk for. -/
structure OpenCall.Works (c : OpenCall) : Prop where
  record : c.record = true
  buffer : c.buffer = fun _ => some .whole
  dirEntry : c.dirEntry = true
  inode : c.inode = true
  synced : c.synced = true

namespace OpenState

variable [DecidableEq τ] (s : OpenState τ n) (t : τ) (c : OpenCall)

/-- The search of the call. -/
def search : Search := s.volume.tree.searchDirWith c.buffer c.path c.beyond

/-- Whether `BOFS_LoadDirEntry` finds the name. -/
def loads (parentDir : DirEntry) (name : List Char) : Bool :=
  (c.entry.bind (s.volume.tree.loadRead parentDir name)).isSome

/-- `BOFS_OpenFile`, on a heap. -/
def openFile (parentDir : DirEntry) (name : List Char) (h : Heap) : Opened τ :=
  if c.dirEntry = false then ⟨s.volume.store, s.files, h, none⟩
  else
    let dirEntry := h.kmalloc
    if c.inode = false then ⟨s.volume.store, s.files, dirEntry.1.kfree dirEntry.2, none⟩
    else
      let inode := dirEntry.1.kmalloc
      let freed := (inode.1.kfree dirEntry.2).kfree inode.2
      if s.loads c parentDir name then
        match s.files.allocFdGlobal with
        | none => ⟨s.volume.store, s.files, freed, none⟩
        | some _ =>
            let r := s.files.openFile t c.flags
            ⟨s.volume.store, r.1, inode.1, r.2⟩
      else ⟨s.volume.store, s.files, freed, none⟩

/-- `BOFS_SyncDirEntry` of a new file in its directory. -/
def syncFile (parentDir : DirEntry) (name : List Char) (inodeID : Nat) : Option DirStore :=
  if c.synced then
    (s.volume.store.createInode inodeID 0).syncChild n parentDir.inode c.room
      ⟨inodeID, typeNormal, name⟩
  else none

/-- `BOFS_CreateFile`, on a heap. With no inode it does not free its objects. -/
def createFile (parentDir : DirEntry) (name : List Char) (h : Heap) : Opened τ :=
  if c.dirEntry = false then ⟨s.volume.store, s.files, h, none⟩
  else
    let dirEntry := h.kmalloc
    if c.inode = false then ⟨s.volume.store, s.files, dirEntry.1.kfree dirEntry.2, none⟩
    else
      let inode := dirEntry.1.kmalloc
      let freed := (inode.1.kfree dirEntry.2).kfree inode.2
      match s.volume.store.allocInode with
      | none => ⟨s.volume.store, s.files, inode.1, none⟩
      | some inodeID =>
          match s.syncFile c parentDir name inodeID with
          | none => ⟨s.volume.store.createInode inodeID 0, s.files, freed, none⟩
          | some store =>
              match s.files.allocFdGlobal with
              | none => ⟨store, s.files, freed, none⟩
              | some _ =>
                  let r := s.files.openFile t c.flags
                  ⟨store, r.1, inode.1, r.2⟩

/-- The number of a descriptor. -/
def fdNumber : Option (Fin maxOpenFiles) → Int
  | none => -1
  | some fd => fd.val

/-- The end of `BOFS_Open`. It closes the parent only where it has failed. -/
def finish (o : Opened τ) (record : Record) : OpenEnd τ where
  store := o.store
  files := o.files
  heap := if o.fd.isSome then o.heap.kfreeOption record.childDir
    else PathCall.closeBoth o.heap record
  fds := [o.fd]
  result := fdNumber o.fd

/-- A call that has failed before it comes to a file. -/
def failed (h : Heap) : OpenEnd τ := ⟨s.volume.store, s.files, h, [none], -1⟩

/-- `BOFS_SearchDir`, as far as the record goes. -/
def recordOf (run : Search) : Heap × Record :=
  let parentDir := s.heap.kmalloc
  let childDir := parentDir.1.kmalloc
  match run.childDir with
  | none => (childDir.1.kfree childDir.2, ⟨run.result, parentDir.2, none, emptyEntry⟩)
  | some child => (childDir.1, ⟨run.result, parentDir.2, some childDir.2, child⟩)

/-- `BOFS_Open`. Without memory for the record the search does not return, and without a descriptor
the file of a device or a FIFO is looked for in front of the table of the task. -/
def «open» : Option (OpenEnd τ) :=
  match pathToName c.path c.beyond with
  | none => some (s.failed s.heap)
  | some name =>
      if c.record = false then none
      else
        let run := s.search c
        let r := s.recordOf run
        match openGoes c.flags run with
        | .closes => some (s.failed (PathCall.closeBoth r.1 r.2))
        | .keeps => some (s.failed r.1)
        | .creates => some (finish (s.createFile t c run.parentDir name r.1) r.2)
        | .opens =>
            let o := s.openFile t c run.parentDir name r.1
            if r.2.child.type ≠ typeNormal ∧ o.fd = none then none else some (finish o r.2)

/-- `BOFS_Pipe`. -/
def pipe (pipe buf : Bool) : OpenEnd τ :=
  let files := s.files.pipe t (pipe && buf)
  match s.files.allocFdGlobal with
  | none => ⟨s.volume.store, files, s.heap, [none, none], -1⟩
  | some (used, readFd) =>
      match used.allocFdGlobal with
      | none => ⟨s.volume.store, files, s.heap, [none, none], -1⟩
      | some (used, writeFd) =>
          if pipe = false then ⟨s.volume.store, files, s.heap, [none, none], -1⟩
          else
            let object := s.heap.kmalloc
            if buf = false then
              ⟨s.volume.store, files, object.1.kfree object.2, [none, none], -1⟩
            else
              let read := used.taskInstallFD t readFd
              let write := read.1.taskInstallFD t writeFd
              ⟨s.volume.store, files, object.1.kmalloc.1, [read.2, write.2], 0⟩

/-- A call with what it leaves, where it returns. -/
def run : OpenOp → Option (OpenEnd τ)
  | .open call => s.open t call
  | .pipe pipe buf => some (s.pipe t pipe buf)

end OpenState

/-- The call gives the descriptors that it is for. -/
def OpenEnd.Completed (o : OpenEnd τ) : Prop := ∀ fd ∈ o.fds, fd ≠ none

/-- A call that has failed leaves all as it was. -/
structure Undone (s : OpenState τ n) (t : τ) (o : OpenEnd τ) : Prop where
  result : o.result = -1
  inUse : ∀ fd, o.files.InUse fd ↔ s.files.InUse fd
  fdTable : o.files.fdTable t = s.files.fdTable t
  store : o.store = s.volume.store
  heap : s.heap.Balanced o.heap

/-- A call that does not complete leaks nothing. -/
def LeaksNothing [DecidableEq τ] (s : OpenState τ n) (t : τ) (op : OpenOp) : Prop :=
  ∃ o, s.run t op = some o ∧ (¬o.Completed → Undone s t o)

/-- There are an inode and a place in the directory for a new file. -/
def OpenState.Fits (s : OpenState τ n) (c : OpenCall) (parentDir : DirEntry) (name : List Char) :
    Prop :=
  ∃ inodeID, s.volume.store.allocInode = some inodeID ∧ s.syncFile c parentDir name inodeID ≠ none

/-- Where the calls behind the search complete, or fail before they take what they do not give back.
Devices and FIFOs have to be opened. -/
def OpenState.CleanStep (s : OpenState τ n) (t : τ) (c : OpenCall) (run : Search)
    (name : List Char) : OpenGoes → Prop
  | .closes => True
  | .keeps => False
  | .creates => c.dirEntry = false ∨ c.inode = false ∨
      s.Fits c run.parentDir name ∧ ¬s.files.TableFull ∧ s.files.HasSlot t
  | .opens =>
      if (run.childDir.getD emptyEntry).type = typeNormal then
        c.dirEntry = false ∨ c.inode = false ∨ s.loads c run.parentDir name = false ∨
          s.files.TableFull ∨ s.files.HasSlot t
      else c.dirEntry = true ∧ c.inode = true ∧ s.loads c run.parentDir name = true ∧
        ¬s.files.TableFull ∧ s.files.HasSlot t

/-- The condition of a call. -/
def OpenState.Clean (s : OpenState τ n) (t : τ) : OpenOp → Prop
  | .open c => ∀ name, pathToName c.path c.beyond = some name →
      c.record = true ∧ s.CleanStep t c (s.search c) name (openGoes c.flags (s.search c))
  | .pipe pipe buf =>
      s.files.AlmostFull ∨ pipe = false ∨ buf = false ∨ s.files.TwoSlots t

/-! ## The objects of a call -/

section Objects

variable {s : OpenState τ n} {t : τ} {c : OpenCall} {before h : Heap} {own : List Nat}
  {record : Record} {parentDir : DirEntry} {name : List Char}

/-- The objects of a record. -/
def Record.objects (record : Record) : List Nat := record.childDir.toList ++ [record.parentDir]

theorem record_holds (s : OpenState τ n) (run : Search) :
    Holds s.heap (s.recordOf run).2.objects (s.recordOf run).1 := by
  have hentries := (Holds.refl s.heap).kmalloc.kmalloc
  unfold OpenState.recordOf
  cases run.childDir with
  | none => exact hentries.kfree_head
  | some child => exact hentries

theorem exists_some_iff {o : OpenEnd τ} {P : OpenEnd τ → Prop} :
    (∃ o', some o = some o' ∧ P o') ↔ P o := by
  constructor
  · rintro ⟨o', heq, hp⟩
    cases heq
    exact hp
  · exact fun hp => ⟨o, rfl, hp⟩

/-- The child of a record that is opened or created is the one that the search has found. -/
theorem record_child (s : OpenState τ n) (run : Search) :
    (s.recordOf run).2.child = run.childDir.getD emptyEntry := by
  unfold OpenState.recordOf
  cases run.childDir with
  | none => rfl
  | some child => rfl

/-- A record that is closed leaves what is newer. -/
theorem close_record {newer : List Nat} (hold : Holds before (newer ++ record.objects) h) :
    Holds before newer (PathCall.closeBoth h record) := by
  obtain ⟨found, parentDir, childDir, child⟩ := record
  cases childDir with
  | none =>
      have hclosed : Holds before (newer ++ []) (h.kfree parentDir) := hold.kfree_at
      rwa [List.append_nil] at hclosed
  | some childDir =>
      have hclosed : Holds before (newer ++ []) _ :=
        PathCall.close_both_holds hold found child
      rwa [List.append_nil] at hclosed

/-- The flags of a file that is created or opened are not those of a free entry. -/
theorem goes_flags {flags : UInt32} {run : Search} {goes : OpenGoes}
    (hgoes : openGoes flags run = goes) (hfile : goes = .creates ∨ goes = .opens) :
    flags ≠ fdFree := by
  rintro rfl
  have hnone : ¬Accesses fdFree := by decide
  have hcreat : fdFree &&& oCreat = 0 := by decide
  unfold openGoes at hgoes
  simp only [hnone, hcreat, ne_eq, not_true_eq_false, if_false, if_true] at hgoes
  split at hgoes
  · split at hgoes <;> rcases hfile with rfl | rfl <;> cases hgoes
  · rcases hfile with rfl | rfl <;> cases hgoes

/-- What a failed call must not leave. -/
theorem not_undone_of_fd {o : OpenEnd τ} {fd : Fin maxFdNr} (huse : o.files.InUse fd)
    (hfree : ¬s.files.InUse fd) : ¬Undone s t o := fun h => hfree ((h.inUse fd).mp huse)

/-- A call that has failed at its first objects, or before them. -/
theorem failed_undone (hold : Holds s.heap [] h) : Undone s t (s.failed h) where
  result := rfl
  inUse _ := Iff.rfl
  fdTable := rfl
  store := rfl
  heap := hold.balanced_iff.mpr rfl

theorem completed_finish {o : Opened τ} : (OpenState.finish o record).Completed ↔ o.fd ≠ none := by
  unfold OpenEnd.Completed OpenState.finish
  simp

theorem finish_none {store : DirStore} {files : FileState τ} :
    OpenState.finish ⟨store, files, h, none⟩ record =
      ⟨store, files, PathCall.closeBoth h record, [none], -1⟩ := rfl

variable [DecidableEq τ]

/-- An entry that is taken is in use, whether the task has a descriptor for it or not. -/
theorem open_entry {files used : FileState τ} {flags : UInt32} {fd : Fin maxFdNr}
    (halloc : files.allocFdGlobal = some (used, fd)) (hflags : flags ≠ fdFree) :
    (files.HasSlot t → (files.openFile t flags).2 ≠ none) ∧
      (¬files.HasSlot t → (files.openFile t flags).2 = none ∧
        (files.openFile t flags).1.InUse fd ∧ ¬files.InUse fd) := by
  obtain ⟨-, hnone, -⟩ | ⟨fd', used', hfree, halloc', hends⟩ := open_file_ends files t flags
  · rw [hnone] at halloc
    cases halloc
  rw [halloc'] at halloc
  obtain ⟨-, rfl⟩ := Prod.mk.inj (Option.some.inj halloc)
  obtain ⟨hno, hopen⟩ | ⟨i, hi, hopen⟩ := hends
  · rw [hopen]
    refine ⟨fun hslot => absurd hslot hno, fun _ => ⟨rfl, ?_, hfree⟩⟩
    rw [in_use_setFile, if_pos rfl]
    exact hflags
  · rw [hopen]
    exact ⟨fun _ => Option.some_ne_none i, fun hno => absurd ⟨i, hi⟩ hno⟩

variable (s t c parentDir name) in
/-- What `BOFS_OpenFile` comes to. -/
theorem open_file_cases (hold : Holds before own h) (hflags : c.flags ≠ fdFree) :
    ((c.dirEntry = false ∨ c.inode = false ∨ s.loads c parentDir name = false ∨
        s.files.TableFull) ∧ ∃ h', s.openFile t c parentDir name h =
          ⟨s.volume.store, s.files, h', none⟩ ∧ Holds before own h') ∨
      (c.dirEntry = true ∧ c.inode = true ∧ s.loads c parentDir name = true ∧
        ¬s.files.TableFull) ∧
        (s.files.HasSlot t → (s.openFile t c parentDir name h).fd ≠ none) ∧
          (¬s.files.HasSlot t → (s.openFile t c parentDir name h).fd = none ∧ ∃ fd,
            (s.openFile t c parentDir name h).files.InUse fd ∧ ¬s.files.InUse fd) := by
  have hobjects := hold.kmalloc.kmalloc
  have hfreed := hobjects.kfree_next.kfree_head
  unfold OpenState.openFile
  cases hentry : c.dirEntry with
  | false => exact .inl ⟨.inl rfl, h, rfl, hold⟩
  | true =>
      rw [if_neg Bool.noConfusion]
      dsimp only
      cases hinode : c.inode with
      | false => exact .inl ⟨.inr (.inl rfl), _, rfl, hold.kmalloc.kfree_head⟩
      | true =>
          rw [if_neg Bool.noConfusion]
          cases hloads : s.loads c parentDir name with
          | false => exact .inl ⟨.inr (.inr (.inl rfl)), _, rfl, hfreed⟩
          | true =>
              rw [if_pos rfl]
              obtain ⟨hfull, halloc⟩ | ⟨fd, hfree, halloc⟩ := alloc_fd_global_spec s.files
              · rw [halloc]
                exact .inl ⟨.inr (.inr (.inr hfull)), _, rfl, hfreed⟩
              · obtain ⟨hsome, hnone⟩ := open_entry (t := t) halloc hflags
                rw [halloc]
                refine .inr ⟨⟨rfl, rfl, rfl, fun hfull => hfree (hfull fd)⟩, hsome, fun hslot => ?_⟩
                obtain ⟨hfd, huse, hold⟩ := hnone hslot
                exact ⟨hfd, fd, huse, hold⟩

variable (s t c parentDir name) in
/-- What `BOFS_CreateFile` comes to. -/
theorem create_file_cases (hold : Holds before own h) (hflags : c.flags ≠ fdFree) :
    ((c.dirEntry = false ∨ c.inode = false) ∧ ∃ h', s.createFile t c parentDir name h =
        ⟨s.volume.store, s.files, h', none⟩ ∧ Holds before own h') ∨
      ((c.dirEntry = true ∧ c.inode = true) ∧
        (s.Fits c parentDir name ∧ ¬s.files.TableFull ∧ s.files.HasSlot t) ∧
          (s.createFile t c parentDir name h).fd ≠ none) ∨
      ((c.dirEntry = true ∧ c.inode = true) ∧
        ¬(s.Fits c parentDir name ∧ ¬s.files.TableFull ∧ s.files.HasSlot t) ∧
          (s.createFile t c parentDir name h).fd = none ∧
            ((∃ p q, Holds before (p :: q :: own) (s.createFile t c parentDir name h).heap) ∨
              (s.createFile t c parentDir name h).store ≠ s.volume.store)) := by
  have hobjects := hold.kmalloc.kmalloc
  unfold OpenState.createFile
  cases hentry : c.dirEntry with
  | false => exact .inl ⟨.inl rfl, h, rfl, hold⟩
  | true =>
      rw [if_neg Bool.noConfusion]
      dsimp only
      cases hinode : c.inode with
      | false => exact .inl ⟨.inr rfl, _, rfl, hold.kmalloc.kfree_head⟩
      | true =>
          rw [if_neg Bool.noConfusion]
          refine .inr ?_
          cases halloc : s.volume.store.allocInode with
          | none =>
              refine .inr ⟨⟨rfl, rfl⟩, fun hfits => ?_, rfl, .inl ⟨_, _, hobjects⟩⟩
              obtain ⟨inodeID, hsome, -⟩ := hfits.1
              rw [halloc] at hsome
              cases hsome
          | some inodeID =>
              dsimp only
              cases hsync : s.syncFile c parentDir name inodeID with
              | none =>
                  refine .inr ⟨⟨rfl, rfl⟩, fun hfits => ?_, rfl, .inr ?_⟩
                  · obtain ⟨inodeID', hsome, hsynced⟩ := hfits.1
                    rw [halloc] at hsome
                    rw [← Option.some.inj hsome] at hsynced
                    exact hsynced hsync
                  · exact taken_ne halloc (Function.update_self _ _ _)
              | some store =>
                  have hstore : store ≠ s.volume.store := by
                    refine taken_ne halloc ?_
                    unfold OpenState.syncFile at hsync
                    split at hsync
                    · rw [sync_child_bits hsync]
                      exact Function.update_self _ _ _
                    · cases hsync
                  have hfits : s.Fits c parentDir name :=
                    ⟨inodeID, halloc, by rw [hsync]; exact Option.some_ne_none store⟩
                  dsimp only
                  obtain ⟨hfull, halloc'⟩ | ⟨fd, hfree, halloc'⟩ := alloc_fd_global_spec s.files
                  · rw [halloc']
                    exact .inr ⟨⟨rfl, rfl⟩, fun h => h.2.1 hfull, rfl, .inr hstore⟩
                  · obtain ⟨hsome, hnone⟩ := open_entry (t := t) halloc' hflags
                    rw [halloc']
                    by_cases hslot : s.files.HasSlot t
                    · exact .inl ⟨⟨rfl, rfl⟩, ⟨hfits, fun hfull => hfree (hfull fd), hslot⟩,
                        hsome hslot⟩
                    · exact .inr ⟨⟨rfl, rfl⟩, fun h => hslot h.2.2, (hnone hslot).1, .inr hstore⟩

/-- `BOFS_Open` where it creates. -/
theorem create_iff (hold : Holds s.heap record.objects h) (hflags : c.flags ≠ fdFree) :
    (¬(OpenState.finish (s.createFile t c parentDir name h) record).Completed →
      Undone s t (OpenState.finish (s.createFile t c parentDir name h) record)) ↔
      c.dirEntry = false ∨ c.inode = false ∨
        s.Fits c parentDir name ∧ ¬s.files.TableFull ∧ s.files.HasSlot t := by
  rw [completed_finish]
  obtain ⟨hearly, h', hrun, hclosed⟩ | ⟨⟨hentry, hinode⟩, hfits, hsome⟩ |
      ⟨⟨hentry, hinode⟩, hfits, hnone, hleft⟩ := create_file_cases s t c parentDir name hold hflags
  · rw [hrun, finish_none]
    refine iff_of_true (fun _ => failed_undone ?_) (hearly.imp_right .inl)
    exact close_record hclosed
  · exact iff_of_true (fun h => absurd hsome h) (.inr (.inr hfits))
  · refine iff_of_false (fun himp => ?_) (by simp [hentry, hinode, hfits])
    have hundone := himp (not_not.mpr hnone)
    obtain ⟨p, q, hobjects⟩ | hstore := hleft
    · have hheap := hundone.heap
      have hclosed : Holds s.heap [p, q]
          (PathCall.closeBoth (s.createFile t c parentDir name h).heap record) :=
        close_record hobjects
      have hfinish : (OpenState.finish (s.createFile t c parentDir name h) record).heap =
          PathCall.closeBoth (s.createFile t c parentDir name h).heap record := by
        unfold OpenState.finish
        rw [hnone]
        rfl
      rw [hfinish, hclosed.balanced_iff] at hheap
      cases hheap
    · exact hstore hundone.store

/-- `BOFS_Open` where it opens. -/
theorem open_iff (hold : Holds s.heap record.objects h) (hflags : c.flags ≠ fdFree) :
    (¬(OpenState.finish (s.openFile t c parentDir name h) record).Completed →
      Undone s t (OpenState.finish (s.openFile t c parentDir name h) record)) ↔
      c.dirEntry = false ∨ c.inode = false ∨ s.loads c parentDir name = false ∨
          s.files.TableFull ∨ s.files.HasSlot t := by
  rw [completed_finish]
  obtain ⟨hearly, h', hrun, hclosed⟩ | ⟨⟨hentry, hinode, hloads, hroom⟩, hsome, hnone⟩ :=
    open_file_cases s t c parentDir name hold hflags
  · rw [hrun, finish_none]
    refine iff_of_true (fun _ => failed_undone (close_record hclosed)) ?_
    exact hearly.imp_right (.imp_right (.imp_right .inl))
  · by_cases hslot : s.files.HasSlot t
    · exact iff_of_true (fun h => absurd (hsome hslot) h) (.inr (.inr (.inr (.inr hslot))))
    · obtain ⟨hfd, fd, huse, hfree⟩ := hnone hslot
      refine iff_of_false (fun himp => ?_) (by simp [hentry, hinode, hloads, hroom, hslot])
      exact not_undone_of_fd huse hfree (himp (not_not.mpr hfd))

/-- A device or a FIFO has a descriptor just when all goes well. -/
theorem open_special_iff (hold : Holds s.heap record.objects h) (hflags : c.flags ≠ fdFree) :
    (s.openFile t c parentDir name h).fd ≠ none ↔
      c.dirEntry = true ∧ c.inode = true ∧ s.loads c parentDir name = true ∧
        ¬s.files.TableFull ∧ s.files.HasSlot t := by
  obtain ⟨hearly, h', hrun, -⟩ | ⟨⟨hentry, hinode, hloads, hroom⟩, hsome, hnone⟩ :=
    open_file_cases s t c parentDir name hold hflags
  · rw [hrun]
    refine iff_of_false (fun hne => hne rfl) ?_
    rintro ⟨hentry, hinode, hloads, hroom, -⟩
    rw [hentry, hinode, hloads] at hearly
    obtain h | h | h | h := hearly
    · cases h
    · cases h
    · cases h
    · exact hroom h
  · by_cases hslot : s.files.HasSlot t
    · exact iff_of_true (hsome hslot) ⟨hentry, hinode, hloads, hroom, hslot⟩
    · exact iff_of_false (fun hne => hne (hnone hslot).1) fun hall => hslot hall.2.2.2.2

/-- `BOFS_Open` behind its search. -/
theorem open_call_iff : LeaksNothing s t (.open c) ↔ s.Clean t (.open c) := by
  show (∃ o, s.open t c = some o ∧ (¬o.Completed → Undone s t o)) ↔
    ∀ name, pathToName c.path c.beyond = some name →
      c.record = true ∧ s.CleanStep t c (s.search c) name (openGoes c.flags (s.search c))
  unfold OpenState.open
  cases hname : pathToName c.path c.beyond with
  | none =>
      refine iff_of_true ⟨_, rfl, fun _ => failed_undone (.refl s.heap)⟩ fun name h => ?_
      cases h
  | some name =>
      have hcond : (∀ name', some name = some name' → c.record = true ∧
          s.CleanStep t c (s.search c) name' (openGoes c.flags (s.search c))) ↔
          c.record = true ∧ s.CleanStep t c (s.search c) name (openGoes c.flags (s.search c)) :=
        ⟨fun h => h name rfl, fun h name' heq => Option.some.inj heq ▸ h⟩
      rw [hcond]
      cases hrecord : c.record with
      | false =>
          refine iff_of_false ?_ fun h => ?_
          · rintro ⟨o, heq, -⟩
            cases heq
          · cases h.1
      | true =>
          rw [and_iff_right rfl]
          dsimp only
          rw [if_neg Bool.noConfusion]
          have hholds := record_holds s (s.search c)
          cases hgoes : openGoes c.flags (s.search c) with
          | closes =>
              exact iff_of_true ⟨_, rfl, fun _ => failed_undone (close_record hholds)⟩ trivial
          | keeps =>
              dsimp only
              rw [exists_some_iff]
              refine iff_of_false (fun himp => ?_) id
              have hheap := (himp fun h => h none (List.mem_singleton_self _) rfl).heap
              have hempty : (s.recordOf (s.search c)).2.objects = [] := hholds.balanced_iff.mp hheap
              exact List.append_ne_nil_of_right_ne_nil _ (List.cons_ne_nil _ _) hempty
          | creates =>
              dsimp only
              rw [exists_some_iff]
              exact create_iff hholds (goes_flags hgoes (.inl rfl))
          | opens =>
              have hflags := goes_flags hgoes (.inr rfl)
              dsimp only
              rw [record_child]
              by_cases htype : ((s.search c).childDir.getD emptyEntry).type = typeNormal
              · have hstep : s.CleanStep t c (s.search c) name .opens ↔ _ :=
                  iff_of_eq (if_pos htype)
                rw [if_neg fun h => h.1 htype, exists_some_iff, hstep]
                exact open_iff hholds hflags
              · have hstep : s.CleanStep t c (s.search c) name .opens ↔ _ :=
                  iff_of_eq (if_neg htype)
                rw [hstep, ← open_special_iff hholds hflags]
                split
                · next hstray =>
                    refine iff_of_false ?_ fun h => h hstray.2
                    rintro ⟨o, heq, -⟩
                    cases heq
                · next hopened =>
                    have hfd := fun h => hopened ⟨htype, h⟩
                    rw [exists_some_iff]
                    exact iff_of_true (fun h => absurd (completed_finish.mpr hfd) h) hfd

end Objects

/-! ## Pipes -/

section Pipes

variable [DecidableEq τ] {s : OpenState τ n} {t : τ} {files : FileState τ}

/-- Two descriptors can be installed where two are free. -/
theorem two_installs_iff (files : FileState τ) (t : τ) (fd fd' : Fin maxFdNr) :
    (files.taskInstallFD t fd).2 ≠ none ∧
      ((files.taskInstallFD t fd).1.taskInstallFD t fd').2 ≠ none ↔ files.TwoSlots t := by
  obtain ⟨hno, hinstall⟩ | ⟨i, hi, hinstall⟩ := task_install_fd_spec files t fd
  · rw [hinstall]
    refine iff_of_false (fun h => h.1 rfl) ?_
    rintro ⟨i, -, -, hi, -⟩
    exact hno ⟨i, hi⟩
  rw [hinstall]
  dsimp only
  obtain ⟨hno, hinstall'⟩ | ⟨j, hj, hinstall'⟩ :=
    task_install_fd_spec (files.setLocal t i (some fd)) t fd'
  · rw [hinstall']
    refine iff_of_false (fun h => h.2 rfl) ?_
    rintro ⟨i₁, i₂, hne, hi₁, hi₂⟩
    by_cases hfirst : i₁ = i
    · refine hno ⟨i₂, ?_⟩
      rw [setLocal_fdTable, if_neg fun h => hne (hfirst.trans h.2.symm), hi₂]
    · refine hno ⟨i₁, ?_⟩
      rw [setLocal_fdTable, if_neg fun h => hfirst h.2, hi₁]
  · rw [hinstall']
    refine iff_of_true ⟨Option.some_ne_none i, Option.some_ne_none j⟩ ?_
    rw [setLocal_fdTable] at hj
    split at hj
    · cases hj
    · next hne => exact ⟨i, j, fun h => hne ⟨rfl, h.symm⟩, hi, hj⟩

omit [DecidableEq τ] in
/-- An entry that is freed again was free before. -/
theorem in_use_free {used : FileState τ} {fd : Fin maxFdNr} (hfree : ¬files.InUse fd)
    (hother : ∀ e, e ≠ fd → (used.InUse e ↔ files.InUse e)) (e : Fin maxFdNr) :
    (used.freeFdGlobal fd).InUse e ↔ files.InUse e := by
  unfold FileState.freeFdGlobal
  rw [in_use_setFile]
  split
  · next heq =>
      rw [heq]
      exact iff_of_false (fun h => h rfl) hfree
  · next hne => exact hother e hne

/-- Where a pipe has no entries or no memory, its entries are free again. -/
theorem pipe_free (files : FileState τ) (t : τ) (allocated : Bool)
    (hfails : files.AlmostFull ∨ allocated = false) :
    (∀ e, (files.pipe t allocated).InUse e ↔ files.InUse e) ∧
      (files.pipe t allocated).fdTable = files.fdTable := by
  unfold FileState.pipe
  obtain ⟨-, halloc⟩ | ⟨readFd, hread, halloc⟩ := alloc_fd_global_spec files
  · rw [halloc]
    exact ⟨fun _ => Iff.rfl, rfl⟩
  have hused : ∀ e, e ≠ readFd → ((files.setFile readFd
      { files.globalFdTable readFd with flags := fdUsing }).InUse e ↔ files.InUse e) := by
    intro e hne
    rw [in_use_setFile, if_neg hne]
  rw [halloc]
  dsimp only
  obtain ⟨-, halloc'⟩ | ⟨writeFd, hwrite, halloc'⟩ := alloc_fd_global_spec
    (files.setFile readFd { files.globalFdTable readFd with flags := fdUsing })
  · rw [halloc']
    exact ⟨in_use_free hread hused, rfl⟩
  obtain ⟨hne, hwrite⟩ := in_use_of_alloc hwrite
  have hmemory : allocated = false :=
    hfails.resolve_left fun hfew => hne (hfew writeFd readFd hwrite hread)
  rw [halloc', hmemory]
  refine ⟨in_use_free hread fun e he => ?_, rfl⟩
  by_cases hsame : e = writeFd
  · rw [hsame]
    refine iff_of_false (fun h => ?_) hwrite
    unfold FileState.freeFdGlobal at h
    rw [in_use_setFile, if_pos rfl] at h
    exact h rfl
  · unfold FileState.freeFdGlobal
    rw [in_use_setFile, if_neg hsame, in_use_setFile, if_neg hsame]
    exact hused e he

/-- A pipe that is made returns 0, whether its descriptors are installed or not. -/
theorem pipe_end_iff {store : DirStore} {h : Heap} {fd fd' : Fin maxFdNr} (used : FileState τ)
    (htable : used.fdTable = s.files.fdTable) :
    (¬(⟨store, files, h, [(used.taskInstallFD t fd).2,
        ((used.taskInstallFD t fd).1.taskInstallFD t fd').2], 0⟩ : OpenEnd τ).Completed →
      Undone s t ⟨store, files, h, [(used.taskInstallFD t fd).2,
        ((used.taskInstallFD t fd).1.taskInstallFD t fd').2], 0⟩) ↔ s.files.TwoSlots t := by
  have hslots : used.TwoSlots t ↔ s.files.TwoSlots t := by
    unfold FileState.TwoSlots
    rw [htable]
  rw [← hslots, ← two_installs_iff used t fd fd']
  unfold OpenEnd.Completed
  simp only [List.forall_mem_cons, List.not_mem_nil, false_implies, implies_true, and_true]
  constructor
  · intro himp
    by_contra hnone
    cases (himp hnone).result
  · exact fun hall hnone => absurd hall hnone

/-- `BOFS_Pipe`. It does not look at what `TaskInstallFD` returns. -/
theorem pipe_call_iff (pipe buf : Bool) :
    LeaksNothing s t (.pipe pipe buf) ↔ s.Clean t (.pipe pipe buf) := by
  show (∃ o, some (s.pipe t pipe buf) = some o ∧ (¬o.Completed → Undone s t o)) ↔
    s.files.AlmostFull ∨ pipe = false ∨ buf = false ∨ s.files.TwoSlots t
  rw [exists_some_iff]
  have hheap : s.heap.Balanced s.heap := ⟨rfl, rfl⟩
  have hfailed : s.files.AlmostFull ∨ (pipe && buf) = false → ∀ h, s.heap.Balanced h →
      Undone s t ⟨s.volume.store, s.files.pipe t (pipe && buf), h, [none, none], -1⟩ := by
    intro hfails h hbalanced
    obtain ⟨huse, htable⟩ := pipe_free s.files t (pipe && buf) hfails
    exact ⟨rfl, huse, congrFun htable t, rfl, hbalanced⟩
  unfold OpenState.pipe
  obtain ⟨hfull, halloc⟩ | ⟨readFd, hread, halloc⟩ := alloc_fd_global_spec s.files
  · have hfew : s.files.AlmostFull := fun fd _ hfd => absurd (hfull fd) hfd
    rw [halloc]
    exact iff_of_true (fun _ => hfailed (.inl hfew) _ hheap) (.inl hfew)
  rw [halloc]
  dsimp only
  obtain ⟨hfull, halloc'⟩ | ⟨writeFd, hwrite, halloc'⟩ := alloc_fd_global_spec
    (s.files.setFile readFd { s.files.globalFdTable readFd with flags := fdUsing })
  · have hread' : ∀ fd, ¬s.files.InUse fd → fd = readFd := by
      intro fd hfd
      by_contra hne
      have huse := hfull fd
      rw [in_use_setFile, if_neg hne] at huse
      exact hfd huse
    have hfew : s.files.AlmostFull := fun fd fd' hfd hfd' =>
      (hread' fd hfd).trans (hread' fd' hfd').symm
    rw [halloc']
    exact iff_of_true (fun _ => hfailed (.inl hfew) _ hheap) (.inl hfew)
  obtain ⟨hne, hwrite⟩ := in_use_of_alloc hwrite
  have hroom : ¬s.files.AlmostFull := fun hfew => hne (hfew writeFd readFd hwrite hread)
  rw [halloc', or_iff_right hroom]
  dsimp only
  cases pipe with
  | false => exact iff_of_true (fun _ => hfailed (.inr rfl) _ hheap) (.inl rfl)
  | true =>
      rw [if_neg Bool.noConfusion, or_iff_right Bool.noConfusion]
      cases buf with
      | false =>
          have hfreed := (Holds.refl s.heap).kmalloc.kfree_head.balanced_iff.mpr rfl
          exact iff_of_true (fun _ => hfailed (.inr rfl) _ hfreed) (.inl rfl)
      | true =>
          rw [if_neg Bool.noConfusion, or_iff_right Bool.noConfusion]
          refine pipe_end_iff _ ?_
          rfl

end Pipes

/-! ## The disk -/

section Store

variable {s : OpenState τ n} {c : OpenCall}

/-- Both models of `BOFS_Open` decide alike. -/
theorem open_found_eq (flags : UInt32) (name : List Char) (run : Search)
    (hchild : run.result = 0 → run.childDir ≠ none) :
    openFound flags name run = (openGoes flags run).step run.parentDir name := by
  obtain ⟨result, parentDir, childDir, searched, names, read⟩ := run
  by_cases hresult : result = 0
  · subst hresult
    cases childDir with
    | none => exact absurd rfl (hchild rfl)
    | some child =>
        have hfound : openFound flags name ⟨0, parentDir, some child, searched, names, read⟩ =
            if child.type = typeDirectory then .fail
            else if flags &&& oCreat ≠ 0 then
              if child.type = typeNormal then if Accesses flags then .openFile else .fail
              else .createFile parentDir name
            else if Accesses flags ∧ Opens child.type then .openFile else .fail := rfl
        unfold openGoes
        rw [hfound, ite_and, if_pos rfl]
        simp only [apply_ite (OpenGoes.step parentDir name), Option.getD_some]
        rfl
  · have hgoes : openGoes flags ⟨result, parentDir, childDir, searched, names, read⟩ =
        if flags &&& oCreat = 0 then .closes else .creates := if_neg hresult
    rw [hgoes, apply_ite (OpenGoes.step parentDir name)]
    unfold openFound
    split
    · exact absurd ‹_› hresult
    · rfl

/-- A search that succeeds has found an entry. -/
theorem search_child (t : DirTree n) (path : List Char) (beyond : Nat → Char) :
    (t.searchDir path beyond).result = 0 → (t.searchDir path beyond).childDir ≠ none := by
  have hfail : (-1 : Int) ≠ 0 := by decide
  unfold DirTree.searchDir
  split
  · exact fun h => absurd h hfail
  dsimp only
  split
  · exact fun _ => Option.some_ne_none _
  split
  · intro h
    rw [search_loop_child] at h
    split at h
    · next hsome => exact Option.isSome_iff_ne_none.mp hsome
    · exact absurd h hfail
  · exact fun h => absurd h hfail

section Stores

variable [DecidableEq τ] (s : OpenState τ n) (t : τ) (c : OpenCall) (parentDir : DirEntry)
  (name : List Char) (h : Heap)

/-- `BOFS_OpenFile` leaves the disk. -/
theorem open_file_store : (s.openFile t c parentDir name h).store = s.volume.store := by
  unfold OpenState.openFile
  split
  · rfl
  dsimp only
  split
  · rfl
  split
  · split <;> rfl
  · rfl

/-- `BOFS_CreateFile` leaves the disk that it leaves without its objects. -/
theorem create_file_eq (hworks : c.Works) :
    s.volume.store.createFile n parentDir name c.room
        (OpenState.fdNumber (s.createFile t c parentDir name h).fd) =
      ((s.createFile t c parentDir name h).store,
        OpenState.fdNumber (s.createFile t c parentDir name h).fd) := by
  unfold DirStore.createFile OpenState.createFile OpenState.syncFile
  rw [hworks.dirEntry, hworks.inode, hworks.synced]
  cases s.volume.store.allocInode with
  | none => rfl
  | some inodeID =>
      dsimp only
      rw [if_neg Bool.noConfusion, if_neg Bool.noConfusion, if_pos rfl]
      cases (s.volume.store.createInode inodeID 0).syncChild n parentDir.inode c.room
          ⟨inodeID, typeNormal, name⟩ with
      | none => rfl
      | some store =>
          dsimp only
          cases s.files.allocFdGlobal with
          | none => rfl
          | some used => rfl

end Stores

/-- Where nothing is missing, the call leaves the disk that `BOFS_Open` leaves there, with the same
result. -/
theorem open_eq_bofs_open [DecidableEq τ] {t : τ} {o : OpenEnd τ} (hworks : c.Works)
    (hrun : s.open t c = some o) :
    s.volume.bofsOpen c.path c.flags c.beyond c.room o.result = (o.store, o.result) := by
  have hsearch : s.search c = s.volume.tree.searchDir c.path c.beyond := by
    unfold OpenState.search
    rw [hworks.buffer]
    exact search_dir_with_whole c.path c.beyond
  unfold OpenState.open at hrun
  unfold Volume.bofsOpen DirTree.openStep
  cases hname : pathToName c.path c.beyond with
  | none =>
      rw [hname] at hrun
      cases hrun
      rfl
  | some name =>
      rw [hname, hworks.record] at hrun
      dsimp only at hrun ⊢
      rw [if_neg Bool.noConfusion] at hrun
      rw [open_found_eq c.flags name _ (search_child _ _ _), ← hsearch]
      cases hgoes : openGoes c.flags (s.search c) with
      | closes =>
          rw [hgoes] at hrun
          cases hrun
          rfl
      | keeps =>
          rw [hgoes] at hrun
          cases hrun
          rfl
      | creates =>
          rw [hgoes] at hrun
          cases hrun
          exact create_file_eq s t c _ name _ hworks
      | opens =>
          rw [hgoes] at hrun
          dsimp only at hrun
          split at hrun
          · cases hrun
          · cases hrun
            exact Prod.ext (open_file_store s t c _ name _).symm rfl

end Store

/-- A call that cannot complete leaves nothing behind, if and only if it fails before it takes what
it does not give back: `BOFS_Open` must get to no file that the task has no descriptor for, to no
creation that fails behind its memory, to no device or FIFO that it does not open and to no file of
which no access is asked for, and `BOFS_Pipe` must find two descriptors where it finds two entries
and memory. -/
theorem failed_open_iff [DecidableEq τ] (s : OpenState τ n) (t : τ) (op : OpenOp) :
    LeaksNothing s t op ↔ s.Clean t op := by
  cases op with
  | «open» c => exact open_call_iff
  | pipe pipe buf => exact pipe_call_iff pipe buf

/-- A task whose descriptors are all open, each with an entry of its own. -/
def fullTask : OpenState Unit 4 where
  volume :=
    { tree := DirTree.fileTree
      inodeNr := 8
      inodeUsed := fun inode => inode < 2 }
  files :=
    { globalFdTable := fun fd =>
        if fd.val < maxOpenFiles then { flags := rdOnly, reference := 1 } else {}
      live := fun _ => true
      fdTable := fun _ localFd => some (Fin.ofNat maxFdNr localFd.val)
      pipes := fun _ => {}
      nextPipe := 0 }
  heap := PathCall.emptyHeap

/-- `BOFS_Pipe` returns 0 without a descriptor. -/
theorem pipe_without_descriptors : ¬LeaksNothing fullTask () (.pipe true true) := by
  rintro ⟨o, heq, himp⟩
  cases heq
  have hresult : (fullTask.pipe () true true).result = 0 := by decide +kernel
  have hnone : none ∈ (fullTask.pipe () true true).fds := by decide +kernel
  have hfailed := (himp fun hall => hall none hnone rfl).result
  rw [hresult] at hfailed
  cases hfailed

end XBook.Paths
