import XBook.Fs.Descriptor

/-!
# FIFOs on the disk

A FIFO is a directory entry whose inode keeps, in `blocks[0]`, the address of its
`struct BOFS_Pipe`. Here are `BOFS_MakeFifo` of `fs/bofs/fifo.c`, `BOFS_Remove` of `fs/bofs/file.c`
and the calls that follow the pointer, each at an entry that the path has led to. Every use of a
pointer is an `Access`, which remembers the inode of the object that was there.
-/

namespace XBook.Fifos

open Files

/-- `BOFS_FILE_TYPE_NORMAL`. -/
abbrev typeNormal : UInt16 := 0x01

/-- `BOFS_FILE_TYPE_FIFO`. -/
abbrev typeFifo : UInt16 := 0x40

/-- `BOFS_FILE_TYPE_INVALID`. -/
abbrev typeInvalid : UInt16 := 0x8000

/-- `BOFS_O_CREAT`. -/
abbrev oCreat : UInt32 := 0x08

/-- `BOFS_O_RDONLY`, `BOFS_O_WRONLY` and `BOFS_O_RDWR`. -/
abbrev readOrWrite : UInt32 := 0x07

/-- `BOFS_O_RDONLY` and `BOFS_O_WRONLY`, the ends that `BOFS_FifoOpen` knows. -/
abbrev oneEnd : UInt32 := 0x03

/-- `struct BOFS_DirEntry`. -/
structure DirEntry where
  inode : Nat
  type : UInt16
  name : List Char
  deriving DecidableEq, Repr

/-- `BOFS_SearchDirEntry`, in the entries of a directory. -/
def searchDirEntry (name : List Char) : List DirEntry → Option DirEntry
  | [] => none
  | e :: rest =>
      if e.name ≠ [] then
        if e.name = name ∧ e.type ≠ typeInvalid then some e else searchDirEntry name rest
      else none

/-- Whether `BOFS_SyncDirEntry` stores the child in place of the entry. -/
def takes (child e : DirEntry) : Bool :=
  (e.name = child.name && e.type ≠ typeInvalid) || e.type = typeInvalid ||
    (e.name ≠ [] && e.inode = child.inode && child.type ≠ typeInvalid) || e.name = []

/-- `BOFS_SyncDirEntry`. It looks through one more block than the directory has. -/
def syncDirEntry (entries next : List DirEntry) (child : DirEntry) : Option (List DirEntry) :=
  ((entries ++ next).findIdx? (takes child)).map fun i =>
    if i < entries.length then entries.set i child else (entries ++ next).set i child

/-- A `struct BOFS_Pipe` of a `BOFS_MakeFifo` since boot, for its inode. It counts the `kfree` of
itself and of its buffer. -/
structure PipeObject where
  pipe : UInt32
  buf : UInt32
  inode : Nat
  freed : Nat
  bufFreed : Nat

/-- A use of the pointer of an inode, with the inode that the object at it was made for. -/
structure Access where
  inode : Nat
  owner : Option Nat

/-- What an open file has of its FIFO: `dirEntry`, and `blocks[0]` of its own copy of the inode. -/
structure FifoNode where
  dirEntry : DirEntry
  pipe : UInt32

/-- The descriptor tables over a disk, and the pipe objects. -/
structure FifoState (τ : Type*) where
  files : FileState τ
  /-- For an entry of the global table whose file is a FIFO. -/
  node : Fin maxFdNr → Option FifoNode
  dirs : Nat → List DirEntry
  inodeNr : Nat
  inodeUsed : Nat → Bool
  /-- `blocks[0]` of the inodes on the disk. -/
  blocks₀ : Nat → UInt32
  objects : List PipeObject
  accesses : List Access

namespace FifoState

variable {τ : Type*}

/-- A disk that has just been mounted. -/
def mount (live : τ → Bool) (dirs : Nat → List DirEntry) (inodeNr : Nat) (inodeUsed : Nat → Bool)
    (blocks₀ : Nat → UInt32) : FifoState τ :=
  { files := .init live
    node := fun _ => none
    dirs, inodeNr, inodeUsed, blocks₀
    objects := []
    accesses := [] }

/-- The inode of the object at an address. -/
def owner (s : FifoState τ) (pipe : UInt32) : Option Nat :=
  (s.objects.find? fun o => o.pipe = pipe ∧ o.freed = 0).map (·.inode)

/-- The pointer of an inode is used. -/
def access (s : FifoState τ) (inode : Nat) (pipe : UInt32) : FifoState τ :=
  { s with accesses := s.accesses ++ [⟨inode, s.owner pipe⟩] }

/-- The pointer of an open file is used, if the file is a FIFO. -/
def accessFile (s : FifoState τ) (fd : Fin maxFdNr) : FifoState τ :=
  match s.node fd with
  | none => s
  | some node => s.access node.dirEntry.inode node.pipe

/-- The pointer of the file of a descriptor is used. -/
def accessFd (s : FifoState τ) (t : τ) (localFd : Fin maxOpenFiles) : FifoState τ :=
  match s.files.fdTable t localFd with
  | none => s
  | some fd => s.accessFile fd

/-- The inode that `BOFS_AllocBitmap` finds. -/
def freeInode (s : FifoState τ) : Option Nat :=
  (List.range s.inodeNr).find? fun id => !s.inodeUsed id

/-- An inode is used or free, with the pointer that is stored in it. -/
def setInode (s : FifoState τ) (id : Nat) (used : Bool) (pipe : UInt32) : FifoState τ :=
  { s with
    inodeUsed := Function.update s.inodeUsed id used
    blocks₀ := Function.update s.blocks₀ id pipe }

/-- `BOFS_SyncDirEntry`, in the directory. -/
def syncDir (s : FifoState τ) (dir : Nat) (next : List DirEntry) (child : DirEntry) :
    FifoState τ :=
  match syncDirEntry (s.dirs dir) next child with
  | none => s
  | some entries => { s with dirs := Function.update s.dirs dir entries }

/-- The end of `BOFS_MakeFifo`, with `BOFS_CreateNewFifo`. There may be no memory for the object or
for its buffer. -/
def makeFifo (s : FifoState τ) (dir : Nat) (name : List Char) (memory : Option (UInt32 × UInt32))
    (next : List DirEntry) : FifoState τ :=
  if name = [] then s
  else match searchDirEntry name (s.dirs dir) with
    | some _ => s
    | none =>
        match s.freeInode with
        | none => s
        | some id =>
            match memory with
            | none => s.setInode id true (s.blocks₀ id)
            | some (pipe, buf) =>
                let made : PipeObject := ⟨pipe, buf, id, 0, 0⟩
                let s := { s with objects := s.objects ++ [made] }
                (s.setInode id true pipe).syncDir dir next ⟨id, typeFifo, name⟩

/-- `kfree` of the pointer of a removed FIFO. The buffer of the object stays. -/
def freePipe (s : FifoState τ) (pipe : UInt32) : FifoState τ :=
  { s with objects := s.objects.map fun o =>
      if o.pipe = pipe ∧ o.freed = 0 then { o with freed := o.freed + 1 } else o }

/-- The check of `BOFS_Remove` for a file in the global table. -/
def InUse (s : FifoState τ) (e : DirEntry) : Prop :=
  ∃ fd, (s.files.globalFdTable fd).flags &&& fdUsing ≠ 0 ∧ (s.node fd).map (·.dirEntry) = some e

instance (s : FifoState τ) (e : DirEntry) : Decidable (s.InUse e) :=
  inferInstanceAs (Decidable (∃ _, _))

/-- `BOFS_Remove` of the entry of a FIFO, with `BOFS_ReleaseDirEntry`. -/
def remove (s : FifoState τ) (dir : Nat) (e : DirEntry) (next : List DirEntry) : FifoState τ :=
  if s.InUse e then s
  else
    let pipe := s.blocks₀ e.inode
    let s := (s.access e.inode pipe).freePipe pipe
    (s.setInode e.inode false pipe).syncDir dir next { e with type := typeInvalid }

variable [DecidableEq τ]

/-- The file of an open call has its entry of the global table. -/
def installNode (s : FifoState τ) (t : τ) (localFd : Fin maxOpenFiles) (node : Option FifoNode) :
    FifoState τ :=
  match s.files.fdTable t localFd with
  | none => s
  | some fd => { s with node := Function.update s.node fd node }

/-- `BOFS_CreateFile`, in place of a FIFO. `BOFS_Open` reopens a normal file only. -/
def createFile (s : FifoState τ) (t : τ) (dir : Nat) (name : List Char) (flags : UInt32)
    (next : List DirEntry) : FifoState τ :=
  match s.freeInode with
  | none => s
  | some id =>
      let s := s.setInode id true 0
      match syncDirEntry (s.dirs dir) next ⟨id, typeNormal, name⟩ with
      | none => s
      | some entries =>
          let s := { s with dirs := Function.update s.dirs dir entries }
          match s.files.openFile t flags with
          | (files, none) => { s with files }
          | (files, some localFd) => { s with files }.installNode t localFd none

/-- `BOFS_Open` of the entry of a FIFO, with `BOFS_FifoOpen` up to its sleep. Without a descriptor
`BOFS_FifoOpen` reads in front of the table of the task. -/
def openFifo (s : FifoState τ) (t : τ) (dir : Nat) (e : DirEntry) (flags : UInt32)
    (next : List DirEntry) : FifoState τ :=
  if flags &&& oCreat ≠ 0 then s.createFile t dir e.name flags next
  else if flags &&& readOrWrite = 0 then s
  else match s.files.openFile t flags with
    | (files, none) =>
        let accesses := if flags &&& oneEnd ≠ 0 then s.accesses ++ [⟨e.inode, none⟩] else s.accesses
        { s with files, accesses }
    | (files, some localFd) =>
        let node := { dirEntry := e, pipe := s.blocks₀ e.inode }
        let s := { s with files }.installNode t localFd (some node)
        if flags &&& oneEnd ≠ 0 then s.accessFd t localFd else s

/-- `SysFork`: `BOFS_FifoUpdate` for each FIFO that the child has. -/
def fork (s : FifoState τ) (parent child : τ) : FifoState τ :=
  let files := (s.files.copyTask parent child).updateInodeOpenCounts child
  (List.finRange maxOpenFiles).foldl (fun s localFd => s.accessFd child localFd) { s with files }

/-- `BOFS_Close`, with `BOFS_FifoClose`. -/
def close (s : FifoState τ) (t : τ) (localFd : Fin maxOpenFiles) : FifoState τ :=
  { s.accessFd t localFd with files := s.files.close t localFd }

end FifoState

/-- A call, after its path has been searched. A `use` is a read, a write, or the end of an open that
has slept. -/
inductive FifoOp (τ : Type*) where
  | make (dir : Nat) (name : List Char) (memory : Option (UInt32 × UInt32)) (next : List DirEntry)
  | open (t : τ) (dir : Nat) (name : List Char) (flags : UInt32) (next : List DirEntry)
  | use (t : τ) (fd : Fin maxOpenFiles)
  | fork (parent child : τ)
  | close (t : τ) (fd : Fin maxOpenFiles)
  | remove (dir : Nat) (name : List Char) (next : List DirEntry)

variable {τ : Type*} [DecidableEq τ]

/-- The entry of the name, if it is a FIFO. -/
def FifoState.fifoEntry (s : FifoState τ) (dir : Nat) (name : List Char) : Option DirEntry :=
  (searchDirEntry name (s.dirs dir)).filter (·.type = typeFifo)

instance (s : FifoState τ) (memory : Option (UInt32 × UInt32)) :
    Decidable (∀ m ∈ memory, ∀ o ∈ s.objects, o.freed = 0 → o.pipe ≠ m.1) :=
  Option.decidableForallMem memory

/-- One call. `kmalloc` returns no memory that is in use. -/
def fifoStep (s : FifoState τ) : FifoOp τ → Option (FifoState τ)
  | .make dir name memory next =>
      if ∀ m ∈ memory, ∀ o ∈ s.objects, o.freed = 0 → o.pipe ≠ m.1 then
        some (s.makeFifo dir name memory next)
      else none
  | .open t dir name flags next =>
      if s.files.live t then
        (s.fifoEntry dir name).map fun e => s.openFifo t dir e flags next
      else none
  | .use t fd => if s.files.live t then some (s.accessFd t fd) else none
  | .fork parent child =>
      if s.files.live parent ∧ s.files.live child = false then some (s.fork parent child) else none
  | .close t fd => if s.files.live t then some (s.close t fd) else none
  | .remove dir name next => (s.fifoEntry dir name).map fun e => s.remove dir e next

end XBook.Fifos
