import XBook.Lib.Tally
import XBook.Lib.Transition
import Mathlib.Data.List.FinRange

/-!
# File descriptors

The descriptor tables of `fs/bofs/file.c`, with `BOFS_Pipe` and `BOFS_PipeClose` of
`fs/bofs/pipe.c`, and what `SysFork`, `SysExecv` and `SysExit` do to them. A call is one step. The
directory entries, devices and FIFOs that an entry refers to are not here: no branch that depends on
them touches a table.
-/

namespace XBook.Files

/-- `BOFS_MAX_FD_NR`. -/
abbrev maxFdNr : Nat := 128

/-- `MAX_OPEN_FILES_IN_PROC`. -/
abbrev maxOpenFiles : Nat := 32

/-- `BOFS_FD_FREE`. -/
abbrev fdFree : UInt32 := 0

/-- `BOFS_FD_USING`. -/
abbrev fdUsing : UInt32 := 0x80000000

/-- `BOFS_FLAGS_PIPE`. -/
abbrev flagsPipe : UInt32 := 0x100

/-- `BOFS_O_RDONLY`. -/
abbrev rdOnly : UInt32 := 0x01

/-- The flags that `SysOpen` can pass to `BOFS_Open`. -/
abbrev openMask : UInt32 := 0xbf

/-- The flags without which `BOFS_Open` opens nothing: read, write, both, and create. -/
abbrev accessMask : UInt32 := 0x0f

/-- `struct BOFS_FileDescriptor`. -/
structure FileDescriptor where
  flags : UInt32 := fdFree
  reference : Int := 0
  pos : Nat := 0
  pipe : Option Nat := none

/-- `IS_PIPE_FILE`. -/
def FileDescriptor.isPipe (file : FileDescriptor) : Bool := file.flags &&& flagsPipe != 0

/-- The reference counts of a `struct BOFS_Pipe`, and whether it has been freed. -/
structure PipeRefs where
  readReference : Int := 0
  writeReference : Int := 0
  freed : Bool := false

/-- The `fdTable` of a task, with `none` for `-1`. -/
abbrev FdTable := Fin maxOpenFiles → Option (Fin maxFdNr)

/-- The descriptor tables. -/
structure FileState (τ : Type*) where
  globalFdTable : Fin maxFdNr → FileDescriptor
  live : τ → Bool
  fdTable : τ → FdTable
  pipes : Nat → PipeRefs
  nextPipe : Nat

variable {τ : Type*} [DecidableEq τ]

namespace FileState

/-- `BOFS_InitFdTable`, with some tasks that have opened nothing. -/
def init (live : τ → Bool) : FileState τ :=
  { globalFdTable := fun _ => {}
    live
    fdTable := fun _ _ => none
    pipes := fun _ => {}
    nextPipe := 0 }

/-- Stores an entry of the global table. -/
def setFile (s : FileState τ) (fd : Fin maxFdNr) (file : FileDescriptor) : FileState τ :=
  { s with globalFdTable := Function.update s.globalFdTable fd file }

/-- Stores an entry of a task's table. -/
def setLocal (s : FileState τ) (t : τ) (localFd : Fin maxOpenFiles)
    (globalFd : Option (Fin maxFdNr)) : FileState τ :=
  let table := Function.update (s.fdTable t) localFd globalFd
  { s with fdTable := Function.update s.fdTable t table }

/-- Changes the reference count of an entry. -/
def addReference (s : FileState τ) (fd : Fin maxFdNr) (n : Int) : FileState τ :=
  s.setFile fd { s.globalFdTable fd with reference := (s.globalFdTable fd).reference + n }

/-- `BOFS_AllocFdGlobal`, with `none` for `-1`. -/
def allocFdGlobal (s : FileState τ) : Option (FileState τ × Fin maxFdNr) :=
  ((List.finRange maxFdNr).find? fun fd => (s.globalFdTable fd).flags = fdFree).map fun fd =>
    (s.setFile fd { s.globalFdTable fd with flags := fdUsing }, fd)

/-- `BOFS_FreeFdGlobal` and `BOFS_FreeFileDescriptorByPionter`. -/
def freeFdGlobal (s : FileState τ) (fd : Fin maxFdNr) : FileState τ :=
  s.setFile fd { s.globalFdTable fd with flags := fdFree, pos := 0 }

/-- `TaskInstallFD`, with `none` for `-1`. -/
def taskInstallFD (s : FileState τ) (t : τ) (globalFd : Fin maxFdNr) :
    FileState τ × Option (Fin maxOpenFiles) :=
  match (List.finRange maxOpenFiles).find? fun localFd => s.fdTable t localFd = none with
  | none => (s, none)
  | some localFd => (s.setLocal t localFd (some globalFd), some localFd)

/-- What `BOFS_OpenFile` and `BOFS_CreateFile` do to the tables, once the file is there. -/
def openFile (s : FileState τ) (t : τ) (flags : UInt32) :
    FileState τ × Option (Fin maxOpenFiles) :=
  match s.allocFdGlobal with
  | none => (s, none)
  | some (s, fd) =>
      (s.setFile fd { s.globalFdTable fd with pos := 0, reference := 1, flags }).taskInstallFD t fd

/-- `BOFS_Pipe`. Its allocations of memory can fail. It does not look at what `TaskInstallFD`
returns. -/
def pipe (s : FileState τ) (t : τ) (allocated : Bool) : FileState τ :=
  match s.allocFdGlobal with
  | none => s
  | some (s, readFd) =>
      match s.allocFdGlobal with
      | none => s.freeFdGlobal readFd
      | some (s, writeFd) =>
          if allocated then
            let pipe := s.nextPipe
            let s := { s with pipes := Function.update s.pipes pipe ⟨1, 1, false⟩, nextPipe := pipe + 1 }
            let s := s.setFile readFd { s.globalFdTable readFd with
              pipe := some pipe, pos := 0, reference := 1,
              flags := (s.globalFdTable readFd).flags ||| flagsPipe }
            let s := s.setFile writeFd { s.globalFdTable writeFd with
              pipe := some pipe, pos := 1, reference := 1,
              flags := (s.globalFdTable writeFd).flags ||| flagsPipe }
            ((s.taskInstallFD t readFd).1.taskInstallFD t writeFd).1
          else (s.freeFdGlobal writeFd).freeFdGlobal readFd

/-- The end of `BOFS_PipeClose`: the end of the pipe that the file is has no more references, and
a pipe without ends is freed. -/
def closePipeEnd (s : FileState τ) (file : FileDescriptor) : FileState τ :=
  match file.pipe with
  | none => s
  | some pipe =>
      let refs := s.pipes pipe
      let refs := if file.pos = 0 then { refs with readReference := 0 }
        else if file.pos = 1 then { refs with writeReference := 0 } else refs
      let refs := if refs.readReference = 0 ∧ refs.writeReference = 0 then
        { refs with freed := true } else refs
      { s with pipes := Function.update s.pipes pipe refs }

/-- `BOFS_PipeClose`. -/
def pipeClose (s : FileState τ) (fd : Fin maxFdNr) : FileState τ :=
  let s := s.addReference fd (-1)
  let file := s.globalFdTable fd
  if file.reference ≤ 0 then (s.closePipeEnd file).freeFdGlobal fd else s

/-- What `BOFS_Close` does to an entry of the global table. -/
def closeFile (s : FileState τ) (fd : Fin maxFdNr) : FileState τ :=
  if (s.globalFdTable fd).isPipe then s.pipeClose fd
  else
    let s := s.addReference fd (-1)
    if (s.globalFdTable fd).reference ≤ 0 then s.freeFdGlobal fd else s

/-- `BOFS_Close`, of a descriptor of the task's table. -/
def close (s : FileState τ) (t : τ) (localFd : Fin maxOpenFiles) : FileState τ :=
  match s.fdTable t localFd with
  | none => s
  | some fd => (s.closeFile fd).setLocal t localFd none

/-- The body of the loop of `BOFS_UpdateInodeOpenCounts`. -/
def updateCount (s : FileState τ) (t : τ) (localFd : Fin maxOpenFiles) : FileState τ :=
  match s.fdTable t localFd with
  | none => s
  | some fd => s.addReference fd 1

/-- The body of the loop of `BOFS_ReleaseTaskFiles`. -/
def releaseFile (s : FileState τ) (t : τ) (localFd : Fin maxOpenFiles) : FileState τ :=
  match s.fdTable t localFd with
  | none => s
  | some fd =>
      let s := s.addReference fd (-1)
      if (s.globalFdTable fd).reference = 0 then s.close t localFd else s

/-- Some rounds of a loop over the descriptors of a task. -/
def loopFds (body : FileState τ → Fin maxOpenFiles → FileState τ) (s : FileState τ) :
    Nat → FileState τ
  | 0 => s
  | n + 1 => if h : n < maxOpenFiles then body (loopFds body s n) ⟨n, h⟩ else loopFds body s n

/-- `BOFS_UpdateInodeOpenCounts`. -/
def updateInodeOpenCounts (s : FileState τ) (t : τ) : FileState τ :=
  loopFds (fun s localFd => s.updateCount t localFd) s maxOpenFiles

/-- `BOFS_ReleaseTaskFiles`. -/
def releaseTaskFiles (s : FileState τ) (t : τ) : FileState τ :=
  loopFds (fun s localFd => s.releaseFile t localFd) s maxOpenFiles

/-- The new task, with the table of its parent. -/
def copyTask (s : FileState τ) (parent child : τ) : FileState τ :=
  { s with
    live := Function.update s.live child true
    fdTable := Function.update s.fdTable child (s.fdTable parent) }

/-- The loop at the end of `SysExecv`. -/
def resetFds (s : FileState τ) (t : τ) : FileState τ :=
  let table : FdTable := fun localFd => if 3 ≤ localFd.val then none else s.fdTable t localFd
  { s with fdTable := Function.update s.fdTable t table }

/-- How `SysExecv` goes on after it has opened the program. With a bad header it jumps over the
initialisation of `current`, and that is not here. -/
inductive ExecEnd where
  | statFailed
  | toEnd
  deriving DecidableEq, Repr

/-- `SysExecv`. -/
def exec (s : FileState τ) (t : τ) (result : ExecEnd) : FileState τ :=
  match s.openFile t rdOnly with
  | (s, none) => s
  | (s, some fd) =>
      match result with
      | .statFailed => s
      | .toEnd => (s.close t fd).resetFds t

/-- `SysExit`. -/
def exit (s : FileState τ) (t : τ) : FileState τ :=
  let s := s.releaseTaskFiles t
  { s with live := Function.update s.live t false }

end FileState

/-- A call of a task. An `open` is one that gets as far as the tables. -/
inductive FileOp (τ : Type*) where
  | open (t : τ) (flags : UInt32)
  | pipe (t : τ) (allocated : Bool)
  | close (t : τ) (fd : Int)
  | fork (parent child : τ)
  | exec (t : τ) (result : FileState.ExecEnd)
  | exit (t : τ)

/-- The task that calls. -/
def FileOp.task : FileOp τ → τ
  | .open t _ | .pipe t _ | .close t _ | .fork t _ | .exec t _ | .exit t => t

/-- One call. -/
def fileStep (s : FileState τ) (op : FileOp τ) : Option (FileState τ) :=
  if s.live op.task then
    match op with
    | .open t flags =>
        if flags &&& openMask = flags ∧ flags &&& accessMask ≠ 0 then some (s.openFile t flags).1
        else none
    | .pipe t allocated => some (s.pipe t allocated)
    | .close t fd =>
        if h : 0 ≤ fd ∧ fd.toNat < maxOpenFiles then some (s.close t ⟨fd.toNat, h.2⟩) else some s
    | .fork parent child =>
        if s.live child then none else some ((s.copyTask parent child).updateInodeOpenCounts child)
    | .exec t result => some (s.exec t result)
    | .exit t => some (s.exit t)
  else none

end XBook.Files
