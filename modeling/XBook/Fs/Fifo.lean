import XBook.Fs.Pipe

/-!
# The ends of a FIFO

`BOFS_FifoOpen`, `BOFS_FifoUpdate` and `BOFS_FifoClose` of `fs/bofs/fifo.c`, and the task tables of
`fs/bofs/pipe.c`. A task that opens an end without another one sleeps in the call, so that an open
is two steps. The reading and writing of a FIFO is in `XBook.Fs.Pipe`.
-/

namespace XBook.Pipes

open IoTasks (Side)

/-- `MAX_PIPE_PER_TASK_NR`. -/
abbrev maxPipePerTaskNr : Nat := 32

/-- `BOFS_O_RDONLY`. -/
abbrev rdOnly : UInt32 := 0x01

/-- `BOFS_O_WRONLY`. -/
abbrev wrOnly : UInt32 := 0x02

/-- A `readTaskTable` or `writeTaskTable`, with `none` for `-1`. -/
structure TaskTable (Tid : Type*) where
  slots : List (Option Tid)
  length_eq : slots.length = maxPipePerTaskNr

namespace TaskTable

variable {Tid : Type*}

/-- The table of `BOFS_PipeInit`. -/
def empty : TaskTable Tid := ⟨.replicate maxPipePerTaskNr none, List.length_replicate⟩

def set (table : TaskTable Tid) (i : Nat) (slot : Option Tid) : TaskTable Tid :=
  ⟨table.slots.set i slot, by rw [List.length_set, table.length_eq]⟩

/-- The number of slots with a task. -/
def occupied (table : TaskTable Tid) : Nat := table.slots.countP Option.isSome

variable [DecidableEq Tid]

/-- The loop of `BOFS_PipeRecordReadTask` and `BOFS_PipeRecordWriteTask`, from slot `i` on. It goes
no further than the first free slot. -/
def recordSlot (p : Tid) : List (Option Tid) → Nat → Option Nat
  | [], _ => none
  | slot :: rest, i =>
      if slot = some p then none
      else if slot = none then some i
      else recordSlot p rest (i + 1)

/-- `BOFS_PipeRecordReadTask` and `BOFS_PipeRecordWriteTask`, with `none` where they return `-1`. -/
def record (table : TaskTable Tid) (p : Tid) : Option (TaskTable Tid) :=
  (recordSlot p table.slots 0).map fun i => table.set i (some p)

/-- `BOFS_PipeEraseReadTask` and `BOFS_PipeEraseWriteTask`, with `none` where they return `-1`. -/
def erase (table : TaskTable Tid) (p : Tid) : Option (TaskTable Tid) :=
  (table.slots.findIdx? (· = some p)).map fun i => table.set i none

end TaskTable

/-- The `struct BOFS_Pipe` of a FIFO without its queue, and what the calls do to the tasks: who
sleeps in `BOFS_FifoOpen`, and for whom interrupts are enabled. -/
structure FifoEnds (Tid : Type*) where
  reference : Side → Int
  tasks : Side → TaskTable Tid
  waitList : List Tid
  asleep : Tid → Bool
  interrupts : Tid → Bool

namespace FifoEnds

variable {Tid : Type*}

/-- A FIFO of `BOFS_PipeInit`. -/
def init (interrupts : Tid → Bool) : FifoEnds Tid :=
  { reference := fun _ => 0
    tasks := fun _ => .empty
    waitList := []
    asleep := fun _ => false
    interrupts }

variable [DecidableEq Tid]

/-- `InterruptSetStatus` and `InterruptDisable`, by the task. -/
def setInterrupts (s : FifoEnds Tid) (p : Tid) (status : Bool) : FifoEnds Tid :=
  { s with interrupts := Function.update s.interrupts p status }

def setTasks (s : FifoEnds Tid) (k : Side) (table : TaskTable Tid) : FifoEnds Tid :=
  { s with tasks := Function.update s.tasks k table }

/-- `AtomicInc` and `AtomicDec` of `readReference` or `writeReference`. -/
def addReference (s : FifoEnds Tid) (k : Side) (n : Int) : FifoEnds Tid :=
  { s with reference := Function.update s.reference k (s.reference k + n) }

/-- The loop that wakes who waits for the end. -/
def wakeAll (s : FifoEnds Tid) : FifoEnds Tid := { s with waitList := [] }

/-- The end that the flags of an open are for. -/
def openSide (flags : UInt32) : Option Side :=
  if flags &&& rdOnly ≠ 0 then some .get else if flags &&& wrOnly ≠ 0 then some .put else none

/-- `BOFS_FifoOpen`, up to its end or to its sleep. It returns nothing while it sleeps. -/
def fifoOpen (s : FifoEnds Tid) (p : Tid) (flags : UInt32) : FifoEnds Tid × Option Int :=
  let oldStatus := s.interrupts p
  let s := s.setInterrupts p false
  match openSide flags with
  | none => (s.setInterrupts p oldStatus, some (-1))
  | some k =>
      match (s.tasks k).record p with
      | none => (s, some (-1))
      | some table =>
          let s := (s.setTasks k table).addReference k 1
          if s.reference k.other = 0 then
            let s := { s with waitList := p :: s.waitList, asleep := Function.update s.asleep p true }
            (s.setInterrupts p oldStatus, none)
          else (s.wakeAll.setInterrupts p oldStatus, some 0)

/-- `BOFS_FifoOpen` after its sleep, whoever has unblocked the task. -/
def fifoWake (s : FifoEnds Tid) (p : Tid) : FifoEnds Tid × Option Int :=
  let oldStatus := s.interrupts p
  let s := { s.setInterrupts p false with asleep := Function.update s.asleep p false }
  (s.wakeAll.setInterrupts p oldStatus, some 0)

/-- `BOFS_FifoUpdate`. -/
def fifoUpdate (s : FifoEnds Tid) (parent child : Tid) : FifoEnds Tid × Option Int :=
  match pipeInTable parent (s.tasks .get).slots (s.tasks .put).slots with
  | none => (s, some (-1))
  | some k =>
      let s := s.addReference k 1
      match (s.tasks k).record child with
      | none => (s, some (-1))
      | some table => (s.setTasks k table, some 0)

/-- `BOFS_FifoClose`. -/
def fifoClose (s : FifoEnds Tid) (p : Tid) : FifoEnds Tid × Option Int :=
  match pipeInTable p (s.tasks .get).slots (s.tasks .put).slots with
  | none => (s, some (-1))
  | some k =>
      let s := s.addReference k (-1)
      match (s.tasks k).erase p with
      | none => (s, some (-1))
      | some table => (s.setTasks k table, some 0)

end FifoEnds

/-- What a task does at a FIFO: it opens an end, goes on after its sleep, forks a child, or closes
an end. -/
inductive FifoOp (Tid : Type*) where
  | open (p : Tid) (flags : UInt32)
  | wake (p : Tid)
  | update (parent child : Tid)
  | close (p : Tid)

variable {Tid : Type*} [DecidableEq Tid]

/-- One call, or one part of an open, with what it returns. A task that sleeps does no more than
wake. -/
def fifoCall (s : FifoEnds Tid) : FifoOp Tid → Option (FifoEnds Tid × Option Int)
  | .open p flags => if s.asleep p then none else some (s.fifoOpen p flags)
  | .wake p => if s.asleep p then some (s.fifoWake p) else none
  | .update parent child => if s.asleep parent then none else some (s.fifoUpdate parent child)
  | .close p => if s.asleep p then none else some (s.fifoClose p)

def fifoStep (s : FifoEnds Tid) (op : FifoOp Tid) : Option (FifoEnds Tid) :=
  (fifoCall s op).map Prod.fst

end XBook.Pipes
