import XBook.Kernel.Ioqueue
import XBook.Kernel.IoqueueTasks
import XBook.Lib.Tally

/-!
# Pipes and FIFOs

`fs/bofs/pipe.c`, and the reading, writing and closing of `fs/bofs/fifo.c`. Both keep their bytes
in an io queue, and both count the ends that are open. A task that reads or writes is at some point
of its call, and within `IoQueueGet` or `IoQueuePut` it is one of the tasks at that queue. Here the
producers are the writers, and the consumers are the readers.
-/

namespace XBook.Pipes

open IoTasks (Side Place IoQueueTasks)

/-- `PIPE_SIZE`. -/
def pipeSize : Nat := 4096

/-- A pipe of `BOFS_Pipe`, or one that belongs to a file. -/
inductive PipeKind where
  | pipe
  | fifo
  deriving DecidableEq, Repr

/-- What is left to do of a call. -/
inductive Call where
  /-- The test of `writeReference`. -/
  | readTest (count : UInt32)
  /-- The first byte, with a writer there. -/
  | readFirst (count : UInt32)
  /-- The number of bytes after the first one. -/
  | readLength (count : UInt32)
  /-- The number of bytes, with no writer there. -/
  | readRest (count : UInt32)
  /-- The bytes of the loop. -/
  | readLoop (len : Nat)
  /-- The test of `readReference`. -/
  | writeTest (bytes : List UInt8)
  /-- The bytes of the loop. -/
  | writeLoop (bytes : List UInt8)
  deriving DecidableEq, Repr

def Call.side : Call → Side
  | .readTest _ | .readFirst _ | .readLength _ | .readRest _ | .readLoop _ => .get
  | .writeTest _ | .writeLoop _ => .put

/-- The items that a call puts or gets before it looks at the pipe again. -/
def Call.need : Call → Nat
  | .readFirst _ => 1
  | .readLoop len => len
  | .writeLoop bytes => bytes.length
  | .readTest _ | .readLength _ | .readRest _ | .writeTest _ => 0

/-- What is written of the bytes. The length of `BOFS_FifoWrite` is an `int`. -/
def PipeKind.written : PipeKind → List UInt8 → List UInt8
  | .pipe, bytes => bytes
  | .fifo, bytes => if bytes.length < 2 ^ 31 then bytes else []

/-- What a read takes when there is no writer. `BOFS_PipeRead` does not look at its `count`. -/
def PipeKind.rest : PipeKind → UInt32 → Nat → Nat
  | .pipe, _, size => size
  | .fifo, count, size => min count.toNat size

/-- `struct BOFS_Pipe` with the tasks at it. `reference` has the fields `writeReference` and
`readReference`, `tasks` has `writeTaskTable` and `readTaskTable`, and `fileReference` has the
`reference` of the two files of a pipe. -/
structure PipeTasks (Tid : Type*) where
  kind : PipeKind
  io : IoQueueTasks Tid
  data : IoQueueTrace
  reference : Side → Int
  fileReference : Side → Int
  tasks : Side → List (Option Tid)
  /-- The ends in the descriptor table of the task. -/
  opened : Side → Tid → Bool
  calls : Tid → Option Call
  freed : Bool
  /-- Some read with a count has returned no byte. -/
  ended : Bool

/-- `BOFS_PipeInTable`. -/
def pipeInTable {Tid : Type*} [DecidableEq Tid] (p : Tid) :
    List (Option Tid) → List (Option Tid) → Option Side
  | r :: reads, w :: writes =>
      if r = some p then some .get
      else if w = some p then some .put
      else pipeInTable p reads writes
  | _, _ => none

/-- The number of tasks that have an end open. -/
def openCount {Tid : Type*} [Fintype Tid] (opened : Tid → Bool) : Nat :=
  Tally.tally fun p => (opened p).toNat

/-- The ends that are open at the start. A pipe has a task at each of its ends, and in the task
tables of a FIFO is nobody twice. -/
structure Opened {Tid : Type*} [DecidableEq Tid] (kind : PipeKind)
    (tasks : Side → List (Option Tid)) : Prop where
  slots : (tasks .get).length = (tasks .put).length
  once : ∀ k p, (tasks k).count (some p) ≤ 1
  ends : kind = .pipe → ∀ k, ∃ p, some p ∈ tasks k

namespace PipeTasks

variable {Tid : Type*} [DecidableEq Tid]

/-- A pipe with the ends of these tasks open. `BOFS_PipeInit` makes its queue, in whatever memory
`kmalloc` has returned. -/
def init [Fintype Tid] (kind : PipeKind) (tasks : Side → List (Option Tid)) (buf : Nat → Nat) :
    PipeTasks Tid :=
  { kind
    io := .init pipeSize
    data := .init buf pipeSize 1
    reference := fun k => match kind with
      | .pipe => 1
      | .fifo => openCount fun p => some p ∈ tasks k
    fileReference := fun k => openCount fun p => some p ∈ tasks k
    tasks
    opened := fun k p => some p ∈ tasks k
    calls := fun _ => none
    freed := false
    ended := false }

def setCall (s : PipeTasks Tid) (p : Tid) (call : Option Call) : PipeTasks Tid :=
  { s with calls := Function.update s.calls p call }

/-- The call of `IoQueuePut` or `IoQueueGet`. -/
def enter (s : PipeTasks Tid) (p : Tid) (k : Side) : PipeTasks Tid :=
  { s with io := s.io.setFrames p [.test k] }

/-- The step of a call outside of the queue. -/
def callStep (s : PipeTasks Tid) (p : Tid) : Call → PipeTasks Tid
  | .readTest count =>
      s.setCall p (some (if s.reference .put > 0 then .readFirst count else .readRest count))
  | .readFirst _ => s.enter p .get
  | .readLength count => s.setCall p (some (.readLoop (min (count - 1).toNat s.data.queue.size)))
  | .readRest count =>
      let len := s.kind.rest count s.data.queue.size
      { s.setCall p (some (.readLoop len)) with ended := s.ended || (len = 0 && count ≠ 0) }
  | .readLoop 0 => s.setCall p none
  | .readLoop (_ + 1) => s.enter p .get
  | .writeTest bytes =>
      if s.reference .get > 0 then s.setCall p (some (.writeLoop (s.kind.written bytes)))
      else s.setCall p none
  | .writeLoop [] => s.setCall p none
  | .writeLoop (_ :: _) => s.enter p .put

/-- A byte goes into the queue. -/
def putByte (s : PipeTasks Tid) (byte : UInt8) : PipeTasks Tid :=
  { s with data := { s.data with
      queue := s.data.queue.ioQueuePut byte.toNat
      puts := s.data.puts ++ [byte.toNat] } }

/-- A byte comes out of the queue. The caller keeps no more than it of the word. -/
def getByte (s : PipeTasks Tid) : PipeTasks Tid :=
  let r := s.data.queue.ioQueueGet 0
  { s with data := { s.data with queue := r.1, gets := s.data.gets ++ [r.2] } }

/-- The byte of the call moves. -/
def move (s : PipeTasks Tid) (p : Tid) : Call → PipeTasks Tid
  | .readFirst count => s.getByte.setCall p (some (.readLength count))
  | .readLoop (len + 1) => s.getByte.setCall p (some (.readLoop len))
  | .writeLoop (byte :: bytes) => (s.putByte byte).setCall p (some (.writeLoop bytes))
  | .readTest _ | .readLength _ | .readRest _ | .readLoop 0 | .writeTest _ | .writeLoop [] => s

/-- `BOFS_PipeClose` of the file of an end. -/
def pipeClose (s : PipeTasks Tid) (k : Side) : PipeTasks Tid :=
  let s := { s with fileReference := Function.update s.fileReference k (s.fileReference k - 1) }
  if s.fileReference k ≤ 0 then
    let s := { s with reference := Function.update s.reference k 0 }
    if s.reference .get = 0 ∧ s.reference .put = 0 then { s with freed := true } else s
  else s

/-- `BOFS_FifoClose` by a task. -/
def fifoClose (s : PipeTasks Tid) (p : Tid) : PipeTasks Tid :=
  match pipeInTable p (s.tasks .get) (s.tasks .put) with
  | none => s
  | some k => { s with
      reference := Function.update s.reference k (s.reference k - 1)
      tasks := Function.update s.tasks k ((s.tasks k).replace (some p) none) }

/-- The task has the end no more. -/
def dropEnd (s : PipeTasks Tid) (p : Tid) (k : Side) : PipeTasks Tid :=
  { s with opened := Function.update s.opened k (Function.update (s.opened k) p false) }

/-- `BOFS_Close`. -/
def close (s : PipeTasks Tid) (p : Tid) (k : Side) : PipeTasks Tid :=
  match s.kind with
  | .pipe => (s.pipeClose k).dropEnd p k
  | .fifo => (s.fifoClose p).dropEnd p k

/-- `BOFS_ReleaseTaskFiles`, when the task exits. It takes one more reference of the file away when
it is the last one. -/
def release (s : PipeTasks Tid) (p : Tid) (k : Side) : PipeTasks Tid :=
  match s.kind with
  | .pipe =>
      let s := { s with fileReference := Function.update s.fileReference k (s.fileReference k - 1) }
      (if s.fileReference k = 0 then s.pipeClose k else s).dropEnd p k
  | .fifo => (s.fifoClose p).dropEnd p k

end PipeTasks

/-- What a task does: it calls `BOFS_PipeRead` or `BOFS_FifoRead`, or `BOFS_PipeWrite` or
`BOFS_FifoWrite`, it goes on in its call, it closes an end, or exits with it. -/
inductive PipeOp (Tid : Type*) where
  | read (task : Tid) (count : UInt32)
  | write (task : Tid) (bytes : List UInt8)
  | advance (task : Tid)
  | close (task : Tid) (k : Side)
  | release (task : Tid) (k : Side)

variable {Tid : Type*} [DecidableEq Tid]

/-- One step of a task. -/
def pipeStep (s : PipeTasks Tid) : PipeOp Tid → Option (PipeTasks Tid)
  | .read p count =>
      if s.calls p = none ∧ s.opened .get p then some (s.setCall p (some (.readTest count)))
      else none
  | .write p bytes =>
      if s.calls p = none ∧ s.opened .put p then some (s.setCall p (some (.writeTest bytes)))
      else none
  | .advance p =>
      match s.calls p, s.io.frames p with
      | none, _ => none
      | some call, [] => some (s.callStep p call)
      | some call, .toMove k :: rest =>
          (s.io.frameStep p rest (.toMove k)).map fun io => { s with io }.move p call
      | some _, place :: rest => (s.io.frameStep p rest place).map fun io => { s with io }
  | .close p k => if s.calls p = none ∧ s.opened k p then some (s.close p k) else none
  | .release p k => if s.calls p = none ∧ s.opened k p then some (s.release p k) else none

/-! ## The guard -/

/-- The items of this side that a task puts or gets before it looks at the pipe again. -/
def need (k : Side) : Option Call → Nat
  | some call => if call.side = k then call.need else 0
  | none => 0

/-- The items of this side that all tasks put or get before they look at the pipe again. -/
def PipeTasks.needed [Fintype Tid] (s : PipeTasks Tid) (k : Side) : Nat :=
  Tally.tally fun p => need k (s.calls p)

/-- The items that there are to get, or the room that there is to put them. -/
def PipeTasks.room (s : PipeTasks Tid) : Side → Nat
  | .get => s.data.queue.size
  | .put => pipeSize - s.data.queue.size

/-- Nobody has the end open. -/
def PipeTasks.Closed (s : PipeTasks Tid) (k : Side) : Prop := ∀ p, s.opened k p = false

/-- The number of bytes that the next step of a read settles on. -/
def PipeTasks.taking (s : PipeTasks Tid) : Call → Nat
  | .readLength count => min (count - 1).toNat s.data.queue.size
  | .readRest count => s.kind.rest count s.data.queue.size
  | .readTest _ | .readFirst _ | .readLoop _ | .writeTest _ | .writeLoop _ => 0

/-- The closing of an end by a task. The last one of an end closes it only when the calls of the
other end find all that they need, and at a FIFO it is done by a task that has one end only. -/
def closeGuard [Fintype Tid] (s : PipeTasks Tid) (p : Tid) (k : Side) : Prop :=
  (s.kind = .fifo → s.opened k.other p = false) ∧
    ((∀ q, q ≠ p → s.opened k q = false) → s.needed k.other ≤ s.room k.other)

/-- What the tasks must not do: move an item where there is none, or no room, any more; settle on
bytes that another reader has settled on, when no more will come; and close an end for good under
a call of the other end that needs it. -/
def pipeGuard [Fintype Tid] (s : PipeTasks Tid) : PipeOp Tid → Prop
  | .read _ _ | .write _ _ => True
  | .advance p =>
      (∀ k, s.io.top p = some (.toMove k) → s.io.Open k) ∧
        ∀ call, s.calls p = some call → s.Closed .put → 0 < s.taking call →
          s.needed .get + s.taking call ≤ s.room .get
  | .close p k | .release p k => closeGuard s p k

instance [Fintype Tid] (s : PipeTasks Tid) : DecidablePred s.Closed := fun k =>
  inferInstanceAs (Decidable (∀ p, s.opened k p = false))

instance [Fintype Tid] (s : PipeTasks Tid) (p : Tid) (k : Side) : Decidable (closeGuard s p k) :=
  inferInstanceAs (Decidable (_ ∧ _))

instance [Fintype Tid] (s : PipeTasks Tid) : DecidablePred (pipeGuard s)
  | .read _ _ | .write _ _ => inferInstanceAs (Decidable True)
  | .advance p =>
      have : Decidable (∀ call, s.calls p = some call → s.Closed .put → 0 < s.taking call →
          s.needed .get + s.taking call ≤ s.room .get) :=
        match s.calls p with
        | none => isTrue fun _ h => nomatch h
        | some call =>
            decidable_of_iff (s.Closed .put → 0 < s.taking call →
              s.needed .get + s.taking call ≤ s.room .get)
              ⟨fun h _ heq => Option.some.inj heq ▸ h, fun h => h call rfl⟩
      inferInstanceAs (Decidable (_ ∧ _))
  | .close p k | .release p k => inferInstanceAs (Decidable (closeGuard s p k))

end XBook.Pipes
