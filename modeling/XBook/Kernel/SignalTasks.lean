import XBook.Kernel.IoqueueTasks
import Mathlib.Data.Finset.Basic

/-!
# Signals to blocked tasks

`DoSendSignal` and `ForceSignal` of `kernel/signal.c`, for tasks that may be blocked in
`SemaphoreDown`, in `IoQueuePut` or `IoQueueGet`, in `MutexLock`, in `AddRequest` or in
`BOFS_FifoOpen`. There are any number of each. The code of a primitive is one step from where its
task begins to run to where it blocks or returns; what may happen within such a stretch is the
subject of the modules on the single primitives. A signal comes between any two steps.

A task is in the ready list exactly when its status is `ready`. `failed` says that an `ASSERT` has
failed, and `early` that a task went past a primitive without what it was waiting for.
-/

namespace XBook.Signals

open IoTasks (Side)

/-- `enum TaskStatus`, as far as signals use it. -/
inductive Status where
  | ready
  | running
  | blocked
  | stopped
  deriving DecidableEq, Repr

/-- What a task has set for a signal. -/
inductive Handler where
  /-- `SIG_DFL`. -/
  | dfl
  /-- `SIG_IGN`. -/
  | ign
  | user
  deriving DecidableEq, Repr

def sigkill : Nat := 9
def sigchld : Nat := 17
def sigcont : Nat := 18
def sigstop : Nat := 19
def sigtstp : Nat := 20
def sigttin : Nat := 21
def sigttou : Nat := 22
def sigurg : Nat := 23
def sigwinch : Nat := 28

/-- `MAX_SIGNAL_NR`. -/
def maxSignalNr : Nat := 32

/-- The signals that stop a task. -/
def stopSignals : Finset Nat := {sigstop, sigtstp, sigttou, sigttin}

/-- A semaphore of its own, or that of the lock of an io queue. -/
inductive Sem (Obj : Type*) where
  | own (s : Obj)
  | lock (q : Obj)
  deriving DecidableEq

/-- The primitive that a task is in. -/
inductive Place (Obj : Type*) where
  | idle
  /-- In `SemaphoreDown`. -/
  | down (s : Obj)
  /-- In `SyncLock` of an io queue. -/
  | syncLock (q : Obj) (k : Side)
  /-- In `IoQueueWait`. -/
  | ioWait (q : Obj) (k : Side)
  /-- In the slow path of `MutexLock`. -/
  | mutexLock (m : Obj)
  /-- In `TaskSleepOn` of `AddRequest`. -/
  | addRequest (d : Obj) (r : Nat)
  /-- In the request function of a driver. -/
  | transfer (d : Obj) (r : Nat)
  /-- In `TaskBlock` of `BOFS_FifoOpen`. -/
  | fifoOpen (f : Obj) (k : Side)
  deriving DecidableEq

/-- Where a task may be linked: in a list of wait nodes, by the pointer of a waiter of an io queue,
or with its own node. -/
inductive WaitList (Obj : Type*) where
  | semaphore (x : Sem Obj)
  | waiter (q : Obj) (k : Side)
  | mutex (m : Obj)
  | fifo (f : Obj)
  deriving DecidableEq

/-- Where the primitive links its task. -/
def Place.waitList {Obj : Type*} : Place Obj → Option (WaitList Obj)
  | .down s => some (.semaphore (.own s))
  | .syncLock q _ => some (.semaphore (.lock q))
  | .ioWait q k => some (.waiter q k)
  | .mutexLock m => some (.mutex m)
  | .fifoOpen f _ => some (.fifo f)
  | .idle | .addRequest _ _ | .transfer _ _ => none

/-- The task is in `MutexLock`. -/
def Place.InMutex {Obj : Type*} : Place Obj → Prop
  | .mutexLock _ => True
  | _ => False

instance {Obj : Type*} : DecidablePred (@Place.InMutex Obj)
  | .mutexLock _ => isTrue trivial
  | .idle | .down _ | .syncLock _ _ | .ioWait _ _ | .addRequest _ _ | .transfer _ _
  | .fifoOpen _ _ => isFalse id

/-- What signals and the primitives know of a task. The sets of signals are without their bit 0,
which is always set in `signalPending`. -/
structure Task (Obj : Type*) where
  status : Status
  place : Place Obj
  /-- The task has been given what it waits for. -/
  granted : Bool
  signalPending : Finset Nat
  signalBlocked : Finset Nat
  handler : Nat → Handler

/-- The tasks and the objects at which they block. -/
structure SignalTasks (Obj Tid : Type*) where
  current : Option Tid
  task : Tid → Task Obj
  waiting : WaitList Obj → List Tid
  /-- The semaphores. -/
  counter : Sem Obj → Nat
  /-- The io queues. -/
  size : Obj → Nat
  capacity : Obj → Nat
  holder : Obj → Option Tid
  holderReaptCount : Obj → Nat
  /-- The mutexes, and who has one. -/
  count : Obj → Int
  owners : Obj → List Tid
  /-- The request queues. The requests of one are numbered as they are made. -/
  currentRequest : Obj → Option Nat
  requests : Obj → List Nat
  waiter : Obj → Nat → Option Tid
  nextRequest : Obj → Nat
  ended : Obj → List Nat
  /-- The FIFOs, with their `writeReference` and `readReference`. -/
  reference : Obj → Side → Int
  early : Bool
  failed : Bool

namespace SignalTasks

variable {Obj Tid : Type*} [DecidableEq Obj] [DecidableEq Tid]

/-- Tasks that are ready, with any handlers, and objects that nobody uses. -/
def init (handler : Tid → Nat → Handler) (counter capacity : Obj → Nat) : SignalTasks Obj Tid :=
  { current := none
    task := fun p => ⟨.ready, .idle, false, ∅, ∅, handler p⟩
    waiting := fun _ => []
    counter := fun
      | .own s => counter s
      | .lock _ => 1
    size := fun _ => 0
    capacity
    holder := fun _ => none
    holderReaptCount := fun _ => 0
    count := fun _ => 1
    owners := fun _ => []
    currentRequest := fun _ => none
    requests := fun _ => []
    waiter := fun _ _ => none
    nextRequest := fun _ => 0
    ended := fun _ => []
    reference := fun _ _ => 0
    early := false
    failed := false }

def setTask (s : SignalTasks Obj Tid) (p : Tid) (task : Task Obj) : SignalTasks Obj Tid :=
  { s with task := Function.update s.task p task }

def setStatus (s : SignalTasks Obj Tid) (p : Tid) (status : Status) : SignalTasks Obj Tid :=
  s.setTask p { s.task p with status }

def link (s : SignalTasks Obj Tid) (w : WaitList Obj) (tasks : List Tid) : SignalTasks Obj Tid :=
  { s with waiting := Function.update s.waiting w tasks }

/-- An `ASSERT` fails. -/
def fail (s : SignalTasks Obj Tid) : SignalTasks Obj Tid := { s with failed := true }

/-! ## Blocking and waking -/

/-- The current task blocks in a primitive. -/
def block (s : SignalTasks Obj Tid) (p : Tid) (place : Place Obj) : SignalTasks Obj Tid :=
  { s.setTask p { s.task p with status := .blocked, place, granted := false } with current := none }

/-- The task returns from a primitive, with or without what it waited for. -/
def leave (s : SignalTasks Obj Tid) (p : Tid) (served : Bool) : SignalTasks Obj Tid :=
  { s.setTask p { s.task p with place := .idle } with early := s.early || !served }

/-- `TaskUnblock`. -/
def taskUnblock (s : SignalTasks Obj Tid) (q : Tid) : SignalTasks Obj Tid :=
  match (s.task q).status with
  | .blocked | .stopped => s.setStatus q .ready
  | .ready | .running => s.fail

/-- `TaskWakeUp`. -/
def taskWakeUp (s : SignalTasks Obj Tid) (q : Tid) : SignalTasks Obj Tid :=
  match (s.task q).status with
  | .blocked | .stopped => s.taskUnblock q
  | .ready | .running => s

def grant (s : SignalTasks Obj Tid) (q : Tid) (granted : Bool) : SignalTasks Obj Tid :=
  s.setTask q { s.task q with granted }

/-! ## Semaphores -/

/-- `SemaphoreUp`, with the `ASSERT` that the waiter is not in the ready list. -/
def semaphoreUp (s : SignalTasks Obj Tid) (x : Sem Obj) : SignalTasks Obj Tid :=
  match s.waiting (.semaphore x) with
  | [] => { s with counter := Function.update s.counter x (s.counter x + 1) }
  | q :: rest =>
      let t := (s.link (.semaphore x) rest).grant q true
      if (s.task q).status = .ready then t.fail else t.setStatus q .ready

/-- `__SemaphoreDown`. -/
def semaphoreWait (s : SignalTasks Obj Tid) (p : Tid) (x : Sem Obj) (place : Place Obj) :
    SignalTasks Obj Tid :=
  (s.link (.semaphore x) (s.waiting (.semaphore x) ++ [p])).block p place

/-- `SemaphoreDown`. -/
def semaphoreDown (s : SignalTasks Obj Tid) (p : Tid) (o : Obj) : SignalTasks Obj Tid :=
  if s.counter (.own o) > 0 then
    { s with counter := Function.update s.counter (.own o) (s.counter (.own o) - 1) }
  else s.semaphoreWait p (.own o) (.down o)

/-! ## Io queues -/

/-- `IoQueueFull` for a producer, `IoQueueEmpty` for a consumer. -/
def closed (s : SignalTasks Obj Tid) (q : Obj) : Side → Bool
  | .put => s.size q = s.capacity q
  | .get => s.size q = 0

/-- `IoQueueWait`. -/
def ioQueueWait (s : SignalTasks Obj Tid) (p : Tid) (q : Obj) (k : Side) : SignalTasks Obj Tid :=
  if s.waiting (.waiter q k) = [] then (s.link (.waiter q k) [p]).block p (.ioWait q k) else s.fail

/-- `IoQueueWakeUp`, where there is a waiter. -/
def ioQueueWakeUp (s : SignalTasks Obj Tid) (q : Obj) (k : Side) : SignalTasks Obj Tid :=
  match s.waiting (.waiter q k) with
  | [] => s
  | r :: _ => (s.taskUnblock r).link (.waiter q k) []

/-- `SyncLock` behind `SemaphoreDown`, and `IoQueueWait`. -/
def locked (s : SignalTasks Obj Tid) (p : Tid) (q : Obj) (k : Side) : SignalTasks Obj Tid :=
  if s.holderReaptCount q = 0 then
    { s with
      holder := Function.update s.holder q (some p)
      holderReaptCount := Function.update s.holderReaptCount q 1 }.ioQueueWait p q k
  else s.fail

/-- `SyncLock`, and `IoQueueWait` with the lock. -/
def syncLock (s : SignalTasks Obj Tid) (p : Tid) (q : Obj) (k : Side) : SignalTasks Obj Tid :=
  if s.holder q = some p then
    { s with
      holderReaptCount := Function.update s.holderReaptCount q (s.holderReaptCount q + 1)
      }.ioQueueWait p q k
  else if s.counter (.lock q) > 0 then
    { s with
      counter := Function.update s.counter (.lock q) (s.counter (.lock q) - 1) }.locked p q k
  else s.semaphoreWait p (.lock q) (.syncLock q k)

/-- `SyncUnlock`. -/
def syncUnlock (s : SignalTasks Obj Tid) (p : Tid) (q : Obj) : SignalTasks Obj Tid :=
  if s.holder q = some p then
    if s.holderReaptCount q > 1 then
      { s with
        holderReaptCount := Function.update s.holderReaptCount q (s.holderReaptCount q - 1) }
    else if s.holderReaptCount q = 1 then
      { s with
        holder := Function.update s.holder q none
        holderReaptCount := Function.update s.holderReaptCount q 0 }.semaphoreUp (.lock q)
    else s.fail
  else s.fail

/-- The item moves. -/
def move (s : SignalTasks Obj Tid) (q : Obj) : Side → SignalTasks Obj Tid
  | .put => { s with size := Function.update s.size q (s.size q + 1) }
  | .get => { s with size := Function.update s.size q (s.size q - 1) }

/-- `IoQueuePut` or `IoQueueGet` from the test of its loop on. -/
def ioQueue (s : SignalTasks Obj Tid) (p : Tid) (q : Obj) (k : Side) : SignalTasks Obj Tid :=
  if s.closed q k then s.syncLock p q k else (s.move q k).ioQueueWakeUp q k.other

/-! ## Mutexes -/

/-- The task has the mutex, which must be free. -/
def own (s : SignalTasks Obj Tid) (p : Tid) (m : Obj) : SignalTasks Obj Tid :=
  { s.leave p (s.owners m = []) with owners := Function.update s.owners m (p :: s.owners m) }

/-- The loop of `__MutexLock`, up to the next `Schedule`. -/
def mutexTry (s : SignalTasks Obj Tid) (p : Tid) (m : Obj) : SignalTasks Obj Tid :=
  if s.count m = 1 then
    let rest := (s.waiting (.mutex m)).erase p
    ({ s with count := Function.update s.count m (if rest = [] then 0 else -1) }.link
      (.mutex m) rest).own p m
  else { s with count := Function.update s.count m (-1) }.block p (.mutexLock m)

/-- `MutexLock`. -/
def mutexLock (s : SignalTasks Obj Tid) (p : Tid) (m : Obj) : SignalTasks Obj Tid :=
  let t : SignalTasks Obj Tid := { s with count := Function.update s.count m (s.count m - 1) }
  if s.count m - 1 ≥ 0 then t.own p m
  else (t.link (.mutex m) (s.waiting (.mutex m) ++ [p])).mutexTry p m

/-- `MutexUnlock`. -/
def mutexUnlock (s : SignalTasks Obj Tid) (p : Tid) (m : Obj) : SignalTasks Obj Tid :=
  let count := s.count m + 1
  let t : SignalTasks Obj Tid := { s with
    count := Function.update s.count m (if count > 1 then 1 else count)
    owners := Function.update s.owners m ((s.owners m).erase p) }
  if count = 1 then t
  else
    match s.waiting (.mutex m) with
    | [] => t
    | q :: _ => t.taskWakeUp q

/-! ## Requests -/

/-- `BlockFetchRequest` by the driver, whose elevator chooses the next request, and the return from
the request function when there is none. -/
def blockFetchRequest (s : SignalTasks Obj Tid) (p : Tid) (d : Obj) (choice : Nat) :
    Option (SignalTasks Obj Tid) :=
  if s.requests d = [] then some (s.setTask p { s.task p with place := .idle })
  else if choice ∈ s.requests d then some
    { s.setTask p { s.task p with place := .transfer d choice } with
      requests := Function.update s.requests d ((s.requests d).erase choice)
      currentRequest := Function.update s.currentRequest d (some choice) }
  else none

/-- `MakeRequest` with `AddRequest`. -/
def addRequest (s : SignalTasks Obj Tid) (p : Tid) (d : Obj) (choice : Nat) :
    Option (SignalTasks Obj Tid) :=
  let r := s.nextRequest d
  let t : SignalTasks Obj Tid := { s with
    requests := Function.update s.requests d (s.requests d ++ [r])
    waiter := Function.update s.waiter d (Function.update (s.waiter d) r (some p))
    nextRequest := Function.update s.nextRequest d (r + 1) }
  if s.currentRequest d = none then t.blockFetchRequest p d choice
  else some (t.block p (.addRequest d r))

/-- `BlockEndRequest`, and the way on to the next request. -/
def blockEndRequest (s : SignalTasks Obj Tid) (p : Tid) (d : Obj) (r choice : Nat) :
    Option (SignalTasks Obj Tid) :=
  let t := match s.waiter d r with
    | none => s
    | some q => s.taskWakeUp q
  { t with
    currentRequest := Function.update s.currentRequest d none
    ended := Function.update s.ended d (r :: s.ended d) }.blockFetchRequest p d choice

/-! ## FIFOs -/

/-- A task of the wait list of a FIFO is unlinked and made ready. It has been given its peer when
both ends are open. -/
def wakeOpener (s : SignalTasks Obj Tid) (f : Obj) (q : Tid) : SignalTasks Obj Tid :=
  (s.taskUnblock q).grant q (s.reference f .put > 0 ∧ s.reference f .get > 0)

/-- The loop of `BOFS_FifoOpen` over its wait list. -/
def drain (s : SignalTasks Obj Tid) (f : Obj) : SignalTasks Obj Tid :=
  ((s.waiting (.fifo f)).foldl (fun t q => t.wakeOpener f q) s).link (.fifo f) []

/-- `BOFS_FifoOpen`. -/
def fifoOpen (s : SignalTasks Obj Tid) (p : Tid) (f : Obj) (k : Side) : SignalTasks Obj Tid :=
  let references := Function.update (s.reference f) k (s.reference f k + 1)
  let t : SignalTasks Obj Tid := { s with reference := Function.update s.reference f references }
  if s.reference f k.other = 0 then
    (t.link (.fifo f) (p :: s.waiting (.fifo f))).block p (.fifoOpen f k)
  else t.drain f

/-- The change of a count in `BOFS_FifoClose`. -/
def fifoClose (s : SignalTasks Obj Tid) (f : Obj) (k : Side) : SignalTasks Obj Tid :=
  let references := Function.update (s.reference f) k (s.reference f k - 1)
  { s with reference := Function.update s.reference f references }

/-! ## Signals -/

/-- `HandleStopSignal`. -/
def handleStopSignal (s : SignalTasks Obj Tid) (signo : Nat) (q : Tid) : SignalTasks Obj Tid :=
  if signo = sigkill ∨ signo = sigcont then
    let t := if (s.task q).status = .stopped then s.taskWakeUp q else s
    t.setTask q { t.task q with signalBlocked := (t.task q).signalBlocked \ stopSignals }
  else if signo ∈ stopSignals then
    s.setTask q { s.task q with signalBlocked := (s.task q).signalBlocked.erase sigcont }
  else s

/-- `IgnoreSignal`. -/
def ignoreSignal (s : SignalTasks Obj Tid) (signo : Nat) (q : Tid) : Bool :=
  if signo ∈ (s.task q).signalBlocked then false
  else
    match (s.task q).handler signo with
    | .user => false
    | .ign => signo ≠ sigchld
    | .dfl => signo = sigcont ∨ signo = sigwinch ∨ signo = sigchld ∨ signo = sigurg

/-- `DeliverSignal`. -/
def deliverSignal (s : SignalTasks Obj Tid) (signo : Nat) (q : Tid) : SignalTasks Obj Tid :=
  let t := s.setTask q { s.task q with signalPending := insert signo (s.task q).signalPending }
  if signo ∉ (s.task q).signalBlocked ∧ (s.task q).status = .blocked then t.taskWakeUp q else t

/-- `DoSendSignal`. -/
def doSendSignal (s : SignalTasks Obj Tid) (signo : Nat) (q : Tid) : SignalTasks Obj Tid :=
  if signo < 1 ∨ signo ≥ maxSignalNr then s
  else
    let t := s.handleStopSignal signo q
    let u :=
      if t.ignoreSignal signo q then t
      else if signo ∈ (t.task q).signalPending then t
      else t.deliverSignal signo q
    if (u.task q).status = .blocked ∧ (u.task q).signalPending ≠ ∅ ∧
        signo ∉ (u.task q).signalBlocked then u.taskWakeUp q
    else u

/-- `ForceSignal`. -/
def forceSignal (s : SignalTasks Obj Tid) (signo : Nat) (q : Tid) : SignalTasks Obj Tid :=
  let old := (s.task q).handler
  let t := s.setTask q { s.task q with
    handler := if old signo = .ign then Function.update old signo .dfl else old
    signalBlocked := (s.task q).signalBlocked.erase signo }
  t.doSendSignal signo q

/-- `DoSignal` for one signal of the current task. A signal that ends the task is not followed. -/
def doSignal (s : SignalTasks Obj Tid) (p : Tid) (signo : Nat) : SignalTasks Obj Tid :=
  let task := { s.task p with signalPending := (s.task p).signalPending.erase signo }
  if task.handler signo = .dfl ∧ signo ∈ stopSignals then
    { s.setTask p { task with status := .stopped } with current := none }
  else s.setTask p task

/-! ## Running -/

/-- `Schedule` puts the current task into the ready list, and a ready task runs. -/
def switchTo (s : SignalTasks Obj Tid) (p : Tid) : SignalTasks Obj Tid :=
  let t := match s.current with
    | none => s
    | some c => s.setStatus c .ready
  { t.setStatus p .running with current := some p }

/-- The current task goes on behind the `Schedule` of the primitive that it is in. -/
def resume (s : SignalTasks Obj Tid) (p : Tid) : Place Obj → Option (SignalTasks Obj Tid)
  | .idle | .transfer _ _ => none
  | .down _ => some (s.leave p (s.task p).granted)
  | .syncLock q k => some ((s.leave p (s.task p).granted).locked p q k)
  | .ioWait q k => some (((s.leave p true).syncUnlock p q).ioQueue p q k)
  | .mutexLock m => some (s.mutexTry p m)
  | .addRequest d r => some (s.leave p (r ∈ s.ended d))
  | .fifoOpen f _ => some ((s.leave p (s.task p).granted).drain f)

end SignalTasks

/-- What the current task does, or a signal for any task. -/
inductive SignalOp (Obj Tid : Type*) where
  | down (s : Obj)
  | up (s : Obj)
  | ioQueue (q : Obj) (k : Side)
  | lock (m : Obj)
  | unlock (m : Obj)
  | request (d : Obj) (choice : Nat)
  | finish (choice : Nat)
  | fifoOpen (f : Obj) (k : Side)
  | fifoClose (f : Obj) (k : Side)
  | resume
  /-- `SysSignalProcessMask`. -/
  | processMask (set : Finset Nat)
  /-- `SysSignal` or `SysSignalAction`. -/
  | setAction (signo : Nat) (handler : Handler)
  | doSignal (signo : Nat)
  | switchTo (task : Tid)
  | sendSignal (signo : Nat) (task : Tid)
  | forceSignal (signo : Nat) (task : Tid)

variable {Obj Tid : Type*} [DecidableEq Obj] [DecidableEq Tid]

/-- What the current task does outside of the primitives. -/
def idleStep (s : SignalTasks Obj Tid) (p : Tid) : SignalOp Obj Tid → Option (SignalTasks Obj Tid)
  | .down o => some (s.semaphoreDown p o)
  | .up o => some (s.semaphoreUp (.own o))
  | .ioQueue q k => some (s.ioQueue p q k)
  | .lock m => some (s.mutexLock p m)
  | .unlock m => if p ∈ s.owners m then some (s.mutexUnlock p m) else none
  | .request d choice => s.addRequest p d choice
  | .fifoOpen f k => some (s.fifoOpen p f k)
  | .fifoClose f k => if 0 < s.reference f k then some (s.fifoClose f k) else none
  | .processMask set =>
      some (s.setTask p { s.task p with signalBlocked := set \ {sigkill, sigstop} })
  | .setAction signo handler => some (s.setTask p { s.task p with
      handler := Function.update (s.task p).handler signo handler })
  | .doSignal signo =>
      if signo ∈ (s.task p).signalPending ∧ signo ∉ (s.task p).signalBlocked then
        some (s.doSignal p signo)
      else none
  | _ => none

/-- One step. After a failed `ASSERT` there is none. -/
def signalStep (s : SignalTasks Obj Tid) (op : SignalOp Obj Tid) : Option (SignalTasks Obj Tid) :=
  if s.failed then none
  else
    match op with
    | .sendSignal signo q => some (s.doSendSignal signo q)
    | .forceSignal signo q => some (s.forceSignal signo q)
    | .switchTo p => if (s.task p).status = .ready then some (s.switchTo p) else none
    | .resume =>
        match s.current with
        | none => none
        | some p => s.resume p (s.task p).place
    | .finish choice =>
        match s.current with
        | none => none
        | some p =>
            match (s.task p).place with
            | .transfer d r => s.blockEndRequest p d r choice
            | _ => none
    | op =>
        match s.current with
        | none => none
        | some p => if (s.task p).place = .idle then idleStep s p op else none

/-- A task that wakes in `BOFS_FifoOpen` finds nobody else, or both ends open. -/
def SignalTasks.MayDrain (s : SignalTasks Obj Tid) : Place Obj → Prop
  | .fifoOpen f _ => s.waiting (.fifo f) = [] ∨ ∀ k, 0 < s.reference f k
  | _ => True

/-- What must be spared: a signal that is not blocked for a task that is blocked elsewhere than in
`MutexLock`; and a task that wakes in `BOFS_FifoOpen`, with others there, after one of the ends has
been closed. -/
def signalGuard (s : SignalTasks Obj Tid) : SignalOp Obj Tid → Prop
  | .sendSignal signo q =>
      (s.task q).status = .blocked → signo ∉ (s.task q).signalBlocked → (s.task q).place.InMutex
  | .forceSignal _ q => (s.task q).status = .blocked → (s.task q).place.InMutex
  | .resume => ∀ p ∈ s.current, s.MayDrain (s.task p).place
  | _ => True

instance (s : SignalTasks Obj Tid) : DecidablePred s.MayDrain
  | .fifoOpen _ _ => inferInstanceAs (Decidable (_ ∨ _))
  | .idle | .down _ | .syncLock _ _ | .ioWait _ _ | .mutexLock _ | .addRequest _ _
  | .transfer _ _ => inferInstanceAs (Decidable True)

instance (s : SignalTasks Obj Tid) : DecidablePred (signalGuard s)
  | .sendSignal _ _ => inferInstanceAs (Decidable (_ → _ → _))
  | .forceSignal _ _ => inferInstanceAs (Decidable (_ → _))
  | .resume => inferInstanceAs (Decidable (∀ p ∈ s.current, s.MayDrain (s.task p).place))
  | .down _ | .up _ | .ioQueue _ _ | .lock _ | .unlock _ | .request _ _ | .finish _
  | .fifoOpen _ _ | .fifoClose _ _ | .processMask _ | .setAction _ _ | .doSignal _
  | .switchTo _ => inferInstanceAs (Decidable True)

end XBook.Signals
