import XBook.Kernel.Task
import XBook.Lib.Transition

/-!
# The semaphore

`include/book/semaphore.h`, for any set of tasks. Each task is at a `SemaphorePc`, and one step is
one memory access or one list operation of the source. Nothing in it disables interrupts, so an
interrupt may call `Schedule` before any step.

The state also keeps who holds a permit, for the statements about it. A task gets a permit when
it decrements the counter or is made ready by an Up. An Up gives back a permit of its task when
it takes effect, and is counted in `extraUps` when its task has none.
-/

namespace XBook

open Transition

/-- The variable `waiter` of one call of `__SemaphoreDown`: its task, and the number of the call
among the calls of the task. -/
structure Waiter (Tid : Type*) where
  task : Tid
  call : Nat
  deriving DecidableEq, Repr

/-- Where a task is in the semaphore functions. -/
inductive SemaphorePc (Tid : Type*) where
  /-- Outside. -/
  | idle
  /-- `AtomicDec(&sema->counter)`, after the test of the counter. -/
  | downDec
  /-- `current->status = TASK_BLOCKED`. -/
  | setBlocked
  /-- `ListAddTail(&waiter.waitList, &sema->waiter.waitList)`. -/
  | addTail
  /-- `Schedule()`. -/
  | schedule
  /-- Inside `Schedule()`, which returns when the task runs again. -/
  | scheduled
  /-- `AtomicInc(&sema->counter)`. -/
  | upInc
  /-- `ListFirstOwner`. -/
  | firstOwner
  /-- `ListDel(&waiter->waitList)`. -/
  | listDel (waiter : Waiter Tid)
  /-- `waiter->task->status = TASK_READY`. -/
  | setReady (waiter : Waiter Tid)
  /-- `ListAdd(&waiter->task->list, &taskReadyList)`. -/
  | addReady (waiter : Waiter Tid)
  deriving DecidableEq, Repr

/-- A semaphore, the tasks that use it and the scheduler. -/
structure SemaphoreState (Tid : Type*) where
  counter : Int
  waitList : List (Waiter Tid)
  pc : Tid → SemaphorePc Tid
  /-- The calls of `__SemaphoreDown` that a task has made. -/
  calls : Tid → Nat
  tasks : TaskTable Tid
  /-- The permits that a task holds. -/
  held : Tid → Nat
  /-- The number of Ups without a matching Down. -/
  extraUps : Nat

/-- A move of the system: the current task begins a call or goes on in one, or an interrupt calls
`Schedule`. -/
inductive SemaphoreMove where
  | down
  | up
  | step
  | interrupt
  deriving DecidableEq, Repr

namespace SemaphoreState

variable {Tid : Type*} [DecidableEq Tid]

/-- The state that `SemaphoreInit` leaves, with every task outside. -/
def init (value : Nat) (tasks : TaskTable Tid) : SemaphoreState Tid :=
  { counter := int32 value, waitList := [], pc := fun _ => .idle, calls := fun _ => 0,
    tasks := tasks, held := fun _ => 0, extraUps := 0 }

/-- The task goes to another place. -/
def goto (s : SemaphoreState Tid) (t : Tid) (pc : SemaphorePc Tid) : SemaphoreState Tid :=
  { s with pc := Function.update s.pc t pc }

/-- The task gets a permit. -/
def grant (s : SemaphoreState Tid) (t : Tid) : SemaphoreState Tid :=
  { s with held := Function.update s.held t (s.held t + 1) }

/-- An Up of the task takes effect. -/
def giveBack (s : SemaphoreState Tid) (t : Tid) : SemaphoreState Tid :=
  { s with
    held := Function.update s.held t (s.held t - 1)
    extraUps := if s.held t = 0 then s.extraUps + 1 else s.extraUps }

/-- The test of the counter in `SemaphoreDown`. -/
def beginDown (s : SemaphoreState Tid) (t : Tid) : SemaphoreState Tid :=
  if s.counter > 0 then s.goto t .downDec
  else { s with calls := Function.update s.calls t (s.calls t + 1) }.goto t .setBlocked

/-- The test of the wait list in `SemaphoreUp`. -/
def beginUp (s : SemaphoreState Tid) (t : Tid) : SemaphoreState Tid :=
  if s.waitList = [] then s.goto t .upInc else s.goto t .firstOwner

/-- The next step of a task inside a call. There is none where the source follows a pointer to
`NULL`, the task of the list head, or deletes a list node of a function that has returned. -/
def advance (s : SemaphoreState Tid) (t : Tid) : SemaphorePc Tid → Option (SemaphoreState Tid)
  | .idle => none
  | .downDec => some (({ s with counter := atomicDec s.counter }.grant t).goto t .idle)
  | .setBlocked => some ({ s with tasks := s.tasks.setStatus t .blocked }.goto t .addTail)
  | .addTail =>
      some ({ s with waitList := s.waitList ++ [Waiter.mk t (s.calls t)] }.goto t .schedule)
  | .schedule => some ({ s with tasks := s.tasks.schedule }.goto t .scheduled)
  | .scheduled => some (s.goto t .idle)
  | .upInc => some (({ s with counter := atomicInc s.counter }.giveBack t).goto t .idle)
  | .firstOwner =>
      match s.waitList with
      | [] => none
      | waiter :: _ => some (s.goto t (.listDel waiter))
  | .listDel waiter =>
      if waiter ∈ s.waitList then
        some ({ s with waitList := s.waitList.erase waiter }.goto t (.setReady waiter))
      else none
  | .setReady waiter =>
      let s := { s with tasks := s.tasks.setStatus waiter.task .ready }
      some (((s.giveBack t).grant waiter.task).goto t (.addReady waiter))
  | .addReady waiter =>
      let tasks := { s.tasks with taskReadyList := waiter.task :: s.tasks.taskReadyList }
      some ({ s with tasks := tasks }.goto t .idle)

/-- One move of the system. -/
def move (s : SemaphoreState Tid) : SemaphoreMove → Option (SemaphoreState Tid)
  | .interrupt => some { s with tasks := s.tasks.schedule }
  | .down =>
      match s.tasks.current with
      | some t => if s.pc t = .idle then some (s.beginDown t) else none
      | none => none
  | .up =>
      match s.tasks.current with
      | some t => if s.pc t = .idle then some (s.beginUp t) else none
      | none => none
  | .step =>
      match s.tasks.current with
      | some t => s.advance t (s.pc t)
      | none => none

end SemaphoreState

end XBook
