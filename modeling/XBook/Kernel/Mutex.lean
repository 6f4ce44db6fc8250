import XBook.Kernel.Task
import XBook.Lib.Transition

/-!
# The mutex

`kernel/mutex.c`, for any set of tasks. Each task is at a `MutexPc`, and one step is one memory
access or one list operation of the source, with these exceptions: the decrement and test of
`__MutexLock` and the increment and test of `__MutexUnlock` run with interrupts off, so each is
one step, and a waiter enters the list together with its task. `SpinLock` tests the lock and
increments it in two steps. An interrupt may call `Schedule` before any step.
-/

namespace XBook

open Transition

/-- The call of `SpinLock(&lock->waitLock)` that a task is in. -/
inductive WaitLockCall where
  /-- Before `ListAddTail` in `__MutexLock`. -/
  | enqueue
  /-- After `Schedule` in `__MutexLock`. -/
  | retry
  /-- In `__MutexUnlock`. -/
  | wake
  deriving DecidableEq, Repr

/-- Where a task is in the mutex functions. -/
inductive MutexPc (Tid : Type*) where
  /-- Outside. -/
  | idle
  /-- The test loop of `SpinLock`, with its variable `used`. -/
  | spin (call : WaitLockCall) (used : Bool)
  /-- `AtomicInc` of `SpinLock`. -/
  | spinInc (call : WaitLockCall)
  /-- `ListAddTail(&waiter.waitList, &lock->waitList)` and `waiter.task = current`. -/
  | addTail
  /-- `ATOMIC_XCHG(&lock->count, -1)` and the test of the old value. -/
  | xchg
  /-- `SET_TASK_STATUS(current, TASK_BLOCKED)`. -/
  | setBlocked
  /-- `SpinUnlock` before `Schedule`. -/
  | spinUnlock
  /-- `Schedule()`. -/
  | schedule
  /-- `ListDel(&waiter.waitList)`. -/
  | listDel
  /-- `ListEmpty(&lock->waitList)` in `__MutexLock`. -/
  | lockListEmpty
  /-- `AtomicSet(&lock->count, 0)`. -/
  | setZero
  /-- `SpinUnlock` at the end of `__MutexLock`. -/
  | lockSpinUnlock
  /-- `MUTEX_SET_OWNER`. -/
  | setOwner
  /-- `AtomicGet(&lock->count) > 1` in `__MutexUnlock`. -/
  | countAboveOne
  /-- `AtomicSet(&lock->count, 1)`. -/
  | setOne
  /-- `ListEmpty(&lock->waitList)` in `__MutexUnlock`. -/
  | unlockListEmpty
  /-- `ListFirstOwner`. -/
  | firstOwner
  /-- The test of the task's status in `TaskWakeUp`. -/
  | wakeUp (task : Tid)
  /-- `TaskUnblock`. -/
  | unblock (task : Tid)
  /-- `SpinUnlock` at the end of `__MutexUnlock`. -/
  | unlockSpinUnlock
  /-- `MUTEX_CLEAR_OWNER`. -/
  | clearOwner
  /-- `AtomicGet(&lock->count) >= 0` in `MutexTryLock`. `took` records, for the statements below
  only, that the decrement before it found the count at 1. -/
  | tryGet (took : Bool)
  deriving DecidableEq, Repr

/-- A mutex, the tasks that use it and the scheduler. -/
structure MutexState (Tid : Type*) where
  count : Int
  waitLock : Nat
  waitList : List Tid
  owner : Option Tid
  pc : Tid → MutexPc Tid
  /-- How often a task has acquired the mutex and not released it. -/
  held : Tid → Nat
  tasks : TaskTable Tid

/-- A call that a task outside the mutex functions may make. -/
inductive MutexCall where
  | lock
  | tryLock
  | unlock
  deriving DecidableEq, Repr

/-- A move of the system: the current task begins a call or goes on in one, or an interrupt calls
`Schedule`. -/
inductive MutexMove where
  | call (c : MutexCall)
  | step
  | interrupt
  deriving DecidableEq, Repr

namespace MutexState

variable {Tid : Type*} [DecidableEq Tid]

/-- The state that `MutexInit` leaves, with every task outside. -/
def init (tasks : TaskTable Tid) : MutexState Tid :=
  { count := 1, waitLock := 0, waitList := [], owner := none, pc := fun _ => .idle,
    held := fun _ => 0, tasks := tasks }

/-- The task goes to another place. -/
def goto (s : MutexState Tid) (t : Tid) (pc : MutexPc Tid) : MutexState Tid :=
  { s with pc := Function.update s.pc t pc }

/-- The task has acquired the mutex. -/
def acquire (s : MutexState Tid) (t : Tid) : MutexState Tid :=
  { s with held := Function.update s.held t (s.held t + 1) }

/-- The task has released the mutex. -/
def release (s : MutexState Tid) (t : Tid) : MutexState Tid :=
  { s with held := Function.update s.held t (s.held t - 1) }

/-- The first step of a call. Only a task that has acquired the mutex may unlock it. -/
def begin (s : MutexState Tid) (t : Tid) : MutexCall → Option (MutexState Tid)
  | .lock =>
      let count := atomicDec s.count
      let s := { s with count := count }
      if count ≥ 0 then some ((s.acquire t).goto t .setOwner)
      else some (s.goto t (.spin .enqueue false))
  | .tryLock =>
      let took := decide (s.count = 1)
      let s := { s with count := atomicDec s.count }
      some (s.goto t (.tryGet took))
  | .unlock =>
      if s.held t = 0 then none
      else
        let count := atomicInc s.count
        let s := { s.release t with count := count }
        if count = 1 then some (s.goto t .clearOwner) else some (s.goto t (.spin .wake false))

/-- The place after `SpinLock`. -/
def afterSpinLock : WaitLockCall → MutexPc Tid
  | .enqueue => .addTail
  | .retry => .xchg
  | .wake => .countAboveOne

/-- The next step of a task inside a call. -/
def advance (s : MutexState Tid) (t : Tid) : MutexPc Tid → Option (MutexState Tid)
  | .idle => none
  | .spin call used =>
      if s.waitLock > 0 then some (s.goto t (.spin call true))
      else if used then some (s.goto t (.spin call false))
      else some (s.goto t (.spinInc call))
  | .spinInc call => some ({ s with waitLock := s.waitLock + 1 }.goto t (afterSpinLock call))
  | .addTail => some ({ s with waitList := s.waitList ++ [t] }.goto t .xchg)
  | .xchg =>
      if s.count = 1 then some (({ s with count := -1 }.acquire t).goto t .listDel)
      else some ({ s with count := -1 }.goto t .setBlocked)
  | .setBlocked => some ({ s with tasks := s.tasks.setStatus t .blocked }.goto t .spinUnlock)
  | .spinUnlock => some ({ s with waitLock := 0 }.goto t .schedule)
  | .schedule => some ({ s with tasks := s.tasks.schedule }.goto t (.spin .retry false))
  | .listDel => some ({ s with waitList := s.waitList.erase t }.goto t .lockListEmpty)
  | .lockListEmpty =>
      if s.waitList = [] then some (s.goto t .setZero) else some (s.goto t .lockSpinUnlock)
  | .setZero => some ({ s with count := 0 }.goto t .lockSpinUnlock)
  | .lockSpinUnlock => some ({ s with waitLock := 0 }.goto t .setOwner)
  | .setOwner => some ({ s with owner := some t }.goto t .idle)
  | .countAboveOne =>
      if s.count > 1 then some (s.goto t .setOne) else some (s.goto t .unlockListEmpty)
  | .setOne => some ({ s with count := 1 }.goto t .unlockListEmpty)
  | .unlockListEmpty =>
      if s.waitList = [] then some (s.goto t .unlockSpinUnlock) else some (s.goto t .firstOwner)
  | .firstOwner =>
      -- the head of an empty list, taken for a waiter, has the mutex's owner as its task
      match s.waitList.head?, s.owner with
      | some waiter, _ => some (s.goto t (.wakeUp waiter))
      | none, some owner => some (s.goto t (.wakeUp owner))
      | none, none => none
  | .wakeUp task =>
      if s.tasks.status task = .blocked then some (s.goto t (.unblock task))
      else some (s.goto t .unlockSpinUnlock)
  | .unblock task =>
      some ({ s with tasks := s.tasks.taskUnblock task }.goto t .unlockSpinUnlock)
  | .unlockSpinUnlock => some ({ s with waitLock := 0 }.goto t .clearOwner)
  | .clearOwner => some ({ s with owner := none }.goto t .idle)
  | .tryGet _ => if s.count ≥ 0 then some ((s.acquire t).goto t .idle) else some (s.goto t .idle)

/-- One move of the system. -/
def move (s : MutexState Tid) : MutexMove → Option (MutexState Tid)
  | .interrupt => some { s with tasks := s.tasks.schedule }
  | .call c =>
      match s.tasks.current with
      | some t => if s.pc t = .idle then s.begin t c else none
      | none => none
  | .step =>
      match s.tasks.current with
      | some t => s.advance t (s.pc t)
      | none => none

end MutexState

end XBook
