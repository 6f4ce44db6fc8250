import XBook.Lib.Transition
import Mathlib.Logic.Function.Basic

/-!
# The scheduler

`kernel/schedule.c` with the functions of `kernel/task.c` and `kernel/sleep_wakeup.c` that start,
block and wake tasks, each as one step. Tasks are named by the addresses of their structures, and
the lists hold these names. A failed `ASSERT` or a `Panic` has no result.
-/

namespace XBook.Sched

/-- `enum TaskStatus`. -/
inductive TaskStatus where
  | ready
  | running
  | blocked
  | waiting
  | stopped
  | zombie
  | died
  deriving DecidableEq, Repr

/-- The tasks as the scheduler sees them. -/
structure SchedState (Tid : Type*) where
  taskGlobalList : List Tid
  taskReadyList : List Tid
  status : Tid → TaskStatus
  current : Tid
  mainThread : Tid

namespace SchedState

variable {Tid : Type*} [DecidableEq Tid]

/-- `InitTasks` with `MakeMainThread`, which turns the running code into the main thread. -/
def initTasks (mainThread : Tid) : SchedState Tid :=
  { taskGlobalList := [mainThread]
    taskReadyList := []
    status := fun t => if t = mainThread then .running else .died
    current := mainThread
    mainThread := mainThread }

def setStatus (s : SchedState Tid) (t : Tid) (status : TaskStatus) : SchedState Tid :=
  { s with status := Function.update s.status t status }

/-- `TaskUnblock`. -/
def taskUnblock (s : SchedState Tid) (t : Tid) : Option (SchedState Tid) :=
  if s.status t = .blocked ∨ s.status t = .waiting ∨ s.status t = .stopped then
    if s.status t ≠ .ready then
      if t ∈ s.taskReadyList then none
      else some { s.setStatus t .ready with taskReadyList := t :: s.taskReadyList }
    else some s
  else none

/-- The first part of `Schedule`: a running task goes to the end of the ready list. -/
def requeue (s : SchedState Tid) : SchedState Tid :=
  if s.status s.current = .running then
    { s.setStatus s.current .ready with taskReadyList := s.taskReadyList ++ [s.current] }
  else s

/-- The idle fallback of `Schedule`. -/
def unblockIdle (s : SchedState Tid) : Option (SchedState Tid) :=
  if s.taskReadyList = [] then s.taskUnblock s.mainThread else some s

/-- The last part of `Schedule`: the first ready task runs. -/
def switchNext (s : SchedState Tid) : Option (SchedState Tid) :=
  match s.taskReadyList with
  | [] => none
  | next :: rest => some { s.setStatus next .running with taskReadyList := rest, current := next }

/-- `Schedule`. -/
def schedule (s : SchedState Tid) : Option (SchedState Tid) :=
  s.requeue.unblockIdle.bind switchNext

/-- `TaskYield`. -/
def taskYield (s : SchedState Tid) : Option (SchedState Tid) :=
  if s.current ∈ s.taskReadyList then none
  else
    schedule
      { s.setStatus s.current .ready with taskReadyList := s.taskReadyList ++ [s.current] }

/-- `TaskBlock`. -/
def taskBlock (s : SchedState Tid) (state : TaskStatus) : Option (SchedState Tid) :=
  if state = .blocked ∨ state = .waiting ∨ state = .stopped ∨ state = .zombie then
    (s.setStatus s.current state).schedule
  else none

/-- `TaskWakeUp`. -/
def taskWakeUp (s : SchedState Tid) (t : Tid) : Option (SchedState Tid) :=
  if s.status t = .blocked ∨ s.status t = .stopped then s.taskUnblock t else some s

/-- `ThreadStart`, whose `TaskInit` makes the new thread ready. -/
def threadStart (s : SchedState Tid) (thread : Tid) : Option (SchedState Tid) :=
  if thread ∈ s.taskReadyList ∨ thread ∈ s.taskGlobalList then none
  else some { s.setStatus thread .ready with
    taskReadyList := s.taskReadyList ++ [thread]
    taskGlobalList := s.taskGlobalList ++ [thread] }

end SchedState

/-- A call of one of the functions. `schedule` is called after the caller has stored `state` in
the current task. -/
inductive SchedOp (Tid : Type*) where
  | schedule (state : TaskStatus)
  | taskYield
  | taskBlock (state : TaskStatus)
  | taskUnblock (task : Tid)
  | taskWakeUp (task : Tid)
  | threadStart (thread : Tid)

variable {Tid : Type*} [DecidableEq Tid]

/-- One call by the current task. -/
def schedStep (s : SchedState Tid) : SchedOp Tid → Option (SchedState Tid)
  | .schedule state => (s.setStatus s.current state).schedule
  | .taskYield => s.taskYield
  | .taskBlock state => s.taskBlock state
  | .taskUnblock task => s.taskUnblock task
  | .taskWakeUp task => s.taskWakeUp task
  | .threadStart thread => s.threadStart thread

/-- What the callers ensure. `Schedule` is called by a running task, or by one that has just set
itself to `TASK_BLOCKED` or `TASK_STOPPED`. Only `SysExit` makes a zombie, and the main thread
does not exit. A new thread is a new structure. -/
def schedGuard (s : SchedState Tid) : SchedOp Tid → Prop
  | .schedule state => state = .running ∨ state = .blocked ∨ state = .stopped
  | .taskYield => True
  | .taskBlock state =>
      state = .blocked ∨ state = .waiting ∨ state = .stopped ∨
        state = .zombie ∧ s.current ≠ s.mainThread
  | .taskUnblock task =>
      task ∈ s.taskGlobalList ∧
        (s.status task = .blocked ∨ s.status task = .waiting ∨ s.status task = .stopped)
  | .taskWakeUp task => task ∈ s.taskGlobalList
  | .threadStart thread => thread ∉ s.taskGlobalList

instance (s : SchedState Tid) : DecidablePred (schedGuard s)
  | .schedule _ => inferInstanceAs (Decidable (_ ∨ _))
  | .taskYield => inferInstanceAs (Decidable True)
  | .taskBlock _ => inferInstanceAs (Decidable (_ ∨ _))
  | .taskUnblock _ => inferInstanceAs (Decidable (_ ∧ _))
  | .taskWakeUp _ => inferInstanceAs (Decidable (_ ∈ _))
  | .threadStart _ => inferInstanceAs (Decidable (_ ∉ _))

end XBook.Sched
