import XBook.Kernel.Schedule
import Mathlib.Data.Fintype.Basic

/-!
# Work queues

`WorkerThread`, `DoAllWork` and `QueueScheduleWork` of `kernel/workqueue.c` with the wait queue of
`book/waitqueue.h`, over the scheduler of `XBook.Kernel.Schedule`. The worker stops where an
interrupt may come, and so does every call of `QueueScheduleWork`, which is made by a task or in an
interrupt. `Schedule` and `ListDelInit` of `DoAllWork` run with interrupts enabled: each has a
beginning and an end, and where another operation on the same list comes in between, the links are
`torn`, and nothing is said about them.
-/

namespace XBook.Work

open Sched (SchedState)

/-- Where the worker is. -/
inductive WorkerPc (W : Type*) where
  /-- Before `WaitQueueAdd`. -/
  | add
  /-- Before the status becomes `TASK_BLOCKED`. -/
  | block
  /-- Before the test of `workList`. -/
  | test
  /-- Before `Schedule`. -/
  | sched
  /-- Before `WaitQueueRemove`. -/
  | remove
  /-- Before the status becomes `TASK_RUNNING`. -/
  | run
  /-- `DoAllWork`, before the test of `workList`. -/
  | loop
  /-- Before `ListDelInit`. -/
  | del (work : W)
  /-- In `ListDelInit`. -/
  | taking (work : W)
  /-- Before the function of the work, or in it. -/
  | exec (work : W)
  deriving DecidableEq

/-- Where a call of `QueueScheduleWork` is. -/
inductive Queueing (W : Type*) where
  /-- Before `ListFind`. -/
  | find (work : W)
  /-- In `ListFind`. -/
  | finding (work : W)
  /-- Before `ListAddTail`. -/
  | add (work : W)
  /-- Before `WaitQueueWakeUp`. -/
  | wake
  deriving DecidableEq

/-- A call of `QueueScheduleWork` on the stack of a task. It is `inner` when an interrupt has made
it while the task was in `Schedule`. -/
structure Call (Tid W : Type*) where
  owner : Tid
  inner : Bool
  point : Queueing W
  deriving DecidableEq

/-- A call that walks along the list. -/
def Call.walking {Tid W : Type*} : Option (Call Tid W) → Bool
  | some ⟨_, _, .finding _⟩ => true
  | none | some ⟨_, _, .find _⟩ | some ⟨_, _, .add _⟩ | some ⟨_, _, .wake⟩ => false

/-- The tasks and a work queue with its thread `worker`. `inSchedule` is set while the current task
is in `Schedule`. `queued` and `executed` count what has happened to each work. -/
structure WorkQueue (Tid W ι : Type*) where
  base : SchedState Tid
  worker : Tid
  pc : WorkerPc W
  waitList : List Tid
  workList : List W
  frames : ι → Option (Call Tid W)
  inSchedule : Bool
  torn : Bool
  queued : W → Nat
  executed : W → Nat

namespace WorkQueue

variable {Tid W ι : Type*} [DecidableEq Tid]

/-- `CreateWorkQueue`, by the main thread. -/
def init (mainThread worker : Tid) : Option (WorkQueue Tid W ι) :=
  ((SchedState.initTasks mainThread).threadStart worker).map fun base =>
    { base
      worker
      pc := .add
      waitList := []
      workList := []
      frames := fun _ => none
      inSchedule := false
      torn := false
      queued := fun _ => 0
      executed := fun _ => 0 }

/-- `WaitQueueAdd`, with its `ASSERT`. -/
def waitQueueAdd (s : WorkQueue Tid W ι) (task : Tid) : Option (WorkQueue Tid W ι) :=
  if task ∈ s.waitList then none else some { s with waitList := s.waitList ++ [task] }

/-- `WaitQueueRemove`. -/
def waitQueueRemove (s : WorkQueue Tid W ι) (task : Tid) : WorkQueue Tid W ι :=
  { s with waitList := s.waitList.erase task }

/-- `WaitQueueWakeUp`. -/
def waitQueueWakeUp (s : WorkQueue Tid W ι) : Option (WorkQueue Tid W ι) :=
  match s.waitList with
  | [] => some s
  | task :: rest => (s.base.taskWakeUp task).map fun base =>
      { s with base, waitList := rest, torn := s.torn || s.inSchedule }

variable [DecidableEq W] [DecidableEq ι] [Fintype ι]

def setFrame (s : WorkQueue Tid W ι) (i : ι) (frame : Option (Call Tid W)) :
    WorkQueue Tid W ι :=
  { s with frames := Function.update s.frames i frame }

/-- `ListAddTail` of `QueueScheduleWork`. -/
def addWork (s : WorkQueue Tid W ι) (work : W) : WorkQueue Tid W ι :=
  let torn := match s.pc with
    | .taking _ => s.torn || decide (s.workList.length ≤ 1)
    | _ => s.torn
  { s with
    workList := s.workList ++ [work]
    torn
    queued := Function.update s.queued work (s.queued work + 1) }

/-- `QueueScheduleWork` goes on. -/
def queueStep (s : WorkQueue Tid W ι) (i : ι) (call : Call Tid W) : Option (WorkQueue Tid W ι) :=
  match call.point with
  | .find work => some (s.setFrame i (some { call with point := .finding work }))
  | .finding work =>
      if work ∈ s.workList then some (s.setFrame i none)
      else some (s.setFrame i (some { call with point := .add work }))
  | .add work => some ((s.addWork work).setFrame i (some { call with point := .wake }))
  | .wake => s.waitQueueWakeUp.map (·.setFrame i none)

/-- `WorkerThread` goes on, or `DoAllWork` in it. -/
def workerStep (s : WorkQueue Tid W ι) : Option (WorkQueue Tid W ι) :=
  match s.pc with
  | .add => (s.waitQueueAdd s.worker).map fun t => { t with pc := .block }
  | .block => some { s with base := s.base.setStatus s.worker .blocked, pc := .test }
  | .test => some { s with pc := if s.workList = [] then .sched else .remove }
  | .sched => some { s with inSchedule := true, pc := .remove }
  | .remove => some { s.waitQueueRemove s.worker with pc := .run }
  | .run => some { s with base := s.base.setStatus s.worker .running, pc := .loop }
  | .loop =>
      match s.workList with
      | [] => some { s with pc := .add }
      | work :: _ => some { s with pc := .del work }
  | .del work => some { s with pc := .taking work }
  | .taking work => some { s with
      workList := s.workList.erase work
      torn := s.torn || decide (∃ i, Call.walking (s.frames i) = true)
      pc := .exec work }
  | .exec work => some { s with
      executed := Function.update s.executed work (s.executed work + 1)
      pc := .loop }

end WorkQueue

/-- What may happen. -/
inductive WorkOp (Tid W ι : Type*) where
  /-- The worker goes on. -/
  | work
  /-- `QueueScheduleWork` is called. -/
  | schedule (i : ι) (work : W)
  /-- It goes on. -/
  | queue (i : ι)
  /-- The softirq of the clock calls `Schedule`. -/
  | preempt
  /-- `Schedule` comes to its end. -/
  | switch
  /-- Some other task stores a status and calls `Schedule`. -/
  | sleep (state : Sched.TaskStatus)
  /-- Some other task calls `TaskYield`. -/
  | yield
  /-- Some other task is woken. -/
  | unblock (task : Tid)
  /-- Some other task starts a thread. -/
  | start (thread : Tid)

variable {Tid W ι : Type*} [DecidableEq Tid] [DecidableEq W] [DecidableEq ι] [Fintype ι]

/-- What is on the stack of the current task above the code that it runs, or above its `Schedule`
where it is in there. -/
def WorkQueue.Above (s : WorkQueue Tid W ι) : Option (Call Tid W) → Prop
  | none => False
  | some call => call.owner = s.base.current ∧ call.inner = s.inSchedule

instance (s : WorkQueue Tid W ι) : DecidablePred s.Above
  | none => inferInstanceAs (Decidable False)
  | some _ => inferInstanceAs (Decidable (_ ∧ _))

/-- One step. A call goes on while its task is the current one. The code under it, and `Schedule`,
go on when it has returned. -/
def workStep (s : WorkQueue Tid W ι) : WorkOp Tid W ι → Option (WorkQueue Tid W ι)
  | .work =>
      if s.base.current = s.worker ∧ s.inSchedule = false ∧ ∀ i, ¬ s.Above (s.frames i) then
        s.workerStep
      else none
  | .schedule i work =>
      match s.frames i with
      | none => some (s.setFrame i (some ⟨s.base.current, s.inSchedule, .find work⟩))
      | some _ => none
  | .queue i => if s.Above (s.frames i) then (s.frames i).bind (s.queueStep i) else none
  | .preempt =>
      if s.inSchedule then some { s with torn := true } else some { s with inSchedule := true }
  | .switch =>
      if s.inSchedule = true ∧ ∀ i, ¬ s.Above (s.frames i) then
        s.base.schedule.map fun base => { s with base, inSchedule := false }
      else none
  | .sleep state =>
      if s.base.current ≠ s.worker ∧ s.inSchedule = false ∧ (state = .blocked ∨ state = .waiting ∨
          state = .stopped ∨ state = .zombie ∧ s.base.current ≠ s.base.mainThread) then
        some { s with base := s.base.setStatus s.base.current state, inSchedule := true }
      else none
  | .yield =>
      if s.base.current ≠ s.worker ∧ s.inSchedule = false then
        s.base.taskYield.map fun base => { s with base }
      else none
  | .unblock task =>
      if task ≠ s.worker ∧ task ∈ s.base.taskGlobalList then
        (s.base.taskUnblock task).map fun base => { s with base, torn := s.torn || s.inSchedule }
      else none
  | .start thread =>
      if s.base.current ≠ s.worker ∧ s.inSchedule = false then
        (s.base.threadStart thread).map fun base => { s with base }
      else none

end XBook.Work
