import XBook.Lib.Links
import XBook.Kernel.Schedule

/-!
# The scheduler, one store at a time

`Schedule` and its callers again, cut where an interrupt may come. The ready list is made of
links here. Every task has a stack of frames, one for each `Schedule`, or function that calls it,
that it is in: an interrupt puts a further one on the stack of the running task. What runs with
interrupts disabled is one step.
-/

namespace XBook.Preempt

open Links

/-- The node of a task in the ready list, or the head of the list. -/
abbrev ListNode (Tid : Type*) := Option Tid

/-- Where a task is in a function. -/
inductive Pc (Tid : Type*) where
  /-- `Schedule`, before the test of the status. -/
  | enter
  /-- Before `ListAddTail`. -/
  | add
  /-- Behind `ListAddTail`. -/
  | resetTicks
  /-- Before the status becomes `TASK_READY`. -/
  | setReady
  /-- Before the test for an empty list. -/
  | testEmpty
  /-- Before the main thread is unblocked. -/
  | unblockIdle
  /-- Before the first task is read. -/
  | takeFirst
  /-- Before `ListDel`. -/
  | delete (next : Tid)
  /-- Behind `ListDel`. -/
  | setRunning (next : Tid)
  /-- Before `SwitchTo`. -/
  | switchTo (next : Tid)
  /-- Behind `SwitchTo`. -/
  | resumed
  /-- A caller that has stored a status in its task, before it calls `Schedule`. -/
  | toSchedule
  /-- `__SemaphoreDown`, before the waiter enters its list. -/
  | registering
  /-- `__SemaphoreUp`, before `ListAdd`. -/
  | up (task : Tid)
  /-- Behind that `ListAdd`. -/
  | done
  deriving DecidableEq, Repr

/-- One activation, with the stores of a list operation that it has begun, and the interrupt
status that it restores when it returns. -/
structure Frame (Tid : Type*) where
  pc : Pc Tid
  stores : List (Store (ListNode Tid))
  restore : Option Bool

/-- The tasks and the processor. A task is registered while a timer or a list of waiting tasks
holds it. -/
structure PreemptState (Tid : Type*) where
  links : Heap (ListNode Tid)
  status : Tid → Sched.TaskStatus
  ticks : Tid → Int
  priority : Tid → Int
  registered : Tid → Bool
  frames : Tid → List (Frame Tid)
  taskGlobalList : List Tid
  current : Tid
  mainThread : Tid
  interrupts : Bool

namespace PreemptState

variable {Tid : Type*} [DecidableEq Tid]

/-- The main thread runs, and the ready list is empty. -/
def initTasks (mainThread : Tid) (priority : Tid → Int) : PreemptState Tid :=
  { links := fun n _ => if n = none then some none else none
    status := fun t => if t = mainThread then .running else .died
    ticks := priority
    priority
    registered := fun _ => false
    frames := fun _ => []
    taskGlobalList := [mainThread]
    current := mainThread
    mainThread
    interrupts := false }

def setStatus (s : PreemptState Tid) (t : Tid) (status : Sched.TaskStatus) : PreemptState Tid :=
  { s with status := Function.update s.status t status }

def setRegistered (s : PreemptState Tid) (t : Tid) (registered : Bool) : PreemptState Tid :=
  { s with registered := Function.update s.registered t registered }

def setFrames (s : PreemptState Tid) (t : Tid) (frames : List (Frame Tid)) : PreemptState Tid :=
  { s with frames := Function.update s.frames t frames }

section

variable (s : PreemptState Tid) (t u : Tid) (status : Sched.TaskStatus) (registered : Bool)
  (frames : List (Frame Tid))

theorem set_status_status :
    (s.setStatus t status).status u = if u = t then status else s.status u := by
  show Function.update s.status t status u = _
  rw [Function.update_apply]

@[simp] theorem set_status_registered : (s.setStatus t status).registered = s.registered := rfl

@[simp] theorem set_status_frames : (s.setStatus t status).frames = s.frames := rfl

@[simp] theorem set_status_list : (s.setStatus t status).taskGlobalList = s.taskGlobalList := rfl

@[simp] theorem set_status_current : (s.setStatus t status).current = s.current := rfl

@[simp] theorem set_status_main : (s.setStatus t status).mainThread = s.mainThread := rfl

theorem set_registered_registered :
    (s.setRegistered t registered).registered u = if u = t then registered else s.registered u := by
  show Function.update s.registered t registered u = _
  rw [Function.update_apply]

@[simp] theorem set_registered_status : (s.setRegistered t registered).status = s.status := rfl

@[simp] theorem set_registered_frames : (s.setRegistered t registered).frames = s.frames := rfl

@[simp] theorem set_registered_list :
    (s.setRegistered t registered).taskGlobalList = s.taskGlobalList := rfl

@[simp] theorem set_registered_current : (s.setRegistered t registered).current = s.current := rfl

@[simp] theorem set_registered_main :
    (s.setRegistered t registered).mainThread = s.mainThread := rfl

theorem set_frames_frames :
    (s.setFrames t frames).frames u = if u = t then frames else s.frames u := by
  show Function.update s.frames t frames u = _
  rw [Function.update_apply]

end

/-- The current task enters a function. -/
def push (s : PreemptState Tid) (frame : Frame Tid) : PreemptState Tid :=
  s.setFrames s.current (frame :: s.frames s.current)

/-- Where the current task is, unless it runs code of its own. -/
def pc (s : PreemptState Tid) : Option (Pc Tid) := (s.frames s.current).head?.map Frame.pc

/-- The stores that the current task has begun. -/
def pending (s : PreemptState Tid) : List (Store (ListNode Tid)) :=
  ((s.frames s.current).head?.map Frame.stores).getD []

/-- The walk of `ListFind`, which meets each task once when the list is sound. -/
def walk (links : Heap (ListNode Tid)) : ℕ → ListNode Tid → Option (List Tid)
  | 0, _ => none
  | fuel + 1, n =>
      match links n .next with
      | none => none
      | some none => some []
      | some (some t) => (walk links fuel (some t)).map (t :: ·)

/-- `ListFind` in the ready list; no result when it does not come to an end. -/
def listFind (s : PreemptState Tid) (t : Tid) : Option Bool :=
  (walk s.links (s.taskGlobalList.length + 1) none).map fun list => decide (t ∈ list)

/-- The stores of `ListAdd` to the ready list. -/
def addStores (s : PreemptState Tid) (t : Tid) : Option (List (Store (ListNode Tid))) :=
  (s.links none .next).map (insertStores (some t) none ·)

/-- The stores of `ListAddTail` to the ready list. -/
def addTailStores (s : PreemptState Tid) (t : Tid) : Option (List (Store (ListNode Tid))) :=
  (s.links none .prev).map (insertStores (some t) · none)

/-- The stores of `ListDel`. -/
def delStores (s : PreemptState Tid) (t : Tid) : Option (List (Store (ListNode Tid))) :=
  (s.links (some t) .prev).bind fun prev => (s.links (some t) .next).map (removeStores (some t) prev)

/-- A list operation with interrupts disabled. -/
def perform (s : PreemptState Tid) (stores : List (Store (ListNode Tid))) : PreemptState Tid :=
  { s with links := settle s.links stores }

/-- The assertion that a task is not in the ready list. -/
def assertNotReady (s : PreemptState Tid) (t : Tid) : Option (PreemptState Tid) :=
  if s.listFind t = some false then some s else none

/-- The task waits for something that wakes it. -/
def Asleep (s : PreemptState Tid) (t : Tid) : Prop :=
  s.status t = .blocked ∨ s.status t = .waiting ∨ s.status t = .stopped

instance (s : PreemptState Tid) (t : Tid) : Decidable (s.Asleep t) :=
  inferInstanceAs (Decidable (_ ∨ _))

/-- `TaskUnblock`. -/
def taskUnblock (s : PreemptState Tid) (t : Tid) : Option (PreemptState Tid) :=
  if s.Asleep t then
    (s.assertNotReady t).bind fun s => (s.addStores t).map fun stores =>
      ((s.perform stores).setStatus t .ready).setRegistered t false
  else none

/-- The next instructions of the frame on top, up to the next point where an interrupt may
come. -/
def frameStep (s : PreemptState Tid) (f : Frame Tid) (rest : List (Frame Tid)) :
    Option (PreemptState Tid) :=
  let goto (s : PreemptState Tid) (pc : Pc Tid) := s.setFrames s.current ({ f with pc } :: rest)
  match f.stores with
  | st :: stores =>
      some { s.setFrames s.current ({ f with stores } :: rest) with links := st.apply s.links }
  | [] =>
      match f.pc with
      | .enter => some (goto s (if s.status s.current = .running then .add else .testEmpty))
      | .add => (s.addTailStores s.current).map fun stores =>
          s.setFrames s.current ({ f with pc := .resetTicks, stores } :: rest)
      | .resetTicks => some (goto
          { s with ticks := Function.update s.ticks s.current (s.priority s.current) } .setReady)
      | .setReady => some (goto (s.setStatus s.current .ready) .testEmpty)
      | .testEmpty =>
          some (goto s (if s.links none .next = some none then .unblockIdle else .takeFirst))
      | .unblockIdle => (s.taskUnblock s.mainThread).map (goto · .takeFirst)
      | .takeFirst =>
          match s.links none .next with
          | some (some next) => some (goto s (.delete next))
          | _ => none
      | .delete next => (s.delStores next).map fun stores =>
          s.setFrames s.current ({ f with pc := .setRunning next, stores } :: rest)
      | .setRunning next => some (goto (s.setStatus next .running) (.switchTo next))
      | .switchTo next => some { goto s .resumed with current := next }
      | .toSchedule => some (goto s .enter)
      | .registering => some (goto (s.setRegistered s.current true) .toSchedule)
      | .up task => (s.assertNotReady task).bind fun s => (s.addStores task).map fun stores =>
          s.setFrames s.current ({ f with pc := .done, stores } :: rest)
      | .resumed | .done => some
          { s.setFrames s.current rest with interrupts := f.restore.getD s.interrupts }

/-- `SchedSoftirqHandler`, with interrupts enabled as `HandleSoftirq` leaves them. -/
def schedSoftirqHandler (s : PreemptState Tid) : PreemptState Tid :=
  if s.ticks s.current ≤ 0 then s.push ⟨.enter, [], some true⟩
  else { s with ticks := Function.update s.ticks s.current (s.ticks s.current - 1) }

/-- `TaskBlock`, whose caller has registered the task. -/
def taskBlock (s : PreemptState Tid) (state : Sched.TaskStatus) : Option (PreemptState Tid) :=
  if state = .blocked ∨ state = .waiting ∨ state = .stopped ∨ state = .zombie then some
    { ((s.setStatus s.current state).setRegistered s.current true).push
        ⟨.enter, [], some s.interrupts⟩ with interrupts := false }
  else none

/-- `TaskYield`. -/
def taskYield (s : PreemptState Tid) : Option (PreemptState Tid) :=
  (s.assertNotReady s.current).bind fun s => (s.addTailStores s.current).map fun stores =>
    { ((s.perform stores).setStatus s.current .ready).push ⟨.enter, [], some s.interrupts⟩ with
      interrupts := false }

/-- `ThreadStart`. A new thread begins in `KernelThread`, which enables interrupts. -/
def threadStart (s : PreemptState Tid) (t : Tid) : Option (PreemptState Tid) :=
  if t ∈ s.taskGlobalList then none
  else (s.assertNotReady t).bind fun s => (s.addTailStores t).map fun stores =>
    { ((s.perform stores).setStatus t .ready).setFrames t [⟨.resumed, [], some true⟩] with
      ticks := Function.update s.ticks t (s.priority t)
      taskGlobalList := s.taskGlobalList ++ [t] }

end PreemptState

/-- What can happen next. -/
inductive PreemptOp (Tid : Type*) where
  /-- The current task goes on in the function it is in. -/
  | advance
  /-- A clock interrupt, with its `SchedSoftirqHandler`. -/
  | clock
  /-- An interrupt whose handler calls `TaskWakeUp`, as that of a timer does. -/
  | wakeUp (task : Tid)
  /-- The current task enables or disables interrupts. -/
  | setInterrupts (enabled : Bool)
  /-- `TaskSleep`, `MutexLock` and `WorkerThread`, up to the call of `Schedule`. -/
  | sleep
  /-- `WorkerThread` finds work and does not call `Schedule`. -/
  | stayAwake
  /-- A signal stops the current task, up to the call of `Schedule`. -/
  | stop
  | semaphoreDown
  | semaphoreUp (task : Tid)
  | taskBlock (state : Sched.TaskStatus)
  | taskYield
  | taskUnblock (task : Tid)
  | threadStart (thread : Tid)

namespace PreemptOp

variable {Tid : Type*} [DecidableEq Tid]

open PreemptState in
/-- What the current task does when it runs code of its own. -/
def call (s : PreemptState Tid) : PreemptOp Tid → Option (PreemptState Tid)
  | .setInterrupts enabled => some { s with interrupts := enabled }
  | .sleep => some
      (((s.setStatus s.current .blocked).setRegistered s.current true).push ⟨.toSchedule, [], none⟩)
  | .stop => some ((s.setStatus s.current .stopped).push ⟨.toSchedule, [], none⟩)
  | .semaphoreDown => some ((s.setStatus s.current .blocked).push ⟨.registering, [], none⟩)
  | .semaphoreUp task => some
      (((s.setStatus task .ready).setRegistered task false).push ⟨.up task, [], none⟩)
  | .taskBlock state => s.taskBlock state
  | .taskYield => s.taskYield
  | .taskUnblock task => s.taskUnblock task
  | .threadStart thread => s.threadStart thread
  | .advance | .clock | .wakeUp _ | .stayAwake => none

end PreemptOp

variable {Tid : Type*} [DecidableEq Tid]

/-- One step. An interrupt needs them enabled. -/
def preemptStep (s : PreemptState Tid) (op : PreemptOp Tid) : Option (PreemptState Tid) :=
  match op, s.frames s.current with
  | .clock, _ => if s.interrupts then some s.schedSoftirqHandler else none
  | .wakeUp task, _ =>
      if s.interrupts then
        if s.status task = .blocked ∨ s.status task = .stopped then s.taskUnblock task else some s
      else none
  | .advance, f :: rest => s.frameStep f rest
  | .stayAwake, f :: rest =>
      if f.pc = .toSchedule ∧ f.stores = [] then some
        (((s.setStatus s.current .running).setRegistered s.current false).setFrames s.current rest)
      else none
  | op, [] => op.call s
  | _, _ => none

/-- Where an interrupt may call `Schedule`. -/
def Pc.Interruptible : Pc Tid → Prop
  | .enter | .add | .resumed | .toSchedule | .done => True
  | _ => False

instance : DecidablePred (@Pc.Interruptible Tid)
  | .enter | .add | .resumed | .toSchedule | .done => isTrue trivial
  | .resetTicks | .setReady | .testEmpty | .unblockIdle | .takeFirst | .delete _
  | .setRunning _ | .switchTo _ | .registering | .up _ => isFalse id

/-- The task that the running one has in its hands: off the list, to switch to it, or about to
enter the list. -/
def Pc.handed : Pc Tid → Option Tid
  | .setRunning task | .switchTo task | .up task => some task
  | _ => none

def PreemptState.handed (s : PreemptState Tid) : Option Tid := s.pc.bind Pc.handed

/-- Whether `Schedule` may be called again from an interrupt here: outside of it and before its
test of the status, with no list operation begun. -/
def PreemptState.Interruptible (s : PreemptState Tid) : Prop :=
  s.pending = [] ∧ ∀ pc ∈ s.pc, pc.Interruptible

/-- Whether an interrupt may put a task on the ready list: the list operation that it interrupts
writes none of the same links any more, and the main thread is not about to be unblocked. -/
def PreemptState.Insertable (s : PreemptState Tid) (task : Tid) : Prop :=
  (∀ st ∈ (s.addStores task).getD [], ∀ st' ∈ s.pending, Apart st st') ∧
    (s.pc = some .unblockIdle → task ≠ s.mainThread)

instance (s : PreemptState Tid) : Decidable s.Interruptible :=
  inferInstanceAs (Decidable (_ = [] ∧ ∀ pc ∈ s.pc, _))

instance (s : PreemptState Tid) (task : Tid) : Decidable (s.Insertable task) :=
  inferInstanceAs (Decidable (_ ∧ _))

/-- What preemption must spare: see `Interruptible` and `Insertable`. A task that stays awake has
not been woken meanwhile. The rest is what the callers ensure, as in `schedGuard`. -/
def preemptGuard (s : PreemptState Tid) : PreemptOp Tid → Prop
  | .clock => s.ticks s.current ≤ 0 → s.Interruptible
  | .wakeUp task => task ∈ s.taskGlobalList ∧
      (s.status task = .blocked ∨ s.status task = .stopped → s.Insertable task)
  | .stayAwake => s.status s.current ≠ .ready
  | .semaphoreUp task => task ∈ s.taskGlobalList ∧ s.status task = .blocked
  | .taskBlock state => state = .zombie → s.current ≠ s.mainThread
  | .taskUnblock task => task ∈ s.taskGlobalList
  | .threadStart _ | .advance | .setInterrupts _ | .sleep | .stop | .semaphoreDown
  | .taskYield => True

instance (s : PreemptState Tid) : DecidablePred (preemptGuard s)
  | .clock => inferInstanceAs (Decidable (_ ≤ _ → _))
  | .wakeUp _ => inferInstanceAs (Decidable (_ ∧ (_ → _)))
  | .stayAwake => inferInstanceAs (Decidable (_ ≠ _))
  | .semaphoreUp _ => inferInstanceAs (Decidable (_ ∧ _))
  | .taskBlock _ => inferInstanceAs (Decidable (_ → _))
  | .taskUnblock _ => inferInstanceAs (Decidable (_ ∈ _))
  | .threadStart _ | .advance | .setInterrupts _ | .sleep | .stop | .semaphoreDown
  | .taskYield => inferInstanceAs (Decidable True)

end XBook.Preempt
