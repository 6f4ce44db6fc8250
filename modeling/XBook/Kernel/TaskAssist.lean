import XBook.Lib.Links
import XBook.Lib.Tally

/-!
# Softirqs and task assists

`HandleSoftirq`, `DoSoftirq` and the two kinds of task assists of `kernel/softirq.c`. A call that is
under way has a frame, and any frame may go on at any time: the interrupts that come in between, and
what they call, have frames of their own. What is done with interrupts disabled is one step. The
test and the setting of a bit in `TestAndSetBit` are two.
-/

namespace XBook.Softirqs

/-- The softirqs, by their numbers. -/
inductive Softirq where
  | highTaskAssist
  | timer
  | netTx
  | netRx
  | taskAssist
  | sched
  | rcu
  deriving DecidableEq, Repr

/-- All of them, in the order of `HandleSoftirq`. -/
def softirqs : List Softirq := [.highTaskAssist, .timer, .netTx, .netRx, .taskAssist, .sched, .rcu]

/-- `MAX_REDO_IRQ`. -/
abbrev maxRedoIrq : Nat := 10

/-- Which of the two queues an assist is for. -/
inductive Priority where
  | high
  | normal
  deriving DecidableEq, Repr

/-- `HIGHTASKASSIST_SOFTIRQ` and `TASKASSIST_SOFTIRQ`. -/
def Priority.softirq : Priority → Softirq
  | .high => .highTaskAssist
  | .normal => .taskAssist

/-- `HighTaskAssistAction` and `TaskAssistAction` in the table of softirqs. -/
def Softirq.queue : Softirq → Option Priority
  | .highTaskAssist => some .high
  | .taskAssist => some .normal
  | .timer | .netTx | .netRx | .sched | .rcu => none

/-- Where `HandleSoftirq` is: at its own loop, or in the action of a queue. -/
inductive Point (α : Type*) where
  | handle
  /-- Before the list is taken. -/
  | detach (k : Priority)
  /-- At the test of the loop. -/
  | walk (k : Priority) (list : Option α)
  /-- Before `ClearBit`. -/
  | clear (k : Priority) (assist : α) (list : Option α)
  /-- Before the function of the assist. -/
  | run (k : Priority) (assist : α) (list : Option α)
  /-- Before the assist goes back into the queue. -/
  | requeue (k : Priority) (assist : α) (list : Option α)

/-- A call that is under way. -/
inductive Frame (α : Type*) where
  /-- `TaskAssistSchedule` or `HighTaskAssistSchedule`, before `TestBit`. -/
  | test (assist : α)
  /-- Before `SetBit`, with what `TestBit` has returned. -/
  | set (assist : α) (old : Bool)
  /-- Before the assist goes into its queue. -/
  | insert (assist : α)
  /-- `HandleSoftirq`, with the softirqs that are left of `evens`. -/
  | softirq (point : Point α) (evens : List Softirq) (redoIrq : Nat)

/-- The assists and the softirqs. `depth` counts how often an assist has been disabled more than
enabled, and `scheduled` and `executed` its successful schedules and the calls of its function. -/
structure Assists (α ι : Type*) where
  priority : α → Priority
  next : α → Option α
  /-- `TASKASSIST_SCHED` of `status`. -/
  status : α → Bool
  count : α → Int
  head : Priority → Option α
  softirqEvens : Softirq → Bool
  frames : ι → Option (Frame α)
  depth : α → Int
  scheduled : α → Nat
  executed : α → Nat

namespace Assists

variable {α ι : Type*}

/-- The assists of `DECLEAR_TASKASSIST`, and those of `DECLEAR_TASKASSIST_DISABLED`. -/
def init (priority : α → Priority) (disabled : α → Bool) : Assists α ι :=
  { priority
    next := fun _ => none
    status := fun _ => false
    count := fun a => if disabled a then 1 else 0
    head := fun _ => none
    softirqEvens := fun _ => false
    frames := fun _ => none
    depth := fun a => if disabled a then 1 else 0
    scheduled := fun _ => 0
    executed := fun _ => 0 }

/-- `ActiveSoftirq`. -/
def activeSoftirq (s : Assists α ι) (e : Softirq) : Assists α ι :=
  { s with softirqEvens := Function.update s.softirqEvens e true }

/-- `GetSoftirqEvens`, as the softirqs that `HandleSoftirq` comes to. -/
def getSoftirqEvens (s : Assists α ι) : List Softirq := softirqs.filter s.softirqEvens

variable [DecidableEq α] [DecidableEq ι]

def setFrame (s : Assists α ι) (i : ι) (frame : Option (Frame α)) : Assists α ι :=
  { s with frames := Function.update s.frames i frame }

/-- The assist becomes the first one of the queue, and the softirq of the queue is active. -/
def enqueue (s : Assists α ι) (k : Priority) (a : α) : Assists α ι :=
  { s with
    next := Function.update s.next a (s.head k)
    head := Function.update s.head k (some a) }.activeSoftirq k.softirq

/-- `HandleSoftirq` takes the softirqs, if there are any and it may go on. -/
def takeEvens (s : Assists α ι) (i : ι) (redoIrq : Nat) : Assists α ι :=
  if s.getSoftirqEvens ≠ [] ∧ redoIrq ≠ 0 then
    { s with softirqEvens := fun _ => false }.setFrame i
      (some (.softirq .handle s.getSoftirqEvens redoIrq))
  else s.setFrame i none

/-- `TaskAssistDisable`. -/
def taskAssistDisable (s : Assists α ι) (a : α) : Assists α ι :=
  { s with
    count := Function.update s.count a (s.count a - 1)
    depth := Function.update s.depth a (s.depth a + 1) }

/-- `TaskAssistEnable`. -/
def taskAssistEnable (s : Assists α ι) (a : α) : Assists α ι :=
  { s with
    count := Function.update s.count a (s.count a + 1)
    depth := Function.update s.depth a (s.depth a - 1) }

/-- The next step of `HandleSoftirq`, or of `TaskAssistAction` or `HighTaskAssistAction` in it. -/
def softirqStep (s : Assists α ι) (i : ι) (evens : List Softirq) (redoIrq : Nat) :
    Point α → Assists α ι
  | .handle =>
      match evens with
      | [] => s.takeEvens i (redoIrq - 1)
      | e :: rest =>
          match e.queue with
          | none => s.setFrame i (some (.softirq .handle rest redoIrq))
          | some k => s.setFrame i (some (.softirq (.detach k) rest redoIrq))
  | .detach k =>
      { s with head := Function.update s.head k none }.setFrame i
        (some (.softirq (.walk k (s.head k)) evens redoIrq))
  | .walk k list =>
      match list with
      | none => s.setFrame i (some (.softirq .handle evens redoIrq))
      | some a =>
          if s.count a = 0 then
            s.setFrame i (some (.softirq (.clear k a (s.next a)) evens redoIrq))
          else s.setFrame i (some (.softirq (.requeue k a (s.next a)) evens redoIrq))
  | .clear k a list =>
      { s with status := Function.update s.status a false }.setFrame i
        (some (.softirq (.run k a list) evens redoIrq))
  | .run k a list =>
      { s with executed := Function.update s.executed a (s.executed a + 1) }.setFrame i
        (some (.softirq (.walk k list) evens redoIrq))
  | .requeue k a list =>
      (s.enqueue k a).setFrame i (some (.softirq (.walk k list) evens redoIrq))

/-- The next step of a call. -/
def frameStep (s : Assists α ι) (i : ι) : Frame α → Assists α ι
  | .test a => s.setFrame i (some (.set a (s.status a)))
  | .set a old =>
      let t := { s with status := Function.update s.status a true }
      if old then t.setFrame i none
      else
        { t with scheduled := Function.update s.scheduled a (s.scheduled a + 1) }.setFrame i
          (some (.insert a))
  | .insert a => (s.enqueue (s.priority a) a).setFrame i none
  | .softirq point evens redoIrq => s.softirqStep i evens redoIrq point

end Assists

/-- What may happen: a call is made, a call goes on, some softirq is activated, or an assist is
disabled or enabled. -/
inductive AssistOp (α ι : Type*) where
  | schedule (i : ι) (assist : α)
  | doSoftirq (i : ι)
  | advance (i : ι)
  | active (e : Softirq)
  | disable (assist : α)
  | enable (assist : α)

variable {α ι : Type*} [DecidableEq α] [DecidableEq ι]

/-- One step. A call has a frame that no other one has. -/
def assistStep (s : Assists α ι) : AssistOp α ι → Option (Assists α ι)
  | .schedule i a =>
      match s.frames i with
      | none => some (s.setFrame i (some (.test a)))
      | some _ => none
  | .doSoftirq i =>
      match s.frames i with
      | none => some (s.takeEvens i maxRedoIrq)
      | some _ => none
  | .advance i => (s.frames i).map fun frame => s.frameStep i frame
  | .active e => some (s.activeSoftirq e)
  | .disable a => some (s.taskAssistDisable a)
  | .enable a => some (s.taskAssistEnable a)

end XBook.Softirqs
