import XBook.Kernel.Request
import Mathlib.Logic.Function.Basic

/-!
# The tasks at a request queue

`AddRequest` of `kernel/block/request.c` and the request function of a driver, which a task that
finds no current request runs itself (`DoBlockRequest` of `drivers/ramdisk.c`, and that of the IDE
driver). What runs with interrupts disabled is one step. Requests are numbered as they are made,
so that a structure from the list of done requests counts as a new one.
-/

namespace XBook.Requests

/-- Where a task is. -/
inductive Place where
  /-- Outside of the queue. -/
  | idle
  /-- In `AddRequest`, having found no current request. -/
  | toStart (request : Nat)
  /-- In `AddRequest`, having found one. -/
  | toSleep (request : Nat)
  /-- In `TaskSleepOn`, with the status `TASK_BLOCKED`. -/
  | asleep (request : Nat)
  /-- In `DoBlockRequest`, before `BlockFetchRequest`. -/
  | fetching
  /-- In `DoBlockRequest`, with a request. -/
  | transfer (request : Nat)
  deriving DecidableEq, Repr

/-- A queue with its tasks, and which requests have been fetched and ended. -/
structure RequestTasks (Tid : Type*) where
  queue : RequestQueue Nat
  lba : Nat → Nat
  waiter : Nat → Option Tid
  place : Tid → Place
  nextRequest : Nat
  fetched : List Nat
  ended : List Nat

namespace RequestTasks

variable {Tid : Type*} [DecidableEq Tid]

def init : RequestTasks Tid :=
  { queue := .blockInitQueue
    lba := fun _ => 0
    waiter := fun _ => none
    place := fun _ => .idle
    nextRequest := 0
    fetched := []
    ended := [] }

def setPlace (s : RequestTasks Tid) (p : Tid) (place : Place) : RequestTasks Tid :=
  { s with place := Function.update s.place p place }

theorem set_place_place (s : RequestTasks Tid) (p q : Tid) (place : Place) :
    (s.setPlace p place).place q = if q = p then place else s.place q := by
  show Function.update s.place p place q = _
  rw [Function.update_apply]

@[simp] theorem set_place_queue (s : RequestTasks Tid) (p : Tid) (place : Place) :
    (s.setPlace p place).queue = s.queue := rfl

@[simp] theorem set_place_waiter (s : RequestTasks Tid) (p : Tid) (place : Place) :
    (s.setPlace p place).waiter = s.waiter := rfl

@[simp] theorem set_place_next (s : RequestTasks Tid) (p : Tid) (place : Place) :
    (s.setPlace p place).nextRequest = s.nextRequest := rfl

@[simp] theorem set_place_fetched (s : RequestTasks Tid) (p : Tid) (place : Place) :
    (s.setPlace p place).fetched = s.fetched := rfl

@[simp] theorem set_place_ended (s : RequestTasks Tid) (p : Tid) (place : Place) :
    (s.setPlace p place).ended = s.ended := rfl

/-- `MakeRequest` with `AddRequest` up to the test of `currentRequest`. -/
def addRequest (s : RequestTasks Tid) (cur : Tid) (lba : Nat) : Option (RequestTasks Tid) :=
  let lbas := Function.update s.lba s.nextRequest lba
  (s.queue.elevatorIoSchedule lbas s.nextRequest).map fun queue =>
    { s.setPlace cur (if queue.currentRequest = none then .toStart s.nextRequest
        else .toSleep s.nextRequest) with
      queue
      lba := lbas
      waiter := Function.update s.waiter s.nextRequest (some cur)
      nextRequest := s.nextRequest + 1 }

/-- The rest of `AddRequest` that leads to `DoBlockRequest`. -/
def blockStartRequeue (s : RequestTasks Tid) (cur : Tid) (request : Nat) : RequestTasks Tid :=
  { s.setPlace cur .fetching with queue := { s.queue with currentRequest := some request } }

/-- `BlockFetchRequest`, and the return from `DoBlockRequest` when there is none. -/
def blockFetchRequest (s : RequestTasks Tid) (cur : Tid) : RequestTasks Tid :=
  match s.queue.blockFetchRequest with
  | (queue, some request) =>
      { s.setPlace cur (.transfer request) with queue, fetched := s.fetched ++ [request] }
  | (queue, none) => { s.setPlace cur .idle with queue }

/-- `TaskWakeUp`. -/
def taskWakeUp (s : RequestTasks Tid) (task : Option Tid) : RequestTasks Tid :=
  match task with
  | none => s
  | some p =>
      match s.place p with
      | .asleep _ => s.setPlace p .idle
      | _ => s

/-- `BlockEndRequest`, and the way back to `BlockFetchRequest`. -/
def blockEndRequest (s : RequestTasks Tid) (cur : Tid) (request : Nat) : RequestTasks Tid :=
  { (s.setPlace cur .fetching).taskWakeUp (s.waiter request) with
    queue := { s.queue with currentRequest := none }
    ended := s.ended ++ [request] }

end RequestTasks

/-- A step of a task. -/
inductive RequestOp (Tid : Type*) where
  | add (task : Tid) (lba : Nat)
  /-- The step that `AddRequest` has found. -/
  | go (task : Tid)
  | fetch (task : Tid)
  | finish (task : Tid)

variable {Tid : Type*} [DecidableEq Tid]

/-- One step of one task. -/
def requestStep (s : RequestTasks Tid) : RequestOp Tid → Option (RequestTasks Tid)
  | .add p lba => if s.place p = .idle then s.addRequest p lba else none
  | .go p =>
      match s.place p with
      | .toStart request => some (s.blockStartRequeue p request)
      | .toSleep request => some (s.setPlace p (.asleep request))
      | _ => none
  | .fetch p => if s.place p = .fetching then some (s.blockFetchRequest p) else none
  | .finish p =>
      match s.place p with
      | .transfer request => some (s.blockEndRequest p request)
      | _ => none

/-- Where the elevator puts a request without following a null pointer or giving up: in an empty
list, on the other side of the current request, or behind one that its search finds. -/
def ElevatorFinds {R : Type*} (q : RequestQueue R) (lba : R → Nat) (request : R) : Prop :=
  q.requestList = [] ∨ ∃ current ∈ q.currentRequest,
    if q.onUp then
      lba request ≥ lba current → ∃ tmp ∈ q.upRequestList, lba request ≥ lba tmp
    else lba request ≤ lba current → ∃ tmp ∈ q.downRequestList, lba request ≤ lba tmp

instance {R : Type*} (q : RequestQueue R) (lba : R → Nat) (request : R) :
    Decidable (ElevatorFinds q lba request) :=
  inferInstanceAs (Decidable (_ ∨ ∃ current ∈ q.currentRequest, _))

/-- What preemption must spare: no request ends while its task is between the test of
`currentRequest` and what follows from it. And the elevator must find a place. -/
def requestGuard (s : RequestTasks Tid) : RequestOp Tid → Prop
  | .add _ lba => ElevatorFinds s.queue (Function.update s.lba s.nextRequest lba) s.nextRequest
  | .go p => ∀ request ∈ s.ended, s.place p ≠ .toStart request ∧ s.place p ≠ .toSleep request
  | _ => True

instance (s : RequestTasks Tid) : DecidablePred (requestGuard s)
  | .add _ _ => inferInstanceAs (Decidable (ElevatorFinds _ _ _))
  | .go _ => inferInstanceAs (Decidable (∀ request ∈ s.ended, _))
  | .fetch _ | .finish _ => inferInstanceAs (Decidable True)

end XBook.Requests
