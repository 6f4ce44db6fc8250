import Mathlib.Data.Fintype.Basic
import Mathlib.Logic.Function.Basic

/-!
# The tasks at an io queue

The waiting of `IoQueuePut` and `IoQueueGet` in `kernel/ioqueue.c`, under the lock of
`kernel/synclock.c`. Of the data there is only the number of items left. A task has a frame for
each call that it is in: its own one, and one on top of it when `KeyboardHandler` puts an item
while the task is the current one. `SemaphoreDown`, `SemaphoreUp`, `IoQueueWait` and
`IoQueueWakeUp` are one step each; what may happen inside the first two is in `SemaphoreSafety`.
-/

namespace XBook.IoTasks

/-- The two sides of a queue: producers put, and consumers get. -/
inductive Side where
  | put
  | get
  deriving DecidableEq, Repr

instance : Fintype Side := ⟨{.put, .get}, fun k => by cases k <;> decide⟩

def Side.other : Side → Side
  | .put => .get
  | .get => .put

@[simp] theorem Side.other_other (k : Side) : k.other.other = k := by cases k <;> rfl

theorem Side.other_ne (k : Side) : k.other ≠ k := by cases k <;> nofun

theorem Side.eq_or_other (k j : Side) : j = k ∨ j = k.other := by cases k <;> cases j <;> decide

/-- Where a call is. -/
inductive Place where
  /-- Before the test of the loop. -/
  | test (k : Side)
  /-- Before `SyncLock`. -/
  | toLock (k : Side)
  /-- Blocked in `SemaphoreDown`. -/
  | onLock (k : Side)
  /-- Behind `SemaphoreDown`. -/
  | granted (k : Side)
  /-- Before `IoQueueWait`. -/
  | toWait (k : Side)
  /-- Blocked in `IoQueueWait`. -/
  | waiting (k : Side)
  /-- Before `SyncUnlock`. -/
  | toUnlock (k : Side)
  /-- Behind the loop. -/
  | toMove (k : Side)
  /-- Before the test for a waiter of the other side. -/
  | toWake (k : Side)
  deriving DecidableEq, Repr

/-- The task of the call is blocked. -/
def Place.Blocked : Place → Prop
  | .onLock _ | .waiting _ => True
  | _ => False

instance : DecidablePred Place.Blocked
  | .onLock _ | .waiting _ => isTrue trivial
  | .test _ | .toLock _ | .granted _ | .toWait _ | .toUnlock _ | .toMove _ | .toWake _ =>
    isFalse id

/-- A queue with its lock and its tasks. `waiter` has the fields `producer` and `consumer`. -/
structure IoQueueTasks (Tid : Type*) where
  size : Int
  capacity : Int
  waiter : Side → Option Tid
  counter : Nat
  waitList : List Tid
  holder : Option Tid
  holderReaptCount : Nat
  frames : Tid → List Place

namespace IoQueueTasks

variable {Tid : Type*} [DecidableEq Tid]

/-- `IoQueueInit`. -/
def init (capacity : Int) : IoQueueTasks Tid :=
  { size := 0
    capacity
    waiter := fun _ => none
    counter := 1
    waitList := []
    holder := none
    holderReaptCount := 0
    frames := fun _ => [] }

def setFrames (s : IoQueueTasks Tid) (p : Tid) (frames : List Place) : IoQueueTasks Tid :=
  { s with frames := Function.update s.frames p frames }

theorem set_frames_frames (s : IoQueueTasks Tid) (p q : Tid) (frames : List Place) :
    (s.setFrames p frames).frames q = if q = p then frames else s.frames q := by
  show Function.update s.frames p frames q = _
  rw [Function.update_apply]

/-- The call that the task is in. -/
def top (s : IoQueueTasks Tid) (p : Tid) : Option Place := (s.frames p).head?

theorem set_frames_top (s : IoQueueTasks Tid) (p q : Tid) (frames : List Place) :
    (s.setFrames p frames).top q = if q = p then frames.head? else s.top q := by
  unfold top
  rw [set_frames_frames]
  split <;> rfl

/-- `IoQueueFull` for a producer, `IoQueueEmpty` for a consumer. -/
def closed (s : IoQueueTasks Tid) : Side → Bool
  | .put => s.size = s.capacity
  | .get => s.size = 0

/-- There is room for a producer, or an item for a consumer. -/
def Open (s : IoQueueTasks Tid) : Side → Prop
  | .put => s.size < s.capacity
  | .get => 0 < s.size

instance (s : IoQueueTasks Tid) : DecidablePred s.Open
  | .put => inferInstanceAs (Decidable (_ < _))
  | .get => inferInstanceAs (Decidable (_ < _))

/-- The item is in the buffer, or out of it. -/
def move (s : IoQueueTasks Tid) : Side → IoQueueTasks Tid
  | .put => { s with size := s.size + 1 }
  | .get => { s with size := s.size - 1 }

/-- `SemaphoreUp`. -/
def semaphoreUp (s : IoQueueTasks Tid) : IoQueueTasks Tid :=
  match s.waitList with
  | [] => { s with counter := s.counter + 1 }
  | q :: waitList =>
      match s.frames q with
      | .onLock k :: rest => { s.setFrames q (.granted k :: rest) with waitList }
      | _ => { s with waitList }

/-- `IoQueueWakeUp`, where there is a waiter. -/
def ioQueueWakeUp (s : IoQueueTasks Tid) (k : Side) : Option (IoQueueTasks Tid) :=
  match s.waiter k with
  | none => some s
  | some q =>
      match s.frames q with
      | .waiting j :: rest => some
          { s.setFrames q (.toUnlock j :: rest) with waiter := Function.update s.waiter k none }
      | _ => none

/-- The next step of the call on top. A failed `ASSERT` has no result. -/
def frameStep (s : IoQueueTasks Tid) (p : Tid) (rest : List Place) : Place → Option (IoQueueTasks Tid)
  | .test k => some (s.setFrames p ((if s.closed k then .toLock k else .toMove k) :: rest))
  | .toLock k =>
      if s.holder = some p then some
        { s.setFrames p (.toWait k :: rest) with holderReaptCount := s.holderReaptCount + 1 }
      else if s.counter > 0 then some
        { s.setFrames p (.granted k :: rest) with counter := s.counter - 1 }
      else some { s.setFrames p (.onLock k :: rest) with waitList := s.waitList ++ [p] }
  | .granted k =>
      if s.holderReaptCount = 0 then some
        { s.setFrames p (.toWait k :: rest) with holder := some p, holderReaptCount := 1 }
      else none
  | .toWait k =>
      if s.waiter k = none then some
        { s.setFrames p (.waiting k :: rest) with waiter := Function.update s.waiter k (some p) }
      else none
  | .toUnlock k =>
      if s.holder = some p then
        if s.holderReaptCount > 1 then some
          { s.setFrames p (.test k :: rest) with holderReaptCount := s.holderReaptCount - 1 }
        else if s.holderReaptCount = 1 then some
          ({ s.setFrames p (.test k :: rest) with holder := none, holderReaptCount := 0 }.semaphoreUp)
        else none
      else none
  | .toMove k => some ((s.setFrames p (.toWake k :: rest)).move k)
  | .toWake k => (s.ioQueueWakeUp k.other).map (·.setFrames p rest)
  | .onLock _ | .waiting _ => none

/-- `KeyboardHandler` in the context of the task `p`. Interrupts are disabled, so it goes on to its
end, or to the lock. -/
def keyboardHandler (s : IoQueueTasks Tid) (p : Tid) : Option (IoQueueTasks Tid) :=
  if s.closed .put then some (s.setFrames p (.toLock .put :: s.frames p))
  else (s.move .put).ioQueueWakeUp .get

end IoQueueTasks

/-- What a task does: it calls `IoQueuePut` or `IoQueueGet`, it goes on in its call, or the keyboard
interrupts it. -/
inductive IoTaskOp (Tid : Type*) where
  | call (task : Tid) (k : Side)
  | advance (task : Tid)
  | key (task : Tid)

variable {Tid : Type*} [DecidableEq Tid]

/-- One step of a task that is not blocked. -/
def ioTaskStep (s : IoQueueTasks Tid) : IoTaskOp Tid → Option (IoQueueTasks Tid)
  | .call p k => if s.frames p = [] then some (s.setFrames p [.test k]) else none
  | .advance p =>
      match s.frames p with
      | [] => none
      | place :: rest => s.frameStep p rest place
  | .key p => if ∀ place ∈ s.top p, ¬ place.Blocked then s.keyboardHandler p else none

/-- A task of the other side is about to wake the waiter of this side. -/
def WakePending (s : IoQueueTasks Tid) (k : Side) : Prop := ∃ p, s.top p = some (.toWake k.other)

/-- What the tasks must not do unless a wake-up is on its way: wait while the queue is not closed
any more, or while a task of the other side is blocked on the lock; and block on the lock while a
task of the other side waits. The keyboard finds a full queue only in tasks that are not in it. -/
def ioTaskGuard (s : IoQueueTasks Tid) : IoTaskOp Tid → Prop
  | .call _ _ => True
  | .advance p => ∀ k,
      (s.top p = some (.toWait k) →
        (s.Open k ∨ ∃ q ∈ s.waitList, s.top q = some (.onLock k.other)) → WakePending s k) ∧
      (s.top p = some (.toLock k) → s.counter = 0 → (s.waiter k.other).isSome →
        WakePending s k.other)
  | .key p => s.closed .put → s.frames p = []

instance [Fintype Tid] (s : IoQueueTasks Tid) (k : Side) : Decidable (WakePending s k) :=
  inferInstanceAs (Decidable (∃ p, s.top p = some (.toWake k.other)))

instance [Fintype Tid] (s : IoQueueTasks Tid) : DecidablePred (ioTaskGuard s)
  | .call _ _ => inferInstanceAs (Decidable True)
  | .advance _ => inferInstanceAs (Decidable (∀ _ : Side, (_ → _ → _) ∧ (_ → _ → _ → _)))
  | .key _ => inferInstanceAs (Decidable (_ → _))

end XBook.IoTasks
