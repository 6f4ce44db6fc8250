import Mathlib.Logic.Function.Basic
import Mathlib.Tactic.NormNum

/-!
# Tasks, the scheduler and atomic integers

The kernel runs on one processor. `Schedule` of `kernel/schedule.c` and the wake-up functions of
`kernel/task.c` and `kernel/sleep_wakeup.c` are single steps here. The idle thread, which
`Schedule` runs when no task is ready, is the absence of a current task. A timer interrupt may
call `Schedule` between any two steps of the current task.
-/

namespace XBook

/-- `enum TaskStatus`, as far as locks use it. -/
inductive TaskStatus where
  | ready
  | running
  | blocked
  deriving DecidableEq, Repr

/-- The scheduler's view of the tasks. -/
structure TaskTable (Tid : Type*) where
  status : Tid → TaskStatus
  taskReadyList : List Tid
  current : Option Tid

namespace TaskTable

variable {Tid : Type*} [DecidableEq Tid]

def setStatus (s : TaskTable Tid) (t : Tid) (status : TaskStatus) : TaskTable Tid :=
  { s with status := Function.update s.status t status }

/-- The part of `Schedule` that puts a running task at the end of the ready list. -/
def requeue (s : TaskTable Tid) : TaskTable Tid :=
  match s.current with
  | some t =>
      if s.status t = .running then
        { s.setStatus t .ready with taskReadyList := s.taskReadyList ++ [t] }
      else s
  | none => s

/-- `Schedule`: the first ready task runs next. -/
def schedule (s : TaskTable Tid) : TaskTable Tid :=
  let s := s.requeue
  match s.taskReadyList with
  | [] => { s with current := none }
  | next :: rest => { s.setStatus next .running with taskReadyList := rest, current := some next }

/-- `TaskUnblock`. -/
def taskUnblock (s : TaskTable Tid) (t : Tid) : TaskTable Tid :=
  if s.status t ≠ .ready then
    { s.setStatus t .ready with taskReadyList := t :: s.taskReadyList }
  else s

theorem set_status_status (s : TaskTable Tid) (t u : Tid) (status : TaskStatus) :
    (s.setStatus t status).status u = if u = t then status else s.status u := by
  show Function.update s.status t status u = _
  rw [Function.update_apply]

/-- `Schedule` blocks no task. -/
theorem schedule_blocked {s : TaskTable Tid} {t : Tid} (h : s.schedule.status t = .blocked) :
    s.status t = .blocked := by
  have hrequeue : s.requeue.status t = .blocked → s.status t = .blocked := by
    simp only [requeue]
    split
    · split
      · simp only [set_status_status]
        split
        · intro hready
          cases hready
        · exact id
      · exact id
    · exact id
  simp only [schedule] at h
  split at h
  · exact hrequeue h
  · simp only [set_status_status] at h
    split at h
    · cases h
    · exact hrequeue h

/-- The task that `Schedule` chooses runs. -/
theorem schedule_running {s : TaskTable Tid} {t : Tid} (h : s.schedule.current = some t) :
    s.schedule.status t = .running := by
  simp only [schedule] at h ⊢
  split at h
  · cases h
  · next next rest =>
      cases Option.some.inj h
      simp only [set_status_status, if_true]

end TaskTable

/-- The 32-bit signed integer that an addition or subtraction leaves. -/
def int32 (n : Int) : Int := n.bmod (2 ^ 32)

/-- `AtomicInc`. -/
def atomicInc (n : Int) : Int := int32 (n + 1)

/-- `AtomicDec`. -/
def atomicDec (n : Int) : Int := int32 (n - 1)

theorem int32_of_range {n : Int} (hlow : -2 ^ 31 ≤ n) (hhigh : n < 2 ^ 31) : int32 n = n := by
  unfold int32
  exact Int.bmod_eq_of_le_mul_two (by omega) (by omega)

theorem int32_range (n : Int) : -2 ^ 31 ≤ int32 n ∧ int32 n < 2 ^ 31 := by
  have hlow := Int.le_bmod (x := n) (m := 2 ^ 32) (by norm_num)
  have hhigh := Int.bmod_lt (x := n) (m := 2 ^ 32) (by norm_num)
  unfold int32
  omega

/-- Overflow only lowers a value that is not negative. -/
theorem int32_le {n : Int} (h : 0 ≤ n) : int32 n ≤ n := by
  unfold int32 Int.bmod
  simp only
  omega

theorem atomic_dec_of_range {n : Int} (hlow : -2 ^ 31 < n) (hhigh : n ≤ 2 ^ 31) :
    atomicDec n = n - 1 := int32_of_range (by omega) (by omega)

theorem atomic_inc_of_range {n : Int} (hlow : -2 ^ 31 ≤ n) (hhigh : n < 2 ^ 31 - 1) :
    atomicInc n = n + 1 := int32_of_range (by omega) (by omega)

end XBook
