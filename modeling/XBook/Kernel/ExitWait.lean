import XBook.Kernel.Schedule

/-!
# Exit and wait

`kernel/exit_wait.c`. Processes are named by their pids. A process that could run has the status
`ready` here, whether it runs or not, so that any of them may take the next step. `SysExit` and
`SysWait` are cut where they restore the interrupt status: behind the notification of the parent,
and behind the scan of the task list. What lies between there and `TaskBlock` may be preempted.
-/

namespace XBook.ExitWait

/-- Where a process is. -/
inductive Place where
  /-- Outside the two calls. -/
  | user
  /-- At `ToRepeat` of `SysWait`, with `found` set. -/
  | toRepeat
  /-- Before `TaskBlock(TASK_WAITING)`. -/
  | toWait
  /-- Before `TaskBlock(TASK_ZOMBIE)`, or behind it. -/
  | toZombie
  deriving DecidableEq, Repr

/-- The fields of `struct Task` for its family. A `parentPid` of `-1` is `none`. -/
structure Process where
  parentPid : Option Nat
  exitStatus : Int
  status : Sched.TaskStatus
  place : Place
  deriving DecidableEq, Repr

/-- What a `SysWait` has returned. -/
structure Reaped where
  waiter : Nat
  child : Nat
  exitStatus : Int
  deriving DecidableEq, Repr

/-- The processes, with what all calls of `SysWait` have returned and who has forked whom. -/
structure Family where
  procs : Nat → Process
  taskGlobalList : List Nat
  nextPid : Nat
  reaped : List Reaped
  forker : Nat → Nat

namespace Family

def set (s : Family) (p : Nat) (proc : Process) : Family :=
  { s with procs := Function.update s.procs p proc }

theorem set_procs (s : Family) (p q : Nat) (proc : Process) :
    (s.set p proc).procs q = if q = p then proc else s.procs q := by
  show Function.update s.procs p proc q = _
  rw [Function.update_apply]

@[simp] theorem set_list (s : Family) (p : Nat) (proc : Process) :
    (s.set p proc).taskGlobalList = s.taskGlobalList := rfl

@[simp] theorem set_next (s : Family) (p : Nat) (proc : Process) :
    (s.set p proc).nextPid = s.nextPid := rfl

@[simp] theorem set_reaped (s : Family) (p : Nat) (proc : Process) :
    (s.set p proc).reaped = s.reaped := rfl

@[simp] theorem set_forker (s : Family) (p : Nat) (proc : Process) :
    (s.set p proc).forker = s.forker := rfl

/-- The init process alone. -/
def init : Family :=
  { procs := fun _ => ⟨none, -1, .ready, .user⟩
    taskGlobalList := [0]
    nextPid := 1
    reaped := []
    forker := fun _ => 0 }

/-- The process that `NotifyParent` wakes. -/
def waitingParent (s : Family) (parentPid : Option Nat) : Option Nat :=
  s.taskGlobalList.find? fun p => some p = parentPid ∧ (s.procs p).status = .waiting

/-- `NotifyParent`, with `true` for its result 0. -/
def notifyParent (s : Family) (parentPid : Option Nat) : Family × Bool :=
  match s.waitingParent parentPid with
  | some parent => (s.set parent { s.procs parent with status := .ready }, true)
  | none => (s, false)

/-- `AdopeChildren`. It returns before it has looked at any child. -/
def adopeChildren (s : Family) (cur : Nat) : Family :=
  ((s.set cur { s.procs cur with parentPid := some 0 }).notifyParent (some 0)).1

/-- `SysExit` up to `TaskBlock`. -/
def sysExit (s : Family) (cur : Nat) (status : Int) : Family :=
  let s := s.set cur { s.procs cur with exitStatus := status, place := .toZombie }
  let r := s.notifyParent (s.procs cur).parentPid
  if r.2 then r.1 else r.1.adopeChildren cur

/-- The processes with a given parent. -/
def children (s : Family) (p : Nat) : List Nat :=
  s.taskGlobalList.filter fun c => (s.procs c).parentPid = some p

/-- The scan of `SysWait` and what follows it up to `TaskBlock`. -/
def scan (s : Family) (cur : Nat) (found : Bool) : Family :=
  match (s.children cur).find? fun c => (s.procs c).status = .zombie with
  | some child =>
      { s.set cur { s.procs cur with place := .user } with
        taskGlobalList := s.taskGlobalList.erase child
        reaped := s.reaped ++ [⟨cur, child, (s.procs child).exitStatus⟩] }
  | none =>
      s.set cur { s.procs cur with
        place := if found || !(s.children cur).isEmpty then .toWait else .user }

/-- A fork, as far as the family goes. -/
def fork (s : Family) (cur : Nat) : Family :=
  { s.set s.nextPid ⟨some cur, -1, .ready, .user⟩ with
    taskGlobalList := s.taskGlobalList ++ [s.nextPid]
    nextPid := s.nextPid + 1
    forker := Function.update s.forker s.nextPid cur }

end Family

/-- A step of a process. -/
inductive FamilyOp where
  | fork (p : Nat)
  | exit (p : Nat) (status : Int)
  | zombie (p : Nat)
  | scan (p : Nat)
  | block (p : Nat)
  deriving DecidableEq, Repr

/-- The process that takes a step, and whether it is where the step begins. -/
def FamilyOp.Begins (s : Family) : FamilyOp → Prop
  | .fork p => p ∈ s.taskGlobalList ∧ (s.procs p).status = .ready ∧ (s.procs p).place = .user
  | .exit p _ => p ∈ s.taskGlobalList ∧ (s.procs p).status = .ready ∧ (s.procs p).place = .user
  | .zombie p =>
      p ∈ s.taskGlobalList ∧ (s.procs p).status = .ready ∧ (s.procs p).place = .toZombie
  | .scan p => p ∈ s.taskGlobalList ∧ (s.procs p).status = .ready ∧
      ((s.procs p).place = .user ∨ (s.procs p).place = .toRepeat)
  | .block p => p ∈ s.taskGlobalList ∧ (s.procs p).status = .ready ∧ (s.procs p).place = .toWait

instance (s : Family) : DecidablePred (FamilyOp.Begins s)
  | .fork _ => inferInstanceAs (Decidable (_ ∧ _))
  | .exit _ _ => inferInstanceAs (Decidable (_ ∧ _))
  | .zombie _ => inferInstanceAs (Decidable (_ ∧ _))
  | .scan _ => inferInstanceAs (Decidable (_ ∧ _))
  | .block _ => inferInstanceAs (Decidable (_ ∧ _))

/-- What a step does. -/
def FamilyOp.apply (s : Family) : FamilyOp → Family
  | .fork p => s.fork p
  | .exit p status => s.sysExit p status
  | .zombie p => s.set p { s.procs p with status := .zombie }
  | .scan p => s.scan p ((s.procs p).place = .toRepeat)
  | .block p => s.set p { s.procs p with status := .waiting, place := .toRepeat }

/-- One step of one process. -/
def familyStep (s : Family) (op : FamilyOp) : Option Family :=
  if op.Begins s then some (op.apply s) else none

/-- What preemption must spare. While a process is between its scan and `TASK_WAITING`, its last
child does not exit, and when it is init, no process leaves itself to it. And no process scans
while one of its children is between its notification and `TASK_ZOMBIE`. -/
def familyGuard (s : Family) : FamilyOp → Prop
  | .exit p _ => ∀ q ∈ s.taskGlobalList, (s.procs q).place = .toWait →
      (q = 0 → (s.waitingParent (s.procs p).parentPid).isSome) ∧
        ((s.procs p).parentPid = some q → ∃ c ∈ s.children q, c ≠ p)
  | .scan p => ∀ c ∈ s.children p, (s.procs c).place = .toZombie → (s.procs c).status = .zombie
  | _ => True

instance (s : Family) : DecidablePred (familyGuard s)
  | .exit _ _ => inferInstanceAs (Decidable (∀ q ∈ _, _ → _ ∧ _))
  | .scan _ => inferInstanceAs (Decidable (∀ c ∈ _, _ → _))
  | .fork _ => inferInstanceAs (Decidable True)
  | .zombie _ => inferInstanceAs (Decidable True)
  | .block _ => inferInstanceAs (Decidable True)

end XBook.ExitWait
