import XBook.Kernel.SignalTasks

/-!
# Sleeping with a timer

`TaskSleep` of `kernel/sleep_wakeup.c` and the timers of `drivers/timer.c`, with the signals of
`XBook.Kernel.SignalTasks`, here for tasks that block in `TaskSleep` only. The timer of a sleep is
in the frame of its call, and `inside` says in which call a task is. A task is in it from where it
blocks to where it has run again, whoever has woken it.
-/

namespace XBook.Sleep

open Signals (SignalTasks Handler Status)

/-- A `struct Timer` of a call of `TaskSleep`, by the number of the call. Its function is
`TaskTimeout`, and its `data` is the task. -/
structure Timer (Tid : Type*) where
  call : Nat
  task : Tid
  expires : UInt64

/-- The tasks, and the timers that run. -/
structure SleepTasks (Tid : Type*) where
  base : SignalTasks Empty Tid
  sleepTimer : Tid → Option Nat
  inside : Tid → Option Nat
  timerList : List (Timer Tid)
  nextCall : Nat

namespace SleepTasks

variable {Tid : Type*} [DecidableEq Tid]

/-- Tasks that are ready. -/
def init (handler : Tid → Nat → Handler) : SleepTasks Tid :=
  { base := .init handler nofun nofun
    sleepTimer := fun _ => none
    inside := fun _ => none
    timerList := []
    nextCall := 0 }

def setSleepTimer (s : SleepTasks Tid) (p : Tid) (timer : Option Nat) : SleepTasks Tid :=
  { s with sleepTimer := Function.update s.sleepTimer p timer }

/-- `RemoveTimer` and `CancelTimer`, with their `ASSERT`. -/
def cancelTimer (s : SleepTasks Tid) (call : Nat) : SleepTasks Tid :=
  if s.timerList.any (·.call = call) then
    { s with timerList := s.timerList.filter (·.call ≠ call) }
  else { s with base := s.base.fail }

/-- `TaskSleep`, up to its `Schedule`. -/
def taskSleep (s : SleepTasks Tid) (p : Tid) (ticks : UInt32) : SleepTasks Tid :=
  let timer : Timer Tid := ⟨s.nextCall, p, ticks.toUInt64⟩
  { s.setSleepTimer p (some timer.call) with
    base := s.base.block p .idle
    inside := Function.update s.inside p (some timer.call)
    timerList := s.timerList ++ [timer]
    nextCall := s.nextCall + 1 }

/-- `TaskSleep`, behind its `Schedule`. -/
def sleepEnd (s : SleepTasks Tid) (p : Tid) : SleepTasks Tid :=
  { s.setSleepTimer p none with inside := Function.update s.inside p none }

/-- `TimerUpdate`. A timer that expires leaves the list before its function is called. -/
def timerUpdate (s : SleepTasks Tid) (timer : Timer Tid) : SleepTasks Tid :=
  let expires := timer.expires - 1
  if expires = 0 then
    let t := s.cancelTimer timer.call
    { t with base := t.base.taskWakeUp timer.task }
  else
    { s with timerList := s.timerList.map fun x =>
        if x.call = timer.call then { x with expires } else x }

/-- `UpdateTimerSystem`. -/
def updateTimerSystem (s : SleepTasks Tid) : SleepTasks Tid := s.timerList.foldl timerUpdate s

/-- `DeliverSignal`. A task that it wakes needs its timer no more. -/
def deliverSignal (s : SleepTasks Tid) (signo : Nat) (q : Tid) : SleepTasks Tid :=
  let t := { s with base := s.base.deliverSignal signo q }
  if signo ∉ (s.base.task q).signalBlocked ∧ (s.base.task q).status = .blocked then
    match s.sleepTimer q with
    | none => t
    | some call => (t.cancelTimer call).setSleepTimer q none
  else t

/-- `DoSendSignal`. Its last lines can wake a task, too. -/
def doSendSignal (s : SleepTasks Tid) (signo : Nat) (q : Tid) : SleepTasks Tid :=
  if signo < 1 ∨ signo ≥ Signals.maxSignalNr then s
  else
    let t := { s with base := s.base.handleStopSignal signo q }
    let u :=
      if t.base.ignoreSignal signo q then t
      else if signo ∈ (t.base.task q).signalPending then t
      else t.deliverSignal signo q
    if (u.base.task q).status = .blocked ∧ (u.base.task q).signalPending ≠ ∅ ∧
        signo ∉ (u.base.task q).signalBlocked then
      { u with base := u.base.taskWakeUp q }
    else u

/-- What `ForceSignal` changes before it sends: the signal is neither ignored nor blocked. -/
def unmask (s : SleepTasks Tid) (signo : Nat) (q : Tid) : SleepTasks Tid :=
  let old := (s.base.task q).handler
  { s with base := s.base.setTask q { s.base.task q with
      handler := if old signo = .ign then Function.update old signo .dfl else old
      signalBlocked := (s.base.task q).signalBlocked.erase signo } }

/-- `ForceSignal`. -/
def forceSignal (s : SleepTasks Tid) (signo : Nat) (q : Tid) : SleepTasks Tid :=
  (s.unmask signo q).doSendSignal signo q

end SleepTasks

/-- What the current task does, a tick of the clock, or a signal for any task. -/
inductive SleepOp (Tid : Type*) where
  | sleep (ticks : UInt32)
  | wake
  | tick
  /-- `SysSignalProcessMask`. -/
  | processMask (set : Finset Nat)
  /-- `SysSignal` or `SysSignalAction`. -/
  | setAction (signo : Nat) (handler : Handler)
  | doSignal (signo : Nat)
  | switchTo (task : Tid)
  | sendSignal (signo : Nat) (task : Tid)
  | forceSignal (signo : Nat) (task : Tid)

variable {Tid : Type*} [DecidableEq Tid]

/-- What the current task does outside of `TaskSleep`. -/
def outsideStep (s : SleepTasks Tid) (p : Tid) : SleepOp Tid → Option (SleepTasks Tid)
  | .sleep ticks => some (s.taskSleep p ticks)
  | .processMask set => some { s with base := s.base.setTask p { s.base.task p with
      signalBlocked := set \ {Signals.sigkill, Signals.sigstop} } }
  | .setAction signo handler => some { s with base := s.base.setTask p { s.base.task p with
      handler := Function.update (s.base.task p).handler signo handler } }
  | .doSignal signo =>
      if signo ∈ (s.base.task p).signalPending ∧ signo ∉ (s.base.task p).signalBlocked then
        some { s with base := s.base.doSignal p signo }
      else none
  | _ => none

/-- One step. After a failed `ASSERT` there is none. -/
def sleepStep (s : SleepTasks Tid) (op : SleepOp Tid) : Option (SleepTasks Tid) :=
  if s.base.failed then none
  else
    match op with
    | .tick => some s.updateTimerSystem
    | .sendSignal signo q => some (s.doSendSignal signo q)
    | .forceSignal signo q => some (s.forceSignal signo q)
    | .switchTo p =>
        if (s.base.task p).status = .ready then some { s with base := s.base.switchTo p } else none
    | .wake =>
        match s.base.current with
        | none => none
        | some p => if (s.inside p).isSome then some (s.sleepEnd p) else none
    | op =>
        match s.base.current with
        | none => none
        | some p => if s.inside p = none then outsideStep s p op else none

end XBook.Sleep
