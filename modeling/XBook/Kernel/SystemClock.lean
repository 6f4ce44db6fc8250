import XBook.Kernel.TaskAssist

/-!
# The system clock

`ClockHnadler` and `TimerSoftirqHandler` of `drivers/clock.c`, `UpdateAlarmSystem` and `SysAlarm` of
`kernel/alarm.c`, and `UpdateTimerSystem` of `drivers/timer.c`, under `HandleSoftirq`. Every call of
`DoSoftirq` has a frame, and any frame may go on at any time: an interrupt may come in between, and
the softirq of the scheduler may leave the rest to another task. `elapsed`, `dates`, `timerRuns` and
`alarmed` count the interrupts and what has been done for them.
-/

namespace XBook.Clock

open Softirqs (Softirq softirqs maxRedoIrq)

/-- `HZ`. -/
abbrev hz : Nat := 500

/-! ## Date, alarms and timers -/

/-- `struct SystemDate`, up to the fields that no tick changes. -/
structure SystemDate where
  second : Int
  minute : Int
  hour : Int
  day : Int
  month : Int
  year : Int
  deriving DecidableEq

/-- `ClockChangeSystemDate`. -/
def SystemDate.change (date : SystemDate) : SystemDate :=
  if date.second + 1 < 60 then { date with second := date.second + 1 }
  else if date.minute + 1 < 60 then { date with second := 0, minute := date.minute + 1 }
  else if date.hour + 1 < 24 then
    { date with second := 0, minute := 0, hour := date.hour + 1 }
  else if date.day + 1 ≤ 30 then
    { date with second := 0, minute := 0, hour := 0, day := date.day + 1 }
  else if date.month + 1 ≤ 12 then
    { date with second := 0, minute := 0, hour := 0, day := 1, month := date.month + 1 }
  else { second := 0, minute := 0, hour := 0, day := 1, month := 1, year := date.year + 1 }

/-- The alarm of a task, with the number of times that it has gone off. -/
structure Alarm where
  alarm : Bool
  alarmSeconds : UInt32
  alarmTicks : UInt32
  sent : Nat
  deriving DecidableEq

/-- `task->alarmTicks--`. -/
def Alarm.countDown (a : Alarm) : Alarm := { a with alarmTicks := a.alarmTicks - 1 }

/-- What follows when no ticks are left, with `ForceSignal` at the end of the time. -/
def Alarm.check (a : Alarm) : Alarm :=
  if a.alarmTicks = 0 then
    let alarmSeconds := a.alarmSeconds - 1
    if alarmSeconds = 0 then
      { alarm := false, alarmSeconds, alarmTicks := UInt32.ofNat hz, sent := a.sent + 1 }
    else { a with alarmSeconds, alarmTicks := UInt32.ofNat hz }
  else a

/-- The body of the loop of `UpdateAlarmSystem`. -/
def Alarm.update (a : Alarm) : Alarm := if a.alarm then a.countDown.check else a

/-- `SysAlarm`. -/
def Alarm.sysAlarm (a : Alarm) (seconds : UInt32) : Alarm :=
  if seconds = 0 then { a with alarm := false }
  else { a with alarm := true, alarmSeconds := seconds, alarmTicks := UInt32.ofNat hz }

/-- The state of a timer. -/
inductive TimerState where
  | idle
  | running
  | stop
  deriving DecidableEq

/-- `struct Timer`. -/
structure Timer (F : Type*) where
  expires : UInt64
  data : UInt32
  function : F
  state : TimerState
  deriving DecidableEq

/-- The list of timers, and the functions that have been called. -/
structure Timers (F : Type*) where
  timerList : List (Timer F)
  called : List (F × UInt32)
  deriving DecidableEq

/-- `TimerUpdate` counts a running timer down. -/
def Timer.countDown {F : Type*} (x : Timer F) : Timer F :=
  if x.state = .running then { x with expires := x.expires - 1 } else x

/-- It has just run out. -/
abbrev Timer.Expired {F : Type*} (x : Timer F) : Prop :=
  x.state = .running ∧ x.countDown.expires = 0

/-- `UpdateTimerSystem`. -/
def Timers.update {F : Type*} (timers : Timers F) : Timers F :=
  { timerList := (timers.timerList.filter fun x => ¬ x.Expired).map Timer.countDown
    called := timers.called ++
      (timers.timerList.filter fun x => x.Expired).map fun x => (x.function, x.data) }

/-! ## The calls -/

/-- Where `HandleSoftirq` is: at its own loop, or in `TimerSoftirqHandler`. -/
inductive Point (Tid : Type*) where
  | handle
  /-- Before `ticks % HZ == 0`. -/
  | test
  /-- Before `ClockChangeSystemDate`. -/
  | date
  /-- In `UpdateAlarmSystem`, with the tasks that are left. -/
  | alarms (rest : List Tid)
  /-- Behind `alarmTicks--`. -/
  | check (task : Tid) (rest : List Tid)
  /-- Before `UpdateTimerSystem`. -/
  | timers
  deriving DecidableEq

/-- `HandleSoftirq`, with the softirqs that are left of `evens`. -/
structure Frame (Tid : Type*) where
  point : Point Tid
  evens : List Softirq
  redoIrq : Nat
  deriving DecidableEq

/-- The clock and what it drives. `timersSince` and `alarmSince` are the timers and the alarms as
they have last been set, with the counts of that moment. -/
structure ClockSystem (Tid F ι : Type*) where
  ticks : Int32
  softirqEvens : Softirq → Bool
  date : SystemDate
  /-- `taskGlobalList`. -/
  tasks : List Tid
  nodup : tasks.Nodup
  alarm : Tid → Alarm
  timers : Timers F
  frames : ι → Option (Frame Tid)
  elapsed : Nat
  dates : Nat
  timerRuns : Nat
  alarmed : Tid → Nat
  timersSince : Nat × Timers F
  alarmSince : Tid → Nat × Alarm

namespace ClockSystem

variable {Tid F ι : Type*}

/-- `InitClockDriver`, with the date of the CMOS. -/
def init (date : SystemDate) (tasks : List Tid) (nodup : tasks.Nodup) (alarm : Tid → Alarm)
    (timers : Timers F) : ClockSystem Tid F ι :=
  { ticks := 0
    softirqEvens := fun _ => false
    date, tasks, nodup, alarm, timers
    frames := fun _ => none
    elapsed := 0
    dates := 0
    timerRuns := 0
    alarmed := fun _ => 0
    timersSince := (0, timers)
    alarmSince := fun q => (0, alarm q) }

/-- `ActiveSoftirq`. -/
def activeSoftirq (s : ClockSystem Tid F ι) (e : Softirq) : ClockSystem Tid F ι :=
  { s with softirqEvens := Function.update s.softirqEvens e true }

/-- `ClockHnadler`. -/
def clockHandler (s : ClockSystem Tid F ι) : ClockSystem Tid F ι :=
  ({ s with ticks := s.ticks + 1, elapsed := s.elapsed + 1 }.activeSoftirq .timer).activeSoftirq
    .sched

/-- `GetSoftirqEvens`, as the softirqs that `HandleSoftirq` comes to. -/
def getSoftirqEvens (s : ClockSystem Tid F ι) : List Softirq := softirqs.filter s.softirqEvens

variable [DecidableEq Tid] [DecidableEq ι]

def setFrame (s : ClockSystem Tid F ι) (i : ι) (frame : Option (Frame Tid)) :
    ClockSystem Tid F ι :=
  { s with frames := Function.update s.frames i frame }

/-- `HandleSoftirq` takes the softirqs, if there are any and it may go on. -/
def takeEvens (s : ClockSystem Tid F ι) (i : ι) (redoIrq : Nat) : ClockSystem Tid F ι :=
  if s.getSoftirqEvens ≠ [] ∧ redoIrq ≠ 0 then
    { s with softirqEvens := fun _ => false }.setFrame i
      (some ⟨.handle, s.getSoftirqEvens, redoIrq⟩)
  else s.setFrame i none

/-- The alarm of a task has been updated. -/
def setAlarmed (s : ClockSystem Tid F ι) (q : Tid) : ClockSystem Tid F ι :=
  { s with alarmed := Function.update s.alarmed q (s.alarmed q + 1) }

/-- The next step of `HandleSoftirq`, or of `TimerSoftirqHandler` in it. -/
def softirqStep (s : ClockSystem Tid F ι) (i : ι) (frame : Frame Tid) : ClockSystem Tid F ι :=
  match frame.point with
  | .handle =>
      match frame.evens with
      | [] => s.takeEvens i (frame.redoIrq - 1)
      | .timer :: rest => s.setFrame i (some ⟨.test, rest, frame.redoIrq⟩)
      | _ :: rest => s.setFrame i (some ⟨.handle, rest, frame.redoIrq⟩)
  | .test =>
      if s.ticks % Int32.ofNat hz = 0 then s.setFrame i (some { frame with point := .date })
      else s.setFrame i (some { frame with point := .alarms s.tasks })
  | .date =>
      { s with date := s.date.change, dates := s.dates + 1 }.setFrame i
        (some { frame with point := .alarms s.tasks })
  | .alarms [] => s.setFrame i (some { frame with point := .timers })
  | .alarms (q :: rest) =>
      if (s.alarm q).alarm then
        { s with alarm := Function.update s.alarm q (s.alarm q).countDown }.setFrame i
          (some { frame with point := .check q rest })
      else (s.setAlarmed q).setFrame i (some { frame with point := .alarms rest })
  | .check q rest =>
      ({ s with alarm := Function.update s.alarm q (s.alarm q).check }.setAlarmed q).setFrame i
        (some { frame with point := .alarms rest })
  | .timers =>
      { s with timers := s.timers.update, timerRuns := s.timerRuns + 1 }.setFrame i
        (some { frame with point := .handle })

/-- `SysAlarm` of a task. -/
def sysAlarm (s : ClockSystem Tid F ι) (q : Tid) (seconds : UInt32) : ClockSystem Tid F ι :=
  { s with
    alarm := Function.update s.alarm q ((s.alarm q).sysAlarm seconds)
    alarmSince := Function.update s.alarmSince q
      (s.alarmed q, (s.alarm q).sysAlarm seconds) }

/-- `AddTimer`, `RemoveTimer`, `StopTimer` or `ResumeTimer`, which disable interrupts. -/
def setTimers (s : ClockSystem Tid F ι) (timerList : List (Timer F)) : ClockSystem Tid F ι :=
  { s with
    timers := { s.timers with timerList }
    timersSince := (s.timerRuns, { s.timers with timerList }) }

end ClockSystem

/-- What may happen. -/
inductive ClockOp (Tid F ι : Type*) where
  /-- An interrupt of the clock. -/
  | clock
  | doSoftirq (i : ι)
  | advance (i : ι)
  /-- `ActiveSoftirq` for some other softirq. -/
  | active (e : Softirq)
  | sysAlarm (task : Tid) (seconds : UInt32)
  | setTimers (timerList : List (Timer F))

variable {Tid F ι : Type*} [DecidableEq Tid] [DecidableEq ι]

/-- One step. A call has a frame that no other one has. -/
def clockStep (s : ClockSystem Tid F ι) : ClockOp Tid F ι → Option (ClockSystem Tid F ι)
  | .clock => some s.clockHandler
  | .doSoftirq i =>
      match s.frames i with
      | none => some (s.takeEvens i maxRedoIrq)
      | some _ => none
  | .advance i => (s.frames i).map fun frame => s.softirqStep i frame
  | .active e => if e = .timer then none else some (s.activeSoftirq e)
  | .sysAlarm q seconds => some (s.sysAlarm q seconds)
  | .setTimers timerList => some (s.setTimers timerList)

end XBook.Clock
