import XBook.Kernel.SystemClock
import XBook.Lib.Tally
import XBook.Lib.Transition

/-!
# Every tick of the clock is applied once

A tick is owed by the softirq that is active, and then by the frame that has taken it, until that
frame has come by. `ClockInv` counts what is owed. It rests on no interrupt coming while the last one
is still active, and at a full second none until the last one has been tested; `clockGuard` says so,
and that no two calls are in the middle of changing the same alarm or the date.
-/

namespace XBook.Clock

open Softirqs (Softirq softirqs maxRedoIrq)
open Tally Transition

variable {Tid F ι : Type*}

/-! ## What is still to be done -/

/-- The ticks that a frame has taken and not tested. -/
def untested : Option (Frame Tid) → Nat
  | none => 0
  | some frame =>
      frame.evens.count .timer + match frame.point with
        | .test => 1
        | .handle | .date | .alarms _ | .check _ _ | .timers => 0

/-- Whether a frame is about to change the date. -/
def dateDue : Option (Frame Tid) → Nat
  | none => 0
  | some frame =>
      match frame.point with
      | .date => 1
      | .handle | .test | .alarms _ | .check _ _ | .timers => 0

/-- How often a frame is going to update the timers. -/
def timersDue (frame : Option (Frame Tid)) : Nat :=
  untested frame + match frame with
    | none => 0
    | some frame =>
        match frame.point with
        | .date | .alarms _ | .check _ _ | .timers => 1
        | .handle | .test => 0

variable [DecidableEq Tid]

/-- How often a frame is going to update the alarm of a task. -/
def alarmDue (q : Tid) (frame : Option (Frame Tid)) : Nat :=
  untested frame + match frame with
    | none => 0
    | some frame =>
        match frame.point with
        | .date => 1
        | .alarms rest => rest.count q
        | .check p rest => (p :: rest).count q
        | .handle | .test | .timers => 0

/-- Whether a frame is between the two halves of the update of an alarm. -/
def checking (q : Tid) : Option (Frame Tid) → Nat
  | none => 0
  | some frame =>
      match frame.point with
      | .check p _ => if p = q then 1 else 0
      | .handle | .test | .date | .alarms _ | .timers => 0

/-- Whether the softirq is active. -/
def pending (s : ClockSystem Tid F ι) : Nat := (s.softirqEvens .timer).toNat

variable [Fintype ι]

/-- The ticks that no frame has tested. -/
def raised (s : ClockSystem Tid F ι) : Nat := pending s + tally fun i => untested (s.frames i)

/-- A task's alarm is the one that has last been set, with each update since then. -/
structure AlarmApplied (s : ClockSystem Tid F ι) (q : Tid) : Prop where
  since : (s.alarmSince q).1 ≤ s.alarmed q
  one : (tally fun i => checking q (s.frames i)) ≤ 1
  between : (tally fun i => checking q (s.frames i)) = 1 →
    (Alarm.update^[s.alarmed q - (s.alarmSince q).1] (s.alarmSince q).2).alarm = true ∧
    s.alarm q =
      (Alarm.update^[s.alarmed q - (s.alarmSince q).1] (s.alarmSince q).2).countDown
  outside : (tally fun i => checking q (s.frames i)) = 0 →
    s.alarm q = Alarm.update^[s.alarmed q - (s.alarmSince q).1] (s.alarmSince q).2

/-- The timers are those that have last been set, with each update since then. -/
def TimersApplied (s : ClockSystem Tid F ι) : Prop :=
  s.timersSince.1 ≤ s.timerRuns ∧
    s.timers = Timers.update^[s.timerRuns - s.timersSince.1] s.timersSince.2

/-- What has been done and what is owed make up the interrupts, and the date, the timers and the
alarms are those from before with what has been done. -/
structure ClockInv (date : SystemDate) (s : ClockSystem Tid F ι) : Prop where
  ticks : s.elapsed < 2 ^ 31 ∧ s.ticks = Int32.ofNat s.elapsed
  timerRuns : s.timerRuns + pending s + (tally fun i => timersDue (s.frames i)) = s.elapsed
  alarmed : ∀ q ∈ s.tasks,
    s.alarmed q + pending s + (tally fun i => alarmDue q (s.frames i)) = s.elapsed
  dates : s.dates + (tally fun i => dateDue (s.frames i)) +
    (if s.elapsed % hz = 0 then raised s else 0) = s.elapsed / hz
  few : s.elapsed % hz = 0 → raised s ≤ 1
  date : s.date = SystemDate.change^[s.dates] date
  timers : TimersApplied s
  alarms : ∀ q, AlarmApplied s q

/-! ## One step -/

variable {s t : ClockSystem Tid F ι} {i : ι} {date : SystemDate}

/-- `ticks % HZ == 0`, while `ticks` has not overflowed. -/
theorem second_iff {n : Nat} (h : n < 2 ^ 31) :
    Int32.ofNat n % Int32.ofNat hz = 0 ↔ n % hz = 0 := by
  have hn : (Int32.ofNat n).toInt = n := Int32.toInt_ofNat_of_lt h
  have hhz : (Int32.ofNat hz).toInt = 500 := by decide
  rw [← Int32.toInt_inj, Int32.toInt_mod, hn, hhz]
  show Int.tmod n 500 = 0 ↔ n % 500 = 0
  rw [Int.tmod_eq_emod_of_nonneg (by omega)]
  omega

theorem ClockInv.second (h : ClockInv date s) :
    s.ticks % Int32.ofNat hz = 0 ↔ s.elapsed % hz = 0 := by
  rw [h.ticks.2]
  exact second_iff h.ticks.1

/-- An alarm that nothing happens to. -/
theorem AlarmApplied.congr {q : Tid} (h : AlarmApplied s q)
    (hchecking : (tally fun i => checking q (t.frames i)) = tally fun i => checking q (s.frames i))
    (halarm : t.alarm q = s.alarm q) (halarmed : t.alarmed q = s.alarmed q)
    (hsince : t.alarmSince q = s.alarmSince q) : AlarmApplied t q where
  since := by
    rw [hsince, halarmed]
    exact h.since
  one := by
    rw [hchecking]
    exact h.one
  between := by
    rw [hchecking, hsince, halarmed, halarm]
    exact h.between
  outside := by
    rw [hchecking, hsince, halarmed, halarm]
    exact h.outside

variable [DecidableEq ι]

omit [DecidableEq Tid] in
/-- The sum over the frames, when one of them changes. -/
theorem tally_frames (f : Option (Frame Tid) → Nat) {frame : Option (Frame Tid)}
    (hframes : t.frames = Function.update s.frames i frame) :
    (tally fun j => f (t.frames j)) + f (s.frames i) =
      (tally fun j => f (s.frames j)) + f frame := by
  rw [hframes]
  exact tally_comp_update f s.frames i frame

/-- A frame goes on, and nothing happens to the alarm. -/
theorem AlarmApplied.of_frame {q : Tid} (h : AlarmApplied s q) {frame : Option (Frame Tid)}
    (hframes : t.frames = Function.update s.frames i frame)
    (hchecking : checking q frame = checking q (s.frames i)) (halarm : t.alarm q = s.alarm q)
    (halarmed : t.alarmed q = s.alarmed q) (hsince : t.alarmSince q = s.alarmSince q) :
    AlarmApplied t q := by
  refine h.congr ?_ halarm halarmed hsince
  have hstep := tally_frames (checking q) hframes
  omega

omit [DecidableEq ι] in
/-- One more update of an alarm. -/
theorem iterate_update {q : Tid} (h : AlarmApplied s q) :
    Alarm.update^[s.alarmed q + 1 - (s.alarmSince q).1] (s.alarmSince q).2 =
      (Alarm.update^[s.alarmed q - (s.alarmSince q).1] (s.alarmSince q).2).update := by
  rw [Nat.succ_sub h.since, Function.iterate_succ_apply']

/-- `alarmTicks--`. -/
theorem AlarmApplied.begin {q : Tid} (h : AlarmApplied s q) {frame : Option (Frame Tid)}
    (hframes : t.frames = Function.update s.frames i frame) (hchecking : checking q frame = 1)
    (hon : (s.alarm q).alarm = true) (hother : ∀ j, checking q (s.frames j) = 0)
    (halarm : t.alarm q = (s.alarm q).countDown) (halarmed : t.alarmed q = s.alarmed q)
    (hsince : t.alarmSince q = s.alarmSince q) : AlarmApplied t q := by
  have hzero : (tally fun j => checking q (s.frames j)) = 0 := tally_eq_zero.mpr hother
  have hone : (tally fun j => checking q (t.frames j)) = 1 := by
    have hstep := tally_frames (checking q) hframes
    rw [hzero, hother i, hchecking] at hstep
    exact hstep
  refine ⟨?_, hone.le, fun _ => ?_, fun hnone => ?_⟩
  · rw [hsince, halarmed]
    exact h.since
  · rw [hsince, halarmed, halarm, ← h.outside hzero]
    exact ⟨hon, rfl⟩
  · rw [hone] at hnone
    cases hnone

/-- An alarm that is off. -/
theorem AlarmApplied.skip {q : Tid} (h : AlarmApplied s q) {frame : Option (Frame Tid)}
    (hframes : t.frames = Function.update s.frames i frame) (hchecking : checking q frame = 0)
    (hoff : (s.alarm q).alarm = false) (hother : ∀ j, checking q (s.frames j) = 0)
    (halarm : t.alarm q = s.alarm q) (halarmed : t.alarmed q = s.alarmed q + 1)
    (hsince : t.alarmSince q = s.alarmSince q) : AlarmApplied t q := by
  have hzero : (tally fun j => checking q (s.frames j)) = 0 := tally_eq_zero.mpr hother
  have hnone : (tally fun j => checking q (t.frames j)) = 0 := by
    have hstep := tally_frames (checking q) hframes
    rw [hzero, hother i, hchecking] at hstep
    exact hstep
  refine ⟨?_, hnone.le.trans (Nat.zero_le 1), fun hone => ?_, fun _ => ?_⟩
  · rw [hsince, halarmed]
    exact Nat.le_succ_of_le h.since
  · rw [hnone] at hone
    cases hone
  · rw [hsince, halarmed, halarm, iterate_update h, ← h.outside hzero, Alarm.update, hoff]
    rfl

/-- The end of the update of an alarm. -/
theorem AlarmApplied.finish {q : Tid} (h : AlarmApplied s q) {frame : Option (Frame Tid)}
    (hframes : t.frames = Function.update s.frames i frame) (hchecking : checking q frame = 0)
    (hold : checking q (s.frames i) = 1) (halarm : t.alarm q = (s.alarm q).check)
    (halarmed : t.alarmed q = s.alarmed q + 1) (hsince : t.alarmSince q = s.alarmSince q) :
    AlarmApplied t q := by
  have hone : (tally fun j => checking q (s.frames j)) = 1 := by
    have hle : checking q (s.frames i) ≤ tally fun j => checking q (s.frames j) :=
      le_tally (fun j => checking q (s.frames j)) i
    have hmost := h.one
    omega
  have hnone : (tally fun j => checking q (t.frames j)) = 0 := by
    have hstep := tally_frames (checking q) hframes
    omega
  obtain ⟨hon, hdown⟩ := h.between hone
  refine ⟨?_, hnone.le.trans (Nat.zero_le 1), fun hpos => ?_, fun _ => ?_⟩
  · rw [hsince, halarmed]
    exact Nat.le_succ_of_le h.since
  · rw [hnone] at hpos
    cases hpos
  · rw [hsince, halarmed, halarm, iterate_update h, Alarm.update, hon, hdown]
    rfl

/-- A frame that goes on, with what it does. -/
theorem ClockInv.of_frame (h : ClockInv date s) {frame : Option (Frame Tid)}
    (hframes : t.frames = Function.update s.frames i frame)
    (hsame : t.elapsed = s.elapsed ∧ t.ticks = s.ticks ∧ t.tasks = s.tasks)
    (hruns : t.timerRuns + pending t + timersDue frame =
      s.timerRuns + pending s + timersDue (s.frames i))
    (halarmed : ∀ q ∈ s.tasks, t.alarmed q + pending t + alarmDue q frame =
      s.alarmed q + pending s + alarmDue q (s.frames i))
    (hdates : t.dates + dateDue frame +
        (if s.elapsed % hz = 0 then pending t + untested frame else 0) =
      s.dates + dateDue (s.frames i) +
        (if s.elapsed % hz = 0 then pending s + untested (s.frames i) else 0))
    (hfew : pending t + untested frame ≤ pending s + untested (s.frames i))
    (hdate : t.date = SystemDate.change^[t.dates] date) (htimers : TimersApplied t)
    (halarms : ∀ q, AlarmApplied t q) : ClockInv date t := by
  obtain ⟨helapsed, hticks, htasks⟩ := hsame
  have huntested := tally_frames untested hframes
  have hdue := tally_frames dateDue hframes
  have hraised : raised t + (pending s + untested (s.frames i)) =
      raised s + (pending t + untested frame) := by
    show (pending t + tally fun j => untested (t.frames j)) + _ =
      (pending s + tally fun j => untested (s.frames j)) + _
    omega
  refine ⟨?_, ?_, ?_, ?_, ?_, hdate, htimers, halarms⟩
  · rw [helapsed, hticks]
    exact h.ticks
  · have hold := h.timerRuns
    have hstep := tally_frames timersDue hframes
    omega
  · rw [htasks, helapsed]
    intro q hq
    have hold := h.alarmed q hq
    have hstep := tally_frames (alarmDue q) hframes
    have hdone := halarmed q hq
    omega
  · have hold := h.dates
    rw [helapsed]
    by_cases hsecond : s.elapsed % hz = 0
    · rw [if_pos hsecond] at hold hdates ⊢
      rw [if_pos hsecond] at hdates
      omega
    · rw [if_neg hsecond] at hold hdates ⊢
      rw [if_neg hsecond] at hdates
      omega
  · rw [helapsed]
    intro hsecond
    have hold := h.few hsecond
    omega

/-- A frame that goes on without doing anything to the date, the timers and the alarms. -/
theorem ClockInv.set_frame (h : ClockInv date s) {evens : Softirq → Bool}
    {frame : Option (Frame Tid)}
    (huntested : (evens .timer).toNat + untested frame = pending s + untested (s.frames i))
    (hdate : dateDue frame = dateDue (s.frames i))
    (hruns : timersDue frame + untested (s.frames i) = timersDue (s.frames i) + untested frame)
    (halarmed : ∀ q ∈ s.tasks,
      alarmDue q frame + untested (s.frames i) = alarmDue q (s.frames i) + untested frame)
    (hchecking : ∀ q, checking q frame = checking q (s.frames i)) :
    ClockInv date ({ s with softirqEvens := evens }.setFrame i frame) := by
  have hpending : pending ({ s with softirqEvens := evens }.setFrame i frame) =
    (evens .timer).toNat := rfl
  refine h.of_frame rfl ⟨rfl, rfl, rfl⟩ ?_ (fun q hq => ?_) ?_ ?_ h.date h.timers fun q => ?_
  · show s.timerRuns + _ + _ = _
    omega
  · have hdue := halarmed q hq
    show s.alarmed q + _ + _ = _
    omega
  · rw [hpending, huntested, hdate]
    rfl
  · rw [hpending, huntested]
  · exact (h.alarms q).of_frame rfl (hchecking q) rfl rfl rfl

/-- `HandleSoftirq` looks for softirqs. -/
theorem ClockInv.take_evens (h : ClockInv date s) {redoIrq : Nat}
    (hframe : s.frames i = none ∨ ∃ n, s.frames i = some ⟨.handle, [], n⟩) :
    ClockInv date (s.takeEvens i redoIrq) := by
  have huntested : untested (s.frames i) = 0 := by
    rcases hframe with hframe | ⟨n, hframe⟩ <;> rw [hframe] <;> rfl
  have hdate : dateDue (s.frames i) = 0 := by
    rcases hframe with hframe | ⟨n, hframe⟩ <;> rw [hframe] <;> rfl
  have hruns : timersDue (s.frames i) = 0 := by
    rcases hframe with hframe | ⟨n, hframe⟩ <;> rw [hframe] <;> rfl
  have halarmed : ∀ q, alarmDue q (s.frames i) = 0 := by
    rcases hframe with hframe | ⟨n, hframe⟩ <;> rw [hframe] <;> exact fun q => rfl
  have hchecking : ∀ q, checking q (s.frames i) = 0 := by
    rcases hframe with hframe | ⟨n, hframe⟩ <;> rw [hframe] <;> exact fun q => rfl
  by_cases htake : s.getSoftirqEvens ≠ [] ∧ redoIrq ≠ 0
  · have heq : s.takeEvens i redoIrq = { s with softirqEvens := fun _ => false }.setFrame i
        (some ⟨.handle, s.getSoftirqEvens, redoIrq⟩) := if_pos htake
    rw [heq]
    refine h.set_frame ?_ ?_ ?_ (fun q _ => ?_) fun q => ?_
    · rw [huntested]
      show 0 + ((softirqs.filter s.softirqEvens).count .timer + 0) = pending s + 0
      rw [pending]
      cases hactive : s.softirqEvens .timer with
      | false =>
          rw [List.count_eq_zero_of_not_mem fun hin => ?_]
          · rfl
          · rw [List.mem_filter, hactive] at hin
            cases hin.2
      | true =>
          rw [List.count_filter hactive]
          rfl
    · rw [hdate]
      rfl
    · rw [huntested, hruns]
      exact (Nat.zero_add _).symm
    · rw [huntested, halarmed]
      exact (Nat.zero_add _).symm
    · rw [hchecking]
      rfl
  · have heq : s.takeEvens i redoIrq =
        { s with softirqEvens := s.softirqEvens }.setFrame i none := if_neg htake
    rw [heq]
    refine h.set_frame ?_ ?_ ?_ (fun q _ => ?_) fun q => ?_
    · rw [huntested]
      rfl
    · rw [hdate]
      rfl
    · rw [huntested, hruns]
      rfl
    · rw [huntested, halarmed]
      rfl
    · rw [hchecking]
      rfl

/-- Nobody else is in the middle of what the frame is about to begin. -/
def Undisturbed (s : ClockSystem Tid F ι) : Option (Frame Tid) → Prop
  | none => True
  | some frame =>
      match frame.point with
      | .test => s.ticks % Int32.ofNat hz = 0 → ∀ j, dateDue (s.frames j) = 0
      | .alarms (q :: _) => ∀ j, checking q (s.frames j) = 0
      | .handle | .date | .alarms [] | .check _ _ | .timers => True

omit [Fintype ι] [DecidableEq ι] in
/-- A task of the loop has been updated. -/
theorem count_alarmed (s : ClockSystem Tid F ι) (p q : Tid) (rest : List Tid) (n : Nat) :
    (s.setAlarmed p).alarmed q + pending s + (n + 0 + rest.count q) =
      s.alarmed q + pending s + (n + 0 + (p :: rest).count q) := by
  show Function.update s.alarmed p (s.alarmed p + 1) q + _ + _ = _
  by_cases hq : q = p
  · subst hq
    rw [Function.update_self, List.count_cons_self]
    omega
  · rw [Function.update_of_ne hq, List.count_cons_of_ne (Ne.symm hq)]

/-- The next step of a frame. -/
theorem ClockInv.softirq_step (h : ClockInv date s) {frame : Frame Tid}
    (hframe : s.frames i = some frame) (hundisturbed : Undisturbed s (some frame)) :
    ClockInv date (s.softirqStep i frame) := by
  obtain ⟨point, evens, redoIrq⟩ := frame
  cases point with
  | handle =>
      cases evens with
      | nil => exact h.take_evens (Or.inr ⟨redoIrq, hframe⟩)
      | cons e rest =>
          by_cases he : e = .timer
          · subst he
            show ClockInv date ({ s with softirqEvens := s.softirqEvens }.setFrame i
              (some ⟨.test, rest, redoIrq⟩))
            have huntested : untested (s.frames i) = rest.count .timer + 1 := by
              rw [hframe]
              exact (List.count_cons_self : (Softirq.timer :: rest).count .timer = _)
            refine h.set_frame ?_ ?_ ?_ (fun q _ => ?_) fun q => ?_
            · rw [huntested]
              rfl
            · rw [hframe]
              rfl
            · rw [hframe]
              show _ + 0 + untested _ = untested _ + 0 + _
              omega
            · rw [hframe]
              show _ + 0 + untested _ = untested _ + 0 + _
              omega
            · rw [hframe]
              rfl
          · have heq : s.softirqStep i ⟨.handle, e :: rest, redoIrq⟩ =
                { s with softirqEvens := s.softirqEvens }.setFrame i
                  (some ⟨.handle, rest, redoIrq⟩) := by
              cases e with
              | timer => exact (he rfl).elim
              | highTaskAssist | netTx | netRx | taskAssist | sched | rcu => rfl
            have huntested : untested (s.frames i) = rest.count .timer := by
              rw [hframe]
              exact List.count_cons_of_ne he
            rw [heq]
            refine h.set_frame ?_ ?_ ?_ (fun q _ => ?_) fun q => ?_
            · rw [huntested]
              rfl
            · rw [hframe]
              rfl
            · rw [hframe]
              show _ + 0 + untested _ = untested _ + 0 + _
              omega
            · rw [hframe]
              show _ + 0 + untested _ = untested _ + 0 + _
              omega
            · rw [hframe]
              rfl
  | test =>
      have huntested : untested (s.frames i) = evens.count .timer + 1 := by
        rw [hframe]
        rfl
      by_cases hsecond : s.ticks % Int32.ofNat hz = 0
      · have heq : s.softirqStep i ⟨.test, evens, redoIrq⟩ =
            s.setFrame i (some ⟨.date, evens, redoIrq⟩) := if_pos hsecond
        rw [heq]
        refine h.of_frame rfl ⟨rfl, rfl, rfl⟩ ?_ (fun q _ => ?_) ?_ ?_ h.date h.timers fun q => ?_
        · rw [hframe]
          rfl
        · rw [hframe]
          rfl
        · rw [if_pos (h.second.mp hsecond), if_pos (h.second.mp hsecond), huntested, hframe]
          show s.dates + 1 + (pending s + (evens.count .timer + 0)) = s.dates + 0 + _
          omega
        · rw [huntested]
          show pending s + (evens.count .timer + 0) ≤ _
          omega
        · refine (h.alarms q).of_frame rfl ?_ rfl rfl rfl
          rw [hframe]
          rfl
      · have heq : s.softirqStep i ⟨.test, evens, redoIrq⟩ =
            s.setFrame i (some ⟨.alarms s.tasks, evens, redoIrq⟩) := if_neg hsecond
        rw [heq]
        refine h.of_frame rfl ⟨rfl, rfl, rfl⟩ ?_ (fun q hq => ?_) ?_ ?_ h.date h.timers fun q => ?_
        · rw [hframe]
          rfl
        · rw [hframe]
          show s.alarmed q + pending s + (evens.count .timer + 0 + s.tasks.count q) =
            s.alarmed q + pending s + (evens.count .timer + 1 + 0)
          rw [List.count_eq_one_of_mem s.nodup hq]
        · rw [if_neg fun hz => hsecond (h.second.mpr hz), if_neg fun hz => hsecond (h.second.mpr hz),
            hframe]
          rfl
        · rw [huntested]
          show pending s + (evens.count .timer + 0) ≤ _
          omega
        · refine (h.alarms q).of_frame rfl ?_ rfl rfl rfl
          rw [hframe]
          rfl
  | date =>
      show ClockInv date ({ s with date := s.date.change, dates := s.dates + 1 }.setFrame i
        (some ⟨.alarms s.tasks, evens, redoIrq⟩))
      refine h.of_frame rfl ⟨rfl, rfl, rfl⟩ ?_ (fun q hq => ?_) ?_ ?_ ?_ h.timers fun q => ?_
      · rw [hframe]
        rfl
      · rw [hframe]
        show s.alarmed q + pending s + (evens.count .timer + 0 + s.tasks.count q) =
          s.alarmed q + pending s + (evens.count .timer + 0 + 1)
        rw [List.count_eq_one_of_mem s.nodup hq]
      · rw [hframe]
        show s.dates + 1 + 0 + _ = s.dates + 1 + _
        rfl
      · rw [hframe]
        exact le_refl _
      · show s.date.change = SystemDate.change^[s.dates + 1] date
        rw [Function.iterate_succ_apply', h.date]
      · refine (h.alarms q).of_frame rfl ?_ rfl rfl rfl
        rw [hframe]
        rfl
  | alarms rest =>
      cases rest with
      | nil =>
          show ClockInv date ({ s with softirqEvens := s.softirqEvens }.setFrame i
            (some ⟨.timers, evens, redoIrq⟩))
          refine h.set_frame ?_ ?_ ?_ (fun q _ => ?_) fun q => ?_
          · rw [hframe]
            rfl
          · rw [hframe]
            rfl
          · rw [hframe]
            rfl
          · rw [hframe]
            rfl
          · rw [hframe]
            rfl
      | cons p rest =>
          have hother : ∀ j, checking p (s.frames j) = 0 := hundisturbed
          by_cases hon : (s.alarm p).alarm = true
          · have heq : s.softirqStep i ⟨.alarms (p :: rest), evens, redoIrq⟩ =
                { s with alarm := Function.update s.alarm p (s.alarm p).countDown }.setFrame i
                  (some ⟨.check p rest, evens, redoIrq⟩) := if_pos hon
            rw [heq]
            refine h.of_frame rfl ⟨rfl, rfl, rfl⟩ ?_ (fun q _ => ?_) ?_ ?_ h.date h.timers
              fun q => ?_
            · rw [hframe]
              rfl
            · rw [hframe]
              rfl
            · rw [hframe]
              rfl
            · rw [hframe]
              exact le_refl _
            · by_cases hq : q = p
              · subst hq
                exact (h.alarms q).begin rfl (if_pos rfl) hon hother (Function.update_self ..) rfl rfl
              · refine (h.alarms q).of_frame rfl ?_ (Function.update_of_ne hq ..) rfl rfl
                rw [hframe]
                exact if_neg (Ne.symm hq)
          · have heq : s.softirqStep i ⟨.alarms (p :: rest), evens, redoIrq⟩ =
                (s.setAlarmed p).setFrame i (some ⟨.alarms rest, evens, redoIrq⟩) := if_neg hon
            rw [heq]
            refine h.of_frame rfl ⟨rfl, rfl, rfl⟩ ?_ (fun q _ => ?_) ?_ ?_ h.date h.timers
              fun q => ?_
            · rw [hframe]
              rfl
            · rw [hframe]
              exact count_alarmed s p q rest (evens.count .timer)
            · rw [hframe]
              rfl
            · rw [hframe]
              exact le_refl _
            · by_cases hq : q = p
              · subst hq
                exact (h.alarms q).skip rfl rfl (Bool.eq_false_iff.mpr hon) hother rfl
                  (Function.update_self ..) rfl
              · refine (h.alarms q).of_frame rfl ?_ rfl (Function.update_of_ne hq ..) rfl
                rw [hframe]
                rfl
  | check p rest =>
      show ClockInv date (({ s with
        alarm := Function.update s.alarm p (s.alarm p).check }.setAlarmed p).setFrame i
          (some ⟨.alarms rest, evens, redoIrq⟩))
      refine h.of_frame rfl ⟨rfl, rfl, rfl⟩ ?_ (fun q _ => ?_) ?_ ?_ h.date h.timers fun q => ?_
      · rw [hframe]
        rfl
      · rw [hframe]
        exact count_alarmed s p q rest (evens.count .timer)
      · rw [hframe]
        rfl
      · rw [hframe]
        exact le_refl _
      · by_cases hq : q = p
        · subst hq
          refine (h.alarms q).finish rfl rfl ?_ (Function.update_self ..) (Function.update_self ..)
            rfl
          rw [hframe]
          exact if_pos rfl
        · refine (h.alarms q).of_frame rfl ?_ (Function.update_of_ne hq ..)
            (Function.update_of_ne hq ..) rfl
          rw [hframe]
          exact (if_neg (Ne.symm hq)).symm
  | timers =>
      show ClockInv date ({ s with timers := s.timers.update, timerRuns := s.timerRuns + 1 }.setFrame i
        (some ⟨.handle, evens, redoIrq⟩))
      refine h.of_frame rfl ⟨rfl, rfl, rfl⟩ ?_ (fun q hq => ?_) ?_ ?_ h.date ?_ fun q => ?_
      · rw [hframe]
        show s.timerRuns + 1 + pending s + (evens.count .timer + 0 + 0) =
          s.timerRuns + pending s + (evens.count .timer + 0 + 1)
        omega
      · rw [hframe]
        rfl
      · rw [hframe]
        rfl
      · rw [hframe]
        exact le_refl _
      · obtain ⟨hsince, htimers⟩ := h.timers
        refine ⟨Nat.le_succ_of_le hsince, ?_⟩
        show s.timers.update = Timers.update^[s.timerRuns + 1 - s.timersSince.1] s.timersSince.2
        rw [Nat.succ_sub hsince, Function.iterate_succ_apply', ← htimers]
      · refine (h.alarms q).of_frame rfl ?_ rfl rfl rfl
        rw [hframe]
        rfl

instance (s : ClockSystem Tid F ι) : ∀ frame, Decidable (Undisturbed s frame)
  | none => inferInstanceAs (Decidable True)
  | some ⟨.test, _, _⟩ =>
      inferInstanceAs (Decidable (s.ticks % Int32.ofNat hz = 0 → ∀ j, dateDue (s.frames j) = 0))
  | some ⟨.alarms (q :: _), _, _⟩ =>
      inferInstanceAs (Decidable (∀ j, checking q (s.frames j) = 0))
  | some ⟨.handle, _, _⟩ | some ⟨.date, _, _⟩ | some ⟨.alarms [], _, _⟩
  | some ⟨.check _ _, _, _⟩ | some ⟨.timers, _, _⟩ => inferInstanceAs (Decidable True)

/-- The clock interrupts when the last tick has been taken, and at a full second and right after it
when the last tick has been tested. Nobody comes into the middle of a change of the date or of an
alarm. -/
def clockGuard (s : ClockSystem Tid F ι) : ClockOp Tid F ι → Prop
  | .clock => s.ticks ≠ Int32.maxValue ∧ s.softirqEvens .timer = false ∧
      (s.ticks % Int32.ofNat hz = 0 ∨ (s.ticks + 1) % Int32.ofNat hz = 0 →
        ∀ i, untested (s.frames i) = 0)
  | .advance i => Undisturbed s (s.frames i)
  | .sysAlarm q _ => ∀ i, checking q (s.frames i) = 0
  | .doSoftirq _ | .active _ | .setTimers _ => True

instance (s : ClockSystem Tid F ι) : ∀ op, Decidable (clockGuard s op)
  | .clock => inferInstanceAs (Decidable (_ ∧ _ ∧ (_ → _)))
  | .advance i => inferInstanceAs (Decidable (Undisturbed s (s.frames i)))
  | .sysAlarm q _ => inferInstanceAs (Decidable (∀ i, checking q (s.frames i) = 0))
  | .doSoftirq _ | .active _ | .setTimers _ => inferInstanceAs (Decidable True)

omit [DecidableEq ι] in
theorem clock_inv_init (date : SystemDate) (tasks : List Tid) (nodup : tasks.Nodup)
    (alarm : Tid → Alarm) (timers : Timers F) :
    ClockInv date (ClockSystem.init date tasks nodup alarm timers : ClockSystem Tid F ι) := by
  have hzero : (tally fun _ : ι => 0) = 0 := tally_zero
  refine ⟨⟨Nat.two_pow_pos 31, rfl⟩, ?_, fun q _ => ?_, ?_, fun _ => ?_, rfl, ⟨le_refl 0, rfl⟩,
    fun q => ⟨le_refl 0, ?_, fun hone => ?_, fun _ => rfl⟩⟩
  · show 0 + 0 + (tally fun _ : ι => 0) = 0
    rw [hzero]
  · show 0 + 0 + (tally fun _ : ι => 0) = 0
    rw [hzero]
  · show 0 + (tally fun _ : ι => 0) +
      (if 0 % hz = 0 then 0 + tally fun _ : ι => 0 else 0) = 0 / hz
    rw [hzero]
    rfl
  · show 0 + (tally fun _ : ι => 0) ≤ 1
    rw [hzero]
    exact Nat.zero_le 1
  · show (tally fun _ : ι => 0) ≤ 1
    rw [hzero]
    exact Nat.zero_le 1
  · replace hone : (tally fun _ : ι => 0) = 1 := hone
    rw [hzero] at hone
    cases hone

omit [DecidableEq ι] in
/-- A tick. -/
theorem ClockInv.clock (h : ClockInv date s) (hmax : s.ticks ≠ Int32.maxValue)
    (htaken : s.softirqEvens .timer = false)
    (htested : s.ticks % Int32.ofNat hz = 0 ∨ (s.ticks + 1) % Int32.ofNat hz = 0 →
      ∀ i, untested (s.frames i) = 0) : ClockInv date s.clockHandler := by
  have hold : pending s = 0 := by
    rw [pending, htaken]
    rfl
  have hnew : pending s.clockHandler = 1 := rfl
  obtain ⟨hbound, hticks⟩ := h.ticks
  have hnext : s.elapsed + 1 < 2 ^ 31 := by
    rcases Nat.lt_or_ge (s.elapsed + 1) (2 ^ 31) with hlt | hge
    · exact hlt
    · have heq : s.elapsed = 2 ^ 31 - 1 := by omega
      rw [hticks, heq] at hmax
      exact (hmax (by decide)).elim
  have hsucc : s.ticks + 1 = Int32.ofNat (s.elapsed + 1) := by
    rw [hticks, Int32.ofNat_add]
    rfl
  have hidle : s.elapsed % hz = 0 ∨ (s.elapsed + 1) % hz = 0 →
      (tally fun i => untested (s.frames i)) = 0 := by
    intro hsecond
    refine tally_eq_zero.mpr (htested ?_)
    rw [hsucc, second_iff hnext, h.second]
    exact hsecond
  refine ⟨⟨hnext, hsucc⟩, ?_, fun q hq => ?_, ?_, fun hsecond => ?_, h.date, h.timers, fun q =>
    (h.alarms q).congr rfl rfl rfl rfl⟩
  · have hruns := h.timerRuns
    rw [hold] at hruns
    rw [hnew]
    show s.timerRuns + 1 + (tally fun i => timersDue (s.frames i)) = s.elapsed + 1
    omega
  · have halarmed := h.alarmed q hq
    rw [hold] at halarmed
    rw [hnew]
    show s.alarmed q + 1 + (tally fun i => alarmDue q (s.frames i)) = s.elapsed + 1
    omega
  · have hdates := h.dates
    show s.dates + (tally fun i => dateDue (s.frames i)) +
      (if (s.elapsed + 1) % 500 = 0 then 1 + tally fun i => untested (s.frames i) else 0) =
        (s.elapsed + 1) / 500
    rw [raised, hold] at hdates
    simp only [hz] at hdates hidle
    split at hdates
    · next hsecond =>
        rw [hidle (Or.inl hsecond)] at hdates
        rw [if_neg (by omega)]
        omega
    · next hsecond =>
        by_cases hfull : (s.elapsed + 1) % 500 = 0
        · rw [if_pos hfull, hidle (Or.inr hfull)]
          omega
        · rw [if_neg hfull]
          omega
  · show 1 + (tally fun i => untested (s.frames i)) ≤ 1
    rw [hidle (Or.inr hsecond)]

/-- Every step preserves it. -/
theorem clock_inv_step (op : ClockOp Tid F ι) (h : ClockInv date s) (hguard : clockGuard s op)
    (hstep : clockStep s op = some t) : ClockInv date t := by
  cases op with
  | clock =>
      cases hstep
      exact h.clock hguard.1 hguard.2.1 hguard.2.2
  | doSoftirq i =>
      cases hframe : s.frames i with
      | none =>
          simp only [clockStep, hframe, Option.some.injEq] at hstep
          subst hstep
          exact h.take_evens (Or.inl hframe)
      | some frame => simp [clockStep, hframe] at hstep
  | advance i =>
      obtain ⟨frame, hframe, rfl⟩ := Option.map_eq_some_iff.mp hstep
      replace hguard : Undisturbed s (s.frames i) := hguard
      rw [hframe] at hguard
      exact h.softirq_step hframe hguard
  | active e =>
      by_cases he : e = .timer
      · simp [clockStep, he] at hstep
      · simp only [clockStep, if_neg he, Option.some.injEq] at hstep
        subst hstep
        have hsame : pending (s.activeSoftirq e) = pending s := by
          show (Function.update s.softirqEvens e true .timer).toNat = _
          rw [Function.update_of_ne (Ne.symm he)]
          rfl
        have hraised : raised (s.activeSoftirq e) = raised s := by
          rw [raised, hsame]
          rfl
        refine ⟨h.ticks, ?_, ?_, ?_, ?_, h.date, h.timers, fun q =>
          (h.alarms q).congr rfl rfl rfl rfl⟩
        · rw [hsame]
          exact h.timerRuns
        · rw [hsame]
          exact h.alarmed
        · rw [hraised]
          exact h.dates
        · rw [hraised]
          exact h.few
  | sysAlarm p seconds =>
      cases hstep
      have hother : (tally fun i => checking p (s.frames i)) = 0 := tally_eq_zero.mpr hguard
      refine ⟨h.ticks, h.timerRuns, h.alarmed, h.dates, h.few, h.date, h.timers, fun q => ?_⟩
      by_cases hq : q = p
      · subst hq
        have hsince : (s.sysAlarm q seconds).alarmSince q =
            (s.alarmed q, (s.alarm q).sysAlarm seconds) := Function.update_self ..
        refine ⟨?_, (h.alarms q).one, fun hone => ?_, fun _ => ?_⟩
        · rw [hsince]
          exact le_refl _
        · exact absurd (hother.symm.trans hone) (by decide)
        · rw [hsince]
          show Function.update s.alarm q ((s.alarm q).sysAlarm seconds) q =
            Alarm.update^[s.alarmed q - s.alarmed q] ((s.alarm q).sysAlarm seconds)
          rw [Function.update_self, Nat.sub_self]
          rfl
      · exact (h.alarms q).congr rfl (Function.update_of_ne hq ..) rfl (Function.update_of_ne hq ..)
  | setTimers timerList =>
      cases hstep
      refine ⟨h.ticks, h.timerRuns, h.alarmed, h.dates, h.few, h.date, ⟨le_refl _, ?_⟩, fun q =>
        (h.alarms q).congr rfl rfl rfl rfl⟩
      show _ = Timers.update^[s.timerRuns - s.timerRuns] _
      rw [Nat.sub_self]
      rfl

end XBook.Clock
