import XBook.Kernel.SystemClockInvariant

/-!
# The ticks of a run

When nothing is left to be done, the date has been changed once for each `HZ` ticks, and the timers
and all alarms have been updated once for each tick. This is `TicksApplied`, together with what is
still owed before that; it holds in every run that meets `clockGuard`.
-/

namespace XBook.Clock

open Tally Transition

variable {Tid F ι : Type*} [DecidableEq Tid] [Fintype ι] {s : ClockSystem Tid F ι}
  {date : SystemDate}

/-- Each tick has been applied once, or is owed by the softirq that is active or by a frame. The
date, the timers and the alarms are what they were before with each update that is counted. -/
structure TicksApplied (date : SystemDate) (s : ClockSystem Tid F ι) : Prop where
  timerRuns : s.timerRuns + pending s + (tally fun i => timersDue (s.frames i)) = s.elapsed
  alarmed : ∀ q ∈ s.tasks,
    s.alarmed q + pending s + (tally fun i => alarmDue q (s.frames i)) = s.elapsed
  dates : s.dates + (tally fun i => dateDue (s.frames i)) +
    (if s.elapsed % hz = 0 then raised s else 0) = s.elapsed / hz
  quiet : s.softirqEvens .timer = false → (∀ i, s.frames i = none) →
    s.timerRuns = s.elapsed ∧ (∀ q ∈ s.tasks, s.alarmed q = s.elapsed) ∧
      s.dates = s.elapsed / hz
  date : s.date = SystemDate.change^[s.dates] date
  timers : TimersApplied s
  alarms : ∀ q, AlarmApplied s q

omit [DecidableEq Tid] in
/-- Nothing is owed when no softirq is active and no call is under way. -/
theorem tally_idle (hidle : ∀ i, s.frames i = none) {f : Option (Frame Tid) → Nat}
    (hnone : f none = 0) : (tally fun i => f (s.frames i)) = 0 := by
  refine tally_eq_zero.mpr fun i => ?_
  rw [hidle i]
  exact hnone

theorem ClockInv.applied (h : ClockInv date s) : TicksApplied date s := by
  refine ⟨h.timerRuns, h.alarmed, h.dates, fun hactive hidle => ?_, h.date, h.timers, h.alarms⟩
  have hpending : pending s = 0 := by
    rw [pending, hactive]
    rfl
  refine ⟨?_, fun q hq => ?_, ?_⟩
  · have hruns := h.timerRuns
    rwa [hpending, tally_idle hidle rfl] at hruns
  · have halarmed := h.alarmed q hq
    rwa [hpending, tally_idle hidle rfl] at halarmed
  · have hdates := h.dates
    rwa [raised, hpending, tally_idle hidle rfl, tally_idle hidle rfl, Nat.zero_add, ite_self]
      at hdates

variable [DecidableEq ι]

/-- One task has an alarm and a timer, both of them with two ticks to go. -/
def twoTicksLeft : ClockSystem (Fin 2) Unit (Fin 2) :=
  .init ⟨59, 59, 23, 30, 12, 2019⟩ [0, 1] (by decide)
    (fun q => if q = 0 then ⟨true, 1, 2, 0⟩ else ⟨false, 0, 0, 0⟩) ⟨[⟨2, 7, (), .running⟩], []⟩

end XBook.Clock
