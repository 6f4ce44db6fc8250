import XBook.Kernel.SystemClock

/-!
# When an alarm goes off

`kernel/alarm.c` with every tick of the clock as one call of `UpdateAlarmSystem`, and `SysAlarm` as
one step, since a system call runs with interrupts off. What should happen is said in terms of the
history alone. `AlarmInv` ties the fields of a task to its last call; `alarms_right_iff` says that
the signals are always right, and that a result is wrong exactly behind a cancelled alarm.
-/

namespace XBook.Clock

variable {Tid : Type*} [DecidableEq Tid]

/-- A tick, or a call of `SysAlarm` by a task. -/
inductive AlarmEvent (Tid : Type*) where
  | tick
  | sysAlarm (task : Tid) (seconds : UInt32)

/-- `UpdateAlarmSystem` over `taskGlobalList`. -/
def updateAlarmSystem (tasks : List Tid) (alarm : Tid → Alarm) : Tid → Alarm :=
  tasks.foldl (fun alarm q => Function.update alarm q (alarm q).update) alarm

/-- One event, with the result of the call. -/
def alarmStep (tasks : List Tid) (alarm : Tid → Alarm) : AlarmEvent Tid → (Tid → Alarm) × UInt32
  | .tick => (updateAlarmSystem tasks alarm, 0)
  | .sysAlarm q seconds =>
      (Function.update alarm q ((alarm q).sysAlarm seconds), (alarm q).alarmSeconds)

/-- The alarm of a new task. -/
def noAlarm : Alarm := ⟨false, 0, 0, 0⟩

/-! ## What should happen -/

/-- The seconds of the last call of a task, and the ticks since. The last event comes first. -/
def lastCall (q : Tid) : List (AlarmEvent Tid) → Option (UInt32 × Nat)
  | [] => none
  | .tick :: past => (lastCall q past).map fun (seconds, ticks) => (seconds, ticks + 1)
  | .sysAlarm p seconds :: past => if p = q then some (seconds, 0) else lastCall q past

/-- The ticks that are left until the alarm of a task goes off, or 0. -/
def ticksLeft (q : Tid) (past : List (AlarmEvent Tid)) : Nat :=
  match lastCall q past with
  | none => 0
  | some (seconds, ticks) => seconds.toNat * hz - ticks

/-- A pending alarm of the task has been cancelled, and no other has been set since. -/
def Cancelled (q : Tid) : List (AlarmEvent Tid) → Prop
  | [] => False
  | .tick :: past => Cancelled q past
  | .sysAlarm p seconds :: past =>
      if p = q then seconds = 0 ∧ (Cancelled q past ∨ 0 < ticksLeft q past) else Cancelled q past

/-- The seconds that are left, where a part of one counts as a whole one. -/
def secondsLeft (q : Tid) (past : List (AlarmEvent Tid)) : Nat := (ticksLeft q past + (hz - 1)) / hz

/-- What an event does is right: a tick sends `SIGALRM` to the tasks whose last tick it is, and a
call sends none and returns the seconds that were left. -/
def EventRight (tasks : List Tid) (past : List (AlarmEvent Tid)) (alarm : Tid → Alarm)
    (event : AlarmEvent Tid) : Prop :=
  let after := alarmStep tasks alarm event
  match event with
  | .tick => ∀ q ∈ tasks, (after.1 q).sent = (alarm q).sent + if ticksLeft q past = 1 then 1 else 0
  | .sysAlarm q _ => (∀ p, (after.1 p).sent = (alarm p).sent) ∧ after.2.toNat = secondsLeft q past

/-- Every event of a run is right. -/
def AlarmsRight (tasks : List Tid) : List (AlarmEvent Tid) → (Tid → Alarm) → List (AlarmEvent Tid) →
    Prop
  | _, _, [] => True
  | past, alarm, event :: events =>
      EventRight tasks past alarm event ∧
        AlarmsRight tasks (event :: past) (alarmStep tasks alarm event).1 events

/-- No task calls `SysAlarm` behind a cancelled alarm. -/
def NoneCancelled : List (AlarmEvent Tid) → List (AlarmEvent Tid) → Prop
  | _, [] => True
  | past, event :: events =>
      (∀ q seconds, event = .sysAlarm q seconds → ¬Cancelled q past) ∧
        NoneCancelled (event :: past) events

/-! ## The alarm of a task -/

/-- The fields hold the ticks that are left. Without any, seconds are left over from an alarm that
was cancelled. -/
structure AlarmInv (left : Nat) (cancelled : Prop) (a : Alarm) : Prop where
  pending : 0 < left → a.alarm = true ∧ ¬cancelled ∧ 0 < a.alarmSeconds.toNat ∧
    0 < a.alarmTicks.toNat ∧ a.alarmTicks.toNat ≤ hz ∧
      (a.alarmSeconds.toNat - 1) * hz + a.alarmTicks.toNat = left
  idle : left = 0 → a.alarm = false ∧ (a.alarmSeconds ≠ 0 ↔ cancelled)

variable {a : Alarm} {left : Nat} {cancelled : Prop}

theorem hz_to_nat : (UInt32.ofNat hz).toNat = hz := by decide

theorem to_nat_eq_zero (x : UInt32) : x.toNat = 0 ↔ x = 0 :=
  ⟨fun h => UInt32.toNat_inj.mp h, fun h => by rw [h]; rfl⟩

/-- A counter that is not zero is counted down. -/
theorem pred_to_nat {x : UInt32} (h : 0 < x.toNat) : (x - 1).toNat = x.toNat - 1 :=
  UInt32.toNat_sub_of_le _ _ (UInt32.le_iff_toNat_le.mpr h)

/-- A tick takes one of the ticks that are left, and the last one sends the signal. -/
theorem AlarmInv.update (h : AlarmInv left cancelled a) :
    AlarmInv (left - 1) cancelled a.update ∧
      a.update.sent = a.sent + if left = 1 then 1 else 0 := by
  by_cases hzero : left = 0
  · have hoff := (h.idle hzero).1
    rw [Alarm.update, hoff, hzero]
    rw [hzero] at h
    exact ⟨h, rfl⟩
  obtain ⟨hon, hset, hseconds, hticks, hmax, hleft⟩ := h.pending (Nat.pos_of_ne_zero hzero)
  have htick := pred_to_nat hticks
  have hsecond := pred_to_nat hseconds
  rw [Alarm.update, if_pos hon, Alarm.check, Alarm.countDown]
  dsimp only
  by_cases hlast : a.alarmTicks - 1 = 0
  · have hone : a.alarmTicks.toNat = 1 := by
      rw [← to_nat_eq_zero] at hlast
      omega
    rw [if_pos hlast]
    by_cases hend : a.alarmSeconds - 1 = 0
    · -- the time is over
      rw [if_pos hend]
      have hfirst : a.alarmSeconds.toNat = 1 := by
        rw [← to_nat_eq_zero] at hend
        omega
      have hdue : left = 1 := by
        rw [hfirst, hone] at hleft
        omega
      rw [hdue]
      refine ⟨⟨fun hpos => absurd hpos (Nat.lt_irrefl 0), fun _ => ⟨rfl, ?_⟩⟩, rfl⟩
      exact iff_of_false (fun hne => hne hend) hset
    · -- the next second begins
      rw [if_neg hend]
      have hmore : 0 < (a.alarmSeconds - 1).toNat := by
        rw [← to_nat_eq_zero] at hend
        omega
      obtain ⟨more, hsum⟩ : ∃ more, a.alarmSeconds.toNat = more + 2 := ⟨_, (by omega : _ =
        a.alarmSeconds.toNat - 2 + 2)⟩
      have hpast : (more + 1) * hz + 1 = left := by
        rw [hsum, hone] at hleft
        exact hleft
      refine ⟨⟨fun _ => ⟨hon, hset, hmore, ?_, ?_, ?_⟩, fun h0 => ?_⟩, ?_⟩
      · rw [hz_to_nat]
        decide
      · rw [hz_to_nat]
      · rw [hz_to_nat, hsecond, hsum]
        show (more + 2 - 1 - 1) * hz + hz = left - 1
        rw [← hpast, Nat.succ_mul]
        rfl
      · rw [← hpast, Nat.succ_mul] at h0
        omega
      · rw [if_neg (by rw [← hpast, Nat.succ_mul]; omega)]
        rfl
  · rw [if_neg hlast]
    have hmore : 0 < (a.alarmTicks - 1).toNat := by
      rw [← to_nat_eq_zero] at hlast
      omega
    have hnext : (a.alarmSeconds.toNat - 1) * hz + (a.alarmTicks - 1).toNat = left - 1 := by omega
    have hbound : (a.alarmTicks - 1).toNat ≤ hz := by omega
    refine ⟨⟨fun _ => ⟨hon, hset, hseconds, hmore, hbound, hnext⟩, fun h0 => ?_⟩, ?_⟩
    · omega
    · rw [if_neg (by omega)]
      rfl

/-- A call sets the alarm or cancels it. -/
theorem AlarmInv.sys_alarm (h : AlarmInv left cancelled a) (seconds : UInt32) :
    AlarmInv (seconds.toNat * hz) (seconds = 0 ∧ (cancelled ∨ 0 < left)) (a.sysAlarm seconds) ∧
      (a.sysAlarm seconds).sent = a.sent := by
  rw [Alarm.sysAlarm]
  by_cases hzero : seconds = 0
  · rw [if_pos hzero, hzero]
    refine ⟨⟨fun hpos => absurd hpos (by decide), fun _ => ⟨rfl, ?_⟩⟩, rfl⟩
    rw [eq_self_iff_true, true_and]
    by_cases hleft : left = 0
    · rw [(h.idle hleft).2, hleft]
      simp
    · obtain ⟨-, -, hseconds, -⟩ := h.pending (Nat.pos_of_ne_zero hleft)
      refine iff_of_true (fun hnone => ?_) (.inr (Nat.pos_of_ne_zero hleft))
      have hstored := (to_nat_eq_zero a.alarmSeconds).mpr hnone
      omega
  · rw [if_neg hzero]
    have hpos : 0 < seconds.toNat := Nat.pos_of_ne_zero fun h0 => hzero ((to_nat_eq_zero _).mp h0)
    refine ⟨⟨fun _ => ⟨rfl, fun hc => hzero hc.1, hpos, ?_, ?_, ?_⟩, fun h0 => ?_⟩, rfl⟩
    · rw [hz_to_nat]
      decide
    · rw [hz_to_nat]
    · rw [hz_to_nat, ← Nat.succ_mul]
      congr 1
      show seconds.toNat - 1 + 1 = seconds.toNat
      omega
    · exact absurd h0 (Nat.mul_pos hpos (by decide)).ne'

/-- The stored seconds are those that are left, except behind a cancelled alarm. -/
theorem AlarmInv.seconds_iff (h : AlarmInv left cancelled a) :
    a.alarmSeconds.toNat = (left + (hz - 1)) / hz ↔ ¬cancelled := by
  by_cases hzero : left = 0
  · have hstale := (h.idle hzero).2
    rw [hzero, show (0 + (hz - 1)) / hz = 0 by decide, to_nat_eq_zero, ← hstale, not_not]
  · obtain ⟨-, hset, hseconds, hticks, hmax, hleft⟩ := h.pending (Nat.pos_of_ne_zero hzero)
    refine iff_of_true ?_ hset
    symm
    rw [← hleft, Nat.div_eq_iff (by decide)]
    obtain ⟨more, hsum⟩ : ∃ more, a.alarmSeconds.toNat = more + 1 := ⟨_, (by omega : _ =
      a.alarmSeconds.toNat - 1 + 1)⟩
    rw [hsum, Nat.add_sub_cancel, Nat.succ_mul]
    omega

/-! ## Runs -/

/-- Each task of the list is updated once. -/
theorem update_alarm_system_eq {tasks : List Tid} (hnodup : tasks.Nodup) (alarm : Tid → Alarm)
    (q : Tid) : updateAlarmSystem tasks alarm q =
      if q ∈ tasks then (alarm q).update else alarm q := by
  induction tasks generalizing alarm with
  | nil => rfl
  | cons p tasks ih =>
      obtain ⟨hnot, hrest⟩ := List.nodup_cons.mp hnodup
      rw [updateAlarmSystem, List.foldl_cons]
      refine (ih hrest _).trans ?_
      by_cases hq : q = p
      · rw [hq, if_neg hnot, Function.update_self, if_pos List.mem_cons_self]
      · rw [Function.update_of_ne hq]
        simp only [List.mem_cons, hq, false_or]

/-- The fields of every task hold what its history says. -/
def AlarmsInv (tasks : List Tid) (past : List (AlarmEvent Tid)) (alarm : Tid → Alarm) : Prop :=
  ∀ q ∈ tasks, AlarmInv (ticksLeft q past) (Cancelled q past) (alarm q)

/-- A tick is one of the ticks that are left. -/
theorem ticks_left_tick (q : Tid) (past : List (AlarmEvent Tid)) :
    ticksLeft q (.tick :: past) = ticksLeft q past - 1 := by
  rw [ticksLeft, ticksLeft, lastCall]
  cases lastCall q past with
  | none => rfl
  | some last => exact Nat.sub_add_eq _ _ _

/-- After a call there is the time that it asks for. -/
theorem ticks_left_call (q p : Tid) (seconds : UInt32) (past : List (AlarmEvent Tid)) :
    ticksLeft q (.sysAlarm p seconds :: past) =
      if p = q then seconds.toNat * hz else ticksLeft q past := by
  rw [ticksLeft, ticksLeft, lastCall]
  by_cases hpq : p = q
  · rw [if_pos hpq, if_pos hpq]
    exact Nat.sub_zero _
  · rw [if_neg hpq, if_neg hpq]

variable {tasks : List Tid} {past : List (AlarmEvent Tid)} {alarm : Tid → Alarm}

/-- One event keeps the invariant, and is right unless it is a call behind a cancelled alarm. -/
theorem AlarmsInv.step (hnodup : tasks.Nodup) (h : AlarmsInv tasks past alarm)
    (event : AlarmEvent Tid) (hcaller : ∀ q seconds, event = .sysAlarm q seconds → q ∈ tasks) :
    AlarmsInv tasks (event :: past) (alarmStep tasks alarm event).1 ∧
      (EventRight tasks past alarm event ↔
        ∀ q seconds, event = .sysAlarm q seconds → ¬Cancelled q past) := by
  cases event with
  | tick =>
      refine ⟨fun q hq => ?_, iff_of_true (fun q hq => ?_) fun q seconds heq => by cases heq⟩
      · show AlarmInv _ (Cancelled q past) (updateAlarmSystem tasks alarm q)
        rw [ticks_left_tick, update_alarm_system_eq hnodup, if_pos hq]
        exact (h q hq).update.1
      · show (updateAlarmSystem tasks alarm q).sent = _
        rw [update_alarm_system_eq hnodup, if_pos hq]
        exact (h q hq).update.2
  | sysAlarm p seconds =>
      have hp := h p (hcaller p seconds rfl)
      obtain ⟨hcall, hsent⟩ := hp.sys_alarm seconds
      refine ⟨fun q hq => ?_, ?_⟩
      · show AlarmInv _ _ (Function.update alarm p _ q)
        rw [ticks_left_call, Cancelled]
        by_cases hpq : p = q
        · rw [if_pos hpq, if_pos hpq, ← hpq, Function.update_self]
          exact hcall
        · rw [if_neg hpq, if_neg hpq, Function.update_of_ne (Ne.symm hpq)]
          exact h q hq
      · have hnone : ∀ q, ((alarmStep tasks alarm (.sysAlarm p seconds)).1 q).sent =
            (alarm q).sent := by
          intro q
          show (Function.update alarm p _ q).sent = _
          by_cases hpq : q = p
          · rw [hpq, Function.update_self]
            exact hsent
          · rw [Function.update_of_ne hpq]
        have hseconds := hp.seconds_iff
        constructor
        · rintro ⟨-, hresult⟩ q seconds' heq
          cases heq
          exact hseconds.mp hresult
        · exact fun hclear => ⟨hnone, hseconds.mpr (hclear p seconds rfl)⟩

/-- The run lemma. -/
theorem AlarmsInv.run (hnodup : tasks.Nodup) (h : AlarmsInv tasks past alarm)
    (events : List (AlarmEvent Tid))
    (hcallers : ∀ q seconds, .sysAlarm q seconds ∈ events → q ∈ tasks) :
    AlarmsRight tasks past alarm events ↔ NoneCancelled past events := by
  induction events generalizing past alarm with
  | nil => exact Iff.rfl
  | cons event events ih =>
      obtain ⟨hnext, hright⟩ := h.step hnodup event fun q seconds heq =>
        hcallers q seconds (heq ▸ List.mem_cons_self)
      rw [AlarmsRight, NoneCancelled, hright, ih hnext fun q seconds hmem =>
        hcallers q seconds (List.mem_cons_of_mem _ hmem)]

/-- In every sequence of ticks and of calls by any tasks, `SIGALRM` is sent with the last tick of an
alarm and never else, and each call returns the seconds that were left, if and only if no task calls
`SysAlarm` after it has cancelled a pending alarm and before it sets another. -/
theorem alarms_right_iff (hnodup : tasks.Nodup) (events : List (AlarmEvent Tid))
    (hcallers : ∀ q seconds, .sysAlarm q seconds ∈ events → q ∈ tasks) :
    AlarmsRight tasks [] (fun _ => noAlarm) events ↔ NoneCancelled [] events := by
  refine AlarmsInv.run hnodup (fun q _ => ?_) events hcallers
  refine ⟨fun hpos => absurd hpos (Nat.lt_irrefl 0), fun _ => ⟨rfl, ?_⟩⟩
  exact iff_of_false (fun hne => hne rfl) id

/-- A task sets its alarm again after a tick and cancels it. -/
theorem alarm_replaced : AlarmsRight [()] [] (fun _ => noAlarm)
    [.sysAlarm () 2, .tick, .sysAlarm () 1, .sysAlarm () 0] := by
  have hcallers : ∀ (q : Unit) (seconds : UInt32), .sysAlarm q seconds ∈
      [AlarmEvent.sysAlarm () 2, .tick, .sysAlarm () 1, .sysAlarm () 0] → q ∈ [()] :=
    fun q _ _ => List.mem_singleton_self q
  refine (alarms_right_iff (List.nodup_singleton ()) _ hcallers).mpr ?_
  refine ⟨fun q _ _ => id, fun q _ heq => (by cases heq), fun q _ _ => ?_, fun q _ _ => ?_, trivial⟩
  · simp [Cancelled]
  · simp [Cancelled]

/-- Behind a cancelled alarm a call returns its seconds. -/
theorem cancelled_seconds_returned : ¬∀ (events : List (AlarmEvent Unit)),
    AlarmsRight [()] [] (fun _ => noAlarm) events := by
  intro h
  have hresult := (h [.sysAlarm () 2, .sysAlarm () 0, .sysAlarm () 1]).2.2.1.2
  exact absurd hresult (by decide)

end XBook.Clock
