import XBook.Kernel.SignalInvariant
import XBook.Kernel.SleepTimer
import XBook.Lib.Transition

/-!
# The timers of sleeping tasks

Who wakes a sleeping task takes its timer out of the list: the clock when it expires, and
`DeliverSignal`. The last lines of `DoSendSignal` do not, and `Spared` keeps them away from a task
that sleeps. `SleepInv` then says that the timers in the list are those of the blocked tasks, and
`SleepInv.woken` is what a wake-up does to it.
-/

namespace XBook.Sleep

open Signals
open Transition

variable {Tid : Type*} {s t : SleepTasks Tid} {p q : Tid}

/-- No task outside of `TaskSleep` has a timer, and `sleepTimer` is that of a timer in the list. -/
structure NoStaleTimer (s : SleepTasks Tid) : Prop where
  outside : ∀ p, s.inside p = none → ∀ x ∈ s.timerList, x.task ≠ p
  listed : ∀ p n, s.sleepTimer p = some n → ∃ x ∈ s.timerList, x.task = p ∧ x.call = n

/-- No task outside of `TaskSleep` has a timer, and `sleepTimer` is set within `TaskSleep` only. It
is that of a timer in the list until the task has been woken. -/
structure TimersOfSleepers (s : SleepTasks Tid) : Prop where
  outside : ∀ p, s.inside p = none → ∀ x ∈ s.timerList, x.task ≠ p
  within : ∀ p n, s.sleepTimer p = some n → s.inside p = some n
  listed : ∀ p n, s.sleepTimer p = some n → (s.base.task p).status = .blocked →
    ∃ x ∈ s.timerList, x.task = p ∧ x.call = n

/-- The timers in the list are those of the tasks that are blocked. -/
structure SleepInv (s : SleepTasks Tid) : Prop where
  timers : ∀ x ∈ s.timerList, s.inside x.task = some x.call ∧
    s.sleepTimer x.task = some x.call ∧ (s.base.task x.task).status = .blocked
  blocked : ∀ p, (s.base.task p).status = .blocked → ∃ x ∈ s.timerList, x.task = p
  within : ∀ p n, s.sleepTimer p = some n → s.inside p = some n
  distinct : (s.timerList.map (·.call)).Nodup
  unique : ∀ p q n, s.inside p = some n → s.inside q = some n → p = q
  fresh : ∀ p n, s.inside p = some n → n < s.nextCall
  current : ∀ p, s.base.current = some p → (s.base.task p).status ≠ .blocked

theorem SleepInv.safe (h : SleepInv s) : TimersOfSleepers s := by
  refine ⟨fun p hout x hx heq => ?_, h.within, fun p n htimer hblocked => ?_⟩
  · have hin := (h.timers x hx).1
    rw [heq, hout] at hin
    cases hin
  · obtain ⟨x, hx, rfl⟩ := h.blocked p hblocked
    refine ⟨x, hx, rfl, ?_⟩
    exact Option.some.inj ((h.timers x hx).2.1.symm.trans htimer)

/-- The timer of a task that is blocked is its `sleepTimer`. -/
theorem SleepInv.own_timer (h : SleepInv s) (hblocked : (s.base.task p).status = .blocked) :
    ∃ x ∈ s.timerList, x.task = p ∧ s.sleepTimer p = some x.call ∧ s.inside p = some x.call := by
  obtain ⟨x, hx, rfl⟩ := h.blocked p hblocked
  exact ⟨x, hx, rfl, (h.timers x hx).2.1, (h.timers x hx).1⟩

/-- Nothing has happened to the timers, and nobody has been blocked or woken. -/
theorem SleepInv.congr (h : SleepInv s) (htimers : t.timerList = s.timerList)
    (hinside : t.inside = s.inside) (hsleep : t.sleepTimer = s.sleepTimer)
    (hnext : t.nextCall = s.nextCall)
    (hstatus : ∀ p, (t.base.task p).status = .blocked ↔ (s.base.task p).status = .blocked)
    (hcurrent : ∀ p, t.base.current = some p → (s.base.task p).status ≠ .blocked) :
    SleepInv t where
  timers := by
    rw [htimers, hinside, hsleep]
    intro x hx
    obtain ⟨hin, htimer, hblocked⟩ := h.timers x hx
    exact ⟨hin, htimer, (hstatus _).mpr hblocked⟩
  blocked p hp := by
    rw [htimers]
    exact h.blocked p ((hstatus p).mp hp)
  within := by
    rw [hinside, hsleep]
    exact h.within
  distinct := by
    rw [htimers]
    exact h.distinct
  unique := by
    rw [hinside]
    exact h.unique
  fresh := by
    rw [hinside, hnext]
    exact h.fresh
  current p hp hblocked := hcurrent p hp ((hstatus p).mp hblocked)

/-- A task has been woken, and its timer is out of the list. -/
theorem SleepInv.woken (h : SleepInv s) {call : Nat} (hin : s.inside q = some call)
    (htimers : t.timerList = s.timerList.filter (·.call ≠ call)) (hinside : t.inside = s.inside)
    (hsleep : ∀ p n, t.sleepTimer p = some n → s.sleepTimer p = some n)
    (hother : ∀ p, p ≠ q → t.sleepTimer p = s.sleepTimer p) (hnext : t.nextCall = s.nextCall)
    (hstatus : ∀ p, (t.base.task p).status = .blocked ↔
      (s.base.task p).status = .blocked ∧ p ≠ q)
    (hcurrent : t.base.current = s.base.current) : SleepInv t where
  timers := by
    rw [htimers, hinside]
    intro x hx
    obtain ⟨hx, hcall⟩ := List.mem_filter.mp hx
    obtain ⟨hin', htimer, hblocked⟩ := h.timers x hx
    have hne : x.task ≠ q := by
      intro heq
      rw [heq, hin] at hin'
      exact of_decide_eq_true hcall (Option.some.inj hin').symm
    rw [hother _ hne]
    exact ⟨hin', htimer, (hstatus _).mpr ⟨hblocked, hne⟩⟩
  blocked p hp := by
    obtain ⟨hblocked, hne⟩ := (hstatus p).mp hp
    obtain ⟨x, hx, rfl⟩ := h.blocked p hblocked
    refine ⟨x, ?_, rfl⟩
    rw [htimers]
    refine List.mem_filter.mpr ⟨hx, decide_eq_true fun hcall => ?_⟩
    exact hne (h.unique _ _ call (by rw [(h.timers x hx).1, hcall]) hin)
  within p n hp := by
    rw [hinside]
    exact h.within p n (hsleep p n hp)
  distinct := by
    rw [htimers]
    exact h.distinct.sublist (List.filter_sublist.map _)
  unique := by
    rw [hinside]
    exact h.unique
  fresh := by
    rw [hinside, hnext]
    exact h.fresh
  current p hp hblocked := by
    rw [hcurrent] at hp
    exact h.current p hp ((hstatus p).mp hblocked).1

/-- A timer in the list is removed. -/
theorem cancel_timer_eq (s : SleepTasks Tid) {call : Nat} (h : ∃ x ∈ s.timerList, x.call = call) :
    s.cancelTimer call = { s with timerList := s.timerList.filter (·.call ≠ call) } := by
  obtain ⟨x, hx, hcall⟩ := h
  rw [SleepTasks.cancelTimer, if_pos (List.any_eq_true.mpr ⟨x, hx, decide_eq_true hcall⟩)]

theorem sleep_inv_init (handler : Tid → Nat → Handler) : SleepInv (SleepTasks.init handler) where
  timers := by rintro x ⟨⟩
  blocked := by rintro p ⟨⟩
  within := by rintro p n ⟨⟩
  distinct := List.nodup_nil
  unique := by rintro p q n ⟨⟩
  fresh := by rintro p n ⟨⟩
  current := by rintro p ⟨⟩

variable [DecidableEq Tid]

/-! ## Statuses -/

section

variable {Obj : Type*} {b b' : SignalTasks Obj Tid}

/-- `TaskWakeUp` leaves every task blocked but its own. -/
theorem task_wake_up_blocked (b : SignalTasks Obj Tid) (q p : Tid) :
    ((b.taskWakeUp q).task p).status = .blocked ↔ (b.task p).status = .blocked ∧ p ≠ q := by
  rw [task_wake_up_eq]
  by_cases hp : p = q
  · subst hp
    split
    · rw [SignalTasks.setStatus, set_task_task]
      simp
    · next hnot => simp [(not_or.mp hnot).1]
  · have hsame : ((b.setStatus q .ready).task p) = b.task p := Function.update_of_ne hp ..
    split
    · rw [hsame]
      simp [hp]
    · simp [hp]

theorem task_wake_up_current (b : SignalTasks Obj Tid) (q : Tid) :
    (b.taskWakeUp q).current = b.current := by
  rw [task_wake_up_eq]
  split <;> rfl

/-- A touch that wakes nobody leaves the blocked tasks blocked. -/
theorem touched_blocked (h : TouchedState False b b' q) (p : Tid) :
    (b'.task p).status = .blocked ↔ (b.task p).status = .blocked := by
  obtain ⟨task, rfl, htouched⟩ := h
  by_cases hp : p = q
  · subst hp
    rw [set_task_task]
    rcases htouched.status with hsame | ⟨hready, hstopped | ⟨-, ⟨⟩⟩⟩
    · rw [hsame]
    · rw [hready, hstopped]
      simp
  · rw [show (b.setTask q task).task p = b.task p from Function.update_of_ne hp ..]

theorem touched_current {wakes : Prop} (h : TouchedState wakes b b' q) :
    b'.current = b.current := by
  obtain ⟨task, rfl, -⟩ := h
  rfl

/-- `HandleStopSignal` is about the mask only. -/
theorem handle_stop_signal_keeps (b : SignalTasks Obj Tid) (signo : Nat) (q : Tid) :
    ((b.handleStopSignal signo q).task q).signalPending = (b.task q).signalPending ∧
      ((b.handleStopSignal signo q).task q).handler = (b.task q).handler := by
  unfold SignalTasks.handleStopSignal
  split
  · simp only [set_task_task]
    split
    · rw [task_wake_up_eq]
      split
      · rw [SignalTasks.setStatus, set_task_task]
        exact ⟨rfl, rfl⟩
      · exact ⟨rfl, rfl⟩
    · exact ⟨rfl, rfl⟩
  · split
    · rw [set_task_task]
      exact ⟨rfl, rfl⟩
    · exact ⟨rfl, rfl⟩

/-- What is ignored after it has been ignored before. -/
theorem handle_stop_signal_ignores (b : SignalTasks Obj Tid) (signo : Nat) (q : Tid) :
    (b.handleStopSignal signo q).ignoreSignal signo q = b.ignoreSignal signo q := by
  simp only [SignalTasks.ignoreSignal, handle_stop_signal_mask, (handle_stop_signal_keeps b signo q).2]

end

/-- A change of the tasks that wakes nobody. -/
theorem SleepInv.touched (h : SleepInv s) {base : SignalTasks Empty Tid}
    (htouched : TouchedState False s.base base q) : SleepInv { s with base } := by
  refine h.congr rfl rfl rfl rfl (touched_blocked htouched) fun p hp => ?_
  rw [show ({ s with base } : SleepTasks Tid).base.current = _ from touched_current htouched] at hp
  exact h.current p hp

/-! ## Waking up -/

/-- `DeliverSignal` takes the timer of who it wakes out of the list. -/
theorem SleepInv.deliver (h : SleepInv s) (signo : Nat) (q : Tid) :
    SleepInv (s.deliverSignal signo q) ∧
      (((s.deliverSignal signo q).base.task q).status = .blocked →
        signo ∈ ((s.deliverSignal signo q).base.task q).signalBlocked) := by
  have hset : TouchedState False s.base (s.base.setTask q
      { s.base.task q with signalPending := insert signo (s.base.task q).signalPending }) q :=
    .set rfl rfl rfl
  by_cases hwakes : signo ∉ (s.base.task q).signalBlocked ∧ (s.base.task q).status = .blocked
  · obtain ⟨x, hx, rfl, htimer, hin⟩ := h.own_timer hwakes.2
    have hbase : s.base.deliverSignal signo x.task = SignalTasks.taskWakeUp (s.base.setTask x.task
        { s.base.task x.task with
          signalPending := insert signo (s.base.task x.task).signalPending }) x.task := by
      rw [SignalTasks.deliverSignal, if_pos hwakes]
    have heq : s.deliverSignal signo x.task =
        ({ s with
          base := s.base.deliverSignal signo x.task
          timerList := s.timerList.filter (·.call ≠ x.call) }).setSleepTimer x.task none := by
      rw [SleepTasks.deliverSignal, if_pos hwakes, htimer]
      exact congrArg (·.setSleepTimer x.task none) (cancel_timer_eq
        { s with base := s.base.deliverSignal signo x.task } ⟨x, hx, rfl⟩)
    rw [heq]
    have hblocked : ∀ p, ((s.base.deliverSignal signo x.task).task p).status = .blocked ↔
        (s.base.task p).status = .blocked ∧ p ≠ x.task := by
      intro p
      rw [hbase, task_wake_up_blocked, touched_blocked hset]
    constructor
    · refine h.woken hin rfl rfl (fun p n hp => ?_) (fun p hp => Function.update_of_ne hp ..) rfl
        hblocked ?_
      · change Function.update s.sleepTimer x.task none p = some n at hp
        rw [Function.update_apply] at hp
        split at hp
        · cases hp
        · exact hp
      · show (s.base.deliverSignal signo x.task).current = _
        rw [hbase, task_wake_up_current]
        rfl
    · intro hstill
      exact absurd rfl ((hblocked x.task).mp hstill).2
  · rw [SleepTasks.deliverSignal, if_neg hwakes, SignalTasks.deliverSignal, if_neg hwakes]
    refine ⟨h.touched hset, fun hblocked => ?_⟩
    have hstatus := (touched_blocked hset q).mp hblocked
    simp only [set_task_task]
    by_contra hnot
    exact hwakes ⟨hnot, hstatus⟩

/-- What keeps the last lines of `DoSendSignal` away from a task that sleeps: it has no other signal
pending, or this one is delivered to it. -/
def Spared (s : SleepTasks Tid) (signo : Nat) (q : Tid) : Prop :=
  (s.base.task q).status = .blocked → signo ∉ (s.base.task q).signalBlocked →
    (s.base.task q).signalPending ≠ ∅ →
      s.base.ignoreSignal signo q = false ∧ signo ∉ (s.base.task q).signalPending

theorem SleepInv.send (h : SleepInv s) {signo : Nat} {q : Tid} (hspared : Spared s signo q) :
    SleepInv (s.doSendSignal signo q) := by
  rw [SleepTasks.doSendSignal]
  split
  · exact h
  · have htouched := handle_stop_signal_touched False s.base signo q
    have hstop := h.touched htouched
    obtain ⟨hpending, -⟩ := handle_stop_signal_keeps s.base signo q
    have hignores := handle_stop_signal_ignores s.base signo q
    have hmask := handle_stop_signal_mask s.base signo q
    have hblocked := touched_blocked htouched q
    set t : SleepTasks Tid := { s with base := s.base.handleStopSignal signo q } with ht
    -- a task that is not served is either awake or has the signal blocked, or nothing is pending
    have hunserved : (s.base.ignoreSignal signo q = true ∨ signo ∈ (s.base.task q).signalPending) →
        ¬ ((t.base.task q).status = .blocked ∧ (t.base.task q).signalPending ≠ ∅ ∧
          signo ∉ (t.base.task q).signalBlocked) := by
      rintro hno ⟨hstatus, hsome, hopen⟩
      have hserved := hspared (hblocked.mp hstatus) (mt hmask.mpr hopen) (by rwa [hpending] at hsome)
      rcases hno with hign | hpend
      · rw [hserved.1] at hign
        cases hign
      · exact hserved.2 hpend
    simp only
    rw [show t.base.ignoreSignal signo q = s.base.ignoreSignal signo q from hignores,
      show (t.base.task q).signalPending = (s.base.task q).signalPending from hpending]
    by_cases hign : s.base.ignoreSignal signo q = true
    · rw [if_pos hign, if_neg (hunserved (.inl hign))]
      exact hstop
    · rw [if_neg hign]
      by_cases hpend : signo ∈ (s.base.task q).signalPending
      · rw [if_pos hpend, if_neg (hunserved (.inr hpend))]
        exact hstop
      · rw [if_neg hpend]
        obtain ⟨hdelivered, hmasked⟩ := hstop.deliver signo q
        rw [if_neg fun hlast => hlast.2.2 (hmasked hlast.1)]
        exact hdelivered

/-! ## Sleeping and the clock -/

omit [DecidableEq Tid] in
/-- A task that is awake has no timer. -/
theorem SleepInv.awake (h : SleepInv s) (hawake : (s.base.task p).status ≠ .blocked)
    {x : Timer Tid} (hx : x ∈ s.timerList) : x.task ≠ p := by
  rintro rfl
  exact hawake (h.timers x hx).2.2

/-- A task that sleeps has its timer in the list. -/
theorem SleepInv.sleep (h : SleepInv s) (hcur : s.base.current = some p) (ticks : UInt32) : SleepInv (s.taskSleep p ticks) := by
  have hawake := h.current p hcur
  have hself : ((s.base.block p .idle).task p).status = .blocked := by
    rw [show (s.base.block p .idle).task p = _ from Function.update_self ..]
  have hother : ∀ q, q ≠ p → (s.base.block p .idle).task q = s.base.task q := fun q hq =>
    Function.update_of_ne hq ..
  refine ⟨?_, ?_, ?_, ?_, ?_, ?_, by rintro q ⟨⟩⟩
  · intro x hx
    rcases List.mem_append.mp hx with hold | hnew
    · have hne := h.awake hawake hold
      obtain ⟨hin, htimer, hblocked⟩ := h.timers x hold
      refine ⟨(Function.update_of_ne hne ..).trans hin, (Function.update_of_ne hne ..).trans htimer,
        ?_⟩
      show ((s.base.block p .idle).task x.task).status = .blocked
      rw [hother _ hne, hblocked]
    · rw [List.mem_singleton.mp hnew]
      exact ⟨Function.update_self .., Function.update_self .., hself⟩
  · intro q hq
    by_cases hqp : q = p
    · exact ⟨_, List.mem_append_right _ (List.mem_singleton.mpr rfl), hqp.symm⟩
    · change ((s.base.block p .idle).task q).status = .blocked at hq
      rw [hother q hqp] at hq
      obtain ⟨x, hx, htask⟩ := h.blocked q hq
      exact ⟨x, List.mem_append_left _ hx, htask⟩
  · intro q n hq
    change Function.update s.sleepTimer p _ q = some n at hq
    show Function.update s.inside p _ q = some n
    rw [Function.update_apply] at hq ⊢
    split at hq
    · next hqp => rw [if_pos hqp, ← hq]
    · next hqp => rw [if_neg hqp, h.within q n hq]
  · show ((s.timerList ++ [_]).map Timer.call).Nodup
    rw [List.map_append, List.nodup_append]
    refine ⟨h.distinct, List.nodup_singleton _, ?_⟩
    rintro _ hold _ hnew rfl
    obtain ⟨x, hx, hcall⟩ := List.mem_map.mp hold
    have hlt := h.fresh _ _ (h.timers x hx).1
    rw [hcall, List.mem_singleton.mp hnew] at hlt
    exact Nat.lt_irrefl _ hlt
  · intro q r n hq hr
    change Function.update s.inside p _ q = some n at hq
    change Function.update s.inside p _ r = some n at hr
    rw [Function.update_apply] at hq hr
    split at hq
    · next hqp =>
        split at hr
        · next hrp => rw [hqp, hrp]
        · have hlt := h.fresh r n hr
          rw [← Option.some.inj hq] at hlt
          exact absurd hlt (Nat.lt_irrefl _)
    · split at hr
      · have hlt := h.fresh q n hq
        rw [← Option.some.inj hr] at hlt
        exact absurd hlt (Nat.lt_irrefl _)
      · exact h.unique q r n hq hr
  · intro q n hq
    change Function.update s.inside p _ q = some n at hq
    show n < s.nextCall + 1
    rw [Function.update_apply] at hq
    split at hq
    · rw [← Option.some.inj hq]
      exact Nat.lt_succ_self _
    · exact Nat.lt_succ_of_lt (h.fresh q n hq)

/-- A task that runs again has no timer. -/
theorem SleepInv.sleepEnd (h : SleepInv s) (hcur : s.base.current = some p) :
    SleepInv (s.sleepEnd p) := by
  have hawake := h.current p hcur
  have hinside : ∀ q n, Function.update s.inside p none q = some n → s.inside q = some n ∧ q ≠ p := by
    intro q n hq
    rw [Function.update_apply] at hq
    split at hq
    · cases hq
    · next hqp => exact ⟨hq, hqp⟩
  refine ⟨fun x hx => ?_, h.blocked, fun q n hq => ?_, h.distinct, fun q r n hq hr => ?_,
    fun q n hq => h.fresh q n (hinside q n hq).1, h.current⟩
  · obtain ⟨hin, htimer, hblocked⟩ := h.timers x hx
    have hne := h.awake hawake hx
    exact ⟨(Function.update_of_ne hne ..).trans hin, (Function.update_of_ne hne ..).trans htimer,
      hblocked⟩
  · change Function.update s.sleepTimer p none q = some n at hq
    show Function.update s.inside p none q = some n
    rw [Function.update_apply] at hq ⊢
    split at hq
    · cases hq
    · next hqp => rw [if_neg hqp, h.within q n hq]
  · exact h.unique q r n (hinside q n hq).1 (hinside r n hr).1

/-- A timer of the list is updated, and the others stay. -/
theorem SleepInv.timerUpdate (h : SleepInv s) {x : Timer Tid} (hx : x ∈ s.timerList) :
    SleepInv (s.timerUpdate x) ∧
      ∀ y ∈ s.timerList, y.call ≠ x.call → y ∈ (s.timerUpdate x).timerList := by
  rw [SleepTasks.timerUpdate]
  simp only
  split
  · rw [cancel_timer_eq s ⟨x, hx, rfl⟩]
    obtain ⟨hin, -, -⟩ := h.timers x hx
    refine ⟨h.woken hin rfl rfl (fun _ _ hp => hp) (fun _ _ => rfl) rfl
      (task_wake_up_blocked s.base x.task) (task_wake_up_current s.base x.task), fun y hy hne => ?_⟩
    exact List.mem_filter.mpr ⟨hy, decide_eq_true hne⟩
  · have hmap : ∀ y, y ∈ s.timerList.map (fun y => if y.call = x.call then
        { y with expires := x.expires - 1 } else y) →
        ∃ z ∈ s.timerList, y.call = z.call ∧ y.task = z.task := by
      intro y hy
      obtain ⟨z, hz, rfl⟩ := List.mem_map.mp hy
      refine ⟨z, hz, ?_⟩
      split <;> exact ⟨rfl, rfl⟩
    refine ⟨⟨fun y hy => ?_, fun q hq => ?_, h.within, ?_, h.unique, h.fresh, h.current⟩,
      fun y hy hne => ?_⟩
    · obtain ⟨z, hz, hcall, htask⟩ := hmap y hy
      rw [hcall, htask]
      exact h.timers z hz
    · obtain ⟨z, hz, htask⟩ := h.blocked q hq
      refine ⟨_, List.mem_map.mpr ⟨z, hz, rfl⟩, ?_⟩
      split <;> exact htask
    · have hcalls : (s.timerList.map fun y => if y.call = x.call then
          { y with expires := x.expires - 1 } else y).map (·.call) = s.timerList.map (·.call) := by
        rw [List.map_map]
        refine List.map_congr_left fun y _ => ?_
        show (if y.call = x.call then ({ y with expires := x.expires - 1 } : Timer Tid) else y).call =
          y.call
        split <;> rfl
      rw [hcalls]
      exact h.distinct
    · exact List.mem_map.mpr ⟨y, hy, if_neg hne⟩

/-- `UpdateTimerSystem` updates each timer of the list once. -/
theorem SleepInv.tick (h : SleepInv s) : SleepInv s.updateTimerSystem := by
  have hloop : ∀ (l : List (Timer Tid)) (t : SleepTasks Tid), SleepInv t →
      (∀ x ∈ l, x ∈ t.timerList) → (l.map (·.call)).Nodup →
        SleepInv (l.foldl SleepTasks.timerUpdate t) := by
    intro l
    induction l with
    | nil => exact fun t h _ _ => h
    | cons x rest ih =>
        intro t h hin hnodup
        obtain ⟨hnotin, hrest⟩ := List.nodup_cons.mp hnodup
        obtain ⟨hnext, hkeep⟩ := h.timerUpdate (hin x List.mem_cons_self)
        refine ih _ hnext (fun y hy => hkeep y (hin y (List.mem_cons_of_mem _ hy)) ?_) hrest
        intro hcall
        exact hnotin (List.mem_map.mpr ⟨y, hy, hcall⟩)
  exact hloop s.timerList s h (fun _ hx => hx) h.distinct

/-! ## Runs -/

/-- No signal wakes a sleeping task in the last lines of `DoSendSignal`. -/
def sleepGuard (s : SleepTasks Tid) : SleepOp Tid → Prop
  | .sendSignal signo q => Spared s signo q
  | .forceSignal signo q => Spared (s.unmask signo q) signo q
  | .sleep _ | .wake | .tick | .processMask _ | .setAction _ _ | .doSignal _ | .switchTo _ => True

/-- A change of a task that is not blocked, before or after. -/
theorem SleepInv.retask (h : SleepInv s) (hawake : (s.base.task p).status ≠ .blocked)
    {base : SignalTasks Empty Tid} {task : Signals.Task Empty} (hstatus : task.status ≠ .blocked)
    (htask : base.task = Function.update s.base.task p task)
    (hcurrent : ∀ q, base.current = some q → q = p ∨ s.base.current = some q) :
    SleepInv { s with base } := by
  refine h.congr rfl rfl rfl rfl (fun q => ?_) fun q hq => ?_
  · show (base.task q).status = .blocked ↔ _
    rw [htask, Function.update_apply]
    split
    · next hqp =>
        rw [hqp]
        exact iff_of_false hstatus hawake
    · exact Iff.rfl
  · rcases hcurrent q hq with rfl | hcur
    · exact hawake
    · exact h.current q hcur

theorem SleepInv.switchTo (h : SleepInv s) (hready : (s.base.task p).status = .ready) :
    SleepInv { s with base := s.base.switchTo p } := by
  have hawake : (s.base.task p).status ≠ .blocked := by
    rw [hready]
    decide
  cases hcur : s.base.current with
  | none =>
      have hrunning : ({ s.base.task p with status := .running } : Signals.Task Empty).status ≠
        .blocked := nofun
      refine h.retask hawake hrunning ?_ ?_
      · simp only [SignalTasks.switchTo, hcur]
        rfl
      · rintro q ⟨⟩
        exact .inl rfl
  | some c =>
      have hsleepless : ({ s.base.task c with status := .ready } : Signals.Task Empty).status ≠
        .blocked := nofun
      have hyield : SleepInv { s with base := s.base.setStatus c .ready } :=
        h.retask (h.current c hcur) hsleepless rfl fun q hq => .inr hq
      have hawake' : ((s.base.setStatus c .ready).task p).status ≠ .blocked := by
        show (Function.update s.base.task c _ p).status ≠ _
        rw [Function.update_apply]
        split
        · nofun
        · exact hawake
      have hrunning : ({ (s.base.setStatus c .ready).task p with status := .running } :
        Signals.Task Empty).status ≠ .blocked := nofun
      refine hyield.retask hawake' hrunning ?_ ?_
      · simp only [SignalTasks.switchTo, hcur]
        rfl
      · rintro q ⟨⟩
        exact .inl rfl

/-- What the current task does outside of `TaskSleep`. -/
theorem SleepInv.outside_step (h : SleepInv s) (hcur : s.base.current = some p) {op : SleepOp Tid}
    (hstep : outsideStep s p op = some t) : SleepInv t := by
  have hawake := h.current p hcur
  cases op with
  | sleep ticks =>
      cases Option.some.inj hstep
      exact h.sleep hcur ticks
  | processMask set =>
      cases Option.some.inj hstep
      refine h.retask (p := p) hawake ?_ rfl fun q hq => .inr hq
      exact hawake
  | setAction signo handler =>
      cases Option.some.inj hstep
      refine h.retask (p := p) hawake ?_ rfl fun q hq => .inr hq
      exact hawake
  | doSignal signo =>
      simp only [outsideStep, Option.ite_none_right_eq_some, Option.some.injEq] at hstep
      obtain ⟨-, rfl⟩ := hstep
      rw [SignalTasks.doSignal]
      simp only
      split
      · refine h.retask (p := p) hawake ?_ rfl (by rintro q ⟨⟩)
        nofun
      · refine h.retask (p := p) hawake ?_ rfl fun q hq => .inr hq
        exact hawake
  | wake => cases hstep
  | tick => cases hstep
  | switchTo q => cases hstep
  | sendSignal signo q => cases hstep
  | forceSignal signo q => cases hstep

theorem SleepInv.step (h : SleepInv s) {op : SleepOp Tid} (hguard : sleepGuard s op)
    (hstep : sleepStep s op = some t) : SleepInv t := by
  rw [sleepStep.eq_def] at hstep
  split at hstep
  · cases hstep
  · cases op with
    | tick =>
        cases Option.some.inj hstep
        exact h.tick
    | sendSignal signo q =>
        cases Option.some.inj hstep
        exact h.send hguard
    | forceSignal signo q =>
        cases Option.some.inj hstep
        refine SleepInv.send (h.touched (q := q) ?_) hguard
        exact .set rfl rfl rfl
    | switchTo p =>
        simp only [Option.ite_none_right_eq_some, Option.some.injEq] at hstep
        obtain ⟨hready, rfl⟩ := hstep
        exact h.switchTo hready
    | wake =>
        simp only at hstep
        split at hstep
        · cases hstep
        · next p hcur =>
            simp only [Option.ite_none_right_eq_some, Option.some.injEq] at hstep
            obtain ⟨-, rfl⟩ := hstep
            exact h.sleepEnd hcur
    | sleep | processMask | setAction | doSignal =>
        simp only at hstep
        split at hstep
        · cases hstep
        · next p hcur =>
            simp only [Option.ite_none_right_eq_some] at hstep
            exact h.outside_step hcur hstep.2

/-- In every run in which no signal does so, the timers in the list are those of sleeping tasks. -/
theorem timers_of_sleepers {handler : Tid → Nat → Handler} {ops : List (SleepOp Tid)}
    (hrun : Run (stepOf sleepStep) sleepGuard (.init handler) ops s) : TimersOfSleepers s :=
  (hrun.invariant (fun _ _ _ h hguard hstep => h.step hguard hstep) (sleep_inv_init handler)).safe

instance (s : SleepTasks Tid) (signo : Nat) (q : Tid) : Decidable (Spared s signo q) :=
  inferInstanceAs (Decidable (_ → _ → _ → _ ∧ _))

instance (s : SleepTasks Tid) : DecidablePred (sleepGuard s)
  | .sendSignal signo q => inferInstanceAs (Decidable (Spared s signo q))
  | .forceSignal signo q => inferInstanceAs (Decidable (Spared (s.unmask signo q) signo q))
  | .sleep _ | .wake | .tick | .processMask _ | .setAction _ _ | .doSignal _ | .switchTo _ =>
      inferInstanceAs (Decidable True)

/-- One task sleeps, and a signal wakes it; the other one sleeps until its time is up. -/
def twoSleeps : List (SleepOp (Fin 2)) :=
  [.switchTo 0, .sleep 5, .switchTo 1, .sleep 2, .tick, .sendSignal 15 0, .switchTo 0, .wake, .tick,
    .switchTo 1]

/-- The first task is out of `TaskSleep`, and the second one runs again with its `sleepTimer`. -/
theorem two_sleeps_safe : ∃ s : SleepTasks (Fin 2),
    Run (stepOf sleepStep) sleepGuard (.init fun _ _ => .dfl) twoSleeps s ∧
      (s.inside 0, s.sleepTimer 0, s.sleepTimer 1, s.timerList.length) = (none, none, some 1, 0) ∧
      TimersOfSleepers s := by
  obtain ⟨s, t, hstart, hrun, hview⟩ := exists_run_checked sleepStep sleepGuard
    (some (.init fun (_ : Fin 2) _ => .dfl)) twoSleeps
    (fun s => (s.inside 0, s.sleepTimer 0, s.sleepTimer 1, s.timerList.length))
    (v := (none, none, some 1, 0)) (by decide +kernel)
  cases Option.some.inj hstart
  exact ⟨t, hrun, hview, timers_of_sleepers hrun⟩

/-- A task sleeps for one tick. -/
def oneTick : List (SleepOp (Fin 1)) := [.switchTo 0, .sleep 1, .tick]

/-- Its timer has expired, and it has not run yet. -/
theorem one_tick_unlisted : ∃ s : SleepTasks (Fin 1),
    Run (stepOf sleepStep) anyLabel (.init fun _ _ => .dfl) oneTick s ∧ ¬ NoStaleTimer s := by
  obtain ⟨s, t, hstart, hrun, hview⟩ := exists_run_all sleepStep
    (some (.init fun (_ : Fin 1) _ => .dfl)) oneTick
    (fun s => (s.sleepTimer 0, s.timerList.length)) (v := (some 0, 0)) (by decide +kernel)
  cases Option.some.inj hstart
  obtain ⟨htimer, hlength⟩ := Prod.mk.inj hview
  refine ⟨t, hrun, fun h => ?_⟩
  obtain ⟨x, hx, -⟩ := h.listed 0 0 htimer
  rw [List.eq_nil_of_length_eq_zero hlength] at hx
  cases hx

end XBook.Sleep
