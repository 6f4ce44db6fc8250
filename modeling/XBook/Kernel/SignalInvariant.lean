import XBook.Kernel.SignalTasks

/-!
# The invariant of tasks that signals spare

A signal that is not blocked wakes a blocked task, whatever the task waits for. `SignalInv` says
where each task is linked, what a task that is no longer blocked has been given, who owns the lock
of an io queue, and which task waits for a request. A signal for a task in `MutexLock` keeps it,
since that task stays linked and tests the mutex again.
-/

namespace XBook.Signals

open IoTasks (Side)

variable {Obj Tid : Type*}

/-! ## The tasks -/

/-- Where a task is linked. A task in `MutexLock` unlinks itself when it has the mutex, and the
others are unlinked by whoever wakes them. -/
def Task.link (t : Task Obj) : Option (WaitList Obj) :=
  if t.status = .blocked ∨ t.place.InMutex then t.place.waitList else none

/-- A task that waits here is given something when it is made ready. -/
def Place.NeedsGrant : Place Obj → Prop
  | .down _ | .syncLock _ _ | .fifoOpen _ _ => True
  | _ => False

/-- The task may be blocked here. -/
def Place.Blocks : Place Obj → Prop
  | .idle | .transfer _ _ => False
  | _ => True

theorem Place.InMutex.eq {place : Place Obj} (h : place.InMutex) : ∃ m, place = .mutexLock m := by
  cases place with
  | mutexLock m => exact ⟨m, rfl⟩
  | _ => exact h.elim

/-- What holds of each task by itself. -/
structure Task.Sound (t : Task Obj) : Prop where
  blocked : t.status = .blocked → t.place.Blocks
  stopped : t.status = .stopped → t.place = .idle
  granted : t.status ≠ .blocked → t.place.NeedsGrant → t.granted = true

/-- The tasks and the lists agree. -/
structure TaskInv (s : SignalTasks Obj Tid) : Prop where
  sound : ∀ p, (s.task p).Sound
  running : ∀ p, s.current = some p ↔ (s.task p).status = .running
  linked : ∀ w p, p ∈ s.waiting w ↔ (s.task p).link = some w
  nodup : ∀ w, (s.waiting w).Nodup

section

variable {s t : SignalTasks Obj Tid} {p : Tid}

/-- One task changes. -/
theorem TaskInv.set [DecidableEq Tid] (h : TaskInv s) {task : Task Obj} (htask : t.task = Function.update s.task p task)
    (hsound : task.Sound) (hrunning : ∀ q, t.current = some q ↔ (t.task q).status = .running)
    (hlinked : ∀ w, p ∈ t.waiting w ↔ task.link = some w)
    (hothers : ∀ w q, q ≠ p → (q ∈ t.waiting w ↔ q ∈ s.waiting w))
    (hnodup : ∀ w, (t.waiting w).Nodup) : TaskInv t := by
  have hself : t.task p = task := by rw [htask, Function.update_self]
  have hother : ∀ q, q ≠ p → t.task q = s.task q := by
    intro q hne
    rw [htask, Function.update_of_ne hne]
  refine ⟨?_, hrunning, ?_, hnodup⟩
  · intro q
    by_cases heq : q = p
    · rw [heq, hself]
      exact hsound
    · rw [hother q heq]
      exact h.sound q
  · intro w q
    by_cases heq : q = p
    · rw [heq, hself]
      exact hlinked w
    · rw [hother q heq, hothers w q heq]
      exact h.linked w q

/-- The current task is the one that runs, after a step of one task. -/
theorem TaskInv.running_set [DecidableEq Tid] (h : TaskInv s) {task : Task Obj}
    (htask : t.task = Function.update s.task p task)
    (hself : t.current = some p ↔ task.status = .running)
    (hothers : ∀ q, q ≠ p → (t.current = some q ↔ s.current = some q)) (q : Tid) :
    t.current = some q ↔ (t.task q).status = .running := by
  by_cases heq : q = p
  · rw [heq, htask, Function.update_self]
    exact hself
  · rw [htask, Function.update_of_ne heq, hothers q heq]
    exact h.running q

/-- A task that is not blocked and not in `MutexLock` is linked nowhere. -/
theorem TaskInv.not_linked (h : TaskInv s) (hstatus : (s.task p).status ≠ .blocked)
    (hplace : ¬ (s.task p).place.InMutex) (w : WaitList Obj) : p ∉ s.waiting w := by
  rw [h.linked, Task.link, if_neg (not_or.mpr ⟨hstatus, hplace⟩)]
  nofun

/-! ## The locks of the io queues -/

/-- The part of a task in the lock of an io queue: `true` for the holder, `false` for one that has
been given the permit. -/
def Task.role (t : Task Obj) : Option (Obj × Bool) :=
  match t.place with
  | .ioWait q _ => some (q, true)
  | .syncLock q _ => if t.status = .blocked then none else some (q, false)
  | _ => none

/-- The lock of each io queue is free, or has one owner. -/
structure IoInv (s : SignalTasks Obj Tid) : Prop where
  counter : ∀ q, s.counter (.lock q) ≤ 1
  free : ∀ q, s.counter (.lock q) = 1 → ∀ p b, (s.task p).role ≠ some (q, b)
  single : ∀ q p p' b b', (s.task p).role = some (q, b) → (s.task p').role = some (q, b') → p = p'
  holder : ∀ q p, s.holder q = some p ↔ (s.task p).role = some (q, true)
  count : ∀ q, s.holderReaptCount q = if s.holder q = none then 0 else 1

/-- A step that has nothing to do with the locks. -/
theorem IoInv.same (h : IoInv s) (hrole : ∀ q, (t.task q).role = (s.task q).role)
    (hcounter : ∀ q, t.counter (.lock q) = s.counter (.lock q)) (hholder : t.holder = s.holder)
    (hcount : t.holderReaptCount = s.holderReaptCount) : IoInv t := by
  constructor
  · intro q
    rw [hcounter]
    exact h.counter q
  · intro q
    simp only [hcounter, hrole]
    exact h.free q
  · simp only [hrole]
    exact h.single
  · simp only [hrole, hholder]
    exact h.holder
  · rw [hholder, hcount]
    exact h.count

/-! ## The requests -/

/-- The request that a task has to do with: `true` when it serves it, `false` when it waits. -/
def Place.request : Place Obj → Option (Bool × Obj × Nat)
  | .addRequest d r => some (false, d, r)
  | .transfer d r => some (true, d, r)
  | _ => none

/-- Each request that has not ended has a task that waits for it, unless it is the first one of
the task that serves. -/
structure RequestInv (s : SignalTasks Obj Tid) : Prop where
  done : ∀ p d r, (s.task p).place.request = some (false, d, r) →
    (s.task p).status = .blocked ∨ r ∈ s.ended d
  queued : ∀ d, ∀ r ∈ s.requests d, ∃ p, s.waiter d r = some p ∧
    (s.task p).place.request = some (false, d, r)
  served : ∀ p d r, (s.task p).place.request = some (true, d, r) → ∃ q, s.waiter d r = some q ∧
    (q = p ∨ (s.task q).place.request = some (false, d, r))
  nodup : ∀ d, (s.requests d).Nodup
  apart : ∀ d, ∀ r ∈ s.requests d, r ∉ s.ended d
  serving : ∀ p d r, (s.task p).place.request = some (true, d, r) →
    r ∉ s.requests d ∧ r ∉ s.ended d
  single : ∀ p q d r, (s.task p).place.request = some (true, d, r) →
    (s.task q).place.request = some (true, d, r) → p = q
  fresh : ∀ d r, r ∈ s.requests d ∨ r ∈ s.ended d ∨
    (∃ p, (s.task p).place.request = some (true, d, r)) → r < s.nextRequest d
  idle : ∀ d, s.currentRequest d = none → s.requests d = []

/-- The fields of the request queues are the same. -/
structure SameRequests (s t : SignalTasks Obj Tid) : Prop where
  currentRequest : t.currentRequest = s.currentRequest
  requests : t.requests = s.requests
  waiter : t.waiter = s.waiter
  nextRequest : t.nextRequest = s.nextRequest
  ended : t.ended = s.ended

/-- A step that has nothing to do with the requests. -/
theorem RequestInv.same (h : RequestInv s) (hsame : SameRequests s t)
    (hplace : ∀ q, (t.task q).place.request = (s.task q).place.request)
    (hblocked : ∀ q d r, (s.task q).place.request = some (false, d, r) →
      (s.task q).status = .blocked → (t.task q).status = .blocked) : RequestInv t := by
  obtain ⟨hcurrent, hrequests, hwaiter, hnext, hended⟩ := hsame
  constructor
  · intro q d r hq
    rw [hplace] at hq
    rw [hended]
    exact (h.done q d r hq).imp_left (hblocked q d r hq)
  · simp only [hrequests, hwaiter, hplace]
    exact h.queued
  · simp only [hwaiter, hplace]
    exact h.served
  · rw [hrequests]
    exact h.nodup
  · rw [hrequests, hended]
    exact h.apart
  · simp only [hrequests, hended, hplace]
    exact h.serving
  · simp only [hplace]
    exact h.single
  · simp only [hrequests, hended, hplace, hnext]
    exact h.fresh
  · rw [hcurrent, hrequests]
    exact h.idle

/-! ## The invariant -/

/-- A mutex is free, or has one owner. -/
structure MutexInv (s : SignalTasks Obj Tid) : Prop where
  count : ∀ m, s.count m ≤ 1
  single : ∀ m, (s.owners m).length ≤ 1
  free : ∀ m, s.count m = 1 → s.owners m = []

/-- The invariant of the tasks and their primitives. -/
structure SignalInv (s : SignalTasks Obj Tid) : Prop where
  tasks : TaskInv s
  io : IoInv s
  requests : RequestInv s
  mutex : MutexInv s
  reference : ∀ f k, 0 ≤ s.reference f k
  early : s.early = false
  failed : s.failed = false

/-! ## Changes of a task within its place -/

variable [DecidableEq Tid]

theorem link_congr {a b : Task Obj} (hplace : a.place = b.place)
    (hblocked : b.place.InMutex ∨ (a.status = .blocked ↔ b.status = .blocked)) :
    a.link = b.link := by
  simp only [Task.link, hplace]
  rcases hblocked with hmutex | hiff
  · rw [if_pos (Or.inr hmutex), if_pos (Or.inr hmutex)]
  · simp only [hiff]

theorem role_congr {a b : Task Obj} (hplace : a.place = b.place)
    (hblocked : b.place.InMutex ∨ (a.status = .blocked ↔ b.status = .blocked)) :
    a.role = b.role := by
  simp only [Task.role, hplace]
  rcases hblocked with hmutex | hiff
  · obtain ⟨m, hm⟩ := hmutex.eq
    rw [hm]
  · simp only [hiff]

/-- A task changes where it is, without being woken from a place where it must be given something. -/
theorem SignalInv.retask (h : SignalInv s) {task : Task Obj} (current : Option Tid)
    (hplace : task.place = (s.task p).place) (hgranted : task.granted = (s.task p).granted)
    (hblocked : (s.task p).place.InMutex ∨
      (task.status = .blocked ↔ (s.task p).status = .blocked))
    (hstopped : task.status = .stopped → (s.task p).place = .idle)
    (hself : current = some p ↔ task.status = .running)
    (hothers : ∀ q, q ≠ p → (current = some q ↔ s.current = some q)) :
    SignalInv { s.setTask p task with current } := by
  have hupdate : ∀ {α : Type _} (f : Task Obj → α), f task = f (s.task p) → ∀ q,
      f (Function.update s.task p task q) = f (s.task q) := by
    intro α f heq q
    by_cases hq : q = p
    · rw [hq, Function.update_self]
      exact heq
    · rw [Function.update_of_ne hq]
  have hsound := h.tasks.sound p
  have hlink := link_congr hplace hblocked
  refine ⟨?_, ?_, ?_, ?_, h.reference, h.early, h.failed⟩
  · refine h.tasks.set rfl ⟨?_, ?_, ?_⟩ ?_ ?_ ?_ ?_
    · intro hstatus
      rw [hplace]
      rcases hblocked with hmutex | hiff
      · obtain ⟨m, hm⟩ := hmutex.eq
        rw [hm]
        trivial
      · exact hsound.blocked (hiff.mp hstatus)
    · intro hstatus
      rw [hplace]
      exact hstopped hstatus
    · intro hstatus hneeds
      rw [hplace] at hneeds
      rw [hgranted]
      rcases hblocked with hmutex | hiff
      · obtain ⟨m, hm⟩ := hmutex.eq
        rw [hm] at hneeds
        exact hneeds.elim
      · exact hsound.granted (fun hs => hstatus (hiff.mpr hs)) hneeds
    · exact h.tasks.running_set rfl hself hothers
    · intro w
      rw [hlink]
      exact h.tasks.linked w p
    · exact fun w q _ => Iff.rfl
    · exact h.tasks.nodup
  · exact h.io.same (hupdate Task.role (role_congr hplace hblocked)) (fun _ => rfl) rfl rfl
  · refine h.requests.same ⟨rfl, rfl, rfl, rfl, rfl⟩
      (hupdate (fun a => a.place.request) (congrArg Place.request hplace)) ?_
    intro q d r hq hstatus
    show (Function.update s.task p task q).status = .blocked
    by_cases heq : q = p
    · subst heq
      rw [Function.update_self]
      rcases hblocked with hmutex | hiff
      · obtain ⟨m, hm⟩ := hmutex.eq
        rw [hm] at hq
        cases hq
      · exact hiff.mpr hstatus
    · rw [Function.update_of_ne heq]
      exact hstatus
  · exact ⟨h.mutex.count, h.mutex.single, h.mutex.free⟩

/-! ## Signals -/

/-- What a signal does to a task: it may make it ready, when `wakes` holds or when it is stopped. -/
structure Touched (wakes : Prop) (old new : Task Obj) : Prop where
  place : new.place = old.place
  granted : new.granted = old.granted
  status : new.status = old.status ∨ new.status = .ready ∧
    (old.status = .stopped ∨ old.status = .blocked ∧ wakes)

theorem Touched.refl (wakes : Prop) (a : Task Obj) : Touched wakes a a := ⟨rfl, rfl, .inl rfl⟩

theorem Touched.trans {wakes : Prop} {a b c : Task Obj} (hab : Touched wakes a b)
    (hbc : Touched wakes b c) : Touched wakes a c := by
  refine ⟨hbc.place.trans hab.place, hbc.granted.trans hab.granted, ?_⟩
  rcases hbc.status with hsame | ⟨hready, hfrom⟩
  · rcases hab.status with hsame' | ⟨hready', hfrom'⟩
    · exact .inl (hsame.trans hsame')
    · exact .inr ⟨hsame.trans hready', hfrom'⟩
  · rcases hab.status with hsame' | ⟨hready', -⟩
    · rw [hsame'] at hfrom
      exact .inr ⟨hready, hfrom⟩
    · rw [hready'] at hfrom
      rcases hfrom with hstopped | ⟨hblocked, -⟩
      · cases hstopped
      · cases hblocked

/-- A state in which only one task differs, and that as a signal makes it. -/
def TouchedState (wakes : Prop) (s t : SignalTasks Obj Tid) (q : Tid) : Prop :=
  ∃ task, t = s.setTask q task ∧ Touched wakes (s.task q) task

theorem set_task_task (s : SignalTasks Obj Tid) (q : Tid) (task : Task Obj) :
    (s.setTask q task).task q = task := Function.update_self ..

theorem TouchedState.refl (wakes : Prop) (s : SignalTasks Obj Tid) (q : Tid) :
    TouchedState wakes s s q := by
  refine ⟨s.task q, ?_, .refl ..⟩
  rw [SignalTasks.setTask, Function.update_eq_self]

theorem TouchedState.trans {wakes : Prop} {s t u : SignalTasks Obj Tid} {q : Tid}
    (hst : TouchedState wakes s t q) (htu : TouchedState wakes t u q) :
    TouchedState wakes s u q := by
  obtain ⟨a, rfl, ha⟩ := hst
  obtain ⟨b, rfl, hb⟩ := htu
  rw [set_task_task] at hb
  refine ⟨b, ?_, ha.trans hb⟩
  simp only [SignalTasks.setTask, Function.update_idem]

theorem TouchedState.set {wakes : Prop} {s : SignalTasks Obj Tid} {q : Tid} {task : Task Obj}
    (hplace : task.place = (s.task q).place) (hgranted : task.granted = (s.task q).granted)
    (hstatus : task.status = (s.task q).status) : TouchedState wakes s (s.setTask q task) q :=
  ⟨task, rfl, hplace, hgranted, .inl hstatus⟩

/-- `TaskWakeUp` makes a task ready that does not run. -/
theorem task_wake_up_eq (s : SignalTasks Obj Tid) (q : Tid) : s.taskWakeUp q =
    if (s.task q).status = .blocked ∨ (s.task q).status = .stopped then s.setStatus q .ready
    else s := by
  unfold SignalTasks.taskWakeUp SignalTasks.taskUnblock
  cases (s.task q).status <;> rfl

theorem task_wake_up_mask (s : SignalTasks Obj Tid) (q : Tid) :
    ((s.taskWakeUp q).task q).signalBlocked = (s.task q).signalBlocked := by
  rw [task_wake_up_eq]
  split
  · rw [SignalTasks.setStatus, set_task_task]
  · rfl

/-- `TaskWakeUp` for a signal. -/
theorem task_wake_up_touched (wakes : Prop) {s : SignalTasks Obj Tid} {q : Tid}
    (h : (s.task q).status = .blocked → wakes) : TouchedState wakes s (s.taskWakeUp q) q := by
  rw [task_wake_up_eq]
  split
  · next hstatus =>
      refine ⟨_, rfl, rfl, rfl, .inr ⟨rfl, ?_⟩⟩
      rcases hstatus with hblocked | hstopped
      · exact .inr ⟨hblocked, h hblocked⟩
      · exact .inl hstopped
  · exact .refl ..

theorem handle_stop_signal_touched (wakes : Prop) (s : SignalTasks Obj Tid) (signo : Nat) (q : Tid) :
    TouchedState wakes s (s.handleStopSignal signo q) q := by
  unfold SignalTasks.handleStopSignal
  split
  · refine TouchedState.trans (t := if (s.task q).status = .stopped then s.taskWakeUp q else s) ?_
      (.set rfl rfl rfl)
    split
    · next hstopped =>
        refine task_wake_up_touched _ fun hblocked => ?_
        rw [hstopped] at hblocked
        cases hblocked
    · exact .refl ..
  · split
    · exact .set rfl rfl rfl
    · exact .refl ..

/-- `HandleStopSignal` does not unblock the signal that it is for. -/
theorem handle_stop_signal_mask (s : SignalTasks Obj Tid) (signo : Nat) (q : Tid) :
    signo ∈ ((s.handleStopSignal signo q).task q).signalBlocked ↔
      signo ∈ (s.task q).signalBlocked := by
  have hwake : ∀ t : SignalTasks Obj Tid, t = s ∨ t = s.taskWakeUp q →
      (t.task q).signalBlocked = (s.task q).signalBlocked := by
    rintro t (rfl | rfl)
    · rfl
    · exact task_wake_up_mask s q
  unfold SignalTasks.handleStopSignal
  split
  · next hsigno =>
      have hnot : signo ∉ stopSignals := by
        rcases hsigno with rfl | rfl <;> decide
      simp only [set_task_task, Finset.mem_sdiff, hnot, not_false_eq_true, and_true]
      rw [hwake]
      split
      · exact .inr rfl
      · exact .inl rfl
  · split
    · next hsigno =>
        have hne : signo ≠ sigcont := by
          rintro rfl
          revert hsigno
          decide
        simp only [set_task_task, Finset.mem_erase, ne_eq, hne, not_false_eq_true, true_and]
    · exact Iff.rfl

/-- `DeliverSignal` wakes a blocked task only when the signal is not blocked. -/
theorem deliver_signal_touched (s : SignalTasks Obj Tid) (signo : Nat) (q : Tid) :
    TouchedState (signo ∉ (s.task q).signalBlocked) s (s.deliverSignal signo q) q ∧
      ((s.deliverSignal signo q).task q).signalBlocked = (s.task q).signalBlocked := by
  simp only [SignalTasks.deliverSignal]
  have hset : TouchedState (signo ∉ (s.task q).signalBlocked) s (s.setTask q
      { s.task q with signalPending := insert signo (s.task q).signalPending }) q :=
    .set rfl rfl rfl
  split
  · next hwake =>
      refine ⟨hset.trans (task_wake_up_touched _ fun _ => hwake.1), ?_⟩
      rw [task_wake_up_mask, set_task_task]
  · exact ⟨hset, by rw [set_task_task]⟩

/-- `DoSendSignal` wakes a blocked task only when the signal is not blocked. -/
theorem do_send_signal_touched (s : SignalTasks Obj Tid) (signo : Nat) (q : Tid) :
    TouchedState (signo ∉ (s.task q).signalBlocked) s (s.doSendSignal signo q) q := by
  simp only [SignalTasks.doSendSignal]
  split
  · exact .refl ..
  · refine .trans (handle_stop_signal_touched _ s signo q) ?_
    have hmask := handle_stop_signal_mask s signo q
    generalize s.handleStopSignal signo q = t at hmask
    obtain ⟨hdeliver, hsame⟩ := deliver_signal_touched t signo q
    rw [hmask] at hdeliver
    -- the last test, with the signal ignored, pending already, or delivered
    have hlast : ∀ u : SignalTasks Obj Tid, u = t ∨ u = t.deliverSignal signo q →
        TouchedState (signo ∉ (s.task q).signalBlocked) t
          (if (u.task q).status = .blocked ∧ (u.task q).signalPending ≠ ∅ ∧
            signo ∉ (u.task q).signalBlocked then u.taskWakeUp q else u) q := by
      intro u hu
      have htouched : TouchedState (signo ∉ (s.task q).signalBlocked) t u q ∧
          (u.task q).signalBlocked = (t.task q).signalBlocked := by
        rcases hu with rfl | rfl
        · exact ⟨.refl .., rfl⟩
        · exact ⟨hdeliver, hsame⟩
      refine htouched.1.trans ?_
      split
      · next hwake =>
          refine task_wake_up_touched _ fun _ hin => hwake.2.2 ?_
          rw [htouched.2]
          exact hmask.mpr hin
      · exact .refl ..
    refine hlast _ ?_
    split
    · exact .inl rfl
    · split
      · exact .inl rfl
      · exact .inr rfl

theorem force_signal_touched (s : SignalTasks Obj Tid) (signo : Nat) (q : Tid) :
    TouchedState True s (s.forceSignal signo q) q := by
  have hset : TouchedState True s (s.setTask q { s.task q with
      handler := if (s.task q).handler signo = .ign then
        Function.update (s.task q).handler signo .dfl else (s.task q).handler
      signalBlocked := (s.task q).signalBlocked.erase signo }) q := .set rfl rfl rfl
  refine hset.trans ?_
  obtain ⟨task, htask, htouched⟩ := do_send_signal_touched (s.setTask q { s.task q with
      handler := if (s.task q).handler signo = .ign then
        Function.update (s.task q).handler signo .dfl else (s.task q).handler
      signalBlocked := (s.task q).signalBlocked.erase signo }) signo q
  refine ⟨task, htask, htouched.place, htouched.granted, ?_⟩
  exact htouched.status.imp_right (And.imp_right (Or.imp_right fun h => ⟨h.1, trivial⟩))

/-- A signal that wakes a blocked task only in `MutexLock` keeps the invariant. -/
theorem SignalInv.touched (h : SignalInv s) {wakes : Prop} {q : Tid}
    (htouched : TouchedState wakes s t q)
    (hguard : (s.task q).status = .blocked → wakes → (s.task q).place.InMutex) : SignalInv t := by
  obtain ⟨task, rfl, hplace, hgranted, hstatus⟩ := htouched
  have hrunning := h.tasks.running q
  refine h.retask s.current hplace hgranted ?_ ?_ ?_ fun _ _ => Iff.rfl
  · rcases hstatus with hsame | ⟨hready, hstopped | ⟨hblocked, hwakes⟩⟩
    · rw [hsame]
      exact .inr Iff.rfl
    · rw [hready, hstopped]
      exact .inr ⟨nofun, nofun⟩
    · exact .inl (hguard hblocked hwakes)
  · intro hstopped
    rcases hstatus with hsame | ⟨hready, -⟩
    · exact (h.tasks.sound q).stopped (hsame.symm.trans hstopped)
    · rw [hready] at hstopped
      cases hstopped
  · rw [hrunning]
    rcases hstatus with hsame | ⟨hready, hstopped | ⟨hblocked, -⟩⟩
    · rw [hsame]
    · rw [hready, hstopped]
      exact ⟨nofun, nofun⟩
    · rw [hready, hblocked]
      exact ⟨nofun, nofun⟩

/-- Another task runs. -/
theorem SignalInv.switch_to (h : SignalInv s) (hready : (s.task p).status = .ready) :
    SignalInv (s.switchTo p) := by
  -- the current task becomes ready first
  obtain ⟨u, hu, htask, hcurrent, hswitch⟩ : ∃ u, SignalInv u ∧ u.task p = s.task p ∧
      u.current = none ∧ s.switchTo p = { u.setStatus p .running with current := some p } := by
    unfold SignalTasks.switchTo
    cases hcur : s.current with
    | none => exact ⟨s, h, rfl, hcur, rfl⟩
    | some c =>
        have hrun := (h.tasks.running c).mp hcur
        have hne : p ≠ c := by
          rintro rfl
          rw [hready] at hrun
          cases hrun
        refine ⟨{ s.setStatus c .ready with current := none }, ?_, Function.update_of_ne hne ..,
          rfl, rfl⟩
        refine h.retask none rfl rfl (.inr ?_) nofun ⟨nofun, nofun⟩ ?_
        · rw [hrun]
          exact ⟨nofun, nofun⟩
        · intro q hq
          rw [hcur]
          exact ⟨nofun, fun heq => absurd (Option.some.inj heq).symm hq⟩
  rw [hswitch]
  refine hu.retask (some p) rfl rfl (.inr ?_) nofun ⟨fun _ => rfl, fun _ => rfl⟩ ?_
  · rw [htask, hready]
    exact ⟨nofun, nofun⟩
  · intro q hq
    rw [hcurrent]
    exact ⟨fun heq => absurd (Option.some.inj heq).symm hq, nofun⟩

/-! ## The steps of one task -/

/-- The lists are the same, but for where one task is. -/
structure Relinked (s t : SignalTasks Obj Tid) (p : Tid) (o : Option (WaitList Obj)) : Prop where
  self : ∀ w, p ∈ t.waiting w ↔ o = some w
  others : ∀ w q, q ≠ p → (q ∈ t.waiting w ↔ q ∈ s.waiting w)
  nodup : ∀ w, (t.waiting w).Nodup

omit [DecidableEq Tid] in
/-- A task stays linked where it is. -/
theorem TaskInv.relinked (h : TaskInv s) {u : SignalTasks Obj Tid} (hwaiting : u.waiting = s.waiting) :
    Relinked s u p (s.task p).link := by
  refine ⟨?_, ?_, ?_⟩
  · rw [hwaiting]
    exact fun w => h.linked w p
  · rw [hwaiting]
    exact fun _ _ _ => Iff.rfl
  · rw [hwaiting]
    exact h.nodup

/-- One task goes to another place, and is linked there. -/
theorem TaskInv.goes (h : TaskInv s) {task : Task Obj}
    (htask : t.task = Function.update s.task p task) (hsound : task.Sound)
    (hself : t.current = some p ↔ task.status = .running)
    (hcurrent : ∀ q, q ≠ p → (t.current = some q ↔ s.current = some q))
    (hlink : Relinked s t p task.link) : TaskInv t :=
  h.set htask hsound (h.running_set htask hself hcurrent) hlink.self hlink.others hlink.nodup

/-- A function of the tasks, when it is the same for the task that changes. -/
theorem update_same {α : Type*} {f : Task Obj → α} {task : Task Obj}
    (htask : t.task = Function.update s.task p task) (hf : f task = f (s.task p)) (q : Tid) :
    f (t.task q) = f (s.task q) := by
  rw [htask]
  by_cases hq : q = p
  · rw [hq, Function.update_self]
    exact hf
  · rw [Function.update_of_ne hq]

/-- The requests, when a task moves that has nothing to do with them. -/
theorem RequestInv.moves (h : RequestInv s) (hsame : SameRequests s t) {task : Task Obj}
    (htask : t.task = Function.update s.task p task) (hold : (s.task p).place.request = none)
    (hnew : task.place.request = none) : RequestInv t := by
  refine h.same hsame (update_same (f := fun a => a.place.request) htask (hnew.trans hold.symm)) ?_
  intro q d r hq hblocked
  have hne : q ≠ p := by
    rintro rfl
    rw [hold] at hq
    cases hq
  rw [htask, Function.update_of_ne hne]
  exact hblocked

variable [DecidableEq Obj]

omit [DecidableEq Tid] in
/-- The task is linked at one more list. -/
theorem TaskInv.push (h : TaskInv s) (hfree : ∀ w, p ∉ s.waiting w) {w : WaitList Obj}
    {tasks : List Tid} (hmem : ∀ q, q ∈ tasks ↔ q = p ∨ q ∈ s.waiting w) (hnodup : tasks.Nodup)
    {u : SignalTasks Obj Tid} (hwaiting : u.waiting = Function.update s.waiting w tasks) :
    Relinked s u p (some w) := by
  refine ⟨?_, ?_, ?_⟩
  · intro v
    rw [hwaiting]
    by_cases hv : v = w
    · subst hv
      rw [Function.update_self, hmem]
      exact ⟨fun _ => rfl, fun _ => .inl rfl⟩
    · rw [Function.update_of_ne hv]
      exact ⟨fun hin => absurd hin (hfree v), fun heq => absurd (Option.some.inj heq).symm hv⟩
  · intro v q hq
    rw [hwaiting]
    by_cases hv : v = w
    · subst hv
      rw [Function.update_self, hmem]
      exact ⟨fun hor => hor.resolve_left hq, .inr⟩
    · rw [Function.update_of_ne hv]
  · intro v
    rw [hwaiting]
    by_cases hv : v = w
    · subst hv
      rw [Function.update_self]
      exact hnodup
    · rw [Function.update_of_ne hv]
      exact h.nodup v

omit [DecidableEq Tid] in
/-- The task is taken from the list where it is. -/
theorem TaskInv.pull (h : TaskInv s) {w : WaitList Obj} (tasks : List Tid)
    (hlink : (s.task p).link = some w) (hmem : ∀ q, q ∈ tasks ↔ q ≠ p ∧ q ∈ s.waiting w)
    (hnodup : tasks.Nodup) {u : SignalTasks Obj Tid}
    (hwaiting : u.waiting = Function.update s.waiting w tasks) : Relinked s u p none := by
  refine ⟨?_, ?_, ?_⟩
  · intro v
    rw [hwaiting]
    refine ⟨?_, nofun⟩
    by_cases hv : v = w
    · subst hv
      rw [Function.update_self, hmem]
      exact fun hin => absurd rfl hin.1
    · rw [Function.update_of_ne hv, h.linked, hlink]
      exact fun heq => absurd (Option.some.inj heq).symm hv
  · intro v q hq
    rw [hwaiting]
    by_cases hv : v = w
    · subst hv
      rw [Function.update_self, hmem]
      exact ⟨And.right, fun hin => ⟨hq, hin⟩⟩
    · rw [Function.update_of_ne hv]
  · intro v
    rw [hwaiting]
    by_cases hv : v = w
    · subst hv
      rw [Function.update_self]
      exact hnodup
    · rw [Function.update_of_ne hv]
      exact h.nodup v

omit [DecidableEq Obj] [DecidableEq Tid] in
/-- The current task in a place where it is not in `MutexLock` is linked nowhere. -/
theorem SignalInv.current_free (h : SignalInv s) (hcur : s.current = some p)
    (hplace : ¬ (s.task p).place.InMutex) : (s.task p).status = .running ∧ ∀ w, p ∉ s.waiting w := by
  have hrun := (h.tasks.running p).mp hcur
  refine ⟨hrun, h.tasks.not_linked ?_ hplace⟩
  rw [hrun]
  nofun

omit [DecidableEq Tid] in
theorem mem_push_back {l : List Tid} (q : Tid) : q ∈ l ++ [p] ↔ q = p ∨ q ∈ l := by
  rw [List.mem_append, List.mem_singleton, or_comm]

omit [DecidableEq Tid] in
theorem nodup_push_back {l : List Tid} (hl : l.Nodup) (hp : p ∉ l) : (l ++ [p]).Nodup := by
  refine List.nodup_append.mpr ⟨hl, List.nodup_singleton p, ?_⟩
  intro a ha b hb
  rw [List.mem_singleton.mp hb]
  rintro rfl
  exact hp ha

omit [DecidableEq Obj] in
/-- The current task blocks where its place links it, from outside of the other parts. -/
theorem TaskInv.block (h : TaskInv s) (hcur : s.current = some p) (place : Place Obj)
    (hblocks : place.Blocks) {u : SignalTasks Obj Tid}
    (htask : u.task = Function.update s.task p
      { s.task p with status := .blocked, place, granted := false })
    (hcurrent : u.current = none) (hlink : Relinked s u p place.waitList) : TaskInv u := by
  refine h.goes htask ⟨fun _ => hblocks, nofun, fun hne => absurd rfl hne⟩ ?_ ?_ ?_
  · rw [hcurrent]
    exact ⟨nofun, nofun⟩
  · intro q hq
    rw [hcurrent, hcur]
    exact ⟨nofun, fun heq => absurd (Option.some.inj heq).symm hq⟩
  · rw [Task.link, if_pos (Or.inl rfl)]
    exact hlink

omit [DecidableEq Obj] in
/-- The current task leaves a place where it is not linked. -/
theorem TaskInv.leave (h : TaskInv s) (hcur : s.current = some p) {u : SignalTasks Obj Tid}
    {place : Place Obj} (hplace : place = .idle ∨ ∃ d r, place = .transfer d r)
    (htask : u.task = Function.update s.task p { s.task p with place })
    (hcurrent : u.current = s.current) (hlink : Relinked s u p none) : TaskInv u := by
  have hrun := (h.running p).mp hcur
  have hnone : place.waitList = none ∧ ¬ place.NeedsGrant := by
    rcases hplace with rfl | ⟨d, r, rfl⟩
    · exact ⟨rfl, id⟩
    · exact ⟨rfl, id⟩
  refine h.goes htask ⟨?_, ?_, fun _ hneeds => absurd hneeds hnone.2⟩ ?_ ?_ ?_
  · intro hblocked
    rw [hrun] at hblocked
    cases hblocked
  · intro hstopped
    rw [hrun] at hstopped
    cases hstopped
  · rw [hcurrent, hcur]
    exact ⟨fun _ => hrun, fun _ => rfl⟩
  · intro q _
    rw [hcurrent]
  · have hlinked : ({ s.task p with place } : Task Obj).link = none := by
      simp only [Task.link, hnone.1]
      split <;> rfl
    rw [hlinked]
    exact hlink

/-! ## Semaphores -/

/-- `__SemaphoreDown` of a task that is outside. -/
theorem SignalInv.semaphore_wait (h : SignalInv s) (hcur : s.current = some p)
    (hidle : (s.task p).place = .idle) {x : Sem Obj} {place : Place Obj} (hblocks : place.Blocks)
    (hlist : place.waitList = some (.semaphore x)) (hrequest : place.request = none)
    (hrole : ∀ a : Task Obj, a.place = place → a.status = .blocked → a.role = none) :
    SignalInv (s.semaphoreWait p x place) := by
  have hnot : ¬ (s.task p).place.InMutex := by
    rw [hidle]
    exact id
  obtain ⟨-, hfree⟩ := h.current_free hcur hnot
  have hold : (s.task p).role = none := by
    rw [Task.role, hidle]
  refine ⟨?_, ?_, ?_, ?_, h.reference, h.early, h.failed⟩
  · refine h.tasks.block hcur place hblocks rfl rfl ?_
    rw [hlist]
    exact h.tasks.push hfree mem_push_back (nodup_push_back (h.tasks.nodup _) (hfree _)) rfl
  · refine h.io.same (update_same rfl ?_) (fun _ => rfl) rfl rfl
    rw [hold]
    exact hrole _ rfl rfl
  · refine h.requests.moves ⟨rfl, rfl, rfl, rfl, rfl⟩ rfl ?_ hrequest
    rw [hidle]
    rfl
  · exact ⟨h.mutex.count, h.mutex.single, h.mutex.free⟩

omit [DecidableEq Tid] in
/-- The counter of a semaphore of its own. -/
theorem SignalInv.set_own (h : SignalInv s) (o : Obj) (n : Nat) :
    SignalInv { s with counter := Function.update s.counter (.own o) n } := by
  refine ⟨?_, ?_, ?_, ?_, h.reference, h.early, h.failed⟩
  · exact ⟨h.tasks.sound, h.tasks.running, h.tasks.linked, h.tasks.nodup⟩
  · refine h.io.same (fun _ => rfl) ?_ rfl rfl
    intro q
    have hne : Sem.lock q ≠ .own o := nofun
    show Function.update s.counter (.own o) n (.lock q) = _
    rw [Function.update_of_ne hne]
  · exact h.requests.same ⟨rfl, rfl, rfl, rfl, rfl⟩ (fun _ => rfl) fun _ _ _ _ hb => hb
  · exact ⟨h.mutex.count, h.mutex.single, h.mutex.free⟩

/-- `SemaphoreDown` of a task that is outside. -/
theorem SignalInv.semaphore_down (h : SignalInv s) (hcur : s.current = some p)
    (hidle : (s.task p).place = .idle) (o : Obj) : SignalInv (s.semaphoreDown p o) := by
  unfold SignalTasks.semaphoreDown
  split
  · exact h.set_own o _
  · refine h.semaphore_wait hcur hidle trivial rfl rfl ?_
    intro a ha _
    rw [Task.role, ha]

omit [DecidableEq Tid] [DecidableEq Obj] in
/-- The first waiter of a semaphore is blocked there. -/
theorem SignalInv.first_waiter (h : SignalInv s) {x : Sem Obj} {q : Tid} {rest : List Tid}
    (hwaiting : s.waiting (.semaphore x) = q :: rest) : (s.task q).status = .blocked ∧
      (s.task q).place.waitList = some (.semaphore x) := by
  have hlink : (s.task q).link = some (.semaphore x) := by
    rw [← h.tasks.linked, hwaiting]
    exact List.mem_cons_self
  rw [Task.link] at hlink
  split at hlink
  · next hor =>
      refine ⟨hor.resolve_right ?_, hlink⟩
      intro hmutex
      obtain ⟨m, hm⟩ := hmutex.eq
      rw [hm] at hlink
      cases hlink
  · cases hlink

theorem semaphore_up_nil {x : Sem Obj} (hwaiting : s.waiting (.semaphore x) = []) :
    s.semaphoreUp x = { s with counter := Function.update s.counter x (s.counter x + 1) } := by
  simp only [SignalTasks.semaphoreUp, hwaiting]

/-- `SemaphoreUp` with a waiter. -/
theorem semaphore_up_cons {x : Sem Obj} {q : Tid} {rest : List Tid}
    (hwaiting : s.waiting (.semaphore x) = q :: rest) (hblocked : (s.task q).status = .blocked) :
    s.semaphoreUp x = (s.link (.semaphore x) rest).setTask q
      { s.task q with status := .ready, granted := true } := by
  have hready : (s.task q).status ≠ .ready := by
    rw [hblocked]
    nofun
  have htask : (((s.link (.semaphore x) rest).grant q true).task q) =
      { s.task q with granted := true } := Function.update_self ..
  simp only [SignalTasks.semaphoreUp, hwaiting]
  rw [if_neg hready, SignalTasks.setStatus, htask]
  simp only [SignalTasks.grant, SignalTasks.setTask, SignalTasks.link, Function.update_idem]

/-- The tasks after `SemaphoreUp` with a waiter. -/
theorem TaskInv.semaphore_up (h : TaskInv s) {x : Sem Obj} {q : Tid} {rest : List Tid}
    (hwaiting : s.waiting (.semaphore x) = q :: rest) (hblocked : (s.task q).status = .blocked)
    (hlist : (s.task q).place.waitList = some (.semaphore x)) :
    TaskInv ((s.link (.semaphore x) rest).setTask q
      { s.task q with status := .ready, granted := true }) := by
  have hlink : (s.task q).link = some (.semaphore x) := by
    rw [Task.link, if_pos (Or.inl hblocked), hlist]
  have hnodup := h.nodup (.semaphore x)
  rw [hwaiting] at hnodup
  obtain ⟨hq, hrest⟩ := List.nodup_cons.mp hnodup
  refine h.goes (p := q) rfl ⟨nofun, nofun, fun _ _ => rfl⟩ ?_ (fun _ _ => Iff.rfl) ?_
  · show s.current = some q ↔ _
    rw [h.running, hblocked]
    exact ⟨nofun, nofun⟩
  · have hnone : ({ s.task q with status := .ready, granted := true } : Task Obj).link = none := by
      rw [Task.link, if_neg]
      rintro (hready | hmutex)
      · cases hready
      · obtain ⟨m, hm⟩ := hmutex.eq
        rw [show (s.task q).place = .mutexLock m from hm] at hlist
        cases hlist
    rw [hnone]
    refine h.pull rest hlink ?_ hrest rfl
    intro r
    rw [hwaiting, List.mem_cons]
    constructor
    · intro hr
      exact ⟨fun heq => hq (heq ▸ hr), .inr hr⟩
    · rintro ⟨hne, hr⟩
      exact hr.resolve_left hne

/-- `SemaphoreUp` of a semaphore of its own. -/
theorem SignalInv.semaphore_up (h : SignalInv s) (o : Obj) : SignalInv (s.semaphoreUp (.own o)) := by
  cases hwaiting : s.waiting (.semaphore (.own o)) with
  | nil =>
      rw [semaphore_up_nil hwaiting]
      exact h.set_own o _
  | cons q rest =>
      obtain ⟨hblocked, hlist⟩ := h.first_waiter hwaiting
      obtain ⟨o', hplace⟩ : ∃ o', (s.task q).place = .down o' := by
        cases hp : (s.task q).place with
        | down o' => exact ⟨o', rfl⟩
        | _ =>
            rw [hp] at hlist
            cases hlist
      rw [semaphore_up_cons hwaiting hblocked]
      refine ⟨h.tasks.semaphore_up hwaiting hblocked hlist, ?_, ?_, ?_, h.reference, h.early,
        h.failed⟩
      · refine h.io.same (update_same rfl ?_) (fun _ => rfl) rfl rfl
        simp only [Task.role, hplace]
      · refine h.requests.moves ⟨rfl, rfl, rfl, rfl, rfl⟩ (p := q) rfl ?_ ?_
        · rw [hplace]
          rfl
        · show (s.task q).place.request = none
          rw [hplace]
          rfl
      · exact ⟨h.mutex.count, h.mutex.single, h.mutex.free⟩

/-! ## Leaving a primitive -/

omit [DecidableEq Obj] in
/-- A task that has been woken leaves a primitive which is neither a lock nor a request. -/
theorem SignalInv.leave (h : SignalInv s) (hcur : s.current = some p)
    (hplace : ¬ (s.task p).place.InMutex) (hrole : (s.task p).role = none)
    (hrequest : (s.task p).place.request = none) {served : Bool} (hserved : served = true) :
    SignalInv (s.leave p served) := by
  obtain ⟨hrun, hfree⟩ := h.current_free hcur hplace
  have hlink : (s.task p).link = none := by
    rw [Task.link, if_neg]
    rintro (hblocked | hmutex)
    · rw [hrun] at hblocked
      cases hblocked
    · exact hplace hmutex
  refine ⟨?_, ?_, ?_, ?_, h.reference, ?_, h.failed⟩
  · refine h.tasks.leave hcur (.inl rfl) rfl rfl ?_
    rw [← hlink]
    exact h.tasks.relinked rfl
  · exact h.io.same (update_same rfl hrole.symm) (fun _ => rfl) rfl rfl
  · exact h.requests.moves ⟨rfl, rfl, rfl, rfl, rfl⟩ rfl hrequest rfl
  · exact ⟨h.mutex.count, h.mutex.single, h.mutex.free⟩
  · show (s.early || !served) = false
    rw [h.early, hserved]
    rfl

omit [DecidableEq Tid] [DecidableEq Obj] in
/-- A task that runs has been given what its place needs. -/
theorem SignalInv.granted (h : SignalInv s) (hcur : s.current = some p)
    (hneeds : (s.task p).place.NeedsGrant) : (s.task p).granted = true := by
  refine (h.tasks.sound p).granted ?_ hneeds
  rw [(h.tasks.running p).mp hcur]
  nofun

/-! ## The locks -/

omit [DecidableEq Obj] in
/-- What the parts in the locks are after a step of one task. -/
theorem role_update {task : Task Obj} (htask : t.task = Function.update s.task p task) (q : Tid) :
    (t.task q).role = if q = p then task.role else (s.task q).role := by
  rw [htask, Function.update_apply]
  split <;> rfl

/-- A task takes the lock, which nobody else owns. -/
theorem IoInv.take (h : IoInv s) {q : Obj} {task : Task Obj}
    (hothers : ∀ r b, r ≠ p → (s.task r).role ≠ some (q, b))
    (hrole : ∀ o, (s.task p).role ≠ some (o, true))
    (htask : t.task = Function.update s.task p task) (hnew : task.role = some (q, true))
    (hzero : t.counter (.lock q) = 0)
    (hcounter : ∀ o, o ≠ q → t.counter (.lock o) = s.counter (.lock o))
    (hholder : t.holder = Function.update s.holder q (some p))
    (hcount : t.holderReaptCount = Function.update s.holderReaptCount q 1) : IoInv t := by
  have hroles : ∀ r, (t.task r).role = if r = p then some (q, true) else (s.task r).role := by
    intro r
    rw [role_update htask, hnew]
  have hfrom : ∀ o r b, o ≠ q → (t.task r).role = some (o, b) → (s.task r).role = some (o, b) := by
    intro o r b hne hr
    rw [hroles] at hr
    split at hr
    · exact absurd (congrArg Prod.fst (Option.some.inj hr)).symm hne
    · exact hr
  have hthis : ∀ r b, (t.task r).role = some (q, b) → r = p := by
    intro r b hr
    by_contra hne
    rw [hroles, if_neg hne] at hr
    exact hothers r b hne hr
  constructor
  · intro o
    by_cases ho : o = q
    · rw [ho, hzero]
      exact Nat.zero_le 1
    · rw [hcounter o ho]
      exact h.counter o
  · intro o hone r b hr
    by_cases ho : o = q
    · rw [ho, hzero] at hone
      cases hone
    · rw [hcounter o ho] at hone
      exact h.free o hone r b (hfrom o r b ho hr)
  · intro o r r' b b' hr hr'
    by_cases ho : o = q
    · subst ho
      rw [hthis r b hr, hthis r' b' hr']
    · exact h.single o r r' b b' (hfrom o r b ho hr) (hfrom o r' b' ho hr')
  · intro o r
    rw [hholder]
    by_cases ho : o = q
    · subst ho
      rw [Function.update_self]
      constructor
      · intro heq
        rw [hroles, if_pos (Option.some.inj heq).symm]
      · intro hr
        rw [hthis r true hr]
    · rw [Function.update_of_ne ho, h.holder]
      constructor
      · intro hr
        rw [hroles, if_neg]
        · exact hr
        · rintro rfl
          exact hrole o hr
      · exact hfrom o r true ho
  · intro o
    rw [hholder, hcount]
    by_cases ho : o = q
    · subst ho
      rw [Function.update_self, Function.update_self, if_neg nofun]
    · rw [Function.update_of_ne ho, Function.update_of_ne ho]
      exact h.count o

/-- The owner gives the lock up. -/
theorem IoInv.give (h : IoInv s) {q : Obj} {b : Bool} {task : Task Obj}
    (hrole : (s.task p).role = some (q, b)) (htask : t.task = Function.update s.task p task)
    (hnew : task.role = none) (hcounter : ∀ o, t.counter (.lock o) = s.counter (.lock o))
    (hholder : t.holder = Function.update s.holder q none)
    (hcount : t.holderReaptCount = Function.update s.holderReaptCount q 0) :
    IoInv t ∧ t.counter (.lock q) = 0 ∧ ∀ r b, (t.task r).role ≠ some (q, b) := by
  have hroles : ∀ r, (t.task r).role = if r = p then none else (s.task r).role := by
    intro r
    rw [role_update htask, hnew]
  have hfrom : ∀ o r c, (t.task r).role = some (o, c) → r ≠ p ∧ (s.task r).role = some (o, c) := by
    intro o r c hr
    rw [hroles] at hr
    split at hr
    · cases hr
    · next hne => exact ⟨hne, hr⟩
  have hnone : ∀ r b, (t.task r).role ≠ some (q, b) := by
    intro r c hr
    obtain ⟨hne, hr⟩ := hfrom q r c hr
    exact hne (h.single q r p c b hr hrole)
  have hzero : s.counter (.lock q) = 0 := by
    have hle := h.counter q
    have hne : s.counter (.lock q) ≠ 1 := fun hone => h.free q hone p b hrole
    omega
  refine ⟨?_, (hcounter q).trans hzero, hnone⟩
  constructor
  · intro o
    rw [hcounter]
    exact h.counter o
  · intro o hone r c hr
    rw [hcounter] at hone
    exact h.free o hone r c (hfrom o r c hr).2
  · intro o r r' c c' hr hr'
    exact h.single o r r' c c' (hfrom o r c hr).2 (hfrom o r' c' hr').2
  · intro o r
    rw [hholder]
    by_cases ho : o = q
    · subst ho
      rw [Function.update_self]
      exact ⟨nofun, fun hr => absurd hr (hnone r true)⟩
    · rw [Function.update_of_ne ho, h.holder, hroles]
      by_cases hr : r = p
      · subst hr
        rw [if_pos rfl, hrole]
        exact ⟨fun heq => absurd (congrArg Prod.fst (Option.some.inj heq)).symm ho, nofun⟩
      · rw [if_neg hr]
  · intro o
    rw [hholder, hcount]
    by_cases ho : o = q
    · subst ho
      rw [Function.update_self, Function.update_self, if_pos rfl]
    · rw [Function.update_of_ne ho, Function.update_of_ne ho]
      exact h.count o

omit [DecidableEq Tid] in
/-- The permit of a lock that nobody owns goes back to it, or is taken from it. -/
theorem IoInv.permit (h : IoInv s) {q : Obj} {n : Nat} (hn : n ≤ 1)
    (hnone : ∀ r b, (s.task r).role ≠ some (q, b)) (htask : t.task = s.task)
    (hcounter : t.counter = Function.update s.counter (.lock q) n)
    (hholder : t.holder = s.holder) (hcount : t.holderReaptCount = s.holderReaptCount) :
    IoInv t := by
  have hcounter : ∀ o, t.counter (.lock o) = if o = q then n else s.counter (.lock o) := by
    intro o
    rw [hcounter]
    by_cases ho : o = q
    · rw [ho, Function.update_self, if_pos rfl]
    · have hne : Sem.lock o ≠ .lock q := fun heq => ho (Sem.lock.inj heq)
      rw [Function.update_of_ne hne, if_neg ho]
  constructor
  · intro o
    rw [hcounter]
    split
    · exact hn
    · exact h.counter o
  · intro o hone r b
    rw [htask]
    by_cases ho : o = q
    · rw [ho]
      exact hnone r b
    · rw [hcounter, if_neg ho] at hone
      exact h.free o hone r b
  · rw [htask]
    exact h.single
  · rw [htask, hholder]
    exact h.holder
  · rw [hholder, hcount]
    exact h.count

omit [DecidableEq Obj] in
/-- The permit goes to a task that was blocked for it. -/
theorem IoInv.grant (h : IoInv s) {q : Obj} {task : Task Obj} (hzero : s.counter (.lock q) = 0)
    (hnone : ∀ r b, (s.task r).role ≠ some (q, b)) (hrole : (s.task p).role = none)
    (htask : t.task = Function.update s.task p task) (hnew : task.role = some (q, false))
    (hcounter : ∀ o, t.counter (.lock o) = s.counter (.lock o)) (hholder : t.holder = s.holder)
    (hcount : t.holderReaptCount = s.holderReaptCount) : IoInv t := by
  have hroles : ∀ r, (t.task r).role = if r = p then some (q, false) else (s.task r).role := by
    intro r
    rw [role_update htask, hnew]
  have hthis : ∀ r b, (t.task r).role = some (q, b) → r = p := by
    intro r b hr
    by_contra hne
    rw [hroles, if_neg hne] at hr
    exact hnone r b hr
  have hfrom : ∀ o r b, o ≠ q → (t.task r).role = some (o, b) → (s.task r).role = some (o, b) := by
    intro o r b hne hr
    rw [hroles] at hr
    split at hr
    · exact absurd (congrArg Prod.fst (Option.some.inj hr)).symm hne
    · exact hr
  constructor
  · intro o
    rw [hcounter]
    exact h.counter o
  · intro o hone r b hr
    rw [hcounter] at hone
    have hne : o ≠ q := by
      rintro rfl
      rw [hzero] at hone
      cases hone
    exact h.free o hone r b (hfrom o r b hne hr)
  · intro o r r' b b' hr hr'
    by_cases ho : o = q
    · subst ho
      rw [hthis r b hr, hthis r' b' hr']
    · exact h.single o r r' b b' (hfrom o r b ho hr) (hfrom o r' b' ho hr')
  · intro o r
    rw [hholder, h.holder, hroles]
    by_cases hr : r = p
    · subst hr
      rw [if_pos rfl, hrole]
      exact ⟨nofun, fun heq => absurd (congrArg Prod.snd (Option.some.inj heq)) nofun⟩
    · rw [if_neg hr]
  · rw [hholder, hcount]
    exact h.count

/-! ## Io queues -/

omit [DecidableEq Tid] in
/-- The permit of a lock that nobody owns. -/
theorem SignalInv.permit (h : SignalInv s) {q : Obj} {n : Nat} (hn : n ≤ 1)
    (hnone : ∀ r b, (s.task r).role ≠ some (q, b)) :
    SignalInv { s with counter := Function.update s.counter (.lock q) n } := by
  refine ⟨?_, h.io.permit hn hnone rfl rfl rfl rfl, ?_, ?_, h.reference, h.early, h.failed⟩
  · exact ⟨h.tasks.sound, h.tasks.running, h.tasks.linked, h.tasks.nodup⟩
  · exact h.requests.same ⟨rfl, rfl, rfl, rfl, rfl⟩ (fun _ => rfl) fun _ _ _ _ hb => hb
  · exact ⟨h.mutex.count, h.mutex.single, h.mutex.free⟩

/-- `SemaphoreUp` of a lock that nobody owns. It does not touch a task that runs. -/
theorem SignalInv.lock_up (h : SignalInv s) {q : Obj} (hzero : s.counter (.lock q) = 0)
    (hnone : ∀ r b, (s.task r).role ≠ some (q, b)) : SignalInv (s.semaphoreUp (.lock q)) ∧
      (s.semaphoreUp (.lock q)).current = s.current ∧
      (s.current = some p → (s.semaphoreUp (.lock q)).task p = s.task p) := by
  cases hwaiting : s.waiting (.semaphore (.lock q)) with
  | nil =>
      rw [semaphore_up_nil hwaiting]
      exact ⟨h.permit (by omega) hnone, rfl, fun _ => rfl⟩
  | cons r rest =>
      obtain ⟨hblocked, hlist⟩ := h.first_waiter hwaiting
      obtain ⟨k, hplace⟩ : ∃ k, (s.task r).place = .syncLock q k := by
        cases hp : (s.task r).place with
        | syncLock q' k =>
            rw [hp] at hlist
            cases hlist
            exact ⟨k, rfl⟩
        | _ =>
            rw [hp] at hlist
            cases hlist
      rw [semaphore_up_cons hwaiting hblocked]
      refine ⟨⟨h.tasks.semaphore_up hwaiting hblocked hlist, ?_, ?_, ?_, h.reference, h.early,
        h.failed⟩, rfl, ?_⟩
      · refine h.io.grant (p := r) hzero hnone ?_ rfl ?_ (fun _ => rfl) rfl rfl
        · rw [Task.role, hplace, hblocked]
          rfl
        · simp only [Task.role, hplace]
          rfl
      · refine h.requests.moves ⟨rfl, rfl, rfl, rfl, rfl⟩ (p := r) rfl ?_ ?_
        · rw [hplace]
          rfl
        · show (s.task r).place.request = none
          rw [hplace]
          rfl
      · exact ⟨h.mutex.count, h.mutex.single, h.mutex.free⟩
      · intro hcur
        refine Function.update_of_ne ?_ ..
        rintro rfl
        rw [(h.tasks.running p).mp hcur] at hblocked
        cases hblocked

omit [DecidableEq Tid] [DecidableEq Obj] in
/-- The waiter of an io queue is blocked, and there is no other. -/
theorem SignalInv.io_waiter (h : SignalInv s) {q : Obj} {k : Side} {r : Tid} {rest : List Tid}
    (hwaiting : s.waiting (.waiter q k) = r :: rest) :
    (s.task r).status = .blocked ∧ (s.task r).place = .ioWait q k ∧ rest = [] := by
  have hfrom : ∀ a, a ∈ s.waiting (.waiter q k) →
      (s.task a).status = .blocked ∧ (s.task a).place = .ioWait q k := by
    intro a ha
    rw [h.tasks.linked, Task.link] at ha
    split at ha
    · next hor =>
        cases hp : (s.task a).place with
        | ioWait q' k' =>
            rw [hp] at ha hor
            cases ha
            exact ⟨hor.resolve_right id, rfl⟩
        | _ =>
            rw [hp] at ha
            cases ha
    · cases ha
  have hr := hfrom r (by rw [hwaiting]; exact List.mem_cons_self)
  refine ⟨hr.1, hr.2, ?_⟩
  cases hrest : rest with
  | nil => rfl
  | cons a l =>
      have ha := hfrom a (by rw [hwaiting, hrest]; exact .tail _ (.head _))
      have hrole : ∀ b, (s.task b).place = .ioWait q k → (s.task b).role = some (q, true) := by
        intro b hb
        rw [Task.role, hb]
      have heq := h.io.single q r a true true (hrole r hr.2) (hrole a ha.2)
      have hnodup := h.tasks.nodup (.waiter q k)
      rw [hwaiting, hrest, heq] at hnodup
      exact absurd List.mem_cons_self (List.nodup_cons.mp hnodup).1

/-- `IoQueueWakeUp` finds its waiter blocked. -/
theorem SignalInv.io_queue_wake_up (h : SignalInv s) (q : Obj) (k : Side) :
    SignalInv (s.ioQueueWakeUp q k) := by
  unfold SignalTasks.ioQueueWakeUp
  split
  · exact h
  · next r rest hwaiting =>
      obtain ⟨hblocked, hplace, hrest⟩ := h.io_waiter hwaiting
      have hlist : (s.task r).link = some (.waiter q k) := by
        rw [Task.link, if_pos (Or.inl hblocked), hplace]
        rfl
      have hunblock : s.taskUnblock r = s.setStatus r .ready := by
        simp only [SignalTasks.taskUnblock, hblocked]
      rw [hunblock]
      refine ⟨?_, ?_, ?_, ?_, h.reference, h.early, h.failed⟩
      · refine h.tasks.goes (p := r) rfl ⟨nofun, nofun, ?_⟩ ?_ (fun _ _ => Iff.rfl) ?_
        · intro _ hneeds
          rw [show ({ s.task r with status := .ready } : Task Obj).place = .ioWait q k from hplace]
            at hneeds
          exact hneeds.elim
        · show s.current = some r ↔ _
          rw [h.tasks.running, hblocked]
          exact ⟨nofun, nofun⟩
        · have hnone : ({ s.task r with status := .ready } : Task Obj).link = none := by
            rw [Task.link, if_neg]
            rintro (hready | hmutex)
            · cases hready
            · rw [show ({ s.task r with status := .ready } : Task Obj).place = .ioWait q k
                from hplace] at hmutex
              exact hmutex
          rw [hnone]
          refine h.tasks.pull [] hlist ?_ List.nodup_nil rfl
          intro a
          rw [hwaiting, hrest, List.mem_singleton]
          exact ⟨fun hin => absurd hin List.not_mem_nil, fun hin => absurd hin.2 hin.1⟩
      · refine h.io.same (update_same (p := r) rfl ?_) (fun _ => rfl) rfl rfl
        simp only [Task.role, hplace]
      · refine h.requests.moves ⟨rfl, rfl, rfl, rfl, rfl⟩ (p := r) rfl ?_ ?_
        · rw [hplace]
          rfl
        · show (s.task r).place.request = none
          rw [hplace]
          rfl
      · exact ⟨h.mutex.count, h.mutex.single, h.mutex.free⟩

/-- The current task has the permit of the lock, which nobody owns: it takes the lock and waits. -/
theorem SignalInv.locked (h : SignalInv s) (hcur : s.current = some p)
    (hidle : (s.task p).place = .idle) {q : Obj} (k : Side) (hzero : s.counter (.lock q) = 0)
    (hnone : ∀ r b, (s.task r).role ≠ some (q, b)) : SignalInv (s.locked p q k) := by
  have hnot : ¬ (s.task p).place.InMutex := by
    rw [hidle]
    exact id
  obtain ⟨-, hfree⟩ := h.current_free hcur hnot
  have hholder : s.holder q = none := by
    cases hh : s.holder q with
    | none => rfl
    | some r => exact absurd ((h.io.holder q r).mp hh) (hnone r true)
  have hempty : s.waiting (.waiter q k) = [] := by
    cases hw : s.waiting (.waiter q k) with
    | nil => rfl
    | cons r rest =>
        obtain ⟨-, hr, -⟩ := h.io_waiter hw
        refine absurd ?_ (hnone r true)
        rw [Task.role, hr]
  have hreapt : s.holderReaptCount q = 0 := by
    rw [h.io.count, if_pos hholder]
  rw [SignalTasks.locked, if_pos hreapt, SignalTasks.ioQueueWait]
  rw [if_pos hempty]
  refine ⟨?_, ?_, ?_, ?_, h.reference, h.early, h.failed⟩
  · refine h.tasks.block hcur (.ioWait q k) trivial rfl rfl ?_
    refine h.tasks.push hfree ?_ (List.nodup_singleton p) rfl
    intro r
    rw [hempty, List.mem_singleton]
    exact ⟨.inl, fun hor => hor.resolve_right List.not_mem_nil⟩
  · refine h.io.take (q := q) (fun r b _ => hnone r b) ?_ rfl rfl hzero (fun _ _ => rfl) rfl rfl
    intro o
    rw [Task.role, hidle]
    nofun
  · refine h.requests.moves ⟨rfl, rfl, rfl, rfl, rfl⟩ rfl ?_ rfl
    rw [hidle]
    rfl
  · exact ⟨h.mutex.count, h.mutex.single, h.mutex.free⟩

/-- `SyncLock` and `IoQueueWait` of a task that is outside. -/
theorem SignalInv.sync_lock (h : SignalInv s) (hcur : s.current = some p)
    (hidle : (s.task p).place = .idle) (q : Obj) (k : Side) : SignalInv (s.syncLock p q k) := by
  have hrole : ∀ o b, (s.task p).role ≠ some (o, b) := by
    intro o b
    rw [Task.role, hidle]
    nofun
  unfold SignalTasks.syncLock
  split
  · next hholder => exact absurd ((h.io.holder q p).mp hholder) (hrole q true)
  · split
    · next hpos =>
        have hone : s.counter (.lock q) = 1 := by
          have := h.io.counter q
          omega
        have hnone := h.io.free q hone
        refine (h.permit (n := s.counter (.lock q) - 1) (by omega) hnone).locked hcur hidle k ?_ hnone
        show Function.update s.counter (.lock q) (s.counter (.lock q) - 1) (.lock q) = 0
        rw [Function.update_self, hone]
    · refine h.semaphore_wait hcur hidle trivial rfl rfl ?_
      intro a ha hblocked
      simp only [Task.role, ha, hblocked]
      rfl

/-- `IoQueuePut` or `IoQueueGet` of a task that is outside, from the test of its loop on. -/
theorem SignalInv.io_queue (h : SignalInv s) (hcur : s.current = some p)
    (hidle : (s.task p).place = .idle) (q : Obj) (k : Side) : SignalInv (s.ioQueue p q k) := by
  unfold SignalTasks.ioQueue
  split
  · exact h.sync_lock hcur hidle q k
  · have hmove : SignalInv (s.move q k) := by
      have hother : ∀ size : Obj → Nat, SignalInv { s with size } := by
        intro size
        refine ⟨?_, ?_, ?_, ?_, h.reference, h.early, h.failed⟩
        · exact ⟨h.tasks.sound, h.tasks.running, h.tasks.linked, h.tasks.nodup⟩
        · exact h.io.same (fun _ => rfl) (fun _ => rfl) rfl rfl
        · exact h.requests.same ⟨rfl, rfl, rfl, rfl, rfl⟩ (fun _ => rfl) fun _ _ _ _ hb => hb
        · exact ⟨h.mutex.count, h.mutex.single, h.mutex.free⟩
      cases k with
      | put => exact hother _
      | get => exact hother _
    exact hmove.io_queue_wake_up q k.other

/-- A task that has owned a lock leaves it behind, with its permit still taken. -/
theorem SignalInv.leave_lock (h : SignalInv s) (hcur : s.current = some p) {q : Obj} {b : Bool}
    (hrole : (s.task p).role = some (q, b)) :
    SignalInv { s.leave p true with
      holder := Function.update s.holder q none
      holderReaptCount := Function.update s.holderReaptCount q 0 } ∧
      s.counter (.lock q) = 0 ∧ ∀ r c, ((s.leave p true).task r).role ≠ some (q, c) := by
  obtain ⟨hplace, hrequest⟩ : ¬ (s.task p).place.InMutex ∧ (s.task p).place.request = none := by
    rw [Task.role] at hrole
    cases hp : (s.task p).place with
    | ioWait q' k => exact ⟨id, rfl⟩
    | syncLock q' k => exact ⟨id, rfl⟩
    | _ =>
        rw [hp] at hrole
        cases hrole
  obtain ⟨hrun, hfree⟩ := h.current_free hcur hplace
  have hlink : (s.task p).link = none := by
    rw [Task.link, if_neg]
    rintro (hblocked | hmutex)
    · rw [hrun] at hblocked
      cases hblocked
    · exact hplace hmutex
  obtain ⟨hio, hzero, hnone⟩ := h.io.give (t := { s.leave p true with
      holder := Function.update s.holder q none
      holderReaptCount := Function.update s.holderReaptCount q 0 }) hrole rfl rfl (fun _ => rfl)
      rfl rfl
  refine ⟨⟨?_, hio, ?_, ?_, h.reference, ?_, h.failed⟩, hzero, hnone⟩
  · refine h.tasks.leave hcur (.inl rfl) rfl rfl ?_
    rw [← hlink]
    exact h.tasks.relinked rfl
  · exact h.requests.moves ⟨rfl, rfl, rfl, rfl, rfl⟩ rfl hrequest rfl
  · exact ⟨h.mutex.count, h.mutex.single, h.mutex.free⟩
  · show (s.early || !true) = false
    rw [h.early]
    rfl

omit [DecidableEq Obj] in
theorem leave_place (s : SignalTasks Obj Tid) (p : Tid) (served : Bool) :
    ((s.leave p served).task p).place = .idle := by
  show (Function.update s.task p { s.task p with place := .idle } p).place = .idle
  rw [Function.update_self]

/-- A task that has been given the permit of a lock goes on behind `SemaphoreDown`. -/
theorem SignalInv.resume_lock (h : SignalInv s) (hcur : s.current = some p) {q : Obj} {k : Side}
    (hplace : (s.task p).place = .syncLock q k) :
    SignalInv ((s.leave p (s.task p).granted).locked p q k) := by
  have hrun := (h.tasks.running p).mp hcur
  have hrole : (s.task p).role = some (q, false) := by
    simp only [Task.role, hplace, hrun]
    rfl
  have hgranted : (s.task p).granted = true := by
    refine h.granted hcur ?_
    rw [hplace]
    trivial
  have hholder : s.holder q = none := by
    cases hh : s.holder q with
    | none => rfl
    | some r =>
        have hr := (h.io.holder q r).mp hh
        rw [h.io.single q r p true false hr hrole, hrole] at hr
        cases hr
  have hcount : s.holderReaptCount q = 0 := by
    rw [h.io.count, if_pos hholder]
  obtain ⟨hleft, hzero, hnone⟩ := h.leave_lock hcur hrole
  rw [← hholder, Function.update_eq_self, ← hcount, Function.update_eq_self] at hleft
  rw [hgranted]
  refine SignalInv.locked hleft hcur ?_ k hzero hnone
  exact leave_place s p true

/-- A task that has been woken in `IoQueueWait` goes on. -/
theorem SignalInv.resume_wait (h : SignalInv s) (hcur : s.current = some p) {q : Obj} {k : Side}
    (hplace : (s.task p).place = .ioWait q k) :
    SignalInv (((s.leave p true).syncUnlock p q).ioQueue p q k) := by
  have hrole : (s.task p).role = some (q, true) := by
    rw [Task.role, hplace]
  have hholder : s.holder q = some p := (h.io.holder q p).mpr hrole
  have hcount : s.holderReaptCount q = 1 := by
    rw [h.io.count, hholder]
    rfl
  obtain ⟨hleft, hzero, hnone⟩ := h.leave_lock hcur hrole
  have hunlock : (s.leave p true).syncUnlock p q = { s.leave p true with
      holder := Function.update s.holder q none
      holderReaptCount := Function.update s.holderReaptCount q 0 }.semaphoreUp (.lock q) := by
    have hholder' : (s.leave p true).holder q = some p := hholder
    have hcount' : (s.leave p true).holderReaptCount q = 1 := hcount
    rw [SignalTasks.syncUnlock, if_pos hholder', hcount', if_neg (by decide), if_pos rfl]
    rfl
  obtain ⟨hup, hcurrent, htask⟩ := hleft.lock_up (p := p) hzero hnone
  rw [hunlock]
  refine hup.io_queue (hcurrent.trans hcur) ?_ q k
  rw [htask hcur]
  exact leave_place s p true

/-! ## Mutexes -/

omit [DecidableEq Tid] in
/-- A task has the mutex, which was free. -/
theorem MutexInv.own (h : MutexInv s) {m : Obj} {n : Int} (hn : n ≤ 0) (hfree : s.owners m = [])
    (hcount : t.count = Function.update s.count m n)
    (howners : t.owners = Function.update s.owners m (p :: s.owners m)) : MutexInv t := by
  constructor
  · intro o
    rw [hcount, Function.update_apply]
    split
    · omega
    · exact h.count o
  · intro o
    rw [howners, Function.update_apply]
    split
    · rw [hfree]
      exact Nat.le_refl 1
    · exact h.single o
  · intro o
    rw [hcount, howners, Function.update_apply, Function.update_apply]
    split
    · intro hone
      omega
    · exact h.free o

omit [DecidableEq Tid] in
/-- The count of a mutex becomes negative. -/
theorem MutexInv.lower (h : MutexInv s) {m : Obj} {n : Int} (hn : n ≤ 0)
    (hcount : t.count = Function.update s.count m n) (howners : t.owners = s.owners) :
    MutexInv t := by
  constructor
  · intro o
    rw [hcount, Function.update_apply]
    split
    · omega
    · exact h.count o
  · rw [howners]
    exact h.single
  · intro o
    rw [hcount, howners, Function.update_apply]
    split
    · intro hone
      omega
    · exact h.free o

/-- The current task, linked or not, gets the mutex. -/
theorem SignalInv.own (h : SignalInv s) (hcur : s.current = some p) {m : Obj} {n : Int} (hn : n ≤ 0)
    (hplace : (s.task p).place = .idle ∨ (s.task p).place = .mutexLock m)
    (hone : s.count m = 1) (tasks : WaitList Obj → List Tid)
    (hlink : Relinked s { s with waiting := tasks } p none) :
    SignalInv ({ s with count := Function.update s.count m n, waiting := tasks }.own p m) := by
  have hfree := h.mutex.free m hone
  have hnone : (s.task p).role = none ∧ (s.task p).place.request = none := by
    rcases hplace with hp | hp
    · rw [Task.role, hp]
      exact ⟨rfl, rfl⟩
    · rw [Task.role, hp]
      exact ⟨rfl, rfl⟩
  refine ⟨?_, ?_, ?_, ?_, h.reference, ?_, h.failed⟩
  · exact h.tasks.leave hcur (.inl rfl) rfl rfl ⟨hlink.self, hlink.others, hlink.nodup⟩
  · exact h.io.same (update_same rfl hnone.1.symm) (fun _ => rfl) rfl rfl
  · exact h.requests.moves ⟨rfl, rfl, rfl, rfl, rfl⟩ rfl hnone.2 rfl
  · exact h.mutex.own hn hfree rfl rfl
  · show (s.early || !decide (s.owners m = [])) = false
    rw [h.early, hfree]
    rfl

/-- The current task blocks in `MutexLock`. -/
theorem SignalInv.mutex_block (h : SignalInv s) (hcur : s.current = some p) {m : Obj}
    (hplace : (s.task p).place = .idle ∨ (s.task p).place = .mutexLock m)
    (tasks : WaitList Obj → List Tid)
    (hlink : Relinked s { s with waiting := tasks } p (some (.mutex m))) :
    SignalInv ({ s with
      count := Function.update s.count m (-1), waiting := tasks }.block p (.mutexLock m)) := by
  have hnone : (s.task p).role = none ∧ (s.task p).place.request = none := by
    rcases hplace with hp | hp
    · rw [Task.role, hp]
      exact ⟨rfl, rfl⟩
    · rw [Task.role, hp]
      exact ⟨rfl, rfl⟩
  refine ⟨?_, ?_, ?_, ?_, h.reference, h.early, h.failed⟩
  · exact h.tasks.block hcur (.mutexLock m) trivial rfl rfl
      ⟨hlink.self, hlink.others, hlink.nodup⟩
  · exact h.io.same (update_same rfl hnone.1.symm) (fun _ => rfl) rfl rfl
  · exact h.requests.moves ⟨rfl, rfl, rfl, rfl, rfl⟩ rfl hnone.2 rfl
  · exact h.mutex.lower (n := -1) (by decide) rfl rfl

/-- The loop of `__MutexLock` of a task that is linked. -/
theorem SignalInv.mutex_try (h : SignalInv s) (hcur : s.current = some p) {m : Obj}
    (hplace : (s.task p).place = .mutexLock m) : SignalInv (s.mutexTry p m) := by
  have hlink : (s.task p).link = some (.mutex m) := by
    rw [Task.link, if_pos, hplace]
    · rfl
    · right
      rw [hplace]
      trivial
  have hnodup := h.tasks.nodup (.mutex m)
  unfold SignalTasks.mutexTry
  split
  · next hone =>
      refine h.own hcur ?_ (.inr hplace) hone _ ?_
      · split <;> decide
      · refine h.tasks.pull ((s.waiting (.mutex m)).erase p) hlink ?_ (hnodup.erase p) rfl
        intro q
        exact hnodup.mem_erase_iff
  · refine h.mutex_block hcur (.inr hplace) s.waiting ?_
    rw [← hlink]
    exact h.tasks.relinked rfl

/-- `MutexLock` of a task that is outside. -/
theorem SignalInv.mutex_lock (h : SignalInv s) (hcur : s.current = some p)
    (hidle : (s.task p).place = .idle) (m : Obj) : SignalInv (s.mutexLock p m) := by
  have hnot : ¬ (s.task p).place.InMutex := by
    rw [hidle]
    exact id
  obtain ⟨-, hfree⟩ := h.current_free hcur hnot
  have hle := h.mutex.count m
  unfold SignalTasks.mutexLock
  split
  · next hfast =>
      refine h.own hcur (n := s.count m - 1) (by omega) (.inl hidle) (by omega) s.waiting ?_
      exact ⟨fun w => ⟨fun hin => absurd hin (hfree w), nofun⟩, fun _ _ _ => Iff.rfl, h.tasks.nodup⟩
  · next hslow =>
      have hne : Function.update s.count m (s.count m - 1) m ≠ 1 := by
        rw [Function.update_self]
        omega
      rw [SignalTasks.mutexTry, if_neg]
      · simp only [SignalTasks.link, Function.update_idem]
        refine h.mutex_block hcur (.inl hidle) _ ?_
        exact h.tasks.push hfree mem_push_back (nodup_push_back (h.tasks.nodup _) (hfree _)) rfl
      · exact hne

/-- `MutexUnlock` of an owner. -/
theorem SignalInv.mutex_unlock (h : SignalInv s) {m : Obj} (hown : p ∈ s.owners m) :
    SignalInv (s.mutexUnlock p m) := by
  have hle := h.mutex.count m
  have hsingle := h.mutex.single m
  have hone : s.count m ≠ 1 := by
    intro hone
    rw [h.mutex.free m hone] at hown
    cases hown
  have hempty : (s.owners m).erase p = [] := by
    have hlength := List.length_erase_of_mem hown
    exact List.eq_nil_of_length_eq_zero (by omega)
  have hbase : ∀ n : Int, n ≤ 1 → SignalInv { s with
      count := Function.update s.count m n
      owners := Function.update s.owners m ((s.owners m).erase p) } := by
    intro n hn
    refine ⟨?_, ?_, ?_, ⟨?_, ?_, ?_⟩, h.reference, h.early, h.failed⟩
    · exact ⟨h.tasks.sound, h.tasks.running, h.tasks.linked, h.tasks.nodup⟩
    · exact h.io.same (fun _ => rfl) (fun _ => rfl) rfl rfl
    · exact h.requests.same ⟨rfl, rfl, rfl, rfl, rfl⟩ (fun _ => rfl) fun _ _ _ _ hb => hb
    · intro o
      show Function.update s.count m n o ≤ 1
      rw [Function.update_apply]
      split
      · exact hn
      · exact h.mutex.count o
    · intro o
      show (Function.update s.owners m ((s.owners m).erase p) o).length ≤ 1
      rw [Function.update_apply]
      split
      · rw [hempty]
        exact Nat.zero_le 1
      · exact h.mutex.single o
    · intro o
      show Function.update s.count m n o = 1 →
        Function.update s.owners m ((s.owners m).erase p) o = []
      rw [Function.update_apply, Function.update_apply]
      split
      · exact fun _ => hempty
      · exact h.mutex.free o
  have hcount : (if s.count m + 1 > 1 then 1 else s.count m + 1) ≤ 1 := by
    split <;> omega
  have hleft := hbase _ hcount
  unfold SignalTasks.mutexUnlock
  simp only []
  split
  · exact hleft
  · split
    · exact hleft
    · next q rest hwaiting =>
        -- the first waiter is in `MutexLock`, blocked or not
        refine hleft.touched (task_wake_up_touched True fun _ => trivial) fun _ _ => ?_
        show (s.task q).place.InMutex
        have hlink : (s.task q).link = some (.mutex m) := by
          rw [← h.tasks.linked, hwaiting]
          exact List.mem_cons_self
        rw [Task.link] at hlink
        split at hlink
        · cases hp : (s.task q).place with
          | mutexLock m' => trivial
          | _ =>
              rw [hp] at hlink
              cases hlink
        · cases hlink

end

end XBook.Signals
