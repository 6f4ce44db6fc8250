import XBook.Kernel.Schedule
import Mathlib.Data.List.Perm.Basic

/-!
# The scheduler invariant

One task runs, and the ready list holds the ready tasks. `QueueInv` is what every part of
`Schedule` keeps, with nothing said about the running task; `SchedInv` adds that between two
calls the current task is the only running one.
-/

namespace XBook.Sched

open Transition

variable {Tid : Type*} [DecidableEq Tid]

/-- The ready list holds every ready task once, and the main thread can be woken. -/
structure QueueInv (s : SchedState Tid) : Prop where
  current : s.current ∈ s.taskGlobalList
  known : ∀ t ∈ s.taskReadyList, t ∈ s.taskGlobalList
  ready : ∀ t ∈ s.taskGlobalList, t ∈ s.taskReadyList ↔ s.status t = .ready
  once : s.taskReadyList.Nodup
  main : s.mainThread ∈ s.taskGlobalList
  alive : s.status s.mainThread ≠ .zombie ∧ s.status s.mainThread ≠ .died

/-- The invariant between two calls. -/
structure SchedInv (s : SchedState Tid) : Prop extends QueueInv s where
  running : ∀ t ∈ s.taskGlobalList, s.status t = .running ↔ t = s.current

section

variable {s t : SchedState Tid}

theorem set_status_status (s : SchedState Tid) (task u : Tid) (status : TaskStatus) :
    (s.setStatus task status).status u = if u = task then status else s.status u := by
  show Function.update s.status task status u = _
  rw [Function.update_apply]

/-- A task that was not ready becomes ready and enters the ready list, at either end. -/
theorem QueueInv.enqueue (h : QueueInv s) {task : Tid} (hmem : task ∈ s.taskGlobalList)
    (hstatus : s.status task ≠ .ready) {list : List Tid}
    (hlist : list.Perm (task :: s.taskReadyList)) :
    QueueInv { s.setStatus task .ready with taskReadyList := list } := by
  have hout : task ∉ s.taskReadyList := fun hin => hstatus ((h.ready task hmem).mp hin)
  refine ⟨h.current, ?_, ?_, ?_, h.main, ?_⟩
  · intro u hu
    rcases List.mem_cons.mp (hlist.mem_iff.mp hu) with heq | hold
    · rw [heq]
      exact hmem
    · exact h.known u hold
  · intro u hu
    show u ∈ list ↔ (s.setStatus task .ready).status u = .ready
    rw [hlist.mem_iff, set_status_status, List.mem_cons]
    by_cases heq : u = task
    · simp [heq]
    · simpa [heq] using h.ready u hu
  · exact hlist.nodup_iff.mpr (List.nodup_cons.mpr ⟨hout, h.once⟩)
  · show (s.setStatus task .ready).status s.mainThread ≠ .zombie ∧
      (s.setStatus task .ready).status s.mainThread ≠ .died
    rw [set_status_status]
    split
    · exact ⟨nofun, nofun⟩
    · exact h.alive

/-- A task that is not on the ready list changes its status to one that is not ready. -/
theorem QueueInv.set_status (h : QueueInv s) {task : Tid} {status : TaskStatus}
    (hout : task ∉ s.taskReadyList) (hstatus : status ≠ .ready)
    (halive : task = s.mainThread → status ≠ .zombie ∧ status ≠ .died) :
    QueueInv (s.setStatus task status) := by
  refine ⟨h.current, h.known, ?_, h.once, h.main, ?_⟩
  · intro u hu
    show u ∈ s.taskReadyList ↔ (s.setStatus task status).status u = .ready
    rw [set_status_status]
    by_cases heq : u = task
    · simp [heq, hout, hstatus]
    · simpa [heq] using h.ready u hu
  · show (s.setStatus task status).status s.mainThread ≠ .zombie ∧
      (s.setStatus task status).status s.mainThread ≠ .died
    rw [set_status_status]
    split
    · next heq => exact halive heq.symm
    · exact h.alive

/-! ## The functions -/

/-- `TaskUnblock` of a task that may be woken makes it ready. -/
theorem QueueInv.task_unblock (h : QueueInv s) {task : Tid} (hmem : task ∈ s.taskGlobalList)
    (hstatus : s.status task = .blocked ∨ s.status task = .waiting ∨ s.status task = .stopped) :
    ∃ t, s.taskUnblock task = some t ∧ QueueInv t ∧ t.taskReadyList ≠ [] ∧
      t.status = Function.update s.status task .ready ∧
      t.current = s.current ∧ t.taskGlobalList = s.taskGlobalList := by
  have hready : s.status task ≠ .ready := by
    rcases hstatus with heq | heq | heq <;> rw [heq] <;> exact nofun
  have hout : task ∉ s.taskReadyList := fun hin => hready ((h.ready task hmem).mp hin)
  refine ⟨{ s.setStatus task .ready with taskReadyList := task :: s.taskReadyList },
    ?_, h.enqueue hmem hready (List.Perm.refl _), nofun, rfl, rfl, rfl⟩
  rw [SchedState.taskUnblock, if_pos hstatus, if_pos hready, if_neg hout]

/-- No task runs. -/
def NoneRuns (s : SchedState Tid) : Prop := ∀ t ∈ s.taskGlobalList, s.status t ≠ .running

/-- After the first part of `Schedule` no task runs. -/
theorem QueueInv.requeue (h : QueueInv s)
    (hrunning : ∀ t ∈ s.taskGlobalList, s.status t = .running → t = s.current) :
    QueueInv s.requeue ∧ NoneRuns s.requeue ∧ s.requeue.taskGlobalList = s.taskGlobalList := by
  unfold SchedState.requeue
  split
  · next hcurrent =>
      have hready : s.status s.current ≠ .ready := by
        rw [hcurrent]
        exact nofun
      refine ⟨h.enqueue h.current hready (List.perm_append_singleton ..), ?_, rfl⟩
      intro t ht
      show (s.setStatus s.current .ready).status t ≠ .running
      rw [set_status_status]
      split
      · exact nofun
      · next hne => exact fun hrun => hne (hrunning t ht hrun)
  · next hcurrent =>
      refine ⟨h, ?_, rfl⟩
      intro t ht hrun
      have heq := hrunning t ht hrun
      rw [heq] at hrun
      exact hcurrent hrun

/-- When no task runs and none is ready, the main thread is asleep and can be woken. -/
theorem QueueInv.unblock_idle (h : QueueInv s) (hnone : NoneRuns s) :
    ∃ t, s.unblockIdle = some t ∧ QueueInv t ∧ NoneRuns t ∧ t.taskReadyList ≠ [] ∧
      t.taskGlobalList = s.taskGlobalList := by
  unfold SchedState.unblockIdle
  split
  · next hempty =>
      have hasleep : s.status s.mainThread = .blocked ∨ s.status s.mainThread = .waiting ∨
          s.status s.mainThread = .stopped := by
        have hready : s.status s.mainThread ≠ .ready := by
          intro heq
          have hin := (h.ready _ h.main).mpr heq
          rw [hempty] at hin
          cases hin
        have hrunning := hnone _ h.main
        obtain ⟨hzombie, hdied⟩ := h.alive
        cases hstatus : s.status s.mainThread with
        | ready => exact absurd hstatus hready
        | running => exact absurd hstatus hrunning
        | blocked => exact .inl rfl
        | waiting => exact .inr (.inl rfl)
        | stopped => exact .inr (.inr rfl)
        | zombie => exact absurd hstatus hzombie
        | died => exact absurd hstatus hdied
      obtain ⟨t, hunblock, ht, hne, hstatus, -, hlist⟩ := h.task_unblock h.main hasleep
      refine ⟨t, hunblock, ht, ?_, hne, hlist⟩
      intro u hu
      rw [hstatus, Function.update_apply]
      split
      · exact nofun
      · rw [hlist] at hu
        exact hnone u hu
  · next hempty => exact ⟨s, rfl, h, hnone, hempty, rfl⟩

/-- The last part of `Schedule` takes a task off the ready list, which is then the only running
one. -/
theorem QueueInv.switch_next (h : QueueInv s) (hnone : NoneRuns s) (hne : s.taskReadyList ≠ []) :
    ∃ t, s.switchNext = some t ∧ SchedInv t ∧ t.taskGlobalList = s.taskGlobalList := by
  obtain ⟨next, rest, hcons⟩ := List.exists_cons_of_ne_nil hne
  have hnext : next ∈ s.taskGlobalList := h.known next (by rw [hcons]; exact List.mem_cons_self)
  have hnodup : next ∉ rest ∧ rest.Nodup := List.nodup_cons.mp (hcons ▸ h.once)
  have hstep : s.switchNext = some
      { s.setStatus next .running with taskReadyList := rest, current := next } := by
    unfold SchedState.switchNext
    rw [hcons]
  refine ⟨_, hstep, ⟨⟨hnext, ?_, ?_, hnodup.2, h.main, ?_⟩, ?_⟩, rfl⟩
  · intro t ht
    exact h.known t (by rw [hcons]; exact List.mem_cons_of_mem _ ht)
  · intro t ht
    show t ∈ rest ↔ (s.setStatus next .running).status t = .ready
    rw [set_status_status]
    have hold := h.ready t ht
    rw [hcons, List.mem_cons] at hold
    by_cases heq : t = next
    · simp [heq, hnodup.1]
    · simpa [heq] using hold
  · show (s.setStatus next .running).status s.mainThread ≠ .zombie ∧
      (s.setStatus next .running).status s.mainThread ≠ .died
    rw [set_status_status]
    split
    · exact ⟨nofun, nofun⟩
    · exact h.alive
  · intro t ht
    show (s.setStatus next .running).status t = .running ↔ t = next
    rw [set_status_status]
    by_cases heq : t = next
    · simp [heq]
    · simpa [heq] using hnone t ht

/-- `Schedule` finds a task to run. -/
theorem QueueInv.schedule (h : QueueInv s)
    (hrunning : ∀ t ∈ s.taskGlobalList, s.status t = .running → t = s.current) :
    ∃ t, s.schedule = some t ∧ SchedInv t := by
  obtain ⟨hr, hnone, -⟩ := h.requeue hrunning
  obtain ⟨q, hq, hqinv, hqnone, hne, -⟩ := hr.unblock_idle hnone
  obtain ⟨t, ht, htinv, -⟩ := hqinv.switch_next hqnone hne
  refine ⟨t, ?_, htinv⟩
  rw [SchedState.schedule, hq]
  exact ht

/-- What becomes of a task that `Schedule` does not wake: it stays asleep, or runs in its turn. -/
def Turns (old new : TaskStatus) : Prop :=
  new = old ∨ (old = .ready ∨ old = .running) ∧ (new = .ready ∨ new = .running)

/-- `Schedule` wakes nobody but the main thread. -/
theorem QueueInv.schedule_turns (h : QueueInv s)
    (hrunning : ∀ t ∈ s.taskGlobalList, s.status t = .running → t = s.current)
    (hstep : s.schedule = some t) :
    t.mainThread = s.mainThread ∧ t.taskGlobalList = s.taskGlobalList ∧
      ∀ u ∈ s.taskGlobalList, u ≠ s.mainThread → Turns (s.status u) (t.status u) := by
  have hrequeue : s.requeue.mainThread = s.mainThread ∧ s.requeue.taskGlobalList = s.taskGlobalList ∧
      ∀ u, Turns (s.status u) (s.requeue.status u) := by
    unfold SchedState.requeue
    split
    · next hcurrent =>
        refine ⟨rfl, rfl, fun u => ?_⟩
        show Turns (s.status u) ((s.setStatus s.current .ready).status u)
        rw [set_status_status]
        split
        · next heq =>
            rw [heq]
            exact Or.inr ⟨Or.inr hcurrent, Or.inl rfl⟩
        · exact Or.inl rfl
    · exact ⟨rfl, rfl, fun u => Or.inl rfl⟩
  obtain ⟨hmain, hlist, hturns⟩ := hrequeue
  obtain ⟨hqueue, -, -⟩ := h.requeue hrunning
  obtain ⟨q, hidle, hnext⟩ := Option.bind_eq_some_iff.mp hstep
  have hq : q.mainThread = s.mainThread ∧ q.taskGlobalList = s.taskGlobalList ∧
      (∀ u ∈ q.taskReadyList, u ∈ s.taskGlobalList → q.status u = .ready) ∧
      ∀ u, u ≠ s.mainThread → q.status u = s.requeue.status u := by
    unfold SchedState.unblockIdle at hidle
    split at hidle
    · next hempty =>
        unfold SchedState.taskUnblock at hidle
        split at hidle
        · split at hidle
          · split at hidle
            · cases hidle
            · cases hidle
              refine ⟨hmain, hlist, fun u hu _ => ?_, fun u hu => ?_⟩
              · replace hu : u ∈ s.requeue.mainThread :: s.requeue.taskReadyList := hu
                rw [hempty, List.mem_singleton] at hu
                show (s.requeue.setStatus s.requeue.mainThread .ready).status u = .ready
                rw [set_status_status, if_pos hu]
              · show (s.requeue.setStatus s.requeue.mainThread .ready).status u = _
                rw [set_status_status, hmain, if_neg hu]
          · cases hidle
            refine ⟨hmain, hlist, fun u hu hin => ?_, fun u _ => rfl⟩
            rw [← hlist] at hin
            exact (hqueue.ready u hin).mp hu
        · cases hidle
    · cases hidle
      refine ⟨hmain, hlist, fun u hu hin => ?_, fun u _ => rfl⟩
      rw [← hlist] at hin
      exact (hqueue.ready u hin).mp hu
  obtain ⟨hmain', hlist', hready, hsame⟩ := hq
  unfold SchedState.switchNext at hnext
  split at hnext
  · cases hnext
  · next next rest hcons =>
      cases hnext
      refine ⟨hmain', hlist', fun u hu hne => ?_⟩
      show Turns (s.status u) ((q.setStatus next .running).status u)
      rw [set_status_status]
      have hold := hturns u
      rw [← hsame u hne] at hold
      split
      · next heq =>
          have hin : q.status u = .ready := by
            refine hready u ?_ hu
            rw [hcons, heq]
            exact List.mem_cons_self
          rw [hin] at hold
          rcases hold with hkept | ⟨hrun, -⟩
          · exact Or.inr ⟨Or.inl hkept.symm, Or.inr rfl⟩
          · exact Or.inr ⟨hrun, Or.inr rfl⟩
      · exact hold

omit [DecidableEq Tid] in
/-- The running task is not on the ready list. -/
theorem SchedInv.current_not_ready (h : SchedInv s) : s.current ∉ s.taskReadyList := by
  intro hin
  have hready := (h.ready _ h.current).mp hin
  have hrunning := (h.running _ h.current).mpr rfl
  rw [hready] at hrunning
  cases hrunning

/-- `Schedule` by a task that has stored a status other than `TASK_READY` in itself. -/
theorem SchedInv.schedule (h : SchedInv s) {state : TaskStatus} (hready : state ≠ .ready)
    (halive : s.current = s.mainThread → state ≠ .zombie ∧ state ≠ .died) :
    ∃ t, (s.setStatus s.current state).schedule = some t ∧ SchedInv t := by
  refine (h.set_status h.current_not_ready hready halive).schedule ?_
  intro t ht hrun
  rw [set_status_status] at hrun
  split at hrun
  · next heq => exact heq
  · exact (h.running t ht).mp hrun

/-- `TaskYield`. -/
theorem SchedInv.task_yield (h : SchedInv s) : ∃ t, s.taskYield = some t ∧ SchedInv t := by
  have hrun := (h.running _ h.current).mpr rfl
  have hready : s.status s.current ≠ .ready := by
    rw [hrun]
    exact nofun
  unfold SchedState.taskYield
  rw [if_neg h.current_not_ready]
  refine (h.enqueue h.current hready (List.perm_append_singleton ..)).schedule ?_
  intro t ht hrunning
  have hstatus : (s.setStatus s.current .ready).status t = .running := hrunning
  rw [set_status_status] at hstatus
  split at hstatus
  · cases hstatus
  · exact (h.running t ht).mp hstatus

/-- `TaskUnblock` of a task that may be woken. -/
theorem SchedInv.task_unblock (h : SchedInv s) {task : Tid} (hmem : task ∈ s.taskGlobalList)
    (hstatus : s.status task = .blocked ∨ s.status task = .waiting ∨ s.status task = .stopped) :
    ∃ t, s.taskUnblock task = some t ∧ SchedInv t := by
  obtain ⟨t, hunblock, ht, -, hnew, hcurrent, hlist⟩ := h.toQueueInv.task_unblock hmem hstatus
  refine ⟨t, hunblock, ht, ?_⟩
  intro u hu
  rw [hlist] at hu
  rw [hnew, hcurrent, Function.update_apply]
  split
  · next heq =>
      have hnot : u ≠ s.current := by
        intro hcur
        have hrun := (h.running u hu).mpr hcur
        rw [heq] at hrun
        rw [hrun] at hstatus
        rcases hstatus with hbad | hbad | hbad <;> cases hbad
      simp [hnot]
  · exact h.running u hu

/-- `ThreadStart`. -/
theorem SchedInv.thread_start (h : SchedInv s) {thread : Tid} (hnew : thread ∉ s.taskGlobalList) :
    ∃ t, s.threadStart thread = some t ∧ SchedInv t := by
  have hout : thread ∉ s.taskReadyList := fun hin => hnew (h.known thread hin)
  have hold : ∀ t ∈ s.taskGlobalList, t ≠ thread := fun t ht heq => hnew (heq ▸ ht)
  unfold SchedState.threadStart
  rw [if_neg (not_or.mpr ⟨hout, hnew⟩)]
  refine ⟨_, rfl, ⟨⟨List.mem_append_left _ h.current, ?_, ?_, ?_, List.mem_append_left _ h.main,
    ?_⟩, ?_⟩⟩
  · intro t ht
    rcases List.mem_append.mp ht with hin | hlast
    · exact List.mem_append_left _ (h.known t hin)
    · exact List.mem_append_right _ hlast
  · intro t ht
    show t ∈ s.taskReadyList ++ [thread] ↔ (s.setStatus thread .ready).status t = .ready
    rw [set_status_status, List.mem_append, List.mem_singleton]
    rcases List.mem_append.mp ht with hin | hlast
    · simpa [hold t hin] using h.ready t hin
    · simp [List.mem_singleton.mp hlast]
  · exact (List.perm_append_singleton ..).nodup_iff.mpr (List.nodup_cons.mpr ⟨hout, h.once⟩)
  · show (s.setStatus thread .ready).status s.mainThread ≠ .zombie ∧
      (s.setStatus thread .ready).status s.mainThread ≠ .died
    rw [set_status_status, if_neg (hold _ h.main)]
    exact h.alive
  · intro t ht
    show (s.setStatus thread .ready).status t = .running ↔ t = s.current
    rw [set_status_status]
    rcases List.mem_append.mp ht with hin | hlast
    · simpa [hold t hin] using h.running t hin
    · rw [List.mem_singleton.mp hlast]
      have hne : thread ≠ s.current := fun heq => hold _ h.current heq.symm
      simp [hne]

/-! ## Runs -/

/-- Every call that its caller may make goes through, with all its assertions, and keeps the
invariant. -/
theorem SchedInv.step (h : SchedInv s) {op : SchedOp Tid} (hguard : schedGuard s op) :
    ∃ t, schedStep s op = some t ∧ SchedInv t := by
  cases op with
  | schedule state =>
      refine h.schedule ?_ fun _ => ⟨?_, ?_⟩ <;>
        (rcases hguard with heq | heq | heq <;> rw [heq] <;> exact nofun)
  | taskYield => exact h.task_yield
  | taskBlock state =>
      have hallowed : state = .blocked ∨ state = .waiting ∨ state = .stopped ∨ state = .zombie :=
        hguard.imp_right (.imp_right (.imp_right And.left))
      show ∃ t, s.taskBlock state = some t ∧ SchedInv t
      rw [SchedState.taskBlock, if_pos hallowed]
      refine h.schedule ?_ ?_
      · rcases hallowed with heq | heq | heq | heq <;> rw [heq] <;> exact nofun
      · intro hmain
        rcases hguard with heq | heq | heq | ⟨-, hnot⟩
        · rw [heq]
          exact ⟨nofun, nofun⟩
        · rw [heq]
          exact ⟨nofun, nofun⟩
        · rw [heq]
          exact ⟨nofun, nofun⟩
        · exact absurd hmain hnot
  | taskUnblock task => exact h.task_unblock hguard.1 hguard.2
  | taskWakeUp task =>
      show ∃ t, s.taskWakeUp task = some t ∧ SchedInv t
      unfold SchedState.taskWakeUp
      split
      · next hasleep => exact h.task_unblock hguard (hasleep.imp_right .inr)
      · exact ⟨s, rfl, h⟩
  | threadStart thread => exact h.thread_start hguard

end

theorem sched_inv_init (mainThread : Tid) : SchedInv (.initTasks mainThread) := by
  refine ⟨⟨List.mem_singleton.mpr rfl, nofun, ?_, List.nodup_nil, List.mem_singleton.mpr rfl, ?_⟩,
    ?_⟩
  · intro t ht
    cases List.mem_singleton.mp ht
    simp [SchedState.initTasks]
  · simp [SchedState.initTasks]
  · intro t ht
    cases List.mem_singleton.mp ht
    simp [SchedState.initTasks]

/-- One task runs and is not ready, and the ready list holds each of the others once when it is
ready and not otherwise. -/
structure Scheduled (s : SchedState Tid) : Prop where
  current : s.current ∈ s.taskGlobalList
  running : ∀ t ∈ s.taskGlobalList, s.status t = .running ↔ t = s.current
  apart : s.current ∉ s.taskReadyList
  ready : ∀ t ∈ s.taskGlobalList, s.taskReadyList.count t = if s.status t = .ready then 1 else 0

theorem SchedInv.scheduled {s : SchedState Tid} (h : SchedInv s) : Scheduled s := by
  refine ⟨h.current, h.running, h.current_not_ready, ?_⟩
  intro t ht
  rw [h.once.count]
  exact if_congr (h.ready t ht) rfl rfl

/-- In every state that calls from the initial one lead to, the tasks are scheduled, and every
further call goes through with all its assertions. -/
theorem schedule_well_formed {mainThread : Tid} {ops : List (SchedOp Tid)} {s : SchedState Tid}
    (hrun : Run (stepOf schedStep) schedGuard (.initTasks mainThread) ops s) :
    Scheduled s ∧ ∀ op, schedGuard s op → ∃ t, schedStep s op = some t := by
  have hinv : SchedInv s := by
    refine hrun.invariant ?_ (sched_inv_init mainThread)
    intro r op t hr hguard hstep
    obtain ⟨t', hnext, ht⟩ := hr.step hguard
    rw [stepOf, hnext] at hstep
    cases hstep
    exact ht
  refine ⟨hinv.scheduled, ?_⟩
  intro op hguard
  obtain ⟨t, hnext, -⟩ := hinv.step hguard
  exact ⟨t, hnext⟩

/-- The main thread starts another and waits; that one waits too, and the main thread goes on. -/
theorem idle_fallback_scheduled : ∃ s,
    Run (stepOf schedStep) schedGuard (.initTasks 0)
      [.threadStart 1, .taskBlock .blocked, .schedule .running, .taskBlock .waiting] s ∧
      s.current = 0 ∧ s.status 1 = .waiting ∧
      Scheduled s ∧ ∀ op, schedGuard s op → ∃ t, schedStep s op = some t := by
  obtain ⟨s, t, hstart, hrun, hview⟩ := exists_run_checked schedStep schedGuard
    (some (.initTasks 0))
    [.threadStart 1, .taskBlock .blocked, .schedule .running, .taskBlock .waiting]
    (fun s => (s.current, s.status 1)) (v := (0, .waiting)) (by decide +kernel)
  cases Option.some.inj hstart
  obtain ⟨hcurrent, hstatus⟩ := Prod.mk.inj hview
  exact ⟨t, hrun, hcurrent, hstatus, schedule_well_formed hrun⟩

end XBook.Sched
