import XBook.Kernel.WorkQueueInvariant

/-!
# Every work is executed

The rest of the steps, those of the scheduler, and what `WorkInv` says of every run that meets
`workGuard`: the node of the worker is on one list at most, a worker that sleeps while there is work
is going to be woken, and each work that has been queued has been executed, is in the list, or is in
the hands of the worker.
-/

namespace XBook.Work

open Sched Transition

variable {Tid W ι : Type*} [DecidableEq Tid] [DecidableEq W] [DecidableEq ι] [Fintype ι]
  {s t : WorkQueue Tid W ι} {i : ι}

/-! ## The scheduler -/

omit [DecidableEq Tid] [DecidableEq ι] [Fintype ι] in
/-- Other tasks are woken or started. -/
theorem WorkInv.rebase (h : WorkInv s) {base : SchedState Tid} (htasks : TasksInv { s with base })
    (hstatus : base.status s.worker = s.base.status s.worker)
    (hcurrent : base.current = s.base.current) : WorkInv { s with base } := by
  have hawake : Awake { s with base } → Awake s := fun hawake => ⟨hcurrent ▸ hawake.1, hawake.2⟩
  have hnot : ¬ Awake { s with base } → ¬ Awake s :=
    fun hnot hawake => hnot ⟨hcurrent.trans hawake.1, hawake.2⟩
  refine ⟨htasks, ⟨h.wait.waitList, fun hne => ?_, fun hb => h.wait.sleeps (hstatus ▸ hb),
    fun hr hc => h.wait.woken (hstatus ▸ hr) (hcurrent ▸ hc),
    fun hb hn => h.wait.asleep (hstatus ▸ hb) (hnot hn), h.wait.unblocked,
    fun hb ha => h.wait.tests (hstatus ▸ hb) (hawake ha),
    fun hb ha => h.wait.schedules (hstatus ▸ hb) (hawake ha),
    fun hb ha => h.wait.skips (hstatus ▸ hb) (hawake ha)⟩,
    ⟨h.calls.own, fun i call hcall hin => ?_, h.calls.innerWake⟩,
    ⟨h.works.sound, h.works.head, h.works.nodup, h.works.conserved⟩⟩
  · show s.pc = .block ∧ base.status s.worker = .running ∧ s.inSchedule = false ∨
      s.pc.Waits ∧ base.status s.worker = .blocked
    rw [hstatus]
    exact h.wait.waiting hne
  · show s.inSchedule = true ∧ call.owner = base.current
    rw [hcurrent]
    exact h.calls.inner i call hcall hin

omit [DecidableEq Tid] [DecidableEq ι] [Fintype ι] in
/-- `Schedule` comes to its end. -/
theorem WorkInv.scheduled (h : WorkInv s) {base : SchedState Tid} (hsched : SchedInv base)
    (hmain : base.mainThread = s.base.mainThread)
    (hlist : base.taskGlobalList = s.base.taskGlobalList)
    (hturns : Turns (s.base.status s.worker) (base.status s.worker)) (hnot : ¬ Awake s)
    (hinner : ∀ i call, s.frames i = some call → call.inner = false) :
    WorkInv { s with base, inSchedule := false } := by
  have hknown : s.worker ∈ base.taskGlobalList := by
    rw [hlist]
    exact h.tasks.known
  have hblocked : base.status s.worker = .blocked ↔ s.base.status s.worker = .blocked := by
    rcases hturns with heq | ⟨hold | hold, hnew | hnew⟩
    · rw [heq]
    all_goals
      refine iff_of_false ?_ ?_
      · rw [hnew]
        nofun
      · rw [hold]
        nofun
  have hrun : base.current = s.worker → base.status s.worker = .running := fun heq =>
    (hsched.running _ hknown).mpr heq.symm
  refine ⟨⟨hsched.toQueueInv, fun t ht hrunning => (hsched.running t ht).mp hrunning,
    fun _ _ => (hsched.running _ hsched.current).mpr rfl, hknown, ?_, ?_⟩,
    ⟨h.wait.waitList, fun hne => ?_, fun hb => h.wait.sleeps (hblocked.mp hb), fun hready hc => ?_,
    fun hb _ => h.wait.asleep (hblocked.mp hb) hnot, h.wait.unblocked, fun hb ha => ?_,
    fun hb ha => ?_, fun hb ha => ?_⟩, ⟨h.calls.own, fun i call hcall hin => ?_, h.calls.innerWake⟩,
    ⟨h.works.sound, h.works.head, h.works.nodup, h.works.conserved⟩⟩
  · show s.worker ≠ base.mainThread
    rw [hmain]
    exact h.tasks.notMain
  · show base.status s.worker = .ready ∨ base.status s.worker = .running ∨
      base.status s.worker = .blocked
    rcases hturns with heq | ⟨-, hnew | hnew⟩
    · rw [heq]
      exact h.tasks.live
    · exact Or.inl hnew
    · exact Or.inr (Or.inl hnew)
  · rcases h.wait.waiting hne with ⟨-, hrunning, hs⟩ | ⟨hwaits, hb⟩
    · exact (hnot ⟨(h.tasks.running _ h.tasks.known hrunning).symm, hs⟩).elim
    · exact Or.inr ⟨hwaits, hblocked.mpr hb⟩
  · replace hready : base.status s.worker = .ready := hready
    rw [hrun hc] at hready
    cases hready
  · replace hb : base.status s.worker = .blocked := hb
    rw [hrun ha.1] at hb
    cases hb
  · replace hb : base.status s.worker = .blocked := hb
    rw [hrun ha.1] at hb
    cases hb
  · replace hb : base.status s.worker = .blocked := hb
    rw [hrun ha.1] at hb
    cases hb
  · rw [hinner i call hcall] at hin
    cases hin

omit [DecidableEq ι] [Fintype ι] in
/-- A task enters `Schedule`, having stored a status if it is not the worker. -/
theorem WorkInv.enter (h : WorkInv s) {base : SchedState Tid}
    (htasks : TasksInv { s with base, inSchedule := true })
    (hstatus : base.status s.worker = s.base.status s.worker)
    (hcurrent : base.current = s.base.current)
    (hrunning : s.base.current = s.worker → s.base.status s.worker = .running → s.waitList = [])
    (hblocked : s.base.current = s.worker → s.base.status s.worker = .blocked →
      s.waitList ≠ [] ∧ (s.workList ≠ [] → WakeComing s)) :
    WorkInv { s with base, inSchedule := true } := by
  refine ⟨htasks, ⟨h.wait.waitList, fun hne => ?_, fun hb => h.wait.sleeps (hstatus ▸ hb),
    fun hr hc => h.wait.woken (hstatus ▸ hr) (hcurrent ▸ hc), fun hb _ => ?_, h.wait.unblocked,
    fun _ ha => ?_, fun _ ha => ?_, fun _ ha => ?_⟩,
    ⟨h.calls.own, fun i call hcall hin => ?_, h.calls.innerWake⟩,
    ⟨h.works.sound, h.works.head, h.works.nodup, h.works.conserved⟩⟩
  · rcases h.wait.waiting hne with ⟨-, hrun, -⟩ | ⟨hwaits, hb⟩
    · exact (hne (hrunning (h.tasks.running _ h.tasks.known hrun).symm hrun)).elim
    · exact Or.inr ⟨hwaits, hstatus.trans hb⟩
  · replace hb : base.status s.worker = .blocked := hb
    rw [hstatus] at hb
    by_cases hc : s.base.current = s.worker
    · exact hblocked hc hb
    · exact h.wait.asleep hb fun hawake => hc hawake.1
  · cases ha.2
  · cases ha.2
  · cases ha.2
  · refine ⟨rfl, ?_⟩
    show call.owner = base.current
    rw [hcurrent]
    exact (h.calls.inner i call hcall hin).2

omit [DecidableEq ι] [Fintype ι] in
/-- The softirq of the clock calls `Schedule`. -/
theorem WorkInv.preempt (h : WorkInv s) (hguard : workGuard s .preempt) :
    WorkInv { s with inSchedule := true } := by
  obtain ⟨hsched, hworker⟩ := hguard
  have hmem : s.worker ∈ s.waitList → s.waitList ≠ [] := fun hin => List.ne_nil_of_mem hin
  refine h.enter ⟨h.tasks.queue, h.tasks.running, fun _ => nofun, h.tasks.known, h.tasks.notMain,
    h.tasks.live⟩ rfl rfl (fun hc hrun => ?_) fun hc hb => ?_
  · rcases h.wait.waitList with hnil | hone
    · exact hnil
    · refine ((hworker hc).1 hrun ?_).elim
      rw [hone]
      exact List.mem_singleton.mpr rfl
  · rcases (hworker hc).2 hb with hnil | ⟨hin, hwake⟩
    · refine ⟨fun hempty => ?_, fun hne => (hne hnil).elim⟩
      have hsleeps := h.wait.sleeps hb
      cases hpc : s.pc with
      | test => exact h.wait.tests hb ⟨hc, hsched⟩ hpc hempty hnil
      | sched => exact (h.wait.schedules hb ⟨hc, hsched⟩ hpc).1 hempty
      | remove => exact h.wait.skips hb ⟨hc, hsched⟩ (Or.inl hpc) hnil
      | run => exact h.wait.skips hb ⟨hc, hsched⟩ (Or.inr hpc) hnil
      | add | block | loop | del | taking | exec =>
          rw [hpc] at hsleeps
          exact hsleeps
    · exact ⟨hmem hin, fun _ => hwake⟩

omit [DecidableEq Tid] [DecidableEq W] [DecidableEq ι] [Fintype ι] in
/-- When some other task runs outside of `Schedule`, the tasks are scheduled. -/
theorem TasksInv.sched_inv (h : TasksInv s) (hother : s.base.current ≠ s.worker)
    (hsched : s.inSchedule = false) : SchedInv s.base := by
  refine ⟨h.queue, fun t ht => ⟨h.running t ht, ?_⟩⟩
  rintro rfl
  exact h.others hother hsched

omit [DecidableEq ι] [Fintype ι] in
/-- `Schedule` of the task that is in it. -/
theorem WorkInv.switch (h : WorkInv s) (hsched : s.inSchedule = true)
    (habove : ∀ i, ¬ s.Above (s.frames i)) {base : SchedState Tid}
    (hstep : s.base.schedule = some base) : WorkInv { s with base, inSchedule := false } := by
  obtain ⟨base', hbase, hinv⟩ := h.tasks.queue.schedule h.tasks.running
  rw [hstep] at hbase
  cases hbase
  obtain ⟨hmain, hlist, hturns⟩ := h.tasks.queue.schedule_turns h.tasks.running hstep
  refine h.scheduled hinv hmain hlist (hturns _ h.tasks.known h.tasks.notMain) (fun hawake => ?_)
    fun i call hcall => ?_
  · exact absurd (hsched.symm.trans hawake.2) nofun
  · by_contra hin
    have hinner := h.calls.inner i call hcall (Bool.eq_true_of_not_eq_false hin)
    refine habove i ?_
    rw [hcall]
    exact ⟨hinner.2, (Bool.eq_true_of_not_eq_false hin).trans hsched.symm⟩

omit [DecidableEq ι] [Fintype ι] in
/-- `TaskYield` of some other task. -/
theorem WorkInv.yield (h : WorkInv s) (hother : s.base.current ≠ s.worker)
    (hsched : s.inSchedule = false) {base : SchedState Tid} (hstep : s.base.taskYield = some base) :
    WorkInv { s with base } := by
  have hinv := h.tasks.sched_inv hother hsched
  obtain ⟨base', hbase, hnew⟩ := hinv.task_yield
  rw [hstep] at hbase
  cases hbase
  have hcurrent : s.base.status s.base.current ≠ .ready := by
    rw [h.tasks.others hother hsched]
    nofun
  have hqueue := h.tasks.queue.enqueue h.tasks.queue.current hcurrent
    (List.perm_append_singleton s.base.current s.base.taskReadyList)
  rw [SchedState.taskYield, if_neg hinv.current_not_ready] at hstep
  have hrunning : ∀ t ∈ s.base.taskGlobalList,
      (s.base.setStatus s.base.current .ready).status t = .running → t = s.base.current := by
    intro t ht hrun
    rw [set_status_status] at hrun
    split at hrun
    · cases hrun
    · exact h.tasks.running t ht hrun
  obtain ⟨hmain, hlist, hturns⟩ := hqueue.schedule_turns hrunning hstep
  have hsame : (s.base.setStatus s.base.current .ready).status s.worker =
      s.base.status s.worker := by
    rw [set_status_status, if_neg (Ne.symm hother)]
  have hturn := hturns _ h.tasks.known h.tasks.notMain
  have hkept := h.scheduled hnew hmain hlist (hsame ▸ hturn) (fun hawake => hother hawake.1)
    fun i call hcall => ?_
  · rwa [← hsched] at hkept
  · by_contra hin
    have hinner := (h.calls.inner i call hcall (Bool.eq_true_of_not_eq_false hin)).1
    rw [hsched] at hinner
    cases hinner

omit [DecidableEq ι] [Fintype ι] in
/-- Some other task stores a status and calls `Schedule`. -/
theorem WorkInv.sleep (h : WorkInv s) (hother : s.base.current ≠ s.worker)
    (hsched : s.inSchedule = false) {state : Sched.TaskStatus} (hstate : state = .blocked ∨
      state = .waiting ∨ state = .stopped ∨ state = .zombie ∧ s.base.current ≠ s.base.mainThread) :
    WorkInv { s with base := s.base.setStatus s.base.current state, inSchedule := true } := by
  have hinv := h.tasks.sched_inv hother hsched
  have hsame : (s.base.setStatus s.base.current state).status s.worker = s.base.status s.worker := by
    rw [set_status_status, if_neg (Ne.symm hother)]
  have hready : state ≠ .ready := by
    rcases hstate with rfl | rfl | rfl | ⟨rfl, -⟩ <;> nofun
  have hrunning : state ≠ .running := by
    rcases hstate with rfl | rfl | rfl | ⟨rfl, -⟩ <;> nofun
  have hqueue := h.tasks.queue.set_status hinv.current_not_ready hready fun hmain => by
    rcases hstate with rfl | rfl | rfl | ⟨-, hne⟩
    · exact ⟨nofun, nofun⟩
    · exact ⟨nofun, nofun⟩
    · exact ⟨nofun, nofun⟩
    · exact (hne hmain).elim
  refine h.enter ⟨hqueue, fun t ht hrun => ?_, fun _ => nofun, h.tasks.known, h.tasks.notMain, ?_⟩
    hsame rfl (fun hc => (hother hc).elim) fun hc => (hother hc).elim
  · replace hrun : (s.base.setStatus s.base.current state).status t = .running := hrun
    rw [set_status_status] at hrun
    split at hrun
    · exact (hrunning hrun).elim
    · exact h.tasks.running t ht hrun
  · show (s.base.setStatus s.base.current state).status s.worker = _ ∨ _ ∨ _
    rw [hsame]
    exact h.tasks.live

/-- Every step that meets the guard preserves the invariant. -/
theorem work_inv_step (op : WorkOp Tid W ι) (h : WorkInv s) (hguard : workGuard s op)
    (hstep : workStep s op = some t) : WorkInv t := by
  cases op with
  | work =>
      simp only [workStep] at hstep
      split at hstep
      · next hcond => exact h.worker_step ⟨hcond.1, hcond.2.1⟩ hcond.2.2 hguard hstep
      · cases hstep
  | schedule i work =>
      cases hframe : s.frames i with
      | none =>
          simp only [workStep, hframe, Option.some.injEq] at hstep
          subst hstep
          refine h.set_frame (fun call hcall => ?_) ?_
          · rw [hframe] at hcall
            cases hcall
          · rintro call ⟨⟩
            exact ⟨nofun, fun hin => ⟨hin, rfl⟩⟩
      | some call => simp [workStep, hframe] at hstep
  | queue i =>
      simp only [workStep] at hstep
      split at hstep
      · next habove =>
          obtain ⟨call, hcall, hnext⟩ := Option.bind_eq_some_iff.mp hstep
          exact h.queue_step hcall habove hguard hnext
      · cases hstep
  | preempt =>
      simp only [workStep, hguard.1, Bool.false_eq_true, if_false, Option.some.injEq] at hstep
      subst hstep
      exact h.preempt hguard
  | switch =>
      simp only [workStep] at hstep
      split at hstep
      · next hcond =>
          obtain ⟨base, hbase, rfl⟩ := Option.map_eq_some_iff.mp hstep
          exact h.switch hcond.1 hcond.2 hbase
      · cases hstep
  | sleep state =>
      simp only [workStep] at hstep
      split at hstep
      · next hcond =>
          cases hstep
          exact h.sleep hcond.1 hcond.2.1 hcond.2.2
      · cases hstep
  | yield =>
      simp only [workStep] at hstep
      split at hstep
      · next hcond =>
          obtain ⟨base, hbase, rfl⟩ := Option.map_eq_some_iff.mp hstep
          exact h.yield hcond.1 hcond.2 hbase
      · cases hstep
  | unblock task =>
      simp only [workStep] at hstep
      split at hstep
      · next hcond =>
          obtain ⟨base, hbase, rfl⟩ := Option.map_eq_some_iff.mp hstep
          obtain ⟨htasks, hstatus, hcurrent⟩ := h.tasks.task_unblock hcond.2 hbase
          have hsound : (s.torn || s.inSchedule) = s.torn := by
            rw [hguard, Bool.or_false]
          rw [hsound]
          refine h.rebase htasks ?_ hcurrent
          rw [hstatus, Function.update_of_ne (Ne.symm hcond.1)]
      · cases hstep
  | start thread =>
      simp only [workStep] at hstep
      split at hstep
      · next hcond =>
          obtain ⟨base, hbase, rfl⟩ := Option.map_eq_some_iff.mp hstep
          have hinv := h.tasks.sched_inv hcond.1 hcond.2
          have hnew : thread ∉ s.base.taskGlobalList := by
            unfold SchedState.threadStart at hbase
            split at hbase
            · cases hbase
            · next hnot => exact fun hin => hnot (Or.inr hin)
          obtain ⟨base', hbase', hsched⟩ := hinv.thread_start hnew
          rw [hbase] at hbase'
          cases hbase'
          have hout : thread ∉ s.base.taskReadyList := fun hin =>
            hnew (h.tasks.queue.known thread hin)
          rw [SchedState.threadStart, if_neg (not_or.mpr ⟨hout, hnew⟩)] at hbase
          cases hbase
          have hne : s.worker ≠ thread := fun heq => hnew (heq ▸ h.tasks.known)
          have hsame : (s.base.setStatus thread .ready).status s.worker =
              s.base.status s.worker := by
            rw [set_status_status, if_neg hne]
          refine h.rebase ⟨hsched.toQueueInv, fun t ht hrun => (hsched.running t ht).mp hrun,
            fun _ _ => (hsched.running _ hsched.current).mpr rfl,
            List.mem_append_left _ h.tasks.known, h.tasks.notMain, ?_⟩ hsame rfl
          show (s.base.setStatus thread .ready).status s.worker = _ ∨ _ ∨ _
          rw [hsame]
          exact h.tasks.live
      · cases hstep

omit [DecidableEq ι] [Fintype ι] in
theorem work_inv_init {mainThread worker : Tid}
    (h : WorkQueue.init mainThread worker = some (s : WorkQueue Tid W ι)) : WorkInv s := by
  obtain ⟨base, hbase, rfl⟩ := Option.map_eq_some_iff.mp h
  have hnew : worker ∉ (SchedState.initTasks mainThread).taskGlobalList := by
    unfold SchedState.threadStart at hbase
    split at hbase
    · cases hbase
    · next hnot => exact fun hin => hnot (Or.inr hin)
  obtain ⟨base', hbase', hsched⟩ := (sched_inv_init mainThread).thread_start hnew
  rw [hbase] at hbase'
  cases hbase'
  rw [SchedState.threadStart, if_neg (not_or.mpr ⟨nofun, hnew⟩)] at hbase
  cases hbase
  have hne : worker ≠ mainThread := fun heq => hnew (List.mem_singleton.mpr heq)
  have hready : ((SchedState.initTasks mainThread).setStatus worker .ready).status worker =
      .ready := by
    rw [set_status_status, if_pos rfl]
  have hnot : ¬ ((SchedState.initTasks mainThread).setStatus worker .ready).status worker =
      .blocked := by
    rw [hready]
    nofun
  refine ⟨⟨hsched.toQueueInv, fun t ht hrun => (hsched.running t ht).mp hrun,
    fun _ _ => (hsched.running _ hsched.current).mpr rfl,
    List.mem_append_right _ (List.mem_singleton.mpr rfl), hne, Or.inl hready⟩,
    ⟨Or.inl rfl, fun hnil => (hnil rfl).elim, fun hb => (hnot hb).elim,
      fun _ heq => (hne heq.symm).elim, fun hb => (hnot hb).elim, nofun, fun hb => (hnot hb).elim,
      fun hb => (hnot hb).elim, fun hb => (hnot hb).elim⟩,
    .of_quiet nofun nofun, ⟨rfl, fun w hw => ?_, List.nodup_nil, fun _ => rfl⟩⟩
  rcases hw with hw | hw <;> cases hw

/-! ## Runs -/

/-- The node of the worker is on one list at most. A worker that is blocked while there is work is on
the wait list, and some call of another task is about to wake it, or it is still running and finds the
work, or an interrupt in it wakes it. Each work has been executed as often as it has been queued, but
for those in the list and in the hands of the worker. -/
structure WorkSafe (s : WorkQueue Tid W ι) : Prop where
  linked : s.base.taskReadyList.count s.worker + s.waitList.count s.worker ≤ 1
  sound : s.torn = false
  woken : s.base.status s.worker = .blocked → s.workList ≠ [] →
    s.worker ∈ s.waitList ∧ WakeComing s ∨
      Awake s ∧ (s.pc ≠ .sched ∨ s.worker ∈ s.waitList ∧ Waking s)
  conserved : ∀ w, s.queued w = s.executed w + s.workList.count w + s.pc.holds w
  once : s.workList.Nodup
  asserts : s.pc = .add → s.worker ∉ s.waitList
  schedules : ∃ base, s.base.schedule = some base

omit [DecidableEq ι] [Fintype ι] in
theorem WorkInv.safe (h : WorkInv s) : WorkSafe s := by
  have hmem : s.waitList ≠ [] → s.worker ∈ s.waitList := by
    intro hne
    rw [h.wait.waitList.resolve_left hne]
    exact List.mem_singleton.mpr rfl
  refine ⟨?_, h.works.sound, fun hb hwork => ?_, h.works.conserved, h.works.nodup, fun hpc hin => ?_,
    ?_⟩
  · have honce : s.base.taskReadyList.count s.worker ≤ 1 :=
      List.nodup_iff_count_le_one.mp h.tasks.queue.once s.worker
    rcases h.wait.waitList with hnil | hone
    · rw [hnil, List.count_nil]
      exact honce
    · have hout : s.worker ∉ s.base.taskReadyList := by
        rw [h.tasks.queue.ready _ h.tasks.known]
        have hne : s.waitList ≠ [] := by
          rw [hone]
          exact List.cons_ne_nil _ _
        rcases h.wait.waiting hne with ⟨-, hrun, -⟩ | ⟨-, hb⟩
        · rw [hrun]
          nofun
        · rw [hb]
          nofun
      rw [List.count_eq_zero_of_not_mem hout, hone, List.count_singleton_self]
  · by_cases hawake : Awake s
    · refine Or.inr ⟨hawake, ?_⟩
      by_cases hpc : s.pc = .sched
      · obtain ⟨hne, hwake⟩ := h.wait.schedules hb hawake hpc
        exact Or.inr ⟨hmem hne, hwake hwork⟩
      · exact Or.inl hpc
    · obtain ⟨hne, hwake⟩ := h.wait.asleep hb hawake
      exact Or.inl ⟨hmem hne, hwake hwork⟩
  · rcases h.wait.waiting (List.ne_nil_of_mem hin) with ⟨heq, -⟩ | ⟨hwaits, -⟩
    · rw [hpc] at heq
      cases heq
    · rw [hpc] at hwaits
      exact hwaits
  · obtain ⟨base, hbase, -⟩ := h.tasks.queue.schedule h.tasks.running
    exact ⟨base, hbase⟩

/-- In every run that meets `workGuard`, no wake-up is lost, no work is lost or executed twice, and
the worker is on one list at most. -/
theorem work_queue_safe {mainThread worker : Tid} {start : WorkQueue Tid W ι}
    {ls : List (WorkOp Tid W ι)} (hstart : WorkQueue.init mainThread worker = some start)
    (hrun : Run (stepOf workStep) workGuard start ls s) : WorkSafe s :=
  (hrun.invariant (fun _ op _ hs hguard hstep => work_inv_step op hs hguard hstep)
    (work_inv_init hstart)).safe

instance (s : WorkQueue Tid W ι) : Decidable (WakeComing s) :=
  decidable_of_iff (∃ i, ∃ call ∈ s.frames i, call.point = .wake ∧ call.owner ≠ s.worker)
    (by rfl)

instance (s : WorkQueue Tid W ι) : DecidablePred (LeavesWork s)
  | .taking _ => inferInstanceAs (Decidable (2 ≤ _))
  | .add | .block | .test | .sched | .remove | .run | .loop | .del _ | .exec _ =>
      inferInstanceAs (Decidable True)

instance (s : WorkQueue Tid W ι) : DecidablePred (AddsWell s)
  | some ⟨_, _, .add _⟩ => inferInstanceAs (Decidable (_ ∧ (_ → _) ∧ LeavesWork s s.pc))
  | none | some ⟨_, _, .find _⟩ | some ⟨_, _, .finding _⟩ | some ⟨_, _, .wake⟩ =>
      inferInstanceAs (Decidable True)

instance (s : WorkQueue Tid W ι) : DecidablePred (WorksWell s)
  | .run => inferInstanceAs (Decidable (_ ∉ _))
  | .taking _ => inferInstanceAs (Decidable (∀ i, Call.walking (s.frames i) = false))
  | .add | .block | .test | .sched | .remove | .loop | .del _ | .exec _ =>
      inferInstanceAs (Decidable True)

instance (s : WorkQueue Tid W ι) : DecidablePred (workGuard s)
  | .work => inferInstanceAs (Decidable (WorksWell s s.pc))
  | .queue i => inferInstanceAs (Decidable (AddsWell s (s.frames i)))
  | .preempt => inferInstanceAs (Decidable (_ ∧ (_ → (_ → _) ∧ (_ → _ ∨ _ ∧ WakeComing s))))
  | .unblock _ => inferInstanceAs (Decidable (_ = _))
  | .schedule _ _ | .switch | .sleep _ | .yield | .start _ => inferInstanceAs (Decidable True)

/-- The worker goes to sleep, the main thread queues a work and wakes it, and the work is executed. -/
theorem sleeping_worker_woken : ∃ s : WorkQueue (Fin 2) (Fin 1) (Fin 1),
    WorkSafe s ∧ s.queued 0 = 1 ∧ s.executed 0 = 1 := by
  obtain ⟨s, t, hs, hrun, hview⟩ := exists_run_checked workStep workGuard
    (WorkQueue.init 0 1 : Option (WorkQueue (Fin 2) (Fin 1) (Fin 1)))
    [.preempt, .switch, .work, .work, .work, .work, .switch, .schedule 0 0, .queue 0, .queue 0,
      .queue 0, .queue 0, .preempt, .switch, .work, .work, .work, .work, .work, .work]
    (fun t => (t.queued 0, t.executed 0)) (v := (1, 1)) (by decide)
  simp only [Prod.mk.injEq] at hview
  exact ⟨t, work_queue_safe hs hrun, hview⟩

/-- The worker is preempted behind `WaitQueueAdd`, and its node is on two lists. And a work is queued
before the worker gets to `WaitQueueAdd`, the worker is preempted behind `TASK_BLOCKED`, and nobody is
going to wake it. -/
theorem linked_twice_and_not_woken :
    (∃ (s t : WorkQueue (Fin 2) (Fin 1) (Fin 1)) (ls : List _), WorkQueue.init 0 1 = some s ∧
      Run (stepOf workStep) anyLabel s ls t ∧ t.base.taskReadyList.count t.worker = 1 ∧
      t.waitList.count t.worker = 1 ∧ ¬ WorkSafe t) ∧
    ∃ (s t : WorkQueue (Fin 2) (Fin 1) (Fin 1)) (ls : List _), WorkQueue.init 0 1 = some s ∧
      Run (stepOf workStep) anyLabel s ls t ∧ t.base.current = 0 ∧
      t.base.status t.worker = .blocked ∧ t.workList = [0] ∧ t.frames 0 = none ∧
      ¬ WorkSafe t := by
  constructor
  · obtain ⟨s, t, hs, hrun, hview⟩ := exists_run_all workStep
      (WorkQueue.init 0 1 : Option (WorkQueue (Fin 2) (Fin 1) (Fin 1)))
      [.preempt, .switch, .work, .preempt, .switch]
      (fun t => (t.base.taskReadyList.count t.worker, t.waitList.count t.worker)) (v := (1, 1))
      (by decide)
    simp only [Prod.mk.injEq] at hview
    refine ⟨s, t, _, hs, hrun, hview.1, hview.2, fun hsafe => ?_⟩
    have hlinked := hsafe.linked
    rw [hview.1, hview.2] at hlinked
    omega
  · obtain ⟨s, t, hs, hrun, hview⟩ := exists_run_all workStep
      (WorkQueue.init 0 1 : Option (WorkQueue (Fin 2) (Fin 1) (Fin 1)))
      [.preempt, .switch, .schedule 0 0, .queue 0, .queue 0, .queue 0, .queue 0, .work, .work,
        .preempt, .switch]
      (fun t => (t.base.current, t.worker, t.base.status t.worker, t.workList,
        (t.frames 0).isNone)) (v := (0, 1, .blocked, [0], true)) (by decide)
    simp only [Prod.mk.injEq, Option.isNone_iff_eq_none] at hview
    obtain ⟨hcurrent, hworker, hblocked, hwork, hframe⟩ := hview
    refine ⟨s, t, _, hs, hrun, hcurrent, hblocked, hwork, hframe, fun hsafe => ?_⟩
    rcases hsafe.woken hblocked (by rw [hwork]; nofun) with ⟨-, i, call, hcall, -⟩ | ⟨hawake, -⟩
    · rw [Subsingleton.elim i 0, hframe] at hcall
      cases hcall
    · have hbad := hcurrent.symm.trans (hawake.1.trans hworker)
      cases hbad

end XBook.Work
