import XBook.Kernel.ScheduleInvariant
import XBook.Kernel.WorkQueue

/-!
# The worker is woken

`WorkInv` says where the worker may be in each status. It rests on `workGuard`: the worker is not
preempted between `WaitQueueAdd` and `TASK_BLOCKED`, nor while it is `TASK_BLOCKED` and there is work
that nobody is going to wake it for; nobody wakes it after `TASK_BLOCKED` when it is not going to call
`Schedule`; and no list operation comes in the middle of another one.
-/

namespace XBook.Work

open Sched Transition

variable {Tid W ι : Type*} [DecidableEq Tid] [DecidableEq W] [DecidableEq ι] [Fintype ι]

/-- Where the worker may be woken. -/
def WorkerPc.Waits : WorkerPc W → Prop
  | .test | .sched | .remove => True
  | .add | .block | .run | .loop | .del _ | .taking _ | .exec _ => False

/-- Where the worker may be blocked. -/
def WorkerPc.Sleeps : WorkerPc W → Prop
  | .test | .sched | .remove | .run => True
  | .add | .block | .loop | .del _ | .taking _ | .exec _ => False

/-- Some call is about to wake the worker. -/
def Waking (s : WorkQueue Tid W ι) : Prop := ∃ i call, s.frames i = some call ∧ call.point = .wake

/-- Some call of another task is. -/
def WakeComing (s : WorkQueue Tid W ι) : Prop :=
  ∃ i call, s.frames i = some call ∧ call.point = .wake ∧ call.owner ≠ s.worker

/-- The worker runs, outside of `Schedule`. -/
def Awake (s : WorkQueue Tid W ι) : Prop := s.base.current = s.worker ∧ s.inSchedule = false

/-- How often the worker is going to execute the work that it has taken. -/
def WorkerPc.holds (work : W) : WorkerPc W → Nat
  | .exec w => if w = work then 1 else 0
  | .add | .block | .test | .sched | .remove | .run | .loop | .del _ | .taking _ => 0

/-- What the scheduler has to say about the tasks. -/
structure TasksInv (s : WorkQueue Tid W ι) : Prop where
  queue : QueueInv s.base
  running : ∀ t ∈ s.base.taskGlobalList, s.base.status t = .running → t = s.base.current
  others : s.base.current ≠ s.worker → s.inSchedule = false →
    s.base.status s.base.current = .running
  known : s.worker ∈ s.base.taskGlobalList
  notMain : s.worker ≠ s.base.mainThread
  live : s.base.status s.worker = .ready ∨ s.base.status s.worker = .running ∨
    s.base.status s.worker = .blocked

/-- Where the worker is, and what wakes it. -/
structure WaitInv (s : WorkQueue Tid W ι) : Prop where
  waitList : s.waitList = [] ∨ s.waitList = [s.worker]
  waiting : s.waitList ≠ [] →
    s.pc = .block ∧ s.base.status s.worker = .running ∧ s.inSchedule = false ∨
      s.pc.Waits ∧ s.base.status s.worker = .blocked
  sleeps : s.base.status s.worker = .blocked → s.pc.Sleeps
  woken : s.base.status s.worker = .ready → s.base.current = s.worker → s.pc.Sleeps
  asleep : s.base.status s.worker = .blocked → ¬ Awake s →
    s.waitList ≠ [] ∧ (s.workList ≠ [] → WakeComing s)
  unblocked : s.pc = .block → s.waitList = [] → s.workList ≠ []
  tests : s.base.status s.worker = .blocked → Awake s → s.pc = .test → s.waitList = [] →
    s.workList ≠ []
  schedules : s.base.status s.worker = .blocked → Awake s → s.pc = .sched →
    s.waitList ≠ [] ∧ (s.workList ≠ [] → Waking s)
  skips : s.base.status s.worker = .blocked → Awake s → s.pc = .remove ∨ s.pc = .run →
    s.workList ≠ []

/-- The calls that are under way. -/
structure CallInv (s : WorkQueue Tid W ι) : Prop where
  own : ∀ i call, s.frames i = some call → call.point = .wake → call.owner = s.worker →
    s.workList ≠ []
  inner : ∀ i call, s.frames i = some call → call.inner = true →
    s.inSchedule = true ∧ call.owner = s.base.current
  innerWake : ∀ i call, s.frames i = some call → call.inner = true → call.point = .wake →
    s.waitList = []

/-- The works. -/
structure ListInv (s : WorkQueue Tid W ι) : Prop where
  sound : s.torn = false
  head : ∀ w, s.pc = .del w ∨ s.pc = .taking w → s.workList.head? = some w
  nodup : s.workList.Nodup
  conserved : ∀ w, s.queued w = s.executed w + s.workList.count w + s.pc.holds w

structure WorkInv (s : WorkQueue Tid W ι) : Prop where
  tasks : TasksInv s
  wait : WaitInv s
  calls : CallInv s
  works : ListInv s

/-- The work that the worker takes off is not the last one. -/
def LeavesWork (s : WorkQueue Tid W ι) : WorkerPc W → Prop
  | .taking _ => 2 ≤ s.workList.length
  | .add | .block | .test | .sched | .remove | .run | .loop | .del _ | .exec _ => True

/-- No call adds the work twice, nor within `ListDelInit` of the last one, nor within `Schedule` when
the worker waits. -/
def AddsWell (s : WorkQueue Tid W ι) : Option (Call Tid W) → Prop
  | some ⟨_, _, .add work⟩ => work ∉ s.workList ∧
      (s.inSchedule = true → s.waitList = []) ∧ LeavesWork s s.pc
  | none | some ⟨_, _, .find _⟩ | some ⟨_, _, .finding _⟩ | some ⟨_, _, .wake⟩ => True

/-- The worker is running again before it goes on, and nobody walks along the list while it takes a
work off. -/
def WorksWell (s : WorkQueue Tid W ι) : WorkerPc W → Prop
  | .run => s.worker ∉ s.base.taskReadyList
  | .taking _ => ∀ i, Call.walking (s.frames i) = false
  | .add | .block | .test | .sched | .remove | .loop | .del _ | .exec _ => True

/-- The condition on the steps. -/
def workGuard (s : WorkQueue Tid W ι) : WorkOp Tid W ι → Prop
  | .work => WorksWell s s.pc
  | .queue i => AddsWell s (s.frames i)
  | .preempt => s.inSchedule = false ∧ (s.base.current = s.worker →
      (s.base.status s.worker = .running → s.worker ∉ s.waitList) ∧
      (s.base.status s.worker = .blocked →
        s.workList = [] ∨ s.worker ∈ s.waitList ∧ WakeComing s))
  | .unblock _ => s.inSchedule = false
  | .schedule _ _ | .switch | .sleep _ | .yield | .start _ => True

variable {s t : WorkQueue Tid W ι} {i : ι}

/-! ## The worker goes on -/

omit [DecidableEq Tid] [DecidableEq W] [DecidableEq ι] [Fintype ι] in
/-- No call of the worker is under way, and none within `Schedule`. -/
theorem CallInv.of_quiet (hown : ∀ i call, s.frames i = some call → call.owner ≠ s.worker)
    (hinner : ∀ i call, s.frames i = some call → call.inner = false) : CallInv s := by
  refine ⟨fun i call hcall _ howner => (hown i call hcall howner).elim, fun i call hcall hin => ?_,
    fun i call hcall hin _ => ?_⟩
  · rw [hinner i call hcall] at hin
    cases hin
  · rw [hinner i call hcall] at hin
    cases hin

omit [DecidableEq Tid] [DecidableEq W] [DecidableEq ι] [Fintype ι] in
/-- When the worker goes on, no call is on its stack. -/
theorem CallInv.quiet (h : CallInv s) (hawake : Awake s) (habove : ∀ i, ¬ s.Above (s.frames i)) :
    (∀ i call, s.frames i = some call → call.owner ≠ s.worker) ∧
      ∀ i call, s.frames i = some call → call.inner = false := by
  have hinner : ∀ i call, s.frames i = some call → call.inner = false := by
    intro i call hcall
    by_contra hin
    have hsched := (h.inner i call hcall (Bool.eq_true_of_not_eq_false hin)).1
    rw [hawake.2] at hsched
    cases hsched
  refine ⟨fun i call hcall howner => habove i ?_, hinner⟩
  rw [hcall]
  exact ⟨howner.trans hawake.1.symm, (hinner i call hcall).trans hawake.2.symm⟩

omit [DecidableEq W] [DecidableEq ι] [Fintype ι] in
/-- The worker changes its own status. -/
theorem TasksInv.set_status (h : TasksInv s) (hawake : Awake s) (hout : s.worker ∉ s.base.taskReadyList)
    {status : Sched.TaskStatus} (hstatus : status = .running ∨ status = .blocked) (pc : WorkerPc W) :
    TasksInv { s with base := s.base.setStatus s.worker status, pc } := by
  refine ⟨h.queue.set_status hout ?_ fun heq => (h.notMain heq).elim, fun t ht hrun => ?_,
    fun hne => (hne hawake.1).elim, h.known, h.notMain, ?_⟩
  · rintro rfl
    rcases hstatus with heq | heq <;> cases heq
  · replace hrun : (s.base.setStatus s.worker status).status t = .running := hrun
    rw [set_status_status] at hrun
    split at hrun
    · next heq => exact heq.trans hawake.1.symm
    · exact h.running t ht hrun
  · show (s.base.setStatus s.worker status).status s.worker = _ ∨ _ ∨ _
    rw [set_status_status, if_pos rfl]
    exact Or.inr hstatus

omit [DecidableEq Tid] [DecidableEq ι] [Fintype ι] in
/-- Outside of the part of `WorkerThread` that waits, the worker runs. -/
theorem WorkInv.runs (h : WorkInv s) (hawake : Awake s) (hpc : ¬ s.pc.Sleeps) :
    s.base.status s.worker = .running := by
  rcases h.tasks.live with hready | hrunning | hblocked
  · exact (hpc (h.wait.woken hready hawake.1)).elim
  · exact hrunning
  · exact (hpc (h.wait.sleeps hblocked)).elim

omit [DecidableEq Tid] [DecidableEq W] [DecidableEq ι] [Fintype ι] in
/-- What `WaitInv` says outside of the part that waits. -/
theorem WaitInv.of_running (hwait : s.waitList = [] ∨ s.waitList = [s.worker])
    (hrunning : s.base.status s.worker = .running)
    (hblock : s.waitList ≠ [] → s.pc = .block ∧ s.inSchedule = false)
    (hwork : s.pc = .block → s.waitList = [] → s.workList ≠ []) : WaitInv s where
  waitList := hwait
  waiting hne := Or.inl ⟨(hblock hne).1, hrunning, (hblock hne).2⟩
  sleeps hblocked := by
    rw [hrunning] at hblocked
    cases hblocked
  woken hready := by
    rw [hrunning] at hready
    cases hready
  asleep hblocked := by
    rw [hrunning] at hblocked
    cases hblocked
  unblocked := hwork
  tests hblocked := by
    rw [hrunning] at hblocked
    cases hblocked
  schedules hblocked := by
    rw [hrunning] at hblocked
    cases hblocked
  skips hblocked := by
    rw [hrunning] at hblocked
    cases hblocked

omit [DecidableEq Tid] [DecidableEq W] [DecidableEq ι] [Fintype ι] in
/-- Only a worker that waits is on the list. -/
theorem WaitInv.not_waiting (h : WaitInv s) (hblock : s.pc ≠ .block) (hpc : ¬ s.pc.Waits) :
    s.waitList = [] := by
  by_contra hne
  rcases h.waiting hne with ⟨heq, -⟩ | ⟨hwaits, -⟩
  · exact hblock heq
  · exact hpc hwaits

omit [DecidableEq W] in
theorem WorkerPc.Waits.sleeps {pc : WorkerPc W} (h : pc.Waits) : pc.Sleeps := by
  cases pc <;> trivial

omit [DecidableEq Tid] [DecidableEq ι] [Fintype ι] in
/-- The worker goes on, outside of the part that waits. -/
theorem WorkInv.running_step (h : WorkInv s) (hawake : Awake s)
    (habove : ∀ i, ¬ s.Above (s.frames i)) (hblock : s.pc ≠ .block) (hpc : ¬ s.pc.Sleeps)
    {pc : WorkerPc W} {workList : List W} {torn : Bool} {executed : W → Nat}
    (hnew : pc ≠ .block)
    (hworks : ListInv { s with workList, torn, pc, executed }) :
    WorkInv { s with workList, torn, pc, executed } := by
  obtain ⟨hown, hinner⟩ := h.calls.quiet hawake habove
  have hempty : s.waitList = [] := h.wait.not_waiting hblock fun hwaits => hpc hwaits.sleeps
  refine ⟨⟨h.tasks.queue, h.tasks.running, h.tasks.others, h.tasks.known, h.tasks.notMain,
    h.tasks.live⟩, ?_, .of_quiet hown hinner, hworks⟩
  exact .of_running (Or.inl hempty) (h.runs hawake hpc) (fun hne => (hne hempty).elim)
    fun heq => (hnew heq).elim

omit [DecidableEq ι] in
/-- Every step of the worker. -/
theorem WorkInv.worker_step (h : WorkInv s) (hawake : Awake s)
    (habove : ∀ i, ¬ s.Above (s.frames i)) (hguard : WorksWell s s.pc)
    (hstep : s.workerStep = some t) : WorkInv t := by
  obtain ⟨hown, hinner⟩ := h.calls.quiet hawake habove
  obtain ⟨hcurrent, hsched⟩ := hawake
  unfold WorkQueue.workerStep at hstep
  cases hpc : s.pc with
  | add =>
      have hrunning := h.runs ⟨hcurrent, hsched⟩ (by rw [hpc]; exact id)
      have hempty : s.waitList = [] :=
        h.wait.not_waiting (by rw [hpc]; nofun) (by rw [hpc]; exact id)
      simp only [hpc, WorkQueue.waitQueueAdd, hempty, List.not_mem_nil, if_false, Option.map_some,
        List.nil_append, Option.some.injEq] at hstep
      subst hstep
      refine ⟨⟨h.tasks.queue, h.tasks.running, h.tasks.others, h.tasks.known, h.tasks.notMain,
        h.tasks.live⟩, .of_running (Or.inr rfl) hrunning (fun _ => ⟨rfl, hsched⟩) fun _ => nofun,
        .of_quiet hown hinner, ⟨h.works.sound, fun w hw => ?_, h.works.nodup, fun w => ?_⟩⟩
      · rcases hw with hw | hw <;> cases hw
      · have hcount := h.works.conserved w
        rwa [hpc] at hcount
  | block =>
      have hrunning := h.runs ⟨hcurrent, hsched⟩ (by rw [hpc]; exact id)
      have hout : s.worker ∉ s.base.taskReadyList := by
        rw [h.tasks.queue.ready _ h.tasks.known, hrunning]
        nofun
      simp only [hpc, Option.some.injEq] at hstep
      subst hstep
      have hblocked : (s.base.setStatus s.worker .blocked).status s.worker = .blocked := by
        rw [set_status_status, if_pos rfl]
      refine ⟨h.tasks.set_status ⟨hcurrent, hsched⟩ hout (Or.inr rfl) _,
        ⟨h.wait.waitList, fun _ => Or.inr ⟨trivial, hblocked⟩, fun _ => trivial,
          fun _ _ => trivial, fun _ hnot => (hnot ⟨hcurrent, hsched⟩).elim, nofun,
          fun _ _ _ => h.wait.unblocked hpc, nofun, ?_⟩, .of_quiet hown hinner,
        ⟨h.works.sound, fun w hw => ?_, h.works.nodup, fun w => ?_⟩⟩
      · rintro - - (heq | heq) <;> cases heq
      · rcases hw with hw | hw <;> cases hw
      · have hcount := h.works.conserved w
        rwa [hpc] at hcount
  | test =>
      simp only [hpc, Option.some.injEq] at hstep
      subst hstep
      have hworks : ListInv { s with pc := if s.workList = [] then .sched else .remove } := by
        refine ⟨h.works.sound, fun w hw => ?_, h.works.nodup, fun w => ?_⟩
        · by_cases hempty : s.workList = []
          · simp [hempty] at hw
          · simp [hempty] at hw
        · have hcount := h.works.conserved w
          rw [hpc] at hcount
          rw [hcount]
          show _ = _ + WorkerPc.holds w (if s.workList = [] then .sched else .remove)
          split <;> rfl
      refine ⟨⟨h.tasks.queue, h.tasks.running, h.tasks.others, h.tasks.known, h.tasks.notMain,
        h.tasks.live⟩, ?_, .of_quiet hown hinner, hworks⟩
      have hwaits : s.waitList ≠ [] → s.base.status s.worker = .blocked := by
        intro hne
        rcases h.wait.waiting hne with ⟨heq, -⟩ | ⟨-, hblocked⟩
        · rw [hpc] at heq
          cases heq
        · exact hblocked
      by_cases hempty : s.workList = []
      · simp only [hempty, if_true]
        refine ⟨h.wait.waitList, fun hne => Or.inr ⟨trivial, hwaits hne⟩, fun _ => trivial,
          fun _ _ => trivial, fun _ hnot => (hnot ⟨hcurrent, hsched⟩).elim, nofun, nofun,
          fun hblocked hawake _ => ⟨fun hnone => ?_, fun hne => (hne rfl).elim⟩, ?_⟩
        · exact h.wait.tests hblocked hawake hpc hnone hempty
        · rintro - - (heq | heq) <;> cases heq
      · simp only [hempty, if_false]
        exact ⟨h.wait.waitList, fun hne => Or.inr ⟨trivial, hwaits hne⟩, fun _ => trivial,
          fun _ _ => trivial, fun _ hnot => (hnot ⟨hcurrent, hsched⟩).elim, nofun, nofun, nofun,
          fun _ _ _ => hempty⟩
  | sched =>
      simp only [hpc, Option.some.injEq] at hstep
      subst hstep
      refine ⟨⟨h.tasks.queue, h.tasks.running, fun hne => (hne hcurrent).elim, h.tasks.known,
        h.tasks.notMain, h.tasks.live⟩, ?_, .of_quiet hown hinner,
        ⟨h.works.sound, fun w hw => ?_, h.works.nodup, fun w => ?_⟩⟩
      · refine ⟨h.wait.waitList, fun hne => ?_, fun _ => trivial, fun _ _ => trivial,
          fun hblocked _ => ?_, nofun, fun _ hawake => ?_, fun _ hawake => ?_, fun _ hawake => ?_⟩
        · rcases h.wait.waiting hne with ⟨heq, -⟩ | ⟨-, hblocked⟩
          · rw [hpc] at heq
            cases heq
          · exact Or.inr ⟨trivial, hblocked⟩
        · obtain ⟨hne, hwork⟩ := h.wait.schedules hblocked ⟨hcurrent, hsched⟩ hpc
          refine ⟨hne, fun hwork' => ?_⟩
          obtain ⟨i, call, hcall, hwake⟩ := hwork hwork'
          exact ⟨i, call, hcall, hwake, hown i call hcall⟩
        · cases hawake.2
        · cases hawake.2
        · cases hawake.2
      · rcases hw with hw | hw <;> cases hw
      · have hcount := h.works.conserved w
        rwa [hpc] at hcount
  | remove =>
      simp only [hpc, WorkQueue.waitQueueRemove, Option.some.injEq] at hstep
      subst hstep
      have hempty : s.waitList.erase s.worker = [] := by
        rcases h.wait.waitList with hnil | hone
        · rw [hnil]
          rfl
        · rw [hone, List.erase_cons_head]
      refine ⟨⟨h.tasks.queue, h.tasks.running, h.tasks.others, h.tasks.known, h.tasks.notMain,
        h.tasks.live⟩, ?_, .of_quiet hown hinner,
        ⟨h.works.sound, fun w hw => ?_, h.works.nodup, fun w => ?_⟩⟩
      · exact ⟨Or.inl hempty, fun hne => (hne hempty).elim, fun _ => trivial, fun _ _ => trivial,
          fun _ hnot => (hnot ⟨hcurrent, hsched⟩).elim, nofun, nofun, nofun,
          fun hblocked hawake _ => h.wait.skips hblocked hawake (Or.inl hpc)⟩
      · rcases hw with hw | hw <;> cases hw
      · have hcount := h.works.conserved w
        rwa [hpc] at hcount
  | run =>
      have hout : s.worker ∉ s.base.taskReadyList := by
        rwa [hpc] at hguard
      have hempty : s.waitList = [] :=
        h.wait.not_waiting (by rw [hpc]; nofun) (by rw [hpc]; exact id)
      simp only [hpc, Option.some.injEq] at hstep
      subst hstep
      refine ⟨h.tasks.set_status ⟨hcurrent, hsched⟩ hout (Or.inl rfl) _, ?_,
        .of_quiet hown hinner, ⟨h.works.sound, fun w hw => ?_, h.works.nodup, fun w => ?_⟩⟩
      · refine .of_running (Or.inl hempty) ?_ (fun hne => (hne hempty).elim) nofun
        show (s.base.setStatus s.worker .running).status s.worker = .running
        rw [set_status_status, if_pos rfl]
      · rcases hw with hw | hw <;> cases hw
      · have hcount := h.works.conserved w
        rwa [hpc] at hcount
  | loop =>
      have hblock : s.pc ≠ .block := by
        rw [hpc]
        nofun
      have hsleeps : ¬ s.pc.Sleeps := by
        rw [hpc]
        exact id
      cases hlist : s.workList with
      | nil =>
          simp only [hpc, hlist, Option.some.injEq] at hstep
          subst hstep
          refine h.running_step ⟨hcurrent, hsched⟩ habove hblock hsleeps nofun
            ⟨h.works.sound, fun w hw => ?_, List.nodup_nil, fun w => ?_⟩
          · rcases hw with hw | hw <;> cases hw
          · have hcount := h.works.conserved w
            rwa [hpc, hlist] at hcount
      | cons w rest =>
          simp only [hpc, hlist, Option.some.injEq] at hstep
          subst hstep
          refine h.running_step ⟨hcurrent, hsched⟩ habove hblock hsleeps nofun
            ⟨h.works.sound, fun w' hw => ?_, ?_, fun w' => ?_⟩
          · rcases hw with hw | hw <;> cases hw
            rfl
          · have hnodup := h.works.nodup
            rwa [hlist] at hnodup
          · have hcount := h.works.conserved w'
            rwa [hpc, hlist] at hcount
  | del w =>
      simp only [hpc, Option.some.injEq] at hstep
      subst hstep
      refine h.running_step ⟨hcurrent, hsched⟩ habove (by rw [hpc]; nofun) (by rw [hpc]; exact id)
        nofun ⟨h.works.sound, fun w' hw => ?_, h.works.nodup, fun w' => ?_⟩
      · rcases hw with hw | hw <;> cases hw
        exact h.works.head w (Or.inl hpc)
      · have hcount := h.works.conserved w'
        rwa [hpc] at hcount
  | taking w =>
      rw [hpc] at hguard
      simp only [hpc, Option.some.injEq] at hstep
      subst hstep
      refine h.running_step ⟨hcurrent, hsched⟩ habove (by rw [hpc]; nofun) (by rw [hpc]; exact id)
        nofun ⟨?_, fun w' hw => ?_, h.works.nodup.erase w, fun w' => ?_⟩
      · have hnone : ¬ ∃ i, Call.walking (s.frames i) = true := by
          rintro ⟨i, hwalk⟩
          rw [hguard i] at hwalk
          cases hwalk
        show (s.torn || decide _) = false
        rw [h.works.sound, decide_eq_false hnone]
        rfl
      · rcases hw with hw | hw <;> cases hw
      · have hcount := h.works.conserved w'
        obtain ⟨rest, hlist⟩ := List.head?_eq_some_iff.mp (h.works.head w (Or.inr hpc))
        rw [hpc, hlist] at hcount
        show s.queued w' = s.executed w' + (s.workList.erase w).count w' + if w = w' then 1 else 0
        rw [hcount, hlist, List.erase_cons_head, List.count_cons]
        show _ + (_ + if (w == w') = true then 1 else 0) + 0 = _
        by_cases hw : w = w' <;> (simp [hw]; try omega)
  | exec w =>
      simp only [hpc, Option.some.injEq] at hstep
      subst hstep
      refine h.running_step ⟨hcurrent, hsched⟩ habove (by rw [hpc]; nofun) (by rw [hpc]; exact id)
        nofun ⟨h.works.sound, fun w' hw => ?_, h.works.nodup, fun w' => ?_⟩
      · rcases hw with hw | hw <;> cases hw
      · have hcount := h.works.conserved w'
        rw [hpc] at hcount
        replace hcount : s.queued w' = s.executed w' + s.workList.count w' +
          if w = w' then 1 else 0 := hcount
        show s.queued w' = Function.update s.executed w (s.executed w + 1) w' +
          s.workList.count w' + 0
        by_cases hw : w = w'
        · subst hw
          rw [Function.update_self]
          rw [if_pos rfl] at hcount
          omega
        · rw [Function.update_of_ne (Ne.symm hw)]
          rw [if_neg hw] at hcount
          exact hcount

/-! ## The calls go on -/

omit [DecidableEq Tid] [DecidableEq W] [Fintype ι] in
theorem set_frame_frames (s : WorkQueue Tid W ι) (i j : ι) (frame : Option (Call Tid W)) :
    (s.setFrame i frame).frames j = if j = i then frame else s.frames j := by
  show Function.update s.frames i frame j = _
  rw [Function.update_apply]

omit [DecidableEq Tid] [DecidableEq W] [Fintype ι] in
/-- A call is the new one, or one from before. -/
theorem frame_cases {frame : Option (Call Tid W)} {j : ι} {call : Call Tid W}
    (h : (s.setFrame i frame).frames j = some call) : frame = some call ∨ s.frames j = some call := by
  rw [set_frame_frames] at h
  split at h
  · exact Or.inl h
  · exact Or.inr h

omit [DecidableEq Tid] [DecidableEq W] [Fintype ι] in
/-- A call that is not about to wake the worker changes its frame. -/
theorem exists_set_frame {frame : Option (Call Tid W)} {P : Call Tid W → Prop}
    (hold : ∀ call, s.frames i = some call → ¬ P call)
    (h : ∃ j call, s.frames j = some call ∧ P call) :
    ∃ j call, (s.setFrame i frame).frames j = some call ∧ P call := by
  obtain ⟨j, call, hcall, hP⟩ := h
  refine ⟨j, call, ?_, hP⟩
  have hne : j ≠ i := by
    rintro rfl
    exact hold call hcall hP
  rwa [set_frame_frames, if_neg hne]

omit [DecidableEq Tid] [Fintype ι] in
/-- A call goes on without touching the lists. -/
theorem WorkInv.set_frame (h : WorkInv s) {frame : Option (Call Tid W)}
    (hold : ∀ call, s.frames i = some call → call.point = .wake → s.waitList = [])
    (hnew : ∀ call, frame = some call → call.point ≠ .wake ∧
      (call.inner = true → s.inSchedule = true ∧ call.owner = s.base.current)) :
    WorkInv (s.setFrame i frame) := by
  have hwake : s.waitList ≠ [] → ∀ call, s.frames i = some call → call.point ≠ .wake :=
    fun hne call hcall hpoint => hne (hold call hcall hpoint)
  refine ⟨⟨h.tasks.queue, h.tasks.running, h.tasks.others, h.tasks.known, h.tasks.notMain,
    h.tasks.live⟩, ⟨h.wait.waitList, h.wait.waiting, h.wait.sleeps, h.wait.woken,
    fun hblocked hnot => ?_, h.wait.unblocked, h.wait.tests, fun hblocked hawake hpc => ?_,
    h.wait.skips⟩, ⟨fun j call hcall hpoint howner => ?_, fun j call hcall hin => ?_,
    fun j call hcall hin hpoint => ?_⟩, ⟨h.works.sound, h.works.head, h.works.nodup,
    h.works.conserved⟩⟩
  · obtain ⟨hne, hwork⟩ := h.wait.asleep hblocked hnot
    refine ⟨hne, fun hwork' => ?_⟩
    exact exists_set_frame (fun call hcall hP => hwake hne call hcall hP.1) (hwork hwork')
  · obtain ⟨hne, hwork⟩ := h.wait.schedules hblocked hawake hpc
    refine ⟨hne, fun hwork' => ?_⟩
    exact exists_set_frame (fun call hcall hP => hwake hne call hcall hP) (hwork hwork')
  · rcases frame_cases hcall with heq | hcall'
    · exact ((hnew call heq).1 hpoint).elim
    · exact h.calls.own j call hcall' hpoint howner
  · rcases frame_cases hcall with heq | hcall'
    · exact (hnew call heq).2 hin
    · exact h.calls.inner j call hcall' hin
  · rcases frame_cases hcall with heq | hcall'
    · exact ((hnew call heq).1 hpoint).elim
    · exact h.calls.innerWake j call hcall' hin hpoint

omit [DecidableEq Tid] [Fintype ι] in
/-- A work comes to the end of the list. -/
theorem WorkInv.add_work (h : WorkInv s) {call : Call Tid W} {work : W}
    (hcall : s.frames i = some call) (hpoint : call.point = .add work)
    (howner : call.owner = s.base.current) (hinner : call.inner = s.inSchedule)
    (hguard : AddsWell s (s.frames i)) :
    WorkInv ((s.addWork work).setFrame i (some { call with point := .wake })) := by
  obtain ⟨owner, inner, point⟩ := call
  cases hpoint
  rw [hcall] at hguard
  obtain ⟨hnew, hschedule, htaking⟩ := hguard
  have hne : s.workList ++ [work] ≠ [] := List.append_ne_nil_of_right_ne_nil _ (List.cons_ne_nil _ _)
  have hself : ((s.addWork work).setFrame i (some ⟨owner, inner, .wake⟩)).frames i =
      some ⟨owner, inner, .wake⟩ := Function.update_self ..
  refine ⟨⟨h.tasks.queue, h.tasks.running, h.tasks.others, h.tasks.known, h.tasks.notMain,
    h.tasks.live⟩, ⟨h.wait.waitList, h.wait.waiting, h.wait.sleeps, h.wait.woken,
    fun hblocked hnot => ?_, fun _ _ => hne, fun _ _ _ _ => hne, fun hblocked hawake hpc => ?_,
    fun _ _ _ => hne⟩, ⟨fun j c hc _ _ => hne, fun j c hc hin => ?_, fun j c hc hin hwake => ?_⟩,
    ⟨?_, fun w hw => ?_, ?_, fun w => ?_⟩⟩
  · obtain ⟨hwait, -⟩ := h.wait.asleep hblocked hnot
    refine ⟨hwait, fun _ => ⟨i, _, hself, rfl, fun hworker => ?_⟩⟩
    have hcurrent : s.base.current = s.worker := howner.symm.trans hworker
    cases hs : s.inSchedule with
    | false => exact hnot ⟨hcurrent, hs⟩
    | true => exact hwait (hschedule hs)
  · exact ⟨(h.wait.schedules hblocked hawake hpc).1, fun _ => ⟨i, _, hself, rfl⟩⟩
  · rcases frame_cases hc with ⟨⟨⟩⟩ | hc'
    · exact ⟨hinner.symm.trans hin, howner⟩
    · exact h.calls.inner j c hc' hin
  · rcases frame_cases hc with ⟨⟨⟩⟩ | hc'
    · exact hschedule (hinner.symm.trans hin)
    · exact h.calls.innerWake j c hc' hin hwake
  · show (s.addWork work).torn = false
    rw [WorkQueue.addWork]
    cases hpc : s.pc with
    | taking w =>
        rw [hpc] at htaking
        replace htaking : 2 ≤ s.workList.length := htaking
        show (s.torn || decide _) = false
        rw [h.works.sound, decide_eq_false (by omega)]
        rfl
    | add | block | test | sched | remove | run | loop | del | exec => exact h.works.sound
  · show (s.workList ++ [work]).head? = some w
    rw [List.head?_append, h.works.head w hw]
    rfl
  · show (s.workList ++ [work]).Nodup
    rw [List.nodup_append_comm]
    exact List.nodup_cons.mpr ⟨hnew, h.works.nodup⟩
  · have hcount := h.works.conserved w
    show Function.update s.queued work (s.queued work + 1) w =
      s.executed w + (s.workList ++ [work]).count w + s.pc.holds w
    rw [List.count_append, List.count_singleton]
    by_cases hw : w = work
    · subst hw
      rw [Function.update_self, if_pos (beq_self_eq_true w)]
      omega
    · rw [Function.update_of_ne hw, if_neg (by simpa using Ne.symm hw)]
      omega

omit [DecidableEq W] [DecidableEq ι] [Fintype ι] in
/-- A task becomes ready. -/
theorem TasksInv.task_unblock (h : TasksInv s) {task : Tid} {base : SchedState Tid}
    (hmem : task ∈ s.base.taskGlobalList) (hstep : s.base.taskUnblock task = some base) :
    TasksInv { s with base } ∧ base.status = Function.update s.base.status task .ready ∧
      base.current = s.base.current := by
  have hasleep : s.base.status task = .blocked ∨ s.base.status task = .waiting ∨
      s.base.status task = .stopped := by
    unfold SchedState.taskUnblock at hstep
    split at hstep
    · assumption
    · cases hstep
  obtain ⟨base', hbase, hqueue, -, hstatus, hcurrent, hlist⟩ := h.queue.task_unblock hmem hasleep
  rw [hstep] at hbase
  cases hbase
  have hmain : base.mainThread = s.base.mainThread := by
    have hready : s.base.status task ≠ .ready := by
      rcases hasleep with heq | heq | heq <;> rw [heq] <;> decide
    have hout : task ∉ s.base.taskReadyList := fun hin =>
      hready ((h.queue.ready task hmem).mp hin)
    rw [SchedState.taskUnblock, if_pos hasleep, if_pos hready, if_neg hout] at hstep
    rw [← Option.some.inj hstep]
    rfl
  have hrunning : s.base.status task ≠ .running := by
    rcases hasleep with heq | heq | heq <;> rw [heq] <;> decide
  refine ⟨⟨hqueue, fun t ht hrun => ?_, fun hne hsched => ?_, ?_, ?_, ?_⟩, hstatus, hcurrent⟩
  · replace hrun : base.status t = .running := hrun
    show t = base.current
    rw [hcurrent]
    rw [hstatus, Function.update_apply] at hrun
    split at hrun
    · cases hrun
    · exact h.running t (hlist ▸ ht) hrun
  · show base.status base.current = .running
    replace hne : base.current ≠ s.worker := hne
    rw [hcurrent] at hne ⊢
    have hrun := h.others hne hsched
    rw [hstatus, Function.update_of_ne]
    · exact hrun
    · rintro heq
      rw [heq] at hrun
      exact hrunning hrun
  · show s.worker ∈ base.taskGlobalList
    rw [hlist]
    exact h.known
  · show s.worker ≠ base.mainThread
    rw [hmain]
    exact h.notMain
  · show base.status s.worker = .ready ∨ base.status s.worker = .running ∨
      base.status s.worker = .blocked
    rw [hstatus, Function.update_apply]
    split
    · exact Or.inl rfl
    · exact h.live

omit [Fintype ι] in
/-- `WaitQueueWakeUp`. -/
theorem WorkInv.wake_up (h : WorkInv s) {call : Call Tid W} (hcall : s.frames i = some call)
    (hpoint : call.point = .wake) (howner : call.owner = s.base.current)
    (hinner : call.inner = s.inSchedule)
    (hstep : s.waitQueueWakeUp.map (·.setFrame i none) = some t) : WorkInv t := by
  obtain ⟨u, hwake, rfl⟩ := Option.map_eq_some_iff.mp hstep
  unfold WorkQueue.waitQueueWakeUp at hwake
  rcases h.wait.waitList with hempty | hone
  · rw [hempty] at hwake
    cases hwake
    exact h.set_frame (fun _ _ _ => hempty) nofun
  · have hne : s.waitList ≠ [] := by
      rw [hone]
      exact List.cons_ne_nil _ _
    have hsched : s.inSchedule = false := by
      cases hs : s.inSchedule with
      | false => rfl
      | true => exact (hne (h.calls.innerWake i call hcall (hinner.trans hs) hpoint)).elim
    rw [hone] at hwake
    obtain ⟨base, hbase, rfl⟩ := Option.map_eq_some_iff.mp hwake
    have hsound : (s.torn || s.inSchedule) = false := by
      rw [h.works.sound, hsched]
      rfl
    unfold SchedState.taskWakeUp at hbase
    have hworks : ListInv { s with base, waitList := [], torn := s.torn || s.inSchedule } :=
      ⟨hsound, h.works.head, h.works.nodup, h.works.conserved⟩
    refine WorkInv.set_frame ?_ (fun _ _ _ => rfl) nofun
    rcases h.wait.waiting hne with ⟨hpc, hrunning, -⟩ | ⟨hwaits, hblocked⟩
    · have hsame : s.base = base := by
        rw [hrunning, if_neg (by decide)] at hbase
        exact Option.some.inj hbase
      subst hsame
      have hcurrent : s.worker = s.base.current :=
        h.tasks.running _ h.tasks.known hrunning
      refine ⟨⟨h.tasks.queue, h.tasks.running, h.tasks.others, h.tasks.known, h.tasks.notMain,
        h.tasks.live⟩, .of_running (Or.inl rfl) hrunning (fun hnil => (hnil rfl).elim)
        fun _ _ => ?_, ⟨h.calls.own, h.calls.inner, fun _ _ _ _ _ => rfl⟩, hworks⟩
      exact h.calls.own i call hcall hpoint (howner.trans hcurrent.symm)
    · rw [hblocked, if_pos (Or.inl rfl)] at hbase
      obtain ⟨htasks, hstatus, hcurrent⟩ := h.tasks.task_unblock h.tasks.known hbase
      have hready : base.status s.worker = .ready := by
        rw [hstatus, Function.update_self]
      have hnot : ¬ base.status s.worker = .blocked := by
        rw [hready]
        nofun
      refine ⟨⟨htasks.queue, htasks.running, htasks.others, htasks.known, htasks.notMain,
        htasks.live⟩, ⟨Or.inl rfl, fun hnil => (hnil rfl).elim, fun hb => (hnot hb).elim,
        fun _ _ => hwaits.sleeps, fun hb => (hnot hb).elim, fun hpc => ?_,
        fun hb => (hnot hb).elim, fun hb => (hnot hb).elim, fun hb => (hnot hb).elim⟩,
        ⟨h.calls.own, ?_, fun _ _ _ _ _ => rfl⟩, hworks⟩
      · replace hpc : s.pc = .block := hpc
        rw [hpc] at hwaits
        exact hwaits.elim
      · intro j c hc hin
        show _ ∧ c.owner = base.current
        rw [hcurrent]
        exact h.calls.inner j c hc hin

omit [Fintype ι] in
/-- Every step of a call. -/
theorem WorkInv.queue_step (h : WorkInv s) {call : Call Tid W} (hcall : s.frames i = some call)
    (habove : s.Above (s.frames i)) (hguard : AddsWell s (s.frames i))
    (hstep : s.queueStep i call = some t) : WorkInv t := by
  rw [hcall] at habove
  obtain ⟨howner, hinner⟩ := habove
  unfold WorkQueue.queueStep at hstep
  have hquiet : ∀ point : Queueing W, point ≠ .wake → ∀ c,
      some { call with point } = some c → c.point ≠ .wake ∧
        (c.inner = true → s.inSchedule = true ∧ c.owner = s.base.current) := by
    rintro point hpoint c ⟨⟩
    exact ⟨hpoint, fun hin => ⟨hinner.symm.trans hin, howner⟩⟩
  have hsame : ∀ {point : Queueing W}, call.point = point → point ≠ .wake → ∀ c,
      s.frames i = some c → c.point = .wake → s.waitList = [] := by
    intro point hpoint hne c hc hwake
    rw [hcall] at hc
    cases hc
    exact (hne (hpoint.symm.trans hwake)).elim
  cases hpoint : call.point with
  | find work =>
      simp only [hpoint, Option.some.injEq] at hstep
      subst hstep
      exact h.set_frame (hsame hpoint nofun) (hquiet _ nofun)
  | finding work =>
      simp only [hpoint] at hstep
      split at hstep
      · cases hstep
        exact h.set_frame (hsame hpoint nofun) nofun
      · cases hstep
        exact h.set_frame (hsame hpoint nofun) (hquiet _ nofun)
  | add work =>
      simp only [hpoint, Option.some.injEq] at hstep
      subst hstep
      exact h.add_work hcall hpoint howner hinner hguard
  | wake =>
      simp only [hpoint] at hstep
      exact h.wake_up hcall hpoint howner hinner hstep

end XBook.Work
