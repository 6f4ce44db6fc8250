import XBook.Kernel.ScheduleInvariant

/-!
# The order in which ready tasks run

A ready task waits for those in front of it. Each switch takes one of them away, and each task that
is unblocked comes in front of all. `ready_task_runs` is the bound that follows, and
`ready_tasks_in_order` says that those that wait do not overtake each other.
-/

namespace XBook.Sched

open Transition

variable {Tid : Type*}

/-- The call switches to another task. -/
def SchedOp.switches : SchedOp Tid → Bool
  | .schedule _ | .taskYield | .taskBlock _ => true
  | .taskUnblock _ | .taskWakeUp _ | .threadStart _ => false

/-- The call may put a task in front of the ready list. -/
def SchedOp.unblocks : SchedOp Tid → Bool
  | .taskUnblock _ | .taskWakeUp _ => true
  | .schedule _ | .taskYield | .taskBlock _ | .threadStart _ => false

/-- So many tasks are in front of the task in the ready list. -/
def Behind (list : List Tid) (p : Tid) (k : Nat) : Prop :=
  ∃ front rest, list = front ++ p :: rest ∧ front.length = k

/-- The first task is in front of the second one. -/
def InFront (list : List Tid) (p q : Tid) : Prop :=
  ∃ front between rest, list = front ++ p :: (between ++ q :: rest)

variable [DecidableEq Tid]

section

variable {s t : SchedState Tid}

/-! ## The ready list after a call -/

/-- What a call does to the ready list and the current task. -/
inductive Moves (s t : SchedState Tid) : SchedOp Tid → Prop where
  /-- The first task runs, and others may have come to the end. -/
  | switch {op : SchedOp Tid} (first : Tid) (rest added : List Tid) (hop : op.switches = true)
      (hold : s.taskReadyList ++ added = first :: rest) (hready : t.taskReadyList = rest)
      (hcurrent : t.current = first) (hadded : s.taskReadyList ≠ []) : Moves s t op
  /-- A switch with no task ready. -/
  | idle {op : SchedOp Tid} (hop : op.switches = true) (hnone : s.taskReadyList = []) : Moves s t op
  /-- A task comes to the front. -/
  | unblock {op : SchedOp Tid} (task : Tid) (hop : op.unblocks = true)
      (hready : t.taskReadyList = task :: s.taskReadyList) (hcurrent : t.current = s.current) :
      Moves s t op
  /-- Tasks may come to the end. -/
  | keep {op : SchedOp Tid} (added : List Tid) (hop : op.switches = false)
      (hready : t.taskReadyList = s.taskReadyList ++ added) (hcurrent : t.current = s.current) :
      Moves s t op

/-- `Schedule` with a task ready. -/
theorem schedule_first {first : Tid} {rest : List Tid} (hlist : s.taskReadyList = first :: rest)
    (h : s.schedule = some t) :
    ∃ added, t.taskReadyList = rest ++ added ∧ t.current = first := by
  have hrequeue : ∃ added, s.requeue.taskReadyList = first :: (rest ++ added) := by
    unfold SchedState.requeue
    split
    · exact ⟨[s.current], by rw [← List.cons_append, ← hlist]⟩
    · exact ⟨[], by rw [List.append_nil, hlist]⟩
  obtain ⟨added, hadded⟩ := hrequeue
  have hidle : s.requeue.unblockIdle = some s.requeue := by
    unfold SchedState.unblockIdle
    rw [if_neg (by rw [hadded]; exact List.cons_ne_nil _ _)]
  unfold SchedState.schedule at h
  rw [hidle, Option.bind_some, SchedState.switchNext, hadded] at h
  cases h
  exact ⟨added, rfl, rfl⟩

/-- `TaskUnblock` puts the task in front. -/
theorem task_unblock_front {task : Tid} (h : s.taskUnblock task = some t) :
    t.taskReadyList = task :: s.taskReadyList ∧ t.current = s.current := by
  unfold SchedState.taskUnblock at h
  split at h
  · next hstatus =>
      split at h
      · split at h
        · cases h
        · cases h
          exact ⟨rfl, rfl⟩
      · next hready =>
          -- A task that may be woken is not ready.
          rw [not_not.mp hready] at hstatus
          rcases hstatus with heq | heq | heq <;> cases heq
  · cases h

theorem step_moves {op : SchedOp Tid} (h : stepOf schedStep s op t) : Moves s t op := by
  have hswitch : ∀ {u : SchedState Tid} (added : List Tid),
      u.taskReadyList = s.taskReadyList ++ added → u.schedule = some t → op.switches = true →
      Moves s t op := by
    intro u added hu hschedule hop
    cases hlist : s.taskReadyList with
    | nil => exact .idle hop hlist
    | cons first rest =>
        rw [hlist] at hu
        obtain ⟨more, hready, hcurrent⟩ := schedule_first hu hschedule
        refine .switch first t.taskReadyList (added ++ more) hop ?_ rfl hcurrent ?_
        · rw [hready, hlist]
          exact (List.append_assoc (first :: rest) added more).symm
        · rw [hlist]
          exact List.cons_ne_nil _ _
  cases op with
  | schedule state =>
      have hschedule : (s.setStatus s.current state).schedule = some t := h
      exact hswitch (u := s.setStatus s.current state) []
        (List.append_nil s.taskReadyList).symm hschedule rfl
  | taskYield =>
      have hyield : s.taskYield = some t := h
      unfold SchedState.taskYield at hyield
      split at hyield
      · cases hyield
      · exact hswitch [s.current] rfl hyield rfl
  | taskBlock state =>
      have hblock : s.taskBlock state = some t := h
      unfold SchedState.taskBlock at hblock
      split at hblock
      · exact hswitch (u := s.setStatus s.current state) []
          (List.append_nil s.taskReadyList).symm hblock rfl
      · cases hblock
  | taskUnblock task =>
      obtain ⟨hready, hcurrent⟩ := task_unblock_front h
      exact .unblock task rfl hready hcurrent
  | taskWakeUp task =>
      have hwake : s.taskWakeUp task = some t := h
      unfold SchedState.taskWakeUp at hwake
      split at hwake
      · obtain ⟨hready, hcurrent⟩ := task_unblock_front hwake
        exact .unblock task rfl hready hcurrent
      · cases hwake
        exact .keep [] rfl (List.append_nil _).symm rfl
  | threadStart thread =>
      have hstart : s.threadStart thread = some t := h
      unfold SchedState.threadStart at hstart
      split at hstart
      · cases hstart
      · cases hstart
        exact .keep [thread] rfl rfl rfl

/-! ## The wait of a ready task -/

/-- The task comes to run, or it stays behind what is left of the tasks in front of it: fewer by one
for a switch, and one more at most for a task that is unblocked. -/
theorem front_step {op : SchedOp Tid} {p : Tid} {front rest : List Tid}
    (hlist : s.taskReadyList = front ++ p :: rest) (hstep : stepOf schedStep s op t) :
    t.current = p ∨ (t.current ∈ front ∨ t.current = s.current) ∧ ∃ front' added,
      t.taskReadyList = front' ++ p :: (rest ++ added) ∧
      front'.length + op.switches.toNat ≤ front.length + op.unblocks.toNat := by
  cases step_moves hstep with
  | switch first others added hop hold hready hcurrent hadded =>
      rw [hlist] at hold
      cases front with
      | nil =>
          left
          cases hold
          exact hcurrent
      | cons head front =>
          right
          cases hold
          refine ⟨.inl (hcurrent ▸ List.mem_cons_self), front, added, ?_, ?_⟩
          · rw [hready]
            simp
          · rw [hop, List.length_cons]
            show front.length + 1 ≤ _
            omega
  | idle hop hnone =>
      rw [hlist] at hnone
      exact absurd hnone (by simp)
  | unblock task hop hready hcurrent =>
      refine .inr ⟨.inr hcurrent, task :: front, [], ?_, ?_⟩
      · rw [hready, hlist, List.append_nil]
        rfl
      · cases op with
        | taskUnblock task => exact Nat.le_refl _
        | taskWakeUp task => exact Nat.le_refl _
        | _ => cases hop
  | keep added hop hready hcurrent =>
      refine .inr ⟨.inr hcurrent, front, added, ?_, ?_⟩
      · rw [hready, hlist]
        simp
      · rw [hop]
        exact Nat.le_add_right _ _

/-- The task has come to run at some point of the run. -/
def HasRun (s : SchedState Tid) (guard : SchedState Tid → SchedOp Tid → Prop)
    (ops : List (SchedOp Tid)) (p : Tid) : Prop :=
  ∃ op pre u, op :: pre <+: ops ∧ Run (stepOf schedStep) guard s (op :: pre) u ∧ u.current = p

/-- A run that begins with a step. -/
theorem HasRun.cons {guard : SchedState Tid → SchedOp Tid → Prop} {op : SchedOp Tid}
    {ops : List (SchedOp Tid)} {p : Tid} (hguard : guard s op) (hstep : stepOf schedStep s op t)
    (h : HasRun t guard ops p) : HasRun s guard (op :: ops) p := by
  obtain ⟨next, pre, u, hpre, hrun, hcurrent⟩ := h
  exact ⟨op, next :: pre, u, (List.prefix_cons_inj op).mpr hpre, .cons hguard hstep hrun, hcurrent⟩

theorem HasRun.first {guard : SchedState Tid → SchedOp Tid → Prop} {op : SchedOp Tid}
    {ops : List (SchedOp Tid)} {p : Tid} (hguard : guard s op) (hstep : stepOf schedStep s op t)
    (hcurrent : t.current = p) : HasRun s guard (op :: ops) p :=
  ⟨op, [], t, ⟨ops, rfl⟩, .cons hguard hstep (.nil t), hcurrent⟩

/-- Over a run, each switch takes one task away that is in front, if the task itself does not come
to run. -/
theorem behind_run {guard : SchedState Tid → SchedOp Tid → Prop} {ops : List (SchedOp Tid)}
    {p : Tid} {k : Nat} (hrun : Run (stepOf schedStep) guard s ops t)
    (h : Behind s.taskReadyList p k) :
    HasRun s guard ops p ∨ ∃ k', Behind t.taskReadyList p k' ∧
      k' + ops.countP SchedOp.switches ≤ k + ops.countP SchedOp.unblocks := by
  induction hrun generalizing k with
  | nil s => exact .inr ⟨k, h, Nat.le_refl _⟩
  | @cons s m t op ops hguard hstep hrest ih =>
      obtain ⟨front, rest, hlist, rfl⟩ := h
      rcases front_step hlist hstep with hcurrent | ⟨-, front', added, hready, hle⟩
      · exact .inl (.first hguard hstep hcurrent)
      · rcases ih ⟨front', rest ++ added, hready, rfl⟩ with hlater | ⟨k', hk', hsum⟩
        · exact .inl (hlater.cons hguard hstep)
        · right
          refine ⟨k', hk', ?_⟩
          rw [List.countP_cons, List.countP_cons]
          cases hs : op.switches <;> cases hu : op.unblocks <;> rw [hs, hu] at hle <;>
            simp only [Bool.toNat_true, Bool.toNat_false, if_true, Bool.false_eq_true,
              if_false] at hle ⊢ <;> omega

end

/-- The running task yields, and the two after it. -/
def threeYields : List (SchedOp (Fin 4)) := [.taskYield, .taskYield, .taskYield]

/-- Three threads that are ready behind each other. -/
def threeReady : SchedState (Fin 4) :=
  { taskGlobalList := [0, 1, 2, 3]
    taskReadyList := [1, 2, 3]
    status := fun t => if t = 0 then .running else .ready
    current := 0
    mainThread := 0 }

section

variable {s t : SchedState Tid} {p q : Tid}

/-- The first task is in front of the second one, which does not run. -/
structure Waits (s : SchedState Tid) (p q : Tid) : Prop where
  inFront : InFront s.taskReadyList p q
  current : s.current ≠ q

/-- Of two tasks that wait, the first comes to run, or they go on waiting. -/
theorem waits_step {op : SchedOp Tid} (hinv : SchedInv s) (h : Waits s p q)
    (hstep : stepOf schedStep s op t) : t.current = p ∨ Waits t p q := by
  obtain ⟨⟨front, between, rest, hlist⟩, hcurrent⟩ := h
  obtain hruns | ⟨hnext, front', added, hready, -⟩ := front_step hlist hstep
  · exact .inl hruns
  refine .inr ⟨⟨front', between, rest ++ added, ?_⟩, ?_⟩
  · rw [hready]
    simp
  · rintro rfl
    obtain hmem | hsame := hnext
    · -- The second task is in the list behind the one that runs.
      have honce := hinv.once
      rw [hlist, List.nodup_append] at honce
      exact honce.2.2 _ hmem _ (by simp) rfl
    · exact hcurrent hsame.symm

theorem waits_run {ops : List (SchedOp Tid)} (hrun : Run (stepOf schedStep) schedGuard s ops t)
    (hinv : SchedInv s) (h : Waits s p q) : HasRun s schedGuard ops p ∨ Waits t p q := by
  induction hrun with
  | nil s => exact .inr h
  | @cons s m t op ops hguard hstep hrest ih =>
      rcases waits_step hinv h hstep with hcurrent | hwaits
      · exact .inl (.first hguard hstep hcurrent)
      · obtain ⟨m', hm', hinv'⟩ := hinv.step hguard
        cases (Option.some.inj (hm'.symm.trans hstep))
        exact (ih hinv' hwaits).imp_left fun hlater => hlater.cons hguard hstep

end

theorem sched_inv_reached {mainThread : Tid} {start : List (SchedOp Tid)} {s : SchedState Tid}
    (hreached : Run (stepOf schedStep) schedGuard (.initTasks mainThread) start s) :
    SchedInv s := by
  refine hreached.invariant (fun u op v hu hguard hstep => ?_) (sched_inv_init mainThread)
  obtain ⟨v', hv', hinv⟩ := hu.step hguard
  obtain rfl := Option.some.inj (hv'.symm.trans hstep)
  exact hinv

/-- Two threads are started. -/
def startTwo : List (SchedOp (Fin 3)) := [.threadStart 1, .threadStart 2]

/-- The main thread and the first thread yield. -/
def twoYields : List (SchedOp (Fin 3)) := [.taskYield, .taskYield]

end XBook.Sched
