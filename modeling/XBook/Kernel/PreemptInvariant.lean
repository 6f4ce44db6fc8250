import XBook.Kernel.Preempt
import XBook.Lib.Transition

/-!
# The scheduler invariant under preemption

What holds of the ready list, once the stores that the running task has begun are done, while
preemption spares the points of `preemptGuard`. Every other task is suspended behind `SwitchTo`,
and a frame below another is at a point where `Schedule` may be called again.
-/

namespace XBook.Preempt

open Links Transition
open PreemptState (set_status_status set_registered_registered set_frames_frames)

variable {Tid : Type*} [DecidableEq Tid]

/-- What the current task is at each point. -/
def OwnInv (s : PreemptState Tid) (l : List Tid) : Option (Pc Tid) → Prop
  | none | some .resumed | some .done | some .add =>
      s.status s.current = .running ∧ s.current ∉ l
  | some (.up task) =>
      s.status s.current = .running ∧ s.current ∉ l ∧ s.status task = .ready
  | some .enter | some .toSchedule | some .registering =>
      s.current ∈ l ↔ s.status s.current = .ready
  | some .resetTicks | some .setReady => s.status s.current = .running ∧ s.current ∈ l
  | some .testEmpty | some .takeFirst =>
      s.status s.current ≠ .running ∧ (s.current ∈ l ↔ s.status s.current = .ready)
  | some .unblockIdle =>
      s.status s.current ≠ .running ∧ (s.current ∈ l ↔ s.status s.current = .ready) ∧
        s.Asleep s.mainThread
  | some (.delete next) =>
      s.status s.current ≠ .running ∧ (s.current ∈ l ↔ s.status s.current = .ready) ∧ next ∈ l
  | some (.setRunning next) =>
      s.status next = .ready ∧ (next ≠ s.current →
        s.status s.current ≠ .running ∧ (s.current ∈ l ↔ s.status s.current = .ready))
  | some (.switchTo next) =>
      s.status next = .running ∧ (next ≠ s.current →
        s.status s.current ≠ .running ∧ (s.current ∈ l ↔ s.status s.current = .ready))

/-- The tasks, where `l` is the ready list and the current task is at `pc`. -/
structure ReadyInv (s : PreemptState Tid) (l : List Tid) (pc : Option (Pc Tid)) : Prop where
  known : ∀ t ∈ l, t ∈ s.taskGlobalList
  current : s.current ∈ s.taskGlobalList
  main : s.mainThread ∈ s.taskGlobalList
  alive : s.status s.mainThread ≠ .zombie
  born : ∀ t ∈ s.taskGlobalList, s.status t ≠ .died
  others : ∀ t ∈ s.taskGlobalList, t ≠ s.current → pc.bind Pc.handed ≠ some t →
    (t ∈ l ↔ s.status t = .ready) ∧ s.status t ≠ .running
  handed : ∀ t, pc.bind Pc.handed = some t → t ∈ s.taskGlobalList ∧ t ∉ l ∧
    (s.status t = .ready ∨ s.status t = .running)
  own : OwnInv s l pc
  blocked : ∀ t ∈ s.taskGlobalList, s.status t = .blocked →
    s.registered t = true ∨ t = s.current ∧ pc = some .registering

/-- The frames of the tasks. -/
structure FramesInv (s : PreemptState Tid) : Prop where
  suspended : ∀ t ∈ s.taskGlobalList, t ≠ s.current →
    ∃ restore rest, s.frames t = ⟨.resumed, [], restore⟩ :: rest
  below : ∀ t ∈ s.taskGlobalList, ∀ f ∈ (s.frames t).tail, f.stores = [] ∧ f.pc.Interruptible

/-- The invariant, where `l` is the ready list after the stores that are still to come. -/
structure PreemptInv (s : PreemptState Tid) (l : List Tid) : Prop where
  circle : Circle (settle s.links s.pending) none (l.map some)
  ready : ReadyInv s l s.pc
  frames : FramesInv s

/-- The waiting of the claim: blocked and registered, or waiting for a child, a signal or its
parent. -/
def Waits (s : PreemptState Tid) (t : Tid) : Prop :=
  s.status t = .blocked ∧ s.registered t = true ∨ s.status t = .waiting ∨
    s.status t = .stopped ∨ s.status t = .zombie

/-- The ready list is a doubly linked list that holds no task twice, once the stores that the
running task has begun are done. Every task is on it, or waits, or runs, or is in the hands of the
running task. -/
def ReadyListSafe (s : PreemptState Tid) : Prop :=
  ∃ l : List Tid, Circle (settle s.links s.pending) none (l.map some) ∧ l.Nodup ∧
    ∀ t ∈ s.taskGlobalList, t ≠ s.current → s.handed ≠ some t → t ∈ l ∨ Waits s t

section

variable {s : PreemptState Tid} {l : List Tid}

theorem PreemptInv.safe (h : PreemptInv s l) : ReadyListSafe s := by
  refine ⟨l, h.circle, ?_, ?_⟩
  · exact List.Pairwise.of_map some (fun _ _ hne heq => hne (congrArg some heq))
      (List.nodup_cons.mp h.circle.nodup).2
  · intro t ht hne hnot
    obtain ⟨hready, hrunning⟩ := h.ready.others t ht hne hnot
    have hdied := h.ready.born t ht
    cases hstatus : s.status t with
    | ready => exact .inl (hready.mpr hstatus)
    | running => exact absurd hstatus hrunning
    | blocked =>
        rcases h.ready.blocked t ht hstatus with hreg | ⟨heq, -⟩
        · exact .inr (.inl ⟨hstatus, hreg⟩)
        · exact absurd heq hne
    | waiting => exact .inr (.inr (.inl hstatus))
    | stopped => exact .inr (.inr (.inr (.inl hstatus)))
    | zombie => exact .inr (.inr (.inr (.inr hstatus)))
    | died => exact absurd hstatus hdied

theorem preempt_inv_init (mainThread : Tid) (priority : Tid → Int) :
    PreemptInv (.initTasks mainThread priority) [] := by
  constructor
  · refine ⟨?_, by simp⟩
    simp [PreemptState.initTasks, PreemptState.pending, Linked]
  · constructor
    all_goals simp [PreemptState.initTasks, PreemptState.pc, OwnInv]
  · constructor
    all_goals simp [PreemptState.initTasks]

/-! ## Frames -/

/-- The frames of the current task change, and those that get below another are at safe points. -/
theorem FramesInv.set (h : FramesInv s) {frames : List (Frame Tid)}
    (hbelow : ∀ f ∈ frames.tail, f.stores = [] ∧ f.pc.Interruptible) :
    FramesInv (s.setFrames s.current frames) := by
  have hframes := fun t => set_frames_frames s s.current t frames
  constructor
  · intro t ht hne
    have hother : t ≠ s.current := hne
    rw [hframes, if_neg hother]
    exact h.suspended t ht hother
  · intro t ht f hf
    rw [hframes] at hf
    split at hf
    · exact hbelow f hf
    · exact h.below t ht f hf

omit [DecidableEq Tid] in
/-- The invariant of the tasks does not look at the links, the frames, or the ticks. -/
theorem ReadyInv.congr {s' : PreemptState Tid} {pc : Option (Pc Tid)} (h : ReadyInv s l pc)
    (hstatus : s'.status = s.status) (hregistered : s'.registered = s.registered)
    (hlist : s'.taskGlobalList = s.taskGlobalList) (hcurrent : s'.current = s.current)
    (hmain : s'.mainThread = s.mainThread) : ReadyInv s' l pc := by
  cases s
  cases s'
  simp only at hstatus hregistered hlist hcurrent hmain
  subst hstatus hregistered hlist hcurrent hmain
  exact ⟨h.known, h.current, h.main, h.alive, h.born, h.others, h.handed, h.own, h.blocked⟩

/-- The frame on top changes. -/
theorem preempt_inv_top {f : Frame Tid} {rest : List (Frame Tid)}
    (hcircle : Circle (settle s.links f.stores) none (l.map some))
    (hready : ReadyInv s l (some f.pc)) (hframes : FramesInv s)
    (hrest : ∀ g ∈ rest, g.stores = [] ∧ g.pc.Interruptible) :
    PreemptInv (s.setFrames s.current (f :: rest)) l := by
  have htop : (s.setFrames s.current (f :: rest)).frames s.current = f :: rest :=
    Function.update_self ..
  constructor
  · have hpending : (s.setFrames s.current (f :: rest)).pending = f.stores := by
      show (((s.setFrames s.current (f :: rest)).frames s.current).head?.map
        Frame.stores).getD [] = _
      rw [htop]
      rfl
    rw [hpending]
    exact hcircle
  · have hpc : (s.setFrames s.current (f :: rest)).pc = some f.pc := by
      show ((s.setFrames s.current (f :: rest)).frames s.current).head?.map Frame.pc = _
      rw [htop]
      rfl
    rw [hpc]
    exact hready.congr rfl rfl rfl rfl rfl
  · exact hframes.set hrest

/-! ## Where the current task is -/

omit [DecidableEq Tid] in
/-- The current task goes to a point that asks nothing new of the other tasks. -/
theorem ReadyInv.goto {pc pc' : Option (Pc Tid)} (h : ReadyInv s l pc)
    (hhanded : pc'.bind Pc.handed = pc.bind Pc.handed)
    (hregistering : pc ≠ some .registering) (hown : OwnInv s l pc') : ReadyInv s l pc' := by
  refine ⟨h.known, h.current, h.main, h.alive, h.born, ?_, ?_, hown, ?_⟩
  · rw [hhanded]
    exact h.others
  · rw [hhanded]
    exact h.handed
  · intro t ht hblocked
    rcases h.blocked t ht hblocked with hreg | ⟨-, hpc⟩
    · exact .inl hreg
    · exact absurd hpc hregistering

/-- A task that waits is not on the list, nor in the hands of the current one. -/
theorem ReadyInv.asleep_out {pc : Option (Pc Tid)} (h : ReadyInv s l pc) {t : Tid}
    (ht : t ∈ s.taskGlobalList) (hasleep : s.Asleep t) : t ∉ l ∧ pc.bind Pc.handed ≠ some t := by
  have hready : s.status t ≠ .ready := by
    rcases hasleep with heq | heq | heq <;> rw [heq] <;> exact nofun
  have hrunning : s.status t ≠ .running := by
    rcases hasleep with heq | heq | heq <;> rw [heq] <;> exact nofun
  have hhanded : pc.bind Pc.handed ≠ some t := by
    intro heq
    rcases (h.handed t heq).2.2 with hr | hr
    · exact hready hr
    · exact hrunning hr
  refine ⟨?_, hhanded⟩
  by_cases hcur : t = s.current
  · subst hcur
    have hown := h.own
    intro hin
    cases pc with
    | none => exact hrunning hown.1
    | some pc => cases pc <;> simp only [OwnInv] at hown <;> grind [Pc.handed]
  · exact fun hin => hready ((h.others t ht hcur hhanded).1.mp hin)

/-- `ListAdd` of a task that was asleep, in `TaskUnblock`. -/
theorem ReadyInv.unblock {pc : Option (Pc Tid)} (h : ReadyInv s l pc) {t : Tid}
    (ht : t ∈ s.taskGlobalList) (hasleep : s.Asleep t)
    (hidle : pc = some .unblockIdle → t ≠ s.mainThread) :
    ReadyInv ((s.setStatus t .ready).setRegistered t false) (t :: l) pc := by
  obtain ⟨hout, hhanded⟩ := h.asleep_out ht hasleep
  have hrunning : s.status t ≠ .running := by
    rcases hasleep with heq | heq | heq <;> rw [heq] <;> exact nofun
  have hzombie : s.status t ≠ .zombie := by
    rcases hasleep with heq | heq | heq <;> rw [heq] <;> exact nofun
  have hown := h.own
  obtain ⟨hknown, hcurrent, hmain, halive, hborn, hothers, hhanded', -, hblocked⟩ := h
  constructor
  all_goals try simp only [set_status_status, set_registered_registered,
    PreemptState.set_status_list, PreemptState.set_registered_list,
    PreemptState.set_registered_status, PreemptState.set_status_current,
    PreemptState.set_registered_current, PreemptState.set_status_main,
    PreemptState.set_registered_main, PreemptState.set_status_registered]
  case known => grind
  case current => exact hcurrent
  case main => exact hmain
  case alive => grind
  case born => grind
  case others => grind
  case handed => grind
  case own =>
    cases pc with
    | none =>
        simp only [OwnInv, PreemptState.set_registered_status, set_status_status,
          PreemptState.set_registered_current, PreemptState.set_status_current] at hown ⊢
        grind
    | some pc =>
        cases pc <;>
          simp only [OwnInv, PreemptState.set_registered_status, set_status_status,
            PreemptState.set_registered_current, PreemptState.set_status_current,
            PreemptState.Asleep, PreemptState.set_registered_main,
            PreemptState.set_status_main] at hown ⊢ <;>
          grind [Pc.handed]
  case blocked => grind

omit [DecidableEq Tid] in
theorem ReadyInv.requeue (h : ReadyInv s l (some .add)) :
    ReadyInv s (l ++ [s.current]) (some .resetTicks) := by
  have hown := h.own
  simp only [OwnInv] at hown
  obtain ⟨hknown, hcurrent, hmain, halive, hborn, hothers, hhanded', -, hblocked'⟩ := h
  refine ⟨?_, hcurrent, hmain, halive, hborn, ?_, nofun, ?_, ?_⟩
  · intro t ht
    rcases List.mem_append.mp ht with hin | hlast
    · exact hknown t hin
    · exact List.mem_singleton.mp hlast ▸ hcurrent
  · intro t ht hne hhanded
    rw [List.mem_append, List.mem_singleton, or_iff_left hne]
    exact hothers t ht hne hhanded
  · exact ⟨hown.1, by simp⟩
  · intro t ht hblocked
    rcases hblocked' t ht hblocked with hreg | ⟨-, hpc⟩
    · exact .inl hreg
    · cases hpc

theorem ReadyInv.set_ready (h : ReadyInv s l (some .setReady)) :
    ReadyInv (s.setStatus s.current .ready) l (some .testEmpty) := by
  have hown := h.own
  simp only [OwnInv] at hown
  obtain ⟨hknown, hcurrent, hmain, halive, hborn, hothers, hhanded, -, hblocked⟩ := h
  constructor
  all_goals try simp only [OwnInv, set_status_status, PreemptState.set_status_list,
    PreemptState.set_status_current, PreemptState.set_status_main,
    PreemptState.set_status_registered]
  case known => exact hknown
  case current => exact hcurrent
  case main => exact hmain
  case alive => grind
  case born => grind
  case others => grind [Pc.handed]
  case handed => nofun
  case own => grind
  case blocked => grind

omit [DecidableEq Tid] in
/-- With an empty list the main thread is asleep, since no task is running any more. -/
theorem ReadyInv.test_empty (h : ReadyInv s [] (some .testEmpty)) :
    ReadyInv s [] (some .unblockIdle) := by
  refine h.goto rfl nofun ⟨h.own.1, h.own.2, ?_⟩
  have hstatus : s.status s.mainThread ≠ .running ∧ s.status s.mainThread ≠ .ready := by
    by_cases hcur : s.mainThread = s.current
    · rw [hcur]
      exact ⟨h.own.1, fun hr => by simpa using h.own.2.mpr hr⟩
    · obtain ⟨hready, hrunning⟩ := h.others _ h.main hcur nofun
      exact ⟨hrunning, fun hr => by simpa using hready.mpr hr⟩
  have halive := h.alive
  have hborn := h.born _ h.main
  cases hmain : s.status s.mainThread with
  | ready => exact absurd hmain hstatus.2
  | running => exact absurd hmain hstatus.1
  | blocked => exact .inl hmain
  | waiting => exact .inr (.inl hmain)
  | stopped => exact .inr (.inr hmain)
  | zombie => exact absurd hmain halive
  | died => exact absurd hmain hborn

omit [DecidableEq Tid] in
theorem ReadyInv.delete {next : Tid} {l₁ l₂ : List Tid} (hnodup : (l₁ ++ next :: l₂).Nodup)
    (h : ReadyInv s (l₁ ++ next :: l₂) (some (.delete next))) :
    ReadyInv s (l₁ ++ l₂) (some (.setRunning next)) := by
  have hown := h.own
  simp only [OwnInv] at hown
  obtain ⟨hknown, hcurrent, hmain, halive, hborn, hothers, hhanded, -, hblocked⟩ := h
  have hout : next ∉ l₁ ++ l₂ := by grind
  have hmem : ∀ t, t ≠ next → (t ∈ l₁ ++ l₂ ↔ t ∈ l₁ ++ next :: l₂) := by
    intro t ht
    simp [ht]
  constructor
  case known => grind
  case current => exact hcurrent
  case main => exact hmain
  case alive => exact halive
  case born => exact hborn
  case others => grind [Pc.handed]
  case handed => grind [Pc.handed]
  case own =>
    simp only [OwnInv]
    grind [Pc.handed]
  case blocked => grind

theorem ReadyInv.set_running {next : Tid} (h : ReadyInv s l (some (.setRunning next))) :
    ReadyInv (s.setStatus next .running) l (some (.switchTo next)) := by
  have hown := h.own
  simp only [OwnInv] at hown
  obtain ⟨hnext, hout, -⟩ := h.handed next rfl
  obtain ⟨hknown, hcurrent, hmain, halive, hborn, hothers, hhanded, -, hblocked⟩ := h
  constructor
  all_goals try simp only [OwnInv, set_status_status, PreemptState.set_status_list,
    PreemptState.set_status_current, PreemptState.set_status_main,
    PreemptState.set_status_registered]
  case known => exact hknown
  case current => exact hcurrent
  case main => exact hmain
  case alive => grind
  case born => grind
  case others => grind [Pc.handed]
  case handed => grind [Pc.handed]
  case own => grind
  case blocked => grind

omit [DecidableEq Tid] in
/-- The next task takes over. The one before has left the list, or is on it as a ready one. -/
theorem ReadyInv.switch_to {next : Tid} (h : ReadyInv s l (some (.switchTo next))) :
    ReadyInv { s with current := next } l (some .resumed) := by
  have hown := h.own
  simp only [OwnInv] at hown
  obtain ⟨hnext, hout, -⟩ := h.handed next rfl
  obtain ⟨hknown, hcurrent, hmain, halive, hborn, hothers, hhanded, -, hblocked'⟩ := h
  refine ⟨hknown, hnext, hmain, halive, hborn, ?_, nofun, ⟨hown.1, hout⟩, ?_⟩
  · intro t ht hne _
    by_cases hcur : t = s.current
    · subst hcur
      exact ⟨(hown.2 (Ne.symm hne)).2, (hown.2 (Ne.symm hne)).1⟩
    · refine hothers t ht hcur ?_
      intro heq
      exact hne (Option.some.inj heq).symm
  · intro t ht hblocked
    rcases hblocked' t ht hblocked with hreg | ⟨-, hpc⟩
    · exact .inl hreg
    · cases hpc

theorem ReadyInv.register (h : ReadyInv s l (some .registering)) :
    ReadyInv (s.setRegistered s.current true) l (some .toSchedule) := by
  obtain ⟨hknown, hcurrent, hmain, halive, hborn, hothers, hhanded, hown, hblocked'⟩ := h
  refine ⟨hknown, hcurrent, hmain, halive, hborn, hothers, nofun, hown, ?_⟩
  intro t ht hblocked
  rw [set_registered_registered]
  split
  · exact .inl rfl
  · next hne =>
      rcases hblocked' t ht hblocked with hreg | ⟨heq, -⟩
      · exact .inl hreg
      · exact absurd heq hne

omit [DecidableEq Tid] in
theorem ReadyInv.up {task : Tid} (h : ReadyInv s l (some (.up task))) :
    ReadyInv s (task :: l) (some .done) := by
  obtain ⟨hrunning, hout, hready⟩ := h.own
  have hne : task ≠ s.current := by
    intro heq
    rw [heq, hrunning] at hready
    cases hready
  obtain ⟨htask, hnot, -⟩ := h.handed task rfl
  obtain ⟨hknown, hcurrent, hmain, halive, hborn, hothers, hhanded', -, hblocked'⟩ := h
  refine ⟨?_, hcurrent, hmain, halive, hborn, ?_, nofun, ⟨hrunning, ?_⟩, ?_⟩
  · intro t ht
    rcases List.mem_cons.mp ht with heq | hin
    · exact heq ▸ htask
    · exact hknown t hin
  · intro t ht hcur _
    rw [List.mem_cons]
    by_cases heq : t = task
    · subst heq
      simp [hready]
    · rw [or_iff_right heq]
      refine hothers t ht hcur ?_
      intro hhanded
      exact heq (Option.some.inj hhanded).symm
  · rw [List.mem_cons, not_or]
    exact ⟨hne.symm, hout⟩
  · intro t ht hblocked
    rcases hblocked' t ht hblocked with hreg | ⟨-, hpc⟩
    · exact .inl hreg
    · cases hpc

omit [DecidableEq Tid] in
/-- A function returns to one that may be interrupted, or to the code of the task. -/
theorem ReadyInv.pop {pc pc' : Option (Pc Tid)} (h : ReadyInv s l pc)
    (hpc : pc = some .resumed ∨ pc = some .done) (hpc' : ∀ p ∈ pc', p.Interruptible) :
    ReadyInv s l pc' := by
  have hown : s.status s.current = .running ∧ s.current ∉ l := by
    rcases hpc with rfl | rfl
    · exact h.own
    · exact h.own
  refine h.goto ?_ ?_ ?_
  · have hnone : pc.bind Pc.handed = none := by rcases hpc with rfl | rfl <;> rfl
    rw [hnone]
    cases pc' with
    | none => rfl
    | some p =>
        have hp := hpc' p rfl
        cases p <;> simp_all [Pc.Interruptible, Pc.handed]
  · rcases hpc with rfl | rfl <;> exact nofun
  · cases pc' with
    | none => exact hown
    | some p =>
        have hp := hpc' p rfl
        cases p <;> simp_all [Pc.Interruptible, OwnInv]

omit [DecidableEq Tid] in
/-- `Schedule` may be called where it may be interrupted by itself. -/
theorem ReadyInv.interrupted {pc : Option (Pc Tid)} (h : ReadyInv s l pc)
    (hpc : ∀ p ∈ pc, p.Interruptible) : ReadyInv s l (some .enter) := by
  have hown := h.own
  cases pc with
  | none =>
      refine h.goto rfl nofun ?_
      show s.current ∈ l ↔ s.status s.current = .ready
      simp [hown.1, hown.2]
  | some p =>
      have hp := hpc p rfl
      cases p <;> simp only [Pc.Interruptible] at hp <;> refine h.goto rfl nofun ?_
      · exact hown
      · show s.current ∈ l ↔ s.status s.current = .ready
        simp [hown.1, hown.2]
      · show s.current ∈ l ↔ s.status s.current = .ready
        simp [hown.1, hown.2]
      · exact hown
      · show s.current ∈ l ↔ s.status s.current = .ready
        simp [hown.1, hown.2]

/-! ## What the current task does with its code -/

/-- The current task stores a status in itself that waits for something. -/
theorem ReadyInv.leave (h : ReadyInv s l none) {status : Sched.TaskStatus} {registered : Bool}
    {pc : Pc Tid} (hpc : pc = .enter ∨ pc = .toSchedule ∨ pc = .registering)
    (hstatus : status ≠ .ready ∧ status ≠ .running ∧ status ≠ .died)
    (hzombie : status = .zombie → s.current ≠ s.mainThread)
    (hregistered : status = .blocked → registered = true ∨ pc = .registering) :
    ReadyInv ((s.setStatus s.current status).setRegistered s.current registered) l (some pc) := by
  have hown := h.own
  simp only [OwnInv] at hown
  obtain ⟨hknown, hcurrent, hmain, halive, hborn, hothers, hhanded, -, hblocked⟩ := h
  constructor
  all_goals try simp only [set_status_status, set_registered_registered,
    PreemptState.set_status_list, PreemptState.set_registered_list,
    PreemptState.set_registered_status, PreemptState.set_status_current,
    PreemptState.set_registered_current, PreemptState.set_status_main,
    PreemptState.set_registered_main, PreemptState.set_status_registered]
  case known => exact hknown
  case current => exact hcurrent
  case main => exact hmain
  case alive => grind
  case born => grind
  case others => grind
  case handed => rcases hpc with rfl | rfl | rfl <;> exact nofun
  case own =>
    rcases hpc with rfl | rfl | rfl <;>
      simp only [OwnInv, set_status_status, PreemptState.set_registered_status,
        PreemptState.set_status_current, PreemptState.set_registered_current] <;> grind
  case blocked => grind

theorem ReadyInv.yield (h : ReadyInv s l none) :
    ReadyInv (s.setStatus s.current .ready) (l ++ [s.current]) (some .enter) := by
  have hown := h.own
  simp only [OwnInv] at hown
  obtain ⟨hknown, hcurrent, hmain, halive, hborn, hothers, hhanded, -, hblocked⟩ := h
  constructor
  all_goals try simp only [OwnInv, set_status_status, PreemptState.set_status_list,
    PreemptState.set_status_current, PreemptState.set_status_main,
    PreemptState.set_status_registered]
  case known => grind
  case current => exact hcurrent
  case main => exact hmain
  case alive => grind
  case born => grind
  case others => grind [Pc.handed]
  case handed => nofun
  case own => grind
  case blocked => grind

/-- The current task, which was not woken, goes on running. -/
theorem ReadyInv.stay_awake {pc : Option (Pc Tid)} (h : ReadyInv s l (some .toSchedule))
    (hready : s.status s.current ≠ .ready) (hpc : ∀ p ∈ pc, p.Interruptible) :
    ReadyInv ((s.setStatus s.current .running).setRegistered s.current false) l pc := by
  have hown := h.own
  simp only [OwnInv] at hown
  have hout : s.current ∉ l := fun hin => hready (hown.mp hin)
  obtain ⟨hknown, hcurrent, hmain, halive, hborn, hothers, hhanded, -, hblocked⟩ := h
  suffices hresumed : ReadyInv ((s.setStatus s.current .running).setRegistered s.current false) l
      (some .resumed) from hresumed.pop (.inl rfl) hpc
  constructor
  all_goals try simp only [OwnInv, set_status_status, set_registered_registered,
    PreemptState.set_status_list, PreemptState.set_registered_list,
    PreemptState.set_registered_status, PreemptState.set_status_current,
    PreemptState.set_registered_current, PreemptState.set_status_main,
    PreemptState.set_registered_main, PreemptState.set_status_registered]
  case known => exact hknown
  case current => exact hcurrent
  case main => exact hmain
  case alive => grind
  case born => grind
  case others => grind [Pc.handed]
  case handed => nofun
  case own => exact ⟨by simp, hout⟩
  case blocked => grind

/-- `__SemaphoreUp` takes a blocked task into its hands. -/
theorem ReadyInv.semaphore_up (h : ReadyInv s l none) {task : Tid}
    (ht : task ∈ s.taskGlobalList) (hblocked : s.status task = .blocked) :
    ReadyInv ((s.setStatus task .ready).setRegistered task false) l (some (.up task)) := by
  obtain ⟨hout, -⟩ := h.asleep_out ht (.inl hblocked)
  have hown := h.own
  simp only [OwnInv] at hown
  obtain ⟨hknown, hcurrent, hmain, halive, hborn, hothers, hhanded, -, hblocked'⟩ := h
  constructor
  all_goals try simp only [OwnInv, set_status_status, set_registered_registered,
    PreemptState.set_status_list, PreemptState.set_registered_list,
    PreemptState.set_registered_status, PreemptState.set_status_current,
    PreemptState.set_registered_current, PreemptState.set_status_main,
    PreemptState.set_registered_main, PreemptState.set_status_registered]
  case known => exact hknown
  case current => exact hcurrent
  case main => exact hmain
  case alive => grind
  case born => grind
  case others => grind [Pc.handed]
  case handed => grind [Pc.handed]
  case own => grind
  case blocked => grind

theorem ReadyInv.thread_start (h : ReadyInv s l none) {t : Tid} (hnew : t ∉ s.taskGlobalList)
    (ticks : Tid → Int) (frames : Tid → List (Frame Tid)) (links : Heap (ListNode Tid)) :
    ReadyInv { s.setStatus t .ready with
      links, frames, ticks, taskGlobalList := s.taskGlobalList ++ [t] } (l ++ [t]) none := by
  have hown := h.own
  simp only [OwnInv] at hown
  obtain ⟨hknown, hcurrent, hmain, halive, hborn, hothers, hhanded, -, hblocked⟩ := h
  constructor
  all_goals try simp only [OwnInv, set_status_status, PreemptState.set_status_current,
    PreemptState.set_status_main, PreemptState.set_status_registered]
  case known => grind
  case current => exact List.mem_append_left _ hcurrent
  case main => exact List.mem_append_left _ hmain
  case alive => grind
  case born => grind
  case others => grind
  case handed => nofun
  case own => grind
  case blocked => grind

/-! ## The list -/

/-- `ListAddTail`. -/
theorem circle_add_tail {t : Tid} (hcircle : Circle s.links none (l.map some)) (ht : t ∉ l)
    {stores : List (Store (ListNode Tid))} (hstores : s.addTailStores t = some stores) :
    Circle (settle s.links stores) none ((l ++ [t]).map some) := by
  obtain ⟨prev, hprev, rfl⟩ := Option.map_eq_some_iff.mp hstores
  have hcircle' : Circle s.links none (l.map some ++ []) := by rwa [List.append_nil]
  rw [List.map_append, List.map_singleton]
  exact hcircle'.insert (by simp [ht]) (hcircle.prev_head.symm.trans hprev) rfl

/-- `ListAdd`, which an interrupt may do while other stores are still to come. -/
theorem circle_add {t : Tid} {pending stores : List (Store (ListNode Tid))}
    (hcircle : Circle (settle s.links pending) none (l.map some)) (ht : t ∉ l)
    (hstores : s.addStores t = some stores)
    (hapart : ∀ st ∈ stores, ∀ st' ∈ pending, Apart st st') :
    Circle (settle (settle s.links stores) pending) none ((t :: l).map some) := by
  obtain ⟨next, hnext, rfl⟩ := Option.map_eq_some_iff.mp hstores
  rw [settle_comm s.links hapart]
  have hsame : settle s.links pending none .next = some next := by
    rw [settle_eq, hnext]
    intro st hst
    exact hapart ⟨none, .next, some (some t)⟩ (by simp [insertStores]) st hst
  have hcircle' : Circle (settle s.links pending) none ([] ++ l.map some) := hcircle
  exact hcircle'.insert (by simp [ht]) rfl (hcircle.next_head.symm.trans hsame)

/-- `ListAdd` with no stores to come. -/
theorem circle_add_settled {t : Tid} {stores : List (Store (ListNode Tid))}
    (hcircle : Circle s.links none (l.map some)) (ht : t ∉ l)
    (hstores : s.addStores t = some stores) :
    Circle (settle s.links stores) none ((t :: l).map some) := by
  have hcircle' : Circle (settle s.links []) none (l.map some) := hcircle
  exact circle_add hcircle' ht hstores nofun

/-- `ListDel`. -/
theorem circle_del {t : Tid} {l₁ l₂ : List Tid}
    (hcircle : Circle s.links none ((l₁ ++ t :: l₂).map some))
    {stores : List (Store (ListNode Tid))} (hstores : s.delStores t = some stores) :
    Circle (settle s.links stores) none ((l₁ ++ l₂).map some) := by
  obtain ⟨prev, hprev, hstores⟩ := Option.bind_eq_some_iff.mp hstores
  obtain ⟨next, hnext, rfl⟩ := Option.map_eq_some_iff.mp hstores
  rw [List.map_append] at hcircle
  have hprev' : (none :: l₁.map some).getLast? = some prev := by
    cases hlast : (none :: l₁.map some).getLast? with
    | none => simp at hlast
    | some a =>
        have hlinked := hcircle.linked hlast rfl
        rw [← hprev]
        exact hlinked.2.symm
  have hnext' : (l₂.map some ++ [none]).head? = some next := by
    cases hfirst : (l₂.map some ++ [none]).head? with
    | none => simp at hfirst
    | some b =>
        have hcircle' : Circle s.links none ((l₁.map some ++ [some t]) ++ l₂.map some) := by
          rw [List.append_assoc]
          exact hcircle
        have hlast : (none :: (l₁.map some ++ [some t])).getLast? = some (some t) := by
          rw [← List.cons_append, List.getLast?_concat]
        have hlinked := hcircle'.linked hlast hfirst
        rw [← hnext]
        exact hlinked.1.symm
  rw [List.map_append]
  exact hcircle.remove hprev' hnext'

/-! ## Steps -/

theorem assert_not_ready_eq {t : Tid} {s' : PreemptState Tid}
    (hstep : s.assertNotReady t = some s') : s' = s := by
  unfold PreemptState.assertNotReady at hstep
  split at hstep
  · exact (Option.some.inj hstep).symm
  · cases hstep

/-- What `TaskUnblock` does when it returns. -/
theorem task_unblock_eq {t : Tid} {s' : PreemptState Tid} (hstep : s.taskUnblock t = some s') :
    s.Asleep t ∧ ∃ stores, s.addStores t = some stores ∧
      s' = ((s.perform stores).setStatus t .ready).setRegistered t false := by
  unfold PreemptState.taskUnblock at hstep
  split at hstep
  · next hasleep =>
      obtain ⟨s₁, hassert, hstep⟩ := Option.bind_eq_some_iff.mp hstep
      cases assert_not_ready_eq hassert
      obtain ⟨stores, hstores, heq⟩ := Option.map_eq_some_iff.mp hstep
      exact ⟨hasleep, stores, hstores, heq.symm⟩
  · cases hstep

/-- `TaskUnblock`, by the current task or by an interrupt of it. -/
theorem PreemptInv.task_unblock (h : PreemptInv s l) {t : Tid} (ht : t ∈ s.taskGlobalList)
    (hinsert : s.Insertable t) {s' : PreemptState Tid} (hstep : s.taskUnblock t = some s') :
    PreemptInv s' (t :: l) := by
  obtain ⟨hasleep, stores, hstores, rfl⟩ := task_unblock_eq hstep
  have hapart := hinsert.1
  rw [hstores, Option.getD_some] at hapart
  exact ⟨circle_add h.circle (h.ready.asleep_out ht hasleep).1 hstores hapart,
    (h.ready.unblock ht hasleep hinsert.2).congr rfl rfl rfl rfl rfl,
    ⟨h.frames.suspended, h.frames.below⟩⟩

/-- A function returns. -/
theorem preempt_inv_pop {pc : Option (Pc Tid)} (hcircle : Circle s.links none (l.map some))
    (hready : ReadyInv s l pc) (hpc : pc = some .resumed ∨ pc = some .done)
    (hframes : FramesInv s) {rest : List (Frame Tid)}
    (hrest : ∀ g ∈ rest, g.stores = [] ∧ g.pc.Interruptible) (interrupts : Bool) :
    PreemptInv { s.setFrames s.current rest with interrupts } l := by
  have hset : FramesInv (s.setFrames s.current rest) :=
    hframes.set fun f hf => hrest f (List.mem_of_mem_tail hf)
  cases rest with
  | nil =>
      have htop : Function.update s.frames s.current [] s.current = [] := Function.update_self ..
      refine ⟨?_, ?_, ⟨hset.suspended, hset.below⟩⟩
      · have hpending : { s.setFrames s.current [] with interrupts }.pending = [] := by
          show ((Function.update s.frames s.current [] s.current).head?.map
            Frame.stores).getD [] = _
          rw [htop]
          rfl
        rw [hpending]
        exact hcircle
      · have hnone : { s.setFrames s.current [] with interrupts }.pc = none := by
          show (Function.update s.frames s.current [] s.current).head?.map Frame.pc = _
          rw [htop]
          rfl
        rw [hnone]
        have hpop : ReadyInv s l none := hready.pop hpc nofun
        exact hpop.congr rfl rfl rfl rfl rfl
  | cons g rest =>
      obtain ⟨hstores, hsafe⟩ := hrest g List.mem_cons_self
      have hinv : PreemptInv (s.setFrames s.current (g :: rest)) l :=
        preempt_inv_top (by rwa [hstores])
          (hready.pop hpc fun p hp => Option.some.inj hp ▸ hsafe) hframes
          fun g' hg' => hrest g' (List.mem_cons_of_mem _ hg')
      exact ⟨hinv.circle, hinv.ready.congr rfl rfl rfl rfl rfl,
        ⟨hinv.frames.suspended, hinv.frames.below⟩⟩

/-- `SwitchTo`. -/
theorem preempt_inv_switch {next : Tid} (hcircle : Circle s.links none (l.map some))
    (hready : ReadyInv s l (some (.switchTo next))) (hframes : FramesInv s)
    {rest : List (Frame Tid)} (hrest : ∀ g ∈ rest, g.stores = [] ∧ g.pc.Interruptible)
    (restore : Option Bool) :
    PreemptInv { s.setFrames s.current (⟨.resumed, [], restore⟩ :: rest) with current := next }
      l := by
  have hset := fun t => set_frames_frames s s.current t (⟨.resumed, [], restore⟩ :: rest)
  obtain ⟨hnext, -, -⟩ := hready.handed next rfl
  -- every task is now suspended, the one that goes on as well
  have hsuspended : ∀ t ∈ s.taskGlobalList, ∃ restore' rest',
      (s.setFrames s.current (⟨.resumed, [], restore⟩ :: rest)).frames t =
        ⟨.resumed, [], restore'⟩ :: rest' := by
    intro t ht
    rw [hset]
    split
    · exact ⟨restore, rest, rfl⟩
    · next hne => exact hframes.suspended t ht hne
  obtain ⟨restore', rest', htop⟩ := hsuspended next hnext
  refine ⟨?_, ?_, ⟨fun t ht _ => hsuspended t ht, ?_⟩⟩
  · have hpending : { s.setFrames s.current (⟨.resumed, [], restore⟩ :: rest) with
        current := next }.pending = [] := by
      show (((s.setFrames s.current _).frames next).head?.map Frame.stores).getD [] = _
      rw [htop]
      rfl
    rw [hpending]
    exact hcircle
  · have hresumed : { s.setFrames s.current (⟨.resumed, [], restore⟩ :: rest) with
        current := next }.pc = some .resumed := by
      show ((s.setFrames s.current _).frames next).head?.map Frame.pc = _
      rw [htop]
      rfl
    rw [hresumed]
    exact hready.switch_to.congr rfl rfl rfl rfl rfl
  · have hset' : FramesInv (s.setFrames s.current (⟨.resumed, [], restore⟩ :: rest)) :=
      hframes.set hrest
    exact hset'.below

/-- The instructions of the frame on top. -/
theorem PreemptInv.frame_step (h : PreemptInv s l) {f : Frame Tid} {rest : List (Frame Tid)}
    (hframes : s.frames s.current = f :: rest) {s' : PreemptState Tid}
    (hstep : s.frameStep f rest = some s') : ∃ l', PreemptInv s' l' := by
  have hpending : s.pending = f.stores := by
    simp [PreemptState.pending, hframes]
  have hpc : s.pc = some f.pc := by
    simp [PreemptState.pc, hframes]
  have hrest : ∀ g ∈ rest, g.stores = [] ∧ g.pc.Interruptible := by
    intro g hg
    refine h.frames.below s.current h.ready.current g ?_
    rw [hframes]
    exact hg
  have hcircle := h.circle
  have hready := h.ready
  rw [hpending] at hcircle
  rw [hpc] at hready
  obtain ⟨pc, stores, restore⟩ := f
  cases stores with
  | cons st stores =>
      cases hstep
      have htop := preempt_inv_top (s := { s with links := st.apply s.links })
        (f := ⟨pc, stores, restore⟩) hcircle (hready.congr rfl rfl rfl rfl rfl)
        ⟨h.frames.suspended, h.frames.below⟩ hrest
      exact ⟨l, htop⟩
  | nil =>
      simp only at hready hcircle
      rw [settle_nil] at hcircle
      simp only [PreemptState.frameStep] at hstep
      cases pc with
      | enter =>
          cases hstep
          refine ⟨l, preempt_inv_top hcircle ?_ h.frames hrest⟩
          have hown : s.current ∈ l ↔ s.status s.current = .ready := hready.own
          by_cases hrunning : s.status s.current = .running
          · rw [if_pos hrunning]
            refine hready.goto rfl nofun ⟨hrunning, ?_⟩
            rw [hown, hrunning]
            exact nofun
          · rw [if_neg hrunning]
            exact hready.goto rfl nofun ⟨hrunning, hown⟩
      | add =>
          obtain ⟨stores, hstores, rfl⟩ := Option.map_eq_some_iff.mp hstep
          have hout : s.current ∉ l := hready.own.2
          exact ⟨l ++ [s.current], preempt_inv_top (circle_add_tail hcircle hout hstores)
            hready.requeue h.frames hrest⟩
      | resetTicks =>
          cases hstep
          have hnext : ReadyInv s l (some .setReady) := hready.goto rfl nofun hready.own
          exact ⟨l, preempt_inv_top (s := { s with ticks := _ }) hcircle
            (hnext.congr rfl rfl rfl rfl rfl) ⟨h.frames.suspended, h.frames.below⟩ hrest⟩
      | setReady =>
          cases hstep
          exact ⟨l, preempt_inv_top (s := s.setStatus s.current .ready) hcircle hready.set_ready
            ⟨h.frames.suspended, h.frames.below⟩ hrest⟩
      | testEmpty =>
          cases hstep
          refine ⟨l, preempt_inv_top hcircle ?_ h.frames hrest⟩
          split
          · next hhead =>
              have hempty : l = [] := by simpa using hcircle.next_head_eq_head.mp hhead
              subst hempty
              exact hready.test_empty
          · exact hready.goto rfl nofun hready.own
      | unblockIdle =>
          obtain ⟨s₁, hunblock, rfl⟩ := Option.map_eq_some_iff.mp hstep
          obtain ⟨hasleep, stores, hstores, rfl⟩ := task_unblock_eq hunblock
          have hnext : ReadyInv s l (some .takeFirst) :=
            hready.goto rfl nofun ⟨hready.own.1, hready.own.2.1⟩
          have hadd := circle_add_settled hcircle (hready.asleep_out hready.main hasleep).1 hstores
          refine ⟨s.mainThread :: l, preempt_inv_top
            (s := ((s.perform stores).setStatus s.mainThread .ready).setRegistered s.mainThread false)
            hadd ?_ ⟨h.frames.suspended, h.frames.below⟩ hrest⟩
          exact (hnext.unblock hready.main hasleep nofun).congr rfl rfl rfl rfl rfl
      | takeFirst =>
          simp only at hstep
          split at hstep
          · next next hhead =>
              cases hstep
              refine ⟨l, preempt_inv_top hcircle ?_ h.frames hrest⟩
              refine hready.goto rfl nofun ⟨hready.own.1, hready.own.2, ?_⟩
              rw [hcircle.next_head] at hhead
              cases l with
              | nil => simp at hhead
              | cons t l =>
                  have heq : t = next := by simpa using hhead
                  exact heq ▸ List.mem_cons_self
          · cases hstep
      | delete next =>
          obtain ⟨stores, hstores, rfl⟩ := Option.map_eq_some_iff.mp hstep
          obtain ⟨l₁, l₂, rfl⟩ := List.append_of_mem hready.own.2.2
          have hnodup : (l₁ ++ next :: l₂).Nodup :=
            List.Pairwise.of_map some (fun _ _ hne heq => hne (congrArg some heq))
              (List.nodup_cons.mp hcircle.nodup).2
          exact ⟨l₁ ++ l₂, preempt_inv_top (circle_del hcircle hstores) (hready.delete hnodup)
            h.frames hrest⟩
      | setRunning next =>
          cases hstep
          exact ⟨l, preempt_inv_top (s := s.setStatus next .running) hcircle hready.set_running
            ⟨h.frames.suspended, h.frames.below⟩ hrest⟩
      | switchTo next =>
          cases hstep
          exact ⟨l, preempt_inv_switch hcircle hready h.frames hrest restore⟩
      | toSchedule =>
          cases hstep
          exact ⟨l, preempt_inv_top hcircle (hready.goto rfl nofun hready.own) h.frames hrest⟩
      | registering =>
          cases hstep
          exact ⟨l, preempt_inv_top (s := s.setRegistered s.current true) hcircle hready.register
            ⟨h.frames.suspended, h.frames.below⟩ hrest⟩
      | up task =>
          obtain ⟨s₁, hassert, hstep⟩ := Option.bind_eq_some_iff.mp hstep
          cases assert_not_ready_eq hassert
          obtain ⟨stores, hstores, rfl⟩ := Option.map_eq_some_iff.mp hstep
          exact ⟨task :: l, preempt_inv_top
            (circle_add_settled hcircle (hready.handed task rfl).2.1 hstores) hready.up h.frames hrest⟩
      | resumed =>
          cases hstep
          exact ⟨l, preempt_inv_pop hcircle hready (.inl rfl) h.frames hrest _⟩
      | done =>
          cases hstep
          exact ⟨l, preempt_inv_pop hcircle hready (.inr rfl) h.frames hrest _⟩

/-- A function is entered from the code of the current task, or by an interrupt. -/
theorem preempt_inv_push {pc : Pc Tid} {restore : Option Bool}
    (hcircle : Circle s.links none (l.map some)) (hready : ReadyInv s l (some pc))
    (hframes : FramesInv s) (hcurrent : s.current ∈ s.taskGlobalList)
    (htop : ∀ f ∈ (s.frames s.current).head?, f.stores = [] ∧ f.pc.Interruptible) :
    PreemptInv (s.push ⟨pc, [], restore⟩) l := by
  refine preempt_inv_top hcircle hready hframes ?_
  intro g hg
  cases hframe : s.frames s.current with
  | nil =>
      rw [hframe] at hg
      cases hg
  | cons f rest =>
      rw [hframe] at hg htop
      rcases List.mem_cons.mp hg with rfl | hin
      · exact htop g rfl
      · refine hframes.below s.current hcurrent g ?_
        rw [hframe]
        exact hin

/-- The clock. -/
theorem PreemptInv.clock (h : PreemptInv s l) (hguard : preemptGuard s .clock) :
    PreemptInv s.schedSoftirqHandler l := by
  unfold PreemptState.schedSoftirqHandler
  split
  · next hticks =>
      obtain ⟨hpending, hsafe⟩ := hguard hticks
      have hcircle := h.circle
      rw [hpending, settle_nil] at hcircle
      have htop : ∀ f ∈ (s.frames s.current).head?, f.stores = [] ∧ f.pc.Interruptible := by
        intro f hf
        unfold PreemptState.pending at hpending
        unfold PreemptState.pc at hsafe
        rw [Option.mem_def.mp hf] at hpending hsafe
        exact ⟨hpending, hsafe f.pc rfl⟩
      exact preempt_inv_push hcircle (h.ready.interrupted hsafe) h.frames h.ready.current htop
  · exact ⟨h.circle, h.ready.congr rfl rfl rfl rfl rfl, ⟨h.frames.suspended, h.frames.below⟩⟩

theorem PreemptInv.set_interrupts (h : PreemptInv s l) (interrupts : Bool) :
    PreemptInv { s with interrupts } l :=
  ⟨h.circle, h.ready.congr rfl rfl rfl rfl rfl, ⟨h.frames.suspended, h.frames.below⟩⟩

theorem set_registered_self (s : PreemptState Tid) (t : Tid) :
    s.setRegistered t (s.registered t) = s := by
  unfold PreemptState.setRegistered
  rw [Function.update_eq_self]

/-- A new thread is suspended where it begins. -/
theorem PreemptInv.thread_start (h : PreemptInv s l) (hframes : s.frames s.current = [])
    {t : Tid} {s' : PreemptState Tid} (hstep : s.threadStart t = some s') :
    PreemptInv s' (l ++ [t]) := by
  unfold PreemptState.threadStart at hstep
  split at hstep
  · cases hstep
  · next hnew =>
      obtain ⟨s₁, hassert, hstep⟩ := Option.bind_eq_some_iff.mp hstep
      cases assert_not_ready_eq hassert
      obtain ⟨stores, hstores, rfl⟩ := Option.map_eq_some_iff.mp hstep
      have hne : s.current ≠ t := fun heq => hnew (heq ▸ h.ready.current)
      have hset := fun u => set_frames_frames s t u [⟨.resumed, [], some true⟩]
      have hcurrent : (s.setFrames t [⟨.resumed, [], some true⟩]).frames s.current = [] := by
        rw [hset, if_neg hne, hframes]
      have hpending : s.pending = [] := by
        simp [PreemptState.pending, hframes]
      have hpc : s.pc = none := by
        simp [PreemptState.pc, hframes]
      have hcircle := h.circle
      have hready := h.ready
      rw [hpending, settle_nil] at hcircle
      rw [hpc] at hready
      have hout : t ∉ l := fun hin => hnew (hready.known t hin)
      refine ⟨?_, ?_, ?_, ?_⟩
      · show Circle (settle _ ((((s.setFrames t [⟨.resumed, [], some true⟩]).frames
          s.current).head?.map Frame.stores).getD [])) none _
        rw [hcurrent]
        exact circle_add_tail hcircle hout hstores
      · show ReadyInv _ _ (((s.setFrames t [⟨.resumed, [], some true⟩]).frames
          s.current).head?.map Frame.pc)
        rw [hcurrent]
        exact hready.thread_start hnew _ _ _
      · intro u hu hcur
        show ∃ restore rest, (s.setFrames t [⟨.resumed, [], some true⟩]).frames u = _
        rw [hset]
        split
        · exact ⟨some true, [], rfl⟩
        · next hold =>
            rcases List.mem_append.mp hu with hin | hlast
            · exact h.frames.suspended u hin hcur
            · exact absurd (List.mem_singleton.mp hlast) hold
      · intro u hu f hf
        have hf' : f ∈ ((s.setFrames t [⟨.resumed, [], some true⟩]).frames u).tail := hf
        rw [hset] at hf'
        split at hf'
        · cases hf'
        · next hold =>
            rcases List.mem_append.mp hu with hin | hlast
            · exact h.frames.below u hin f hf'
            · exact absurd (List.mem_singleton.mp hlast) hold

/-- What the current task does with its code. -/
theorem PreemptInv.call (h : PreemptInv s l) (hframes : s.frames s.current = [])
    {op : PreemptOp Tid} (hguard : preemptGuard s op) {s' : PreemptState Tid}
    (hstep : op.call s = some s') : ∃ l', PreemptInv s' l' := by
  have hpending : s.pending = [] := by
    simp [PreemptState.pending, hframes]
  have hpc : s.pc = none := by
    simp [PreemptState.pc, hframes]
  have htop : ∀ f ∈ (s.frames s.current).head?, f.stores = [] ∧ f.pc.Interruptible := by
    rw [hframes]
    exact nofun
  have hcircle := h.circle
  have hready := h.ready
  have hcurrent := h.ready.current
  rw [hpending, settle_nil] at hcircle
  rw [hpc] at hready
  cases op with
  | setInterrupts enabled =>
      cases hstep
      exact ⟨l, h.circle, h.ready.congr rfl rfl rfl rfl rfl,
        ⟨h.frames.suspended, h.frames.below⟩⟩
  | sleep =>
      cases hstep
      refine ⟨l, preempt_inv_push (s := (s.setStatus s.current .blocked).setRegistered _ true)
        hcircle ?_ ⟨h.frames.suspended, h.frames.below⟩ hcurrent htop⟩
      exact hready.leave (.inr (.inl rfl)) ⟨nofun, nofun, nofun⟩ nofun fun _ => .inl rfl
  | stop =>
      cases hstep
      refine ⟨l, preempt_inv_push (s := s.setStatus s.current .stopped) hcircle ?_
        ⟨h.frames.suspended, h.frames.below⟩ hcurrent htop⟩
      rw [← set_registered_self (s.setStatus s.current .stopped) s.current]
      exact hready.leave (.inr (.inl rfl)) ⟨nofun, nofun, nofun⟩ nofun nofun
  | semaphoreDown =>
      cases hstep
      refine ⟨l, preempt_inv_push (s := s.setStatus s.current .blocked) hcircle ?_
        ⟨h.frames.suspended, h.frames.below⟩ hcurrent htop⟩
      rw [← set_registered_self (s.setStatus s.current .blocked) s.current]
      exact hready.leave (.inr (.inr rfl)) ⟨nofun, nofun, nofun⟩ nofun fun _ => .inr rfl
  | semaphoreUp task =>
      cases hstep
      refine ⟨l, preempt_inv_push (s := (s.setStatus task .ready).setRegistered task false)
        hcircle ?_ ⟨h.frames.suspended, h.frames.below⟩ hcurrent htop⟩
      exact hready.semaphore_up hguard.1 hguard.2
  | taskBlock state =>
      simp only [PreemptOp.call, PreemptState.taskBlock] at hstep
      split at hstep
      · next hstate =>
          cases hstep
          refine ⟨l, PreemptInv.set_interrupts (preempt_inv_push
            (s := (s.setStatus s.current state).setRegistered s.current true) hcircle ?_
            ⟨h.frames.suspended, h.frames.below⟩ hcurrent htop) false⟩
          refine hready.leave (.inl rfl) ?_ hguard fun _ => .inl rfl
          rcases hstate with rfl | rfl | rfl | rfl <;> exact ⟨nofun, nofun, nofun⟩
      · cases hstep
  | taskYield =>
      obtain ⟨s₁, hassert, hstep⟩ := Option.bind_eq_some_iff.mp hstep
      cases assert_not_ready_eq hassert
      obtain ⟨stores, hstores, rfl⟩ := Option.map_eq_some_iff.mp hstep
      exact ⟨l ++ [s.current], PreemptInv.set_interrupts (preempt_inv_push
        (s := (s.perform stores).setStatus s.current .ready)
        (circle_add_tail hcircle hready.own.2 hstores)
        (hready.yield.congr rfl rfl rfl rfl rfl) ⟨h.frames.suspended, h.frames.below⟩ hcurrent
        htop) false⟩
  | taskUnblock task =>
      refine ⟨task :: l, h.task_unblock hguard ⟨?_, ?_⟩ hstep⟩
      · rw [hpending]
        exact fun _ _ => nofun
      · rw [hpc]
        exact nofun
  | threadStart thread => exact ⟨l ++ [thread], h.thread_start hframes hstep⟩
  | advance => cases hstep
  | clock => cases hstep
  | wakeUp task => cases hstep
  | stayAwake => cases hstep

/-- Every step that spares the points of the guard keeps the invariant. -/
theorem PreemptInv.step (h : PreemptInv s l) {op : PreemptOp Tid} (hguard : preemptGuard s op)
    {s' : PreemptState Tid} (hstep : preemptStep s op = some s') : ∃ l', PreemptInv s' l' := by
  unfold preemptStep at hstep
  split at hstep
  · split at hstep
    · cases hstep
      exact ⟨l, h.clock hguard⟩
    · cases hstep
  · next task =>
      split at hstep
      · split at hstep
        · next hasleep => exact ⟨task :: l, h.task_unblock hguard.1 (hguard.2 hasleep) hstep⟩
        · cases hstep
          exact ⟨l, h⟩
      · cases hstep
  · next f rest hframes => exact h.frame_step hframes hstep
  · next f rest hframes =>
      split at hstep
      · next hpc =>
          obtain ⟨hpc, hstores⟩ := hpc
          cases hstep
          have hrest : ∀ g ∈ rest, g.stores = [] ∧ g.pc.Interruptible := by
            intro g hg
            refine h.frames.below s.current h.ready.current g ?_
            rw [hframes]
            exact hg
          have hcircle := h.circle
          have hready := h.ready
          have hpending : s.pending = [] := by
            simp [PreemptState.pending, hframes, hstores]
          have htop : s.pc = some .toSchedule := by
            simp [PreemptState.pc, hframes, hpc]
          rw [hpending, settle_nil] at hcircle
          rw [htop] at hready
          have hawake : ReadyInv ((s.setStatus s.current .running).setRegistered s.current false) l
              (some .resumed) := hready.stay_awake hguard fun p hp => Option.some.inj hp ▸ trivial
          have hpop := preempt_inv_pop
            (s := (s.setStatus s.current .running).setRegistered s.current false) hcircle hawake
            (.inl rfl) ⟨h.frames.suspended, h.frames.below⟩ hrest s.interrupts
          exact ⟨l, hpop⟩
      · cases hstep
  · next hframes => exact h.call hframes hguard hstep
  · cases hstep

end

end XBook.Preempt
