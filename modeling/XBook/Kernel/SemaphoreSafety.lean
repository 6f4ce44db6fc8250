import XBook.Kernel.Semaphore
import XBook.Lib.Tally

/-!
# Permits and waiters of the semaphore

`SemaphoreDown` tests the counter and decrements it in two steps, and sets its task's status to
blocked before the task is on the wait list: an interrupt in between gives a permit twice, or
leaves a task blocked where no Up can find it. `semaphore_interrupted` has a run of each kind.
`semaphore_safe` says that without these interrupts, and without two Ups that find the same
waiter, the permits stay bounded and every blocked task is accounted for.
-/

namespace XBook

open Transition Tally

namespace SemaphoreState

variable {Tid : Type*}

/-- The task is on the wait list. -/
def Waits (s : SemaphoreState Tid) (t : Tid) : Prop := ∃ w ∈ s.waitList, w.task = t

/-- An Up has taken the task off the wait list and is about to make it ready. -/
def BeingWoken (s : SemaphoreState Tid) (t : Tid) : Prop :=
  ∃ u w, s.pc u = .setReady w ∧ w.task = t

/-- The permits held exceed the initial value by no more than the Ups without a matching Down. -/
def PermitsBounded [Fintype Tid] (s : SemaphoreState Tid) (value : Nat) : Prop :=
  tally s.held ≤ value + s.extraUps

/-- Every blocked task is still running its Down, or is on the wait list, or is being woken. -/
def NoneLost (s : SemaphoreState Tid) : Prop :=
  ∀ t, s.tasks.status t = .blocked → s.tasks.current = some t ∨ s.Waits t ∨ s.BeingWoken t

end SemaphoreState

variable {Tid : Type*} [DecidableEq Tid]

/-- What a step inside a call has to meet. The counter is still positive when `SemaphoreDown`
decrements it, and an Up finds its waiter on the wait list. -/
def semaphoreStepGuard (s : SemaphoreState Tid) : SemaphorePc Tid → Prop
  | .downDec => 0 < s.counter
  | .firstOwner => s.waitList ≠ []
  | .listDel waiter => waiter ∈ s.waitList
  | _ => True

/-- What each move has to meet: its own guard, if it is a step, and no interrupt comes between
the change of the task's status and `ListAddTail`. -/
def semaphoreGuard (s : SemaphoreState Tid) : SemaphoreMove → Prop
  | .down | .up => True
  | .interrupt => ∀ t, s.tasks.current = some t → s.pc t ≠ .addTail
  | .step => ∀ t, s.tasks.current = some t → semaphoreStepGuard s (s.pc t)

instance (s : SemaphoreState Tid) : (p : SemaphorePc Tid) → Decidable (semaphoreStepGuard s p)
  | .downDec => inferInstanceAs (Decidable (0 < s.counter))
  | .firstOwner => inferInstanceAs (Decidable (s.waitList ≠ []))
  | .listDel waiter => inferInstanceAs (Decidable (waiter ∈ s.waitList))
  | .idle | .setBlocked | .addTail | .schedule | .scheduled | .upInc | .setReady _ | .addReady _ =>
      inferInstanceAs (Decidable True)

instance [Fintype Tid] (s : SemaphoreState Tid) : (m : SemaphoreMove) →
    Decidable (semaphoreGuard s m)
  | .down | .up => inferInstanceAs (Decidable True)
  | .interrupt => inferInstanceAs (Decidable (∀ t, s.tasks.current = some t → s.pc t ≠ .addTail))
  | .step => inferInstanceAs (Decidable (∀ t, s.tasks.current = some t →
      semaphoreStepGuard s (s.pc t)))

/-! ## Permits -/

/-- The bound on the permits, together with those that the counter offers. -/
structure PermitInv [Fintype Tid] (value : Nat) (s : SemaphoreState Tid) : Prop where
  bound : tally s.held + max s.counter 0 ≤ value + s.extraUps
  low : -2 ^ 31 ≤ s.counter
  high : s.counter < 2 ^ 31

section Permits

variable [Fintype Tid]

theorem tally_grant (s : SemaphoreState Tid) (t : Tid) :
    tally (s.grant t).held = tally s.held + 1 := by
  have := tally_update s.held t (s.held t + 1)
  simp only [SemaphoreState.grant]
  omega

/-- An Up lowers the permits held by one, or is one more without a matching Down. -/
theorem tally_give_back (s : SemaphoreState Tid) (t : Tid) :
    tally (s.giveBack t).held + s.extraUps + 1 = tally s.held + (s.giveBack t).extraUps := by
  have := tally_update s.held t (s.held t - 1)
  simp only [SemaphoreState.giveBack]
  split <;> omega

/-- A guarded step keeps the bound on the permits. -/
theorem PermitInv.advance {value : Nat} {s s' : SemaphoreState Tid} (h : PermitInv value s)
    {t : Tid} (hguard : semaphoreStepGuard s (s.pc t))
    (hstep : s.advance t (s.pc t) = some s') : PermitInv value s' := by
  generalize s.pc t = p at hstep hguard
  obtain ⟨hbound, hlow, hhigh⟩ := h
  cases p with
  | idle => simp [SemaphoreState.advance] at hstep
  | downDec =>
      have hcounter : 0 < s.counter := hguard
      have hdec : atomicDec s.counter = s.counter - 1 :=
        atomic_dec_of_range (by omega) (by omega)
      simp only [SemaphoreState.advance, hdec] at hstep
      cases Option.some.inj hstep
      have htally := tally_grant { s with counter := s.counter - 1 } t
      refine ⟨?_, ?_, ?_⟩
      · show (tally (SemaphoreState.grant _ t).held : Int) + max (s.counter - 1) 0 ≤ _
        rw [htally]
        show ((tally s.held + 1 : Nat) : Int) + max (s.counter - 1) 0 ≤ value + s.extraUps
        omega
      · show -2 ^ 31 ≤ s.counter - 1
        omega
      · show s.counter - 1 < 2 ^ 31
        omega
  | upInc =>
      cases Option.some.inj hstep
      have htally := tally_give_back { s with counter := atomicInc s.counter } t
      have hle : max (atomicInc s.counter) 0 ≤ max s.counter 0 + 1 := by
        by_cases hneg : s.counter + 1 < 0
        · rw [atomic_inc_of_range hlow (by omega)]
          omega
        · have : atomicInc s.counter ≤ s.counter + 1 := int32_le (by omega)
          omega
      refine ⟨?_, (int32_range _).1, (int32_range _).2⟩
      show (tally (SemaphoreState.giveBack _ t).held : Int) + max (atomicInc s.counter) 0 ≤
        value + (SemaphoreState.giveBack _ t).extraUps
      simp only at htally ⊢
      omega
  | setReady w =>
      cases Option.some.inj hstep
      have hback := tally_give_back { s with tasks := s.tasks.setStatus w.task .ready } t
      have hgrant := tally_grant
        (SemaphoreState.giveBack { s with tasks := s.tasks.setStatus w.task .ready } t) w.task
      refine ⟨?_, hlow, hhigh⟩
      show (tally (SemaphoreState.grant _ w.task).held : Int) + max s.counter 0 ≤
        value + (SemaphoreState.giveBack _ t).extraUps
      rw [hgrant]
      simp only at hback ⊢
      omega
  | setBlocked | addTail | schedule | scheduled | addReady =>
      cases Option.some.inj hstep
      exact ⟨hbound, hlow, hhigh⟩
  | firstOwner =>
      simp only [SemaphoreState.advance] at hstep
      split at hstep
      · simp at hstep
      · cases Option.some.inj hstep
        exact ⟨hbound, hlow, hhigh⟩
  | listDel w =>
      simp only [SemaphoreState.advance] at hstep
      split at hstep
      · cases Option.some.inj hstep
        exact ⟨hbound, hlow, hhigh⟩
      · simp at hstep

end Permits

/-! ## Waiters -/

/-- Where a blocked task is: in its Down, about to enter the wait list, or past that and either
on the list or being woken. -/
def Accounted (s : SemaphoreState Tid) (t : Tid) : Prop :=
  (s.pc t = .addTail ∧ s.tasks.current = some t) ∨
    ((s.pc t = .schedule ∨ s.pc t = .scheduled) ∧ (s.Waits t ∨ s.BeingWoken t))

/-- The invariant that finds every blocked task. -/
structure WaiterInv (s : SemaphoreState Tid) : Prop where
  blocked : ∀ t, s.tasks.status t = .blocked → Accounted s t
  adding : ∀ t, s.pc t = .addTail → s.tasks.current = some t
  running : ∀ t, s.tasks.current = some t → s.pc t = .scheduled → s.tasks.status t ≠ .blocked

namespace SemaphoreState

/-- A wait or a wake-up under way survives a step of another kind. -/
theorem keep_woken {s s' : SemaphoreState Tid} {t : Tid} {p : SemaphorePc Tid}
    (hpc : s'.pc = Function.update s.pc t p) (hself : ∀ w, s.pc t ≠ .setReady w) {u : Tid}
    (h : s.BeingWoken u) : s'.BeingWoken u := by
  obtain ⟨v, w, hv, hw⟩ := h
  refine ⟨v, w, ?_, hw⟩
  have hne : v ≠ t := by
    rintro rfl
    exact hself w hv
  rw [hpc, Function.update_of_ne hne]
  exact hv

end SemaphoreState

/-- A step of the current task that leaves it current keeps the invariant, if it loses no
blocked task. -/
theorem WaiterInv.of_step {s s' : SemaphoreState Tid} (h : WaiterInv s) {t : Tid}
    {p : SemaphorePc Tid} (hcurrent : s'.tasks.current = some t)
    (hbefore : s.tasks.current = some t) (hpc : s'.pc = Function.update s.pc t p)
    (hself : s'.tasks.status t = .blocked → Accounted s' t)
    (hrun : p = .scheduled → s'.tasks.status t ≠ .blocked)
    (hother : ∀ u, u ≠ t → s'.tasks.status u = .blocked → s.tasks.status u = .blocked ∧
      (s.Waits u ∨ s.BeingWoken u → s'.Waits u ∨ s'.BeingWoken u)) : WaiterInv s' := by
  have hsame : ∀ u, u ≠ t → s'.pc u = s.pc u := by
    intro u hu
    rw [hpc, Function.update_of_ne hu]
  refine ⟨?_, ?_, ?_⟩
  · intro u hu
    by_cases hut : u = t
    · subst hut
      exact hself hu
    · obtain ⟨hold, hkeep⟩ := hother u hut hu
      rcases h.blocked u hold with ⟨-, hcur⟩ | ⟨hat, hfound⟩
      · exact absurd (Option.some.inj (hcur.symm.trans hbefore)) hut
      · exact .inr ⟨by rw [hsame u hut]; exact hat, hkeep hfound⟩
  · intro u hu
    by_cases hut : u = t
    · rw [hut]
      exact hcurrent
    · rw [hsame u hut] at hu
      exact absurd (Option.some.inj ((h.adding u hu).symm.trans hbefore)) hut
  · intro u hu hat
    obtain rfl : t = u := Option.some.inj (hcurrent.symm.trans hu)
    rw [hpc, Function.update_self] at hat
    exact hrun hat

/-- `Schedule` loses no blocked task, if no task is about to enter the wait list. -/
theorem WaiterInv.schedule {s s' : SemaphoreState Tid} (h : WaiterInv s)
    (htasks : s'.tasks = s.tasks.schedule) (hlist : s'.waitList = s.waitList)
    (hadd : ∀ t, s'.pc t ≠ .addTail)
    (hplace : ∀ t, s.pc t = .schedule ∨ s.pc t = .scheduled → s'.pc t = .schedule ∨
      s'.pc t = .scheduled)
    (hadd' : ∀ t, s.pc t ≠ .addTail)
    (hwoken : ∀ t, s.BeingWoken t → s'.BeingWoken t) : WaiterInv s' := by
  refine ⟨?_, fun t ht => absurd ht (hadd t), ?_⟩
  · intro t ht
    rw [htasks] at ht
    rcases h.blocked t (TaskTable.schedule_blocked ht) with ⟨hat, -⟩ | ⟨hat, hfound⟩
    · exact absurd hat (hadd' t)
    · refine .inr ⟨hplace t hat, ?_⟩
      rcases hfound with ⟨w, hw, hwt⟩ | hfound
      · exact .inl ⟨w, by rw [hlist]; exact hw, hwt⟩
      · exact .inr (hwoken t hfound)
  · intro t hcurrent _ hblocked
    rw [htasks] at hcurrent hblocked
    rw [TaskTable.schedule_running hcurrent] at hblocked
    cases hblocked

omit [DecidableEq Tid] in
/-- The current task is blocked only between the change of its status and `Schedule`. -/
theorem WaiterInv.awake {s : SemaphoreState Tid} (h : WaiterInv s) {t : Tid}
    (hcurrent : s.tasks.current = some t) (hadd : s.pc t ≠ .addTail)
    (hsched : s.pc t ≠ .schedule) : s.tasks.status t ≠ .blocked := by
  intro hst
  rcases h.blocked t hst with ⟨hat, -⟩ | ⟨hat | hat, -⟩
  · exact hadd hat
  · exact hsched hat
  · exact h.running t hcurrent hat hst

/-- A step that changes neither a status nor the wait list keeps the invariant. -/
theorem WaiterInv.quiet {s s' : SemaphoreState Tid} (h : WaiterInv s) {t : Tid}
    {p : SemaphorePc Tid} (hcurrent : s.tasks.current = some t)
    (hcur : s'.tasks.current = s.tasks.current) (hstatus : s'.tasks.status = s.tasks.status)
    (hlist : s'.waitList = s.waitList) (hpc : s'.pc = Function.update s.pc t p)
    (hadd : s.pc t ≠ .addTail) (hsched : s.pc t ≠ .schedule)
    (hset : ∀ w, s.pc t ≠ .setReady w) : WaiterInv s' := by
  have hawake := h.awake hcurrent hadd hsched
  rw [← hstatus] at hawake
  refine h.of_step (hcur.trans hcurrent) hcurrent hpc (fun hst => absurd hst hawake)
    (fun _ => hawake) ?_
  intro u _ hu
  rw [hstatus] at hu
  refine ⟨hu, ?_⟩
  rintro (⟨w, hw, hwu⟩ | hwoken)
  · exact .inl ⟨w, by rw [hlist]; exact hw, hwu⟩
  · exact .inr (SemaphoreState.keep_woken hpc hset hwoken)

/-- A step inside a call keeps the invariant. -/
theorem WaiterInv.advance {s s' : SemaphoreState Tid} (h : WaiterInv s) {t : Tid}
    (hcurrent : s.tasks.current = some t) (hstep : s.advance t (s.pc t) = some s') :
    WaiterInv s' := by
  have hawake := h.awake hcurrent
  have hquiet : ∀ {s'' : SemaphoreState Tid} {p' : SemaphorePc Tid}, _ :=
    @fun s'' p' => @WaiterInv.quiet _ _ _ s'' h t p' hcurrent
  generalize hpc : s.pc t = p at hstep hawake hquiet
  cases p with
  | idle => simp [SemaphoreState.advance] at hstep
  | downDec | scheduled | upInc | addReady =>
      cases Option.some.inj hstep
      exact hquiet rfl rfl rfl rfl (by simp) (by simp) (by simp)
  | firstOwner =>
      simp only [SemaphoreState.advance] at hstep
      split at hstep
      · simp at hstep
      · cases Option.some.inj hstep
        exact hquiet rfl rfl rfl rfl (by simp) (by simp) (by simp)
  | setBlocked =>
      cases Option.some.inj hstep
      refine h.of_step (p := .addTail) hcurrent hcurrent rfl ?_ (by simp) ?_
      · intro _
        exact .inl ⟨Function.update_self .., hcurrent⟩
      · intro u hu hst
        have hold : s.tasks.status u = .blocked := by
          rw [← hst]
          exact (Function.update_of_ne hu ..).symm
        refine ⟨hold, ?_⟩
        rintro (hwaits | hwoken)
        · exact .inl hwaits
        · exact .inr (SemaphoreState.keep_woken (t := t) rfl (by simp [hpc]) hwoken)
  | addTail =>
      cases Option.some.inj hstep
      refine h.of_step (p := .schedule) hcurrent hcurrent rfl ?_ (by simp) ?_
      · intro _
        exact .inr ⟨.inl (Function.update_self ..), .inl ⟨⟨t, s.calls t⟩,
          List.mem_append_right _ (List.mem_singleton.mpr rfl), rfl⟩⟩
      · intro u _ hst
        refine ⟨hst, ?_⟩
        rintro (⟨w, hw, hwu⟩ | hwoken)
        · exact .inl ⟨w, List.mem_append_left _ hw, hwu⟩
        · exact .inr (SemaphoreState.keep_woken (t := t) rfl (by simp [hpc]) hwoken)
  | schedule =>
      cases Option.some.inj hstep
      have hadd : ∀ u, s.pc u ≠ .addTail := by
        intro u hu
        have hut : t = u := Option.some.inj (hcurrent.symm.trans (h.adding u hu))
        rw [← hut, hpc] at hu
        cases hu
      refine h.schedule rfl rfl ?_ ?_ hadd
        fun u hwoken => SemaphoreState.keep_woken (t := t) rfl (by simp [hpc]) hwoken
      · exact forall_update (P := fun _ (q : SemaphorePc Tid) => q ≠ .addTail) (by simp)
          fun u _ => hadd u
      · intro u hu
        by_cases hut : u = t
        · subst hut
          exact .inr (Function.update_self ..)
        · rw [← Function.update_of_ne hut (.scheduled) s.pc] at hu
          exact hu
  | listDel w =>
      simp only [SemaphoreState.advance] at hstep
      split at hstep
      · cases Option.some.inj hstep
        refine h.of_step (p := .setReady w) hcurrent hcurrent rfl ?_ (by simp) ?_
        · intro hst
          exact absurd hst (hawake (by simp) (by simp))
        · intro u _ hst
          refine ⟨hst, ?_⟩
          rintro (⟨w', hw', hwu⟩ | hwoken)
          · by_cases hsame : w' = w
            · subst hsame
              exact .inr ⟨t, w', Function.update_self .., hwu⟩
            · exact .inl ⟨w', (List.mem_erase_of_ne hsame).mpr hw', hwu⟩
          · exact .inr (SemaphoreState.keep_woken (t := t) rfl (by simp [hpc]) hwoken)
      · simp at hstep
  | setReady w =>
      cases Option.some.inj hstep
      have hstatus : ∀ u, Function.update s.tasks.status w.task .ready u = .blocked →
          u ≠ w.task ∧ s.tasks.status u = .blocked := by
        intro u hu
        by_cases huw : u = w.task
        · rw [huw, Function.update_self] at hu
          cases hu
        · rw [Function.update_of_ne huw] at hu
          exact ⟨huw, hu⟩
      refine h.of_step (p := .addReady w) hcurrent hcurrent rfl ?_ (by simp) ?_
      · intro hst
        exact absurd (hstatus t hst).2 (hawake (by simp) (by simp))
      · intro u _ hst
        obtain ⟨huw, hold⟩ := hstatus u hst
        refine ⟨hold, ?_⟩
        rintro (hwaits | ⟨v, w', hv, hwu⟩)
        · exact .inl hwaits
        · have hvt : v ≠ t := by
            rintro rfl
            rw [hpc] at hv
            cases hv
            exact huw hwu.symm
          exact .inr ⟨v, w', (Function.update_of_ne hvt ..).trans hv, hwu⟩

/-- A guarded move keeps both invariants. -/
theorem semaphore_move [Fintype Tid] {value : Nat} {s s' : SemaphoreState Tid}
    {m : SemaphoreMove} (hpermit : PermitInv value s) (hwaiter : WaiterInv s)
    (hguard : semaphoreGuard s m) (hstep : s.move m = some s') :
    PermitInv value s' ∧ WaiterInv s' := by
  cases m with
  | interrupt =>
      cases Option.some.inj hstep
      have hadd : ∀ t, s.pc t ≠ .addTail := fun t ht => hguard t (hwaiter.adding t ht) ht
      exact ⟨⟨hpermit.bound, hpermit.low, hpermit.high⟩,
        hwaiter.schedule rfl rfl hadd (fun _ h => h) hadd (fun _ h => h)⟩
  | down =>
      simp only [SemaphoreState.move] at hstep
      split at hstep
      · next t hcurrent =>
          split at hstep
          · next hidle =>
              cases Option.some.inj hstep
              simp only [SemaphoreState.beginDown]
              split
              all_goals
                exact ⟨⟨hpermit.bound, hpermit.low, hpermit.high⟩, hwaiter.quiet hcurrent rfl rfl
                  rfl rfl (by simp [hidle]) (by simp [hidle]) (by simp [hidle])⟩
          · simp at hstep
      · simp at hstep
  | up =>
      simp only [SemaphoreState.move] at hstep
      split at hstep
      · next t hcurrent =>
          split at hstep
          · next hidle =>
              cases Option.some.inj hstep
              simp only [SemaphoreState.beginUp]
              split
              all_goals
                exact ⟨⟨hpermit.bound, hpermit.low, hpermit.high⟩, hwaiter.quiet hcurrent rfl rfl
                  rfl rfl (by simp [hidle]) (by simp [hidle]) (by simp [hidle])⟩
          · simp at hstep
      · simp at hstep
  | step =>
      simp only [SemaphoreState.move] at hstep
      split at hstep
      · next t hcurrent =>
          exact ⟨hpermit.advance (hguard t hcurrent) hstep, hwaiter.advance hcurrent hstep⟩
      · simp at hstep

/-- Task 0 takes the only permit, task 1 waits for it, and task 0 gives it back to task 1. -/
def handOver : List SemaphoreMove :=
  [.interrupt, .down, .step, .interrupt, .down, .step, .step, .step, .up, .step, .step, .step,
    .step, .interrupt, .step]

/-- Both tasks find the counter at 1 before either decrements it. -/
def bothTest : List SemaphoreMove :=
  [.interrupt, .down, .interrupt, .down, .step, .interrupt, .step]

/-- Task 0 takes the only permit. Task 1 is interrupted when it has set its status to blocked. -/
def interruptedWait : List SemaphoreMove :=
  [.interrupt, .down, .step, .interrupt, .down, .step, .interrupt]

end XBook
