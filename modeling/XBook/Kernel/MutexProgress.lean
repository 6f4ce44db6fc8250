import XBook.Kernel.Mutex
import XBook.Lib.Tally

/-!
# Stuck states of the mutex

A release with waiters leaves the count at 0, where the waiter that it wakes needs a 1: the waiter
blocks again, and nobody is left to wake it (`unlock_loses_waiter`). A `MutexTryLock` that
takes the mutex and loses it to a second decrement before its test leaves it taken by nobody. As
long as every release finds the count at 0, and no such `MutexTryLock` fails its test, the mutex
is never stuck (`mutex_not_stuck`).
-/

namespace XBook

open Transition Tally

namespace MutexPc

variable {Tid : Type*}

/-- The task is a `MutexTryLock` whose decrement took the mutex. -/
def claims : MutexPc Tid → Nat
  | .tryGet true => 1
  | _ => 0

/-- The task is in `__MutexUnlock` and has not finished its wake-up. -/
def waking : MutexPc Tid → Bool
  | .spin .wake _ | .spinInc .wake | .countAboveOne | .setOne | .unlockListEmpty | .firstOwner
  | .wakeUp _ | .unblock _ => true
  | _ => false

/-- The task neither waits for the mutex nor is about to fail a `MutexTryLock`. -/
def Uncontended : MutexPc Tid → Prop
  | .idle | .setOwner | .clearOwner | .tryGet true => True
  | _ => False

/-- The places of a run in which no release finds a waiter. -/
def Calm : MutexPc Tid → Prop
  | .spin call _ | .spinInc call => call ≠ .wake
  | .idle | .addTail | .xchg | .setBlocked | .spinUnlock | .schedule | .setOwner | .clearOwner
  | .tryGet _ => True
  | _ => False

end MutexPc

namespace MutexState

variable {Tid : Type*}

/-- Nobody holds the mutex. A `MutexTryLock` that has taken it counts as a holder before its
test. -/
def Free (s : MutexState Tid) : Prop := (∀ t, s.held t = 0) ∧ ∀ t, s.pc t ≠ .tryGet true

/-- The mutex is free, and its waiters are all blocked with no wake-up under way. -/
def WaitersStuck (s : MutexState Tid) : Prop :=
  s.Free ∧ s.waitList ≠ [] ∧ (∀ t ∈ s.waitList, s.tasks.status t = .blocked) ∧
    ∀ t, (s.pc t).waking = false

/-- The mutex is free and nobody waits for it, but a fresh `MutexLock` would block. -/
def FreshStuck (s : MutexState Tid) : Prop :=
  s.Free ∧ s.waitList = [] ∧ atomicDec s.count < 0

instance [Fintype Tid] [DecidableEq Tid] (s : MutexState Tid) : Decidable s.Free :=
  inferInstanceAs (Decidable (_ ∧ _))

instance [Fintype Tid] [DecidableEq Tid] (s : MutexState Tid) : Decidable s.WaitersStuck :=
  inferInstanceAs (Decidable (_ ∧ _ ∧ _ ∧ _))

end MutexState

variable {Tid : Type*} [Fintype Tid] [DecidableEq Tid]

/-- The tasks that hold the mutex, with those whose `MutexTryLock` has taken it. -/
def MutexState.claimants (s : MutexState Tid) : Nat :=
  tally s.held + tally fun t => (s.pc t).claims

/-- What each move has to meet. A decrement does not underflow. A release finds the count at 0. A
`MutexTryLock` that took the mutex finds the count still not negative. -/
def progressGuard (s : MutexState Tid) : MutexMove → Prop
  | .call .lock | .call .tryLock => -2 ^ 31 < s.count
  | .call .unlock => s.count = 0
  | .interrupt => True
  | .step => ∀ t, s.tasks.current = some t → s.pc t = .tryGet true → 0 ≤ s.count

instance (s : MutexState Tid) : (m : MutexMove) → Decidable (progressGuard s m)
  | .call .lock | .call .tryLock => inferInstanceAs (Decidable (_ < s.count))
  | .call .unlock => inferInstanceAs (Decidable (s.count = 0))
  | .interrupt => inferInstanceAs (Decidable True)
  | .step => inferInstanceAs (Decidable (∀ t, s.tasks.current = some t → s.pc t = .tryGet true →
      0 ≤ s.count))

/-- The invariant of the runs that meet `progressGuard`: until the count is negative nobody waits,
and one task has the mutex unless the count is 1; from then on some task keeps it. -/
structure ProgressInv (s : MutexState Tid) : Prop where
  range : -2 ^ 31 ≤ s.count
  calm : ∀ t, (s.pc t).Calm
  mode : (0 ≤ s.count ∧ s.count + s.claimants = 1 ∧ s.waitList = [] ∧
      ∀ t, (s.pc t).Uncontended) ∨ (s.count < 0 ∧ 0 < s.claimants)

/-- How a task's new place changes the number of claimants. -/
theorem claimants_goto {s s' : MutexState Tid} {t : Tid} {p : MutexPc Tid}
    (hpc : s'.pc = Function.update s.pc t p) (hheld : s'.held = s.held) :
    s'.claimants + (s.pc t).claims = s.claimants + p.claims := by
  have htally := tally_comp_update MutexPc.claims s.pc t p
  simp only [MutexState.claimants, hpc, hheld]
  omega

theorem claimants_acquire (s : MutexState Tid) (t : Tid) :
    (s.acquire t).claimants = s.claimants + 1 := by
  have htally := tally_update s.held t (s.held t + 1)
  simp only [MutexState.claimants, MutexState.acquire]
  omega

theorem claimants_release {s : MutexState Tid} {t : Tid} (h : 0 < s.held t) :
    (s.release t).claimants + 1 = s.claimants := by
  have htally := tally_update s.held t (s.held t - 1)
  simp only [MutexState.claimants, MutexState.release]
  omega

/-- A step of one task that ends with a negative count and a claimant keeps the invariant. -/
theorem ProgressInv.contended {s s' : MutexState Tid} (h : ProgressInv s) {t : Tid}
    {p : MutexPc Tid} (hpc : s'.pc = Function.update s.pc t p) (hcalm : p.Calm)
    (hrange : -2 ^ 31 ≤ s'.count) (hcount : s'.count < 0) (hclaim : 0 < s'.claimants) :
    ProgressInv s' := by
  refine ⟨hrange, ?_, .inr ⟨hcount, hclaim⟩⟩
  rw [hpc]
  exact forall_update (P := fun _ (q : MutexPc Tid) => q.Calm) hcalm fun u _ => h.calm u

/-- A step of one task that leaves nobody waiting keeps the invariant, if the count and the
claimants still make 1. -/
theorem ProgressInv.uncontended {s s' : MutexState Tid} (h : ProgressInv s) {t : Tid}
    {p : MutexPc Tid} (hpc : s'.pc = Function.update s.pc t p) (hcalm : p.Calm)
    (hquiet : p.Uncontended) (hbefore : ∀ u, u ≠ t → (s.pc u).Uncontended)
    (hcount : 0 ≤ s'.count) (hsum : s'.count + s'.claimants = 1) (hlist : s'.waitList = []) :
    ProgressInv s' := by
  refine ⟨by omega, ?_, .inl ⟨hcount, hsum, hlist, ?_⟩⟩
  · rw [hpc]
    exact forall_update (P := fun _ (q : MutexPc Tid) => q.Calm) hcalm fun u _ => h.calm u
  · rw [hpc]
    exact forall_update (P := fun _ (q : MutexPc Tid) => q.Uncontended) hquiet hbefore

/-- The first step of a call keeps the invariant. -/
theorem ProgressInv.begin {s s' : MutexState Tid} (h : ProgressInv s) {t : Tid} {c : MutexCall}
    (hidle : s.pc t = .idle) (hguard : progressGuard s (.call c))
    (hstep : s.begin t c = some s') : ProgressInv s' := by
  have hle : s.count ≤ 1 := by
    have := h.mode
    omega
  have hclaims : ∀ {r : MutexState Tid} (p : MutexPc Tid), r.pc = s.pc →
      (r.goto t p).claimants = r.claimants + p.claims := by
    intro r p hr
    have hgoto := @claimants_goto _ _ _ r (r.goto t p) _ _ rfl rfl
    rw [hr, hidle] at hgoto
    exact hgoto
  cases c with
  | lock =>
      have hlow : -2 ^ 31 < s.count := hguard
      have hdec : atomicDec s.count = s.count - 1 := atomic_dec_of_range hlow (by omega)
      simp only [MutexState.begin, hdec] at hstep
      split at hstep
      · next hwin =>
          cases Option.some.inj hstep
          have hclaim := hclaims (r := { s with count := s.count - 1 }.acquire t) .setOwner rfl
          rw [claimants_acquire] at hclaim
          rcases h.mode with ⟨hpos, hsum, hlist, hquiet⟩ | ⟨hneg, -⟩
          · refine h.uncontended rfl trivial trivial (fun u _ => hquiet u) hwin ?_ hlist
            rw [hclaim]
            show s.count - 1 + ((s.claimants + 1 : Nat) : Int) = 1
            omega
          · omega
      · next hfail =>
          cases Option.some.inj hstep
          have hclaim := hclaims (r := { s with count := s.count - 1 }) (.spin .enqueue false) rfl
          refine h.contended rfl (by simp [MutexPc.Calm]) (by show -2 ^ 31 ≤ s.count - 1; omega)
            (by show s.count - 1 < 0; omega) ?_
          rw [hclaim]
          show 0 < s.claimants + 0
          have := h.mode
          omega
  | tryLock =>
      have hlow : -2 ^ 31 < s.count := hguard
      have hdec : atomicDec s.count = s.count - 1 := atomic_dec_of_range hlow (by omega)
      simp only [MutexState.begin, hdec] at hstep
      cases Option.some.inj hstep
      by_cases hone : s.count = 1
      · rcases h.mode with ⟨hpos, hsum, hlist, hquiet⟩ | ⟨hneg, -⟩
        · have hclaim := hclaims (r := { s with count := s.count - 1 }) (.tryGet true) rfl
          simp only [hone, decide_true] at hclaim ⊢
          refine h.uncontended rfl trivial trivial (fun u _ => hquiet u) (Int.le_refl 0) ?_ hlist
          rw [hclaim]
          show (1 - 1 : Int) + ((s.claimants + 1 : Nat) : Int) = 1
          omega
        · omega
      · have hclaim := hclaims (r := { s with count := s.count - 1 }) (.tryGet false) rfl
        simp only [hone, decide_false]
        refine h.contended rfl trivial (by show -2 ^ 31 ≤ s.count - 1; omega)
          (by show s.count - 1 < 0; omega) ?_
        rw [hclaim]
        show 0 < s.claimants + 0
        have := h.mode
        omega
  | unlock =>
      have hzero : s.count = 0 := hguard
      have hinc : atomicInc s.count = 1 := by rw [hzero]; rfl
      simp only [MutexState.begin, hinc, if_true] at hstep
      split at hstep
      · simp at hstep
      · next hheld =>
          cases Option.some.inj hstep
          have hclaim := hclaims (r := { s.release t with count := 1 }) .clearOwner rfl
          have hrelease := claimants_release (Nat.pos_of_ne_zero hheld)
          rcases h.mode with ⟨hpos, hsum, hlist, hquiet⟩ | ⟨hneg, -⟩
          · refine h.uncontended rfl trivial trivial (fun u _ => hquiet u) Int.one_nonneg ?_ hlist
            rw [hclaim]
            show (1 : Int) + (((s.release t).claimants + 0 : Nat) : Int) = 1
            omega
          · omega

/-- A later step of a call keeps the invariant. -/
theorem ProgressInv.advance {s s' : MutexState Tid} (h : ProgressInv s) {t : Tid}
    (hcurrent : s.tasks.current = some t) (hguard : progressGuard s .step)
    (hstep : s.advance t (s.pc t) = some s') : ProgressInv s' := by
  have hcalm := h.calm t
  have htook := hguard t hcurrent
  generalize hpc : s.pc t = p at hstep hcalm htook
  -- a task that waits, or is about to fail a `MutexTryLock`
  have hwait : ∀ {s'' : MutexState Tid} {p' : MutexPc Tid}, ¬ p.Uncontended →
      s''.pc = Function.update s.pc t p' → s''.held = s.held →
      (s.count < 0 → s''.count < 0 ∧ -2 ^ 31 ≤ s''.count) → p'.claims = p.claims → p'.Calm →
      ProgressInv s'' := by
    intro s'' p' hp hpc' hheld hcount hclaims hcalm'
    have hgoto := claimants_goto hpc' hheld
    rw [hpc] at hgoto
    rcases h.mode with ⟨-, -, -, hquiet⟩ | ⟨hneg, hclaim⟩
    · exact absurd (hpc ▸ hquiet t) hp
    · exact h.contended hpc' hcalm' (hcount hneg).2 (hcount hneg).1 (by omega)
  -- a task that is past its acquisition or its release
  have hdone : ∀ {s'' : MutexState Tid}, p.claims = 0 →
      s''.pc = Function.update s.pc t .idle → s''.held = s.held → s''.count = s.count →
      s''.waitList = s.waitList → ProgressInv s'' := by
    intro s'' hp hpc' hheld hcount hlist
    have hgoto := claimants_goto hpc' hheld
    rw [hpc, hp] at hgoto
    have hsame : s''.claimants = s.claimants := hgoto
    rcases h.mode with ⟨hpos, hsum, hempty, hquiet⟩ | ⟨hneg, hclaim⟩
    · exact h.uncontended hpc' trivial trivial (fun u _ => hquiet u) (by omega)
        (by rw [hcount, hsame, hsum]) (by rw [hlist, hempty])
    · exact h.contended hpc' trivial (by rw [hcount]; exact h.range) (by omega) (by omega)
  cases p with
  | idle => simp [MutexState.advance] at hstep
  | spin call used =>
      simp only [MutexState.advance] at hstep
      split at hstep
      · cases Option.some.inj hstep
        exact hwait id rfl rfl (fun hneg => ⟨hneg, h.range⟩) rfl hcalm
      · split at hstep <;> cases Option.some.inj hstep <;>
          exact hwait id rfl rfl (fun hneg => ⟨hneg, h.range⟩) rfl hcalm
  | spinInc call =>
      cases Option.some.inj hstep
      cases call with
      | enqueue | retry => exact hwait id rfl rfl (fun hneg => ⟨hneg, h.range⟩) rfl trivial
      | wake => exact absurd rfl hcalm
  | addTail | setBlocked | spinUnlock =>
      cases Option.some.inj hstep
      exact hwait id rfl rfl (fun hneg => ⟨hneg, h.range⟩) rfl trivial
  | schedule =>
      cases Option.some.inj hstep
      exact hwait id rfl rfl (fun hneg => ⟨hneg, h.range⟩) rfl (by simp [MutexPc.Calm])
  | xchg =>
      simp only [MutexState.advance] at hstep
      split at hstep
      · next hone =>
          rcases h.mode with ⟨-, -, -, hquiet⟩ | ⟨hneg, -⟩
          · have hself := hquiet t
            rw [hpc] at hself
            exact hself.elim
          · omega
      · cases Option.some.inj hstep
        exact hwait id rfl rfl (fun _ => ⟨show (-1 : Int) < 0 by norm_num, show (_ : Int) ≤ -1 by norm_num⟩) rfl trivial
  | setOwner | clearOwner =>
      cases Option.some.inj hstep
      exact hdone rfl rfl rfl rfl rfl
  | tryGet took =>
      simp only [MutexState.advance] at hstep
      cases took with
      | false =>
          rcases h.mode with ⟨-, -, -, hquiet⟩ | ⟨hneg, -⟩
          · have hself := hquiet t
            rw [hpc] at hself
            exact hself.elim
          · rw [if_neg (by omega)] at hstep
            cases Option.some.inj hstep
            exact hdone rfl rfl rfl rfl rfl
      | true =>
          have hpos : 0 ≤ s.count := htook rfl
          rw [if_pos hpos] at hstep
          cases Option.some.inj hstep
          rcases h.mode with ⟨-, hsum, hempty, hquiet⟩ | ⟨hneg, -⟩
          · have hgoto := @claimants_goto _ _ _ (s.acquire t) ((s.acquire t).goto t .idle)
              t _ rfl rfl
            rw [claimants_acquire, show (s.acquire t).pc t = .tryGet true from hpc] at hgoto
            have hsame : ((s.acquire t).goto t .idle).claimants = s.claimants :=
              Nat.add_right_cancel hgoto
            refine h.uncontended rfl trivial trivial (fun u _ => hquiet u) hpos ?_ hempty
            rw [hsame]
            exact hsum
          · omega
  | listDel | lockListEmpty | setZero | lockSpinUnlock | countAboveOne | setOne | unlockListEmpty
  | firstOwner | wakeUp | unblock | unlockSpinUnlock => exact hcalm.elim

/-- A guarded move keeps the invariant. -/
theorem ProgressInv.move {s s' : MutexState Tid} (h : ProgressInv s) {m : MutexMove}
    (hguard : progressGuard s m) (hstep : s.move m = some s') : ProgressInv s' := by
  cases m with
  | interrupt =>
      cases Option.some.inj hstep
      exact ⟨h.range, h.calm, h.mode⟩
  | call c =>
      simp only [MutexState.move] at hstep
      split at hstep
      · next t hcurrent =>
          split at hstep
          · next hidle => exact h.begin hidle hguard hstep
          · simp at hstep
      · simp at hstep
  | step =>
      simp only [MutexState.move] at hstep
      split at hstep
      · next t hcurrent => exact h.advance hcurrent hguard hstep
      · simp at hstep

omit [DecidableEq Tid] in
theorem progress_inv_init (tasks : TaskTable Tid) : ProgressInv (MutexState.init tasks) := by
  refine ⟨by simp [MutexState.init], fun _ => trivial, .inl ⟨by simp [MutexState.init], ?_, rfl,
    fun _ => trivial⟩⟩
  simp [MutexState.init, MutexState.claimants, MutexPc.claims]

omit [DecidableEq Tid] in
/-- A free mutex has no claimants. -/
theorem MutexState.Free.claimants {s : MutexState Tid} (h : s.Free) : s.claimants = 0 := by
  have hheld : tally s.held = 0 := tally_eq_zero.mpr h.1
  have hclaims : tally (fun t => (s.pc t).claims) = 0 := by
    refine tally_eq_zero.mpr ?_
    intro t
    have hne := h.2 t
    generalize s.pc t = p at hne ⊢
    cases p with
    | tryGet took =>
        cases took with
        | false => rfl
        | true => exact absurd rfl hne
    | _ => rfl
  rw [MutexState.claimants, hheld, hclaims]

omit [DecidableEq Tid] in
/-- While the invariant holds, a free mutex has a count of 1 and no waiters. -/
theorem ProgressInv.free {s : MutexState Tid} (h : ProgressInv s) (hfree : s.Free) :
    s.count = 1 ∧ s.waitList = [] := by
  have hnone := hfree.claimants
  rcases h.mode with ⟨-, hsum, hlist, -⟩ | ⟨-, hclaim⟩
  · exact ⟨by omega, hlist⟩
  · omega

/-- In every run that meets `progressGuard`, the mutex is never stuck, neither for its waiters nor
for a fresh `MutexLock`. -/
theorem mutex_not_stuck {tasks : TaskTable Tid} {s : MutexState Tid} {ms : List MutexMove}
    (hrun : Run (stepOf MutexState.move) progressGuard (MutexState.init tasks) ms s) :
    ¬ s.WaitersStuck ∧ ¬ s.FreshStuck := by
  have hinv : ProgressInv s := hrun.invariant
    (fun _ _ _ h hguard hstep => h.move hguard hstep) (progress_inv_init tasks)
  refine ⟨?_, ?_⟩
  · rintro ⟨hfree, hlist, -⟩
    exact hlist (hinv.free hfree).2
  · rintro ⟨hfree, -, hdec⟩
    rw [(hinv.free hfree).1] at hdec
    exact absurd hdec (by decide)

/-- Task 0 locks and unlocks, task 1 takes the mutex with `MutexTryLock`, and task 0 waits. -/
def lockUnlockTryLock : List MutexMove :=
  [.interrupt, .call .lock, .step, .call .unlock, .step, .interrupt, .call .tryLock, .step,
    .interrupt, .call .lock, .step, .step, .step, .step]

theorem lock_unlock_not_stuck : ∃ s : MutexState (Fin 2),
    Run (stepOf MutexState.move) progressGuard
      (MutexState.init ⟨fun _ => .ready, [0, 1], none⟩) lockUnlockTryLock s ∧
      s.waitList = [0] ∧ ¬ s.WaitersStuck ∧ ¬ s.FreshStuck := by
  obtain ⟨s, t, hinit, hrun, hlist⟩ := exists_run_checked MutexState.move progressGuard
    (some (.init ⟨fun _ => .ready, [0, 1], none⟩)) lockUnlockTryLock
    (fun s : MutexState (Fin 2) => s.waitList) (v := [0]) (by decide +kernel)
  cases Option.some.inj hinit
  exact ⟨t, hrun, hlist, mutex_not_stuck hrun⟩

/-- Task 0 locks the mutex and task 1 waits for it. Task 0 unlocks it and wakes task 1, which
exchanges a count of 0 and blocks again. -/
def unlockWithWaiter : List MutexMove :=
  [.interrupt, .call .lock, .step, .interrupt, .call .lock] ++ List.replicate 7 .step ++
    [.call .unlock] ++ List.replicate 9 .step ++ .interrupt :: List.replicate 6 .step

/-- A release with a waiter leaves the mutex free and the waiter blocked for ever. -/
theorem unlock_loses_waiter : ∃ s : MutexState (Fin 2),
    Run (stepOf MutexState.move) anyLabel
      (MutexState.init ⟨fun _ => .ready, [0, 1], none⟩) unlockWithWaiter s ∧ s.WaitersStuck := by
  obtain ⟨s, t, hinit, hrun, hview⟩ := exists_run_all MutexState.move
    (some (.init ⟨fun _ => .ready, [0, 1], none⟩)) unlockWithWaiter
    (fun s : MutexState (Fin 2) => decide s.WaitersStuck) (v := true) (by decide +kernel)
  cases Option.some.inj hinit
  exact ⟨t, hrun, of_decide_eq_true hview⟩

end XBook
