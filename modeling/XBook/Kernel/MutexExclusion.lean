import XBook.Kernel.Mutex
import XBook.Lib.Tally

/-!
# Mutual exclusion of the mutex

`LockCounts` keeps three numbers of a mutex state: the count, the acquisitions that have not been
released, and the `MutexTryLock` calls between their decrement and their test. `CountsStep` says how
a move changes them, and `CountsInv` is the invariant that rules out a second winner. It fails
when a waiter's exchange raises the count under two such calls, or when the last waiter resets
the count under one: `two_try_locks_win` is a run of the first kind, and
`mutex_mutual_exclusion` says that there is no other way.
-/

namespace XBook

open Transition Tally

/-- The numbers that decide who may acquire a mutex. -/
structure LockCounts where
  count : Int
  holders : Nat
  pending : Nat

/-- A change of the numbers by one move. -/
inductive CountsStep : LockCounts → LockCounts → Prop where
  | same (c) : CountsStep c c
  | lockWin {n h p} : 0 ≤ n - 1 → CountsStep ⟨n, h, p⟩ ⟨n - 1, h + 1, p⟩
  | lockFail {n h p} : n - 1 < 0 → CountsStep ⟨n, h, p⟩ ⟨n - 1, h, p⟩
  | tryDec {n h p} : CountsStep ⟨n, h, p⟩ ⟨n - 1, h, p + 1⟩
  | tryWin {n h p} : 0 ≤ n → CountsStep ⟨n, h, p + 1⟩ ⟨n, h + 1, p⟩
  | tryFail {n h p} : n < 0 → CountsStep ⟨n, h, p + 1⟩ ⟨n, h, p⟩
  | xchgWin {n h p} : n = 1 → CountsStep ⟨n, h, p⟩ ⟨-1, h + 1, p⟩
  | xchgFail {n h p} : n ≠ 1 → h = 0 ∨ p ≤ 1 → CountsStep ⟨n, h, p⟩ ⟨-1, h, p⟩
  | setZero {n h} : CountsStep ⟨n, h + 1, 0⟩ ⟨0, h + 1, 0⟩
  | unlock {n h p} : CountsStep ⟨n, h + 1, p⟩ ⟨n + 1, h, p⟩

/-- At most one holder; either nobody can win any more, or each holder and each pending
`MutexTryLock` has taken one from the count. -/
structure CountsInv (c : LockCounts) : Prop where
  holders : c.holders ≤ 1
  balance : (c.holders = 0 ∧ c.count ≤ -1) ∨ c.count + c.holders + c.pending ≤ 1

theorem CountsInv.step {c d : LockCounts} (h : CountsInv c) (hstep : CountsStep c d) :
    CountsInv d := by
  obtain ⟨hholders, hbalance⟩ := h
  cases hstep with
  | same => exact ⟨hholders, hbalance⟩
  | lockWin | lockFail | tryDec | tryWin | tryFail | xchgWin | xchgFail | setZero | unlock =>
      constructor <;> simp only at * <;> omega

/-! ## The numbers of a mutex state -/

namespace MutexPc

variable {Tid : Type*}

/-- Whether the task is a `MutexTryLock` between its decrement and its test. -/
def pendingTry : MutexPc Tid → Nat
  | .tryGet _ => 1
  | _ => 0

/-- The task has won the exchange and may still reset the count. -/
def Winner : MutexPc Tid → Prop
  | .listDel | .lockListEmpty | .setZero => True
  | _ => False

end MutexPc

variable {Tid : Type*} [Fintype Tid] [DecidableEq Tid]

/-- The numbers of a mutex state. -/
def MutexState.counts (s : MutexState Tid) : LockCounts :=
  ⟨s.count, tally s.held, tally fun t => (s.pc t).pendingTry⟩

/-- At most one task has acquired the mutex and not released it, and it has done so once. -/
def MutexState.Exclusive (s : MutexState Tid) : Prop :=
  (∀ t u, 0 < s.held t → 0 < s.held u → t = u) ∧ ∀ t, s.held t ≤ 1

/-- What each move has to meet. A decrement does not underflow. While some task holds the mutex, a
waiter's exchange runs with at most one `MutexTryLock` between its decrement and its test. The
last waiter resets the count with no such call. -/
def exclusionGuard (s : MutexState Tid) : MutexMove → Prop
  | .call .lock | .call .tryLock => -2 ^ 31 < s.count
  | .call .unlock | .interrupt => True
  | .step => ∀ t, s.tasks.current = some t →
      (s.pc t = .xchg → s.counts.holders = 0 ∨ s.counts.pending ≤ 1) ∧
      (s.pc t = .setZero → s.counts.pending = 0)

instance (s : MutexState Tid) : (m : MutexMove) → Decidable (exclusionGuard s m)
  | .call .lock | .call .tryLock => inferInstanceAs (Decidable (_ < s.count))
  | .call .unlock | .interrupt => inferInstanceAs (Decidable True)
  | .step => inferInstanceAs (Decidable (∀ t, s.tasks.current = some t →
      (s.pc t = .xchg → s.counts.holders = 0 ∨ s.counts.pending ≤ 1) ∧
      (s.pc t = .setZero → s.counts.pending = 0)))

/-- The invariant of the runs that meet `exclusionGuard`. -/
structure ExclusionInv (s : MutexState Tid) : Prop where
  counts : CountsInv s.counts
  range : -2 ^ 31 ≤ s.count
  winner : ∀ t, (s.pc t).Winner → 0 < s.held t
  noSetOne : ∀ t, s.pc t ≠ .setOne

omit [DecidableEq Tid] in
/-- The count never exceeds 1. -/
theorem ExclusionInv.count_le_one {s : MutexState Tid} (h : ExclusionInv s) : s.count ≤ 1 := by
  have hbalance := h.counts.balance
  simp only [MutexState.counts] at hbalance
  omega

/-- How a task's new place changes the number of pending `MutexTryLock` calls. -/
theorem pending_goto (pc : Tid → MutexPc Tid) (t : Tid) (p : MutexPc Tid) :
    tally (fun u => (Function.update pc t p u).pendingTry) + (pc t).pendingTry =
      tally (fun u => (pc u).pendingTry) + p.pendingTry :=
  tally_comp_update MutexPc.pendingTry pc t p

theorem tally_acquire (s : MutexState Tid) (t : Tid) :
    tally (s.acquire t).held = tally s.held + 1 := by
  have := tally_update s.held t (s.held t + 1)
  simp only [MutexState.acquire]
  omega

theorem tally_release {s : MutexState Tid} {t : Tid} (h : 0 < s.held t) :
    tally s.held = tally (s.release t).held + 1 := by
  have := tally_update s.held t (s.held t - 1)
  simp only [MutexState.release]
  omega

/-- A step of one task keeps the invariant, if it changes the numbers as one of `CountsStep`. -/
theorem ExclusionInv.of_counts {s s' : MutexState Tid} (h : ExclusionInv s) {t : Tid}
    {p : MutexPc Tid} {c c' : LockCounts} (hc : s.counts = c) (hc' : s'.counts = c')
    (hcounts : CountsStep c c') (hrange : -2 ^ 31 ≤ c'.count)
    (hpc : s'.pc = Function.update s.pc t p) (hheld : ∀ u, u ≠ t → s'.held u = s.held u)
    (hwinner : p.Winner → 0 < s'.held t) (hone : p ≠ .setOne) : ExclusionInv s' := by
  subst hc hc'
  refine ⟨h.counts.step hcounts, hrange, ?_, ?_⟩
  · rw [hpc]
    refine forall_update (P := fun u (q : MutexPc Tid) => q.Winner → 0 < s'.held u) hwinner ?_
    intro u hu hw
    rw [hheld u hu]
    exact h.winner u hw
  · rw [hpc]
    exact forall_update (P := fun _ (q : MutexPc Tid) => q ≠ .setOne) hone
      fun u _ => h.noSetOne u

/-- A step that leaves the count, the holders and the pending `MutexTryLock` calls as they are
keeps the invariant. -/
theorem ExclusionInv.quiet {s s' : MutexState Tid} (h : ExclusionInv s) {t : Tid}
    {p : MutexPc Tid} (hpc : s'.pc = Function.update s.pc t p) (hcount : s'.count = s.count)
    (hheld : s'.held = s.held) (hpending : p.pendingTry = (s.pc t).pendingTry)
    (hwinner : p.Winner → (s.pc t).Winner) (hone : p ≠ .setOne) : ExclusionInv s' := by
  have hsame : s'.counts = s.counts := by
    have htally := pending_goto s.pc t p
    simp only [MutexState.counts, hpc, hcount, hheld, LockCounts.mk.injEq, true_and]
    omega
  refine h.of_counts rfl hsame (.same _) h.range hpc (fun u _ => by rw [hheld]) ?_ hone
  intro hw
  rw [hheld]
  exact h.winner t (hwinner hw)

/-- The first step of a call keeps the invariant. -/
theorem ExclusionInv.begin {s s' : MutexState Tid} (h : ExclusionInv s) {t : Tid} {c : MutexCall}
    (hidle : s.pc t = .idle) (hguard : exclusionGuard s (.call c))
    (hstep : s.begin t c = some s') : ExclusionInv s' := by
  have hle := h.count_le_one
  have hlow := h.range
  have hpend : ∀ p : MutexPc Tid, tally (fun u => (Function.update s.pc t p u).pendingTry) =
      tally (fun u => (s.pc u).pendingTry) + p.pendingTry := by
    intro p
    have := pending_goto s.pc t p
    rw [hidle] at this
    exact this
  cases c with
  | lock =>
      have hdec : atomicDec s.count = s.count - 1 := atomic_dec_of_range hguard (by omega)
      have hrange : -2 ^ 31 ≤ s.count - 1 := by
        have : -2 ^ 31 < s.count := hguard
        omega
      simp only [MutexState.begin, hdec] at hstep
      split at hstep
      · next hwin =>
          cases Option.some.inj hstep
          refine h.of_counts rfl ?_ (.lockWin hwin) hrange rfl
            (fun u hu => Function.update_of_ne hu ..) (fun hw => hw.elim) (by simp)
          show LockCounts.mk _ (tally (s.acquire t).held) _ = _
          rw [tally_acquire]
          exact congrArg (LockCounts.mk _ _) (hpend .setOwner)
      · next hfail =>
          cases Option.some.inj hstep
          refine h.of_counts rfl ?_ (.lockFail (by omega)) hrange rfl (fun _ _ => rfl)
            (fun hw => hw.elim) (by simp)
          exact congrArg (LockCounts.mk _ _) (hpend _)
  | tryLock =>
      have hdec : atomicDec s.count = s.count - 1 := atomic_dec_of_range hguard (by omega)
      have hrange : -2 ^ 31 ≤ s.count - 1 := by
        have : -2 ^ 31 < s.count := hguard
        omega
      simp only [MutexState.begin, hdec] at hstep
      cases Option.some.inj hstep
      refine h.of_counts rfl ?_ .tryDec hrange rfl (fun _ _ => rfl) (fun hw => hw.elim) (by simp)
      exact congrArg (LockCounts.mk _ _) (hpend _)
  | unlock =>
      have hinc : atomicInc s.count = s.count + 1 := atomic_inc_of_range hlow (by omega)
      simp only [MutexState.begin, hinc] at hstep
      split at hstep
      · simp at hstep
      · next hheld =>
          have htally := tally_release (Nat.pos_of_ne_zero hheld)
          have hcounts : s.counts =
              ⟨s.count, tally (s.release t).held + 1, tally fun u => (s.pc u).pendingTry⟩ :=
            congrArg (LockCounts.mk _ · _) htally
          have hrange : -2 ^ 31 ≤ s.count + 1 := by omega
          split at hstep
          all_goals
            cases Option.some.inj hstep
            refine h.of_counts hcounts ?_ .unlock hrange rfl
              (fun u hu => Function.update_of_ne hu ..) (fun hw => hw.elim) (by simp)
            exact congrArg (LockCounts.mk _ _) (hpend _)

/-- A later step of a call keeps the invariant. -/
theorem ExclusionInv.advance {s s' : MutexState Tid} (h : ExclusionInv s) {t : Tid}
    (hcurrent : s.tasks.current = some t) (hguard : exclusionGuard s .step)
    (hstep : s.advance t (s.pc t) = some s') : ExclusionInv s' := by
  have hle := h.count_le_one
  obtain ⟨hxchg, hzero⟩ := hguard t hcurrent
  generalize hpc : s.pc t = p at hstep
  have hquiet : ∀ {s'' : MutexState Tid} {p' : MutexPc Tid},
      s''.pc = Function.update s.pc t p' → s''.count = s.count → s''.held = s.held →
      p'.pendingTry = p.pendingTry → (p'.Winner → p.Winner) → p' ≠ .setOne → ExclusionInv s'' := by
    subst hpc
    exact h.quiet
  cases p with
  | idle => simp [MutexState.advance] at hstep
  | spin call used =>
      simp only [MutexState.advance] at hstep
      split at hstep
      · cases Option.some.inj hstep
        exact hquiet rfl rfl rfl rfl id (by simp)
      · split at hstep <;> cases Option.some.inj hstep <;>
          exact hquiet rfl rfl rfl rfl id (by simp)
  | spinInc call =>
      cases Option.some.inj hstep
      cases call <;> exact hquiet rfl rfl rfl rfl id (by simp [MutexState.afterSpinLock])
  | addTail | setBlocked | spinUnlock | schedule | listDel | lockSpinUnlock | setOwner | unblock
  | unlockSpinUnlock | clearOwner =>
      cases Option.some.inj hstep
      exact hquiet rfl rfl rfl rfl id (by simp)
  | xchg =>
      simp only [MutexState.advance] at hstep
      split at hstep
      · next hone =>
          cases Option.some.inj hstep
          refine h.of_counts rfl ?_ (.xchgWin hone) (by norm_num) rfl
            (fun u hu => Function.update_of_ne hu ..) (fun _ => ?_) (by simp)
          · have hpend := pending_goto s.pc t .listDel
            rw [hpc] at hpend
            show LockCounts.mk _ (tally (s.acquire t).held) _ = _
            rw [tally_acquire]
            exact congrArg (LockCounts.mk _ _) hpend
          · show 0 < Function.update s.held t (s.held t + 1) t
            rw [Function.update_self]
            exact Nat.succ_pos _
      · next hne =>
          cases Option.some.inj hstep
          refine h.of_counts rfl ?_ (.xchgFail hne (hxchg hpc)) (by norm_num) rfl
            (fun _ _ => rfl) (fun hw => hw.elim) (by simp)
          have hpend := pending_goto s.pc t .setBlocked
          rw [hpc] at hpend
          exact congrArg (LockCounts.mk _ _) hpend
  | lockListEmpty =>
      simp only [MutexState.advance] at hstep
      split at hstep <;> cases Option.some.inj hstep <;>
        exact hquiet rfl rfl rfl rfl (fun _ => trivial) (by simp)
  | setZero =>
      cases Option.some.inj hstep
      have hheld : 0 < s.held t := h.winner t (by rw [hpc]; trivial)
      have htally := tally_release hheld
      have hpend := pending_goto s.pc t .lockSpinUnlock
      rw [hpc] at hpend
      have hnone : tally (fun u => (s.pc u).pendingTry) = 0 := hzero hpc
      refine h.of_counts (c := ⟨s.count, tally (s.release t).held + 1, 0⟩) ?_ ?_ .setZero
        (by norm_num) rfl (fun _ _ => rfl) (fun hw => hw.elim) (by simp)
      · rw [MutexState.counts, hnone, htally]
      · rw [MutexState.counts]
        exact congrArg₂ (LockCounts.mk _) htally (hpend.trans hnone)
  | countAboveOne =>
      simp only [MutexState.advance, if_neg (Int.not_lt.mpr hle)] at hstep
      cases Option.some.inj hstep
      exact hquiet rfl rfl rfl rfl id (by simp)
  | setOne => exact absurd hpc (h.noSetOne t)
  | unlockListEmpty | wakeUp =>
      simp only [MutexState.advance] at hstep
      split at hstep <;> cases Option.some.inj hstep <;>
        exact hquiet rfl rfl rfl rfl id (by simp)
  | firstOwner =>
      simp only [MutexState.advance] at hstep
      split at hstep
      · cases Option.some.inj hstep
        exact hquiet rfl rfl rfl rfl id (by simp)
      · cases Option.some.inj hstep
        exact hquiet rfl rfl rfl rfl id (by simp)
      · simp at hstep
  | tryGet took =>
      have hpend := pending_goto s.pc t .idle
      rw [hpc] at hpend
      have hcounts : s.counts = ⟨s.count, tally s.held,
          tally (fun u => (Function.update s.pc t .idle u).pendingTry) + 1⟩ :=
        congrArg (LockCounts.mk _ _) hpend.symm
      simp only [MutexState.advance] at hstep
      split at hstep
      · next hwin =>
          cases Option.some.inj hstep
          refine h.of_counts hcounts ?_ (.tryWin hwin) h.range rfl
            (fun u hu => Function.update_of_ne hu ..) (fun hw => hw.elim) (by simp)
          show LockCounts.mk _ (tally (s.acquire t).held) _ = _
          rw [tally_acquire]
          rfl
      · next hfail =>
          cases Option.some.inj hstep
          exact h.of_counts hcounts rfl (.tryFail (by omega)) h.range rfl (fun _ _ => rfl)
            (fun hw => hw.elim) (by simp)

/-- A guarded move keeps the invariant. -/
theorem ExclusionInv.move {s s' : MutexState Tid} (h : ExclusionInv s) {m : MutexMove}
    (hguard : exclusionGuard s m) (hstep : s.move m = some s') : ExclusionInv s' := by
  cases m with
  | interrupt =>
      cases Option.some.inj hstep
      exact ⟨h.counts, h.range, h.winner, h.noSetOne⟩
  | call c =>
      simp only [MutexState.move] at hstep
      split at hstep
      · next t hcurrent =>
          split at hstep
          · next hidle => exact h.begin hidle hguard hstep
          · simp at hstep
      · simp at hstep
  | step =>
      simp only [MutexState.move] at hstep
      split at hstep
      · next t hcurrent => exact h.advance hcurrent hguard hstep
      · simp at hstep

omit [DecidableEq Tid] in
theorem exclusion_inv_init (tasks : TaskTable Tid) : ExclusionInv (MutexState.init tasks) := by
  refine ⟨⟨?_, .inr ?_⟩, ?_, ?_, ?_⟩
  all_goals simp [MutexState.init, MutexState.counts, MutexPc.pendingTry, MutexPc.Winner]

/-- In every run that meets `exclusionGuard`, at most one task holds the mutex, whatever the tasks
do and whenever they are interrupted. -/
theorem mutex_mutual_exclusion {tasks : TaskTable Tid} {s : MutexState Tid} {ms : List MutexMove}
    (hrun : Run (stepOf MutexState.move) exclusionGuard (MutexState.init tasks) ms s) :
    s.Exclusive := by
  have hinv : ExclusionInv s := hrun.invariant
    (fun _ _ _ h hguard hstep => h.move hguard hstep) (exclusion_inv_init tasks)
  have hle : tally s.held ≤ 1 := hinv.counts.holders
  exact ⟨fun t u ht hu => unique_of_tally_le_one hle ht hu,
    fun t => Nat.le_trans (le_tally s.held t) hle⟩

/-- Task 0 holds the mutex when task 2 decrements the count in `MutexTryLock`, and task 1
exchanges it; task 0 releases the mutex, and task 2 tests the count. -/
def oneTryLock : List MutexMove :=
  [.interrupt, .call .lock, .step, .interrupt, .call .lock, .interrupt, .call .tryLock, .interrupt,
    .interrupt, .step, .step, .step, .step, .interrupt, .interrupt, .call .unlock, .interrupt,
    .interrupt, .step]

/-- One pending `MutexTryLock` wins after the exchange. -/
theorem one_try_lock_wins : ∃ s : MutexState (Fin 3),
    Run (stepOf MutexState.move) exclusionGuard
      (MutexState.init ⟨fun _ => .ready, [0, 1, 2], none⟩) oneTryLock s ∧
      s.held 2 = 1 ∧ s.Exclusive := by
  obtain ⟨s, t, hinit, hrun, hheld⟩ := exists_run_checked MutexState.move exclusionGuard
    (some (.init ⟨fun _ => .ready, [0, 1, 2], none⟩)) oneTryLock
    (fun s : MutexState (Fin 3) => s.held 2) (v := 1) (by decide +kernel)
  cases Option.some.inj hinit
  exact ⟨t, hrun, hheld, mutex_mutual_exclusion hrun⟩

/-- As `oneTryLock`, with a second `MutexTryLock` by task 3. The exchange raises the count from -3
to -1, and the release raises it to 0. -/
def twoTryLocks : List MutexMove :=
  [.interrupt, .call .lock, .step, .interrupt, .call .lock, .interrupt, .call .tryLock, .interrupt,
    .call .tryLock, .interrupt, .interrupt, .step, .step, .step, .step, .interrupt, .interrupt,
    .interrupt, .call .unlock, .interrupt, .interrupt, .step, .interrupt, .step]

/-- Two pending `MutexTryLock` calls win after the exchange. -/
theorem two_try_locks_win : ∃ s : MutexState (Fin 4),
    Run (stepOf MutexState.move) anyLabel
      (MutexState.init ⟨fun _ => .ready, [0, 1, 2, 3], none⟩) twoTryLocks s ∧
      s.held 2 = 1 ∧ s.held 3 = 1 ∧ ¬ s.Exclusive := by
  obtain ⟨s, t, hinit, hrun, hheld⟩ := exists_run_all MutexState.move
    (some (.init ⟨fun _ => .ready, [0, 1, 2, 3], none⟩)) twoTryLocks
    (fun s : MutexState (Fin 4) => (s.held 2, s.held 3)) (v := (1, 1)) (by decide +kernel)
  cases Option.some.inj hinit
  obtain ⟨h2, h3⟩ := Prod.mk.inj hheld
  refine ⟨t, hrun, h2, h3, ?_⟩
  rintro ⟨hunique, -⟩
  exact absurd (hunique 2 3 (by omega) (by omega)) (by decide)

end XBook
