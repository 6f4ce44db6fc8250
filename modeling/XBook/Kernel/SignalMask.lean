import XBook.Kernel.Signal
import XBook.Lib.Transition

/-!
# The signals that cannot be caught

What each operation on a task's signals does to its set of blocked signals and to its table of
actions. From this, `SIGKILL` and `SIGSTOP` are never blocked and always have their default action.
-/

namespace XBook.Signal

open Transition

/-! ## Sending -/

/-- Sending `signo` takes `b` out of the blocked set. -/
def clears (signo b : Int) : Bool :=
  (signo = sigkill || signo = sigcont) && isStopSignal b || isStopSignal signo && b = sigcont

namespace SignalTask

theorem handle_stop_signal_blocked (s : SignalTask) (signo b : Int) :
    sigismember (s.handleStopSignal signo).signalBlocked b =
      (sigismember s.signalBlocked b && !clears signo b) := by
  have hnot : isStopSignal sigkill = false ∧ isStopSignal sigcont = false := by decide
  have hsym : ∀ a : Int, decide (a = b) = decide (b = a) := fun a => decide_eq_decide.mpr eq_comm
  rw [handleStopSignal]
  split
  · next hcont =>
      have hstop : isStopSignal signo = false := by
        rcases hcont with rfl | rfl
        · exact hnot.1
        · exact hnot.2
      have hwake : ∀ t : SignalTask, t.taskWakeUp.signalBlocked = t.signalBlocked := by
        intro t
        rw [taskWakeUp]
        split <;> rfl
      have hblocked : (if s.status = .stopped then s.taskWakeUp else s).signalBlocked =
          s.signalBlocked := by
        split
        · exact hwake s
        · rfl
      have hthis : (decide (signo = sigkill) || decide (signo = sigcont)) = true := by
        simpa only [Bool.or_eq_true, decide_eq_true_eq] using hcont
      have hclears : clears signo b = isStopSignal b := by
        rw [clears, hthis, hstop, Bool.true_and, Bool.false_and, Bool.or_false]
      rw [hclears, isStopSignal]
      simp only [hblocked, sigismember_sigdelset, ne_eq, decide_not, hsym]
      cases decide (b = sigstop) <;> cases decide (b = sigtstp) <;> cases decide (b = sigttin) <;>
        cases decide (b = sigttou) <;> simp
  · next hcont =>
      have hthis : (decide (signo = sigkill) || decide (signo = sigcont)) = false := by
        simpa only [Bool.or_eq_false_iff, decide_eq_false_iff_not, not_or] using hcont
      split
      · next hstop =>
          simp only [sigismember_sigdelset, clears, hthis, hstop, ne_eq, decide_not,
            Bool.false_and, Bool.false_or, Bool.true_and, hsym]
      · next hstop =>
          have hstop := Bool.eq_false_iff.mpr hstop
          simp only [clears, hthis, hstop, Bool.false_and, Bool.or_false, Bool.not_false,
            Bool.and_true]

/-- `HandleStopSignal` changes only the status, the exit status and the blocked set. -/
theorem handle_stop_signal_keeps (s : SignalTask) (signo : Int) :
    (s.handleStopSignal signo).action = s.action ∧
      (s.handleStopSignal signo).signalPending = s.signalPending ∧
      (s.handleStopSignal signo).signalLeft = s.signalLeft := by
  have hwake : s.taskWakeUp.action = s.action ∧ s.taskWakeUp.signalPending = s.signalPending ∧
      s.taskWakeUp.signalLeft = s.signalLeft := by
    rw [taskWakeUp]
    split
    · exact ⟨rfl, rfl, rfl⟩
    · exact ⟨rfl, rfl, rfl⟩
  rw [handleStopSignal]
  split
  · show (if s.status = .stopped then s.taskWakeUp else s).action = _ ∧
      (if s.status = .stopped then s.taskWakeUp else s).signalPending = _ ∧
      (if s.status = .stopped then s.taskWakeUp else s).signalLeft = _
    split
    · exact hwake
    · exact ⟨rfl, rfl, rfl⟩
  · split
    · exact ⟨rfl, rfl, rfl⟩
    · exact ⟨rfl, rfl, rfl⟩

theorem task_wake_up_keeps (s : SignalTask) : s.taskWakeUp.action = s.action ∧
    s.taskWakeUp.signalBlocked = s.signalBlocked ∧
    s.taskWakeUp.signalPending = s.signalPending ∧ s.taskWakeUp.signalLeft = s.signalLeft := by
  rw [taskWakeUp]
  split
  · exact ⟨rfl, rfl, rfl, rfl⟩
  · exact ⟨rfl, rfl, rfl, rfl⟩

/-- `DeliverSignal` changes neither the actions nor the blocked set. -/
theorem deliver_signal_keeps (s : SignalTask) (signo sender : Int) :
    (s.deliverSignal signo sender).1.action = s.action ∧
      (s.deliverSignal signo sender).1.signalBlocked = s.signalBlocked := by
  rw [deliverSignal]
  split
  · exact ⟨rfl, rfl⟩
  · simp only []
    split
    · exact ⟨rfl, rfl⟩
    · split
      · have hkeeps := task_wake_up_keeps { s with
          sender := Function.update s.sender signo sender
          signalPending := sigaddset s.signalPending signo
          signalLeft := true }
        exact ⟨hkeeps.1, hkeeps.2.1⟩
      · exact ⟨rfl, rfl⟩

theorem try_deliver_keeps (s : SignalTask) (signo sender : Int) :
    (s.tryDeliver signo sender).1.action = s.action ∧
      (s.tryDeliver signo sender).1.signalBlocked = s.signalBlocked := by
  rw [tryDeliver]
  split
  · exact ⟨rfl, rfl⟩
  · split
    · exact ⟨rfl, rfl⟩
    · exact s.deliver_signal_keeps signo sender

theorem wake_after_send_keeps (s : SignalTask) (signo : Int) :
    (s.wakeAfterSend signo).action = s.action ∧
      (s.wakeAfterSend signo).signalBlocked = s.signalBlocked := by
  have hwake := s.task_wake_up_keeps
  rw [wakeAfterSend]
  split
  · simp only [calcSignalLeft]
    split
    · exact ⟨rfl, rfl⟩
    · exact ⟨hwake.1, hwake.2.1⟩
  · exact ⟨rfl, rfl⟩

theorem clears_bad {signo : Int} (hbad : isBadSignal signo = true) (b : Int) :
    clears signo b = false := by
  have hne : ∀ a : Int, isBadSignal a = false → decide (signo = a) = false := by
    intro a ha
    rw [decide_eq_false_iff_not]
    rintro rfl
    rw [ha] at hbad
    cases hbad
  simp only [clears, isStopSignal, hne sigkill rfl, hne sigcont rfl, hne sigstop rfl,
    hne sigtstp rfl, hne sigttin rfl, hne sigttou rfl, Bool.or_self, Bool.false_and]

/-- Sending a signal changes no action, and takes from the blocked set what `HandleStopSignal`
takes. -/
theorem do_send_signal_keeps (s : SignalTask) (signo sender : Int) :
    (s.doSendSignal signo sender).1.action = s.action ∧
      ∀ b, sigismember (s.doSendSignal signo sender).1.signalBlocked b =
        (sigismember s.signalBlocked b && !clears signo b) := by
  rw [doSendSignal]
  split
  · next hbad =>
      refine ⟨rfl, fun b => ?_⟩
      rw [clears_bad hbad, Bool.not_false, Bool.and_true]
  · have hstop := s.handle_stop_signal_keeps signo
    have htry := (s.handleStopSignal signo).try_deliver_keeps signo sender
    have hwake := ((s.handleStopSignal signo).tryDeliver signo sender).1.wake_after_send_keeps signo
    simp only [hwake.1, hwake.2, htry.1, htry.2]
    exact ⟨hstop.1, s.handle_stop_signal_blocked signo⟩

/-- `ForceSignal` gives back the default action of an ignored signal, and unblocks it. -/
theorem force_signal_keeps (s : SignalTask) (signo sender : Int) :
    (s.forceSignal signo sender).1.action = (if (s.action signo).handler = sigIgn then
      Function.update s.action signo { s.action signo with handler := sigDfl } else s.action) ∧
      ∀ b, sigismember (s.forceSignal signo sender).1.signalBlocked b =
        (sigismember s.signalBlocked b && signo ≠ b && !clears signo b) := by
  rw [forceSignal]
  have hkeeps := fun t : SignalTask => t.do_send_signal_keeps signo sender
  refine ⟨?_, fun b => ?_⟩
  · rw [(hkeeps _).1]
    split
    · rfl
    · rfl
  · rw [(hkeeps _).2 b]
    simp only [calcSignalLeft, sigismember_sigdelset]
    split
    · rfl
    · rfl

/-! ## System calls -/

/-- A new action is stored, and the blocked set stays. -/
theorem install_action_keeps (s : SignalTask) (signal : Int) (sa : SignalAction) :
    (s.installAction signal sa).action = Function.update s.action signal sa ∧
      (s.installAction signal sa).signalBlocked = s.signalBlocked := by
  have hdiscard : ∀ t : SignalTask, (t.discard signal).action = t.action ∧
      (t.discard signal).signalBlocked = t.signalBlocked := by
    intro t
    rw [discard]
    split
    · exact ⟨rfl, rfl⟩
    · exact ⟨rfl, rfl⟩
  rw [installAction]
  split
  · exact hdiscard (s.setSignalAction signal sa)
  · exact ⟨rfl, rfl⟩

/-- What `SysSignalProcessMask` leaves in the blocked set. -/
theorem process_mask_blocked (s : SignalTask) (how : Int) (set : Option (BitVec 32)) (b : Int) :
    sigismember (s.sysSignalProcessMask how set).1.signalBlocked b =
      match set with
      | none => sigismember s.signalBlocked b
      | some m =>
          if how = 1 then (sigismember s.signalBlocked b || sigismember m b) &&
            (b ≠ sigkill && b ≠ sigstop)
          else if how = 2 then sigismember s.signalBlocked b && !sigismember m b
          else if how = 3 then sigismember m b && (b ≠ sigkill && b ≠ sigstop)
          else sigismember s.signalBlocked b := by
  have hsym : ∀ a : Int, decide (a ≠ b) = decide (b ≠ a) := fun a => decide_eq_decide.mpr ne_comm
  have hor : ∀ m, sigismember (s.signalBlocked ||| m) b =
      (sigismember s.signalBlocked b || sigismember m b) := by
    intro m
    rw [sigismember_eq, sigismember_eq, sigismember_eq, BitVec.getLsbD_or, Bool.and_or_distrib_left]
  have hdiff : ∀ m, sigismember (s.signalBlocked &&& ~~~m) b =
      (sigismember s.signalBlocked b && !sigismember m b) := by
    intro m
    rw [sigismember_eq, sigismember_eq, sigismember_eq]
    cases hb : isBadSignal b with
    | true => rfl
    | false =>
        have hlt : b.toNat < 32 := by
          have := (is_bad_signal_iff b).mp hb
          omega
        simp only [BitVec.getLsbD_and, BitVec.getLsbD_not, hlt, decide_true, Bool.true_and,
          Bool.not_false]
  unfold sysSignalProcessMask
  cases set with
  | none =>
      simp only []
      split
      · rfl
      · split
        · rfl
        · split
          · rfl
          · rfl
  | some m =>
      simp only []
      split
      · simp only [sigismember_sigdelset, hor, hsym, Bool.and_assoc]
      · split
        · exact hdiff m
        · split
          · simp only [sigismember_sigdelset, hsym, Bool.and_assoc]
          · rfl

theorem process_mask_action (s : SignalTask) (how : Int) (set : Option (BitVec 32)) :
    (s.sysSignalProcessMask how set).1.action = s.action := by
  unfold sysSignalProcessMask
  cases set with
  | none =>
      simp only []
      split
      · rfl
      · split
        · rfl
        · split
          · rfl
          · rfl
  | some m =>
      simp only []
      split
      · rfl
      · split
        · rfl
        · split
          · rfl
          · rfl

/-! ## `DoSignal` -/

/-- A round of `DoSignal` leaves the blocked set, and the actions but for a handler that is used
only once. -/
theorem deliver_keeps (s : SignalTask) (u : UserContext) (sig : Int) :
    (s.deliver u sig).1.signalBlocked = s.signalBlocked ∧
      (s.deliver u sig).1.action =
        if (s.deliver u sig).2.2 = .handled ∧ (s.action sig).flags &&& saOneshot ≠ 0 then
          Function.update s.action sig { s.action sig with handler := sigDfl }
        else s.action := by
  have hdefault : ∀ t : SignalTask, (t.defaultAction sig).1.signalBlocked = t.signalBlocked ∧
      (t.defaultAction sig).1.action = t.action ∧ (t.defaultAction sig).2 ≠ .handled := by
    intro t
    rw [defaultAction]
    split
    · exact ⟨rfl, rfl, nofun⟩
    · split
      · exact ⟨rfl, rfl, nofun⟩
      · split
        · exact ⟨rfl, rfl, nofun⟩
        · exact ⟨rfl, rfl, nofun⟩
  rw [deliver]
  split
  · simp only []
    split
    · exact ⟨rfl, (if_neg fun hand => nomatch hand.1).symm⟩
    · split
      · have hthis := hdefault (s.takeSignal sig)
        exact ⟨hthis.1, hthis.2.1.trans (if_neg fun hand => hthis.2.2 hand.1).symm⟩
      · rw [handleSignal]
        simp only []
        split
        · next hflags =>
            exact ⟨rfl, (if_pos ⟨trivial, hflags⟩).symm⟩
        · next hflags =>
            exact ⟨rfl, (if_neg fun hand => hflags hand.2).symm⟩
  · exact ⟨rfl, (if_neg fun hand => nomatch hand.1).symm⟩

end SignalTask

/-! ## Uncatchable signals -/

def IsUncatchable (signo : Int) : Prop := signo = sigkill ∨ signo = sigstop

/-- `SIGKILL` and `SIGSTOP` are not blocked and have their default action. -/
structure Uncatchable (s : SignalTask) : Prop where
  blocked : ∀ signo, IsUncatchable signo → sigismember s.signalBlocked signo = false
  handler : ∀ signo, IsUncatchable signo → (s.action signo).handler = sigDfl

theorem uncatchable_init (s : SignalTask) : Uncatchable s.initSignalInTask := by
  refine ⟨?_, fun _ _ => rfl⟩
  rintro signo (rfl | rfl)
  · show sigismember emptySet sigkill = false
    decide
  · show sigismember emptySet sigstop = false
    decide

namespace Uncatchable

variable {s : SignalTask}

theorem keeps (h : Uncatchable s) {t : SignalTask} (haction : t.action = s.action)
    (hblocked : ∀ b, sigismember t.signalBlocked b = true → sigismember s.signalBlocked b = true) :
    Uncatchable t := by
  refine ⟨fun signo hsigno => ?_, fun signo hsigno => ?_⟩
  · by_contra hne
    have hin := hblocked signo (Bool.not_eq_false _ ▸ hne)
    rw [h.blocked signo hsigno] at hin
    cases hin
  · rw [haction]
    exact h.handler signo hsigno

/-- The action of one signal changes. -/
theorem update (h : Uncatchable s) {t : SignalTask} {signo : Int} {sa : SignalAction}
    (haction : t.action = Function.update s.action signo sa)
    (hsa : IsUncatchable signo → sa.handler = sigDfl)
    (hblocked : ∀ b, sigismember t.signalBlocked b = true → sigismember s.signalBlocked b = true) :
    Uncatchable t := by
  refine ⟨(h.keeps (t := { t with action := s.action }) rfl hblocked).blocked, fun b hb => ?_⟩
  rw [haction, Function.update_apply]
  split
  · next heq => exact hsa (heq ▸ hb)
  · exact h.handler b hb

theorem sys_signal (h : Uncatchable s) (garbage : BitVec 32) (signal : Int) (handler : BitVec 32) :
    Uncatchable (s.sysSignal garbage signal handler).1 := by
  rw [SignalTask.sysSignal]
  split
  · exact h
  · next hok =>
      split
      · next hhandler =>
          have hkeeps := s.install_action_keeps signal ⟨handler, garbage ||| saOneshot⟩
          refine h.update hkeeps.1 (fun hsignal => ?_) fun b hb => ?_
          · exact absurd (.inr (.inr ⟨hhandler, hsignal⟩)) hok
          · rw [hkeeps.2] at hb
            exact hb
      · exact h

theorem sys_signal_action (h : Uncatchable s) (signal : Int) (act : Option SignalAction) :
    Uncatchable (s.sysSignalAction signal act).1 := by
  unfold SignalTask.sysSignalAction
  split
  · exact h
  · next hok =>
      cases act with
      | none => exact h
      | some sa =>
          have hkeeps := s.install_action_keeps signal sa
          refine h.update hkeeps.1 (fun hsignal => ?_) fun b hb => ?_
          · exact absurd (.inr (.inr ⟨nofun, hsignal⟩)) hok
          · rw [hkeeps.2] at hb
            exact hb

theorem process_mask (h : Uncatchable s) (how : Int) (set : Option (BitVec 32)) :
    Uncatchable (s.sysSignalProcessMask how set).1 := by
  refine ⟨fun b hb => ?_, fun b hb => ?_⟩
  · have hout : (decide (b ≠ sigkill) && decide (b ≠ sigstop)) = false := by
      rcases hb with rfl | rfl
      · rfl
      · rfl
    rw [s.process_mask_blocked]
    cases set with
    | none => exact h.blocked b hb
    | some m =>
        simp only [hout, h.blocked b hb, Bool.and_false, Bool.false_and, ite_self]
  · rw [s.process_mask_action]
    exact h.handler b hb

theorem deliver (h : Uncatchable s) (u : UserContext) (sig : Int) :
    Uncatchable (s.deliver u sig).1 := by
  obtain ⟨hblocked, haction⟩ := s.deliver_keeps u sig
  have hkeeps : ∀ b, sigismember (s.deliver u sig).1.signalBlocked b = true →
      sigismember s.signalBlocked b = true := by
    intro b hb
    rw [hblocked] at hb
    exact hb
  split at haction
  · exact h.update haction (fun _ => rfl) hkeeps
  · exact h.keeps haction hkeeps

/-- Every step keeps the two signals out. -/
theorem step {s t : SignalTask × UserContext} {l : SignalOp × Outcome} (h : Uncatchable s.1)
    (hnext : signalNext s l = some t) : Uncatchable t.1 := by
  obtain ⟨op, outcome⟩ := l
  have hstep := signal_next_eq hnext
  cases op with
  | sendSignal signo sender =>
      cases hstep
      obtain ⟨haction, hblocked⟩ := s.1.do_send_signal_keeps signo sender
      refine h.keeps haction fun b hb => ?_
      rw [hblocked] at hb
      exact (Bool.and_eq_true_iff.mp hb).1
  | forceSignal signo sender =>
      cases hstep
      obtain ⟨haction, hblocked⟩ := s.1.force_signal_keeps signo sender
      have hkeeps : ∀ b, sigismember (s.1.forceSignal signo sender).1.signalBlocked b = true →
          sigismember s.1.signalBlocked b = true := by
        intro b hb
        rw [hblocked] at hb
        exact (Bool.and_eq_true_iff.mp (Bool.and_eq_true_iff.mp hb).1).1
      split at haction
      · exact h.update haction (fun _ => rfl) hkeeps
      · exact h.keeps haction hkeeps
  | sysSignal garbage signal handler =>
      cases hstep
      exact h.sys_signal garbage signal handler
  | sysSignalAction signal act =>
      cases hstep
      exact h.sys_signal_action signal act
  | processMask how set =>
      cases hstep
      exact h.process_mask how set
  | deliver sig =>
      simp only [signalStep] at hstep
      split at hstep
      · cases hstep
        exact h.deliver s.2 sig
      · cases hstep
  | sysSignalReturn =>
      cases hstep
      exact h.keeps rfl fun _ hb => hb
  | user u =>
      cases hstep
      exact h
  | setStatus status =>
      cases hstep
      exact h.keeps rfl fun _ hb => hb
  | fork pid =>
      cases hstep
      exact h.keeps rfl fun _ hb => hb
  | exec =>
      cases hstep
      exact uncatchable_init s.1

end Uncatchable

/-- After any calls and deliveries, and across `fork` and `exec`, `SIGKILL` and `SIGSTOP` are neither
blocked nor caught. -/
theorem kill_and_stop_uncatchable {pid : Int} {u : UserContext} {s : SignalTask × UserContext}
    {history : List (SignalOp × Outcome)}
    (hrun : Run (stepOf signalNext) anyLabel (SignalTask.init pid, u) history s) : Uncatchable s.1 :=
  hrun.invariant (fun _ _ _ hs _ hstep => Uncatchable.step hs hstep) (uncatchable_init _)

/-- Calls that try to block, catch and ignore the two signals. -/
def triesToCatch : List (SignalOp × Outcome) :=
  [(.processMask 3 (some 0xffffffff), .returned 0), (.sysSignal 0 sigkill 4096, .returned (-1)),
    (.sysSignalAction sigstop (some ⟨sigIgn, 0⟩), .returned (-1)),
    (.sendSignal sigkill 1, .returned 0), (.fork 2, .returned 0),
    (.processMask 1 (some 0xffffffff), .returned 0)]

/-- A task in user mode whose registers and memory are zero. -/
def blankContext : UserContext :=
  ⟨⟨0, 0, 0, 0, 0, 0, 0, 0, 0, 0, 0, 0, 0, 0, 0, userCodeSel, 0, 0, 0⟩, fun _ => 0⟩

theorem full_mask_lets_kill_through : ∃ s,
    Run (stepOf signalNext) anyLabel (SignalTask.init 1, blankContext) triesToCatch s ∧
      s.1.signalBlocked = 0xfff7fdff ∧ Uncatchable s.1 := by
  obtain ⟨s, t, hstart, hrun, hview⟩ := exists_run_all signalNext
    (some (SignalTask.init 1, blankContext)) triesToCatch (fun s => s.1.signalBlocked)
    (v := 0xfff7fdff) (by decide)
  cases Option.some.inj hstart
  exact ⟨t, hrun, hview, kill_and_stop_uncatchable hrun⟩

end XBook.Signal
