import XBook.Kernel.SignalMask

/-!
# The flag of signals that are left

`signalLeft` sums up whether `DoSignal` has anything to do. `CalcSignalLeft` and `DeliverSignal` set
it, but `SysSignalProcessMask` and `HandleStopSignal` take signals out of the blocked set without
it. As long as none of these signals is pending with the flag off, a signal that is pending and not
blocked has the flag on, and the next `DoSignal` takes it.
-/

namespace XBook.Signal

open Transition

/-- A signal that is pending and not blocked has the flag on. -/
def Marked (s : SignalTask) : Prop :=
  ∀ signo, sigismember s.signalPending signo = true → sigismember s.signalBlocked signo = false →
    s.signalLeft = true

/-- The flag is on when any signal is pending. -/
def AllMarked (s : SignalTask) : Prop :=
  ∀ signo, sigismember s.signalPending signo = true → s.signalLeft = true

theorem AllMarked.marked {s : SignalTask} (h : AllMarked s) : Marked s := fun signo hin _ => h signo hin

namespace SignalTask

/-- `CalcSignalLeft` does not look at the blocked set. -/
theorem calc_signal_left_marked (s : SignalTask) : AllMarked s.calcSignalLeft := by
  intro signo hin
  show (!(decide (s.signalPending = 1#32) || decide (s.signalPending = 0#32))) = true
  have hin : sigismember s.signalPending signo = true := hin
  rw [sigismember_eq, Bool.and_eq_true_iff, Bool.not_eq_true', is_bad_signal_iff] at hin
  obtain ⟨hgood, hbit⟩ := hin
  have hone : s.signalPending ≠ 1#32 := by
    intro heq
    rw [heq, BitVec.getLsbD_one] at hbit
    have hzero : signo.toNat = 0 := by simpa using hbit
    omega
  have hzero : s.signalPending ≠ 0#32 := by
    intro heq
    rw [heq, BitVec.getLsbD_zero] at hbit
    cases hbit
  rw [decide_eq_false hone, decide_eq_false hzero]
  rfl

theorem mem_signals (b : Int) : b ∈ signals ↔ isBadSignal b = false := by
  rw [is_bad_signal_iff, signals, List.mem_map]
  constructor
  · rintro ⟨n, hn, rfl⟩
    rw [List.mem_range'_1] at hn
    show 1 ≤ (n : Int) ∧ (n : Int) < 32
    omega
  · intro hb
    refine ⟨b.toNat, ?_, ?_⟩
    · rw [List.mem_range'_1]
      omega
    · exact Int.toNat_of_nonneg (by omega)

theorem good_of_member {mask : BitVec 32} {b : Int} (h : sigismember mask b = true) :
    b ∈ signals := by
  rw [sigismember_eq, Bool.and_eq_true_iff, Bool.not_eq_true'] at h
  exact (mem_signals b).mpr h.1

/-- `HandleStopSignal` takes no pending signal out of the blocked set. -/
def ClearsNone (s : SignalTask) (signo : Int) : Prop :=
  ∀ b ∈ signals, clears signo b = true → sigismember s.signalPending b = true →
    sigismember s.signalBlocked b = false

/-- `DoSendSignal` does not leave the flag off: the task is blocked, so that the flag is computed
again, or the signal that is sent sets it. -/
def SetsFlag (s : SignalTask) (signo sender : Int) : Prop :=
  s.status = .blocked ∨ 0 ≤ sender ∧ sigismember s.signalBlocked signo = false ∧
    s.ignoreSignal signo = false

/-- `SysSignalProcessMask` takes `b` out of the blocked set if it is there. -/
def unblocks (how : Int) (set : Option (BitVec 32)) (b : Int) : Bool :=
  match set with
  | none => false
  | some m => how = 2 && sigismember m b || how = 3 && !sigismember m b

/-- `SysSignalProcessMask` takes no pending signal out of the blocked set. -/
def UnblocksNone (s : SignalTask) (how : Int) (set : Option (BitVec 32)) : Prop :=
  ∀ b ∈ signals, unblocks how set b = true → sigismember s.signalPending b = true →
    sigismember s.signalBlocked b = false

/-- What `DeliverSignal` does when the signal is not blocked. -/
theorem deliver_signal_left {s : SignalTask} {signo sender : Int} (hsender : 0 ≤ sender)
    (hblocked : sigismember s.signalBlocked signo = false) :
    (s.deliverSignal signo sender).1.signalLeft = true := by
  rw [deliverSignal, if_neg (by omega)]
  simp only [hblocked, Bool.false_eq_true, if_false]
  split
  · exact (task_wake_up_keeps _).2.2.2
  · rfl

/-- `DeliverSignal` adds one signal to those that are pending, and sets the flag if it is not
blocked. -/
theorem deliver_signal_marked {s : SignalTask} (h : Marked s) (signo sender : Int) :
    Marked (s.deliverSignal signo sender).1 := by
  rw [deliverSignal]
  split
  · exact h
  · simp only []
    split
    · next hblocked =>
        intro b hpending hopen
        cases hbad : isBadSignal signo with
        | true =>
            rw [sigismember, hbad] at hblocked
            cases hblocked
        | false =>
            rw [sigismember_sigaddset _ hbad, Bool.or_eq_true_iff] at hpending
            rcases hpending with hpending | heq
            · exact h b hpending hopen
            · rw [← of_decide_eq_true heq] at hopen
              rw [hopen] at hblocked
              cases hblocked
    · intro b _ _
      split
      · exact (task_wake_up_keeps _).2.2.2
      · rfl

theorem try_deliver_marked {s : SignalTask} (h : Marked s) (signo sender : Int) :
    Marked (s.tryDeliver signo sender).1 := by
  rw [tryDeliver]
  split
  · exact h
  · split
    · exact h
    · exact deliver_signal_marked h signo sender

/-- The flag is computed again, or nothing changes but the status. -/
theorem wake_after_send_marked {s : SignalTask} {signo : Int}
    (h : Marked s ∨ s.status = .blocked ∧ ∃ b, sigismember s.signalPending b = true) :
    Marked (s.wakeAfterSend signo) := by
  rw [wakeAfterSend]
  split
  · exact (calc_signal_left_marked _).marked
  · next hnot =>
      refine h.resolve_right ?_
      rintro ⟨hstatus, b, hb⟩
      refine hnot ⟨hstatus, fun hone => ?_⟩
      rw [hone] at hb
      have hall := calc_signal_left_marked { s with signalPending := 1#32 } b hb
      cases hall

theorem Marked.of_left {s : SignalTask} (h : s.signalLeft = true) : Marked s := fun _ _ _ => h

/-- The flag stays on while a signal is sent. -/
theorem try_deliver_left {s : SignalTask} (h : s.signalLeft = true) (signo sender : Int) :
    (s.tryDeliver signo sender).1.signalLeft = true := by
  rw [tryDeliver]
  split
  · exact h
  · split
    · exact h
    · rw [deliverSignal]
      split
      · exact h
      · simp only []
        split
        · exact h
        · split
          · exact (task_wake_up_keeps _).2.2.2
          · rfl

theorem handle_stop_signal_blocked_status {s : SignalTask} (h : s.status = .blocked)
    (signo : Int) : (s.handleStopSignal signo).status = .blocked := by
  have hne : s.status ≠ .stopped := by
    rw [h]
    nofun
  rw [handleStopSignal]
  split
  · exact h
  · split
    · exact h
    · exact h

/-- A blocked task is left with the flag on, or is still blocked. -/
theorem try_deliver_blocked {s : SignalTask} (h : s.status = .blocked) {signo : Int}
    (hgood : isBadSignal signo = false) (sender : Int) :
    Marked (s.tryDeliver signo sender).1 ∨ (s.tryDeliver signo sender).1.status = .blocked ∧
      ∃ b, sigismember (s.tryDeliver signo sender).1.signalPending b = true := by
  have hsame : Marked s ∨ s.status = .blocked ∧ ∃ b, sigismember s.signalPending b = true := by
    by_cases hpending : ∃ b, sigismember s.signalPending b = true
    · exact .inr ⟨h, hpending⟩
    · exact .inl fun b hb _ => absurd ⟨b, hb⟩ hpending
  rw [tryDeliver]
  split
  · exact hsame
  · split
    · exact hsame
    · rw [deliverSignal]
      split
      · exact hsame
      · simp only []
        split
        · refine .inr ⟨h, signo, ?_⟩
          rw [sigismember_sigaddset _ hgood, decide_eq_true rfl, Bool.or_true]
        · left
          exact Marked.of_left (task_wake_up_keeps _).2.2.2

/-- `DoSendSignal` keeps the flag. -/
theorem do_send_signal_marked {s : SignalTask} (h : Marked s) {signo sender : Int}
    (hguard : s.signalLeft = true ∨ s.ClearsNone signo ∨ s.SetsFlag signo sender) :
    Marked (s.doSendSignal signo sender).1 := by
  rw [doSendSignal]
  split
  · exact h
  · next hbad =>
      have hgood : isBadSignal signo = false := Bool.eq_false_iff.mpr hbad
      obtain ⟨haction, hpending, hleft⟩ := s.handle_stop_signal_keeps signo
      have hblocked := s.handle_stop_signal_blocked signo
      have hon : s.signalLeft = true → Marked ((s.handleStopSignal signo).tryDeliver signo sender).1 :=
        fun hon => Marked.of_left (try_deliver_left (hleft.trans hon) signo sender)
      refine wake_after_send_marked ?_
      rcases hguard with hflag | hclears | hstatus | ⟨hsender, hopen, hignore⟩
      · exact .inl (hon hflag)
      · refine .inl (try_deliver_marked (fun b hb hnot => ?_) signo sender)
        rw [hpending] at hb
        rw [hblocked, Bool.and_eq_false_iff] at hnot
        rw [hleft]
        rcases hnot with hnot | hclear
        · exact h b hb hnot
        · rw [Bool.not_eq_false'] at hclear
          exact h b hb (hclears b (good_of_member hb) hclear hb)
      · exact try_deliver_blocked (handle_stop_signal_blocked_status hstatus signo) hgood sender
      · left
        by_cases hin : sigismember s.signalPending signo = true
        · exact hon (h signo hin hopen)
        · have hopen' : sigismember (s.handleStopSignal signo).signalBlocked signo = false := by
            rw [hblocked, hopen, Bool.false_and]
          have hignore' : (s.handleStopSignal signo).ignoreSignal signo = false := by
            rw [← hignore, ignoreSignal, ignoreSignal, hopen, hopen', haction]
          rw [tryDeliver, hignore', if_neg Bool.false_ne_true, hpending, if_neg hin]
          exact Marked.of_left (deliver_signal_left hsender hopen')

/-- `ForceSignal` computes the flag first. -/
theorem force_signal_marked (s : SignalTask) (signo sender : Int) :
    Marked (s.forceSignal signo sender).1 := by
  rw [forceSignal]
  have hall := fun t : SignalTask => t.calc_signal_left_marked
  refine do_send_signal_marked (hall _).marked ?_
  by_cases hflag : ({ (if (s.action signo).handler = sigIgn then
      s.setSignalAction signo { s.action signo with handler := sigDfl } else s) with
      signalBlocked := sigdelset (if (s.action signo).handler = sigIgn then
        s.setSignalAction signo { s.action signo with handler := sigDfl } else s).signalBlocked
        signo } : SignalTask).calcSignalLeft.signalLeft = true
  · exact .inl hflag
  · exact .inr (.inl fun b _ _ hb => absurd (hall _ b hb) hflag)

/-! ## System calls -/

theorem install_action_marked {s : SignalTask} (h : Marked s) (signal : Int) (sa : SignalAction) :
    Marked (s.installAction signal sa) := by
  rw [installAction]
  simp only [discard]
  split
  · split
    · exact (calc_signal_left_marked _).marked
    · exact h
  · exact h

theorem sys_signal_marked {s : SignalTask} (h : Marked s) (garbage : BitVec 32) (signal : Int)
    (handler : BitVec 32) : Marked (s.sysSignal garbage signal handler).1 := by
  rw [sysSignal]
  split
  · exact h
  · split
    · exact install_action_marked h signal _
    · exact h

theorem sys_signal_action_marked {s : SignalTask} (h : Marked s) (signal : Int)
    (act : Option SignalAction) : Marked (s.sysSignalAction signal act).1 := by
  unfold sysSignalAction
  split
  · exact h
  · cases act with
    | none => exact h
    | some sa => exact install_action_marked h signal sa

theorem process_mask_keeps (s : SignalTask) (how : Int) (set : Option (BitVec 32)) :
    (s.sysSignalProcessMask how set).1.signalPending = s.signalPending ∧
      (s.sysSignalProcessMask how set).1.signalLeft = s.signalLeft := by
  unfold sysSignalProcessMask
  cases set with
  | none =>
      split
      · exact ⟨rfl, rfl⟩
      · split
        · exact ⟨rfl, rfl⟩
        · split
          · exact ⟨rfl, rfl⟩
          · exact ⟨rfl, rfl⟩
  | some m =>
      split
      · exact ⟨rfl, rfl⟩
      · split
        · exact ⟨rfl, rfl⟩
        · split
          · exact ⟨rfl, rfl⟩
          · exact ⟨rfl, rfl⟩

/-- `SysSignalProcessMask` does not touch the flag. -/
theorem process_mask_marked {s : SignalTask} (h : Marked s) (huncatchable : Uncatchable s)
    {how : Int} {set : Option (BitVec 32)}
    (hguard : s.signalLeft = true ∨ s.UnblocksNone how set) :
    Marked (s.sysSignalProcessMask how set).1 := by
  obtain ⟨hpending, hleft⟩ := s.process_mask_keeps how set
  intro b hb hopen
  rw [hpending] at hb
  rw [hleft]
  cases hblocked : sigismember s.signalBlocked b with
  | false => exact h b hb hblocked
  | true =>
      -- the call has taken `b` out of the blocked set, where only other signals can be
      have hcaught : (decide (b ≠ sigkill) && decide (b ≠ sigstop)) = true := by
        by_contra hnot
        have hb : IsUncatchable b := by
          rw [Bool.and_eq_true_iff, decide_eq_true_iff, decide_eq_true_iff, not_and_or, not_not,
            not_not] at hnot
          exact hnot
        rw [huncatchable.blocked b hb] at hblocked
        cases hblocked
      have hunblocks : unblocks how set b = true := by
        rw [s.process_mask_blocked] at hopen
        cases set with
        | none =>
            rw [hblocked] at hopen
            cases hopen
        | some m =>
            simp only [hcaught, hblocked, Bool.true_or, Bool.and_true, Bool.true_and] at hopen
            show (decide (how = 2) && sigismember m b || decide (how = 3) && !sigismember m b) = true
            split at hopen
            · cases hopen
            · split at hopen
              · next htwo =>
                  rw [Bool.not_eq_false'] at hopen
                  rw [decide_eq_true htwo, hopen]
                  rfl
              · split at hopen
                · next hthree =>
                    rw [decide_eq_true hthree, hopen]
                    simp
                · cases hopen
      rcases hguard with hflag | hnone
      · exact hflag
      · rw [hnone b (good_of_member hb) hunblocks hb] at hblocked
        cases hblocked

/-! ## `DoSignal` -/

theorem deliverable_eq (s : SignalTask) {sig : Int} (hgood : isBadSignal sig = false) :
    s.deliverable sig = (sigismember s.signalPending sig && !sigismember s.signalBlocked sig) := by
  rw [deliverable, sigismember, sigismember, hgood, if_neg Bool.false_ne_true, if_neg Bool.false_ne_true]
  by_cases hzero : s.signalBlocked &&& bit sig = 0#32 <;> simp [hzero]

/-- A round of `DoSignal` takes the signal, or leaves the task as it is. -/
theorem deliver_pending (s : SignalTask) (u : UserContext) (sig : Int) :
    (s.deliverable sig = true → AllMarked (s.deliver u sig).1 ∧
      ((s.deliver u sig).2.2 ≠ .exited → ∀ b, sigismember (s.deliver u sig).1.signalPending b =
        (sigismember s.signalPending b && sig ≠ b))) ∧
    (s.deliverable sig = false → (s.deliver u sig).1 = s) := by
  have htaken : AllMarked (s.takeSignal sig) ∧ ∀ b, sigismember (s.takeSignal sig).signalPending b =
      (sigismember s.signalPending b && sig ≠ b) :=
    ⟨calc_signal_left_marked _, sigismember_sigdelset s.signalPending sig⟩
  refine ⟨fun hdeliverable => ?_, fun hnot => ?_⟩
  · rw [deliver, if_pos hdeliverable]
    generalize s.takeSignal sig = t at htaken
    simp only []
    split
    · exact ⟨htaken.1, fun _ => htaken.2⟩
    · split
      · simp only [defaultAction]
        split
        · exact ⟨htaken.1, fun _ => htaken.2⟩
        · split
          · exact ⟨htaken.1, fun _ => htaken.2⟩
          · split
            · exact ⟨htaken.1, fun _ => htaken.2⟩
            · exact ⟨calc_signal_left_marked _, fun hne => absurd rfl hne⟩
      · rw [handleSignal]
        simp only []
        split
        · exact ⟨htaken.1, fun _ => htaken.2⟩
        · exact ⟨htaken.1, fun _ => htaken.2⟩
  · rw [deliver, hnot, if_neg Bool.false_ne_true]

theorem deliver_marked {s : SignalTask} (h : Marked s) (u : UserContext) (sig : Int) :
    Marked (s.deliver u sig).1 := by
  have hpending := deliver_pending s u sig
  cases hdeliverable : s.deliverable sig with
  | true => exact (hpending.1 hdeliverable).1.marked
  | false =>
      rw [hpending.2 hdeliverable]
      exact h

/-- The loop of `DoSignal` takes each signal of the list that is not blocked, unless the task
ends. -/
theorem do_signal_from_takes {l : List Int} (hl : ∀ sig ∈ l, isBadSignal sig = false)
    {s : SignalTask} {u : UserContext}
    (hleft : s.signalLeft = true ∨ ∀ b, sigismember s.signalPending b = false) {signo : Int}
    (hopen : sigismember s.signalBlocked signo = false)
    (hin : signo ∈ l ∨ sigismember s.signalPending signo = false) :
    (s.doSignalFrom u l).2.2 = true ∨
      sigismember (s.doSignalFrom u l).1.signalPending signo = false := by
  induction l generalizing s u with
  | nil => exact .inr (hin.resolve_left List.not_mem_nil)
  | cons sig rest ih =>
      rw [doSignalFrom]
      split
      · next hflag =>
          simp only []
          split
          · exact .inl rfl
          · next hexit =>
              have hpending := deliver_pending s u sig
              have hgood := hl sig List.mem_cons_self
              have hrest : ∀ sig ∈ rest, isBadSignal sig = false :=
                fun b hb => hl b (List.mem_cons_of_mem sig hb)
              have hblocked : sigismember (s.deliver u sig).1.signalBlocked signo = false := by
                rw [(s.deliver_keeps u sig).1]
                exact hopen
              cases hdeliverable : s.deliverable sig with
              | true =>
                  obtain ⟨hall, htaken⟩ := hpending.1 hdeliverable
                  have htaken := htaken hexit
                  refine ih hrest ?_ hblocked ?_
                  · by_cases hflag : (s.deliver u sig).1.signalLeft = true
                    · exact .inl hflag
                    · refine .inr fun b => Bool.eq_false_iff.mpr fun hb => hflag (hall b hb)
                  · rw [htaken]
                    rcases hin with hin | hnot
                    · rcases List.mem_cons.mp hin with rfl | hin
                      · right
                        rw [decide_eq_false (not_not.mpr rfl), Bool.and_false]
                      · exact .inl hin
                    · right
                      rw [hnot, Bool.false_and]
              | false =>
                  have hsame := hpending.2 hdeliverable
                  rw [hsame] at hblocked ⊢
                  refine ih hrest (.inl hflag) hblocked ?_
                  rcases hin with hin | hnot
                  · rcases List.mem_cons.mp hin with rfl | hin
                    · right
                      rw [s.deliverable_eq hgood, hopen, Bool.not_false, Bool.and_true]
                        at hdeliverable
                      exact hdeliverable
                    · exact .inl hin
                  · exact .inr hnot
      · next hflag => exact .inr (hleft.resolve_left hflag signo)

end SignalTask

/-! ## Runs -/

open SignalTask

/-- No pending signal comes out of the blocked set while the flag is off, unless the flag is set in
the same step. -/
def leftGuard (s : SignalTask × UserContext) (l : SignalOp × Outcome) : Prop :=
  match l.1 with
  | .processMask how set => s.1.signalLeft = true ∨ s.1.UnblocksNone how set
  | .sendSignal signo sender =>
      s.1.signalLeft = true ∨ s.1.ClearsNone signo ∨ s.1.SetsFlag signo sender
  | _ => True

instance (s : SignalTask) (signo : Int) : Decidable (s.ClearsNone signo) :=
  inferInstanceAs (Decidable (∀ b ∈ signals, _ → _ → _))

instance (s : SignalTask) (signo sender : Int) : Decidable (s.SetsFlag signo sender) :=
  inferInstanceAs (Decidable (_ ∨ _))

instance (s : SignalTask) (how : Int) (set : Option (BitVec 32)) :
    Decidable (s.UnblocksNone how set) :=
  inferInstanceAs (Decidable (∀ b ∈ signals, _ → _ → _))

instance (s : SignalTask × UserContext) : DecidablePred (leftGuard s)
  | (.processMask how set, _) =>
      inferInstanceAs (Decidable (s.1.signalLeft = true ∨ s.1.UnblocksNone how set))
  | (.sendSignal signo sender, _) => inferInstanceAs (Decidable
      (s.1.signalLeft = true ∨ s.1.ClearsNone signo ∨ s.1.SetsFlag signo sender))
  | (.forceSignal _ _, _) | (.sysSignal _ _ _, _) | (.sysSignalAction _ _, _) | (.deliver _, _)
  | (.sysSignalReturn, _) | (.user _, _) | (.setStatus _, _) | (.fork _, _) | (.exec, _) =>
      inferInstanceAs (Decidable True)

/-- Each step that `leftGuard` allows keeps the flag. -/
theorem Marked.step {s t : SignalTask × UserContext} {l : SignalOp × Outcome} (h : Marked s.1)
    (huncatchable : Uncatchable s.1) (hguard : leftGuard s l) (hnext : signalNext s l = some t) :
    Marked t.1 := by
  obtain ⟨op, outcome⟩ := l
  have hstep := signal_next_eq hnext
  cases op with
  | sendSignal signo sender =>
      cases hstep
      exact do_send_signal_marked h hguard
  | forceSignal signo sender =>
      cases hstep
      exact force_signal_marked s.1 signo sender
  | sysSignal garbage signal handler =>
      cases hstep
      exact sys_signal_marked h garbage signal handler
  | sysSignalAction signal act =>
      cases hstep
      exact sys_signal_action_marked h signal act
  | processMask how set =>
      cases hstep
      exact process_mask_marked h huncatchable hguard
  | deliver sig =>
      simp only [signalStep] at hstep
      split at hstep
      · cases hstep
        exact deliver_marked h s.2 sig
      · cases hstep
  | sysSignalReturn =>
      cases hstep
      exact h
  | user u =>
      cases hstep
      exact h
  | setStatus status =>
      cases hstep
      exact h
  | fork pid =>
      cases hstep
      exact h
  | exec =>
      cases hstep
      intro b hb _
      have hall := calc_signal_left_marked { s.1 with signalPending := emptySet } b hb
      cases hall

/-- A signal that is pending and not blocked has the flag on, and the next `DoSignal` on the way to
user mode takes it, or ends the task. -/
structure WillBeHandled (s : SignalTask) : Prop where
  marked : Marked s
  taken : ∀ u : UserContext, u.frame.cs = userCodeSel → ∀ signo,
    sigismember s.signalPending signo = true → sigismember s.signalBlocked signo = false →
    (s.doSignal u).2.2 = true ∨ sigismember (s.doSignal u).1.signalPending signo = false

theorem Marked.will_be_handled {s : SignalTask} (h : Marked s) : WillBeHandled s := by
  refine ⟨h, fun u huser signo hpending hopen => ?_⟩
  have hflag := h signo hpending hopen
  rw [doSignal, if_pos hflag, if_pos huser]
  exact do_signal_from_takes (fun sig hsig => (mem_signals sig).mp hsig) (.inl hflag) hopen
    (.inl (good_of_member hpending))

/-- As long as no step takes a pending signal out of the blocked set with the flag off, every signal
that is pending and not blocked will be handled. -/
theorem pending_will_be_handled {pid : Int} {u : UserContext} {s : SignalTask × UserContext}
    {history : List (SignalOp × Outcome)}
    (hrun : Run (stepOf signalNext) leftGuard (SignalTask.init pid, u) history s) :
    WillBeHandled s.1 := by
  have hinit : Marked (SignalTask.init pid) := by
    intro b hb _
    have hall := calc_signal_left_marked (SignalTask.init pid) b hb
    cases hall
  have hstep : ∀ (a : SignalTask × UserContext) l b, Marked a.1 ∧ Uncatchable a.1 → leftGuard a l →
      stepOf signalNext a l b → Marked b.1 ∧ Uncatchable b.1 :=
    fun _ _ _ ha hguard hnext => ⟨ha.1.step ha.2 hguard hnext, ha.2.step hnext⟩
  exact (hrun.invariant hstep ⟨hinit, uncatchable_init _⟩).1.will_be_handled

/-- A signal is sent while it is blocked, and another one that is not. -/
def oneBlocked : List (SignalOp × Outcome) :=
  [(.processMask 1 (some (bit sigusr1)), .returned 0), (.sendSignal sigusr1 1, .returned 0),
    (.sendSignal sigint 1, .returned 0), (.processMask 2 (some (bit sigusr1)), .returned 0)]

theorem both_will_be_handled : ∃ s,
    Run (stepOf signalNext) leftGuard (SignalTask.init 1, blankContext) oneBlocked s ∧
      (s.1.signalPending, s.1.signalBlocked, s.1.signalLeft) = (0x405, 1, true) ∧
      WillBeHandled s.1 := by
  obtain ⟨s, t, hstart, hrun, hview⟩ := exists_run_checked signalNext leftGuard
    (some (SignalTask.init 1, blankContext)) oneBlocked
    (fun s => (s.1.signalPending, s.1.signalBlocked, s.1.signalLeft))
    (v := (0x405, 1, true)) (by decide)
  cases Option.some.inj hstart
  exact ⟨t, hrun, hview, pending_will_be_handled hrun⟩

/-- A signal is sent while it is blocked, and unblocked. -/
def sentWhileBlocked : List (SignalOp × Outcome) :=
  [(.processMask 1 (some (bit sigusr1)), .returned 0), (.sendSignal sigusr1 1, .returned 0),
    (.processMask 2 (some (bit sigusr1)), .returned 0)]

theorem unblocked_signal_left_behind : ∃ s,
    Run (stepOf signalNext) anyLabel (SignalTask.init 1, blankContext) sentWhileBlocked s ∧
      ¬ WillBeHandled s.1 := by
  obtain ⟨s, t, hstart, hrun, hview⟩ := exists_run_all signalNext
    (some (SignalTask.init 1, blankContext)) sentWhileBlocked
    (fun s => (s.1.signalPending, s.1.signalBlocked, s.1.signalLeft))
    (v := (0x401, 1, false)) (by decide)
  cases Option.some.inj hstart
  simp only [Prod.mk.injEq] at hview
  obtain ⟨hpending, hblocked, hleft⟩ := hview
  refine ⟨t, hrun, fun hhandled => ?_⟩
  have hmarked := hhandled.marked sigusr1
  rw [hpending, hblocked, hleft] at hmarked
  exact absurd (hmarked (by decide) (by decide)) nofun

end XBook.Signal
