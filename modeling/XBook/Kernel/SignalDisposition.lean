import XBook.Kernel.SignalMask

/-!
# Signal dispositions

`disposition` reads the action of a signal off the history of a task: the last one that a system
call has set, or the default once a handler that is used only once has been entered. The actions in
the task agree with it as long as `SysSignal` is not used to set the default action, which it does
not store, and the flags that it leaves uninitialised happen to hold no other bit.
-/

namespace XBook.Signal

open Transition

/-- The actions that the callers have asked for. -/
def expect (e : Int → SignalAction) : SignalOp × Outcome → Int → SignalAction
  | (.sysSignal _ signal handler, .returned 0) =>
      Function.update e signal
        (if handler = sigDfl then { e signal with handler } else ⟨handler, saOneshot⟩)
  | (.sysSignalAction signal (some sa), .returned 0) => Function.update e signal sa
  | (.deliver sig, .delivered .handled) =>
      if (e sig).flags &&& saOneshot ≠ 0 then
        Function.update e sig { e sig with handler := sigDfl }
      else e
  | (.forceSignal signo _, _) =>
      -- a signal that is forced is not ignored any more
      if (e signo).handler = sigIgn then
        Function.update e signo { e signo with handler := sigDfl }
      else e
  | (.exec, _) => fun _ => ⟨sigDfl, 0⟩
  | _ => e

/-- The actions after a history. -/
def disposition (history : List (SignalOp × Outcome)) : Int → SignalAction :=
  history.foldl expect fun _ => ⟨sigDfl, 0⟩

/-- `SysSignal` stores what it is asked for: its flags held no other bit, and it is not called to set
the default action of a signal that has another one. -/
def storesSignal (s : SignalTask × UserContext) (l : SignalOp × Outcome) : Prop :=
  match l.1 with
  | .sysSignal garbage signal handler => l.2 = .returned 0 →
      if handler = sigDfl then (s.1.action signal).handler = sigDfl
      else garbage ||| saOneshot = saOneshot
  | _ => True

instance (s : SignalTask × UserContext) : DecidablePred (storesSignal s)
  | (.sysSignal garbage signal handler, outcome) => inferInstanceAs (Decidable
      (outcome = .returned 0 → if handler = sigDfl then (s.1.action signal).handler = sigDfl
        else garbage ||| saOneshot = saOneshot))
  | (.sendSignal _ _, _) | (.forceSignal _ _, _) | (.sysSignalAction _ _, _) | (.processMask _ _, _)
  | (.deliver _, _) | (.sysSignalReturn, _) | (.user _, _) | (.setStatus _, _) | (.fork _, _)
  | (.exec, _) => inferInstanceAs (Decidable True)

/-- One step does to the actions what `expect` says. -/
theorem action_step {s t : SignalTask × UserContext} {l : SignalOp × Outcome}
    (hguard : storesSignal s l) (hnext : signalNext s l = some t) :
    t.1.action = expect s.1.action l := by
  obtain ⟨op, outcome⟩ := l
  have hstep := signal_next_eq hnext
  cases op with
  | sendSignal signo sender =>
      cases hstep
      exact (s.1.do_send_signal_keeps signo sender).1
  | forceSignal signo sender =>
      cases hstep
      exact (s.1.force_signal_keeps signo sender).1
  | sysSignal garbage signal handler =>
      simp only [signalStep, Option.some.injEq, Prod.mk.injEq] at hstep
      obtain ⟨rfl, rfl⟩ := hstep
      rw [SignalTask.sysSignal] at hguard ⊢
      split
      · rfl
      · next hok =>
          rw [if_neg hok] at hguard
          split
          · next hhandler =>
              have hne : ¬ handler = sigDfl := hhandler
              rw [if_pos hhandler] at hguard
              have hflags : garbage ||| saOneshot = saOneshot := by
                have hcond := hguard rfl
                rwa [if_neg hne] at hcond
              rw [(s.1.install_action_keeps signal _).1, hflags]
              simp only [expect, if_neg hne]
          · next hhandler =>
              have hdfl : handler = sigDfl := not_not.mp hhandler
              rw [if_neg hhandler] at hguard
              have hold : (s.1.action signal).handler = sigDfl := by
                have hcond := hguard rfl
                rwa [if_pos hdfl] at hcond
              simp only [expect, if_pos hdfl]
              rw [hdfl, ← hold, Function.update_eq_self]
  | sysSignalAction signal act =>
      simp only [signalStep, Option.some.injEq, Prod.mk.injEq] at hstep
      obtain ⟨rfl, rfl⟩ := hstep
      unfold SignalTask.sysSignalAction
      split
      · cases act with
        | none => rfl
        | some sa => rfl
      · cases act with
        | none => rfl
        | some sa => exact (s.1.install_action_keeps signal sa).1
  | processMask how set =>
      cases hstep
      exact s.1.process_mask_action how set
  | deliver sig =>
      simp only [signalStep] at hstep
      split at hstep
      · simp only [Option.some.injEq, Prod.mk.injEq] at hstep
        obtain ⟨rfl, rfl⟩ := hstep
        rw [(s.1.deliver_keeps s.2 sig).2]
        cases hr : (s.1.deliver s.2 sig).2.2 with
        | handled => simp only [expect, true_and]
        | none => rfl
        | ignored => rfl
        | stopped => rfl
        | exited => rfl
      · cases hstep
  | sysSignalReturn =>
      cases hstep
      rfl
  | user u =>
      cases hstep
      rfl
  | setStatus status =>
      cases hstep
      rfl
  | fork pid =>
      cases hstep
      rfl
  | exec =>
      cases hstep
      rfl

/-- The actions of a task are those of its history, and a handler is entered as they say. -/
structure AgreesWith (e : Int → SignalAction) (s : SignalTask) : Prop where
  /-- The handler and the flags that are stored. -/
  stored : ∀ signo, s.action signo = e signo
  /-- The handler that is entered. -/
  entered : ∀ sig u, (s.deliver u sig).2.2 = .handled →
    (s.deliver u sig).2.1.frame.eip = (e sig).handler ∧
      (e sig).handler ≠ sigDfl ∧ (e sig).handler ≠ sigIgn

/-- A signal is handled by the action of the task. -/
theorem SignalTask.deliver_handled {s : SignalTask} {u : UserContext} {sig : Int}
    (h : (s.deliver u sig).2.2 = .handled) :
    (s.deliver u sig).2.1.frame.eip = (s.action sig).handler ∧
      (s.action sig).handler ≠ sigDfl ∧ (s.action sig).handler ≠ sigIgn := by
  have hdefault : ∀ t : SignalTask, (t.defaultAction sig).2 ≠ .handled := by
    intro t
    rw [defaultAction]
    split
    · rintro ⟨⟩
    · split
      · rintro ⟨⟩
      · split
        · rintro ⟨⟩
        · rintro ⟨⟩
  have haction : (s.takeSignal sig).action = s.action := rfl
  rw [deliver] at h ⊢
  split at h
  · next hdeliverable =>
      simp only [if_pos hdeliverable] at h ⊢
      rw [haction] at h ⊢
      split at h
      · cases h
      · next hign =>
          split at h
          · exact absurd h (hdefault _)
          · next hdfl =>
              rw [if_neg hign, if_neg hdfl]
              refine ⟨?_, hdfl, hign⟩
              rw [handleSignal]
              simp only []
              split
              · rfl
              · rfl
  · cases h

/-- As long as `SysSignal` stores what it is asked for, the action of each signal is the one that was
set last. -/
theorem disposition_agrees {pid : Int} {u : UserContext} {s : SignalTask × UserContext}
    {history : List (SignalOp × Outcome)}
    (hrun : Run (stepOf signalNext) storesSignal (SignalTask.init pid, u) history s) :
    AgreesWith (disposition history) s.1 := by
  have hfold : ∀ {a b : SignalTask × UserContext} {ls : List (SignalOp × Outcome)},
      Run (stepOf signalNext) storesSignal a ls b → b.1.action = ls.foldl expect a.1.action := by
    intro a b ls hrun
    induction hrun with
    | nil a => rfl
    | cons hguard hstep _ ih =>
        rw [ih, action_step hguard hstep]
        rfl
  have haction : s.1.action = disposition history := hfold hrun
  refine ⟨fun signo => congrFun haction signo, ?_⟩
  intro sig v hhandled
  rw [← haction]
  exact SignalTask.deliver_handled hhandled

/-- A handler is set with both calls, and entered once. -/
def handlersSet : List (SignalOp × Outcome) :=
  [(.sysSignal 0 sigint 4096, .returned 0), (.sysSignalAction sigusr1 (some ⟨8192, 0⟩), .returned 0),
    (.sendSignal sigint 1, .returned 0), (.sendSignal sigusr1 1, .returned 0),
    (.deliver sigint, .delivered .handled), (.deliver sigusr1, .delivered .handled)]

theorem handlers_after_delivery : ∃ s,
    Run (stepOf signalNext) storesSignal (SignalTask.init 1, blankContext) handlersSet s ∧
      ((s.1.action sigint).handler, (s.1.action sigusr1).handler) = (sigDfl, 8192) ∧
      AgreesWith (disposition handlersSet) s.1 := by
  obtain ⟨s, t, hstart, hrun, hview⟩ := exists_run_checked signalNext storesSignal
    (some (SignalTask.init 1, blankContext)) handlersSet
    (fun s => ((s.1.action sigint).handler, (s.1.action sigusr1).handler))
    (v := (sigDfl, 8192)) (by decide)
  cases Option.some.inj hstart
  exact ⟨t, hrun, hview, disposition_agrees hrun⟩

/-- `SysSignal` sets a handler, and then the default action. -/
def defaultNotStored : List (SignalOp × Outcome) :=
  [(.sysSignal 6 sigint 4096, .returned 0), (.sysSignal 6 sigint sigDfl, .returned 0)]

theorem handler_outlives_default : ∃ s,
    Run (stepOf signalNext) anyLabel (SignalTask.init 1, blankContext) defaultNotStored s ∧
      s.1.action sigint = ⟨4096, 7⟩ ∧ ¬ AgreesWith (disposition defaultNotStored) s.1 := by
  obtain ⟨s, t, hstart, hrun, hview⟩ := exists_run_all signalNext
    (some (SignalTask.init 1, blankContext)) defaultNotStored (fun s => s.1.action sigint)
    (v := ⟨4096, 7⟩) (by decide)
  cases Option.some.inj hstart
  refine ⟨t, hrun, hview, fun hagrees => ?_⟩
  have hstored := hagrees.stored sigint
  rw [hview] at hstored
  exact absurd hstored (by decide)

end XBook.Signal
