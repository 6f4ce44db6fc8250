import XBook.Kernel.SignalMask

/-!
# Waiting for a signal

`SysSignalPause` and `SysSignalSuspend` of `kernel/signal.c` with `pause` and `sigsuspend` of
`user/lib/signal2.c`, over the signals of one task in `XBook.Kernel.Signal`. The handlers and the
library calls that are not over form a stack, since a handler can wait for a signal too. What a
system call returns is kept with the call that made it.

`signalCatched` is only cleared by `exec`, so the calls after the first handler do not wait, and
`sigsuspend` leaves its mask behind. `pauses_right` is about the runs without such calls.
-/

namespace XBook.Signal

open Transition
open Signals (Status)

namespace SignalTask

/-- `SysSignalPause`, with what it returns where it does not block. -/
def sysSignalPause (s : SignalTask) : SignalTask × Option Bool :=
  if s.signalCatched then (s, some true)
  else ({ s with signalCatched := false, status := .blocked }, none)

/-- `SysSignalSuspend`, which also stores the old set. -/
def sysSignalSuspend (s : SignalTask) (set : BitVec 32) :
    SignalTask × BitVec 32 × Option Bool :=
  let r := (s.sysSignalProcessMask 3 (some set)).1.sysSignalPause
  (r.1, s.signalBlocked, r.2)

end SignalTask

/-- How far a library call is. `first` tells whether its system call is the first one. -/
inductive Position where
  /-- Before a system call. -/
  | call (first : Bool)
  /-- In `TaskBlock`. -/
  | wait (first : Bool)
  /-- Behind a system call. -/
  | back (first : Bool) (retval : Bool)
  /-- At the `sigprocmask` of `sigsuspend`. -/
  | restore
  deriving DecidableEq

/-- Behind `SysSignalPause`, or in it. -/
def Position.entered (first : Bool) : Option Bool → Position
  | none => .wait first
  | some retval => .back first retval

/-- A call of `pause`, or of `sigsuspend` with a mask. `began` is the number of handlers that had
completed when it began, and `before` the blocked set. -/
structure LibraryCall where
  mask : Option (BitVec 32)
  oldMask : BitVec 32
  position : Position
  began : Nat
  before : BitVec 32

/-- What the task is in. -/
inductive Activation where
  | handler
  | call (c : LibraryCall)

/-- A call that has returned, with the handlers and the blocked set then. -/
structure CallEnd where
  suspend : Bool
  began : Nat
  caught : Nat
  before : BitVec 32
  after : BitVec 32
  deriving DecidableEq

/-- A task with its stack. `caught` is the number of handlers that have completed. -/
structure PauseState where
  task : SignalTask
  context : UserContext
  stack : List Activation
  caught : Nat
  returned : List CallEnd

namespace PauseState

/-- A task as `TaskInit` leaves it. -/
def init (pid : Int) (u : UserContext) : PauseState := ⟨.init pid, u, [], 0, []⟩

/-- The task runs its own code. -/
def inUser (s : PauseState) : Bool :=
  match s.stack with
  | .call _ :: _ => false
  | _ => true

/-- The task is in `TaskBlock`. -/
def isWaiting (s : PauseState) : Bool :=
  match s.stack with
  | .call c :: _ => match c.position with
    | .wait _ => true
    | _ => false
  | _ => false

/-- The call on top returns. -/
def finish (s : PauseState) (c : LibraryCall) (rest : List Activation) : PauseState :=
  { s with
    stack := rest
    returned := ⟨c.mask.isSome, c.began, s.caught, c.before, s.task.signalBlocked⟩ :: s.returned }

/-- `pause` or `sigsuspend` is called. -/
def begin (s : PauseState) (mask : Option (BitVec 32)) (garbage : BitVec 32) : PauseState :=
  { s with
    stack := .call ⟨mask, garbage, .call true, s.caught, s.task.signalBlocked⟩ :: s.stack }

/-- `sigsuspend`, where the mask may be missing. -/
def sigsuspend (s : PauseState) (mask : Option (BitVec 32)) (garbage : BitVec 32) : PauseState :=
  match mask with
  | none =>
      { s with returned := ⟨true, s.caught, s.caught, s.task.signalBlocked, s.task.signalBlocked⟩ ::
          s.returned }
  | some mask => s.begin (some mask) garbage

/-- The next step of the call on top, from one system call to the next. -/
def library (s : PauseState) : Option PauseState :=
  match s.stack with
  | .call c :: rest =>
      match c.position with
      | .call first =>
          match first, c.mask with
          | true, some mask =>
              let r := s.task.sysSignalSuspend mask
              let entered := .entered true r.2.2
              some { s with
                task := r.1
                stack := .call { c with oldMask := r.2.1, position := entered } :: rest }
          | _, _ =>
              let r := s.task.sysSignalPause
              some { s with
                task := r.1
                stack := .call { c with position := .entered first r.2 } :: rest }
      | .wait first =>
          if s.task.status = .running then
            some { s with
              stack := .call { c with position := .back first s.task.signalCatched } :: rest }
          else none
      | .back first retval =>
          if retval then
            if c.mask.isNone || first then some (s.finish c rest)
            else some { s with stack := .call { c with position := .restore } :: rest }
          else some { s with stack := .call { c with position := .call false } :: rest }
      | .restore =>
          some ({ s with
            task := (s.task.sysSignalProcessMask 3 (some c.oldMask)).1 }.finish c rest)
  | _ => none

/-- A step of the signals. A task that exits has no other step. -/
def signal (s : PauseState) (op : SignalOp) : Option PauseState :=
  (signalStep (s.task, s.context) op).bind fun r =>
    let t := { s with task := r.1.1, context := r.1.2 }
    match op with
    | .sendSignal .. | .forceSignal .. | .setStatus _ | .user _ => some t
    | .sysSignal .. | .sysSignalAction .. | .processMask .. | .fork _ =>
        if s.inUser then some t else none
    | .exec => if s.inUser then some { t with stack := [] } else none
    | .deliver _ =>
        if s.isWaiting then none
        else
          match r.2 with
          | .delivered .handled => some { t with stack := .handler :: s.stack }
          | .delivered .exited => none
          | _ => some t
    | .sysSignalReturn =>
        match s.stack with
        | .handler :: rest => some { t with stack := rest, caught := s.caught + 1 }
        | _ => none

end PauseState

/-- What happens to the task. The old mask of `sigsuspend` starts as `garbage`. -/
inductive PauseOp where
  | signal (op : SignalOp)
  | pause
  | sigsuspend (mask : Option (BitVec 32)) (garbage : BitVec 32)
  | library

def pauseStep (s : PauseState) : PauseOp → Option PauseState
  | .signal op => s.signal op
  | .pause => if s.inUser then some (s.begin none 0) else none
  | .sigsuspend mask garbage => if s.inUser then some (s.sigsuspend mask garbage) else none
  | .library => s.library

/-- A handler has completed since the call began, and `sigsuspend` leaves the blocked set of
before. -/
def CallEnd.Right (e : CallEnd) : Prop :=
  e.began < e.caught ∧ (e.suspend = true → e.after = e.before)

/-- A call that makes its first system call finds no old `signalCatched`, and `sigsuspend` the
blocked set with which it began. -/
def LibraryCall.Fresh (s : PauseState) (c : LibraryCall) : Prop :=
  c.position = .call true →
    match c.mask with
    | none => s.task.signalCatched = true → c.began < s.caught
    | some _ => s.task.signalCatched = false ∧ s.task.signalBlocked = c.before

def pauseGuard (s : PauseState) : PauseOp → Prop
  | .sigsuspend mask _ => mask.isSome = true
  | .library => match s.stack with
    | .call c :: _ => c.Fresh s
    | _ => True
  | _ => True

/-! ## What leaves the flag -/

namespace SignalTask

theorem task_wake_up_catched (s : SignalTask) : s.taskWakeUp.signalCatched = s.signalCatched := by
  rw [taskWakeUp]
  split
  · rfl
  · rfl

theorem handle_stop_signal_catched (s : SignalTask) (signo : Int) :
    (s.handleStopSignal signo).signalCatched = s.signalCatched := by
  rw [handleStopSignal]
  split
  · dsimp only
    split
    · exact s.task_wake_up_catched
    · rfl
  · split
    · rfl
    · rfl

theorem deliver_signal_catched (s : SignalTask) (signo sender : Int) :
    (s.deliverSignal signo sender).1.signalCatched = s.signalCatched := by
  rw [deliverSignal]
  split
  · rfl
  · dsimp only
    split
    · rfl
    · split
      · exact task_wake_up_catched _
      · rfl

theorem try_deliver_catched (s : SignalTask) (signo sender : Int) :
    (s.tryDeliver signo sender).1.signalCatched = s.signalCatched := by
  rw [tryDeliver]
  split
  · rfl
  · split
    · rfl
    · exact s.deliver_signal_catched signo sender

theorem wake_after_send_catched (s : SignalTask) (signo : Int) :
    (s.wakeAfterSend signo).signalCatched = s.signalCatched := by
  rw [wakeAfterSend]
  split
  · rw [calcSignalLeft]
    split
    · rfl
    · exact s.task_wake_up_catched
  · rfl

theorem do_send_signal_catched (s : SignalTask) (signo sender : Int) :
    (s.doSendSignal signo sender).1.signalCatched = s.signalCatched := by
  rw [doSendSignal]
  split
  · rfl
  · dsimp only
    rw [wake_after_send_catched, try_deliver_catched, handle_stop_signal_catched]

theorem force_signal_catched (s : SignalTask) (signo sender : Int) :
    (s.forceSignal signo sender).1.signalCatched = s.signalCatched := by
  rw [forceSignal, do_send_signal_catched, calcSignalLeft]
  dsimp only
  split
  · rfl
  · rfl

theorem install_action_catched (s : SignalTask) (signal : Int) (sa : SignalAction) :
    (s.installAction signal sa).signalCatched = s.signalCatched := by
  rw [installAction]
  split
  · rw [discard]
    split
    · rfl
    · rfl
  · rfl

theorem sys_signal_catched (s : SignalTask) (garbage : BitVec 32) (signal : Int)
    (handler : BitVec 32) :
    (s.sysSignal garbage signal handler).1.signalCatched = s.signalCatched := by
  rw [sysSignal]
  split
  · rfl
  · split
    · exact s.install_action_catched signal _
    · rfl

theorem sys_signal_action_catched (s : SignalTask) (signal : Int) (act : Option SignalAction) :
    (s.sysSignalAction signal act).1.signalCatched = s.signalCatched := by
  rw [sysSignalAction.eq_def]
  split
  · rfl
  · cases act with
    | none => rfl
    | some sa => exact s.install_action_catched signal sa

theorem process_mask_catched (s : SignalTask) (how : Int) (set : Option (BitVec 32)) :
    (s.sysSignalProcessMask how set).1.signalCatched = s.signalCatched := by
  rw [sysSignalProcessMask.eq_def]
  cases set with
  | none =>
      split
      · rfl
      · split
        · rfl
        · split
          · rfl
          · rfl
  | some set =>
      split
      · rfl
      · split
        · rfl
        · split
          · rfl
          · rfl

theorem deliver_catched (s : SignalTask) (u : UserContext) (sig : Int) :
    (s.deliver u sig).1.signalCatched = s.signalCatched := by
  rw [deliver]
  split
  · dsimp only
    split
    · rfl
    · split
      · rw [defaultAction]
        split
        · rfl
        · split
          · rfl
          · split
            · rfl
            · rfl
      · rw [handleSignal]
        dsimp only
        split
        · rfl
        · rfl
  · rfl

/-- The flag after a step. -/
def flagAfter (flag : Bool) : SignalOp → Bool
  | .sysSignalReturn => true
  | .exec => false
  | _ => flag

/-- Only `SysSignalReturn` and `exec` change the flag. -/
theorem signal_step_catched {s t : SignalTask × UserContext} {op : SignalOp} {outcome : Outcome}
    (hstep : signalStep s op = some (t, outcome)) :
    t.1.signalCatched = flagAfter s.1.signalCatched op := by
  cases op with
  | sendSignal signo sender =>
      cases hstep
      exact s.1.do_send_signal_catched signo sender
  | forceSignal signo sender =>
      cases hstep
      exact s.1.force_signal_catched signo sender
  | sysSignal garbage signal handler =>
      cases hstep
      exact s.1.sys_signal_catched garbage signal handler
  | sysSignalAction signal act =>
      cases hstep
      exact s.1.sys_signal_action_catched signal act
  | processMask how set =>
      cases hstep
      exact s.1.process_mask_catched how set
  | deliver sig =>
      simp only [signalStep] at hstep
      split at hstep
      · cases hstep
        exact s.1.deliver_catched s.2 sig
      · cases hstep
  | sysSignalReturn =>
      cases hstep
      rfl
  | user u =>
      cases hstep
      rfl
  | setStatus status =>
      cases hstep
      rfl
  | fork pid =>
      cases hstep
      rfl
  | exec =>
      cases hstep
      rfl

/-- Nor does `SysSignalPause`. -/
theorem sys_signal_pause_catched (s : SignalTask) :
    s.sysSignalPause.1.signalCatched = s.signalCatched := by
  rw [sysSignalPause]
  split
  · rfl
  · next hflag => exact (Bool.not_eq_true _ ▸ hflag).symm

theorem sys_signal_pause_keeps (s : SignalTask) :
    s.sysSignalPause.1.action = s.action ∧ s.sysSignalPause.1.signalBlocked = s.signalBlocked := by
  rw [sysSignalPause]
  split
  · exact ⟨rfl, rfl⟩
  · exact ⟨rfl, rfl⟩

/-- It returns at once just when the flag is set. -/
theorem sys_signal_pause_result (s : SignalTask) :
    s.sysSignalPause.2 = if s.signalCatched then some true else none := by
  rw [sysSignalPause]
  split
  · rfl
  · rfl

end SignalTask

theorem sigdelset_absent {mask : BitVec 32} {signo : Int} (h : sigismember mask signo = false) :
    sigdelset mask signo = mask := by
  rw [sigdelset]
  cases hbad : isBadSignal signo with
  | true => rfl
  | false =>
      have hgood := (is_bad_signal_iff signo).mp hbad
      rw [sigismember_eq, hbad, Bool.not_false, Bool.true_and] at h
      rw [if_neg Bool.false_ne_true]
      refine BitVec.eq_of_getLsbD_eq fun i hi => ?_
      rw [BitVec.getLsbD_and, BitVec.getLsbD_not, bit_get]
      by_cases heq : signo.toNat = i
      · rw [← heq, h, Bool.false_and]
      · rw [decide_eq_false heq, Bool.and_false, Bool.not_false, decide_eq_true hi, Bool.and_true,
          Bool.and_true]

/-- A set without the two signals is taken as it is. -/
theorem process_mask_restore (s : SignalTask) {mask : BitVec 32}
    (h : ∀ signo, IsUncatchable signo → sigismember mask signo = false) :
    (s.sysSignalProcessMask 3 (some mask)).1.signalBlocked = mask := by
  show sigdelset (sigdelset mask sigkill) sigstop = mask
  rw [sigdelset_absent (h sigkill (.inl rfl)), sigdelset_absent (h sigstop (.inr rfl))]

/-! ## The calls -/

/-- The call knows that a handler has completed. -/
def Position.isCaught : Position → Bool
  | .back _ true | .restore => true
  | _ => false

/-- What holds of a call that is not over, by the number of handlers that have completed and the
flag. -/
structure CallInv (n : Nat) (b : Bool) (c : LibraryCall) : Prop where
  began : c.began ≤ n
  flag : c.position ≠ .call true → b = true → c.began < n
  caught : c.position.isCaught = true → c.began < n
  half : c.mask.isSome = true → c.position ≠ .back true true
  waiting : ∀ first, c.position = .wait first → b = false
  oldMask : c.mask.isSome = true → c.position ≠ .call true → c.oldMask = c.before
  before : ∀ signo, IsUncatchable signo → sigismember c.before signo = false

/-- Another handler completes. -/
theorem CallInv.handled {n : Nat} {b : Bool} {c : LibraryCall} (h : CallInv n b c)
    (hwait : ∀ first, c.position ≠ .wait first) : CallInv (n + 1) true c := by
  refine ⟨Nat.le_succ_of_le h.began, fun _ _ => Nat.lt_succ_of_le h.began,
    fun _ => Nat.lt_succ_of_le h.began, h.half, fun first hfirst => absurd hfirst (hwait first),
    h.oldMask, h.before⟩

structure PauseInv (s : PauseState) : Prop where
  task : Uncatchable s.task
  calls : ∀ c, .call c ∈ s.stack → CallInv s.caught s.task.signalCatched c
  below : ∀ c, .call c ∈ s.stack.tail → ∀ first, c.position ≠ .wait first
  returned : ∀ e ∈ s.returned, e.Right

variable {s t : PauseState}

/-- The stack stays. -/
theorem PauseInv.same (h : PauseInv s) (htask : Uncatchable t.task)
    (hflag : t.task.signalCatched = s.task.signalCatched) (hstack : t.stack = s.stack)
    (hcaught : t.caught = s.caught) (hreturned : t.returned = s.returned) : PauseInv t := by
  refine ⟨htask, ?_, ?_, ?_⟩
  · rw [hstack, hcaught, hflag]
    exact h.calls
  · rw [hstack]
    exact h.below
  · rw [hreturned]
    exact h.returned

/-- Something is called where no call waits. -/
theorem PauseInv.push (h : PauseInv s) (htask : Uncatchable t.task)
    (hflag : t.task.signalCatched = s.task.signalCatched) {a : Activation}
    (hstack : t.stack = a :: s.stack) (hcaught : t.caught = s.caught)
    (hreturned : t.returned = s.returned)
    (hcall : ∀ c, a = .call c → CallInv s.caught s.task.signalCatched c)
    (hwait : ∀ c, .call c ∈ s.stack.head? → ∀ first, c.position ≠ .wait first) : PauseInv t := by
  refine ⟨htask, ?_, ?_, ?_⟩
  · rw [hstack, hcaught, hflag]
    intro c hc
    obtain heq | hold := List.mem_cons.mp hc
    · exact hcall c heq.symm
    · exact h.calls c hold
  · rw [hstack]
    intro c hc
    have hmem : .call c ∈ s.stack := hc
    cases hs : s.stack with
    | nil =>
        rw [hs] at hmem
        cases hmem
    | cons b rest =>
        rw [hs] at hmem
        obtain heq | hold := List.mem_cons.mp hmem
        · refine hwait c ?_
          rw [hs, heq]
          rfl
        · refine h.below c ?_
          rw [hs]
          exact hold
  · rw [hreturned]
    exact h.returned

/-- The call on top goes on. -/
theorem PauseInv.moved (h : PauseInv s) (htask : Uncatchable t.task)
    (hflag : t.task.signalCatched = s.task.signalCatched) {c c' : LibraryCall}
    {rest : List Activation} (hstack : s.stack = .call c :: rest)
    (hstack' : t.stack = .call c' :: rest) (hcaught : t.caught = s.caught)
    (hreturned : t.returned = s.returned)
    (hcall : CallInv s.caught s.task.signalCatched c') : PauseInv t := by
  refine ⟨htask, ?_, ?_, ?_⟩
  · rw [hstack', hcaught, hflag]
    intro d hd
    obtain heq | hold := List.mem_cons.mp hd
    · cases heq
      exact hcall
    · refine h.calls d ?_
      rw [hstack]
      exact List.mem_cons_of_mem _ hold
  · have hbelow := h.below
    rw [hstack] at hbelow
    rw [hstack']
    exact hbelow
  · rw [hreturned]
    exact h.returned

/-- It returns. -/
theorem PauseInv.finished (h : PauseInv s) (htask : Uncatchable t.task)
    (hflag : t.task.signalCatched = s.task.signalCatched) {c : LibraryCall}
    {rest : List Activation} (hstack : s.stack = .call c :: rest) (hstack' : t.stack = rest)
    (hcaught : t.caught = s.caught) {e : CallEnd} (hreturned : t.returned = e :: s.returned)
    (hright : e.Right) : PauseInv t := by
  have hbelow := h.below
  rw [hstack] at hbelow
  refine ⟨htask, ?_, ?_, ?_⟩
  · rw [hstack', hcaught, hflag]
    intro d hd
    refine h.calls d ?_
    rw [hstack]
    exact List.mem_cons_of_mem _ hd
  · rw [hstack']
    exact fun d hd => hbelow d (List.mem_of_mem_tail hd)
  · rw [hreturned]
    intro x hx
    obtain heq | hold := List.mem_cons.mp hx
    · exact heq ▸ hright
    · exact h.returned x hold

/-- The handler on top completes. -/
theorem PauseInv.handled (h : PauseInv s) (htask : Uncatchable t.task)
    (hflag : t.task.signalCatched = true) (hstack : s.stack = .handler :: t.stack)
    (hcaught : t.caught = s.caught + 1) (hreturned : t.returned = s.returned) : PauseInv t := by
  have hbelow := h.below
  rw [hstack] at hbelow
  refine ⟨htask, ?_, fun c hc => hbelow c (List.mem_of_mem_tail hc), ?_⟩
  · rw [hcaught, hflag]
    intro c hc
    refine (h.calls c ?_).handled (hbelow c hc)
    rw [hstack]
    exact List.mem_cons_of_mem _ hc
  · rw [hreturned]
    exact h.returned

/-- Where the task does not wait, the call on top does not. -/
theorem not_waiting_head (h : s.isWaiting = false) {c : LibraryCall}
    (hc : .call c ∈ s.stack.head?) (first : Bool) : c.position ≠ .wait first := by
  intro hposition
  have hhead : s.stack.head? = some (.call c) := hc
  cases hs : s.stack with
  | nil =>
      rw [hs] at hhead
      cases hhead
  | cons a rest =>
      rw [hs] at hhead
      cases hhead
      rw [PauseState.isWaiting, hs] at h
      dsimp only at h
      rw [hposition] at h
      cases h

/-- In its own code the task is in no call. -/
theorem not_waiting_user (h : s.inUser = true) : s.isWaiting = false := by
  rw [PauseState.inUser] at h
  rw [PauseState.isWaiting]
  cases hs : s.stack with
  | nil => rfl
  | cons a rest =>
      cases a with
      | handler => rfl
      | call c =>
          rw [hs] at h
          cases h

/-- A signal, a system call of the task or a step of a handler. -/
theorem PauseInv.signal (h : PauseInv s) {op : SignalOp} (hstep : s.signal op = some t) :
    PauseInv t := by
  obtain ⟨r, hr, hstep⟩ := Option.bind_eq_some_iff.mp hstep
  obtain ⟨⟨task, context⟩, outcome⟩ := r
  have htask : Uncatchable task := by
    refine Uncatchable.step (s := (s.task, s.context)) (t := (task, context))
      (l := (op, outcome)) h.task ?_
    rw [signalNext, hr, Option.bind_some, if_pos rfl]
  have hflag := SignalTask.signal_step_catched hr
  cases op with
  | sendSignal signo sender =>
      cases hstep
      exact h.same htask hflag rfl rfl rfl
  | forceSignal signo sender =>
      cases hstep
      exact h.same htask hflag rfl rfl rfl
  | setStatus status =>
      cases hstep
      exact h.same htask hflag rfl rfl rfl
  | user u =>
      cases hstep
      exact h.same htask hflag rfl rfl rfl
  | sysSignal garbage signal handler =>
      obtain ⟨-, heq⟩ := Option.ite_none_right_eq_some.mp hstep
      cases heq
      exact h.same htask hflag rfl rfl rfl
  | sysSignalAction signal act =>
      obtain ⟨-, heq⟩ := Option.ite_none_right_eq_some.mp hstep
      cases heq
      exact h.same htask hflag rfl rfl rfl
  | processMask how set =>
      obtain ⟨-, heq⟩ := Option.ite_none_right_eq_some.mp hstep
      cases heq
      exact h.same htask hflag rfl rfl rfl
  | fork pid =>
      obtain ⟨-, heq⟩ := Option.ite_none_right_eq_some.mp hstep
      cases heq
      exact h.same htask hflag rfl rfl rfl
  | exec =>
      obtain ⟨-, heq⟩ := Option.ite_none_right_eq_some.mp hstep
      cases heq
      exact ⟨htask, fun c hc => absurd hc List.not_mem_nil,
        fun c hc => absurd hc List.not_mem_nil, h.returned⟩
  | deliver sig =>
      dsimp only at hstep
      split at hstep
      · cases hstep
      · next hwait =>
          have hhead := fun c hc => not_waiting_head (c := c) (Bool.not_eq_true _ ▸ hwait) hc
          split at hstep
          · cases hstep
            refine h.push htask hflag rfl rfl rfl (fun c hc => ?_) hhead
            cases hc
          · cases hstep
          · cases hstep
            exact h.same htask hflag rfl rfl rfl
  | sysSignalReturn =>
      dsimp only at hstep
      split at hstep
      · next rest hstack =>
          cases hstep
          exact h.handled htask hflag hstack rfl rfl
      · cases hstep

/-- `pause` or `sigsuspend` is called. -/
theorem PauseInv.begin (h : PauseInv s) (huser : s.inUser = true) (mask : Option (BitVec 32))
    (garbage : BitVec 32) : PauseInv (s.begin mask garbage) := by
  refine h.push h.task rfl rfl rfl rfl (fun c hc => ?_)
    (fun c hc => not_waiting_head (not_waiting_user huser) hc)
  cases hc
  refine ⟨Nat.le_refl _, fun hfirst => absurd rfl hfirst, fun hcaught => ?_, fun _ hback => ?_,
    fun first hwait => ?_, fun _ hfirst => absurd rfl hfirst, h.task.blocked⟩
  · cases hcaught
  · cases hback
  · cases hwait

/-- A call goes on behind its first system call. -/
theorem CallInv.move {n : Nat} {b : Bool} {c : LibraryCall} (h : CallInv n b c)
    (hne : c.position ≠ .call true) {p : Position} (hcaught : p.isCaught = true → c.began < n)
    (hhalf : c.mask.isSome = true → p ≠ .back true true)
    (hwait : ∀ first, p = .wait first → b = false) : CallInv n b { c with position := p } :=
  ⟨h.began, fun _ => h.flag hne, hcaught, hhalf, hwait, fun hmask _ => h.oldMask hmask hne,
    h.before⟩

/-- Where `SysSignalPause` leads a call that knows what the flag says. -/
theorem CallInv.entered {n : Nat} {s : SignalTask} {c : LibraryCall}
    (hbegan : c.began ≤ n) (hflag : s.signalCatched = true → c.began < n) {first : Bool}
    (hhalf : c.mask.isSome = true → first = true → s.signalCatched = false)
    (hold : c.mask.isSome = true → c.oldMask = c.before)
    (hbefore : ∀ signo, IsUncatchable signo → sigismember c.before signo = false) :
    CallInv n s.signalCatched { c with position := .entered first s.sysSignalPause.2 } := by
  rw [s.sys_signal_pause_result]
  cases hcatched : s.signalCatched with
  | true =>
      refine ⟨hbegan, fun _ _ => hflag hcatched, fun _ => hflag hcatched, fun hmask hback => ?_,
        fun _ hwait => ?_, fun hmask _ => hold hmask, hbefore⟩
      · cases hback
        have hclear := hhalf hmask rfl
        rw [hcatched] at hclear
        cases hclear
      · cases hwait
  | false =>
      refine ⟨hbegan, fun _ hset => ?_, fun hcaught => ?_, fun _ hback => ?_, fun _ _ => rfl,
        fun hmask _ => hold hmask, hbefore⟩
      · cases hset
      · cases hcaught
      · cases hback

/-- The task after `SysSignalPause`. -/
theorem PauseInv.paused (h : PauseInv s) {c : LibraryCall} {rest : List Activation} {first : Bool}
    (hstack : s.stack = .call c :: rest) (hflag : s.task.signalCatched = true → c.began < s.caught)
    (hhalf : c.mask.isSome = true → first = true → s.task.signalCatched = false)
    (hold : c.mask.isSome = true → c.oldMask = c.before) :
    PauseInv { s with
      task := s.task.sysSignalPause.1
      stack := .call { c with position := .entered first s.task.sysSignalPause.2 } :: rest } := by
  have hcall := h.calls c (hstack ▸ List.mem_cons_self ..)
  obtain ⟨haction, hblocked⟩ := s.task.sys_signal_pause_keeps
  have htask : Uncatchable s.task.sysSignalPause.1 :=
    h.task.keeps haction fun b hb => hblocked ▸ hb
  exact h.moved htask s.task.sys_signal_pause_catched hstack rfl rfl rfl
    (.entered hcall.began hflag hhalf hold hcall.before)

/-- A call makes its next system call. -/
theorem PauseInv.enter (h : PauseInv s) {c : LibraryCall} {rest : List Activation} {first : Bool}
    (hstack : s.stack = .call c :: rest) (hposition : c.position = .call first)
    (hfresh : c.Fresh s) (hstep : s.library = some t) : PauseInv t := by
  have hcall := h.calls c (hstack ▸ List.mem_cons_self ..)
  rw [PauseState.library, hstack] at hstep
  dsimp only at hstep
  rw [hposition] at hstep
  cases first with
  | false =>
      cases hstep
      have hne : c.position ≠ .call true := by
        rw [hposition]
        exact fun heq => Bool.noConfusion (Position.call.inj heq)
      exact h.paused hstack (hcall.flag hne) (fun _ hfirst => Bool.noConfusion hfirst)
        fun hmask => hcall.oldMask hmask hne
  | true =>
      obtain ⟨mask, oldMask, position, began, before⟩ := c
      have hthis := hfresh hposition
      cases mask with
      | none =>
          cases hstep
          exact h.paused hstack hthis (fun hsome => Bool.noConfusion hsome)
            fun hsome => Bool.noConfusion hsome
      | some mask =>
          obtain ⟨hclear, hblocked⟩ := hthis
          cases hstep
          -- the mask is set, and the old one kept
          have hset : PauseInv { s with
              task := (s.task.sysSignalProcessMask 3 (some mask)).1
              stack := .call ⟨some mask, s.task.signalBlocked, position, began, before⟩ :: rest } :=
            h.moved (h.task.process_mask 3 _) (s.task.process_mask_catched 3 _) hstack rfl rfl rfl
              ⟨hcall.began, hcall.flag, hcall.caught, hcall.half, hcall.waiting,
                fun _ _ => hblocked, hcall.before⟩
          have hstill : (s.task.sysSignalProcessMask 3 (some mask)).1.signalCatched = false :=
            (s.task.process_mask_catched 3 _).trans hclear
          exact hset.paused rfl (fun hflag => Bool.noConfusion (hstill.symm.trans hflag))
            (fun _ _ => hstill) fun _ => hblocked

/-- A call returns, or its last system call is left. -/
theorem PauseInv.caught (h : PauseInv s) {c : LibraryCall} {rest : List Activation} {first : Bool}
    (hstack : s.stack = .call c :: rest) (hposition : c.position = .back first true)
    (hstep : s.library = some t) : PauseInv t := by
  have hcall := h.calls c (hstack ▸ List.mem_cons_self ..)
  have hbegan := hcall.caught (by rw [hposition]; rfl)
  have hhalf := hcall.half
  rw [hposition] at hhalf
  rw [PauseState.library, hstack] at hstep
  dsimp only at hstep
  rw [hposition] at hstep
  dsimp only at hstep
  rw [if_pos rfl] at hstep
  split at hstep
  · next hends =>
      cases hstep
      refine h.finished h.task rfl hstack rfl rfl rfl ⟨hbegan, fun hsuspend => ?_⟩
      have hsome : c.mask.isSome = true := hsuspend
      rw [Option.isNone_eq_false_iff.mpr hsome, Bool.false_or] at hends
      exact absurd (congrArg (Position.back · true) hends) (hhalf hsome)
  · cases hstep
    refine h.moved h.task rfl hstack rfl rfl rfl (hcall.move ?_ (fun _ => hbegan) ?_ ?_)
    · rw [hposition]
      exact Position.noConfusion
    · exact fun _ => Position.noConfusion
    · exact fun _ => Position.noConfusion

/-- `sigsuspend` takes its mask back. -/
theorem PauseInv.restore (h : PauseInv s) {c : LibraryCall} {rest : List Activation}
    (hstack : s.stack = .call c :: rest) (hposition : c.position = .restore)
    (hstep : s.library = some t) : PauseInv t := by
  have hcall := h.calls c (hstack ▸ List.mem_cons_self ..)
  rw [PauseState.library, hstack] at hstep
  dsimp only at hstep
  rw [hposition] at hstep
  cases hstep
  refine h.finished (h.task.process_mask 3 _) (s.task.process_mask_catched 3 _) hstack rfl rfl rfl
    ⟨hcall.caught (by rw [hposition]; rfl), fun hsuspend => ?_⟩
  have hne : c.position ≠ .call true := by
    rw [hposition]
    exact Position.noConfusion
  show (s.task.sysSignalProcessMask 3 (some c.oldMask)).1.signalBlocked = c.before
  rw [hcall.oldMask hsuspend hne]
  exact process_mask_restore s.task hcall.before

/-- The next step of a call. -/
theorem PauseInv.library (h : PauseInv s) (hguard : pauseGuard s .library)
    (hstep : s.library = some t) : PauseInv t := by
  have hsame := hstep
  rw [PauseState.library] at hstep
  split at hstep
  · next c rest hstack =>
      have hcall := h.calls c (hstack ▸ List.mem_cons_self ..)
      have hfresh : c.Fresh s := by
        rw [pauseGuard.eq_def] at hguard
        dsimp only at hguard
        rw [hstack] at hguard
        exact hguard
      cases hposition : c.position with
      | call first => exact h.enter hstack hposition hfresh hsame
      | restore => exact h.restore hstack hposition hsame
      | wait first =>
          rw [hposition] at hstep
          obtain ⟨-, heq⟩ := Option.ite_none_right_eq_some.mp hstep
          cases heq
          refine h.moved h.task rfl hstack rfl rfl rfl ?_
          rw [hcall.waiting first hposition]
          refine (hcall.waiting first hposition ▸ hcall).move ?_ ?_ ?_ ?_
          · rw [hposition]
            exact Position.noConfusion
          · exact fun hcaught => Bool.noConfusion hcaught
          · intro _ hback
            cases hback
          · exact fun _ => Position.noConfusion
      | back first retval =>
          cases retval with
          | true => exact h.caught hstack hposition hsame
          | false =>
              rw [hposition] at hstep
              cases hstep
              refine h.moved h.task rfl hstack rfl rfl rfl (hcall.move ?_ ?_ ?_ ?_)
              · rw [hposition]
                exact Position.noConfusion
              · exact fun hcaught => Bool.noConfusion hcaught
              · exact fun _ => Position.noConfusion
              · exact fun _ => Position.noConfusion
  · cases hstep

/-- A step that meets the guard keeps the invariant. -/
theorem PauseInv.step (h : PauseInv s) {op : PauseOp} (hguard : pauseGuard s op)
    (hstep : pauseStep s op = some t) : PauseInv t := by
  cases op with
  | signal op => exact h.signal hstep
  | pause =>
      obtain ⟨huser, heq⟩ := Option.ite_none_right_eq_some.mp hstep
      cases heq
      exact h.begin huser none 0
  | sigsuspend mask garbage =>
      obtain ⟨huser, heq⟩ := Option.ite_none_right_eq_some.mp hstep
      cases heq
      cases mask with
      | none => cases hguard
      | some mask => exact h.begin huser (some mask) garbage
  | library => exact h.library hguard hstep

/-- In every run in which no call starts with a flag from before, the calls that have returned have
waited for a handler, and `sigsuspend` has left the blocked set as it was. -/
theorem pauses_right {pid : Int} {u : UserContext} {ops : List PauseOp}
    (hrun : Run (stepOf pauseStep) pauseGuard (.init pid u) ops s) : ∀ e ∈ s.returned, e.Right := by
  have hinit : PauseInv (.init pid u) :=
    ⟨uncatchable_init _, fun c hc => absurd hc List.not_mem_nil,
      fun c hc => absurd hc List.not_mem_nil, fun e he => absurd he List.not_mem_nil⟩
  have hinv : PauseInv s :=
    hrun.invariant (fun _ _ _ h hguard hstep => h.step hguard hstep) hinit
  exact hinv.returned

instance (s : PauseState) : (c : LibraryCall) → Decidable (c.Fresh s)
  | ⟨none, _, position, began, _⟩ =>
      inferInstanceAs (Decidable (position = .call true → s.task.signalCatched = true →
        began < s.caught))
  | ⟨some _, _, position, _, before⟩ =>
      inferInstanceAs (Decidable (position = .call true → s.task.signalCatched = false ∧
        s.task.signalBlocked = before))

instance : (s : PauseState) → (op : PauseOp) → Decidable (pauseGuard s op)
  | _, .sigsuspend mask _ => inferInstanceAs (Decidable (mask.isSome = true))
  | ⟨task, context, .call c :: rest, caught, returned⟩, .library =>
      inferInstanceAs (Decidable (c.Fresh ⟨task, context, .call c :: rest, caught, returned⟩))
  | ⟨_, _, .handler :: _, _, _⟩, .library => isTrue trivial
  | ⟨_, _, [], _, _⟩, .library => isTrue trivial
  | _, .signal _ => isTrue trivial
  | _, .pause => isTrue trivial

/-- A task that blocks `SIGINT` waits for it with an empty mask. -/
def waitsForSigint : List PauseOp :=
  [.signal (.sysSignalAction sigint (some ⟨4096, 0⟩)), .signal (.processMask 1 (some 4)),
    .sigsuspend (some 1) 0, .library, .signal (.sendSignal sigint 1), .signal (.setStatus .running),
    .library, .signal (.deliver sigint), .signal .sysSignalReturn, .library, .library, .library,
    .library]

theorem sigint_waited_for : ∃ s,
    Run (stepOf pauseStep) pauseGuard (.init 1 blankContext) waitsForSigint s ∧
      s.returned = [⟨true, 0, 1, 5, 5⟩] ∧ ∀ e ∈ s.returned, e.Right := by
  obtain ⟨s, t, hstart, hrun, hview⟩ := exists_run_checked pauseStep pauseGuard
    (some (.init 1 blankContext)) waitsForSigint PauseState.returned (v := [⟨true, 0, 1, 5, 5⟩])
    (by decide +kernel)
  cases Option.some.inj hstart
  exact ⟨t, hrun, hview, pauses_right hrun⟩

/-- A task waits twice after it has handled a signal. -/
def waitsAgain : List PauseOp :=
  [.signal (.sysSignalAction sigint (some ⟨4096, 0⟩)), .signal (.sendSignal sigint 1),
    .signal (.deliver sigint), .signal .sysSignalReturn, .pause, .library, .library,
    .sigsuspend (some 5) 0, .library, .library]

/-- Neither call waits, and the second one leaves its mask. -/
theorem no_second_wait : ∃ s,
    Run (stepOf pauseStep) anyLabel (.init 1 blankContext) waitsAgain s ∧
      s.returned = [⟨true, 1, 1, 1, 5⟩, ⟨false, 1, 1, 1, 1⟩] ∧ ¬∀ e ∈ s.returned, e.Right := by
  obtain ⟨s, t, hstart, hrun, hview⟩ := exists_run_all pauseStep
    (some (.init 1 blankContext)) waitsAgain PauseState.returned
    (v := [⟨true, 1, 1, 1, 5⟩, ⟨false, 1, 1, 1, 1⟩]) (by decide +kernel)
  cases Option.some.inj hstart
  refine ⟨t, hrun, hview, fun hright => ?_⟩
  have hcall := hright ⟨true, 1, 1, 1, 5⟩ (hview ▸ List.mem_cons_self ..)
  exact absurd hcall.1 (Nat.lt_irrefl 1)

end XBook.Signal
