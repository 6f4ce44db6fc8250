import XBook.Kernel.SignalTasks
import XBook.Lib.Bytes

/-!
# Signals of one task

`kernel/signal.c` with the signal sets of `share/signal.c`, as one task sees them: what is sent to
it, what it sets itself, and what `DoSignal` does when the task is about to return to user mode. A
frame for a handler is built on the user stack and taken from it again by `SysSignalReturn`.

The entry of a signal in the tables of the source is the one before its number. Here a table is a
function of the number. `ForceSignal` is only called with numbers within the tables.
-/

namespace XBook.Signal

open Signals (Status)

abbrev UserMemory := ByteMemory 32

/-! ## Signal sets -/

def maxSignalNr : Int := 32

/-- `IS_BAD_SIGNAL`. -/
def isBadSignal (signo : Int) : Bool := signo < 1 || signo ≥ maxSignalNr

/-- `1 << signo`. -/
def bit (signo : Int) : BitVec 32 := 1#32 <<< signo.toNat

def sigaddset (mask : BitVec 32) (signo : Int) : BitVec 32 :=
  if isBadSignal signo then mask else mask ||| bit signo

def sigdelset (mask : BitVec 32) (signo : Int) : BitVec 32 :=
  if isBadSignal signo then mask else mask &&& ~~~bit signo

def sigismember (mask : BitVec 32) (signo : Int) : Bool :=
  if isBadSignal signo then false else mask &&& bit signo ≠ 0#32

/-- `sigemptyset`. Bit 0 is set. -/
def emptySet : BitVec 32 := 1#32

theorem and_bit_ne_zero (mask : BitVec 32) {n : Nat} (hn : n < 32) :
    mask &&& 1#32 <<< n ≠ 0#32 ↔ mask.getLsbD n = true := by
  constructor
  · intro hne
    by_contra hbit
    refine hne (BitVec.eq_of_getLsbD_eq fun i hi => ?_)
    rw [← BitVec.twoPow_eq, BitVec.getLsbD_and, BitVec.getLsbD_twoPow, BitVec.getLsbD_zero]
    by_cases heq : n = i
    · rw [← heq, Bool.eq_false_iff.mpr hbit, Bool.false_and]
    · rw [decide_eq_false heq, Bool.and_false, Bool.and_false]
  · intro hbit hzero
    have hboth := congrArg (fun x => BitVec.getLsbD x n) hzero
    rw [← BitVec.twoPow_eq] at hboth
    simp only [BitVec.getLsbD_and, BitVec.getLsbD_twoPow, hbit, hn, BitVec.getLsbD_zero] at hboth
    cases hboth

theorem is_bad_signal_iff (signo : Int) : isBadSignal signo = false ↔ 1 ≤ signo ∧ signo < 32 := by
  simp only [isBadSignal, maxSignalNr, Bool.or_eq_false_iff, decide_eq_false_iff_not, not_lt,
    ge_iff_le, not_le]

/-- A number is in a set when its bit is set. -/
theorem sigismember_eq (mask : BitVec 32) (signo : Int) :
    sigismember mask signo = (!isBadSignal signo && mask.getLsbD signo.toNat) := by
  rw [sigismember]
  cases hbad : isBadSignal signo with
  | true => rfl
  | false =>
      have hgood := (is_bad_signal_iff signo).mp hbad
      have hbit := and_bit_ne_zero mask (n := signo.toNat) (by omega)
      simp only [Bool.false_eq_true, if_false, bit, hbit, Bool.decide_eq_true, Bool.not_false,
        Bool.true_and]

theorem bit_get (signo : Int) (i : Nat) :
    (bit signo).getLsbD i = (decide (signo.toNat < 32) && decide (signo.toNat = i)) := by
  rw [bit, ← BitVec.twoPow_eq, BitVec.getLsbD_twoPow]

theorem sigismember_sigdelset (mask : BitVec 32) (a b : Int) :
    sigismember (sigdelset mask a) b = (sigismember mask b && a ≠ b) := by
  rw [sigismember_eq, sigismember_eq, sigdelset]
  cases hb : isBadSignal b with
  | true => rfl
  | false =>
      have hbgood := (is_bad_signal_iff b).mp hb
      cases ha : isBadSignal a with
      | true =>
          have hne : a ≠ b := by
            rintro rfl
            rw [ha] at hb
            cases hb
          rw [if_pos rfl, decide_eq_true hne, Bool.and_true]
      | false =>
          have hagood := (is_bad_signal_iff a).mp ha
          have hlt : b.toNat < 32 := by omega
          have hiff : a.toNat = b.toNat ↔ a = b := by omega
          rw [if_neg nofun, BitVec.getLsbD_and, BitVec.getLsbD_not, bit_get]
          have halt : a.toNat < 32 := by omega
          simp only [hlt, halt, hiff, decide_true, Bool.true_and, Bool.not_false, ne_eq,
            decide_not]

theorem sigismember_sigaddset (mask : BitVec 32) {a : Int} (ha : isBadSignal a = false) (b : Int) :
    sigismember (sigaddset mask a) b = (sigismember mask b || a = b) := by
  rw [sigismember_eq, sigismember_eq, sigaddset, ha, if_neg nofun]
  have hagood := (is_bad_signal_iff a).mp ha
  have halt : a.toNat < 32 := by omega
  cases hb : isBadSignal b with
  | true =>
      have hne : a ≠ b := by
        rintro rfl
        rw [ha] at hb
        cases hb
      simp only [Bool.not_true, Bool.false_and, decide_eq_false hne, Bool.or_false]
  | false =>
      have hbgood := (is_bad_signal_iff b).mp hb
      have hiff : a.toNat = b.toNat ↔ a = b := by omega
      rw [BitVec.getLsbD_or, bit_get]
      simp only [halt, hiff, decide_true, Bool.true_and, Bool.not_false]

def sigint : Int := 2
def sigkill : Int := 9
def sigusr1 : Int := 10
def sigusr2 : Int := 12
def sigchld : Int := 17
def sigcont : Int := 18
def sigstop : Int := 19
def sigtstp : Int := 20
def sigttin : Int := 21
def sigttou : Int := 22
def sigurg : Int := 23
def sigwinch : Int := 28

/-- The signals that stop a task. -/
def isStopSignal (signo : Int) : Bool :=
  signo = sigstop || signo = sigtstp || signo = sigttou || signo = sigttin

/-! ## The task -/

/-- `SIG_DFL`. -/
def sigDfl : BitVec 32 := 0

/-- `SIG_IGN`. -/
def sigIgn : BitVec 32 := 1

/-- `SA_ONESHOT`. -/
def saOneshot : BitVec 32 := 1

/-- `SignalAction_t`. -/
structure SignalAction where
  handler : BitVec 32
  flags : BitVec 32
  deriving DecidableEq

/-- What signals use of `struct Task`. -/
structure SignalTask where
  pid : Int
  status : Status
  exitStatus : Int
  signalLeft : Bool
  signalCatched : Bool
  action : Int → SignalAction
  sender : Int → Int
  signalBlocked : BitVec 32
  signalPending : BitVec 32

namespace SignalTask

/-- `InitSignalInTask`. -/
def initSignalInTask (s : SignalTask) : SignalTask :=
  { s with
    signalLeft := false
    signalCatched := false
    action := fun _ => ⟨sigDfl, 0⟩
    sender := fun _ => -1
    signalBlocked := emptySet
    signalPending := emptySet }

/-- A task as `TaskInit` leaves it. -/
def init (pid : Int) : SignalTask :=
  initSignalInTask ⟨pid, .ready, -1, false, false, fun _ => ⟨0, 0⟩, fun _ => 0, 0, 0⟩

def calcSignalLeft (s : SignalTask) : SignalTask :=
  { s with signalLeft := !(s.signalPending = 1#32 || s.signalPending = 0#32) }

/-- `TaskWakeUp`. -/
def taskWakeUp (s : SignalTask) : SignalTask :=
  if s.status = .blocked ∨ s.status = .stopped then { s with status := .ready } else s

/-- `SetSignalAction`. -/
def setSignalAction (s : SignalTask) (signo : Int) (sa : SignalAction) : SignalTask :=
  { s with action := Function.update s.action signo sa }

/-- `DelSignalFromTask` for `signalPending`, with the `CalcSignalLeft` behind it. -/
def discard (s : SignalTask) (signo : Int) : SignalTask :=
  if sigismember s.signalPending signo then
    { s with signalPending := sigdelset s.signalPending signo }.calcSignalLeft
  else s

/-! ## Sending -/

def handleStopSignal (s : SignalTask) (signo : Int) : SignalTask :=
  if signo = sigkill ∨ signo = sigcont then
    let t := if s.status = .stopped then s.taskWakeUp else s
    { t with
      exitStatus := 0
      signalBlocked := sigdelset (sigdelset (sigdelset (sigdelset t.signalBlocked sigstop) sigtstp)
        sigttou) sigttin }
  else if isStopSignal signo then
    { s with signalBlocked := sigdelset s.signalBlocked sigcont }
  else s

def ignoreSignal (s : SignalTask) (signo : Int) : Bool :=
  if sigismember s.signalBlocked signo then false
  else if (s.action signo).handler > 1 then false
  else if (s.action signo).handler = 1 then signo ≠ sigchld
  else signo = sigcont || signo = sigwinch || signo = sigchld || signo = sigurg

def deliverSignal (s : SignalTask) (signo sender : Int) : SignalTask × Int :=
  if sender < 0 then (s, -1)
  else
    let t := { s with
      sender := Function.update s.sender signo sender
      signalPending := sigaddset s.signalPending signo }
    if sigismember t.signalBlocked signo then (t, 0)
    else
      let u := { t with signalLeft := true }
      (if u.status = .blocked then u.taskWakeUp else u, 0)

/-- `DoSendSignal` between `HandleStopSignal` and `ToOut`. -/
def tryDeliver (s : SignalTask) (signo sender : Int) : SignalTask × Int :=
  if s.ignoreSignal signo then (s, 0)
  else if sigismember s.signalPending signo then (s, 0)
  else s.deliverSignal signo sender

/-- `DoSendSignal` behind `ToOut`. -/
def wakeAfterSend (s : SignalTask) (signo : Int) : SignalTask :=
  if s.status = .blocked ∧ s.signalPending ≠ 1#32 then
    (if sigismember s.signalBlocked signo then s else s.taskWakeUp).calcSignalLeft
  else s

/-- `DoSendSignal` behind `FindTaskByPid`. -/
def doSendSignal (s : SignalTask) (signo sender : Int) : SignalTask × Int :=
  if isBadSignal signo then (s, -1)
  else
    let r := (s.handleStopSignal signo).tryDeliver signo sender
    (r.1.wakeAfterSend signo, r.2)

/-- `ForceSignal` behind `FindTaskByPid`. -/
def forceSignal (s : SignalTask) (signo sender : Int) : SignalTask × Int :=
  let t :=
    if (s.action signo).handler = sigIgn then
      s.setSignalAction signo { s.action signo with handler := sigDfl }
    else s
  { t with signalBlocked := sigdelset t.signalBlocked signo }.calcSignalLeft.doSendSignal signo
    sender

/-! ## System calls -/

/-- What `SysSignal` and `SysSignalAction` do with a new action. -/
def installAction (s : SignalTask) (signal : Int) (sa : SignalAction) : SignalTask :=
  let t := s.setSignalAction signal sa
  if sa.handler = sigIgn ∨ sa.handler = sigDfl ∧
      (signal = sigcont ∨ signal = sigchld ∨ signal = sigwinch) then t.discard signal
  else t

/-- `SysSignal`. The flags of its action start as `garbage`, since it does not set them. -/
def sysSignal (s : SignalTask) (garbage : BitVec 32) (signal : Int) (handler : BitVec 32) :
    SignalTask × Int :=
  if signal < 1 ∨ signal ≥ maxSignalNr ∨ (handler ≠ 0 ∧ (signal = sigkill ∨ signal = sigstop)) then
    (s, -1)
  else if handler ≠ 0 then (s.installAction signal ⟨handler, garbage ||| saOneshot⟩, 0)
  else (s, 0)

/-- `SysSignalAction`, where `act` may be missing. -/
def sysSignalAction (s : SignalTask) (signal : Int) (act : Option SignalAction) :
    SignalTask × Int :=
  if signal < 1 ∨ signal ≥ maxSignalNr ∨ (act ≠ none ∧ (signal = sigkill ∨ signal = sigstop)) then
    (s, -1)
  else
    match act with
    | none => (s, 0)
    | some sa => (s.installAction signal sa, 0)

/-- `SysSignalProcessMask`, where `set` may be missing. -/
def sysSignalProcessMask (s : SignalTask) (how : Int) (set : Option (BitVec 32)) :
    SignalTask × Int :=
  if how = 1 then
    match set with
    | none => (s, 0)
    | some set => ({ s with
        signalBlocked := sigdelset (sigdelset (s.signalBlocked ||| set) sigkill) sigstop }, 0)
  else if how = 2 then
    match set with
    | none => (s, 0)
    | some set => ({ s with signalBlocked := s.signalBlocked &&& ~~~set }, 0)
  else if how = 3 then
    match set with
    | none => (s, 0)
    | some set => ({ s with signalBlocked := sigdelset (sigdelset set sigkill) sigstop }, 0)
  else (s, -1)

end SignalTask

/-! ## Frames -/

/-- `struct TrapFrame`. -/
structure TrapFrame where
  vecNo : BitVec 32
  edi : BitVec 32
  esi : BitVec 32
  ebp : BitVec 32
  espDummy : BitVec 32
  ebx : BitVec 32
  edx : BitVec 32
  ecx : BitVec 32
  eax : BitVec 32
  gs : BitVec 32
  fs : BitVec 32
  es : BitVec 32
  ds : BitVec 32
  errorCode : BitVec 32
  eip : BitVec 32
  cs : BitVec 32
  eflags : BitVec 32
  esp : BitVec 32
  ss : BitVec 32
  deriving DecidableEq

namespace TrapFrame

/-- The words of the frame in memory. -/
def words (f : TrapFrame) : List (BitVec 32) :=
  [f.vecNo, f.edi, f.esi, f.ebp, f.espDummy, f.ebx, f.edx, f.ecx, f.eax, f.gs, f.fs, f.es, f.ds,
    f.errorCode, f.eip, f.cs, f.eflags, f.esp, f.ss]

/-- The frame at an address. -/
def load (m : UserMemory) (a : BitVec 32) : TrapFrame :=
  { vecNo := m.loadWord a
    edi := m.loadWord (a + 4)
    esi := m.loadWord (a + 8)
    ebp := m.loadWord (a + 12)
    espDummy := m.loadWord (a + 16)
    ebx := m.loadWord (a + 20)
    edx := m.loadWord (a + 24)
    ecx := m.loadWord (a + 28)
    eax := m.loadWord (a + 32)
    gs := m.loadWord (a + 36)
    fs := m.loadWord (a + 40)
    es := m.loadWord (a + 44)
    ds := m.loadWord (a + 48)
    errorCode := m.loadWord (a + 52)
    eip := m.loadWord (a + 56)
    cs := m.loadWord (a + 60)
    eflags := m.loadWord (a + 64)
    esp := m.loadWord (a + 68)
    ss := m.loadWord (a + 72) }

end TrapFrame

/-- The frame with which a task returns to user mode, and its memory. -/
structure UserContext where
  frame : TrapFrame
  mem : UserMemory

def userCodeSel : BitVec 32 := 35
def userDataSel : BitVec 32 := 43
def userStackSel : BitVec 32 := userDataSel

/-- `SYS_SIGRET`. -/
def sysSigret : BitVec 32 := 36

/-- `sizeof(SignalFrame_t)`: the return address, the signal, the trap frame and the code. -/
def signalFrameSize : BitVec 32 := 92

/-- Where `BuildSignalFrame` puts the frame. -/
def signalFrameAt (esp : BitVec 32) : BitVec 32 := (esp - signalFrameSize) &&& ~~~7#32

/-- The stores of `BuildSignalFrame`. -/
def storeSignalFrame (m : UserMemory) (a : BitVec 32) (signo : BitVec 32) (frame : TrapFrame) :
    UserMemory :=
  let m := m.storeWord (a + 4) signo
  let m := m.storeWords (a + 8) frame.words
  let m := m.storeWord a (a + 84)
  let m := m.storeBytes (a + 84) [0xb8]
  let m := m.storeWord (a + 85) sysSigret
  m.storeBytes (a + 89) [0xcd, 0x80]

def buildSignalFrame (signo : Int) (sa : SignalAction) (u : UserContext) : UserContext :=
  let a := signalFrameAt u.frame.esp
  { mem := storeSignalFrame u.mem a (BitVec.ofInt 32 signo) u.frame
    frame := { u.frame with
      eip := sa.handler
      esp := a
      ds := userDataSel
      es := userDataSel
      fs := userDataSel
      gs := userDataSel
      ss := userStackSel
      cs := userCodeSel } }

namespace SignalTask

def handleSignal (s : SignalTask) (u : UserContext) (signo : Int) : SignalTask × UserContext :=
  let sa := s.action signo
  let v := buildSignalFrame signo sa u
  if sa.flags &&& saOneshot ≠ 0 then
    (s.setSignalAction signo { sa with handler := sigDfl }, v)
  else (s, v)

/-- `SysSignalReturn`, whose result goes to `eax`. -/
def sysSignalReturn (s : SignalTask) (u : UserContext) : SignalTask × UserContext :=
  let frame := TrapFrame.load u.mem (u.frame.esp - 4 + 8)
  ({ s with signalCatched := true }, { u with frame := { frame with eax := frame.eax } })

end SignalTask

/-! ## `DoSignal` -/

/-- What one round of the loop of `DoSignal` does. -/
inductive Delivery where
  /-- The signal is not pending, or it is blocked. -/
  | none
  | ignored
  | stopped
  | exited
  | handled
  deriving DecidableEq

namespace SignalTask

/-- The signal is pending and not blocked. -/
def deliverable (s : SignalTask) (sig : Int) : Bool :=
  s.signalPending &&& bit sig ≠ 0#32 && s.signalBlocked &&& bit sig = 0#32

/-- The signal is taken from the pending ones. -/
def takeSignal (s : SignalTask) (sig : Int) : SignalTask :=
  { s with
    signalPending := sigdelset s.signalPending sig
    sender := Function.update s.sender sig (-1) }.calcSignalLeft

/-- The default actions. -/
def defaultAction (s : SignalTask) (sig : Int) : SignalTask × Delivery :=
  if s.pid = 0 then (s, .ignored)
  else if sig = sigcont ∨ sig = sigchld ∨ sig = sigwinch ∨ sig = sigurg ∨ sig = sigusr1 ∨
      sig = sigusr2 then (s, .ignored)
  else if isStopSignal sig then ({ s with status := .stopped, exitStatus := sig }, .stopped)
  else ({ s with signalPending := sigaddset s.signalPending sig }.calcSignalLeft, .exited)

/-- One round of the loop of `DoSignal`, up to the `Schedule` of a task that stops or the `SysExit`
of one that ends. -/
def deliver (s : SignalTask) (u : UserContext) (sig : Int) :
    SignalTask × UserContext × Delivery :=
  if s.deliverable sig then
    let t := s.takeSignal sig
    let sa := t.action sig
    if sa.handler = sigIgn then (t, u, .ignored)
    else if sa.handler = sigDfl then ((t.defaultAction sig).1, u, (t.defaultAction sig).2)
    else ((t.handleSignal u sig).1, (t.handleSignal u sig).2, .handled)
  else (s, u, .none)

/-- The loop of `DoSignal` over the rest of the signals, and whether the task ends. What other tasks
do while this one is stopped comes between two rounds. -/
def doSignalFrom (s : SignalTask) (u : UserContext) : List Int → SignalTask × UserContext × Bool
  | [] => (s, u, false)
  | sig :: rest =>
      if s.signalLeft then
        let r := s.deliver u sig
        if r.2.2 = .exited then (r.1, r.2.1, true) else doSignalFrom r.1 r.2.1 rest
      else (s, u, false)

/-- The signals in the order of `DoSignal`. -/
def signals : List Int := (List.range' 1 31).map Int.ofNat

def doSignal (s : SignalTask) (u : UserContext) : SignalTask × UserContext × Bool :=
  if s.signalLeft then
    if u.frame.cs = userCodeSel then s.doSignalFrom u signals else (s, u, false)
  else (s, u, false)

end SignalTask

/-! ## Runs -/

/-- What happens to a task. -/
inductive SignalOp where
  | sendSignal (signo sender : Int)
  | forceSignal (signo sender : Int)
  | sysSignal (garbage : BitVec 32) (signal : Int) (handler : BitVec 32)
  | sysSignalAction (signal : Int) (act : Option SignalAction)
  | processMask (how : Int) (set : Option (BitVec 32))
  /-- A round of the loop of `DoSignal`. -/
  | deliver (sig : Int)
  | sysSignalReturn
  /-- The task has run in user mode and comes back with another frame and other memory. -/
  | user (u : UserContext)
  /-- The scheduler. -/
  | setStatus (status : Status)
  /-- The task is the child from here on. -/
  | fork (pid : Int)
  | exec

/-- The outcome of a step. -/
inductive Outcome where
  | returned (value : Int)
  | delivered (delivery : Delivery)
  deriving DecidableEq

/-- One step of a task and its user context. -/
def signalStep (s : SignalTask × UserContext) :
    SignalOp → Option ((SignalTask × UserContext) × Outcome)
  | .sendSignal signo sender =>
      let r := s.1.doSendSignal signo sender
      some ((r.1, s.2), .returned r.2)
  | .forceSignal signo sender =>
      let r := s.1.forceSignal signo sender
      some ((r.1, s.2), .returned r.2)
  | .sysSignal garbage signal handler =>
      let r := s.1.sysSignal garbage signal handler
      some ((r.1, s.2), .returned r.2)
  | .sysSignalAction signal act =>
      let r := s.1.sysSignalAction signal act
      some ((r.1, s.2), .returned r.2)
  | .processMask how set =>
      let r := s.1.sysSignalProcessMask how set
      some ((r.1, s.2), .returned r.2)
  | .deliver sig =>
      if s.1.signalLeft ∧ ¬ isBadSignal sig then
        let r := s.1.deliver s.2 sig
        some ((r.1, r.2.1), .delivered r.2.2)
      else none
  | .sysSignalReturn =>
      let r := s.1.sysSignalReturn s.2
      some (r, .returned r.2.frame.eax.toInt)
  | .user u => some ((s.1, u), .returned 0)
  | .setStatus status => some (({ s.1 with status }, s.2), .returned 0)
  | .fork pid => some (({ s.1 with pid, status := .ready }, s.2), .returned 0)
  | .exec => some ((s.1.initSignalInTask, s.2), .returned 0)

/-- The step with the given outcome. -/
def signalNext (s : SignalTask × UserContext) (l : SignalOp × Outcome) :
    Option (SignalTask × UserContext) :=
  (signalStep s l.1).bind fun r => if r.2 = l.2 then some r.1 else none

theorem signal_next_eq {s t : SignalTask × UserContext} {op : SignalOp} {outcome : Outcome}
    (h : signalNext s (op, outcome) = some t) : signalStep s op = some (t, outcome) := by
  obtain ⟨r, hr, hif⟩ := Option.bind_eq_some_iff.mp h
  split at hif
  · next heq =>
      cases hif
      exact hr.trans (congrArg (fun o => some (r.1, o)) heq)
  · cases hif

end XBook.Signal
