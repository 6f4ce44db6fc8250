import XBook.Drivers.Tty

/-!
# What the terminals keep

The invariants of the terminals in every run of their task and of the tasks that use them: the
queues stay empty but for the key that is being handled, each effect goes back to a call that has
made a task the holder of the terminal, and the key of a terminal is handed out once.
-/

namespace XBook.Terminals

open Consoles (maxConsoleNr Operation conCmdClean)
open Signal (sigint sigtstp sigcont sigttin sigttou)
open Keys (keycodeNone)
open Transition

variable {s t : State} {id : Fin maxConsoleNr}

/-! ## The keys of the terminal -/

/-- An effect on a console that shows no character. -/
def Effect.IsIoctl : Effect → Prop
  | .console (.ioctl _ _ _) => True
  | .console (.putc _ _) | .kill _ _ => False

/-- The consoles have been asked for something. -/
structure Asked (s t : State) : Prop where
  table : t.table = s.table
  point : t.point = s.point
  calls : t.calls = s.calls
  typed : t.typed = s.typed
  got : t.got = s.got
  effects : ∃ more, t.effects = s.effects ++ more ∧ ∀ e ∈ more, e.IsIoctl

theorem Asked.refl (s : State) : Asked s s :=
  ⟨rfl, rfl, rfl, rfl, rfl, [], (List.append_nil _).symm, fun _ he => absurd he List.not_mem_nil⟩

theorem asked_ioctl (s : State) (id : Fin maxConsoleNr) (cmd arg : Int32) :
    Asked s (s.conIoctl id cmd arg) := by
  refine ⟨rfl, rfl, rfl, rfl, rfl, [_], rfl, fun e he => ?_⟩
  rw [List.mem_singleton.mp he]
  exact trivial

theorem asked_select (s : State) (ttyID : Nat) : Asked s (s.selectTTY ttyID) := by
  rw [State.selectTTY]
  split
  · refine ⟨rfl, rfl, rfl, rfl, rfl, [_], rfl, fun e he => ?_⟩
    rw [List.mem_singleton.mp he]
    exact trivial
  · exact .refl s

theorem Asked.ite {p : Prop} [Decidable p] (h : Asked s t) : Asked s (if p then t else s) := by
  split
  · exact h
  · exact .refl s

/-- What is shown for a signal key. -/
def Echoed (ch : UInt32) : Prop := ch ∈ [0x5E, 0x43, 0x5C, 0x5A, 0x58, 0x0A]

instance : DecidablePred Echoed := fun _ => inferInstanceAs (Decidable (_ ∈ _))

/-- What a key does: it asks something of the consoles, it is put into the terminal, maybe as
another key, or a signal key goes on for a task that holds the terminal. -/
inductive Processed (s : State) (id : Fin maxConsoleNr) : State → Prop where
  | asked {u : State} : Asked s u → Processed s id u
  | put {s' u : State} (key : UInt32) : Asked s s' → s'.putKey id key = some u → Processed s id u
  | signal (ch : UInt32) (signal : Int) : 0 < (s.table id).holdPid → Echoed ch →
      signal ∈ [sigint, sigquit, sigtstp, sigcont] →
      Processed s id { s with point := .echo id [0x5E, ch, 0x0A] signal }

theorem put_key_some (id : Fin maxConsoleNr)
    (hroom : (s.table id).ioqueue.ioQueueFull = false) (key : UInt32) :
    ∃ t, s.putKey id key = some t := by
  rw [State.putKey, hroom]
  exact ⟨_, rfl⟩

/-- A key that is put into a queue with room. -/
theorem processed_put {s' : State} (hroom : (s.table id).ioqueue.ioQueueFull = false)
    (h : Asked s s') (key : UInt32) : ∃ t, s'.putKey id key = some t ∧ Processed s id t := by
  obtain ⟨t, ht⟩ := put_key_some (s := s') id (by rw [h.table]; exact hroom) key
  exact ⟨t, ht, .put key h ht⟩

theorem control_key_shown {ch : UInt8} {shown : UInt32} {signal : Int}
    (h : controlKey ch = some (shown, signal)) :
    Echoed shown ∧ signal ∈ [sigint, sigquit, sigtstp, sigcont] := by
  rw [controlKey] at h
  split at h
  · cases h
    decide
  split at h
  · cases h
    decide
  split at h
  · cases h
    decide
  split at h
  · cases h
    decide
  · cases h

theorem process_special (hroom : (s.table id).ioqueue.ioQueueFull = false) (key : UInt32) :
    ∃ t, s.processSpecial id key = some t ∧ Processed s id t := by
  rw [State.processSpecial]
  split
  · exact processed_put hroom (.refl s) _
  split
  · exact processed_put hroom (.refl s) _
  split
  · exact ⟨_, rfl, .asked (asked_select s 0).ite⟩
  split
  · exact ⟨_, rfl, .asked (asked_select s 1).ite⟩
  split
  · exact ⟨_, rfl, .asked (asked_select s 2).ite⟩
  split
  · -- There is no terminal 3.
    obtain ⟨t, ht, hput⟩ := processed_put hroom (.refl s) (Keys.f 4)
    have hnone : t.selectTTY 3 = t := dif_neg (Nat.lt_irrefl _)
    rw [ht, Option.map_some, hnone, ite_self]
    exact ⟨t, rfl, hput⟩
  split
  · exact ⟨_, rfl, .asked (asked_ioctl s id _ _)⟩
  split
  · exact processed_put hroom (asked_ioctl s id _ _).ite _
  split
  · exact processed_put hroom (asked_ioctl s id _ _).ite _
  split
  · exact processed_put hroom (.refl s) _
  · exact ⟨s, rfl, .asked (.refl s)⟩

/-- With room in its queue a terminal takes every key. -/
theorem process_key (hroom : (s.table id).ioqueue.ioQueueFull = false) (key : UInt32) :
    ∃ t, s.processKey id key = some t ∧ Processed s id t := by
  rw [State.processKey]
  split
  · split
    · cases hsignal : controlKey key.toUInt8 with
      | none => exact ⟨s, rfl, .asked (.refl s)⟩
      | some shown =>
          dsimp only
          split
          · next hpid =>
              obtain ⟨hshown, hmem⟩ := control_key_shown hsignal
              exact ⟨_, rfl, .signal _ _ hpid hshown hmem⟩
          · exact ⟨s, rfl, .asked (.refl s)⟩
    · exact processed_put hroom (.refl s) _
  · exact process_special hroom key

/-! ## The queues -/

/-- The queues are empty but for the key of the terminal that `TTY_DoWrite` comes to. -/
structure QueueInv (s : State) : Prop where
  buflen : ∀ id, (s.table id).ioqueue.buflen = iqBufLen8
  factor : ∀ id, (s.table id).ioqueue.factor = iqFactor8
  empty : ∀ id, s.point ≠ .doWrite id → (s.table id).ioqueue.size = 0
  one : ∀ id, (s.table id).ioqueue.size ≤ 1

theorem put_size (q : IoQueue) (data : Nat) :
    (q.ioQueuePut data).size = q.size + 1 ∧ (q.ioQueuePut data).buflen = q.buflen ∧
      (q.ioQueuePut data).factor = q.factor := by
  have hput := put_bytes_state q.copied q data
  rw [IoQueue.ioQueuePut]
  dsimp only
  rw [hput]
  split
  · exact ⟨rfl, rfl, rfl⟩
  · exact ⟨rfl, rfl, rfl⟩

theorem get_size (q : IoQueue) (stack : Nat) :
    (q.ioQueueGet stack).1.size = q.size - 1 ∧ (q.ioQueueGet stack).1.buflen = q.buflen ∧
      (q.ioQueueGet stack).1.factor = q.factor := by
  rw [IoQueue.ioQueueGet]
  dsimp only
  rw [get_bytes_spec]
  split
  · exact ⟨rfl, rfl, rfl⟩
  · exact ⟨rfl, rfl, rfl⟩

/-- A step that leaves the queues, and the task of the terminals where it is. -/
structure SameQueues (s t : State) : Prop where
  ioqueue : ∀ id, (t.table id).ioqueue = (s.table id).ioqueue
  point : t.point = s.point

theorem QueueInv.same (h : QueueInv s) (hsame : SameQueues s t) : QueueInv t := by
  refine ⟨fun id => ?_, fun id => ?_, fun id hid => ?_, fun id => ?_⟩
  · rw [hsame.ioqueue]
    exact h.buflen id
  · rw [hsame.ioqueue]
    exact h.factor id
  · rw [hsame.ioqueue]
    exact h.empty id (by rwa [← hsame.point])
  · rw [hsame.ioqueue]
    exact h.one id

theorem QueueInv.room (h : QueueInv s) (id : Fin maxConsoleNr) :
    (s.table id).ioqueue.ioQueueFull = false := by
  have hone := h.one id
  rw [IoQueue.ioQueueFull, h.buflen, h.factor, decide_eq_false_iff_not]
  exact Nat.ne_of_lt (Nat.lt_of_le_of_lt hone (by decide))

/-- What holds of all terminals when one of them is another. -/
theorem set_tty_all {p : Fin maxConsoleNr → Tty → Prop} {tty : Tty} (htty : p id tty)
    (h : ∀ j, j ≠ id → p j (s.table j)) (j : Fin maxConsoleNr) : p j ((s.setTty id tty).table j) :=
  (Function.forall_update_iff s.table p).mpr ⟨htty, h⟩ j

/-- A terminal with the same queue. -/
theorem same_set (s : State) {tty : Tty} (h : tty.ioqueue = (s.table id).ioqueue) :
    SameQueues s (s.setTty id tty) :=
  ⟨set_tty_all (p := fun j tty => tty.ioqueue = (s.table j).ioqueue) h fun _ _ => rfl, rfl⟩

/-- One terminal has another queue of the same kind, and the others have no key. -/
theorem QueueInv.set_tty (h : QueueInv s) {tty : Tty}
    (hbuflen : tty.ioqueue.buflen = (s.table id).ioqueue.buflen)
    (hfactor : tty.ioqueue.factor = (s.table id).ioqueue.factor)
    (hempty : t.point ≠ .doWrite id → tty.ioqueue.size = 0) (hone : tty.ioqueue.size ≤ 1)
    (hothers : ∀ j, j ≠ id → (s.table j).ioqueue.size = 0)
    (htable : t.table = (s.setTty id tty).table) : QueueInv t := by
  constructor <;> rw [htable]
  case buflen =>
    exact set_tty_all (p := fun _ tty => tty.ioqueue.buflen = iqBufLen8)
      (hbuflen.trans (h.buflen id)) fun j _ => h.buflen j
  case factor =>
    exact set_tty_all (p := fun _ tty => tty.ioqueue.factor = iqFactor8)
      (hfactor.trans (h.factor id)) fun j _ => h.factor j
  case empty =>
    exact set_tty_all (p := fun j tty => t.point ≠ .doWrite j → tty.ioqueue.size = 0) hempty
      fun j hj _ => hothers j hj
  case one =>
    exact set_tty_all (p := fun _ tty => tty.ioqueue.size ≤ 1) hone fun j _ => h.one j

theorem SameQueues.refl (s : State) : SameQueues s s := ⟨fun _ => rfl, rfl⟩

/-- A task in its call leaves the queues alone. -/
theorem call_next_same {pid : Int32} (h : s.callNext pid = some t) : SameQueues s t := by
  rw [State.callNext] at h
  split at h
  · cases h
  · next id key _ =>
      have hset : SameQueues s (s.setTty id { s.table id with key := keycodeNone }) :=
        same_set s rfl
      cases h
      split
      · exact ⟨hset.ioqueue, rfl⟩
      · exact ⟨hset.ioqueue, rfl⟩
  · cases h
    exact ⟨fun _ => rfl, rfl⟩
  · cases h
    exact ⟨fun _ => rfl, rfl⟩

theorem call_some {pid : Int32} {u : State} (h : s.call pid u = some t) :
    s.calls pid = none ∧ t = u := by
  rw [State.call] at h
  split at h
  · next hnone => exact ⟨hnone, (Option.some.inj h).symm⟩
  · cases h

/-- A new call leaves the queues alone. -/
theorem ioctl_same (s : State) (id : Fin maxConsoleNr) (cmd arg : Int32) :
    SameQueues s (s.ttyIoctl id cmd arg) := by
  rw [State.ttyIoctl]
  split
  · exact ⟨fun _ => rfl, rfl⟩
  split
  · exact same_set s rfl
  · exact .refl s

theorem getc_same (s : State) (pid : Int32) (id : Fin maxConsoleNr) :
    SameQueues s (s.ttyGetc pid id) := by
  rw [State.ttyGetc]
  split
  · split
    · exact ⟨fun _ => rfl, rfl⟩
    · exact ⟨fun _ => rfl, rfl⟩
  · exact .refl s

theorem putc_same (s : State) (pid : Int32) (id : Fin maxConsoleNr) (ch : UInt32) :
    SameQueues s (s.ttyPutc pid id ch) := by
  rw [State.ttyPutc]
  split
  · exact ⟨fun _ => rfl, rfl⟩
  · exact ⟨fun _ => rfl, rfl⟩

theorem write_same (s : State) (pid : Int32) (id : Fin maxConsoleNr) (buf : List UInt32) :
    SameQueues s (s.ttyWrite pid id buf) := by
  rw [State.ttyWrite]
  split
  · exact ⟨fun _ => rfl, rfl⟩
  · exact ⟨fun _ => rfl, rfl⟩

/-- With all queues empty the task handles a key. -/
theorem QueueInv.processed (h : QueueInv s) (hempty : ∀ j, (s.table j).ioqueue.size = 0)
    (hpoint : s.point = .doWrite id) (hp : Processed s id t) : QueueInv t := by
  cases hp with
  | asked hasked =>
      exact h.same ⟨fun j => by rw [hasked.table], hasked.point⟩
  | signal ch signal =>
      exact ⟨h.buflen, h.factor, fun j _ => hempty j, h.one⟩
  | put key hasked hput =>
      rename_i s'
      have hs' : QueueInv s' := h.same ⟨fun j => by rw [hasked.table], hasked.point⟩
      have hthere : ∀ j, (s'.table j).ioqueue.size = 0 := by
        rw [hasked.table]
        exact hempty
      rw [State.putKey] at hput
      split at hput
      · cases hput
      · cases hput
        obtain ⟨hsize, hbuflen, hfactor⟩ := put_size (s'.table id).ioqueue key.toNat
        rw [hthere] at hsize
        refine hs'.set_tty hbuflen hfactor (fun hpoint' => ?_) (Nat.le_of_eq hsize)
          (fun j _ => hthere j) rfl
        exact absurd (hasked.point.trans hpoint) hpoint'

/-- The task goes on from every point. -/
theorem QueueInv.tty_next (h : QueueInv s) (key : UInt32) :
    ∃ t, s.ttyNext key = some t ∧ QueueInv t := by
  rw [State.ttyNext]
  split
  · next id hpoint =>
      have hempty : ∀ j, (s.table j).ioqueue.size = 0 := fun j =>
        h.empty j (by rw [hpoint]; exact TtyPoint.noConfusion)
      have hs : QueueInv { s with point := .doWrite id } :=
        ⟨h.buflen, h.factor, fun j _ => hempty j, h.one⟩
      rw [State.doRead]
      split
      · obtain ⟨t, ht, hprocessed⟩ := process_key (hs.room id) key
        exact ⟨t, ht, hs.processed hempty rfl hprocessed⟩
      · exact ⟨_, rfl, hs⟩
  · next id ch chars signal hpoint =>
      refine ⟨_, rfl, h.buflen, h.factor, fun j _ => h.empty j ?_, h.one⟩
      rw [hpoint]
      exact TtyPoint.noConfusion
  · next id signal hpoint =>
      refine ⟨_, rfl, h.buflen, h.factor, fun j _ => h.empty j ?_, h.one⟩
      rw [hpoint]
      exact TtyPoint.noConfusion
  · next id hpoint =>
      have hothers : ∀ j, j ≠ id → (s.table j).ioqueue.size = 0 := by
        intro j hj
        refine h.empty j ?_
        rw [hpoint]
        intro heq
        cases heq
        exact hj rfl
      refine ⟨_, rfl, ?_⟩
      rw [State.doWrite]
      split
      · next hnone =>
          have hzero : (s.table id).ioqueue.size = 0 := of_decide_eq_true hnone
          refine ⟨h.buflen, h.factor, fun j _ => ?_, h.one⟩
          by_cases hj : j = id
          · rw [hj]
            exact hzero
          · exact hothers j hj
      · obtain ⟨hsize, hbuflen, hfactor⟩ := get_size (s.table id).ioqueue 0
        have hone := h.one id
        have hnone : ((s.table id).ioqueue.ioQueueGet 0).1.size = 0 := by omega
        exact h.set_tty hbuflen hfactor (fun _ => hnone) (hnone.trans_le (Nat.zero_le 1)) hothers
          rfl

theorem QueueInv.step (h : QueueInv s) {label : Label} (hstep : ttyStep s label = some t) :
    QueueInv t := by
  cases label with
  | tty key =>
      obtain ⟨u, hu, hinv⟩ := h.tty_next key
      cases hu.symm.trans hstep
      exact hinv
  | goes pid => exact h.same (call_next_same hstep)
  | getc pid id =>
      obtain ⟨-, rfl⟩ := call_some hstep
      exact h.same (getc_same s pid id)
  | putc pid id ch =>
      obtain ⟨-, rfl⟩ := call_some hstep
      exact h.same (putc_same s pid id ch)
  | write pid id buf =>
      obtain ⟨-, rfl⟩ := call_some hstep
      exact h.same (write_same s pid id buf)
  | ioctl pid id cmd arg =>
      obtain ⟨-, rfl⟩ := call_some hstep
      exact h.same (ioctl_same s id cmd arg)

theorem init_queues (buf : Fin maxConsoleNr → Nat → Nat) : QueueInv (State.init buf) :=
  ⟨fun _ => rfl, fun _ => rfl, fun _ _ => rfl, fun _ => Nat.zero_le 1⟩

/-- The task of the terminals never waits for one of its queues, whatever the others do. -/
theorem tty_task_goes_on (buf : Fin maxConsoleNr → Nat → Nat) (labels : List Label) (s : State)
    (hrun : Run (stepOf ttyStep) anyLabel (State.init buf) labels s) :
    (∀ key, ∃ t, ttyStep s (.tty key) = some t) ∧ ∀ id, (s.table id).ioqueue.size ≤ 1 := by
  have hinv : QueueInv s :=
    hrun.invariant (fun _ _ _ hs _ hnext => QueueInv.step hs hnext) (init_queues buf)
  refine ⟨fun key => ?_, hinv.one⟩
  obtain ⟨t, ht, -⟩ := hinv.tty_next key
  exact ⟨t, ht⟩

/-- A key is typed and its queue emptied. -/
theorem tty_task_goes_on_typed : ∃ s, (∀ key, ∃ t, ttyStep s (.tty key) = some t) ∧
    ∀ id, (s.table id).ioqueue.size ≤ 1 := by
  obtain ⟨s, hs⟩ : ∃ s, ttyStep (State.init fun _ _ => 0) (.tty 0x61) = some s := ⟨_, rfl⟩
  exact ⟨s, tty_task_goes_on (fun _ _ => 0) [.tty 0x61] s (.cons trivial hs (.nil s))⟩

/-! ## The holders -/

/-- The task has been made the holder of the terminal. -/
def Held (labels : List Label) (id : Fin maxConsoleNr) (pid : Int32) : Prop :=
  ∃ caller, Label.ioctl caller id ttyCmdHold pid ∈ labels

/-- The task is the idle task or has been made the holder of the terminal, and it has asked for this
character to be written there. -/
def Written (labels : List Label) (id : Fin maxConsoleNr) (ch : UInt32) : Prop :=
  ∃ pid, (pid = 0 ∨ Held labels id pid) ∧
    (.putc pid id ch ∈ labels ∨ ∃ buf, .write pid id buf ∈ labels ∧ ch ∈ buf)

/-- A character that a console shows was written by a holder of its terminal, or is shown for a
signal key where there is one. A signal goes to a holder of a terminal, or to the task that has
called the terminal. -/
def EffectAllowed (labels : List Label) : Effect → Prop
  | .console (.putc id ch) => Written labels id ch ∨ Echoed ch ∧ ∃ pid, Held labels id pid
  | .console (.ioctl _ _ _) => True
  | .kill pid signal =>
      signal ∈ [sigint, sigquit, sigtstp, sigcont] ∧ (∃ id, Held labels id pid) ∨
        signal = sigttin ∧ (∃ id, .getc pid id ∈ labels) ∨
        signal = sigttou ∧
          ∃ id, (∃ ch, .putc pid id ch ∈ labels) ∨ ∃ buf, .write pid id buf ∈ labels

/-- The effects so far are allowed by the calls of the run, and those that are under way will be. -/
structure HolderInv (labels : List Label) (s : State) : Prop where
  effects : ∀ e ∈ s.effects, EffectAllowed labels e
  holder : ∀ id, (s.table id).holdPid = 0 ∨ Held labels id (s.table id).holdPid
  echo : ∀ id chars signal, s.point = .echo id chars signal →
    Held labels id (s.table id).holdPid ∧ (∀ ch ∈ chars, Echoed ch) ∧
      signal ∈ [sigint, sigquit, sigtstp, sigcont]
  write : ∀ pid id chars, s.calls pid = some (.write id chars) →
    ∀ ch ∈ chars, Written labels id ch

variable {labels : List Label}

theorem HolderInv.emit (h : HolderInv labels s) {e : Effect} (he : EffectAllowed labels e) :
    HolderInv labels (s.emit e) := by
  refine ⟨fun e' hmem => ?_, h.holder, h.echo, h.write⟩
  obtain hold | hnew := List.mem_append.mp hmem
  · exact h.effects e' hold
  · rw [List.mem_singleton.mp hnew]
    exact he

/-- The task of the terminals at another point, which is not one of a signal key. -/
theorem HolderInv.set_point (h : HolderInv labels s) {point : TtyPoint}
    (hpoint : ∀ id chars signal, point ≠ .echo id chars signal) :
    HolderInv labels { s with point := point } :=
  ⟨h.effects, h.holder, fun id chars signal heq => absurd heq (hpoint id chars signal), h.write⟩

/-- A terminal with the same holder. -/
theorem HolderInv.set_tty (h : HolderInv labels s) {tty : Tty}
    (hpid : tty.holdPid = (s.table id).holdPid) : HolderInv labels (s.setTty id tty) := by
  have hsame : ∀ j, ((s.setTty id tty).table j).holdPid = (s.table j).holdPid :=
    set_tty_all (p := fun j tty => tty.holdPid = (s.table j).holdPid) hpid fun _ _ => rfl
  refine ⟨h.effects, fun j => ?_, fun j chars signal heq => ?_, h.write⟩
  · rw [hsame]
    exact h.holder j
  · rw [hsame]
    exact h.echo j chars signal heq

theorem HolderInv.set_call (h : HolderInv labels s) {pid : Int32} {call : Option TtyCall}
    (hcall : ∀ id chars, call = some (.write id chars) → ∀ ch ∈ chars, Written labels id ch) :
    HolderInv labels (s.setCall pid call) := by
  refine ⟨h.effects, h.holder, h.echo, fun q id chars heq => ?_⟩
  have heq : Function.update s.calls pid call q = some (.write id chars) := heq
  by_cases hq : q = pid
  · rw [hq, Function.update_self] at heq
    exact hcall id chars heq
  · rw [Function.update_of_ne hq] at heq
    exact h.write q id chars heq

theorem HolderInv.asked (h : HolderInv labels s) (hasked : Asked s t) : HolderInv labels t := by
  obtain ⟨more, hmore, hioctl⟩ := hasked.effects
  refine ⟨fun e he => ?_, fun id => ?_, fun id chars signal heq => ?_, fun pid id chars heq => ?_⟩
  · rw [hmore] at he
    obtain hold | hnew := List.mem_append.mp he
    · exact h.effects e hold
    · have hkind := hioctl e hnew
      cases e with
      | kill pid signal => cases hkind
      | console op =>
          cases op with
          | putc id ch => cases hkind
          | ioctl id cmd arg => exact trivial
  · rw [hasked.table]
    exact h.holder id
  · rw [hasked.table]
    exact h.echo id chars signal (by rwa [← hasked.point])
  · exact h.write pid id chars (by rwa [← hasked.calls])

/-- A key that the task handles. -/
theorem HolderInv.processed (h : HolderInv labels s) (hp : Processed s id t) :
    HolderInv labels t := by
  cases hp with
  | asked hasked => exact h.asked hasked
  | put key hasked hput =>
      rename_i s'
      have hs' := h.asked hasked
      rw [State.putKey] at hput
      split at hput
      · cases hput
      · cases hput
        have hset : HolderInv labels (s'.setTty id { s'.table id with
            ioqueue := (s'.table id).ioqueue.ioQueuePut key.toNat, key := key }) :=
          hs'.set_tty rfl
        exact ⟨hset.effects, hset.holder, hset.echo, hset.write⟩
  | signal ch signal hpid hch hsignal =>
      refine ⟨h.effects, h.holder, fun j chars signal' heq => ?_, h.write⟩
      cases heq
      refine ⟨(h.holder id).resolve_left ?_, ?_, hsignal⟩
      · intro hzero
        rw [hzero] at hpid
        exact absurd hpid (by decide)
      · intro c hc
        simp only [List.mem_cons, List.not_mem_nil, or_false] at hc
        obtain rfl | rfl | rfl := hc
        · decide
        · exact hch
        · decide

theorem HolderInv.tty_next (h : HolderInv labels s) (hroom : ∀ id,
    (s.table id).ioqueue.ioQueueFull = false) {key : UInt32} (hstep : s.ttyNext key = some t) :
    HolderInv labels t := by
  rw [State.ttyNext] at hstep
  split at hstep
  · next id hpoint =>
      have hs : HolderInv labels { s with point := .doWrite id } :=
        h.set_point fun _ _ _ => TtyPoint.noConfusion
      rw [State.doRead] at hstep
      split at hstep
      · obtain ⟨u, hu, hprocessed⟩ := process_key
          (s := { s with point := .doWrite id }) (hroom id) key
        cases hu.symm.trans hstep
        exact hs.processed hprocessed
      · cases hstep
        exact hs
  · next id ch chars signal hpoint =>
      cases hstep
      obtain ⟨hheld, hchars, hsignal⟩ := h.echo id _ signal hpoint
      have hemit := h.emit (e := .console (.putc id ch))
        (.inr ⟨hchars ch List.mem_cons_self, _, hheld⟩)
      refine ⟨hemit.effects, h.holder, fun j chars' signal' heq => ?_, h.write⟩
      cases heq
      exact ⟨hheld, fun c hc => hchars c (List.mem_cons_of_mem _ hc), hsignal⟩
  · next id signal hpoint =>
      cases hstep
      obtain ⟨hheld, -, hsignal⟩ := h.echo id _ signal hpoint
      have hemit := h.emit (e := .kill (s.table id).holdPid signal) (.inl ⟨hsignal, id, hheld⟩)
      exact hemit.set_point fun _ _ _ => TtyPoint.noConfusion
  · next id hpoint =>
      cases hstep
      have hs : HolderInv labels { s with point := .doRead (id + 1) } :=
        h.set_point fun _ _ _ => TtyPoint.noConfusion
      rw [State.doWrite]
      split
      · exact hs
      · exact hs.set_tty rfl

theorem HolderInv.call_next (h : HolderInv labels s) {pid : Int32}
    (hstep : s.callNext pid = some t) : HolderInv labels t := by
  rw [State.callNext] at hstep
  split at hstep
  · cases hstep
  · next id key _ =>
      have hcleared : HolderInv labels (s.setTty id { s.table id with key := keycodeNone }) :=
        h.set_tty rfl
      have hset : HolderInv labels ((s.setTty id { s.table id with key := keycodeNone }).setCall
          pid none) := by
        refine hcleared.set_call fun _ _ heq => ?_
        cases heq
      cases hstep
      split
      · exact hset
      · exact ⟨hset.effects, hset.holder, hset.echo, hset.write⟩
  · cases hstep
    refine h.set_call fun _ _ heq => ?_
    cases heq
  · next id ch chars hcall =>
      cases hstep
      have hwritten := h.write pid id _ hcall
      have hemit := h.emit (e := .console (.putc id ch))
        (.inl (hwritten ch List.mem_cons_self))
      refine hemit.set_call fun j chars' heq c hc => ?_
      cases heq
      exact hwritten c (List.mem_cons_of_mem _ hc)

/-- Who may write is the idle task or a holder. -/
theorem HolderInv.may_write (h : HolderInv labels s) {pid : Int32} (hmay : s.MayWrite pid id) :
    pid = 0 ∨ Held labels id pid := by
  obtain hpid | hzero := hmay
  · rw [← hpid]
    exact h.holder id
  · exact .inl hzero

/-- A call that is among those of the run keeps the invariant. -/
theorem HolderInv.step (h : HolderInv labels s) (hqueues : QueueInv s) {label : Label}
    (hlabel : label ∈ labels) (hstep : ttyStep s label = some t) : HolderInv labels t := by
  cases label with
  | tty key => exact h.tty_next hqueues.room hstep
  | goes pid => exact h.call_next hstep
  | getc pid id =>
      obtain ⟨-, rfl⟩ := call_some hstep
      rw [State.ttyGetc]
      split
      · split
        · refine h.set_call fun _ _ heq => ?_
          cases heq
        · exact h.emit (.inr (.inl ⟨rfl, id, hlabel⟩))
      · exact h
  | putc pid id ch =>
      obtain ⟨-, rfl⟩ := call_some hstep
      rw [State.ttyPutc]
      split
      · next hmay => exact h.emit (.inl ⟨pid, h.may_write hmay, .inl hlabel⟩)
      · exact h.emit (.inr (.inr ⟨rfl, id, .inl ⟨ch, hlabel⟩⟩))
  | write pid id buf =>
      obtain ⟨-, rfl⟩ := call_some hstep
      rw [State.ttyWrite]
      split
      · next hmay =>
          refine h.set_call fun j chars heq ch hch => ?_
          cases heq
          exact ⟨pid, h.may_write hmay, .inr ⟨buf, hlabel, hch⟩⟩
      · exact h.emit (.inr (.inr ⟨rfl, id, .inr ⟨buf, hlabel⟩⟩))
  | ioctl pid id cmd arg =>
      obtain ⟨-, rfl⟩ := call_some hstep
      rw [State.ttyIoctl]
      split
      · exact h.emit (e := .console (.ioctl id conCmdClean 0)) trivial
      split
      · next hhold =>
          rw [hhold] at hlabel
          -- The terminal has a new holder, which a call of the run has named.
          refine ⟨h.effects, ?_, fun j chars signal heq => ?_, h.write⟩
          · exact set_tty_all (p := fun j tty => tty.holdPid = 0 ∨ Held labels j tty.holdPid)
              (.inr ⟨pid, hlabel⟩) fun j _ => h.holder j
          · obtain ⟨hheld, hrest⟩ := h.echo j chars signal heq
            exact ⟨set_tty_all (p := fun j tty => Held labels j (s.table j).holdPid →
              Held labels j tty.holdPid) (fun _ => ⟨pid, hlabel⟩) (fun _ _ hold => hold) j hheld,
              hrest⟩
      · exact h

/-- The labels of a run are labels of it. -/
theorem run_of_labels {next : State → Label → Option State} {s t : State} {labels : List Label}
    (h : Run (stepOf next) anyLabel s labels t) :
    Run (stepOf next) (fun _ label => label ∈ labels) s labels t := by
  induction h with
  | nil s => exact .nil s
  | cons _ hnext _ ih =>
      refine .cons List.mem_cons_self hnext (ih.mono fun _ label hmem => ?_)
      exact List.mem_cons_of_mem _ hmem

theorem init_holders (labels : List Label) (buf : Fin maxConsoleNr → Nat → Nat) :
    HolderInv labels (State.init buf) :=
  ⟨fun _ he => absurd he List.not_mem_nil, fun _ => .inl rfl,
    fun _ _ _ heq => TtyPoint.noConfusion heq, fun _ _ _ heq => by cases heq⟩

/-- The key, unless there is none. -/
def word (key : UInt32) : List UInt32 := if key = keycodeNone then [] else [key]

theorem word_none : word keycodeNone = [] := if_pos rfl

/-- Nobody is made the holder of a terminal while a task has its key and is about to clear it. -/
def HoldWaits (s : State) : Label → Prop
  | .ioctl _ id cmd _ => cmd = ttyCmdHold → ∀ pid key, s.calls pid ≠ some (.getc id key)
  | .tty _ | .goes _ | .getc _ _ | .putc _ _ _ | .write _ _ _ => True

/-- What was read of a terminal, and the key that is there or that a task has, were typed in this
order. A task that has a key is the holder. -/
structure KeysInv (s : State) : Prop where
  holder : ∀ pid id key, s.calls pid = some (.getc id key) → (s.table id).holdPid = pid
  taken : ∀ pid id key, s.calls pid = some (.getc id key) →
    List.Sublist (s.got id ++ word key) (s.typed id)
  there : ∀ id, (∀ pid key, s.calls pid ≠ some (.getc id key)) →
    List.Sublist (s.got id ++ word (s.table id).key) (s.typed id)

theorem KeysInv.got (h : KeysInv s) (id : Fin maxConsoleNr) :
    List.Sublist (s.got id) (s.typed id) := by
  by_cases hcall : ∀ pid key, s.calls pid ≠ some (.getc id key)
  · exact (List.sublist_append_left _ _).trans (h.there id hcall)
  · push Not at hcall
    obtain ⟨pid, key, hcall⟩ := hcall
    exact (List.sublist_append_left _ _).trans (h.taken pid id key hcall)

/-- A step that leaves the keys, the holders, and the tasks that have a key. -/
structure SameKeys (s t : State) : Prop where
  key : ∀ id, (t.table id).key = (s.table id).key
  holdPid : ∀ id, (t.table id).holdPid = (s.table id).holdPid
  calls : ∀ pid id key, t.calls pid = some (.getc id key) ↔ s.calls pid = some (.getc id key)
  typed : t.typed = s.typed
  got : t.got = s.got

theorem SameKeys.refl (s : State) : SameKeys s s :=
  ⟨fun _ => rfl, fun _ => rfl, fun _ _ _ => Iff.rfl, rfl, rfl⟩

theorem KeysInv.same (h : KeysInv s) (hsame : SameKeys s t) : KeysInv t := by
  refine ⟨fun pid id key hcall => ?_, fun pid id key hcall => ?_, fun id hnone => ?_⟩
  · rw [hsame.holdPid]
    exact h.holder pid id key ((hsame.calls pid id key).mp hcall)
  · rw [hsame.got, hsame.typed]
    exact h.taken pid id key ((hsame.calls pid id key).mp hcall)
  · rw [hsame.got, hsame.typed, hsame.key]
    exact h.there id fun pid key hcall => hnone pid key ((hsame.calls pid id key).mpr hcall)

theorem Asked.same_keys (h : Asked s t) : SameKeys s t := by
  refine ⟨fun id => ?_, fun id => ?_, fun pid id key => ?_, h.typed, h.got⟩
  · rw [h.table]
  · rw [h.table]
  · rw [h.calls]

/-- A terminal with the same key and holder. -/
theorem same_keys_set (s : State) {tty : Tty} (hkey : tty.key = (s.table id).key)
    (hpid : tty.holdPid = (s.table id).holdPid) : SameKeys s (s.setTty id tty) := by
  exact ⟨set_tty_all (p := fun j tty => tty.key = (s.table j).key) hkey fun _ _ => rfl,
    set_tty_all (p := fun j tty => tty.holdPid = (s.table j).holdPid) hpid fun _ _ => rfl,
    fun _ _ _ => Iff.rfl, rfl, rfl⟩

/-- A task that was not and is not in `TTY_Getc`. -/
theorem same_keys_call (s : State) {pid : Int32} {call : Option TtyCall}
    (hold : ∀ id key, s.calls pid ≠ some (.getc id key))
    (hnew : ∀ id key, call ≠ some (.getc id key)) : SameKeys s (s.setCall pid call) := by
  refine ⟨fun _ => rfl, fun _ => rfl, fun q id key => ?_, rfl, rfl⟩
  show Function.update s.calls pid call q = _ ↔ _
  by_cases hq : q = pid
  · rw [hq, Function.update_self]
    exact iff_of_false (hnew id key) (hold id key)
  · rw [Function.update_of_ne hq]

/-- A key that is put is the last one typed. -/
theorem KeysInv.put (h : KeysInv s) {key : UInt32} (hput : s.putKey id key = some t) :
    KeysInv t := by
  rw [State.putKey] at hput
  split at hput
  · cases hput
  · cases hput
    have htyped : ∀ j, List.Sublist (s.typed j)
        (Function.update s.typed id (s.typed id ++ [key]) j) := by
      intro j
      by_cases hj : j = id
      · rw [hj, Function.update_self]
        exact List.sublist_append_left _ _
      · rw [Function.update_of_ne hj]
    refine ⟨fun pid j k hcall => ?_, fun pid j k hcall => ?_, fun j hnone => ?_⟩
    · show (Function.update s.table id _ j).holdPid = pid
      by_cases hj : j = id
      · rw [hj, Function.update_self]
        exact h.holder pid id k (hj ▸ hcall)
      · rw [Function.update_of_ne hj]
        exact h.holder pid j k hcall
    · exact (h.taken pid j k hcall).trans (htyped j)
    · show List.Sublist (s.got j ++ word (Function.update s.table id _ j).key)
        (Function.update s.typed id _ j)
      by_cases hj : j = id
      · rw [hj, Function.update_self, Function.update_self]
        refine (h.got id).append ?_
        rw [word]
        split
        · exact List.nil_sublist _
        · exact .refl _
      · rw [Function.update_of_ne hj, Function.update_of_ne hj]
        exact h.there j hnone

theorem KeysInv.processed (h : KeysInv s) (hp : Processed s id t) : KeysInv t := by
  cases hp with
  | asked hasked => exact h.same hasked.same_keys
  | put key hasked hput => exact (h.same hasked.same_keys).put hput
  | signal ch signal =>
      exact h.same ⟨fun _ => rfl, fun _ => rfl, fun _ _ _ => Iff.rfl, rfl, rfl⟩

theorem KeysInv.tty_next (h : KeysInv s) (hroom : ∀ id,
    (s.table id).ioqueue.ioQueueFull = false) {key : UInt32} (hstep : s.ttyNext key = some t) :
    KeysInv t := by
  have hpoint : ∀ point, SameKeys s { s with point := point } := fun _ =>
    ⟨fun _ => rfl, fun _ => rfl, fun _ _ _ => Iff.rfl, rfl, rfl⟩
  rw [State.ttyNext] at hstep
  split at hstep
  · next id _ =>
      have hs := h.same (hpoint (.doWrite id))
      rw [State.doRead] at hstep
      split at hstep
      · obtain ⟨u, hu, hprocessed⟩ := process_key
          (s := { s with point := .doWrite id }) (hroom id) key
        cases hu.symm.trans hstep
        exact hs.processed hprocessed
      · cases hstep
        exact hs
  · cases hstep
    exact h.same ⟨fun _ => rfl, fun _ => rfl, fun _ _ _ => Iff.rfl, rfl, rfl⟩
  · cases hstep
    exact h.same ⟨fun _ => rfl, fun _ => rfl, fun _ _ _ => Iff.rfl, rfl, rfl⟩
  · next id _ =>
      cases hstep
      have hs := h.same (hpoint (.doRead (id + 1)))
      rw [State.doWrite]
      split
      · exact hs
      · exact hs.same (same_keys_set _ rfl rfl)

/-- The holder has the key of the terminal, and nobody else does. -/
theorem KeysInv.get (h : KeysInv s) {pid : Int32} (hnone : s.calls pid = none)
    (hpid : (s.table id).holdPid = pid) :
    KeysInv (s.setCall pid (some (.getc id (s.table id).key))) := by
  have hcalls : ∀ q j k, Function.update s.calls pid (some (.getc id (s.table id).key)) q =
      some (.getc j k) → q = pid ∧ j = id ∧ k = (s.table id).key ∨
        q ≠ pid ∧ s.calls q = some (.getc j k) := by
    intro q j k hcall
    by_cases hq : q = pid
    · rw [hq, Function.update_self] at hcall
      cases hcall
      exact .inl ⟨hq, rfl, rfl⟩
    · rw [Function.update_of_ne hq] at hcall
      exact .inr ⟨hq, hcall⟩
  have hfree : ∀ q k, s.calls q ≠ some (.getc id k) := by
    intro q k hcall
    have hq := h.holder q id k hcall
    rw [← hq, hpid, hnone] at hcall
    cases hcall
  refine ⟨fun q j k hcall => ?_, fun q j k hcall => ?_, fun j hj => ?_⟩
  · obtain ⟨rfl, rfl, -⟩ | ⟨-, hold⟩ := hcalls q j k hcall
    · exact hpid
    · exact h.holder q j k hold
  · obtain ⟨-, rfl, rfl⟩ | ⟨-, hold⟩ := hcalls q j k hcall
    · exact h.there _ hfree
    · exact h.taken q j k hold
  · refine h.there j fun q k hcall => ?_
    refine hj q k ?_
    show Function.update s.calls pid _ q = _
    rw [Function.update_of_ne]
    · exact hcall
    · rintro rfl
      rw [hnone] at hcall
      cases hcall

/-- The key is cleared and returned. -/
theorem KeysInv.clear (h : KeysInv s) {pid : Int32} {key : UInt32}
    (hcall : s.calls pid = some (.getc id key)) (hstep : s.callNext pid = some t) : KeysInv t := by
  rw [State.callNext, hcall] at hstep
  dsimp only at hstep
  have hgot : t.got = Function.update s.got id (s.got id ++ word key) := by
    cases hstep
    rw [word]
    split
    · rw [List.append_nil, Function.update_eq_self]
      rfl
    · rfl
  have hrest : t.calls = Function.update s.calls pid none ∧ t.typed = s.typed ∧
      t.table = Function.update s.table id { s.table id with key := keycodeNone } := by
    cases hstep
    split
    · exact ⟨rfl, rfl, rfl⟩
    · exact ⟨rfl, rfl, rfl⟩
  obtain ⟨hcalls, htyped, htable⟩ := hrest
  have hothers : ∀ q j k, t.calls q = some (.getc j k) → s.calls q = some (.getc j k) ∧ j ≠ id := by
    intro q j k hq
    rw [hcalls] at hq
    have hne : q ≠ pid := by
      rintro rfl
      rw [Function.update_self] at hq
      cases hq
    rw [Function.update_of_ne hne] at hq
    refine ⟨hq, ?_⟩
    rintro rfl
    exact hne ((h.holder q j k hq).symm.trans (h.holder pid j key hcall))
  refine ⟨fun q j k hq => ?_, fun q j k hq => ?_, fun j hj => ?_⟩
  · obtain ⟨hold, hne⟩ := hothers q j k hq
    rw [htable, Function.update_of_ne hne]
    exact h.holder q j k hold
  · obtain ⟨hold, hne⟩ := hothers q j k hq
    rw [hgot, htyped, Function.update_of_ne hne]
    exact h.taken q j k hold
  · rw [hgot, htyped, htable]
    by_cases hne : j = id
    · rw [hne, Function.update_self, Function.update_self]
      show List.Sublist (s.got id ++ word key ++ word keycodeNone) (s.typed id)
      rw [word_none, List.append_nil]
      exact h.taken pid id key hcall
    · rw [Function.update_of_ne hne, Function.update_of_ne hne]
      refine h.there j fun q k hq => hj q k ?_
      rw [hcalls, Function.update_of_ne]
      · exact hq
      · rintro rfl
        rw [hcall] at hq
        cases hq
        exact hne rfl

theorem KeysInv.step (h : KeysInv s) (hqueues : QueueInv s) {label : Label}
    (hwaits : HoldWaits s label) (hstep : ttyStep s label = some t) : KeysInv t := by
  cases label with
  | tty key => exact h.tty_next hqueues.room hstep
  | goes pid =>
      cases hcall : s.calls pid with
      | none =>
          rw [ttyStep, State.callNext, hcall] at hstep
          cases hstep
      | some call =>
          cases call with
          | getc id key => exact h.clear hcall hstep
          | write id chars =>
              have hold : ∀ j k, s.calls pid ≠ some (.getc j k) := by
                intro j k heq
                rw [hcall] at heq
                cases heq
              rw [ttyStep, State.callNext, hcall] at hstep
              cases chars with
              | nil =>
                  cases hstep
                  refine h.same (same_keys_call s hold fun j k heq => ?_)
                  cases heq
              | cons ch chars =>
                  cases hstep
                  have hsame : SameKeys s (s.setCall pid (some (.write id chars))) :=
                    same_keys_call s hold fun j k heq => by cases heq
                  exact h.same ⟨fun _ => rfl, fun _ => rfl, hsame.calls, rfl, rfl⟩
  | getc pid id =>
      obtain ⟨hnone, rfl⟩ := call_some hstep
      rw [State.ttyGetc]
      split
      · split
        · next hpid => exact h.get hnone hpid
        · exact h.same ⟨fun _ => rfl, fun _ => rfl, fun _ _ _ => Iff.rfl, rfl, rfl⟩
      · exact h
  | putc pid id ch =>
      obtain ⟨-, rfl⟩ := call_some hstep
      rw [State.ttyPutc]
      split
      · exact h.same ⟨fun _ => rfl, fun _ => rfl, fun _ _ _ => Iff.rfl, rfl, rfl⟩
      · exact h.same ⟨fun _ => rfl, fun _ => rfl, fun _ _ _ => Iff.rfl, rfl, rfl⟩
  | write pid id buf =>
      obtain ⟨hnone, rfl⟩ := call_some hstep
      rw [State.ttyWrite]
      split
      · refine h.same (same_keys_call s (fun j k heq => ?_) fun j k heq => ?_)
        · rw [hnone] at heq
          cases heq
        · cases heq
      · exact h.same ⟨fun _ => rfl, fun _ => rfl, fun _ _ _ => Iff.rfl, rfl, rfl⟩
  | ioctl pid id cmd arg =>
      obtain ⟨-, rfl⟩ := call_some hstep
      rw [State.ttyIoctl]
      split
      · exact h.same ⟨fun _ => rfl, fun _ => rfl, fun _ _ _ => Iff.rfl, rfl, rfl⟩
      split
      · next hhold =>
          have hfree := hwaits hhold
          have hkey : ∀ j, ((s.setTty id { s.table id with holdPid := arg }).table j).key =
              (s.table j).key :=
            set_tty_all (p := fun j tty => tty.key = (s.table j).key) rfl fun _ _ => rfl
          refine ⟨fun q j k hcall => ?_, h.taken, fun j hj => ?_⟩
          · have hne : j ≠ id := by
              rintro rfl
              exact hfree q k hcall
            show (Function.update s.table id _ j).holdPid = q
            rw [Function.update_of_ne hne]
            exact h.holder q j k hcall
          · show List.Sublist (s.got j ++ word ((s.setTty id _).table j).key) (s.typed j)
            rw [hkey]
            exact h.there j hj
      · exact h

theorem init_keys (buf : Fin maxConsoleNr → Nat → Nat) : KeysInv (State.init buf) :=
  ⟨fun _ _ _ heq => (by cases heq), fun _ _ _ heq => (by cases heq), fun _ _ => .refl _⟩

/-- The keys that are read at a terminal were typed there, each read once, and in their order. -/
theorem tty_keys_once (buf : Fin maxConsoleNr → Nat → Nat) (labels : List Label) (s : State)
    (hrun : Run (stepOf ttyStep) HoldWaits (State.init buf) labels s) (id : Fin maxConsoleNr) :
    List.Sublist (s.got id) (s.typed id) := by
  have hinv : QueueInv s ∧ KeysInv s := by
    refine @Run.invariant _ _ _ _ (fun s => QueueInv s ∧ KeysInv s) ?_ _ _ _ hrun
      ⟨init_queues buf, init_keys buf⟩
    intro s label t hs hwaits hnext
    exact ⟨hs.1.step hnext, hs.2.step hs.1 hwaits hnext⟩
  exact hinv.2.got id

/-- The idle task reads the second of two keys. -/
theorem tty_keys_once_read : ∃ s : State, s.got 0 = [0x62] ∧
    List.Sublist (s.got 0) (s.typed 0) := by
  obtain ⟨s, t, hs, hrun, hgot⟩ := exists_run_all ttyStep (some (State.init fun _ _ => 0))
    [.tty 0x61, .tty 0, .tty 0, .tty 0, .tty 0, .tty 0, .tty 0x62, .getc 0 0, .goes 0]
    (fun s => s.got 0) rfl
  cases hs
  refine ⟨t, hgot, tty_keys_once _ _ t ((run_of_labels hrun).mono fun s label hmem => ?_) 0⟩
  simp only [List.mem_cons, List.not_mem_nil, or_false] at hmem
  obtain rfl | rfl | rfl | rfl | rfl | rfl | rfl | rfl | rfl := hmem <;> exact trivial

end XBook.Terminals
