import XBook.Drivers.Console
import XBook.Drivers.Keys
import XBook.Kernel.Ioqueue
import XBook.Kernel.Signal

/-!
# The terminals

`drivers/tty.c`: the task of the terminals, which reads the keyboard for the one that is shown, and
the calls of other tasks on a terminal. A statement that another task can get in front of is a step
of its own. Each terminal has one key for `TTY_Getc`, and a queue that the task itself empties.

`tty_task_goes_on` says that the task never waits for its queue, `tty_effects_allowed` who can write
to a console and who can get a signal, and `tty_keys_once` that no key is read twice.
-/

namespace XBook.Terminals

open Consoles (maxConsoleNr Operation conCmdSelectCon conCmdScroll conCmdClean screenUp screenDown)
open Keys (flagExt flagCtrlL flagCtrlR flagAltL flagAltR maskRaw keycodeNone)
open Signal (sigint sigtstp sigcont sigttin sigttou)
open Transition

abbrev ttyCmdClean : Int32 := 0

abbrev ttyCmdHold : Int32 := 1

def sigquit : Int := 3

/-- `IQ_BUF_LEN_8`. -/
abbrev iqBufLen8 : Nat := 64

/-- `IQ_FACTOR_8`. -/
abbrev iqFactor8 : Nat := 1

/-- `TTY_t`. The number of its console is its own. -/
structure Tty where
  ioqueue : IoQueue
  key : UInt32
  holdPid : Int32

/-- What a terminal makes others do: its console, or the task that gets a signal. -/
inductive Effect where
  | console (op : Operation)
  | kill (pid : Int32) (signal : Int)

/-- Where the task of the terminals is: before `TTY_DoRead` of a terminal, in the case of a signal
key with some characters and the signal to go, or before `TTY_DoWrite`. -/
inductive TtyPoint where
  | doRead (id : Fin maxConsoleNr)
  | echo (id : Fin maxConsoleNr) (chars : List UInt32) (signal : Int)
  | doWrite (id : Fin maxConsoleNr)

/-- What is left of a call: `TTY_Getc` has its key and has to clear it, or `TTY_Write` has some
characters to go. -/
inductive TtyCall where
  | getc (id : Fin maxConsoleNr) (key : UInt32)
  | write (id : Fin maxConsoleNr) (chars : List UInt32)

/-- The terminals, with what they have done, and the keys that were put into them and read. -/
structure State where
  table : Fin maxConsoleNr → Tty
  currentTTY : Fin maxConsoleNr
  point : TtyPoint
  calls : Int32 → Option TtyCall
  effects : List Effect
  typed : Fin maxConsoleNr → List UInt32
  got : Fin maxConsoleNr → List UInt32

/-- The signal of a control key, with the character that is shown for it. -/
def controlKey (ch : UInt8) : Option (UInt32 × Int) :=
  if ch = 0x63 ∨ ch = 0x43 then some (0x43, sigint)
  else if ch = 0x5C then some (0x5C, sigquit)
  else if ch = 0x7A ∨ ch = 0x5A then some (0x5A, sigtstp)
  else if ch = 0x78 ∨ ch = 0x58 then some (0x58, sigcont)
  else none

namespace State

def emit (s : State) (effect : Effect) : State := { s with effects := s.effects ++ [effect] }

def setTty (s : State) (id : Fin maxConsoleNr) (tty : Tty) : State :=
  { s with table := Function.update s.table id tty }

def setCall (s : State) (pid : Int32) (call : Option TtyCall) : State :=
  { s with calls := Function.update s.calls pid call }

/-- `DeviceIoctl` of the console of a terminal. -/
def conIoctl (s : State) (id : Fin maxConsoleNr) (cmd arg : Int32) : State :=
  s.emit (.console (.ioctl id cmd arg))

/-- `DevicePutc` of the console of a terminal. -/
def conPutc (s : State) (id : Fin maxConsoleNr) (ch : UInt32) : State :=
  s.emit (.console (.putc id ch))

/-- `SelectTTY`. No call has a negative number. -/
def selectTTY (s : State) (ttyID : Nat) : State :=
  if h : ttyID < maxConsoleNr then
    { s with currentTTY := ⟨ttyID, h⟩ }.conIoctl ⟨ttyID, h⟩ conCmdSelectCon (Int32.ofNat ttyID)
  else s

/-- `TTY_PutKey`. On a full queue the task waits. -/
def putKey (s : State) (id : Fin maxConsoleNr) (key : UInt32) : Option State :=
  if (s.table id).ioqueue.ioQueueFull then none
  else some { s.setTty id { s.table id with
      ioqueue := (s.table id).ioqueue.ioQueuePut key.toNat, key := key } with
    typed := Function.update s.typed id (s.typed id ++ [key]) }

/-- The part of `TTY_ProcessKey` for keys with `FLAG_EXT`. -/
def processSpecial (s : State) (id : Fin maxConsoleNr) (key : UInt32) : Option State :=
  let raw := key &&& maskRaw
  let ctrl := key &&& flagCtrlL ≠ 0 ∨ key &&& flagCtrlR ≠ 0
  let alt := key &&& flagAltL ≠ 0 ∨ key &&& flagAltR ≠ 0
  if raw = Keys.enter then s.putKey id 0x0A
  else if raw = Keys.backspace then s.putKey id 0x08
  else if raw = Keys.f 1 then some (if alt then s.selectTTY 0 else s)
  else if raw = Keys.f 2 then some (if alt then s.selectTTY 1 else s)
  else if raw = Keys.f 3 then some (if alt then s.selectTTY 2 else s)
  else if raw = Keys.f 4 then
    (s.putKey id (Keys.f 4)).map fun s => if alt then s.selectTTY 3 else s
  else if raw = Keys.f 12 then some (s.conIoctl id conCmdClean 0)
  else if raw = Keys.up then
    (if ctrl then s.conIoctl id conCmdScroll screenUp else s).putKey id Keys.up
  else if raw = Keys.down then
    (if ctrl then s.conIoctl id conCmdScroll screenDown else s).putKey id Keys.down
  else if raw ∈ Keys.taken then s.putKey id raw
  else some s

/-- `TTY_ProcessKey`. A signal key for a task goes on at its own point. -/
def processKey (s : State) (id : Fin maxConsoleNr) (key : UInt32) : Option State :=
  if key &&& flagExt = 0 then
    if key &&& flagCtrlL ≠ 0 ∨ key &&& flagCtrlR ≠ 0 then
      match controlKey key.toUInt8 with
      | none => some s
      | some (ch, signal) =>
          if 0 < (s.table id).holdPid then some { s with point := .echo id [0x5E, ch, 0x0A] signal }
          else some s
    else s.putKey id key
  else s.processSpecial id key

/-- `TTY_DoRead`, where the keyboard gives this key. -/
def doRead (s : State) (id : Fin maxConsoleNr) (key : UInt32) : Option State :=
  let s := { s with point := .doWrite id }
  if id = s.currentTTY ∧ key ≠ keycodeNone then s.processKey id key else some s

/-- `TTY_DoWrite`. The loop of the task goes on with the next terminal. -/
def doWrite (s : State) (id : Fin maxConsoleNr) : State :=
  let tty := s.table id
  let s := { s with point := .doRead (id + 1) }
  if tty.ioqueue.ioQueueEmpty then s
  else s.setTty id { tty with ioqueue := (tty.ioqueue.ioQueueGet 0).1 }

/-- The terminals of `TTY_InitOne`, with the memory of their queues, and the first one selected. -/
def init (buf : Fin maxConsoleNr → Nat → Nat) : State where
  table id := ⟨ioQueueInit (buf id) iqBufLen8 iqFactor8, 0, 0⟩
  currentTTY := 0
  point := .doRead 0
  calls _ := none
  effects := []
  typed _ := []
  got _ := []

end State

/-- Who goes on: the task of the terminals, where the keyboard gives a key, a task in its call, or a
task with a new call. -/
inductive Label where
  | tty (key : UInt32)
  | goes (pid : Int32)
  | getc (pid : Int32) (id : Fin maxConsoleNr)
  | putc (pid : Int32) (id : Fin maxConsoleNr) (ch : UInt32)
  | write (pid : Int32) (id : Fin maxConsoleNr) (buf : List UInt32)
  | ioctl (pid : Int32) (id : Fin maxConsoleNr) (cmd arg : Int32)

namespace State

/-- The task of the terminals goes on. -/
def ttyNext (s : State) (key : UInt32) : Option State :=
  match s.point with
  | .doRead id => s.doRead id key
  | .echo id (ch :: chars) signal => some { s.conPutc id ch with point := .echo id chars signal }
  | .echo id [] signal =>
      some { s.emit (.kill (s.table id).holdPid signal) with point := .doWrite id }
  | .doWrite id => some (s.doWrite id)

/-- A task goes on in its call. `TTY_Getc` returns the key that it has cleared. -/
def callNext (s : State) (pid : Int32) : Option State :=
  match s.calls pid with
  | none => none
  | some (.getc id key) =>
      let s := (s.setTty id { s.table id with key := keycodeNone }).setCall pid none
      some (if key = keycodeNone then s
        else { s with got := Function.update s.got id (s.got id ++ [key]) })
  | some (.write _ []) => some (s.setCall pid none)
  | some (.write id (ch :: chars)) => some ((s.conPutc id ch).setCall pid (some (.write id chars)))

/-- `TTY_Getc` up to the statement that clears the key. -/
def ttyGetc (s : State) (pid : Int32) (id : Fin maxConsoleNr) : State :=
  if id = s.currentTTY then
    if (s.table id).holdPid = pid then s.setCall pid (some (.getc id (s.table id).key))
    else s.emit (.kill pid sigttin)
  else s

/-- The task may write to the terminal. -/
def MayWrite (s : State) (pid : Int32) (id : Fin maxConsoleNr) : Prop :=
  (s.table id).holdPid = pid ∨ pid = 0

instance (s : State) (pid : Int32) (id : Fin maxConsoleNr) : Decidable (s.MayWrite pid id) :=
  inferInstanceAs (Decidable (_ ∨ _))

/-- `TTY_Putc`. -/
def ttyPutc (s : State) (pid : Int32) (id : Fin maxConsoleNr) (ch : UInt32) : State :=
  if s.MayWrite pid id then s.conPutc id ch else s.emit (.kill pid sigttou)

/-- `TTY_Write` up to its loop. -/
def ttyWrite (s : State) (pid : Int32) (id : Fin maxConsoleNr) (buf : List UInt32) : State :=
  if s.MayWrite pid id then s.setCall pid (some (.write id buf)) else s.emit (.kill pid sigttou)

/-- `TTY_Ioctl`. -/
def ttyIoctl (s : State) (id : Fin maxConsoleNr) (cmd arg : Int32) : State :=
  if cmd = ttyCmdClean then s.conIoctl id conCmdClean 0
  else if cmd = ttyCmdHold then s.setTty id { s.table id with holdPid := arg }
  else s

/-- The call of a task that is in none. -/
def call (s : State) (pid : Int32) (t : State) : Option State :=
  match s.calls pid with
  | none => some t
  | some _ => none

end State

/-- One step. -/
def ttyStep (s : State) : Label → Option State
  | .tty key => s.ttyNext key
  | .goes pid => s.callNext pid
  | .getc pid id => s.call pid (s.ttyGetc pid id)
  | .putc pid id ch => s.call pid (s.ttyPutc pid id ch)
  | .write pid id buf => s.call pid (s.ttyWrite pid id buf)
  | .ioctl pid id cmd arg => s.call pid (s.ttyIoctl id cmd arg)

end XBook.Terminals
