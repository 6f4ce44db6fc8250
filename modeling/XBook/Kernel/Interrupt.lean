import Mathlib.Logic.Function.Basic
import XBook.Lib.Transition

/-!
# Interrupt lines

`kernel/interrupt.c`. Each line has a list of actions, linked through their `next` pointers. An
action is named by its address; `live` are the addresses that `kmalloc` has returned and that have
not been freed. A function has no result where the source reads an action that is not live, follows
a null pointer, or walks round a list for ever.
-/

namespace XBook.Irq

/-- `NR_IRQS`. -/
abbrev nrIrqs : Nat := 16

/-- `IRQF_SHARED` is set. -/
def irqfShared (flags : Nat) : Bool := flags.testBit 1

/-- `struct IrqAction`. -/
structure IrqAction where
  data : Nat
  handler : Nat
  flags : Nat
  next : Option Nat

/-- `struct IrqDescription`, where `controller` says that the pointer is not null, and `enabled`
what its `enable` and `disable` have done last. -/
structure IrqDescription where
  action : Option Nat
  flags : Nat
  controller : Bool
  deviceCount : Int
  enabled : Bool

/-- The table of the lines, and the memory of the actions. -/
structure IrqState where
  irqDescriptionTable : Nat → IrqDescription
  actions : Nat → IrqAction
  live : List Nat

namespace IrqState

def setDescription (s : IrqState) (irq : Nat) (d : IrqDescription) : IrqState :=
  { s with irqDescriptionTable := Function.update s.irqDescriptionTable irq d }

def setAction (s : IrqState) (a : Nat) (action : IrqAction) : IrqState :=
  { s with actions := Function.update s.actions a action }

/-- Stores the head of the list of a line. -/
def setHead (s : IrqState) (irq : Nat) (action : Option Nat) : IrqState :=
  s.setDescription irq { s.irqDescriptionTable irq with action := action }

/-- Stores the `next` of an action. -/
def setNext (s : IrqState) (a : Nat) (next : Option Nat) : IrqState :=
  s.setAction a { s.actions a with next := next }

@[simp] theorem set_description_same (s : IrqState) (irq : Nat) (d : IrqDescription) :
    (s.setDescription irq d).irqDescriptionTable irq = d := Function.update_self ..

@[simp] theorem set_description_other (s : IrqState) {irq irq' : Nat} (d : IrqDescription)
    (h : irq' ≠ irq) :
    (s.setDescription irq d).irqDescriptionTable irq' = s.irqDescriptionTable irq' :=
  Function.update_of_ne h ..

@[simp] theorem set_head_same (s : IrqState) (irq : Nat) (p : Option Nat) :
    (s.setHead irq p).irqDescriptionTable irq =
      { s.irqDescriptionTable irq with action := p } := Function.update_self ..

@[simp] theorem set_head_other (s : IrqState) {irq irq' : Nat} (p : Option Nat) (h : irq' ≠ irq) :
    (s.setHead irq p).irqDescriptionTable irq' = s.irqDescriptionTable irq' :=
  Function.update_of_ne h ..

theorem set_next_actions (s : IrqState) (a b : Nat) (next : Option Nat) :
    (s.setNext a next).actions b =
      if b = a then { s.actions a with next := next } else s.actions b :=
  Function.update_apply ..

/-- `kfree`, which returns at once for a null pointer. -/
def kfree (s : IrqState) : Option Nat → Option IrqState
  | none => some s
  | some a => if a ∈ s.live then some { s with live := s.live.erase a } else none

/-- More steps than a walk over a list of live actions takes. -/
def walkFuel (s : IrqState) : Nat := s.live.length + 1

/-- The loop of `RegisterIRQ` that goes to the last action. -/
def lastAction (s : IrqState) : Nat → Nat → Option Nat
  | 0, _ => none
  | fuel + 1, p =>
      if p ∈ s.live then
        match (s.actions p).next with
        | none => some p
        | some next => s.lastAction fuel next
      else none

/-- `RegisterIRQ` stores its controller and its flags. -/
def setController (s : IrqState) (irq flags : Nat) : IrqState :=
  s.setDescription irq { s.irqDescriptionTable irq with controller := true, flags := flags }

/-- The new action that `RegisterIRQ` fills in. -/
def newAction (s : IrqState) (a handler flags data : Nat) : IrqState :=
  { s with live := a :: s.live }.setAction a ⟨data, handler, flags, none⟩

/-- `RegisterIRQ` puts its action behind the others of a shared line, or in place of them. -/
def linkAction (s : IrqState) (irq flags a : Nat) : Option IrqState :=
  if irqfShared flags then
    match (s.irqDescriptionTable irq).action with
    | none => some (s.setHead irq (some a))
    | some p => (s.lastAction s.walkFuel p).map fun p => s.setNext p (some a)
  else some (s.setHead irq (some a))

/-- `RegisterIRQ` counts the device and enables the line. -/
def enableLine (s : IrqState) (irq : Nat) : IrqState :=
  s.setDescription irq { s.irqDescriptionTable irq with
    deviceCount := (s.irqDescriptionTable irq).deviceCount + 1, enabled := true }

/-- `RegisterIRQ`, with the answer of its `kmalloc`. -/
def registerIRQ (s : IrqState) (irq handler flags data : Nat) (kmalloc : Option Nat) :
    Option (IrqState × Int) :=
  if irq < nrIrqs then
    let s := s.setController irq flags
    match kmalloc with
    | none => some (s, -1)
    | some action =>
        ((s.newAction action handler flags data).linkAction irq flags action).map
          fun s => (s.enableLine irq, 0)
  else some (s, -1)

/-- The loop of `UnregisterIRQ`. It sets `prev` to the action that it is about to look at, so that
`prev->next = p->next` stores into the action that is removed. -/
def removeAction (s : IrqState) (irq data : Nat) : Nat → Nat → Option IrqState
  | 0, _ => none
  | fuel + 1, p =>
      let prev := p
      if p ∈ s.live then
        let action := s.actions p
        if action.data = data then
          let s :=
            if (s.irqDescriptionTable irq).action = some p then s.setHead irq action.next
            else s.setNext prev action.next
          s.kfree (some p)
        else
          match action.next with
          | none => some s
          | some next => s.removeAction irq data fuel next
      else none

/-- `UnregisterIRQ` takes an action off a shared line, or the only one off an exclusive line. -/
def unlinkAction (s : IrqState) (irq data : Nat) : Option IrqState :=
  let irqDesc := s.irqDescriptionTable irq
  if irqfShared irqDesc.flags then
    irqDesc.action.bind fun p => s.removeAction irq data s.walkFuel p
  else (s.kfree irqDesc.action).map fun s => s.setHead irq none

/-- `UnregisterIRQ` counts the device off, and disables the line without devices. -/
def disableLine (s : IrqState) (irq : Nat) : Option IrqState :=
  let irqDesc := s.irqDescriptionTable irq
  let irqDesc := { irqDesc with deviceCount := irqDesc.deviceCount - 1 }
  if irqDesc.deviceCount ≠ 0 then some (s.setDescription irq irqDesc)
  else if irqDesc.controller then
    some (s.setDescription irq { irqDesc with enabled := false, controller := false, flags := 0 })
  else none

/-- `UnregisterIRQ`. -/
def unregisterIRQ (s : IrqState) (irq data : Nat) : Option (IrqState × Int) :=
  if irq < nrIrqs then
    ((s.unlinkAction irq data).bind fun s => s.disableLine irq).map fun s => (s, 0)
  else some (s, -1)

/-- The loop of `HandleIRQ`: the handlers that it calls, each with its data. -/
def handleActions (s : IrqState) : Nat → Option Nat → Option (List (Nat × Nat))
  | _, none => some []
  | 0, some _ => none
  | fuel + 1, some p =>
      if p ∈ s.live then
        let action := s.actions p
        (s.handleActions fuel action.next).map ((action.handler, action.data) :: ·)
      else none

/-- `HandleIRQ`. -/
def handleIRQ (s : IrqState) (irq : Nat) : Option (List (Nat × Nat)) :=
  if irq < nrIrqs then
    let irqDesc := s.irqDescriptionTable irq
    (s.handleActions s.walkFuel irqDesc.action).bind fun handled =>
      if irqDesc.controller then some handled else none
  else some []

end IrqState

/-- `InitIrqDescription`. -/
def initIrqDescription : IrqDescription := ⟨none, 0, false, 0, false⟩

/-- What a call of `RegisterIRQ` has registered. -/
structure Registration where
  action : Nat
  handler : Nat
  data : Nat
  deriving DecidableEq

/-- The lines, with what has been registered on each and not yet unregistered. -/
structure IrqSystem where
  state : IrqState
  registered : Nat → List Registration
  faulted : Bool

/-- The system at boot. -/
def initIrqSystem : IrqSystem :=
  ⟨⟨fun _ => initIrqDescription, fun _ => ⟨0, 0, 0, none⟩, []⟩, fun _ => [], false⟩

/-- A call, with the address that `kmalloc` returns. -/
inductive IrqCall where
  | register (irq handler flags data action : Nat)
  | unregister (irq data : Nat)

/-- The system after the call, with `none` for one that is not made: a `RegisterIRQ` that fails,
and an `UnregisterIRQ` of what is not registered. -/
def irqStep (s : IrqSystem) : IrqCall → Option IrqSystem
  | .register irq handler flags data action =>
      if irq < nrIrqs ∧ action ∉ s.state.live then
        match s.state.registerIRQ irq handler flags data (some action) with
        | none => some { s with faulted := true }
        | some (state, _) => some { s with
            state := state
            registered := Function.update s.registered irq
              (s.registered irq ++ [⟨action, handler, data⟩]) }
      else none
  | .unregister irq data =>
      if irq < nrIrqs ∧ ∃ r ∈ s.registered irq, r.data = data then
        match s.state.unregisterIRQ irq data with
        | none => some { s with faulted := true }
        | some (state, _) => some { s with
            state := state
            registered := Function.update s.registered irq
              ((s.registered irq).eraseP fun r => r.data = data) }
      else none

end XBook.Irq
