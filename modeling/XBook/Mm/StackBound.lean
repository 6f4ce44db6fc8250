import Mathlib.Data.List.Forall2
import XBook.Lib.Transition
import XBook.Mm.VmspaceInvariant

/-!
# The size of a stack

`DoPageFault` expands a stack that a user fault just below it has hit. It compares the size of the
stack with `MAX_VMS_STACK_SIZE` before it moves the start to the page of the fault, and the fault
may lie anywhere above the space in front of the stack. `stack_bound_iff` says which sequences of
faults keep every stack in its bound.
-/

namespace XBook

open Transition

/-- A page fault: the address in `CR2`, and the words of the trap frame that the handler reads. -/
structure PageFault where
  addr : UInt32
  esp : UInt32
  errorCode : UInt32

/-- The memory manager after a page fault. -/
def afterFault (mm : MemoryManager) (fault : PageFault) : Option MemoryManager :=
  some (doPageFault mm fault.addr.toNat fault.esp.toNat fault.errorCode.toNat)

/-- The number of bytes of a space. -/
def VMSpace.size (space : VMSpace) : Nat := space.stop - space.start

/-- The fault makes `DoPageFault` expand the space that it has found. -/
def ExpandsStack (mm : MemoryManager) (fault : PageFault) (c : VMSpaceCursor) : Prop :=
  findVMSpace mm.spaceMap fault.addr.toNat = some c ∧ c.space.start > fault.addr.toNat ∧
    pageErrUser fault.errorCode.toNat ∧ vmsStack c.space.flags ∧
    wrapSub c.space.stop c.space.start < maxVmsStackSize ∧
    wrap (fault.addr.toNat + 32) ≥ fault.esp.toNat

/-- A fault that expands a stack lies in one of the pages that the bound leaves below its end. -/
def FaultInReach (mm : MemoryManager) (fault : PageFault) : Prop :=
  ∀ c, ExpandsStack mm fault c → c.space.stop ≤ pageMask fault.addr.toNat + maxVmsStackSize

/-- A stack in its bound stays in its bound. A page fault adds and removes no space, so a space is
known by its place in the list. -/
def StacksBounded (spaces spaces' : List VMSpace) : Prop :=
  List.Forall₂ (fun s s' => vmsStack s.flags → s.size ≤ maxVmsStackSize →
    s'.size ≤ maxVmsStackSize) spaces spaces'

/-- What page faults make of a space: it can only have grown downwards. -/
structure Expanded (s s' : VMSpace) : Prop where
  flags : s'.flags = s.flags
  stop : s'.stop = s.stop
  start : s'.start ≤ s.start
  ordered : s.start ≤ s.stop
  word : s.stop < 2 ^ 32
  bounded : vmsStack s.flags → s.size ≤ maxVmsStackSize → s'.size ≤ maxVmsStackSize

/-- A fault expands a stack or leaves the list alone. -/
theorem after_fault_cases {mm mm' : MemoryManager} {fault : PageFault}
    (h : afterFault mm fault = some mm') :
    (∃ c, ExpandsStack mm fault c ∧ mm.spaceMap = c.before ++ c.space :: c.after ∧
      mm'.spaceMap = c.before ++ expandStack c.space fault.addr.toNat :: c.after) ∨
    ((∀ c, ¬ ExpandsStack mm fault c) ∧ mm' = mm) := by
  have heq : doPageFault mm fault.addr.toNat fault.esp.toNat fault.errorCode.toNat = mm' :=
    Option.some.inj h
  simp only [doPageFault] at heq
  split at heq
  · next hfind =>
      refine .inr ⟨fun c hc => ?_, heq.symm⟩
      rw [hc.1] at hfind
      cases hfind
  · next c hfind =>
      split at heq
      · next hcond =>
          refine .inl ⟨c, ⟨hfind, hcond⟩, (find_vm_space_some hfind).1, ?_⟩
          rw [← heq]
      · next hcond =>
          refine .inr ⟨fun d hd => hcond ?_, heq.symm⟩
          rw [Option.some.inj (hfind.symm.trans hd.1)]
          exact hd.2

/-- A relation between lists at a place of the second. -/
theorem forall₂_middle {α β : Type*} {R : α → β → Prop} {l : List α} {before after : List β}
    {b : β} : List.Forall₂ R l (before ++ b :: after) ↔
      ∃ l₁ a l₂, l = l₁ ++ a :: l₂ ∧ List.Forall₂ R l₁ before ∧ R a b ∧
        List.Forall₂ R l₂ after := by
  induction before generalizing l with
  | nil =>
      rw [List.nil_append, List.forall₂_cons_right_iff]
      constructor
      · rintro ⟨a, l₂, hhead, htail, rfl⟩
        exact ⟨[], a, l₂, rfl, .nil, hhead, htail⟩
      · rintro ⟨l₁, a, l₂, rfl, hnil, hhead, htail⟩
        cases hnil
        exact ⟨a, l₂, hhead, htail, rfl⟩
  | cons c before ih =>
      rw [List.cons_append, List.forall₂_cons_right_iff]
      constructor
      · rintro ⟨x, rest, hx, hrest, rfl⟩
        obtain ⟨l₁, a, l₂, rfl, hbefore, hhead, htail⟩ := ih.mp hrest
        exact ⟨x :: l₁, a, l₂, rfl, .cons hx hbefore, hhead, htail⟩
      · rintro ⟨l₁, a, l₂, rfl, hbefore, hhead, htail⟩
        cases hbefore with
        | cons hx hbefore => exact ⟨_, _, hx, ih.mpr ⟨_, a, l₂, rfl, hbefore, hhead, htail⟩, rfl⟩

/-- A fault in reach keeps the stacks in their bounds. -/
theorem expanded_after_fault {spaces : List VMSpace} {mm mm' : MemoryManager} {fault : PageFault}
    (h : List.Forall₂ Expanded spaces mm.spaceMap) (hreach : FaultInReach mm fault)
    (hfault : afterFault mm fault = some mm') : List.Forall₂ Expanded spaces mm'.spaceMap := by
  rcases after_fault_cases hfault with ⟨c, hexpands, hspaces, hspaces'⟩ | ⟨-, rfl⟩
  · rw [hspaces] at h
    obtain ⟨l₁, s, l₂, rfl, hbefore, hspace, hafter⟩ := forall₂_middle.mp h
    rw [hspaces']
    refine forall₂_middle.mpr ⟨l₁, s, l₂, rfl, hbefore, ?_, hafter⟩
    have hnear := hreach c hexpands
    have hbelow : pageMask fault.addr.toNat ≤ fault.addr.toNat := Nat.div_mul_le_self _ _
    have hstart := hexpands.2.1
    refine ⟨hspace.flags, hspace.stop, ?_, hspace.ordered, hspace.word, fun _ _ => ?_⟩
    · have hle := hspace.start
      show pageMask fault.addr.toNat ≤ s.start
      omega
    · show c.space.stop - pageMask fault.addr.toNat ≤ maxVmsStackSize
      omega
  · exact h

/-- A fault out of reach takes the stack that it expands out of its bound. -/
theorem in_reach_of_bounded {spaces : List VMSpace} {mm mm' : MemoryManager} {fault : PageFault}
    (h : List.Forall₂ Expanded spaces mm.spaceMap) (hfault : afterFault mm fault = some mm')
    (hbounded : StacksBounded spaces mm'.spaceMap) : FaultInReach mm fault := by
  intro c hc
  rcases after_fault_cases hfault with ⟨d, hexpands, hspaces, hspaces'⟩ | ⟨hnone, -⟩
  · obtain rfl := Option.some.inj (hexpands.1.symm.trans hc.1)
    rw [hspaces] at h
    obtain ⟨l₁, s, l₂, rfl, hbefore, hspace, -⟩ := forall₂_middle.mp h
    rw [StacksBounded, hspaces'] at hbounded
    obtain ⟨k₁, s', k₂, hlist, hbefore', hspace', -⟩ := forall₂_middle.mp hbounded
    have hlength : l₁.length = k₁.length := hbefore.length_eq.trans hbefore'.length_eq.symm
    obtain ⟨-, htail⟩ := List.append_inj hlist hlength
    obtain ⟨rfl, -⟩ := List.cons.inj htail
    obtain ⟨-, -, -, hstack, hsmall, -⟩ := hexpands
    have hstop := hspace.stop
    have hstart := hspace.start
    have hordered := hspace.ordered
    have hword := hspace.word
    rw [wrap_sub_of_le (by omega) (by omega)] at hsmall
    rw [hspace.flags] at hstack
    have hsize : d.space.stop - pageMask fault.addr.toNat ≤ maxVmsStackSize := by
      refine hspace' hstack ?_
      show s.stop - s.start ≤ maxVmsStackSize
      omega
    omega
  · exact absurd hc (hnone c)

/-- Every sequence of faults keeps the stacks in their bounds if and only if each fault of it that
expands a stack lies in reach. -/
theorem stack_bound_iff {mm mm' : MemoryManager} {faults : List PageFault}
    (hspaces : ∀ s ∈ mm.spaceMap, s.start ≤ s.stop ∧ s.stop < 2 ^ 32)
    (hrun : Run (stepOf afterFault) anyLabel mm faults mm') :
    (∀ pre u, pre <+: faults → Run (stepOf afterFault) anyLabel mm pre u →
      StacksBounded mm.spaceMap u.spaceMap) ↔
      Run (stepOf afterFault) FaultInReach mm faults mm' := by
  have hgood : ∀ u : MemoryManager, List.Forall₂ Expanded mm.spaceMap u.spaceMap →
      StacksBounded mm.spaceMap u.spaceMap := fun u hu => hu.imp fun s s' hs => hs.bounded
  refine Run.good_iff_guarded hgood
    (fun u fault v hu hreach hfault => expanded_after_fault hu hreach hfault)
    (fun u fault v hu hfault hbounded => in_reach_of_bounded hu hfault hbounded) ?_ hrun
  refine List.forall₂_same.mpr fun s hs => ?_
  obtain ⟨hordered, hword⟩ := hspaces s hs
  exact ⟨rfl, rfl, Nat.le_refl _, hordered, hword, fun _ h => h⟩

/-- The stack of a new process: 64 KB at the end of the user space. -/
def newStack : MemoryManager := ⟨[⟨0x7FFF0000, 0x80000000, 3, 1⟩], 0x1000, 0x1000⟩

/-- A fault in the page below the stack. -/
def nearFault : PageFault := ⟨0x7FFEFFF0, 0x7FFEFFF0, 6⟩

/-- A fault that lies 1 GB below the stack, with a small stack pointer. -/
def farFault : PageFault := ⟨0x40000000, 0, 6⟩

/-- A process that pushes one page keeps its stack in the bound. -/
theorem stack_bound_near : ∃ mm', Run (stepOf afterFault) anyLabel newStack [nearFault] mm' ∧
    ∀ pre u, pre <+: [nearFault] → Run (stepOf afterFault) anyLabel newStack pre u →
      StacksBounded newStack.spaceMap u.spaceMap := by
  have hreach : FaultInReach newStack nearFault := by
    intro c hc
    obtain rfl : c = ⟨[], ⟨0x7FFF0000, 0x80000000, 3, 1⟩, []⟩ := Option.some.inj hc.1.symm
    decide
  exact ⟨_, .cons trivial rfl (.nil _), (stack_bound_iff (by decide)
    (.cons trivial rfl (.nil _))).mpr (.cons hreach rfl (.nil _))⟩

/-- A stack of 64 KB becomes one of 1 GB with one fault. -/
theorem stack_bound_broken : ∃ mm', Run (stepOf afterFault) anyLabel newStack [farFault] mm' ∧
    mm'.spaceMap = [⟨0x40000000, 0x80000000, 3, 1⟩] ∧
    ¬ StacksBounded newStack.spaceMap mm'.spaceMap := by
  refine ⟨_, .cons trivial rfl (.nil _), by decide +kernel, ?_⟩
  intro h
  rw [show (doPageFault newStack farFault.addr.toNat farFault.esp.toNat
    farFault.errorCode.toNat).spaceMap = [⟨0x40000000, 0x80000000, 3, 1⟩] by decide +kernel] at h
  cases h with
  | cons hstack _ => exact absurd (hstack (by decide) (by decide)) (by decide)

end XBook
