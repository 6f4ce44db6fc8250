import XBook.Kernel.ExitWait

/-!
# The exit and wait protocol

What holds of the family of processes while preemption spares the two windows of `familyGuard`.
-/

namespace XBook.ExitWait

open Transition
open Family (set_procs)

/-- The invariant of the protocol. A process at `toZombie` has notified its parent. -/
structure FamilyInv (s : Family) : Prop where
  nodup : s.taskGlobalList.Nodup
  init : 0 ∈ s.taskGlobalList
  fresh : ∀ p ∈ s.taskGlobalList, p < s.nextPid
  initParent : (s.procs 0).parentPid = none ∨
    (s.procs 0).parentPid = some 0 ∧ (s.procs 0).place = .toZombie
  zombie : ∀ p ∈ s.taskGlobalList, (s.procs p).status = .zombie → (s.procs p).place = .toZombie
  waiting : ∀ p ∈ s.taskGlobalList, (s.procs p).status = .waiting →
    (s.procs p).place = .toRepeat
  forked : ∀ c ∈ s.taskGlobalList, (s.procs c).place ≠ .toZombie →
    (s.procs c).parentPid = none ∨ (s.procs c).parentPid = some (s.forker c)
  left : ∀ c ∈ s.taskGlobalList, (s.procs c).place = .toZombie →
    (s.procs c).parentPid = some 0 ∨ ∃ q ∈ s.taskGlobalList, (s.procs c).parentPid = some q ∧
      q = s.forker c ∧ (s.procs q).place = .toRepeat ∧ (s.procs q).status = .ready
  single : ∀ c ∈ s.taskGlobalList, ∀ c' ∈ s.taskGlobalList, (s.procs c).place = .toZombie →
    (s.procs c').place = .toZombie → (s.procs c).parentPid = (s.procs c').parentPid →
      (s.procs c).parentPid = some 0 ∨ c = c'
  asleep : ∀ q ∈ s.taskGlobalList, (s.procs q).status = .waiting ∨ (s.procs q).place = .toWait →
    (∃ c ∈ s.taskGlobalList, (s.procs c).parentPid = some q) ∧
      ∀ c ∈ s.taskGlobalList, (s.procs c).parentPid = some q → (s.procs c).place ≠ .toZombie
  woken : ∀ q ∈ s.taskGlobalList, (s.procs q).place = .toRepeat → (s.procs q).status = .ready →
    ∃ c ∈ s.taskGlobalList, (s.procs c).parentPid = some q ∧ (s.procs c).place = .toZombie
  reaped : ∀ r ∈ s.reaped, r.child ∉ s.taskGlobalList ∧ r.child < s.nextPid ∧
    (s.procs r.child).parentPid = some r.waiter ∧ (s.procs r.child).exitStatus = r.exitStatus
  once : (s.reaped.map Reaped.child).Nodup

section

variable {s : Family} {p : Nat}

theorem waiting_parent_some {parentPid : Option Nat} {parent : Nat}
    (h : s.waitingParent parentPid = some parent) :
    parent ∈ s.taskGlobalList ∧ parentPid = some parent ∧
      (s.procs parent).status = .waiting := by
  have hmem := List.mem_of_find?_eq_some h
  have hkey := List.find?_some h
  simp only [decide_eq_true_eq] at hkey
  exact ⟨hmem, hkey.1.symm, hkey.2⟩

theorem waiting_parent_none {parentPid : Option Nat} (h : s.waitingParent parentPid = none) :
    ∀ q ∈ s.taskGlobalList, parentPid = some q → (s.procs q).status ≠ .waiting := by
  intro q hq heq hwaiting
  have hnone := List.find?_eq_none.mp h q hq
  exact hnone (by simp [heq, hwaiting])

/-- The tables of two families are the same, whatever the processes do. -/
structure SameTable (s t : Family) : Prop where
  list : t.taskGlobalList = s.taskGlobalList
  next : t.nextPid = s.nextPid
  reaped : t.reaped = s.reaped
  forker : t.forker = s.forker

theorem SameTable.trans {r t : Family} (h : SameTable r s) (h' : SameTable s t) :
    SameTable r t :=
  ⟨h'.list.trans h.list, h'.next.trans h.next, h'.reaped.trans h.reaped, h'.forker.trans h.forker⟩

/-- A change that keeps the status of its process does not change who is waiting. -/
theorem waiting_parent_set {proc : Process} (h : proc.status = (s.procs p).status)
    (parentPid : Option Nat) :
    (s.set p proc).waitingParent parentPid = s.waitingParent parentPid := by
  have hstatus : ∀ q, ((s.set p proc).procs q).status = (s.procs q).status := by
    intro q
    rw [set_procs]
    split
    · next heq => rw [heq, h]
    · rfl
  simp only [Family.waitingParent, hstatus]
  rfl

theorem notify_parent_same (s : Family) (parentPid : Option Nat) :
    SameTable s (s.notifyParent parentPid).1 := by
  unfold Family.notifyParent
  split <;> exact ⟨rfl, rfl, rfl, rfl⟩

theorem notify_parent_snd (s : Family) (parentPid : Option Nat) :
    (s.notifyParent parentPid).2 = (s.waitingParent parentPid).isSome := by
  unfold Family.notifyParent
  split
  · next heq => rw [heq]; rfl
  · next heq => rw [heq]; rfl

theorem notify_parent_procs (s : Family) (parentPid : Option Nat) (q : Nat) :
    (s.notifyParent parentPid).1.procs q =
      if s.waitingParent parentPid = some q then { s.procs q with status := .ready }
      else s.procs q := by
  unfold Family.notifyParent
  cases s.waitingParent parentPid with
  | none => rfl
  | some parent =>
      show (s.set parent _).procs q = _
      rw [set_procs]
      by_cases heq : q = parent
      · simp [heq]
      · simp [heq, Ne.symm heq]

/-- The process to which an exiting process leaves its zombie. -/
def heir (s : Family) (p : Nat) : Nat := (s.waitingParent (s.procs p).parentPid).getD 0

/-- The heir is the waiting parent, or else init. -/
theorem heir_cases (s : Family) (p : Nat) :
    (s.waitingParent (s.procs p).parentPid = some (heir s p) ∧ heir s p ∈ s.taskGlobalList ∧
        (s.procs p).parentPid = some (heir s p) ∧ (s.procs (heir s p)).status = .waiting) ∨
      (s.waitingParent (s.procs p).parentPid = none ∧ heir s p = 0 ∧
        ∀ q ∈ s.taskGlobalList, (s.procs p).parentPid = some q →
          (s.procs q).status ≠ .waiting) := by
  unfold heir
  cases hparent : s.waitingParent (s.procs p).parentPid with
  | some parent =>
      obtain ⟨hmem, heq, hwaiting⟩ := waiting_parent_some hparent
      exact .inl ⟨rfl, hmem, heq, hwaiting⟩
  | none => exact .inr ⟨rfl, rfl, waiting_parent_none hparent⟩

/-- Init is notified when it waits. -/
theorem waiting_parent_init (hinit : 0 ∈ s.taskGlobalList) (q : Nat) :
    s.waitingParent (some 0) = some q ↔ q = 0 ∧ (s.procs q).status = .waiting := by
  constructor
  · intro h
    obtain ⟨-, heq, hwaiting⟩ := waiting_parent_some h
    exact ⟨(Option.some.inj heq).symm, hwaiting⟩
  · intro ⟨hq, hwaiting⟩
    cases hfind : s.waitingParent (some 0) with
    | some q' =>
        obtain ⟨-, heq, -⟩ := waiting_parent_some hfind
        rw [hq, ← Option.some.inj heq]
    | none => exact absurd (hq ▸ hwaiting) (waiting_parent_none hfind 0 hinit rfl)

theorem sys_exit_same (s : Family) (p : Nat) (status : Int) :
    SameTable s (s.sysExit p status) := by
  have hset : ∀ (s : Family) p proc, SameTable s (s.set p proc) := fun _ _ _ => ⟨rfl, rfl, rfl, rfl⟩
  unfold Family.sysExit
  simp only
  split
  · exact (hset s p _).trans (notify_parent_same _ _)
  · exact (hset s p _).trans ((notify_parent_same _ _).trans
      ((hset _ p _).trans (notify_parent_same _ _)))

/-- What `SysExit` does to every process: the exiting one is left to its heir, and the heir is
woken. -/
theorem sys_exit_procs (hinit : 0 ∈ s.taskGlobalList) (hready : (s.procs p).status = .ready)
    (status : Int) (q : Nat) : (s.sysExit p status).procs q =
      if q = p then ⟨some (heir s p), status, .ready, .toZombie⟩
      else if q = heir s p ∧ (s.procs q).status = .waiting then
        { s.procs q with status := .ready }
      else s.procs q := by
  have hself : ∀ proc, (s.set p proc).procs p = proc := by
    intro proc
    rw [set_procs, if_pos rfl]
  unfold Family.sysExit
  simp only [hself, notify_parent_snd]
  rw [waiting_parent_set (by rfl)]
  rcases heir_cases s p with ⟨hparent, -, hheir, hwaiting⟩ | ⟨hnone, hzero, -⟩
  · rw [hparent, if_pos (by rfl), notify_parent_procs, waiting_parent_set (by rfl), hparent,
      set_procs]
    by_cases hq : q = p
    · subst hq
      have hne : heir s q ≠ q := by
        intro heq
        rw [heq, hready] at hwaiting
        cases hwaiting
      simp [hne, hheir, hready]
    · by_cases heq : heir s p = q
      · subst heq
        simp [hq, hwaiting]
      · simp [hq, heq, Ne.symm heq]
  · rw [hnone, if_neg (by simp)]
    have hsame : (s.set p { s.procs p with exitStatus := status, place := .toZombie }).notifyParent
        (s.procs p).parentPid =
          (s.set p { s.procs p with exitStatus := status, place := .toZombie }, false) := by
      unfold Family.notifyParent
      rw [waiting_parent_set (by rfl), hnone]
    rw [hsame, hzero]
    unfold Family.adopeChildren
    simp only [hself]
    have hinit' : ∀ proc proc', ((s.set p proc).set p proc').waitingParent (some 0) = some q ↔
        q = 0 ∧ (((s.set p proc).set p proc').procs q).status = .waiting :=
      fun proc proc' => @waiting_parent_init ((s.set p proc).set p proc') hinit q
    simp only [notify_parent_procs, hinit', set_procs]
    by_cases hq : q = p
    · simp [hq, hready]
    · simp [hq]

/-! ## The steps -/

theorem FamilyInv.block (h : FamilyInv s) (hmem : p ∈ s.taskGlobalList)
    (hplace : (s.procs p).place = .toWait) :
    FamilyInv (s.set p { s.procs p with status := .waiting, place := .toRepeat }) := by
  have hp := set_procs s p
  constructor
  all_goals simp only [hp, Family.set_list, Family.set_next, Family.set_reaped, Family.set_forker]
  case nodup => exact h.nodup
  case init => exact h.init
  case fresh => exact h.fresh
  case initParent => grind [h.initParent]
  case zombie => grind [h.zombie]
  case waiting => grind [h.waiting]
  case forked => grind [h.forked]
  case left => grind [h.left]
  case single => grind [h.single]
  case asleep => grind [h.asleep]
  case woken => grind [h.woken]
  case reaped => grind [h.reaped]
  case once => exact h.once

theorem FamilyInv.zombie_step (h : FamilyInv s) (hplace : (s.procs p).place = .toZombie) :
    FamilyInv (s.set p { s.procs p with status := .zombie }) := by
  have hp := set_procs s p
  constructor
  all_goals simp only [hp, Family.set_list, Family.set_next, Family.set_reaped, Family.set_forker]
  case nodup => exact h.nodup
  case init => exact h.init
  case fresh => exact h.fresh
  case initParent => grind [h.initParent]
  case zombie => grind [h.zombie]
  case waiting => grind [h.waiting]
  case forked => grind [h.forked]
  case left => grind [h.left]
  case single => grind [h.single]
  case asleep => grind [h.asleep]
  case woken => grind [h.woken]
  case reaped => grind [h.reaped]
  case once => exact h.once

theorem FamilyInv.fork_step (h : FamilyInv s) :
    FamilyInv (s.fork p) := by
  have hprocs : ∀ q, (s.fork p).procs q =
      if q = s.nextPid then ⟨some p, -1, .ready, .user⟩ else s.procs q :=
    fun q => set_procs s s.nextPid q _
  have hlist : (s.fork p).taskGlobalList = s.taskGlobalList ++ [s.nextPid] := rfl
  have hnext : (s.fork p).nextPid = s.nextPid + 1 := rfl
  have hreaped : (s.fork p).reaped = s.reaped := rfl
  have hforker : ∀ q, (s.fork p).forker q = if q = s.nextPid then p else s.forker q := by
    intro q
    show Function.update s.forker s.nextPid p q = _
    rw [Function.update_apply]
  have hfresh := h.fresh
  constructor
  all_goals simp only [hprocs, hlist, hnext, hreaped, hforker, List.mem_append, List.mem_singleton]
  case nodup =>
    rw [List.nodup_append]
    grind [h.nodup]
  case init => exact .inl h.init
  case fresh => grind
  case initParent => grind [h.initParent, h.init]
  case zombie => grind [h.zombie]
  case waiting => grind [h.waiting]
  case forked => grind [h.forked]
  case left => grind [h.left]
  case single => grind [h.single]
  case asleep => grind [h.asleep]
  case woken => grind [h.woken]
  case reaped => grind [h.reaped]
  case once => exact h.once

/-- What `SysExit` keeps of the other processes. -/
theorem sys_exit_other (hinit : 0 ∈ s.taskGlobalList) (hready : (s.procs p).status = .ready)
    (status : Int) {q : Nat} (hq : q ≠ p) :
    ((s.sysExit p status).procs q).parentPid = (s.procs q).parentPid ∧
      ((s.sysExit p status).procs q).exitStatus = (s.procs q).exitStatus ∧
      ((s.sysExit p status).procs q).place = (s.procs q).place ∧
      (((s.sysExit p status).procs q).status = (s.procs q).status ∨
        q = heir s p ∧ (s.procs q).status = .waiting ∧
          ((s.sysExit p status).procs q).status = .ready) := by
  rw [sys_exit_procs hinit hready, if_neg hq]
  split
  · next hw => exact ⟨rfl, rfl, rfl, .inr ⟨hw.1, hw.2, rfl⟩⟩
  · exact ⟨rfl, rfl, rfl, .inl rfl⟩

/-- The heir of a process is not itself asleep after the exit. -/
theorem sys_exit_heir (hinit : 0 ∈ s.taskGlobalList) (hready : (s.procs p).status = .ready)
    (status : Int) (hne : heir s p ≠ p) :
    ((s.sysExit p status).procs (heir s p)).status ≠ .waiting := by
  rw [sys_exit_procs hinit hready, if_neg hne]
  split
  · exact nofun
  · next hnot => exact fun hw => hnot ⟨rfl, hw⟩

theorem FamilyInv.exit_step (h : FamilyInv s) (hmem : p ∈ s.taskGlobalList)
    (hready : (s.procs p).status = .ready) (hplace : (s.procs p).place = .user) (status : Int)
    (hguard : familyGuard s (.exit p status)) : FamilyInv (s.sysExit p status) := by
  have hself := sys_exit_procs h.init hready status p
  rw [if_pos rfl] at hself
  have hother := fun q => @sys_exit_other s p h.init hready status q
  have hwoken := sys_exit_heir h.init hready status
  have hheir := heir_cases s p
  obtain ⟨hl, hn, hr, hf⟩ := sys_exit_same s p status
  have hplaces : ∀ q, ((s.sysExit p status).procs q).place ≠ .toZombie → q ≠ p := by
    intro q hq heq
    rw [heq, hself] at hq
    exact hq rfl
  refine ⟨?_, ?_, ?_, ?_, ?_, ?_, ?_, ?_, ?_, ?_, ?_, ?_, ?_⟩ <;> try simp only [hl, hn, hr, hf]
  · exact h.nodup
  · exact h.init
  · exact h.fresh
  · by_cases hzero : 0 = p
    · subst hzero
      rw [hself]
      rcases hheir with ⟨-, -, hparent, -⟩ | ⟨-, hzero, -⟩
      · rcases h.initParent with hnone | ⟨-, htoZombie⟩
        · rw [hnone] at hparent
          cases hparent
        · rw [hplace] at htoZombie
          cases htoZombie
      · exact .inr ⟨congrArg some hzero, rfl⟩
    · obtain ⟨hparent, -, hplace0, -⟩ := hother 0 hzero
      rw [hparent, hplace0]
      exact h.initParent
  · intro q hq hzombie
    by_cases heq : q = p
    · rw [heq, hself]
    · obtain ⟨-, -, hplaceq, hstatus | ⟨-, -, hstatus⟩⟩ := hother q heq
      · rw [hplaceq]
        exact h.zombie q hq (hstatus ▸ hzombie)
      · rw [hstatus] at hzombie
        cases hzombie
  · intro q hq hwaiting
    by_cases heq : q = p
    · rw [heq, hself] at hwaiting
      cases hwaiting
    · obtain ⟨-, -, hplaceq, hstatus | ⟨-, -, hstatus⟩⟩ := hother q heq
      · rw [hplaceq]
        exact h.waiting q hq (hstatus ▸ hwaiting)
      · rw [hstatus] at hwaiting
        cases hwaiting
  · intro c hc hnot
    obtain ⟨hparent, -, hplacec, -⟩ := hother c (hplaces c hnot)
    rw [hparent]
    exact h.forked c hc (hplacec ▸ hnot)
  -- left: the heir is init or was waiting, and then the process was forked by it
  · intro c hc htoZombie
    by_cases heq : c = p
    · rw [heq, hself]
      rcases hheir with ⟨hwp, hheirMem, hparent, hwaiting⟩ | ⟨-, hzero, -⟩
      · right
        have hne : heir s p ≠ p := by
          intro heq'
          rw [heq', hready] at hwaiting
          cases hwaiting
        obtain ⟨-, -, hplaceh, hstatus⟩ := hother _ hne
        have hforker : heir s p = s.forker p := by
          rcases h.forked p hmem (by rw [hplace]; nofun) with hnone | hsome
          · rw [hnone] at hparent
            cases hparent
          · exact Option.some.inj (hparent.symm.trans hsome)
        refine ⟨heir s p, hheirMem, rfl, hforker, ?_, ?_⟩
        · rw [hplaceh]
          exact h.waiting _ hheirMem hwaiting
        · rcases hstatus with hsame | ⟨-, -, hr'⟩
          · exact absurd (hsame.trans hwaiting) (hwoken hne)
          · exact hr'
      · exact .inl (congrArg some hzero)
    · obtain ⟨hparent, -, hplacec, -⟩ := hother c heq
      rw [hplacec] at htoZombie
      rw [hparent]
      rcases h.left c hc htoZombie with hinit | ⟨q, hq, hsome, hforker, hplaceq, hreadyq⟩
      · exact .inl hinit
      · right
        have hne : q ≠ p := by
          intro heq'
          rw [heq', hplace] at hplaceq
          cases hplaceq
        obtain ⟨-, -, hplaceq', hstatus | ⟨-, hwaiting, -⟩⟩ := hother q hne
        · exact ⟨q, hq, hsome, hforker, hplaceq'.trans hplaceq, hstatus.trans hreadyq⟩
        · rw [hreadyq] at hwaiting
          cases hwaiting
  -- single: a waiting heir had no child at `toZombie`
  · have hnew : ∀ c ∈ s.taskGlobalList, c ≠ p → (s.procs c).place = .toZombie →
        (s.procs c).parentPid = some (heir s p) → some (heir s p) = some 0 := by
      intro c hc _ htoZombie hparent
      rcases hheir with ⟨-, hheirMem, -, hwaiting⟩ | ⟨-, hzero, -⟩
      · exact absurd htoZombie ((h.asleep _ hheirMem (.inl hwaiting)).2 c hc hparent)
      · exact congrArg some hzero
    intro c hc c' hc' hz hz' heq
    by_cases hcp : c = p
    · by_cases hcp' : c' = p
      · exact .inr (hcp.trans hcp'.symm)
      · obtain ⟨hparent, -, hplacec, -⟩ := hother c' hcp'
        rw [hcp, hself, hparent] at heq
        rw [hcp, hself]
        exact .inl (hnew c' hc' hcp' (hplacec ▸ hz') heq.symm)
    · obtain ⟨hparent, -, hplacec, -⟩ := hother c hcp
      by_cases hcp' : c' = p
      · rw [hcp', hself, hparent] at heq
        rw [hparent, heq]
        exact .inl (hnew c hc hcp (hplacec ▸ hz) heq)
      · obtain ⟨hparent', -, hplacec', -⟩ := hother c' hcp'
        rw [hparent, hparent'] at heq
        rw [hparent]
        exact h.single c hc c' hc' (hplacec ▸ hz) (hplacec' ▸ hz') heq
  -- asleep: the guard leaves a child to who is about to sleep, and the heir is no longer asleep
  · intro q hq hasleep
    have hne : q ≠ p := by
      intro heq
      rw [heq, hself] at hasleep
      rcases hasleep with hw | hw <;> cases hw
    obtain ⟨-, -, hplaceq, hstatus⟩ := hother q hne
    have hbefore : (s.procs q).status = .waiting ∨ (s.procs q).place = .toWait := by
      rcases hasleep with hw | hw
      · rcases hstatus with hsame | ⟨-, hw', -⟩
        · exact .inl (hsame ▸ hw)
        · exact .inl hw'
      · exact .inr (hplaceq ▸ hw)
    obtain ⟨⟨c₀, hc₀, hparent₀⟩, hnot⟩ := h.asleep q hq hbefore
    -- an exiting child would have woken the waiting process
    have hchild : (s.procs q).status = .waiting → (s.procs p).parentPid ≠ some q := by
      intro hw hparent
      rcases hheir with ⟨-, -, hparent', -⟩ | ⟨-, -, hnone⟩
      · have heq : q = heir s p := Option.some.inj (hparent.symm.trans hparent')
        rcases hasleep with hw' | hw'
        · exact hwoken (heq ▸ hne) (heq ▸ hw')
        · rw [hplaceq, h.waiting q hq hw] at hw'
          cases hw'
      · exact hnone q hq hparent hw
    have hheirNe : heir s p ≠ q := by
      intro heq
      rcases hheir with ⟨-, -, hparent, hw⟩ | ⟨hnone, hzero, -⟩
      · exact hchild (heq ▸ hw) (heq ▸ hparent)
      · rcases hbefore with hw | hw
        · rcases hasleep with hw' | hw'
          · exact hwoken (heq ▸ hne) (heq ▸ hw')
          · rw [hplaceq, h.waiting q hq hw] at hw'
            cases hw'
        · have hsome := (hguard q hq hw).1 (heq.symm.trans hzero)
          rw [hnone] at hsome
          cases hsome
    refine ⟨?_, ?_⟩
    · have hother' : ∃ c ∈ s.taskGlobalList, (s.procs c).parentPid = some q ∧ c ≠ p := by
        by_cases hcp : c₀ = p
        · rcases hbefore with hw | hw
          · exact absurd (hcp ▸ hparent₀) (hchild hw)
          · obtain ⟨c, hc, hcp'⟩ := (hguard q hq hw).2 (hcp ▸ hparent₀)
            simp only [Family.children, List.mem_filter, decide_eq_true_eq] at hc
            exact ⟨c, hc.1, hc.2, hcp'⟩
        · exact ⟨c₀, hc₀, hparent₀, hcp⟩
      obtain ⟨c, hc, hparent, hcp⟩ := hother'
      exact ⟨c, hc, (hother c hcp).1.trans hparent⟩
    · intro c hc hparent htoZombie
      by_cases hcp : c = p
      · rw [hcp, hself] at hparent
        exact hheirNe (Option.some.inj hparent)
      · obtain ⟨hparent', -, hplacec, -⟩ := hother c hcp
        exact hnot c hc (hparent' ▸ hparent) (hplacec ▸ htoZombie)
  -- woken: by an earlier exit, or by this one
  · intro q hq htoRepeat hreadyq
    have hne : q ≠ p := by
      intro heq
      rw [heq, hself] at htoRepeat
      cases htoRepeat
    obtain ⟨-, -, hplaceq, hstatus | ⟨hheirq, -, -⟩⟩ := hother q hne
    · obtain ⟨c, hc, hparent, htoZombie⟩ :=
        h.woken q hq (hplaceq ▸ htoRepeat) (hstatus ▸ hreadyq)
      have hcp : c ≠ p := by
        intro heq
        rw [heq, hplace] at htoZombie
        cases htoZombie
      obtain ⟨hparent', -, hplacec, -⟩ := hother c hcp
      exact ⟨c, hc, hparent'.trans hparent, hplacec.trans htoZombie⟩
    · refine ⟨p, hmem, ?_, ?_⟩
      · rw [hself, hheirq]
      · rw [hself]
  -- reaped: who exits is still in the list
  · intro r hr'
    obtain ⟨hnot, hlt, hparent, hexit⟩ := h.reaped r hr'
    have hcp : r.child ≠ p := by
      intro heq
      exact hnot (heq ▸ hmem)
    obtain ⟨hparent', hexit', -, -⟩ := hother _ hcp
    exact ⟨hnot, hlt, hparent'.trans hparent, hexit'.trans hexit⟩
  · exact h.once

/-- What `SysWait` does when its scan finds a zombie, which is then the only child at
`toZombie`, or one of those left to init. -/
theorem FamilyInv.reap (h : FamilyInv s)
    (hplace : (s.procs p).place = .user ∨ (s.procs p).place = .toRepeat)
    (hready : (s.procs p).status = .ready) {z : Nat} (hz : z ∈ s.taskGlobalList)
    (hparent : (s.procs z).parentPid = some p) (hzombie : (s.procs z).status = .zombie) :
    FamilyInv { s.set p { s.procs p with place := .user } with
      taskGlobalList := s.taskGlobalList.erase z
      reaped := s.reaped ++ [⟨p, z, (s.procs z).exitStatus⟩] } := by
  have hp := set_procs s p
  have htoZombie := h.zombie z hz hzombie
  have hzp : z ≠ p := by
    intro heq
    rw [heq, hready] at hzombie
    cases hzombie
  -- init has no parent until it exits, and then it is not at the beginning of a scan
  have hz0 : z ≠ 0 := by
    intro heq
    rcases h.initParent with hnone | ⟨hsome, htz⟩
    · rw [heq, hnone] at hparent
      cases hparent
    · rw [heq, hsome] at hparent
      have hp0 : p = 0 := (Option.some.inj hparent).symm
      exact hzp (heq.trans hp0.symm)
  have herase : ∀ q, q ∈ s.taskGlobalList.erase z ↔ q ≠ z ∧ q ∈ s.taskGlobalList :=
    fun q => h.nodup.mem_erase_iff
  have hsame : ∀ q, ((s.set p { s.procs p with place := .user }).procs q).parentPid =
      (s.procs q).parentPid ∧ ((s.set p { s.procs p with place := .user }).procs q).status =
      (s.procs q).status ∧ ((s.set p { s.procs p with place := .user }).procs q).exitStatus =
      (s.procs q).exitStatus := by
    intro q
    rw [hp]
    split
    · next heq => exact heq ▸ ⟨rfl, rfl, rfl⟩
    · exact ⟨rfl, rfl, rfl⟩
  have hplaceOf : ∀ q, ((s.set p { s.procs p with place := .user }).procs q).place =
      if q = p then .user else (s.procs q).place := by
    intro q
    rw [hp, apply_ite Process.place]
  constructor
  all_goals simp only [hsame, hplaceOf, herase, Family.set_next, Family.set_forker]
  · exact h.nodup.erase z
  · exact ⟨hz0.symm, h.init⟩
  · exact fun q hq => h.fresh q hq.2
  · grind [h.initParent]
  · grind [h.zombie]
  · grind [h.waiting]
  · grind [h.forked]
  · intro c ⟨hcz, hc⟩ hplacec
    have hcp : c ≠ p := by
      intro heq
      rw [if_pos heq] at hplacec
      cases hplacec
    rw [if_neg hcp] at hplacec
    rcases h.left c hc hplacec with hinit | ⟨q, hq, hsome, hforker, hplaceq, hreadyq⟩
    · exact .inl hinit
    · by_cases hqp : q = p
      -- the process that scans has no second child at `toZombie`, unless it is init
      · rcases h.single c hc z hz hplacec htoZombie
          (hsome.trans (hparent.trans (congrArg some hqp.symm)).symm) with hinit | heq
        · exact .inl hinit
        · exact absurd heq hcz
      · refine .inr ⟨q, ⟨?_, hq⟩, hsome, hforker, ?_, hreadyq⟩
        · intro heq
          rw [heq, htoZombie] at hplaceq
          cases hplaceq
        · rw [if_neg hqp]
          exact hplaceq
  · rintro c ⟨-, hc⟩ c' ⟨-, hc'⟩ hplacec hplacec'
    refine h.single c hc c' hc' ?_ ?_
    · grind
    · grind
  · rintro q ⟨-, hq⟩ hasleep
    have hqp : q ≠ p := by
      intro heq
      rw [if_pos heq, heq, hready] at hasleep
      rcases hasleep with hw | hw <;> cases hw
    rw [if_neg hqp] at hasleep
    obtain ⟨⟨c, hc, hparentc⟩, hnot⟩ := h.asleep q hq hasleep
    refine ⟨⟨c, ⟨?_, hc⟩, hparentc⟩, ?_⟩
    · intro heq
      rw [heq, hparent] at hparentc
      exact hqp (Option.some.inj hparentc).symm
    · rintro c' ⟨-, hc'⟩ hparent'
      split
      · nofun
      · exact hnot c' hc' hparent'
  · rintro q ⟨-, hq⟩ hplaceq hreadyq
    have hqp : q ≠ p := by
      intro heq
      rw [if_pos heq] at hplaceq
      cases hplaceq
    rw [if_neg hqp] at hplaceq
    obtain ⟨c, hc, hparentc, hplacec⟩ := h.woken q hq hplaceq hreadyq
    refine ⟨c, ⟨?_, hc⟩, hparentc, ?_⟩
    · intro heq
      rw [heq, hparent] at hparentc
      exact hqp (Option.some.inj hparentc).symm
    · have hcp : c ≠ p := by
        intro heq
        rw [heq] at hplacec
        rcases hplace with hp' | hp' <;> rw [hp'] at hplacec <;> cases hplacec
      rw [if_neg hcp]
      exact hplacec
  · intro r hr
    rcases List.mem_append.mp hr with hr | hr
    · obtain ⟨hnot, hrest⟩ := h.reaped r hr
      exact ⟨fun hmem' => hnot hmem'.2, hrest⟩
    · obtain rfl := List.mem_singleton.mp hr
      exact ⟨fun hmem' => hmem'.1 rfl, h.fresh z hz, hparent, rfl⟩
  · rw [List.map_append, List.nodup_append]
    refine ⟨h.once, by simp, ?_⟩
    intro a ha b hb heq
    obtain ⟨r, hr, hra⟩ := List.mem_map.mp ha
    have hbz : b = z := by simpa using hb
    refine (h.reaped r hr).1 ?_
    rw [hra, heq, hbz]
    exact hz

/-- What `SysWait` does when its scan finds no zombie. A process that was woken does not come
here. -/
theorem FamilyInv.unfound (h : FamilyInv s) (hmem : p ∈ s.taskGlobalList)
    (hplace : (s.procs p).place = .user ∨ (s.procs p).place = .toRepeat)
    (hready : (s.procs p).status = .ready) (hguard : familyGuard s (.scan p))
    (hnone : ∀ c ∈ s.children p, (s.procs c).status ≠ .zombie) (found : Bool)
    (hfound : found = true → (s.procs p).place = .toRepeat) :
    FamilyInv (s.set p { s.procs p with
      place := if found || !(s.children p).isEmpty then .toWait else .user }) := by
  have hchild : ∀ c ∈ s.taskGlobalList, (s.procs c).parentPid = some p → c ∈ s.children p := by
    intro c hc hparent
    rw [Family.children, List.mem_filter]
    exact ⟨hc, decide_eq_true hparent⟩
  have hnotZombie : ∀ c ∈ s.taskGlobalList, (s.procs c).parentPid = some p →
      (s.procs c).place ≠ .toZombie := by
    intro c hc hparent htoZombie
    exact hnone c (hchild c hc hparent) (hguard c (hchild c hc hparent) htoZombie)
  have huser : (s.procs p).place = .user := by
    rcases hplace with huser | htoRepeat
    · exact huser
    · obtain ⟨c, hc, hparent, htoZombie⟩ := h.woken p hmem htoRepeat hready
      exact absurd htoZombie (hnotZombie c hc hparent)
  have hnotFound : found = false := by
    cases found with
    | false => rfl
    | true =>
        have htoRepeat := hfound rfl
        rw [huser] at htoRepeat
        cases htoRepeat
  subst hnotFound
  have hp := set_procs s p
  by_cases hempty : (s.children p).isEmpty
  · have hsame : s.set p { s.procs p with
        place := if false || !(s.children p).isEmpty then .toWait else .user } = s := by
      have hproc : { s.procs p with place := .user } = s.procs p := by rw [← huser]
      rw [Bool.false_or, hempty, Bool.not_true, if_neg (by simp), hproc]
      unfold Family.set
      rw [Function.update_eq_self]
    rw [hsame]
    exact h
  · have hsome : ∃ c ∈ s.taskGlobalList, (s.procs c).parentPid = some p := by
      obtain ⟨c, hc⟩ := List.exists_mem_of_ne_nil _ (by simpa using hempty)
      rw [Family.children, List.mem_filter] at hc
      exact ⟨c, hc.1, of_decide_eq_true hc.2⟩
    rw [Bool.false_or, if_pos (by simpa using hempty)]
    constructor
    all_goals simp only [hp, Family.set_list, Family.set_next, Family.set_reaped,
      Family.set_forker]
    · exact h.nodup
    · exact h.init
    · exact h.fresh
    · grind [h.initParent]
    · grind [h.zombie]
    · grind [h.waiting]
    · grind [h.forked]
    · grind [h.left]
    · grind [h.single]
    · grind [h.asleep]
    · grind [h.woken]
    · grind [h.reaped]
    · exact h.once

theorem FamilyInv.scan_step (h : FamilyInv s) (hmem : p ∈ s.taskGlobalList)
    (hplace : (s.procs p).place = .user ∨ (s.procs p).place = .toRepeat)
    (hready : (s.procs p).status = .ready) (hguard : familyGuard s (.scan p)) (found : Bool)
    (hfound : found = true → (s.procs p).place = .toRepeat) : FamilyInv (s.scan p found) := by
  unfold Family.scan
  cases hfind : (s.children p).find? fun c => (s.procs c).status = .zombie with
  | some z =>
      have hz := List.mem_of_find?_eq_some hfind
      rw [Family.children, List.mem_filter] at hz
      have hzombie := List.find?_some hfind
      exact h.reap hplace hready hz.1 (of_decide_eq_true hz.2) (of_decide_eq_true hzombie)
  | none =>
      refine h.unfound hmem hplace hready hguard ?_ found hfound
      intro c hc hzombie
      exact List.find?_eq_none.mp hfind c hc (decide_eq_true hzombie)

/-- Every step that spares the windows keeps the invariant. -/
theorem FamilyInv.step (h : FamilyInv s) {op : FamilyOp} (hguard : familyGuard s op) {t : Family}
    (hstep : familyStep s op = some t) : FamilyInv t := by
  unfold familyStep at hstep
  split at hstep
  · next hbegins =>
      cases Option.some.inj hstep
      cases op with
      | fork p => exact h.fork_step
      | exit p status => exact h.exit_step hbegins.1 hbegins.2.1 hbegins.2.2 status hguard
      | zombie p => exact h.zombie_step hbegins.2.2
      | scan p =>
          exact h.scan_step hbegins.1 hbegins.2.2 hbegins.2.1 hguard _ of_decide_eq_true
      | block p => exact h.block hbegins.1 hbegins.2.2
  · cases hstep

theorem FamilyInv.of_init : FamilyInv Family.init := by
  constructor <;> simp [Family.init]

end

/-! ## Runs -/

/-- What the protocol promises. A zombie is left to its parent or to init, which is there. It is
returned at most once, to the process its `parentPid` names. And who waits has a child and no
zombie among its children. -/
structure ExitWaitSafe (s : Family) : Prop where
  zombie : ∀ c ∈ s.taskGlobalList, (s.procs c).status = .zombie →
    ∃ q ∈ s.taskGlobalList, (s.procs c).parentPid = some q ∧ (q = s.forker c ∨ q = 0)
  returned : ∀ r ∈ s.reaped, (s.procs r.child).parentPid = some r.waiter ∧
    (s.procs r.child).exitStatus = r.exitStatus ∧ r.child ∉ s.taskGlobalList
  once : (s.reaped.map Reaped.child).Nodup
  waiting : ∀ q ∈ s.taskGlobalList, (s.procs q).status = .waiting →
    (∃ c ∈ s.taskGlobalList, (s.procs c).parentPid = some q) ∧
      ∀ c ∈ s.taskGlobalList, (s.procs c).parentPid = some q → (s.procs c).status ≠ .zombie

theorem FamilyInv.safe {s : Family} (h : FamilyInv s) : ExitWaitSafe s := by
  constructor
  · intro c hc hzombie
    rcases h.left c hc (h.zombie c hc hzombie) with hinit | ⟨q, hq, hparent, hforker, -, -⟩
    · exact ⟨0, h.init, hinit, .inr rfl⟩
    · exact ⟨q, hq, hparent, .inl hforker⟩
  · intro r hr
    obtain ⟨hnot, -, hparent, hexit⟩ := h.reaped r hr
    exact ⟨hparent, hexit, hnot⟩
  · exact h.once
  · intro q hq hwaiting
    obtain ⟨hsome, hnot⟩ := h.asleep q hq (.inl hwaiting)
    refine ⟨hsome, ?_⟩
    intro c hc hparent hzombie
    exact hnot c hc hparent (h.zombie c hc hzombie)

/-- The protocol keeps its promises in every run that spares the two windows. -/
theorem exit_wait_safe {ops : List FamilyOp} {t : Family}
    (h : Run (stepOf familyStep) familyGuard Family.init ops t) : ExitWaitSafe t :=
  (h.invariant (fun _ _ _ hs hguard hstep => FamilyInv.step hs hguard hstep)
    FamilyInv.of_init).safe

/-- Init waits for its child, whose child is left to init when it exits first. -/
theorem two_children_reaped : ∃ s t, some Family.init = some s ∧
    Run (stepOf familyStep) familyGuard s
      [.fork 0, .scan 0, .fork 1, .block 0, .exit 2 7, .zombie 2, .scan 0, .exit 1 3, .zombie 1,
        .scan 0] t ∧
    (t.reaped, t.taskGlobalList) = ([⟨0, 2, 7⟩, ⟨0, 1, 3⟩], [0]) ∧ ExitWaitSafe t := by
  obtain ⟨s, t, hs, hrun, hview⟩ := exists_run_checked familyStep familyGuard (some Family.init)
    [.fork 0, .scan 0, .fork 1, .block 0, .exit 2 7, .zombie 2, .scan 0, .exit 1 3, .zombie 1,
      .scan 0] (fun t => (t.reaped, t.taskGlobalList))
    (v := ([⟨0, 2, 7⟩, ⟨0, 1, 3⟩], [0])) (by decide)
  cases Option.some.inj hs
  exact ⟨_, t, rfl, hrun, hview, exit_wait_safe hrun⟩

/-- Preempted before it is a zombie, the child has its parent scan in vain and wait for ever. -/
theorem parent_waits_for_zombie : ∃ s t, some Family.init = some s ∧
    Run (stepOf familyStep) anyLabel s
      [.fork 0, .scan 0, .block 0, .exit 1 5, .scan 0, .block 0, .zombie 1] t ∧
    ¬ ExitWaitSafe t := by
  obtain ⟨s, t, hs, hrun, hview⟩ := exists_run_all familyStep (some Family.init)
    [.fork 0, .scan 0, .block 0, .exit 1 5, .scan 0, .block 0, .zombie 1]
    (fun t => (t.taskGlobalList, (t.procs 0).status, (t.procs 1).status, (t.procs 1).parentPid))
    (v := ([0, 1], .waiting, .zombie, some 0)) (by decide)
  refine ⟨s, t, hs, hrun, ?_⟩
  intro hsafe
  obtain ⟨hlist, hwaiting, hzombie, hparent⟩ : t.taskGlobalList = [0, 1] ∧
      (t.procs 0).status = .waiting ∧ (t.procs 1).status = .zombie ∧
      (t.procs 1).parentPid = some 0 := by simpa using hview
  exact (hsafe.waiting 0 (by simp [hlist]) hwaiting).2 1 (by simp [hlist]) hparent hzombie

end XBook.ExitWait
