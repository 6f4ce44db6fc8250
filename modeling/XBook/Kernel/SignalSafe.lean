import XBook.Kernel.SignalInvariant
import XBook.Lib.Transition

/-!
# Signals that wake nobody too early

The steps of `SignalTasks` for requests and FIFOs keep `SignalInv`, and with them every step that
`signalGuard` allows. In a run of such steps no task goes past a primitive without what it waited
for, none is left linked, and no `ASSERT` fails.
-/

namespace XBook.Signals

open IoTasks (Side)
open Transition

variable {Obj Tid : Type*} [DecidableEq Obj] [DecidableEq Tid]

section

variable {s t : SignalTasks Obj Tid} {p : Tid}

/-! ## Requests -/

/-- A new request, whose task waits for it or serves it. -/
theorem RequestInv.make (h : RequestInv s) {d : Obj} (serves : Bool)
    {task : Task Obj} (hidle : (s.task p).place.request = none)
    (htask : t.task = Function.update s.task p task)
    (hnew : task.place.request = some (serves, d, s.nextRequest d))
    (hblocked : serves = false → task.status = .blocked)
    (hrequests : ∀ e, t.requests e =
      if e = d ∧ serves = false then s.requests d ++ [s.nextRequest d] else s.requests e)
    (hwaiter : ∀ e r, t.waiter e r =
      if e = d ∧ r = s.nextRequest d then some p else s.waiter e r)
    (hnext : ∀ e, t.nextRequest e = if e = d then s.nextRequest d + 1 else s.nextRequest e)
    (hended : t.ended = s.ended)
    (hcurrent : ∀ e, t.currentRequest e = none → e ≠ d ∧ s.currentRequest e = none) :
    RequestInv t := by
  have hself : t.task p = task := by rw [htask, Function.update_self]
  have hother : ∀ q, q ≠ p → t.task q = s.task q := by
    intro q hne
    rw [htask, Function.update_of_ne hne]
  have hfresh : s.nextRequest d ∉ s.requests d ∧ s.nextRequest d ∉ s.ended d ∧
      ∀ q, (s.task q).place.request ≠ some (true, d, s.nextRequest d) := by
    refine ⟨?_, ?_, ?_⟩
    · exact fun hin => absurd (h.fresh d _ (.inl hin)) (Nat.lt_irrefl _)
    · exact fun hin => absurd (h.fresh d _ (.inr (.inl hin))) (Nat.lt_irrefl _)
    · exact fun q hq => absurd (h.fresh d _ (.inr (.inr ⟨q, hq⟩))) (Nat.lt_irrefl _)
  have hserves : ∀ a e c, (t.task a).place.request = some (true, e, c) →
      (a = p ∧ e = d ∧ c = s.nextRequest d ∧ serves = true) ∨
        (s.task a).place.request = some (true, e, c) := by
    intro a e c ha
    by_cases heq : a = p
    · subst heq
      rw [hself, hnew] at ha
      cases ha
      exact .inl ⟨rfl, rfl, rfl, rfl⟩
    · rw [hother a heq] at ha
      exact .inr ha
  have hwaits : ∀ a e c, (s.task a).place.request = some (false, e, c) →
      (t.task a).place.request = some (false, e, c) := by
    intro a e c ha
    rw [hother a]
    · exact ha
    · rintro rfl
      rw [hidle] at ha
      cases ha
  have hmem : ∀ e c, c ∈ t.requests e →
      c ∈ s.requests e ∨ e = d ∧ c = s.nextRequest d ∧ serves = false := by
    intro e c hc
    rw [hrequests] at hc
    split at hc
    · next hand =>
        rw [hand.1]
        rcases List.mem_append.mp hc with hc | hc
        · exact .inl hc
        · exact .inr ⟨rfl, List.mem_singleton.mp hc, hand.2⟩
    · exact .inl hc
  have hold : ∀ e c, c < s.nextRequest e → t.waiter e c = s.waiter e c := by
    intro e c hlt
    rw [hwaiter, if_neg]
    rintro ⟨rfl, rfl⟩
    exact Nat.lt_irrefl _ hlt
  constructor
  · intro q e c hq
    by_cases heq : q = p
    · subst heq
      rw [hself, hnew] at hq
      rw [hself]
      exact .inl (hblocked (congrArg Prod.fst (Option.some.inj hq)))
    · rw [hother q heq] at hq
      rw [hother q heq, hended]
      exact h.done q e c hq
  · intro e c hc
    rcases hmem e c hc with hc | ⟨rfl, rfl, rfl⟩
    · obtain ⟨a, ha, hplace⟩ := h.queued e c hc
      exact ⟨a, (hold e c (h.fresh e c (.inl hc))).trans ha, hwaits a e c hplace⟩
    · refine ⟨p, ?_, ?_⟩
      · rw [hwaiter, if_pos ⟨rfl, rfl⟩]
      · rw [hself]
        exact hnew
  · intro q e c hq
    rcases hserves q e c hq with ⟨rfl, rfl, rfl, -⟩ | hq
    · refine ⟨q, ?_, .inl rfl⟩
      rw [hwaiter, if_pos ⟨rfl, rfl⟩]
    · obtain ⟨a, ha, hor⟩ := h.served q e c hq
      exact ⟨a, (hold e c (h.fresh e c (.inr (.inr ⟨q, hq⟩)))).trans ha,
        hor.imp_right (hwaits a e c)⟩
  · intro e
    rw [hrequests]
    split
    · exact nodup_push_back (h.nodup d) hfresh.1
    · exact h.nodup e
  · intro e c hc
    rw [hended]
    rcases hmem e c hc with hc | ⟨rfl, rfl, -⟩
    · exact h.apart e c hc
    · exact hfresh.2.1
  · intro q e c hq
    rw [hended]
    rcases hserves q e c hq with ⟨-, rfl, rfl, hserves⟩ | hq
    · refine ⟨fun hc => ?_, hfresh.2.1⟩
      rcases hmem e _ hc with hc | ⟨-, -, hwaits⟩
      · exact hfresh.1 hc
      · rw [hserves] at hwaits
        cases hwaits
    · refine ⟨fun hc => ?_, (h.serving q e c hq).2⟩
      rcases hmem e c hc with hc | ⟨rfl, rfl, -⟩
      · exact (h.serving q e c hq).1 hc
      · exact hfresh.2.2 q hq
  · intro a b e c ha hb
    rcases hserves a e c ha with ⟨rfl, rfl, rfl, -⟩ | ha
    · rcases hserves b e _ hb with ⟨rfl, -, -, -⟩ | hb
      · rfl
      · exact absurd hb (hfresh.2.2 b)
    · rcases hserves b e c hb with ⟨rfl, rfl, rfl, -⟩ | hb
      · exact absurd ha (hfresh.2.2 a)
      · exact h.single a b e c ha hb
  · intro e c hor
    have hlt : ∀ c, c < s.nextRequest e ∨ e = d ∧ c = s.nextRequest d → c < t.nextRequest e := by
      intro c hor
      rw [hnext]
      split
      · next he =>
          rcases hor with hlt | ⟨-, rfl⟩
          · rw [he] at hlt
            omega
          · exact Nat.lt_succ_self _
      · next he => exact hor.resolve_right fun hand => he hand.1
    refine hlt c ?_
    rcases hor with hc | hc | ⟨q, hq⟩
    · rcases hmem e c hc with hc | ⟨rfl, rfl, -⟩
      · exact .inl (h.fresh e c (.inl hc))
      · exact .inr ⟨rfl, rfl⟩
    · rw [hended] at hc
      exact .inl (h.fresh e c (.inr (.inl hc)))
    · rcases hserves q e c hq with ⟨-, rfl, rfl, -⟩ | hq
      · exact .inr ⟨rfl, rfl⟩
      · exact .inl (h.fresh e c (.inr (.inr ⟨q, hq⟩)))
  · intro e he
    obtain ⟨hne, he⟩ := hcurrent e he
    rw [hrequests, if_neg fun hand => hne hand.1]
    exact h.idle e he

omit [DecidableEq Tid] in
/-- A task ends its request and serves the next one, or returns. -/
theorem RequestInv.finish (h : RequestInv s) {d : Obj} {r : Nat} (next : Option Nat)
    (hserves : (s.task p).place.request = some (true, d, r))
    (hplace : ∀ q, q ≠ p → (t.task q).place.request = (s.task q).place.request)
    (hself : (t.task p).place.request = next.map fun c => (true, d, c))
    (hblocked : ∀ q e c, (s.task q).place.request = some (false, e, c) →
      (s.task q).status = .blocked → (t.task q).status = .blocked ∨ e = d ∧ c = r)
    (hchoice : ∀ c ∈ next, c ∈ s.requests d) (hlast : next = none → s.requests d = [])
    (hrequests : ∀ e, t.requests e =
      if e = d then next.elim (s.requests d) (s.requests d).erase else s.requests e)
    (hwaiter : t.waiter = s.waiter) (hnext : t.nextRequest = s.nextRequest)
    (hended : ∀ e, t.ended e = if e = d then r :: s.ended d else s.ended e)
    (hcurrent : ∀ e, t.currentRequest e = none →
      e = d ∧ next = none ∨ e ≠ d ∧ s.currentRequest e = none) : RequestInv t := by
  have hr := h.serving p d r hserves
  have hlt := h.fresh d r (.inr (.inr ⟨p, hserves⟩))
  have hwaits : ∀ a e c, (s.task a).place.request = some (false, e, c) →
      (t.task a).place.request = some (false, e, c) := by
    intro a e c ha
    rw [hplace a]
    · exact ha
    · rintro rfl
      rw [hserves] at ha
      cases ha
  have hserving : ∀ a e c, (t.task a).place.request = some (true, e, c) →
      (a = p ∧ e = d ∧ next = some c) ∨ a ≠ p ∧ (s.task a).place.request = some (true, e, c) := by
    intro a e c ha
    by_cases heq : a = p
    · subst heq
      rw [hself] at ha
      obtain ⟨c', hnext, heq⟩ := Option.map_eq_some_iff.mp ha
      cases heq
      exact .inl ⟨rfl, rfl, hnext⟩
    · rw [hplace a heq] at ha
      exact .inr ⟨heq, ha⟩
  have hleft : ∀ e c, c ∈ t.requests e → c ∈ s.requests e ∧ ¬ (e = d ∧ next = some c) := by
    intro e c hc
    rw [hrequests] at hc
    split at hc
    · next he =>
        subst he
        cases next with
        | none => exact ⟨hc, nofun⟩
        | some c' =>
            obtain ⟨hne, hin⟩ := (h.nodup e).mem_erase_iff.mp hc
            exact ⟨hin, fun hand => hne (Option.some.inj hand.2).symm⟩
    · next he => exact ⟨hc, fun hand => he hand.1⟩
  have hends : ∀ e c, c ∈ t.ended e ↔ c ∈ s.ended e ∨ e = d ∧ c = r := by
    intro e c
    rw [hended]
    split
    · next he =>
        subst he
        rw [List.mem_cons]
        tauto
    · next he => exact ⟨.inl, fun hor => hor.resolve_right fun hand => he hand.1⟩
  constructor
  · intro a e c ha
    have hne : a ≠ p := by
      rintro rfl
      rw [hself] at ha
      cases next <;> cases ha
    rw [hplace a hne] at ha
    rw [hends]
    rcases h.done a e c ha with hb | hin
    · exact (hblocked a e c ha hb).imp_right .inr
    · exact .inr (.inl hin)
  · intro e c hc
    obtain ⟨a, ha, hplace'⟩ := h.queued e c (hleft e c hc).1
    rw [hwaiter]
    exact ⟨a, ha, hwaits a e c hplace'⟩
  · intro a e c ha
    rw [hwaiter]
    rcases hserving a e c ha with ⟨rfl, rfl, hc⟩ | ⟨-, ha⟩
    · obtain ⟨q, hq, hplace'⟩ := h.queued e c (hchoice c hc)
      exact ⟨q, hq, .inr (hwaits q e c hplace')⟩
    · obtain ⟨q, hq, hor⟩ := h.served a e c ha
      exact ⟨q, hq, hor.imp_right (hwaits q e c)⟩
  · intro e
    rw [hrequests]
    split
    · cases next with
      | none => exact h.nodup d
      | some c => exact (h.nodup d).erase c
    · exact h.nodup e
  · intro e c hc hin
    have hold := (hleft e c hc).1
    rcases (hends e c).mp hin with hin | ⟨rfl, rfl⟩
    · exact h.apart e c hold hin
    · exact hr.1 hold
  · intro a e c ha
    rcases hserving a e c ha with ⟨rfl, rfl, hc⟩ | ⟨hne, ha⟩
    · have hold := hchoice c hc
      refine ⟨fun hin => (hleft e c hin).2 ⟨rfl, hc⟩, fun hin => ?_⟩
      rcases (hends e c).mp hin with hin | ⟨-, rfl⟩
      · exact h.apart e c hold hin
      · exact hr.1 hold
    · refine ⟨fun hin => (h.serving a e c ha).1 (hleft e c hin).1, fun hin => ?_⟩
      rcases (hends e c).mp hin with hin | ⟨rfl, rfl⟩
      · exact (h.serving a e c ha).2 hin
      · exact hne (h.single a p e c ha hserves)
  · intro a b e c ha hb
    rcases hserving a e c ha with ⟨rfl, rfl, hc⟩ | ⟨-, ha⟩
    · rcases hserving b e c hb with ⟨rfl, -, -⟩ | ⟨-, hb⟩
      · rfl
      · exact absurd (hchoice c hc) (h.serving b e c hb).1
    · rcases hserving b e c hb with ⟨rfl, rfl, hc⟩ | ⟨-, hb⟩
      · exact absurd (hchoice c hc) (h.serving a e c ha).1
      · exact h.single a b e c ha hb
  · intro e c hor
    rw [hnext]
    rcases hor with hin | hin | ⟨a, ha⟩
    · exact h.fresh e c (.inl (hleft e c hin).1)
    · rcases (hends e c).mp hin with hin | ⟨rfl, rfl⟩
      · exact h.fresh e c (.inr (.inl hin))
      · exact hlt
    · rcases hserving a e c ha with ⟨rfl, rfl, hc⟩ | ⟨-, ha⟩
      · exact h.fresh e c (.inl (hchoice c hc))
      · exact h.fresh e c (.inr (.inr ⟨a, ha⟩))
  · intro e he
    rw [hrequests]
    rcases hcurrent e he with ⟨rfl, hnone⟩ | ⟨hne, he⟩
    · rw [if_pos rfl, hnone]
      exact hlast hnone
    · rw [if_neg hne]
      exact h.idle e he

/-- The value of a function of functions after a change at one place. -/
theorem update_update {α : Type*} (f : Obj → Nat → α) (d e : Obj) (r c : Nat) (a : α) :
    Function.update f d (Function.update (f d) r a) e c = if e = d ∧ c = r then a else f e c := by
  by_cases he : e = d
  · subst he
    rw [Function.update_self, Function.update_apply]
    simp only [true_and]
  · rw [Function.update_of_ne he, if_neg fun hand => he hand.1]

/-- `AddRequest` of a task that is outside. -/
theorem SignalInv.add_request (h : SignalInv s) (hcur : s.current = some p)
    (hidle : (s.task p).place = .idle) {d : Obj} {choice : Nat}
    (hstep : s.addRequest p d choice = some t) : SignalInv t := by
  have hnot : ¬ (s.task p).place.InMutex := by
    rw [hidle]
    exact id
  obtain ⟨-, hfree⟩ := h.current_free hcur hnot
  have hrole : (s.task p).role = none := by rw [Task.role, hidle]
  have hrequest : (s.task p).place.request = none := by
    rw [hidle]
    rfl
  have hlink : Relinked s s p none :=
    ⟨fun w => ⟨fun hin => absurd hin (hfree w), by rintro ⟨⟩⟩, fun _ _ _ => Iff.rfl, h.tasks.nodup⟩
  unfold SignalTasks.addRequest at hstep
  simp only [] at hstep
  split at hstep
  · next hnone =>
      -- the queue is empty, and the task serves its own request
      have hempty := h.requests.idle d hnone
      simp only [SignalTasks.blockFetchRequest, Function.update_self, hempty, List.nil_append,
        List.cons_ne_nil, if_false, List.mem_singleton] at hstep
      split at hstep
      · next hchoice =>
          subst hchoice
          simp only [List.erase_cons_head, Function.update_idem] at hstep
          cases hstep
          refine ⟨?_, ?_, ?_, ?_, h.reference, h.early, h.failed⟩
          · exact h.tasks.leave hcur (.inr ⟨d, _, rfl⟩) rfl rfl
              ⟨hlink.self, hlink.others, hlink.nodup⟩
          · exact h.io.same (update_same rfl hrole.symm) (fun _ => rfl) rfl rfl
          · refine h.requests.make (d := d) true hrequest rfl rfl (by rintro ⟨⟩) ?_ ?_ ?_ rfl ?_
            · intro e
              rw [if_neg (by simp)]
              show Function.update s.requests d [] e = s.requests e
              by_cases he : e = d
              · rw [he, Function.update_self, hempty]
              · rw [Function.update_of_ne he]
            · exact fun e r => update_update ..
            · exact fun e => Function.update_apply ..
            · intro e he
              have he' : Function.update s.currentRequest d (some (s.nextRequest d)) e = none := he
              rw [Function.update_apply] at he'
              split at he'
              · cases he'
              · next hne => exact ⟨hne, he'⟩
          · exact ⟨h.mutex.count, h.mutex.single, h.mutex.free⟩
      · cases hstep
  · next hsome =>
      cases hstep
      refine ⟨?_, ?_, ?_, ?_, h.reference, h.early, h.failed⟩
      · exact h.tasks.block hcur (.addRequest d (s.nextRequest d)) trivial rfl rfl
          ⟨hlink.self, hlink.others, hlink.nodup⟩
      · exact h.io.same (update_same rfl hrole.symm) (fun _ => rfl) rfl rfl
      · refine h.requests.make (d := d) false hrequest rfl rfl (fun _ => rfl) ?_ ?_ ?_ rfl
          ?_
        · intro e
          show Function.update s.requests d (s.requests d ++ [s.nextRequest d]) e = _
          rw [Function.update_apply]
          simp only [and_true]
        · exact fun e r => update_update ..
        · exact fun e => Function.update_apply ..
        · intro e he
          refine ⟨?_, he⟩
          rintro rfl
          exact hsome he
      · exact ⟨h.mutex.count, h.mutex.single, h.mutex.free⟩

omit [DecidableEq Tid] [DecidableEq Obj] in
/-- The places of the two parts that a task can have in a request. -/
theorem request_waits {place : Place Obj} {d : Obj} {r : Nat}
    (hrequest : place.request = some (false, d, r)) : place = .addRequest d r := by
  cases place with
  | addRequest d' r' =>
      cases hrequest
      rfl
  | _ => cases hrequest

omit [DecidableEq Obj] in
/-- `TaskWakeUp` of the task that waits for the request which the current task serves. -/
theorem SignalInv.wake_waiter (h : SignalInv s) (hcur : s.current = some p) {d : Obj} {r : Nat}
    (hplace : (s.task p).place = .transfer d r) : ∃ q tasks, s.waiter d r = some q ∧
      s.taskWakeUp q = { s with task := tasks } ∧
      TaskInv { s with task := tasks } ∧ (∀ a, (tasks a).role = (s.task a).role) ∧
      tasks p = s.task p ∧ (∀ a, (tasks a).place = (s.task a).place) ∧
      ∀ a, (s.task a).status = .blocked →
        (tasks a).status = .blocked ∨ (s.task a).place = .addRequest d r := by
  have hserves : (s.task p).place.request = some (true, d, r) := by
    rw [hplace]
    rfl
  have hrun := (h.tasks.running p).mp hcur
  obtain ⟨q, hq, hwho⟩ := h.requests.served p d r hserves
  refine ⟨q, ?_⟩
  rw [task_wake_up_eq]
  split
  · next hstatus =>
      have hwaits : (s.task q).place = .addRequest d r := by
        refine request_waits (hwho.resolve_left ?_)
        rintro rfl
        rw [hrun] at hstatus
        rcases hstatus with hb | hs
        · cases hb
        · cases hs
      have hblocked : (s.task q).status = .blocked := by
        refine hstatus.resolve_right fun hstopped => ?_
        have hidle := (h.tasks.sound q).stopped hstopped
        rw [hwaits] at hidle
        cases hidle
      have hne : p ≠ q := by
        rintro rfl
        rw [hplace] at hwaits
        cases hwaits
      have hlink : ({ s.task q with status := .ready } : Task Obj).link = (s.task q).link := by
        simp only [Task.link, hwaits]
        rw [if_neg, if_pos (Or.inl hblocked)]
        · rfl
        · exact not_or.mpr ⟨(by rintro ⟨⟩), id⟩
      refine ⟨_, hq, rfl, ?_, ?_, Function.update_of_ne hne .., ?_, ?_⟩
      · refine h.tasks.goes (p := q) rfl ⟨(by rintro ⟨⟩), (by rintro ⟨⟩), ?_⟩ ?_ (fun _ _ => Iff.rfl) ?_
        · intro _ hneeds
          rw [show ({ s.task q with status := .ready } : Task Obj).place = .addRequest d r
            from hwaits] at hneeds
          exact hneeds.elim
        · show s.current = some q ↔ _
          rw [h.tasks.running, hblocked]
          exact ⟨by rintro ⟨⟩, by rintro ⟨⟩⟩
        · rw [hlink]
          exact h.tasks.relinked rfl
      · refine update_same (s := s) (t := s.setStatus q .ready) rfl ?_
        simp only [Task.role, hwaits]
      · exact update_same (s := s) (t := s.setStatus q .ready) (f := Task.place) rfl rfl
      · intro a ha
        by_cases heq : a = q
        · rw [heq]
          exact .inr hwaits
        · left
          show (Function.update s.task q { s.task q with status := .ready } a).status = .blocked
          rw [Function.update_of_ne heq]
          exact ha
  · exact ⟨s.task, hq, rfl, h.tasks, fun _ => rfl, rfl, fun _ => rfl, fun _ => .inl⟩

/-- `BlockEndRequest` by the task that serves the request, and the next request. -/
theorem SignalInv.block_end_request (h : SignalInv s) (hcur : s.current = some p) {d : Obj}
    {r choice : Nat} (hplace : (s.task p).place = .transfer d r)
    (hstep : s.blockEndRequest p d r choice = some t) : SignalInv t := by
  have hserves : (s.task p).place.request = some (true, d, r) := by
    rw [hplace]
    rfl
  have hnot : ¬ (s.task p).place.InMutex := by
    rw [hplace]
    exact id
  have hrole : (s.task p).role = none := by rw [Task.role, hplace]
  obtain ⟨-, hfree⟩ := h.current_free hcur hnot
  obtain ⟨q, tasks, hq, hwake, htasks, hroles, hself, hplaces, hblocked⟩ := h.wake_waiter hcur hplace
  have hlink : Relinked { s with task := tasks } { s with task := tasks } p none :=
    ⟨fun w => ⟨fun hin => absurd hin (hfree w), by rintro ⟨⟩⟩, fun _ _ _ => Iff.rfl, h.tasks.nodup⟩
  have hfinish : ∀ {u : SignalTasks Obj Tid} {place : Place Obj},
      u.task = Function.update tasks p { tasks p with place } →
      (∀ a, a ≠ p → (u.task a).place.request = (s.task a).place.request) ∧
      (u.task p).place.request = place.request ∧
      ∀ a e c, (s.task a).place.request = some (false, e, c) → (s.task a).status = .blocked →
        (u.task a).status = .blocked ∨ e = d ∧ c = r := by
    intro u place hu
    refine ⟨?_, ?_, ?_⟩
    · intro a ha
      rw [hu, Function.update_of_ne ha, hplaces]
    · rw [hu, Function.update_self]
    · intro a e c ha hstatus
      have hne : a ≠ p := by
        rintro rfl
        rw [hserves] at ha
        cases ha
      rw [hu, Function.update_of_ne hne]
      refine (hblocked a hstatus).imp_right fun hadd => ?_
      rw [hadd] at ha
      cases ha
      exact ⟨rfl, rfl⟩
  simp only [SignalTasks.blockEndRequest, hq, hwake] at hstep
  unfold SignalTasks.blockFetchRequest at hstep
  split at hstep
  · next hempty =>
      cases hstep
      obtain ⟨hothers, hthis, hkeeps⟩ := hfinish (u := (SignalTasks.setTask { s with
        task := tasks
        currentRequest := Function.update s.currentRequest d none
        ended := Function.update s.ended d (r :: s.ended d) } p { tasks p with place := .idle })) rfl
      refine ⟨?_, ?_, ?_, ?_, h.reference, h.early, h.failed⟩
      · exact htasks.leave hcur (.inl rfl) rfl rfl ⟨hlink.self, hlink.others, hlink.nodup⟩
      · refine h.io.same (fun a => ?_) (fun _ => rfl) rfl rfl
        rw [← hroles a]
        refine update_same (s := { s with task := tasks }) rfl ?_ a
        rw [show ({ s with task := tasks } : SignalTasks Obj Tid).task p = s.task p from hself,
          hrole]
        rfl
      · refine h.requests.finish none hserves hothers hthis hkeeps (by simp)
          (fun _ => hempty) ?_ rfl rfl (fun e => Function.update_apply ..) ?_
        · intro e
          split
          · next he => rw [he]; rfl
          · rfl
        · intro e he
          have he' : Function.update s.currentRequest d none e = none := he
          by_cases heq : e = d
          · exact .inl ⟨heq, rfl⟩
          · rw [Function.update_of_ne heq] at he'
            exact .inr ⟨heq, he'⟩
      · exact ⟨h.mutex.count, h.mutex.single, h.mutex.free⟩
  · split at hstep
    · next hchoice =>
        cases hstep
        obtain ⟨hothers, hthis, hkeeps⟩ := hfinish (u := { SignalTasks.setTask { s with
          task := tasks
          ended := Function.update s.ended d (r :: s.ended d) } p
            { tasks p with place := .transfer d choice } with
          requests := Function.update s.requests d ((s.requests d).erase choice)
          currentRequest := Function.update (Function.update s.currentRequest d none) d
            (some choice) }) rfl
        refine ⟨?_, ?_, ?_, ?_, h.reference, h.early, h.failed⟩
        · exact htasks.leave hcur (.inr ⟨d, choice, rfl⟩) rfl rfl
            ⟨hlink.self, hlink.others, hlink.nodup⟩
        · refine h.io.same (fun a => ?_) (fun _ => rfl) rfl rfl
          rw [← hroles a]
          refine update_same (s := { s with task := tasks }) rfl ?_ a
          rw [show ({ s with task := tasks } : SignalTasks Obj Tid).task p = s.task p from hself,
            hrole]
          rfl
        · refine h.requests.finish (some choice) hserves hothers hthis hkeeps ?_ (by rintro ⟨⟩)
            ?_ rfl rfl (fun e => Function.update_apply ..) ?_
          · intro c hc
            cases hc
            exact hchoice
          · exact fun e => Function.update_apply ..
          · intro e he
            have he' : Function.update (Function.update s.currentRequest d none) d
              (some choice) e = none := he
            rw [Function.update_idem, Function.update_apply] at he'
            split at he'
            · cases he'
            · next hne => exact .inr ⟨hne, he'⟩
        · exact ⟨h.mutex.count, h.mutex.single, h.mutex.free⟩
    · cases hstep

omit [DecidableEq Obj] in
/-- A task leaves `AddRequest` when its request has ended. -/
theorem RequestInv.leave (h : RequestInv s) (hsame : SameRequests s t) {d : Obj} {r : Nat}
    (hplace : (s.task p).place.request = some (false, d, r)) (hdone : r ∈ s.ended d)
    {task : Task Obj} (htask : t.task = Function.update s.task p task)
    (hnew : task.place.request = none) : RequestInv t := by
  obtain ⟨hcurrent, hrequests, hwaiter, hnext, hended⟩ := hsame
  have hfrom : ∀ {a o}, (t.task a).place.request = some o →
      a ≠ p ∧ (s.task a).place.request = some o := by
    intro a o ha
    rw [htask, Function.update_apply] at ha
    split at ha
    · rw [hnew] at ha
      cases ha
    · next hne => exact ⟨hne, ha⟩
  -- the request of the task is over, so nobody serves it and it is not in the queue
  have hwaits : ∀ {a e c}, (s.task a).place.request = some (false, e, c) → c ∉ s.ended e →
      (t.task a).place.request = some (false, e, c) := by
    intro a e c ha hopen
    rw [htask, Function.update_of_ne]
    · exact ha
    · rintro rfl
      rw [hplace] at ha
      cases ha
      exact hopen hdone
  constructor
  · intro a e c ha
    obtain ⟨hne, hold⟩ := hfrom ha
    rw [htask, Function.update_of_ne hne, hended]
    exact h.done a e c hold
  · intro e c hc
    rw [hrequests] at hc
    rw [hwaiter]
    obtain ⟨a, ha, hold⟩ := h.queued e c hc
    exact ⟨a, ha, hwaits hold (h.apart e c hc)⟩
  · intro a e c ha
    obtain ⟨-, hold⟩ := hfrom ha
    rw [hwaiter]
    obtain ⟨q, hq, hor⟩ := h.served a e c hold
    exact ⟨q, hq, hor.imp_right fun hw => hwaits hw (h.serving a e c hold).2⟩
  · rw [hrequests]
    exact h.nodup
  · rw [hrequests, hended]
    exact h.apart
  · intro a e c ha
    rw [hrequests, hended]
    exact h.serving a e c (hfrom ha).2
  · intro a b e c ha hb
    exact h.single a b e c (hfrom ha).2 (hfrom hb).2
  · intro e c hor
    rw [hrequests, hended] at hor
    rw [hnext]
    refine h.fresh e c (hor.imp_right (Or.imp_right ?_))
    rintro ⟨a, ha⟩
    exact ⟨a, (hfrom ha).2⟩
  · rw [hcurrent, hrequests]
    exact h.idle

/-- A task goes on in `AddRequest`. -/
theorem SignalInv.resume_request (h : SignalInv s) (hcur : s.current = some p) {d : Obj} {r : Nat}
    (hplace : (s.task p).place = .addRequest d r) : SignalInv (s.leave p (r ∈ s.ended d)) := by
  have hrequest : (s.task p).place.request = some (false, d, r) := by
    rw [hplace]
    rfl
  have hnot : ¬ (s.task p).place.InMutex := by
    rw [hplace]
    exact id
  have hrole : (s.task p).role = none := by rw [Task.role, hplace]
  obtain ⟨hrun, hfree⟩ := h.current_free hcur hnot
  have hdone : r ∈ s.ended d := by
    refine (h.requests.done p d r hrequest).resolve_left ?_
    rw [hrun]
    rintro ⟨⟩
  refine ⟨?_, ?_, ?_, ?_, h.reference, ?_, h.failed⟩
  · exact h.tasks.leave hcur (.inl rfl) rfl rfl
      ⟨fun w => ⟨fun hin => absurd hin (hfree w), by rintro ⟨⟩⟩, fun _ _ _ => Iff.rfl, h.tasks.nodup⟩
  · exact h.io.same (update_same rfl hrole.symm) (fun _ => rfl) rfl rfl
  · exact h.requests.leave ⟨rfl, rfl, rfl, rfl, rfl⟩ hrequest hdone rfl rfl
  · exact ⟨h.mutex.count, h.mutex.single, h.mutex.free⟩
  · show (s.early || !decide (r ∈ s.ended d)) = false
    rw [h.early, decide_eq_true hdone]
    rfl

/-! ## FIFOs -/

omit [DecidableEq Obj] [DecidableEq Tid] in
/-- The task of the wait list of a FIFO is blocked there. -/
theorem SignalInv.opener (h : SignalInv s) {f : Obj} {q : Tid} (hq : q ∈ s.waiting (.fifo f)) :
    (s.task q).status = .blocked ∧ ∃ k, (s.task q).place = .fifoOpen f k := by
  rw [h.tasks.linked, Task.link] at hq
  split at hq
  · next hor =>
      cases hp : (s.task q).place with
      | fifoOpen f' k =>
          rw [hp] at hq hor
          cases hq
          exact ⟨hor.resolve_right id, k, rfl⟩
      | _ =>
          rw [hp] at hq
          cases hq
  · cases hq

/-- A task that has been let in by both ends of a FIFO. -/
def Task.letIn (task : Task Obj) : Task Obj := { task with status := .ready, granted := true }

omit [DecidableEq Obj] in
/-- The loop of `BOFS_FifoOpen`, when both ends are open. -/
theorem wake_openers {f : Obj} (hopen : ∀ k, 0 < s.reference f k) {l : List Tid} (hnodup : l.Nodup)
    (hblocked : ∀ q ∈ l, (s.task q).status = .blocked) :
    l.foldl (fun u q => u.wakeOpener f q) s =
      { s with task := fun q => if q ∈ l then (s.task q).letIn else s.task q } := by
  induction l generalizing s with
  | nil =>
      simp only [List.foldl_nil, List.not_mem_nil, if_false]
  | cons q l ih =>
      obtain ⟨hq, hl⟩ := List.nodup_cons.mp hnodup
      have hwake : s.wakeOpener f q = s.setTask q (s.task q).letIn := by
        have hgranted : decide (s.reference f .put > 0 ∧ s.reference f .get > 0) = true :=
          decide_eq_true ⟨hopen .put, hopen .get⟩
        simp only [SignalTasks.wakeOpener, SignalTasks.taskUnblock, hblocked q List.mem_cons_self,
          SignalTasks.grant, hgranted]
        rw [SignalTasks.setStatus, set_task_task]
        simp only [SignalTasks.setTask, Function.update_idem]
        rfl
      have hrest : ∀ r ∈ l, ((s.setTask q (s.task q).letIn).task r).status = .blocked := by
        intro r hr
        have hne : r ≠ q := by
          rintro rfl
          exact hq hr
        show (Function.update s.task q (s.task q).letIn r).status = .blocked
        rw [Function.update_of_ne hne]
        exact hblocked r (List.mem_cons_of_mem q hr)
      rw [List.foldl_cons, hwake, ih (s := s.setTask q (s.task q).letIn) hopen hl hrest]
      simp only [SignalTasks.setTask, SignalTasks.mk.injEq, true_and, and_true]
      funext r
      by_cases hr : r = q
      · rw [hr, if_neg hq, Function.update_self, if_pos List.mem_cons_self]
      · rw [Function.update_of_ne hr]
        simp only [List.mem_cons, hr, false_or]

/-- The loop of `BOFS_FifoOpen` finds nobody, or both ends are open. -/
theorem SignalInv.drain (h : SignalInv s) {f : Obj}
    (hopen : s.waiting (.fifo f) = [] ∨ ∀ k, 0 < s.reference f k) : SignalInv (s.drain f) := by
  rcases hopen with hempty | hopen
  · have hsame : s.drain f = s := by
      rw [SignalTasks.drain, hempty, List.foldl_nil, SignalTasks.link, ← hempty,
        Function.update_eq_self]
    rw [hsame]
    exact h
  · rw [SignalTasks.drain, wake_openers hopen (h.tasks.nodup _) fun q hq => (h.opener hq).1]
    have heach : ∀ {α : Type _} (g : Task Obj → α),
        (∀ q ∈ s.waiting (.fifo f), g (s.task q).letIn = g (s.task q)) → ∀ q,
        g (if q ∈ s.waiting (.fifo f) then (s.task q).letIn else s.task q) = g (s.task q) := by
      intro α g hg q
      split
      · next hq => exact hg q hq
      · rfl
    refine ⟨⟨?_, ?_, ?_, ?_⟩, ?_, ?_, ?_, h.reference, h.early, h.failed⟩
    · intro q
      show Task.Sound (if q ∈ s.waiting (.fifo f) then (s.task q).letIn else s.task q)
      split
      · exact ⟨by rintro ⟨⟩, by rintro ⟨⟩, fun _ _ => rfl⟩
      · exact h.tasks.sound q
    · intro q
      show s.current = some q ↔
        (if q ∈ s.waiting (.fifo f) then (s.task q).letIn else s.task q).status = .running
      rw [h.tasks.running]
      split
      · next hq =>
          rw [(h.opener hq).1]
          exact ⟨by rintro ⟨⟩, by rintro ⟨⟩⟩
      · rfl
    · intro w q
      show q ∈ Function.update s.waiting (.fifo f) [] w ↔
        (if q ∈ s.waiting (.fifo f) then (s.task q).letIn else s.task q).link = some w
      have hlink := h.tasks.linked (.fifo f) q
      split
      · next hq =>
          obtain ⟨-, k, hk⟩ := h.opener hq
          have hnone : (s.task q).letIn.link = none := by
            rw [Task.link, if_neg]
            rintro (hready | hmutex)
            · cases hready
            · rw [show (s.task q).letIn.place = .fifoOpen f k from hk] at hmutex
              exact hmutex
          rw [hnone, Function.update_apply]
          split
          · exact ⟨fun hin => absurd hin List.not_mem_nil, by rintro ⟨⟩⟩
          · next hw =>
              rw [h.tasks.linked, hlink.mp hq]
              exact ⟨fun heq => absurd (Option.some.inj heq).symm hw, by rintro ⟨⟩⟩
      · next hq =>
          rw [Function.update_apply]
          split
          · next hw =>
              rw [hw]
              exact ⟨fun hin => absurd hin List.not_mem_nil, fun heq => absurd (hlink.mpr heq) hq⟩
          · exact h.tasks.linked w q
    · intro w
      show (Function.update s.waiting (.fifo f) [] w).Nodup
      rw [Function.update_apply]
      split
      · exact List.nodup_nil
      · exact h.tasks.nodup w
    · refine h.io.same (heach Task.role fun q hq => ?_) (fun _ => rfl) rfl rfl
      obtain ⟨-, k, hk⟩ := h.opener hq
      rw [Task.role, Task.role, show (s.task q).letIn.place = .fifoOpen f k from hk, hk]
    · refine h.requests.same ⟨rfl, rfl, rfl, rfl, rfl⟩
        (heach (fun a => a.place.request) fun _ _ => rfl) ?_
      intro q d r hrequest hblocked
      show (if q ∈ s.waiting (.fifo f) then (s.task q).letIn else s.task q).status = .blocked
      rw [if_neg]
      · exact hblocked
      · intro hq
        obtain ⟨-, k, hk⟩ := h.opener hq
        rw [hk] at hrequest
        cases hrequest
    · exact ⟨h.mutex.count, h.mutex.single, h.mutex.free⟩

omit [DecidableEq Tid] in
/-- The counts of the ends change, and stay counts. -/
theorem SignalInv.set_reference (h : SignalInv s) {f : Obj} {k : Side} {n : Int} (hn : 0 ≤ n) :
    SignalInv { s with
      reference := Function.update s.reference f (Function.update (s.reference f) k n) } := by
  refine ⟨?_, ?_, ?_, ?_, ?_, h.early, h.failed⟩
  · exact ⟨h.tasks.sound, h.tasks.running, h.tasks.linked, h.tasks.nodup⟩
  · exact h.io.same (fun _ => rfl) (fun _ => rfl) rfl rfl
  · exact h.requests.same ⟨rfl, rfl, rfl, rfl, rfl⟩ (fun _ => rfl) fun _ _ _ _ hb => hb
  · exact ⟨h.mutex.count, h.mutex.single, h.mutex.free⟩
  · intro e j
    show 0 ≤ Function.update s.reference f (Function.update (s.reference f) k n) e j
    rw [Function.update_apply]
    split
    · rw [Function.update_apply]
      split
      · exact hn
      · exact h.reference f j
    · exact h.reference e j

/-- `BOFS_FifoOpen` of a task that is outside. -/
theorem SignalInv.fifo_open (h : SignalInv s) (hcur : s.current = some p)
    (hidle : (s.task p).place = .idle) (f : Obj) (k : Side) : SignalInv (s.fifoOpen p f k) := by
  have hnot : ¬ (s.task p).place.InMutex := by
    rw [hidle]
    exact id
  obtain ⟨-, hfree⟩ := h.current_free hcur hnot
  have hthis := h.reference f k
  have hother := h.reference f k.other
  have href := h.set_reference (f := f) (k := k) (n := s.reference f k + 1) (by omega)
  unfold SignalTasks.fifoOpen
  simp only []
  split
  · refine ⟨?_, ?_, ?_, ?_, href.reference, href.early, href.failed⟩
    · refine href.tasks.block hcur (.fifoOpen f k) trivial rfl rfl ?_
      refine href.tasks.push hfree (fun q => List.mem_cons) ?_ rfl
      exact List.nodup_cons.mpr ⟨hfree _, h.tasks.nodup _⟩
    · refine href.io.same (update_same rfl ?_) (fun _ => rfl) rfl rfl
      show none = (s.task p).role
      rw [Task.role, hidle]
    · refine href.requests.moves ⟨rfl, rfl, rfl, rfl, rfl⟩ rfl ?_ rfl
      show (s.task p).place.request = none
      rw [hidle]
      rfl
    · exact ⟨h.mutex.count, h.mutex.single, h.mutex.free⟩
  · next hne =>
      refine href.drain (.inr ?_)
      intro j
      show 0 < Function.update s.reference f
        (Function.update (s.reference f) k (s.reference f k + 1)) f j
      rw [Function.update_self]
      by_cases hj : j = k
      · rw [hj, Function.update_self]
        omega
      · have hside : j = k.other := by
          cases j <;> cases k <;> first | rfl | exact absurd rfl hj
        rw [Function.update_of_ne hj, hside]
        omega

/-- A task that has been let in goes on in `BOFS_FifoOpen`. -/
theorem SignalInv.resume_open (h : SignalInv s) (hcur : s.current = some p) {f : Obj} {k : Side}
    (hplace : (s.task p).place = .fifoOpen f k)
    (hopen : s.waiting (.fifo f) = [] ∨ ∀ j, 0 < s.reference f j) :
    SignalInv ((s.leave p (s.task p).granted).drain f) := by
  have hnot : ¬ (s.task p).place.InMutex := by
    rw [hplace]
    exact id
  have hrole : (s.task p).role = none := by rw [Task.role, hplace]
  have hrequest : (s.task p).place.request = none := by
    rw [hplace]
    rfl
  have hgranted : (s.task p).granted = true := by
    refine h.granted hcur ?_
    rw [hplace]
    trivial
  exact (h.leave hcur hnot hrole hrequest hgranted).drain hopen

/-! ## Every step -/

/-- The current task changes what it has set for signals. -/
theorem SignalInv.set_signals (h : SignalInv s) {task : Task Obj}
    (hplace : task.place = (s.task p).place) (hgranted : task.granted = (s.task p).granted)
    (hstatus : task.status = (s.task p).status) : SignalInv (s.setTask p task) := by
  have htouched : TouchedState False s (s.setTask p task) p := .set hplace hgranted hstatus
  exact h.touched htouched fun _ hwakes => hwakes.elim

/-- `DoSignal` of a task that is outside of the primitives. -/
theorem SignalInv.do_signal (h : SignalInv s) (hcur : s.current = some p)
    (hidle : (s.task p).place = .idle) (signo : Nat) : SignalInv (s.doSignal p signo) := by
  have hrun := (h.tasks.running p).mp hcur
  unfold SignalTasks.doSignal
  simp only []
  split
  · refine h.retask none rfl rfl (.inr ?_) (fun _ => hidle) ⟨nofun, nofun⟩ ?_
    · rw [hrun]
      exact ⟨nofun, nofun⟩
    · intro q hq
      rw [hcur]
      exact ⟨nofun, fun heq => absurd (Option.some.inj heq).symm hq⟩
  · exact h.set_signals rfl rfl rfl

/-- A step of the current task outside of the primitives. -/
theorem SignalInv.idle_step (h : SignalInv s) (hcur : s.current = some p)
    (hidle : (s.task p).place = .idle) {op : SignalOp Obj Tid} (hstep : idleStep s p op = some t) :
    SignalInv t := by
  cases op with
  | down o =>
      cases hstep
      exact h.semaphore_down hcur hidle o
  | up o =>
      cases hstep
      exact h.semaphore_up o
  | ioQueue q k =>
      cases hstep
      exact h.io_queue hcur hidle q k
  | lock m =>
      cases hstep
      exact h.mutex_lock hcur hidle m
  | unlock m =>
      simp only [idleStep] at hstep
      split at hstep
      · next hown =>
          cases hstep
          exact h.mutex_unlock hown
      · cases hstep
  | request d choice => exact h.add_request hcur hidle hstep
  | fifoOpen f k =>
      cases hstep
      exact h.fifo_open hcur hidle f k
  | fifoClose f k =>
      simp only [idleStep] at hstep
      split at hstep
      · next hpos =>
          cases hstep
          exact h.set_reference (by omega)
      · cases hstep
  | processMask set =>
      cases hstep
      exact h.set_signals rfl rfl rfl
  | setAction signo handler =>
      cases hstep
      exact h.set_signals rfl rfl rfl
  | doSignal signo =>
      simp only [idleStep] at hstep
      split at hstep
      · cases hstep
        exact h.do_signal hcur hidle signo
      · cases hstep
  | finish choice => cases hstep
  | resume => cases hstep
  | switchTo q => cases hstep
  | sendSignal signo q => cases hstep
  | forceSignal signo q => cases hstep

/-- The current task goes on behind `Schedule`. -/
theorem SignalInv.resume (h : SignalInv s) (hcur : s.current = some p)
    (hdrain : s.MayDrain (s.task p).place) (hstep : s.resume p (s.task p).place = some t) :
    SignalInv t := by
  cases hplace : (s.task p).place with
  | idle =>
      rw [hplace] at hstep
      cases hstep
  | transfer d r =>
      rw [hplace] at hstep
      cases hstep
  | down o =>
      rw [hplace] at hstep
      cases hstep
      refine h.leave hcur ?_ ?_ ?_ (h.granted hcur ?_)
      · rw [hplace]
        exact id
      · rw [Task.role, hplace]
      · rw [hplace]
        rfl
      · rw [hplace]
        trivial
  | syncLock q k =>
      rw [hplace] at hstep
      cases hstep
      exact h.resume_lock hcur hplace
  | ioWait q k =>
      rw [hplace] at hstep
      cases hstep
      exact h.resume_wait hcur hplace
  | mutexLock m =>
      rw [hplace] at hstep
      cases hstep
      exact h.mutex_try hcur hplace
  | addRequest d r =>
      rw [hplace] at hstep
      cases hstep
      exact h.resume_request hcur hplace
  | fifoOpen f k =>
      rw [hplace] at hstep hdrain
      cases hstep
      exact h.resume_open hcur hplace hdrain

/-- Each step that `signalGuard` allows keeps the invariant. -/
theorem SignalInv.step (h : SignalInv s) {op : SignalOp Obj Tid} (hguard : signalGuard s op)
    (hstep : signalStep s op = some t) : SignalInv t := by
  have hasserted : ¬ s.failed = true := by
    rw [h.failed]
    rintro ⟨⟩
  unfold signalStep at hstep
  rw [if_neg hasserted] at hstep
  have hidle : ∀ p, s.current = some p →
      (if (s.task p).place = .idle then idleStep s p op else none) = some t → SignalInv t := by
    intro p hcur hstep
    split at hstep
    · next hplace => exact h.idle_step hcur hplace hstep
    · cases hstep
  cases op with
  | sendSignal signo q =>
      cases hstep
      exact h.touched (do_send_signal_touched s signo q) hguard
  | forceSignal signo q =>
      cases hstep
      exact h.touched (force_signal_touched s signo q) fun hblocked _ => hguard hblocked
  | switchTo p =>
      simp only [] at hstep
      split at hstep
      · next hready =>
          cases hstep
          exact h.switch_to hready
      · cases hstep
  | resume =>
      simp only [] at hstep
      split at hstep
      · cases hstep
      · next p hcur => exact h.resume hcur (hguard p hcur) hstep
  | finish choice =>
      simp only [] at hstep
      split at hstep
      · cases hstep
      · next p hcur =>
          split at hstep
          · next d r hplace => exact h.block_end_request hcur hplace hstep
          · cases hstep
  | down | up | ioQueue | lock | unlock | request | fifoOpen | fifoClose | processMask | setAction
  | doSignal =>
      simp only [] at hstep
      split at hstep
      · cases hstep
      · next p hcur => exact hidle p hcur hstep

end

omit [DecidableEq Obj] [DecidableEq Tid] in
/-- The invariant at the start. -/
theorem signal_inv_init (handler : Tid → Nat → Handler) (counter capacity : Obj → Nat) :
    SignalInv (.init handler counter capacity : SignalTasks Obj Tid) := by
  have hrole : ∀ p, ((SignalTasks.init handler counter capacity : SignalTasks Obj Tid).task p).role
      = none := fun _ => rfl
  have hrequest : ∀ p, ((SignalTasks.init handler counter capacity :
      SignalTasks Obj Tid).task p).place.request = none := fun _ => rfl
  refine ⟨⟨?_, ?_, ?_, ?_⟩, ⟨?_, ?_, ?_, ?_, ?_⟩, ⟨?_, ?_, ?_, ?_, ?_, ?_, ?_, ?_, ?_⟩,
    ⟨?_, ?_, ?_⟩, fun _ _ => Int.le_refl 0, rfl, rfl⟩
  · exact fun p => ⟨nofun, nofun, fun _ hneeds => hneeds.elim⟩
  · exact fun p => ⟨nofun, nofun⟩
  · intro w p
    have hlink : ((SignalTasks.init handler counter capacity : SignalTasks Obj Tid).task p).link
      = none := if_neg (not_or.mpr ⟨nofun, id⟩)
    rw [hlink]
    exact ⟨fun hin => absurd hin List.not_mem_nil, nofun⟩
  · exact fun _ => List.nodup_nil
  · exact fun _ => Nat.le_refl 1
  · intro q _ p b
    rw [hrole]
    nofun
  · intro q p p' b b' hp
    rw [hrole] at hp
    cases hp
  · intro q p
    rw [hrole]
    exact ⟨nofun, nofun⟩
  · exact fun _ => rfl
  · intro p d r hp
    rw [hrequest] at hp
    cases hp
  · exact fun _ _ hr => absurd hr List.not_mem_nil
  · intro p d r hp
    rw [hrequest] at hp
    cases hp
  · exact fun _ => List.nodup_nil
  · exact fun _ _ hr => absurd hr List.not_mem_nil
  · intro p d r hp
    rw [hrequest] at hp
    cases hp
  · intro p q d r hp
    rw [hrequest] at hp
    cases hp
  · intro d r hor
    rcases hor with hr | hr | ⟨p, hp⟩
    · exact absurd hr List.not_mem_nil
    · exact absurd hr List.not_mem_nil
    · rw [hrequest] at hp
      cases hp
  · exact fun _ _ => rfl
  · exact fun _ => Int.le_refl 1
  · exact fun _ => Nat.zero_le 1
  · exact fun _ _ => rfl

/-! ## Safe wake-ups -/

/-- The wake-ups have been safe. -/
structure SafeWakeUps (s : SignalTasks Obj Tid) : Prop where
  /-- Each task that went past a primitive had what it waited for. -/
  served : s.early = false
  /-- A task that is linked is blocked in that place, or still in the loop of `MutexLock`. -/
  linked : ∀ w p, p ∈ s.waiting w → (s.task p).place.waitList = some w ∧
    ((s.task p).status = .blocked ∨ (s.task p).place.InMutex)
  /-- No `ASSERT` has failed. -/
  asserted : s.failed = false

/-- When no signal that is not blocked reaches a task which is blocked elsewhere than in
`MutexLock`, the wake-ups are safe. -/
theorem safe_wake_ups {handler : Tid → Nat → Handler} {counter capacity : Obj → Nat}
    {s : SignalTasks Obj Tid} {ops : List (SignalOp Obj Tid)}
    (hrun : Run (stepOf signalStep) signalGuard (.init handler counter capacity) ops s) :
    SafeWakeUps s := by
  have hinv : SignalInv s := hrun.invariant
    (fun _ _ _ hs hguard hstep => SignalInv.step hs hguard hstep)
    (signal_inv_init handler counter capacity)
  refine ⟨hinv.early, ?_, hinv.failed⟩
  intro w p hp
  rw [hinv.tasks.linked, Task.link] at hp
  split at hp
  · next hor => exact ⟨hp, hor⟩
  · cases hp

/-- A signal wakes a task in `MutexLock` while another task has the mutex. -/
def signalInMutex : List (SignalOp (Fin 1) (Fin 2)) :=
  [.switchTo 0, .lock 0, .switchTo 1, .lock 0, .sendSignal 15 1, .switchTo 1, .resume]

theorem mutex_spares_signal : ∃ s : SignalTasks (Fin 1) (Fin 2),
    Run (stepOf signalStep) signalGuard (.init (fun _ _ => .dfl) (fun _ => 0) fun _ => 1)
      signalInMutex s ∧ (s.owners 0, s.waiting (.mutex 0)) = ([0], [1]) ∧ SafeWakeUps s := by
  obtain ⟨s, t, hstart, hrun, hview⟩ := exists_run_checked signalStep signalGuard
    (some (.init (fun _ _ => .dfl) (fun _ => 0) fun _ => 1 : SignalTasks (Fin 1) (Fin 2)))
    signalInMutex (fun s => (s.owners 0, s.waiting (.mutex 0))) (v := ([0], [1])) (by decide)
  cases Option.some.inj hstart
  exact ⟨t, hrun, hview, safe_wake_ups hrun⟩

/-- A signal wakes a task in `SemaphoreDown`, and the semaphore is raised later. -/
def signalInDown : List (SignalOp (Fin 1) (Fin 2)) :=
  [.switchTo 1, .down 0, .sendSignal 15 1, .switchTo 1, .resume, .switchTo 0, .up 0]

/-- The task has gone on without a permit, and the `ASSERT` of `SemaphoreUp` fails on the node that
it has left behind. -/
theorem down_without_permit : ∃ s : SignalTasks (Fin 1) (Fin 2),
    Run (stepOf signalStep) anyLabel (.init (fun _ _ => .dfl) (fun _ => 0) fun _ => 1)
      signalInDown s ∧ s.early = true ∧ s.failed = true ∧ ¬ SafeWakeUps s := by
  obtain ⟨s, t, hstart, hrun, hview⟩ := exists_run_all signalStep
    (some (.init (fun _ _ => .dfl) (fun _ => 0) fun _ => 1 : SignalTasks (Fin 1) (Fin 2)))
    signalInDown (fun s => (s.early, s.failed)) (v := (true, true)) (by decide)
  cases Option.some.inj hstart
  simp only [Prod.mk.injEq] at hview
  refine ⟨t, hrun, hview.1, hview.2, ?_⟩
  intro hsafe
  have hserved := hsafe.served
  rw [hview.1] at hserved
  cases hserved

end XBook.Signals
