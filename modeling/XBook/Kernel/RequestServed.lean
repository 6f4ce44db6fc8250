import XBook.Kernel.RequestTasks
import XBook.Lib.Transition
import Mathlib.Data.List.Perm.Basic

/-!
# Every request is served

Of the requests that have been made, some wait in the queue, some are with a task that transfers
them, and the others have ended. While anything is left to do, some task is on its way to
`BlockFetchRequest`.
-/

namespace XBook

namespace RequestQueue

variable {R : Type*} {q q' : RequestQueue R} {request : R} {lba : R → Nat}

/-- The requests of both lists. -/
def waiting (q : RequestQueue R) : List R := q.upRequestList ++ q.downRequestList

theorem add_after_first_perm {found : R → Bool} {l l' : List R}
    (h : addAfterFirst found request l = some l') : l'.Perm (request :: l) := by
  induction l generalizing l' with
  | nil => cases h
  | cons tmp rest ih =>
      simp only [addAfterFirst] at h
      split at h
      · cases h
        exact List.Perm.swap ..
      · obtain ⟨l, hl, rfl⟩ := Option.map_eq_some_iff.mp h
        exact ((ih hl).cons tmp).trans (List.Perm.swap ..)

theorem add_after_first_getD_perm (found : R → Bool) (l : List R) :
    ((addAfterFirst found request l).getD (request :: l)).Perm (request :: l) := by
  cases h : addAfterFirst found request l with
  | none => exact List.Perm.refl _
  | some l' => exact add_after_first_perm h

theorem add_after_first_some {found : R → Bool} {l : List R} (h : ∃ tmp ∈ l, found tmp = true) :
    ∃ l', addAfterFirst found request l = some l' := by
  induction l with
  | nil =>
      obtain ⟨tmp, hmem, -⟩ := h
      cases hmem
  | cons tmp rest ih =>
      simp only [addAfterFirst]
      split
      · exact ⟨_, rfl⟩
      · next hnot =>
          obtain ⟨tmp', hmem, hfound⟩ := h
          rcases List.mem_cons.mp hmem with rfl | hin
          · exact absurd hfound hnot
          · obtain ⟨l', hl'⟩ := ih ⟨tmp', hin, hfound⟩
            exact ⟨tmp :: l', by rw [hl']; rfl⟩

/-- The elevator does not give up where it finds a place. -/
theorem elevator_io_schedule_some (h : Requests.ElevatorFinds q lba request) :
    ∃ q', q.elevatorIoSchedule lba request = some q' := by
  unfold elevatorIoSchedule
  rcases h with hempty | ⟨current, hcurrent, hfinds⟩
  · rw [if_pos (by rw [hempty]; rfl)]
    exact ⟨_, rfl⟩
  · split
    · exact ⟨_, rfl⟩
    · cases hup : q.onUp with
      | true =>
          rw [hup, if_pos rfl] at hfinds
          rw [if_pos rfl, elevatorInUp, Option.mem_def.mp hcurrent, Option.bind_some]
          split
          · next hge =>
              obtain ⟨tmp, hmem, hle⟩ := hfinds hge
              obtain ⟨l', hl'⟩ : ∃ l', addAfterFirst (fun tmp => lba request ≥ lba tmp) request
                  q.upRequestList = some l' := add_after_first_some ⟨tmp, hmem, decide_eq_true hle⟩
              exact ⟨_, by rw [hl']; rfl⟩
          · exact ⟨_, rfl⟩
      | false =>
          rw [hup, if_neg (by simp)] at hfinds
          rw [if_neg (by simp), elevatorInDown, Option.mem_def.mp hcurrent, Option.bind_some]
          split
          · next hle =>
              obtain ⟨tmp, hmem, hge⟩ := hfinds hle
              obtain ⟨l', hl'⟩ : ∃ l', addAfterFirst (fun tmp => lba request ≤ lba tmp) request
                  q.downRequestList = some l' := add_after_first_some ⟨tmp, hmem, decide_eq_true hge⟩
              exact ⟨_, by rw [hl']; rfl⟩
          · exact ⟨_, rfl⟩

/-- The elevator adds the request to one of the lists and changes nothing else. -/
theorem elevator_io_schedule_perm (h : q.elevatorIoSchedule lba request = some q') :
    q'.waiting.Perm (request :: q.waiting) ∧ q'.currentRequest = q.currentRequest := by
  unfold elevatorIoSchedule at h
  split at h
  · next hempty =>
      cases h
      unfold requestList at hempty
      unfold setRequestList waiting
      cases hup : q.onUp with
      | true =>
          rw [hup, if_pos rfl, List.isEmpty_iff] at hempty
          rw [if_pos rfl, hempty]
          exact ⟨List.Perm.refl _, rfl⟩
      | false =>
          rw [hup, if_neg (by simp), List.isEmpty_iff] at hempty
          rw [if_neg (by simp), hempty, List.append_nil]
          exact ⟨List.perm_append_singleton .., rfl⟩
  · split at h
    · obtain ⟨current, hcurrent, h⟩ := Option.bind_eq_some_iff.mp h
      split at h
      · obtain ⟨l, hl, rfl⟩ := Option.map_eq_some_iff.mp h
        exact ⟨(add_after_first_perm hl).append_right _, rfl⟩
      · cases h
        exact ⟨((add_after_first_getD_perm _ _).append_left _).trans List.perm_middle, rfl⟩
    · obtain ⟨current, hcurrent, h⟩ := Option.bind_eq_some_iff.mp h
      split at h
      · obtain ⟨l, hl, rfl⟩ := Option.map_eq_some_iff.mp h
        exact ⟨((add_after_first_perm hl).append_left _).trans List.perm_middle, rfl⟩
      · cases h
        exact ⟨(add_after_first_getD_perm _ _).append_right _, rfl⟩

/-- What is fetched is taken from the lists and becomes the current request. -/
theorem block_fetch_request_some (h : q.blockFetchRequest = (q', some request)) :
    q.waiting.Perm (request :: q'.waiting) ∧ q'.currentRequest = some request := by
  obtain ⟨up, down, onUp, current⟩ := q
  cases onUp <;> cases up <;> cases down <;>
    simp only [blockFetchRequest, requestList, switchRequestList, setRequestList, List.isEmpty_nil,
      List.isEmpty_cons, if_true, if_false, Bool.not_true, Bool.not_false, Prod.mk.injEq,
      Option.some.injEq, reduceCtorEq, and_false, Bool.false_eq_true] at h <;>
    obtain ⟨rfl, rfl⟩ := h
  · exact ⟨List.Perm.refl _, rfl⟩
  · exact ⟨List.Perm.refl _, rfl⟩
  · exact ⟨List.perm_middle, rfl⟩
  · exact ⟨List.Perm.refl _, rfl⟩
  · exact ⟨List.Perm.refl _, rfl⟩
  · exact ⟨List.Perm.refl _, rfl⟩

/-- Nothing is fetched when both lists are empty. -/
theorem block_fetch_request_none (h : q.blockFetchRequest = (q', none)) :
    q.waiting = [] ∧ q'.waiting = [] ∧ q'.currentRequest = q.currentRequest := by
  obtain ⟨up, down, onUp, current⟩ := q
  cases onUp <;> cases up <;> cases down <;>
    simp only [blockFetchRequest, requestList, switchRequestList, setRequestList, List.isEmpty_nil,
      List.isEmpty_cons, if_true, if_false, Bool.not_true, Bool.not_false, Prod.mk.injEq,
      reduceCtorEq, and_false, Bool.false_eq_true, and_true] at h <;>
    subst h <;> exact ⟨rfl, rfl, rfl⟩

end RequestQueue

namespace Requests

open Transition
open RequestTasks (set_place_place set_place_queue set_place_waiter set_place_next
  set_place_fetched set_place_ended)
open RequestQueue (elevator_io_schedule_perm elevator_io_schedule_some
  block_fetch_request_some block_fetch_request_none)

/-- The task is on its way to `BlockFetchRequest`. -/
def Place.Active : Place → Prop
  | .toStart _ | .fetching | .transfer _ => True
  | .idle | .toSleep _ | .asleep _ => False

variable {Tid : Type*} [DecidableEq Tid]

/-- The invariant of the tasks at a queue. -/
structure RequestInv (s : RequestTasks Tid) : Prop where
  waitingNodup : s.queue.waiting.Nodup
  fetchedNodup : s.fetched.Nodup
  endedNodup : s.ended.Nodup
  made : ∀ r, r < s.nextRequest ↔ r ∈ s.queue.waiting ∨ r ∈ s.fetched
  apart : ∀ r ∈ s.queue.waiting, r ∉ s.fetched
  ended : ∀ r ∈ s.ended, r ∈ s.fetched
  transfer : ∀ p r, s.place p = .transfer r → r ∈ s.fetched ∧ r ∉ s.ended
  inTransfer : ∀ r ∈ s.fetched, r ∉ s.ended → ∃ p, s.place p = .transfer r
  single : ∀ p q r, s.place p = .transfer r → s.place q = .transfer r → p = q
  waiter : ∀ p r, s.place p = .toStart r ∨ s.place p = .toSleep r ∨ s.place p = .asleep r →
    r < s.nextRequest ∧ s.waiter r = some p
  asleep : ∀ p r, s.place p = .asleep r → r ∉ s.ended
  current : ∀ r, s.queue.currentRequest = some r → r < s.nextRequest ∧ r ∉ s.ended
  active : s.queue.waiting ≠ [] ∨ s.queue.currentRequest ≠ none → ∃ p, (s.place p).Active

section

variable {s t : RequestTasks Tid} {p : Tid}

omit [DecidableEq Tid] in
theorem request_inv_init : RequestInv (.init : RequestTasks Tid) := by
  constructor <;> simp [RequestTasks.init, RequestQueue.blockInitQueue, RequestQueue.waiting]

theorem RequestInv.add_request (h : RequestInv s) {lba : Nat} (hidle : s.place p = .idle)
    (hstep : s.addRequest p lba = some t) : RequestInv t := by
  obtain ⟨q, hq, rfl⟩ := Option.map_eq_some_iff.mp hstep
  obtain ⟨hperm, hcurrent⟩ := elevator_io_schedule_perm hq
  have hplace := fun r => set_place_place s p r
    (if q.currentRequest = none then .toStart s.nextRequest else .toSleep s.nextRequest)
  have hwaiter : ∀ r, Function.update s.waiter s.nextRequest (some p) r =
      if r = s.nextRequest then some p else s.waiter r := Function.update_apply _ _ _
  have hmem := fun r => hperm.mem_iff (a := r)
  have hnew : s.nextRequest ∉ s.queue.waiting ∧ s.nextRequest ∉ s.fetched :=
    not_or.mp fun hin => absurd ((h.made s.nextRequest).mpr hin) (Nat.lt_irrefl _)
  have hended : ∀ r ∈ s.ended, r ≠ s.nextRequest := by
    intro r hr heq
    exact hnew.2 (heq ▸ h.ended r hr)
  obtain ⟨hwaitingNodup, hfetchedNodup, hendedNodup, hmade, hapart, hinvEnded, htransfer,
    hinTransfer, hsingle, hinvWaiter, hasleep, hinvCurrent, hactive⟩ := h
  simp only [List.mem_cons] at hmem
  constructor
  all_goals try simp only [hplace, hwaiter, hmem, set_place_fetched, set_place_ended]
  case waitingNodup => exact hperm.nodup_iff.mpr (List.nodup_cons.mpr ⟨hnew.1, hwaitingNodup⟩)
  case fetchedNodup => exact hfetchedNodup
  case endedNodup => exact hendedNodup
  case made => grind
  case apart => grind
  case ended => exact hinvEnded
  case transfer => grind
  case inTransfer => grind
  case single => grind
  case waiter => grind
  case asleep => grind
  case current => grind
  case active =>
    intro _
    by_cases hnone : q.currentRequest = none
    · exact ⟨p, by rw [if_pos rfl, if_pos hnone]; trivial⟩
    · obtain ⟨p', hp'⟩ := hactive (.inr (hcurrent ▸ hnone))
      refine ⟨p', ?_⟩
      have hne : p' ≠ p := by
        intro heq
        rw [heq, hidle] at hp'
        exact hp'
      rw [if_neg hne]
      exact hp'

/-- A task goes the way that `AddRequest` has found while its request has not ended. -/
theorem RequestInv.start (h : RequestInv s) {request : Nat}
    (hstart : s.place p = .toStart request) (hnot : request ∉ s.ended) :
    RequestInv (s.blockStartRequeue p request) := by
  have hplace := fun r => set_place_place s p r .fetching
  obtain ⟨hwaitingNodup, hfetchedNodup, hendedNodup, hmade, hapart, hended, htransfer, hinTransfer,
    hsingle, hwaiter, hasleep, hcurrent, hactive⟩ := h
  constructor
  all_goals simp only [RequestTasks.blockStartRequeue, hplace, RequestQueue.waiting,
    set_place_waiter, set_place_next, set_place_fetched, set_place_ended] at *
  case waitingNodup => exact hwaitingNodup
  case fetchedNodup => exact hfetchedNodup
  case endedNodup => exact hendedNodup
  case made => exact hmade
  case apart => exact hapart
  case ended => exact hended
  case transfer => grind
  case inTransfer => grind
  case single => grind
  case waiter => grind
  case asleep => grind
  case current => grind
  case active => exact fun _ => ⟨p, by rw [if_pos rfl]; trivial⟩

theorem RequestInv.sleep (h : RequestInv s) {request : Nat}
    (hsleep : s.place p = .toSleep request) (hnot : request ∉ s.ended) :
    RequestInv (s.setPlace p (.asleep request)) := by
  have hplace := fun r => set_place_place s p r (.asleep request)
  obtain ⟨hwaitingNodup, hfetchedNodup, hendedNodup, hmade, hapart, hended, htransfer, hinTransfer,
    hsingle, hwaiter, hasleep, hcurrent, hactive⟩ := h
  refine ⟨hwaitingNodup, hfetchedNodup, hendedNodup, hmade, hapart, hended, ?_, ?_, ?_, ?_, ?_,
    hcurrent, ?_⟩
  all_goals simp only [hplace, set_place_queue, set_place_waiter, set_place_next,
    set_place_fetched, set_place_ended]
  · grind
  · grind
  · grind
  · grind
  · grind
  · intro hleft
    obtain ⟨p', hp'⟩ := hactive hleft
    refine ⟨p', ?_⟩
    have hne : p' ≠ p := by
      intro heq
      rw [heq, hsleep] at hp'
      exact hp'
    rw [if_neg hne]
    exact hp'

theorem RequestInv.fetch (h : RequestInv s) (hfetching : s.place p = .fetching) :
    RequestInv (s.blockFetchRequest p) := by
  unfold RequestTasks.blockFetchRequest
  split
  · next q request hfetch =>
      obtain ⟨hperm, hcurrent⟩ := block_fetch_request_some hfetch
      have hplace := fun r => set_place_place s p r (.transfer request)
      have hmem := fun r => hperm.mem_iff (a := r)
      have hnodup := List.nodup_cons.mp (hperm.nodup_iff.mp h.waitingNodup)
      obtain ⟨hwaitingNodup, hfetchedNodup, hendedNodup, hmade, hapart, hended, htransfer,
        hinTransfer, hsingle, hwaiter, hasleep, hinvCurrent, hactive⟩ := h
      simp only [List.mem_cons] at hmem
      constructor
      all_goals try simp only [hplace, List.mem_append, List.mem_singleton, set_place_waiter,
        set_place_next, set_place_ended]
      case waitingNodup => exact hnodup.2
      case fetchedNodup =>
        rw [List.nodup_append]
        grind
      case endedNodup => exact hendedNodup
      case made => grind
      case apart => grind
      case ended => grind
      case transfer => grind
      case inTransfer => grind
      case single => grind
      case waiter => grind
      case asleep => grind
      case current => grind
      case active => exact fun _ => ⟨p, by rw [if_pos rfl]; trivial⟩
  · next q hfetch =>
      obtain ⟨hempty, hempty', hcurrent⟩ := block_fetch_request_none hfetch
      have hplace := fun r => set_place_place s p r .idle
      obtain ⟨hinvWaitingNodup, hinvFetchedNodup, hinvEndedNodup, hinvMade, hinvApart, hinvEnded,
        hinvTransfer, hinvInTransfer, hinvSingle, hinvWaiter, hinvAsleep, hinvCurrent,
        hinvActive⟩ := h
      rw [hempty] at hinvWaitingNodup hinvMade hinvApart
      constructor
      all_goals try simp only [hplace, hempty', hcurrent, set_place_waiter, set_place_next,
        set_place_fetched, set_place_ended]
      case waitingNodup => exact hinvWaitingNodup
      case fetchedNodup => exact hinvFetchedNodup
      case endedNodup => exact hinvEndedNodup
      case made => exact hinvMade
      case apart => exact hinvApart
      case ended => exact hinvEnded
      case transfer => grind
      case inTransfer => grind
      case single => grind
      case waiter => grind
      case asleep => grind
      case current => exact hinvCurrent
      case active =>
        -- the current request, if there is one, is with another task
        intro hleft
        obtain ⟨r, hr⟩ : ∃ r, s.queue.currentRequest = some r := by
          rcases hleft with hnil | hsome
          · exact absurd rfl hnil
          · exact Option.ne_none_iff_exists'.mp hsome
        obtain ⟨hmade, hnot⟩ := hinvCurrent r hr
        have hfetched : r ∈ s.fetched := by
          rcases (hinvMade r).mp hmade with hin | hin
          · cases hin
          · exact hin
        obtain ⟨p', hp'⟩ := hinvInTransfer r hfetched hnot
        have hne : p' ≠ p := by
          intro heq
          rw [heq, hfetching] at hp'
          cases hp'
        refine ⟨p', ?_⟩
        rw [if_neg hne, hp']
        trivial

/-- What `TaskWakeUp` leaves alone. -/
theorem task_wake_up_same (s : RequestTasks Tid) (task : Option Tid) :
    (s.taskWakeUp task).queue = s.queue ∧ (s.taskWakeUp task).waiter = s.waiter ∧
      (s.taskWakeUp task).nextRequest = s.nextRequest ∧
      (s.taskWakeUp task).fetched = s.fetched ∧ (s.taskWakeUp task).ended = s.ended := by
  unfold RequestTasks.taskWakeUp
  cases task with
  | none => exact ⟨rfl, rfl, rfl, rfl, rfl⟩
  | some p =>
      simp only
      split <;> exact ⟨rfl, rfl, rfl, rfl, rfl⟩

/-- `TaskWakeUp` takes a sleeping task out of its sleep. -/
theorem task_wake_up_place (s : RequestTasks Tid) (task : Option Tid) (q : Tid) :
    (s.taskWakeUp task).place q = s.place q ∧ (task = some q → ∀ r, s.place q ≠ .asleep r) ∨
      (s.taskWakeUp task).place q = .idle ∧ ∃ r, s.place q = .asleep r := by
  unfold RequestTasks.taskWakeUp
  cases task with
  | none => exact .inl ⟨rfl, nofun⟩
  | some p =>
      simp only
      split
      · next r hasleep =>
          rw [set_place_place]
          by_cases hq : q = p
          · exact .inr ⟨if_pos hq, r, hq ▸ hasleep⟩
          · exact .inl ⟨if_neg hq, fun heq => absurd (Option.some.inj heq).symm hq⟩
      · next hnot =>
          refine .inl ⟨rfl, ?_⟩
          intro heq r hr
          cases Option.some.inj heq
          exact hnot r hr

theorem RequestInv.finish (h : RequestInv s) {request : Nat}
    (htransfer : s.place p = .transfer request) : RequestInv (s.blockEndRequest p request) := by
  have hset := fun r => set_place_place s p r .fetching
  have hplace := task_wake_up_place (s.setPlace p .fetching) (s.waiter request)
  obtain ⟨-, hwaiter, hnext, hfetched, -⟩ :=
    task_wake_up_same (s.setPlace p .fetching) (s.waiter request)
  have hfetching : ((s.setPlace p .fetching).taskWakeUp (s.waiter request)).place p = .fetching := by
    rcases hplace p with ⟨hsame, -⟩ | ⟨-, r, hr⟩
    · rw [hsame, hset, if_pos rfl]
    · rw [hset, if_pos rfl] at hr
      cases hr
  obtain ⟨hwaitingNodup, hfetchedNodup, hendedNodup, hmade, hapart, hended, hinvTransfer,
    hinTransfer, hsingle, hinvWaiter, hasleep, hcurrent, hactive⟩ := h
  obtain ⟨hin, hnot⟩ := hinvTransfer p request htransfer
  unfold RequestTasks.blockEndRequest
  constructor
  all_goals try simp only [hwaiter, hnext, hfetched, set_place_waiter, set_place_next,
    set_place_fetched, List.mem_append, List.mem_singleton]
  case waitingNodup => exact hwaitingNodup
  case fetchedNodup => exact hfetchedNodup
  case endedNodup =>
    rw [List.nodup_append]
    grind
  case made => exact hmade
  case apart => exact hapart
  case ended => grind
  case transfer => grind
  case inTransfer => grind
  case single => grind
  case waiter => grind
  case asleep => grind
  case current => nofun
  case active => exact fun _ => ⟨p, by rw [hfetching]; trivial⟩

/-- Every step that spares the window keeps the invariant. -/
theorem RequestInv.step (h : RequestInv s) {op : RequestOp Tid} (hguard : requestGuard s op)
    (hstep : requestStep s op = some t) : RequestInv t := by
  cases op with
  | add p lba =>
      simp only [requestStep] at hstep
      split at hstep
      · next hidle => exact h.add_request hidle hstep
      · cases hstep
  | go p =>
      simp only [requestStep] at hstep
      split at hstep
      · next request hstart =>
          cases hstep
          exact h.start hstart fun hin => (hguard request hin).1 hstart
      · next request hsleep =>
          cases hstep
          exact h.sleep hsleep fun hin => (hguard request hin).2 hsleep
      · cases hstep
  | fetch p =>
      simp only [requestStep] at hstep
      split at hstep
      · next hfetching =>
          cases hstep
          exact h.fetch hfetching
      · cases hstep
  | finish p =>
      simp only [requestStep] at hstep
      split at hstep
      · next request htransfer =>
          cases hstep
          exact h.finish htransfer
      · cases hstep

end

/-! ## Runs -/

/-- No request is fetched or ended twice, and none is lost. Who sleeps waits for a request that
has not ended. While a list is not empty, some task is on its way to `BlockFetchRequest`; when
none is, every request has been fetched and ended, and no task sleeps. -/
structure RequestsServed (s : RequestTasks Tid) : Prop where
  fetched : s.fetched.Nodup
  ended : s.ended.Nodup
  kept : ∀ r < s.nextRequest, s.queue.waiting.count r + s.fetched.count r = 1
  order : ∀ r ∈ s.ended, r ∈ s.fetched
  awake : ∀ p r, s.place p = .asleep r → r ∉ s.ended
  pending : s.queue.waiting ≠ [] → ∃ p, (s.place p).Active
  complete : (∀ p, ¬ (s.place p).Active) →
    (∀ r < s.nextRequest, s.fetched.count r = 1 ∧ s.ended.count r = 1) ∧
      ∀ p r, s.place p ≠ .asleep r

omit [DecidableEq Tid] in
theorem RequestInv.served {s : RequestTasks Tid} (h : RequestInv s) : RequestsServed s := by
  have hkept : ∀ r < s.nextRequest, s.queue.waiting.count r + s.fetched.count r = 1 := by
    intro r hr
    rw [h.waitingNodup.count, h.fetchedNodup.count]
    rcases (h.made r).mp hr with hin | hin
    · rw [if_pos hin, if_neg (h.apart r hin)]
    · rw [if_neg fun hw => h.apart r hw hin, if_pos hin]
  refine ⟨h.fetchedNodup, h.endedNodup, hkept, h.ended, h.asleep, fun hne => h.active (.inl hne),
    ?_⟩
  intro hnone
  have hempty : s.queue.waiting = [] := by
    by_contra hne
    obtain ⟨p, hp⟩ := h.active (.inl hne)
    exact hnone p hp
  have hended : ∀ r < s.nextRequest, r ∈ s.ended := by
    intro r hr
    rcases (h.made r).mp hr with hin | hin
    · rw [hempty] at hin
      cases hin
    · by_contra hnot
      obtain ⟨p, hp⟩ := h.inTransfer r hin hnot
      refine hnone p ?_
      rw [hp]
      trivial
  refine ⟨?_, ?_⟩
  · intro r hr
    rw [h.fetchedNodup.count, h.endedNodup.count, if_pos (hended r hr),
      if_pos (h.ended r (hended r hr))]
    exact ⟨rfl, rfl⟩
  · intro p r hp
    exact h.asleep p r hp (hended r (h.waiter p r (.inr (.inr hp))).1)

end Requests

end XBook
