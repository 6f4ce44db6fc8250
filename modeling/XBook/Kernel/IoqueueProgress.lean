import XBook.Kernel.IoqueueTasks
import XBook.Lib.Transition
import Mathlib.Data.List.Basic

/-!
# The io queue does not stop

A task that waits in `IoQueueWait` holds the lock, so that the others of both sides queue up behind
it. `IoInv` says who owns the lock, and that whenever the queue is open for a task that waits, or
a task of the other side is blocked on the lock behind it, a wake-up is on its way.
-/

namespace XBook.IoTasks

open Transition
open IoQueueTasks (set_frames_frames set_frames_top)

variable {Tid : Type*} [DecidableEq Tid]

/-- The call has the permit of the lock. -/
def owns : Option Place → Bool
  | some (.granted _) | some (.toWait _) | some (.waiting _) | some (.toUnlock _) => true
  | _ => false

/-- The task of the call is the holder of the lock. -/
def holds : Option Place → Bool
  | some (.toWait _) | some (.waiting _) | some (.toUnlock _) => true
  | _ => false

/-- The task of the call is blocked on the lock. -/
def queues : Option Place → Bool
  | some (.onLock _) => true
  | _ => false

theorem owns_of_holds {o : Option Place} (h : holds o = true) : owns o = true := by
  cases o with
  | none => cases h
  | some place => cases place <;> first | rfl | cases h

theorem not_holds {o : Option Place} (h : owns o = false) : holds o = false := by
  cases hholds : holds o with
  | false => rfl
  | true => exact (owns_of_holds hholds).symm.trans h

theorem queues_eq {o : Option Place} (h : queues o = true) : ∃ k, o = some (.onLock k) := by
  cases o with
  | none => cases h
  | some place => cases place <;> first | exact ⟨_, rfl⟩ | cases h

/-- The lock has its permit, or just one task owns it. -/
structure LockInv (s : IoQueueTasks Tid) : Prop where
  counter : s.counter ≤ 1
  free : s.counter ≠ 0 → (∀ p, owns (s.top p) = false) ∧ s.waitList = []
  taken : s.counter = 0 → ∃ p, owns (s.top p) = true
  single : ∀ p q, owns (s.top p) = true → owns (s.top q) = true → p = q
  queued : ∀ p, p ∈ s.waitList ↔ queues (s.top p) = true
  once : s.waitList.Nodup
  holder : ∀ p, s.holder = some p ↔ holds (s.top p) = true
  count : s.holderReaptCount = if s.holder = none then 0 else 1

/-- A task of the other side is blocked on the lock. -/
def OtherQueued (s : IoQueueTasks Tid) (k : Side) : Prop :=
  ∃ p, s.top p = some (.onLock k.other)

/-- A waiter is not left alone with an open queue, nor with one of the other side behind it. -/
structure WaitInv (s : IoQueueTasks Tid) : Prop where
  waiter : ∀ k q, s.waiter k = some q ↔ s.top q = some (.waiting k)
  pending : ∀ k, s.waiter k ≠ none → s.Open k ∨ OtherQueued s k → WakePending s k

/-- The invariant of the tasks at a queue. -/
structure IoInv (s : IoQueueTasks Tid) : Prop where
  flat : ∀ p, (s.frames p).tail = []
  lock : LockInv s
  wait : WaitInv s

section

variable {s t : IoQueueTasks Tid} {p : Tid}

omit [DecidableEq Tid] in
theorem io_inv_init (capacity : Int) : IoInv (.init capacity : IoQueueTasks Tid) := by
  refine ⟨fun _ => rfl, ?_, ?_⟩
  · constructor <;> simp [IoQueueTasks.init, IoQueueTasks.top, owns, holds, queues]
  · constructor <;> simp [IoQueueTasks.init, IoQueueTasks.top]

/-! ## The lock -/

omit [DecidableEq Tid] in
/-- A step that has nothing to do with the lock. -/
theorem LockInv.same (h : LockInv s) (howns : ∀ q, owns (t.top q) = owns (s.top q))
    (hholds : ∀ q, holds (t.top q) = holds (s.top q))
    (hqueues : ∀ q, queues (t.top q) = queues (s.top q)) (hcounter : t.counter = s.counter)
    (hlist : t.waitList = s.waitList) (hholder : t.holder = s.holder)
    (hcount : t.holderReaptCount = s.holderReaptCount) : LockInv t := by
  constructor
  · rw [hcounter]
    exact h.counter
  · simp only [hcounter, howns, hlist]
    exact h.free
  · simp only [hcounter, howns]
    exact h.taken
  · simp only [howns]
    exact h.single
  · simp only [hlist, hqueues]
    exact h.queued
  · rw [hlist]
    exact h.once
  · simp only [hholder, hholds]
    exact h.holder
  · rw [hcount, hholder]
    exact h.count

/-- `SemaphoreDown` with the permit there. -/
theorem LockInv.down (h : LockInv s) {k : Side} (hp : owns (s.top p) = false)
    (htop : ∀ q, t.top q = if q = p then some (.granted k) else s.top q) (hfree : s.counter ≠ 0)
    (hcounter : t.counter = s.counter - 1) (hlist : t.waitList = s.waitList)
    (hholder : t.holder = s.holder) (hcount : t.holderReaptCount = s.holderReaptCount) :
    LockInv t := by
  obtain ⟨hinvCounter, hinvFree, htaken, hsingle, hqueued, honce, hinvHolder, hinvCount⟩ := h
  have hzero : t.counter = 0 := by omega
  have hself : t.top p = some (.granted k) := by rw [htop, if_pos rfl]
  have hother : ∀ q, q ≠ p → t.top q = s.top q := fun q hne => by rw [htop, if_neg hne]
  have howns : owns (t.top p) = true ∧ holds (t.top p) = false ∧ queues (t.top p) = false := by
    rw [hself]
    exact ⟨rfl, rfl, rfl⟩
  have hholds := not_holds hp
  constructor
  case counter => omega
  case free =>
    intro hne
    exact absurd hzero hne
  case taken => exact fun _ => ⟨p, howns.1⟩
  case single => grind
  case queued => grind
  case once => grind
  case holder => grind
  case count => grind

/-- `SemaphoreDown` without the permit. -/
theorem LockInv.block (h : LockInv s) {k : Side} (hp : owns (s.top p) = false)
    (hq : queues (s.top p) = false)
    (htop : ∀ q, t.top q = if q = p then some (.onLock k) else s.top q) (htaken : s.counter = 0)
    (hcounter : t.counter = s.counter) (hlist : t.waitList = s.waitList ++ [p])
    (hholder : t.holder = s.holder) (hcount : t.holderReaptCount = s.holderReaptCount) :
    LockInv t := by
  obtain ⟨hinvCounter, hfree, hinvTaken, hsingle, hqueued, honce, hinvHolder, hinvCount⟩ := h
  have hself : t.top p = some (.onLock k) := by rw [htop, if_pos rfl]
  have hother : ∀ q, q ≠ p → t.top q = s.top q := fun q hne => by rw [htop, if_neg hne]
  have howns : owns (t.top p) = false ∧ holds (t.top p) = false ∧ queues (t.top p) = true := by
    rw [hself]
    exact ⟨rfl, rfl, rfl⟩
  have hholds := not_holds hp
  constructor
  case counter => omega
  case free =>
    intro hne
    exact absurd (hcounter.trans htaken) hne
  case taken =>
    intro _
    obtain ⟨q, hown⟩ := hinvTaken htaken
    have hne : q ≠ p := by
      intro heq
      rw [heq, hp] at hown
      cases hown
    exact ⟨q, by rw [hother q hne, hown]⟩
  case single => grind
  case queued =>
    intro q
    rw [hlist, List.mem_append, List.mem_singleton]
    grind
  case once =>
    rw [hlist, List.nodup_append]
    grind
  case holder => grind
  case count => grind

/-- The rest of `SyncLock`. -/
theorem LockInv.own (h : LockInv s) {j k : Side} (hp : s.top p = some (.granted j))
    (htop : ∀ q, t.top q = if q = p then some (.toWait k) else s.top q)
    (hcounter : t.counter = s.counter) (hlist : t.waitList = s.waitList)
    (hholder : t.holder = some p) (hcount : t.holderReaptCount = 1) : LockInv t := by
  obtain ⟨hinvCounter, hfree, htaken, hsingle, hqueued, honce, hinvHolder, hinvCount⟩ := h
  have hself : t.top p = some (.toWait k) := by rw [htop, if_pos rfl]
  have hother : ∀ q, q ≠ p → t.top q = s.top q := fun q hne => by rw [htop, if_neg hne]
  have howns : owns (t.top p) = true ∧ holds (t.top p) = true ∧ queues (t.top p) = false := by
    rw [hself]
    exact ⟨rfl, rfl, rfl⟩
  have hbefore : owns (s.top p) = true ∧ holds (s.top p) = false ∧ queues (s.top p) = false := by
    rw [hp]
    exact ⟨rfl, rfl, rfl⟩
  constructor
  case counter => omega
  case free =>
    intro hne
    have hnone := (hfree (hcounter ▸ hne)).1 p
    rw [hbefore.1] at hnone
    cases hnone
  case taken => exact fun _ => ⟨p, howns.1⟩
  case single => grind
  case queued => grind
  case once => grind
  case holder =>
    intro q
    rw [hholder, Option.some.injEq]
    constructor
    · rintro rfl
      exact howns.2.1
    · intro hholds
      by_contra hne
      rw [hother q (Ne.symm hne)] at hholds
      exact hne (hsingle p q hbefore.1 (owns_of_holds hholds))
  case count =>
    rw [hcount, hholder]
    rfl

/-- `SyncUnlock` with nobody behind. -/
theorem LockInv.release (h : LockInv s) (hp : holds (s.top p) = true) {place : Place}
    (hplace : owns (some place) = false ∧ queues (some place) = false)
    (hqueues : queues (s.top p) = false)
    (htop : ∀ q, t.top q = if q = p then some place else s.top q) (hempty : s.waitList = [])
    (hcounter : t.counter = s.counter + 1) (hlist : t.waitList = s.waitList)
    (hholder : t.holder = none) (hcount : t.holderReaptCount = 0) : LockInv t := by
  obtain ⟨hinvCounter, hfree, hinvTaken, hsingle, hqueued, honce, hinvHolder, hinvCount⟩ := h
  have hown := owns_of_holds hp
  have hself : t.top p = some place := by rw [htop, if_pos rfl]
  have hother : ∀ q, q ≠ p → t.top q = s.top q := fun q hne => by rw [htop, if_neg hne]
  have htaken : s.counter = 0 := by
    by_contra hne
    have hnone := (hfree hne).1 p
    rw [hown] at hnone
    cases hnone
  have hnone : ∀ q, owns (t.top q) = false := by
    intro q
    by_cases hq : q = p
    · rw [hq, hself]
      exact hplace.1
    · rw [hother q hq]
      cases howns : owns (s.top q) with
      | false => rfl
      | true => exact absurd (hsingle q p howns hown) hq
  constructor
  case counter => omega
  case free => exact fun _ => ⟨hnone, hlist.trans hempty⟩
  case taken =>
    intro hzero
    omega
  case single =>
    intro q r hq
    rw [hnone q] at hq
    cases hq
  case queued =>
    intro q
    rw [hlist]
    by_cases hq : q = p
    · rw [hq, hself, hplace.2, hqueued, hqueues]
    · rw [hother q hq]
      exact hqueued q
  case once =>
    rw [hlist]
    exact honce
  case holder =>
    intro q
    rw [hholder, not_holds (hnone q)]
    exact ⟨nofun, nofun⟩
  case count =>
    rw [hcount, hholder]
    rfl

/-- `SyncUnlock` hands the permit to the first one behind. -/
theorem LockInv.hand_off (h : LockInv s) (hp : holds (s.top p) = true) {place : Place}
    (hplace : owns (some place) = false ∧ queues (some place) = false)
    (hqueues : queues (s.top p) = false) {first : Tid} {rest : List Tid} {k : Side}
    (hfirst : s.waitList = first :: rest)
    (htop : ∀ q, t.top q = if q = first then some (.granted k) else
      if q = p then some place else s.top q)
    (hcounter : t.counter = s.counter) (hlist : t.waitList = rest)
    (hholder : t.holder = none) (hcount : t.holderReaptCount = 0) : LockInv t := by
  obtain ⟨hinvCounter, hfree, hinvTaken, hsingle, hqueued, honce, hinvHolder, hinvCount⟩ := h
  have hown := owns_of_holds hp
  rw [hfirst] at hqueued honce
  have hnodup := List.nodup_cons.mp honce
  have hne : first ≠ p := by
    intro heq
    have hq := (hqueued first).mp List.mem_cons_self
    rw [heq, hqueues] at hq
    cases hq
  have htaken : s.counter = 0 := by
    by_contra hne
    have hnil := (hfree hne).2
    rw [hfirst] at hnil
    cases hnil
  have hself : t.top first = some (.granted k) := by rw [htop, if_pos rfl]
  have hpself : t.top p = some place := by rw [htop, if_neg hne.symm, if_pos rfl]
  have hother : ∀ q, q ≠ first → q ≠ p → t.top q = s.top q :=
    fun q h₁ h₂ => by rw [htop, if_neg h₁, if_neg h₂]
  have howner : ∀ q, owns (t.top q) = true ↔ q = first := by
    intro q
    by_cases hq : q = first
    · rw [hq, hself]
      exact ⟨fun _ => rfl, fun _ => rfl⟩
    · by_cases hqp : q = p
      · rw [hqp, hpself, hplace.1]
        exact ⟨nofun, fun heq => absurd heq.symm hne⟩
      · rw [hother q hq hqp]
        exact ⟨fun howns => absurd (hsingle q p howns hown) hqp, fun heq => absurd heq hq⟩
  constructor
  case counter => omega
  case free =>
    intro hc
    exact absurd (hcounter.trans htaken) hc
  case taken => exact fun _ => ⟨first, (howner first).mpr rfl⟩
  case single =>
    intro q r hq hr
    rw [(howner q).mp hq, (howner r).mp hr]
  case queued =>
    intro q
    rw [hlist]
    by_cases hq : q = first
    · rw [hq, hself]
      exact ⟨fun hin => absurd hin hnodup.1, nofun⟩
    · by_cases hqp : q = p
      · rw [hqp, hpself, hplace.2]
        refine ⟨fun hin => ?_, nofun⟩
        rw [← hqueues]
        exact (hqueued p).mp (List.mem_cons_of_mem _ hin)
      · rw [hother q hq hqp, ← hqueued q, List.mem_cons, or_iff_right hq]
  case once =>
    rw [hlist]
    exact hnodup.2
  case holder =>
    intro q
    rw [hholder]
    refine ⟨nofun, fun hholds => ?_⟩
    have hq := (howner q).mp (owns_of_holds hholds)
    rw [hq, hself] at hholds
    cases hholds
  case count =>
    rw [hcount, hholder]
    rfl

/-! ## The waiters -/

omit [DecidableEq Tid] in
/-- A step that lets nobody wait. -/
theorem WaitInv.same (h : WaitInv s) (hwaiter : t.waiter = s.waiter)
    (hwaiting : ∀ k q, t.top q = some (.waiting k) ↔ s.top q = some (.waiting k))
    (hopen : ∀ k, s.waiter k ≠ none → t.Open k → s.Open k ∨ WakePending t k)
    (hqueued : ∀ k, s.waiter k ≠ none → OtherQueued t k → OtherQueued s k ∨ WakePending t k)
    (hpending : ∀ k, s.waiter k ≠ none → WakePending s k → WakePending t k) : WaitInv t := by
  constructor
  · simp only [hwaiter, hwaiting]
    exact h.waiter
  · intro k hk hleft
    rw [hwaiter] at hk
    have hcases : (s.Open k ∨ OtherQueued s k) ∨ WakePending t k := by
      rcases hleft with ho | hq
      · exact (hopen k hk ho).imp_left .inl
      · exact (hqueued k hk hq).imp_left .inr
    rcases hcases with hbefore | hwake
    · exact hpending k hk (h.pending k hk hbefore)
    · exact hwake

/-- One frame changes, and no frame with a waiter. -/
theorem WaitInv.frame (h : WaitInv s) {o : Option Place}
    (htop : ∀ q, t.top q = if q = p then o else s.top q) (hwaiter : t.waiter = s.waiter)
    (hp : ∀ k, s.top p ≠ some (.waiting k)) (ho : ∀ k, o ≠ some (.waiting k))
    (hopen : ∀ k, s.waiter k ≠ none → t.Open k → s.Open k ∨ WakePending t k)
    (hlock : ∀ k, s.waiter k ≠ none → o = some (.onLock k.other) → WakePending t k)
    (hwake : ∀ k, s.top p = some (.toWake k.other) → s.waiter k = none) : WaitInv t := by
  refine h.same hwaiter ?_ hopen ?_ ?_
  · intro k q
    rw [htop]
    split
    · next heq =>
        rw [heq]
        exact ⟨fun hbad => absurd hbad (ho k), fun hbad => absurd hbad (hp k)⟩
    · exact Iff.rfl
  · rintro k hk ⟨q, hq⟩
    rw [htop] at hq
    split at hq
    · exact .inr (hlock k hk hq)
    · exact .inl ⟨q, hq⟩
  · rintro k hk ⟨q, hq⟩
    refine ⟨q, ?_⟩
    rw [htop, if_neg, hq]
    intro heq
    rw [heq] at hq
    exact hk (hwake k hq)

/-- `IoQueueWait` while the queue is closed and nobody of the other side is behind, or with a
wake-up on its way. -/
theorem WaitInv.io_queue_wait (h : WaitInv s) {k : Side} (hp : s.top p = some (.toWait k))
    (hnone : s.waiter k = none) (htop : ∀ q, t.top q = if q = p then some (.waiting k) else s.top q)
    (hwaiter : t.waiter = Function.update s.waiter k (some p)) (hopen : ∀ j, t.Open j → s.Open j)
    (hguard : s.Open k ∨ OtherQueued s k → WakePending s k) : WaitInv t := by
  have hupdate : ∀ j, t.waiter j = if j = k then some p else s.waiter j := by
    intro j
    rw [hwaiter, Function.update_apply]
  have hqueued : ∀ j, OtherQueued t j → OtherQueued s j := by
    rintro j ⟨q, hq⟩
    rw [htop] at hq
    split at hq
    · cases hq
    · exact ⟨q, hq⟩
  have hpending : ∀ j, WakePending s j → WakePending t j := by
    rintro j ⟨q, hq⟩
    refine ⟨q, ?_⟩
    rw [htop, if_neg, hq]
    intro heq
    rw [heq, hp] at hq
    cases hq
  constructor
  · intro j q
    rw [hupdate, htop]
    have hold := h.waiter j q
    grind
  · intro j hj hleft
    refine hpending j ?_
    by_cases hjk : j = k
    · subst hjk
      exact hguard (hleft.imp (hopen j) (hqueued j))
    · rw [hupdate, if_neg hjk] at hj
      exact h.pending j hj (hleft.imp (hopen j) (hqueued j))

omit [DecidableEq Tid] in
/-- `IoQueueWakeUp` by a task that then leaves, or by the keyboard. -/
theorem WaitInv.io_queue_wake_up (h : WaitInv s) {k : Side}
    (hwaiter : t.waiter = Function.update s.waiter k none)
    (hwaiting : ∀ j q, t.top q = some (.waiting j) ↔ s.top q = some (.waiting j) ∧ j ≠ k)
    (hopen : t.Open k.other → s.Open k.other) (hqueued : ∀ j, OtherQueued t j → OtherQueued s j)
    (hpending : WakePending s k.other → WakePending t k.other) : WaitInv t := by
  have hupdate : ∀ j, t.waiter j = if j = k then none else s.waiter j := by
    intro j
    rw [hwaiter, Function.update_apply]
  constructor
  · intro j q
    rw [hupdate, hwaiting, ← h.waiter]
    by_cases hjk : j = k
    · simp [hjk]
    · simp [hjk]
  · intro j hj hleft
    rw [hupdate] at hj
    split at hj
    · exact absurd rfl hj
    · next hjk =>
        obtain rfl : j = k.other := (k.eq_or_other j).resolve_left hjk
        exact hpending (h.pending _ hj (hleft.imp hopen (hqueued _)))

/-! ## Steps -/

omit [DecidableEq Tid] in
/-- A task has no more than one call. -/
theorem IoInv.frames_of_top (h : IoInv s) {place : Place} (hp : s.top p = some place) :
    s.frames p = [place] := by
  have hflat := h.flat p
  unfold IoQueueTasks.top at hp
  cases hframes : s.frames p with
  | nil =>
      rw [hframes] at hp
      cases hp
  | cons place' rest =>
      rw [hframes] at hp hflat
      rw [Option.some.inj hp, show rest = [] from hflat]

/-- Whatever is read off the calls stays when it stays for the one that changes. -/
theorem read_top {β : Type*} (f : Option Place → β) {o : Option Place}
    (htop : ∀ q, t.top q = if q = p then o else s.top q) (hf : f o = f (s.top p)) (q : Tid) :
    f (t.top q) = f (s.top q) := by
  rw [htop]
  split
  · next heq => rw [hf, heq]
  · rfl

/-- One frame changes where the lock does not care. -/
theorem IoInv.goto (h : IoInv s) {frames : List Place} (htail : frames.tail = [])
    (htop : (∀ k, s.top p ≠ some (.waiting k)) ∧ owns (s.top p) = false ∧ queues (s.top p) = false)
    (hhead : (∀ k, frames.head? ≠ some (.waiting k)) ∧ owns frames.head? = false ∧
      queues frames.head? = false)
    (hwake : ∀ k, s.top p = some (.toWake k.other) → s.waiter k = none) :
    IoInv (s.setFrames p frames) := by
  have hset := fun q => set_frames_top s p q frames
  refine ⟨?_, ?_, ?_⟩
  · intro q
    rw [set_frames_frames]
    split
    · exact htail
    · exact h.flat q
  · refine h.lock.same (read_top owns hset ?_) (read_top holds hset ?_) (read_top queues hset ?_)
      rfl rfl rfl rfl
    · rw [htop.2.1, hhead.2.1]
    · rw [not_holds htop.2.1, not_holds hhead.2.1]
    · rw [htop.2.2, hhead.2.2]
  · refine h.wait.frame hset rfl htop.1 hhead.1 (fun k _ ho => .inl ?_) ?_ hwake
    · cases k <;> exact ho
    · intro k _ hlock
      have hq := hhead.2.2
      rw [hlock] at hq
      cases hq

omit [DecidableEq Tid] in
/-- A pending wake-up is left alone by a step of another place. -/
theorem WakePending.of_top {k : Side} (h : WakePending s k)
    (htop : ∀ q, q ≠ p → t.top q = s.top q) (hp : s.top p ≠ some (.toWake k.other)) :
    WakePending t k := by
  obtain ⟨q, hq⟩ := h
  refine ⟨q, ?_⟩
  rw [htop q, hq]
  intro heq
  rw [heq] at hq
  exact hp hq

/-- `SyncLock` of a task that is not the holder. -/
theorem IoInv.sync_lock (h : IoInv s) {k : Side} (hp : s.top p = some (.toLock k))
    (hguard : s.counter = 0 → (s.waiter k.other).isSome → WakePending s k.other)
    (hstep : s.frameStep p [] (.toLock k) = some t) : IoInv t := by
  have hset := fun place q => set_frames_top s p q [place]
  have hflat : ∀ place q, ((s.setFrames p [place]).frames q).tail = [] := by
    intro place q
    rw [set_frames_frames]
    split
    · rfl
    · exact h.flat q
  have howns : owns (s.top p) = false := by rw [hp]; rfl
  simp only [IoQueueTasks.frameStep] at hstep
  split at hstep
  · next hholder =>
      have hholds := (h.lock.holder p).mp hholder
      rw [hp] at hholds
      cases hholds
  · split at hstep
    · next hfree =>
        cases hstep
        refine ⟨hflat (.granted k), ?_, ?_⟩
        · exact h.lock.down howns (hset (.granted k)) (Nat.ne_of_gt hfree) rfl rfl rfl rfl
        · refine h.wait.frame (hset (.granted k)) rfl ?_ ?_ (fun j _ ho => .inl ?_) ?_ ?_
          · rw [hp]
            exact nofun
          · exact nofun
          · cases j <;> exact ho
          · exact nofun
          · rw [hp]
            exact nofun
    · next htaken =>
        cases hstep
        have hzero : s.counter = 0 := by omega
        refine ⟨hflat (.onLock k), ?_, ?_⟩
        · refine h.lock.block howns ?_ (hset (.onLock k)) hzero rfl rfl rfl rfl
          rw [hp]
          rfl
        · refine h.wait.frame (hset (.onLock k)) rfl ?_ ?_ (fun j _ ho => .inl ?_) ?_ ?_
          · rw [hp]
            exact nofun
          · exact nofun
          · cases j <;> exact ho
          · intro j hj hlock
            obtain rfl : k = j.other := by simpa using hlock
            rw [Side.other_other] at hguard
            refine (hguard hzero (Option.isSome_iff_ne_none.mpr hj)).of_top
              (fun q hq => ?_) (p := p) ?_
            · exact (hset (.onLock j.other) q).trans (if_neg hq)
            · rw [hp]
              exact nofun
          · rw [hp]
            exact nofun

/-- The holder lets the lock go. -/
theorem IoInv.sync_unlock (h : IoInv s) {k : Side} (hp : s.top p = some (.toUnlock k))
    (hstep : s.frameStep p [] (.toUnlock k) = some t) : IoInv t := by
  have hset := fun q => set_frames_top s p q [.test k]
  have hholds : holds (s.top p) = true := by rw [hp]; rfl
  have hqueues : queues (s.top p) = false := by rw [hp]; rfl
  have hcount : s.holderReaptCount = 1 := by
    rw [h.lock.count, (h.lock.holder p).mpr hholds]
    rfl
  have hflat : ∀ q, ((s.setFrames p [.test k]).frames q).tail = [] := by
    intro q
    rw [set_frames_frames]
    split
    · rfl
    · exact h.flat q
  simp only [IoQueueTasks.frameStep, (h.lock.holder p).mpr hholds, if_true, hcount,
    Nat.lt_irrefl, if_false, gt_iff_lt] at hstep
  cases hstep
  unfold IoQueueTasks.semaphoreUp
  split
  · next hempty =>
      refine ⟨hflat, ?_, ?_⟩
      · exact h.lock.release hholds ⟨rfl, rfl⟩ hqueues hset hempty rfl rfl rfl rfl
      · refine h.wait.frame hset rfl ?_ ?_ (fun j _ ho => .inl ?_) ?_ ?_
        · rw [hp]
          exact nofun
        · exact nofun
        · cases j <;> exact ho
        · exact nofun
        · rw [hp]
          exact nofun
  · next first rest hfirst =>
      have hlist : s.waitList = first :: rest := hfirst
      have hqueued : queues (s.top first) = true :=
        (h.lock.queued first).mp (by rw [hlist]; exact List.mem_cons_self)
      have hne : first ≠ p := by
        intro heq
        rw [heq, hqueues] at hqueued
        cases hqueued
      have hsame : (s.setFrames p [.test k]).frames first = s.frames first := by
        rw [set_frames_frames, if_neg hne]
      obtain ⟨j, htopFirst⟩ := queues_eq hqueued
      have hj := h.frames_of_top htopFirst
      split
      · next i rest' hframes =>
          have hframes' : s.frames first = .onLock i :: rest' := hsame.symm.trans hframes
          obtain ⟨rfl, rfl⟩ : j = i ∧ [] = rest' := by
            rw [hj] at hframes'
            simpa using hframes'
          have hset' : ∀ q, ((s.setFrames p [.test k]).setFrames first [.granted j]).top q =
              if q = first then some (.granted j) else
                if q = p then some (.test k) else s.top q := by
            intro q
            rw [set_frames_top, hset]
            rfl
          refine ⟨?_, ?_, ?_⟩
          · intro q
            show (((s.setFrames p [.test k]).setFrames first [.granted j]).frames q).tail = []
            rw [set_frames_frames]
            split
            · rfl
            · exact hflat q
          · exact h.lock.hand_off hholds ⟨rfl, rfl⟩ hqueues hlist hset' rfl rfl rfl rfl
          · refine h.wait.same rfl ?_ (fun i _ ho => .inl ?_) ?_ ?_
            · intro i q
              show ((s.setFrames p [.test k]).setFrames first [.granted j]).top q = _ ↔ _
              rw [hset']
              grind
            · cases i <;> exact ho
            · rintro i - ⟨q, hq⟩
              refine .inl ⟨q, ?_⟩
              have hq' : ((s.setFrames p [.test k]).setFrames first [.granted j]).top q =
                some (.onLock i.other) := hq
              rw [hset'] at hq'
              grind
            · rintro i - ⟨q, hq⟩
              refine ⟨q, ?_⟩
              show ((s.setFrames p [.test k]).setFrames first [.granted j]).top q = _
              rw [hset']
              grind
      · next hnot => exact absurd (hsame.trans hj) (hnot j [])

/-- The frames stay flat when one of them changes. -/
theorem IoInv.flat_set (h : IoInv s) {frames : List Place} (htail : frames.tail = []) (q : Tid) :
    ((s.setFrames p frames).frames q).tail = [] := by
  rw [set_frames_frames]
  split
  · exact htail
  · exact h.flat q

/-- `IoQueueWait`. -/
theorem IoInv.io_queue_wait (h : IoInv s) {k : Side} (hp : s.top p = some (.toWait k))
    (hguard : (s.Open k ∨ ∃ q ∈ s.waitList, s.top q = some (.onLock k.other)) → WakePending s k)
    (hstep : s.frameStep p [] (.toWait k) = some t) : IoInv t := by
  have hset := fun q => set_frames_top s p q [.waiting k]
  simp only [IoQueueTasks.frameStep] at hstep
  split at hstep
  · next hnone =>
      cases hstep
      refine ⟨h.flat_set rfl, ?_, ?_⟩
      · refine h.lock.same (read_top owns hset ?_) (read_top holds hset ?_)
          (read_top queues hset ?_) rfl rfl rfl rfl
        · rw [hp]
          rfl
        · rw [hp]
          rfl
        · rw [hp]
          rfl
      · refine h.wait.io_queue_wait hp hnone hset rfl (fun j ho => ?_) ?_
        · cases j <;> exact ho
        · rintro (ho | ⟨q, hq⟩)
          · exact hguard (.inl ho)
          · refine hguard (.inr ⟨q, ?_, hq⟩)
            rw [h.lock.queued, hq]
            rfl
  · cases hstep

/-- The item is moved. -/
theorem IoInv.move (h : IoInv s) {k : Side} (hp : s.top p = some (.toMove k)) :
    IoInv ((s.setFrames p [.toWake k]).move k) := by
  have hset := fun q => set_frames_top s p q [.toWake k]
  have hmove : ∀ s : IoQueueTasks Tid, (s.move k).top = s.top ∧ (s.move k).waiter = s.waiter ∧
      (s.move k).counter = s.counter ∧ (s.move k).waitList = s.waitList ∧
      (s.move k).holder = s.holder ∧ (s.move k).holderReaptCount = s.holderReaptCount ∧
      (s.move k).frames = s.frames := by
    intro s
    cases k <;> exact ⟨rfl, rfl, rfl, rfl, rfl, rfl, rfl⟩
  obtain ⟨htop, hwaiter, hcounter, hlist, hholder, hcount, hframes⟩ :=
    hmove (s.setFrames p [.toWake k])
  have hset' : ∀ q, ((s.setFrames p [.toWake k]).move k).top q =
      if q = p then some (.toWake k) else s.top q := by
    intro q
    rw [htop, hset]
    rfl
  refine ⟨?_, ?_, ?_⟩
  · intro q
    rw [hframes]
    exact h.flat_set rfl q
  · refine h.lock.same (read_top owns hset' ?_) (read_top holds hset' ?_)
      (read_top queues hset' ?_) hcounter hlist hholder hcount
    · rw [hp]
      rfl
    · rw [hp]
      rfl
    · rw [hp]
      rfl
  · refine h.wait.frame hset' hwaiter ?_ ?_ ?_ ?_ ?_
    · rw [hp]
      exact nofun
    · exact nofun
    · intro j _ ho
      rcases k.eq_or_other j with rfl | rfl
      -- the queue closes for its own side
      · left
        cases j with
        | put =>
            have hlt : s.size + 1 < s.capacity := ho
            show s.size < s.capacity
            omega
        | get =>
            have hlt : 0 < s.size - 1 := ho
            show 0 < s.size
            omega
      -- it opens for the other side, which the task is about to wake
      · right
        refine ⟨p, ?_⟩
        rw [hset', if_pos rfl, Side.other_other]
    · exact nofun
    · rw [hp]
      exact nofun

/-- `IoQueueWakeUp` where there is a waiter. -/
theorem io_queue_wake_up_some {k : Side} {q : Tid} (hwaiter : s.waiter k = some q)
    (hq : s.frames q = [.waiting k]) : s.ioQueueWakeUp k = some
      { s.setFrames q [.toUnlock k] with waiter := Function.update s.waiter k none } := by
  unfold IoQueueTasks.ioQueueWakeUp
  rw [hwaiter]
  simp only [hq]

/-- The woken task leaves its place, and whoever woke it may leave as well. -/
theorem IoInv.wake (h : IoInv s) {k : Side} {q : Tid} (hwaiter : s.waiter k = some q)
    (hframes : ∀ r, t.frames r = if r = q then [.toUnlock k] else
      if r = p ∧ s.top p = some (.toWake k.other) then [] else s.frames r)
    (hwaiter' : t.waiter = Function.update s.waiter k none) (hopen : t.Open k.other → s.Open k.other)
    (hcounter : t.counter = s.counter) (hlist : t.waitList = s.waitList)
    (hholder : t.holder = s.holder) (hcount : t.holderReaptCount = s.holderReaptCount) :
    IoInv t := by
  have hq := (h.wait.waiter k q).mp hwaiter
  have htop : ∀ r, t.top r = if r = q then some (.toUnlock k) else
      if r = p ∧ s.top p = some (.toWake k.other) then none else s.top r := by
    intro r
    show (t.frames r).head? = _
    rw [hframes, apply_ite List.head?, apply_ite List.head?]
    rfl
  have hread : ∀ {β : Type} (f : Option Place → β), f (some (.toUnlock k)) = f (some (.waiting k)) →
      f none = f (some (.toWake k.other)) → ∀ r, f (t.top r) = f (s.top r) := by
    intro β f h₁ h₂ r
    rw [htop]
    split
    · next heq => rw [heq, hq, h₁]
    · split
      · next heq => rw [heq.1, heq.2, h₂]
      · rfl
  refine ⟨?_, ?_, ?_⟩
  · intro r
    rw [hframes]
    split
    · rfl
    · split
      · rfl
      · exact h.flat r
  · exact h.lock.same (hread owns rfl rfl) (hread holds rfl rfl) (hread queues rfl rfl) hcounter
      hlist hholder hcount
  · refine h.wait.io_queue_wake_up hwaiter' ?_ hopen ?_ ?_
    · intro j r
      rw [htop]
      by_cases hr : r = q
      · rw [if_pos hr, hr, hq]
        constructor
        · nofun
        · rintro ⟨heq, hne⟩
          cases heq
          exact absurd rfl hne
      · rw [if_neg hr]
        have hne : s.top r = some (.waiting j) → j ≠ k := by
          rintro hr' rfl
          have hsame := (h.wait.waiter j r).mpr hr'
          rw [hwaiter] at hsame
          exact hr (Option.some.inj hsame).symm
        split
        · next heq =>
            constructor
            · nofun
            · rintro ⟨hr', -⟩
              rw [heq.1, heq.2] at hr'
              cases hr'
        · exact ⟨fun hr' => ⟨hr', hne hr'⟩, And.left⟩
    · rintro j ⟨r, hr⟩
      refine ⟨r, ?_⟩
      rw [htop] at hr
      split at hr
      · cases hr
      · split at hr
        · cases hr
        · exact hr
    · rintro ⟨r, hr⟩
      refine ⟨r, ?_⟩
      rw [Side.other_other] at hr
      rw [htop, if_neg, if_neg, hr, Side.other_other]
      · rintro ⟨rfl, hr'⟩
        rw [hr] at hr'
        exact k.other_ne (by simpa using hr'.symm)
      · rintro rfl
        rw [hq] at hr
        cases hr

theorem IoInv.frame_step (h : IoInv s) {place : Place} (hp : s.frames p = [place])
    (hguard : ioTaskGuard s (.advance p)) (hstep : s.frameStep p [] place = some t) :
    IoInv t := by
  have htop : s.top p = some place := by rw [IoQueueTasks.top, hp]; rfl
  cases place with
  | test k =>
      cases hstep
      refine h.goto rfl ?_ ?_ ?_
      · rw [htop]
        exact ⟨nofun, rfl, rfl⟩
      · split <;> exact ⟨nofun, rfl, rfl⟩
      · rw [htop]
        exact nofun
  | toLock k => exact h.sync_lock htop ((hguard k).2 htop) hstep
  | onLock k => cases hstep
  | granted k =>
      simp only [IoQueueTasks.frameStep] at hstep
      split at hstep
      · cases hstep
        have hset := fun q => set_frames_top s p q [.toWait k]
        refine ⟨h.flat_set rfl, h.lock.own htop hset rfl rfl rfl rfl, ?_⟩
        refine h.wait.frame hset rfl ?_ ?_ (fun j _ ho => .inl ?_) ?_ ?_
        · rw [htop]
          exact nofun
        · exact nofun
        · cases j <;> exact ho
        · exact nofun
        · rw [htop]
          exact nofun
      · cases hstep
  | toWait k => exact h.io_queue_wait htop ((hguard k).1 htop) hstep
  | waiting k => cases hstep
  | toUnlock k => exact h.sync_unlock htop hstep
  | toMove k =>
      cases hstep
      exact h.move htop
  | toWake k =>
      obtain ⟨s₁, hwake, rfl⟩ := Option.map_eq_some_iff.mp hstep
      cases hwaiter : s.waiter k.other with
      | none =>
          unfold IoQueueTasks.ioQueueWakeUp at hwake
          rw [hwaiter] at hwake
          cases hwake
          refine h.goto rfl ?_ ⟨nofun, rfl, rfl⟩ ?_
          · rw [htop]
            exact ⟨nofun, rfl, rfl⟩
          · intro j hj
            rw [htop] at hj
            obtain rfl : k = j.other := by simpa using hj
            rwa [Side.other_other] at hwaiter
      | some q =>
          have hq := (h.wait.waiter _ q).mp hwaiter
          rw [io_queue_wake_up_some hwaiter (h.frames_of_top hq)] at hwake
          cases hwake
          have hne : q ≠ p := by
            rintro rfl
            rw [htop] at hq
            cases hq
          refine h.wake (p := p) hwaiter ?_ rfl ?_ rfl rfl rfl rfl
          · intro r
            show ((s.setFrames q [.toUnlock k.other]).setFrames p []).frames r = _
            rw [set_frames_frames, set_frames_frames, htop, Side.other_other]
            grind
          · exact fun ho => by cases k <;> exact ho

/-- The keyboard. -/
theorem IoInv.keyboard_handler (h : IoInv s) (hguard : s.closed .put → s.frames p = [])
    (hstep : s.keyboardHandler p = some t) : IoInv t := by
  unfold IoQueueTasks.keyboardHandler at hstep
  split at hstep
  · next hclosed =>
      cases hstep
      have hnil := hguard hclosed
      have htop : s.top p = none := by rw [IoQueueTasks.top, hnil]; rfl
      rw [hnil]
      refine h.goto rfl ?_ ⟨nofun, rfl, rfl⟩ ?_
      · rw [htop]
        exact ⟨nofun, rfl, rfl⟩
      · rw [htop]
        exact nofun
  · cases hwaiter : s.waiter .get with
    | none =>
        have hwaiter' : (s.move .put).waiter .get = none := hwaiter
        unfold IoQueueTasks.ioQueueWakeUp at hstep
        rw [hwaiter'] at hstep
        cases hstep
        refine ⟨h.flat, h.lock.same (fun _ => rfl) (fun _ => rfl) (fun _ => rfl) rfl rfl rfl rfl,
          ?_⟩
        refine h.wait.same rfl (fun _ _ => Iff.rfl) (fun k hk ho => .inl ?_)
          (fun _ _ => .inl) fun _ _ => id
        cases k with
        | put =>
            have hlt : s.size + 1 < s.capacity := ho
            show s.size < s.capacity
            omega
        | get => exact absurd hwaiter hk
    | some q =>
        have hq := (h.wait.waiter _ q).mp hwaiter
        have hwake := @io_queue_wake_up_some Tid _ (s.move .put) .get q hwaiter
          (h.frames_of_top hq)
        rw [hwake] at hstep
        cases hstep
        have hnot : q = q ∧ s.top q ≠ some (.toWake (Side.get).other) := by
          rw [hq]
          exact ⟨rfl, nofun⟩
        refine h.wake (p := q) hwaiter ?_ rfl ?_ rfl rfl rfl rfl
        · intro r
          show (s.setFrames q [.toUnlock .get]).frames r = _
          rw [set_frames_frames]
          grind
        · intro ho
          have hlt : s.size + 1 < s.capacity := ho
          show s.size < s.capacity
          omega

/-- Every step that the guard allows keeps the invariant. -/
theorem IoInv.step (h : IoInv s) {op : IoTaskOp Tid} (hguard : ioTaskGuard s op)
    (hstep : ioTaskStep s op = some t) : IoInv t := by
  cases op with
  | call p k =>
      simp only [ioTaskStep] at hstep
      split at hstep
      · next hnil =>
          cases hstep
          have htop : s.top p = none := by rw [IoQueueTasks.top, hnil]; rfl
          refine h.goto rfl ?_ ⟨nofun, rfl, rfl⟩ ?_
          · rw [htop]
            exact ⟨nofun, rfl, rfl⟩
          · rw [htop]
            exact nofun
      · cases hstep
  | advance p =>
      simp only [ioTaskStep] at hstep
      split at hstep
      · cases hstep
      · next place rest hframes =>
          have hrest : rest = [] := by
            have hflat := h.flat p
            rw [hframes] at hflat
            exact hflat
          subst hrest
          exact h.frame_step hframes hguard hstep
  | key p =>
      simp only [ioTaskStep] at hstep
      split at hstep
      · exact h.keyboard_handler hguard hstep
      · cases hstep

end

/-! ## Runs -/

/-- A task is blocked in a call for this side. -/
def BlockedIn (s : IoQueueTasks Tid) (k : Side) (p : Tid) : Prop :=
  s.top p = some (.onLock k) ∨ s.top p = some (.waiting k)

/-- A task is in the code of the queue and can run. -/
def Runnable (s : IoQueueTasks Tid) : Prop := ∃ p place, s.top p = some place ∧ ¬ place.Blocked

/-- No task is blocked while the queue is open for it, nor are tasks of both sides blocked, unless
some task in the code of the queue can run. -/
structure NoDeadlock (s : IoQueueTasks Tid) : Prop where
  progress : ∀ k p, BlockedIn s k p → s.Open k → Runnable s
  both : ∀ p q, BlockedIn s .put p → BlockedIn s .get q → Runnable s

omit [DecidableEq Tid] in
/-- When no task can run, a waiter of the same side holds the lock, the queue is closed for it,
and nobody of the other side is behind it. -/
theorem IoInv.stuck {s : IoQueueTasks Tid} (h : IoInv s) (hstuck : ¬ Runnable s) {k : Side} {p : Tid}
    (hp : BlockedIn s k p) :
    (∃ q, s.top q = some (.waiting k)) ∧ ¬ s.Open k ∧ ¬ OtherQueued s k := by
  have hwaiting : ∀ j q, s.top q = some (.waiting j) → ¬ s.Open j ∧ ¬ OtherQueued s j := by
    intro j q hq
    have hne : s.waiter j ≠ none := by
      rw [(h.wait.waiter j q).mpr hq]
      exact nofun
    refine not_or.mp fun hleft => hstuck ?_
    obtain ⟨r, hr⟩ := h.wait.pending j hne hleft
    exact ⟨r, _, hr, id⟩
  rcases hp with hlock | hwait
  · have hin : p ∈ s.waitList := by
      rw [h.lock.queued, hlock]
      rfl
    have hzero : s.counter = 0 := by
      by_contra hne
      rw [(h.lock.free hne).2] at hin
      cases hin
    obtain ⟨q, hq⟩ := h.lock.taken hzero
    -- the owner cannot run, so it is a waiter
    obtain ⟨j, hj⟩ : ∃ j, s.top q = some (.waiting j) := by
      cases htop : s.top q with
      | none =>
          rw [htop] at hq
          cases hq
      | some place =>
          have hblocked : place.Blocked := by
            by_contra hnot
            exact hstuck ⟨q, place, htop, hnot⟩
          rw [htop] at hq
          cases place with
          | waiting j => exact ⟨j, rfl⟩
          | onLock j => cases hq
          | test j => exact hblocked.elim
          | toLock j => exact hblocked.elim
          | granted j => exact hblocked.elim
          | toWait j => exact hblocked.elim
          | toUnlock j => exact hblocked.elim
          | toMove j => exact hblocked.elim
          | toWake j => exact hblocked.elim
    rcases j.eq_or_other k with rfl | rfl
    · exact ⟨⟨q, hj⟩, hwaiting k q hj⟩
    · exact absurd ⟨p, hlock⟩ (hwaiting j q hj).2
  · exact ⟨⟨p, hwait⟩, hwaiting k p hwait⟩

omit [DecidableEq Tid] in
theorem IoInv.no_deadlock {s : IoQueueTasks Tid} (h : IoInv s) : NoDeadlock s := by
  constructor
  · intro k p hp hopen
    by_contra hstuck
    exact (h.stuck hstuck hp).2.1 hopen
  · intro p q hp hq
    by_contra hstuck
    obtain ⟨⟨p', hp'⟩, -⟩ := h.stuck hstuck hp
    obtain ⟨⟨q', hq'⟩, -⟩ := h.stuck hstuck hq
    have heq : p' = q' := by
      refine h.lock.single p' q' ?_ ?_
      · rw [hp']
        rfl
      · rw [hq']
        rfl
    rw [heq, hq'] at hp'
    cases hp'

/-- The task goes on for a number of steps. -/
def turns (p : Tid) (n : Nat) : List (IoTaskOp Tid) := .replicate n (.advance p)

/-- The producer finds the queue full at its second item, and the consumer takes the first one. -/
def roomMade : List (IoTaskOp (Fin 2)) :=
  .call 0 .put :: turns 0 3 ++ .call 0 .put :: turns 0 4 ++ .call 1 .get :: turns 1 3 ++ turns 0 4

/-- The consumer finds the queue empty before the producer, which holds the lock, puts an item. -/
def lockHandedOver : List (IoTaskOp (Fin 2)) :=
  .call 0 .put :: turns 0 3 ++ .call 0 .put :: turns 0 4 ++ .call 1 .get :: turns 1 3 ++
    .call 1 .get :: turns 1 2 ++ turns 0 4 ++ turns 1 2

end XBook.IoTasks
