import XBook.Kernel.SystemClock

/-!
# Timers and their callbacks

`drivers/timer.c` with the list that `UpdateTimerSystem` walks over, callbacks that add and remove
timers on the way, and the `ASSERT`s, at which the system stops. `pending` says in terms of the
history what should happen. A removed timer is linked to itself, a timer of no ticks is counted
down past zero, and the walk comes to the timers that have been added behind it: `timers_right` is
about the runs in which none of this happens.
-/

namespace XBook.Timers

open Clock (Timer)

/-- What a task or a callback asks for: `TimerInit` and `AddTimer`, or `RemoveTimer`. -/
inductive Request (Tid F : Type*) where
  | add (timer : Tid) (expires : UInt64) (data : UInt32) (function : F)
  | remove (timer : Tid)

/-- What happens to the timers. -/
inductive Action (Tid F : Type*) where
  | tick
  | request (request : Request Tid F)
  | called (timer : Tid) (data : UInt32) (function : F)

/-- `timerList`, the structures, and what has happened so far, the latest first. -/
structure TimerSystem (Tid F : Type*) where
  timerList : List Tid
  timer : Tid → Timer F
  trace : List (Action Tid F)

/-- A tick comes with what the callbacks do, by their function, its data and all that has happened
before. -/
inductive Event (Tid F : Type*) where
  | request (request : Request Tid F)
  | tick (work : F → UInt32 → List (Action Tid F) → List (Request Tid F))

variable {Tid F : Type*} [DecidableEq Tid]

/-- `ListNextOwner`, where `none` is the head of the list. What has been removed by `ListDelInit`
is linked to itself. -/
def following (timerList : List Tid) (t : Tid) : Option Tid :=
  if t ∈ timerList then timerList[timerList.idxOf t + 1]? else some t

namespace TimerSystem

/-- `InitTimer`. -/
def init (timer : Tid → Timer F) : TimerSystem Tid F := ⟨[], timer, []⟩

def setTimer (s : TimerSystem Tid F) (t : Tid) (x : Timer F) : TimerSystem Tid F :=
  { s with timer := Function.update s.timer t x }

def log (s : TimerSystem Tid F) (action : Action Tid F) : TimerSystem Tid F :=
  { s with trace := action :: s.trace }

/-- `TimerInit`. -/
def timerInit (s : TimerSystem Tid F) (t : Tid) (expires : UInt64) (data : UInt32) (function : F) :
    TimerSystem Tid F :=
  s.setTimer t ⟨expires, data, function, .idle⟩

/-- `AddTimer`. -/
def addTimer (s : TimerSystem Tid F) (t : Tid) : Option (TimerSystem Tid F) :=
  if t ∈ s.timerList then none
  else
    some { s.setTimer t { s.timer t with state := .running } with
      timerList := s.timerList ++ [t] }

/-- `RemoveTimer` and `CancelTimer`. -/
def removeTimer (s : TimerSystem Tid F) (t : Tid) : Option (TimerSystem Tid F) :=
  if t ∈ s.timerList then some { s with timerList := s.timerList.erase t } else none

def request (s : TimerSystem Tid F) (r : Request Tid F) : Option (TimerSystem Tid F) :=
  match r with
  | .add t expires data function =>
      ((s.log (.request r)).timerInit t expires data function).addTimer t
  | .remove t => (s.log (.request r)).removeTimer t

/-- A callback, with the requests that it makes. -/
def requests (s : TimerSystem Tid F) : List (Request Tid F) → Option (TimerSystem Tid F)
  | [] => some s
  | r :: rs => (s.request r).bind fun s => s.requests rs

/-- `--timer->expires`. -/
def countDown (s : TimerSystem Tid F) (t : Tid) : TimerSystem Tid F :=
  s.setTimer t { s.timer t with expires := (s.timer t).expires - 1 }

/-- The callback of the timer begins. -/
def call (s : TimerSystem Tid F) (t : Tid) : TimerSystem Tid F :=
  s.log (.called t (s.timer t).data (s.timer t).function)

/-- What the callback of the timer does. -/
def callback (work : F → UInt32 → List (Action Tid F) → List (Request Tid F))
    (s : TimerSystem Tid F) (t : Tid) : List (Request Tid F) :=
  work (s.timer t).function (s.timer t).data s.trace

variable (work : F → UInt32 → List (Action Tid F) → List (Request Tid F))

/-- `DoTimerHandler`. -/
def doTimerHandler (s : TimerSystem Tid F) (t : Tid) : Option (TimerSystem Tid F) :=
  (s.removeTimer t).bind fun s => (s.call t).requests ((s.call t).callback work t)

/-- `TimerUpdate`. -/
def timerUpdate (s : TimerSystem Tid F) (t : Tid) : Option (TimerSystem Tid F) :=
  if (s.timer t).state = .running then
    if ((s.countDown t).timer t).expires = 0 then (s.countDown t).doTimerHandler work t
    else some (s.countDown t)
  else some s

/-- The loop of `UpdateTimerSystem`, which takes the next timer before it updates this one. -/
def walk : Nat → Option Tid → TimerSystem Tid F → Option (TimerSystem Tid F)
  | _, none, s => some s
  | 0, some _, _ => none
  | fuel + 1, some t, s => (s.timerUpdate work t).bind (walk fuel (following s.timerList t))

/-- `UpdateTimerSystem`. -/
def updateTimerSystem (fuel : Nat) (s : TimerSystem Tid F) : Option (TimerSystem Tid F) :=
  (s.log .tick).walk work fuel s.timerList.head?

end TimerSystem

/-- The event comes to its end in the second state. -/
def Ends (s : TimerSystem Tid F) (event : Event Tid F) (s' : TimerSystem Tid F) : Prop :=
  match event with
  | .request r => s.request r = some s'
  | .tick work => ∃ fuel, s.updateTimerSystem work fuel = some s'

/-! ## What should happen -/

/-- The ticks that are left until the callback of the timer runs, with its data and its function.
At the last one none are left. -/
def pending (t : Tid) : List (Action Tid F) → Option (Nat × UInt32 × F)
  | [] => none
  | .tick :: past => (pending t past).map fun (left, call) => (left - 1, call)
  | .request (.add u expires data function) :: past =>
      if u = t then some (max expires.toNat 1, data, function) else pending t past
  | .request (.remove u) :: past => if u = t then none else pending t past
  | .called u _ _ :: past => if u = t then none else pending t past

/-- No callback is due. -/
def NoneDue (past : List (Action Tid F)) : Prop := ∀ t call, pending t past ≠ some (0, call)

/-- A callback has only run where it was due, and no tick has begun before all of them have run. -/
def TraceRight : List (Action Tid F) → Prop
  | [] => True
  | .tick :: past => NoneDue past ∧ TraceRight past
  | .request _ :: past => TraceRight past
  | .called t data function :: past => pending t past = some (0, data, function) ∧ TraceRight past

/-- Every event ends, and all callbacks have run that were due. -/
def TimersRight (s : TimerSystem Tid F) : List (Event Tid F) → Prop
  | [] => TraceRight s.trace ∧ NoneDue s.trace
  | event :: events =>
      (TraceRight s.trace ∧ NoneDue s.trace) ∧ ∃ s', Ends s event s' ∧ TimersRight s' events

/-! ## Where it does -/

/-- The timer has been added since the tick. -/
def AddedNow (t : Tid) : List (Action Tid F) → Prop
  | [] => False
  | .tick :: _ => False
  | .request (.add u _ _ _) :: past => u = t ∨ AddedNow t past
  | .request (.remove _) :: past => AddedNow t past
  | .called _ _ _ :: past => AddedNow t past

/-- The `ASSERT` is kept and there are ticks to wait. -/
def RequestOk (s : TimerSystem Tid F) : Request Tid F → Prop
  | .add t expires _ _ => t ∉ s.timerList ∧ expires ≠ 0
  | .remove t => t ∈ s.timerList

/-- A callback does not remove the timer that comes next. -/
def CallbackOk (next : Option Tid) (s : TimerSystem Tid F) : List (Request Tid F) → Prop
  | [] => True
  | r :: rs =>
      (RequestOk s r ∧ ∀ t, r = .remove t → next ≠ some t) ∧
        ∀ s', s.request r = some s' → CallbackOk next s' rs

/-- The timer has not been added since the tick, and its callback, if it is called, keeps the next
one. -/
def VisitOk (work : F → UInt32 → List (Action Tid F) → List (Request Tid F))
    (s : TimerSystem Tid F) (t : Tid) : Prop :=
  ¬AddedNow t s.trace ∧
    ((s.timer t).expires = 1 → ∀ s', (s.countDown t).removeTimer t = some s' →
      CallbackOk (following s.timerList t) (s'.call t) ((s'.call t).callback work t))

/-- All of this along the walk. -/
def WalkOk (work : F → UInt32 → List (Action Tid F) → List (Request Tid F)) :
    Nat → Option Tid → TimerSystem Tid F → Prop
  | fuel + 1, some t, s =>
      VisitOk work s t ∧
        ∀ s', s.timerUpdate work t = some s' → WalkOk work fuel (following s.timerList t) s'
  | _, _, _ => True

def EventOk (s : TimerSystem Tid F) : Event Tid F → Prop
  | .request r => RequestOk s r
  | .tick work => ∀ fuel, WalkOk work fuel s.timerList.head? (s.log .tick)

/-- Every step of a run meets the condition. -/
def RunOk (s : TimerSystem Tid F) : List (Event Tid F) → Prop
  | [] => True
  | event :: events => EventOk s event ∧ ∀ s', Ends s event s' → RunOk s' events

/-! ## The invariant -/

variable {s s' : TimerSystem Tid F} {next : Option Tid} {done old fresh : List Tid} {t u : Tid}

/-- The timer runs, and its count is `late` above the ticks that are left. -/
def Holds (s : TimerSystem Tid F) (late : Nat) (t : Tid) : Prop :=
  ∃ left, pending t s.trace = some (left, (s.timer t).data, (s.timer t).function) ∧
    (s.timer t).expires.toNat = left + late ∧ 0 < (s.timer t).expires.toNat ∧
    (s.timer t).state = .running

/-- The timer from which the walk goes on. -/
def ComesNext (next : Option Tid) (old fresh : List Tid) : Prop :=
  match old with
  | [] => ∀ t, next = some t → t ∈ fresh
  | n :: _ => next = some n

/-- A walk has come to the timers `old`, which are not counted down yet, and `fresh` have been added
on the way. -/
structure WalkInv (s : TimerSystem Tid F) (next : Option Tid) (done old fresh : List Tid) :
    Prop where
  list : s.timerList = done ++ (old ++ fresh)
  nodup : s.timerList.Nodup
  counted : ∀ t ∈ done, Holds s 0 t
  waiting : ∀ t ∈ old, Holds s 1 t
  added : ∀ t ∈ fresh, Holds s 0 t ∧ AddedNow t s.trace
  idle : ∀ t, t ∉ s.timerList → pending t s.trace = none
  right : TraceRight s.trace
  goesOn : ComesNext next old fresh

/-- Nothing has happened to the timer. -/
theorem Holds.congr {late : Nat} (h : Holds s late t) (htimer : s'.timer t = s.timer t)
    (hpending : pending t s'.trace = pending t s.trace) : Holds s' late t := by
  rw [Holds, htimer, hpending]
  exact h

/-- With the walk over, no callback is due. -/
theorem WalkInv.none_due (h : WalkInv s next done [] fresh) : NoneDue s.trace := by
  have hlisted : ∀ t ∈ s.timerList, Holds s 0 t := by
    intro t ht
    rw [h.list, List.nil_append, List.mem_append] at ht
    exact ht.elim (h.counted t) fun hf => (h.added t hf).1
  intro t call hdue
  by_cases ht : t ∈ s.timerList
  · obtain ⟨left, hpending, hleft, hpos, -⟩ := hlisted t ht
    rw [hdue, Option.some.injEq, Prod.mk.injEq] at hpending
    omega
  · rw [h.idle t ht] at hdue
    cases hdue

/-- The timers that have been added are like the others when the walk is over. -/
theorem WalkInv.settle (h : WalkInv s next done [] fresh) :
    WalkInv s none (done ++ fresh) [] [] := by
  refine ⟨?_, h.nodup, fun t ht => ?_, fun t ht => absurd ht List.not_mem_nil,
    fun t ht => absurd ht List.not_mem_nil, h.idle, h.right, fun t ht => absurd ht.symm ?_⟩
  · rw [h.list, List.nil_append, List.append_nil, List.append_nil]
  · exact (List.mem_append.mp ht).elim (h.counted t) fun hf => (h.added t hf).1
  · exact Option.some_ne_none t

/-! ## Requests -/

/-- What `TimerInit` and `AddTimer` leave. -/
theorem request_add (hfree : u ∉ s.timerList) (expires : UInt64) (data : UInt32) (function : F) :
    s.request (.add u expires data function) = some
      { timerList := s.timerList ++ [u]
        timer := Function.update s.timer u ⟨expires, data, function, .running⟩
        trace := .request (.add u expires data function) :: s.trace } := by
  simp only [TimerSystem.request, TimerSystem.addTimer, TimerSystem.timerInit,
    TimerSystem.setTimer, TimerSystem.log, if_neg hfree, Function.update_self,
    Function.update_idem]

/-- What `RemoveTimer` leaves. -/
theorem request_remove (hlisted : u ∈ s.timerList) : s.request (.remove u) = some
    { s with timerList := s.timerList.erase u, trace := .request (.remove u) :: s.trace } :=
  if_pos hlisted

/-- A new timer is behind all others. -/
theorem WalkInv.add (h : WalkInv s next done old fresh) (hfree : u ∉ s.timerList)
    {expires : UInt64} (hticks : expires ≠ 0) (data : UInt32) (function : F) :
    WalkInv { timerList := s.timerList ++ [u]
              timer := Function.update s.timer u ⟨expires, data, function, .running⟩
              trace := .request (.add u expires data function) :: s.trace }
      next done old (fresh ++ [u]) := by
  have hpending : ∀ t, t ≠ u → pending t
      (.request (.add u expires data function) :: s.trace) = pending t s.trace :=
    fun t ht => if_neg (Ne.symm ht)
  have hkept : ∀ late t, t ∈ s.timerList → Holds s late t → Holds
      { timerList := s.timerList ++ [u]
        timer := Function.update s.timer u ⟨expires, data, function, .running⟩
        trace := .request (.add u expires data function) :: s.trace } late t := by
    intro late t ht hholds
    have hne : t ≠ u := fun heq => hfree (heq ▸ ht)
    exact hholds.congr (Function.update_of_ne hne _ _) (hpending t hne)
  have hpos : 0 < expires.toNat :=
    Nat.pos_of_ne_zero fun h0 => hticks (UInt64.toNat_inj.mp h0)
  refine ⟨?_, ?_, fun t ht => ?_, fun t ht => ?_, fun t ht => ?_, fun t ht => ?_, h.right, ?_⟩
  · rw [h.list, List.append_assoc, List.append_assoc]
  · exact List.nodup_append.mpr ⟨h.nodup, List.nodup_singleton u, fun t ht v hv heq =>
      hfree (by rwa [← List.mem_singleton.mp hv, ← heq])⟩
  · exact hkept 0 t (by rw [h.list]; exact List.mem_append_left _ ht) (h.counted t ht)
  · refine hkept 1 t ?_ (h.waiting t ht)
    rw [h.list]
    exact List.mem_append_right _ (List.mem_append_left _ ht)
  · rw [List.mem_append, List.mem_singleton] at ht
    obtain ht | rfl := ht
    · refine ⟨hkept 0 t ?_ (h.added t ht).1, .inr (h.added t ht).2⟩
      rw [h.list]
      exact List.mem_append_right _ (List.mem_append_right _ ht)
    · refine ⟨⟨expires.toNat, ?_, ?_, ?_, ?_⟩, .inl rfl⟩
      · dsimp only
        rw [pending, if_pos rfl, Function.update_self, Nat.max_eq_left hpos]
      · dsimp only
        rw [Function.update_self, Nat.add_zero]
      · dsimp only
        rwa [Function.update_self]
      · dsimp only
        rw [Function.update_self]
  · rw [List.mem_append, List.mem_singleton, not_or] at ht
    exact (hpending t ht.2).trans (h.idle t ht.1)
  · cases old with
    | nil => exact fun t ht => List.mem_append_left _ (h.goesOn t ht)
    | cons n rest => exact h.goesOn

/-- What is removed leaves the others as they are. -/
theorem WalkInv.remove (h : WalkInv s next done old fresh) (hkeep : next ≠ some u) :
    WalkInv { s with timerList := s.timerList.erase u, trace := .request (.remove u) :: s.trace }
      next (done.filter (· != u)) (old.filter (· != u)) (fresh.filter (· != u)) := by
  have hkept : ∀ late t, t ≠ u → Holds s late t → Holds
      { s with timerList := s.timerList.erase u, trace := .request (.remove u) :: s.trace }
      late t :=
    fun late t ht hholds => hholds.congr rfl (if_neg (Ne.symm ht))
  have hne : ∀ {t : Tid} {l : List Tid}, t ∈ l.filter (· != u) → t ∈ l ∧ t ≠ u := by
    intro t l ht
    rwa [List.mem_filter, bne_iff_ne] at ht
  refine ⟨?_, h.nodup.erase u, fun t ht => ?_, fun t ht => ?_, fun t ht => ?_, fun t ht => ?_,
    h.right, ?_⟩
  · show s.timerList.erase u = _
    rw [h.nodup.erase_eq_filter, h.list, List.filter_append, List.filter_append]
  · exact hkept 0 t (hne ht).2 (h.counted t (hne ht).1)
  · exact hkept 1 t (hne ht).2 (h.waiting t (hne ht).1)
  · obtain ⟨hholds, hnow⟩ := h.added t (hne ht).1
    exact ⟨hkept 0 t (hne ht).2 hholds, hnow⟩
  · show (if u = t then none else pending t s.trace) = none
    by_cases heq : u = t
    · rw [if_pos heq]
    · rw [if_neg heq]
      exact h.idle t fun hmem => ht ((List.mem_erase_of_ne (Ne.symm heq)).mpr hmem)
  · cases old with
    | nil =>
        refine fun t ht => List.mem_filter.mpr ⟨h.goesOn t ht, ?_⟩
        exact bne_iff_ne.mpr fun heq => hkeep (heq ▸ ht)
    | cons n rest =>
        have hnext : next = some n := h.goesOn
        have hn : n ≠ u := fun heq => hkeep (heq ▸ hnext)
        have hkept : (n :: rest).filter (· != u) = n :: rest.filter (· != u) :=
          List.filter_cons_of_pos (bne_iff_ne.mpr hn)
        rw [hkept]
        exact hnext

/-- A request keeps the timer from which the walk goes on. -/
theorem WalkInv.request (h : WalkInv s next done old fresh) {r : Request Tid F}
    (hok : RequestOk s r) (hkeep : ∀ t, r = .remove t → next ≠ some t) :
    ∃ s' done' old' fresh', s.request r = some s' ∧ WalkInv s' next done' old' fresh' ∧
      old'.length ≤ old.length := by
  cases r with
  | add u expires data function =>
      exact ⟨_, _, _, _, request_add hok.1 expires data function, h.add hok.1 hok.2 data function,
        le_rfl⟩
  | remove u =>
      exact ⟨_, _, _, _, request_remove hok, h.remove (hkeep u rfl), List.length_filter_le _ _⟩

/-- So does a callback. -/
theorem WalkInv.requests (h : WalkInv s next done old fresh) {rs : List (Request Tid F)}
    (hok : CallbackOk next s rs) :
    ∃ s' done' old' fresh', s.requests rs = some s' ∧ WalkInv s' next done' old' fresh' ∧
      old'.length ≤ old.length := by
  induction rs generalizing s done old fresh with
  | nil => exact ⟨s, done, old, fresh, rfl, h, le_rfl⟩
  | cons r rs ih =>
      obtain ⟨⟨hrequest, hkeep⟩, hrest⟩ := hok
      obtain ⟨s₁, done₁, old₁, fresh₁, hone, h₁, hle⟩ := h.request hrequest hkeep
      obtain ⟨s', done', old', fresh', hmore, h', hle'⟩ := ih h₁ (hrest s₁ hone)
      exact ⟨s', done', old', fresh', by rw [TimerSystem.requests, hone]; exact hmore, h',
        hle'.trans hle⟩

/-! ## The walk -/

/-- What stands behind a timer of the list. -/
theorem following_eq {front back : List Tid} (hnodup : (front ++ t :: back).Nodup) :
    following (front ++ t :: back) t = back.head? := by
  have hfront : t ∉ front := fun hmem =>
    List.disjoint_of_nodup_append hnodup hmem List.mem_cons_self
  rw [following, if_pos (List.mem_append_right _ List.mem_cons_self),
    List.idxOf_append_of_notMem hfront, List.idxOf_cons_self, Nat.add_zero,
    List.getElem?_append_right (Nat.le_succ _), Nat.succ_sub (le_refl _), Nat.sub_self,
    List.getElem?_cons_succ, List.head?_eq_getElem?]

omit [DecidableEq Tid] in
/-- The walk goes on from the timer behind, if there is one. -/
theorem comes_next (old fresh : List Tid) : ComesNext (old ++ fresh).head? old fresh := by
  cases old with
  | nil => exact fun t ht => List.mem_of_mem_head? ht
  | cons n rest => rfl

theorem count_down_timer (s : TimerSystem Tid F) (t : Tid) : (s.countDown t).timer t =
    { s.timer t with expires := (s.timer t).expires - 1 } :=
  Function.update_self ..

/-- A timer with ticks left is counted down. -/
theorem WalkInv.count (h : WalkInv s (some t) done (t :: old) fresh)
    (hmore : (s.timer t).expires ≠ 1) :
    WalkInv (s.countDown t) (old ++ fresh).head? (done ++ [t]) old fresh := by
  have hnodup := h.nodup
  rw [h.list] at hnodup
  obtain ⟨hdone, hrest, hapart⟩ := List.nodup_append.mp hnodup
  have hnot : t ∉ old ++ fresh := (List.nodup_cons.mp hrest).1
  have hkept : ∀ late v, v ≠ t → Holds s late v → Holds (s.countDown t) late v :=
    fun late v hv hholds => hholds.congr (Function.update_of_ne hv _ _) rfl
  refine ⟨?_, h.nodup, fun v hv => ?_, fun v hv => ?_, fun v hv => ?_, h.idle, h.right,
    comes_next old fresh⟩
  · show s.timerList = _
    rw [h.list, List.append_assoc]
    rfl
  · rw [List.mem_append, List.mem_singleton] at hv
    obtain hv | rfl := hv
    · exact hkept 0 v (hapart v hv t List.mem_cons_self) (h.counted v hv)
    · obtain ⟨left, hpending, hleft, hpos, hrun⟩ := h.waiting v List.mem_cons_self
      have hcount : ((s.timer v).expires - 1).toNat = left := by
        have hone : (1 : UInt64) ≤ (s.timer v).expires := UInt64.le_iff_toNat_le.mpr hpos
        rw [UInt64.toNat_sub_of_le _ _ hone, hleft]
        rfl
      have hleft0 : left ≠ 0 := fun h0 => hmore (UInt64.toNat_inj.mp (by rw [hleft, h0]; rfl))
      refine ⟨left, ?_, ?_, ?_, ?_⟩
      · rw [count_down_timer]
        exact hpending
      · rw [count_down_timer]
        exact hcount
      · rw [count_down_timer]
        exact hcount ▸ Nat.pos_of_ne_zero hleft0
      · rw [count_down_timer]
        exact hrun
  · refine hkept 1 v (fun heq => hnot ?_) (h.waiting v (List.mem_cons_of_mem _ hv))
    exact heq ▸ List.mem_append_left _ hv
  · refine ⟨hkept 0 v (fun heq => hnot ?_) (h.added v hv).1, (h.added v hv).2⟩
    exact heq ▸ List.mem_append_right _ hv

/-- A timer without is taken from the list, and its callback begins. -/
theorem WalkInv.expire (h : WalkInv s (some t) done (t :: old) fresh)
    (hlast : (s.timer t).expires = 1) :
    ∃ s', (s.countDown t).removeTimer t = some s' ∧
      WalkInv (s'.call t) (old ++ fresh).head? done old fresh := by
  have hnodup := h.nodup
  rw [h.list] at hnodup
  obtain ⟨hdone, hrest, hapart⟩ := List.nodup_append.mp hnodup
  have hnot : t ∉ old ++ fresh := (List.nodup_cons.mp hrest).1
  have hmem : t ∈ s.timerList := by
    rw [h.list]
    exact List.mem_append_right _ List.mem_cons_self
  have herase : s.timerList.erase t = done ++ (old ++ fresh) := by
    rw [h.list, List.erase_append_right _ fun hd => hapart t hd t List.mem_cons_self rfl]
    exact congrArg (done ++ ·) (List.erase_cons_head t _)
  refine ⟨{ s.countDown t with timerList := s.timerList.erase t }, if_pos hmem, ?_⟩
  have hkept : ∀ late v, v ≠ t → Holds s late v → Holds
      (({ s.countDown t with timerList := s.timerList.erase t } : TimerSystem Tid F).call t)
      late v :=
    fun late v hv hholds =>
      hholds.congr (Function.update_of_ne hv _ _) (if_neg (Ne.symm hv))
  refine ⟨herase, h.nodup.erase t, fun v hv => ?_, fun v hv => ?_, fun v hv => ?_, fun v hv => ?_,
    ⟨?_, h.right⟩, comes_next old fresh⟩
  · exact hkept 0 v (hapart v hv t List.mem_cons_self) (h.counted v hv)
  · refine hkept 1 v (fun heq => hnot ?_) (h.waiting v (List.mem_cons_of_mem _ hv))
    exact heq ▸ List.mem_append_left _ hv
  · refine ⟨hkept 0 v (fun heq => hnot ?_) (h.added v hv).1, (h.added v hv).2⟩
    exact heq ▸ List.mem_append_right _ hv
  · show (if t = v then none else pending v s.trace) = none
    by_cases heq : t = v
    · rw [if_pos heq]
    · rw [if_neg heq]
      exact h.idle v fun hlisted => hv ((List.mem_erase_of_ne (Ne.symm heq)).mpr hlisted)
  · obtain ⟨left, hpending, hleft, -⟩ := h.waiting t List.mem_cons_self
    have hleft0 : left = 0 := by
      rw [hlast] at hleft
      exact (Nat.succ.inj hleft).symm
    rw [hleft0] at hpending
    show pending t s.trace = some (0, (Function.update s.timer t _ t).data,
      (Function.update s.timer t _ t).function)
    rw [Function.update_self]
    exact hpending

/-- `TimerUpdate` of the timer to which the walk has come. -/
theorem WalkInv.visit (h : WalkInv s (some t) done old fresh)
    {work : F → UInt32 → List (Action Tid F) → List (Request Tid F)} (hok : VisitOk work s t) :
    ∃ s' done' old' fresh', s.timerUpdate work t = some s' ∧
      WalkInv s' (following s.timerList t) done' old' fresh' ∧ old'.length < old.length := by
  obtain ⟨hfresh, hcallback⟩ := hok
  cases old with
  | nil => exact absurd (h.added t (h.goesOn t rfl)).2 hfresh
  | cons n rest =>
      obtain rfl : t = n := Option.some.inj h.goesOn
      have hnext : following s.timerList t = (rest ++ fresh).head? := by
        have hnodup := h.nodup
        rw [h.list] at hnodup ⊢
        exact following_eq hnodup
      obtain ⟨-, -, -, -, hrun⟩ := h.waiting t List.mem_cons_self
      have hzero : ((s.countDown t).timer t).expires = 0 ↔ (s.timer t).expires = 1 := by
        rw [count_down_timer]
        rw [UInt64.sub_eq_iff_eq_add, UInt64.zero_add]
      rw [hnext, TimerSystem.timerUpdate, if_pos hrun]
      by_cases hlast : (s.timer t).expires = 1
      · obtain ⟨s₁, hremove, h₁⟩ := h.expire hlast
        rw [hnext] at hcallback
        obtain ⟨s', done', old', fresh', hend, h', hle⟩ :=
          h₁.requests (hcallback hlast s₁ hremove)
        refine ⟨s', done', old', fresh', ?_, h', Nat.lt_succ_of_le hle⟩
        rw [if_pos (hzero.mpr hlast), TimerSystem.doTimerHandler, hremove]
        exact hend
      · exact ⟨s.countDown t, done ++ [t], rest, fresh, if_neg fun h0 => hlast (hzero.mp h0),
          h.count hlast, Nat.lt_succ_self _⟩

/-- The walk ends. -/
theorem WalkInv.walk {work : F → UInt32 → List (Action Tid F) → List (Request Tid F)} (bound : Nat)
    (h : WalkInv s next done old fresh) (hbound : old.length < bound)
    (hok : ∀ fuel, WalkOk work fuel next s) :
    ∃ fuel s' done' fresh', s.walk work fuel next = some s' ∧ WalkInv s' none done' [] fresh' := by
  induction bound generalizing s next done old fresh with
  | zero => exact absurd hbound (Nat.not_lt_zero _)
  | succ bound ih =>
      cases next with
      | none =>
          cases old with
          | nil => exact ⟨0, s, done, fresh, rfl, h⟩
          | cons n rest => exact absurd h.goesOn.symm (Option.some_ne_none n)
      | some t =>
          obtain ⟨s₁, done₁, old₁, fresh₁, hone, h₁, hless⟩ := h.visit (hok 1).1
          obtain ⟨fuel, s', done', fresh', hmore, h'⟩ :=
            ih h₁ (by omega) fun fuel => (hok (fuel + 1)).2 s₁ hone
          refine ⟨fuel + 1, s', done', fresh', ?_, h'⟩
          rw [TimerSystem.walk, hone]
          exact hmore

/-- At a tick all timers wait to be counted down. -/
theorem WalkInv.tick (h : WalkInv s none done [] []) :
    WalkInv (s.log .tick) s.timerList.head? [] done [] := by
  have hlist : s.timerList = done := by
    rw [h.list, List.nil_append, List.append_nil]
  refine ⟨?_, h.nodup, fun t ht => absurd ht List.not_mem_nil, fun t ht => ?_,
    fun t ht => absurd ht List.not_mem_nil, fun t ht => ?_, ⟨h.none_due, h.right⟩, ?_⟩
  · rw [List.nil_append, List.append_nil]
    exact hlist
  · obtain ⟨left, hpending, hleft, hpos, hrun⟩ := h.counted t ht
    refine ⟨left - 1, ?_, ?_, hpos, hrun⟩
    · show (pending t s.trace).map _ = _
      rw [hpending]
      rfl
    · show (s.timer t).expires.toNat = _
      omega
  · show (pending t s.trace).map _ = none
    rw [h.idle t ht]
    rfl
  · have hnext := comes_next done ([] : List Tid)
    rw [List.append_nil, ← hlist] at hnext
    rwa [← hlist]

/-- An event ends, and all timers are counted down. -/
theorem WalkInv.event (h : WalkInv s none done [] []) {event : Event Tid F}
    (hok : EventOk s event) : ∃ s' done', Ends s event s' ∧ WalkInv s' none done' [] [] := by
  cases event with
  | request r =>
      obtain ⟨s', done', old', fresh', hend, h', hle⟩ :=
        h.request hok fun t _ => (Option.some_ne_none t).symm
      obtain rfl : old' = [] := List.length_eq_zero_iff.mp (Nat.le_zero.mp hle)
      exact ⟨s', _, hend, h'.settle⟩
  | tick work =>
      obtain ⟨fuel, s', done', fresh', hend, h'⟩ :=
        h.tick.walk (done.length + 1) (Nat.lt_succ_self _) hok
      exact ⟨s', _, ⟨fuel, hend⟩, h'.settle⟩

/-- The run lemma. -/
theorem WalkInv.run (h : WalkInv s none done [] []) {events : List (Event Tid F)}
    (hok : RunOk s events) : TimersRight s events := by
  induction events generalizing s done with
  | nil => exact ⟨h.right, h.none_due⟩
  | cons event events ih =>
      obtain ⟨s', done', hend, h'⟩ := h.event hok.1
      exact ⟨⟨h.right, h.none_due⟩, s', hend, ih h' (hok.2 s' hend)⟩

/-- In every run whose steps keep the `ASSERT`s, whose timers have ticks to wait, whose callbacks
keep the timer behind theirs, and in which no walk comes to a timer that has been added since its
tick, every tick ends, and the callback of a timer runs once, at the last of its ticks, with its
data and its function, unless the timer is removed. -/
theorem timers_right (timer : Tid → Timer F) (events : List (Event Tid F))
    (hok : RunOk (.init timer) events) : TimersRight (.init timer) events := by
  have hinit : WalkInv (TimerSystem.init timer) none [] [] [] := by
    refine ⟨rfl, List.nodup_nil, fun t ht => absurd ht List.not_mem_nil,
      fun t ht => absurd ht List.not_mem_nil, fun t ht => absurd ht List.not_mem_nil,
      fun _ _ => rfl, trivial, fun t ht => absurd ht.symm (Option.some_ne_none t)⟩
  exact hinit.run hok

/-- The callback of a timer adds it again. -/
theorem timer_repeats : TimersRight (.init fun _ : Unit => ⟨0, 0, (), .idle⟩)
    [.request (.add () 1 7 ()), .tick fun _ _ _ => [.add () 2 7 ()]] := by
  refine timers_right _ _ ⟨⟨List.not_mem_nil, by decide⟩, fun s hs => ⟨fun fuel => ?_, ?_⟩⟩
  · obtain rfl := Option.some.inj hs
    cases fuel with
    | zero => trivial
    | succ fuel =>
        refine ⟨⟨fun hnow => hnow, fun _ s' hremove => ?_⟩, fun s' _ => ?_⟩
        · obtain rfl := Option.some.inj hremove
          exact ⟨⟨⟨List.not_mem_nil, by decide⟩, fun t ht => by cases ht⟩, fun _ _ => trivial⟩
        · cases fuel with
          | zero => trivial
          | succ fuel => trivial
  · exact fun _ _ => trivial

/-- The callback of a timer of no ticks does not run at the next tick. -/
theorem no_ticks_counted_past_zero : ¬TimersRight (.init fun _ : Unit => ⟨0, 0, (), .idle⟩)
    [.request (.add () 0 7 ()), .tick fun _ _ _ => []] := by
  intro h
  obtain ⟨-, s, hadd, -, s', ⟨fuel, htick⟩, -, hdue⟩ := h
  obtain rfl := Option.some.inj hadd
  cases fuel with
  | zero => cases htick
  | succ fuel =>
      cases fuel with
      | zero =>
          obtain rfl := Option.some.inj htick
          exact hdue () (7, ()) rfl
      | succ fuel =>
          obtain rfl := Option.some.inj htick
          exact hdue () (7, ()) rfl

end XBook.Timers
