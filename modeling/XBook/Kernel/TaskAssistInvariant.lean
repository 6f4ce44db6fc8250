import XBook.Kernel.TaskAssist
import XBook.Lib.Placement
import XBook.Lib.Transition
import Mathlib.Data.Prod.Lex

/-!
# Every scheduled assist runs

The bit of an assist says that it is on exactly one list: in a queue, in the list that an action has
taken, or in the hands of a call that is about to insert it. `Queued` is this, and `AssistInv` adds
that the runs are as many as the schedules, but for those still to come, and that a queue with an
assist has its softirq. Both rest on `TestAndSetBit` finding the bit as it has tested it, and on
`TaskAssistEnable` after `TaskAssistDisable` only; `assistGuard` says so.
-/

namespace XBook.Softirqs

open Links Tally Transition

variable {α ι : Type*}

/-! ## The lists -/

/-- The assists that `HandleSoftirq` has at a point. -/
def Point.Holds (next : α → Option α) : Point α → List α → Prop
  | .handle, l | .detach _, l => l = []
  | .walk _ p, l | .run _ _ p, l => Trail next p l
  | .clear _ a p, l | .requeue _ a p, l => ∃ rest, l = a :: rest ∧ Trail next p rest

/-- The assists that a call has. -/
def Holds (next : α → Option α) : Option (Frame α) → List α → Prop
  | none, l | some (.test _), l | some (.set _ _), l => l = []
  | some (.insert a), l => l = [a]
  | some (.softirq point _ _), l => point.Holds next l

/-- The links of other assists do not matter. -/
theorem Holds.congr {next next' : α → Option α} {frame : Option (Frame α)} {l : List α}
    (h : Holds next frame l) (hsame : ∀ a ∈ l, next' a = next a) : Holds next' frame l := by
  rcases frame with _ | _ | _ | _ | ⟨point, evens, redoIrq⟩
  · exact h
  · exact h
  · exact h
  · exact h
  · cases point with
    | handle => exact h
    | detach k => exact h
    | walk k p => exact Trail.congr h hsame
    | run k a p => exact Trail.congr h hsame
    | clear k a p =>
        obtain ⟨rest, rfl, hrest⟩ := h
        exact ⟨rest, rfl, hrest.congr fun b hb => hsame b (List.mem_cons_of_mem _ hb)⟩
    | requeue k a p =>
        obtain ⟨rest, rfl, hrest⟩ := h
        exact ⟨rest, rfl, hrest.congr fun b hb => hsame b (List.mem_cons_of_mem _ hb)⟩

variable [DecidableEq α] [DecidableEq ι]

/-- The queues and the calls have their lists, no assist is on two of them, and the bit says whether
it is on one. -/
structure Queued (s : Assists α ι) (lists : Priority ⊕ ι → List α)
    (place : α → Option (Priority ⊕ ι)) : Prop where
  placed : Placed lists place
  queue : ∀ k, Trail s.next (s.head k) (lists (.inl k))
  frame : ∀ i, Holds s.next (s.frames i) (lists (.inr i))
  bit : ∀ a, s.status a = (place a).isSome

variable {s t : Assists α ι} {lists : Priority ⊕ ι → List α} {place : α → Option (Priority ⊕ ι)}
  {i : ι} {a : α} {k : Priority}

namespace Queued

omit [DecidableEq α] in
/-- A call goes on with the list that it has. -/
theorem reframe (h : Queued s lists place) {frame : Option (Frame α)} (hnext : t.next = s.next)
    (hhead : t.head = s.head) (hstatus : t.status = s.status)
    (hframes : t.frames = Function.update s.frames i frame)
    (hholds : Holds s.next frame (lists (.inr i))) : Queued t lists place := by
  refine ⟨h.placed, ?_, fun j => ?_, ?_⟩
  · rw [hnext, hhead]
    exact h.queue
  · rw [hnext, hframes, Function.update_apply]
    split
    · next hj =>
        rw [hj]
        exact hholds
    · exact h.frame j
  · rw [hstatus]
    exact h.bit

omit [DecidableEq α] [DecidableEq ι] in
/-- An assist whose bit is clear is on no list. -/
theorem place_eq_none (h : Queued s lists place) (hclear : s.status a = false) :
    place a = none := by
  rw [h.bit] at hclear
  exact Option.isSome_eq_false_iff.mp hclear |> Option.isNone_iff_eq_none.mp

/-- The bit is set, and the call has the assist. -/
theorem take (h : Queued s lists place) (hclear : s.status a = false)
    (hempty : lists (.inr i) = []) (hnext : t.next = s.next) (hhead : t.head = s.head)
    (hstatus : t.status = Function.update s.status a true)
    (hframes : t.frames = Function.update s.frames i (some (.insert a))) :
    ∃ place', Queued t (Function.update lists (.inr i) [a]) place' := by
  have hplaced := h.placed.add (h.place_eq_none hclear) (.inr i)
  rw [hempty] at hplaced
  refine ⟨_, hplaced, fun k => ?_, fun j => ?_, fun b => ?_⟩
  · rw [Function.update_of_ne Sum.inl_ne_inr, hnext, hhead]
    exact h.queue k
  · rw [hnext, hframes]
    by_cases hj : j = i
    · subst hj
      rw [Function.update_self, Function.update_self]
      rfl
    · rw [Function.update_of_ne hj, Function.update_of_ne fun heq => hj (Sum.inr.inj heq)]
      exact h.frame j
  · rw [hstatus]
    by_cases hb : b = a
    · subst hb
      rw [Function.update_self, Function.update_self]
      rfl
    · rw [Function.update_of_ne hb, Function.update_of_ne hb]
      exact h.bit b

omit [DecidableEq α] [DecidableEq ι] in
/-- Where an assist is the first one of the list of a call. -/
theorem place_of_call (h : Queued s lists place) {rest : List α}
    (hlist : lists (.inr i) = a :: rest) : place a = some (.inr i) := by
  rw [← (h.placed _).2 a, hlist]
  exact List.mem_cons_self

omit [DecidableEq α] [DecidableEq ι] in
/-- It is on no other list. -/
theorem not_mem (h : Queued s lists place) {rest : List α} (hlist : lists (.inr i) = a :: rest)
    {m : Priority ⊕ ι} (hm : m ≠ .inr i) : a ∉ lists m := by
  rw [(h.placed m).2 a, h.place_of_call hlist]
  exact fun heq => hm (Option.some.inj heq).symm

/-- The lists without it. -/
theorem erase_eq (h : Queued s lists place) {rest : List α} (hlist : lists (.inr i) = a :: rest) :
    (fun m => (lists m).erase a) = Function.update lists (.inr i) rest := by
  funext m
  by_cases hm : m = .inr i
  · subst hm
    rw [Function.update_self, hlist, List.erase_cons_head]
  · rw [Function.update_of_ne hm, List.erase_of_not_mem (h.not_mem hlist hm)]

/-- The assist of a call becomes the first one of a queue. -/
theorem enqueue (h : Queued s lists place) {rest : List α} {frame : Option (Frame α)}
    (hlist : lists (.inr i) = a :: rest) (hnext : t.next = Function.update s.next a (s.head k))
    (hhead : t.head = Function.update s.head k (some a)) (hstatus : t.status = s.status)
    (hframes : t.frames = Function.update s.frames i frame) (hholds : Holds s.next frame rest) :
    ∃ place', Queued t (Function.update (Function.update lists (.inr i) rest) (.inl k)
      (a :: lists (.inl k))) place' := by
  have hplaced := (h.placed.del a).add (Function.update_self a none place) (.inl k)
  rw [h.erase_eq hlist, List.erase_of_not_mem (h.not_mem hlist Sum.inl_ne_inr)] at hplaced
  refine ⟨_, hplaced, fun k' => ?_, fun j => ?_, fun b => ?_⟩
  · rw [hnext, hhead]
    by_cases hk : k' = k
    · subst hk
      rw [Function.update_self, Function.update_self]
      exact (h.queue k').push (h.not_mem hlist Sum.inl_ne_inr)
    · rw [Function.update_of_ne hk, Function.update_of_ne fun heq => hk (Sum.inl.inj heq),
        Function.update_of_ne Sum.inl_ne_inr]
      exact (h.queue k').update (h.not_mem hlist Sum.inl_ne_inr) _
  · rw [hnext, hframes, Function.update_of_ne Sum.inr_ne_inl]
    by_cases hj : j = i
    · subst hj
      have hnodup := (h.placed (.inr j)).1
      rw [hlist] at hnodup
      rw [Function.update_self, Function.update_self]
      refine hholds.congr fun b hb => Function.update_of_ne ?_ ..
      rintro rfl
      exact (List.nodup_cons.mp hnodup).1 hb
    · have hne : (Sum.inr j : Priority ⊕ ι) ≠ .inr i := fun heq => hj (Sum.inr.inj heq)
      rw [Function.update_of_ne hj, Function.update_of_ne hne]
      refine (h.frame j).congr fun b hb => Function.update_of_ne ?_ ..
      rintro rfl
      exact h.not_mem hlist hne hb
  · rw [hstatus, h.bit b, Function.update_idem]
    by_cases hb : b = a
    · subst hb
      rw [Function.update_self, h.place_of_call hlist]
      rfl
    · rw [Function.update_of_ne hb]

/-- The bit of the assist of a call is cleared. -/
theorem release (h : Queued s lists place) {rest : List α} {frame : Option (Frame α)}
    (hlist : lists (.inr i) = a :: rest) (hnext : t.next = s.next) (hhead : t.head = s.head)
    (hstatus : t.status = Function.update s.status a false)
    (hframes : t.frames = Function.update s.frames i frame) (hholds : Holds s.next frame rest) :
    ∃ place', Queued t (Function.update lists (.inr i) rest) place' := by
  have hplaced := h.placed.del a
  rw [h.erase_eq hlist] at hplaced
  refine ⟨_, hplaced, fun k' => ?_, fun j => ?_, fun b => ?_⟩
  · rw [hnext, hhead, Function.update_of_ne Sum.inl_ne_inr]
    exact h.queue k'
  · rw [hnext, hframes]
    by_cases hj : j = i
    · subst hj
      rw [Function.update_self, Function.update_self]
      exact hholds
    · rw [Function.update_of_ne hj, Function.update_of_ne fun heq => hj (Sum.inr.inj heq)]
      exact h.frame j
  · rw [hstatus]
    by_cases hb : b = a
    · subst hb
      rw [Function.update_self, Function.update_self]
      rfl
    · rw [Function.update_of_ne hb, Function.update_of_ne hb]
      exact h.bit b

omit [DecidableEq α] in
/-- A call takes the list of a queue. -/
theorem detach (h : Queued s lists place) {frame : Option (Frame α)}
    (hempty : lists (.inr i) = []) (hnext : t.next = s.next)
    (hhead : t.head = Function.update s.head k none) (hstatus : t.status = s.status)
    (hframes : t.frames = Function.update s.frames i frame)
    (hholds : Holds s.next frame (lists (.inl k))) :
    ∃ place', Queued t (Function.update (Function.update lists (.inl k) []) (.inr i)
      (lists (.inl k))) place' := by
  have hplaced := h.placed.moveAll (m := .inl k) Sum.inl_ne_inr hempty
  refine ⟨_, hplaced, fun k' => ?_, fun j => ?_, fun b => ?_⟩
  · rw [hnext, hhead, Function.update_of_ne Sum.inl_ne_inr]
    by_cases hk : k' = k
    · subst hk
      rw [Function.update_self, Function.update_self]
      exact .nil
    · rw [Function.update_of_ne hk, Function.update_of_ne fun heq => hk (Sum.inl.inj heq)]
      exact h.queue k'
  · rw [hnext, hframes]
    by_cases hj : j = i
    · subst hj
      rw [Function.update_self, Function.update_self]
      exact hholds
    · rw [Function.update_of_ne hj, Function.update_of_ne fun heq => hj (Sum.inr.inj heq),
        Function.update_of_ne Sum.inr_ne_inl]
      exact h.frame j
  · rw [hstatus, h.bit b]
    show _ = (if place b = some (.inl k) then some (.inr i) else place b).isSome
    split
    · next hk => simp [hk]
    · rfl

end Queued

/-! ## One step of a softirq -/

/-- What is left of a call: the passes, the softirqs, and the assists that it has. -/
def rank (length : Nat) : Option (Frame α) → Nat ×ₗ Nat ×ₗ Nat
  | none | some (.test _) | some (.set _ _) | some (.insert _) => toLex (0, toLex (0, 0))
  | some (.softirq point evens redoIrq) =>
      let passes := redoIrq + 1
      match point with
      | .handle => toLex (passes, toLex (2 * evens.length, 0))
      | .detach _ => toLex (passes, toLex (2 * evens.length + 1, 0))
      | .walk _ _ => toLex (passes, toLex (2 * evens.length, 4 * length + 1))
      | .clear _ _ _ => toLex (passes, toLex (2 * evens.length, 4 * length))
      | .run _ _ _ => toLex (passes, toLex (2 * evens.length, 4 * length + 3))
      | .requeue _ _ _ => toLex (passes, toLex (2 * evens.length, 4 * length))

/-- The softirqs that a call is going to handle before it looks for others. -/
def Serves (k : Priority) : Option (Frame α) → Prop
  | none | some (.test _) | some (.set _ _) | some (.insert _) => False
  | some (.softirq (.detach k') evens _) => k' = k ∨ k.softirq ∈ evens
  | some (.softirq _ evens _) => k.softirq ∈ evens

/-- Fewer softirqs are left. -/
theorem rank_evens {passes m n a b : Nat} (h : m < n) :
    (toLex (passes, toLex (m, a)) : Nat ×ₗ Nat ×ₗ Nat) < toLex (passes, toLex (n, b)) :=
  Prod.Lex.toLex_lt_toLex.mpr (Or.inr ⟨rfl, Prod.Lex.toLex_lt_toLex.mpr (Or.inl h)⟩)

/-- Less is to be done with the assists. -/
theorem rank_list {passes n a b : Nat} (h : a < b) :
    (toLex (passes, toLex (n, a)) : Nat ×ₗ Nat ×ₗ Nat) < toLex (passes, toLex (n, b)) :=
  Prod.Lex.toLex_lt_toLex.mpr (Or.inr ⟨rfl, Prod.Lex.toLex_lt_toLex.mpr (Or.inr ⟨rfl, h⟩)⟩)

/-- How many times a call is about to run the function of an assist. -/
def runs (a : α) : Option (Frame α) → Nat
  | some (.softirq (.run _ b _) _ _) => if b = a then 1 else 0
  | _ => 0

/-- A softirq runs the function of an assist that is enabled, and puts back one that is not. -/
def Fits (count : α → Int) : Option (Frame α) → Prop
  | none => True
  | some (.test _) | some (.set _ _) | some (.insert _) => False
  | some (.softirq (.clear _ a _) _ _) | some (.softirq (.run _ a _) _ _) => count a = 0
  | some (.softirq (.requeue _ a _) _ _) => count a ≠ 0
  | some (.softirq .handle _ _) | some (.softirq (.detach _) _ _)
  | some (.softirq (.walk _ _) _ _) => True

/-- What a step of a softirq does. An assist gets into a queue only where it is put back. A queue
that is no longer served is empty or has its softirq. -/
structure Steps (s t : Assists α ι) (i : ι) (lists lists' : Priority ⊕ ι → List α) : Prop where
  queued : ∃ place', Queued t lists' place'
  decreases : rank (lists' (.inr i)).length (t.frames i) < rank (lists (.inr i)).length (s.frames i)
  queue : ∀ k, ∀ b ∈ lists' (.inl k), b ∈ lists (.inl k) ∨
    ∃ p evens redoIrq, s.frames i = some (.softirq (.requeue k b p) evens redoIrq)
  serves : ∀ k, t.head k ≠ none → Serves k (s.frames i) → Serves k (t.frames i)
  pending : ∀ k, s.softirqEvens k.softirq = true →
    t.softirqEvens k.softirq = true ∨ Serves k (t.frames i)
  raises : ∀ k, t.head k ≠ none → s.head k ≠ none ∨ t.softirqEvens k.softirq = true
  conserves : ∀ b, t.executed b + (t.status b).toNat + runs b (t.frames i) =
    s.executed b + (s.status b).toNat + runs b (s.frames i)
  fits : Fits s.count (s.frames i) → Fits s.count (t.frames i) ∧
    ∀ b, s.count b ≠ 0 → t.executed b = s.executed b ∧ t.status b = s.status b
  kept : t.scheduled = s.scheduled ∧ t.count = s.count ∧ t.depth = s.depth
  frames : t.frames = Function.update s.frames i (t.frames i)

/-- A step that changes nothing but the frame of the call. -/
theorem Steps.of_set_frame (h : Queued s lists place) {frame : Option (Frame α)}
    (hholds : Holds s.next frame (lists (.inr i)))
    (hrank : rank (lists (.inr i)).length frame < rank (lists (.inr i)).length (s.frames i))
    (hserves : ∀ k, Serves k (s.frames i) → Serves k frame)
    (hruns : ∀ b, runs b frame = runs b (s.frames i))
    (hfits : Fits s.count (s.frames i) → Fits s.count frame) :
    Steps s (s.setFrame i frame) i lists lists := by
  have hself : (s.setFrame i frame).frames i = frame := Function.update_self ..
  refine ⟨⟨place, h.reframe rfl rfl rfl rfl hholds⟩, ?_, fun k b hb => Or.inl hb, fun k _ hk => ?_,
    fun k hk => Or.inl hk, fun k hk => Or.inl hk, fun b => ?_, fun hs => ?_, ⟨rfl, rfl, rfl⟩, ?_⟩
  · rw [hself]
    exact hrank
  · rw [hself]
    exact hserves k hk
  · rw [hself, hruns b]
    rfl
  · rw [hself]
    exact ⟨hfits hs, fun b _ => ⟨rfl, rfl⟩⟩
  · rw [hself]
    rfl

omit [DecidableEq α] in
/-- `HandleSoftirq` takes all softirqs, or it leaves them and is done. -/
theorem take_evens_spec (s : Assists α ι) (i : ι) (redoIrq : Nat) :
    ∃ evens frame, s.takeEvens i redoIrq = { s with softirqEvens := evens }.setFrame i frame ∧
      (frame = none ∨ redoIrq ≠ 0 ∧ frame = some (.softirq .handle s.getSoftirqEvens redoIrq)) ∧
      ∀ e ∈ softirqs, s.softirqEvens e = true →
        redoIrq = 0 ∧ evens e = true ∨ e ∈ s.getSoftirqEvens ∧
          frame = some (.softirq .handle s.getSoftirqEvens redoIrq) := by
  by_cases htake : s.getSoftirqEvens ≠ [] ∧ redoIrq ≠ 0
  · refine ⟨fun _ => false, some (.softirq .handle s.getSoftirqEvens redoIrq), if_pos htake,
      Or.inr ⟨htake.2, rfl⟩, fun e he hpending => Or.inr ⟨?_, rfl⟩⟩
    exact List.mem_filter.mpr ⟨he, hpending⟩
  · refine ⟨s.softirqEvens, none, if_neg htake, Or.inl rfl, fun e he hpending => ?_⟩
    have hin : e ∈ s.getSoftirqEvens := List.mem_filter.mpr ⟨he, hpending⟩
    by_cases hzero : redoIrq = 0
    · exact Or.inl ⟨hzero, hpending⟩
    · exact (htake ⟨List.ne_nil_of_mem hin, hzero⟩).elim

theorem Priority.softirq_mem (k : Priority) : k.softirq ∈ softirqs := by
  cases k <;> decide

/-- The queue of the softirq of a queue. -/
theorem Priority.queue_softirq (k : Priority) : k.softirq.queue = some k := by
  cases k <;> rfl

/-- The step at the end of a pass of `HandleSoftirq`. -/
theorem Steps.of_take_evens (h : Queued s lists place) {redoIrq : Nat}
    (hframe : s.frames i = some (.softirq .handle [] redoIrq)) :
    Steps s (s.takeEvens i (redoIrq - 1)) i lists lists := by
  obtain ⟨evens, frame, heq, hnew, hevens⟩ := take_evens_spec s i (redoIrq - 1)
  have hempty : lists (.inr i) = [] := by
    have hholds := h.frame i
    rwa [hframe] at hholds
  have hself : (s.takeEvens i (redoIrq - 1)).frames i = frame := by
    rw [heq]
    exact Function.update_self ..
  have hholds : Holds s.next frame (lists (.inr i)) := by
    rcases hnew with rfl | ⟨-, rfl⟩
    · exact hempty
    · exact hempty
  have hruns : ∀ b, runs b frame = 0 := by
    rcases hnew with rfl | ⟨-, rfl⟩
    · exact fun b => rfl
    · exact fun b => rfl
  refine ⟨⟨place, ?_⟩, ?_, fun k b hb => Or.inl hb, fun k _ hk => ?_, fun k hk => ?_,
    fun k hk => ?_, fun b => ?_, fun _ => ?_, ?_, ?_⟩
  · rw [heq]
    exact h.reframe rfl rfl rfl rfl hholds
  · rw [hself, hframe]
    rcases hnew with rfl | ⟨hne, rfl⟩
    · exact Prod.Lex.toLex_lt_toLex.mpr (Or.inl (Nat.succ_pos _))
    · refine Prod.Lex.toLex_lt_toLex.mpr (Or.inl ?_)
      show redoIrq - 1 + 1 < redoIrq + 1
      omega
  · rw [hframe] at hk
    cases hk
  · rw [hself, heq]
    rcases hevens _ k.softirq_mem hk with ⟨-, hset⟩ | ⟨hin, rfl⟩
    · exact Or.inl hset
    · exact Or.inr hin
  · rw [heq] at hk
    exact Or.inl hk
  · rw [hself, hruns, hframe, heq]
    rfl
  · rw [hself, heq]
    refine ⟨?_, fun b _ => ⟨rfl, rfl⟩⟩
    rcases hnew with rfl | ⟨-, rfl⟩
    · trivial
    · trivial
  · rw [heq]
    exact ⟨rfl, rfl, rfl⟩
  · rw [hself, heq]
    rfl

omit [DecidableEq ι] in
/-- The softirqs that are active stay so. -/
theorem pending_enqueue {e : Softirq} (h : s.softirqEvens e = true) :
    (s.enqueue k a).softirqEvens e = true := by
  show Function.update s.softirqEvens k.softirq true e = true
  rw [Function.update_apply]
  split
  · rfl
  · exact h

omit [DecidableEq ι] in
/-- The softirq of the queue becomes active. -/
theorem raised_enqueue {k' : Priority} (h : (s.enqueue k a).head k' ≠ none) :
    s.head k' ≠ none ∨ (s.enqueue k a).softirqEvens k'.softirq = true := by
  by_cases hk : k' = k
  · subst hk
    exact Or.inr (Function.update_self ..)
  · refine Or.inl ?_
    have heq : (s.enqueue k a).head k' = s.head k' := Function.update_of_ne hk ..
    rwa [heq] at h

/-- What every step of a softirq does. -/
theorem softirq_step_spec (h : Queued s lists place) {point : Point α} {evens : List Softirq}
    {redoIrq : Nat} (hframe : s.frames i = some (.softirq point evens redoIrq)) :
    ∃ lists', Steps s (s.softirqStep i evens redoIrq point) i lists lists' := by
  have hholds := h.frame i
  rw [hframe] at hholds
  cases point with
  | handle =>
      cases evens with
      | nil => exact ⟨lists, .of_take_evens h hframe⟩
      | cons e rest =>
          simp only [Assists.softirqStep]
          cases hqueue : e.queue with
          | none =>
              refine ⟨lists, .of_set_frame h hholds ?_ ?_ ?_ ?_⟩
              · rw [hframe]
                refine rank_evens ?_
                rw [List.length_cons]
                omega
              · rw [hframe]
                intro k' hk'
                rcases List.mem_cons.mp hk' with rfl | hin
                · rw [k'.queue_softirq] at hqueue
                  cases hqueue
                · exact hin
              · rw [hframe]
                exact fun _ => rfl
              · exact fun _ => trivial
          | some k =>
              refine ⟨lists, .of_set_frame h hholds ?_ ?_ ?_ ?_⟩
              · rw [hframe]
                refine rank_evens ?_
                rw [List.length_cons]
                omega
              · rw [hframe]
                intro k' hk'
                rcases List.mem_cons.mp hk' with rfl | hin
                · rw [k'.queue_softirq] at hqueue
                  exact Or.inl (Option.some.inj hqueue).symm
                · exact Or.inr hin
              · rw [hframe]
                exact fun _ => rfl
              · exact fun _ => trivial
  | detach k =>
      have hself : (s.softirqStep i evens redoIrq (.detach k)).frames i =
          some (.softirq (.walk k (s.head k)) evens redoIrq) := Function.update_self ..
      refine ⟨_, h.detach hholds rfl rfl rfl rfl (h.queue k), ?_, fun k' b hb => ?_,
        fun k' hk' hs => ?_, fun k' hk' => Or.inl hk', fun k' hk' => ?_, fun b => ?_, fun _ => ?_,
        ⟨rfl, rfl, rfl⟩, ?_⟩
      · rw [hself, hframe]
        exact rank_evens (Nat.lt_succ_self _)
      · rw [Function.update_of_ne Sum.inl_ne_inr] at hb
        by_cases hkk : k' = k
        · subst hkk
          rw [Function.update_self] at hb
          cases hb
        · rw [Function.update_of_ne fun heq => hkk (Sum.inl.inj heq)] at hb
          exact Or.inl hb
      · rw [hframe] at hs
        rw [hself]
        rcases hs with rfl | hin
        · have hnone : Function.update s.head k none k = none := Function.update_self ..
          exact (hk' hnone).elim
        · exact hin
      · refine Or.inl fun hnone => hk' ?_
        show Function.update s.head k none k' = none
        rw [Function.update_apply]
        split
        · rfl
        · exact hnone
      · rw [hself, hframe]
        rfl
      · rw [hself]
        exact ⟨trivial, fun b _ => ⟨rfl, rfl⟩⟩
      · rw [hself]
        rfl
  | walk k p =>
      cases p with
      | none =>
          have hempty : lists (.inr i) = [] := Trail.eq_nil hholds
          refine ⟨lists, .of_set_frame h hempty ?_ ?_ ?_ ?_⟩
          · rw [hframe]
            exact rank_list (Nat.succ_pos _)
          · rw [hframe]
            exact fun _ hk' => hk'
          · rw [hframe]
            exact fun _ => rfl
          · exact fun _ => trivial
      | some a =>
          obtain ⟨rest, hlist, hrest⟩ := hholds.cons_of_some
          by_cases hcount : s.count a = 0
          · have heq : s.softirqStep i evens redoIrq (.walk k (some a)) =
                s.setFrame i (some (.softirq (.clear k a (s.next a)) evens redoIrq)) :=
              if_pos hcount
            rw [heq]
            refine ⟨lists, .of_set_frame h ⟨rest, hlist, hrest⟩ ?_ ?_ ?_ ?_⟩
            · rw [hframe]
              exact rank_list (Nat.lt_succ_self _)
            · rw [hframe]
              exact fun _ hk' => hk'
            · rw [hframe]
              exact fun _ => rfl
            · exact fun _ => hcount
          · have heq : s.softirqStep i evens redoIrq (.walk k (some a)) =
                s.setFrame i (some (.softirq (.requeue k a (s.next a)) evens redoIrq)) :=
              if_neg hcount
            rw [heq]
            refine ⟨lists, .of_set_frame h ⟨rest, hlist, hrest⟩ ?_ ?_ ?_ ?_⟩
            · rw [hframe]
              exact rank_list (Nat.lt_succ_self _)
            · rw [hframe]
              exact fun _ hk' => hk'
            · rw [hframe]
              exact fun _ => rfl
            · exact fun _ => hcount
  | clear k a p =>
      obtain ⟨rest, hlist, hrest⟩ := hholds
      have hself : (s.softirqStep i evens redoIrq (.clear k a p)).frames i =
          some (.softirq (.run k a p) evens redoIrq) := Function.update_self ..
      refine ⟨_, h.release hlist rfl rfl rfl rfl hrest, ?_, fun k' b hb => ?_,
        fun k' _ hs => ?_, fun k' hk' => Or.inl hk', fun k' hk' => Or.inl hk', fun b => ?_,
        fun hfits => ?_, ⟨rfl, rfl, rfl⟩, ?_⟩
      · rw [hself, hframe, Function.update_self, hlist, List.length_cons]
        refine rank_list ?_
        omega
      · rw [Function.update_of_ne Sum.inl_ne_inr] at hb
        exact Or.inl hb
      · rw [hframe] at hs
        rw [hself]
        exact hs
      · have hset : s.status a = true := by
          rw [h.bit, h.place_of_call hlist]
          rfl
        rw [hself, hframe]
        show s.executed b + (Function.update s.status a false b).toNat + (if a = b then 1 else 0) =
          s.executed b + (s.status b).toNat + 0
        by_cases hb : a = b
        · subst hb
          rw [Function.update_self, if_pos rfl, hset]
          rfl
        · rw [Function.update_of_ne (Ne.symm hb), if_neg hb]
      · rw [hframe] at hfits
        rw [hself]
        refine ⟨hfits, fun b hb => ⟨rfl, Function.update_of_ne ?_ ..⟩⟩
        rintro rfl
        exact hb hfits
      · rw [hself]
        rfl
  | run k a p =>
      have hself : (s.softirqStep i evens redoIrq (.run k a p)).frames i =
          some (.softirq (.walk k p) evens redoIrq) := Function.update_self ..
      refine ⟨lists, ⟨place, h.reframe rfl rfl rfl rfl hholds⟩, ?_, fun k' b hb => Or.inl hb,
        fun k' _ hs => ?_, fun k' hk' => Or.inl hk', fun k' hk' => Or.inl hk', fun b => ?_,
        fun hfits => ?_, ⟨rfl, rfl, rfl⟩, ?_⟩
      · rw [hself, hframe]
        refine rank_list ?_
        omega
      · rw [hframe] at hs
        rw [hself]
        exact hs
      · rw [hself, hframe]
        show Function.update s.executed a (s.executed a + 1) b + (s.status b).toNat + 0 =
          s.executed b + (s.status b).toNat + (if a = b then 1 else 0)
        by_cases hb : a = b
        · subst hb
          rw [Function.update_self, if_pos rfl]
          omega
        · rw [Function.update_of_ne (Ne.symm hb), if_neg hb]
      · rw [hframe] at hfits
        rw [hself]
        refine ⟨trivial, fun b hb => ⟨Function.update_of_ne ?_ .., rfl⟩⟩
        rintro rfl
        exact hb hfits
      · rw [hself]
        rfl
  | requeue k a p =>
      obtain ⟨rest, hlist, hrest⟩ := hholds
      have hself : (s.softirqStep i evens redoIrq (.requeue k a p)).frames i =
          some (.softirq (.walk k p) evens redoIrq) := Function.update_self ..
      refine ⟨_, h.enqueue hlist rfl rfl rfl rfl hrest, ?_, fun k' b hb => ?_,
        fun k' _ hs => ?_, fun k' hk' => ?_, fun k' hk' => ?_, fun b => ?_,
        fun _ => ?_, ⟨rfl, rfl, rfl⟩, ?_⟩
      · rw [hself, hframe, Function.update_of_ne Sum.inr_ne_inl, Function.update_self, hlist,
          List.length_cons]
        refine rank_list ?_
        omega
      · by_cases hkk : k' = k
        · subst hkk
          rw [Function.update_self] at hb
          rcases List.mem_cons.mp hb with rfl | hin
          · exact Or.inr ⟨p, evens, redoIrq, hframe⟩
          · exact Or.inl hin
        · rw [Function.update_of_ne fun heq => hkk (Sum.inl.inj heq),
            Function.update_of_ne Sum.inl_ne_inr] at hb
          exact Or.inl hb
      · rw [hframe] at hs
        rw [hself]
        exact hs
      · exact Or.inl (pending_enqueue hk')
      · exact raised_enqueue hk'
      · rw [hself, hframe]
        rfl
      · rw [hself]
        exact ⟨trivial, fun b _ => ⟨rfl, rfl⟩⟩
      · rw [hself]
        rfl

/-! ## The invariant -/

/-- How many calls are about to run the function of an assist. -/
def running [Fintype ι] (s : Assists α ι) (a : α) : Nat := tally fun i => runs a (s.frames i)

variable [Fintype ι]

/-- The lists are consistent, the runs are as many as the schedules but for those still to come, a
queue with an assist has its softirq or is served, and `count` tells who is disabled. -/
structure AssistInv (s : Assists α ι) : Prop where
  lists : ∃ lists place, Queued s lists place
  conserved : ∀ a, s.scheduled a = s.executed a + (s.status a).toNat + running s a
  raised : ∀ k, s.head k ≠ none →
    s.softirqEvens k.softirq = true ∨ ∃ i, Serves k (s.frames i)
  count : ∀ a, s.count a = -s.depth a ∨ s.count a = 1 ∧ s.depth a = 1

omit [DecidableEq ι] in
theorem assist_inv_init (priority : α → Priority) (disabled : α → Bool) :
    AssistInv (Assists.init priority disabled : Assists α ι) := by
  refine ⟨⟨fun _ => [], fun _ => none, fun l => ⟨List.nodup_nil, fun a => ?_⟩, fun k => .nil,
    fun i => rfl, fun a => rfl⟩, fun a => ?_, fun k hk => (hk rfl).elim, fun a => ?_⟩
  · simp
  · show 0 = 0 + 0 + tally fun _ => 0
    rw [tally_zero]
  · show (if disabled a then 1 else 0 : Int) = -(if disabled a then 1 else 0) ∨
      (if disabled a then 1 else 0 : Int) = 1 ∧ (if disabled a then 1 else 0 : Int) = 1
    split
    · exact Or.inr ⟨rfl, rfl⟩
    · exact Or.inl rfl

/-- The frame of one call changes, with what goes into and out of the lists. -/
theorem AssistInv.of_frame (h : AssistInv s) {frame : Option (Frame α)}
    (hlists : ∃ lists place, Queued t lists place)
    (hframes : t.frames = Function.update s.frames i frame)
    (hconserves : ∀ b, t.scheduled b + (s.executed b + (s.status b).toNat + runs b (s.frames i)) =
      s.scheduled b + (t.executed b + (t.status b).toNat + runs b frame))
    (hraises : ∀ k, t.head k ≠ none → s.head k ≠ none ∨ t.softirqEvens k.softirq = true)
    (hpending : ∀ k, s.softirqEvens k.softirq = true →
      t.softirqEvens k.softirq = true ∨ Serves k frame)
    (hserves : ∀ k, t.head k ≠ none → Serves k (s.frames i) → Serves k frame)
    (hcount : t.count = s.count) (hdepth : t.depth = s.depth) : AssistInv t where
  lists := hlists
  conserved a := by
    have hrunning : running t a + runs a (s.frames i) = running s a + runs a frame := by
      rw [running, hframes]
      exact tally_comp_update (runs a) s.frames i frame
    have hold := h.conserved a
    have hstep := hconserves a
    omega
  raised k hk := by
    have hself : t.frames i = frame := by
      rw [hframes]
      exact Function.update_self ..
    rcases hraises k hk with hold | hset
    · rcases h.raised k hold with hset | ⟨j, hj⟩
      · refine (hpending k hset).imp id fun hserve => ⟨i, ?_⟩
        rwa [hself]
      · refine Or.inr ⟨?_, ?_⟩
        · exact j
        · rw [hframes, Function.update_apply]
          split
          · next heq =>
              rw [heq] at hj
              exact hserves k hk hj
          · exact hj
    · exact Or.inl hset
  count := by
    rw [hcount, hdepth]
    exact h.count

/-- A call goes on without the assists. -/
theorem AssistInv.set_frame (h : AssistInv s) {frame : Option (Frame α)}
    (hholds : ∀ l, Holds s.next (s.frames i) l → Holds s.next frame l)
    (hruns : ∀ b, runs b frame = runs b (s.frames i)) (hserves : ∀ k, ¬ Serves k (s.frames i)) :
    AssistInv (s.setFrame i frame) := by
  obtain ⟨lists, place, hqueued⟩ := h.lists
  refine h.of_frame ⟨lists, place, hqueued.reframe rfl rfl rfl rfl (hholds _ (hqueued.frame i))⟩ rfl
    (fun b => ?_) (fun k hk => Or.inl hk) (fun k hk => Or.inl hk)
    (fun k _ hk => (hserves k hk).elim) rfl rfl
  rw [hruns b]
  rfl

/-- The bit is as `TestBit` has found it. -/
def Untouched (s : Assists α ι) : Option (Frame α) → Prop
  | some (.set a old) => s.status a = old
  | none | some (.test _) | some (.insert _) | some (.softirq _ _ _) => True

instance (s : Assists α ι) : ∀ frame, Decidable (Untouched s frame)
  | some (.set a old) => inferInstanceAs (Decidable (s.status a = old))
  | none | some (.test _) | some (.insert _) | some (.softirq _ _ _) =>
      inferInstanceAs (Decidable True)

/-- Nothing happens to the bit of an assist between the two halves of `TestAndSetBit`, an assist that
is disabled from the start is left so, and an assist is enabled after it has been disabled. -/
def assistGuard (s : Assists α ι) : AssistOp α ι → Prop
  | .advance i => Untouched s (s.frames i)
  | .disable a => s.count a ≤ 0
  | .enable a => s.count a < 0
  | .schedule _ _ | .doSoftirq _ | .active _ => True

instance (s : Assists α ι) : ∀ op, Decidable (assistGuard s op)
  | .advance i => inferInstanceAs (Decidable (Untouched s (s.frames i)))
  | .disable a => inferInstanceAs (Decidable (s.count a ≤ 0))
  | .enable a => inferInstanceAs (Decidable (s.count a < 0))
  | .schedule _ _ | .doSoftirq _ | .active _ => inferInstanceAs (Decidable True)

theorem AssistInv.do_softirq (h : AssistInv s) (hframe : s.frames i = none) :
    AssistInv (s.takeEvens i maxRedoIrq) := by
  obtain ⟨lists, place, hqueued⟩ := h.lists
  obtain ⟨evens, frame, heq, hnew, hevens⟩ := take_evens_spec s i maxRedoIrq
  have hempty := hqueued.frame i
  rw [hframe] at hempty
  rw [heq]
  refine h.of_frame ⟨lists, place, hqueued.reframe rfl rfl rfl rfl ?_⟩ rfl (fun b => ?_)
    (fun k hk => Or.inl hk) (fun k hk => ?_) (fun k _ hk => ?_) rfl rfl
  · rcases hnew with rfl | ⟨-, rfl⟩
    · exact hempty
    · exact hempty
  · rw [hframe]
    rcases hnew with rfl | ⟨-, rfl⟩
    · rfl
    · rfl
  · rcases hevens _ k.softirq_mem hk with ⟨-, hset⟩ | ⟨hin, rfl⟩
    · exact Or.inl hset
    · exact Or.inr hin
  · rw [hframe] at hk
    exact hk.elim

/-- `SetBit` of `TestAndSetBit`. -/
theorem AssistInv.set_bit (h : AssistInv s) {old : Bool} (hframe : s.frames i = some (.set a old))
    (hbit : s.status a = old) : AssistInv (s.frameStep i (.set a old)) := by
  obtain ⟨lists, place, hqueued⟩ := h.lists
  have hempty := hqueued.frame i
  rw [hframe] at hempty
  cases old with
  | true =>
      have heq : s.frameStep i (.set a true) = s.setFrame i none := by
        show { s with status := Function.update s.status a true }.setFrame i none = _
        rw [← hbit, Function.update_eq_self]
      rw [heq]
      refine h.set_frame (fun l hl => ?_) (fun b => ?_) fun k => ?_
      · rw [hframe] at hl
        exact hl
      · rw [hframe]
        rfl
      · rw [hframe]
        exact id
  | false =>
      refine h.of_frame (i := i) ⟨_, hqueued.take hbit hempty rfl rfl rfl rfl⟩ rfl (fun b => ?_)
        (fun k hk => Or.inl hk) (fun k hk => Or.inl hk) (fun k _ hk => ?_) rfl rfl
      · rw [hframe]
        show Function.update s.scheduled a (s.scheduled a + 1) b +
            (s.executed b + (s.status b).toNat + 0) =
          s.scheduled b + (s.executed b + (Function.update s.status a true b).toNat + 0)
        by_cases hb : b = a
        · subst hb
          rw [Function.update_self, Function.update_self, hbit]
          show _ + (_ + 0 + 0) = _ + (_ + 1 + 0)
          omega
        · rw [Function.update_of_ne hb, Function.update_of_ne hb]
      · rw [hframe] at hk
        exact hk.elim

/-- A new assist gets into its queue. -/
theorem AssistInv.insert (h : AssistInv s) (hframe : s.frames i = some (.insert a)) :
    AssistInv (s.frameStep i (.insert a)) := by
  obtain ⟨lists, place, hqueued⟩ := h.lists
  have hlist := hqueued.frame i
  rw [hframe] at hlist
  have hframes : (s.frameStep i (.insert a)).frames = Function.update s.frames i none := rfl
  refine h.of_frame ⟨_, hqueued.enqueue hlist rfl rfl rfl hframes rfl⟩ hframes (fun b => ?_)
    (fun k hk => raised_enqueue hk) (fun k hk => Or.inl (pending_enqueue hk))
    (fun k _ hk => ?_) rfl rfl
  · rw [hframe]
    rfl
  · rw [hframe] at hk
    exact hk.elim

theorem AssistInv.softirq_step (h : AssistInv s) {point : Point α} {evens : List Softirq}
    {redoIrq : Nat} (hframe : s.frames i = some (.softirq point evens redoIrq)) :
    AssistInv (s.softirqStep i evens redoIrq point) := by
  obtain ⟨lists, place, hqueued⟩ := h.lists
  obtain ⟨lists', hsteps⟩ := softirq_step_spec hqueued hframe
  refine h.of_frame ⟨lists', hsteps.queued⟩ hsteps.frames (fun b => ?_) hsteps.raises
    hsteps.pending hsteps.serves hsteps.kept.2.1 hsteps.kept.2.2
  rw [hsteps.conserves b, hsteps.kept.1]

/-- Every step preserves it. -/
theorem assist_inv_step (op : AssistOp α ι) (h : AssistInv s) (hguard : assistGuard s op)
    (hstep : assistStep s op = some t) : AssistInv t := by
  cases op with
  | schedule i a =>
      cases hframe : s.frames i with
      | none =>
          simp only [assistStep, hframe, Option.some.injEq] at hstep
          subst hstep
          refine h.set_frame (fun l hl => ?_) (fun b => ?_) fun k => ?_
          · rw [hframe] at hl
            exact hl
          · rw [hframe]
            rfl
          · rw [hframe]
            exact id
      | some frame => simp [assistStep, hframe] at hstep
  | doSoftirq i =>
      cases hframe : s.frames i with
      | none =>
          simp only [assistStep, hframe, Option.some.injEq] at hstep
          subst hstep
          exact h.do_softirq hframe
      | some frame => simp [assistStep, hframe] at hstep
  | advance i =>
      obtain ⟨frame, hframe, rfl⟩ := Option.map_eq_some_iff.mp hstep
      replace hguard : Untouched s (s.frames i) := hguard
      rw [hframe] at hguard
      cases frame with
      | test a =>
          refine h.set_frame (fun l hl => ?_) (fun b => ?_) fun k => ?_
          · rw [hframe] at hl
            exact hl
          · rw [hframe]
            rfl
          · rw [hframe]
            exact id
      | set a old => exact h.set_bit hframe hguard
      | insert a => exact h.insert hframe
      | softirq point evens redoIrq => exact h.softirq_step hframe
  | active e =>
      cases hstep
      obtain ⟨lists, place, hqueued⟩ := h.lists
      refine ⟨⟨lists, place, hqueued.placed, hqueued.queue, hqueued.frame, hqueued.bit⟩, h.conserved,
        fun k hk => (h.raised k hk).imp (fun hset => ?_) id, h.count⟩
      show Function.update s.softirqEvens e true k.softirq = true
      rw [Function.update_apply]
      split
      · rfl
      · exact hset
  | disable a =>
      cases hstep
      obtain ⟨lists, place, hqueued⟩ := h.lists
      refine ⟨⟨lists, place, hqueued.placed, hqueued.queue, hqueued.frame, hqueued.bit⟩, h.conserved,
        h.raised, fun b => ?_⟩
      show Function.update s.count a (s.count a - 1) b =
          -Function.update s.depth a (s.depth a + 1) b ∨
        Function.update s.count a (s.count a - 1) b = 1 ∧
          Function.update s.depth a (s.depth a + 1) b = 1
      replace hguard : s.count a ≤ 0 := hguard
      have hold := h.count b
      by_cases hb : b = a
      · subst hb
        simp only [Function.update_self]
        omega
      · simp only [Function.update_of_ne hb]
        exact hold
  | enable a =>
      cases hstep
      obtain ⟨lists, place, hqueued⟩ := h.lists
      refine ⟨⟨lists, place, hqueued.placed, hqueued.queue, hqueued.frame, hqueued.bit⟩, h.conserved,
        h.raised, fun b => ?_⟩
      show Function.update s.count a (s.count a + 1) b =
          -Function.update s.depth a (s.depth a - 1) b ∨
        Function.update s.count a (s.count a + 1) b = 1 ∧
          Function.update s.depth a (s.depth a - 1) b = 1
      replace hguard : s.count a < 0 := hguard
      have hold := h.count b
      by_cases hb : b = a
      · subst hb
        simp only [Function.update_self]
        omega
      · simp only [Function.update_of_ne hb]
        exact hold

end XBook.Softirqs
