import XBook.Kernel.RequestServed

/-!
# The order of the elevator

`ElevatorGood` says what the two lists of a queue are for: the requests of the up list ascend and
those of the down list descend, so that the requests that are fetched between two switches come in
the order of the arm. A new request goes behind the first one that it may stand behind, which in a
sorted list is the first of all; so a list of two can lose its order with the next request. A call
keeps `ElevatorGood` exactly when it meets `MovesInOrder`; `elevator_order_iff` is about whole
runs.
-/

namespace XBook.Elevator

open Transition RequestQueue

variable {R : Type*} (lba : R → Nat)

/-- On its way the arm comes to the first request before the second, or they are in one place. -/
def Ahead (up : Bool) (a b : R) : Prop :=
  match up with
  | true => lba a ≤ lba b
  | false => lba b ≤ lba a

instance (up : Bool) (a b : R) : Decidable (Ahead lba up a b) :=
  match up with
  | true => inferInstanceAs (Decidable (lba a ≤ lba b))
  | false => inferInstanceAs (Decidable (lba b ≤ lba a))

/-- The list for a direction. -/
def listFor (q : RequestQueue R) (up : Bool) : List R :=
  if up then q.upRequestList else q.downRequestList

/-- Stores the list for a direction. -/
def setListFor (q : RequestQueue R) (up : Bool) (l : List R) : RequestQueue R :=
  if up then { q with upRequestList := l } else { q with downRequestList := l }

/-- A queue, with the requests that it has been given, those that have been fetched, in all and
since the last switch of the direction, and whether a call has come to an end in a panic or at a
null pointer. -/
structure ElevatorState (R : Type*) where
  queue : RequestQueue R
  inserted : List R
  fetched : List R
  phase : List R
  crashed : Bool

/-- The queue that `BlockInitQueue` leaves. -/
def initElevator : ElevatorState R := ⟨blockInitQueue, [], [], [], false⟩

/-- A call on the queue. -/
inductive ElevatorCall (R : Type*) where
  | schedule (request : R)
  | fetch

/-- The state after the call. -/
def elevatorStep (s : ElevatorState R) : ElevatorCall R → Option (ElevatorState R)
  | .schedule request =>
      match s.queue.elevatorIoSchedule lba request with
      | none => some { s with crashed := true }
      | some queue => some { s with queue := queue, inserted := request :: s.inserted }
  | .fetch =>
      let (queue, request) := s.queue.blockFetchRequest
      some { s with
        queue := queue
        fetched := s.fetched ++ request.toList
        phase := (if s.queue.requestList.isEmpty then [] else s.phase) ++ request.toList }

/-- What the queue should be like. -/
structure ElevatorGood (s : ElevatorState R) : Prop where
  noCrash : s.crashed = false
  up : s.queue.upRequestList.Pairwise fun a b => lba a ≤ lba b
  down : s.queue.downRequestList.Pairwise fun a b => lba b ≤ lba a
  conserved : (s.fetched ++ (s.queue.upRequestList ++ s.queue.downRequestList)).Perm s.inserted
  monotone : s.phase.Pairwise (Ahead lba s.queue.onUp)

/-- Where the first request of the list comes before the new one, the second does not. -/
def FitsBehindFirst (up : Bool) (request : R) (l : List R) : Prop :=
  ∀ a b rest, l = a :: b :: rest → Ahead lba up a request → Ahead lba up request b

/-- A new request finds an empty list, or a request has been fetched, and the place that it gets
is in order: behind the first request of the current list when it lies ahead, and in the other
list otherwise. A request that is fetched lies ahead of those fetched since the last switch. -/
def MovesInOrder (s : ElevatorState R) : ElevatorCall R → Prop
  | .schedule request => s.queue.requestList ≠ [] → ∃ current,
      s.queue.currentRequest = some current ∧
      (Ahead lba s.queue.onUp current request →
        (∃ a ∈ s.queue.requestList.head?, Ahead lba s.queue.onUp a request) ∧
        FitsBehindFirst lba s.queue.onUp request s.queue.requestList) ∧
      (¬ Ahead lba s.queue.onUp current request →
        FitsBehindFirst lba (!s.queue.onUp) request (listFor s.queue (!s.queue.onUp)))
  | .fetch => ∀ a ∈ s.queue.requestList.head?, ∀ x ∈ s.phase, Ahead lba s.queue.onUp x a

/-! ## Insertion -/

variable {lba} {up : Bool} {a b c request : R} {l : List R}

theorem Ahead.trans (h : Ahead lba up a b) (h' : Ahead lba up b c) : Ahead lba up a c := by
  cases up with
  | true => exact Nat.le_trans h h'
  | false => exact Nat.le_trans h' h

theorem ahead_of_not (h : ¬ Ahead lba up a b) : Ahead lba up b a := by
  cases up with
  | true => exact Nat.le_of_lt (Nat.not_le.mp h)
  | false => exact Nat.le_of_lt (Nat.not_le.mp h)

/-- The search finds the first request of a sorted list, or none. -/
theorem add_after_first_sorted (h : l.Pairwise (Ahead lba up)) :
    addAfterFirst (fun tmp => Ahead lba up tmp request) request l =
      match l with
      | [] => none
      | a :: rest => if Ahead lba up a request then some (a :: request :: rest) else none := by
  induction l with
  | nil => rfl
  | cons a rest ih =>
      obtain ⟨ha, hrest⟩ := List.pairwise_cons.mp h
      by_cases hahead : Ahead lba up a request
      · simp [addAfterFirst, hahead]
      · have hnone : addAfterFirst (fun tmp => Ahead lba up tmp request) request rest = none := by
          rw [ih hrest]
          cases rest with
          | nil => rfl
          | cons b rest =>
              have hb : ¬ Ahead lba up b request :=
                fun hb => hahead ((ha b List.mem_cons_self).trans hb)
              simp only [hb, if_false]
        simp [addAfterFirst, hahead, hnone]

/-- The place behind the first request is in order exactly when the second does not come before
the new one. -/
theorem sorted_behind_first {rest : List R} (h : (a :: rest).Pairwise (Ahead lba up))
    (ha : Ahead lba up a request) : (a :: request :: rest).Pairwise (Ahead lba up) ↔
      FitsBehindFirst lba up request (a :: rest) := by
  obtain ⟨hfirst, hrest⟩ := List.pairwise_cons.mp h
  constructor
  · rintro hsorted a' b rest' heq -
    cases heq
    exact (List.pairwise_cons.mp (List.pairwise_cons.mp hsorted).2).1 b List.mem_cons_self
  · intro hfits
    have hlater : ∀ b ∈ rest, Ahead lba up request b := by
      cases rest with
      | nil => simp
      | cons b rest =>
          have hb := hfits a b rest rfl ha
          intro c hc
          rcases List.mem_cons.mp hc with rfl | hc
          · exact hb
          · exact hb.trans ((List.pairwise_cons.mp hrest).1 c hc)
    refine List.pairwise_cons.mpr ⟨?_, List.pairwise_cons.mpr ⟨hlater, hrest⟩⟩
    intro b hb
    rcases List.mem_cons.mp hb with rfl | hb
    · exact ha
    · exact hfirst b hb

/-- The current list after an insertion. -/
theorem insert_current (h : l.Pairwise (Ahead lba up)) (hne : l ≠ []) :
    ((∃ l', addAfterFirst (fun tmp => Ahead lba up tmp request) request l = some l' ∧
        l'.Pairwise (Ahead lba up)) ↔
      (∃ a ∈ l.head?, Ahead lba up a request) ∧ FitsBehindFirst lba up request l) := by
  cases l with
  | nil => exact absurd rfl hne
  | cons a rest =>
      rw [add_after_first_sorted h]
      by_cases ha : Ahead lba up a request
      · simp [ha, sorted_behind_first h ha]
      · simp [ha]

/-- The other list after an insertion. -/
theorem insert_other (h : l.Pairwise (Ahead lba up)) :
    ((addAfterFirst (fun tmp => Ahead lba up tmp request) request l).getD
        (request :: l)).Pairwise (Ahead lba up) ↔ FitsBehindFirst lba up request l := by
  rw [add_after_first_sorted h]
  cases l with
  | nil => simp [FitsBehindFirst]
  | cons a rest =>
      by_cases ha : Ahead lba up a request
      · simp [ha, sorted_behind_first h ha]
      · have hahead := ahead_of_not ha
        simp only [ha, if_false, Option.getD_none]
        refine iff_of_true (List.pairwise_cons.mpr ⟨?_, h⟩) ?_
        · intro b hb
          rcases List.mem_cons.mp hb with rfl | hb
          · exact hahead
          · exact hahead.trans ((List.pairwise_cons.mp h).1 b hb)
        · rintro a' b rest' heq ha'
          cases heq
          exact absurd ha' ha

/-! ## Calls -/

variable {q q' : RequestQueue R} {s t : ElevatorState R}

/-- `ElevatorIoSchedule` for both directions at once. -/
theorem elevator_io_schedule_eq (q : RequestQueue R) (request : R) :
    q.elevatorIoSchedule lba request =
      if q.requestList = [] then some (setListFor q q.onUp [request])
      else q.currentRequest.bind fun current =>
        if Ahead lba q.onUp current request then
          (addAfterFirst (fun tmp => Ahead lba q.onUp tmp request) request q.requestList).map
            (setListFor q q.onUp)
        else some (setListFor q (!q.onUp)
          ((addAfterFirst (fun tmp => Ahead lba (!q.onUp) tmp request) request
            (listFor q (!q.onUp))).getD (request :: listFor q (!q.onUp)))) := by
  obtain ⟨upList, downList, onUp, current⟩ := q
  cases onUp with
  | true => cases upList <;> cases current <;> rfl
  | false => cases downList <;> cases current <;> rfl

/-- Both lists are in order. -/
def Sorted (lba : R → Nat) (q : RequestQueue R) : Prop :=
  ∀ up, (listFor q up).Pairwise (Ahead lba up)

theorem ElevatorGood.sorted (h : ElevatorGood lba s) : Sorted lba s.queue := by
  intro up
  cases up with
  | true => exact h.up
  | false => exact h.down

theorem sorted_set_list (h : Sorted lba q) :
    Sorted lba (setListFor q up l) ↔ l.Pairwise (Ahead lba up) := by
  constructor
  · intro hsorted
    have hup := hsorted up
    cases up <;> exact hup
  · intro hl dir
    have hdir := h dir
    cases up <;> cases dir <;> assumption

/-- A new request finds a place in order exactly when `MovesInOrder` says so. -/
theorem schedule_in_order (h : Sorted lba s.queue) :
    (∃ q', s.queue.elevatorIoSchedule lba request = some q' ∧ Sorted lba q') ↔
      MovesInOrder lba s (.schedule request) := by
  rw [elevator_io_schedule_eq, MovesInOrder]
  by_cases hempty : s.queue.requestList = []
  · simp [hempty, sorted_set_list h]
  · rw [if_neg hempty]
    cases hcurrent : s.queue.currentRequest with
    | none => simp [hempty]
    | some current =>
        have hlist : s.queue.requestList.Pairwise (Ahead lba s.queue.onUp) := h s.queue.onUp
        by_cases hahead : Ahead lba s.queue.onUp current request
        · simp only [Option.bind_some, hahead, if_true]
          have hplace : (∃ q', (addAfterFirst (fun tmp => Ahead lba s.queue.onUp tmp request) request
              s.queue.requestList).map (setListFor s.queue s.queue.onUp) = some q' ∧
                Sorted lba q') ↔
              ∃ l', addAfterFirst (fun tmp => Ahead lba s.queue.onUp tmp request) request
                s.queue.requestList = some l' ∧ l'.Pairwise (Ahead lba s.queue.onUp) := by
            constructor
            · rintro ⟨q', hq', hsorted⟩
              obtain ⟨l', hl', rfl⟩ := Option.map_eq_some_iff.mp hq'
              exact ⟨l', hl', (sorted_set_list h).mp hsorted⟩
            · rintro ⟨l', hl', hsorted⟩
              exact ⟨_, by rw [hl']; rfl, (sorted_set_list h).mpr hsorted⟩
          rw [hplace, insert_current hlist hempty]
          simp [hempty, hahead]
        · simp only [Option.bind_some, hahead, if_false, Option.some.injEq]
          have hplace := @insert_other _ _ _ request _ (h (!s.queue.onUp))
          simp [hempty, hahead, sorted_set_list h, hplace]

@[simp] theorem on_up_set_list (q : RequestQueue R) (up : Bool) (l : List R) :
    (setListFor q up l).onUp = q.onUp := by
  cases up <;> rfl

theorem on_up_schedule (h : q.elevatorIoSchedule lba request = some q') : q'.onUp = q.onUp := by
  rw [elevator_io_schedule_eq] at h
  split at h
  · cases h
    exact on_up_set_list ..
  · obtain ⟨current, -, h⟩ := Option.bind_eq_some_iff.mp h
    split at h
    · obtain ⟨l, -, rfl⟩ := Option.map_eq_some_iff.mp h
      exact on_up_set_list ..
    · cases h
      exact on_up_set_list ..

/-- A call of `ElevatorIoSchedule` keeps the queue in order exactly when `MovesInOrder` holds. -/
theorem ElevatorGood.schedule (h : ElevatorGood lba s)
    (hstep : elevatorStep lba s (.schedule request) = some t) :
    ElevatorGood lba t ↔ MovesInOrder lba s (.schedule request) := by
  rw [← schedule_in_order h.sorted]
  rw [elevatorStep] at hstep
  cases hschedule : s.queue.elevatorIoSchedule lba request with
  | none =>
      rw [hschedule] at hstep
      cases hstep
      refine iff_of_false (fun hgood => Bool.noConfusion hgood.noCrash) ?_
      rintro ⟨q', hq', -⟩
      cases hq'
  | some q' =>
      rw [hschedule] at hstep
      cases hstep
      have hperm := (elevator_io_schedule_perm hschedule).1
      constructor
      · exact fun hgood => ⟨q', rfl, hgood.sorted⟩
      · rintro ⟨q'', hq'', hsorted⟩
        cases hq''
        refine ⟨h.noCrash, hsorted true, hsorted false, ?_, ?_⟩
        · exact ((hperm.append_left _).trans List.perm_middle).trans (h.conserved.cons request)
        · show s.phase.Pairwise (Ahead lba q'.onUp)
          rw [on_up_schedule hschedule]
          exact h.monotone

/-- `BlockFetchRequest` takes the first request of the current list. -/
theorem fetch_current {rest : List R} (h : q.requestList = a :: rest) :
    q.blockFetchRequest =
      ({ setListFor q q.onUp rest with currentRequest := some a }, some a) := by
  obtain ⟨upList, downList, onUp, current⟩ := q
  cases onUp with
  | true =>
      obtain rfl : upList = a :: rest := h
      rfl
  | false =>
      obtain rfl : downList = a :: rest := h
      rfl

/-- When the current list is empty, `BlockFetchRequest` looks at the other one. -/
theorem fetch_switched (h : q.requestList = []) :
    q.blockFetchRequest =
      match listFor q (!q.onUp) with
      | [] => (q.switchRequestList, none)
      | a :: rest => ({ setListFor q.switchRequestList (!q.onUp) rest with
          currentRequest := some a }, some a) := by
  obtain ⟨upList, downList, onUp, current⟩ := q
  cases onUp with
  | true =>
      obtain rfl : upList = [] := h
      cases downList <;> rfl
  | false =>
      obtain rfl : downList = [] := h
      cases upList <;> rfl

/-- A call of `BlockFetchRequest` keeps the order exactly when `MovesInOrder` holds. -/
theorem ElevatorGood.fetch (h : ElevatorGood lba s)
    (hstep : elevatorStep lba s .fetch = some t) :
    ElevatorGood lba t ↔ MovesInOrder lba s .fetch := by
  have htail : ∀ {up : Bool} {a : R} {rest : List R}, listFor s.queue up = a :: rest →
      rest.Pairwise (Ahead lba up) := by
    intro up a rest hlist
    have hsorted := h.sorted up
    rw [hlist] at hsorted
    exact (List.pairwise_cons.mp hsorted).2
  rw [elevatorStep] at hstep
  cases hlist : s.queue.requestList with
  | cons a rest =>
      rw [fetch_current hlist] at hstep
      cases hstep
      have hsorted := (sorted_set_list h.sorted).mpr (htail (show listFor s.queue s.queue.onUp = _
        from hlist))
      have hperm := (block_fetch_request_some (fetch_current hlist)).1
      have hphase : (s.phase ++ [a]).Pairwise (Ahead lba s.queue.onUp) ↔
          ∀ x ∈ s.phase, Ahead lba s.queue.onUp x a := by
        rw [List.pairwise_append]
        simp [h.monotone]
      have hmoves : MovesInOrder lba s .fetch ↔ ∀ x ∈ s.phase, Ahead lba s.queue.onUp x a := by
        simp [MovesInOrder, hlist]
      rw [hmoves, ← hphase]
      constructor
      · intro hgood
        have hmonotone := hgood.monotone
        simp only [hlist, List.isEmpty_cons, Bool.false_eq_true, if_false,
          on_up_set_list, Option.toList_some] at hmonotone
        exact hmonotone
      · intro hmonotone
        refine ⟨h.noCrash, hsorted true, hsorted false, ?_, ?_⟩
        · refine List.Perm.trans ?_ h.conserved
          simp only [Option.toList_some, List.append_assoc]
          exact (hperm.symm).append_left _
        · simpa [hlist] using hmonotone
  | nil =>
      have hmoves : MovesInOrder lba s .fetch := by
        simp [MovesInOrder, hlist]
      refine iff_of_true ?_ hmoves
      have hfetch := fetch_switched hlist
      cases hother : listFor s.queue (!s.queue.onUp) with
      | nil =>
          rw [hother] at hfetch
          rw [hfetch] at hstep
          cases hstep
          refine ⟨h.noCrash, h.up, h.down, ?_, ?_⟩
          · simpa [switchRequestList] using h.conserved
          · simp [hlist]
      | cons a rest =>
          rw [hother] at hfetch
          have hperm := (block_fetch_request_some hfetch).1
          rw [hfetch] at hstep
          cases hstep
          have hswitch : Sorted lba s.queue.switchRequestList := h.sorted
          have hsorted := (sorted_set_list hswitch).mpr (htail hother)
          refine ⟨h.noCrash, hsorted true, hsorted false, ?_, ?_⟩
          · refine List.Perm.trans ?_ h.conserved
            simp only [Option.toList_some, List.append_assoc]
            exact (hperm.symm).append_left _
          · simp [hlist]

/-! ## Runs -/

theorem elevator_good_init : ElevatorGood lba initElevator :=
  ⟨rfl, .nil, .nil, .refl _, .nil⟩

/-- In every run from an empty queue, the queue is as it should be after each call exactly when
every call meets `MovesInOrder`. -/
theorem elevator_order_iff {calls : List (ElevatorCall R)}
    (hrun : Run (stepOf (elevatorStep lba)) anyLabel initElevator calls t) :
    (∀ pre u, pre <+: calls →
        Run (stepOf (elevatorStep lba)) anyLabel initElevator pre u → ElevatorGood lba u) ↔
      Run (stepOf (elevatorStep lba)) (MovesInOrder lba) initElevator calls t := by
  have hstep : ∀ s call t, ElevatorGood lba s → elevatorStep lba s call = some t →
      (ElevatorGood lba t ↔ MovesInOrder lba s call) := by
    intro s call t hgood hstep
    cases call with
    | schedule request => exact hgood.schedule hstep
    | fetch => exact hgood.fetch hstep
  exact Run.good_iff_guarded (fun _ h => h)
    (fun s call t h hguard hnext => (hstep s call t h hnext).mpr hguard)
    (fun s call t h hnext hgood => (hstep s call t h hnext).mp hgood) elevator_good_init hrun

/-- Two requests on the way up, and one behind the arm. -/
theorem up_and_down_served : ∃ t,
    Run (stepOf (elevatorStep id)) anyLabel initElevator
      [.schedule 10, .fetch, .schedule 20, .schedule 30, .schedule 5, .fetch, .fetch, .fetch] t ∧
    t.fetched = [10, 20, 30, 5] ∧ ElevatorGood id t := by
  obtain ⟨t, hrun, hfetched⟩ : ∃ t,
      Run (stepOf (elevatorStep id)) (MovesInOrder id) initElevator
        [.schedule 10, .fetch, .schedule 20, .schedule 30, .schedule 5, .fetch, .fetch, .fetch] t ∧
      t.fetched = [10, 20, 30, 5] := by
    refine ⟨_, .cons ?_ rfl (.cons ?_ rfl (.cons ?_ rfl (.cons ?_ rfl (.cons ?_ rfl
      (.cons ?_ rfl (.cons ?_ rfl (.cons ?_ rfl (.nil _)))))))), rfl⟩
    all_goals simp [MovesInOrder, FitsBehindFirst, Ahead, listFor, requestList, initElevator,
      blockInitQueue, setRequestList, addAfterFirst]
  have hany : Run (stepOf (elevatorStep id)) anyLabel initElevator _ t :=
    hrun.mono fun _ _ _ => trivial
  exact ⟨t, hany, hfetched, (elevator_order_iff hany).mpr hrun _ t (List.prefix_refl _) hany⟩

/-- A second request reads a null `currentRequest`; and after a fetch, the third of three ascending
requests is put between the first two. -/
theorem second_request_crashes :
    (∃ t, Run (stepOf (elevatorStep id)) anyLabel initElevator [.schedule 10, .schedule 20] t ∧
      t.crashed = true ∧ ¬ ElevatorGood id t) ∧
    ∃ t, Run (stepOf (elevatorStep id)) anyLabel initElevator
        [.schedule 10, .fetch, .schedule 20, .schedule 30, .schedule 40] t ∧
      t.queue.upRequestList = [20, 40, 30] ∧ ¬ ElevatorGood id t := by
  refine ⟨⟨_, .cons trivial rfl (.cons trivial rfl (.nil _)), rfl,
      fun h => Bool.noConfusion h.noCrash⟩,
    ⟨_, .cons trivial rfl (.cons trivial rfl (.cons trivial rfl (.cons trivial rfl
      (.cons trivial rfl (.nil _))))), rfl, fun h => ?_⟩⟩
  have hsorted : [20, 40, 30].Pairwise (fun a b : Nat => a ≤ b) := h.up
  revert hsorted
  decide

end XBook.Elevator
