import XBook.Fs.Fifo
import XBook.Lib.Transition

/-!
# Who has a FIFO open

`Accounted` says that each count is the number of occupied slots, that no task has two slots of one
side, and that interrupts are as they were. A call keeps it when the slot that it looks for is
there and the task is not yet in the table; `Accounts` says so. Read `record_spec` first.
-/

namespace XBook.Pipes

open IoTasks (Side)
open Transition

variable {Tid : Type*} [DecidableEq Tid] {s : FifoEnds Tid} {p : Tid} {k : Side}

namespace TaskTable

/-- The task can have a slot that is its only one. -/
def CanRecord (table : TaskTable Tid) (p : Tid) : Prop :=
  none ∈ table.slots ∧ some p ∉ table.slots

/-- There is no slot for the task: all are taken, or one before the first free slot is its own. -/
def Refuses (table : TaskTable Tid) (p : Tid) : Prop :=
  none ∉ table.slots ∨ some p ∈ table.slots.takeWhile Option.isSome

instance (table : TaskTable Tid) (p : Tid) : Decidable (table.CanRecord p) :=
  inferInstanceAs (Decidable (_ ∧ _))

instance (table : TaskTable Tid) (p : Tid) : Decidable (table.Refuses p) :=
  inferInstanceAs (Decidable (_ ∨ _))

/-- The slot that is found is a free one. -/
theorem record_slot_free {slots : List (Option Tid)} {i j : Nat}
    (h : recordSlot p slots i = some j) : ∃ n, j = i + n ∧ slots[n]? = some none := by
  induction slots generalizing i with
  | nil => cases h
  | cons slot rest ih =>
      rw [recordSlot] at h
      split at h
      · cases h
      · split at h
        · next hnone =>
            cases Option.some.inj h
            exact ⟨0, rfl, by rw [hnone]; rfl⟩
        · obtain ⟨n, hj, hfree⟩ := ih h
          exact ⟨n + 1, by omega, hfree⟩

/-- A free slot is found for a task that is not in the table. -/
theorem record_slot_some {slots : List (Option Tid)} (hfree : none ∈ slots)
    (hnew : some p ∉ slots) (i : Nat) : ∃ j, recordSlot p slots i = some j := by
  induction slots generalizing i with
  | nil => cases hfree
  | cons slot rest ih =>
      obtain ⟨hslot, hrest⟩ := not_or.mp (mt List.mem_cons.mpr hnew)
      rw [recordSlot, if_neg (Ne.symm hslot)]
      by_cases hnone : slot = none
      · exact ⟨i, if_pos hnone⟩
      · rw [if_neg hnone]
        exact ih ((List.mem_cons.mp hfree).resolve_left (Ne.symm hnone)) hrest _

/-- No slot is found where the task is refused. -/
theorem record_slot_none {slots : List (Option Tid)}
    (h : none ∉ slots ∨ some p ∈ slots.takeWhile Option.isSome) (i : Nat) :
    recordSlot p slots i = none := by
  induction slots generalizing i with
  | nil => rfl
  | cons slot rest ih =>
      rw [recordSlot]
      by_cases hslot : slot = some p
      · exact if_pos hslot
      · rw [if_neg hslot]
        cases slot with
        | none => simp at h
        | some q =>
            rw [if_neg (Option.some_ne_none q)]
            refine ih (h.imp (fun hfull => ?_) fun hin => ?_) _
            · exact mt (List.mem_cons_of_mem _) hfull
            · rw [List.takeWhile_cons_of_pos rfl] at hin
              exact (List.mem_cons.mp hin).resolve_left (Ne.symm hslot)

omit [DecidableEq Tid] in
/-- Storing in a slot changes the number of occupied slots by that slot. -/
theorem occupied_set (table : TaskTable Tid) {i : Nat} {old : Option Tid} (slot : Option Tid)
    (hold : table.slots[i]? = some old) :
    (table.set i slot).occupied + old.isSome.toNat = table.occupied + slot.isSome.toNat := by
  obtain ⟨hi, hget⟩ := List.getElem?_eq_some_iff.mp hold
  have hpos : old.isSome = true → 0 < table.slots.countP Option.isSome := fun hsome =>
    List.countP_pos_iff.mpr ⟨old, hget ▸ List.getElem_mem hi, hsome⟩
  have hset := List.countP_set (p := Option.isSome) (a := slot) hi
  rw [hget] at hset
  simp only [occupied, TaskTable.set, hset]
  cases old <;> cases slot <;> simp_all

/-- And the number of slots of each task. -/
theorem count_set (table : TaskTable Tid) {i : Nat} {old : Option Tid} (slot : Option Tid)
    (hold : table.slots[i]? = some old) (q : Tid) :
    (table.set i slot).slots.count (some q) ≤
      table.slots.count (some q) + if slot = some q then 1 else 0 := by
  obtain ⟨hi, -⟩ := List.getElem?_eq_some_iff.mp hold
  simp only [TaskTable.set, List.count_set hi, beq_iff_eq]
  omega

/-- Recording a task takes one slot for it. -/
theorem record_spec {table table' : TaskTable Tid} (h : table.record p = some table') :
    table'.occupied = table.occupied + 1 ∧ ∀ q, table'.slots.count (some q) ≤
      table.slots.count (some q) + if p = q then 1 else 0 := by
  obtain ⟨i, hslot, rfl⟩ := Option.map_eq_some_iff.mp h
  obtain ⟨n, hn, hfree⟩ := record_slot_free hslot
  rw [Nat.zero_add] at hn
  subst hn
  refine ⟨by simpa using table.occupied_set (some p) hfree, fun q => ?_⟩
  have hcount := table.count_set (some p) hfree q
  simpa only [Option.some.injEq] using hcount

/-- A task that has a slot can be erased, and leaves one slot. -/
theorem erase_spec {table : TaskTable Tid} (hin : some p ∈ table.slots) :
    ∃ table', table.erase p = some table' ∧ table'.occupied + 1 = table.occupied ∧
      ∀ q, table'.slots.count (some q) ≤ table.slots.count (some q) := by
  obtain ⟨i, hi⟩ : ∃ i, table.slots.findIdx? (· = some p) = some i := by
    refine Option.isSome_iff_exists.mp ?_
    rw [List.findIdx?_isSome, List.any_eq_true]
    exact ⟨some p, hin, decide_eq_true rfl⟩
  obtain ⟨hlt, heq, -⟩ := List.findIdx?_eq_some_iff_getElem.mp hi
  have hold : table.slots[i]? = some (some p) :=
    List.getElem?_eq_some_iff.mpr ⟨hlt, of_decide_eq_true heq⟩
  refine ⟨table.set i none, by rw [erase, hi]; rfl, ?_, fun q => ?_⟩
  · simpa using table.occupied_set none hold
  · simpa using table.count_set none hold q

end TaskTable

/-- A task that is found has a slot of that side. -/
theorem mem_of_pipe_in_table {reads writes : List (Option Tid)}
    (h : pipeInTable p reads writes = some k) :
    some p ∈ match k with | .get => reads | .put => writes := by
  induction reads generalizing writes with
  | nil => cases h
  | cons r reads ih =>
      cases writes with
      | nil => cases h
      | cons w writes =>
          rw [pipeInTable] at h
          split at h
          · next hr =>
              cases h
              exact hr ▸ List.mem_cons_self
          · split at h
            · next hw =>
                cases h
                exact hw ▸ List.mem_cons_self
            · have hrest := ih h
              cases k with
              | get => exact List.mem_cons_of_mem _ hrest
              | put => exact List.mem_cons_of_mem _ hrest

/-! ## The counts -/

/-- The counts, the tables and the interrupts are in order. -/
structure Accounted (interrupts : Tid → Bool) (s : FifoEnds Tid) : Prop where
  reference : ∀ k, s.reference k = (s.tasks k).occupied
  once : ∀ k p, (s.tasks k).slots.count (some p) ≤ 1
  restored : ∀ p, s.interrupts p = interrupts p

theorem accounted_init (interrupts : Tid → Bool) : Accounted interrupts (.init interrupts) := by
  refine ⟨fun _ => ?_, fun _ q => ?_, fun _ => rfl⟩
  · simp [FifoEnds.init, TaskTable.occupied, TaskTable.empty, List.countP_replicate]
  · simp [FifoEnds.init, TaskTable.empty, List.count_replicate]

variable {interrupts : Tid → Bool}

/-- The counts and tables of one side change together. -/
theorem Accounted.update (h : Accounted interrupts s) {s' : FifoEnds Tid} {table : TaskTable Tid}
    {n : Int} (hreference : s'.reference = Function.update s.reference k (s.reference k + n))
    (htasks : s'.tasks = Function.update s.tasks k table)
    (hrestored : ∀ p, s'.interrupts p = s.interrupts p)
    (hoccupied : (table.occupied : Int) = (s.tasks k).occupied + n)
    (honce : ∀ p, table.slots.count (some p) ≤ 1) : Accounted interrupts s' := by
  refine ⟨fun k' => ?_, fun k' p => ?_, fun p => (hrestored p).trans (h.restored p)⟩
  · rw [hreference, htasks]
    by_cases hk : k' = k
    · subst hk
      rw [Function.update_self, Function.update_self, hoccupied, h.reference]
    · rw [Function.update_of_ne hk, Function.update_of_ne hk, h.reference]
  · rw [htasks]
    by_cases hk : k' = k
    · subst hk
      rw [Function.update_self]
      exact honce p
    · rw [Function.update_of_ne hk]
      exact h.once k' p

/-- A new slot is the only one of its task. -/
theorem Accounted.record_once (h : Accounted interrupts s) {table : TaskTable Tid}
    (hcan : (s.tasks k).CanRecord p) (hrecord : (s.tasks k).record p = some table) (q : Tid) :
    table.slots.count (some q) ≤ 1 := by
  have hcount := (TaskTable.record_spec hrecord).2 q
  by_cases hq : p = q
  · subst hq
    rw [List.count_eq_zero.mpr hcan.2] at hcount
    simpa using hcount
  · rw [if_neg hq] at hcount
    exact hcount.trans (h.once k q)

/-! ## The calls -/

/-- What the call must find: a slot that is the only one of the task. An open by a task for whom
interrupts are disabled can also be refused. -/
def fifoGuard (s : FifoEnds Tid) : FifoOp Tid → Prop
  | .open p flags => ∀ k, FifoEnds.openSide flags = some k →
      (s.tasks k).CanRecord p ∨ s.interrupts p = false ∧ (s.tasks k).Refuses p
  | .update parent child => ∀ k,
      pipeInTable parent (s.tasks .get).slots (s.tasks .put).slots = some k →
      (s.tasks k).CanRecord child
  | .wake _ | .close _ => True

/-- A failing call changes no count and no table. -/
def Fails (s : FifoEnds Tid) (r : FifoEnds Tid × Option Int) : Prop :=
  r.2 = some (-1) → r.1.reference = s.reference ∧ r.1.tasks = s.tasks

omit [DecidableEq Tid] in
/-- Only a call that returns `-1` fails. -/
theorem not_fails {s' : FifoEnds Tid} {r : Option Int} (hr : r ≠ some (-1)) : Fails s (s', r) :=
  fun hfail => absurd hfail hr

theorem Accounted.fifoOpen (h : Accounted interrupts s) {flags : UInt32}
    (hguard : fifoGuard s (.open p flags)) :
    Accounted interrupts (s.fifoOpen p flags).1 ∧ Fails s (s.fifoOpen p flags) := by
  -- the two stores of the interrupt status
  have hback : ∀ q, Function.update (Function.update s.interrupts p false) p (s.interrupts p) q =
      s.interrupts q := by
    intro q
    rw [Function.update_idem, Function.update_eq_self]
  cases hside : FifoEnds.openSide flags with
  | none =>
      simp only [FifoEnds.fifoOpen, hside]
      exact ⟨⟨h.reference, h.once, fun q => (hback q).trans (h.restored q)⟩, fun _ => ⟨rfl, rfl⟩⟩
  | some k =>
      rcases hguard k hside with hcan | ⟨hdisabled, hrefuses⟩
      · obtain ⟨i, hi⟩ := TaskTable.record_slot_some hcan.1 hcan.2 0
        have hrecord : (s.tasks k).record p = some ((s.tasks k).set i (some p)) := by
          rw [TaskTable.record, hi]
          rfl
        have hoccupied := (TaskTable.record_spec hrecord).1
        have hframe : (s.setInterrupts p false).tasks = s.tasks := rfl
        simp only [FifoEnds.fifoOpen, hside, hframe, hrecord]
        split
        · exact ⟨h.update rfl rfl hback (by omega) (h.record_once hcan hrecord),
            not_fails (by simp)⟩
        · exact ⟨h.update rfl rfl hback (by omega) (h.record_once hcan hrecord),
            not_fails (by simp)⟩
      · -- the status that is left is the one at entry
        have hrecord : (s.tasks k).record p = none := by
          rw [TaskTable.record, TaskTable.record_slot_none hrefuses]
          rfl
        have hframe : (s.setInterrupts p false).tasks = s.tasks := rfl
        simp only [FifoEnds.fifoOpen, hside, hframe, hrecord]
        refine ⟨⟨h.reference, h.once, fun q => ?_⟩, fun _ => ⟨rfl, rfl⟩⟩
        rw [← h.restored q]
        show Function.update s.interrupts p false q = _
        rw [← hdisabled, Function.update_eq_self]

theorem Accounted.fifoWake (h : Accounted interrupts s) :
    Accounted interrupts (s.fifoWake p).1 ∧ Fails s (s.fifoWake p) := by
  refine ⟨⟨h.reference, h.once, fun q => ?_⟩, not_fails (by simp)⟩
  show Function.update (Function.update s.interrupts p false) p (s.interrupts p) q = _
  rw [Function.update_idem, Function.update_eq_self, h.restored]

theorem Accounted.fifoUpdate (h : Accounted interrupts s) {parent child : Tid}
    (hguard : fifoGuard s (.update parent child)) :
    Accounted interrupts (s.fifoUpdate parent child).1 ∧ Fails s (s.fifoUpdate parent child) := by
  cases hside : pipeInTable parent (s.tasks .get).slots (s.tasks .put).slots with
  | none =>
      simp only [FifoEnds.fifoUpdate, hside]
      exact ⟨h, fun _ => ⟨rfl, rfl⟩⟩
  | some k =>
      have hcan := hguard k hside
      obtain ⟨i, hi⟩ := TaskTable.record_slot_some hcan.1 hcan.2 0
      have hrecord : (s.tasks k).record child = some ((s.tasks k).set i (some child)) := by
        rw [TaskTable.record, hi]
        rfl
      have hoccupied := (TaskTable.record_spec hrecord).1
      have hframe : (s.addReference k 1).tasks = s.tasks := rfl
      simp only [FifoEnds.fifoUpdate, hside, hframe, hrecord]
      exact ⟨h.update rfl rfl (fun _ => rfl) (by omega) (h.record_once hcan hrecord),
        not_fails (by simp)⟩

theorem Accounted.fifoClose (h : Accounted interrupts s) :
    Accounted interrupts (s.fifoClose p).1 ∧ Fails s (s.fifoClose p) := by
  cases hside : pipeInTable p (s.tasks .get).slots (s.tasks .put).slots with
  | none =>
      simp only [FifoEnds.fifoClose, hside]
      exact ⟨h, fun _ => ⟨rfl, rfl⟩⟩
  | some k =>
      have hin : some p ∈ (s.tasks k).slots := by
        have hmem := mem_of_pipe_in_table hside
        cases k with
        | get => exact hmem
        | put => exact hmem
      obtain ⟨table, herase, hoccupied, hcount⟩ := TaskTable.erase_spec hin
      have hframe : (s.addReference k (-1)).tasks = s.tasks := rfl
      simp only [FifoEnds.fifoClose, hside, hframe, herase]
      exact ⟨h.update rfl rfl (fun _ => rfl) (by omega) fun q => (hcount q).trans (h.once k q),
        not_fails (by simp)⟩

/-- A call that meets the guard keeps the accounts, and fails without a trace. -/
theorem Accounted.call (h : Accounted interrupts s) {op : FifoOp Tid} (hguard : fifoGuard s op)
    {r : FifoEnds Tid × Option Int} (hcall : fifoCall s op = some r) :
    Accounted interrupts r.1 ∧ Fails s r := by
  cases op with
  | «open» p flags =>
      simp only [fifoCall, Option.ite_none_left_eq_some, Option.some.injEq] at hcall
      obtain ⟨-, rfl⟩ := hcall
      exact h.fifoOpen hguard
  | wake p =>
      simp only [fifoCall, Option.ite_none_right_eq_some, Option.some.injEq] at hcall
      obtain ⟨-, rfl⟩ := hcall
      exact h.fifoWake
  | update parent child =>
      simp only [fifoCall, Option.ite_none_left_eq_some, Option.some.injEq] at hcall
      obtain ⟨-, rfl⟩ := hcall
      exact h.fifoUpdate hguard
  | close p =>
      simp only [fifoCall, Option.ite_none_left_eq_some, Option.some.injEq] at hcall
      obtain ⟨-, rfl⟩ := hcall
      exact h.fifoClose

/-- The accounts are in order, and the next call that fails changes nothing. -/
structure EndsCounted (guard : FifoEnds Tid → FifoOp Tid → Prop) (interrupts : Tid → Bool)
    (s : FifoEnds Tid) : Prop where
  accounted : Accounted interrupts s
  failing : ∀ op r, guard s op → fifoCall s op = some r → Fails s r

/-- In every run of calls that meet the guard, a FIFO knows who has it open. -/
theorem fifo_ends_counted {ops : List (FifoOp Tid)}
    (hrun : Run (stepOf fifoStep) fifoGuard (.init interrupts) ops s) :
    EndsCounted fifoGuard interrupts s := by
  have hend : Accounted interrupts s := by
    refine hrun.invariant (fun s op t h hguard hstep => ?_) (accounted_init interrupts)
    obtain ⟨r, hcall, rfl⟩ := Option.map_eq_some_iff.mp hstep
    exact (h.call hguard hcall).1
  exact ⟨hend, fun _ _ hguard hcall => (hend.call hguard hcall).2⟩

instance (s : FifoEnds Tid) : DecidablePred (fifoGuard s)
  | .open p flags => inferInstanceAs (Decidable (∀ k, FifoEnds.openSide flags = some k →
      (s.tasks k).CanRecord p ∨ s.interrupts p = false ∧ (s.tasks k).Refuses p))
  | .update parent child => inferInstanceAs (Decidable (∀ k,
      pipeInTable parent (s.tasks .get).slots (s.tasks .put).slots = some k →
      (s.tasks k).CanRecord child))
  | .wake _ | .close _ => inferInstanceAs (Decidable True)

/-- A reader waits for a writer, it forks a child, and closes its end. -/
def forkedReader : List (FifoOp (Fin 3)) :=
  [.open 0 rdOnly, .open 1 wrOnly, .wake 0, .update 0 2, .close 0]

/-- The child and the writer have it open. -/
theorem forked_reader_counted : ∃ s : FifoEnds (Fin 3),
    Run (stepOf fifoStep) fifoGuard (.init fun _ => true) forkedReader s ∧
      (s.reference .get, s.reference .put) = (1, 1) ∧
      EndsCounted fifoGuard (fun _ => true) s := by
  obtain ⟨s, t, hstart, hrun, hview⟩ := exists_run_checked fifoStep fifoGuard
    (some (.init fun _ : Fin 3 => true)) forkedReader
    (fun s => (s.reference .get, s.reference .put)) (v := (1, 1)) (by decide +kernel)
  cases Option.some.inj hstart
  exact ⟨t, hrun, hview, fifo_ends_counted hrun⟩

/-- A reader opens the FIFO once more. -/
def openedTwice : List (FifoOp (Fin 2)) :=
  [.open 0 rdOnly, .open 1 wrOnly, .wake 0, .open 0 rdOnly]

/-- It is refused, and interrupts stay disabled. -/
theorem opened_twice_disables : ∃ s : FifoEnds (Fin 2),
    Run (stepOf fifoStep) anyLabel (.init fun _ => true) openedTwice s ∧
      ¬ EndsCounted anyLabel (fun _ => true) s := by
  obtain ⟨s, t, hstart, hrun, hview⟩ := exists_run_all fifoStep
    (some (.init fun _ : Fin 2 => true)) openedTwice (fun s => s.interrupts 0) (v := false)
    (by decide +kernel)
  cases Option.some.inj hstart
  refine ⟨t, hrun, fun h => ?_⟩
  rw [h.accounted.restored] at hview
  cases hview

end XBook.Pipes
