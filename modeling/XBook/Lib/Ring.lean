import Mathlib.Data.List.Basic
import Mathlib.Logic.Function.Basic

/-!
# Ring buffers

The slots of a ring are numbered without bound and a number names the slot of its remainder.
`Holds cap slots first l` says that the slots from `first` on hold the list `l`. `Holds.push` and
`Holds.pop` are the two operations of a queue: what is pushed goes to the first slot after the
list, and what is popped comes from its front.
-/

namespace Ring

variable {α : Type*} {cap first : Nat} {slots : Nat → α} {l : List α}

/-- The slots from `first` on hold the list, which is not longer than the ring. -/
structure Holds (cap : Nat) (slots : Nat → α) (first : Nat) (l : List α) : Prop where
  le : l.length ≤ cap
  slot : ∀ j (hj : j < l.length), slots ((first + j) % cap) = l[j]

theorem Holds.nil (cap : Nat) (slots : Nat → α) (first : Nat) : Holds cap slots first [] :=
  ⟨Nat.zero_le _, fun _ hj => absurd hj (Nat.not_lt_zero _)⟩

/-- Two numbers less than a round apart name different slots. -/
theorem slot_ne {i j : Nat} (hij : i < j) (hj : j < i + cap) : i % cap ≠ j % cap := by
  intro heq
  have hdvd : cap ∣ j - i := Nat.dvd_of_mod_eq_zero (Nat.sub_mod_eq_zero_of_mod_eq heq.symm)
  have hle := Nat.le_of_dvd (by omega) hdvd
  omega

/-- The slot after a slot. -/
theorem next_slot (hcap : 0 < cap) (i : Nat) :
    (i + 1) % cap = if i % cap + 1 = cap then 0 else i % cap + 1 := by
  have hlt : i % cap < cap := Nat.mod_lt _ hcap
  have hsum : i + 1 = i % cap + 1 + cap * (i / cap) := by
    have := Nat.mod_add_div i cap
    omega
  rw [hsum, Nat.add_mul_mod_self_left]
  split
  · next hlast => rw [hlast, Nat.mod_self]
  · next hlast => exact Nat.mod_eq_of_lt (by omega)

/-- Writing the first slot after the list appends to it. -/
theorem Holds.push (h : Holds cap slots first l) (hroom : l.length < cap) (a : α) :
    Holds cap (Function.update slots ((first + l.length) % cap) a) first (l ++ [a]) := by
  refine ⟨?_, ?_⟩
  · rw [List.length_append, List.length_singleton]
    exact hroom
  · intro j hj
    rw [List.length_append, List.length_singleton] at hj
    by_cases hlast : j = l.length
    · subst hlast
      rw [Function.update_self, List.getElem_concat_length rfl]
    · have hlt : j < l.length := by omega
      have hne : (first + j) % cap ≠ (first + l.length) % cap := slot_ne (by omega) (by omega)
      rw [Function.update_of_ne hne, List.getElem_append_left hlt]
      exact h.slot j hlt

/-- The first slot holds the front of the list, and the slots after it hold the rest. -/
theorem Holds.pop {a : α} (h : Holds cap slots first (a :: l)) :
    slots (first % cap) = a ∧ Holds cap slots (first + 1) l := by
  refine ⟨h.slot 0 (Nat.zero_lt_succ _), ?_, ?_⟩
  · exact Nat.le_of_succ_le h.le
  · intro j hj
    have hslot := h.slot (j + 1) (Nat.succ_lt_succ hj)
    rw [show first + (j + 1) = first + 1 + j by omega] at hslot
    exact hslot

/-- Writes a list to the slots from `i` on. -/
def write (cap : Nat) (slots : Nat → α) (i : Nat) : List α → Nat → α
  | [] => slots
  | a :: l => write cap (Function.update slots (i % cap) a) (i + 1) l

/-- The slots that are not written are kept. -/
theorem write_other (slots : Nat → α) (i : Nat) {l : List α} {k : Nat}
    (hne : ∀ j < l.length, k ≠ (i + j) % cap) : write cap slots i l k = slots k := by
  induction l generalizing slots i with
  | nil => rfl
  | cons a l ih =>
      rw [write, ih]
      · exact Function.update_of_ne (hne 0 (Nat.zero_lt_succ _)) a slots
      · intro j hj
        rw [Nat.add_assoc, Nat.add_comm 1 j]
        exact hne (j + 1) (Nat.succ_lt_succ hj)

/-- The slots hold the list that was written to them. -/
theorem write_holds (slots : Nat → α) (i : Nat) (hle : l.length ≤ cap) :
    Holds cap (write cap slots i l) i l := by
  refine ⟨hle, ?_⟩
  induction l generalizing slots i with
  | nil => exact fun _ hj => absurd hj (Nat.not_lt_zero _)
  | cons a l ih =>
      intro j hj
      rw [List.length_cons] at hle hj
      cases j with
      | zero =>
          rw [write, write_other]
          · exact Function.update_self ..
          · intro j hj
            exact slot_ne (by omega) (by omega)
      | succ j =>
          rw [write, show i + (j + 1) = i + 1 + j by omega]
          exact ih _ _ (Nat.le_of_succ_le hle) j (Nat.lt_of_succ_lt_succ hj)

/-- What is written behind a list, within a round from its first slot, leaves the list. -/
theorem Holds.write (h : Holds cap slots first l) {i : Nat} {written : List α}
    (hbehind : first + l.length ≤ i) (hround : i + written.length ≤ first + cap) :
    Holds cap (write cap slots i written) first l := by
  refine ⟨h.le, fun j hj => ?_⟩
  rw [write_other]
  · exact h.slot j hj
  · intro k hk
    exact slot_ne (by omega) (by omega)

/-- The number of the first slot counts up to whole rounds. -/
theorem Holds.congr (h : Holds cap slots first l) {i : Nat} (hi : i % cap = first % cap) :
    Holds cap slots i l := by
  refine ⟨h.le, fun j hj => ?_⟩
  rw [Nat.add_mod, hi, ← Nat.add_mod]
  exact h.slot j hj

end Ring
