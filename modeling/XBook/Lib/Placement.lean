import Mathlib.Data.List.Nodup
import Mathlib.Logic.Function.Basic

/-!
# Elements on at most one of several lists

A program that keeps its records on intrusive lists has every record on at most one of them.
`Placed lists place` says so: `place` names the list of each record, and no list repeats a
record. `Placed.del`, `Placed.addTail` and `Placed.add` follow one update of the lists, and
`Placed.move` takes a record from its list to the end of another.
-/

variable {ι α : Type*} [DecidableEq ι] [DecidableEq α]

/-- The members of each list are the elements placed there, each once. -/
def Placed (lists : ι → List α) (place : α → Option ι) : Prop :=
  ∀ l, (lists l).Nodup ∧ ∀ a, a ∈ lists l ↔ place a = some l

namespace Placed

variable {lists : ι → List α} {place : α → Option ι}

omit [DecidableEq ι] in
/-- Removing an element from every list. -/
theorem del (h : Placed lists place) (a : α) :
    Placed (fun l => (lists l).erase a) (Function.update place a none) := by
  intro l
  obtain ⟨hnodup, hmem⟩ := h l
  refine ⟨hnodup.erase a, ?_⟩
  intro b
  rw [hnodup.mem_erase_iff, hmem b]
  by_cases hba : b = a
  · subst hba
    simp
  · simp [hba]

/-- What an update of one list does to a member of it and to the others. -/
theorem update (h : Placed lists place) {a : α} (ha : place a = none) {l : ι} {new : List α}
    (hnew : new.Nodup) (hmem : ∀ b, b ∈ new ↔ b = a ∨ b ∈ lists l) :
    Placed (Function.update lists l new) (Function.update place a (some l)) := by
  intro m
  by_cases hml : m = l
  · subst hml
    rw [Function.update_self]
    refine ⟨hnew, ?_⟩
    intro b
    rw [hmem b, (h m).2 b]
    by_cases hba : b = a
    · subst hba
      simp
    · simp [hba]
  · rw [Function.update_of_ne hml]
    refine ⟨(h m).1, ?_⟩
    intro b
    rw [(h m).2 b]
    by_cases hba : b = a
    · subst hba
      simp [ha, Ne.symm hml]
    · simp [hba]

/-- Appending an element that is on no list. -/
theorem addTail (h : Placed lists place) {a : α} (ha : place a = none) (l : ι) :
    Placed (Function.update lists l (lists l ++ [a])) (Function.update place a (some l)) := by
  have hfresh : a ∉ lists l := by
    rw [(h l).2 a, ha]
    simp
  refine h.update ha ?_ ?_
  · rw [List.nodup_append_comm]
    exact List.nodup_cons.mpr ⟨hfresh, (h l).1⟩
  · intro b
    rw [List.mem_append, List.mem_singleton, or_comm]

/-- Putting an element that is on no list in front. -/
theorem add (h : Placed lists place) {a : α} (ha : place a = none) (l : ι) :
    Placed (Function.update lists l (a :: lists l)) (Function.update place a (some l)) := by
  have hfresh : a ∉ lists l := by
    rw [(h l).2 a, ha]
    simp
  exact h.update ha (List.nodup_cons.mpr ⟨hfresh, (h l).1⟩) fun b => List.mem_cons

/-- Taking an element from its list to the end of a list. -/
theorem move (h : Placed lists place) (a : α) (l : ι) :
    Placed (Function.update (fun m => (lists m).erase a) l ((lists l).erase a ++ [a]))
      (Function.update place a (some l)) := by
  have hmove := (h.del a).addTail (Function.update_self a none place) l
  rwa [Function.update_idem] at hmove

omit [DecidableEq α] in
/-- Taking all elements of a list to a list that is empty. -/
theorem moveAll (h : Placed lists place) {m n : ι} (hne : m ≠ n) (hempty : lists n = []) :
    Placed (Function.update (Function.update lists m []) n (lists m))
      (fun a => if place a = some m then some n else place a) := by
  have hnone : ∀ a, place a ≠ some n := by
    intro a ha
    have hin := ((h n).2 a).mpr ha
    rw [hempty] at hin
    cases hin
  intro l
  by_cases hl : l = n
  · subst hl
    rw [Function.update_self]
    refine ⟨(h m).1, fun a => ?_⟩
    rw [(h m).2 a]
    show _ ↔ (if place a = some m then some l else place a) = some l
    split
    · next hm => simp [hm]
    · next hm => simp [hm, hnone a]
  · rw [Function.update_of_ne hl]
    by_cases hlm : l = m
    · subst hlm
      rw [Function.update_self]
      refine ⟨List.nodup_nil, fun a => ?_⟩
      show _ ↔ (if place a = some l then some n else place a) = some l
      split
      · simp [Ne.symm hl]
      · next hm => simp [hm]
    · rw [Function.update_of_ne hlm]
      refine ⟨(h l).1, fun a => ?_⟩
      rw [(h l).2 a]
      show _ ↔ (if place a = some m then some n else place a) = some l
      split
      · next hm => simp [hm, Ne.symm hlm, Ne.symm hl]
      · exact Iff.rfl

end Placed
