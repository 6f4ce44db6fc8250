import Mathlib.Algebra.BigOperators.Fin
import Mathlib.Algebra.Order.BigOperators.Group.Finset

/-!
# Sums over the tasks of a system

A step of one task changes the value of a function at one point. `tally` adds a function up over
all points, and `tally_update` says how the sum changes with one value, so that a counting
invariant needs no more than the old and the new value of the task that moves.
-/

namespace Tally

variable {α β : Type*} [Fintype α]

/-- The sum of a function over all points. -/
def tally (f : α → Nat) : Nat := ∑ a, f a

/-- No value exceeds the sum. -/
theorem le_tally (f : α → Nat) (a : α) : f a ≤ tally f :=
  Finset.single_le_sum (fun _ _ => Nat.zero_le _) (Finset.mem_univ a)

theorem tally_eq_zero {f : α → Nat} : tally f = 0 ↔ ∀ a, f a = 0 := by
  simp [tally]

@[simp] theorem tally_zero : tally (fun _ : α => 0) = 0 := tally_eq_zero.mpr fun _ => rfl

variable [DecidableEq α]

/-- Changing one value changes the sum by the difference. -/
theorem tally_update (f : α → Nat) (a : α) (n : Nat) :
    tally (Function.update f a n) + f a = tally f + n := by
  have hnew : tally (Function.update f a n) = n + ∑ b ∈ Finset.univ.erase a, f b := by
    rw [tally, ← Finset.add_sum_erase _ _ (Finset.mem_univ a), Function.update_self]
    congr 1
    refine Finset.sum_congr rfl ?_
    intro b hb
    exact Function.update_of_ne (Finset.ne_of_mem_erase hb) ..
  have hold : tally f = f a + ∑ b ∈ Finset.univ.erase a, f b :=
    (Finset.add_sum_erase _ _ (Finset.mem_univ a)).symm
  omega

/-- The sum of a function of the points' values, when one value changes. -/
theorem tally_comp_update (g : β → Nat) (f : α → β) (a : α) (b : β) :
    tally (fun c => g (Function.update f a b c)) + g (f a) = tally (fun c => g (f c)) + g b := by
  have heq : (fun c => g (Function.update f a b c)) =
      Function.update (fun c => g (f c)) a (g b) := by
    funext c
    exact Function.apply_update (fun _ => g) f a b c
  rw [heq, tally_update]

omit [Fintype α] in
/-- What holds of the new value and of the others holds of all. -/
theorem forall_update {P : α → β → Prop} {f : α → β} {a : α} {b : β} (hnew : P a b)
    (hold : ∀ c, c ≠ a → P c (f c)) (c : α) : P c (Function.update f a b c) := by
  by_cases hca : c = a
  · subst hca
    rw [Function.update_self]
    exact hnew
  · rw [Function.update_of_ne hca]
    exact hold c hca

/-- Two values at different points together do not exceed the sum. -/
theorem add_le_tally (f : α → Nat) {a b : α} (hab : a ≠ b) : f a + f b ≤ tally f := by
  have herase : b ∈ Finset.univ.erase a := Finset.mem_erase.mpr ⟨hab.symm, Finset.mem_univ b⟩
  rw [tally, ← Finset.add_sum_erase _ _ (Finset.mem_univ a)]
  exact Nat.add_le_add_left (Finset.single_le_sum (fun _ _ => Nat.zero_le _) herase) _

/-- With a sum of at most one, at most one point has a positive value. -/
theorem unique_of_tally_le_one {f : α → Nat} (h : tally f ≤ 1) {a b : α} (ha : 0 < f a)
    (hb : 0 < f b) : a = b := by
  by_contra hab
  have := add_le_tally f hab
  omega

end Tally
