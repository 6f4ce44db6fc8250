import Mathlib.Data.List.Basic
import Mathlib.Data.List.Pairwise

/-!
# Half-open ranges of natural numbers

A `Span` is the range `[start, start + len)`. An allocator's live blocks are a list of spans,
pairwise `Apart`. A number is a `Boundary` of a list when no span has it strictly inside, so
that a walk which jumps from boundary to boundary never enters a span; `FirstFree` names the
least number in no span.
-/

/-- The range `[start, start + len)`. -/
structure Span where
  start : Nat
  len : Nat
  deriving DecidableEq, Repr

namespace Span

/-- The first number after the range. -/
def stop (s : Span) : Nat := s.start + s.len

/-- The number lies in the range. -/
def Holds (s : Span) (i : Nat) : Prop := s.start ≤ i ∧ i < s.stop

/-- The two ranges follow one another, in either order. -/
def Apart (s t : Span) : Prop := s.stop ≤ t.start ∨ t.stop ≤ s.start

instance (s : Span) (i : Nat) : Decidable (s.Holds i) := inferInstanceAs (Decidable (_ ∧ _))

instance (s t : Span) : Decidable (s.Apart t) := inferInstanceAs (Decidable (_ ∨ _))

instance : Std.Symm Apart := ⟨fun _ _ => Or.symm⟩

/-- Apart ranges share no number. -/
theorem Apart.not_holds {s t : Span} (h : s.Apart t) {i : Nat} (hs : s.Holds i) :
    ¬ t.Holds i := by
  unfold Apart Holds stop at *
  omega

/-- Some span of the list holds the number. -/
def Covers (spans : List Span) (i : Nat) : Prop := ∃ s ∈ spans, s.Holds i

/-- No span of the list has the number strictly inside. -/
def Boundary (spans : List Span) (i : Nat) : Prop := ∀ s ∈ spans, s.stop ≤ i ∨ i ≤ s.start

/-- The least number below `bound` that no span of the list holds. -/
structure FirstFree (spans : List Span) (bound i : Nat) : Prop where
  lt : i < bound
  free : ¬ Covers spans i
  least : ∀ j < i, Covers spans j

instance (spans : List Span) (i : Nat) : Decidable (Covers spans i) :=
  inferInstanceAs (Decidable (∃ s ∈ spans, s.Holds i))

instance (spans : List Span) (bound i : Nat) : Decidable (FirstFree spans bound i) :=
  decidable_of_iff (i < bound ∧ ¬ Covers spans i ∧ ∀ j < i, Covers spans j)
    ⟨fun ⟨hlt, hfree, hleast⟩ => ⟨hlt, hfree, hleast⟩, fun h => ⟨h.lt, h.free, h.least⟩⟩

/-- At most one number is the least free one. -/
theorem FirstFree.unique {spans : List Span} {bound i j : Nat}
    (hi : FirstFree spans bound i) (hj : FirstFree spans bound j) : i = j := by
  rcases Nat.lt_trichotomy i j with h | h | h
  · exact (hi.free (hj.least i h)).elim
  · exact h
  · exact (hj.free (hi.least j h)).elim

/-- The end of a span is a boundary of a list of spans that are apart. -/
theorem boundary_stop {spans : List Span} (hapart : spans.Pairwise Apart) {s : Span}
    (hs : s ∈ spans) : Boundary spans s.stop := by
  intro t ht
  by_cases heq : s = t
  · subst heq
    exact .inl (Nat.le_refl _)
  · rcases hapart.forall hs ht heq with h | h
    · exact .inr h
    · exact .inl (Nat.le_trans h (Nat.le_add_right _ _))

/-- A range that starts at a boundary and meets no later span is apart from every span. -/
theorem apart_of_boundary {spans : List Span} {i n : Nat} (hi : Boundary spans i)
    (hclear : ∀ s ∈ spans, s.start ≤ i ∨ i + n ≤ s.start)
    (hstart : ∀ s ∈ spans, s.start ≠ i) :
    ∀ s ∈ spans, Apart ⟨i, n⟩ s := by
  intro s hs
  have h := hi s hs
  have h' := hclear s hs
  have h'' := hstart s hs
  unfold Apart stop at *
  simp only at *
  omega

end Span
