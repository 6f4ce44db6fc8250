import Mathlib.Data.List.Induction

/-!
# Forests of pointers

A forest has roots, and children of its nodes that are numbered; each is a slot that is empty or
holds a node. Where no two slots hold the same node, a node is reached in one way only
(`reach_unique`), a new node in an empty slot keeps this (`Grows.apart`), and a slot that is emptied
takes away what is below it (`Cut.reach`, `Cut.unreached`).
-/

/-- What the roots and the nodes hold. -/
structure Forest (ρ α : Type*) where
  root : ρ → Option α
  child : α → Nat → Option α

namespace Forest

variable {ρ α : Type*}

/-- A place for a node. -/
inductive Slot (ρ α : Type*) where
  | root (r : ρ)
  | child (a : α) (i : Nat)

/-- The node in a slot. -/
def value (f : Forest ρ α) : Slot ρ α → Option α
  | .root r => f.root r
  | .child a i => f.child a i

/-- The node at the end of a path from a root. -/
def reach (f : Forest ρ α) (r : ρ) (path : List Nat) : Option α :=
  path.foldl (fun node i => node.bind fun a => f.child a i) (f.root r)

/-- No two slots hold the same node. -/
def Apart (f : Forest ρ α) : Prop :=
  ∀ s t a, f.value s = some a → f.value t = some a → s = t

/-- The slots of `f` that hold a node hold it in `f'`. -/
def Extends (f f' : Forest ρ α) : Prop := ∀ s a, f.value s = some a → f'.value s = some a

/-- A new node comes into an empty slot, without children. -/
structure Grows (f f' : Forest ρ α) (s : Slot ρ α) (a : α) : Prop where
  fresh : ∀ t, f.value t ≠ some a
  empty : f.value s = none
  filled : f'.value s = some a
  others : ∀ t, t ≠ s → f'.value t = f.value t

variable {f f' f'' : Forest ρ α}

@[simp] theorem reach_nil (f : Forest ρ α) (r : ρ) : f.reach r [] = f.root r := rfl

theorem reach_concat (f : Forest ρ α) (r : ρ) (path : List Nat) (i : Nat) :
    f.reach r (path ++ [i]) = (f.reach r path).bind fun a => f.child a i := by
  rw [reach, List.foldl_append]
  rfl

/-- Behind an empty slot nothing is reached. -/
theorem reach_append_none {f : Forest ρ α} {r : ρ} {path : List Nat} (h : f.reach r path = none)
    (path' : List Nat) : f.reach r (path ++ path') = none := by
  induction path' using List.reverseRecOn with
  | nil => rw [List.append_nil, h]
  | append_singleton path' i ih =>
      rw [← List.append_assoc, reach_concat, ih]
      rfl

/-- A node is reached in one way. -/
theorem Apart.reach_unique (h : f.Apart) {r r' : ρ} {path path' : List Nat} {a : α}
    (ha : f.reach r path = some a) (ha' : f.reach r' path' = some a) :
    r = r' ∧ path = path' := by
  induction path using List.reverseRecOn generalizing path' a with
  | nil =>
      induction path' using List.reverseRecOn with
      | nil =>
          cases h (.root r) (.root r') a ha ha'
          exact ⟨rfl, rfl⟩
      | append_singleton path' i' _ =>
          rw [reach_concat, Option.bind_eq_some_iff] at ha'
          obtain ⟨b, -, hb⟩ := ha'
          cases h (.root r) (.child b i') a ha hb
  | append_singleton path i ih =>
      rw [reach_concat, Option.bind_eq_some_iff] at ha
      obtain ⟨b, hb, hchild⟩ := ha
      induction path' using List.reverseRecOn with
      | nil => cases h (.child b i) (.root r') a hchild ha'
      | append_singleton path' i' _ =>
          rw [reach_concat, Option.bind_eq_some_iff] at ha'
          obtain ⟨b', hb', hchild'⟩ := ha'
          cases h (.child b i) (.child b' i') a hchild hchild'
          obtain ⟨rfl, rfl⟩ := ih hb hb'
          exact ⟨rfl, rfl⟩

/-- Where a child of a node is reached, the node is reached in front of it. -/
theorem Apart.reach_parent (h : f.Apart) {a b : α} {i : Nat} {r : ρ} {path : List Nat}
    (hchild : f.child a i = some b) (hb : f.reach r path = some b) :
    ∃ front, path = front ++ [i] ∧ f.reach r front = some a := by
  induction path using List.reverseRecOn with
  | nil => cases h (.root r) (.child a i) b hb hchild
  | append_singleton front j _ =>
      rw [reach_concat, Option.bind_eq_some_iff] at hb
      obtain ⟨c, hc, hlast⟩ := hb
      cases h (.child c j) (.child a i) b hlast hchild
      exact ⟨front, rfl, hc⟩

theorem Extends.refl (f : Forest ρ α) : f.Extends f := fun _ _ h => h

theorem Extends.trans (h : f.Extends f') (h' : f'.Extends f'') : f.Extends f'' :=
  fun s a ha => h' s a (h s a ha)

/-- What is reached stays reached. -/
theorem Extends.reach (h : f.Extends f') {r : ρ} {path : List Nat} {a : α}
    (ha : f.reach r path = some a) : f'.reach r path = some a := by
  induction path using List.reverseRecOn generalizing a with
  | nil => exact h (.root r) a ha
  | append_singleton path i ih =>
      rw [reach_concat, Option.bind_eq_some_iff] at ha ⊢
      obtain ⟨b, hb, hchild⟩ := ha
      exact ⟨b, ih hb, h (.child b i) a hchild⟩

/-- The levels of the nodes go down by one from a node to its children. -/
theorem level_reach {level : α → Option Nat} {r : ρ} {n : Nat} {path : List Nat} {a : α}
    (hroot : ∀ a, f.root r = some a → level a = some n)
    (hchild : ∀ a i b, f.child a i = some b → ∃ k, level a = some (k + 1) ∧ level b = some k)
    (ha : f.reach r path = some a) : ∃ k, level a = some k ∧ k + path.length = n := by
  induction path using List.reverseRecOn generalizing a with
  | nil => exact ⟨n, hroot a ha, rfl⟩
  | append_singleton path i ih =>
      rw [reach_concat, Option.bind_eq_some_iff] at ha
      obtain ⟨b, hb, hlast⟩ := ha
      obtain ⟨k, hlevel, hsum⟩ := ih hb
      obtain ⟨k', hlevel', hbelow⟩ := hchild b i a hlast
      rw [hlevel] at hlevel'
      cases hlevel'
      refine ⟨k', hbelow, ?_⟩
      rw [List.length_append, List.length_singleton]
      omega

theorem Grows.kept {s : Slot ρ α} {a : α} (h : Grows f f' s a) : f.Extends f' := by
  intro t b hb
  have hne : t ≠ s := by
    rintro rfl
    rw [h.empty] at hb
    cases hb
  rw [h.others t hne, hb]

/-- The new node is in its slot only. -/
theorem Grows.apart {s : Slot ρ α} {a : α} (h : Grows f f' s a) (hf : f.Apart) : f'.Apart := by
  intro t u b ht hu
  by_cases hts : t = s
  · by_cases hus : u = s
    · rw [hts, hus]
    · rw [hts, h.filled] at ht
      rw [h.others u hus] at hu
      exact absurd (hu.trans ht.symm) (h.fresh u)
  · rw [h.others t hts] at ht
    by_cases hus : u = s
    · rw [hus, h.filled] at hu
      exact absurd (ht.trans hu.symm) (h.fresh t)
    · rw [h.others u hus] at hu
      exact hf t u b ht hu

/-! ## Emptying a slot -/

/-- The node at the end of a path from a node. -/
def walk (f : Forest ρ α) (node : Option α) (path : List Nat) : Option α :=
  path.foldl (fun node i => node.bind fun a => f.child a i) node

theorem reach_eq_walk (f : Forest ρ α) (r : ρ) (path : List Nat) :
    f.reach r path = f.walk (f.root r) path := rfl

@[simp] theorem walk_nil (f : Forest ρ α) (node : Option α) : f.walk node [] = node := rfl

@[simp] theorem walk_cons (f : Forest ρ α) (a : α) (i : Nat) (path : List Nat) :
    f.walk (some a) (i :: path) = f.walk (f.child a i) path := rfl

@[simp] theorem walk_none (f : Forest ρ α) (path : List Nat) : f.walk none path = none := by
  induction path with
  | nil => rfl
  | cons i path ih => exact ih

theorem walk_cons_eq_some {f : Forest ρ α} {a b : α} {i : Nat} {path : List Nat} :
    f.walk (some a) (i :: path) = some b ↔
      ∃ c, f.child a i = some c ∧ f.walk (some c) path = some b := by
  rw [walk_cons]
  cases hchild : f.child a i with
  | none => simp
  | some c => simp

theorem walk_leaf {f : Forest ρ α} {a b : α} {path : List Nat} (hleaf : ∀ i, f.child a i = none)
    (h : f.walk (some a) path = some b) : path = [] ∧ b = a := by
  cases path with
  | nil => exact ⟨rfl, (Option.some.inj h).symm⟩
  | cons i path =>
      rw [walk_cons, hleaf, walk_none] at h
      cases h

/-- From a node with one child all paths are through this child. -/
theorem walk_only_child {f : Forest ρ α} {a b c : α} {i : Nat} {path : List Nat}
    (hchild : f.child a i = some c) (honly : ∀ j c', f.child a j = some c' → j = i) :
    f.walk (some a) path = some b ↔
      path = [] ∧ b = a ∨ ∃ path', path = i :: path' ∧ f.walk (some c) path' = some b := by
  constructor
  · intro h
    cases path with
    | nil => exact .inl ⟨rfl, (Option.some.inj h).symm⟩
    | cons j path =>
        obtain ⟨c', hc', hwalk⟩ := walk_cons_eq_some.mp h
        obtain rfl := honly j c' hc'
        rw [hchild] at hc'
        cases hc'
        exact .inr ⟨path, rfl, hwalk⟩
  · rintro (⟨rfl, rfl⟩ | ⟨path', rfl, hwalk⟩)
    · rfl
    · exact walk_cons_eq_some.mpr ⟨c, hchild, hwalk⟩

theorem walk_append (f : Forest ρ α) (node : Option α) (path path' : List Nat) :
    f.walk node (path ++ path') = f.walk (f.walk node path) path' := List.foldl_append ..

theorem walk_concat (f : Forest ρ α) (node : Option α) (path : List Nat) (i : Nat) :
    f.walk node (path ++ [i]) = (f.walk node path).bind fun a => f.child a i := by
  rw [walk_append]
  rfl

theorem reach_append (f : Forest ρ α) (r : ρ) (path path' : List Nat) :
    f.reach r (path ++ path') = f.walk (f.reach r path) path' := List.foldl_append ..

/-- The node is in the slot, or is reached from the node in it. -/
def Below (f : Forest ρ α) (s : Slot ρ α) (a : α) : Prop := ∃ path, f.walk (f.value s) path = some a

/-- A slot is emptied. -/
structure Cut (f f' : Forest ρ α) (s : Slot ρ α) : Prop where
  empty : f'.value s = none
  others : ∀ t, t ≠ s → f'.value t = f.value t

theorem Cut.extends {s : Slot ρ α} (h : Cut f f' s) : f'.Extends f := by
  intro t a ht
  have hne : t ≠ s := by
    rintro rfl
    rw [h.empty] at ht
    cases ht
  rw [← h.others t hne, ht]

/-- What is not below the slot is still reached. -/
theorem Cut.reach {s : Slot ρ α} (h : Cut f f' s) {r : ρ} {path : List Nat} {a : α}
    (ha : f.reach r path = some a) : f'.reach r path = some a ∨ f.Below s a := by
  induction path using List.reverseRecOn generalizing a with
  | nil =>
      by_cases hslot : Slot.root r = s
      · subst hslot
        exact .inr ⟨[], ha⟩
      · exact .inl ((h.others _ hslot).trans ha)
  | append_singleton path i ih =>
      rw [reach_concat, Option.bind_eq_some_iff] at ha
      obtain ⟨b, hb, hchild⟩ := ha
      rcases ih hb with hkept | ⟨below, hbelow⟩
      · by_cases hslot : Slot.child b i = s
        · subst hslot
          exact .inr ⟨[], hchild⟩
        · refine .inl ?_
          rw [reach_concat, hkept]
          exact (h.others _ hslot).trans hchild
      · refine .inr ⟨below ++ [i], ?_⟩
        rw [walk_concat, hbelow]
        exact hchild

/-- What is below the slot is not reached any more. -/
theorem Cut.unreached {s : Slot ρ α} (h : Cut f f' s) (hf : f.Apart) {r : ρ} {path : List Nat}
    {a : α} (ha : f'.reach r path = some a) : ¬ f.Below s a := by
  -- the slot that holds the node in the new forest is not the one that was emptied
  have hslot : ∀ t b, f'.value t = some b → f.value s ≠ some b := by
    intro t b ht hs
    have heq := hf t s b (h.extends t b ht) hs
    rw [heq, h.empty] at ht
    cases ht
  rintro ⟨below, hbelow⟩
  induction below using List.reverseRecOn generalizing path a with
  | nil =>
      induction path using List.reverseRecOn with
      | nil => exact hslot (.root r) a ha hbelow
      | append_singleton path i _ =>
          rw [reach_concat, Option.bind_eq_some_iff] at ha
          obtain ⟨b, -, hchild⟩ := ha
          exact hslot (.child b i) a hchild hbelow
  | append_singleton below j ih =>
      rw [walk_concat, Option.bind_eq_some_iff] at hbelow
      obtain ⟨c, hc, hlast⟩ := hbelow
      induction path using List.reverseRecOn with
      | nil => cases hf (.root r) (.child c j) a (h.extends (.root r) a ha) hlast
      | append_singleton path i _ =>
          rw [reach_concat, Option.bind_eq_some_iff] at ha
          obtain ⟨b, hb, hchild⟩ := ha
          cases hf (.child b i) (.child c j) a (h.extends (.child b i) a hchild) hlast
          exact ih hb hc

end Forest
