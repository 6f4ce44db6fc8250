import Mathlib.Data.Finset.Basic

/-!
# The objects of a heap

A heap by the objects that are allocated, with the address of the next new one. `Holds` says which
of them a call has allocated itself. Read `Holds.balanced_iff` first: a call leaves the heap as it
was when it owns nothing at its end.
-/

namespace Heaps

/-- `twice` counts the objects that have been freed where they were not allocated. -/
structure Heap where
  live : Finset Nat
  next : Nat
  twice : Nat
  fresh : ∀ p ∈ live, p < next

namespace Heap

/-- A new object. -/
def kmalloc (h : Heap) : Heap × Nat where
  fst :=
    { live := insert h.next h.live
      next := h.next + 1
      twice := h.twice
      fresh := fun p hp => (Finset.mem_insert.mp hp).elim (fun heq => heq ▸ Nat.lt_succ_self _)
        fun hin => Nat.lt_succ_of_lt (h.fresh p hin) }
  snd := h.next

def kfree (h : Heap) (p : Nat) : Heap where
  live := h.live.erase p
  next := h.next
  twice := if p ∈ h.live then h.twice else h.twice + 1
  fresh := fun q hq => h.fresh q (Finset.mem_of_mem_erase hq)

/-- An object that is freed where it may be missing. -/
def kfreeOption (h : Heap) : Option Nat → Heap
  | none => h
  | some p => h.kfree p

/-- Some new objects of which nothing is kept. -/
def lose (h : Heap) : Nat → Heap
  | 0 => h
  | count + 1 => h.kmalloc.1.lose count

/-- A call that returns has freed what it has allocated, nothing else, and nothing twice. -/
def Balanced (before after : Heap) : Prop :=
  after.live = before.live ∧ after.twice = before.twice

section Live

variable {h : Heap} {p q : Nat}

theorem next_not_live (h : Heap) : h.next ∉ h.live :=
  fun hin => Nat.lt_irrefl _ (h.fresh _ hin)

theorem live_kmalloc (hp : p ∈ h.live) : p ∈ h.kmalloc.1.live := Finset.mem_insert_of_mem hp

theorem live_kfree (hp : p ∈ h.live) (hne : p ≠ q) : p ∈ (h.kfree q).live :=
  Finset.mem_erase.mpr ⟨hne, hp⟩

/-- An object that is new and still there is one that is left. -/
theorem not_balanced {before : Heap} (hnew : p ∉ before.live) (hp : p ∈ h.live) :
    ¬before.Balanced h := fun hbalanced => hnew (hbalanced.1 ▸ hp)

theorem live_lose (hp : p ∈ h.live) (count : Nat) : p ∈ (h.lose count).live := by
  induction count generalizing h with
  | zero => exact hp
  | succ count ih => exact ih (live_kmalloc hp)

end Live

end Heap

/-- Beside the objects of before the heap has those that are owned. -/
structure Holds (before : Heap) (own : List Nat) (h : Heap) : Prop where
  live : ∀ p, p ∈ h.live ↔ p ∈ before.live ∨ p ∈ own
  twice : h.twice = before.twice
  nodup : own.Nodup
  apart : ∀ p ∈ own, p ∉ before.live

namespace Holds

variable {before h : Heap} {own : List Nat} {p : Nat}

theorem refl (h : Heap) : Holds h [] h :=
  ⟨fun _ => (or_iff_left List.not_mem_nil).symm, rfl, List.nodup_nil,
    fun _ hp => absurd hp List.not_mem_nil⟩

/-- A new object is owned. -/
theorem kmalloc (hold : Holds before own h) :
    Holds before (h.kmalloc.2 :: own) h.kmalloc.1 := by
  have hnew := h.next_not_live
  refine ⟨fun p => ?_, hold.twice, ?_, fun p hp hbefore => ?_⟩
  · show p ∈ insert h.next h.live ↔ p ∈ before.live ∨ p ∈ h.next :: own
    rw [Finset.mem_insert, List.mem_cons, hold.live p]
    exact or_left_comm
  · exact List.nodup_cons.mpr ⟨fun hin => hnew ((hold.live _).mpr (.inr hin)), hold.nodup⟩
  · rcases List.mem_cons.mp hp with rfl | hown
    · exact hnew ((hold.live _).mpr (.inl hbefore))
    · exact hold.apart p hown hbefore

/-- What is owned can be freed. -/
theorem kfree (hold : Holds before own h) (hp : p ∈ own) :
    Holds before (own.erase p) (h.kfree p) := by
  refine ⟨fun q => ?_, ?_, hold.nodup.erase p, fun q hq => ?_⟩
  · show q ∈ h.live.erase p ↔ q ∈ before.live ∨ q ∈ own.erase p
    rw [Finset.mem_erase, hold.live q, hold.nodup.mem_erase_iff]
    constructor
    · rintro ⟨hne, hbefore | hown⟩
      · exact .inl hbefore
      · exact .inr ⟨hne, hown⟩
    · rintro (hbefore | ⟨hne, hown⟩)
      · exact ⟨fun heq => hold.apart p hp (heq ▸ hbefore), .inl hbefore⟩
      · exact ⟨hne, .inr hown⟩
  · have hlive : p ∈ h.live := (hold.live p).mpr (.inr hp)
    exact (if_pos hlive).trans hold.twice
  · exact hold.apart q (List.mem_of_mem_erase hq)

/-- One of the objects is freed. -/
theorem kfree_at {newer older : List Nat} (hold : Holds before (newer ++ p :: older) h) :
    Holds before (newer ++ older) (h.kfree p) := by
  have hnew : p ∉ newer := fun hin =>
    (List.nodup_append.mp hold.nodup).2.2 p hin p (List.mem_cons_self ..) rfl
  have hfree := hold.kfree (List.mem_append_right _ (List.mem_cons_self ..))
  rwa [List.erase_append_right _ hnew, List.erase_cons_head] at hfree

/-- The newest object is freed, or the one before it. -/
theorem kfree_head (hold : Holds before (p :: own) h) : Holds before own (h.kfree p) := by
  rw [← List.nil_append (p :: own)] at hold
  exact hold.kfree_at

theorem kfree_next {q : Nat} (hold : Holds before (q :: p :: own) h) :
    Holds before (q :: own) (h.kfree p) := by
  rw [← List.singleton_append] at hold
  exact hold.kfree_at

/-- What is lost is owned for ever. -/
theorem lose (hold : Holds before own h) (count : Nat) :
    ∃ lost : List Nat, lost.length = count ∧ Holds before (lost ++ own) (h.lose count) := by
  induction count generalizing own h with
  | zero => exact ⟨[], rfl, hold⟩
  | succ count ih =>
      obtain ⟨lost, hlength, hlost⟩ := ih hold.kmalloc
      refine ⟨lost ++ [h.kmalloc.2], ?_, ?_⟩
      · rw [List.length_append, List.length_singleton, hlength]
      · rw [List.append_assoc, List.singleton_append]
        exact hlost

/-- The heap is as before just when nothing is owned. -/
theorem balanced_iff (hold : Holds before own h) : before.Balanced h ↔ own = [] := by
  constructor
  · rintro ⟨hlive, -⟩
    refine List.eq_nil_iff_forall_not_mem.mpr fun p hp => hold.apart p hp ?_
    rw [← hlive]
    exact (hold.live p).mpr (.inr hp)
  · rintro rfl
    refine ⟨Finset.ext fun p => ?_, hold.twice⟩
    rw [hold.live p]
    exact or_iff_left List.not_mem_nil

/-- An object that is owned is new, still there, and none of the other ones. -/
theorem owned {newer older : List Nat} (hold : Holds before (newer ++ p :: older) h) :
    p ∉ before.live ∧ p ∈ h.live ∧ ∀ q ∈ older, p ≠ q := by
  have hown : p ∈ newer ++ p :: older := List.mem_append_right _ (List.mem_cons_self ..)
  refine ⟨hold.apart p hown, (hold.live p).mpr (.inr hown), fun q hq => ?_⟩
  rintro rfl
  exact (List.nodup_cons.mp (List.nodup_append.mp hold.nodup).2.1).1 hq

end Holds

/-- Beside what is owned nothing is left where it is clean, and something where it is not. -/
def Leaves (before : Heap) (own : List Nat) (clean : Prop) (h : Heap) : Prop :=
  ∃ more : List Nat, Holds before (more ++ own) h ∧ (more = [] ↔ clean)

section Left

variable {before h : Heap} {own : List Nat} {p : Nat} {clean clean' : Prop}

theorem Holds.leaves (hold : Holds before own h) (hclean : clean) : Leaves before own clean h :=
  ⟨[], hold, iff_of_true rfl hclean⟩

theorem Holds.leaves_lost (hold : Holds before own h) (count : Nat) :
    Leaves before own (count = 0) (h.lose count) := by
  obtain ⟨lost, hlength, hlost⟩ := hold.lose count
  refine ⟨lost, hlost, ?_⟩
  rw [← hlength]
  exact List.length_eq_zero_iff.symm

namespace Leaves

theorem congr (hleaves : Leaves before own clean h) (hiff : clean ↔ clean') :
    Leaves before own clean' h := by
  obtain ⟨more, hold, hmore⟩ := hleaves
  exact ⟨more, hold, hmore.trans hiff⟩

/-- What is owned at the start of a part of a call is left by the whole. -/
theorem left (hleaves : Leaves before (p :: own) clean h) (hclean : ¬clean') :
    Leaves before own clean' h := by
  obtain ⟨more, hold, -⟩ := hleaves
  refine ⟨more ++ [p], ?_, iff_of_false ?_ hclean⟩
  · rw [List.append_assoc, List.singleton_append]
    exact hold
  · exact List.append_ne_nil_of_right_ne_nil more (List.cons_ne_nil p [])

/-- A part of a call behind another one. -/
theorem after {more : List Nat} (hmore : more = [] ↔ clean)
    (hleaves : Leaves before (more ++ own) clean' h) : Leaves before own (clean ∧ clean') h := by
  obtain ⟨newer, hold, hnewer⟩ := hleaves
  refine ⟨newer ++ more, ?_, ?_⟩
  · rw [List.append_assoc]
    exact hold
  · rw [List.append_eq_nil_iff, hmore, hnewer]
    exact and_comm

/-- A call that owns nothing itself is balanced where it is clean. -/
theorem balanced_iff (hleaves : Leaves before [] clean h) : before.Balanced h ↔ clean := by
  obtain ⟨more, hold, hmore⟩ := hleaves
  rw [List.append_nil] at hold
  exact hold.balanced_iff.trans hmore

/-- Where it is not clean, there is a new object that is left. -/
theorem exists_new (hleaves : Leaves before own clean h) (hclean : ¬clean) :
    ∃ p, p ∉ before.live ∧ p ∈ h.live := by
  obtain ⟨more, hold, hmore⟩ := hleaves
  obtain ⟨p, hp⟩ := List.exists_mem_of_ne_nil more fun hnil => hclean (hmore.mp hnil)
  have hown : p ∈ more ++ own := List.mem_append_left _ hp
  exact ⟨p, hold.apart p hown, (hold.live p).mpr (.inr hown)⟩

end Leaves

end Left

end Heaps
