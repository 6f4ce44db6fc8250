import XBook.Lib.Placement
import XBook.Lib.Transition
import XBook.Mm.MemcacheLayout

/-!
# The kernel heap keeps its books

`kmem_cache_well_formed` says that after any sequence of `kmalloc`, `kfree` and shrinking the
counters of every group agree with its bitmap, every group is in the one list that its counters
ask for, and the live objects lie apart in the object areas of their groups. The page allocator
may return any pages that the heap does not hold. The invariant is `SlabInv`; `SlabInv.set_bit`
carries it over a change of one object, `SlabInv.add_group` and `SlabInv.remove_group` over a
change of the groups.
-/

namespace XBook

open Transition

/-- The list that the counters of a group ask for. -/
def MemGroup.place (group : MemGroup) : GroupList :=
  if group.freeCount = 0 then .fullGroups
  else if group.usingCount = 0 then .freeGroups
  else .partialGroups

namespace MemCacheState

/-- Where the groups of a cache should be. -/
def placement (s : MemCacheState) (k g : Nat) : Option GroupList :=
  if s.owner g = some k then some (s.groups g).place else none

/-- Records the size asked for when an object becomes live, or `none` when it is freed. -/
def setLive (s : MemCacheState) (object : Nat) (size : Option Nat) : MemCacheState :=
  { s with live := Function.update s.live object size }

/-- The address is that of a used object of a group. -/
structure UsedAt (s : MemCacheState) (address g k i : Nat) : Prop where
  owner : s.owner g = some k
  index : i < cacheNumber k
  address : address = (s.groups g).objects + i * cacheSize k
  bit : (s.groups g).map.bit i = true

end MemCacheState

/-- A call of the heap, with what the page allocator returns during it. -/
inductive HeapOp where
  | kmalloc (size : Nat) (pages : GroupPages)
  | kfree (object : Nat)
  | memCacheShrink (k : Nat)
  | kmshrink

/-- One call. Only live objects are freed. -/
def heapStep (s : MemCacheState) : HeapOp → Option MemCacheState
  | .kmalloc size pages =>
      let r := s.kmalloc size pages
      some (if r.2 = 0 then r.1 else r.1.setLive r.2 (some size))
  | .kfree object =>
      if (s.live object).isSome then (s.kfree object).map (·.setLive object none) else none
  | .memCacheShrink k => some (s.memCacheShrink k).1
  | .kmshrink => some s.kmshrink.1

/-- What the page allocator returns for a new group of cache `k`: no page for the group, or pages
for the group and for its objects that are apart from each other and from all pages of the heap. -/
def PagesFresh (s : MemCacheState) (k : Nat) (pages : GroupPages) : Prop :=
  pages.group ≠ 0 →
    pages.group % pageSize = 0 ∧
    (¬ cacheSize k < 1024 → pages.objects ≠ 0 ∧ pages.objects % pageSize = 0) ∧
    (pageSpans k pages.group pages.objects).Pairwise Span.Apart ∧
    ∀ g l, s.owner g = some l → ∀ a ∈ pageSpans k pages.group pages.objects,
      ∀ b ∈ pageSpans l g (s.groups g).objects, a.Apart b

/-- The assumption about the page allocator, where a call needs a new group. -/
def heapGuard (s : MemCacheState) : HeapOp → Prop
  | .kmalloc size pages => size ≤ maxMemCacheSize → s.findGroup (cacheIndex size) = none →
      PagesFresh s (cacheIndex size) pages
  | _ => True

/-- The counters of a group agree with its bitmap. -/
structure GroupInv (k : Nat) (group : MemGroup) : Prop where
  len : group.map.btmpBytesLen = divRoundUp (cacheNumber k) 8
  bytes : group.map.Bytes
  counted : group.usingCount = group.map.used (cacheNumber k)
  total : group.usingCount + group.freeCount = cacheNumber k

/-- The invariant of the heap. -/
structure SlabInv (s : MemCacheState) : Prop where
  sizes : ∀ k, (s.memCacheTable k).objectSize = cacheSize k ∧
    (s.memCacheTable k).objectNumber = cacheNumber k
  layout : Layout s.owner (fun g => (s.groups g).objects) s.nodes
  groups : ∀ g k, s.owner g = some k → GroupInv k (s.groups g)
  lists : ∀ k, Placed (s.memCacheTable k).list (s.placement k)
  live : ∀ address, s.live address ≠ none ↔ ∃ g k i, s.UsedAt address g k i
  requested : ∀ address size, s.live address = some size →
    ∀ g k i, s.UsedAt address g k i → size ≤ cacheSize k

/-! ## One object changes -/

/-- An address belongs to one object. -/
theorem SlabInv.object_unique {s : MemCacheState} (h : SlabInv s) {g k i g' k' i' : Nat}
    (hg : s.owner g = some k) (hi : i < cacheNumber k) (hg' : s.owner g' = some k')
    (hi' : i' < cacheNumber k')
    (heq : (s.groups g).objects + i * cacheSize k = (s.groups g').objects + i' * cacheSize k') :
    g = g' ∧ k = k' ∧ i = i' := by
  have hcache := (h.layout.group g k hg).cache
  have harea := @object_address_in_area k (s.groups g).objects i hcache hi
  have harea' := @object_address_in_area k' (s.groups g').objects i'
    (h.layout.group g' k' hg').cache hi'
  rw [← heq] at harea'
  obtain ⟨hgg, hkk⟩ := h.layout.group_unique hg hg' harea harea'
  subst hgg hkk
  refine ⟨rfl, rfl, ?_⟩
  exact Nat.eq_of_mul_eq_mul_right (cache_size_pos hcache) (Nat.add_left_cancel heq)

section

variable {s t : MemCacheState} {g k i : Nat} {value : Bool} {group : MemGroup} {c : MemCache}
variable {request : Option Nat}

/-- The used objects after one object has changed. -/
theorem SlabInv.used_at_set (h : SlabInv s) (hg : s.owner g = some k) (hi : i < cacheNumber k)
    (hmap : group.map = bitmapSet (s.groups g).map i value)
    (hobjects : group.objects = (s.groups g).objects)
    (hgroups : t.groups = Function.update s.groups g group) (howner : t.owner = s.owner)
    {address g' k' i' : Nat} :
    t.UsedAt address g' k' i' ↔
      if address = (s.groups g).objects + i * cacheSize k then
        value = true ∧ g' = g ∧ k' = k ∧ i' = i
      else s.UsedAt address g' k' i' := by
  have hsame : ∀ g', (t.groups g').objects = (s.groups g').objects := by
    intro g'
    rw [hgroups]
    by_cases hgg : g' = g
    · subst hgg
      rw [Function.update_self, hobjects]
    · rw [Function.update_of_ne hgg]
  have hbits : ∀ g' i', (t.groups g').map.bit i' =
      if g' = g ∧ i' = i then value else (s.groups g').map.bit i' := by
    intro g' i'
    rw [hgroups]
    by_cases hgg : g' = g
    · subst hgg
      rw [Function.update_self, hmap, bit_bitmap_set]
      simp
    · rw [Function.update_of_ne hgg]
      simp [hgg]
  split
  · next haddress =>
      constructor
      · intro hused
        have howner' : s.owner g' = some k' := by
          rw [← howner]
          exact hused.owner
        obtain ⟨hgg, hkk, hii⟩ := h.object_unique hg hi howner' hused.index
          (by rw [← haddress, hused.address, hsame])
        have hbit := hused.bit
        rw [hbits, if_pos ⟨hgg.symm, hii.symm⟩] at hbit
        exact ⟨hbit, hgg.symm, hkk.symm, hii.symm⟩
      · intro ⟨hvalue, hgg, hkk, hii⟩
        subst hgg hkk hii
        refine ⟨by rw [howner]; exact hg, hi, by rw [hsame]; exact haddress, ?_⟩
        rw [hbits, if_pos ⟨rfl, rfl⟩]
        exact hvalue
  · next haddress =>
      constructor
      · intro hused
        have howner' : s.owner g' = some k' := by
          rw [← howner]
          exact hused.owner
        have haddress' := hused.address
        rw [hsame] at haddress'
        refine ⟨howner', hused.index, haddress', ?_⟩
        have hbit := hused.bit
        rw [hbits, if_neg] at hbit
        · exact hbit
        · intro ⟨hgg, hii⟩
          subst hgg hii
          rw [hg] at howner'
          cases howner'
          exact haddress haddress'
      · intro hused
        refine ⟨by rw [howner]; exact hused.owner, hused.index, by rw [hsame]; exact hused.address,
          ?_⟩
        rw [hbits, if_neg]
        · exact hused.bit
        · intro ⟨hgg, hii⟩
          subst hgg hii
          have howner' := hused.owner
          rw [hg] at howner'
          cases howner'
          exact haddress hused.address

/-- Changing one object of a group, its counters and its place keeps the invariant. -/
theorem SlabInv.set_bit (h : SlabInv s) (hg : s.owner g = some k) (hi : i < cacheNumber k)
    (hmap : group.map = bitmapSet (s.groups g).map i value)
    (hobjects : group.objects = (s.groups g).objects)
    (hcounted : group.usingCount = group.map.used (cacheNumber k))
    (htotal : group.usingCount + group.freeCount = cacheNumber k)
    (hsizes : c.objectSize = cacheSize k ∧ c.objectNumber = cacheNumber k)
    (hlists : Placed c.list (Function.update (s.placement k) g (some group.place)))
    (hrequest : request ≠ none ↔ value = true)
    (hfits : ∀ size, request = some size → size ≤ cacheSize k)
    (htable : t.memCacheTable = Function.update s.memCacheTable k c)
    (hgroups : t.groups = Function.update s.groups g group) (hnodes : t.nodes = s.nodes)
    (howner : t.owner = s.owner)
    (hlive : t.live =
      Function.update s.live ((s.groups g).objects + i * cacheSize k) request) :
    SlabInv t := by
  have hused := @SlabInv.used_at_set s t g k i value group h hg hi hmap hobjects hgroups howner
  refine ⟨?_, ?_, ?_, ?_, ?_, ?_⟩
  · intro l
    rw [htable]
    by_cases hlk : l = k
    · subst hlk
      rwa [Function.update_self]
    · rw [Function.update_of_ne hlk]
      exact h.sizes l
  · have hsame : (fun g => (t.groups g).objects) = fun g => (s.groups g).objects := by
      funext g'
      rw [hgroups]
      by_cases hgg : g' = g
      · subst hgg
        rw [Function.update_self, hobjects]
      · rw [Function.update_of_ne hgg]
    rw [hsame, hnodes, howner]
    exact h.layout
  · intro g' k' hg'
    rw [howner] at hg'
    rw [hgroups]
    by_cases hgg : g' = g
    · subst hgg
      rw [hg] at hg'
      cases hg'
      have hold := h.groups g' k hg
      have hcache := (h.layout.group g' k hg).cache
      rw [Function.update_self]
      refine ⟨?_, ?_, hcounted, htotal⟩
      · rw [hmap]
        exact hold.len
      · rw [hmap]
        refine hold.bytes.set ?_ value
        rw [hold.len]
        exact Nat.lt_of_lt_of_le hi (cache_number_le hcache)
    · rw [Function.update_of_ne hgg]
      exact h.groups g' k' hg'
  · intro l
    rw [htable]
    by_cases hlk : l = k
    · subst hlk
      have hplace : t.placement l = Function.update (s.placement l) g (some group.place) := by
        funext g'
        unfold MemCacheState.placement
        rw [howner, hgroups]
        by_cases hgg : g' = g
        · subst hgg
          simp [hg]
        · simp [hgg]
      rw [Function.update_self, hplace]
      exact hlists
    · have hplace : t.placement l = s.placement l := by
        funext g'
        unfold MemCacheState.placement
        rw [howner, hgroups]
        by_cases hgg : g' = g
        · subst hgg
          simp [hg, Ne.symm hlk]
        · simp [hgg]
      rw [Function.update_of_ne hlk, hplace]
      exact h.lists l
  · intro address
    rw [hlive]
    simp only [hused]
    by_cases haddress : address = (s.groups g).objects + i * cacheSize k
    · subst haddress
      simp [hrequest]
    · rw [Function.update_of_ne haddress]
      simpa [haddress] using h.live address
  · intro address size hsize g' k' i' hat
    rw [hlive] at hsize
    rw [hused] at hat
    by_cases haddress : address = (s.groups g).objects + i * cacheSize k
    · subst haddress
      rw [Function.update_self] at hsize
      rw [if_pos rfl] at hat
      obtain ⟨-, -, hkk, -⟩ := hat
      subst hkk
      exact hfits size hsize
    · rw [Function.update_of_ne haddress] at hsize
      rw [if_neg haddress] at hat
      exact h.requested address size hsize g' k' i' hat

end

/-! ## Allocation -/

/-- A group on a list of a cache was created for it, and is where its counters ask. -/
theorem SlabInv.listed {s : MemCacheState} (h : SlabInv s) {k g : Nat} {l : GroupList}
    (hg : g ∈ (s.memCacheTable k).list l) : s.owner g = some k ∧ (s.groups g).place = l := by
  have hplace := ((h.lists k l).2 g).mp hg
  unfold MemCacheState.placement at hplace
  split at hplace
  · next howner => exact ⟨howner, Option.some.inj hplace⟩
  · simp at hplace

/-- A group with a free object that has been put among the partial groups. -/
structure FoundGroup (s : MemCacheState) (k g : Nat) (c : MemCache) : Prop where
  owner : s.owner g = some k
  free : 0 < (s.groups g).freeCount
  sizes : c.objectSize = cacheSize k ∧ c.objectNumber = cacheNumber k
  lists : Placed c.list (Function.update (s.placement k) g (some .partialGroups))

/-- The group that the search finds has a free object. -/
theorem SlabInv.find_group {s : MemCacheState} (h : SlabInv s) {k g : Nat} {s' : MemCacheState}
    (hfind : s.findGroup k = some (s', g)) : ∃ c, s' = s.setCache k c ∧ FoundGroup s k g c := by
  simp only [MemCacheState.findGroup] at hfind
  split at hfind
  · next rest hhead =>
      obtain ⟨hstate, hgroup⟩ := Prod.mk.inj (Option.some.inj hfind)
      subst hgroup
      obtain ⟨howner, hplace⟩ := h.listed (hhead ▸ List.mem_cons_self)
      refine ⟨s.memCacheTable k, ?_, howner, ?_, h.sizes k, ?_⟩
      · rw [← hstate, MemCacheState.setCache, Function.update_eq_self]
      · unfold MemGroup.place at hplace
        split at hplace
        · cases hplace
        · omega
      · have hself : Function.update (s.placement k) _ (some .partialGroups) = s.placement k :=
          Function.update_eq_self_iff.mpr (by rw [MemCacheState.placement, if_pos howner, hplace])
        rw [hself]
        exact h.lists k
  · next rest hhead hfree =>
      obtain ⟨hstate, hgroup⟩ := Prod.mk.inj (Option.some.inj hfind)
      subst hgroup
      obtain ⟨howner, hplace⟩ := h.listed (hfree ▸ List.mem_cons_self)
      refine ⟨_, hstate.symm, howner, ?_, h.sizes k, (h.lists k).move _ .partialGroups⟩
      unfold MemGroup.place at hplace
      split at hplace
      · cases hplace
      · omega
  · cases hfind

/-- Taking an object of the group that the search has found. -/
theorem SlabInv.take {s : MemCacheState} (h : SlabInv s) {k g : Nat} {c : MemCache}
    (hfound : FoundGroup s k g c) :
    ∃ t object, (s.setCache k c).memGroupAllocObject k g = (t, object) ∧ object ≠ 0 ∧
      ∀ size ≤ cacheSize k, SlabInv (t.setLive object (some size)) := by
  have hgroup := h.groups g k hfound.owner
  have hlayout := h.layout.group g k hfound.owner
  have hlen := cache_number_le hlayout.cache
  have hfree := hfound.free
  have htotal := hgroup.total
  have hcounted := hgroup.counted
  -- a clear bit below the number of objects, so the scan stops at or before it
  obtain ⟨j, hj, hclear⟩ := exists_clear_of_used_lt (m := (s.groups g).map) (n := cacheNumber k)
    (by omega)
  obtain ⟨idx, hscan, hidx, hbit⟩ : ∃ idx, bitmapScan (s.groups g).map 1 = some idx ∧
      idx < cacheNumber k ∧ (s.groups g).map.bit idx = false := by
    rcases bitmap_scan_one hgroup.bytes with ⟨idx, hscan, -, hbit, hset⟩ | ⟨-, hset⟩
    · refine ⟨idx, hscan, ?_, hbit⟩
      by_contra hge
      rw [hset j (by omega)] at hclear
      cases hclear
    · rw [hset j (by rw [hgroup.len]; omega)] at hclear
      cases hclear
  have hused := used_bitmap_set (s.groups g).map hidx true
  rw [hbit] at hused
  simp only [Bool.toNat_false, Bool.toNat_true] at hused
  have hcount : (s.groups g).usingCount + 1 =
      (bitmapSet (s.groups g).map idx true).used (cacheNumber k) := by omega
  have hobject : (s.groups g).objects + idx * cacheSize k ≠ 0 := by
    have hobjects : (s.groups g).objects ≠ 0 := by
      by_cases hsmall : cacheSize k < 1024
      · have := hlayout.small hsmall
        omega
      · exact (hlayout.large hsmall).2
    omega
  have htable : (s.setCache k c).memCacheTable k = c := Function.update_self ..
  simp only [MemCacheState.memGroupAllocObject, htable, hfound.sizes.1]
  rw [show ((s.setCache k c).groups g) = s.groups g from rfl, hscan]
  simp only []
  split
  · next hfull =>
      refine ⟨_, _, rfl, hobject, ?_⟩
      intro size hsize
      refine @SlabInv.set_bit s _ g k idx true ⟨_, _, (s.groups g).usingCount + 1, _⟩
        ((c.listDel g).listAddTail g .fullGroups) (some size) h hfound.owner hidx rfl rfl hcount ?_
        hfound.sizes ?_ (by simp) (by simp [hsize]) ?_ rfl rfl rfl rfl
      · simp only
        omega
      · have hmoved := hfound.lists.move g .fullGroups
        rw [Function.update_idem] at hmoved
        unfold MemGroup.place
        rw [if_pos hfull]
        exact hmoved
      · exact Function.update_idem ..
  · next hfull =>
      refine ⟨_, _, rfl, hobject, ?_⟩
      intro size hsize
      refine @SlabInv.set_bit s _ g k idx true ⟨_, _, (s.groups g).usingCount + 1, _⟩
        c (some size) h hfound.owner hidx rfl rfl hcount ?_
        hfound.sizes ?_ (by simp) (by simp [hsize]) rfl rfl rfl rfl rfl
      · simp only
        omega
      · simpa [MemGroup.place, hfull] using hfound.lists

/-! ## The groups of a cache -/

section

variable {s t : MemCacheState} {k g : Nat}

/-- Changing who owns a group changes its place in the lists of that cache. -/
theorem placement_of_owner {owner : Option Nat} {group : MemGroup}
    (hgroups : t.groups = Function.update s.groups g group)
    (howner : t.owner = Function.update s.owner g owner) (l : Nat) :
    t.placement l =
      Function.update (s.placement l) g (if owner = some l then some group.place else none) := by
  funext g'
  unfold MemCacheState.placement
  rw [hgroups, howner]
  by_cases hgg : g' = g
  · subst hgg
    simp only [Function.update_self]
  · simp only [Function.update_of_ne hgg]

/-- A new group in fresh pages keeps the invariant. -/
theorem SlabInv.add_group (h : SlabInv s) (objects : Nat) {map : Bitmap}
    (hlayout : GroupLayout k g objects)
    (hfresh : ∀ g' k', s.owner g' = some k' → ∀ a ∈ pageSpans k g objects,
      ∀ b ∈ pageSpans k' g' (s.groups g').objects, a.Apart b)
    (hlen : map.btmpBytesLen = divRoundUp (cacheNumber k) 8)
    (htable : t.memCacheTable =
      Function.update s.memCacheTable k ((s.memCacheTable k).listAdd g .freeGroups))
    (hgroups : t.groups =
      Function.update s.groups g ⟨bitmapInit map, objects, 0, cacheNumber k⟩)
    (howner : t.owner = Function.update s.owner g (some k)) (hlive : t.live = s.live)
    (hmarked : ∀ node, (objectSpan k g objects).Holds node → t.nodes node = ⟨some k, some g⟩)
    (hkept : ∀ node, (∀ a ∈ pageSpans k g objects, ¬ a.Holds node) →
      t.nodes node = s.nodes node) : SlabInv t := by
  have hnone : s.owner g = none :=
    @not_owned s.owner (fun g => (s.groups g).objects) k g objects hfresh
  have hclear : ∀ i < cacheNumber k, (bitmapInit map).bit i = false := by
    intro i hi
    refine bit_bitmap_init ?_
    rw [hlen]
    exact Nat.lt_of_lt_of_le hi (cache_number_le hlayout.cache)
  have hused : ∀ address g' k' i, t.UsedAt address g' k' i ↔ s.UsedAt address g' k' i := by
    intro address g' k' i
    by_cases hgg : g' = g
    · subst hgg
      constructor
      · intro hat
        have howner' := hat.owner
        rw [howner, Function.update_self] at howner'
        cases howner'
        have hbit := hat.bit
        rw [hgroups, Function.update_self, hclear i hat.index] at hbit
        cases hbit
      · intro hat
        have howner' := hat.owner
        rw [hnone] at howner'
        cases howner'
    · constructor
      · intro hat
        obtain ⟨h1, h2, h3, h4⟩ := hat
        rw [howner, Function.update_of_ne hgg] at h1
        rw [hgroups, Function.update_of_ne hgg] at h3 h4
        exact ⟨h1, h2, h3, h4⟩
      · intro hat
        obtain ⟨h1, h2, h3, h4⟩ := hat
        refine ⟨?_, h2, ?_, ?_⟩
        · rw [howner, Function.update_of_ne hgg]
          exact h1
        · rw [hgroups, Function.update_of_ne hgg]
          exact h3
        · rw [hgroups, Function.update_of_ne hgg]
          exact h4
  refine ⟨?_, ?_, ?_, ?_, ?_, ?_⟩
  · intro l
    rw [htable]
    by_cases hlk : l = k
    · subst hlk
      rw [Function.update_self]
      exact h.sizes l
    · rw [Function.update_of_ne hlk]
      exact h.sizes l
  · have hobjects : (fun g => (t.groups g).objects) =
        Function.update (fun g => (s.groups g).objects) g objects := by
      funext g'
      rw [hgroups]
      by_cases hgg : g' = g
      · subst hgg
        simp only [Function.update_self]
      · simp only [Function.update_of_ne hgg]
    rw [hobjects, howner]
    exact h.layout.create hlayout hfresh hmarked hkept
  · intro g' k' hg'
    rw [howner] at hg'
    rw [hgroups]
    by_cases hgg : g' = g
    · subst hgg
      rw [Function.update_self] at hg' ⊢
      cases hg'
      exact ⟨hlen, bytes_bitmap_init map, (used_eq_zero.mpr hclear).symm, Nat.zero_add _⟩
    · rw [Function.update_of_ne hgg] at hg' ⊢
      exact h.groups g' k' hg'
  · intro l
    rw [htable, placement_of_owner hgroups howner]
    by_cases hlk : l = k
    · subst hlk
      have hplace : MemGroup.place ⟨bitmapInit map, objects, 0, cacheNumber l⟩ = .freeGroups := by
        have hpos := cache_number_pos hlayout.cache
        unfold MemGroup.place
        rw [if_neg (Nat.ne_of_gt hpos), if_pos rfl]
      rw [Function.update_self, if_pos rfl, hplace]
      exact (h.lists l).add (by simp [MemCacheState.placement, hnone]) .freeGroups
    · have hself : Function.update (s.placement l) g none = s.placement l :=
        Function.update_eq_self_iff.mpr (by simp [MemCacheState.placement, hnone])
      rw [Function.update_of_ne hlk, if_neg (by simpa using Ne.symm hlk), hself]
      exact h.lists l
  · intro address
    rw [hlive]
    simpa only [hused] using h.live address
  · intro address size hsize g' k' i hat
    rw [hlive] at hsize
    exact h.requested address size hsize g' k' i ((hused ..).mp hat)

/-- Destroying a group without used objects keeps the invariant. -/
theorem SlabInv.remove_group (h : SlabInv s) (hg : s.owner g = some k)
    (hunused : (s.groups g).usingCount = 0)
    (htable : t.memCacheTable =
      Function.update s.memCacheTable k ((s.memCacheTable k).listDel g))
    (hgroups : t.groups = s.groups) (howner : t.owner = Function.update s.owner g none)
    (hlive : t.live = s.live)
    (hkept : ∀ node, (∀ a ∈ pageSpans k g (s.groups g).objects, ¬ a.Holds node) →
      t.nodes node = s.nodes node) : SlabInv t := by
  have hclear : ∀ i < cacheNumber k, (s.groups g).map.bit i = false := by
    rw [(h.groups g k hg).counted] at hunused
    exact used_eq_zero.mp hunused
  have hother : ∀ g' k', t.owner g' = some k' → g' ≠ g ∧ s.owner g' = some k' := by
    intro g' k' hg'
    rw [howner] at hg'
    by_cases hgg : g' = g
    · subst hgg
      simp at hg'
    · rw [Function.update_of_ne hgg] at hg'
      exact ⟨hgg, hg'⟩
  have hused : ∀ address g' k' i, t.UsedAt address g' k' i ↔ s.UsedAt address g' k' i := by
    intro address g' k' i
    constructor
    · intro hat
      obtain ⟨h1, h2, h3, h4⟩ := hat
      rw [hgroups] at h3 h4
      exact ⟨(hother g' k' h1).2, h2, h3, h4⟩
    · intro hat
      obtain ⟨h1, h2, h3, h4⟩ := hat
      have hne : g' ≠ g := by
        intro hgg
        subst hgg
        rw [hg] at h1
        cases h1
        rw [hclear i h2] at h4
        cases h4
      refine ⟨?_, h2, by rw [hgroups]; exact h3, by rw [hgroups]; exact h4⟩
      rw [howner, Function.update_of_ne hne]
      exact h1
  have hplace : ∀ l, t.placement l = Function.update (s.placement l) g none := by
    intro l
    have hupdate : t.groups = Function.update s.groups g (s.groups g) := by
      rw [Function.update_eq_self]
      exact hgroups
    rw [placement_of_owner hupdate howner, if_neg (by simp)]
  refine ⟨?_, ?_, ?_, ?_, ?_, ?_⟩
  · intro l
    rw [htable]
    by_cases hlk : l = k
    · subst hlk
      rw [Function.update_self]
      exact h.sizes l
    · rw [Function.update_of_ne hlk]
      exact h.sizes l
  · rw [howner, hgroups]
    exact h.layout.destroy hg hkept
  · intro g' k' hg'
    rw [hgroups]
    exact h.groups g' k' (hother g' k' hg').2
  · intro l
    rw [htable, hplace]
    by_cases hlk : l = k
    · subst hlk
      rw [Function.update_self]
      exact (h.lists l).del g
    · have hself : Function.update (s.placement l) g none = s.placement l :=
        Function.update_eq_self_iff.mpr (by simp [MemCacheState.placement, hg, Ne.symm hlk])
      rw [Function.update_of_ne hlk, hself]
      exact h.lists l
  · intro address
    rw [hlive]
    simpa only [hused] using h.live address
  · intro address size hsize g' k' i hat
    rw [hlive] at hsize
    exact h.requested address size hsize g' k' i ((hused ..).mp hat)

end

/-- What `CreateMemGroup` does: nothing when it gets no page, or a new free group. -/
theorem SlabInv.create_mem_group {s : MemCacheState} (h : SlabInv s) {k : Nat} {pages : GroupPages}
    (hk : k < cacheSizes.length) (hfresh : PagesFresh s k pages) :
    s.createMemGroup k pages = (s, false) ∨
      ∃ t, s.createMemGroup k pages = (t, true) ∧ SlabInv t ∧
        (t.memCacheTable k).list .freeGroups ≠ [] := by
  by_cases hnull : pages.group = 0
  · exact .inl (by simp only [MemCacheState.createMemGroup, if_pos hnull])
  · obtain ⟨haligned, hobjects, -, hapart⟩ := hfresh hnull
    obtain ⟨hsize, hnumber⟩ := h.sizes k
    simp only [MemCacheState.createMemGroup, if_neg hnull, hsize, hnumber]
    by_cases hsmall : cacheSize k < 1024
    · refine .inr ⟨_, if_pos hsmall, ?_, ?_⟩
      · have hsame : ∀ o o', pageSpans k pages.group o = pageSpans k pages.group o' := by
          intro o o'
          simp only [pageSpans, if_pos hsmall]
        refine h.add_group (pages.group + sizeofMemGroup + 16)
          ⟨hk, haligned, fun _ => rfl, fun hlarge => absurd hsmall hlarge⟩ ?_ rfl rfl rfl rfl rfl
          ?_ ?_
        · rw [hsame _ pages.objects]
          exact hapart
        · intro node hnode
          simp only [objectSpan, if_pos hsmall] at hnode
          exact if_pos hnode
        · intro node hnode
          have hout : ¬ (⟨pages.group / pageSize, 1⟩ : Span).Holds node :=
            hnode _ List.mem_cons_self
          have hne : node ≠ pages.group / pageSize := by
            intro heq
            exact hout ⟨Nat.le_of_eq heq.symm, by simp only [Span.stop]; omega⟩
          refine (if_neg hout).trans ?_
          exact Function.update_of_ne hne ..
      · simp [MemCacheState.setGroup, MemCacheState.markNodes, MemCacheState.setCache,
          MemCache.listAdd]
    · obtain ⟨hnonzero, hstart⟩ := hobjects hsmall
      refine .inr ⟨_, (if_neg hsmall).trans (if_neg hnonzero), ?_, ?_⟩
      · refine h.add_group pages.objects
          ⟨hk, haligned, fun h => absurd h hsmall, fun _ => ⟨hstart, hnonzero⟩⟩ hapart rfl rfl rfl
          rfl rfl ?_ ?_
        · intro node hnode
          simp only [objectSpan, if_neg hsmall] at hnode
          exact if_pos hnode
        · intro node hnode
          simp only [pageSpans, if_neg hsmall] at hnode
          have hout : ¬ (⟨pages.group / pageSize, 1⟩ : Span).Holds node :=
            hnode _ (by simp)
          have hout' : ¬ (⟨pages.objects / pageSize, cachePages k⟩ : Span).Holds node :=
            hnode _ (by simp)
          have hpages := cache_pages_pos hk hsmall
          have hne : node ≠ pages.group / pageSize := by
            intro heq
            exact hout ⟨Nat.le_of_eq heq.symm, by simp only [Span.stop]; omega⟩
          have hne' : node ≠ pages.objects / pageSize := by
            intro heq
            exact hout' ⟨Nat.le_of_eq heq.symm, by simp only [Span.stop]; omega⟩
          refine (if_neg hout').trans ?_
          refine (Function.update_of_ne hne' ..).trans ?_
          exact Function.update_of_ne hne ..
      · simp [MemCacheState.setGroup, MemCacheState.markNodes, MemCacheState.setCache,
          MemCacheState.clearNode, MemCacheState.setNode, MemCache.listAdd]

/-- What an allocation from a cache does. A refused one changes nothing. -/
theorem SlabInv.group_alloc_object {s : MemCacheState} (h : SlabInv s) {k : Nat}
    {pages : GroupPages} (hk : k < cacheSizes.length)
    (hfresh : s.findGroup k = none → PagesFresh s k pages) :
    s.groupAllocObject k pages = (s, 0) ∨
      ∃ t object, s.groupAllocObject k pages = (t, object) ∧ object ≠ 0 ∧
        ∀ size ≤ cacheSize k, SlabInv (t.setLive object (some size)) := by
  unfold MemCacheState.groupAllocObject
  cases hfind : s.findGroup k with
  | some found =>
      obtain ⟨c, hstate, hfound⟩ := h.find_group hfind
      simp only [hstate]
      exact .inr (h.take hfound)
  | none =>
      rcases h.create_mem_group hk (hfresh hfind) with hcreate | ⟨t, hcreate, ht, hfree⟩
      · simp [hcreate]
      · simp only [hcreate, if_true]
        -- the new group is on the free list
        cases hagain : t.findGroup k with
        | some found =>
            obtain ⟨c, hstate, hfound⟩ := ht.find_group hagain
            simp only [hstate]
            exact .inr (ht.take hfound)
        | none =>
            simp only [MemCacheState.findGroup] at hagain
            split at hagain
            · cases hagain
            · cases hagain
            · next hempty => exact absurd hempty hfree

/-! ## Freeing -/

/-- Freeing a live object succeeds and keeps the invariant. -/
theorem SlabInv.kfree {s : MemCacheState} (h : SlabInv s) {object : Nat}
    (hlive : s.live object ≠ none) :
    ∃ t, s.kfree object = some t ∧ SlabInv (t.setLive object none) := by
  obtain ⟨g, k, i, hat⟩ := (h.live object).mp hlive
  have hlayout := h.layout.group g k hat.owner
  have hgroup := h.groups g k hat.owner
  have hfind : s.nodes (object / pageSize) = ⟨some k, some g⟩ := by
    rw [hat.address]
    exact h.layout.find hat.owner (object_address_in_area hlayout.cache hat.index)
  have hpos := cache_size_pos hlayout.cache
  have hlen := cache_number_le hlayout.cache
  have hobjects : (s.groups g).objects ≠ 0 := by
    by_cases hsmall : cacheSize k < 1024
    · have := hlayout.small hsmall
      omega
    · exact (hlayout.large hsmall).2
  have hle : (s.groups g).objects ≤ object := by
    rw [hat.address]
    exact Nat.le_add_right ..
  have hindex : (object - (s.groups g).objects) / cacheSize k = i := by
    rw [hat.address, Nat.add_sub_cancel_left]
    exact Nat.mul_div_cancel _ hpos
  have hused := used_bitmap_set (s.groups g).map hat.index false
  rw [hat.bit] at hused
  simp only [Bool.toNat_false, Bool.toNat_true, Nat.add_zero] at hused
  have hcounted := hgroup.counted
  have htotal := hgroup.total
  have hcount : (s.groups g).usingCount - 1 =
      (bitmapSet (s.groups g).map i false).used (cacheNumber k) := by omega
  have hplaced : s.placement k g = some (s.groups g).place := by
    rw [MemCacheState.placement, if_pos hat.owner]
  have hnull : object ≠ 0 := by omega
  have hrange : ¬ (object < (s.groups g).objects ∨ i > (s.groups g).map.btmpBytesLen * 8) := by
    have hidx := hat.index
    rw [hgroup.len]
    omega
  have hmoved := fun l => (h.lists k).move g l
  simp only [MemCacheState.kfree, if_neg hnull, hfind, MemCacheState.groupFreeObject,
    (h.sizes k).1, (h.sizes k).2, hindex, if_neg hrange]
  split
  · next hunused =>
      refine ⟨_, rfl, ?_⟩
      refine @SlabInv.set_bit s _ g k i false ⟨_, _, (s.groups g).usingCount - 1, _⟩
        (((s.memCacheTable k).listDel g).listAddTail g .freeGroups) none h hat.owner hat.index rfl
        rfl hcount ?_ (h.sizes k) ?_ (by simp) (by simp) rfl rfl rfl rfl ?_
      · simp only
        omega
      · unfold MemGroup.place
        rw [if_neg (Nat.succ_ne_zero _), if_pos hunused]
        exact hmoved .freeGroups
      · exact congrArg (Function.update s.live · none) hat.address
  · next hunused =>
      split
      · next hfull =>
          refine ⟨_, rfl, ?_⟩
          refine @SlabInv.set_bit s _ g k i false ⟨_, _, (s.groups g).usingCount - 1, _⟩
            (((s.memCacheTable k).listDel g).listAddTail g .partialGroups) none h hat.owner
            hat.index rfl rfl hcount ?_ (h.sizes k) ?_ (by simp) (by simp) rfl rfl rfl rfl ?_
          · simp only
            omega
          · unfold MemGroup.place
            rw [if_neg (Nat.succ_ne_zero _), if_neg hunused]
            exact hmoved .partialGroups
          · exact congrArg (Function.update s.live · none) hat.address
      · next hfull =>
          refine ⟨_, rfl, ?_⟩
          refine @SlabInv.set_bit s _ g k i false ⟨_, _, (s.groups g).usingCount - 1, _⟩
            (s.memCacheTable k) none h hat.owner hat.index rfl rfl hcount ?_ (h.sizes k) ?_
            (by simp) (by simp) ?_ rfl rfl rfl ?_
          · simp only
            omega
          · -- the group was and stays a partial one
            have hsame : (s.groups g).place = .partialGroups := by
              unfold MemGroup.place
              rw [if_neg (by omega), if_neg (by omega)]
            have hself : Function.update (s.placement k) g (some .partialGroups) =
                s.placement k := Function.update_eq_self_iff.mpr (by rw [hplaced, hsame])
            unfold MemGroup.place
            rw [if_neg (Nat.succ_ne_zero _), if_neg hunused, hself]
            exact h.lists k
          · exact (Function.update_eq_self ..).symm
          · exact congrArg (Function.update s.live · none) hat.address

/-! ## Shrinking -/

/-- Freeing pages clears the node of the first one, or none. -/
theorem mem_cache_free_pages_nodes (s : MemCacheState) (address : Nat) {node : Nat}
    (hnode : node ≠ address / pageSize) :
    (s.memCacheFreePages address).1.nodes node = s.nodes node := by
  unfold MemCacheState.memCacheFreePages
  split
  · rfl
  · exact Function.update_of_ne hnode ..

/-- Freeing pages changes nothing but the nodes. -/
theorem mem_cache_free_pages_state (s : MemCacheState) (address : Nat) :
    ∃ nodes, (s.memCacheFreePages address).1 = { s with nodes := nodes } := by
  unfold MemCacheState.memCacheFreePages
  split
  · exact ⟨_, rfl⟩
  · exact ⟨_, rfl⟩

/-- What `GroupDestory` leaves, whether or not the pages can be freed. -/
theorem group_destory_state (s : MemCacheState) (k g : Nat) :
    ∃ nodes, (s.groupDestory k g).1 =
      { s with
        memCacheTable := Function.update s.memCacheTable k ((s.memCacheTable k).listDel g)
        owner := Function.update s.owner g none
        nodes := nodes } := by
  have htwo : ∀ (r : MemCacheState) (a b : Nat), ∃ nodes,
      ((r.memCacheFreePages a).1.memCacheFreePages b).1 = { r with nodes := nodes } := by
    intro r a b
    obtain ⟨nodes, hfirst⟩ := mem_cache_free_pages_state r a
    obtain ⟨nodes', hsecond⟩ := mem_cache_free_pages_state { r with nodes := nodes } b
    exact ⟨nodes', by rw [hfirst, hsecond]⟩
  unfold MemCacheState.groupDestory
  simp only []
  split
  · exact mem_cache_free_pages_state ..
  · split
    · exact htwo ..
    · exact mem_cache_free_pages_state ..

/-- `GroupDestory` clears no node outside the pages of the group. -/
theorem group_destory_nodes (s : MemCacheState) {k g : Nat}
    (hk : k < cacheSizes.length) (hsize : (s.memCacheTable k).objectSize = cacheSize k) {node : Nat}
    (hnode : ∀ a ∈ pageSpans k g (s.groups g).objects, ¬ a.Holds node) :
    (s.groupDestory k g).1.nodes node = s.nodes node := by
  have hgroup : node ≠ g / pageSize := by
    intro heq
    refine hnode ⟨g / pageSize, 1⟩ List.mem_cons_self ⟨Nat.le_of_eq heq.symm, ?_⟩
    simp only [Span.stop]
    omega
  unfold MemCacheState.groupDestory
  simp only [hsize]
  by_cases hsmall : cacheSize k < 1024
  · rw [if_pos hsmall, mem_cache_free_pages_nodes _ _ hgroup]
    rfl
  · have hobjects : node ≠ (s.groups g).objects / pageSize := by
      intro heq
      refine hnode ⟨(s.groups g).objects / pageSize, cachePages k⟩ ?_ ⟨Nat.le_of_eq heq.symm, ?_⟩
      · simp [pageSpans, hsmall]
      · have hpos := cache_pages_pos hk hsmall
        simp only [Span.stop]
        omega
    rw [if_neg hsmall]
    split
    · exact (mem_cache_free_pages_nodes _ _ hgroup).trans (mem_cache_free_pages_nodes _ _ hobjects)
    · exact mem_cache_free_pages_nodes _ _ hobjects

/-- Destroying a free group keeps the invariant and the places of the others. -/
theorem SlabInv.group_destory {s : MemCacheState} (h : SlabInv s) {k g : Nat}
    (hfree : s.placement k g = some .freeGroups) :
    SlabInv (s.groupDestory k g).1 ∧
      ∀ g' ≠ g, (s.groupDestory k g).1.placement k g' = s.placement k g' := by
  have howner : s.owner g = some k ∧ (s.groups g).place = .freeGroups :=
    h.listed (((h.lists k .freeGroups).2 g).mpr hfree)
  have hunused : (s.groups g).usingCount = 0 := by
    have hplace := howner.2
    unfold MemGroup.place at hplace
    split at hplace
    · cases hplace
    · split at hplace
      · assumption
      · cases hplace
  have hcache := (h.layout.group g k howner.1).cache
  have hnodes : ∀ node, (∀ a ∈ pageSpans k g (s.groups g).objects, ¬ a.Holds node) →
      (s.groupDestory k g).1.nodes node = s.nodes node :=
    fun node hnode => group_destory_nodes s hcache (h.sizes k).1 hnode
  obtain ⟨nodes, hstate⟩ := group_destory_state s k g
  rw [hstate] at hnodes ⊢
  refine ⟨h.remove_group howner.1 hunused rfl rfl rfl rfl hnodes, ?_⟩
  intro g' hne
  simp only [MemCacheState.placement, Function.update_of_ne hne]

/-- Destroying free groups keeps the invariant. -/
theorem SlabInv.shrink_groups {s : MemCacheState} (h : SlabInv s) {k : Nat} {rest : List Nat}
    (hnodup : rest.Nodup) (hfree : ∀ g ∈ rest, s.placement k g = some .freeGroups) (ret : Nat) :
    SlabInv (MemCacheState.shrinkGroups k rest s ret).1 := by
  induction rest generalizing s ret with
  | nil => exact h
  | cons g rest ih =>
      obtain ⟨hg, hrest⟩ := List.nodup_cons.mp hnodup
      obtain ⟨hinv, hplaces⟩ := h.group_destory (hfree g List.mem_cons_self)
      refine ih hinv hrest ?_ _
      intro g' hg'
      have hne : g' ≠ g := by
        intro heq
        exact hg (heq ▸ hg')
      rw [hplaces g' hne]
      exact hfree g' (List.mem_cons_of_mem g hg')

/-- `MemCacheShrink` keeps the invariant. -/
theorem SlabInv.mem_cache_shrink {s : MemCacheState} (h : SlabInv s) (k : Nat) :
    SlabInv (s.memCacheShrink k).1 := by
  obtain ⟨hnodup, hmem⟩ := h.lists k .freeGroups
  exact h.shrink_groups hnodup (fun g hg => (hmem g).mp hg) 0

/-- Shrinking caches one after the other keeps the invariant. -/
theorem SlabInv.shrink_caches {s : MemCacheState} (h : SlabInv s) (caches : List Nat)
    (size : Nat) : SlabInv (MemCacheState.shrinkCaches caches s size).1 := by
  induction caches generalizing s size with
  | nil => exact h
  | cons k rest ih => exact ih (h.mem_cache_shrink k) _

/-! ## Runs -/

/-- Every call keeps the invariant. -/
theorem SlabInv.step {s t : MemCacheState} (h : SlabInv s) {op : HeapOp} (hguard : heapGuard s op)
    (hstep : heapStep s op = some t) : SlabInv t := by
  cases op with
  | kmalloc size pages =>
      cases Option.some.inj hstep
      unfold MemCacheState.kmalloc
      by_cases hlarge : size > maxMemCacheSize
      · simpa [if_pos hlarge] using h
      · have hle : size ≤ maxMemCacheSize := Nat.le_of_not_gt hlarge
        obtain ⟨hk, hfits⟩ := cache_index_spec hle
        rw [if_neg hlarge]
        rcases h.group_alloc_object hk (hguard hle) with halloc | ⟨t, object, halloc, hne, ht⟩
        · simpa [halloc] using h
        · simpa [halloc, hne] using ht size hfits
  | kfree object =>
      simp only [heapStep] at hstep
      split at hstep
      · next hlive =>
          obtain ⟨t', hfree, ht'⟩ := h.kfree (Option.isSome_iff_ne_none.mp hlive)
          rw [hfree] at hstep
          cases Option.some.inj hstep
          exact ht'
      · cases hstep
  | memCacheShrink k =>
      cases Option.some.inj hstep
      exact h.mem_cache_shrink k
  | kmshrink =>
      cases Option.some.inj hstep
      exact h.shrink_caches _ 0

/-- The state that `MakeMemCaches` leaves meets the invariant. -/
theorem slab_inv_init (nodes : Nat → NodeMark) (groups : Nat → MemGroup) :
    SlabInv (MemCacheState.init nodes groups) := by
  have hnone : ∀ {address g k i : Nat},
      ¬ (MemCacheState.init nodes groups).UsedAt address g k i := by
    intro address g k i hat
    exact nomatch hat.owner
  refine ⟨fun k => ⟨rfl, rfl⟩, ⟨nofun, nofun, nofun⟩, nofun, ?_, ?_, ?_⟩
  · intro k l
    refine ⟨List.nodup_nil, ?_⟩
    intro g
    simp [MemCacheState.init, MemCacheState.placement, memCacheInit]
  · intro address
    constructor
    · intro hlive
      exact absurd rfl hlive
    · intro ⟨g, k, i, hat⟩
      exact absurd hat hnone
  · intro address size hsize
    cases hsize

namespace MemCacheState

/-- The counters of every group agree with its bitmap. -/
def CountersAgree (s : MemCacheState) : Prop :=
  ∀ g k, s.owner g = some k →
    (s.groups g).usingCount = (s.groups g).map.used (s.memCacheTable k).objectNumber ∧
    (s.groups g).usingCount + (s.groups g).freeCount = (s.memCacheTable k).objectNumber

/-- Every group is once in one list of its cache, the one that its counters ask for, and the lists
have no other members. -/
def ListsAgree (s : MemCacheState) : Prop :=
  (∀ k l g, g ∈ (s.memCacheTable k).list l → s.owner g = some k) ∧
  ∀ g k, s.owner g = some k →
    (∃! l, g ∈ (s.memCacheTable k).list l) ∧
    (∀ l, ((s.memCacheTable k).list l).Nodup) ∧
    (g ∈ (s.memCacheTable k).list .fullGroups ↔ (s.groups g).freeCount = 0) ∧
    (g ∈ (s.memCacheTable k).list .freeGroups ↔ (s.groups g).usingCount = 0) ∧
    (g ∈ (s.memCacheTable k).list .partialGroups ↔
      (s.groups g).freeCount ≠ 0 ∧ (s.groups g).usingCount ≠ 0)

/-- The memory of an object of a cache. -/
def objectRange (s : MemCacheState) (object k : Nat) : Span :=
  ⟨object, (s.memCacheTable k).objectSize⟩

/-- The memory of the objects of a group. -/
def groupArea (s : MemCacheState) (g k : Nat) : Span :=
  ⟨(s.groups g).objects, (s.memCacheTable k).objectNumber * (s.memCacheTable k).objectSize⟩

/-- The group and the cache that the back pointers of an object's page name. -/
def pointsTo (s : MemCacheState) (object g k : Nat) : Prop :=
  s.nodes (object / pageSize) = ⟨some k, some g⟩ ∧ s.owner g = some k

/-- Every live object is as large as asked for and inside the object area of its group, and the
live objects are apart. -/
def ObjectsApart (s : MemCacheState) : Prop :=
  (∀ object size, s.live object = some size → ∃ g k, s.pointsTo object g k ∧
    size ≤ (s.objectRange object k).len ∧
    (s.groupArea g k).start ≤ object ∧ (s.objectRange object k).stop ≤ (s.groupArea g k).stop) ∧
  ∀ a b, s.live a ≠ none → s.live b ≠ none → a ≠ b → ∀ g k h l, s.pointsTo a g k →
    s.pointsTo b h l → (s.objectRange a k).Apart (s.objectRange b l)

end MemCacheState

theorem SlabInv.counters {s : MemCacheState} (h : SlabInv s) : s.CountersAgree := by
  intro g k hg
  have hgroup := h.groups g k hg
  rw [(h.sizes k).2]
  exact ⟨hgroup.counted, hgroup.total⟩

theorem SlabInv.lists_agree {s : MemCacheState} (h : SlabInv s) : s.ListsAgree := by
  refine ⟨fun k l g hg => (h.listed hg).1, ?_⟩
  intro g k hg
  have hgroup := h.groups g k hg
  have hpos := cache_number_pos (h.layout.group g k hg).cache
  have htotal := hgroup.total
  have hmem : ∀ l, g ∈ (s.memCacheTable k).list l ↔ (s.groups g).place = l := by
    intro l
    rw [(h.lists k l).2 g, MemCacheState.placement, if_pos hg]
    exact Option.some_inj
  refine ⟨⟨(s.groups g).place, (hmem _).mpr rfl, ?_⟩, fun l => (h.lists k l).1, ?_, ?_, ?_⟩
  · intro l hl
    exact ((hmem l).mp hl).symm
  · rw [hmem]
    unfold MemGroup.place
    split <;> simp_all
    split <;> simp
  · rw [hmem]
    unfold MemGroup.place
    split
    · next hfull =>
        rw [hfull] at htotal
        simp
        omega
    · split <;> simp_all
  · rw [hmem]
    unfold MemGroup.place
    split
    · simp_all
    · split <;> simp_all

theorem SlabInv.objects_apart {s : MemCacheState} (h : SlabInv s) : s.ObjectsApart := by
  have hfind : ∀ {object g k i : Nat}, s.UsedAt object g k i → s.pointsTo object g k := by
    intro object g k i hat
    refine ⟨?_, hat.owner⟩
    rw [hat.address]
    exact h.layout.find hat.owner
      (object_address_in_area (h.layout.group g k hat.owner).cache hat.index)
  refine ⟨?_, ?_⟩
  · intro object size hsize
    obtain ⟨g, k, i, hat⟩ := (h.live object).mp (by rw [hsize]; simp)
    obtain ⟨hstart, hstop⟩ := @object_in_area k (s.groups g).objects i hat.index
    refine ⟨g, k, hfind hat, ?_, ?_, ?_⟩
    · exact (h.requested object size hsize g k i hat).trans_eq (h.sizes k).1.symm
    · rw [hat.address]
      exact hstart
    · simp only [MemCacheState.objectRange, MemCacheState.groupArea, Span.stop, (h.sizes k).1,
        (h.sizes k).2, hat.address]
      exact hstop
  · intro a b ha hb hne g k g' k' hat hbt
    obtain ⟨g₁, k₁, i, hused⟩ := (h.live a).mp ha
    obtain ⟨g₂, k₂, j, hused'⟩ := (h.live b).mp hb
    obtain ⟨hk₁, hg₁⟩ := NodeMark.mk.inj ((hfind hused).1.symm.trans hat.1)
    obtain ⟨hk₂, hg₂⟩ := NodeMark.mk.inj ((hfind hused').1.symm.trans hbt.1)
    cases Option.some.inj hk₁
    cases Option.some.inj hg₁
    cases Option.some.inj hk₂
    cases Option.some.inj hg₂
    have hpos := cache_size_pos (h.layout.group g k hused.owner).cache
    obtain ⟨hstart, hstop⟩ := @object_in_area k (s.groups g).objects i hused.index
    obtain ⟨hstart', hstop'⟩ := @object_in_area k' (s.groups g').objects j hused'.index
    simp only [Span.Apart, MemCacheState.objectRange, Span.stop, (h.sizes k).1, (h.sizes k').1]
    have hunique : ¬ (a + cacheSize k ≤ b ∨ b + cacheSize k' ≤ a) → g = g' ∧ k = k' := by
      intro hoverlap
      rcases Nat.le_total a b with hab | hba
      · have hin : (objectArea k (s.groups g).objects).Holds b := by
          rw [hused.address] at hab hoverlap
          exact ⟨Nat.le_trans hstart hab, by omega⟩
        refine h.layout.group_unique hused.owner hused'.owner hin ?_
        rw [hused'.address]
        exact object_address_in_area (h.layout.group g' k' hused'.owner).cache hused'.index
      · have hin : (objectArea k' (s.groups g').objects).Holds a := by
          rw [hused'.address] at hba hoverlap
          exact ⟨Nat.le_trans hstart' hba, by omega⟩
        refine h.layout.group_unique hused.owner hused'.owner ?_ hin
        rw [hused.address]
        exact object_address_in_area (h.layout.group g k hused.owner).cache hused.index
    by_contra hoverlap
    obtain ⟨hgg, hkk⟩ := hunique hoverlap
    subst hgg hkk
    -- two objects of one group are apart when their indices differ
    rcases Nat.lt_trichotomy i j with hij | hij | hij
    · have hmul := Nat.mul_le_mul_right (cacheSize k) (Nat.succ_le_of_lt hij)
      rw [Nat.succ_mul] at hmul
      have ha' := hused.address
      have hb' := hused'.address
      omega
    · subst hij
      exact hne (hused.address.trans hused'.address.symm)
    · have hmul := Nat.mul_le_mul_right (cacheSize k) (Nat.succ_le_of_lt hij)
      rw [Nat.succ_mul] at hmul
      have ha' := hused.address
      have hb' := hused'.address
      omega

/-- Two small objects from a new group, the first of them freed, and a shrink. -/
def heapCalls : List HeapOp :=
  [.kmalloc 100 ⟨0x1000, 0, fun _ => 0⟩, .kmalloc 128 ⟨0, 0, fun _ => 0⟩, .kfree 0x1030, .kmshrink]

end XBook
