import XBook.Mm.MunmapFrame

/-!
# Setting the break

What `SysBrk` should do: it sets the break, and the heap spaces then cover exactly the pages from
`brkStart` to the new break, or it refuses for a reason and changes nothing. Two things stand in
the way. Giving back the whole of a space that is not the first in the list also drops the spaces
before it, since `DoMunmap` has no pointer to the one in front; and `DoBrk` begins with a
`DoMunmap` of the new range, which fails where no space lies above the heap. `sys_brk_iff` says
exactly when the break is set or refused as it should be.
-/

namespace XBook

/-- `VMS_HEAP` is set. -/
def VMSpace.heap (s : VMSpace) : Bool := s.flags.testBit 1

/-- The address lies in a heap space. -/
def HeapHolds (spaces : List VMSpace) (address : Nat) : Prop :=
  ∃ s ∈ spaces, s.heap ∧ s.Holds address

/-- The spaces that are no heap spaces. -/
def otherSpaces (spaces : List VMSpace) : List VMSpace := spaces.filter fun s => !s.heap

/-- A process whose heap lies between `brkStart` and its break. Loading a program and `SysBrk` set
the bounds. -/
structure HeapInv (mm : MemoryManager) : Prop where
  spaces : WellFormed mm.spaceMap
  holds : ∀ address, HeapHolds mm.spaceMap address ↔
    mm.brkStart ≤ address ∧ address < pageAlign mm.brk
  start : mm.brkStart ≤ userVmSize
  low : mm.brkStart ≤ mm.brk
  high : mm.brk ≤ mm.brkStart + maxVmsHeapSize

/-- A space overlaps or touches the range by which the heap should grow. -/
def MeetsSpace (mm : MemoryManager) (brk : Nat) : Prop :=
  ∃ t ∈ mm.spaceMap, pageAlign mm.brk < t.stop ∧ t.start ≤ pageAlign brk

/-- The `kmalloc` that the request may need fails. -/
def Exhausted (mm : MemoryManager) (brk : Nat) (kmallocCut kmalloc : Option VMSpace) : Prop :=
  if brk ≤ mm.brk then kmallocCut = none else kmalloc = none

/-- What `SysBrk` should leave. -/
structure BrkRight (mm : MemoryManager) (brk : Nat) (kmallocCut kmalloc : Option VMSpace)
    (mm' : MemoryManager) : Prop where
  heap : mm'.brk = brk → ∀ address, HeapHolds mm'.spaceMap address ↔
    mm.brkStart ≤ address ∧ address < pageAlign brk
  others : mm'.brk = brk → otherSpaces mm'.spaceMap = otherSpaces mm.spaceMap
  kept : mm'.brk ≠ brk → mm'.brk = mm.brk ∧ mm'.spaceMap = mm.spaceMap
  reason : mm'.brk ≠ brk → brk < mm.brkStart ∨ brk > mm.brkStart + maxVmsHeapSize ∨
    MeetsSpace mm brk ∨ Exhausted mm brk kmallocCut kmalloc

/-- The range that is given back ends one space in user memory, and it is not the whole of a space
that has another in front of it. -/
def ShrinksCleanly (mm : MemoryManager) (brk : Nat) : Prop :=
  ∀ c, findVMSpace mm.spaceMap (pageAlign brk) = some c → pageAlign mm.brk ≤ c.space.stop ∧
    pageAlign mm.brk ≤ userVmSize ∧ (c.space.start = pageAlign brk → c.before = [])

/-- The heap stays in user memory, and some space lies above it. -/
def HasRoom (mm : MemoryManager) (brk : Nat) : Prop :=
  pageAlign brk ≤ userVmSize ∧ ∃ t ∈ mm.spaceMap, pageAlign mm.brk < t.stop

/-- The requests that are set or refused as they should be. -/
def BrkHandled (mm : MemoryManager) (brk : Nat) (kmallocCut kmalloc : Option VMSpace) : Prop :=
  brk < mm.brkStart ∨ pageAlign brk = pageAlign mm.brk ∨
    if brk ≤ mm.brk then kmallocCut = none ∨ ShrinksCleanly mm brk
    else brk > mm.brkStart + maxVmsHeapSize ∨ MeetsSpace mm brk ∨ kmalloc = none ∨ HasRoom mm brk

/-! ## Heap spaces and the others -/

theorem heap_holds_append {l₁ l₂ : List VMSpace} {address : Nat} :
    HeapHolds (l₁ ++ l₂) address ↔ HeapHolds l₁ address ∨ HeapHolds l₂ address := by
  simp only [HeapHolds, List.mem_append, or_and_right, exists_or]

theorem heap_holds_cons {s : VMSpace} {rest : List VMSpace} {address : Nat} :
    HeapHolds (s :: rest) address ↔ (s.heap ∧ s.Holds address) ∨ HeapHolds rest address := by
  simp only [HeapHolds, List.mem_cons, or_and_right, exists_or, exists_eq_left]

theorem other_spaces_append (l₁ l₂ : List VMSpace) :
    otherSpaces (l₁ ++ l₂) = otherSpaces l₁ ++ otherSpaces l₂ := List.filter_append ..

theorem other_spaces_heap {s : VMSpace} (h : s.heap = true) (rest : List VMSpace) :
    otherSpaces (s :: rest) = otherSpaces rest := by
  rw [otherSpaces, List.filter_cons_of_neg (by simp [h])]
  rfl

/-- A new heap space. -/
theorem heap_insert {space : VMSpace} (hheap : space.heap = true) (spaces : List VMSpace) :
    (∀ address, HeapHolds (insertVMSpace space spaces) address ↔
      HeapHolds spaces address ∨ space.Holds address) ∧
    otherSpaces (insertVMSpace space spaces) = otherSpaces spaces := by
  constructor
  · intro address
    simp only [HeapHolds, mem_insert_vm_space, or_and_right, exists_or, exists_eq_left, hheap,
      true_and]
    exact or_comm
  · induction spaces with
    | nil => exact other_spaces_heap hheap []
    | cons p rest ih =>
        rw [insertVMSpace]
        split
        · exact other_spaces_heap hheap (p :: rest)
        · simp only [otherSpaces, List.filter_cons] at ih ⊢
          rw [ih]

/-- The end of a heap space moves. -/
theorem heap_move_end {before after : List VMSpace} {s : VMSpace} (hheap : s.heap = true)
    (stop : Nat) :
    (∀ address, HeapHolds (before ++ { s with stop := stop } :: after) address ↔
      HeapHolds before address ∨ (s.start ≤ address ∧ address < stop) ∨ HeapHolds after address) ∧
    otherSpaces (before ++ { s with stop := stop } :: after) =
      otherSpaces (before ++ s :: after) := by
  have hheap' : VMSpace.heap { s with stop := stop } = true := hheap
  constructor
  · intro address
    rw [heap_holds_append, heap_holds_cons]
    simp only [hheap', true_and]
    rfl
  · rw [other_spaces_append, other_spaces_append, other_spaces_heap hheap',
      other_spaces_heap hheap]

/-- The space at an address of the heap is a heap space. -/
theorem heap_space_at {spaces : List VMSpace} (h : SpacesOrdered spaces) {address : Nat}
    (hheap : HeapHolds spaces address) :
    ∃ c, findVMSpace spaces address = some c ∧ c.space.heap = true ∧ c.space.start ≤ address := by
  obtain ⟨s, hs, hflag, hstart, hstop⟩ := hheap
  cases hfind : findVMSpace spaces address with
  | none =>
      have hle := find_vm_space_none hfind s hs
      omega
  | some c =>
      obtain ⟨hspaces, hbefore, hend⟩ := find_vm_space_some hfind
      rw [hspaces] at hs h
      rcases List.mem_append.mp hs with hs | hs
      · have hle := hbefore s hs
        omega
      · rcases List.mem_cons.mp hs with rfl | hs
        · exact ⟨c, rfl, hflag, hstart⟩
        · have hle := h.around.2 s hs
          omega

/-! ## Rounding -/

theorem page_align_mono {a b : Nat} (h : a ≤ b) (hb : b ≤ 0xFFFFF000) :
    pageAlign a ≤ pageAlign b := by
  simp only [pageAlign, pageMask, wrap, pageSize]
  split <;> split <;> omega

/-- What a break rounds up to, for one that `SysBrk` can set. -/
theorem HeapInv.aligned {mm : MemoryManager} (h : HeapInv mm) {brk : Nat}
    (hbrk : brk ≤ mm.brkStart + maxVmsHeapSize) :
    brk ≤ pageAlign brk ∧ pageAlign brk < 0xC0000000 := by
  have hstart := h.start
  simp only [userVmSize, maxVmsHeapSize] at hstart hbrk
  obtain ⟨hlow, hhigh⟩ := @page_align_bounds brk (by omega)
  refine ⟨hlow, ?_⟩
  simp only [pageSize] at hhigh
  omega

/-- The length of the range between two breaks. -/
theorem range_len {low high : Nat} (hle : low ≤ high) (hhigh : high < 2 ^ 32)
    (hlow : low % pageSize = 0) (halign : high % pageSize = 0) :
    wrapSub high low = high - low ∧ pageAlign (high - low) = high - low := by
  refine ⟨wrap_sub_of_le hhigh hle, page_align_of_aligned ?_⟩
  simp only [pageSize] at *
  omega

/-! ## Shrinking -/

section Shrinking

variable {mm : MemoryManager} {brk : Nat}

/-- The heap space in which the break will lie. -/
theorem HeapInv.shrinkSpace (h : HeapInv mm) (hstart : mm.brkStart ≤ brk) (hle : brk ≤ mm.brk)
    (hlt : pageAlign brk < pageAlign mm.brk) :
    ∃ c, findVMSpace mm.spaceMap (pageAlign brk) = some c ∧ c.space.heap = true ∧
      c.space.start ≤ pageAlign brk ∧ c.space.stop ≤ pageAlign mm.brk := by
  have hordered := well_formed_iff_ordered.mp h.spaces
  have hlow : mm.brkStart ≤ pageAlign brk := hstart.trans (h.aligned (hle.trans h.high)).1
  obtain ⟨c, hfind, hheap, hbegin⟩ := heap_space_at hordered ((h.holds _).mpr ⟨hlow, hlt⟩)
  refine ⟨c, hfind, hheap, hbegin, ?_⟩
  obtain ⟨hspaces, -, hend⟩ := find_vm_space_some hfind
  have hmem : c.space ∈ mm.spaceMap := by simp [hspaces]
  -- the last byte of the space belongs to the heap
  have hlast := (h.holds (c.space.stop - 1)).mp ⟨c.space, hmem, hheap, by omega, by omega⟩
  omega

/-- The heap when its last pages are cut off. -/
theorem shrunk_heap {before after : List VMSpace} {s : VMSpace} {low new old : Nat}
    (h : SpacesOrdered (before ++ s :: after)) (hheap : s.heap = true)
    (hold : ∀ address, HeapHolds (before ++ s :: after) address ↔ low ≤ address ∧ address < old)
    (hstop : s.stop = old) (hstart : s.start ≤ new) (hnew : new < old) (address : Nat) :
    HeapHolds before address ∨ (s.start ≤ address ∧ address < new) ∨ HeapHolds after address ↔
      low ≤ address ∧ address < new := by
  have hbefore : HeapHolds before address → address < s.start := by
    rintro ⟨t, ht, -, -, hend⟩
    have hle := h.around.1 t ht
    omega
  have hafter : HeapHolds after address → old ≤ address := by
    rintro ⟨t, ht, -, hbegin, -⟩
    have hle := h.around.2 t ht
    omega
  have hin := hold address
  rw [heap_holds_append, heap_holds_cons, VMSpace.Holds, hstop, hheap] at hin
  simp only [true_and] at hin
  constructor
  · rintro (hleft | hmiddle | hright)
    · have hrange := hin.mp (.inl hleft)
      have hlt := hbefore hleft
      omega
    · have hrange := hin.mp (.inr (.inl ⟨hmiddle.1, by omega⟩))
      omega
    · have hrange := hin.mp (.inr (.inr hright))
      have hge := hafter hright
      omega
  · rintro ⟨hlow, hhigh⟩
    rcases hin.mpr ⟨hlow, by omega⟩ with hleft | hmiddle | hright
    · exact .inl hleft
    · exact .inr (.inl ⟨hmiddle.1, hhigh⟩)
    · have hge := hafter hright
      omega

/-- Without the spaces in front of the heap space, the heap or another space is lost. -/
theorem dropped_spaces {before after : List VMSpace} {s : VMSpace} {low new : Nat}
    (h : SpacesOrdered (before ++ s :: after)) (hheap : s.heap = true)
    (hlow : ∀ t ∈ before, t.heap = true → low ≤ t.start) (hstart : s.start = new)
    (hholds : ∀ address, HeapHolds after address ↔ low ≤ address ∧ address < new)
    (hothers : otherSpaces after = otherSpaces (before ++ s :: after)) : before = [] := by
  refine List.eq_nil_iff_forall_not_mem.mpr fun t ht => ?_
  have hend := h.around.1 t ht
  have hvalid := h.valid t (by simp [ht])
  have hpos := hvalid.nonempty
  by_cases hflag : t.heap = true
  · obtain ⟨u, hu, -, hbegin, -⟩ := (hholds t.start).mpr ⟨hlow t ht hflag, by omega⟩
    have hpast := h.around.2 u hu
    have hnonempty := (h.valid s (by simp)).nonempty
    omega
  · rw [other_spaces_append, other_spaces_heap hheap] at hothers
    have hnil : otherSpaces before = [] := List.self_eq_append_left.mp hothers
    have hmem : t ∈ otherSpaces before := List.mem_filter.mpr ⟨ht, by simpa using hflag⟩
    rw [hnil] at hmem
    cases hmem

/-- A request that is refused without a change is right when there is a reason for it. -/
theorem brk_right_refused (hne : mm.brk ≠ brk) (kmallocCut kmalloc : Option VMSpace) :
    BrkRight mm brk kmallocCut kmalloc mm ↔
      brk < mm.brkStart ∨ brk > mm.brkStart + maxVmsHeapSize ∨ MeetsSpace mm brk ∨
        Exhausted mm brk kmallocCut kmalloc :=
  ⟨fun h => h.reason hne, fun h => ⟨fun heq => absurd heq hne, fun heq => absurd heq hne,
    fun _ => ⟨rfl, rfl⟩, fun _ => h⟩⟩

/-- A request that is set is right when the heap is, and nothing else has changed. -/
theorem brk_right_set (spaces : List VMSpace) (kmallocCut kmalloc : Option VMSpace) :
    BrkRight mm brk kmallocCut kmalloc { mm with spaceMap := spaces, brk := brk } ↔
      (∀ address, HeapHolds spaces address ↔ mm.brkStart ≤ address ∧ address < pageAlign brk) ∧
      otherSpaces spaces = otherSpaces mm.spaceMap :=
  ⟨fun h => ⟨h.heap rfl, h.others rfl⟩, fun h => ⟨fun _ => h.1, fun _ => h.2,
    fun hne => absurd rfl hne, fun hne => absurd rfl hne⟩⟩

/-- The branch of `SysBrk` that gives memory back. -/
theorem HeapInv.shrink (h : HeapInv mm) (hstart : mm.brkStart ≤ brk) (hle : brk ≤ mm.brk)
    (hlt : pageAlign brk < pageAlign mm.brk) (kmallocCut kmalloc : Option VMSpace) :
    BrkRight mm brk kmallocCut kmalloc (sysBrk mm brk kmallocCut kmalloc).1 ↔
      kmallocCut = none ∨ ShrinksCleanly mm brk := by
  have hordered := well_formed_iff_ordered.mp h.spaces
  obtain ⟨c, hfind, hheap, hbegin, hend⟩ := h.shrinkSpace hstart hle hlt
  obtain ⟨hspaces, hbefore, hstop⟩ := find_vm_space_some hfind
  have hne : mm.brk ≠ brk := by
    rintro rfl
    exact Nat.lt_irrefl _ hlt
  have hold := (h.aligned h.high).2
  obtain ⟨hlen, hround⟩ := range_len (Nat.le_of_lt hlt) (by omega) (page_align_mod brk)
    (page_align_mod mm.brk)
  have hcuts : CutsRange c (pageAlign brk) (pageAlign mm.brk - pageAlign brk) ↔
      pageAlign mm.brk ≤ c.space.stop ∧ pageAlign mm.brk ≤ userVmSize := by
    simp only [CutsRange, hround, page_align_mod, true_and]
    omega
  have hclean : ShrinksCleanly mm brk ↔ pageAlign mm.brk ≤ c.space.stop ∧
      pageAlign mm.brk ≤ userVmSize ∧ (c.space.start = pageAlign brk → c.before = []) := by
    refine ⟨fun hall => hall c hfind, fun hc d hd => ?_⟩
    obtain rfl := Option.some.inj (hfind.symm.trans hd)
    exact hc
  have hsys : sysBrk mm brk kmallocCut kmalloc =
      if (doMunmap mm (pageAlign brk) (pageAlign mm.brk - pageAlign brk) kmallocCut).2 = 0 then
        ({ (doMunmap mm (pageAlign brk) (pageAlign mm.brk - pageAlign brk) kmallocCut).1 with
          brk := brk }, brk)
      else ((doMunmap mm (pageAlign brk) (pageAlign mm.brk - pageAlign brk) kmallocCut).1,
        (doMunmap mm (pageAlign brk) (pageAlign mm.brk - pageAlign brk) kmallocCut).1.brk) := by
    simp only [sysBrk, if_neg (Nat.not_lt.mpr hstart), if_neg (Nat.ne_of_lt hlt), if_pos hle, hlen]
  rw [hsys]
  by_cases hdone : ∃ block, kmallocCut = some block ∧
      CutsRange c (pageAlign brk) (pageAlign mm.brk - pageAlign brk)
  · obtain ⟨block, rfl, hrange⟩ := hdone
    obtain ⟨hreach, huser⟩ := hcuts.mp hrange
    have hword := (hordered.valid c.space (by simp [hspaces])).word
    have hexact : c.space.stop = pageAlign mm.brk := Nat.le_antisymm hend hreach
    rw [do_munmap_cut hfind hword hrange, if_pos rfl]
    show BrkRight mm brk (some block) kmalloc { mm with
      spaceMap := cutVMSpace c (pageAlign brk) (pageAlign (pageAlign mm.brk - pageAlign brk)) block
      brk := brk } ↔ _
    have htail : cutTail c (pageAlign brk) (pageAlign mm.brk - pageAlign brk) block = c.after :=
      if_pos (by omega)
    rw [brk_right_set, hclean, hround, cut_vm_space_eq (by omega), htail]
    rw [hspaces] at hordered
    have hholds := h.holds
    rw [hspaces] at hholds
    have hshrunk := shrunk_heap hordered hheap hholds hexact hbegin hlt
    by_cases hwhole : c.space.start = pageAlign brk
    · -- the space goes, and with it everything in front of it
      simp only [if_pos hwhole, hspaces]
      constructor
      · rintro ⟨hheaps, hothers⟩
        refine .inr ⟨hreach, huser, fun _ => dropped_spaces hordered hheap ?_ hwhole hheaps hothers⟩
        intro t ht hflag
        have hpos := (hordered.valid t (by simp [ht])).nonempty
        exact ((hholds t.start).mp ⟨t, by simp [ht], hflag, Nat.le_refl _, hpos⟩).1
      · rintro (hnone | ⟨-, -, hfirst⟩)
        · cases hnone
        · have hnil := hfirst hwhole
          rw [hnil] at hshrunk ⊢
          refine ⟨fun address => ?_, (other_spaces_heap hheap c.after).symm⟩
          rw [← hshrunk address]
          constructor
          · exact fun hafter => .inr (.inr hafter)
          · rintro (⟨t, ht, -⟩ | hmiddle | hafter)
            · cases ht
            · omega
            · exact hafter
    · obtain ⟨hmoved, hothers⟩ := @heap_move_end c.before c.after c.space hheap
        (pageAlign brk)
      simp only [if_neg hwhole]
      refine iff_of_true ⟨fun address => (hmoved address).trans (hshrunk address), ?_⟩
        (.inr ⟨hreach, huser, fun heq => absurd heq hwhole⟩)
      rw [hothers, ← hspaces]
  · obtain ⟨ret, hret, hrefused⟩ := @do_munmap_refused mm (pageAlign brk)
      (pageAlign mm.brk - pageAlign brk) kmallocCut fun d block hd hblock hrange => by
        obtain rfl := Option.some.inj (hfind.symm.trans hd)
        exact hdone ⟨block, hblock, hrange⟩
    rw [hrefused, if_neg hret, brk_right_refused hne, Exhausted, if_pos hle, hclean]
    constructor
    · rintro (hbelow | hover | ⟨t, ht, hpast, hbegin'⟩ | hnone)
      · exact absurd hbelow (Nat.not_lt.mpr hstart)
      · have hhigh := h.high
        omega
      · -- no other space holds the new break
        exfalso
        rw [hspaces] at ht hordered
        rcases List.mem_append.mp ht with ht | ht
        · have hle' := hbefore t ht
          omega
        · rcases List.mem_cons.mp ht with rfl | ht
          · omega
          · have hge := hordered.around.2 t ht
            omega
      · exact .inl hnone
    · rintro (hnone | ⟨hreach, huser, -⟩)
      · exact .inr (.inr (.inr hnone))
      · cases kmallocCut with
        | none => exact .inr (.inr (.inr rfl))
        | some block => exact absurd ⟨block, rfl, hcuts.mpr ⟨hreach, huser⟩⟩ hdone

end Shrinking

/-! ## Growing -/

section Growing

variable {mm : MemoryManager} {brk : Nat}

/-- `SysBrk` sees the spaces that overlap or touch the new range. -/
theorem HeapInv.intersection (h : HeapInv mm) (hbrk : brk ≤ mm.brkStart + maxVmsHeapSize) :
    (findVMSpaceIntersection mm.spaceMap (pageAlign mm.brk) (wrap (pageAlign brk + pageSize))).isSome =
      true ↔ MeetsSpace mm brk := by
  have hordered := well_formed_iff_ordered.mp h.spaces
  have hsmall := (h.aligned hbrk).2
  have halign := page_align_mod brk
  rw [wrap_of_lt (by simp only [pageSize]; omega), findVMSpaceIntersection]
  cases hfind : findVMSpace mm.spaceMap (pageAlign mm.brk) with
  | none =>
      refine iff_of_false (by simp) ?_
      rintro ⟨t, ht, hpast, -⟩
      have hle := find_vm_space_none hfind t ht
      omega
  | some c =>
      obtain ⟨hspaces, hbefore, hstop⟩ := find_vm_space_some hfind
      have hmem : c.space ∈ mm.spaceMap := by simp [hspaces]
      have hstart := (hordered.valid c.space hmem).startAligned
      have hfirst : MeetsSpace mm brk ↔ c.space.start ≤ pageAlign brk := by
        constructor
        · rintro ⟨t, ht, hpast, hbegin⟩
          rw [hspaces] at ht hordered
          rcases List.mem_append.mp ht with ht | ht
          · have hle := hbefore t ht
            omega
          · rcases List.mem_cons.mp ht with rfl | ht
            · exact hbegin
            · have hge := hordered.around.2 t ht
              have hpos := (hordered.valid c.space (by simp)).nonempty
              omega
        · exact fun hle => ⟨c.space, hmem, hstop, hle⟩
      rw [hfirst]
      by_cases hge : c.space.start ≥ pageAlign brk + pageSize
      · refine iff_of_false (by simp [hge]) ?_
        simp only [pageSize] at hge
        omega
      · refine iff_of_true (by simp [hge]) ?_
        simp only [pageSize] at hge halign hstart
        omega

/-- `DoBrk` above the heap: the `DoMunmap` of the free range fails with `-2`, which is taken for
success, or with `-1`, where there is no room. -/
theorem HeapInv.munmapAbove (h : HeapInv mm) (hbrk : brk ≤ mm.brkStart + maxVmsHeapSize)
    (hlt : pageAlign mm.brk < pageAlign brk) (hclear : ¬ MeetsSpace mm brk)
    (kmallocCut : Option VMSpace) :
    (HasRoom mm brk →
      doMunmap mm (pageAlign mm.brk) (pageAlign brk - pageAlign mm.brk) kmallocCut = (mm, -2)) ∧
    (¬ HasRoom mm brk →
      doMunmap mm (pageAlign mm.brk) (pageAlign brk - pageAlign mm.brk) kmallocCut = (mm, -1)) := by
  have hsmall := (h.aligned hbrk).2
  obtain ⟨-, hround⟩ := range_len (Nat.le_of_lt hlt) (by omega) (page_align_mod mm.brk)
    (page_align_mod brk)
  have hsum : pageAlign mm.brk + (pageAlign brk - pageAlign mm.brk) = pageAlign brk := by omega
  constructor
  · rintro ⟨huser, t, ht, hpast⟩
    have hargs : ¬ (pageAlign mm.brk % pageSize ≠ 0 ∨ pageAlign mm.brk > userVmSize ∨
        pageAlign brk - pageAlign mm.brk > wrapSub userVmSize (pageAlign mm.brk)) := by
      rw [wrap_sub_of_le (by norm_num [userVmSize]) (by omega), page_align_mod]
      omega
    cases hfind : findVMSpace mm.spaceMap (pageAlign mm.brk) with
    | none =>
        have hle := find_vm_space_none hfind t ht
        omega
    | some c =>
        obtain ⟨hspaces, -, hstop⟩ := find_vm_space_some hfind
        have hfar : pageAlign brk < c.space.start := by
          by_contra hnot
          exact hclear ⟨c.space, by simp [hspaces], hstop, Nat.not_lt.mp hnot⟩
        have hinside : pageAlign mm.brk < c.space.start ∨
            wrap (pageAlign mm.brk + (pageAlign brk - pageAlign mm.brk)) > c.space.stop :=
          .inl (by omega)
        simp only [doMunmap, hargs, if_false, hround, Nat.sub_ne_zero_of_lt hlt, hfind, hinside,
          if_true]
  · intro hroom
    rcases do_munmap_cases mm (pageAlign mm.brk) (pageAlign brk - pageAlign mm.brk) kmallocCut with
      heq | ⟨c, hfind, -, hfits, -⟩
    · exact heq
    · obtain ⟨hspaces, -, hstop⟩ := find_vm_space_some hfind
      rw [hround, hsum] at hfits
      exact absurd ⟨hfits, c.space, by simp [hspaces], hstop⟩ hroom

/-- The space that `DoBrk` makes longer is a heap space that ends with the heap. -/
theorem heap_space_before_heap {spaces : List VMSpace} {addr : Nat} {c : VMSpaceCursor}
    (h : heapSpaceBefore spaces addr = some c) : c.space.heap = true := by
  simp only [heapSpaceBefore] at h
  split at h
  · cases h
  · split at h
    · next d hfind =>
        split at h
        · next hmerge =>
            cases h
            rw [VMSpace.heap, hmerge.2]
            rfl
        · cases h
    · cases h

/-- The new end of a grown heap. -/
theorem HeapInv.grown (h : HeapInv mm) (hlt : pageAlign mm.brk < pageAlign brk)
    {spaces : List VMSpace} (hholds : ∀ address, HeapHolds spaces address ↔
      HeapHolds mm.spaceMap address ∨ (pageAlign mm.brk ≤ address ∧ address < pageAlign brk))
    (address : Nat) :
    HeapHolds spaces address ↔ mm.brkStart ≤ address ∧ address < pageAlign brk := by
  have hlow := h.low.trans (h.aligned h.high).1
  rw [hholds, h.holds]
  omega

/-- What `DoBrk` does where there is room. -/
theorem HeapInv.doBrk (h : HeapInv mm) (hbrk : brk ≤ mm.brkStart + maxVmsHeapSize)
    (hlt : pageAlign mm.brk < pageAlign brk) (hclear : ¬ MeetsSpace mm brk) (hroom : HasRoom mm brk)
    (kmallocCut kmalloc : Option VMSpace) :
    (∃ spaces, XBook.doBrk mm (pageAlign mm.brk) (pageAlign brk - pageAlign mm.brk) kmallocCut
        kmalloc = ({ mm with spaceMap := spaces }, pageAlign mm.brk) ∧
      (∀ address, HeapHolds spaces address ↔
        mm.brkStart ≤ address ∧ address < pageAlign brk) ∧
      otherSpaces spaces = otherSpaces mm.spaceMap) ∨
    (kmalloc = none ∧ XBook.doBrk mm (pageAlign mm.brk) (pageAlign brk - pageAlign mm.brk)
      kmallocCut kmalloc = (mm, minusOne)) := by
  have hsmall := (h.aligned hbrk).2
  obtain ⟨-, hround⟩ := range_len (Nat.le_of_lt hlt) (by omega) (page_align_mod mm.brk)
    (page_align_mod brk)
  have hend : wrap (pageAlign mm.brk + (pageAlign brk - pageAlign mm.brk)) = pageAlign brk := by
    rw [Nat.add_sub_cancel' (Nat.le_of_lt hlt)]
    exact wrap_of_lt (by omega)
  have hcut := (h.munmapAbove hbrk hlt hclear kmallocCut).1 hroom
  simp only [XBook.doBrk, hround, Nat.sub_ne_zero_of_lt hlt, if_false, hcut, hend,
    show ((-2 : Int) = -1) = False by decide]
  cases hfind : heapSpaceBefore mm.spaceMap (pageAlign mm.brk) with
  | some c =>
      obtain ⟨hspaces, hstop⟩ := heap_space_before_some hfind
      have hheap := heap_space_before_heap hfind
      obtain ⟨hmoved, hothers⟩ := @heap_move_end c.before c.after c.space hheap
        (pageAlign brk)
      have hpos := ((well_formed_iff_ordered.mp h.spaces).valid c.space (by simp [hspaces])).nonempty
      refine .inl ⟨_, rfl, h.grown hlt fun address => ?_, by rw [hothers, hspaces]⟩
      rw [hmoved, hspaces, heap_holds_append, heap_holds_cons, VMSpace.Holds, hheap, hstop]
      simp only [true_and]
      have hsplit : c.space.start ≤ address ∧ address < pageAlign brk ↔
          (c.space.start ≤ address ∧ address < pageAlign mm.brk) ∨
            (pageAlign mm.brk ≤ address ∧ address < pageAlign brk) := by omega
      rw [hsplit]
      constructor
      · rintro (hleft | (hmiddle | hnew) | hright)
        · exact .inl (.inl hleft)
        · exact .inl (.inr (.inl hmiddle))
        · exact .inr hnew
        · exact .inl (.inr (.inr hright))
      · rintro ((hleft | hmiddle | hright) | hnew)
        · exact .inl hleft
        · exact .inr (.inl (.inl hmiddle))
        · exact .inr (.inr hright)
        · exact .inr (.inl (.inr hnew))
  | none =>
      cases kmalloc with
      | none => exact .inr ⟨rfl, rfl⟩
      | some block =>
          have hheap : VMSpace.heap ⟨pageAlign mm.brk, pageAlign brk, 7, vmsHeap⟩ = true :=
            (by decide : Nat.testBit 2 1 = true)
          obtain ⟨hinserted, hothers⟩ := heap_insert hheap mm.spaceMap
          exact .inl ⟨_, rfl, h.grown hlt hinserted, hothers⟩

/-- The branch of `SysBrk` that lets the heap grow. -/
theorem HeapInv.grow (h : HeapInv mm) (hgrow : mm.brk < brk)
    (hlimit : brk ≤ mm.brkStart + maxVmsHeapSize) (hne : pageAlign brk ≠ pageAlign mm.brk)
    (kmallocCut kmalloc : Option VMSpace) :
    BrkRight mm brk kmallocCut kmalloc (sysBrk mm brk kmallocCut kmalloc).1 ↔
      MeetsSpace mm brk ∨ kmalloc = none ∨ HasRoom mm brk := by
  have hstart := h.start
  have hlow := h.low
  have hsmall := (h.aligned hlimit).2
  have hle := page_align_mono (Nat.le_of_lt hgrow) (by
    simp only [userVmSize, maxVmsHeapSize] at hstart hlimit
    omega)
  have hlt : pageAlign mm.brk < pageAlign brk := Nat.lt_of_le_of_ne hle hne.symm
  have hbrk : mm.brk ≠ brk := Nat.ne_of_lt hgrow
  have hword : wrap (mm.brkStart + maxVmsHeapSize) = mm.brkStart + maxVmsHeapSize := by
    refine wrap_of_lt ?_
    simp only [userVmSize, maxVmsHeapSize] at *
    omega
  obtain ⟨hlen, hround⟩ := range_len hle (by omega) (page_align_mod mm.brk) (page_align_mod brk)
  have hrefused : BrkRight mm brk kmallocCut kmalloc mm ↔ MeetsSpace mm brk ∨ kmalloc = none := by
    rw [brk_right_refused hbrk, Exhausted, if_neg (Nat.not_le.mpr hgrow)]
    constructor
    · rintro (hbelow | hover | hmeets | hnone)
      · omega
      · omega
      · exact .inl hmeets
      · exact .inr hnone
    · rintro (hmeets | hnone)
      · exact .inr (.inr (.inl hmeets))
      · exact .inr (.inr (.inr hnone))
  have hsys : sysBrk mm brk kmallocCut kmalloc =
      if (findVMSpaceIntersection mm.spaceMap (pageAlign mm.brk)
          (wrap (pageAlign brk + pageSize))).isSome then (mm, mm.brk)
      else
        let r := XBook.doBrk mm (pageAlign mm.brk) (pageAlign brk - pageAlign mm.brk) kmallocCut kmalloc
        if r.2 ≠ pageAlign mm.brk then (r.1, r.1.brk) else ({ r.1 with brk := brk }, brk) := by
    simp only [sysBrk, if_neg (show ¬ brk < mm.brkStart by omega), if_neg hne,
      if_neg (Nat.not_le.mpr hgrow), hword, if_neg (Nat.not_lt.mpr hlimit), hlen]
  rw [hsys]
  by_cases hmeets : MeetsSpace mm brk
  · rw [if_pos ((h.intersection hlimit).mpr hmeets)]
    exact iff_of_true (hrefused.mpr (.inl hmeets)) (.inl hmeets)
  · rw [if_neg fun hsome => hmeets ((h.intersection hlimit).mp hsome)]
    -- an address that is no page address
    have hminus : minusOne ≠ pageAlign mm.brk := by
      have halign := page_align_mod mm.brk
      simp only [minusOne, pageSize] at *
      omega
    by_cases hroom : HasRoom mm brk
    · rcases h.doBrk hlimit hlt hmeets hroom kmallocCut kmalloc with
        ⟨spaces, hdone, hholds, hothers⟩ | ⟨hnone, hfailed⟩
      · rw [hdone]
        simp only [ne_eq, not_true_eq_false, if_false]
        rw [brk_right_set]
        exact iff_of_true ⟨hholds, hothers⟩ (.inr (.inr hroom))
      · rw [hfailed]
        simp only [ne_eq, hminus, not_false_eq_true, if_true]
        exact iff_of_true (hrefused.mpr (.inr hnone)) (.inr (.inr hroom))
    · have hfailed : XBook.doBrk mm (pageAlign mm.brk) (pageAlign brk - pageAlign mm.brk)
          kmallocCut kmalloc = (mm, minusOne) := by
        simp only [XBook.doBrk, hround, Nat.sub_ne_zero_of_lt hlt, if_false,
          (h.munmapAbove hlimit hlt hmeets kmallocCut).2 hroom, if_true]
      rw [hfailed]
      simp only [ne_eq, hminus, not_false_eq_true, if_true]
      rw [hrefused]
      simp only [hmeets, hroom, false_or, or_false]

end Growing

/-! ## The system call -/

/-- `SysBrk` does what it should exactly for the requests that are handled. -/
theorem sys_brk_iff {mm : MemoryManager} (h : HeapInv mm) (brk : UInt32)
    (kmallocCut kmalloc : Option VMSpace) :
    BrkRight mm brk.toNat kmallocCut kmalloc (sysBrk mm brk.toNat kmallocCut kmalloc).1 ↔
      BrkHandled mm brk.toNat kmallocCut kmalloc := by
  generalize brk.toNat = brk
  by_cases hbelow : brk < mm.brkStart
  · have hsys : sysBrk mm brk kmallocCut kmalloc = (mm, mm.brk) := by
      simp only [sysBrk, if_pos hbelow]
    have hlow := h.low
    have hne : mm.brk ≠ brk := by omega
    rw [hsys, brk_right_refused hne]
    exact iff_of_true (.inl hbelow) (.inl hbelow)
  by_cases hpage : pageAlign brk = pageAlign mm.brk
  · have hsys : sysBrk mm brk kmallocCut kmalloc = ({ mm with brk := brk }, brk) := by
      simp only [sysBrk, if_neg hbelow, if_pos hpage]
    rw [hsys]
    refine iff_of_true ((brk_right_set mm.spaceMap kmallocCut kmalloc).mpr ⟨?_, rfl⟩)
      (.inr (.inl hpage))
    rw [hpage]
    exact h.holds
  simp only [BrkHandled, hbelow, hpage, false_or]
  by_cases hle : brk ≤ mm.brk
  · have hhigh := h.high
    have hstart := h.start
    have hmono : pageAlign brk ≤ pageAlign mm.brk := page_align_mono hle (by
      simp only [userVmSize, maxVmsHeapSize] at hstart hhigh
      omega)
    rw [if_pos hle]
    exact h.shrink (Nat.not_lt.mp hbelow) hle (Nat.lt_of_le_of_ne hmono hpage) kmallocCut kmalloc
  · rw [if_neg hle]
    by_cases hlimit : brk ≤ mm.brkStart + maxVmsHeapSize
    · rw [h.grow (Nat.not_le.mp hle) hlimit hpage]
      simp only [gt_iff_lt, Nat.not_lt.mpr hlimit, false_or]
    · have hword : wrap (mm.brkStart + maxVmsHeapSize) = mm.brkStart + maxVmsHeapSize := by
        have hstart := h.start
        refine wrap_of_lt ?_
        simp only [userVmSize, maxVmsHeapSize] at *
        omega
      have hsys : sysBrk mm brk kmallocCut kmalloc = (mm, mm.brk) := by
        simp only [sysBrk, if_neg hbelow, if_neg hpage, if_neg hle, hword,
          if_pos (Nat.not_le.mp hlimit)]
      have hover : brk > mm.brkStart + maxVmsHeapSize := Nat.not_le.mp hlimit
      rw [hsys, brk_right_refused (by omega)]
      exact iff_of_true (.inr (.inl hover)) (.inl hover)

/-- A program with one image space, an empty heap and a stack. -/
def loadedProgram : MemoryManager :=
  ⟨[⟨0x1000, 0x2000, 5, 0⟩, ⟨0x7FFF0000, 0x80000000, 3, 1⟩], 0x2000, 0x2000⟩

/-- The same program with a heap of one page. -/
def grownProgram : MemoryManager :=
  ⟨[⟨0x1000, 0x2000, 5, 0⟩, ⟨0x2000, 0x3000, 7, 2⟩, ⟨0x7FFF0000, 0x80000000, 3, 1⟩], 0x2000, 0x3000⟩

theorem loaded_program_inv : HeapInv loadedProgram := by
  have hpage : pageAlign 0x2000 = 0x2000 := by decide
  refine ⟨well_formed_iff_ordered.mpr ⟨?_, ?_⟩, fun address => ?_, by decide, by decide, by decide⟩
  · simp [loadedProgram, VMSpace.Follows]
  · intro s hs
    simp only [loadedProgram, List.mem_cons, List.not_mem_nil, or_false] at hs
    rcases hs with rfl | rfl
    · constructor <;> norm_num
    · constructor <;> norm_num
  · simp only [loadedProgram, HeapHolds, List.mem_cons, List.not_mem_nil, or_false,
      exists_eq_or_imp, exists_eq_left, VMSpace.Holds, hpage]
    simp only [VMSpace.heap, show Nat.testBit 0 1 = false by decide,
      show Nat.testBit 1 1 = false by decide, Bool.false_eq_true, false_and, or_self]
    exact iff_of_false id (by omega)

theorem grown_program_inv : HeapInv grownProgram := by
  have hpage : pageAlign 0x3000 = 0x3000 := by decide
  refine ⟨well_formed_iff_ordered.mpr ⟨?_, ?_⟩, fun address => ?_, by decide, by decide, by decide⟩
  · simp [grownProgram, VMSpace.Follows]
  · intro s hs
    simp only [grownProgram, List.mem_cons, List.not_mem_nil, or_false] at hs
    rcases hs with rfl | rfl | rfl
    · constructor <;> norm_num
    · constructor <;> norm_num
    · constructor <;> norm_num
  · simp only [grownProgram, HeapHolds, List.mem_cons, List.not_mem_nil, or_false,
      exists_eq_or_imp, exists_eq_left, VMSpace.Holds, hpage]
    simp only [VMSpace.heap, show Nat.testBit 0 1 = false by decide,
      show Nat.testBit 1 1 = false by decide, show Nat.testBit 2 1 = true by decide,
      Bool.false_eq_true, false_and, true_and, false_or, or_false]

/-- The first page of the heap of a program. -/
theorem sys_brk_first_page :
    BrkRight loadedProgram 0x3000 none (some ⟨0, 0, 0, 0⟩)
      (sysBrk loadedProgram 0x3000 none (some ⟨0, 0, 0, 0⟩)).1 := by
  refine (sys_brk_iff loaded_program_inv 0x3000 none (some ⟨0, 0, 0, 0⟩)).mpr (.inr (.inr ?_))
  rw [if_neg (by decide)]
  exact .inr (.inr (.inr ⟨by decide, ⟨0x7FFF0000, 0x80000000, 3, 1⟩, by simp [loadedProgram],
    by decide⟩))

/-- The heap is given back altogether, and with it goes the image of the program. -/
theorem sys_brk_drops_image :
    sysBrk grownProgram 0x2000 (some ⟨0, 0, 0, 0⟩) none =
      (⟨[⟨0x7FFF0000, 0x80000000, 3, 1⟩], 0x2000, 0x2000⟩, 0x2000) ∧
    HeapInv grownProgram ∧ ¬ BrkRight grownProgram 0x2000 (some ⟨0, 0, 0, 0⟩) none
      (sysBrk grownProgram 0x2000 (some ⟨0, 0, 0, 0⟩) none).1 := by
  have hsys : sysBrk grownProgram 0x2000 (some ⟨0, 0, 0, 0⟩) none =
      (⟨[⟨0x7FFF0000, 0x80000000, 3, 1⟩], 0x2000, 0x2000⟩, 0x2000) := by decide
  refine ⟨hsys, grown_program_inv, fun h => ?_⟩
  rw [hsys] at h
  exact absurd (h.others rfl) (by decide)

end XBook
