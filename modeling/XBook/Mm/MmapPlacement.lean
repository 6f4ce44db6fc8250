import XBook.Mm.VmspaceInvariant

/-!
# Where a range is placed

`MmapPlaces` says what a `DoMmap` that is not fixed should do: the range that it returns lies
between `VMS_UNMAPPED_BASE` and `USER_VM_SIZE` where nothing was mapped, it fails only when there
is no such range, and the other spaces stay. The search of `GetUnmappedVMSpace` finds the first
gap, but it tests the limit only before it looks at a space, and not when the list is exhausted;
and a hint that is too high makes the call fail. `mmap_places_iff` says when the call is right.
-/

namespace XBook

/-- There is a free range of `len` bytes for `DoMmap` to return. -/
def HasGap (spaces : List VMSpace) (len : Nat) : Prop :=
  ∃ x, vmsUnmappedBase ≤ x ∧ x + len ≤ userVmSize ∧ Unmapped spaces x len

/-- The limit test stops the search at a space: the base, or the end of a space before it, leaves
less than `len` bytes. -/
def StopsAtLimit (spaces : List VMSpace) (len : Nat) : Prop :=
  ∃ pre s rest, spaces = pre ++ s :: rest ∧ vmsUnmappedBase < s.stop ∧
    (userVmSize < vmsUnmappedBase + len ∨ ∃ t ∈ pre, userVmSize < t.stop + len)

/-- A range of pages for user memory that meets no space. -/
structure PlacedRange (spaces : List VMSpace) (len addr : Nat) : Prop where
  aligned : addr % pageSize = 0
  base : vmsUnmappedBase ≤ addr
  limit : addr + len ≤ userVmSize
  disjoint : ∀ t ∈ spaces, ∀ address, t.Holds address → ¬ (addr ≤ address ∧ address < addr + len)

/-- What a `DoMmap` that is not fixed should leave and return. -/
structure MmapPlaces (mm : MemoryManager) (len prot flags : Nat) (kmalloc : Option VMSpace)
    (res : MemoryManager × Nat) : Prop where
  placed : res.2 ≠ minusOne → PlacedRange mm.spaceMap (pageAlign len) res.2
  failed : res.2 = minusOne → kmalloc.isSome →
    len = 0 ∨ userVmSize < len ∨ ¬ HasGap mm.spaceMap (pageAlign len)
  unchanged : res.2 = minusOne → res.1 = mm
  others : res.2 ≠ minusOne → ∃ before after, mm.spaceMap = before ++ after ∧
    res.1 = { mm with spaceMap :=
      before ++ ⟨res.2, res.2 + pageAlign len, prot, flags⟩ :: after }

/-- The hint lets the call look for a gap and there is one, or there is none and the call notices. -/
def MmapSettled (mm : MemoryManager) (addr len : Nat) (kmalloc : Option VMSpace) : Prop :=
  kmalloc = none ∨ pageAlign len = 0 ∨
    (HasGap mm.spaceMap (pageAlign len) ∧ addr + pageAlign len ≤ userVmSize) ∨
    (¬ HasGap mm.spaceMap (pageAlign len) ∧
      (userVmSize < addr + pageAlign len ∨ StopsAtLimit mm.spaceMap (pageAlign len)))

/-! ## The search -/

/-- The walk of `GetUnmappedVMSpace` has come to `addr` behind the spaces `pre`. -/
structure Searching (pre : List VMSpace) (len addr : Nat) : Prop where
  base : vmsUnmappedBase ≤ addr
  aligned : addr % pageSize = 0
  passed : ∀ t ∈ pre, t.stop ≤ addr
  place : addr = vmsUnmappedBase ∨ ∃ t ∈ pre, addr = t.stop
  noGap : ∀ x, vmsUnmappedBase ≤ x → Unmapped pre x len → addr ≤ x
  goesOn : ¬ StopsAtLimit pre len

/-- How the search ends: at the limit, with a range, or behind the last space. -/
inductive SearchEnd (spaces : List VMSpace) (len : Nat) : Nat → Prop where
  | limit : StopsAtLimit spaces len → ¬ HasGap spaces len → SearchEnd spaces len minusOne
  | found {addr} : PlacedRange spaces len addr → Unmapped spaces addr len →
      SearchEnd spaces len addr
  | exhausted {addr} : addr % pageSize = 0 → userVmSize < addr + len →
      ¬ StopsAtLimit spaces len → ¬ HasGap spaces len → SearchEnd spaces len addr

theorem Unmapped.disjoint {spaces : List VMSpace} {addr len : Nat} (h : Unmapped spaces addr len) :
    ∀ t ∈ spaces, ∀ address, t.Holds address → ¬ (addr ≤ address ∧ address < addr + len) := by
  intro t ht address hholds
  have hside := h t ht
  unfold VMSpace.Holds at hholds
  omega

theorem Unmapped.of_append {pre rest : List VMSpace} {addr len : Nat}
    (h : Unmapped (pre ++ rest) addr len) : Unmapped pre addr len :=
  fun t ht => h t (List.mem_append_left _ ht)

/-- Behind all spaces the range is free, whether it fits or not. -/
theorem Searching.search_end {pre : List VMSpace} {len addr : Nat} (h : Searching pre len addr) :
    SearchEnd pre len addr := by
  have hfree : Unmapped pre addr len := fun t ht => .inl (h.passed t ht)
  by_cases hfits : addr + len ≤ userVmSize
  · exact .found ⟨h.aligned, h.base, hfits, hfree.disjoint⟩ hfree
  · refine .exhausted h.aligned (Nat.not_le.mp hfits) h.goesOn ?_
    rintro ⟨x, hbase, hlimit, hx⟩
    have hlow := h.noGap x hbase hx
    omega

/-- The limit test fails at the space `s`. -/
theorem Searching.stops {pre rest : List VMSpace} {s : VMSpace} {len addr : Nat}
    (h : Searching pre len addr) (hs : vmsUnmappedBase < s.stop)
    (hroom : userVmSize < addr + len) :
    StopsAtLimit (pre ++ s :: rest) len ∧ ¬ HasGap (pre ++ s :: rest) len := by
  refine ⟨⟨pre, s, rest, rfl, hs, ?_⟩, ?_⟩
  · rcases h.place with rfl | ⟨t, ht, rfl⟩
    · exact .inl hroom
    · exact .inr ⟨t, ht, hroom⟩
  · rintro ⟨x, hbase, hlimit, hx⟩
    have hlow := h.noGap x hbase hx.of_append
    omega

/-- The limit test does not fail at a space behind which no range can leave user memory. -/
theorem not_stops_concat {pre : List VMSpace} {s : VMSpace} {len addr : Nat}
    (hbase : vmsUnmappedBase ≤ addr) (hpassed : ∀ t ∈ pre, t.stop ≤ addr)
    (hroom : addr + len ≤ userVmSize) : ¬ StopsAtLimit (pre ++ [s]) len := by
  rintro ⟨pre', s', rest, heq, -, hlarge⟩
  have hsub : ∀ t ∈ pre', t ∈ pre := by
    intro t ht
    have hdrop := congrArg List.dropLast heq
    rw [List.dropLast_concat, List.dropLast_append_of_ne_nil (by simp)] at hdrop
    rw [hdrop]
    exact List.mem_append_left _ ht
  rcases hlarge with hlarge | ⟨t, ht, hlarge⟩
  · omega
  · have := hpassed t (hsub t ht)
    omega

/-- The search goes on behind a space that leaves no gap before it. -/
theorem Searching.next {pre rest : List VMSpace} {s : VMSpace} {len addr : Nat}
    (h : Searching pre len addr) (hordered : SpacesOrdered (pre ++ s :: rest))
    (hs : vmsUnmappedBase < s.stop) (hroom : addr + len ≤ userVmSize)
    (hfull : s.start < addr + len) : Searching (pre ++ [s]) len s.stop := by
  have hvalid : s.Valid := hordered.valid s (by simp)
  refine ⟨Nat.le_of_lt hs, hvalid.stopAligned, ?_, .inr ⟨s, by simp, rfl⟩, ?_,
    not_stops_concat h.base h.passed hroom⟩
  · intro t ht
    rcases List.mem_append.mp ht with ht | ht
    · exact Nat.le_trans (hordered.around.1 t ht) (Nat.le_of_lt hvalid.nonempty)
    · rw [List.mem_singleton.mp ht]
  · intro x hbase hx
    have hlow := h.noGap x hbase hx.of_append
    rcases hx s (by simp) with hleft | hright
    · exact hleft
    · omega

/-- The range before the next space is free. -/
theorem Searching.found {pre rest : List VMSpace} {s : VMSpace} {len addr : Nat}
    (h : Searching pre len addr) (hordered : SpacesOrdered (pre ++ s :: rest))
    (hroom : addr + len ≤ userVmSize) (hclear : addr + len ≤ s.start) :
    SearchEnd (pre ++ s :: rest) len addr := by
  have hfree : Unmapped (pre ++ s :: rest) addr len := by
    intro t ht
    rcases List.mem_append.mp ht with ht | ht
    · exact .inl (h.passed t ht)
    · rcases List.mem_cons.mp ht with rfl | ht
      · exact .inr hclear
      · have hst := hordered.around.2 t ht
        have := (hordered.valid s (by simp)).nonempty
        omega
  exact .found ⟨h.aligned, h.base, hroom, hfree.disjoint⟩ hfree

/-- The walk of `GetUnmappedVMSpace`, by induction on the spaces that are left. -/
theorem Searching.walk {len : Nat} (huser : len ≤ userVmSize) {pre rest : List VMSpace}
    {addr : Nat} (h : Searching pre len addr) (hordered : SpacesOrdered (pre ++ rest))
    (hrest : ∀ t ∈ rest, vmsUnmappedBase < t.stop) :
    SearchEnd (pre ++ rest) len (getUnmappedFrom len addr rest) := by
  induction rest generalizing pre addr with
  | nil =>
      rw [List.append_nil]
      exact h.search_end
  | cons s rest ih =>
      have hs := hrest s List.mem_cons_self
      rw [getUnmappedFrom, wrap_sub_of_le (by norm_num [userVmSize]) huser]
      by_cases hroom : userVmSize - len < addr
      · rw [if_pos hroom]
        obtain ⟨hstops, hnone⟩ := @Searching.stops _ rest _ _ _ h hs (by omega)
        exact .limit hstops hnone
      · have hfits : addr + len ≤ userVmSize := by omega
        rw [if_neg hroom, wrap_of_lt (Nat.lt_of_le_of_lt hfits (by norm_num [userVmSize]))]
        by_cases hclear : addr + len ≤ s.start
        · rw [if_pos hclear]
          exact h.found hordered hfits hclear
        · rw [if_neg hclear]
          have hnext := h.next hordered hs hfits (Nat.not_le.mp hclear)
          rw [List.append_cons] at hordered ⊢
          exact ih hnext hordered fun t ht => hrest t (List.mem_cons_of_mem _ ht)

/-- The search begins behind the spaces that end at the base or below. -/
theorem searching_base {pre : List VMSpace} {len : Nat}
    (hpre : ∀ t ∈ pre, t.stop ≤ vmsUnmappedBase) : Searching pre len vmsUnmappedBase := by
  refine ⟨Nat.le_refl _, by norm_num, hpre, .inl rfl, fun x hx _ => hx, ?_⟩
  rintro ⟨pre', s, rest, rfl, hs, -⟩
  have := hpre s (by simp)
  omega

/-- How `GetUnmappedVMSpace` ends. -/
theorem get_unmapped_search_end {spaces : List VMSpace} (h : SpacesOrdered spaces) {len : Nat}
    (huser : len ≤ userVmSize) : SearchEnd spaces len (getUnmappedVMSpace spaces len) := by
  rw [getUnmappedVMSpace]
  cases hfind : findVMSpace spaces vmsUnmappedBase with
  | none => exact (searching_base (find_vm_space_none hfind)).search_end
  | some c =>
      obtain ⟨hspaces, hbefore, hspace⟩ := find_vm_space_some hfind
      rw [hspaces] at h ⊢
      refine (searching_base hbefore).walk huser h ?_
      intro t ht
      rcases List.mem_cons.mp ht with rfl | ht
      · exact hspace
      · have hct := h.around.2 t ht
        have := (h.valid t (by simp [ht])).nonempty
        omega

/-! ## The call -/

theorem insert_vm_space_split (space : VMSpace) (spaces : List VMSpace) :
    ∃ before after, spaces = before ++ after ∧
      insertVMSpace space spaces = before ++ space :: after := by
  induction spaces with
  | nil => exact ⟨[], [], rfl, rfl⟩
  | cons p rest ih =>
      rw [insertVMSpace]
      split
      · exact ⟨[], p :: rest, rfl, rfl⟩
      · obtain ⟨before, after, hrest, hinsert⟩ := ih
        exact ⟨p :: before, after, by rw [hrest]; rfl, by rw [hinsert]; rfl⟩

/-- A length that is rounded to 0 or beyond user memory is 0 or too large. -/
theorem page_align_out_of_range {len : Nat} (hlen : len < 2 ^ 32)
    (h : pageAlign len = 0 ∨ userVmSize < pageAlign len) : len = 0 ∨ userVmSize < len := by
  simp only [pageAlign, pageMask, wrap, pageSize, userVmSize] at *
  split at h <;> omega

/-- A length that is not rounded to 0 is not rounded down. -/
theorem le_page_align {len : Nat} (hlen : len < 2 ^ 32) (h : pageAlign len ≠ 0) :
    len ≤ pageAlign len := by
  simp only [pageAlign, pageMask, wrap, pageSize] at *
  split at h <;> split <;> omega

/-- A call that fails and leaves the list is right when there is no gap. -/
theorem mmap_places_failed {mm : MemoryManager} {len prot flags : Nat} {kmalloc : Option VMSpace} :
    MmapPlaces mm len prot flags kmalloc (mm, minusOne) ↔
      (kmalloc.isSome → len = 0 ∨ userVmSize < len ∨ ¬ HasGap mm.spaceMap (pageAlign len)) :=
  ⟨fun h => h.failed rfl, fun h => ⟨fun hne => absurd rfl hne, fun _ => h, fun _ => rfl,
    fun hne => absurd rfl hne⟩⟩

/-- A call that inserts a space is right when the space is in its place. -/
theorem mmap_places_inserted {mm : MemoryManager} {len prot flags r : Nat}
    {kmalloc : Option VMSpace} (hr : r % pageSize = 0) :
    MmapPlaces mm len prot flags kmalloc
        ({ mm with spaceMap :=
          insertVMSpace ⟨r, wrap (r + pageAlign len), prot, flags⟩ mm.spaceMap }, r) ↔
      PlacedRange mm.spaceMap (pageAlign len) r := by
  have hne : r ≠ minusOne := by
    rintro rfl
    norm_num at hr
  refine ⟨fun h => h.placed hne, fun h => ⟨fun _ => h, fun heq => absurd heq hne,
    fun heq => absurd heq hne, fun _ => ?_⟩⟩
  obtain ⟨before, after, hspaces, hinsert⟩ :=
    insert_vm_space_split ⟨r, wrap (r + pageAlign len), prot, flags⟩ mm.spaceMap
  rw [wrap_of_lt (Nat.lt_of_le_of_lt h.limit (by norm_num [userVmSize]))] at hinsert ⊢
  exact ⟨before, after, hspaces, by rw [hinsert]⟩

theorem PlacedRange.has_gap {spaces : List VMSpace} {len addr : Nat}
    (h : PlacedRange spaces len addr) (hfree : Unmapped spaces addr len) : HasGap spaces len :=
  ⟨addr, h.base, h.limit, hfree⟩

/-- A `DoMmap` that is not fixed and passes its range test. -/
theorem do_mmap_search {mm : MemoryManager} {addr len prot flags : Nat} (block : VMSpace)
    (hfixed : mapFixed flags = false) (hpos : pageAlign len ≠ 0)
    (hfits : addr + pageAlign len ≤ userVmSize) :
    doMmap mm addr len prot flags (some block) =
      let r := getUnmappedVMSpace mm.spaceMap (pageAlign len)
      let space : VMSpace := ⟨r, wrap (r + pageAlign len), prot, flags⟩
      if r = minusOne then (mm, minusOne)
      else ({ mm with spaceMap := insertVMSpace space mm.spaceMap }, r) := by
  have hrange : ¬ (pageAlign len > userVmSize ∨ addr > userVmSize ∨
      addr > wrapSub userVmSize (pageAlign len)) := by
    rw [wrap_sub_of_le (by norm_num [userVmSize]) (by omega)]
    omega
  simp only [doMmap, hpos, if_false, hrange, mmapAddress, hfixed, Bool.false_eq_true]
  by_cases hminus : getUnmappedVMSpace mm.spaceMap (pageAlign len) = minusOne
  · simp only [hminus, if_true]
  · simp only [hminus, if_false]

/-- A `DoMmap` that has no memory for a space, or whose arguments are out of range, fails. -/
theorem do_mmap_refused {mm : MemoryManager} {addr len prot flags : Nat} {kmalloc : Option VMSpace}
    (h : kmalloc = none ∨ pageAlign len = 0 ∨ userVmSize < addr + pageAlign len) :
    doMmap mm addr len prot flags kmalloc = (mm, minusOne) := by
  by_cases hzero : pageAlign len = 0
  · simp only [doMmap, hzero, if_true]
  by_cases hrange : pageAlign len > userVmSize ∨ addr > userVmSize ∨
      addr > wrapSub userVmSize (pageAlign len)
  · simp only [doMmap, hzero, if_false, hrange, if_true]
  rcases h with rfl | hzero' | hlarge
  · simp only [doMmap, hzero, if_false, hrange]
    cases mmapAddress mm.spaceMap addr (pageAlign len) flags <;> rfl
  · exact absurd hzero' hzero
  · exfalso
    simp only [not_or, Nat.not_lt] at hrange
    rw [wrap_sub_of_le (by norm_num [userVmSize]) hrange.1] at hrange
    omega

/-- For every well-formed list, a `DoMmap` that is not fixed does what it should exactly when
`MmapSettled` holds. -/
theorem mmap_places_iff {mm : MemoryManager} (hwf : WellFormed mm.spaceMap)
    (addr len prot flags : UInt32) (kmalloc : Option VMSpace)
    (hfixed : mapFixed flags.toNat = false) :
    MmapPlaces mm len.toNat prot.toNat flags.toNat kmalloc
        (doMmap mm addr.toNat len.toNat prot.toNat flags.toNat kmalloc) ↔
      MmapSettled mm addr.toNat len.toNat kmalloc := by
  have hordered := well_formed_iff_ordered.mp hwf
  have hword : len.toNat < 2 ^ 32 := len.toNat_lt
  generalize flags.toNat = flags at hfixed ⊢
  generalize addr.toNat = addr
  generalize len.toNat = len at hword ⊢
  cases kmalloc with
  | none =>
      rw [do_mmap_refused (.inl rfl), mmap_places_failed]
      simp [MmapSettled]
  | some block =>
      by_cases hzero : pageAlign len = 0
      · rw [do_mmap_refused (.inr (.inl hzero)), mmap_places_failed]
        refine ⟨fun _ => .inr (.inl hzero), fun _ _ => ?_⟩
        exact (page_align_out_of_range hword (.inl hzero)).imp_right .inl
      have hsettled : MmapSettled mm addr len (some block) ↔
          (HasGap mm.spaceMap (pageAlign len) ∧ addr + pageAlign len ≤ userVmSize) ∨
            (¬ HasGap mm.spaceMap (pageAlign len) ∧
              (userVmSize < addr + pageAlign len ∨ StopsAtLimit mm.spaceMap (pageAlign len))) := by
        simp [MmapSettled, hzero]
      by_cases hfits : addr + pageAlign len ≤ userVmSize
      · rw [do_mmap_search block hfixed hzero hfits, hsettled]
        have huser : pageAlign len ≤ userVmSize := by omega
        have hend := get_unmapped_search_end hordered huser
        generalize getUnmappedVMSpace mm.spaceMap (pageAlign len) = r at hend
        cases hend with
        | limit hstops hnone =>
            rw [if_pos rfl, mmap_places_failed]
            exact iff_of_true (fun _ => .inr (.inr hnone)) (.inr ⟨hnone, .inr hstops⟩)
        | found hplaced hfree =>
            have hne : r ≠ minusOne := by
              rintro rfl
              have := hplaced.aligned
              norm_num at this
            simp only [hne, if_false]
            rw [mmap_places_inserted hplaced.aligned]
            exact iff_of_true hplaced (.inl ⟨hplaced.has_gap hfree, hfits⟩)
        | exhausted halign hlarge hgoes hnone =>
            have hne : r ≠ minusOne := by
              rintro rfl
              norm_num at halign
            simp only [hne, if_false]
            rw [mmap_places_inserted halign]
            refine iff_of_false (fun h => ?_) ?_
            · have := h.limit
              omega
            · rintro (⟨hgap, -⟩ | ⟨-, hlarge' | hstops⟩)
              · exact hnone hgap
              · omega
              · exact hgoes hstops
      · rw [do_mmap_refused (.inr (.inr (Nat.not_le.mp hfits))), mmap_places_failed, hsettled]
        constructor
        · intro h
          refine .inr ⟨?_, .inl (Nat.not_le.mp hfits)⟩
          rintro ⟨x, hbase, hlimit, hx⟩
          rcases h rfl with rfl | hlarge | hnone
          · exact hzero rfl
          · have := le_page_align hword hzero
            omega
          · exact hnone ⟨x, hbase, hlimit, hx⟩
        · rintro (⟨-, hfits'⟩ | ⟨hnone, -⟩) -
          · exact absurd hfits' hfits
          · exact .inr (.inr hnone)

/-- In a process with a stack, `0x3000` bytes are placed at the base. -/
theorem mmap_places_above_base :
    MmapPlaces ⟨[⟨0x7FFFF000, 0x80000000, 3, 1⟩], 0, 0⟩ 0x3000 3 0 (some ⟨0, 0, 0, 0⟩)
      (doMmap ⟨[⟨0x7FFFF000, 0x80000000, 3, 1⟩], 0, 0⟩ 0 0x3000 3 0 (some ⟨0, 0, 0, 0⟩)) := by
  refine (@mmap_places_iff ⟨[⟨0x7FFFF000, 0x80000000, 3, 1⟩], 0, 0⟩ ⟨?_, ?_, ?_⟩ 0 0x3000 3 0
    (some ⟨0, 0, 0, 0⟩) (by decide)).mpr ?_
  · simp
  · simp
  · intro s hs
    rw [List.mem_singleton.mp hs]
    constructor <;> norm_num
  · refine .inr (.inr (.inl ⟨⟨0x40000000, by decide, by decide, ?_⟩, by decide⟩))
    intro t ht
    rw [List.mem_singleton.mp ht]
    decide

/-- When everything from the base to the stack is mapped, one more page is placed behind the
stack, at `USER_VM_SIZE`. -/
theorem mmap_leaves_user_memory : ∃ mm : MemoryManager, WellFormed mm.spaceMap ∧
    (doMmap mm 0 0x1000 3 0 (some ⟨0, 0, 0, 0⟩)).2 = userVmSize ∧
    ¬ MmapPlaces mm 0x1000 3 0 (some ⟨0, 0, 0, 0⟩)
      (doMmap mm 0 0x1000 3 0 (some ⟨0, 0, 0, 0⟩)) := by
  have hplace : (doMmap ⟨[⟨0x40000000, 0x7FFFF000, 3, 0⟩, ⟨0x7FFFF000, 0x80000000, 3, 1⟩], 0, 0⟩
      0 0x1000 3 0 (some ⟨0, 0, 0, 0⟩)).2 = userVmSize := by decide
  refine ⟨⟨[⟨0x40000000, 0x7FFFF000, 3, 0⟩, ⟨0x7FFFF000, 0x80000000, 3, 1⟩], 0, 0⟩, ⟨?_, ?_, ?_⟩,
    hplace, fun h => ?_⟩
  · simp
  · simp only [List.pairwise_pair, VMSpace.Holds]
    intro address
    omega
  · intro s hs
    rcases List.mem_cons.mp hs with rfl | hs
    · constructor <;> norm_num
    · rw [List.mem_singleton.mp hs]
      constructor <;> norm_num
  · have hlimit := (h.placed (by rw [hplace]; decide)).limit
    rw [hplace] at hlimit
    revert hlimit
    decide

end XBook
