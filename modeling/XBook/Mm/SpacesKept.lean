import XBook.Mm.PagesReleased

/-!
# What the spaces keep

The functions of `mm/vmspace.c`, seen from the addresses that the spaces hold. `DoMmap`, `SysBrk`
when it grows the heap, and the expansion of a stack take no address away. `DoMunmap` does, and
`MunmapFits` is the condition that none of those addresses has a page.
-/

namespace XBook.Paging

/-- The range that a call of `DoMunmap` takes away has no pages; nor have the spaces before it,
which the call drops when the range begins a space. -/
def MunmapFits (p : Process) (addr len : Nat) (kmalloc : Option VMSpace) : Prop :=
  (doMunmap p.mm addr len kmalloc).2 = 0 → ∀ c, findVMSpace p.mm.spaceMap addr = some c →
    ∀ v < userVmSize, (p.pgdir.frame v).isSome →
      ¬ (addr ≤ v ∧ v < addr + pageAlign len) ∧ (addr = c.space.start → ¬ Covered c.before v)

theorem wrap_mod {n : Nat} (h : n % pageSize = 0) : wrap n % pageSize = 0 := by
  simp only [wrap, pageSize] at *
  omega

theorem covered_insert {space : VMSpace} {spaces : List VMSpace} {v : Nat} :
    Covered (insertVMSpace space spaces) v ↔
      (space.start ≤ v ∧ v < space.stop) ∨ Covered spaces v := by
  simp only [Covered, mem_insert_vm_space]
  constructor
  · rintro ⟨sp, rfl | hsp, hv⟩
    · exact .inl hv
    · exact .inr ⟨sp, hsp, hv⟩
  · rintro (hv | ⟨sp, hsp, hv⟩)
    · exact ⟨space, .inl rfl, hv⟩
    · exact ⟨sp, .inr hsp, hv⟩

/-- `GetUnmappedVMSpace` returns a page address, or `-1`. -/
theorem get_unmapped_from_bounds {spaces : List VMSpace} (h : ∀ sp ∈ spaces, SpaceBounds sp)
    (len : Nat) {addr : Nat} (haddr : addr % pageSize = 0 ∧ addr < 2 ^ 32) :
    getUnmappedFrom len addr spaces = minusOne ∨
      getUnmappedFrom len addr spaces % pageSize = 0 ∧
        getUnmappedFrom len addr spaces < 2 ^ 32 := by
  induction spaces generalizing addr with
  | nil => exact .inr haddr
  | cons sp rest ih =>
      simp only [getUnmappedFrom]
      split
      · exact .inl rfl
      · split
        · exact .inr haddr
        · have hsp := h sp List.mem_cons_self
          exact ih (fun sp' hsp' => h sp' (List.mem_cons_of_mem _ hsp')) ⟨hsp.stop, hsp.stopWord⟩

/-- The address that `DoMmap` maps is a page address. -/
theorem mmap_address_bounds {spaces : List VMSpace} (h : ∀ sp ∈ spaces, SpaceBounds sp)
    {addr len flags start : Nat} (haddr : addr < 2 ^ 32)
    (hstart : mmapAddress spaces addr len flags = some start) :
    start % pageSize = 0 ∧ start < 2 ^ 32 ∧ (mapFixed flags = true → start = addr) := by
  simp only [mmapAddress] at hstart
  split at hstart
  · next hfixed =>
      have halign : addr % pageSize = 0 ∧ start = addr := by
        split at hstart
        · cases hstart
        · next halign =>
            refine ⟨by simpa using halign, ?_⟩
            split at hstart
            · split at hstart <;> cases hstart
              rfl
            · cases hstart
              rfl
      rw [halign.2]
      exact ⟨halign.1, haddr, fun _ => rfl⟩
  · next hfixed =>
      split at hstart
      · cases hstart
      · next hne =>
          cases hstart
          have hbase : vmsUnmappedBase % pageSize = 0 ∧ vmsUnmappedBase < 2 ^ 32 := by decide
          refine ⟨?_, ?_, fun hyes => absurd hyes hfixed⟩
          all_goals
            simp only [getUnmappedVMSpace] at hne ⊢
            split at hne
          · exact hbase.1
          · next c hfind =>
              obtain ⟨hspaces, -, -⟩ := find_vm_space_some hfind
              have hrest : ∀ sp ∈ c.space :: c.after, SpaceBounds sp := fun sp hsp =>
                h sp (by rw [hspaces]; exact List.mem_append_right _ hsp)
              exact ((get_unmapped_from_bounds hrest len hbase).resolve_left hne).1
          · exact hbase.2
          · next c hfind =>
              obtain ⟨hspaces, -, -⟩ := find_vm_space_some hfind
              have hrest : ∀ sp ∈ c.space :: c.after, SpaceBounds sp := fun sp hsp =>
                h sp (by rw [hspaces]; exact List.mem_append_right _ hsp)
              exact ((get_unmapped_from_bounds hrest len hbase).resolve_left hne).2

/-- What `DoMmap` does: it fails, or it inserts one space. -/
theorem do_mmap_cases {mm : MemoryManager} (h : ∀ sp ∈ mm.spaceMap, SpaceBounds sp)
    {addr : Nat} (haddr : addr < 2 ^ 32) (len prot flags : Nat) (kmalloc : Option VMSpace) :
    doMmap mm addr len prot flags kmalloc = (mm, minusOne) ∨
      ∃ start, start % pageSize = 0 ∧ start < 2 ^ 32 ∧ 0 < pageAlign len ∧
        (mapFixed flags = true → start = addr ∧ addr + pageAlign len ≤ userVmSize) ∧
        doMmap mm addr len prot flags kmalloc =
          ({ mm with spaceMap :=
              insertVMSpace ⟨start, wrap (start + pageAlign len), prot, flags⟩ mm.spaceMap },
            start) := by
  simp only [doMmap]
  split
  · exact .inl rfl
  next hzero =>
  split
  · exact .inl rfl
  next hargs =>
    simp only [not_or, Nat.not_lt] at hargs
    obtain ⟨hlen, -, hfits⟩ := hargs
    rw [wrap_sub_of_le (by norm_num [userVmSize]) hlen] at hfits
    cases hstart : mmapAddress mm.spaceMap addr (pageAlign len) flags with
    | none => exact .inl (by cases kmalloc <;> rfl)
    | some start =>
        cases kmalloc with
        | none => exact .inl rfl
        | some block =>
            obtain ⟨halign, hword, hsame⟩ := mmap_address_bounds h haddr hstart
            exact .inr ⟨start, halign, hword, Nat.pos_of_ne_zero hzero,
              fun hfixed => ⟨hsame hfixed, by omega⟩, rfl⟩

theorem bounds_insert {space : VMSpace} {spaces : List VMSpace}
    (h : ∀ sp ∈ spaces, SpaceBounds sp) (hspace : SpaceBounds space) :
    ∀ sp ∈ insertVMSpace space spaces, SpaceBounds sp := by
  intro sp hsp
  rcases mem_insert_vm_space.mp hsp with rfl | hsp
  · exact hspace
  · exact h sp hsp

theorem bounds_wrap {start len : Nat} (prot flags : Nat) (hstart : start % pageSize = 0)
    (hword : start < 2 ^ 32) (hlen : len % pageSize = 0) :
    SpaceBounds ⟨start, wrap (start + len), prot, flags⟩ := by
  have hstop : (start + len) % pageSize = 0 := by
    simp only [pageSize] at *
    omega
  exact ⟨hstart, wrap_mod hstop, hword, wrap_lt _⟩

/-- `DoMmap` takes no address away. -/
theorem do_mmap_covered {mm : MemoryManager} (h : ∀ sp ∈ mm.spaceMap, SpaceBounds sp)
    {addr : Nat} (haddr : addr < 2 ^ 32) (len prot flags : Nat) (kmalloc : Option VMSpace) :
    (∀ sp ∈ (doMmap mm addr len prot flags kmalloc).1.spaceMap, SpaceBounds sp) ∧
      ∀ v, Covered mm.spaceMap v → Covered (doMmap mm addr len prot flags kmalloc).1.spaceMap v := by
  rcases do_mmap_cases h haddr len prot flags kmalloc with heq | ⟨start, halign, hword, -, -, heq⟩
  · rw [heq]
    exact ⟨h, fun _ hv => hv⟩
  · rw [heq]
    exact ⟨bounds_insert h (bounds_wrap _ _ halign hword (page_align_mod _)),
      fun v hv => covered_insert.mpr (.inr hv)⟩

/-- What is left of the spaces when a range is cut out of one of them. -/
theorem cut_covered {c : VMSpaceCursor} {addr len : Nat} (block : VMSpace)
    (h : ∀ sp ∈ c.before ++ c.space :: c.after, SpaceBounds sp)
    (haddr : addr % pageSize = 0 ∧ addr < 2 ^ 32) (hlen : len % pageSize = 0)
    (hstop : addr + len ≤ c.space.stop) :
    (∀ sp ∈ cutVMSpace c addr len block, SpaceBounds sp) ∧
      ∀ v, Covered (c.before ++ c.space :: c.after) v → ¬ (addr ≤ v ∧ v < addr + len) →
        (addr = c.space.start → ¬ Covered c.before v) → Covered (cutVMSpace c addr len block) v := by
  have hspace := h c.space (by simp)
  have hword : wrap (addr + len) = addr + len :=
    wrap_of_lt (Nat.lt_of_le_of_lt hstop hspace.stopWord)
  have hleft : SpaceBounds { c.space with stop := addr } :=
    ⟨hspace.start, haddr.1, hspace.startWord, haddr.2⟩
  have hright : SpaceBounds { block with start := addr + len, stop := c.space.stop } := by
    refine ⟨?_, hspace.stop, ?_, hspace.stopWord⟩
    · simp only [pageSize] at *
      omega
    · have := hspace.stopWord
      simp only
      omega
  simp only [cutVMSpace, hword]
  by_cases hfirst : c.space.start = addr
  · rw [if_pos hfirst]
    have hv : ∀ v, Covered (c.before ++ c.space :: c.after) v → ¬ (addr ≤ v ∧ v < addr + len) →
        (addr = c.space.start → ¬ Covered c.before v) →
          (addr + len ≤ v ∧ v < c.space.stop) ∨ Covered c.after v := by
      intro v hcovered hcut hbefore
      obtain ⟨sp, hsp, hv⟩ := hcovered
      rcases List.mem_append.mp hsp with hsp | hsp
      · exact absurd ⟨sp, hsp, hv⟩ (hbefore hfirst.symm)
      · rcases List.mem_cons.mp hsp with rfl | hsp
        · exact .inl ⟨by omega, hv.2⟩
        · exact .inr ⟨sp, hsp, hv⟩
    simp only [removeVMSpace]
    split
    · next hempty =>
        refine ⟨fun sp hsp => h sp (by simp [hsp]), ?_⟩
        intro v hcovered hcut hbefore
        rcases hv v hcovered hcut hbefore with hin | hin
        · omega
        · exact hin
    · refine ⟨?_, ?_⟩
      · intro sp hsp
        rcases List.mem_cons.mp hsp with rfl | hsp
        · exact hright
        · exact h sp (by simp [hsp])
      · intro v hcovered hcut hbefore
        rcases hv v hcovered hcut hbefore with hin | ⟨sp, hsp, hin⟩
        · exact ⟨_, List.mem_cons_self, hin⟩
        · exact ⟨sp, List.mem_cons_of_mem _ hsp, hin⟩
  · rw [if_neg hfirst]
    have hv : ∀ v, Covered (c.before ++ c.space :: c.after) v → ¬ (addr ≤ v ∧ v < addr + len) →
        Covered c.before v ∨ (c.space.start ≤ v ∧ v < addr) ∨
          (addr + len ≤ v ∧ v < c.space.stop) ∨ Covered c.after v := by
      intro v hcovered hcut
      obtain ⟨sp, hsp, hv⟩ := hcovered
      rcases List.mem_append.mp hsp with hsp | hsp
      · exact .inl ⟨sp, hsp, hv⟩
      · rcases List.mem_cons.mp hsp with rfl | hsp
        · exact .inr (by omega)
        · exact .inr (.inr (.inr ⟨sp, hsp, hv⟩))
    split
    · next hempty =>
        refine ⟨?_, ?_⟩
        · intro sp hsp
          simp only [removeVMSpace, List.mem_append, List.mem_cons] at hsp
          rcases hsp with hsp | rfl | hsp
          · exact h sp (by simp [hsp])
          · exact hleft
          · exact h sp (by simp [hsp])
        · intro v hcovered hcut _
          rcases hv v hcovered hcut with ⟨sp, hsp, hin⟩ | hin | hin | ⟨sp, hsp, hin⟩
          · exact ⟨sp, by simp [removeVMSpace, hsp], hin⟩
          · exact ⟨{ c.space with stop := addr }, by simp [removeVMSpace], hin⟩
          · omega
          · exact ⟨sp, by simp [removeVMSpace, hsp], hin⟩
    · refine ⟨?_, ?_⟩
      · intro sp hsp
        simp only [List.mem_append, List.mem_cons] at hsp
        rcases hsp with hsp | rfl | rfl | hsp
        · exact h sp (by simp [hsp])
        · exact hleft
        · exact hright
        · exact h sp (by simp [hsp])
      · intro v hcovered hcut _
        rcases hv v hcovered hcut with ⟨sp, hsp, hin⟩ | hin | hin | ⟨sp, hsp, hin⟩
        · exact ⟨sp, by simp [hsp], hin⟩
        · exact ⟨{ c.space with stop := addr }, by simp, hin⟩
        · exact ⟨{ block with start := addr + len, stop := c.space.stop }, by simp, hin⟩
        · exact ⟨sp, by simp [hsp], hin⟩

/-- A call of `DoMunmap` that takes no page away. -/
theorem do_munmap_covered {p : Process} (h : ∀ sp ∈ p.mm.spaceMap, SpaceBounds sp)
    {addr len : Nat} {kmalloc : Option VMSpace} (hfits : MunmapFits p addr len kmalloc) :
    (∀ sp ∈ (doMunmap p.mm addr len kmalloc).1.spaceMap, SpaceBounds sp) ∧
      ∀ v < userVmSize, (p.pgdir.frame v).isSome → Covered p.mm.spaceMap v →
        Covered (doMunmap p.mm addr len kmalloc).1.spaceMap v := by
  rcases do_munmap_cases p.mm addr len kmalloc with
    heq | ⟨c, hfind, halign, huser, -, heq | ⟨block, -, hstop, heq⟩⟩
  · rw [heq]
    exact ⟨h, fun _ _ _ hv => hv⟩
  · rw [heq]
    exact ⟨h, fun _ _ _ hv => hv⟩
  · have hcut := hfits (by rw [heq]) c hfind
    obtain ⟨hspaces, -, -⟩ := find_vm_space_some hfind
    rw [hspaces] at h
    have haddr : addr < 2 ^ 32 := by
      simp only [userVmSize] at huser
      omega
    rw [heq]
    obtain ⟨hbounds, hcovered⟩ := cut_covered block h ⟨halign, haddr⟩
      (page_align_mod len) hstop
    refine ⟨hbounds, ?_⟩
    intro v hv hframe hin
    rw [hspaces] at hin
    exact hcovered v hin (hcut v hv hframe).1 (hcut v hv hframe).2

/-- The bounds of the spaces, and the addresses they hold, when one of them is replaced by a
larger one. -/
theorem replace_covered {before after : List VMSpace} {space space' : VMSpace}
    (h : ∀ sp ∈ before ++ space :: after, SpaceBounds sp) (hspace : SpaceBounds space')
    (hstart : space'.start ≤ space.start) (hstop : space.stop ≤ space'.stop) :
    (∀ sp ∈ before ++ space' :: after, SpaceBounds sp) ∧
      ∀ v, Covered (before ++ space :: after) v → Covered (before ++ space' :: after) v := by
  refine ⟨?_, ?_⟩
  · intro sp hsp
    simp only [List.mem_append, List.mem_cons] at hsp
    rcases hsp with hsp | rfl | hsp
    · exact h sp (by simp [hsp])
    · exact hspace
    · exact h sp (by simp [hsp])
  · rintro v ⟨sp, hsp, hv⟩
    simp only [List.mem_append, List.mem_cons] at hsp
    rcases hsp with hsp | rfl | hsp
    · exact ⟨sp, by simp [hsp], hv⟩
    · exact ⟨space', by simp, by omega⟩
    · exact ⟨sp, by simp [hsp], hv⟩

/-- `DoBrk`, when its `DoMunmap` takes no page away. -/
theorem do_brk_covered {p : Process} (h : ∀ sp ∈ p.mm.spaceMap, SpaceBounds sp) {addr len : Nat}
    (hlen : len % pageSize = 0) {kmallocCut : Option VMSpace} (kmalloc : Option VMSpace)
    (hfits : MunmapFits p addr len kmallocCut) :
    (∀ sp ∈ (doBrk p.mm addr len kmallocCut kmalloc).1.spaceMap, SpaceBounds sp) ∧
      ∀ v < userVmSize, (p.pgdir.frame v).isSome → Covered p.mm.spaceMap v →
        Covered (doBrk p.mm addr len kmallocCut kmalloc).1.spaceMap v := by
  obtain ⟨hbounds, hcovered⟩ := do_munmap_covered h hfits
  simp only [doBrk, page_align_of_aligned hlen]
  split
  · exact ⟨h, fun _ _ _ hv => hv⟩
  split
  · exact ⟨hbounds, hcovered⟩
  next hret =>
    -- the call of `DoMunmap` has accepted the range
    have hrange : addr % pageSize = 0 ∧ addr + len ≤ userVmSize := by
      rcases do_munmap_cases p.mm addr len kmallocCut with
        heq | ⟨c, -, halign, huser, -, -⟩
      · rw [heq] at hret
        exact absurd rfl hret
      · rw [page_align_of_aligned hlen] at huser
        exact ⟨halign, huser⟩
    have hword : wrap (addr + len) = addr + len := by
      refine wrap_of_lt (Nat.lt_of_le_of_lt hrange.2 (by norm_num [userVmSize]))
    have haddr : addr < 2 ^ 32 := by
      have := hrange.2
      simp only [userVmSize] at this
      omega
    have hnew := fun prot flags => bounds_wrap prot flags hrange.1 haddr hlen
    generalize hmm : (doMunmap p.mm addr len kmallocCut).1 = mm at hbounds hcovered ⊢
    split
    · next c hheap =>
        obtain ⟨hspaces, hstop⟩ := heap_space_before_some hheap
        rw [hspaces] at hbounds hcovered
        have hspace := hbounds c.space (by simp)
        have hgrown : SpaceBounds { c.space with stop := wrap (addr + len) } :=
          ⟨hspace.start, (hnew 0 0).stop, hspace.startWord, wrap_lt _⟩
        obtain ⟨hbounds', hcovered'⟩ := replace_covered hbounds hgrown (Nat.le_refl _)
          (by simp only [hword]; omega)
        exact ⟨hbounds', fun v hv hframe hin => hcovered' v (hcovered v hv hframe hin)⟩
    · exact ⟨hbounds, hcovered⟩
    · exact ⟨bounds_insert hbounds (hnew _ _),
        fun v hv hframe hin => covered_insert.mpr (.inr (hcovered v hv hframe hin))⟩

/-- `SysBrk`, when neither of its calls of `DoMunmap` takes a page away. -/
theorem sys_brk_covered {p : Process} (h : ∀ sp ∈ p.mm.spaceMap, SpaceBounds sp) (brk : Nat)
    {kmallocCut : Option VMSpace} (kmalloc : Option VMSpace)
    (hshrink : MunmapFits p (pageAlign brk) (wrapSub (pageAlign p.mm.brk) (pageAlign brk))
      kmallocCut)
    (hgrow : MunmapFits p (pageAlign p.mm.brk) (wrapSub (pageAlign brk) (pageAlign p.mm.brk))
      kmallocCut) :
    (∀ sp ∈ (sysBrk p.mm brk kmallocCut kmalloc).1.spaceMap, SpaceBounds sp) ∧
      ∀ v < userVmSize, (p.pgdir.frame v).isSome → Covered p.mm.spaceMap v →
        Covered (sysBrk p.mm brk kmallocCut kmalloc).1.spaceMap v := by
  have hsame : (∀ sp ∈ p.mm.spaceMap, SpaceBounds sp) ∧
      ∀ v < userVmSize, (p.pgdir.frame v).isSome → Covered p.mm.spaceMap v →
        Covered p.mm.spaceMap v := ⟨h, fun _ _ _ hv => hv⟩
  have hcut := do_munmap_covered h hshrink
  have hmore := do_brk_covered h (wrap_sub_mod (page_align_mod _) (page_align_mod _)) kmalloc hgrow
  simp only [sysBrk]
  split
  · exact hsame
  split
  · exact hsame
  split
  · split
    · exact hcut
    · exact hcut
  split
  · exact hsame
  split
  · exact hsame
  split
  · exact hmore
  · exact hmore

/-- A fault takes no address away. -/
theorem page_fault_covered {mm : MemoryManager} (h : ∀ sp ∈ mm.spaceMap, SpaceBounds sp)
    (addr esp errorCode : Nat) :
    (∀ sp ∈ (XBook.doPageFault mm addr esp errorCode).spaceMap, SpaceBounds sp) ∧
      ∀ v, Covered mm.spaceMap v → Covered (XBook.doPageFault mm addr esp errorCode).spaceMap v := by
  simp only [XBook.doPageFault]
  split
  · exact ⟨h, fun _ hv => hv⟩
  next c hfind =>
    obtain ⟨hspaces, -, -⟩ := find_vm_space_some hfind
    split
    · next hexpand =>
        rw [hspaces] at h ⊢
        have hspace := h c.space (by simp)
        have hmask : pageMask addr ≤ addr := Nat.div_mul_le_self _ _
        have hstart : pageMask addr ≤ c.space.start := by
          have := hexpand.1
          omega
        exact replace_covered h
          ⟨page_mask_mod addr, hspace.stop, Nat.lt_of_le_of_lt hstart hspace.startWord,
            hspace.stopWord⟩ hstart (Nat.le_refl _)
    · exact ⟨h, fun _ hv => hv⟩

end XBook.Paging
