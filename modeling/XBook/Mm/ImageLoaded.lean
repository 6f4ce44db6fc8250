import XBook.Mm.SpacesKept

/-!
# Loading an image

`Loaded` says what the functions of `mm/exec.c` do that build an image: they map pages, and put
each of them in a space. `load_elf_binary_loaded` proves it along the program headers, and
`exec_image_loaded` adds the stack page.
-/

namespace XBook.Paging

/-- The address lies in a page of the segment. -/
def ProgHeader.Holds (h : ProgHeader) (v : Nat) : Prop :=
  pageMask h.vaddr ≤ v ∧ v < pageMask h.vaddr + occupyPages h.size h.vaddr * pageSize

/-- What functions do that map `pages` and give them a space. -/
structure Loaded (s t : ProcessState) (pages : Nat → Prop) : Prop where
  adds : Adds s.mem s.proc.pgdir t.mem t.proc.pgdir pages
  tables : KeepsTables s.proc.pgdir t.proc.pgdir
  words : t.mem.pages = s.mem.pages
  freed : t.proc.freed = s.proc.freed
  running : t.proc.exited = s.proc.exited
  bounds : ∀ sp ∈ t.proc.mm.spaceMap, SpaceBounds sp
  covered : ∀ v, Covered s.proc.mm.spaceMap v → Covered t.proc.mm.spaceMap v
  spans : ∀ v < userVmSize, pages v → Covered t.proc.mm.spaceMap v

variable {s t u : ProcessState} {pages pages' : Nat → Prop}

theorem Loaded.refl (hbounds : ∀ sp ∈ s.proc.mm.spaceMap, SpaceBounds sp) :
    Loaded s s fun _ => False :=
  ⟨.refl _ _ _, fun _ table htable => ⟨table, htable, rfl⟩, rfl, rfl, rfl, hbounds,
    fun _ h => h, fun _ _ h => h.elim⟩

theorem Loaded.trans (h : Loaded s t pages) (h' : Loaded t u pages') :
    Loaded s u fun v => pages v ∨ pages' v := by
  refine ⟨h.adds.trans h'.adds, h.tables.trans h'.tables, h'.words.trans h.words,
    h'.freed.trans h.freed, h'.running.trans h.running, h'.bounds,
    fun v hv => h'.covered v (h.covered v hv), ?_⟩
  intro v hv hor
  rcases hor with hfirst | hrest
  · exact h'.covered v (h.spans v hv hfirst)
  · exact h'.spans v hv hrest

theorem Loaded.mono (h : Loaded s t pages) (himp : ∀ v < userVmSize, pages v → pages' v)
    (hspans : ∀ v < userVmSize, pages' v → Covered t.proc.mm.spaceMap v) : Loaded s t pages' :=
  ⟨h.adds.mono himp, h.tables, h.words, h.freed, h.running, h.bounds, h.covered, hspans⟩

/-! ## Segments -/

/-- A segment never has more pages than there are. -/
theorem occupy_pages_le (fileSize vaddr : Nat) : occupyPages fileSize vaddr ≤ 2 ^ 20 := by
  simp only [occupyPages]
  split
  · have hround : divRoundUp (wrapSub fileSize (pageSize - vaddr % pageSize)) pageSize < 2 ^ 20 := by
      have hword := wrap_lt (wrapSub fileSize (pageSize - vaddr % pageSize) + pageSize - 1)
      simp only [divRoundUp, pageSize] at *
      omega
    rw [wrap_of_lt (by omega)]
    omega
  · norm_num

theorem keeps_words_map_pages {m m' : PageMemory} {dir dir' : Directory} {npages v : Nat} {ret : Int}
    (h : mapPagesMaybeMapped userWrite npages v m dir = some (m', dir', ret)) :
    m'.pages = m.pages := by
  induction npages generalizing v m dir with
  | zero =>
      cases h
      rfl
  | succ npages ih =>
      simp only [mapPagesMaybeMapped] at h
      split at h
      · exact ih h
      · obtain ⟨⟨m₁, page⟩, halloc, h⟩ := Option.bind_eq_some_iff.mp h
        have hwords := (alloc_page_cases halloc).2
        by_cases hpage : page = 0
        · simp only [hpage, if_true] at h
          cases h
          exact hwords
        · simp only [hpage, if_false] at h
          obtain ⟨⟨m₂, dir₂, ret₂⟩, hadd, h⟩ := Option.bind_eq_some_iff.mp h
          simp only at h
          split at h
          · cases h
            exact (keeps_page_table_add hadd).2.trans hwords
          · exact (ih h).trans ((keeps_page_table_add hadd).2.trans hwords)

/-- `DoMmap` maps nothing behind the last address. -/
theorem do_mmap_start {mm : MemoryManager} {addr len prot flags : Nat} {kmalloc : Option VMSpace}
    (hret : (doMmap mm addr len prot flags kmalloc).2 < 0x80000000) : addr < 2 ^ 32 := by
  by_contra hlarge
  have hfails : doMmap mm addr len prot flags kmalloc = (mm, minusOne) := by
    have huser : addr > userVmSize := by
      simp only [userVmSize]
      omega
    simp [doMmap, huser]
  rw [hfails] at hret
  simp [minusOne] at hret

/-- The space that `SegmentLoad` asks `DoMmap` for. -/
theorem segment_space {mm : MemoryManager} (hbounds : ∀ sp ∈ mm.spaceMap, SpaceBounds sp)
    {start npages : Nat} (hpages : npages ≤ 2 ^ 20) {kmalloc : Option VMSpace}
    (hret : (doMmap mm start (wrap (npages * pageSize)) 7 0x10 kmalloc).2 < 0x80000000) :
    start + npages * pageSize ≤ userVmSize ∧
      (doMmap mm start (wrap (npages * pageSize)) 7 0x10 kmalloc).1 =
        { mm with spaceMap := insertVMSpace ⟨start, start + npages * pageSize, 7, 0x10⟩ mm.spaceMap } := by
  have hlen : pageAlign (wrap (npages * pageSize)) = wrap (npages * pageSize) :=
    page_align_of_aligned (wrap_mod (Nat.mul_mod_left _ _))
  have hstart := do_mmap_start hret
  rcases do_mmap_cases hbounds hstart (wrap (npages * pageSize)) 7 0x10 kmalloc with
    heq | ⟨start', -, -, hpos, hfixed, heq⟩
  · rw [heq] at hret
    simp [minusOne] at hret
  · rw [hlen] at hpos hfixed heq
    obtain ⟨rfl, hfits⟩ := hfixed (by decide)
    have hword : wrap (npages * pageSize) = npages * pageSize := by
      simp only [wrap, pageSize] at *
      omega
    rw [hword] at hfits heq
    rw [hword, heq, wrap_of_lt (Nat.lt_of_le_of_lt hfits (by norm_num [userVmSize]))]
    exact ⟨hfits, rfl⟩

/-- What `SegmentLoad` has done when it returns 0. -/
theorem segment_load_zero {h : ProgHeader} {fileSize : Nat}
    (hload : segmentLoad s h fileSize = some (t, 0)) : ∃ mem dir,
      mapPagesMaybeMapped userWrite (occupyPages fileSize h.vaddr) (pageMask h.vaddr) s.mem
        s.proc.pgdir = some (mem, dir, 0) ∧
      (doMmap s.proc.mm (pageMask h.vaddr) (wrap (occupyPages fileSize h.vaddr * pageSize)) 7 0x10
        h.kmalloc).2 < 0x80000000 ∧ h.segmentRead = true ∧
      t = ⟨mem, { s.proc with
        mm := (doMmap s.proc.mm (pageMask h.vaddr) (wrap (occupyPages fileSize h.vaddr * pageSize))
          7 0x10 h.kmalloc).1
        pgdir := dir }⟩ := by
  rw [segmentLoad] at hload
  obtain ⟨⟨mem, dir, ret⟩, hmap, heq⟩ := Option.map_eq_some_iff.mp hload
  simp only at heq
  split at heq
  · simp at heq
  next hret =>
    have hzero : ret = 0 := by simpa using hret
    rw [hzero] at hmap
    split at heq
    · simp at heq
    next hword =>
      split at heq
      next hread =>
        exact ⟨mem, dir, hmap, Nat.not_le.mp hword, hread, (Prod.mk.inj heq).1.symm⟩
      · simp at heq

/-- A segment that `SegmentLoad` has loaded. -/
theorem segment_load_loaded {h : ProgHeader} (hm : WellPlaced s.mem.phymem)
    (hbounds : ∀ sp ∈ s.proc.mm.spaceMap, SpaceBounds sp)
    (hload : segmentLoad s h h.size = some (t, 0))
    (hclean : CleanTables s.mem.pages s.proc.pgdir t.proc.pgdir) : Loaded s t h.Holds := by
  obtain ⟨mem, dir, hmap, hret, -, rfl⟩ := segment_load_zero hload
  obtain ⟨hfits, hmm⟩ := segment_space hbounds (occupy_pages_le _ _) hret
  have hstart : pageMask h.vaddr < 2 ^ 32 := by
    simp only [userVmSize] at hfits
    omega
  have halign := page_mask_mod h.vaddr
  -- the pages that are visited are those of the space
  have hvisit : ∀ v, VisitedFrom (pageMask h.vaddr) (occupyPages h.size h.vaddr) v → h.Holds v := by
    intro v hvisit
    obtain ⟨i, hi, hsame⟩ := hvisit
    have hle : (i + 1) * pageSize ≤ occupyPages h.size h.vaddr * pageSize :=
      Nat.mul_le_mul_right _ hi
    rw [wrap_of_lt (by simp only [userVmSize, pageSize] at *; omega)] at hsame
    simp only [ProgHeader.Holds, SamePage, pageSize] at *
    omega
  have hspace : SpaceBounds ⟨pageMask h.vaddr,
      pageMask h.vaddr + occupyPages h.size h.vaddr * pageSize, 7, 0x10⟩ := by
    refine ⟨halign, ?_, hstart, ?_⟩
    · simp only [pageSize] at *
      omega
    · exact Nat.lt_of_le_of_lt hfits (by norm_num [userVmSize])
  rw [hmm]
  exact ⟨(adds_map_pages hm hstart hmap hclean).mono (fun v _ => hvisit v), keeps_map_pages hmap,
    keeps_words_map_pages hmap, rfl, rfl, bounds_insert hbounds hspace,
    fun v hv => covered_insert.mpr (.inr hv), fun v _ hv => covered_insert.mpr (.inl hv)⟩

/-- The address lies in a page of a segment that `LoadElfBinary` loads. -/
def HeldBy (headers : List ProgHeader) (v : Nat) : Prop :=
  ∃ h ∈ headers, h.type = 1 ∧ h.Holds v

theorem keeps_segment_load {h : ProgHeader} {fileSize : Nat} {ret : Int}
    (hload : segmentLoad s h fileSize = some (t, ret)) :
    KeepsTables s.proc.pgdir t.proc.pgdir := by
  rw [segmentLoad] at hload
  obtain ⟨⟨mem, dir, ret'⟩, hmap, heq⟩ := Option.map_eq_some_iff.mp hload
  have hkeep := keeps_map_pages hmap
  have hdir : t.proc.pgdir = dir := by
    have hfst := congrArg (fun r : ProcessState × Int => r.1.proc.pgdir) heq
    simp only at hfst
    rw [← hfst]
    split
    · rfl
    split
    · rfl
    split <;> rfl
  rwa [hdir]

theorem keeps_load_elf_binary {headers : List ProgHeader} {ret : Int}
    (hload : loadElfBinary headers s = some (t, ret)) : KeepsTables s.proc.pgdir t.proc.pgdir := by
  induction headers generalizing s with
  | nil =>
      cases hload
      exact fun _ table htable => ⟨table, htable, rfl⟩
  | cons h rest ih =>
      simp only [loadElfBinary] at hload
      split at hload
      · cases hload
        exact fun _ table htable => ⟨table, htable, rfl⟩
      · split at hload
        · obtain ⟨⟨s₁, ret₁⟩, hsegment, hload⟩ := Option.bind_eq_some_iff.mp hload
          simp only at hload
          split at hload
          · cases hload
            exact keeps_segment_load hsegment
          · have hrest := ih hload
            exact (keeps_segment_load hsegment).trans hrest
        · exact ih hload

/-- An image whose segments have all been loaded. -/
theorem load_elf_binary_loaded {headers : List ProgHeader} (hm : WellPlaced s.mem.phymem)
    (hbounds : ∀ sp ∈ s.proc.mm.spaceMap, SpaceBounds sp)
    (hload : loadElfBinary headers s = some (t, 0))
    (hclean : CleanTables s.mem.pages s.proc.pgdir t.proc.pgdir) :
    Loaded s t (HeldBy headers) := by
  induction headers generalizing s with
  | nil =>
      cases hload
      exact (Loaded.refl hbounds).mono (fun _ _ h => h.elim) (fun v _ ⟨h, hmem, _⟩ => by cases hmem)
  | cons h rest ih =>
      simp only [loadElfBinary] at hload
      split at hload
      · simp at hload
      · split at hload
        · next htype =>
            obtain ⟨⟨s₁, ret₁⟩, hsegment, hload⟩ := Option.bind_eq_some_iff.mp hload
            simp only at hload
            split at hload
            · simp at hload
            next hret =>
              have hzero : ret₁ = 0 := by simpa using hret
              rw [hzero] at hsegment
              have hkeep := keeps_load_elf_binary hload
              have hfirst := segment_load_loaded hm hbounds hsegment (hclean.first hkeep)
              generalize (if h.flags = 6 then wrap (h.vaddr + h.memsz) else s₁.proc.dataEnd) =
                dataEnd at hload
              have hrest := ih (s := { s₁ with proc := { s₁.proc with dataEnd := dataEnd } })
                (hfirst.adds.wellPlaced hm) hfirst.bounds hload
                (by simpa only [hfirst.words] using hclean.rest hfirst.tables)
              have hboth : Loaded s t fun v => h.Holds v ∨ HeldBy rest v :=
                hfirst.trans ⟨hrest.adds, hrest.tables, hrest.words, hrest.freed, hrest.running,
                  hrest.bounds, hrest.covered, hrest.spans⟩
              refine hboth.mono ?_ ?_
              · intro v _ hv
                rcases hv with hv | ⟨h', hmem, hv⟩
                · exact ⟨h, List.mem_cons_self, htype, hv⟩
                · exact ⟨h', List.mem_cons_of_mem _ hmem, hv⟩
              · intro v hv hheld
                obtain ⟨h', hmem, hload', hin⟩ := hheld
                rcases List.mem_cons.mp hmem with rfl | hmem
                · exact hboth.spans v hv (.inl hin)
                · exact hboth.spans v hv (.inr ⟨h', hmem, hload', hin⟩)
        · next htype =>
            have hheld : ∀ v, HeldBy (h :: rest) v ↔ HeldBy rest v := by
              intro v
              simp [HeldBy, htype]
            have hrest := ih hm hbounds hload hclean
            exact hrest.mono (fun v _ hv => (hheld v).mpr hv)
              (fun v hv hin => hrest.spans v hv ((hheld v).mp hin))

/-! ## The stack -/

/-- `InitUserStack`, where nothing is mapped at the stack page. -/
theorem init_user_stack_loaded {kmalloc : Option VMSpace} (hm : WellPlaced s.mem.phymem)
    (hbounds : ∀ sp ∈ s.proc.mm.spaceMap, SpaceBounds sp)
    (hfree : s.proc.pgdir.frame stackPage = none)
    (hstack : initUserStack s kmalloc = some (t, 0))
    (hclean : CleanTables s.mem.pages s.proc.pgdir t.proc.pgdir) :
    Loaded s t (SamePage · stackPage) := by
  cases kmalloc with
  | none => simp [initUserStack] at hstack
  | some block =>
      simp only [initUserStack] at hstack
      obtain ⟨⟨m₁, page⟩, halloc, hrest⟩ := Option.bind_eq_some_iff.mp hstack
      by_cases hpage : page = 0
      · simp [hpage] at hrest
      · simp only [hpage, if_false] at hrest
        obtain ⟨⟨m₂, dir₂, ret₂⟩, hadd, heq⟩ := Option.map_eq_some_iff.mp hrest
        simp only at heq
        split at heq
        · simp at heq
        · cases heq
          have hspace : SpaceBounds ⟨stackPage, userVmSize, 3, 1⟩ := by
            refine ⟨?_, ?_, ?_, ?_⟩ <;> norm_num [stackPage, userVmSize, pageSize]
          have hin : ∀ v, SamePage v stackPage → stackPage ≤ v ∧ v < userVmSize := by
            intro v hsame
            simp only [SamePage, pageSize, stackPage, userVmSize] at *
            omega
          exact ⟨adds_alloc_link hm halloc hpage (fun _ => hfree) hadd hclean,
            (keeps_page_table_add hadd).1,
            (keeps_page_table_add hadd).2.trans (alloc_page_cases halloc).2, rfl, rfl,
            bounds_insert hbounds hspace, fun v hv => covered_insert.mpr (.inr hv),
            fun v _ hv => covered_insert.mpr (.inl (hin v hv))⟩

theorem keeps_init_user_stack {kmalloc : Option VMSpace} {ret : Int}
    (hstack : initUserStack s kmalloc = some (t, ret)) : KeepsTables s.proc.pgdir t.proc.pgdir := by
  cases kmalloc with
  | none =>
      cases hstack
      exact fun _ table htable => ⟨table, htable, rfl⟩
  | some block =>
      simp only [initUserStack] at hstack
      obtain ⟨⟨m₁, page⟩, -, hrest⟩ := Option.bind_eq_some_iff.mp hstack
      by_cases hpage : page = 0
      · simp only [hpage, if_true] at hrest
        cases hrest
        exact fun _ table htable => ⟨table, htable, rfl⟩
      · simp only [hpage, if_false] at hrest
        obtain ⟨⟨m₂, dir₂, ret₂⟩, hadd, heq⟩ := Option.map_eq_some_iff.mp hrest
        simp only at heq
        split at heq <;> cases heq
        · exact (keeps_page_table_add hadd).1
        · exact (keeps_page_table_add hadd).1

/-- An image that `SysExecv` has built over what its release has left. -/
theorem exec_image_loaded {image : Image}
    (hbounds : ∀ sp ∈ (memoryManagerRelease s vmsStackHeap).proc.mm.spaceMap, SpaceBounds sp)
    (hwell : WellPlaced (memoryManagerRelease s vmsStackHeap).mem.phymem)
    (hstack : ¬ HeldBy image.headers stackPage)
    (hfree : (memoryManagerRelease s vmsStackHeap).proc.pgdir.frame stackPage = none)
    (hexec : sysExecv s image = some (t, 0))
    (hclean : CleanTables s.mem.pages (memoryManagerRelease s vmsStackHeap).proc.pgdir
      t.proc.pgdir) :
    Loaded (memoryManagerRelease s vmsStackHeap) t
      fun v => HeldBy image.headers v ∨ SamePage v stackPage := by
  rw [sysExecv] at hexec
  obtain ⟨⟨s₁, ret₁⟩, hload, hexec⟩ := Option.bind_eq_some_iff.mp hexec
  simp only at hexec
  split at hexec
  · simp at hexec
  next hret =>
    have hzero : ret₁ = 0 := by simpa using hret
    rw [hzero] at hload
    obtain ⟨⟨s₂, ret₂⟩, hinit, heq⟩ := Option.map_eq_some_iff.mp hexec
    simp only at heq
    split at heq
    · simp at heq
    next hret₂ =>
      have hzero₂ : ret₂ = 0 := by simpa using hret₂
      rw [hzero₂] at hinit
      cases heq
      have hkeep := keeps_init_user_stack hinit
      have himage := load_elf_binary_loaded hwell hbounds hload (hclean.first hkeep)
      have hnone : s₁.proc.pgdir.frame stackPage = none := by
        by_contra hsome
        rcases himage.adds.adds stackPage (by norm_num [stackPage, userVmSize])
          (Option.isSome_iff_ne_none.mpr hsome) with hold | hheld
        · simp [hfree] at hold
        · exact hstack hheld
      have hlast := init_user_stack_loaded (himage.adds.wellPlaced hwell) himage.bounds hnone hinit
        (by rw [himage.words]; exact hclean.rest himage.tables)
      have hboth := himage.trans hlast
      exact ⟨hboth.adds, hboth.tables, hboth.words, hboth.freed, hboth.running, hboth.bounds,
        hboth.covered, hboth.spans⟩

end XBook.Paging
