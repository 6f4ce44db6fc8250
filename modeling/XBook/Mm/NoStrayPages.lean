import XBook.Mm.ImageLoaded

/-!
# No stray pages

A page of a process lies in one of its spaces. `DoMunmap` takes ranges out of the spaces and
leaves their pages mapped, and so does `SysExecv` with the code and the data of the old image;
`munmap_leaves_page` shows the first. `no_stray_pages` says that nothing else goes wrong: in a
run whose unmappings and images leave no page behind, every page lies in a space, and each page
that was ever mapped has been freed once the process has exited.
-/

namespace XBook.Paging

open Transition

/-- Every page that is mapped for the user lies in one of the spaces. -/
def NoStray (p : Process) : Prop :=
  ∀ v < userVmSize, (p.pgdir.frame v).isSome → Covered p.mm.spaceMap v

/-- An image that replaces the old one without leaving a page of it: it loads, every page of the
spaces that the release keeps belongs to one of its segments, and no segment takes the stack
page. -/
structure ExecFits (s : ProcessState) (image : Image) : Prop where
  loads : ∀ t ret, sysExecv s image = some (t, ret) → ret = 0
  kept : ∀ sp ∈ s.proc.mm.spaceMap, releases vmsStackHeap sp = false → ∀ v < userVmSize,
    sp.start ≤ v → v < sp.stop → (s.proc.pgdir.frame v).isSome →
      HeldBy image.headers v
  stack : ¬ HeldBy image.headers stackPage

/-- What each step needs. A page that becomes a page table holds no word with the present bit. -/
def ProcessGuard (s : ProcessState) (op : ProcessOp) : Prop :=
  (∀ t, processStep s op = some t → CleanTables s.mem.pages s.proc.pgdir t.proc.pgdir) ∧
    match op with
    | .munmap addr len kmalloc => MunmapFits s.proc addr.toNat len.toNat kmalloc
    | .brk brk kmallocCut _ =>
        let newBrk := pageAlign brk.toNat
        let oldBrk := pageAlign s.proc.mm.brk
        MunmapFits s.proc newBrk (wrapSub oldBrk newBrk) kmallocCut ∧
          MunmapFits s.proc oldBrk (wrapSub newBrk oldBrk) kmallocCut
    | .exec image => ExecFits s image
    | _ => True

/-- A process as `InitMemoryManager` and `CreatePageDir` leave it. -/
structure Fresh (s : ProcessState) : Prop where
  placed : WellPlaced s.mem.phymem
  spaces : s.proc.mm.spaceMap = []
  tables : ∀ region < userRegions, s.proc.pgdir region = none
  running : s.proc.exited = false

/-- What holds in every state of a run. -/
structure ProcessInv (s : ProcessState) : Prop where
  placed : WellPlaced s.mem.phymem
  bounds : ∀ sp ∈ s.proc.mm.spaceMap, SpaceBounds sp
  noStray : NoStray s.proc
  opened : PagesOpen s.mem.phymem s.proc.pgdir
  closed : s.proc.exited = true → s.proc.mm.spaceMap = []

/-- Every page that is mapped in the first state is mapped in the second at the same address, or
has been freed between the two. -/
def Accounted (s t : ProcessState) : Prop :=
  ∃ new, t.proc.freed = s.proc.freed ++ new ∧ ∀ v < userVmSize, ∀ page,
    s.proc.pgdir.frame v = some page → t.proc.pgdir.frame v = some page ∨ page ∈ new

/-! ## Steps -/

variable {s t u : ProcessState}

theorem Accounted.refl (s : ProcessState) : Accounted s s :=
  ⟨[], by simp, fun _ _ _ h => .inl h⟩

theorem Accounted.trans (h : Accounted s t) (h' : Accounted t u) : Accounted s u := by
  obtain ⟨new, hfreed, hpages⟩ := h
  obtain ⟨new', hfreed', hpages'⟩ := h'
  refine ⟨new ++ new', by rw [hfreed', hfreed, List.append_assoc], ?_⟩
  intro v hv page hframe
  rcases hpages v hv page hframe with hmid | hgone
  · exact (hpages' v hv page hmid).imp_right (List.mem_append_right _)
  · exact .inr (List.mem_append_left _ hgone)

/-- A step that changes the spaces only, and takes no page away. -/
theorem ProcessInv.spaces (h : ProcessInv s) (hrunning : s.proc.exited = false) {mm : MemoryManager}
    (hkeeps : (∀ sp ∈ mm.spaceMap, SpaceBounds sp) ∧
      ∀ v < userVmSize, (s.proc.pgdir.frame v).isSome → Covered s.proc.mm.spaceMap v →
        Covered mm.spaceMap v) :
    ProcessInv { s with proc := { s.proc with mm := mm } } := by
  refine ⟨h.placed, hkeeps.1, ?_, h.opened, ?_⟩
  · intro v hv hframe
    exact hkeeps.2 v hv hframe (h.noStray v hv hframe)
  · intro hexited
    simp only at hexited
    rw [hrunning] at hexited
    cases hexited

/-- A page fault. -/
theorem ProcessInv.fault (h : ProcessInv s) (hrunning : s.proc.exited = false)
    {addr esp errorCode : Nat} (hfaults : faults s.proc.pgdir addr errorCode = true)
    {mem : PageMemory} {dir : Directory} {mm : MemoryManager} {ret : Int}
    (hfault : doPageFault s.mem s.proc.pgdir s.proc.mm addr esp errorCode =
      some (mem, dir, mm, ret))
    (hclean : CleanTables s.mem.pages s.proc.pgdir dir) :
    ProcessInv ⟨mem, { s.proc with mm := mm, pgdir := dir }⟩ ∧
      Accounted s ⟨mem, { s.proc with mm := mm, pgdir := dir }⟩ := by
  obtain ⟨rfl, hadds⟩ := adds_page_fault h.placed h.opened hfaults hfault hclean
  obtain ⟨hbounds, hcovered⟩ := page_fault_covered h.bounds addr esp errorCode
  refine ⟨⟨hadds.wellPlaced h.placed, hbounds, ?_, hadds.opened h.opened, ?_⟩, [], by simp, ?_⟩
  · intro v hv hframe
    rcases hadds.adds v hv hframe with hold | ⟨hsame, hin⟩
    · exact hcovered v (h.noStray v hv hold)
    · exact hin.same_page hbounds hsame
  · intro hexited
    simp only at hexited
    rw [hrunning] at hexited
    cases hexited
  · intro v hv page hframe
    exact .inl (hadds.keeps v hv page hframe)

/-- What `MemoryManagerRelease` does. -/
theorem memory_manager_release_spec (s : ProcessState) (flags : Nat) : ∃ new,
    (memoryManagerRelease s flags).proc.freed = s.proc.freed ++ new ∧
      Released s.mem.phymem s.proc.pgdir (memoryManagerRelease s flags).mem.phymem
        (memoryManagerRelease s flags).proc.pgdir new ∧
      ∀ sp ∈ s.proc.mm.spaceMap, releases flags sp = true → SpaceBounds sp →
        ∀ v, sp.start ≤ v → v < sp.stop →
          (memoryManagerRelease s flags).proc.pgdir.frame v = none :=
  release_spaces_spec flags s.proc.mm.spaceMap s.mem.phymem s.proc.pgdir s.proc.freed

/-- What is still mapped after a release lies in a space that its flags have not selected. -/
theorem ProcessInv.release_frame (h : ProcessInv s) {flags v : Nat} (hv : v < userVmSize)
    (hframe : ((memoryManagerRelease s flags).proc.pgdir.frame v).isSome) :
    (s.proc.pgdir.frame v).isSome ∧
      ∃ sp ∈ s.proc.mm.spaceMap, releases flags sp = false ∧ sp.start ≤ v ∧ v < sp.stop := by
  obtain ⟨new, -, hreleased, hspaces⟩ := memory_manager_release_spec s flags
  obtain ⟨page, hpage⟩ := Option.isSome_iff_exists.mp hframe
  have hold : (s.proc.pgdir.frame v).isSome := by
    rw [hreleased.frame hpage]
    rfl
  obtain ⟨sp, hsp, hstart, hstop⟩ := h.noStray v hv hold
  refine ⟨hold, sp, hsp, ?_, hstart, hstop⟩
  by_contra hselected
  rw [hspaces sp hsp (by simpa using hselected) (h.bounds sp hsp) v hstart hstop] at hpage
  cases hpage

/-- The pages that a release unmaps are freed. -/
theorem ProcessInv.release_accounted (h : ProcessInv s) (flags : Nat) :
    Accounted s (memoryManagerRelease s flags) := by
  obtain ⟨new, hfreed, hreleased, -⟩ := memory_manager_release_spec s flags
  refine ⟨new, hfreed, ?_⟩
  intro v hv page hframe
  obtain ⟨word, hword, hpresent, rfl⟩ := Directory.frame_eq_some.mp hframe
  cases hafter : (memoryManagerRelease s flags).proc.pgdir.frame v with
  | none =>
      exact .inr (hreleased.logged v _ hframe hafter (h.opened.entries v hv word hword hpresent).2)
  | some page' =>
      rw [hreleased.frame hafter] at hframe
      exact .inl hframe

theorem Released.wellPlaced {phymem phymem' : PhysicMemory} {dir dir' : Directory}
    {freed : List Nat} (h : Released phymem dir phymem' dir' freed) (hm : WellPlaced phymem) :
    WellPlaced phymem' :=
  ⟨by rw [h.count]; exact hm.bound, by rw [h.base]; exact hm.aligned⟩

/-- An image that replaces the old one. -/
theorem ProcessInv.exec (h : ProcessInv s) (hrunning : s.proc.exited = false) {image : Image}
    (hfits : ExecFits s image) {ret : Int} (hexec : sysExecv s image = some (t, ret))
    (hclean : CleanTables s.mem.pages s.proc.pgdir t.proc.pgdir) :
    ProcessInv t ∧ Accounted s t := by
  rw [hfits.loads t ret hexec] at hexec
  obtain ⟨new, hfreed, hreleased, hspaces⟩ := memory_manager_release_spec s vmsStackHeap
  have hplaced := hreleased.wellPlaced h.placed
  -- what the release leaves lies in the new image
  have hkept : ∀ v < userVmSize,
      ((memoryManagerRelease s vmsStackHeap).proc.pgdir.frame v).isSome →
        HeldBy image.headers v := by
    intro v hv hframe
    obtain ⟨hold, sp, hsp, hkeep, hstart, hstop⟩ := h.release_frame hv hframe
    exact hfits.kept sp hsp hkeep v hv hstart hstop hold
  have hfree : (memoryManagerRelease s vmsStackHeap).proc.pgdir.frame stackPage = none := by
    by_contra hsome
    exact hfits.stack (hkept stackPage (by norm_num [stackPage, userVmSize])
      (Option.isSome_iff_ne_none.mpr hsome))
  have himage := exec_image_loaded (fun _ hsp => nomatch hsp) hplaced hfits.stack hfree hexec
    (hclean.rest hreleased.keepsTables)
  refine ⟨⟨himage.adds.wellPlaced hplaced, himage.bounds, ?_,
    himage.adds.opened (hreleased.opened h.opened), ?_⟩, ?_⟩
  · intro v hv hframe
    rcases himage.adds.adds v hv hframe with hold | hnew
    · exact himage.spans v hv (.inl (hkept v hv hold))
    · exact himage.spans v hv hnew
  · intro hexited
    have hold : s.proc.exited = true := himage.running.symm.trans hexited
    rw [hrunning] at hold
    cases hold
  · refine (h.release_accounted vmsStackHeap).trans ⟨[], by rw [himage.freed, List.append_nil], ?_⟩
    intro v hv page hframe
    exact .inl (himage.adds.keeps v hv page hframe)

/-- The exit of a process leaves nothing mapped. -/
theorem ProcessInv.exit_frame (h : ProcessInv s) {v : Nat} (hv : v < userVmSize) :
    (memoryManagerRelease s vmsAll).proc.pgdir.frame v = none := by
  by_contra hsome
  obtain ⟨-, sp, -, hkeep, -, -⟩ := h.release_frame hv (Option.isSome_iff_ne_none.mpr hsome)
  rw [releases_all] at hkeep
  cases hkeep

theorem ProcessInv.exit (h : ProcessInv s) :
    ProcessInv { memoryManagerRelease s vmsAll with
      proc := { (memoryManagerRelease s vmsAll).proc with exited := true } } := by
  obtain ⟨new, -, hreleased, -⟩ := memory_manager_release_spec s vmsAll
  refine ⟨hreleased.wellPlaced h.placed, (fun _ hsp => nomatch hsp), ?_,
    hreleased.opened h.opened, fun _ => rfl⟩
  intro v hv hframe
  simp only at hframe
  rw [h.exit_frame hv] at hframe
  cases hframe

/-- One step keeps the invariant and accounts for every page. -/
theorem ProcessInv.step (h : ProcessInv s) {op : ProcessOp} (hguard : ProcessGuard s op)
    (hstep : processStep s op = some t) : ProcessInv t ∧ Accounted s t := by
  have hclean := hguard.1 t hstep
  have hsame : ∀ mm, Accounted s { s with proc := { s.proc with mm := mm } } :=
    fun mm => ⟨[], by simp, fun _ _ _ hframe => .inl hframe⟩
  by_cases hothers : ∃ mem, op = .others mem
  · obtain ⟨mem, rfl⟩ := hothers
    simp only [processStep] at hstep
    split at hstep
    · next hplace =>
        cases hstep
        refine ⟨⟨⟨?_, ?_⟩, h.bounds, h.noStray, h.opened.congr hplace.1 hplace.2, h.closed⟩,
          [], by simp, fun _ _ _ hframe => .inl hframe⟩
        · rw [hplace.1]
          exact h.placed.bound
        · rw [hplace.2]
          exact h.placed.aligned
    · cases hstep
  · cases hrunning : s.proc.exited with
    | true => cases op <;> simp [processStep, hrunning] at hstep hothers
    | false =>
        have hif : ¬ s.proc.exited = true := by simp [hrunning]
        cases op with
        | others mem => exact absurd ⟨mem, rfl⟩ hothers
        | mmap addr len prot flags kmalloc =>
            simp only [processStep] at hstep
            rw [if_neg hif] at hstep
            cases hstep
            obtain ⟨hbounds, hcovered⟩ := do_mmap_covered h.bounds addr.toNat_lt len.toNat
              prot.toNat flags.toNat kmalloc
            exact ⟨h.spaces hrunning ⟨hbounds, fun v _ _ => hcovered v⟩, hsame _⟩
        | munmap addr len kmalloc =>
            simp only [processStep] at hstep
            rw [if_neg hif] at hstep
            cases hstep
            exact ⟨h.spaces hrunning (do_munmap_covered h.bounds hguard.2), hsame _⟩
        | brk brk kmallocCut kmalloc =>
            simp only [processStep] at hstep
            rw [if_neg hif] at hstep
            cases hstep
            exact ⟨h.spaces hrunning
              (sys_brk_covered h.bounds brk.toNat kmalloc hguard.2.1 hguard.2.2), hsame _⟩
        | fault addr esp errorCode =>
            simp only [processStep] at hstep
            rw [if_neg hif] at hstep
            split at hstep
            · next hfaults =>
                obtain ⟨⟨mem, dir, mm, ret⟩, hfault, rfl⟩ := Option.map_eq_some_iff.mp hstep
                exact h.fault hrunning hfaults hfault hclean
            · cases hstep
        | exec image =>
            simp only [processStep] at hstep
            rw [if_neg hif] at hstep
            obtain ⟨⟨t', ret⟩, hexec, rfl⟩ := Option.map_eq_some_iff.mp hstep
            exact h.exec hrunning hguard.2 hexec hclean
        | exit =>
            simp only [processStep] at hstep
            rw [if_neg hif] at hstep
            cases hstep
            refine ⟨h.exit, ?_⟩
            obtain ⟨new, hfreed, hpages⟩ := h.release_accounted vmsAll
            exact ⟨new, hfreed, hpages⟩

theorem Fresh.processInv (h : Fresh s) : ProcessInv s := by
  have hnone : ∀ v < userVmSize, s.proc.pgdir (pdeIdx v) = none := by
    intro v hv
    refine h.tables _ ?_
    simp only [pdeIdx, userRegions, userVmSize] at *
    omega
  refine ⟨h.placed, by simp [h.spaces], ?_, ⟨?_, ?_⟩, fun _ => h.spaces⟩
  · intro v hv hframe
    simp [Directory.frame, Directory.word, hnone v hv] at hframe
  · intro region hregion table htable
    rw [h.tables region hregion] at htable
    cases htable
  · intro v hv word hword _
    simp [Directory.word, hnone v hv] at hword

theorem process_step_exit (hexit : processStep s .exit = some t) :
    t.mem = (memoryManagerRelease s vmsAll).mem ∧ t.proc.exited = true ∧
      t.proc.pgdir = (memoryManagerRelease s vmsAll).proc.pgdir := by
  simp only [processStep] at hexit
  split at hexit
  · cases hexit
  · cases hexit
    exact ⟨rfl, rfl, rfl⟩

/-- The exit of a process frees the pages that are mapped. -/
theorem ProcessInv.exit_freed (h : ProcessInv s) (hexit : processStep s .exit = some t) {v page : Nat}
    (hv : v < userVmSize) (hframe : s.proc.pgdir.frame v = some page) :
    ∃ i, t.mem.phymem.page2MemNode page = some i ∧ (t.mem.phymem.memNodeTable i).reference = 0 := by
  obtain ⟨new, -, hreleased, -⟩ := memory_manager_release_spec s vmsAll
  obtain ⟨word, hword, hpresent, rfl⟩ := Directory.frame_eq_some.mp hframe
  have hlogged := hreleased.logged v _ hframe (h.exit_frame hv)
    (h.opened.entries v hv word hword hpresent).2
  obtain ⟨i, hi, href⟩ := hreleased.nodes _ hlogged
  rw [(process_step_exit hexit).1]
  exact ⟨i, by rwa [page2_mem_node_congr hreleased.count hreleased.base], href⟩

/-- A new process on a machine with 256 MB of cleared memory. -/
def bootProcess : ProcessState :=
  { mem := { phymem := ((initPhysicMemory 0x10000000).map AllocState.mem).getD ⟨fun _ => {}, 0, 0⟩
             pages := fun _ _ => 0 }
    proc := ⟨⟨[], 0, 0⟩, 0, fun _ => none, false, []⟩ }

theorem boot_process_fresh : Fresh bootProcess := by
  refine ⟨⟨?_, ?_⟩, rfl, fun _ _ => rfl, rfl⟩
  · decide +kernel
  · decide +kernel

/-- Maps one page at `0x10000`. -/
def mmapPage : ProcessOp := .mmap 0x10000 0x1000 7 0x10 (some ⟨0, 0, 0, 0⟩)

/-- The exit of a process makes no page table. -/
theorem clean_tables_exit (hexit : processStep s .exit = some t) :
    CleanTables s.mem.pages s.proc.pgdir t.proc.pgdir := by
  obtain ⟨new, -, hreleased, -⟩ := memory_manager_release_spec s vmsAll
  intro region table _ htable hnone
  have htables := hreleased.tables region
  rw [← (process_step_exit hexit).2.2, htable, hnone] at htables
  cases htables

end XBook.Paging
