import XBook.Fs.DescriptorRuns
import XBook.Mm.NoStrayPages

/-!
# The failures of `SysExecv`

`SysExecv` of `mm/exec.c` with all of its exits. The memory of the process is that of
`Mm.ProcessMemory`, its descriptors are those of `Fs.Descriptor`. The label `ToEnd` uses variables
that some of the jumps to it have passed over; what such a variable holds is an argument.
`exec_atomic_iff` says which failures leave the process as it was.
-/

namespace XBook.ExecFailure

open Paging Files

/-- The fields of `struct Elf32_Ehdr` that are checked. -/
structure Elf32Ehdr where
  eIdent : List (BitVec 8)
  eType : UInt16
  eMachine : UInt16
  eVersion : UInt32
  ePhnum : UInt16
  ePhentsize : UInt16

/-- The check of the header. `sizeof(struct Elf32_Phdr)` is 32. -/
def Elf32Ehdr.isProgram (h : Elf32Ehdr) : Bool :=
  h.eIdent.take 7 = [0x7f, 0x45, 0x4c, 0x46, 1, 1, 1] && h.eType = 2 && h.eMachine = 3 &&
    h.eVersion = 1 && h.ePhnum ≤ 1024 && h.ePhentsize = 32

/-- The variables that `ToEnd` uses, `none` while they are not set. -/
structure Locals (τ : Type*) where
  argBuf : Option Nat := none
  current : Option τ := none
  oldStatus : Option Bool := none

/-- What the variables hold before they are set: `current` may be the address of a task. -/
structure Garbage (τ : Type*) where
  current : Option τ
  oldStatus : Bool

/-- What the calls of `SysExecv` answer: `SysAccess`, the search of `SysOpen`, `SysStat`,
`ReadFileFrom` for the header, `kmalloc` for the arguments, and the calls for the image. -/
structure ExecAnswers (τ : Type*) where
  access : Bool
  found : Bool
  stat : Bool
  header : Option Elf32Ehdr
  argBuf : Option Nat
  image : Image
  garbage : Garbage τ

/-- A process with its descriptors and the interrupt flag. -/
structure ExecState (τ : Type*) where
  process : ProcessState
  files : FileState τ
  interrupts : Bool

/-- What a call leaves and returns, and whether it has read a variable that was not set. -/
structure ExecResult (τ : Type*) where
  state : ExecState τ
  ret : Int
  uninitialised : Bool

variable {τ : Type*} [DecidableEq τ]

/-- `SysExecv` from `ToEnd` on. -/
def toEnd (s : ExecState τ) (t : τ) (fd : Fin maxOpenFiles) (locals : Locals τ)
    (garbage : Garbage τ) (ret : Int) : ExecResult τ :=
  let files := s.files.close t fd
  let current := if locals.current.isSome then locals.current else garbage.current
  let files := match current with
    | none => files
    | some current => files.resetFds current
  { state := { s with files, interrupts := locals.oldStatus.getD garbage.oldStatus }
    ret := if ret ≠ 0 then -1 else 0
    uninitialised :=
      locals.argBuf.isNone || locals.current.isNone || locals.oldStatus.isNone }

/-- `SysExecv` from `MemoryManagerRelease` on. -/
def execImage (s : ExecState τ) (t : τ) (fd : Fin maxOpenFiles) (a : ExecAnswers τ)
    (locals : Locals τ) : Option (ExecResult τ) :=
  (loadElfBinary a.image.headers (memoryManagerRelease s.process vmsStackHeap)).bind
    fun (process, ret) =>
      let s := { s with process }
      if ret ≠ 0 then some (toEnd s t fd locals a.garbage (-1))
      else
        -- `InterruptDisable`
        let locals := { locals with oldStatus := some s.interrupts }
        let s := { s with interrupts := false }
        (initUserStack s.process a.image.stackSpace).map fun (process, ret) =>
          let s := { s with process }
          if ret ≠ 0 then toEnd s t fd locals a.garbage (-1)
          else toEnd { s with process := initUserHeap s.process } t fd locals a.garbage 0

/-- `SysExecv` once the file is open. -/
def execOpened (s : ExecState τ) (t : τ) (fd : Fin maxOpenFiles) (a : ExecAnswers τ) :
    Option (ExecResult τ) :=
  if !a.stat then some ⟨s, -1, false⟩
  else
    match a.header with
    | none => some (toEnd s t fd {} a.garbage (-1))
    | some header =>
        if !header.isProgram then some (toEnd s t fd {} a.garbage (-1))
        else
          let locals : Locals τ := { current := some t }
          match a.argBuf with
          | none => some (toEnd s t fd { locals with argBuf := some 0 } a.garbage (-1))
          | some argBuf => execImage s t fd a { locals with argBuf := some argBuf }

/-- `SysExecv` of a task. -/
def sysExecv (s : ExecState τ) (t : τ) (a : ExecAnswers τ) : Option (ExecResult τ) :=
  if !a.access then some ⟨s, -1, false⟩
  else if !a.found then some ⟨s, -1, false⟩
  else
    match s.files.openFile t rdOnly with
    | (files, none) => some ⟨{ s with files }, -1, false⟩
    | (files, some fd) => execOpened { s with files } t fd a

/-- A call has left the process as it was, with the program file closed, and has read no variable
that was not set. -/
structure Atomic (t : τ) (s : ExecState τ) (r : ExecResult τ) : Prop where
  spaces : r.state.process.proc.mm.spaceMap = s.process.proc.mm.spaceMap
  pages : ∀ v, r.state.process.proc.pgdir.frame v = s.process.proc.pgdir.frame v
  descriptors : r.state.files.fdTable t = s.files.fdTable t
  interrupts : r.state.interrupts = s.interrupts
  closed : ∀ fd, r.state.files.InUse fd ↔ s.files.InUse fd
  initialised : r.uninitialised = false

/-! ## The condition -/

/-- The call of `DoMmap` for a segment, with memory for a space. -/
def mmapSegment (h : ProgHeader) (spaces : List VMSpace) : MemoryManager × Nat :=
  doMmap ⟨spaces, 0, 0⟩ (pageMask h.vaddr) (wrap (occupyPages h.size h.vaddr * pageSize)) 7 0x10
    (some ⟨0, 0, 0, 0⟩)

/-- The spaces after it, if it succeeds. -/
def segmentSpaces (h : ProgHeader) (spaces : List VMSpace) : Option (List VMSpace) :=
  if (mmapSegment h spaces).2 ≥ 0x80000000 then none
  else some (mmapSegment h spaces).1.spaceMap

/-- The spaces that `DoMmap` makes for the segments of an image, one after the other. -/
def imageSpaces : List ProgHeader → List VMSpace → Option (List VMSpace)
  | [], spaces => some spaces
  | h :: rest, spaces =>
      if h.type = 1 then (segmentSpaces h spaces).bind (imageSpaces rest)
      else imageSpaces rest spaces

/-- The image loads, with all of its pages mapped. -/
structure Loads (dir : Directory) (headers : List ProgHeader) : Prop where
  read : ∀ h ∈ headers, h.headerRead = true
  segments : ∀ h ∈ headers, h.type = 1 → h.segmentRead = true ∧ h.kmalloc.isSome
  mapped : ∀ h ∈ headers, h.type = 1 → ∀ v,
    VisitedFrom (pageMask h.vaddr) (occupyPages h.size h.vaddr) v → (dir.frame v).isSome

/-- The file is not executable or cannot be opened, and takes no entry of the global table. -/
def FailsEarly (s : ExecState τ) (a : ExecAnswers τ) : Prop :=
  a.access = false ∨ a.found = false ∨ s.files.TableFull

/-- Everything succeeds up to the stack, and the process already was what the image makes of it. -/
structure FailsInPlace (s : ExecState τ) (t : τ) (a : ExecAnswers τ) : Prop where
  stat : a.stat = true
  header : ∃ header, a.header = some header ∧ header.isProgram = true
  argBuf : a.argBuf.isSome
  loads : Loads s.process.proc.pgdir a.image.headers
  spaces : imageSpaces a.image.headers [] = some s.process.proc.mm.spaceMap
  descriptors : ∀ i, 3 ≤ i.val → s.files.fdTable t i = none

/-! ## Loading where everything is mapped -/

/-- A page that is mapped stays mapped. -/
def KeepsMapped (dir dir' : Directory) : Prop :=
  ∀ v, (dir.frame v).isSome → (dir'.frame v).isSome

theorem KeepsMapped.trans {dir dir' dir'' : Directory} (h : KeepsMapped dir dir')
    (h' : KeepsMapped dir' dir'') : KeepsMapped dir dir'' := fun v hv => h' v (h v hv)

theorem frame_is_some {dir : Directory} {v : Nat} :
    (dir.frame v).isSome ↔ ∃ word, dir.word v = some word ∧ present word = true := by
  rw [Option.isSome_iff_exists]
  constructor
  · rintro ⟨page, hframe⟩
    obtain ⟨word, hword, hpresent, -⟩ := Directory.frame_eq_some.mp hframe
    exact ⟨word, hword, hpresent⟩
  · rintro ⟨word, hword, hpresent⟩
    exact ⟨_, Directory.frame_eq_some.mpr ⟨word, hword, hpresent, rfl⟩⟩

/-- `PageTableAdd` maps its page, and unmaps none. -/
theorem page_table_add_mapped {m m' : PageMemory} {dir dir' : Directory} {v page protect : Nat}
    (hadd : pageTableAdd m dir v page protect = some (m', dir', 0)) :
    (dir'.frame v).isSome ∧ KeepsMapped dir dir' := by
  have hword : dir'.word v = some (page ||| protect ||| 1) := by
    rcases page_table_add_cases hadd with ⟨htable, -, -, rfl⟩ | ⟨-, q, -, hcase⟩
    · have hold : (dir.word v).isSome := by
        rw [Directory.word, Option.isSome_map]
        exact htable
      rw [Directory.word_set_word, if_pos ⟨rfl, hold⟩]
    · rcases hcase with ⟨-, -, hret⟩ | ⟨-, -, rfl⟩
      · exact absurd hret (by decide)
      · have hnew : ((dir.addTable v ⟨q, protect, m'.pages q⟩).word v).isSome := by
          rw [Directory.word_add_table, if_pos rfl]
          rfl
        rw [Directory.word_set_word, if_pos ⟨rfl, hnew⟩]
  have hpresent : present (page ||| protect ||| 1) = true := present_entry ..
  refine ⟨frame_is_some.mpr ⟨_, hword, hpresent⟩, fun u hu => ?_⟩
  obtain ⟨word, hold, hmapped⟩ := frame_is_some.mp hu
  by_cases hsame : SamePage u v
  · exact frame_is_some.mpr ⟨_, (dir'.word_congr hsame).trans hword, hpresent⟩
  · exact frame_is_some.mpr ⟨word, page_table_add_keeps hadd hold hsame, hmapped⟩

/-- `MapPagesMaybeMapped` maps the pages that it visits, and unmaps none. -/
theorem map_pages_mapped {m m' : PageMemory} {dir dir' : Directory} {npages v : Nat}
    (hv : v < 2 ^ 32) (hmap : mapPagesMaybeMapped userWrite npages v m dir = some (m', dir', 0)) :
    (∀ u, VisitedFrom v npages u → (dir'.frame u).isSome) ∧ KeepsMapped dir dir' := by
  induction npages generalizing v m dir with
  | zero =>
      cases hmap
      refine ⟨?_, fun _ h => h⟩
      rintro u ⟨i, hi, -⟩
      exact absurd hi (Nat.not_lt_zero i)
  | succ npages ih =>
      have hsplit : ∀ {dir₁ : Directory}, (dir₁.frame v).isSome → ∀ dir₂ : Directory,
          KeepsMapped dir₁ dir₂ →
          (∀ u, VisitedFrom (wrap (v + pageSize)) npages u → (dir₂.frame u).isSome) →
          ∀ u, VisitedFrom v (npages + 1) u → (dir₂.frame u).isSome := by
        rintro dir₁ hfirst dir₂ hkeep hrest u ⟨i, hi, hsame⟩
        cases i with
        | zero =>
            rw [Nat.zero_mul, Nat.add_zero, wrap_of_lt hv] at hsame
            rw [dir₂.frame_congr hsame]
            exact hkeep v hfirst
        | succ i =>
            refine hrest u ⟨i, Nat.lt_of_succ_lt_succ hi, ?_⟩
            have hshift : wrap (wrap (v + pageSize) + i * pageSize) =
                wrap (v + (i + 1) * pageSize) := by
              simp only [wrap, pageSize]
              omega
            rw [hshift]
            exact hsame
      simp only [mapPagesMaybeMapped] at hmap
      split at hmap
      next hmapped =>
        obtain ⟨hrest, hkeep⟩ := ih (wrap_lt _) hmap
        exact ⟨hsplit hmapped _ hkeep hrest, hkeep⟩
      · obtain ⟨⟨m₁, page⟩, -, hmap⟩ := Option.bind_eq_some_iff.mp hmap
        by_cases hpage : page = 0
        · simp [hpage] at hmap
        · simp only [hpage, if_false] at hmap
          obtain ⟨⟨m₂, dir₂, ret₂⟩, hadd, hmap⟩ := Option.bind_eq_some_iff.mp hmap
          simp only at hmap
          split at hmap
          · simp at hmap
          next hzero =>
            rw [not_not.mp hzero] at hadd
            obtain ⟨hfirst, hkeep⟩ := page_table_add_mapped hadd
            obtain ⟨hrest, hkeep'⟩ := ih (wrap_lt _) hmap
            exact ⟨hsplit hfirst _ hkeep' hrest, hkeep.trans hkeep'⟩

/-- Where every page that it visits is mapped, `MapPagesMaybeMapped` does nothing. -/
theorem map_pages_nothing {m : PageMemory} {dir : Directory} {npages v : Nat} (hv : v < 2 ^ 32)
    (hmapped : ∀ u, VisitedFrom v npages u → (dir.frame u).isSome) :
    mapPagesMaybeMapped userWrite npages v m dir = some (m, dir, 0) := by
  induction npages generalizing v with
  | zero => rfl
  | succ npages ih =>
      have hfirst : (dir.frame v).isSome := by
        refine hmapped v ⟨0, Nat.succ_pos npages, ?_⟩
        rw [Nat.zero_mul, Nat.add_zero, wrap_of_lt hv]
        rfl
      rw [mapPagesMaybeMapped, if_pos hfirst]
      refine ih (wrap_lt _) fun u hvisit => ?_
      obtain ⟨i, hi, hsame⟩ := hvisit
      refine hmapped u ⟨i + 1, Nat.succ_lt_succ hi, ?_⟩
      have hshift : wrap (v + (i + 1) * pageSize) =
          wrap (wrap (v + pageSize) + i * pageSize) := by
        simp only [wrap, pageSize]
        omega
      rw [hshift]
      exact hsame

/-- `DoMmap` depends on the list of the spaces, and on whether there is memory for a new one. -/
theorem do_mmap_spaces (mm : MemoryManager) (addr len prot flags : Nat) {b : VMSpace} :
    (doMmap mm addr len prot flags (some b)).2 =
        (doMmap ⟨mm.spaceMap, 0, 0⟩ addr len prot flags (some ⟨0, 0, 0, 0⟩)).2 ∧
      (doMmap mm addr len prot flags (some b)).1 =
        { mm with spaceMap := (doMmap mm addr len prot flags (some b)).1.spaceMap } ∧
      (doMmap mm addr len prot flags (some b)).1.spaceMap =
        (doMmap ⟨mm.spaceMap, 0, 0⟩ addr len prot flags (some ⟨0, 0, 0, 0⟩)).1.spaceMap := by
  simp only [doMmap]
  split
  · exact ⟨rfl, rfl, rfl⟩
  · split
    · exact ⟨rfl, rfl, rfl⟩
    · cases mmapAddress mm.spaceMap addr (pageAlign len) flags with
      | none => exact ⟨rfl, rfl, rfl⟩
      | some addr => exact ⟨rfl, rfl, rfl⟩

/-- What `DoMmap` answers without memory for a space. -/
theorem do_mmap_no_memory (mm : MemoryManager) (addr len prot flags : Nat) :
    (doMmap mm addr len prot flags none).2 = minusOne := by
  simp only [doMmap]
  split
  · rfl
  · split
    · rfl
    · cases mmapAddress mm.spaceMap addr (pageAlign len) flags <;> rfl

/-- The call of `SegmentLoad`, with the memory that it gets. -/
theorem segment_spaces_of_mmap {mm : MemoryManager} {h : ProgHeader} {b : VMSpace}
    (hret : (doMmap mm (pageMask h.vaddr) (wrap (occupyPages h.size h.vaddr * pageSize)) 7 0x10
      (some b)).2 < 0x80000000) :
    segmentSpaces h mm.spaceMap = some (doMmap mm (pageMask h.vaddr)
      (wrap (occupyPages h.size h.vaddr * pageSize)) 7 0x10 (some b)).1.spaceMap := by
  obtain ⟨hsame, -, hspaces⟩ := @do_mmap_spaces mm (pageMask h.vaddr)
    (wrap (occupyPages h.size h.vaddr * pageSize)) 7 0x10 b
  rw [← mmapSegment] at hsame hspaces
  rw [hsame] at hret
  have hword : ¬(mmapSegment h mm.spaceMap).2 ≥ 0x80000000 := Nat.not_le.mpr hret
  rw [hspaces, segmentSpaces, if_neg hword]

theorem mmap_of_segment_spaces {mm : MemoryManager} {h : ProgHeader} {spaces : List VMSpace}
    (hspaces : segmentSpaces h mm.spaceMap = some spaces) (b : VMSpace) :
    (doMmap mm (pageMask h.vaddr) (wrap (occupyPages h.size h.vaddr * pageSize)) 7 0x10
        (some b)).2 < 0x80000000 ∧
      (doMmap mm (pageMask h.vaddr) (wrap (occupyPages h.size h.vaddr * pageSize)) 7 0x10
        (some b)).1 = { mm with spaceMap := spaces } := by
  obtain ⟨hsame, hrest, heq⟩ := @do_mmap_spaces mm (pageMask h.vaddr)
    (wrap (occupyPages h.size h.vaddr * pageSize)) 7 0x10 b
  rw [← mmapSegment] at hsame heq
  rw [hsame, hrest, heq]
  rw [segmentSpaces] at hspaces
  split at hspaces
  · cases hspaces
  next hret =>
    rw [Option.some.injEq] at hspaces
    rw [hspaces]
    exact ⟨Nat.not_le.mp hret, rfl⟩

variable {s t : ProcessState}

theorem loaded_fields {mem : PageMemory} {mm : MemoryManager} {dir : Directory}
    (ht : t = ⟨mem, { s.proc with mm := mm, pgdir := dir }⟩) :
    t.proc.mm = mm ∧ t.proc.pgdir = dir := by
  rw [ht]
  exact ⟨rfl, rfl⟩

/-- What `SegmentLoad` has found when it returns 0. -/
theorem segment_load_loads {h : ProgHeader} (hload : segmentLoad s h h.size = some (t, 0)) :
    h.segmentRead = true ∧ h.kmalloc.isSome ∧
      (∀ v, VisitedFrom (pageMask h.vaddr) (occupyPages h.size h.vaddr) v →
        (t.proc.pgdir.frame v).isSome) ∧
      segmentSpaces h s.proc.mm.spaceMap = some t.proc.mm.spaceMap ∧
      KeepsMapped s.proc.pgdir t.proc.pgdir := by
  obtain ⟨mem, dir, hmap, hret, hread, ht⟩ := segment_load_zero hload
  obtain ⟨hvisited, hkeep⟩ := map_pages_mapped (do_mmap_start hret) hmap
  obtain ⟨hmm, hdir⟩ := loaded_fields ht
  rw [hmm, hdir]
  cases hkmalloc : h.kmalloc with
  | none =>
      rw [hkmalloc, do_mmap_no_memory] at hret
      simp [minusOne] at hret
  | some b =>
      rw [hkmalloc] at hret
      exact ⟨hread, rfl, hvisited, segment_spaces_of_mmap hret, hkeep⟩

/-- `SegmentLoad` by what its calls answer. -/
theorem segment_load_of {h : ProgHeader} {fileSize ret : Nat} {mem : PageMemory}
    {dir : Directory} {mm : MemoryManager}
    (hmap : mapPagesMaybeMapped userWrite (occupyPages fileSize h.vaddr) (pageMask h.vaddr) s.mem
      s.proc.pgdir = some (mem, dir, 0))
    (hmmap : doMmap s.proc.mm (pageMask h.vaddr) (wrap (occupyPages fileSize h.vaddr * pageSize))
      7 0x10 h.kmalloc = (mm, ret)) (hret : ret < 0x80000000) (hread : h.segmentRead = true) :
    segmentLoad s h fileSize = some (⟨mem, { s.proc with mm := mm, pgdir := dir }⟩, 0) := by
  unfold segmentLoad
  simp only [hmap, Option.map_some, hmmap]
  rw [if_neg (by simp), if_neg (Nat.not_le.mpr hret), if_pos hread]

/-- `SegmentLoad` of a segment whose pages are mapped. -/
theorem segment_load_in_place {h : ProgHeader} {spaces : List VMSpace}
    (hread : h.segmentRead = true) (hkmalloc : h.kmalloc.isSome)
    (hmapped : ∀ v, VisitedFrom (pageMask h.vaddr) (occupyPages h.size h.vaddr) v →
      (s.proc.pgdir.frame v).isSome)
    (hspaces : segmentSpaces h s.proc.mm.spaceMap = some spaces) :
    segmentLoad s h h.size = some ({ s with proc := { s.proc with
      mm := { s.proc.mm with spaceMap := spaces } } }, 0) := by
  obtain ⟨b, hblock⟩ := Option.isSome_iff_exists.mp hkmalloc
  obtain ⟨hret, heq⟩ := mmap_of_segment_spaces hspaces b
  have hmap := map_pages_nothing (m := s.mem) (do_mmap_start hret) hmapped
  have hpair : ∀ (r : MemoryManager × Nat) (mm : MemoryManager), r.1 = mm → r = (mm, r.2) := by
    rintro r mm rfl
    rfl
  rw [← hblock] at hret heq
  exact segment_load_of hmap (hpair _ _ heq) hret hread

/-- What `LoadElfBinary` has found when it returns 0. -/
theorem load_loads {headers : List ProgHeader} (hload : loadElfBinary headers s = some (t, 0)) :
    Loads t.proc.pgdir headers ∧
      imageSpaces headers s.proc.mm.spaceMap = some t.proc.mm.spaceMap ∧
      KeepsMapped s.proc.pgdir t.proc.pgdir := by
  induction headers generalizing s with
  | nil =>
      cases hload
      exact ⟨⟨by simp, by simp, by simp⟩, rfl, fun _ h => h⟩
  | cons h rest ih =>
      rw [loadElfBinary] at hload
      split at hload
      · simp at hload
      next hread =>
        have hread : h.headerRead = true := by simpa using hread
        split at hload
        next htype =>
          obtain ⟨⟨s₁, ret⟩, hsegment, hload⟩ := Option.bind_eq_some_iff.mp hload
          simp only at hload
          split at hload
          · simp at hload
          next hzero =>
            rw [not_not.mp hzero] at hsegment
            obtain ⟨hbytes, hkmalloc, hvisited, hspaces, hkeep⟩ := segment_load_loads hsegment
            obtain ⟨hrest, himage, hkeep'⟩ := ih hload
            refine ⟨⟨?_, ?_, ?_⟩, ?_, hkeep.trans hkeep'⟩
            · exact List.forall_mem_cons.mpr ⟨hread, hrest.read⟩
            · exact List.forall_mem_cons.mpr ⟨fun _ => ⟨hbytes, hkmalloc⟩, hrest.segments⟩
            · exact List.forall_mem_cons.mpr
                ⟨fun _ v hv => hkeep' v (hvisited v hv), hrest.mapped⟩
            · rw [imageSpaces, if_pos htype, hspaces]
              exact himage
        next htype =>
          obtain ⟨hrest, himage, hkeep⟩ := ih hload
          refine ⟨⟨?_, ?_, ?_⟩, ?_, hkeep⟩
          · exact List.forall_mem_cons.mpr ⟨hread, hrest.read⟩
          · exact List.forall_mem_cons.mpr ⟨fun hone => absurd hone htype, hrest.segments⟩
          · exact List.forall_mem_cons.mpr ⟨fun hone => absurd hone htype, hrest.mapped⟩
          · rw [imageSpaces, if_neg htype]
            exact himage

/-- `LoadElfBinary` of an image whose pages are mapped. -/
theorem load_in_place {headers : List ProgHeader} {spaces : List VMSpace}
    (hloads : Loads s.proc.pgdir headers)
    (hspaces : imageSpaces headers s.proc.mm.spaceMap = some spaces) :
    ∃ dataEnd, loadElfBinary headers s = some ({ s with proc := { s.proc with
      mm := { s.proc.mm with spaceMap := spaces }, dataEnd := dataEnd } }, 0) := by
  induction headers generalizing s with
  | nil =>
      cases hspaces
      exact ⟨s.proc.dataEnd, rfl⟩
  | cons h rest ih =>
      obtain ⟨hread, hreads⟩ := List.forall_mem_cons.mp hloads.read
      obtain ⟨hsegment, hsegments⟩ := List.forall_mem_cons.mp hloads.segments
      obtain ⟨hmapped, hpages⟩ := List.forall_mem_cons.mp hloads.mapped
      rw [loadElfBinary, if_neg (by simp [hread])]
      rw [imageSpaces] at hspaces
      split at hspaces
      next htype =>
        obtain ⟨spaces₁, hfirst, hrest⟩ := Option.bind_eq_some_iff.mp hspaces
        obtain ⟨hbytes, hkmalloc⟩ := hsegment htype
        rw [if_pos htype, segment_load_in_place hbytes hkmalloc (hmapped htype) hfirst,
          Option.bind_some]
        simp only
        rw [if_neg (by simp)]
        obtain ⟨dataEnd, hload⟩ := ih (s := { s with proc := { s.proc with
          mm := { s.proc.mm with spaceMap := spaces₁ }
          dataEnd := if h.flags = 6 then wrap (h.vaddr + h.memsz) else s.proc.dataEnd } })
          ⟨hreads, hsegments, hpages⟩ hrest
        exact ⟨dataEnd, hload⟩
      next htype =>
        rw [if_neg htype]
        exact ih ⟨hreads, hsegments, hpages⟩ hspaces

/-! ## The release -/

/-- A space that `DoMmap` makes has the flags of the call. -/
theorem do_mmap_members (mm : MemoryManager) (addr len prot flags : Nat) (kmalloc : Option VMSpace)
    {sp : VMSpace} (hsp : sp ∈ (doMmap mm addr len prot flags kmalloc).1.spaceMap) :
    sp ∈ mm.spaceMap ∨ sp.flags = flags := by
  simp only [doMmap] at hsp
  split at hsp
  · exact .inl hsp
  · split at hsp
    · exact .inl hsp
    · cases haddr : mmapAddress mm.spaceMap addr (pageAlign len) flags with
      | none =>
          rw [haddr] at hsp
          exact .inl hsp
      | some start =>
          rw [haddr] at hsp
          cases kmalloc with
          | none => exact .inl hsp
          | some b =>
              rcases mem_insert_vm_space.mp hsp with rfl | hold
              · exact .inr rfl
              · exact .inl hold

theorem segment_spaces_members {h : ProgHeader} {spaces spaces' : List VMSpace}
    (hspaces : segmentSpaces h spaces = some spaces') {sp : VMSpace} (hsp : sp ∈ spaces') :
    sp ∈ spaces ∨ sp.flags = 0x10 := by
  rw [segmentSpaces] at hspaces
  split at hspaces
  · cases hspaces
  · rw [Option.some.injEq] at hspaces
    rw [← hspaces, mmapSegment] at hsp
    exact do_mmap_members _ _ _ _ _ _ hsp

/-- The spaces of an image are no stack and no heap. -/
theorem image_spaces_members {headers : List ProgHeader} {spaces spaces' : List VMSpace}
    (hspaces : imageSpaces headers spaces = some spaces') {sp : VMSpace} (hsp : sp ∈ spaces') :
    sp ∈ spaces ∨ sp.flags = 0x10 := by
  induction headers generalizing spaces with
  | nil =>
      cases hspaces
      exact .inl hsp
  | cons h rest ih =>
      rw [imageSpaces] at hspaces
      split at hspaces
      · obtain ⟨middle, hfirst, hrest⟩ := Option.bind_eq_some_iff.mp hspaces
        rcases ih hrest with hmiddle | hflags
        · exact segment_spaces_members hfirst hmiddle
        · exact .inr hflags
      · exact ih hspaces

/-- The release unmaps nothing where no space is a stack or a heap. -/
theorem release_spaces_nothing {spaces : List VMSpace}
    (hflags : ∀ sp ∈ spaces, releases vmsStackHeap sp = false) (phymem : PhysicMemory)
    (dir : Directory) (freed : List Nat) :
    releaseSpaces vmsStackHeap spaces phymem dir freed = (phymem, dir, freed) := by
  induction spaces with
  | nil => rfl
  | cons sp rest ih =>
      obtain ⟨hfirst, hrest⟩ := List.forall_mem_cons.mp hflags
      rw [releaseSpaces, hfirst]
      exact ih hrest

theorem release_in_place {s : ProcessState} {headers : List ProgHeader}
    (hspaces : imageSpaces headers [] = some s.proc.mm.spaceMap) :
    memoryManagerRelease s vmsStackHeap =
      { s with proc := { s.proc with mm := { s.proc.mm with spaceMap := [] } } } := by
  have hflags : ∀ sp ∈ s.proc.mm.spaceMap, releases vmsStackHeap sp = false := by
    intro sp hsp
    have hsixteen := (image_spaces_members hspaces hsp).resolve_left List.not_mem_nil
    rw [releases, hsixteen]
    rfl
  rw [memoryManagerRelease, release_spaces_nothing hflags]

/-- An image that is there already is loaded over itself. -/
theorem load_over_itself {s : ProcessState} {headers : List ProgHeader}
    (hloads : Loads s.proc.pgdir headers)
    (hspaces : imageSpaces headers [] = some s.proc.mm.spaceMap) :
    ∃ dataEnd, loadElfBinary headers (memoryManagerRelease s vmsStackHeap) =
      some ({ s with proc := { s.proc with dataEnd := dataEnd } }, 0) := by
  rw [release_in_place hspaces]
  exact load_in_place (s := { s with proc := { s.proc with
    mm := { s.proc.mm with spaceMap := [] } } }) hloads hspaces

/-! ## The stack -/

/-- A stack that cannot be made leaves the spaces and the pages. -/
theorem init_user_stack_fails {kmalloc : Option VMSpace} {ret : Int}
    (hstack : initUserStack s kmalloc = some (t, ret)) (hret : ret ≠ 0) :
    t.proc.mm = s.proc.mm ∧ t.proc.pgdir = s.proc.pgdir := by
  cases kmalloc with
  | none =>
      cases hstack
      exact ⟨rfl, rfl⟩
  | some block =>
      simp only [initUserStack] at hstack
      obtain ⟨⟨m₁, page⟩, -, hrest⟩ := Option.bind_eq_some_iff.mp hstack
      by_cases hpage : page = 0
      · simp only [hpage, if_true] at hrest
        cases hrest
        exact ⟨rfl, rfl⟩
      · simp only [hpage, if_false] at hrest
        obtain ⟨⟨m₂, dir₂, ret₂⟩, hadd, heq⟩ := Option.map_eq_some_iff.mp hrest
        simp only at heq
        split at heq
        next hfails =>
          cases heq
          rcases page_table_add_cases hadd with ⟨-, -, hzero, -⟩ | ⟨-, q, -, hcase⟩
          · rw [hfails] at hzero
            cases hzero
          · rcases hcase with ⟨-, hdir, -⟩ | ⟨-, hzero, -⟩
            · exact ⟨rfl, hdir⟩
            · rw [hfails] at hzero
              cases hzero
        · cases heq
          exact absurd rfl hret

/-! ## Descriptors -/

/-- The tables once the program is open. -/
def opened (s : FileState τ) (t : τ) (fd : Fin maxFdNr) (i : Fin maxOpenFiles) : FileState τ :=
  (s.setFile fd (openedFile s fd rdOnly)).setLocal t i (some fd)

variable {files : FileState τ} {task : τ} {fd : Fin maxFdNr} {i : Fin maxOpenFiles}

theorem opened_in_use (files : FileState τ) (task : τ) (fd : Fin maxFdNr) (i : Fin maxOpenFiles) :
    (opened files task fd i).InUse fd := by
  rw [FileState.InUse, opened, setLocal_globalFdTable, setFile_globalFdTable, if_pos rfl]
  exact of_decide_eq_true rfl

/-- `SysClose` undoes `SysOpen`. -/
theorem close_opened (hfd : ¬ files.InUse fd) (hnone : files.fdTable task i = none) :
    (∀ fd', ((opened files task fd i).close task i).InUse fd' ↔ files.InUse fd') ∧
      ((opened files task fd i).close task i).fdTable task = files.fdTable task := by
  have hname : (opened files task fd i).fdTable task i = some fd := by
    rw [opened, setLocal_fdTable, if_pos ⟨rfl, rfl⟩]
  obtain ⟨file, htable, -, hnames, hlast, -⟩ := close_file_spec (opened files task fd i) fd
  have hone : ((opened files task fd i).globalFdTable fd).reference ≤ 1 := by
    rw [opened, setLocal_globalFdTable, setFile_globalFdTable, if_pos rfl]
  rw [FileState.close, hname]
  constructor
  · intro fd'
    rw [FileState.InUse, setLocal_globalFdTable, htable, Function.update_apply]
    by_cases heq : fd' = fd
    · rw [if_pos heq, hlast hone, heq]
      exact ⟨fun hne => absurd rfl hne, fun huse => absurd huse hfd⟩
    · rw [if_neg heq, opened, setLocal_globalFdTable, setFile_globalFdTable, if_neg heq]
      exact Iff.rfl
  · funext j
    rw [setLocal_fdTable]
    by_cases hj : j = i
    · rw [if_pos ⟨rfl, hj⟩, hj, hnone]
    · rw [if_neg fun hc => hj hc.2, hnames, opened, setLocal_fdTable, if_neg fun hc => hj hc.2]
      rfl

/-- The last loop keeps the table of a task without descriptors from 3 on. -/
theorem reset_fds_table (files : FileState τ) (task : τ) :
    (files.resetFds task).fdTable task = files.fdTable task ↔
      ∀ i, 3 ≤ i.val → files.fdTable task i = none := by
  have htable : (files.resetFds task).fdTable task =
      fun i => if 3 ≤ i.val then none else files.fdTable task i := Function.update_self ..
  rw [htable]
  constructor
  · intro heq i hi
    have hat := congrFun heq i
    simp only [if_pos hi] at hat
    exact hat.symm
  · intro hnone
    funext i
    by_cases hi : 3 ≤ i.val
    · rw [if_pos hi, hnone i hi]
    · rw [if_neg hi]

/-! ## Which failures are atomic -/

omit [DecidableEq τ] in
/-- An exit that reads a variable that was not set is not atomic. -/
theorem not_atomic_of_unset {t : τ} {s : ExecState τ} {r : ExecResult τ}
    (h : r.uninitialised = true) : ¬ Atomic t s r := by
  intro hatomic
  rw [hatomic.initialised] at h
  cases h

/-- The exit at which the stack cannot be made: the interrupts are restored and the file is
closed, so that the spaces, the pages and the other descriptors decide. -/
theorem atomic_of_stack_exit {s : ExecState τ} {t : τ} {a : ExecAnswers τ} {argBuf : Nat}
    {process : ProcessState} (hfd : ¬ s.files.InUse fd) (hnone : s.files.fdTable t i = none) :
    Atomic t s (toEnd ⟨process, opened s.files t fd i, false⟩ t i
        ⟨some argBuf, some t, some s.interrupts⟩ a.garbage (-1)) ↔
      process.proc.mm.spaceMap = s.process.proc.mm.spaceMap ∧
        (∀ v, process.proc.pgdir.frame v = s.process.proc.pgdir.frame v) ∧
          ∀ j, 3 ≤ j.val → s.files.fdTable t j = none := by
  obtain ⟨huse, htable⟩ := close_opened hfd hnone
  have hreset := reset_fds_table ((opened s.files t fd i).close t i) t
  rw [htable] at hreset
  constructor
  · intro hatomic
    exact ⟨hatomic.spaces, hatomic.pages, hreset.mp hatomic.descriptors⟩
  · rintro ⟨hspaces, hpages, hdescriptors⟩
    exact ⟨hspaces, hpages, hreset.mpr hdescriptors, rfl, huse, rfl⟩

/-- From the release on, a failure is atomic just when it is that of the stack, and the image was
there before. -/
theorem exec_image_atomic {s : ExecState τ} {t : τ} {a : ExecAnswers τ} {argBuf : Nat}
    {r : ExecResult τ} (hfd : ¬ s.files.InUse fd) (hnone : s.files.fdTable t i = none)
    (hcall : execImage { s with files := opened s.files t fd i } t i a
      ⟨some argBuf, some t, none⟩ = some r) (hret : r.ret = -1) :
    Atomic t s r ↔ Loads s.process.proc.pgdir a.image.headers ∧
      imageSpaces a.image.headers [] = some s.process.proc.mm.spaceMap ∧
        ∀ j, 3 ≤ j.val → s.files.fdTable t j = none := by
  unfold execImage at hcall
  obtain ⟨⟨u, ret⟩, hload, hcall⟩ := Option.bind_eq_some_iff.mp hcall
  simp only at hload hcall
  by_cases hfails : ret ≠ 0
  · rw [if_pos hfails] at hcall
    cases hcall
    refine iff_of_false (not_atomic_of_unset rfl) ?_
    rintro ⟨hloads, hspaces, -⟩
    -- an image that is there already is loaded without a failure
    obtain ⟨dataEnd, hzero⟩ := load_over_itself hloads hspaces
    rw [hzero] at hload
    cases hload
    exact hfails rfl
  · rw [if_neg hfails] at hcall
    obtain ⟨⟨v, ret'⟩, hstack, heq⟩ := Option.map_eq_some_iff.mp hcall
    simp only at hstack heq
    by_cases hfails' : ret' ≠ 0
    · rw [if_pos hfails'] at heq
      obtain ⟨hmm, hpgdir⟩ := init_user_stack_fails hstack hfails'
      rw [← heq, atomic_of_stack_exit hfd hnone, hmm, hpgdir]
      rw [not_not.mp hfails] at hload
      constructor
      · rintro ⟨hspaces, hpages, hdescriptors⟩
        obtain ⟨hloads, himage, -⟩ := load_loads hload
        refine ⟨⟨hloads.read, hloads.segments, ?_⟩, ?_, hdescriptors⟩
        · intro h hmem htype v hv
          rw [← hpages v]
          exact hloads.mapped h hmem htype v hv
        · rw [← hspaces, ← himage]
          rfl
      · rintro ⟨hloads, hspaces, hdescriptors⟩
        obtain ⟨dataEnd, hzero⟩ := load_over_itself hloads hspaces
        rw [hzero] at hload
        cases hload
        exact ⟨rfl, fun _ => rfl, hdescriptors⟩
    · rw [if_neg hfails'] at heq
      rw [← heq] at hret
      cases hret

/-- Once the file is open, a failure in front of the release is never atomic. -/
theorem exec_opened_atomic {s : ExecState τ} {t : τ} {a : ExecAnswers τ} {r : ExecResult τ}
    (hfd : ¬ s.files.InUse fd) (hnone : s.files.fdTable t i = none)
    (hcall : execOpened { s with files := opened s.files t fd i } t i a = some r)
    (hret : r.ret = -1) : Atomic t s r ↔ FailsInPlace s t a := by
  unfold execOpened at hcall
  by_cases hstat : a.stat = true
  · rw [hstat, Bool.not_true, if_neg Bool.false_ne_true] at hcall
    cases hheader : a.header with
    | none =>
        rw [hheader] at hcall
        cases hcall
        refine iff_of_false (not_atomic_of_unset rfl) fun hplace => ?_
        obtain ⟨header, hsome, -⟩ := hplace.header
        rw [hheader] at hsome
        cases hsome
    | some header =>
        rw [hheader] at hcall
        simp only at hcall
        by_cases hprogram : header.isProgram = true
        · rw [hprogram, Bool.not_true, if_neg Bool.false_ne_true] at hcall
          cases hargBuf : a.argBuf with
          | none =>
              rw [hargBuf] at hcall
              cases hcall
              refine iff_of_false (not_atomic_of_unset rfl) fun hplace => ?_
              have hsome := hplace.argBuf
              rw [hargBuf] at hsome
              cases hsome
          | some argBuf =>
              rw [hargBuf] at hcall
              rw [exec_image_atomic hfd hnone hcall hret]
              constructor
              · rintro ⟨hloads, hspaces, hdescriptors⟩
                refine ⟨hstat, ⟨header, hheader, hprogram⟩, ?_, hloads, hspaces, hdescriptors⟩
                rw [hargBuf]
                rfl
              · intro hplace
                exact ⟨hplace.loads, hplace.spaces, hplace.descriptors⟩
        · rw [Bool.not_eq_true] at hprogram
          rw [hprogram, Bool.not_false, if_pos rfl] at hcall
          cases hcall
          refine iff_of_false (not_atomic_of_unset rfl) fun hplace => ?_
          obtain ⟨header', hsome, hprogram'⟩ := hplace.header
          rw [hheader] at hsome
          cases hsome
          rw [hprogram] at hprogram'
          cases hprogram'
  · rw [Bool.not_eq_true] at hstat
    rw [hstat, Bool.not_false, if_pos rfl] at hcall
    cases hcall
    refine iff_of_false (fun hatomic => ?_) fun hplace => ?_
    · -- the file stays open
      exact hfd ((hatomic.closed fd).mp (opened_in_use s.files t fd i))
    · have htrue := hplace.stat
      rw [hstat] at htrue
      cases htrue

omit [DecidableEq τ] in
theorem atomic_refl (t : τ) (s : ExecState τ) (ret : Int) : Atomic t s ⟨s, ret, false⟩ :=
  ⟨rfl, fun _ => rfl, rfl, rfl, fun _ => Iff.rfl, rfl⟩

/-- A call that returns -1 is atomic if and only if the file is not executable or cannot be opened
for want of an entry, or all succeeds up to the stack in a process without descriptors from 3 on
that had just the spaces and the pages of the image. -/
theorem exec_atomic_iff {s : ExecState τ} {t : τ} {a : ExecAnswers τ} {r : ExecResult τ}
    (hcall : sysExecv s t a = some r) (hret : r.ret = -1) :
    Atomic t s r ↔ FailsEarly s a ∨ FailsInPlace s t a := by
  unfold sysExecv at hcall
  by_cases haccess : a.access = true
  · rw [haccess, Bool.not_true, if_neg Bool.false_ne_true] at hcall
    by_cases hfound : a.found = true
    · rw [hfound, Bool.not_true, if_neg Bool.false_ne_true] at hcall
      have hearly : ∀ fd, ¬ s.files.InUse fd → ¬ FailsEarly s a := by
        rintro fd hfd (hfalse | hfalse | hfull)
        · rw [haccess] at hfalse
          cases hfalse
        · rw [hfound] at hfalse
          cases hfalse
        · exact hfd (hfull fd)
      rcases open_file_ends s.files t rdOnly with
        ⟨hfull, -, hopen⟩ | ⟨fd, -, hfd, -, ⟨hno, hopen⟩ | ⟨i, hnone, hopen⟩⟩
      · rw [hopen] at hcall
        cases hcall
        exact iff_of_true (atomic_refl t s (-1)) (.inl (.inr (.inr hfull)))
      · -- the entry of the global table is not given back
        rw [hopen] at hcall
        cases hcall
        refine iff_of_false (fun hatomic => hfd ((hatomic.closed fd).mp ?_)) ?_
        · rw [FileState.InUse, setFile_globalFdTable, if_pos rfl]
          exact of_decide_eq_true rfl
        · rintro (hfails | hplace)
          · exact hearly fd hfd hfails
          · exact hno ⟨3, hplace.descriptors 3 (Nat.le_refl 3)⟩
      · rw [hopen] at hcall
        rw [exec_opened_atomic hfd hnone hcall hret]
        exact (or_iff_right (hearly fd hfd)).symm
    · rw [Bool.not_eq_true] at hfound
      rw [hfound, Bool.not_false, if_pos rfl] at hcall
      cases hcall
      exact iff_of_true (atomic_refl t s (-1)) (.inl (.inr (.inl hfound)))
  · rw [Bool.not_eq_true] at haccess
    rw [haccess, Bool.not_false, if_pos rfl] at hcall
    cases hcall
    exact iff_of_true (atomic_refl t s (-1)) (.inl (.inl haccess))

/-- A process with no open files. -/
def bootExec : ExecState (Fin 1) := ⟨bootProcess, .init fun _ => true, true⟩

/-- A shell script that is marked as executable. -/
def scriptAnswers (access : Bool) : ExecAnswers (Fin 1) where
  access
  found := true
  stat := true
  header := some ⟨[0x23, 0x21, 0x2f, 0x62, 0x69, 0x6e, 0x2f], 0x6873, 0x0a, 0, 0, 0⟩
  argBuf := some 0x80100000
  image := ⟨[], none⟩
  garbage := ⟨none, false⟩

theorem not_executable_atomic : ∃ r, sysExecv bootExec 0 (scriptAnswers false) = some r ∧
    r.ret = -1 ∧ Atomic 0 bootExec r := by
  have hcall : sysExecv bootExec 0 (scriptAnswers false) = some ⟨bootExec, -1, false⟩ := rfl
  exact ⟨_, hcall, rfl, (exec_atomic_iff hcall rfl).mpr (.inl (.inl rfl))⟩

/-- A file that is no program is rejected with variables that were not set. -/
theorem script_not_atomic : ∃ r, sysExecv bootExec 0 (scriptAnswers true) = some r ∧
    r.ret = -1 ∧ r.uninitialised = true ∧ ¬ Atomic 0 bootExec r := by
  rcases open_file_ends bootExec.files 0 rdOnly with
    ⟨hfull, -⟩ | ⟨fd, -, -, -, ⟨hno, -⟩ | ⟨i, -, hopen⟩⟩
  · exact absurd rfl (hfull 0)
  · exact absurd ⟨0, rfl⟩ hno
  · refine ⟨toEnd { bootExec with files := opened bootExec.files 0 fd i } 0 i {}
      (scriptAnswers true).garbage (-1), ?_, rfl, rfl, not_atomic_of_unset rfl⟩
    unfold sysExecv
    rw [hopen]
    rfl

end XBook.ExecFailure
