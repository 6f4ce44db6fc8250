import XBook.Fs.DescriptorRuns
import XBook.Mm.ForkFaithful

/-!
# A fork that fails

`SysFork` of `mm/fork.c` with the ends that `XBook.Mm.Fork` leaves out. `kmallocs` is the number of
times that `kmalloc` succeeds: after the first failure there is no other call. What the fork has
taken and not given back is kept beside the kernel, its objects by their purpose.

No error path of `SysFork` restores the interrupts, and those behind `AllocTaskMemory` free the task
only.
-/

namespace XBook

open Files

variable {τ : Type*}

/-- What `SysFork` allocates by `kmalloc`. -/
inductive ForkObject where
  | task
  | mm
  | pgdir
  /-- The buffer of `CopyPageTable`. -/
  | buf
  | space (space : VMSpace)
  deriving DecidableEq

/-- How `SysFork` ends. It returns -1 where it has failed. -/
inductive ForkEnd where
  | forked (pid : Int)
  | failed
  | panicked
  /-- An access faults without end. -/
  | stuck
  deriving DecidableEq

/-- What `SysFork` works on, with the task that calls it as the parent. -/
structure ForkKernel (τ : Type*) where
  interrupts : Bool
  parent : TaskMemory
  mem : PageMemory
  files : FileState τ
  taskReadyList : List Int
  taskGlobalList : List Int
  nextPid : Int

/-- What `CopyPageTable` works on, with the pages taken for the child. -/
structure CopyRun where
  state : ForkState
  pages : List Nat

/-- How the copying of pages ends. -/
inductive CopyEnd where
  | done (r : CopyRun)
  | failed (r : CopyRun)
  | stuck

/-- The page that `PageTableAdd` takes for a table. -/
def tablePages (m : PageMemory) (dir : PageDir) (virtualAddr : Nat) : List Nat :=
  if (dir (pdeIdx virtualAddr)).isSome then [] else (m.allocPage.map Prod.snd).toList

/-- The body of the inner loop of `CopyPageTable`, which is `copyPage` where there is a page. -/
def copyPageEnd (spaceMap : List VMSpace) (r : CopyRun) (progVaddr : Nat) : CopyEnd :=
  match r.state.mem.readPage spaceMap r.state.parentDir progVaddr with
  | none => .stuck
  | some (mem, parentDir, _) =>
      match mem.allocPage with
      | none => .stuck
      | some (mem, paddr) =>
          if paddr = 0 then .failed ⟨{ r.state with mem, parentDir }, r.pages⟩
          else
            match copyPage spaceMap r.state progVaddr with
            | none => .stuck
            | some state =>
                .done ⟨state, paddr :: tablePages mem r.state.childDir progVaddr ++ r.pages⟩

/-- The loops of `CopyPageTable`. -/
def copyPagesEnd (spaceMap : List VMSpace) : List Nat → CopyRun → CopyEnd
  | [], r => .done r
  | progVaddr :: rest, r =>
      match copyPageEnd spaceMap r progVaddr with
      | .done r => copyPagesEnd spaceMap rest r
      | .failed r => .failed r
      | .stuck => .stuck

/-- What `SysFork` leaves. -/
structure ForkOutcome (τ : Type*) where
  result : ForkEnd
  kernel : ForkKernel τ
  objects : List ForkObject
  pages : List Nat

namespace ForkKernel

/-- The memory after some pages have been copied. -/
def copied (s : ForkKernel τ) (r : CopyRun) : ForkKernel τ :=
  { s with parent := { s.parent with pgdir := r.state.parentDir }, mem := r.state.mem }

/-- `CopyPageTableAndVMSpace`, with what is left of the successful `kmalloc`. The pid is that of the
child. -/
def copyPageTableAndVMSpace (s : ForkKernel τ) (pid : Int) (objects : List ForkObject)
    (kmallocs : Nat) : ForkOutcome τ :=
  match kmallocs with
  | 0 => ⟨.failed, s, objects, []⟩
  | kmallocs + 1 =>
      let addrs := s.parent.spaceMap.flatMap spacePages
      match copyPagesEnd s.parent.spaceMap addrs ⟨⟨s.mem, s.parent.pgdir, fun _ => none⟩, []⟩ with
      | .stuck => ⟨.stuck, s, .buf :: objects, []⟩
      | .failed r => ⟨.failed, s.copied r, .buf :: objects, r.pages⟩
      | .done r =>
          match copyVMSpace kmallocs s.parent.spaceMap with
          | none => ⟨.failed, s.copied r,
              (s.parent.spaceMap.take kmallocs).map .space ++ objects, r.pages⟩
          | some spaceMap => ⟨.forked pid, s.copied r, spaceMap.map .space ++ objects, r.pages⟩

/-- `CopyTask` before `BuildChildStack`. -/
def copyTask (s : ForkKernel τ) (kmallocs : Nat) : ForkOutcome τ :=
  let pid := s.nextPid
  let s := { s with nextPid := s.nextPid + 1 }
  match kmallocs with
  | 0 => ⟨.panicked, s, [.task], []⟩
  | 1 => ⟨.failed, s, [.mm, .task], []⟩
  | kmallocs + 2 => s.copyPageTableAndVMSpace pid [.pgdir, .mm, .task] kmallocs

variable [DecidableEq τ]

/-- `SysFork`, with the end of `CopyTask`. -/
def sysFork (s : ForkKernel τ) (parent child : τ) (kmallocs : Nat) : ForkOutcome τ :=
  let oldStatus := s.interrupts
  let s := { s with interrupts := false }
  match kmallocs with
  | 0 => ⟨.failed, s, [], []⟩
  | kmallocs + 1 =>
      let r := s.copyTask kmallocs
      match r.result with
      | .forked pid =>
          { r with
            kernel := { r.kernel with
              files := (r.kernel.files.copyTask parent child).updateInodeOpenCounts child
              taskReadyList := r.kernel.taskReadyList ++ [pid]
              taskGlobalList := r.kernel.taskGlobalList ++ [pid]
              interrupts := oldStatus } }
      | .failed => { r with objects := r.objects.erase .task }
      | _ => r

end ForkKernel

/-- A fork that has failed and left nothing. -/
structure ForkUndone (s : ForkKernel τ) (r : ForkOutcome τ) : Prop where
  result : r.result = .failed
  interrupts : r.kernel.interrupts = s.interrupts
  objects : r.objects = []
  pages : r.pages = []
  ready : r.kernel.taskReadyList = s.taskReadyList
  global : r.kernel.taskGlobalList = s.taskGlobalList
  spaces : r.kernel.parent.spaceMap = s.parent.spaceMap ∧ r.kernel.parent.bounds = s.parent.bounds
  memory : ∀ v entry, s.parent.pgdir.lookup v = some entry →
    r.kernel.parent.pgdir.lookup v = some entry ∧
      r.kernel.mem.pages entry.page = s.mem.pages entry.page
  files : r.kernel.files = s.files

section

variable {s : ForkKernel τ} {kmallocs : Nat}

/-! ## The copying of pages -/

variable {spaceMap : List VMSpace} {r r' : CopyRun} {v : Nat}

/-- A page that is copied is copied as in a fork that succeeds, and the child has it. -/
theorem copy_page_end_done (h : copyPageEnd spaceMap r v = .done r') :
    copyPage spaceMap r.state v = some r'.state ∧ r.pages.length < r'.pages.length := by
  rw [copyPageEnd] at h
  split at h
  · cases h
  · split at h
    · cases h
    · split at h
      · cases h
      · split at h
        · cases h
        · next state hcopy =>
            cases h
            refine ⟨hcopy, ?_⟩
            rw [List.cons_append, List.length_cons, List.length_append]
            omega

theorem copy_page_end_of_some {state : ForkState} (h : copyPage spaceMap r.state v = some state) :
    ∃ pages, copyPageEnd spaceMap r v = .done ⟨state, pages⟩ := by
  obtain ⟨m, parentDir, buf, m', p, ret, entry, hread, ⟨m₁, halloc, hp, -⟩, -⟩ := copy_page_cases h
  refine ⟨p :: tablePages m₁ r.state.childDir v ++ r.pages, ?_⟩
  rw [copyPageEnd, hread]
  dsimp only
  rw [halloc]
  dsimp only
  rw [if_neg hp, h]

/-- The loop succeeds as in a fork that succeeds. -/
theorem copy_pages_end_iff {addrs : List Nat} {state : ForkState} :
    (∃ pages, copyPagesEnd spaceMap addrs r = .done ⟨state, pages⟩) ↔
      copyPages spaceMap addrs r.state = some state := by
  induction addrs generalizing r with
  | nil =>
      constructor
      · rintro ⟨pages, h⟩
        cases h
        rfl
      · intro h
        cases h
        exact ⟨r.pages, rfl⟩
  | cons v rest ih =>
      rw [copyPagesEnd.eq_def, copyPages]
      dsimp only
      cases hpage : copyPage spaceMap r.state v with
      | none =>
          refine iff_of_false ?_ (Option.some_ne_none _).symm
          rintro ⟨pages, h⟩
          split at h
          · next r' hdone =>
              rw [(copy_page_end_done hdone).1] at hpage
              cases hpage
          · cases h
          · cases h
      | some next =>
          obtain ⟨pages, hdone⟩ := copy_page_end_of_some hpage
          rw [hdone]
          exact ih

/-! ## What a failed fork leaves -/

/-- The objects that `CopyTask` has are still there, and the interrupts as they were. -/
theorem copy_page_table_and_vm_space_keeps (s : ForkKernel τ) (pid : Int)
    (objects : List ForkObject) (kmallocs : Nat) :
    (s.copyPageTableAndVMSpace pid objects kmallocs).kernel.interrupts = s.interrupts ∧
      ∀ o ∈ objects, o ∈ (s.copyPageTableAndVMSpace pid objects kmallocs).objects := by
  cases kmallocs with
  | zero => exact ⟨rfl, fun o ho => ho⟩
  | succ kmallocs =>
      rw [ForkKernel.copyPageTableAndVMSpace]
      split
      · exact ⟨rfl, fun o ho => List.mem_cons_of_mem _ ho⟩
      · exact ⟨rfl, fun o ho => List.mem_cons_of_mem _ ho⟩
      · split
        · exact ⟨rfl, fun o ho => List.mem_append_right _ ho⟩
        · exact ⟨rfl, fun o ho => List.mem_append_right _ ho⟩

/-- A `CopyTask` that does not panic leaves the manager. -/
theorem copy_task_keeps (s : ForkKernel τ) (kmallocs : Nat) :
    (s.copyTask kmallocs).kernel.interrupts = s.interrupts ∧
      ((s.copyTask kmallocs).result = .panicked ∨ .mm ∈ (s.copyTask kmallocs).objects) := by
  cases kmallocs with
  | zero => exact ⟨rfl, .inl rfl⟩
  | succ kmallocs =>
      cases kmallocs with
      | zero => exact ⟨rfl, .inr (List.mem_cons_self ..)⟩
      | succ kmallocs =>
          obtain ⟨hinterrupts, hobjects⟩ := copy_page_table_and_vm_space_keeps
            { s with nextPid := s.nextPid + 1 } s.nextPid [.pgdir, .mm, .task] kmallocs
          exact ⟨hinterrupts, .inr (hobjects .mm (List.mem_cons_of_mem _ (List.mem_cons_self ..)))⟩

variable [DecidableEq τ] {parent child : τ}

/-- A fork that has got its task and fails leaves the manager of the child, and the interrupts
off. -/
theorem failed_fork_leaves (h : (s.sysFork parent child (kmallocs + 1)).result = .failed) :
    (s.sysFork parent child (kmallocs + 1)).kernel.interrupts = false ∧
      .mm ∈ (s.sysFork parent child (kmallocs + 1)).objects := by
  obtain ⟨hinterrupts, hobjects⟩ := copy_task_keeps { s with interrupts := false } kmallocs
  rw [ForkKernel.sysFork] at h ⊢
  dsimp only at h ⊢
  split at h
  · next hresult => cases hresult.symm.trans h
  · next hresult =>
      refine ⟨hinterrupts, (List.mem_erase_of_ne (by decide)).mpr (hobjects.resolve_left ?_)⟩
      rw [hresult]
      exact ForkEnd.noConfusion
  · next hfailed => exact absurd h hfailed

/-- A fork is undone just when it does not get its task and the interrupts were off. -/
theorem fork_undone_iff :
    ForkUndone s (s.sysFork parent child kmallocs) ↔ kmallocs = 0 ∧ s.interrupts = false := by
  cases kmallocs with
  | zero =>
      constructor
      · intro hundone
        exact ⟨rfl, hundone.interrupts.symm⟩
      · rintro ⟨-, hoff⟩
        exact ⟨rfl, hoff.symm, rfl, rfl, rfl, rfl, ⟨rfl, rfl⟩, fun _ _ hentry => ⟨hentry, rfl⟩, rfl⟩
  | succ kmallocs =>
      refine iff_of_false (fun hundone => ?_) fun hzero => Nat.succ_ne_zero _ hzero.1
      have hleft := (failed_fork_leaves hundone.result).2
      rw [hundone.objects] at hleft
      cases hleft

omit [DecidableEq τ] in
/-- The memory and the spaces are copied as in `XBook.sysFork`. -/
theorem copied_as_forked {pid pid' : Int} {objects : List ForkObject}
    (h : (s.copyPageTableAndVMSpace pid objects kmallocs).result = .forked pid')
    (block : MemoryBounds) :
    ∃ k f, kmallocs = k + 1 ∧ XBook.sysFork s.parent s.mem block k = some f ∧
      f.parent = (s.copyPageTableAndVMSpace pid objects kmallocs).kernel.parent ∧
      f.mem = (s.copyPageTableAndVMSpace pid objects kmallocs).kernel.mem := by
  cases kmallocs with
  | zero => cases h
  | succ k =>
      rw [ForkKernel.copyPageTableAndVMSpace] at h ⊢
      split at h
      · cases h
      · cases h
      · next r hdone =>
          have hcopy := copy_pages_end_iff.mp ⟨r.pages, hdone⟩
          split at h
          · cases h
          · next spaceMap hspaces =>
              refine ⟨k, ⟨{ s.parent with pgdir := r.state.parentDir },
                ⟨spaceMap, block, r.state.childDir⟩, r.state.mem⟩, rfl, ?_, rfl, rfl⟩
              have hpages : copyPageTable s.parent.spaceMap ⟨s.mem, s.parent.pgdir, fun _ => none⟩ =
                  some r.state := hcopy
              rw [XBook.sysFork]
              dsimp only [allocTaskMemory]
              rw [hpages, Option.bind_some, hspaces]
              rfl

/-- A fork succeeds with the memory that `XBook.sysFork` gives. -/
theorem forked_memory {pid : Int} (h : (s.sysFork parent child kmallocs).result = .forked pid)
    (block : MemoryBounds) :
    ∃ k f, kmallocs = k + 4 ∧ XBook.sysFork s.parent s.mem block k = some f ∧
      f.parent = (s.sysFork parent child kmallocs).kernel.parent ∧
      f.mem = (s.sysFork parent child kmallocs).kernel.mem := by
  rcases kmallocs with - | - | - | kmallocs
  · cases h
  · cases h
  · cases h
  · rw [ForkKernel.sysFork] at h ⊢
    dsimp only at h ⊢
    split at h
    · next pid' hresult =>
        rw [hresult]
        rw [ForkKernel.copyTask] at hresult
        obtain ⟨k, f, hk, hfork, hparent, hmem⟩ := copied_as_forked hresult block
        exact ⟨k, f, congrArg (· + 3) hk, hfork, hparent, hmem⟩
    · next hresult => cases hresult.symm.trans h
    · next hforked _ => exact absurd h (hforked pid)

end

/-- A task with one page of code, and nothing open. -/
def onePageKernel : ForkKernel (Fin 2) :=
  ⟨true, onePageTask, fourPages, .init fun t => t = 0, [0], [0], 1⟩

/-- Without memory for the page directory, the memory manager of the child is left. -/
theorem manager_left : (onePageKernel.sysFork 0 1 2).result = .failed ∧
    ¬ForkUndone onePageKernel (onePageKernel.sysFork 0 1 2) := by
  refine ⟨rfl, fun hundone => ?_⟩
  have hobjects : [ForkObject.mm] = [] := hundone.objects
  cases hobjects

end XBook
