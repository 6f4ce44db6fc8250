import XBook.Mm.ImageLoaded
import XBook.Mm.UnmapSafe

/-!
# Memory of their own

The tasks read and write words through their page tables, while the others map, fault and unmap
over the same allocator and the kernel uses pages of its own. `store_contained` says that what a
task stores reaches no page table, no allocation of the kernel and no page of another task, and
`memory_private` that a task reads at a page, as long as that stays mapped, what it has stored there
last, whatever the others do.
-/

namespace XBook.Paging

open Transition

/-- The word of an address in its page. -/
def wordIndex (vaddr : Nat) : Nat := vaddr % pageSize / 4

/-- A store of a task to its own memory, or a step of the kernel. -/
inductive MemoryOp where
  | write (pid vaddr word : Nat)
  | kernel (op : Op)

/-- The task whose page tables a step of the kernel is about. -/
def Op.task : Op → Option Nat
  | .store _ _ _ | .alloc _ | .free _ => none
  | .add pid _ _ _ | .fault pid _ | .protection pid _ | .link pid _ | .map pid _ _ => some pid
  | .unmap pid _ _ => some pid

/-- The task whose page tables may change. -/
def MemoryOp.task : MemoryOp → Option Nat
  | .write _ _ _ => none
  | .kernel op => op.task

/-- The word that a task has at an address, after its stores. -/
def written (pid vaddr word : Nat) : MemoryOp → Nat
  | .write pid' vaddr' word' =>
      if pid' = pid ∧ SamePage vaddr' vaddr ∧ wordIndex vaddr' = wordIndex vaddr then word'
      else word
  | .kernel _ => word

namespace System

/-- One step. A store at an address that is not mapped faults, and is not made. -/
def memoryStep (s : System) : MemoryOp → Option System
  | .write pid vaddr word =>
      ((s.pgdir pid).frame vaddr).bind fun page => s.step (.store page (wordIndex vaddr) word)
  | .kernel op => s.step op

/-- The word that a task reads. -/
def read (s : System) (pid vaddr : Nat) : Option Nat :=
  ((s.pgdir pid).frame vaddr).map fun page => s.mem.pages page (wordIndex vaddr)

/-- The tasks store to user addresses, and the kernel, other than through the page tables of a task,
to no page that a task has. -/
def MemoryGuard (s : System) : MemoryOp → Prop
  | .write _ vaddr _ => vaddr < userVmSize
  | .kernel op => s.Guard op ∧ ∀ page index word, op = .store page index word →
      ∀ i, s.mem.phymem.page2MemNode page = some i → ∀ pid vpn, ¬s.Owns (.page pid vpn) i

/-- The step leaves the page of an address of a task, if it is about the page tables of this task at
all. -/
def KeepsPage (pid vaddr : Nat) (s : System) (op : MemoryOp) : Prop :=
  op.task = some pid → ∀ t, s.memoryStep op = some t →
    (t.pgdir pid).frame vaddr = (s.pgdir pid).frame vaddr

end System

/-! ## Pages of the node table -/

/-- The node table is where it was. -/
def SamePlace (m m' : PhysicMemory) : Prop :=
  m'.memNodeCount = m.memNodeCount ∧ m'.memNodeBase = m.memNodeBase

/-- Every user page that is mapped is a page of the node table. -/
def Placed (phymem : PhysicMemory) (dir : Directory) : Prop :=
  ∀ u < userVmSize, ∀ page, dir.frame u = some page → (phymem.page2MemNode page).isSome

theorem SamePlace.trans {m m' m'' : PhysicMemory} (h : SamePlace m m') (h' : SamePlace m' m'') :
    SamePlace m m'' :=
  ⟨h'.1.trans h.1, h'.2.trans h.2⟩

theorem SamePlace.wellPlaced {m m' : PhysicMemory} (h : SamePlace m m') (hm : WellPlaced m) :
    WellPlaced m' :=
  ⟨by rw [h.1]; exact hm.bound, by rw [h.2]; exact hm.aligned⟩

variable {m m' : PageMemory} {dir dir' : Directory}

theorem Placed.congr {phymem phymem' : PhysicMemory} (h : Placed phymem dir)
    (hsame : SamePlace phymem phymem')
    (hframe : ∀ u < userVmSize, ∀ page, dir'.frame u = some page → dir.frame u = some page) :
    Placed phymem' dir' := by
  intro u hu page hmapped
  rw [page2_mem_node_congr hsame.1 hsame.2]
  exact h u hu page (hframe u hu page hmapped)

/-- `AllocPage` leaves the node table where it is. -/
theorem alloc_page_place {m₁ : PageMemory} {page : Nat} (hm : WellPlaced m.phymem)
    (halloc : m.allocPage = some (m₁, page)) : SamePlace m.phymem m₁.phymem :=
  ⟨(alloc_page_placed hm halloc).1, (alloc_page_placed hm halloc).2.1⟩

/-- `PageTableAdd` leaves the node table where it is. -/
theorem page_table_add_place {v page protect : Nat} {ret : Int} (hm : WellPlaced m.phymem)
    (hadd : pageTableAdd m dir v page protect = some (m', dir', ret)) :
    SamePlace m.phymem m'.phymem := by
  obtain ⟨-, rfl, -, -⟩ | ⟨-, q, halloc, -⟩ := page_table_add_cases hadd
  · exact ⟨rfl, rfl⟩
  · exact alloc_page_place hm halloc

/-- `PageTableAdd` of a page of the node table. -/
theorem Placed.page_table_add {v page : Nat} {ret : Int} (h : Placed m.phymem dir)
    (hm : WellPlaced m.phymem) (halign : page % pageSize = 0)
    (hpage : (m.phymem.page2MemNode page).isSome)
    (hadd : pageTableAdd m dir v page userWrite = some (m', dir', ret))
    (hclean : CleanTables m.pages dir dir') : Placed m'.phymem dir' := by
  have hsame := page_table_add_place hm hadd
  intro u hu page' hframe
  obtain ⟨word, hword, hpresent, rfl⟩ := Directory.frame_eq_some.mp hframe
  rw [page2_mem_node_congr hsame.1 hsame.2]
  obtain hold | ⟨-, rfl⟩ := page_table_add_word hadd hclean hu hword hpresent
  · exact h u hu _ (Directory.frame_eq_some.mpr ⟨word, hold, hpresent, rfl⟩)
  · rw [page_mask_entry halign (by decide)]
    exact hpage

/-- A page is allocated and linked. -/
theorem Placed.alloc_link {m₁ : PageMemory} {v page : Nat} {ret : Int} (h : Placed m.phymem dir)
    (hm : WellPlaced m.phymem) (halloc : m.allocPage = some (m₁, page)) (hpage : page ≠ 0)
    (hadd : pageTableAdd m₁ dir v page userWrite = some (m', dir', ret))
    (hclean : CleanTables m.pages dir dir') :
    SamePlace m.phymem m'.phymem ∧ Placed m'.phymem dir' := by
  have hsame := alloc_page_place hm halloc
  obtain ⟨halign, hsome⟩ := (alloc_page_placed hm halloc).2.2 hpage
  rw [← page2_mem_node_congr hsame.1 hsame.2] at hsome
  rw [← (alloc_page_cases halloc).2] at hclean
  refine ⟨hsame.trans (page_table_add_place (hsame.wellPlaced hm) hadd), ?_⟩
  exact (h.congr hsame fun _ _ _ hframe => hframe).page_table_add (hsame.wellPlaced hm) halign
    hsome hadd hclean

theorem Placed.alloc_page {m₁ : PageMemory} {page : Nat} (h : Placed m.phymem dir)
    (hm : WellPlaced m.phymem) (halloc : m.allocPage = some (m₁, page)) :
    SamePlace m.phymem m₁.phymem ∧ Placed m₁.phymem dir := by
  have hsame := alloc_page_place hm halloc
  exact ⟨hsame, h.congr hsame fun _ _ _ hframe => hframe⟩

theorem Placed.handle_no_page {addr : Nat} {ret : Int} (h : Placed m.phymem dir)
    (hm : WellPlaced m.phymem) (hfault : doHandleNoPage m dir addr = some (m', dir', ret))
    (hclean : CleanTables m.pages dir dir') :
    SamePlace m.phymem m'.phymem ∧ Placed m'.phymem dir' := by
  obtain ⟨⟨m₁, page⟩, halloc, hrest⟩ := Option.bind_eq_some_iff.mp hfault
  by_cases hpage : page = 0
  · simp only [hpage, if_true] at hrest
    cases hrest
    exact h.alloc_page hm halloc
  · simp only [hpage, if_false] at hrest
    obtain ⟨⟨m₂, dir₂, ret₂⟩, hadd, heq⟩ := Option.map_eq_some_iff.mp hrest
    cases heq
    exact h.alloc_link hm halloc hpage hadd hclean

theorem Placed.map_pages {npages v : Nat} {ret : Int} (h : Placed m.phymem dir)
    (hm : WellPlaced m.phymem)
    (hmap : mapPagesMaybeMapped userWrite npages v m dir = some (m', dir', ret))
    (hclean : CleanTables m.pages dir dir') :
    SamePlace m.phymem m'.phymem ∧ Placed m'.phymem dir' := by
  induction npages generalizing v m dir with
  | zero =>
      cases hmap
      exact ⟨⟨rfl, rfl⟩, h⟩
  | succ npages ih =>
      simp only [mapPagesMaybeMapped] at hmap
      split at hmap
      · exact ih h hm hmap hclean
      · obtain ⟨⟨m₁, page⟩, halloc, hmap⟩ := Option.bind_eq_some_iff.mp hmap
        by_cases hpage : page = 0
        · simp only [hpage, if_true] at hmap
          cases hmap
          exact h.alloc_page hm halloc
        · simp only [hpage, if_false] at hmap
          obtain ⟨⟨m₂, dir₂, ret₂⟩, hadd, hmap⟩ := Option.bind_eq_some_iff.mp hmap
          have hpages := (keeps_page_table_add hadd).2.trans (alloc_page_cases halloc).2
          simp only at hmap
          split at hmap
          · cases hmap
            exact h.alloc_link hm halloc hpage hadd hclean
          · obtain ⟨hsame, hfirst⟩ :=
              h.alloc_link hm halloc hpage hadd (hclean.first (keeps_map_pages hmap))
            obtain ⟨hsame', hrest⟩ := ih hfirst (hsame.wellPlaced hm) hmap
              (by rw [hpages]; exact hclean.rest (keeps_page_table_add hadd).1)
            exact ⟨hsame.trans hsame', hrest⟩

/-- `DoHandleNoPage` changes no word of a page. -/
theorem handle_no_page_pages {addr : Nat} {ret : Int}
    (hfault : doHandleNoPage m dir addr = some (m', dir', ret)) : m'.pages = m.pages := by
  obtain ⟨⟨m₁, page⟩, halloc, hrest⟩ := Option.bind_eq_some_iff.mp hfault
  have hwords := (alloc_page_cases halloc).2
  by_cases hpage : page = 0
  · simp only [hpage, if_true] at hrest
    cases hrest
    exact hwords
  · simp only [hpage, if_false] at hrest
    obtain ⟨⟨m₂, dir₂, ret₂⟩, hadd, heq⟩ := Option.map_eq_some_iff.mp hrest
    cases heq
    exact (keeps_page_table_add hadd).2.trans hwords

/-- The kernel half of the page tables is not that of the task. -/
theorem page_table_add_kernel_frame {v page protect : Nat} {ret : Int} (hv : userVmSize ≤ v)
    (hadd : pageTableAdd m dir v page protect = some (m', dir', ret)) {u : Nat}
    (hu : u < userVmSize) : dir'.frame u = dir.frame u := by
  have hpde : pdeIdx u ≠ pdeIdx v := by
    simp only [pdeIdx, userVmSize] at *
    omega
  have hsame : dir' (pdeIdx u) = dir (pdeIdx u) := by
    obtain ⟨-, -, -, rfl⟩ | ⟨-, q, -, hcase⟩ := page_table_add_cases hadd
    · exact Directory.set_word_other hpde
    · obtain ⟨-, rfl, -⟩ | ⟨-, -, rfl⟩ := hcase
      · rfl
      · rw [Directory.set_word_other hpde, Directory.addTable, Function.update_of_ne hpde]
  unfold Directory.frame Directory.word
  rw [hsame]

namespace System

variable {s t : System} {op : Op}

/-! ## One step -/

/-- Only a store changes a word of a page, and only a step about the page tables of a task changes
them. -/
theorem step_keeps (hstep : s.step op = some t) :
    (t.mem.pages = s.mem.pages ∨ ∃ page index word, op = .store page index word) ∧
      ∀ pid, op.task ≠ some pid → t.pgdir pid = s.pgdir pid := by
  have hwith : ∀ {pid' : Nat} {mem : PageMemory} (dir : Directory), mem.pages = s.mem.pages →
      op.task = some pid' →
      ((s.withPages pid' mem dir).mem.pages = s.mem.pages ∨
        ∃ page index word, op = .store page index word) ∧
      ∀ pid, op.task ≠ some pid → (s.withPages pid' mem dir).pgdir pid = s.pgdir pid := by
    intro pid' mem dir hwords htask
    refine ⟨.inl hwords, fun pid hpid => Function.update_of_ne ?_ _ _⟩
    exact fun heq => hpid (htask.trans (congrArg some heq.symm))
  cases op with
  | store page index word =>
      cases hstep
      exact ⟨.inr ⟨page, index, word, rfl⟩, fun _ _ => rfl⟩
  | alloc count =>
      simp only [step] at hstep
      split at hstep
      · cases hstep
      · obtain ⟨⟨phymem, page⟩, -, rfl⟩ := Option.map_eq_some_iff.mp hstep
        exact ⟨.inl rfl, fun _ _ => rfl⟩
  | free b =>
      simp only [step] at hstep
      split at hstep
      · cases hstep
        exact ⟨.inl rfl, fun _ _ => rfl⟩
      · cases hstep
  | add pid vaddr paddr protect =>
      simp only [step] at hstep
      split at hstep
      · cases hstep
      · obtain ⟨⟨mem, dir, ret⟩, hadd, rfl⟩ := Option.map_eq_some_iff.mp hstep
        exact hwith dir (keeps_page_table_add hadd).2 rfl
  | fault pid addr =>
      obtain ⟨⟨mem, dir, ret⟩, hfault, rfl⟩ := Option.map_eq_some_iff.mp hstep
      exact hwith dir (handle_no_page_pages hfault) rfl
  | protection pid addr =>
      simp only [step] at hstep
      split at hstep
      · cases hstep
        exact ⟨.inl rfl, fun _ _ => rfl⟩
      · obtain ⟨⟨mem, dir, ret⟩, hfault, rfl⟩ := Option.map_eq_some_iff.mp hstep
        exact hwith dir (handle_no_page_pages hfault) rfl
  | link pid vaddr =>
      obtain ⟨⟨mem, paddr⟩, halloc, hrest⟩ := Option.bind_eq_some_iff.mp hstep
      have hwords := (alloc_page_cases halloc).2
      by_cases hpaddr : paddr = 0
      · simp only [hpaddr, if_true] at hrest
        cases hrest
        exact ⟨.inl hwords, fun _ _ => rfl⟩
      · simp only [hpaddr, if_false] at hrest
        obtain ⟨⟨mem', dir, ret⟩, hadd, rfl⟩ := Option.map_eq_some_iff.mp hrest
        exact hwith dir ((keeps_page_table_add hadd).2.trans hwords) rfl
  | map pid start npages =>
      obtain ⟨⟨mem, dir, ret⟩, hmap, rfl⟩ := Option.map_eq_some_iff.mp hstep
      exact hwith dir (keeps_words_map_pages hmap) rfl
  | unmap pid vaddr len =>
      have hpages : t.mem.pages = s.mem.pages := by
        cases hstep
        rfl
      exact ⟨.inl hpages, fun pid' hpid => (step_unmap hstep).2.1 pid'
        fun heq => hpid (congrArg some heq.symm)⟩

/-- The owners of the pages, and that the pages of the tasks are among those that can be owned. -/
structure MemoryInv (s : System) : Prop where
  owners : OwnerInv s
  placed : ∀ pid, Placed s.mem.phymem (s.pgdir pid)

theorem MemoryInv.wellPlaced (h : MemoryInv s) : WellPlaced s.mem.phymem :=
  ⟨h.owners.nodes.bound, h.owners.nodes.aligned⟩

/-- A step keeps the pages of each task in the node table. -/
theorem MemoryInv.step_placed (h : MemoryInv s) (hguard : s.Guard op) (hstep : s.step op = some t)
    (pid : Nat) : Placed t.mem.phymem (t.pgdir pid) := by
  have hm := h.wellPlaced
  -- The page tables of one task change, and the node table stays where it is for the others.
  have hpages : ∀ {pid' : Nat} {mem : PageMemory} {dir : Directory},
      SamePlace s.mem.phymem mem.phymem ∧ Placed mem.phymem dir →
      Placed mem.phymem ((s.withPages pid' mem dir).pgdir pid) := by
    intro pid' mem dir hboth
    show Placed mem.phymem (Function.update s.pgdir pid' dir pid)
    by_cases hpid : pid = pid'
    · rw [hpid, Function.update_self]
      exact hboth.2
    · rw [Function.update_of_ne hpid]
      exact (h.placed pid).congr hboth.1 fun _ _ _ hframe => hframe
  cases op with
  | store page index word =>
      cases hstep
      exact h.placed pid
  | alloc count =>
      simp only [step] at hstep
      split at hstep
      · cases hstep
      · obtain ⟨⟨phymem, page⟩, halloc, rfl⟩ := Option.map_eq_some_iff.mp hstep
        obtain ⟨rfl, -⟩ | ⟨i, -, rfl, -⟩ := alloc_pages_cases halloc
        · exact h.placed pid
        · exact (h.placed pid).congr ⟨rfl, rfl⟩ fun _ _ _ hframe => hframe
  | free b =>
      simp only [step] at hstep
      split at hstep
      · cases hstep
        exact (h.placed pid).congr ⟨free_pages_count _ _, free_pages_base _ _⟩
          fun _ _ _ hframe => hframe
      · cases hstep
  | add pid' vaddr paddr protect =>
      simp only [step] at hstep
      split at hstep
      · cases hstep
      · next huser =>
          obtain ⟨⟨mem, dir, ret⟩, hadd, rfl⟩ := Option.map_eq_some_iff.mp hstep
          have hsame := page_table_add_place hm hadd
          refine hpages ⟨hsame, (h.placed pid').congr hsame fun u hu page hframe => ?_⟩
          rw [page_table_add_kernel_frame (Nat.not_lt.mp huser) hadd hu] at hframe
          exact hframe
  | fault pid' addr =>
      have hclean := hguard t hstep
      obtain ⟨⟨mem, dir, ret⟩, hfault, rfl⟩ := Option.map_eq_some_iff.mp hstep
      exact hpages ((h.placed pid').handle_no_page hm hfault (newTablesClean_dir hclean))
  | protection pid' addr =>
      have hclean := hguard t hstep
      simp only [step] at hstep
      split at hstep
      · cases hstep
        exact h.placed pid
      · obtain ⟨⟨mem, dir, ret⟩, hfault, rfl⟩ := Option.map_eq_some_iff.mp hstep
        have hframe := make_pte_write_frame (s.pgdir pid') addr
        have hwrite : Placed s.mem.phymem (makePteWrite (s.pgdir pid') addr).1 :=
          (h.placed pid').congr ⟨rfl, rfl⟩ fun u _ page hmapped => by
            rw [(hframe u).1] at hmapped
            exact hmapped
        refine hpages (hwrite.handle_no_page hm hfault ((newTablesClean_dir hclean).rest ?_))
        intro region table htable
        have hpage := (hframe 0).2 region
        rw [htable] at hpage
        exact Option.map_eq_some_iff.mp hpage
  | link pid' vaddr =>
      have hclean := hguard t hstep
      obtain ⟨⟨mem, paddr⟩, halloc, hrest⟩ := Option.bind_eq_some_iff.mp hstep
      by_cases hpaddr : paddr = 0
      · simp only [hpaddr, if_true] at hrest
        cases hrest
        exact ((h.placed pid).alloc_page hm halloc).2
      · simp only [hpaddr, if_false] at hrest
        obtain ⟨⟨mem', dir, ret⟩, hadd, rfl⟩ := Option.map_eq_some_iff.mp hrest
        exact hpages ((h.placed pid').alloc_link hm halloc hpaddr hadd (newTablesClean_dir hclean))
  | map pid' start npages =>
      have hclean := hguard t hstep
      obtain ⟨⟨mem, dir, ret⟩, hmap, rfl⟩ := Option.map_eq_some_iff.mp hstep
      exact hpages ((h.placed pid').map_pages hm hmap (newTablesClean_dir hclean))
  | unmap pid' vaddr len =>
      have hplace : SamePlace s.mem.phymem t.mem.phymem := by
        obtain ⟨-, -, ⟨-, hmem, -⟩ | ⟨-, hmem, -⟩⟩ := step_unmap hstep
        · rw [hmem]
          exact ⟨rfl, rfl⟩
        · rw [hmem]
          exact ⟨free_all_count _ _, free_all_base _ _⟩
      exact (h.placed pid).congr hplace fun _ _ _ hframe => (unmap_frame hstep hframe).1

/-- The kernel's steps keep the invariant. -/
theorem MemoryInv.step (h : MemoryInv s) (hguard : s.Guard op) (hstep : s.step op = some t) :
    MemoryInv t :=
  ⟨step_inv h.owners hguard hstep, h.step_placed hguard hstep⟩

/-- A page of a task belongs to its entry, and to nothing else. -/
theorem MemoryInv.page_owned (h : MemoryInv s) {pid vaddr page : Nat} (hv : vaddr < userVmSize)
    (hframe : (s.pgdir pid).frame vaddr = some page) :
    ∃ i, s.mem.phymem.page2MemNode page = some i ∧ s.Owns (.page pid (vaddr / pageSize)) i := by
  obtain ⟨i, hi⟩ := Option.isSome_iff_exists.mp (h.placed pid vaddr hv page hframe)
  have hsame : SamePage (vaddr / pageSize * pageSize) vaddr := (same_page_vpn _ _).mpr rfl
  have hvpn : vaddr / pageSize < userPages := by
    simp only [pageSize, userPages, userVmSize] at *
    omega
  refine ⟨i, hi, hvpn, page, ?_, hi⟩
  rw [(s.pgdir pid).frame_congr hsame]
  exact hframe

/-! ## The words of a task -/

/-- A store makes no page table. -/
theorem store_guard (s : System) (page index word : Nat) : s.Guard (.store page index word) := by
  intro t hstep pid region table _ htable hnone
  cases hstep
  exact absurd (htable.symm.trans hnone) (by simp)

theorem MemoryInv.memory_step {op : MemoryOp} (h : MemoryInv s) (hguard : s.MemoryGuard op)
    (hstep : s.memoryStep op = some t) : MemoryInv t := by
  cases op with
  | write pid vaddr word =>
      obtain ⟨page, -, hstore⟩ := Option.bind_eq_some_iff.mp hstep
      exact h.step (store_guard s page (wordIndex vaddr) word) hstore
  | kernel op => exact h.step hguard.1 hstep

/-- Two addresses at one page are addresses of one page of one task. -/
theorem MemoryInv.same_page (h : MemoryInv s) {pid pid' vaddr vaddr' page : Nat}
    (hv : vaddr < userVmSize) (hv' : vaddr' < userVmSize)
    (hframe : (s.pgdir pid).frame vaddr = some page)
    (hframe' : (s.pgdir pid').frame vaddr' = some page) : pid' = pid ∧ SamePage vaddr' vaddr := by
  obtain ⟨i, hi, howns⟩ := h.page_owned hv hframe
  obtain ⟨i', hi', howns'⟩ := h.page_owned hv' hframe'
  obtain rfl : i = i' := Option.some.inj (hi.symm.trans hi')
  have heq := h.owners.unique _ _ i howns' howns
  obtain ⟨hpid, hvpn⟩ := Owner.page.inj heq
  exact ⟨hpid, hvpn⟩

/-- What the step of a task or of the kernel leaves at a page that stays where it is. -/
theorem MemoryInv.word_step {op : MemoryOp} (h : MemoryInv s) (hguard : s.MemoryGuard op)
    (hstep : s.memoryStep op = some t) {pid vaddr page : Nat} (hv : vaddr < userVmSize)
    (hframe : (s.pgdir pid).frame vaddr = some page) :
    t.mem.pages page (wordIndex vaddr) =
      written pid vaddr (s.mem.pages page (wordIndex vaddr)) op := by
  cases op with
  | write pid' vaddr' word =>
      obtain ⟨page', hframe', hstore⟩ := Option.bind_eq_some_iff.mp hstep
      cases hstore
      show Function.update s.mem.pages page' _ page (wordIndex vaddr) = if _ then _ else _
      by_cases hpage : page' = page
      · -- The page is that of the address, so that the two addresses share it.
        subst hpage
        obtain ⟨hpid, hsame⟩ := h.same_page hv hguard hframe hframe'
        rw [Function.update_self]
        by_cases hindex : wordIndex vaddr' = wordIndex vaddr
        · rw [if_pos ⟨hpid, hsame, hindex⟩, hindex, Function.update_self]
        · rw [Function.update_of_ne (Ne.symm hindex), if_neg fun hall => hindex hall.2.2]
      · have hother : ¬(pid' = pid ∧ SamePage vaddr' vaddr ∧
            wordIndex vaddr' = wordIndex vaddr) := by
          rintro ⟨rfl, hsame, -⟩
          rw [(s.pgdir pid').frame_congr hsame, hframe] at hframe'
          exact hpage (Option.some.inj hframe').symm
        rw [Function.update_of_ne (Ne.symm hpage), if_neg hother]
  | kernel op =>
      show t.mem.pages page (wordIndex vaddr) = s.mem.pages page (wordIndex vaddr)
      obtain hpages | ⟨page', index, word, rfl⟩ := (step_keeps hstep).1
      · rw [hpages]
      · have hne : page ≠ page' := by
          rintro rfl
          obtain ⟨i, hi, howns⟩ := h.page_owned hv hframe
          exact hguard.2 page index word rfl i hi _ _ howns
        cases hstep
        show Function.update s.mem.pages page' _ page (wordIndex vaddr) = _
        rw [Function.update_of_ne hne]

/-- What keeps the page of an address, and what is about other page tables, leaves it. -/
theorem KeepsPage.frame {op : MemoryOp} {pid vaddr : Nat} (h : KeepsPage pid vaddr s op)
    (hstep : s.memoryStep op = some t) :
    (t.pgdir pid).frame vaddr = (s.pgdir pid).frame vaddr := by
  by_cases htask : op.task = some pid
  · exact h htask t hstep
  · cases op with
    | write pid' vaddr' word =>
        obtain ⟨page, -, hstore⟩ := Option.bind_eq_some_iff.mp hstep
        cases hstore
        rfl
    | kernel op => rw [(step_keeps hstep).2 pid htask]

/-- The invariant holds in every run from the start. -/
theorem memory_inv_of_run {s₀ : System} {ops : List MemoryOp} (hstart : s₀.Started)
    (hrun : Run (stepOf memoryStep) MemoryGuard s₀ ops s) : MemoryInv s := by
  refine hrun.invariant (fun _ _ _ h hguard hstep => h.memory_step hguard hstep)
    ⟨hstart.inv, fun pid u hu page hframe => ?_⟩
  -- At the start no task has a page table.
  obtain ⟨_, _, _, _, _, hempty⟩ := hstart
  have hregion : pdeIdx u < userRegions := by
    simp only [pdeIdx, userRegions, userVmSize] at *
    omega
  unfold Directory.frame Directory.word at hframe
  rw [hempty pid _ hregion] at hframe
  cases hframe

/-- Two tasks fault a page in at one address, and the first stores a word. -/
def twoTasks : List MemoryOp :=
  [.kernel (.fault 0 0x1000), .kernel (.fault 1 0x1000), .write 0 0x1004 7]

theorem two_tasks_run : ∃ s t, Run (stepOf memoryStep) MemoryGuard bootSystem twoTasks s ∧
    s.memoryStep (.write 1 0x1004 9) = some t ∧ s.read 0 0x1004 = some 7 ∧
    (s.pgdir 0).frame 0x1004 = some 0x1141000 := by
  have hview : ((bootSystem.memoryStep (.kernel (.fault 0 0x1000))).bind fun s₁ =>
      (s₁.memoryStep (.kernel (.fault 1 0x1000))).bind fun s₂ =>
      (s₂.memoryStep (.write 0 0x1004 7)).bind fun s =>
      (s.memoryStep (.write 1 0x1004 9)).map fun _ =>
        (s.read 0 0x1004, (s.pgdir 0).frame 0x1004)) = some (some 7, some 0x1141000) := by
    decide +kernel
  obtain ⟨s₁, h₁, hview⟩ := Option.bind_eq_some_iff.mp hview
  obtain ⟨s₂, h₂, hview⟩ := Option.bind_eq_some_iff.mp hview
  obtain ⟨s, h₃, hview⟩ := Option.bind_eq_some_iff.mp hview
  obtain ⟨t, ht, hview⟩ := Option.map_eq_some_iff.mp hview
  obtain ⟨hread, hframe⟩ := Prod.mk.inj hview
  have hzero : present 0 = false := by decide
  have hclean : ∀ (s : System) addr pid, s.mem.pages = bootSystem.mem.pages →
      s.MemoryGuard (.kernel (.fault pid addr)) := by
    intro s addr pid hpages
    refine ⟨fun t _ _ _ table _ _ _ index _ => ?_, fun _ _ _ hop => by cases hop⟩
    rw [hpages]
    exact hzero
  have hfault : bootSystem.step (.fault 0 0x1000) = some s₁ := h₁
  have hpages : s₁.mem.pages = bootSystem.mem.pages := by
    obtain hpages | ⟨_, _, _, hop⟩ := (step_keeps hfault).1
    · exact hpages
    · cases hop
  have huser : 0x1004 < userVmSize := by decide
  refine ⟨s, t, ?_, ht, hread, hframe⟩
  exact .cons (hclean bootSystem _ _ rfl) h₁ (.cons (hclean s₁ _ _ hpages) h₂
    (.cons huser h₃ (.nil s)))

end System

end XBook.Paging
