import XBook.Mm.Phymem
import XBook.Mm.Vmspace

/-!
# Copying an address space

`mm/fork.c` with the paging functions of `arch/x86/mm/page.c` that it runs through: what
`SysFork` does to the memory of the parent and of the child. Of a page directory there is the
half for user addresses. A page table is kept as a value of its own; the page that it lies in is
taken from the allocator, and its entries begin as what that page held.

A fork that fails, and an access that faults without end, have no result.
-/

namespace XBook

/-- A page table entry with `PAGE_P_1`. -/
structure PageEntry where
  page : Nat
  user : Bool
  write : Bool
  deriving DecidableEq, Repr

/-- A page table, with the flags of its entry in the page directory. -/
structure PageTable where
  user : Bool
  write : Bool
  entries : Nat → Option PageEntry

/-- The user half of a page directory. -/
abbrev PageDir := Nat → Option PageTable

/-- The page allocator and the words of the page at each physical address. -/
structure PageMemory where
  phymem : PhysicMemory
  pages : Nat → Nat → Nat

/-- The addresses in `struct MemoryManager`. -/
structure MemoryBounds where
  codeStart : Nat
  codeEnd : Nat
  dataStart : Nat
  dataEnd : Nat
  brkStart : Nat
  brk : Nat
  stackStart : Nat
  argStart : Nat
  argEnd : Nat
  envStart : Nat
  envEnd : Nat
  deriving DecidableEq, Repr

/-- The memory of a task: its `mm` and its `pgdir`. -/
structure TaskMemory where
  spaceMap : List VMSpace
  bounds : MemoryBounds
  pgdir : PageDir

/-- The entry that a word of a page table is. -/
def entryOfWord (word : Nat) : Option PageEntry :=
  if word.testBit 0 then some ⟨pageMask word, word.testBit 2, word.testBit 1⟩ else none

/-- `PDE_IDX`. -/
def pdeIdx (vaddr : Nat) : Nat := vaddr / 2 ^ 22

/-- `PTE_IDX`. -/
def pteIdx (vaddr : Nat) : Nat := vaddr / pageSize % 1024

/-- The page that the processor finds for an address, with the rights of both levels. -/
def PageDir.lookup (dir : PageDir) (vaddr : Nat) : Option PageEntry :=
  (dir (pdeIdx vaddr)).bind fun table =>
    (table.entries (pteIdx vaddr)).map fun entry =>
      ⟨entry.page, table.user && entry.user, table.write && entry.write⟩

/-- Stores an entry in a table, and the table in the directory. -/
def PageDir.fill (dir : PageDir) (table : PageTable) (vaddr : Nat) (entry : PageEntry) : PageDir :=
  Function.update dir (pdeIdx vaddr)
    (some { table with
      entries := Function.update table.entries (pteIdx vaddr) (some entry) })

namespace PageMemory

/-- `AllocPage`. -/
def allocPage (m : PageMemory) : Option (PageMemory × Nat) :=
  (m.phymem.allocPages 1).map fun r => ({ m with phymem := r.1 }, r.2)

/-- `PageTableAdd` in the active page directory `dir`. -/
def pageTableAdd (m : PageMemory) (dir : PageDir) (virtualAddr physicAddr : Nat)
    (user write : Bool) : Option (PageMemory × PageDir × Int) :=
  match dir (pdeIdx virtualAddr) with
  | some table => some (m, dir.fill table virtualAddr ⟨physicAddr, user, write⟩, 0)
  | none =>
      m.allocPage.map fun (m, pageTableAddr) =>
        if pageTableAddr = 0 then (m, dir, -1)
        else
          let table := ⟨user, write, fun index => entryOfWord (m.pages pageTableAddr index)⟩
          (m, dir.fill table virtualAddr ⟨physicAddr, user, write⟩, 0)

/-- `DoHandleNoPage`. -/
def doHandleNoPage (m : PageMemory) (dir : PageDir) (addr : Nat) :
    Option (PageMemory × PageDir × Int) :=
  m.allocPage.bind fun (m, paddr) =>
    if paddr = 0 then some (m, dir, -1)
    else (m.pageTableAdd dir (pageMask addr) paddr true true).map fun (m, dir, ret) =>
      (m, dir, if ret ≠ 0 then -1 else 0)

/-- `DoPageFault` for an access by the kernel to a page that is not there. Outside the spaces of
the task the access faults again. -/
def doPageFault (m : PageMemory) (spaceMap : List VMSpace) (dir : PageDir) (addr : Nat) :
    Option (PageMemory × PageDir × Int) :=
  match findVMSpace spaceMap addr with
  | some c => if c.space.start ≤ addr then m.doHandleNoPage dir addr else none
  | none => none

/-- Reads a page of the task, which faults when it is not there. -/
def readPage (m : PageMemory) (spaceMap : List VMSpace) (dir : PageDir) (vaddr : Nat) :
    Option (PageMemory × PageDir × (Nat → Nat)) :=
  match dir.lookup vaddr with
  | some entry => some (m, dir, m.pages entry.page)
  | none =>
      (m.doPageFault spaceMap dir vaddr).bind fun (m, dir, _) =>
        (dir.lookup vaddr).map fun entry => (m, dir, m.pages entry.page)

end PageMemory

/-- What `CopyPageTable` works on. -/
structure ForkState where
  mem : PageMemory
  parentDir : PageDir
  childDir : PageDir

/-- The body of the inner loop of `CopyPageTable`. It does not look at the result of
`PageTableAdd`. -/
def copyPage (spaceMap : List VMSpace) (s : ForkState) (progVaddr : Nat) : Option ForkState :=
  (s.mem.readPage spaceMap s.parentDir progVaddr).bind fun (mem, parentDir, buf) =>
    mem.allocPage.bind fun (mem, paddr) =>
      if paddr = 0 then none
      else
        (mem.pageTableAdd s.childDir progVaddr paddr true true).bind fun (mem, childDir, _) =>
          (childDir.lookup progVaddr).map fun entry =>
            { mem := { mem with pages := Function.update mem.pages entry.page buf }
              parentDir := parentDir
              childDir := childDir }

/-- The addresses that the inner loop of `CopyPageTable` visits. -/
def spacePages (space : VMSpace) : List Nat :=
  (List.range ((space.stop - space.start + (pageSize - 1)) / pageSize)).map
    fun i => space.start + i * pageSize

/-- The loops of `CopyPageTable`, over the addresses that they visit. -/
def copyPages (spaceMap : List VMSpace) : List Nat → ForkState → Option ForkState
  | [], s => some s
  | progVaddr :: rest, s => (copyPage spaceMap s progVaddr).bind (copyPages spaceMap rest)

/-- `CopyPageTable`, once it has its buffer. -/
def copyPageTable (spaceMap : List VMSpace) (s : ForkState) : Option ForkState :=
  copyPages spaceMap (spaceMap.flatMap spacePages) s

/-- `CopyVMSpace`, with the number of times that its `kmalloc` succeeds. -/
def copyVMSpace : Nat → List VMSpace → Option (List VMSpace)
  | _, [] => some []
  | 0, _ :: _ => none
  | kmallocs + 1, p :: rest => (copyVMSpace kmallocs rest).map (p :: ·)

/-- `AllocTaskMemory` with `InitMemoryManager`. The new manager keeps what its memory held,
except for `spaceMap`, and `CreatePageDir` gives the child an empty user half. -/
def allocTaskMemory (block : MemoryBounds) : TaskMemory :=
  { spaceMap := [], bounds := block, pgdir := fun _ => none }

/-- What a fork leaves. -/
structure Forked where
  parent : TaskMemory
  child : TaskMemory
  mem : PageMemory

/-- `SysFork` on the memory of the parent. `block` is what the memory of the child's manager
held. -/
def sysFork (parent : TaskMemory) (mem : PageMemory) (block : MemoryBounds) (kmallocs : Nat) :
    Option Forked :=
  let child := allocTaskMemory block
  (copyPageTable parent.spaceMap ⟨mem, parent.pgdir, child.pgdir⟩).bind fun s =>
    (copyVMSpace kmallocs parent.spaceMap).map fun spaceMap =>
      { parent := { parent with pgdir := s.parentDir }
        child := { child with spaceMap := spaceMap, pgdir := s.childDir }
        mem := s.mem }

end XBook
