import XBook.Lib.Transition
import XBook.Mm.Page

/-!
# The physical page allocator

`arch/x86/mm/phymem.c`, `arch/x86/mm/bootmem.c` and the allocation functions of
`arch/x86/mm/page.c`. Physical memory is described by one `MemNode` for each page. An
allocation of `count` pages marks only the node of its first page, and `getFreeMemNode` walks
from node to node, skipping `count` nodes over each marked one.

A node is named by its index in the table. Advancing a node pointer by `count` advances the
index modulo the word size, since the table's nodes lie at equal distances in a 32-bit address
space.
-/

namespace XBook

/-- `struct MemNode`. Pointers are addresses, with 0 for `NULL`. -/
structure MemNode where
  /-- The number of pages of the allocation this node heads. -/
  count : Nat := 0
  flags : Nat := 0
  reference : Nat := 0
  memCache : Nat := 0
  group : Nat := 0
  deriving DecidableEq, Repr

/-- The allocator's global variables. -/
structure PhysicMemory where
  memNodeTable : Nat → MemNode
  memNodeCount : Nat
  memNodeBase : Nat

namespace PhysicMemory

/-- The loop of `GetFreeMemNode` from the node at `index`. The result `some none` is the `NULL`
of a walk that leaves the table, and `none` is a walk that has not ended yet. -/
def freeMemNodeFrom (m : PhysicMemory) : Nat → Nat → Option (Option Nat)
  | 0, _ => none
  | fuel + 1, index =>
      if index < m.memNodeCount then
        let node := m.memNodeTable index
        if node.reference = 0 then some (some index)
        else m.freeMemNodeFrom fuel (wrap (index + if node.count ≠ 0 then node.count else 1))
      else some none

/-- `GetFreeMemNode`. A walk of more than `memNodeCount` nodes has met one of them twice, and
so never ends. -/
def getFreeMemNode (m : PhysicMemory) : Option (Option Nat) :=
  m.freeMemNodeFrom (m.memNodeCount + 1) 0

/-- `Page2MemNode`. -/
def page2MemNode (m : PhysicMemory) (page : Nat) : Option Nat :=
  let index := wrapSub page m.memNodeBase / pageSize
  if index < m.memNodeCount then some index else none

/-- `MemNode2Page`. -/
def memNode2Page (m : PhysicMemory) (index : Nat) : Nat :=
  wrap (m.memNodeBase + wrap (index * pageSize))

/-- The node that `AllocPages(count)` takes, `some none` when it returns 0 without taking one,
and `none` when its search never ends. -/
def takeMemNode (m : PhysicMemory) (count : Nat) : Option (Option Nat) :=
  match m.getFreeMemNode with
  | none => none
  | some none => some none
  | some (some index) =>
      if wrap (index + count) > m.memNodeCount then some none else some (some index)

/-- Stores a node into the table. -/
def setMemNode (m : PhysicMemory) (index : Nat) (node : MemNode) : PhysicMemory :=
  { m with memNodeTable := Function.update m.memNodeTable index node }

/-- `AllocPages`. Returns the page's physical address, and 0 on failure. -/
def allocPages (m : PhysicMemory) (count : Nat) : Option (PhysicMemory × Nat) :=
  match m.takeMemNode count with
  | none => none
  | some none => some (m, 0)
  | some (some index) =>
      some (m.setMemNode index { count := count, reference := 1 }, m.memNode2Page index)

/-- `FreePages`. -/
def freePages (m : PhysicMemory) (page : Nat) : PhysicMemory × Int :=
  match m.page2MemNode page with
  | none => (m, -1)
  | some index =>
      if (m.memNodeTable index).reference ≠ 0 then (m.setMemNode index {}, 0) else (m, 0)

@[simp] theorem setMemNode_memNodeCount (m : PhysicMemory) (index : Nat) (node : MemNode) :
    (m.setMemNode index node).memNodeCount = m.memNodeCount := rfl

@[simp] theorem setMemNode_memNodeBase (m : PhysicMemory) (index : Nat) (node : MemNode) :
    (m.setMemNode index node).memNodeBase = m.memNodeBase := rfl

@[simp] theorem setMemNode_memNodeTable (m : PhysicMemory) (index : Nat) (node : MemNode) :
    (m.setMemNode index node).memNodeTable = Function.update m.memNodeTable index node := rfl

end PhysicMemory

/-! ## Initialisation -/

/-- `PAGE_OFFSET`, the virtual address of physical address 0. -/
abbrev pageOffset : Nat := 0x80000000

/-- `NORMAL_MEM_ADDR`, where allocatable memory begins. -/
abbrev normalMemAddr : Nat := 0x1000000

/-- `HIGH_MEM_SIZE`. -/
abbrev highMemSize : Nat := 0x8000000

/-- `NULL_MEM_SIZE`. -/
abbrev nullMemSize : Nat := 0x400000

/-- `SIZEOF_MEM_NODE`, five 32-bit fields. -/
abbrev sizeofMemNode : Nat := 20

/-- `struct BootMem`. -/
structure BootMem where
  startAddress : Nat
  currentAddress : Nat
  topAddress : Nat
  deriving DecidableEq, Repr

/-- `InitBootMem`. -/
def initBootMem (start top : Nat) : BootMem := ⟨start, start, top⟩

/-- `BootMemAlloc`. The current address moves also when the result is `NULL`. -/
def bootMemAlloc (b : BootMem) (size : Nat) : BootMem × Option Nat :=
  let current := alignWith (wrap (b.currentAddress + size)) 32
  ({ b with currentAddress := current },
    if current ≥ b.topAddress then none else some b.currentAddress)

/-- `BootMemSize`. -/
def bootMemSize (b : BootMem) : Nat := wrapSub b.currentAddress b.startAddress

/-- The sizes of kernel and user memory that `InitPhysicMemory` computes from the RAM size. -/
def memSizes (memSize : Nat) : Nat × Nat :=
  let normalSize := wrapSub memSize (normalMemAddr + highMemSize + nullMemSize) / 2
  let userSize := wrapSub memSize normalSize
  if normalSize > 0x40000000 then
    (wrapSub normalSize (wrapSub normalSize 0x40000000),
      wrap (userSize + wrapSub normalSize 0x40000000))
  else (normalSize, userSize)

/-- `InitPhysicMemory` up to `CutUesdMemory`: the empty node table, and the number of pages that
boot memory has used. It panics when boot memory cannot hold the node table. -/
def initMemNodeTable (memSize : Nat) : Option (PhysicMemory × Nat) :=
  let sizes := memSizes memSize
  let bootMem := initBootMem (wrap (pageOffset + normalMemAddr))
    (wrap (pageOffset + wrap (normalMemAddr + sizes.1)))
  let memNodeCount := wrap (sizes.1 + sizes.2) / pageSize
  let table := bootMemAlloc bootMem (wrap (memNodeCount * sizeofMemNode))
  table.2.map fun _ =>
    (⟨fun _ => {}, memNodeCount, normalMemAddr⟩, divRoundUp (bootMemSize table.1) pageSize)

end XBook
