import XBook.Mm.Page

/-!
# User address spaces

`mm/vmspace.c`, and the part of `DoPageFault` in `arch/x86/mm/page.c` that grows a stack. A
memory manager keeps the mapped ranges of a task in a linked list, which is a list here. A
pointer into it is a `VMSpaceCursor`: the space, those before it and those after it.

Each `kmalloc` of the source is an argument: `none` when it fails, and otherwise the old contents
of the memory that it returns, since `DoMunmap` does not set every field of its new space.
-/

namespace XBook

/-- `struct VMSpace`. The range `[start, stop)` is `[start, end)` in the source. -/
structure VMSpace where
  start : Nat
  stop : Nat
  pageProt : Nat
  flags : Nat
  deriving DecidableEq, Repr

/-- The fields of `struct MemoryManager` that the functions below use. -/
structure MemoryManager where
  spaceMap : List VMSpace
  brkStart : Nat
  brk : Nat
  deriving DecidableEq, Repr

/-- A place in the list of spaces. -/
structure VMSpaceCursor where
  before : List VMSpace
  space : VMSpace
  after : List VMSpace

/-- `USER_VM_SIZE`. -/
abbrev userVmSize : Nat := 0x80000000

/-- `VMS_UNMAPPED_BASE`. -/
abbrev vmsUnmappedBase : Nat := 0x40000000

/-- `MAX_VMS_STACK_SIZE`. -/
abbrev maxVmsStackSize : Nat := 0x00800000

/-- `MAX_VMS_HEAP_SIZE`. -/
abbrev maxVmsHeapSize : Nat := 0x20000000

/-- The word that the source writes `-1`. -/
abbrev minusOne : Nat := 0xFFFFFFFF

/-- `MAP_FIXED` is set. -/
def mapFixed (flags : Nat) : Bool := flags.testBit 4

/-- `VMS_STACK` is set. -/
def vmsStack (flags : Nat) : Bool := flags.testBit 0

/-- `VMS_HEAP`. -/
abbrev vmsHeap : Nat := 2

/-- `PAGE_ERR_USER` is set. -/
def pageErrUser (errorCode : Nat) : Bool := errorCode.testBit 2

/-- `FindVMSpace`: the first space that ends after the address. -/
def findVMSpace : List VMSpace → Nat → Option VMSpaceCursor
  | [], _ => none
  | space :: rest, addr =>
      if addr < space.stop then some ⟨[], space, rest⟩
      else (findVMSpace rest addr).map fun c => { c with before := space :: c.before }

/-- The loop of `GetUnmappedVMSpace`. -/
def getUnmappedFrom (len : Nat) : Nat → List VMSpace → Nat
  | addr, [] => addr
  | addr, space :: rest =>
      if wrapSub userVmSize len < addr then minusOne
      else if wrap (addr + len) ≤ space.start then addr
      else getUnmappedFrom len space.stop rest

/-- `GetUnmappedVMSpace`. -/
def getUnmappedVMSpace (spaces : List VMSpace) (len : Nat) : Nat :=
  match findVMSpace spaces vmsUnmappedBase with
  | none => getUnmappedFrom len vmsUnmappedBase []
  | some c => getUnmappedFrom len vmsUnmappedBase (c.space :: c.after)

/-- `InsertVMSpace`: before the first space that starts at or after the end of the new one. -/
def insertVMSpace (space : VMSpace) : List VMSpace → List VMSpace
  | [] => [space]
  | p :: rest => if p.start ≥ space.stop then space :: p :: rest else p :: insertVMSpace space rest

/-- `RemoveVMSpace`: the list after the removal of a space, given what follows it. Without a
previous space the list head is overwritten, whatever came before. -/
def removeVMSpace (before : List VMSpace) (prev : Option VMSpace) (next : List VMSpace) :
    List VMSpace :=
  match prev with
  | some prev => before ++ prev :: next
  | none => next

/-- `FindVMSpaceIntersection`. -/
def findVMSpaceIntersection (spaces : List VMSpace) (startAddr endAddr : Nat) :
    Option VMSpaceCursor :=
  match findVMSpace spaces startAddr with
  | some c => if c.space.start ≥ endAddr then none else some c
  | none => none

/-- The address that `DoMmap` maps, `none` when it returns `-1` before it allocates a space. -/
def mmapAddress (spaces : List VMSpace) (addr len flags : Nat) : Option Nat :=
  if mapFixed flags then
    if addr % pageSize ≠ 0 then none
    else
      match findVMSpace spaces addr with
      | some p => if wrap (addr + len) > p.space.start then none else some addr
      | none => some addr
  else
    let unmapped := getUnmappedVMSpace spaces len
    if unmapped = minusOne then none else some unmapped

/-- `DoMmap`. -/
def doMmap (mm : MemoryManager) (addr len prot flags : Nat) (kmalloc : Option VMSpace) :
    MemoryManager × Nat :=
  let len := pageAlign len
  if len = 0 then (mm, minusOne)
  else if len > userVmSize ∨ addr > userVmSize ∨ addr > wrapSub userVmSize len then (mm, minusOne)
  else
    match mmapAddress mm.spaceMap addr len flags, kmalloc with
    | some addr, some _ =>
        ({ mm with spaceMap := insertVMSpace ⟨addr, wrap (addr + len), prot, flags⟩ mm.spaceMap },
          addr)
    | _, _ => (mm, minusOne)

/-- The list that `DoMunmap` leaves when it cuts `[addr, addr + len)` out of a space. Its `prev`
is `NULL`, since `FindVMSpacePrev` sets only its own copy of it. -/
def cutVMSpace (c : VMSpaceCursor) (addr len : Nat) (block : VMSpace) : List VMSpace :=
  let space := { c.space with stop := addr }
  let spaceNew := { block with start := wrap (addr + len), stop := c.space.stop }
  if space.start = space.stop then
    let spaces := removeVMSpace c.before none (spaceNew :: c.after)
    if spaceNew.start = spaceNew.stop then removeVMSpace [] none c.after else spaces
  else if spaceNew.start = spaceNew.stop then removeVMSpace c.before (some space) c.after
  else c.before ++ space :: spaceNew :: c.after

/-- `DoMunmap`. -/
def doMunmap (mm : MemoryManager) (addr len : Nat) (kmalloc : Option VMSpace) :
    MemoryManager × Int :=
  if addr % pageSize ≠ 0 ∨ addr > userVmSize ∨ len > wrapSub userVmSize addr then (mm, -1)
  else
    let len := pageAlign len
    if len = 0 then (mm, -1)
    else
      match findVMSpace mm.spaceMap addr with
      | none => (mm, -1)
      | some c =>
          if addr < c.space.start ∨ wrap (addr + len) > c.space.stop then (mm, -2)
          else
            match kmalloc with
            | none => (mm, -1)
            | some block => ({ mm with spaceMap := cutVMSpace c addr len block }, 0)

/-- The space that `DoBrk` lengthens: the heap space that ends where the new range begins. -/
def heapSpaceBefore (spaces : List VMSpace) (addr : Nat) : Option VMSpaceCursor :=
  if addr = 0 then none
  else
    match findVMSpace spaces (addr - 1) with
    | some c => if c.space.stop = addr ∧ c.space.flags = vmsHeap then some c else none
    | none => none

/-- `DoBrk`, with the `kmalloc` of its `DoMunmap` and its own. -/
def doBrk (mm : MemoryManager) (addr len : Nat) (kmallocCut kmalloc : Option VMSpace) :
    MemoryManager × Nat :=
  let len := pageAlign len
  if len = 0 then (mm, addr)
  else
    let (mm, ret) := doMunmap mm addr len kmallocCut
    if ret = -1 then (mm, minusOne)
    else
      match heapSpaceBefore mm.spaceMap addr, kmalloc with
      | some c, _ =>
          let space := { c.space with stop := wrap (addr + len) }
          ({ mm with spaceMap := c.before ++ space :: c.after }, addr)
      | none, none => (mm, minusOne)
      | none, some _ =>
          -- `PROT_READ | PROT_WRITE | PROT_EXEC`
          let space := ⟨addr, wrap (addr + len), 7, vmsHeap⟩
          ({ mm with spaceMap := insertVMSpace space mm.spaceMap }, addr)

/-- `SysBrk`. -/
def sysBrk (mm : MemoryManager) (brk : Nat) (kmallocCut kmalloc : Option VMSpace) :
    MemoryManager × Nat :=
  if brk < mm.brkStart then (mm, mm.brk)
  else
    let newBrk := pageAlign brk
    let oldBrk := pageAlign mm.brk
    if newBrk = oldBrk then ({ mm with brk := brk }, brk)
    else if brk ≤ mm.brk then
      let (mm, ret) := doMunmap mm newBrk (wrapSub oldBrk newBrk) kmallocCut
      if ret = 0 then ({ mm with brk := brk }, brk) else (mm, mm.brk)
    else if brk > wrap (mm.brkStart + maxVmsHeapSize) then (mm, mm.brk)
    else if (findVMSpaceIntersection mm.spaceMap oldBrk (wrap (newBrk + pageSize))).isSome then
      (mm, mm.brk)
    else
      let (mm, ret) := doBrk mm oldBrk (wrapSub newBrk oldBrk) kmallocCut kmalloc
      if ret ≠ oldBrk then (mm, mm.brk) else ({ mm with brk := brk }, brk)

/-- `ExpandStack`. -/
def expandStack (space : VMSpace) (addr : Nat) : VMSpace := { space with start := pageMask addr }

/-- What `DoPageFault` does to the list of spaces: a user fault just below a stack expands it. -/
def doPageFault (mm : MemoryManager) (addr esp errorCode : Nat) : MemoryManager :=
  match findVMSpace mm.spaceMap addr with
  | none => mm
  | some c =>
      if c.space.start > addr ∧ pageErrUser errorCode ∧ vmsStack c.space.flags ∧
          wrapSub c.space.stop c.space.start < maxVmsStackSize ∧ wrap (addr + 32) ≥ esp then
        { mm with spaceMap := c.before ++ expandStack c.space addr :: c.after }
      else mm

end XBook
