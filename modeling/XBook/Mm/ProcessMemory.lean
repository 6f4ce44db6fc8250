import XBook.Mm.PageLinks

/-!
# The memory of a process

A process has two descriptions of its memory: the list of its spaces in `mm/vmspace.c` and its
page tables. This module joins the operations of `Vmspace` with those of `PageTable`:
`DoPageFault`, `MemoryManagerRelease`, and the part of `SysExecv` in `mm/exec.c` that replaces an
image. What files and `kmalloc` answer is an argument; everything after the ELF header has been
accepted is here, also when the image cannot be loaded.
-/

namespace XBook.Paging

/-- What a process and its page directory hold. `freed` records the pages for which
`UnmapPagesFragment` has called `FreePages` with success. -/
structure Process where
  mm : MemoryManager
  dataEnd : Nat
  pgdir : Directory
  exited : Bool
  freed : List Nat

/-- A process, with the memory that it shares with all others. -/
structure ProcessState where
  mem : PageMemory
  proc : Process

/-! ## Faults -/

/-- `PAGE_ERR_PROTECT` is set. -/
def pageErrProtect (errorCode : Nat) : Bool := errorCode.testBit 0

/-- `PAGE_ERR_WRITE` is set. -/
def pageErrWrite (errorCode : Nat) : Bool := errorCode.testBit 1

/-- The rights of a page for an access: `PAGE_US_U` for one by the user, `PAGE_RW_W` for a
write. -/
def grants (flags errorCode : Nat) : Bool :=
  (!pageErrUser errorCode || flags.testBit 2) && (!pageErrWrite errorCode || flags.testBit 1)

/-- The processor reports a fault with this error code: a page that is not there, or one whose
rights at both levels do not suffice. -/
def faults (dir : Directory) (addr errorCode : Nat) : Bool :=
  match dir (pdeIdx addr), pageErrProtect errorCode with
  | none, protect => !protect
  | some table, protect =>
      let word := table.entries (pteIdx addr)
      if present word then protect && !(grants table.protect errorCode && grants word errorCode)
      else !protect

/-- `DoProtectionFault`. -/
def doProtectionFault (m : PageMemory) (dir : Directory) (addr : Nat) (write : Bool) :
    Option (PageMemory × Directory × Int) :=
  if write then
    let (dir, ret) := makePteWrite dir addr
    if ret ≠ 0 then some (m, dir, -1)
    else
      (doHandleNoPage m dir addr).map fun (m, dir, ret) => (m, dir, if ret ≠ 0 then -1 else 0)
  else some (m, dir, -1)

/-- `DoPageFault`. `XBook.doPageFault` expands a stack. -/
def doPageFault (m : PageMemory) (dir : Directory) (mm : MemoryManager)
    (addr esp errorCode : Nat) : Option (PageMemory × Directory × MemoryManager × Int) :=
  let mm := XBook.doPageFault mm addr esp errorCode
  match findVMSpace mm.spaceMap addr with
  | none => some (m, dir, mm, -1)
  | some c =>
      if c.space.start > addr then some (m, dir, mm, -1)
      else
        (if pageErrProtect errorCode then doProtectionFault m dir addr (pageErrWrite errorCode)
          else doHandleNoPage m dir addr).map fun (m, dir, ret) => (m, dir, mm, ret)

/-! ## Releasing -/

/-- `VMS_STACK | VMS_HEAP`, the flags of the release in `SysExecv`. -/
abbrev vmsStackHeap : Nat := 3

/-- `VMS_RESOURCE | VMS_STACK | VMS_HEAP`, the flags of the release in `SysExit`. -/
abbrev vmsAll : Nat := 0x83

/-- `MemoryManagerRelease` unmaps the pages of the space. -/
def releases (flags : Nat) (space : VMSpace) : Bool :=
  (flags.testBit 0 && space.flags.testBit 0) || (flags.testBit 1 && space.flags.testBit 1) ||
    (flags.testBit 7 && !(space.flags.testBit 0 && space.flags.testBit 1))

/-- The pages of a range that `FreePages` takes back. -/
def freedPages (phymem : PhysicMemory) (dir : Directory) (vaddr len : Nat) : List Nat :=
  if len = 0 then []
  else (dir.pagesAt (fragment vaddr len)).filter fun page => (phymem.page2MemNode page).isSome

/-- The loop of `MemoryManagerRelease` that unmaps spaces. -/
def releaseSpaces (flags : Nat) : List VMSpace → PhysicMemory → Directory → List Nat →
    PhysicMemory × Directory × List Nat
  | [], phymem, dir, freed => (phymem, dir, freed)
  | space :: rest, phymem, dir, freed =>
      if releases flags space then
        let len := wrapSub space.stop space.start
        let freed := freed ++ freedPages phymem dir space.start len
        let (phymem, dir, _) := unmapPagesFragment phymem dir space.start len
        releaseSpaces flags rest phymem dir freed
      else releaseSpaces flags rest phymem dir freed

/-- `MemoryManagerRelease`. -/
def memoryManagerRelease (s : ProcessState) (flags : Nat) : ProcessState :=
  let (phymem, dir, freed) :=
    releaseSpaces flags s.proc.mm.spaceMap s.mem.phymem s.proc.pgdir s.proc.freed
  { mem := { s.mem with phymem := phymem }
    proc := { s.proc with mm := { s.proc.mm with spaceMap := [] }, pgdir := dir, freed := freed } }

/-! ## Loading an image -/

/-- The fields of `struct Elf32_Phdr` that are read, and what the calls of one round of
`LoadElfBinary` answer: `ReadFileFrom` for the header and for the segment, and `kmalloc`. -/
structure ProgHeader where
  type : Nat
  flags : Nat
  vaddr : Nat
  filesz : Nat
  memsz : Nat
  headerRead : Bool
  segmentRead : Bool
  kmalloc : Option VMSpace

/-- `max`, which compares words as signed numbers. -/
def signedMax (a b : Nat) : Nat :=
  if wrap (a + 0x80000000) > wrap (b + 0x80000000) then a else b

/-- The number of pages of a segment, as `SegmentLoad` computes it. -/
def occupyPages (fileSize vaddr : Nat) : Nat :=
  let sizeInFirstPage := pageSize - vaddr % pageSize
  if fileSize > sizeInFirstPage then
    wrap (divRoundUp (wrapSub fileSize sizeInFirstPage) pageSize + 1)
  else 1

/-- `SegmentLoad`. -/
def segmentLoad (s : ProcessState) (h : ProgHeader) (fileSize : Nat) :
    Option (ProcessState × Int) :=
  let vaddrFirstPage := pageMask h.vaddr
  let occupyPages := occupyPages fileSize h.vaddr
  (mapPagesMaybeMapped userWrite occupyPages vaddrFirstPage s.mem s.proc.pgdir).map
    fun (mem, dir, ret) =>
      let s : ProcessState := { mem := mem, proc := { s.proc with pgdir := dir } }
      if ret ≠ 0 then (s, -1)
      else
        -- `PROT_READ | PROT_WRITE | PROT_EXEC` and `MAP_FIXED`
        let (mm, ret) := doMmap s.proc.mm vaddrFirstPage (wrap (occupyPages * pageSize)) 7 0x10
          h.kmalloc
        let s := { s with proc := { s.proc with mm := mm } }
        -- a negative `int32`
        if ret ≥ 0x80000000 then (s, -1)
        else if h.segmentRead then (s, 0)
        else (s, -1)

/-- The size that `LoadElfBinary` passes to `SegmentLoad`. -/
def ProgHeader.size (h : ProgHeader) : Nat := signedMax h.memsz h.filesz

/-- `LoadElfBinary`. -/
def loadElfBinary : List ProgHeader → ProcessState → Option (ProcessState × Int)
  | [], s => some (s, 0)
  | h :: rest, s =>
      if !h.headerRead then some (s, -1)
      else if h.type = 1 then
        (segmentLoad s h h.size).bind fun (s, ret) =>
          if ret ≠ 0 then some (s, -1)
          else
            -- `ELF32_PHDR_DATA`
            let dataEnd := if h.flags = 6 then wrap (h.vaddr + h.memsz) else s.proc.dataEnd
            loadElfBinary rest { s with proc := { s.proc with dataEnd := dataEnd } }
      else loadElfBinary rest s

/-- The stack page of a new image, from `USER_STACK_TOP - PAGE_SIZE`. -/
abbrev stackPage : Nat := 0x7FFFF000

/-- `InitUserStack`, as far as it maps memory. -/
def initUserStack (s : ProcessState) (kmalloc : Option VMSpace) : Option (ProcessState × Int) :=
  match kmalloc with
  | none => some (s, -1)
  | some _ =>
      -- `PROT_READ | PROT_WRITE` and `VMS_STACK`
      let space : VMSpace := ⟨stackPage, userVmSize, 3, 1⟩
      s.mem.allocPage.bind fun (mem, paddr) =>
        if paddr = 0 then some ({ s with mem := mem }, -1)
        else
          (pageTableAdd mem s.proc.pgdir space.start paddr userWrite).map fun (mem, dir, ret) =>
            if ret = -1 then
              ({ mem := { mem with phymem := (mem.phymem.freePages paddr).1 }
                 proc := { s.proc with pgdir := dir } }, -1)
            else
              let spaceMap := insertVMSpace space s.proc.mm.spaceMap
              ({ mem := mem
                 proc := { s.proc with mm := { s.proc.mm with spaceMap := spaceMap }
                                       pgdir := dir } }, 0)

/-- `InitUserHeap`. -/
def initUserHeap (s : ProcessState) : ProcessState :=
  let brkStart := pageAlign s.proc.dataEnd
  { s with proc := { s.proc with mm := { s.proc.mm with brkStart := brkStart, brk := brkStart } } }

/-- An image: its program headers, and `kmalloc` for its stack space. -/
structure Image where
  headers : List ProgHeader
  stackSpace : Option VMSpace

/-- `SysExecv`, from the release of the old image on. -/
def sysExecv (s : ProcessState) (image : Image) : Option (ProcessState × Int) :=
  (loadElfBinary image.headers (memoryManagerRelease s vmsStackHeap)).bind fun (s, ret) =>
    if ret ≠ 0 then some (s, -1)
    else
      (initUserStack s image.stackSpace).map fun (s, ret) =>
        if ret ≠ 0 then (s, -1) else (initUserHeap s, 0)

/-! ## Steps -/

/-- One step of the process, or of the others on the memory that all share. -/
inductive ProcessOp where
  | mmap (addr len prot flags : UInt32) (kmalloc : Option VMSpace)
  | munmap (addr len : UInt32) (kmalloc : Option VMSpace)
  | brk (brk : UInt32) (kmallocCut kmalloc : Option VMSpace)
  /-- A page fault, when the processor reports one. -/
  | fault (addr esp errorCode : UInt32)
  | exec (image : Image)
  | exit
  /-- Other tasks and the kernel change memory and the node table, but not where it is. -/
  | others (mem : PageMemory)

/-- One step, with `none` for one that cannot be taken and for a search that never ends. -/
def processStep (s : ProcessState) (op : ProcessOp) : Option ProcessState :=
  match op with
  | .others mem =>
      if mem.phymem.memNodeCount = s.mem.phymem.memNodeCount ∧
          mem.phymem.memNodeBase = s.mem.phymem.memNodeBase then some { s with mem := mem }
      else none
  | op =>
      if s.proc.exited then none
      else
        match op with
        | .mmap addr len prot flags kmalloc =>
            let mm := (doMmap s.proc.mm addr.toNat len.toNat prot.toNat flags.toNat kmalloc).1
            some { s with proc := { s.proc with mm := mm } }
        | .munmap addr len kmalloc =>
            let mm := (doMunmap s.proc.mm addr.toNat len.toNat kmalloc).1
            some { s with proc := { s.proc with mm := mm } }
        | .brk brk kmallocCut kmalloc =>
            let mm := (sysBrk s.proc.mm brk.toNat kmallocCut kmalloc).1
            some { s with proc := { s.proc with mm := mm } }
        | .fault addr esp errorCode =>
            if faults s.proc.pgdir addr.toNat errorCode.toNat then
              (doPageFault s.mem s.proc.pgdir s.proc.mm addr.toNat esp.toNat errorCode.toNat).map
                fun (mem, dir, mm, _) =>
                  { mem := mem, proc := { s.proc with mm := mm, pgdir := dir } }
            else none
        | .exec image => (sysExecv s image).map Prod.fst
        | .exit =>
            let s := memoryManagerRelease s vmsAll
            some { s with proc := { s.proc with exited := true } }
        | .others _ => none

end XBook.Paging
