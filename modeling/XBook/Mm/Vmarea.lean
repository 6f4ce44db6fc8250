import XBook.Kernel.Bitmap
import XBook.Mm.PageLinks

/-!
# Virtual areas

`vmalloc` and `vfree` of `mm/vmarea.c`. Addresses are marked in a bitmap, one bit a page. An area
that is in use is on one list and a freed one on another, where it keeps its addresses and its
pages. The memory behind the bits of the bitmap belongs to others; `BitmapScan` can read one bit
of it. A `kmalloc` is an argument that says whether it succeeds.
-/

namespace XBook.Paging

/-- `struct VMArea`. -/
structure VMArea where
  addr : Nat
  size : Nat
  deriving DecidableEq, Repr

/-- The variables of `mm/vmarea.c`, with the memory and the page tables. -/
structure VMAreas where
  vmBitmap : Bitmap
  usingVMAreaList : List VMArea
  freeVMAreaList : List VMArea
  mem : PageMemory
  pgdir : Directory

/-- `HIGH_MEM_ADDR`, the value of `vmBaseAddress`. -/
abbrev vmBaseAddress : Nat := 0xF7C00000

/-- `NULL_MEM_ADDR`. -/
abbrev nullMemAddr : Nat := 0xFFC00000

/-- `PAGE_US_S | PAGE_RW_W`. -/
abbrev supervisorWrite : Nat := 2

/-- `InitVMArea`, with the memory that `kmalloc` has returned for the bitmap. -/
def initVMArea (bits : Nat → Nat) (mem : PageMemory) (pgdir : Directory) : VMAreas :=
  ⟨bitmapInit ⟨highMemSize / (pageSize * 8), bits⟩, [], [], mem, pgdir⟩

/-- `AllocVaddress`. -/
def allocVaddress (vmBitmap : Bitmap) (size : Nat) : Bitmap × Nat :=
  let size := pageAlign size
  if size = 0 then (vmBitmap, 0)
  else
    let pages := size / pageSize
    match bitmapScan vmBitmap pages with
    | none => (vmBitmap, 0)
    | some idx =>
        (bitmapSetRange vmBitmap true idx pages, wrap (vmBaseAddress + wrap (idx * pageSize)))

/-- `FreeVaddress`. -/
def freeVaddress (vmBitmap : Bitmap) (vaddr size : Nat) : Bitmap :=
  bitmapSetRange vmBitmap false (wrapSub vaddr vmBaseAddress / pageSize) (size / pageSize)

/-- The first area of a list that passes a test, and the list without it. -/
def findArea (test : VMArea → Bool) : List VMArea → Option (VMArea × List VMArea)
  | [] => none
  | area :: rest =>
      if test area then some (area, rest)
      else (findArea test rest).map fun (found, rest) => (found, area :: rest)

/-- `__vmalloc`. When `MapPages` fails the area is given back to `kfree`, but stays on the list. -/
def __vmalloc (s : VMAreas) (size : Nat) (kmalloc : Bool) : Option (VMAreas × Nat) :=
  let (vmBitmap, start) := allocVaddress s.vmBitmap size
  if start = 0 then some ({ s with vmBitmap := vmBitmap }, 0)
  else if !kmalloc then some ({ s with vmBitmap := freeVaddress vmBitmap start size }, 0)
  else
    (mapPages s.mem s.pgdir start size supervisorWrite).map fun (mem, pgdir, ret) =>
      let s : VMAreas := { s with usingVMAreaList := s.usingVMAreaList ++ [⟨start, size⟩]
                                  mem := mem, pgdir := pgdir }
      if ret ≠ 0 then ({ s with vmBitmap := freeVaddress vmBitmap start size }, 0)
      else ({ s with vmBitmap := vmBitmap }, start)

/-- The size of the area that `vmalloc` looks for: a page more than what is asked for. -/
def areaSize (size : Nat) : Nat := wrap (pageAlign size + pageSize)

/-- The free area that `vmalloc` takes, with those that it leaves. -/
def takeArea (s : VMAreas) (size : Nat) : Option (VMArea × List VMArea) :=
  findArea (fun area => areaSize size ≥ area.size) s.freeVMAreaList

/-- `vmalloc`, with 0 for `NULL`. -/
def vmalloc (s : VMAreas) (size : Nat) (kmalloc : Bool) : Option (VMAreas × Nat) :=
  if pageAlign size = 0 then some (s, 0)
  else
    match takeArea s size with
    | some (target, rest) =>
        some ({ s with freeVMAreaList := rest
                       usingVMAreaList := s.usingVMAreaList ++ [target] }, target.addr)
    | none => __vmalloc s (areaSize size) kmalloc

/-- `__vfree`: the list of free areas with a new one, before the first that is not smaller. -/
def __vfree (target : VMArea) : List VMArea → List VMArea
  | [] => [target]
  | area :: rest =>
      if target.size > area.size then area :: __vfree target rest else target :: area :: rest

/-- `vfree`, which returns `-1` in every case. -/
def vfree (s : VMAreas) (ptr : Nat) : VMAreas × Int :=
  if ptr = 0 then (s, -1)
  else if ptr < vmBaseAddress ∨ ptr ≥ nullMemAddr then (s, -1)
  else
    match findArea (fun area => area.addr = ptr) s.usingVMAreaList with
    | none => (s, -1)
    | some (target, rest) =>
        ({ s with usingVMAreaList := rest, freeVMAreaList := __vfree target s.freeVMAreaList }, -1)

/-! ## Mapping that succeeds -/

/-- Every `PageTableAdd` of the loop of `MapPages` returns 0. -/
def linksAll (protect : Nat) : List Nat → Nat → PageMemory → Directory → Bool
  | [], _, _, _ => true
  | vaddr :: rest, paddr, m, dir =>
      match pageTableAdd m dir vaddr paddr protect with
      | some (m, dir, ret) => ret = 0 && linksAll protect rest (wrap (paddr + pageSize)) m dir
      | none => false

/-- `MapPages` finds the pages and maps each of them. -/
def mapsAll (m : PageMemory) (dir : Directory) (start len protect : Nat) : Bool :=
  let len := pageAlign len
  match m.phymem.allocPages (len / pageSize) with
  | none => false
  | some (phymem, paddr) =>
      paddr ≠ 0 &&
        linksAll protect (pagesBetween start (wrap (start + len))) paddr { m with phymem := phymem }
          dir

/-- A call of `vmalloc` that comes to map pages maps all of them. -/
def mappingSucceeds (s : VMAreas) (size : Nat) (kmalloc : Bool) : Bool :=
  pageAlign size = 0 || (takeArea s size).isSome || !kmalloc ||
    (allocVaddress s.vmBitmap (areaSize size)).2 = 0 ||
    mapsAll s.mem s.pgdir (allocVaddress s.vmBitmap (areaSize size)).2 (areaSize size)
      supervisorWrite

/-! ## Steps -/

/-- The areas, with the address and the size of each request that is live. -/
structure Regions where
  areas : VMAreas
  live : List (Nat × Nat)

/-- A call, or what others do to the memory and to the bits behind the bitmap. -/
inductive VMAreaOp where
  | vmalloc (size : UInt32) (kmalloc : Bool)
  | vfree (ptr : UInt32)
  | others (mem : PageMemory) (bits : Nat → Nat)

/-- One step, with `none` for a `vfree` of an address that is not live. -/
def regionStep (s : Regions) : VMAreaOp → Option Regions
  | .vmalloc size kmalloc =>
      (vmalloc s.areas size.toNat kmalloc).map fun (areas, addr) =>
        ⟨areas, if addr = 0 then s.live else s.live ++ [(addr, size.toNat)]⟩
  | .vfree ptr =>
      if ptr.toNat ∈ s.live.map Prod.fst then
        some ⟨(vfree s.areas ptr.toNat).1, s.live.filter fun p => p.1 ≠ ptr.toNat⟩
      else none
  | .others mem bits =>
      let vmBitmap := s.areas.vmBitmap
      some { s with areas := { s.areas with
        mem := mem
        vmBitmap := { vmBitmap with bits := fun i =>
          if i < vmBitmap.btmpBytesLen then vmBitmap.bits i else bits i } } }

end XBook.Paging
