import XBook.Kernel.Bitmap
import XBook.Mm.Page

/-!
# The kernel heap

`mm/memcache.c`. A cache hands out objects of one size from groups; a group has a bitmap of its
objects and lies in one of the three lists of its cache. Groups and objects are named by their
addresses. The page allocator is left open: `GroupPages` is what it returns during a call.

`memCache` and `group` of a `struct MemNode` are found by the number of the page that an address
lies in, since `Vir2Phy` and `Page2MemNode` subtract whole pages from it. The state also keeps
which cache each group was created for, and the live objects with the sizes asked for; no
function of the source reads these.
-/

namespace XBook

/-- `struct MemGroup`. -/
structure MemGroup where
  map : Bitmap
  objects : Nat
  usingCount : Nat
  freeCount : Nat

/-- The lists of a cache. -/
inductive GroupList where
  | fullGroups
  | partialGroups
  | freeGroups
  deriving DecidableEq, Repr

/-- `struct MemCache`. -/
structure MemCache where
  list : GroupList → List Nat
  objectSize : Nat
  objectNumber : Nat

/-- The fields `memCache` and `group` of a `struct MemNode`, with `none` for `NULL`. -/
structure NodeMark where
  memCache : Option Nat
  group : Option Nat
  deriving DecidableEq, Repr

/-- What the page allocator returns for a new group: the page of the group and the pages of its
objects, with 0 for `NULL`, and the old contents of the memory of its bitmap. -/
structure GroupPages where
  group : Nat
  objects : Nat
  memory : Nat → Nat

/-- The heap. -/
structure MemCacheState where
  memCacheTable : Nat → MemCache
  groups : Nat → MemGroup
  nodes : Nat → NodeMark
  /-- The cache that a group was created for. -/
  owner : Nat → Option Nat
  /-- The size asked for, of each live object. -/
  live : Nat → Option Nat

/-- The sizes of `cacheSizes`. -/
def cacheSizes : List Nat :=
  [32, 64, 128, 256, 512, 1024, 2048, 4096, 8 * 1024, 16 * 1024, 32 * 1024, 64 * 1024, 128 * 1024]

/-- `MAX_MEM_CACHE_SIZE`. -/
abbrev maxMemCacheSize : Nat := 128 * 1024

/-- `SIZEOF_MEM_GROUP`. -/
abbrev sizeofMemGroup : Nat := 32

/-- The number of objects that `MemCacheInit` gives the groups of a cache. -/
def cacheObjectNumber (size : Nat) : Nat :=
  if size < 1024 then (pageSize - alignWith sizeofMemGroup 8 - 16) / size
  else if size ≤ 128 * 1024 then 1024 * 1024 / size
  else if size ≤ 4 * 1024 * 1024 then 4 * 1024 * 1024 / size
  else 0

/-- `MemCacheInit`. -/
def memCacheInit (size : Nat) : MemCache :=
  { list := fun _ => [], objectSize := size, objectNumber := cacheObjectNumber size }

/-- The pages that hold the objects of a group of a cache with objects of 1024 bytes or more. -/
def objectPages (objectNumber objectSize : Nat) : Nat :=
  divRoundUp (wrap (objectNumber * objectSize)) pageSize

/-- The loop of `kmalloc` over `cacheSizes`. -/
def cacheIndex (size : Nat) : Nat := cacheSizes.findIdx (· ≥ size)

namespace MemCache

/-- `ListDel(&group->list)`. -/
def listDel (c : MemCache) (group : Nat) : MemCache :=
  { c with list := fun l => (c.list l).erase group }

/-- `ListAddTail(&group->list, ...)`. -/
def listAddTail (c : MemCache) (group : Nat) (l : GroupList) : MemCache :=
  { c with list := Function.update c.list l (c.list l ++ [group]) }

/-- `ListAdd(&group->list, ...)`. -/
def listAdd (c : MemCache) (group : Nat) (l : GroupList) : MemCache :=
  { c with list := Function.update c.list l (group :: c.list l) }

end MemCache

namespace MemCacheState

/-- The state that `MakeMemCaches` leaves. -/
def init (nodes : Nat → NodeMark) (groups : Nat → MemGroup) : MemCacheState :=
  { memCacheTable := fun k => memCacheInit (cacheSizes.getD k 0)
    groups := groups
    nodes := nodes
    owner := fun _ => none
    live := fun _ => none }

def setCache (s : MemCacheState) (k : Nat) (c : MemCache) : MemCacheState :=
  { s with memCacheTable := Function.update s.memCacheTable k c }

def setGroup (s : MemCacheState) (g : Nat) (group : MemGroup) : MemCacheState :=
  { s with groups := Function.update s.groups g group }

def setNode (s : MemCacheState) (node : Nat) (mark : NodeMark) : MemCacheState :=
  { s with nodes := Function.update s.nodes node mark }

/-- `AllocPages` and `FreePages` clear the node of the first page. -/
def clearNode (s : MemCacheState) (address : Nat) : MemCacheState :=
  s.setNode (address / pageSize) ⟨none, none⟩

/-- `MEM_NODE_MARK_CHACHE_GROUP` on the nodes of `pages` pages. -/
def markNodes (s : MemCacheState) (address pages : Nat) (mark : NodeMark) : MemCacheState :=
  { s with nodes := fun node =>
      if address / pageSize ≤ node ∧ node < address / pageSize + pages then mark else s.nodes node }

/-- `CreateMemGroup` with its `MemGroupInit`. When there are no pages for the objects, the page
of the group is freed while the group stays in the list. -/
def createMemGroup (s : MemCacheState) (k : Nat) (pages : GroupPages) : MemCacheState × Bool :=
  if pages.group = 0 then (s, false)
  else
    let g := pages.group
    let cache := s.memCacheTable k
    let s := (s.clearNode g).setCache k (cache.listAdd g .freeGroups)
    let map := bitmapInit ⟨divRoundUp cache.objectNumber 8, pages.memory⟩
    if cache.objectSize < 1024 then
      let s := s.markNodes g 1 ⟨some k, some g⟩
      let s := s.setGroup g ⟨map, g + sizeofMemGroup + 16, 0, cache.objectNumber⟩
      ({ s with owner := Function.update s.owner g (some k) }, true)
    else if pages.objects = 0 then (s.clearNode g, false)
    else
      let count := objectPages cache.objectNumber cache.objectSize
      let s := (s.clearNode pages.objects).markNodes pages.objects count ⟨some k, some g⟩
      let s := s.setGroup g ⟨map, pages.objects, 0, cache.objectNumber⟩
      ({ s with owner := Function.update s.owner g (some k) }, true)

/-- `__MemGroupAllocObjcet`, with 0 for `NULL`. -/
def memGroupAllocObject (s : MemCacheState) (k g : Nat) : MemCacheState × Nat :=
  let cache := s.memCacheTable k
  let group := s.groups g
  match bitmapScan group.map 1 with
  | none => (s, 0)
  | some idx =>
      let object := group.objects + idx * cache.objectSize
      let freeCount := group.freeCount - 1
      let s := s.setGroup g
        ⟨bitmapSet group.map idx true, group.objects, group.usingCount + 1, freeCount⟩
      if freeCount = 0 then
        (s.setCache k ((cache.listDel g).listAddTail g .fullGroups), object)
      else (s, object)

/-- The part of `GroupAllocObjcet` that looks for a group with a free object. A group that was
free goes to the end of the partial groups. -/
def findGroup (s : MemCacheState) (k : Nat) : Option (MemCacheState × Nat) :=
  let cache := s.memCacheTable k
  match cache.list .partialGroups, cache.list .freeGroups with
  | g :: _, _ => some (s, g)
  | [], g :: _ => some (s.setCache k ((cache.listDel g).listAddTail g .partialGroups), g)
  | [], [] => none

/-- `GroupAllocObjcet`. A new group is on the free list, so the second search finds one. -/
def groupAllocObject (s : MemCacheState) (k : Nat) (pages : GroupPages) : MemCacheState × Nat :=
  match s.findGroup k with
  | some (s, g) => s.memGroupAllocObject k g
  | none =>
      let (s, created) := s.createMemGroup k pages
      if created then
        match s.findGroup k with
        | some (s, g) => s.memGroupAllocObject k g
        | none => (s, 0)
      else (s, 0)

/-- `kmalloc`. -/
def kmalloc (s : MemCacheState) (size : Nat) (pages : GroupPages) : MemCacheState × Nat :=
  if size > maxMemCacheSize then (s, 0) else s.groupAllocObject (cacheIndex size) pages

/-- `__GroupFreeObject`. There is no result where the source panics. -/
def groupFreeObject (s : MemCacheState) (k object : Nat) : Option MemCacheState :=
  let cache := s.memCacheTable k
  match (s.nodes (object / pageSize)).group with
  | none => none
  | some g =>
      let group := s.groups g
      let index := (object - group.objects) / cache.objectSize
      if object < group.objects ∨ index > group.map.btmpBytesLen * 8 then none
      else
        let usingCount := group.usingCount - 1
        let s := s.setGroup g
          ⟨bitmapSet group.map index false, group.objects, usingCount, group.freeCount + 1⟩
        if usingCount = 0 then
          some (s.setCache k ((cache.listDel g).listAddTail g .freeGroups))
        else if group.usingCount = cache.objectNumber then
          some (s.setCache k ((cache.listDel g).listAddTail g .partialGroups))
        else some s

/-- `kfree`. -/
def kfree (s : MemCacheState) (object : Nat) : Option MemCacheState :=
  if object = 0 then some s
  else
    match (s.nodes (object / pageSize)).memCache with
    | none => none
    | some k => s.groupFreeObject k object

/-- `MemCacheFreePages` succeeds on every address but `NULL` and that of physical page 0. -/
def memCacheFreePages (s : MemCacheState) (address : Nat) : MemCacheState × Bool :=
  if address = 0 ∨ address = 0x80000000 then (s, false) else (s.clearNode address, true)

/-- `GroupDestory`. -/
def groupDestory (s : MemCacheState) (k g : Nat) : MemCacheState × Bool :=
  let cache := s.memCacheTable k
  let s := s.setCache k (cache.listDel g)
  let s := { s with owner := Function.update s.owner g none }
  if cache.objectSize < 1024 then s.memCacheFreePages g
  else
    let (s, freed) := s.memCacheFreePages (s.groups g).objects
    if freed then s.memCacheFreePages g else (s, false)

/-- The loop of `__MemCacheShrink` over the free groups. -/
def shrinkGroups (k : Nat) : List Nat → MemCacheState → Nat → MemCacheState × Nat
  | [], s, ret => (s, ret)
  | g :: rest, s, ret =>
      let (s, destroyed) := s.groupDestory k g
      shrinkGroups k rest s (if destroyed then ret + 1 else ret)

/-- `MemCacheShrink`. -/
def memCacheShrink (s : MemCacheState) (k : Nat) : MemCacheState × Nat :=
  let cache := s.memCacheTable k
  let (s, ret) := shrinkGroups k (cache.list .freeGroups) s 0
  (s, ret * cache.objectNumber * cache.objectSize)

/-- The loop of `kmshrink` over the caches. -/
def shrinkCaches : List Nat → MemCacheState → Nat → MemCacheState × Nat
  | [], s, size => (s, size)
  | k :: rest, s, size =>
      let (s, freed) := s.memCacheShrink k
      shrinkCaches rest s (size + freed)

/-- `kmshrink`. -/
def kmshrink (s : MemCacheState) : MemCacheState × Nat :=
  shrinkCaches (List.range cacheSizes.length) s 0

end MemCacheState

end XBook
