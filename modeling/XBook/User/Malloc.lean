import XBook.Lib.Bytes

/-!
# The heap of a program

`user/lib/malloc.c` over the bytes of the program's memory, with `sbrk` of `user/lib/brk.c`. The
header of a block is four words in front of its data. The kernel accepts or refuses each request
for another break.
-/

namespace XBook.Malloc

open ByteMemory

abbrev Address := BitVec 32

/-- `MEM_BLOCK_SIZE`. -/
abbrev memBlockSize : BitVec 32 := 16

/-- The calls of `sbrk`, in the order in which `malloc` makes them. -/
inductive SbrkCall where
  | head | tail | shrink | block | newTail
  deriving DecidableEq

/-- The memory of a program, the variables of the two files, and the break of the kernel. -/
structure UserHeap where
  mem : ByteMemory 32
  head : Address
  tail : Address
  flag : Address
  hadInitialized : Bool
  curbrk : Address
  brk : Address

namespace UserHeap

/-! ## Headers -/

def used (h : UserHeap) (b : Address) : BitVec 32 := h.mem.loadWord b

def size (h : UserHeap) (b : Address) : BitVec 32 := h.mem.loadWord (b + 4)

def prev (h : UserHeap) (b : Address) : Address := h.mem.loadWord (b + 8)

def next (h : UserHeap) (b : Address) : Address := h.mem.loadWord (b + 12)

def setUsed (h : UserHeap) (b : Address) (value : BitVec 32) : UserHeap :=
  { h with mem := h.mem.storeWord b value }

def setSize (h : UserHeap) (b : Address) (value : BitVec 32) : UserHeap :=
  { h with mem := h.mem.storeWord (b + 4) value }

def setPrev (h : UserHeap) (b value : Address) : UserHeap :=
  { h with mem := h.mem.storeWord (b + 8) value }

def setNext (h : UserHeap) (b value : Address) : UserHeap :=
  { h with mem := h.mem.storeWord (b + 12) value }

/-! ## The break -/

/-- `sbrk`, with whether the kernel accepts the new break. Its result is the old one, or -1. -/
def sbrk (h : UserHeap) (increment : BitVec 32) (accept : Bool) : UserHeap × Address :=
  -- `brk(0)` asks for the break.
  let h := if h.curbrk = 0 then { h with curbrk := h.brk } else h
  if increment = 0 then (h, h.curbrk)
  else
    let oldbrk := h.curbrk
    let refused :=
      if (0 : BitVec 32).slt increment then (oldbrk + increment).ult oldbrk
      else oldbrk.slt (-increment)
    if refused then (h, -1)
    else
      let newbrk := if accept then oldbrk + increment else h.brk
      let h := { h with curbrk := newbrk, brk := newbrk }
      if newbrk.ult (oldbrk + increment) then (h, -1) else (h, oldbrk)

/-! ## Allocation -/

/-- `ALIGN4`. -/
def align4 (size : BitVec 32) : BitVec 32 := (size + 4) &&& ~~~3

/-- `InitMemoryAlloctor`, with whether it succeeds. -/
def initMemoryAlloctor (h : UserHeap) (accept : SbrkCall → Bool) : UserHeap × Bool :=
  let first := h.sbrk memBlockSize (accept .head)
  let second := first.1.sbrk memBlockSize (accept .tail)
  let h : UserHeap := { second.1 with head := first.2, tail := second.2 }
  if h.head = -1 ∨ h.tail = -1 then (h, false)
  else
    let h := (h.setUsed h.tail 1).setUsed h.head 1
    let h := (h.setPrev h.head h.tail).setPrev h.tail h.head
    let h := (h.setNext h.head h.tail).setNext h.tail h.head
    ({ h with flag := h.head, hadInitialized := true }, true)

/-- `SplitBlock`. -/
def splitBlock (h : UserHeap) (current : Address) (size : BitVec 32) : UserHeap :=
  let next := h.next current
  let new := current + size + memBlockSize
  let h := h.setUsed new 0
  let h := h.setSize new (h.size current - size - memBlockSize)
  let h := (h.setPrev new current).setNext new next
  let h := (h.setNext current new).setSize current size
  h.setPrev next new

/-- The loop of `malloc` from a block on. It ends at the block that it takes, with the memory of
this block, or where it has begun. -/
def findBlock (h : UserHeap) (size : BitVec 32) : Nat → Address →
    Option (UserHeap × Address × Address)
  | 0, _ => none
  | fuel + 1, currentBlock =>
      if currentBlock = 0 then some (h, currentBlock, 0)
      else if h.used currentBlock = 0 ∧ size ≤ h.size currentBlock then
        let h := h.setUsed currentBlock 1
        let h := if memBlockSize + 4 < h.size currentBlock - size then
          h.splitBlock currentBlock size else h
        some (h, currentBlock, currentBlock + memBlockSize)
      else
        let currentBlock := h.next currentBlock
        if currentBlock = h.flag then some (h, currentBlock, 0)
        else h.findBlock size fuel currentBlock

/-- The end of `malloc`, where the memory of the tail is given back and the heap grows. -/
def growHeap (h : UserHeap) (size blockSize : BitVec 32) (accept : SbrkCall → Bool) :
    UserHeap × Address :=
  let prevBlock := h.prev h.tail
  let h := (h.sbrk (-1 * memBlockSize) (accept .shrink)).1
  let alloc := h.sbrk blockSize (accept .block)
  let allocBlock := alloc.2
  if allocBlock = -1 then (alloc.1, 0)
  else
    let last := alloc.1.sbrk memBlockSize (accept .newTail)
    let h := { last.1 with tail := last.2 }
    let h := (h.setSize allocBlock size).setUsed allocBlock 1
    let h := (h.setNext allocBlock h.tail).setPrev allocBlock prevBlock
    let h := h.setNext prevBlock allocBlock
    let h := (h.setPrev h.tail allocBlock).setNext h.tail h.head
    let h := (h.setUsed h.tail 1).setSize h.tail 0
    (h.setPrev h.head h.tail, allocBlock + memBlockSize)

/-- `malloc`, if its loop ends within the fuel. -/
def malloc (h : UserHeap) (size : BitVec 32) (accept : SbrkCall → Bool) (fuel : Nat) :
    Option (UserHeap × Address) :=
  let blockSize := size + memBlockSize
  let size := align4 size
  if size = 0 then some (h, 0)
  else
    let start := if h.hadInitialized then (h, true) else h.initMemoryAlloctor accept
    if start.2 = false then some (start.1, 0)
    else
      (start.1.findBlock size fuel start.1.flag).map fun (h, currentBlock, memoryLocation) =>
        let h := { h with flag := currentBlock }
        if memoryLocation = 0 then h.growHeap size blockSize accept else (h, memoryLocation)

/-! ## Release -/

/-- `MergePrev`. -/
def mergePrev (h : UserHeap) (current : Address) : UserHeap :=
  let prev := h.prev current
  let h := h.setSize prev (h.size prev + h.size current + memBlockSize)
  let h := h.setNext prev (h.next current)
  h.setPrev (h.next current) prev

/-- `MergeNext`. -/
def mergeNext (h : UserHeap) (current : Address) : UserHeap :=
  let next := h.next current
  let h := h.setSize current (h.size current + h.size next + memBlockSize)
  let h := h.setNext current (h.next next)
  h.setPrev (h.next next) current

/-- `free`. -/
def free (h : UserHeap) (ptr : Address) : UserHeap :=
  if ptr = 0 then h
  else
    let current := ptr - memBlockSize
    let prev := h.prev current
    let next := h.next current
    if h.used prev ≠ 0 ∧ h.used next ≠ 0 then h.setUsed current 0
    else if h.used next ≠ 0 then { h.mergePrev current with flag := prev }
    else if h.used prev ≠ 0 then { (h.setUsed current 0).mergeNext current with flag := current }
    else { (h.mergeNext current).mergePrev current with flag := prev }

end UserHeap

end XBook.Malloc
