import XBook.Kernel.Request
import XBook.Mm.Page

/-!
# The buffer cache of the block devices

`kernel/block/buffer.c` with the functions of `request.c`, `blkdev.c` and `disk.c` that it runs
through, executed by one task. A buffer head is named by a number, and the lists of the disks hold
these numbers. What a sector holds is left open, and the device moves whole sectors without
errors. A step that cannot go on, because the source panics or the task would wait for another
one, has no result.
-/

namespace XBook

/-- `SECTOR_SIZE`. -/
abbrev sectorSize : Nat := 512

/-- `BLOCK_SIZE`. -/
abbrev blockSize : Nat := sectorSize * 2

/-- `MKDEV(major, minor)`. -/
def mkdev (major minor : Nat) : Nat := wrap (major * 2 ^ 20) ||| minor

/-- `BLOCK_READ` and `BLOCK_WRITE`. -/
inductive BlockCmd where
  | read
  | write
  deriving DecidableEq, Repr

/-- `struct BufferHead`. -/
structure BufferHead (σ : Type*) where
  devno : Nat
  lba : Nat
  size : Nat
  data : Nat → σ
  uptodate : Bool
  dirty : Bool
  locked : Bool
  count : Int

/-- `struct Request`, without its waiter. -/
structure Request where
  bh : Nat
  lba : Nat
  count : Nat
  cmd : BlockCmd

/-- `struct Disk`. -/
structure Disk where
  major : Nat
  firstMinor : Nat
  bufferHeadList : List Nat
  requestQueue : RequestQueue Request

/-- `struct BlockDevice`, with its `disk` by number. -/
structure BlockDevice where
  devno : Nat
  blockSize : Nat
  disk : Nat

/-- The block devices, the buffers and the sectors of the disks. -/
structure BlockSystem (σ : Type*) where
  allBlockDeviceList : List BlockDevice
  allDiskList : List Nat
  disks : Nat → Disk
  heads : Nat → BufferHead σ
  nextHead : Nat
  sectors : Nat → Nat → σ

namespace BlockSystem

variable {σ : Type*}

def setHead (s : BlockSystem σ) (bh : Nat) (head : BufferHead σ) : BlockSystem σ :=
  { s with heads := Function.update s.heads bh head }

def setDisk (s : BlockSystem σ) (d : Nat) (disk : Disk) : BlockSystem σ :=
  { s with disks := Function.update s.disks d disk }

def setQueue (s : BlockSystem σ) (d : Nat) (q : RequestQueue Request) : BlockSystem σ :=
  s.setDisk d { s.disks d with requestQueue := q }

/-- The system before the first driver, with whatever is in memory and on the disks. -/
def empty (heads : Nat → BufferHead σ) (sectors : Nat → Nat → σ) : BlockSystem σ :=
  { allBlockDeviceList := []
    allDiskList := []
    disks := fun _ => ⟨0, 0, [], .blockInitQueue⟩
    heads := heads
    nextHead := 0
    sectors := sectors }

/-- `RamdiskCreateDevice` and `IdeBlockDeviceCreate`: a new disk, and a block device for it with
its device number. -/
def createDevice (s : BlockSystem σ) (major minor : Nat) : BlockSystem σ :=
  let d := s.allDiskList.length
  { s with
    allDiskList := s.allDiskList ++ [d]
    disks := Function.update s.disks d ⟨major, minor, [], .blockInitQueue⟩
    allBlockDeviceList := s.allBlockDeviceList ++ [⟨mkdev major minor, blockSize, d⟩] }

/-- `GetBlockDeviceByDevno`. -/
def getBlockDeviceByDevno (s : BlockSystem σ) (devno : Nat) : Option BlockDevice :=
  s.allBlockDeviceList.find? fun b => b.devno = devno

/-- The search of `GetBufferFromDisk`. -/
def findBuffer (s : BlockSystem σ) (d lba size : Nat) : Option Nat :=
  let disk := s.disks d
  disk.bufferHeadList.find? fun tmp =>
    (s.heads tmp).devno = mkdev disk.major disk.firstMinor ∧ (s.heads tmp).lba = lba ∧
      (s.heads tmp).size = size

/-- `GetBufferFromDisk`. -/
def getBufferFromDisk (s : BlockSystem σ) (d lba size : Nat) : Option (BlockSystem σ × Nat) :=
  (s.findBuffer d lba size).map fun bh =>
    (s.setHead bh { s.heads bh with count := (s.heads bh).count + 1 }, bh)

/-- `CreateBuffers`, whose `kmalloc` succeeds and leaves `data` with what the memory held. -/
def createBuffers (s : BlockSystem σ) (d lba size : Nat) : Option (BlockSystem σ) :=
  if size < sectorSize ∨ size > pageSize then none
  else
    let disk := s.disks d
    let bh := s.nextHead
    let s := s.setHead bh
      { devno := mkdev disk.major disk.firstMinor, lba := lba, size := size
        data := (s.heads bh).data, uptodate := false, dirty := false, locked := false, count := 0 }
    some { s.setDisk d { disk with bufferHeadList := disk.bufferHeadList ++ [bh] } with
      nextHead := bh + 1 }

/-- `GetBlock`. The second turn of its loop finds the buffer that the first one created. -/
def getBlock (s : BlockSystem σ) (devno lba : Nat) : Option (BlockSystem σ × Nat) :=
  (s.getBlockDeviceByDevno devno).bind fun blkdev =>
    match s.getBufferFromDisk blkdev.disk lba blkdev.blockSize with
    | some found => some found
    | none =>
        (s.createBuffers blkdev.disk lba blkdev.blockSize).bind fun s =>
          s.getBufferFromDisk blkdev.disk lba blkdev.blockSize

/-- `LockBuffer` and `UnlockBuffer`. -/
def setLocked (s : BlockSystem σ) (bh : Nat) (locked : Bool) : BlockSystem σ :=
  s.setHead bh { s.heads bh with locked := locked }

/-- `WaitOnBuffer`. -/
def waitOnBuffer (s : BlockSystem σ) (bh : Nat) : Option (BlockSystem σ) :=
  if (s.heads bh).locked then none else some s

/-- `Brelease`. -/
def brelease (s : BlockSystem σ) (bh : Nat) : Option (BlockSystem σ) :=
  (s.waitOnBuffer bh).bind fun s =>
    let count := (s.heads bh).count - 1
    if count = 0 then none else some (s.setHead bh { s.heads bh with count := count })

/-- The transfer of `DoBlockRequest` between the buffer of a request and its sectors. -/
def transfer (s : BlockSystem σ) (d : Nat) (rq : Request) : BlockSystem σ :=
  let head := s.heads rq.bh
  match rq.cmd with
  | .read => s.setHead rq.bh { head with
      data := fun i => if i < rq.count then s.sectors d (rq.lba + i) else head.data i }
  | .write => { s with
      sectors := Function.update s.sectors d fun sector =>
        if rq.lba ≤ sector ∧ sector < rq.lba + rq.count then head.data (sector - rq.lba)
        else s.sectors d sector }

/-- `BlockEndRequest`. Its waiter is the running task, which is not asleep. -/
def blockEndRequest (s : BlockSystem σ) (d : Nat) (rq : Request) : BlockSystem σ :=
  let head := s.heads rq.bh
  let s := s.setHead rq.bh { head with
    uptodate := true
    dirty := head.dirty && rq.cmd ≠ .write
    locked := false
    count := head.count - 1 }
  s.setQueue d { (s.disks d).requestQueue with currentRequest := none }

/-- The loop of `DoBlockRequest`, with a bound on the number of its requests. -/
def doBlockRequest : Nat → Nat → BlockSystem σ → Option (BlockSystem σ)
  | 0, _, _ => none
  | fuel + 1, d, s =>
      let r := (s.disks d).requestQueue.blockFetchRequest
      let s := s.setQueue d r.1
      match r.2 with
      | none => some s
      | some rq => doBlockRequest fuel d ((s.transfer d rq).blockEndRequest d rq)

/-- `AddRequest` with its `BlockStartRequeue`. When another request is in progress the task would
sleep. -/
def addRequest (s : BlockSystem σ) (d : Nat) (rq : Request) : Option (BlockSystem σ) :=
  ((s.disks d).requestQueue.elevatorIoSchedule Request.lba rq).bind fun q =>
    match q.currentRequest with
    | some _ => none
    | none =>
        doBlockRequest (q.upRequestList.length + q.downRequestList.length + 1) d
          (s.setQueue d { q with currentRequest := some rq })

/-- `MakeRequest`. -/
def makeRequest (s : BlockSystem σ) (rw : BlockCmd) (bh : Nat) : Option (BlockSystem σ) :=
  let s := s.setLocked bh true
  let head := s.heads bh
  if rw = .write ∧ head.dirty = false ∨ rw = .read ∧ head.uptodate = true then
    some (s.setLocked bh false)
  else
    match s.getBlockDeviceByDevno head.devno with
    | none => some (s.setLocked bh false)
    | some dev =>
        let count := dev.blockSize / sectorSize
        s.addRequest dev.disk ⟨bh, wrap (head.lba * count), count, rw⟩

/-- `Bread`, with `none` for `NULL` in its result. -/
def bread (s : BlockSystem σ) (devno lba : Nat) : Option (BlockSystem σ × Option Nat) :=
  (s.getBlock devno lba).bind fun (s, bh) =>
    if (s.heads bh).uptodate then some (s, some bh)
    else
      (s.makeRequest .read bh).bind fun s =>
        (s.waitOnBuffer bh).bind fun s =>
          if (s.heads bh).uptodate then some (s, some bh)
          else (s.brelease bh).map fun s => (s, none)

/-- `Bwrite`. -/
def bwrite (s : BlockSystem σ) (devno lba : Nat) (buffer : Nat → σ) :
    Option (BlockSystem σ × Nat) :=
  (s.getBlock devno lba).bind fun (s, bh) =>
    (s.waitOnBuffer bh).map fun s =>
      let head := s.heads bh
      (s.setHead bh { head with
        data := fun i => if i < blockSize / sectorSize then buffer i else head.data i
        dirty := true
        uptodate := true }, bh)

/-- `BsyncOne`. -/
def bsyncOne (s : BlockSystem σ) (bh : Nat) : Option (BlockSystem σ) :=
  if (s.heads bh).dirty = false then some s
  else
    (s.makeRequest .write bh).bind fun s =>
      (s.waitOnBuffer bh).bind fun s =>
        if (s.heads bh).dirty = false then some s else s.brelease bh

/-- The loop of `Bsync` over the buffers of one disk. -/
def bsyncHeads : List Nat → BlockSystem σ → Option (BlockSystem σ)
  | [], s => some s
  | bh :: rest, s => (s.bsyncOne bh).bind (bsyncHeads rest)

/-- The loop of `Bsync` over the disks. -/
def bsyncDisks : List Nat → BlockSystem σ → Option (BlockSystem σ)
  | [], s => some s
  | d :: rest, s => (bsyncHeads (s.disks d).bufferHeadList s).bind (bsyncDisks rest)

/-- `Bsync`. -/
def bsync (s : BlockSystem σ) : Option (BlockSystem σ) := bsyncDisks s.allDiskList s

end BlockSystem

end XBook
