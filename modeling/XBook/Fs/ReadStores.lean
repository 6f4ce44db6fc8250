import XBook.Fs.FileRead
import XBook.Fs.FileCalls
import XBook.Fs.Pipe

/-!
# What a read stores

`BOFS_Read` of `fs/bofs/file.c` with the readers of the five kinds of files, down to the drivers of
the RAM disk and of the IDE disks. A read gives the bytes that it stores from `buf` on.
`read_stores` says how many these are, and that they are those of the file.
-/

namespace XBook.Reads

open Bofs (Mounted Inode fileRead file_read_loop bytesWanted)
open Calls (oRdonly oRdwr imodeR)
open Pipes (pipeSize)

/-- A regular file at a position, with what `BOFS_FileRead` finds in memory. -/
structure RegularFile where
  fs : Mounted
  inode : Inode
  pos : UInt32
  sectorLba : Nat
  iobuf : Bool
  blockSize_eq : fs.sb.blockSize = XBook.blockSize

/-- A character device: what its `getc` returns, unless `DeviceGetc` fails before, and the stack
behind the variable for it. -/
structure CharFile where
  getc : Option UInt32
  stack : Nat → UInt8

/-- `MAX_SECTORS`, the size of a RAM disk. -/
def maxSectors : UInt32 := 10240

/-- The driver of a block device. An IDE disk transfers sectors through its port until `BusyWait`
returns an error. -/
inductive BlockDriver where
  | ramdisk (data : Nat → UInt8)
  | ide (size : UInt32) (busyWait : Nat → Bool) (port : Nat → UInt8)

/-- A block device at a position. `DeviceRead` may find no driver. -/
structure BlockFile where
  driver : Option BlockDriver
  pos : UInt32

/-- A queue: the bytes that `IoQueueGet` gives to the call before it waits for ever, and the length
that the call reads. -/
structure Queue where
  writeReference : Int
  bytes : List UInt8
  size : Nat
  size_le : size ≤ pipeSize

/-- A file by its kind. -/
inductive FileKind where
  | normal (f : RegularFile)
  | char (f : CharFile)
  | block (f : BlockFile)
  | fifo (q : Queue)
  | pipe (q : Queue)

/-- An open file. -/
structure OpenFile where
  flags : UInt32
  mode : UInt32
  kind : FileKind

/-- The bytes that a call stores, and its result. A call that waits for ever has none. -/
abbrev Stores := List UInt8 × Option Int

/-- `BOFS_FileRead`. -/
def RegularFile.read (f : RegularFile) (count : UInt32) : Stores :=
  match fileRead f.fs f.inode f.pos count (fun _ => 0) f.sectorLba f.iobuf with
  | some (r, result) => ((List.range r.bytesRead).map r.dst, some result)
  | none => ([], none)

/-- The memory from a 32-bit variable on. -/
def bytesFrom (ret : UInt32) (stack : Nat → UInt8) (i : Nat) : UInt8 :=
  if i < 4 then UInt8.ofNat (ret.toNat / 2 ^ (8 * i)) else stack (i - 4)

/-- `DeviceGetc` with the `memcpy` behind it. -/
def CharFile.read (f : CharFile) (count : UInt32) : Stores :=
  let ret := f.getc.getD (-1)
  if ret ≠ 0 then ((List.range count.toNat).map (bytesFrom ret f.stack), some 0)
  else ([], some (-1))

/-- The sectors that come before an error. -/
def pioSectors (busyWait : Nat → Bool) : Nat → Nat
  | 0 => 0
  | count + 1 =>
      let done := pioSectors busyWait count
      if done = count ∧ busyWait count = false then count + 1 else done

/-- `RamdiskReadSector` and `IdeReadSector`. -/
def BlockDriver.readSector (lba count : UInt32) : BlockDriver → Stores
  | .ramdisk data =>
      if maxSectors < lba + count then ([], some (-1))
      else
        let start := (lba * 512).toNat
        ((List.range (count * 512).toNat).map fun i => data (start + i), some 0)
  | .ide size busyWait port =>
      if size < lba + count then ([], some (-1))
      else
        let sectors := pioSectors busyWait count.toNat
        ((List.range (512 * sectors)).map port, some (if sectors = count.toNat then 0 else -1))

/-- `DeviceRead`. -/
def BlockFile.read (f : BlockFile) (count : UInt32) : Stores :=
  match f.driver with
  | none => ([], some (-1))
  | some driver => driver.readSector f.pos count

/-- The loop that gets a number of bytes. -/
def Queue.gets (q : Queue) (n : Nat) : Stores :=
  (q.bytes.take n, if n ≤ q.bytes.length then some n else none)

/-- `BOFS_FifoRead`. -/
def Queue.fifoRead (q : Queue) (count : UInt32) : Stores :=
  if q.writeReference > 0 then q.gets (1 + min (count - 1).toNat q.size)
  else q.gets (min count.toNat q.size)

/-- `BOFS_PipeRead`. Without a writer it does not look at `count`. -/
def Queue.pipeRead (q : Queue) (count : UInt32) : Stores :=
  if q.writeReference > 0 then q.gets (1 + min (count - 1).toNat q.size)
  else q.gets q.size

/-- The tests of the flags and of the mode before a reader is called. -/
def OpenFile.checked (f : OpenFile) (stores : Stores) : Stores :=
  if f.flags &&& oRdonly = 0 ∧ f.flags &&& oRdwr = 0 then ([], some (-1))
  else if f.mode &&& imodeR = 0 then ([], some (-1))
  else stores

/-- `BOFS_Read` of an open file. A pipe has no inode, and its flags are not tested. -/
def OpenFile.read (f : OpenFile) (count : UInt32) : Stores :=
  if count = 0 then ([], some (-1))
  else
    match f.kind with
    | .pipe q => q.pipeRead count
    | .normal g => f.checked (g.read count)
    | .char g => f.checked (g.read count)
    | .block g => f.checked (g.read count)
    | .fifo q => f.checked (q.fifoRead count)

/-! ## The bytes of a file -/

/-- The byte of the file for a place of the buffer. -/
def FileKind.content (i : Nat) : FileKind → Option UInt8
  | .normal f =>
      if f.pos.toNat + i < f.inode.size.toNat then f.fs.fileByte f.inode (f.pos.toNat + i) else none
  | .char f => if i < 4 then f.getc.map fun ret => bytesFrom ret f.stack i else none
  | .block f => f.driver.bind fun driver =>
      match driver with
      | .ramdisk data =>
          let place := 512 * f.pos.toNat + i
          if place < 512 * maxSectors.toNat then some (data place) else none
      | .ide _ _ port => some (port i)
  | .fifo q | .pipe q => q.bytes[i]?

/-- The bytes that a count stands for: a block device counts sectors. -/
def FileKind.limit (count : UInt32) : FileKind → Nat
  | .block _ => 512 * count.toNat
  | .normal _ | .char _ | .fifo _ | .pipe _ => count.toNat

/-- The requests that the readers are made for. -/
def FileKind.Regular (count : UInt32) : FileKind → Prop
  | .normal f => f.pos ≤ f.inode.size ∧ f.pos.toNat + count.toNat < 2 ^ 32 ∧
      ∀ i < f.inode.size.toNat, (f.fs.fileByte f.inode i).isSome = true
  | .char f => count.toNat ≤ 4 ∧ f.getc.isSome = true
  | .block f => ∀ data, f.driver = some (.ramdisk data) → f.pos.toNat + count.toNat < 2 ^ 32
  | .fifo _ => True
  | .pipe q => q.writeReference > 0

/-- The stored bytes are no more than the limit, and each is the one of the file for its place. -/
structure Confined (content : Nat → Option UInt8) (limit : Nat) (stored : List UInt8) : Prop where
  bound : stored.length ≤ limit
  origin : ∀ i < stored.length, content i = stored[i]?

variable {content : Nat → Option UInt8} {limit : Nat}

/-- Nothing is stored. -/
theorem confined_nil : Confined content limit [] := by
  constructor
  · exact Nat.zero_le _
  · intro i hi
    exact absurd hi (Nat.not_lt_zero i)

/-- Bytes are copied from places of the memory. -/
theorem confined_map {n : Nat} {source : Nat → UInt8} (hn : n ≤ limit)
    (horigin : ∀ i < n, content i = some (source i)) :
    Confined content limit ((List.range n).map source) := by
  constructor
  · rw [List.length_map, List.length_range]
    exact hn
  · intro i hi
    rw [List.length_map, List.length_range] at hi
    rw [horigin i hi, List.getElem?_map, List.getElem?_range hi, Option.map_some]

/-- Bytes come out of a queue. -/
theorem confined_gets (q : Queue) {n : Nat} (hn : n ≤ limit) :
    Confined (fun i => q.bytes[i]?) limit (q.gets n).1 := by
  constructor
  · exact (List.length_take_le _ _).trans hn
  · intro i hi
    rw [Queue.gets, List.length_take] at hi
    rw [Queue.gets, List.getElem?_take_of_lt (by omega)]

/-- The first byte, and no more than the count without it. -/
theorem first_and_rest (q : Queue) {count : UInt32} (hcount : count ≠ 0) :
    Confined (fun i => q.bytes[i]?) count.toNat (q.gets (1 + min (count - 1).toNat q.size)).1 := by
  have hone : 1 ≤ count.toNat := by
    rw [Nat.one_le_iff_ne_zero]
    exact fun h => hcount (UInt32.toNat_inj.mp h)
  have hrest : (count - 1).toNat = count.toNat - 1 :=
    UInt32.toNat_sub_of_le _ _ (UInt32.le_iff_toNat_le.mpr hone)
  exact confined_gets q (by omega)

/-- No more sectors come than are asked for. -/
theorem pio_sectors_le (busyWait : Nat → Bool) (count : Nat) : pioSectors busyWait count ≤ count := by
  induction count with
  | zero => exact Nat.le_refl _
  | succ count ih =>
      simp only [pioSectors]
      split
      · exact Nat.le_refl _
      · omega

/-- A regular file gives its bytes. -/
theorem normal_confined (f : RegularFile) {count : UInt32} (hcount : count ≠ 0)
    (h : (FileKind.normal f).Regular count) :
    Confined (fun i => (FileKind.normal f).content i) count.toNat (f.read count).1 := by
  obtain ⟨hpos, hfits, hthere⟩ := h
  cases hio : f.iobuf with
  | false =>
      have hnone : ∃ r result, r.bytesRead = 0 ∧
          fileRead f.fs f.inode f.pos count (fun _ => 0) f.sectorLba false = some (r, result) := by
        simp only [fileRead, if_true, ite_self]
        exact ⟨_, _, rfl, rfl⟩
      obtain ⟨r, result, hzero, hcall⟩ := hnone
      rw [RegularFile.read, hio, hcall]
      simp only [hzero]
      exact confined_nil
  | true =>
      by_cases hend : f.pos = f.inode.size
      · -- at the end of the file there is nothing
        have hnone : ∃ r result, r.bytesRead = 0 ∧
            fileRead f.fs f.inode f.pos count (fun _ => 0) f.sectorLba true = some (r, result) := by
          have hpositive : 0 < count.toNat := Nat.pos_of_ne_zero fun h =>
            hcount (UInt32.toNat_inj.mp h)
          have hclip : f.inode.size < f.inode.size + count := by
            rw [UInt32.lt_iff_toNat_lt, UInt32.toNat_add, ← hend, Nat.mod_eq_of_lt hfits]
            omega
          simp only [fileRead, hend, hclip, if_true, UInt32.sub_self, and_self]
          exact ⟨_, _, rfl, rfl⟩
        obtain ⟨r, result, hzero, hcall⟩ := hnone
        rw [RegularFile.read, hio, hcall]
        simp only [hzero]
        exact confined_nil
      · have hblock : 0 < f.fs.sb.blockSize := by
          rw [f.blockSize_eq]
          decide
        have hlt : f.pos < f.inode.size := UInt32.lt_of_le_of_ne hpos hend
        obtain ⟨r, hcall, hread, hkeeps⟩ := file_read_loop (fun _ => 0) f.sectorLba
          hblock hlt (UInt32.pos_iff_ne_zero.mpr hcount)
        rw [if_pos hfits] at hread
        have hinv := hkeeps hfits (by
          intro i hi
          refine hthere _ ?_
          rw [bytesWanted] at hi
          omega)
        rw [RegularFile.read, hio, hcall]
        refine confined_map (by rw [hread, bytesWanted]; omega) ?_
        intro i hi
        have hinside : f.pos.toNat + i < f.inode.size.toNat := by
          rw [hread, bytesWanted] at hi
          omega
        rw [FileKind.content, if_pos hinside]
        exact hinv.content i hi

/-- A character device gives the bytes of one item. -/
theorem char_confined (f : CharFile) {count : UInt32} (h : (FileKind.char f).Regular count) :
    Confined (fun i => (FileKind.char f).content i) count.toNat (f.read count).1 := by
  obtain ⟨hfour, hitem⟩ := h
  obtain ⟨ret, hret⟩ := Option.isSome_iff_exists.mp hitem
  simp only [CharFile.read, hret, Option.getD_some]
  split
  · refine confined_map (Nat.le_refl _) ?_
    intro i hi
    simp only [FileKind.content, hret, if_pos (Nat.lt_of_lt_of_le hi hfour), Option.map_some]
  · exact confined_nil

/-- A block device gives its sectors. -/
theorem block_confined (f : BlockFile) {count : UInt32} (h : (FileKind.block f).Regular count) :
    Confined (fun i => (FileKind.block f).content i) (512 * count.toNat) (f.read count).1 := by
  simp only [BlockFile.read]
  cases hdriver : f.driver with
  | none => exact confined_nil
  | some driver =>
      cases driver with
      | ramdisk data =>
          have hfits := h data hdriver
          simp only [BlockDriver.readSector]
          split
          · exact confined_nil
          · next hin =>
              -- inside the disk nothing wraps
              rw [UInt32.lt_iff_toNat_lt, UInt32.toNat_add, Nat.mod_eq_of_lt hfits] at hin
              have hsize : maxSectors.toNat = 10240 := rfl
              have hmul : ∀ n : UInt32, n.toNat ≤ 10240 → (n * 512).toNat = 512 * n.toNat := by
                intro n hn
                rw [UInt32.toNat_mul, show (512 : UInt32).toNat = 512 from rfl]
                omega
              rw [hmul f.pos (by omega), hmul count (by omega)]
              refine confined_map (Nat.le_refl _) ?_
              intro i hi
              simp only [FileKind.content, hdriver, Option.bind_some]
              rw [if_pos (by omega)]
      | ide size busyWait port =>
          simp only [BlockDriver.readSector]
          split
          · exact confined_nil
          · refine confined_map (Nat.mul_le_mul_left _ (pio_sectors_le _ _)) ?_
            intro i hi
            simp only [FileKind.content, hdriver, Option.bind_some]

/-- A FIFO gives bytes of its queue. -/
theorem fifo_confined (q : Queue) {count : UInt32} (hcount : count ≠ 0) :
    Confined (fun i => q.bytes[i]?) count.toNat (q.fifoRead count).1 := by
  rw [Queue.fifoRead]
  split
  · exact first_and_rest q hcount
  · exact confined_gets q (Nat.min_le_left _ _)

/-- A pipe with a writer gives bytes of its queue. -/
theorem pipe_confined (q : Queue) {count : UInt32} (hcount : count ≠ 0)
    (h : q.writeReference > 0) :
    Confined (fun i => q.bytes[i]?) count.toNat (q.pipeRead count).1 := by
  rw [Queue.pipeRead, if_pos h]
  exact first_and_rest q hcount

/-- A call that is refused stores nothing. -/
theorem checked_confined (f : OpenFile) {stores : Stores} (h : Confined content limit stores.1) :
    Confined content limit (f.checked stores).1 := by
  rw [OpenFile.checked]
  split
  · exact confined_nil
  · split
    · exact confined_nil
    · exact h

/-- `BOFS_Read` stores no more bytes than the count stands for, and each of them is the one of the
file for its place, for the requests that the reader of the file is made for. -/
theorem read_stores (f : OpenFile) (count : UInt32) (hcount : count ≠ 0)
    (hregular : f.kind.Regular count) :
    Confined (fun i => f.kind.content i) (f.kind.limit count) (f.read count).1 := by
  rw [OpenFile.read, if_neg hcount]
  cases hkind : f.kind with
  | normal g =>
      rw [hkind] at hregular
      exact checked_confined f (normal_confined g hcount hregular)
  | char g =>
      rw [hkind] at hregular
      exact checked_confined f (char_confined g hregular)
  | block g =>
      rw [hkind] at hregular
      exact checked_confined f (block_confined g hregular)
  | fifo q => exact checked_confined f (fifo_confined q hcount)
  | pipe q =>
      rw [hkind] at hregular
      exact pipe_confined q hcount hregular

/-- A RAM disk that is opened for reading. -/
def openRamdisk : OpenFile where
  flags := oRdonly
  mode := imodeR
  kind := .block ⟨some (.ramdisk fun i => UInt8.ofNat i), 3⟩

/-- Two sectors are read. -/
theorem two_sectors_stored :
    Confined (fun i => openRamdisk.kind.content i) (openRamdisk.kind.limit 2)
      (openRamdisk.read 2).1 :=
  read_stores openRamdisk 2 (by decide) (by intro data hdriver; decide)

/-- A block device stores a sector for a count of one. -/
theorem sector_for_a_byte : ¬ ∀ (f : OpenFile) (count : UInt32), count ≠ 0 →
    Confined (fun i => f.kind.content i) count.toNat (f.read count).1 := by
  intro h
  have hbound := (h openRamdisk 1 (by decide)).bound
  have hlength : (openRamdisk.read 1).1.length = 512 := by
    simp [OpenFile.read, OpenFile.checked, openRamdisk, BlockFile.read, BlockDriver.readSector,
      maxSectors, oRdonly, imodeR]
  rw [hlength] at hbound
  exact absurd hbound (by decide)

end XBook.Reads
