import Mathlib.Data.Fin.VecNotation
import XBook.Kernel.BlockBuffer

/-!
# Transfers of an IDE disk

The PIO transfers of `drivers/ide.c` over an ATA controller: task file registers that keep the value
written before, a command that takes its first sector and its count from them, and a status that is
busy for a while and then asks for data or shows a fault. A command while data is pending has no
result. `moved` records the sectors in the order in which the controller moves them, each with its
place in the buffer.
-/

namespace XBook.Ide

/-- `ATA_STATUS_BUSY`, `ATA_STATUS_READY`, `ATA_STATUS_DF`, `ATA_STATUS_DRQ` and
`ATA_STATUS_ERR`. -/
abbrev statusBusy : UInt8 := 0x80
abbrev statusReady : UInt8 := 0x40
abbrev statusDf : UInt8 := 0x20
abbrev statusDrq : UInt8 := 0x08
abbrev statusErr : UInt8 := 0x01

/-- The types of a device, `IDE_ATA` and `IDE_ATAPI`. -/
inductive IdeType where
  | ata
  | atapi
  deriving DecidableEq

/-- `struct IdeDevice`. -/
structure IdeDevice where
  drive : Fin 2
  type : IdeType
  capabilities : UInt32
  size : UInt32

/-- The commands of `SelectCmd`, and the two that flush the cache. -/
inductive AtaCmd where
  | readPio
  | readPioExt
  | readDma
  | readDmaExt
  | writePio
  | writePioExt
  | writeDma
  | writeDmaExt
  | cacheFlush
  | cacheFlushExt
  deriving DecidableEq

/-! ## The controller -/

/-- The registers that are written before a command. -/
inductive AtaReg where
  | feature
  | sectorCnt
  | sectorLow
  | sectorMid
  | sectorHigh
  | device
  deriving DecidableEq

/-- What the status may show in place of a request for data. -/
inductive Fault where
  | err
  | df
  deriving DecidableEq

/-- How a controller behaves: for how many reads its status is busy after each command and each
sector, and which of the sectors are faulty. -/
structure AtaBehaviour where
  delay : Nat → Nat
  fault : Nat → Option Fault

/-- A controller. Each register holds its value and the one before. `next` and `left` are the
sectors that the command still has to move. -/
structure AtaController where
  regs : AtaReg → Nat × Nat
  next : Nat
  left : Nat
  busy : Nat
  events : Nat
  moved : List (Nat × Nat)

namespace AtaController

/-- `Out8` to a register. -/
def out8 (c : AtaController) (reg : AtaReg) (value : Nat) : AtaController :=
  { c with regs := Function.update c.regs reg (value % 256, (c.regs reg).1) }

def byte (c : AtaController) (reg : AtaReg) : Nat := (c.regs reg).1

/-- The value before, which the commands with 48-bit addresses use. -/
def prev (c : AtaController) (reg : AtaReg) : Nat := (c.regs reg).2

/-- The first sector of a command with a 28-bit address, or with cylinder, head and sector where bit
6 of the device register is clear. -/
def address28 (c : AtaController) : Nat :=
  let head := c.byte .device % 16
  if c.byte .device / 64 % 2 = 1 then
    c.byte .sectorLow + 2 ^ 8 * c.byte .sectorMid + 2 ^ 16 * c.byte .sectorHigh + 2 ^ 24 * head
  else
    ((c.byte .sectorMid + 2 ^ 8 * c.byte .sectorHigh) * 16 + head) * 63 + c.byte .sectorLow - 1

/-- The first sector of a command with a 48-bit address. -/
def address48 (c : AtaController) : Nat :=
  c.byte .sectorLow + 2 ^ 8 * c.byte .sectorMid + 2 ^ 16 * c.byte .sectorHigh +
    2 ^ 24 * c.prev .sectorLow + 2 ^ 32 * c.prev .sectorMid + 2 ^ 40 * c.prev .sectorHigh

/-- A count of 0 stands for the largest one. -/
def count28 (c : AtaController) : Nat :=
  if c.byte .sectorCnt = 0 then 256 else c.byte .sectorCnt

def count48 (c : AtaController) : Nat :=
  let n := c.byte .sectorCnt + 2 ^ 8 * c.prev .sectorCnt
  if n = 0 then 65536 else n

/-- The status while the drive is not busy. -/
def status (b : AtaBehaviour) (c : AtaController) : UInt8 :=
  if c.left = 0 then statusReady
  else
    match b.fault c.moved.length with
    | none => statusReady ||| statusDrq
    | some .err => statusReady ||| statusErr
    | some .df => statusReady ||| statusDf

/-- The drive is not busy any more. -/
def free (c : AtaController) : AtaController := { c with busy := 0 }

/-- `In8(ATA_REG_STATUS(channel))`. -/
def in8 (b : AtaBehaviour) (c : AtaController) : UInt8 × AtaController :=
  if c.busy = 0 then (c.status b, c) else (statusBusy, { c with busy := c.busy - 1 })

/-- The drive is busy after a command or a sector. -/
def work (b : AtaBehaviour) (c : AtaController) : AtaController :=
  { c with busy := b.delay c.events, events := c.events + 1 }

/-- `SendCmd`. -/
def sendCmd (b : AtaBehaviour) (c : AtaController) (cmd : AtaCmd) : Option AtaController :=
  if c.left ≠ 0 then none
  else
    match cmd with
    | .readPio | .writePio => some { c.work b with next := c.address28, left := c.count28 }
    | .readPioExt | .writePioExt => some { c.work b with next := c.address48, left := c.count48 }
    | .cacheFlush | .cacheFlushExt => some (c.work b)
    | .readDma | .readDmaExt | .writeDma | .writeDmaExt => none

/-- `ReadFromSector(dev, buf, 1)` and `Write2Sector(dev, buf, 1)`, with the place in the buffer. -/
def moveSector (b : AtaBehaviour) (c : AtaController) (place : Nat) : AtaController :=
  { c.work b with
    next := c.next + 1, left := c.left - 1, moved := c.moved ++ [(c.next, place)] }

/-- `ResetDriver`. -/
def reset (c : AtaController) : AtaController := { c with left := 0, busy := 0 }

end AtaController

/-! ## The driver -/

/-- `BusyWait` from the value of `timeLimit`, over any way to read the status. The loop only ends by
a result, since an unsigned `timeLimit` is never below 0. -/
def busyWait {C : Type*} (in8 : C → UInt8 × C) : Nat → UInt32 → C → Option (UInt8 × C)
  | 0, _, _ => none
  | fuel + 1, timeLimit, c =>
      let timeLimit := timeLimit - 1
      if 0 ≤ timeLimit then
        let r := in8 c
        if r.1 &&& statusBusy = 0 then
          let r := in8 r.2
          if r.1 &&& statusErr ≠ 0 then some (2, r.2)
          else if r.1 &&& statusDf ≠ 0 then some (1, r.2)
          else if r.1 &&& statusDrq ≠ 0 then some (0, r.2)
          else busyWait in8 fuel timeLimit r.2
        else busyWait in8 fuel timeLimit r.2
      else some (5, c)

/-- The value of `timeLimit`. -/
abbrev timeLimit : UInt32 := 10 * 1000 * 1000

variable (b : AtaBehaviour)

/-- A loop that reads the status until it is as wanted. -/
def pollStatus (wanted : UInt8 → Bool) : Nat → AtaController → Option AtaController
  | 0, _ => none
  | fuel + 1, c =>
      let r := c.in8 b
      if wanted r.1 then some r.2 else pollStatus wanted fuel r.2

/-- `while (In8(ATA_REG_STATUS(channel)) & ATA_STATUS_BUSY)`. -/
def notBusy (status : UInt8) : Bool := status &&& statusBusy = 0

/-- `while (!(In8(ATA_REG_STATUS(channel)) & ATA_STATUS_READY))`. -/
def ready (status : UInt8) : Bool := status &&& statusReady ≠ 0

/-- What `SelectAddressingMode` chooses. -/
structure Addressing where
  mode : Nat
  head : Nat
  io : Fin 6 → Nat

/-- `SelectAddressingMode`. -/
def selectAddressingMode (dev : IdeDevice) (lba : Nat) : Addressing :=
  if 0x10000000 ≤ lba ∧ dev.capabilities &&& 0x200 ≠ 0 then
    { mode := 2
      head := 0
      io := ![(lba &&& 0x000000FF) >>> 0, (lba &&& 0x0000FF00) >>> 8, (lba &&& 0x00FF0000) >>> 16,
        (lba &&& 0xFF000000) >>> 24, 0, 0] }
  else if dev.capabilities &&& 0x200 ≠ 0 then
    { mode := 1
      head := (lba &&& 0xF000000) >>> 24
      io := ![(lba &&& 0x00000FF) >>> 0, (lba &&& 0x000FF00) >>> 8, (lba &&& 0x0FF0000) >>> 16,
        0, 0, 0] }
  else
    let sect := lba % 63 + 1
    let cyl := wrapSub (wrap (lba + 1)) sect / (16 * 63) % 2 ^ 16
    { mode := 0
      head := wrapSub (wrap (lba + 1)) sect % (16 * 63) / 63
      io := ![sect, (cyl >>> 0) &&& 0xFF, (cyl >>> 8) &&& 0xFF, 0, 0, 0] }

/-- `ATA_MKDEV_REG`, which does not use its `lbaMode`. -/
def ataMkdevReg (_lbaMode slave head : Nat) : Nat := 0xA0 ||| 0x40 ||| (slave <<< 4) ||| head

/-- `SelectDevice`. -/
def selectDevice (dev : IdeDevice) (a : Addressing) (c : AtaController) : AtaController :=
  c.out8 .device (ataMkdevReg (if a.mode = 0 then 0 else 1) dev.drive a.head)

/-- `SelectSector`. -/
def selectSector (a : Addressing) (count : Nat) (c : AtaController) : AtaController :=
  let c := if a.mode = 2 then
      ((((c.out8 .feature 0).out8 .sectorCnt 0).out8 .sectorLow (a.io 3)).out8 .sectorMid
        (a.io 4)).out8 .sectorHigh (a.io 5)
    else c
  ((((c.out8 .feature 0).out8 .sectorCnt count).out8 .sectorLow (a.io 0)).out8 .sectorMid
    (a.io 1)).out8 .sectorHigh (a.io 2)

/-- `SelectCmd`. -/
def selectCmd (rw : BlockCmd) (mode : Nat) (dma : Bool) : AtaCmd :=
  match rw, dma with
  | .read, false => if mode = 2 then .readPioExt else .readPio
  | .read, true => if mode = 2 then .readDmaExt else .readDma
  | .write, false => if mode = 2 then .writePioExt else .writePio
  | .write, true => if mode = 2 then .writeDmaExt else .writeDma

/-- The loop of `PioDataTransfer`. -/
def pioLoop (fuel : Nat) : Nat → Nat → AtaController → Option (UInt8 × AtaController)
  | 0, _, c => some (0, c)
  | count + 1, place, c =>
      (busyWait (AtaController.in8 b) fuel timeLimit c).bind fun r =>
        if r.1 ≠ 0 then some (r.1, r.2.reset)
        else pioLoop fuel count (place + 1) (r.2.moveSector b place)

/-- `PioDataTransfer`. -/
def pioDataTransfer (fuel : Nat) (rw : BlockCmd) (mode place count : Nat) (c : AtaController) :
    Option (UInt8 × AtaController) :=
  (pioLoop b fuel count place c).bind fun r =>
    if r.1 ≠ 0 then some r
    else
      match rw with
      | .read => some r
      | .write =>
          (r.2.sendCmd b (if 1 < mode then .cacheFlushExt else .cacheFlush)).bind fun c =>
            (pollStatus b notBusy fuel c).map fun c => (0, c)

/-- One round of the loop of `AtaTypeTransfer`, up to its transfer. -/
def sendTransfer (fuel : Nat) (dev : IdeDevice) (rw : BlockCmd) (lba count : Nat)
    (c : AtaController) : Option AtaController :=
  let a := selectAddressingMode dev lba
  (pollStatus b notBusy fuel c).bind fun c =>
    (pollStatus b ready fuel (selectSector a count (selectDevice dev a c))).bind fun c =>
      (pollStatus b ready fuel c).bind fun c => c.sendCmd b (selectCmd rw a.mode false)

/-- The sectors of a round. -/
def todoOf (count done : Nat) : Nat := if wrap (done + 256) ≤ count then 256 else count - done

/-- The loop of `AtaTypeTransfer`. -/
def transferLoop (fuel : Nat) (dev : IdeDevice) (rw : BlockCmd) (lba count : Nat) :
    Nat → Nat → Nat → AtaController → Option (UInt8 × AtaController)
  | 0, _, _, _ => none
  | rounds + 1, done, place, c =>
      if done < count then
        (sendTransfer b fuel dev rw (wrap (lba + done)) count c).bind fun c =>
          (pioDataTransfer b fuel rw (selectAddressingMode dev (wrap (lba + done))).mode place
            (todoOf count done) c).bind fun r =>
              if r.1 ≠ 0 then some r
              else
                transferLoop fuel dev rw lba count rounds (wrap (done + todoOf count done))
                  (place + todoOf count done) r.2
      else some (0, c)

/-- A channel, with its lock. -/
structure IdeChannel where
  controller : AtaController
  locked : Bool

/-- `AtaTypeTransfer`, from a channel whose lock is free. -/
def ataTypeTransfer (fuel : Nat) (dev : IdeDevice) (rw : BlockCmd) (lba count : UInt32)
    (c : AtaController) : Option (UInt8 × IdeChannel) :=
  (transferLoop b fuel dev rw lba.toNat count.toNat fuel 0 0 c).map fun r =>
    if r.1 ≠ 0 then (r.1, ⟨r.2, true⟩) else (0, ⟨r.2, false⟩)

/-- The check of `IdeReadSector` and `IdeWriteSector`. -/
def InRange (dev : IdeDevice) (lba count : UInt32) : Prop :=
  ¬(dev.size < lba + count ∧ dev.type = .ata)

/-! ## Waiting -/

variable {b} {c c' : AtaController}

theorem status_not_busy (b : AtaBehaviour) (c : AtaController) : c.status b &&& statusBusy = 0 := by
  rw [AtaController.status]
  split
  · rfl
  · split <;> rfl

theorem status_ready (b : AtaBehaviour) (c : AtaController) : c.status b &&& statusReady ≠ 0 := by
  rw [AtaController.status]
  split
  · decide
  · split <;> decide

/-- Both loops over the status end where the drive is no longer busy. -/
theorem poll_status_eq {wanted : UInt8 → Bool} (hbusy : wanted statusBusy = false)
    (hfree : ∀ c : AtaController, wanted (c.status b) = true) (fuel : Nat) (c : AtaController) :
    pollStatus b wanted fuel c = if c.busy < fuel then some c.free else none := by
  induction fuel generalizing c with
  | zero => rfl
  | succ fuel ih =>
      rw [pollStatus, AtaController.in8]
      by_cases h0 : c.busy = 0
      · rw [if_pos h0]
        dsimp only
        rw [if_pos (hfree c), if_pos (by omega), AtaController.free, ← h0]
      · rw [if_neg h0]
        dsimp only
        rw [hbusy, if_neg Bool.false_ne_true, ih]
        dsimp only
        by_cases hlt : c.busy < fuel + 1
        · rw [if_pos hlt, if_pos (by omega)]
          rfl
        · rw [if_neg hlt, if_neg (by omega)]

theorem poll_not_busy (fuel : Nat) (c : AtaController) : pollStatus b notBusy fuel c =
    if c.busy < fuel then some c.free else none :=
  poll_status_eq rfl (fun c => decide_eq_true (status_not_busy b c)) fuel c

theorem poll_ready (fuel : Nat) (c : AtaController) : pollStatus b ready fuel c =
    if c.busy < fuel then some c.free else none :=
  poll_status_eq rfl (fun c => decide_eq_true (status_ready b c)) fuel c

theorem poll_ready_free {fuel : Nat} (hfuel : 0 < fuel) (hbusy : c.busy = 0) :
    pollStatus b ready fuel c = some c := by
  rw [poll_ready, hbusy, if_pos hfuel, AtaController.free, ← hbusy]

/-- The result of `BusyWait` for a sector. -/
def faultCode : Option Fault → UInt8
  | none => 0
  | some .err => 2
  | some .df => 1

theorem fault_code_eq_zero {fault : Option Fault} : faultCode fault = 0 ↔ fault = none := by
  cases fault with
  | none => exact iff_of_true rfl rfl
  | some f => cases f <;> exact iff_of_false (by decide) (Option.some_ne_none _)

/-- `BusyWait` while the drive is busy. -/
theorem busy_wait_busy (fuel : Nat) (limit : UInt32) (h : c.busy ≠ 0) :
    busyWait (AtaController.in8 b) (fuel + 1) limit c =
      busyWait (AtaController.in8 b) fuel (limit - 1) { c with busy := c.busy - 1 } := by
  rw [busyWait, AtaController.in8, if_neg h]
  dsimp only
  rw [if_pos (UInt32.le_iff_toNat_le.mpr (Nat.zero_le _)), if_neg (by decide)]

/-- With a sector to move `BusyWait` ends with its fault, if it has one. -/
theorem busy_wait_eq (hleft : c.left ≠ 0) (fuel : Nat) (limit : UInt32) :
    busyWait (AtaController.in8 b) fuel limit c =
      if c.busy < fuel then some (faultCode (b.fault c.moved.length), c.free)
      else none := by
  induction fuel generalizing c limit with
  | zero => rfl
  | succ fuel ih =>
      by_cases h0 : c.busy = 0
      · have hread : c.in8 b = (c.status b, c) := if_pos h0
        have hsame : c.free = c := by rw [AtaController.free, ← h0]
        rw [if_pos (by omega), hsame, busyWait, hread]
        dsimp only
        rw [if_pos (UInt32.le_iff_toNat_le.mpr (Nat.zero_le _)), if_pos (status_not_busy b c),
          hread]
        dsimp only
        rw [AtaController.status, if_neg hleft]
        cases b.fault c.moved.length with
        | none =>
            dsimp only
            rw [if_neg (by decide), if_neg (by decide), if_pos (by decide)]
            rfl
        | some f =>
            cases f with
            | err =>
                dsimp only
                rw [if_pos (by decide)]
                rfl
            | df =>
                dsimp only
                rw [if_neg (by decide), if_pos (by decide)]
                rfl
      · rw [busy_wait_busy fuel limit h0, ih (c := { c with busy := c.busy - 1 }) hleft]
        dsimp only
        by_cases hlt : c.busy < fuel + 1
        · rw [if_pos hlt, if_pos (by omega)]
          rfl
        · rw [if_neg hlt, if_neg (by omega)]

/-- Without one it does not end. -/
theorem busy_wait_none (hleft : c.left = 0) (fuel : Nat) (limit : UInt32) :
    busyWait (AtaController.in8 b) fuel limit c = none := by
  induction fuel generalizing c limit with
  | zero => rfl
  | succ fuel ih =>
      by_cases h0 : c.busy = 0
      · have hread : c.in8 b = (statusReady, c) := by
          rw [AtaController.in8, if_pos h0, AtaController.status, if_pos hleft]
        rw [busyWait, hread]
        dsimp only
        rw [if_pos (UInt32.le_iff_toNat_le.mpr (Nat.zero_le _)), if_pos (by decide), hread]
        dsimp only
        rw [if_neg (by decide), if_neg (by decide), if_neg (by decide)]
        exact ih hleft (limit - 1)
      · rw [busy_wait_busy fuel limit h0]
        exact ih (c := { c with busy := c.busy - 1 }) hleft _

/-! ## Commands -/

/-- The sectors of a command whose count register is given this count. -/
def programmed (mode count : Nat) : Nat :=
  if count % 256 = 0 then (if mode = 2 then 65536 else 256) else count % 256

/-- The first sector of the command of a round. -/
def startOf (dev : IdeDevice) (lba count : Nat) (c : AtaController) : Nat :=
  let a := selectAddressingMode dev lba
  let c := selectSector a count (selectDevice dev a c)
  if a.mode = 2 then c.address48 else c.address28

theorem select_count28 (dev : IdeDevice) (a : Addressing) (count : Nat) (c : AtaController)
    (hmode : a.mode ≠ 2) :
    (selectSector a count (selectDevice dev a c)).count28 = programmed a.mode count := by
  simp [selectSector, selectDevice, AtaController.count28, AtaController.byte, AtaController.out8,
    programmed, hmode]

theorem select_count48 (dev : IdeDevice) (a : Addressing) (count : Nat) (c : AtaController)
    (hmode : a.mode = 2) :
    (selectSector a count (selectDevice dev a c)).count48 = programmed a.mode count := by
  simp [selectSector, selectDevice, AtaController.count48, AtaController.byte, AtaController.prev,
    AtaController.out8, programmed, hmode]

/-- A part of a number, cut out by a mask. -/
theorem masked_part (n width shift : Nat) :
    (n &&& ((2 ^ width - 1) <<< shift)) >>> shift = n / 2 ^ shift % 2 ^ width := by
  rw [Nat.shiftRight_and_distrib, Nat.shiftLeft_shiftRight, Nat.and_two_pow_sub_one_eq_mod,
    Nat.shiftRight_eq_div_pow]

/-- Bit 6 of the device register is set, and its low bits are the head. -/
theorem mkdev_reg (lbaMode : Nat) (drive : Fin 2) {head : Nat} (hhead : head < 16) :
    ataMkdevReg lbaMode drive head % 256 / 64 % 2 = 1 ∧
      ataMkdevReg lbaMode drive head % 256 % 16 = head := by
  have hall : ∀ (drive : Fin 2) (head : Fin 16), ataMkdevReg 0 drive head % 256 / 64 % 2 = 1 ∧
      ataMkdevReg 0 drive head % 256 % 16 = head := by decide
  exact hall drive ⟨head, hhead⟩

/-- With a 28-bit address the drive reads the registers as one number, whatever the mode. -/
theorem select_address28 (dev : IdeDevice) (a : Addressing) (count : Nat) (c : AtaController)
    (hmode : a.mode ≠ 2) (hhead : a.head < 16) :
    (selectSector a count (selectDevice dev a c)).address28 =
      a.io 0 % 256 + 2 ^ 8 * (a.io 1 % 256) + 2 ^ 16 * (a.io 2 % 256) + 2 ^ 24 * a.head := by
  obtain ⟨hbit, hlow⟩ := mkdev_reg (if a.mode = 0 then 0 else 1) dev.drive hhead
  simp only [selectSector, selectDevice, AtaController.address28, AtaController.byte,
    AtaController.out8, if_neg hmode, ne_eq, reduceCtorEq, not_false_eq_true,
    Function.update_of_ne, Function.update_self, hbit, hlow, if_true]

theorem select_address48 (dev : IdeDevice) (a : Addressing) (count : Nat) (c : AtaController)
    (hmode : a.mode = 2) : (selectSector a count (selectDevice dev a c)).address48 =
      a.io 0 % 256 + 2 ^ 8 * (a.io 1 % 256) + 2 ^ 16 * (a.io 2 % 256) +
        2 ^ 24 * (a.io 3 % 256) + 2 ^ 32 * (a.io 4 % 256) + 2 ^ 40 * (a.io 5 % 256) := by
  simp only [selectSector, selectDevice, AtaController.address48, AtaController.byte,
    AtaController.prev, AtaController.out8, if_pos hmode, ne_eq, reduceCtorEq, not_false_eq_true,
    Function.update_of_ne, Function.update_self]

/-- The modes of a drive that supports LBA. -/
theorem lba_mode {dev : IdeDevice} (hlba : dev.capabilities &&& 0x200 ≠ 0) (lba : Nat) :
    (selectAddressingMode dev lba).mode = if 2 ^ 28 ≤ lba then 2 else 1 := by
  rw [selectAddressingMode]
  by_cases hhigh : 2 ^ 28 ≤ lba
  · rw [if_pos ⟨hhigh, hlba⟩, if_pos hhigh]
  · rw [if_neg fun h => hhigh h.1, if_pos hlba, if_neg hhigh]

/-- The lower bits of a number with the next ones above them. -/
theorem low_part (n k m : Nat) : n % 2 ^ k + 2 ^ k * (n / 2 ^ k % 2 ^ m) = n % 2 ^ (k + m) := by
  rw [Nat.pow_add]
  exact Nat.mod_mul.symm

/-- A drive that supports LBA begins with the sector that it is given. -/
theorem start_of_lba {dev : IdeDevice} (hlba : dev.capabilities &&& 0x200 ≠ 0) {lba : Nat}
    (hlt : lba < 2 ^ 32) (count : Nat) (c : AtaController) : startOf dev lba count c = lba := by
  have h0 : (lba &&& 0x000000FF) >>> 0 = lba / 2 ^ 0 % 2 ^ 8 := masked_part lba 8 0
  have h1 : (lba &&& 0x0000FF00) >>> 8 = lba / 2 ^ 8 % 2 ^ 8 := masked_part lba 8 8
  have h2 : (lba &&& 0x00FF0000) >>> 16 = lba / 2 ^ 16 % 2 ^ 8 := masked_part lba 8 16
  have h3 : (lba &&& 0xFF000000) >>> 24 = lba / 2 ^ 24 % 2 ^ 8 := masked_part lba 8 24
  have h4 : (lba &&& 0xF000000) >>> 24 = lba / 2 ^ 24 % 2 ^ 4 := masked_part lba 4 24
  have hmode := lba_mode hlba lba
  rw [startOf]
  by_cases hhigh : 2 ^ 28 ≤ lba
  · rw [if_pos hhigh] at hmode
    rw [if_pos hmode, select_address48 dev _ count c hmode, selectAddressingMode,
      if_pos ⟨hhigh, hlba⟩]
    show (lba &&& 0x000000FF) >>> 0 % 2 ^ 8 + 2 ^ 8 * ((lba &&& 0x0000FF00) >>> 8 % 2 ^ 8) +
      2 ^ 16 * ((lba &&& 0x00FF0000) >>> 16 % 2 ^ 8) +
        2 ^ 24 * ((lba &&& 0xFF000000) >>> 24 % 2 ^ 8) = lba
    rw [h0, h1, h2, h3, Nat.mod_mod, Nat.mod_mod, Nat.mod_mod, Nat.mod_mod, pow_zero, Nat.div_one,
      low_part lba 8 8, low_part lba 16 8, low_part lba 24 8]
    exact Nat.mod_eq_of_lt hlt
  · rw [if_neg hhigh] at hmode
    have hne : (selectAddressingMode dev lba).mode ≠ 2 := by
      rw [hmode]
      decide
    have hform : selectAddressingMode dev lba =
        { mode := 1
          head := (lba &&& 0xF000000) >>> 24
          io := ![(lba &&& 0x00000FF) >>> 0, (lba &&& 0x000FF00) >>> 8,
            (lba &&& 0x0FF0000) >>> 16, 0, 0, 0] } := by
      rw [selectAddressingMode, if_neg fun h => hhigh h.1, if_pos hlba]
    have hhead : (selectAddressingMode dev lba).head < 16 := by
      rw [hform]
      show (lba &&& 0xF000000) >>> 24 < 16
      rw [h4]
      exact Nat.mod_lt _ (by decide)
    rw [if_neg hne, select_address28 dev _ count c hne hhead, hform]
    show (lba &&& 0x00000FF) >>> 0 % 2 ^ 8 + 2 ^ 8 * ((lba &&& 0x000FF00) >>> 8 % 2 ^ 8) +
      2 ^ 16 * ((lba &&& 0x0FF0000) >>> 16 % 2 ^ 8) + 2 ^ 24 * ((lba &&& 0xF000000) >>> 24) = lba
    rw [h0, h1, h2, h4, Nat.mod_mod, Nat.mod_mod, Nat.mod_mod, pow_zero, Nat.div_one,
      low_part lba 8 8, low_part lba 16 8, low_part lba 24 4]
    exact Nat.mod_eq_of_lt (not_le.mp hhigh)

/-- A cylinder of which 16 bits are left, a head and a sector are no number that they stand for. -/
theorem chs_number_ne {head cyl : Nat} (sect rounds : Nat) (hhead : head < 16) (hcyl : cyl < 2 ^ 16) :
    sect + 1 + 2 ^ 8 * cyl + 2 ^ 24 * head ≠
      63 * (16 * (2 ^ 16 * rounds + cyl) + head) + sect := by
  intro heq
  -- only the last head agrees with the sector modulo 16
  have hlast : head = 15 := by omega
  omega

/-- Cylinder, head and sector, read as one number, never are the sector itself. -/
theorem chs_ne_lba (lba : Nat) : (lba % 63 + 1) % 256 +
    2 ^ 8 * ((lba - lba % 63) / 1008 % 2 ^ 16 % 256 % 256) +
      2 ^ 16 * ((lba - lba % 63) / 1008 % 2 ^ 16 / 2 ^ 8 % 256 % 256) +
        2 ^ 24 * ((lba - lba % 63) % 1008 / 63) ≠ lba := by
  have htrack : lba - lba % 63 = 63 * (lba / 63) := by omega
  have hcyl : 63 * (lba / 63) / 1008 = lba / 63 / 16 :=
    Nat.mul_div_mul_left _ 16 (by decide : 0 < 63)
  have hhead : 63 * (lba / 63) % 1008 / 63 = lba / 63 % 16 := by
    rw [show 1008 = 63 * 16 from rfl, Nat.mul_mod_mul_left]
    exact Nat.mul_div_cancel_left _ (by decide)
  have hbytes : ∀ v : Nat, 2 ^ 8 * (v % 2 ^ 16 % 256 % 256) +
      2 ^ 16 * (v % 2 ^ 16 / 2 ^ 8 % 256 % 256) = 2 ^ 8 * (v % 2 ^ 16) := by
    intro v
    omega
  have hsect : (lba % 63 + 1) % 256 = lba % 63 + 1 := Nat.mod_eq_of_lt (by omega)
  rw [htrack, hcyl, hhead, Nat.add_assoc ((lba % 63 + 1) % 256), hbytes, hsect]
  intro heq
  refine chs_number_ne (lba % 63) (lba / 63 / 16 / 2 ^ 16) (Nat.mod_lt (lba / 63) (by decide))
    (Nat.mod_lt (lba / 63 / 16) (by decide)) (heq.trans ?_)
  rw [Nat.div_add_mod, Nat.div_add_mod, Nat.div_add_mod]

/-- A drive that does not begins with another sector, because bit 6 tells it that the cylinder, the
head and the sector are an LBA. -/
theorem start_of_chs {dev : IdeDevice} (hchs : dev.capabilities &&& 0x200 = 0) {lba : Nat}
    (hlt : lba < 2 ^ 32) (count : Nat) (c : AtaController) : startOf dev lba count c ≠ lba := by
  have htrack : wrapSub (wrap (lba + 1)) (lba % 63 + 1) = lba - lba % 63 := by
    rw [wrapSub, wrap, wrap]
    omega
  have hlow : ∀ n : Nat, n &&& 0xFF = n % 256 := fun n => Nat.and_two_pow_sub_one_eq_mod n 8
  have hform : selectAddressingMode dev lba =
      { mode := 0
        head := (lba - lba % 63) % 1008 / 63
        io := ![lba % 63 + 1, (lba - lba % 63) / 1008 % 2 ^ 16 % 256,
          (lba - lba % 63) / 1008 % 2 ^ 16 / 2 ^ 8 % 256, 0, 0, 0] } := by
    rw [selectAddressingMode, if_neg fun h => h.2 hchs, if_neg fun h => h hchs]
    dsimp only
    rw [htrack, Nat.shiftRight_eq_div_pow, Nat.shiftRight_eq_div_pow, hlow, hlow]
    rw [Nat.pow_zero, Nat.div_one]
  have hmode : (selectAddressingMode dev lba).mode ≠ 2 := by
    rw [hform]
    exact Nat.zero_ne_add_one 1
  have hhead : (selectAddressingMode dev lba).head < 16 := by
    rw [hform]
    show (lba - lba % 63) % 1008 / 63 < 16
    omega
  rw [startOf]
  rw [if_neg hmode, select_address28 dev _ count c hmode hhead, hform]
  exact chs_ne_lba lba

end XBook.Ide
