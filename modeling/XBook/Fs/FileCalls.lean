import XBook.Fs.FifoInode

/-!
# Calls on descriptors

`BOFS_Read`, `BOFS_Write`, `BOFS_Lseek`, `BOFS_Ioctl` and `BOFS_Close` of `fs/bofs/file.c`, with the
translation of the descriptor. What they call for an open file is a parameter. `rejected_iff` says
which of them reject a descriptor that is not open.
-/

namespace XBook.Calls

open Files (maxFdNr maxOpenFiles fdFree flagsPipe)
open Fifos (typeNormal typeFifo)

/-- `BOFS_O_RDONLY`. -/
abbrev oRdonly : UInt32 := 0x01

/-- `BOFS_O_WRONLY`. -/
abbrev oWronly : UInt32 := 0x02

/-- `BOFS_O_RDWR`. -/
abbrev oRdwr : UInt32 := 0x04

/-- `BOFS_IMODE_R`. -/
abbrev imodeR : UInt32 := 0x01

/-- `BOFS_IMODE_W`. -/
abbrev imodeW : UInt32 := 0x02

/-- `BOFS_FILE_TYPE_BLOCK`. -/
abbrev typeBlock : UInt16 := 0x08

/-- `BOFS_FILE_TYPE_CHAR`. -/
abbrev typeChar : UInt16 := 0x10

/-- An inode in memory. The device number or the FIFO of a special file is its first block. -/
structure Inode where
  mode : UInt32
  size : UInt32
  block0 : UInt32

/-- `struct BOFS_FileDescriptor`. A pipe has neither an entry nor an inode. -/
structure OpenFile where
  flags : UInt32
  pos : UInt32
  reference : Int
  type : Option UInt16
  inode : Option Inode

/-- The table of the current task, the global table, and the rest of the system. -/
structure CallState (σ : Type) where
  fdTable : Fin maxOpenFiles → Option (Fin maxFdNr)
  globalFdTable : Fin maxFdNr → OpenFile
  system : σ

/-- What ends a call before it returns. -/
inductive Fault where
  | assertionFailure
  | outsideTable (globalFd : UInt32)
  | nullPointer
  deriving DecidableEq, Repr

variable {σ : Type}

/-- A call that returns, or a fault. -/
abbrev Outcome := Except Fault

/-- The functions for the kinds of files, from a global descriptor, a buffer and a count. -/
structure Handlers (σ : Type) where
  pipeRead : CallState σ → Fin maxFdNr → UInt32 → UInt32 → CallState σ × Int
  pipeWrite : CallState σ → Fin maxFdNr → UInt32 → UInt32 → CallState σ × Int
  pipeClose : CallState σ → Fin maxFdNr → CallState σ
  fileRead : CallState σ → Fin maxFdNr → UInt32 → UInt32 → CallState σ × Int
  fileWrite : CallState σ → Fin maxFdNr → UInt32 → UInt32 → CallState σ × Int
  fifoRead : CallState σ → Fin maxFdNr → UInt32 → UInt32 → CallState σ × Int
  fifoWrite : CallState σ → Fin maxFdNr → UInt32 → UInt32 → CallState σ × Int
  fifoClose : CallState σ → UInt32 → CallState σ
  deviceGetc : CallState σ → UInt32 → CallState σ × Int
  devicePutc : CallState σ → UInt32 → UInt32 → CallState σ × Int
  deviceRead : CallState σ → UInt32 → UInt32 → UInt32 → UInt32 → CallState σ × Int
  deviceWrite : CallState σ → UInt32 → UInt32 → UInt32 → UInt32 → CallState σ × Int
  deviceIoctl : CallState σ → UInt32 → Int → Int → CallState σ × Int
  deviceClose : CallState σ → UInt32 → CallState σ
  /-- `memcpy` of the bytes from the variable `ret` on. -/
  copyRet : CallState σ → UInt32 → Int → UInt32 → CallState σ
  blockSync : CallState σ → CallState σ
  closeFile : CallState σ → Fin maxFdNr → CallState σ × Int

namespace CallState

/-- `FdLocal2Global`, for an index of the table. The result is converted to `unsigned int`. -/
def fdLocal2Global (s : CallState σ) (localFd : Fin maxOpenFiles) : UInt32 :=
  match s.fdTable localFd with
  | none => -1
  | some globalFd => UInt32.ofNat globalFd.val

/-- An access to `BOFS_GlobalFdTable`. -/
def entry (s : CallState σ) (globalFd : UInt32) : Outcome (Fin maxFdNr × OpenFile) :=
  if h : globalFd.toNat < maxFdNr then
    .ok (⟨globalFd.toNat, h⟩, s.globalFdTable ⟨globalFd.toNat, h⟩)
  else .error (.outsideTable globalFd)

/-- `BOFS_GlobalFdHasFlags`. -/
def globalFdHasFlags (s : CallState σ) (globalFd flags : UInt32) : Outcome UInt32 :=
  if globalFd.toNat < maxFdNr then do
    let (_, file) ← s.entry globalFd
    return file.flags &&& flags
  else .error .assertionFailure

/-- `BOFS_IsPipe`. -/
def isPipe (s : CallState σ) (localFd : Fin maxOpenFiles) : Outcome Bool := do
  let flags ← s.globalFdHasFlags (s.fdLocal2Global localFd) flagsPipe
  return flags != 0

end CallState

/-- The use of a pointer. -/
def deref {α : Type} : Option α → Outcome α
  | none => .error .nullPointer
  | some a => .ok a

/-- The check of a descriptor against `MAX_OPEN_FILES_IN_PROC`. -/
def inTable (fd : Int) : Option (Fin maxOpenFiles) :=
  if h : fd.toNat < maxOpenFiles ∧ 0 ≤ fd then some ⟨fd.toNat, h.1⟩ else none

/-- `BOFS_Read`. -/
def read (h : Handlers σ) (s : CallState σ) (fd : Int) (buf count : UInt32) :
    Outcome (CallState σ × Int) :=
  match inTable fd with
  | none => .ok (s, -1)
  | some localFd =>
      if count = 0 then .ok (s, -1)
      else do
        if ← s.isPipe localFd then
          let (globalFd, _) ← s.entry (s.fdLocal2Global localFd)
          return h.pipeRead s globalFd buf count
        let (globalFd, rdFile) ← s.entry (s.fdLocal2Global localFd)
        if rdFile.flags &&& oRdonly = 0 ∧ rdFile.flags &&& oRdwr = 0 then
          return (s, -1)
        let inode ← deref rdFile.inode
        if inode.mode &&& imodeR = 0 then
          return (s, -1)
        let type ← deref rdFile.type
        if type = typeNormal then
          return h.fileRead s globalFd buf count
        else if type = typeChar then
          let (s, ret) := h.deviceGetc s inode.block0
          return if ret ≠ 0 then (h.copyRet s buf ret count, 0) else (s, -1)
        else if type = typeBlock then
          let (s, ret) := h.deviceRead s inode.block0 rdFile.pos buf count
          return if ret = -1 then (s, -1) else (s, 0)
        else if type = typeFifo then
          return h.fifoRead s globalFd buf count
        else
          return (s, -1)

/-- The loop of `BOFS_Write` over the characters of the buffer. -/
def putChars (h : Handlers σ) (device : UInt32) :
    Nat → UInt32 → CallState σ × Int → CallState σ × Int
  | 0, _, result => result
  | count + 1, p, (s, _) =>
      let (s, ret) := h.devicePutc s device p
      if ret = -1 then (s, -1) else putChars h device count (p + 1) (s, 0)

/-- `BOFS_Write`. -/
def write (h : Handlers σ) (s : CallState σ) (fd : Int) (buf count : UInt32) :
    Outcome (CallState σ × Int) :=
  if count = 0 then .ok (s, 0)
  else
    match inTable fd with
    | none => .ok (s, -1)
    | some localFd => do
        if ← s.isPipe localFd then
          let (globalFd, _) ← s.entry (s.fdLocal2Global localFd)
          return h.pipeWrite s globalFd buf count
        let (globalFd, wrFile) ← s.entry (s.fdLocal2Global localFd)
        if wrFile.flags &&& oWronly = 0 ∧ wrFile.flags &&& oRdwr = 0 then
          return (s, -1)
        let inode ← deref wrFile.inode
        if inode.mode &&& imodeW = 0 then
          return (s, -1)
        let type ← deref wrFile.type
        if type = typeNormal then
          return h.fileWrite s globalFd buf count
        else if type = typeChar then
          return putChars h inode.block0 count.toNat buf (s, -1)
        else if type = typeBlock then
          let (s, ret) := h.deviceWrite s inode.block0 wrFile.pos buf count
          return if ret ≠ 0 then (s, -1) else (s, 0)
        else if type = typeFifo then
          return h.fifoWrite s globalFd buf count
        else
          return (s, -1)

/-- The start that an offset of `BOFS_Lseek` counts from. An unknown `whence` gives 0. -/
def seekPos (file : OpenFile) (inode : Inode) (offset : Int32) (whence : UInt8) : Int32 :=
  if whence = 1 then offset
  else if whence = 2 then file.pos.toInt32 + offset
  else if whence = 3 then inode.size.toInt32 + offset
  else 0

/-- `BOFS_Lseek`. -/
def lseek (s : CallState σ) (fd : Int) (offset : Int32) (whence : UInt8) :
    Outcome (CallState σ × Int) :=
  match inTable fd with
  | none => .ok (s, -1)
  | some localFd => do
      let (globalFd, file) ← s.entry (s.fdLocal2Global localFd)
      if file.flags &&& flagsPipe ≠ 0 then
        return (s, -1)
      let inode ← deref file.inode
      let newPos := seekPos file inode offset whence
      let type ← deref file.type
      if type = typeNormal ∧ (newPos < 0 ∨ inode.size.toInt32 < newPos) then
        return (s, -1)
      let file := { file with pos := newPos.toUInt32 }
      let table := Function.update s.globalFdTable globalFd file
      return ({ s with globalFdTable := table }, newPos.toInt)

/-- `BOFS_Ioctl`. -/
def ioctl (h : Handlers σ) (s : CallState σ) (fd : Int) (cmd arg : Int) :
    Outcome (CallState σ × Int) :=
  match inTable fd with
  | none => .ok (s, -1)
  | some localFd => do
      let (_, file) ← s.entry (s.fdLocal2Global localFd)
      let type ← deref file.type
      if type = typeNormal then
        return (s, -1)
      else if type = typeBlock ∨ type = typeChar then
        let inode ← deref file.inode
        let (s, ret) := h.deviceIoctl s inode.block0 cmd arg
        return if ret ≠ 0 then (s, -1) else (s, 0)
      else
        return (s, 0)

/-- `BOFS_Close`, which looks at what the translation gives. -/
def close (h : Handlers σ) (s : CallState σ) (fd : Int) : Outcome (CallState σ × Int) :=
  match inTable fd with
  | none => .ok (s, -1)
  | some localFd =>
      if s.fdLocal2Global localFd = -1 then .ok (s, -1)
      else do
        let release (s : CallState σ) : CallState σ :=
          { s with fdTable := Function.update s.fdTable localFd none }
        let (globalFd, file) ← s.entry (s.fdLocal2Global localFd)
        if file.flags &&& flagsPipe ≠ 0 then
          return (release (h.pipeClose s globalFd), -1)
        let type ← deref file.type
        let s ← if type = typeBlock ∨ type = typeChar then
            (deref file.inode).map fun inode => h.deviceClose s inode.block0
          else if type = typeFifo then
            (deref file.inode).map fun inode => h.fifoClose s inode.block0
          else pure s
        let s := h.blockSync s
        let file := s.globalFdTable globalFd
        let file := { file with reference := file.reference - 1 }
        let s := { s with globalFdTable := Function.update s.globalFdTable globalFd file }
        if file.reference ≤ 0 then
          let (s, ret) := h.closeFile s globalFd
          let free : OpenFile :=
            { flags := fdFree, pos := 0, reference := file.reference, type := none, inode := none }
          return (release { s with
            globalFdTable := Function.update s.globalFdTable globalFd free }, ret)
        return (release s, 0)

/-! ## Descriptors that are not open -/

/-- A call on a descriptor. -/
inductive Call where
  | read (fd : Int) (buf count : UInt32)
  | write (fd : Int) (buf count : UInt32)
  | lseek (fd : Int) (offset : Int32) (whence : UInt8)
  | ioctl (fd : Int) (cmd arg : Int)
  | close (fd : Int)

namespace Call

def fd : Call → Int
  | .read fd _ _ | .write fd _ _ | .lseek fd _ _ | .ioctl fd _ _ | .close fd => fd

def run (h : Handlers σ) (s : CallState σ) : Call → Outcome (CallState σ × Int)
  | .read fd buf count => Calls.read h s fd buf count
  | .write fd buf count => Calls.write h s fd buf count
  | .lseek fd offset whence => Calls.lseek s fd offset whence
  | .ioctl fd cmd arg => Calls.ioctl h s fd cmd arg
  | .close fd => Calls.close h s fd

/-- The call returns -1 before it looks at the global table. -/
def Checked : Call → Prop
  | .read fd _ count => inTable fd = none ∨ count = 0
  | .write fd _ count => inTable fd = none ∧ count ≠ 0
  | .lseek fd _ _ | .ioctl fd _ _ => inTable fd = none
  | .close _ => True

end Call

/-- The descriptor is none of the open ones of the task. -/
def CallState.Unopened (s : CallState σ) (fd : Int) : Prop :=
  ∀ localFd, inTable fd = some localFd → s.fdTable localFd = none

/-- The call returns -1, with every access inside of the global table, and changes nothing. -/
def Rejected (h : Handlers σ) (s : CallState σ) (call : Call) : Prop := call.run h s = .ok (s, -1)

section

variable {h : Handlers σ} {s : CallState σ} {localFd : Fin maxOpenFiles}

theorem fd_local_2_global_none (hnone : s.fdTable localFd = none) :
    s.fdLocal2Global localFd = -1 := by
  rw [CallState.fdLocal2Global, hnone]

/-- The translated descriptor is used as an index. -/
theorem entry_none (hnone : s.fdTable localFd = none) :
    s.entry (s.fdLocal2Global localFd) = .error (.outsideTable (-1)) := by
  rw [fd_local_2_global_none hnone]
  rfl

/-- The test for a pipe fails its assertion. -/
theorem is_pipe_none (hnone : s.fdTable localFd = none) :
    s.isPipe localFd = .error .assertionFailure := by
  rw [CallState.isPipe, fd_local_2_global_none hnone]
  rfl

theorem read_unopened {fd : Int} (hclosed : s.Unopened fd) (buf count : UInt32) :
    read h s fd buf count = .ok (s, -1) ↔ inTable fd = none ∨ count = 0 := by
  rw [read]
  cases hfd : inTable fd with
  | none => exact iff_of_true rfl (.inl rfl)
  | some localFd =>
      dsimp only
      by_cases hcount : count = 0
      · rw [if_pos hcount]
        exact iff_of_true rfl (.inr hcount)
      · rw [if_neg hcount, is_pipe_none (hclosed localFd hfd)]
        exact iff_of_false (by rintro ⟨⟩) (not_or.mpr ⟨by rintro ⟨⟩, hcount⟩)

theorem write_unopened {fd : Int} (hclosed : s.Unopened fd) (buf count : UInt32) :
    write h s fd buf count = .ok (s, -1) ↔ inTable fd = none ∧ count ≠ 0 := by
  rw [write]
  by_cases hcount : count = 0
  · rw [if_pos hcount]
    refine iff_of_false ?_ fun hchecked => hchecked.2 hcount
    intro hzero
    cases hzero
  · rw [if_neg hcount]
    cases hfd : inTable fd with
    | none => exact iff_of_true rfl ⟨rfl, hcount⟩
    | some localFd =>
        dsimp only
        rw [is_pipe_none (hclosed localFd hfd)]
        exact iff_of_false (by rintro ⟨⟩) (by rintro ⟨⟨⟩, -⟩)

theorem lseek_unopened {fd : Int} (hclosed : s.Unopened fd) (offset : Int32) (whence : UInt8) :
    lseek s fd offset whence = .ok (s, -1) ↔ inTable fd = none := by
  rw [lseek]
  cases hfd : inTable fd with
  | none => exact iff_of_true rfl rfl
  | some localFd =>
      dsimp only
      rw [entry_none (hclosed localFd hfd)]
      exact iff_of_false (by rintro ⟨⟩) (by rintro ⟨⟩)

theorem ioctl_unopened {fd : Int} (hclosed : s.Unopened fd) (cmd arg : Int) :
    ioctl h s fd cmd arg = .ok (s, -1) ↔ inTable fd = none := by
  rw [ioctl]
  cases hfd : inTable fd with
  | none => exact iff_of_true rfl rfl
  | some localFd =>
      dsimp only
      rw [entry_none (hclosed localFd hfd)]
      exact iff_of_false (by rintro ⟨⟩) (by rintro ⟨⟩)

theorem close_unopened {fd : Int} (hclosed : s.Unopened fd) : close h s fd = .ok (s, -1) := by
  rw [close]
  cases hfd : inTable fd with
  | none => rfl
  | some localFd =>
      dsimp only
      rw [if_pos (fd_local_2_global_none (hclosed localFd hfd))]

end

/-- A descriptor that is not open is rejected if and only if the call does not come to translate
it, or is the close, which looks at the result. -/
theorem rejected_iff (h : Handlers σ) (s : CallState σ) (call : Call)
    (hclosed : s.Unopened call.fd) : Rejected h s call ↔ call.Checked := by
  cases call with
  | read fd buf count => exact read_unopened hclosed buf count
  | write fd buf count => exact write_unopened hclosed buf count
  | lseek fd offset whence => exact lseek_unopened hclosed offset whence
  | ioctl fd cmd arg => exact ioctl_unopened hclosed cmd arg
  | close fd => exact iff_of_true (close_unopened hclosed) trivial

/-- A task without open descriptors. -/
def nothingOpen : CallState Unit where
  fdTable := fun _ => none
  globalFdTable := fun _ => ⟨fdFree, 0, 0, none, none⟩
  system := ()

/-- Functions that change nothing. -/
def noHandlers : Handlers Unit where
  pipeRead := fun s _ _ _ => (s, 0)
  pipeWrite := fun s _ _ _ => (s, 0)
  pipeClose := fun s _ => s
  fileRead := fun s _ _ _ => (s, 0)
  fileWrite := fun s _ _ _ => (s, 0)
  fifoRead := fun s _ _ _ => (s, 0)
  fifoWrite := fun s _ _ _ => (s, 0)
  fifoClose := fun s _ => s
  deviceGetc := fun s _ => (s, 0)
  devicePutc := fun s _ _ => (s, 0)
  deviceRead := fun s _ _ _ _ => (s, 0)
  deviceWrite := fun s _ _ _ _ => (s, 0)
  deviceIoctl := fun s _ _ _ => (s, 0)
  deviceClose := fun s _ => s
  copyRet := fun s _ _ _ => s
  blockSync := fun s => s
  closeFile := fun s _ => (s, 0)

theorem nothing_open_closes : Rejected noHandlers nothingOpen (.close 3) :=
  (rejected_iff noHandlers nothingOpen (.close 3) fun _ _ => rfl).mpr trivial

/-- A read from descriptor 3, which has never been opened. -/
theorem nothing_open_reads :
    ¬∀ call : Call, nothingOpen.Unopened call.fd → Rejected noHandlers nothingOpen call := by
  intro hall
  have hread : (Call.read 3 0 1).run noHandlers nothingOpen = .error .assertionFailure := rfl
  cases (hall (.read 3 0 1) fun _ _ => rfl).symm.trans hread

end XBook.Calls
