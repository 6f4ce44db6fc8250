import XBook.Fs.FileRead

/-!
# Writing a file

`BOFS_FileWrite` of `fs/bofs/file.c`. The loop goes on with the block of the round before where
`BOFS_GetInodeData` has no sector to give, so a write on a full disk ends like any other
(`write_loop_ends`).
-/

namespace XBook.Bofs

/-- The variables of `BOFS_FileWrite`. -/
structure WriteState where
  fs : Mounted
  inode : Inode
  pos : Nat
  bytesWritten : Nat
  sizeLeft : Nat
  blockID : Nat
  sectorLba : Nat
  firstWriteSector : Bool

namespace WriteState

/-- The body of the loop. It does not look at what `BOFS_GetInodeData` returns. -/
def round (src : Nat → UInt8) (changeFileSize : Bool) (w : WriteState) : WriteState :=
  let ((fs, inode), block) := w.fs.getInodeData w.inode w.blockID
  let sectorLba := block.getD w.sectorLba
  let sectorOffsetBytes := w.pos % w.fs.sb.blockSize
  let sectorLeftBytes := w.fs.sb.blockSize - sectorOffsetBytes
  let chunkSize := if w.sizeLeft < sectorLeftBytes then w.sizeLeft else sectorLeftBytes
  let iobuf := if w.firstWriteSector then fs.blocks sectorLba else fun _ => 0
  let iobuf := fun i => if sectorOffsetBytes ≤ i ∧ i < sectorOffsetBytes + chunkSize then
    src (w.bytesWritten + (i - sectorOffsetBytes)) else iobuf i
  let pos := wrap (w.pos + chunkSize)
  { fs := { fs with blocks := blockWrite fs.blocks sectorLba iobuf }
    inode := if changeFileSize then { inode with size := UInt32.ofNat pos } else inode
    pos
    bytesWritten := w.bytesWritten + chunkSize
    sizeLeft := w.sizeLeft - chunkSize
    blockID := wrap (w.blockID + 1)
    sectorLba
    firstWriteSector := false }

/-- The loop, with a bound on its rounds. -/
def loop (src : Nat → UInt8) (changeFileSize : Bool) (count : Nat) (w : WriteState) :
    Nat → Option WriteState
  | 0 => none
  | rounds + 1 =>
      if w.bytesWritten < count then
        loop src changeFileSize count (w.round src changeFileSize) rounds
      else some w

end WriteState

/-- The position that `BOFS_FileWrite` starts at. -/
def startPos (inode : Inode) (pos : UInt32) : UInt32 := if inode.size < pos then inode.size else pos

/-- The variables at the start of the loop, with what the stack has in `sectorLba`. -/
def startWrite (s : Mounted) (inode : Inode) (pos count : UInt32) (sectorLba : Nat) : WriteState :=
  let pos := startPos inode pos
  { fs := s
    inode
    pos := pos.toNat
    bytesWritten := 0
    sizeLeft := count.toNat
    blockID := pos.toNat / s.sb.blockSize
    sectorLba
    firstWriteSector := true }

/-- Whether the file grows. The sum can wrap. -/
def changesFileSize (inode : Inode) (pos count : UInt32) : Bool :=
  inode.size < startPos inode pos + count

/-- `BOFS_FileWrite`, and whether there is memory for the buffer of a block. -/
def fileWrite (s : Mounted) (inode : Inode) (pos count : UInt32) (buf : Nat → UInt8)
    (sectorLba : Nat) (iobuf : Bool) : Option (WriteState × Int) :=
  let w := startWrite s inode pos count sectorLba
  if iobuf = false then some (w, -1)
  else
    (w.loop buf (changesFileSize inode pos count) count.toNat (count.toNat + 1)).map fun w =>
      ({ w with fs := w.fs.syncInode w.inode }, toInt w.bytesWritten)

/-- The variables after some rounds. -/
def afterRounds (s : Mounted) (inode : Inode) (pos count : UInt32) (buf : Nat → UInt8)
    (sectorLba n : Nat) : WriteState :=
  (WriteState.round buf (changesFileSize inode pos count))^[n]
    (startWrite s inode pos count sectorLba)

/-- There are fewer free sectors than the call needs: for one of its blocks there is none. -/
def LacksSectors (s : Mounted) (inode : Inode) (pos count : UInt32) (buf : Nat → UInt8)
    (sectorLba : Nat) : Prop :=
  ∃ n, let w := afterRounds s inode pos count buf sectorLba n
    w.bytesWritten < count.toNat ∧ (w.fs.getInodeData w.inode w.blockID).2 = none

/-- A call that does not write everything says so, with an error or a short count that is not the
result of a whole write; what it reports is in the file, and nothing else has changed. -/
structure HonestWrite (s : Mounted) (inode : Inode) (pos count : UInt32) (buf : Nat → UInt8)
    (w : WriteState) (result : Int) : Prop where
  reported : (result = -1 ∨ 0 ≤ result ∧ result < count.toNat) ∧ result ≠ toInt count.toNat
  stored : ∀ i : Nat, (i : Int) < result →
    w.fs.fileByte w.inode ((startPos inode pos).toNat + i) = some (buf i)
  error : result = -1 → w.fs = s ∧ w.inode = inode
  kept : ∀ i b, i < inode.size.toNat →
    ((i : Int) < (startPos inode pos).toNat ∨ (startPos inode pos).toNat + result ≤ i) →
    s.fileByte inode i = some b → w.fs.fileByte w.inode i = some b
  size : 0 ≤ result →
    (w.inode.size.toNat : Int) =
      max (inode.size.toNat : Int) ((startPos inode pos).toNat + result)
  others : ∀ other i b, other.id ≠ inode.id → s.fileByte other i = some b →
    w.fs.fileByte other i = some b
  metadata : ∀ lba, s.sb.IsMetadata lba → result = -1 → w.fs.blocks lba = s.blocks lba

/-- With too few free sectors the call is honest. -/
def FullDiskSafe (s : Mounted) (inode : Inode) (pos count : UInt32) (buf : Nat → UInt8)
    (sectorLba : Nat) (iobuf : Bool) : Prop :=
  LacksSectors s inode pos count buf sectorLba → ∃ w result,
    fileWrite s inode pos count buf sectorLba iobuf = some (w, result) ∧
      HonestWrite s inode pos count buf w result

/-! ## The loop -/

/-- The loop ends when it has counted all bytes, whatever blocks it has got. -/
theorem write_loop_ends (buf : Nat → UInt8) (changeFileSize : Bool) (count rounds : Nat)
    (w : WriteState)
    (hsum : w.bytesWritten + w.sizeLeft = count) (hblock : 0 < w.fs.sb.blockSize)
    (hrounds : w.sizeLeft < rounds) :
    ∃ w', w.loop buf changeFileSize count rounds = some w' ∧ w'.bytesWritten = count := by
  induction rounds generalizing w with
  | zero => simp at hrounds
  | succ rounds ih =>
      rw [WriteState.loop]
      by_cases hmore : w.bytesWritten < count
      · rw [if_pos hmore]
        have hoff := Nat.mod_lt w.pos hblock
        refine ih _ ?_ ?_ ?_
        · simp only [WriteState.round]
          split
          · omega
          · omega
        · rw [show (w.round buf changeFileSize).fs.sb = w.fs.sb from Mounted.get_inode_data_sb ..]
          exact hblock
        · simp only [WriteState.round]
          split
          · omega
          · omega
      · exact ⟨w, if_neg hmore, by omega⟩

/-- With its buffer, the call reports that everything has been written. -/
theorem file_write_result (s : Mounted) (inode : Inode) (pos count : UInt32) (buf : Nat → UInt8)
    (sectorLba : Nat) (hblock : 0 < s.sb.blockSize) :
    ∃ w, fileWrite s inode pos count buf sectorLba true = some (w, toInt count.toNat) := by
  obtain ⟨w, hloop, hall⟩ := write_loop_ends buf (changesFileSize inode pos count) count.toNat
    (count.toNat + 1) (startWrite s inode pos count sectorLba) (Nat.zero_add _) hblock (Nat.lt_succ_self _)
  refine ⟨{ w with fs := w.fs.syncInode w.inode }, ?_⟩
  simp only [fileWrite, Bool.true_eq_false, if_false, hloop, Option.map_some, hall]

/-- The count whose `int` is `-1`. -/
theorem to_int_minus_one (count : UInt32) : toInt count.toNat = -1 ↔ count = -1 := by
  have hlt := count.toNat_lt
  have hmax : (-1 : UInt32).toNat = 2 ^ 32 - 1 := rfl
  rw [← UInt32.toNat_inj, hmax, toInt]
  split
  · omega
  · omega

/-- On a full disk a write is honest exactly if it has not even the memory for a block, and `-1` is
not the result of a whole write. -/
theorem full_disk_write_iff (s : Mounted) (inode : Inode) (pos count : UInt32) (buf : Nat → UInt8)
    (sectorLba : Nat) (iobuf : Bool) (hblock : s.sb.blockSize = XBook.blockSize) :
    FullDiskSafe s inode pos count buf sectorLba iobuf ↔
      (LacksSectors s inode pos count buf sectorLba → iobuf = false ∧ count ≠ -1) := by
  have hsize : 0 < s.sb.blockSize := by rw [hblock]; decide
  refine imp_congr_right fun _ => ⟨?_, ?_⟩
  · rintro ⟨w, result, hcall, hhonest⟩
    cases iobuf with
    | true =>
        obtain ⟨w', hwrite⟩ := file_write_result s inode pos count buf sectorLba hsize
        rw [hwrite] at hcall
        exact absurd (Prod.mk.inj (Option.some.inj hcall)).2.symm hhonest.reported.2
    | false =>
        obtain ⟨-, hresult⟩ := Prod.mk.inj (Option.some.inj hcall)
        refine ⟨rfl, fun hcount => hhonest.reported.2 ?_⟩
        rw [← hresult, (to_int_minus_one count).mpr hcount]
  · rintro ⟨rfl, hcount⟩
    refine ⟨_, -1, rfl, ?_, ?_, fun _ => ⟨rfl, rfl⟩, ?_, ?_, ?_, ?_⟩
    · exact ⟨.inl rfl, fun heq => hcount ((to_int_minus_one count).mp heq.symm)⟩
    · intro i hi
      omega
    · intro i b _ _ hb
      exact hb
    · intro h
      exact absurd h (by decide)
    · intro other i b _ hb
      exact hb
    · intro lba _ _
      rfl

/-- An empty file. -/
def emptyFile : Inode := { shortFile with size := 0, blocks := fun _ => 0 }

/-- Without memory for a block nothing is written. -/
theorem no_memory_honest : FullDiskSafe numberedDisk emptyFile 0 1 (fun _ => 7) 0 false :=
  (full_disk_write_iff numberedDisk emptyFile 0 1 (fun _ => 7) 0 false rfl).mpr
    fun _ => ⟨rfl, by decide⟩

/-- A disk without free sectors: a byte is reported that no block holds. -/
theorem full_disk_unnoticed : ¬ ∀ s inode pos count buf sectorLba,
    s.sb.blockSize = XBook.blockSize → FullDiskSafe s inode pos count buf sectorLba true := by
  intro h
  have hlacks : LacksSectors numberedDisk emptyFile 0 1 (fun _ => 7) 0 :=
    ⟨0, by decide, by decide +kernel⟩
  obtain ⟨w, result, hcall, hhonest⟩ := h numberedDisk emptyFile 0 1 (fun _ => 7) 0 rfl hlacks
  obtain ⟨w', hwrite⟩ := file_write_result numberedDisk emptyFile 0 1 (fun _ => 7) 0 (by decide)
  rw [hwrite] at hcall
  exact hhonest.reported.2 (Prod.mk.inj (Option.some.inj hcall)).2.symm

end XBook.Bofs
