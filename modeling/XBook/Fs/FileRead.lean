import XBook.Fs.InodeData

/-!
# Reading a file

`BOFS_FileRead` of `fs/bofs/file.c`, with the copies into the caller's memory. Read `ReadInv.round`
first, for what a round of the loop does where the file has its blocks; `file_read_iff` says for
which counts the call reads what is asked for.
-/

namespace XBook.Bofs

/-- The conversion of an `unsigned int` to `int`. -/
def toInt (n : Nat) : Int := if n < 2 ^ 31 then n else n - 2 ^ 32

/-- A byte of a file. A block that the file does not have has none. -/
def Mounted.fileByte (s : Mounted) (inode : Inode) (i : Nat) : Option UInt8 :=
  (s.dataBlock inode (i / s.sb.blockSize)).map fun lba => s.blocks lba (i % s.sb.blockSize)

/-- The variables of `BOFS_FileRead`, and the caller's memory from `buf` on. -/
structure ReadState where
  fs : Mounted
  inode : Inode
  pos : Nat
  dst : Nat → UInt8
  bytesRead : Nat
  sizeLeft : Nat
  blockID : Nat
  sectorLba : Nat

namespace ReadState

/-- The body of the loop. It does not look at what `BOFS_GetInodeData` returns. -/
def round (r : ReadState) : ReadState :=
  let ((fs, inode), block) := r.fs.getInodeData r.inode r.blockID
  let sectorLba := block.getD r.sectorLba
  let sectorOffsetBytes := r.pos % r.fs.sb.blockSize
  let sectorLeftBytes := r.fs.sb.blockSize - sectorOffsetBytes
  let chunkSize := if r.sizeLeft < sectorLeftBytes then r.sizeLeft else sectorLeftBytes
  { fs
    inode
    pos := wrap (r.pos + chunkSize)
    dst := fun i => if r.bytesRead ≤ i ∧ i < r.bytesRead + chunkSize then
      fs.blocks sectorLba (sectorOffsetBytes + (i - r.bytesRead)) else r.dst i
    bytesRead := r.bytesRead + chunkSize
    sizeLeft := r.sizeLeft - chunkSize
    blockID := wrap (r.blockID + 1)
    sectorLba }

/-- The loop, with a bound on its rounds. -/
def loop (size : Nat) (r : ReadState) : Nat → Option ReadState
  | 0 => none
  | rounds + 1 => if r.bytesRead < size then loop size r.round rounds else some r

end ReadState

/-- `BOFS_FileRead`, with what the stack has in `sectorLba`, and whether there is memory for the
buffer of a block. -/
def fileRead (s : Mounted) (inode : Inode) (pos count : UInt32) (buf : Nat → UInt8)
    (sectorLba : Nat) (iobuf : Bool) : Option (ReadState × Int) :=
  let size := if inode.size < pos + count then inode.size - pos else count
  let r : ReadState :=
    { fs := s
      inode
      pos := pos.toNat
      dst := buf
      bytesRead := 0
      sizeLeft := size.toNat
      blockID := pos.toNat / s.sb.blockSize
      sectorLba }
  if inode.size < pos + count ∧ size = 0 then some (r, -1)
  else if iobuf = false then some (r, -1)
  else (r.loop size.toNat (size.toNat + 1)).map fun r => (r, toInt r.bytesRead)

/-- The call reads what is asked for, up to the end of the file, and changes nothing else. -/
structure ReadsFile (s : Mounted) (inode : Inode) (pos count : UInt32) (buf : Nat → UInt8)
    (n : Nat) (r : ReadState) (result : Int) : Prop where
  result : result = n
  content : ∀ i < n, s.fileByte inode (pos.toNat + i) = some (r.dst i)
  inside : ∀ i, count.toNat ≤ i → r.dst i = buf i
  position : r.pos = pos.toNat + n
  file : r.fs = s ∧ r.inode = inode

/-! ## The loop -/

variable {s : Mounted} {inode : Inode}

/-- The loop ends when it has all bytes. -/
theorem read_loop_ends (size rounds : Nat) (r : ReadState)
    (hsum : r.bytesRead + r.sizeLeft = size) (hblock : 0 < r.fs.sb.blockSize)
    (hrounds : r.sizeLeft < rounds) : ∃ r', r.loop size rounds = some r' ∧ r'.bytesRead = size := by
  induction rounds generalizing r with
  | zero => simp at hrounds
  | succ rounds ih =>
      rw [ReadState.loop]
      by_cases hmore : r.bytesRead < size
      · rw [if_pos hmore]
        have hoff := Nat.mod_lt r.pos hblock
        refine ih _ ?_ ?_ ?_
        · simp only [ReadState.round]
          split
          · omega
          · omega
        · rw [show r.round.fs.sb = r.fs.sb from Mounted.get_inode_data_sb ..]
          exact hblock
        · simp only [ReadState.round]
          split
          · omega
          · omega
      · exact ⟨r, if_neg hmore, by omega⟩

/-- What the loop keeps where the file has its blocks. -/
structure ReadInv (s : Mounted) (inode : Inode) (pos : Nat) (buf : Nat → UInt8) (size : Nat)
    (r : ReadState) : Prop where
  file : r.fs = s ∧ r.inode = inode
  position : r.pos = pos + r.bytesRead
  sum : r.bytesRead + r.sizeLeft = size
  block : r.bytesRead < size → r.blockID = r.pos / s.sb.blockSize
  content : ∀ i < r.bytesRead, s.fileByte inode (pos + i) = some (r.dst i)
  rest : ∀ i, r.bytesRead ≤ i → r.dst i = buf i

/-- Bytes of one block. -/
theorem same_block (size p j : Nat) (h : p % size + j < size) :
    (p + j) / size = p / size ∧ (p + j) % size = p % size + j := by
  have hpos : 0 < size := by omega
  have hsplit : p + j = size * (p / size) + (p % size + j) := by
    have := Nat.div_add_mod p size
    omega
  rw [hsplit, Nat.mul_add_div hpos, Nat.div_eq_of_lt h, Nat.mul_add_mod, Nat.mod_eq_of_lt h]
  exact ⟨rfl, rfl⟩

/-- A round reads the rest of a block, or what is left. -/
theorem ReadInv.round {pos size : Nat} {buf : Nat → UInt8} {r : ReadState}
    (h : ReadInv s inode pos buf size r) (hmore : r.bytesRead < size) (hblock : 0 < s.sb.blockSize)
    (hfits : pos + size < 2 ^ 32)
    (hthere : ∀ i < size, (s.fileByte inode (pos + i)).isSome = true) :
    ReadInv s inode pos buf size r.round := by
  obtain ⟨hfs, hinode⟩ := h.file
  have hsum := h.sum
  have hpos := h.position
  have hoff := Nat.mod_lt r.pos hblock
  obtain ⟨lba, hlba⟩ : ∃ lba, s.dataBlock inode (r.pos / s.sb.blockSize) = some lba := by
    have hsome := hthere r.bytesRead hmore
    rw [← hpos, Mounted.fileByte, Option.isSome_map] at hsome
    exact Option.isSome_iff_exists.mp hsome
  have hround : r.round =
      let chunkSize := min r.sizeLeft (s.sb.blockSize - r.pos % s.sb.blockSize)
      { fs := s
        inode
        pos := wrap (r.pos + chunkSize)
        dst := fun i => if r.bytesRead ≤ i ∧ i < r.bytesRead + chunkSize then
          s.blocks lba (r.pos % s.sb.blockSize + (i - r.bytesRead)) else r.dst i
        bytesRead := r.bytesRead + chunkSize
        sizeLeft := r.sizeLeft - chunkSize
        blockID := wrap (r.blockID + 1)
        sectorLba := lba } := by
    have hchunk : ∀ a b : Nat, (if a < b then a else b) = min a b := by
      intro a b
      split
      · omega
      · omega
    simp only [ReadState.round, hfs, hinode, h.block hmore, Mounted.get_inode_data_eq hlba, hchunk,
      Option.getD_some]
  rw [hround]
  generalize hchunk : min r.sizeLeft (s.sb.blockSize - r.pos % s.sb.blockSize) = chunkSize
  have hwrap : wrap (r.pos + chunkSize) = r.pos + chunkSize := Nat.mod_eq_of_lt (by omega)
  refine ⟨⟨rfl, rfl⟩, ?_, ?_, ?_, ?_, ?_⟩
  · show wrap _ = pos + (r.bytesRead + chunkSize)
    omega
  · show r.bytesRead + chunkSize + (r.sizeLeft - chunkSize) = size
    omega
  · intro hlt
    have hlt : r.bytesRead + chunkSize < size := hlt
    show wrap (r.blockID + 1) = wrap (r.pos + chunkSize) / s.sb.blockSize
    -- the block is read to its end
    have hnext : r.pos + chunkSize = s.sb.blockSize * (r.pos / s.sb.blockSize + 1) := by
      have := Nat.div_add_mod r.pos s.sb.blockSize
      rw [Nat.mul_add, Nat.mul_one]
      omega
    have hle : r.pos / s.sb.blockSize + 1 ≤ r.pos + chunkSize := by
      rw [hnext]
      exact Nat.le_mul_of_pos_left _ hblock
    rw [hwrap, hnext, Nat.mul_div_cancel_left _ hblock, h.block hmore]
    exact Nat.mod_eq_of_lt (by omega)
  · intro i hi
    have hi : i < r.bytesRead + chunkSize := hi
    show _ = some (if r.bytesRead ≤ i ∧ i < r.bytesRead + chunkSize then _ else _)
    by_cases hnew : r.bytesRead ≤ i
    · rw [if_pos ⟨hnew, hi⟩]
      have hsplit : pos + i = r.pos + (i - r.bytesRead) := by omega
      obtain ⟨hdiv, hmod⟩ := same_block s.sb.blockSize r.pos (i - r.bytesRead) (by omega)
      rw [Mounted.fileByte, hsplit, hdiv, hmod, hlba, Option.map_some]
    · rw [if_neg fun hin => hnew hin.1]
      exact h.content i (by omega)
  · intro i hi
    have hi : r.bytesRead + chunkSize ≤ i := hi
    show (if r.bytesRead ≤ i ∧ i < r.bytesRead + chunkSize then _ else _) = buf i
    rw [if_neg fun hin => absurd hin.2 (by omega)]
    exact h.rest i (by omega)

/-- The loop reads bytes that are there, and changes nothing. -/
theorem ReadInv.loop {pos size rounds : Nat} {buf : Nat → UInt8} {r r' : ReadState}
    (h : ReadInv s inode pos buf size r) (hblock : 0 < s.sb.blockSize)
    (hfits : pos + size < 2 ^ 32)
    (hthere : ∀ i < size, (s.fileByte inode (pos + i)).isSome = true)
    (hloop : r.loop size rounds = some r') : ReadInv s inode pos buf size r' := by
  induction rounds generalizing r with
  | zero => cases hloop
  | succ rounds ih =>
      rw [ReadState.loop] at hloop
      split at hloop
      · next hmore => exact ih (h.round hmore hblock hfits hthere) hloop
      · cases hloop
        exact h

/-! ## The call -/

/-- The number of bytes that are asked for and in the file. -/
def bytesWanted (inode : Inode) (pos count : UInt32) : Nat :=
  min count.toNat (inode.size.toNat - pos.toNat)

/-- The clipping at the end of the file: a sum that wraps is not clipped. -/
theorem clipped_size {inode : Inode} {pos : UInt32} (count : UInt32) (hpos : pos < inode.size) :
    (if inode.size < pos + count then inode.size - pos else count).toNat =
      if pos.toNat + count.toNat < 2 ^ 32 then bytesWanted inode pos count else count.toNat := by
  rw [UInt32.lt_iff_toNat_lt] at hpos
  have hsize := inode.size.toNat_lt
  have hcount := count.toNat_lt
  have hsub : (inode.size - pos).toNat = inode.size.toNat - pos.toNat :=
    UInt32.toNat_sub_of_le _ _ (UInt32.le_iff_toNat_le.mpr hpos.le)
  simp only [UInt32.lt_iff_toNat_lt, UInt32.toNat_add, bytesWanted]
  by_cases hwrap : pos.toNat + count.toNat < 2 ^ 32
  · rw [if_pos hwrap, Nat.mod_eq_of_lt hwrap]
    split
    · rw [hsub]
      omega
    · omega
  · rw [if_neg hwrap, if_neg (by omega)]

/-- A number that is returned as an `int`. -/
theorem to_int_eq {n m : Nat} (hn : n < 2 ^ 32) : toInt n = (m : Int) ↔ n = m ∧ m < 2 ^ 31 := by
  rw [toInt]
  split
  · omega
  · omega

/-- What the call does where it does not stop at once. -/
theorem file_read_loop {s : Mounted} {inode : Inode} {pos count : UInt32} (buf : Nat → UInt8)
    (sectorLba : Nat) (hblock : 0 < s.sb.blockSize) (hpos : pos < inode.size) (hcount : 0 < count) :
    ∃ r, fileRead s inode pos count buf sectorLba true = some (r, toInt r.bytesRead) ∧
      r.bytesRead = (if pos.toNat + count.toNat < 2 ^ 32 then bytesWanted inode pos count
        else count.toNat) ∧
      (pos.toNat + count.toNat < 2 ^ 32 →
        (∀ i < bytesWanted inode pos count,
          (s.fileByte inode (pos.toNat + i)).isSome = true) →
        ReadInv s inode pos.toNat buf (bytesWanted inode pos count) r) := by
  have hclip := clipped_size count hpos
  generalize hsize : (if inode.size < pos + count then inode.size - pos else count) = size at hclip
  set start : ReadState := ⟨s, inode, pos.toNat, buf, 0, size.toNat, pos.toNat / s.sb.blockSize,
    sectorLba⟩ with hstart
  obtain ⟨r, hloop, hread⟩ := read_loop_ends size.toNat (size.toNat + 1) start
    (Nat.zero_add _) hblock (Nat.lt_succ_self _)
  rw [UInt32.lt_iff_toNat_lt] at hpos hcount
  have hne : ¬ (inode.size < pos + count ∧ size = 0) := by
    rintro ⟨-, rfl⟩
    rw [bytesWanted] at hclip
    have hzero : (0 : UInt32).toNat = 0 := rfl
    rw [hzero] at hclip hcount
    split at hclip
    · omega
    · omega
  refine ⟨r, ?_, hread.trans hclip, fun hfits hthere => ?_⟩
  · simp only [fileRead, hsize, if_neg hne, ← hstart, hloop]
    rfl
  · rw [if_pos hfits] at hclip
    rw [← hclip] at hthere ⊢
    have hbound : pos.toNat + size.toNat < 2 ^ 32 := by
      rw [hclip, bytesWanted]
      omega
    refine ReadInv.loop ⟨⟨rfl, rfl⟩, rfl, Nat.zero_add _, fun _ => rfl, ?_, fun _ _ => rfl⟩ hblock
      hbound hthere hloop
    intro i hi
    exact absurd hi (Nat.not_lt_zero i)

/-- A read from a place in the file, or from its end, where the call stops at once. -/
theorem file_read_part {s : Mounted} {inode : Inode} {pos count : UInt32}
    (hblock : 0 < s.sb.blockSize) (hpos : pos ≤ inode.size)
    (hfits : pos.toNat + count.toNat < 2 ^ 32)
    (hthere : ∀ i < bytesWanted inode pos count,
      (s.fileByte inode (pos.toNat + i)).isSome = true) (buf : Nat → UInt8) (sectorLba : Nat) :
    ∃ r result, fileRead s inode pos count buf sectorLba true = some (r, result) ∧
      r.bytesRead = bytesWanted inode pos count ∧
      ReadInv s inode pos.toNat buf (bytesWanted inode pos count) r := by
  by_cases hnone : bytesWanted inode pos count = 0
  · rw [UInt32.le_iff_toNat_le] at hpos
    rw [hnone]
    rw [bytesWanted] at hnone
    have hinv : ReadInv s inode pos.toNat buf 0
        ⟨s, inode, pos.toNat, buf, 0, 0, pos.toNat / s.sb.blockSize, sectorLba⟩ :=
      ⟨⟨rfl, rfl⟩, rfl, rfl, fun _ => rfl, fun i hi => absurd hi (Nat.not_lt_zero i),
        fun _ _ => rfl⟩
    by_cases hcount : count = 0
    · have hclip : ¬ inode.size < pos + 0 := by
        rw [UInt32.add_zero, UInt32.lt_iff_toNat_lt]
        omega
      rw [hcount, fileRead]
      simp only [hclip, false_and, if_false, Bool.true_eq_false]
      exact ⟨_, _, rfl, rfl, hinv⟩
    · have hzero : count.toNat ≠ 0 := fun hzero => hcount (UInt32.toNat_inj.mp hzero)
      have hend : inode.size = pos := UInt32.toNat_inj.mp (by omega)
      have hclip : inode.size < pos + count := by
        rw [UInt32.lt_iff_toNat_lt, UInt32.toNat_add, Nat.mod_eq_of_lt hfits]
        omega
      rw [hend] at hclip
      rw [fileRead]
      simp only [hend, hclip, UInt32.sub_self, true_and, if_true]
      exact ⟨_, _, rfl, rfl, hinv⟩
  · rw [bytesWanted] at hnone
    have hlt : pos < inode.size := UInt32.lt_iff_toNat_lt.mpr (by omega)
    have hcount : 0 < count := UInt32.lt_iff_toNat_lt.mpr (by
      have hzero : (0 : UInt32).toNat = 0 := rfl
      omega)
    obtain ⟨r, hcall, hread, hkeeps⟩ := file_read_loop buf sectorLba hblock hlt hcount
    rw [if_pos hfits] at hread
    exact ⟨r, _, hcall, hread, hkeeps hfits hthere⟩

/-- `BOFS_FileRead` reads what is asked for, up to the end of the file, exactly if the end of the
request is below `2 ^ 32` and the number of bytes is an `int`. -/
theorem file_read_iff (s : Mounted) (inode : Inode) (pos count : UInt32) (buf : Nat → UInt8)
    (sectorLba : Nat) (iobuf : Bool) (hblock : s.sb.blockSize = XBook.blockSize)
    (hpos : pos < inode.size) (hcount : 0 < count) :
    (∃ r result, fileRead s inode pos count buf sectorLba iobuf = some (r, result) ∧
        ReadsFile s inode pos count buf (bytesWanted inode pos count) r result) ↔
      iobuf = true ∧ pos.toNat + count.toNat < 2 ^ 32 ∧ bytesWanted inode pos count < 2 ^ 31 ∧
        ∀ i < bytesWanted inode pos count, (s.fileByte inode (pos.toNat + i)).isSome = true := by
  have hsize : 0 < s.sb.blockSize := by rw [hblock]; decide
  have hwanted : 0 < bytesWanted inode pos count ∧ bytesWanted inode pos count < 2 ^ 32 := by
    rw [UInt32.lt_iff_toNat_lt] at hpos hcount
    have hzero : (0 : UInt32).toNat = 0 := rfl
    have hlt := count.toNat_lt
    rw [bytesWanted]
    omega
  obtain ⟨r, hrun, hread, hkeeps⟩ := file_read_loop buf sectorLba hsize hpos hcount
  constructor
  · rintro ⟨r', result, hcall, hreads⟩
    cases iobuf with
    | false =>
        -- without the buffer the call returns `-1`
        have hresult : result = -1 := by
          simp only [fileRead, if_true, ite_self] at hcall
          exact (Prod.mk.inj (Option.some.inj hcall)).2.symm
        have := hreads.result
        omega
    | true =>
        rw [hrun] at hcall
        obtain ⟨rfl, rfl⟩ := Prod.mk.inj (Option.some.inj hcall)
        have hlt := count.toNat_lt
        have hbytes : r.bytesRead < 2 ^ 32 := by
          rw [hread]
          split
          · exact hwanted.2
          · exact hlt
        obtain ⟨hall, hint⟩ := (to_int_eq hbytes).mp hreads.result
        refine ⟨rfl, ?_, hint, fun i hi => by rw [hreads.content i hi]; rfl⟩
        by_contra hwrap
        rw [if_neg hwrap] at hread
        have hsizeLt := inode.size.toNat_lt
        rw [UInt32.lt_iff_toNat_lt] at hpos
        have hless : bytesWanted inode pos count < count.toNat := by
          rw [bytesWanted]
          omega
        omega
  · rintro ⟨rfl, hfits, hint, hthere⟩
    obtain ⟨hfile, hposition, hsum, -, hcontent, hrest⟩ := hkeeps hfits hthere
    rw [if_pos hfits] at hread
    refine ⟨r, _, hrun, ?_, ?_, ?_, ?_, hfile⟩
    · rw [hread]
      exact (to_int_eq hwanted.2).mpr ⟨rfl, hint⟩
    · rw [← hread]
      exact hcontent
    · intro i hi
      refine hrest i ?_
      rw [hread, bytesWanted]
      omega
    · rw [hposition, hread]

/-- A disk with numbered bytes in every block. -/
def numberedDisk : Mounted where
  sb := initSuperBlock smallDisk
  bitmap := fun _ => ⟨0, fun _ => 0⟩
  blocks := fun _ i => UInt8.ofNat i

/-- A file of three bytes. -/
def shortFile : Inode :=
  { devno := 1
    id := 1
    mode := 3
    links := 0
    size := 3
    crttime := 0
    mdftime := 0
    acstime := 0
    flags := 0
    blocks := fun i => if i = 0 then 1 else 0 }

/-- The last two bytes are read. -/
theorem short_file_read : ∃ r result,
    fileRead numberedDisk shortFile 1 8 (fun _ => 0) 0 true = some (r, result) ∧
      ReadsFile numberedDisk shortFile 1 8 (fun _ => 0) (bytesWanted shortFile 1 8) r result :=
  (file_read_iff numberedDisk shortFile 1 8 (fun _ => 0) 0 true rfl (by decide) (by decide)).mpr
    ⟨rfl, by decide, by decide, by decide⟩

/-- A count that makes the end of the request wrap is not clipped. -/
theorem wrapped_count_misread : ¬ ∀ s inode pos count buf sectorLba,
    s.sb.blockSize = XBook.blockSize → pos < inode.size → 0 < count →
      (∀ i < inode.size.toNat, (Mounted.fileByte s inode i).isSome = true) →
      ∃ r result, fileRead s inode pos count buf sectorLba true = some (r, result) ∧
        ReadsFile s inode pos count buf (bytesWanted inode pos count) r result := by
  intro h
  obtain ⟨r, result, hcall, hreads⟩ := h numberedDisk shortFile 1 (-1) (fun _ => 0) 0 rfl
    (by decide) (by decide) (by decide)
  have hblock : 0 < numberedDisk.sb.blockSize := by decide
  have hpos : 1 < shortFile.size := by decide
  have hcount : (0 : UInt32) < -1 := by decide
  obtain ⟨r', hrun, hread, -⟩ := file_read_loop (fun _ => 0) 0 hblock hpos hcount
  rw [hrun] at hcall
  obtain ⟨rfl, rfl⟩ := Prod.mk.inj (Option.some.inj hcall)
  have hresult := hreads.result
  rw [hread] at hresult
  exact absurd hresult (by decide)

end XBook.Bofs
