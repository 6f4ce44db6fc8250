import XBook.Fs.BlockMap

/-!
# The inode table

`BOFS_LoadInodeByID` of `fs/bofs/inode.c`, and what it finds behind `BOFS_SyncInode`. The fields of
an inode are words of the table: `load_sync_inode` says that an inode whose fields fit in them is
read as it was stored.
-/

namespace XBook.Bofs

/-! ## Inodes as words -/

/-- The inode that the bytes are. -/
def inodeAt (bytes : Nat → UInt8) : Inode where
  devno := wordAt bytes 0
  id := wordAt bytes 1
  mode := wordAt bytes 2 % 2 ^ 16
  links := wordAt bytes 2 / 2 ^ 16
  size := UInt32.ofNat (wordAt bytes 3)
  crttime := wordAt bytes 4
  mdftime := wordAt bytes 5
  acstime := wordAt bytes 6
  flags := wordAt bytes 7
  blocks i := if i < blockNr then wordAt bytes (8 + i) else 0

/-- `BOFS_LoadInodeByID`. -/
def Mounted.loadInodeByID (s : Mounted) (id : Nat) : Inode :=
  let lba := wrap (s.sb.inodeTableLba + id / s.sb.inodeNrInSector)
  let bufOffset := id % s.sb.inodeNrInSector
  inodeAt fun i => s.blocks lba (bufOffset * sizeofInode + i)

/-- The words of an inode, without the reserved ones. -/
def Inode.words (inode : Inode) : List Nat :=
  [inode.devno, inode.id, inode.mode + 2 ^ 16 * inode.links, inode.size.toNat, inode.crttime,
    inode.mdftime, inode.acstime, inode.flags] ++ (List.range blockNr).map inode.blocks

/-- The fields are those of `struct BOFS_Inode`. -/
structure Inode.Fits (inode : Inode) : Prop where
  devno : inode.devno < 2 ^ 32
  id : inode.id < 2 ^ 32
  mode : inode.mode < 2 ^ 16
  links : inode.links < 2 ^ 16
  crttime : inode.crttime < 2 ^ 32
  mdftime : inode.mdftime < 2 ^ 32
  acstime : inode.acstime < 2 ^ 32
  flags : inode.flags < 2 ^ 32
  blocks : ∀ i < blockNr, inode.blocks i < 2 ^ 32
  beyond : ∀ i, blockNr ≤ i → inode.blocks i = 0

theorem field_bytes_halves {low high : Nat} (hlow : low < 2 ^ 16) :
    fieldBytes (low + 2 ^ 16 * high) = halfBytes low ++ halfBytes high := by
  have hbyte : UInt8.ofNat (low + 2 ^ 16 * high) = UInt8.ofNat low := by
    refine UInt8.toNat_inj.mp ?_
    simp only [UInt8.toNat_ofNat']
    omega
  have hnext : UInt8.ofNat ((low + 2 ^ 16 * high) / 2 ^ 8) = UInt8.ofNat (low / 2 ^ 8) := by
    refine UInt8.toNat_inj.mp ?_
    simp only [UInt8.toNat_ofNat']
    omega
  have hhigh : (low + 2 ^ 16 * high) / 2 ^ 16 = high := by omega
  rw [fieldBytes, hhigh, halfBytes, hbyte, hnext]
  rfl

theorem Inode.Fits.bytes_eq {inode : Inode} (h : inode.Fits) :
    inode.bytes = inode.words.flatMap fieldBytes ++ List.replicate 36 0 := by
  simp only [Inode.bytes, Inode.words, List.flatMap_append, List.flatMap_cons, List.flatMap_nil,
    List.flatMap_map, field_bytes_halves h.mode, List.append_assoc, List.append_nil]

theorem length_flat_map_field (words : List Nat) :
    (words.flatMap fieldBytes).length = 4 * words.length := by
  induction words with
  | nil => rfl
  | cons v words ih =>
      have hfield : (fieldBytes v).length = 4 := rfl
      rw [List.flatMap_cons, List.length_append, ih, hfield, List.length_cons]
      omega

theorem Inode.length_words (inode : Inode) : inode.words.length = 23 := rfl

theorem Inode.words_blocks (inode : Inode) {i : Nat} (hi : i < blockNr) :
    inode.words.getD (8 + i) 0 = inode.blocks i := by
  rw [words, List.getD_append_right _ _ _ _ (Nat.le_add_right 8 i)]
  show ((List.range blockNr).map inode.blocks).getD (8 + i - 8) 0 = inode.blocks i
  rw [Nat.add_sub_cancel_left, List.getD_eq_getElem?_getD, List.getElem?_map,
    List.getElem?_range hi]
  rfl

theorem Inode.Fits.length_bytes {inode : Inode} (h : inode.Fits) :
    inode.bytes.length = sizeofInode := by
  rw [h.bytes_eq, List.length_append, length_flat_map_field, inode.length_words,
    List.length_replicate]

theorem word_at_succ (bytes : Nat → UInt8) (j : Nat) :
    wordAt bytes (j + 1) = wordAt (fun i => bytes (4 + i)) j := by
  have hplace : 4 * (j + 1) = 4 + 4 * j := by omega
  simp only [wordAt, hplace, Nat.add_assoc]

/-- A word of a buffer that is filled with words. -/
theorem word_flat_map {words : List Nat} (hwords : ∀ v ∈ words, v < 2 ^ 32) (rest : List UInt8)
    {j : Nat} (hj : j < words.length) :
    wordAt (zeroBuffer (words.flatMap fieldBytes ++ rest)) j = words.getD j 0 := by
  induction words generalizing j with
  | nil => cases hj
  | cons v words ih =>
      cases j with
      | zero => exact field_bytes_word (hwords v (List.mem_cons_self ..))
      | succ j =>
          rw [List.length_cons] at hj
          have hrest := ih (fun u hu => hwords u (List.mem_cons_of_mem _ hu))
            (Nat.lt_of_succ_lt_succ hj)
          -- the words behind the first are four bytes further on
          have hshift : ∀ k, zeroBuffer ((v :: words).flatMap fieldBytes ++ rest) (4 + k) =
              zeroBuffer (words.flatMap fieldBytes ++ rest) k := by
            intro k
            have hfield : (fieldBytes v).length = 4 := rfl
            rw [zeroBuffer, zeroBuffer, List.flatMap_cons, List.append_assoc,
              List.getD_append_right _ _ _ _ (by omega), hfield, Nat.add_sub_cancel_left]
          rw [List.getD_cons_succ, ← hrest, word_at_succ]
          exact congrArg (wordAt · j) (funext hshift)

theorem Inode.Fits.words_lt {inode : Inode} (h : inode.Fits) : ∀ v ∈ inode.words, v < 2 ^ 32 := by
  intro v hv
  rcases List.mem_append.mp hv with hv | hv
  · have hmode := h.mode
    have hlinks := h.links
    have hsize := inode.size.toNat_lt
    simp only [List.mem_cons, List.not_mem_nil, or_false] at hv
    rcases hv with rfl | rfl | rfl | rfl | rfl | rfl | rfl | rfl
    · exact h.devno
    · exact h.id
    · omega
    · exact hsize
    · exact h.crttime
    · exact h.mdftime
    · exact h.acstime
    · exact h.flags
  · obtain ⟨i, hi, rfl⟩ := List.mem_map.mp hv
    exact h.blocks i (List.mem_range.mp hi)

/-- A word of an inode that is stored. -/
theorem Inode.Fits.word_eq {inode : Inode} (h : inode.Fits) {j : Nat} (hj : j < 23) :
    wordAt (zeroBuffer inode.bytes) j = inode.words.getD j 0 := by
  rw [h.bytes_eq]
  exact word_flat_map h.words_lt _ (by rw [inode.length_words]; exact hj)

/-- The bytes of an inode are read as it is. -/
theorem Inode.Fits.inode_at_bytes {inode : Inode} (h : inode.Fits) :
    inodeAt (zeroBuffer inode.bytes) = inode := by
  have hmode := h.mode
  have hlinks := h.links
  have hword : ∀ j < 23, wordAt (zeroBuffer inode.bytes) j = inode.words.getD j 0 :=
    fun j hj => h.word_eq hj
  have hhalves : wordAt (zeroBuffer inode.bytes) 2 = inode.mode + 2 ^ 16 * inode.links :=
    hword 2 (by omega)
  have hblocks : (fun i => if i < blockNr then wordAt (zeroBuffer inode.bytes) (8 + i) else 0) =
      inode.blocks := by
    funext i
    split
    · next hi =>
        have hlt : i < 15 := hi
        rw [hword (8 + i) (by omega), inode.words_blocks hi]
    · next hi => exact (h.beyond i (Nat.not_lt.mp hi)).symm
  have hsize : UInt32.ofNat (wordAt (zeroBuffer inode.bytes) 3) = inode.size := by
    rw [hword 3 (by omega)]
    exact UInt32.ofNat_toNat
  rw [inodeAt, hhalves, hblocks, hsize, hword 0 (by omega), hword 1 (by omega),
    hword 4 (by omega), hword 5 (by omega), hword 6 (by omega), hword 7 (by omega)]
  have hlow : (inode.mode + 2 ^ 16 * inode.links) % 2 ^ 16 = inode.mode := by omega
  have hhigh : (inode.mode + 2 ^ 16 * inode.links) / 2 ^ 16 = inode.links := by omega
  rw [hlow, hhigh]
  rfl

/-! ## The table -/

theorem word_at_congr {bytes bytes' : Nat → UInt8} {j : Nat}
    (h : ∀ i < sizeofInode, bytes i = bytes' i) (hj : j < 32) :
    wordAt bytes j = wordAt bytes' j := by
  have hlength : sizeofInode = 128 := rfl
  rw [wordAt, wordAt, h _ (by omega), h _ (by omega), h _ (by omega), h _ (by omega)]

theorem inode_at_congr {bytes bytes' : Nat → UInt8}
    (h : ∀ i < sizeofInode, bytes i = bytes' i) : inodeAt bytes = inodeAt bytes' := by
  have hblocks : (fun i => if i < blockNr then wordAt bytes (8 + i) else 0) =
      fun i => if i < blockNr then wordAt bytes' (8 + i) else 0 := by
    funext i
    split
    · next hi =>
        have hlt : i < 15 := hi
        exact word_at_congr h (by omega)
    · rfl
  rw [inodeAt, inodeAt, hblocks, word_at_congr h (by omega), word_at_congr h (by omega),
    word_at_congr h (by omega), word_at_congr h (by omega), word_at_congr h (by omega),
    word_at_congr h (by omega), word_at_congr h (by omega), word_at_congr h (by omega)]

theorem word_at_lt (bytes : Nat → UInt8) (j : Nat) : wordAt bytes j < 2 ^ 32 := by
  have hfirst := (bytes (4 * j)).toNat_lt
  have hsecond := (bytes (4 * j + 1)).toNat_lt
  have hthird := (bytes (4 * j + 2)).toNat_lt
  have hlast := (bytes (4 * j + 3)).toNat_lt
  rw [wordAt]
  omega

theorem inode_at_fits (bytes : Nat → UInt8) : (inodeAt bytes).Fits := by
  refine ⟨word_at_lt bytes 0, word_at_lt bytes 1, Nat.mod_lt _ (by decide), ?_, word_at_lt bytes 4,
    word_at_lt bytes 5, word_at_lt bytes 6, word_at_lt bytes 7, ?_, ?_⟩
  · exact Nat.div_lt_of_lt_mul (word_at_lt bytes 2)
  · intro i hi
    exact (if_pos hi).trans_lt (word_at_lt bytes (8 + i))
  · intro i hi
    exact if_neg (Nat.not_lt.mpr hi)

/-- What is loaded fits in the fields. -/
theorem load_inode_fits (s : Mounted) (id : Nat) : (s.loadInodeByID id).Fits := inode_at_fits _

/-- The inode that was stored last is loaded. -/
theorem load_sync_inode {s : Mounted} (hper : s.sb.inodeNrInSector = 8) {inode : Inode}
    (h : inode.Fits) : (s.syncInode inode).loadInodeByID inode.id = inode := by
  have hblock : XBook.blockSize = 1024 := rfl
  have hlength : inode.bytes.length = 128 := h.length_bytes
  have hinode : sizeofInode = 128 := rfl
  have hoff : inode.id % s.sb.inodeNrInSector < 8 := by
    rw [hper]
    exact Nat.mod_lt _ (by decide)
  rw [Mounted.loadInodeByID]
  refine (inode_at_congr fun i hi => ?_).trans h.inode_at_bytes
  have hlt : inode.id % s.sb.inodeNrInSector * sizeofInode + i < XBook.blockSize := by
    rw [hinode]
    omega
  show blockWrite s.blocks (wrap (s.sb.inodeTableLba + inode.id / s.sb.inodeNrInSector)) _ _
    (inode.id % s.sb.inodeNrInSector * sizeofInode + i) = _
  rw [block_write_apply, if_pos ⟨rfl, hlt⟩, patch_inside _ _ (by omega)]
  rfl

end XBook.Bofs
