import XBook.Fs.FileContent
import XBook.Fs.InodeTable
import XBook.Fs.ReleaseData

/-!
# What a write leaves of its inode

The inode in memory through the rounds of `BOFS_FileWrite`, and the marks in the sector bitmap.
`file_write_leaves` says that the pointers of the inode stay, that the sectors that are marked are
in its block table, and that `BOFS_LoadInodeByID` then finds this inode.
-/

namespace XBook.Bofs

open Mounted (pointerPath)

variable {g : Geometry} {kind : Nat → Option Nat} {f f' : Files} {n : Nat}

/-! ## The inode in memory -/

/-- The pointers that an inode has stay there, and its number and mode. -/
structure Inode.Kept (inode inode' : Inode) : Prop where
  fits : inode.Fits → inode'.Fits
  id : inode'.id = inode.id
  mode : inode'.mode = inode.mode
  blocks : ∀ i, inode.blocks i ≠ 0 → inode'.blocks i = inode.blocks i

theorem Inode.Kept.refl (inode : Inode) : inode.Kept inode := ⟨fun h => h, rfl, rfl, fun _ _ => rfl⟩

theorem Inode.Kept.trans {inode inode' inode'' : Inode} (h : inode.Kept inode')
    (h' : inode'.Kept inode'') : inode.Kept inode'' := by
  refine ⟨fun hfits => h'.fits (h.fits hfits), h'.id.trans h.id, h'.mode.trans h.mode, ?_⟩
  intro i hi
  have hmid := h.blocks i hi
  rw [h'.blocks i (by rwa [hmid]), hmid]

theorem Inode.kept_set_block {inode : Inode} {i lba : Nat} (hi : i < blockNr) (hlba : lba < 2 ^ 32)
    (hzero : inode.blocks i = 0) : inode.Kept (inode.setBlock i lba) := by
  refine ⟨fun h => ?_, rfl, rfl, fun j hj => ?_⟩
  · refine ⟨h.devno, h.id, h.mode, h.links, h.crttime, h.mdftime, h.acstime, h.flags, ?_, ?_⟩
    · intro j hj
      rw [Inode.set_block_apply]
      split
      · exact hlba
      · exact h.blocks j hj
    · intro j hj
      rw [Inode.set_block_apply, if_neg (by omega)]
      exact h.beyond j hj
  · rw [Inode.set_block_apply, if_neg]
    rintro rfl
    exact hj hzero

theorem alloc_one_sector_lt {s t : Mounted} {lba : Nat} (h : s.allocOneSector = some (t, lba)) :
    lba < 2 ^ 32 := by
  rw [Mounted.allocOneSector, Option.map_eq_some_iff] at h
  obtain ⟨result, -, heq⟩ := h
  rw [← (Prod.mk.inj heq).2]
  exact Nat.mod_lt _ (by decide)

theorem pointer_in_inode_kept (s : Mounted) (inode : Inode) {i : Nat} (hi : i < blockNr) :
    inode.Kept (s.pointerInInode inode i).1.2 := by
  rw [Mounted.pointerInInode]
  by_cases hzero : inode.blocks i = 0
  · rw [if_pos hzero]
    cases halloc : s.allocOneSector with
    | none => exact .refl inode
    | some result => exact Inode.kept_set_block hi (alloc_one_sector_lt halloc) hzero
  · rw [if_neg hzero]
    exact .refl inode

theorem get_inode_data_kept (s : Mounted) (inode : Inode) (index : Nat) :
    inode.Kept (s.getInodeData inode index).1.2 := by
  by_cases hindex : index < blockLv3
  · rw [Mounted.get_inode_data_path s inode hindex, Mounted.getBlock]
    have hfirst := pointer_in_inode_kept s inode (pointer_path_spec hindex).1
    generalize s.pointerInInode inode (pointerPath index).1 = result at hfirst
    obtain ⟨state, block⟩ := result
    cases block with
    | none => exact hfirst
    | some lba => exact hfirst
  · rw [get_inode_data_beyond _ _ (Nat.not_lt.mp hindex)]
    exact .refl inode

theorem Inode.kept_size {inode inode' : Inode} (h : inode.Kept inode') (size : UInt32) :
    inode.Kept { inode' with size } := by
  refine ⟨fun hfits => ?_, h.id, h.mode, h.blocks⟩
  have hnext := h.fits hfits
  exact ⟨hnext.devno, hnext.id, hnext.mode, hnext.links, hnext.crttime, hnext.mdftime,
    hnext.acstime, hnext.flags, hnext.blocks, hnext.beyond⟩

theorem WriteState.round_kept (w : WriteState) (src : Nat → UInt8) (change : Bool) :
    w.inode.Kept (w.round src change).inode := by
  have hkept := get_inode_data_kept w.fs w.inode w.blockID
  cases change with
  | true => exact Inode.kept_size hkept _
  | false => exact hkept

/-! ## The marks of a write -/

/-- A file keeps its blocks, and the sectors that are marked besides those before are its own. -/
structure Grown (g : Geometry) (n : Nat) (f f' : Files) : Prop where
  kept : ∀ b, f.Holds n b → f'.Holds n b
  marked : ∀ i < sectorBits g, (f'.fs.bitmap .sector).bit i = true →
    (f.fs.bitmap .sector).bit i = true ∨ f'.Holds n ((initSuperBlock g).idxToLba i)

theorem Grown.refl (g : Geometry) (n : Nat) (f : Files) : Grown g n f f :=
  ⟨fun _ hb => hb, fun _ _ hi => .inl hi⟩

theorem Grown.trans {f'' : Files} (h : Grown g n f f') (h' : Grown g n f' f'') :
    Grown g n f f'' := by
  refine ⟨fun b hb => h'.kept b (h.kept b hb), fun i hi hset => ?_⟩
  rcases h'.marked i hi hset with hmid | hheld
  · exact (h.marked i hi hmid).imp_right (h'.kept _)
  · exact .inr hheld

theorem Later.holds {kind' : Nat → Option Nat} (h : Later g kind f kind' f') (hf : Sound g kind f)
    (hn : n < g.inodeNr.toNat) {b : Nat} (hb : f.Holds n b) : f'.Holds n b := by
  obtain ⟨i, path, hreach⟩ := (hf.holds_iff hn).mp hb
  exact (h.sound.holds_iff hn).mpr ⟨i, path, h.kept.reach hreach⟩

theorem SamePointers.grown (h : SamePointers g kind f f') (hf : Placed g kind f)
    (hn : n < g.inodeNr.toNat) : Grown g n f f' := by
  refine ⟨fun b hb => ?_, fun i _ hset => .inl ?_⟩
  · rw [(h.placed hf).sound.holds_iff hn, h.forest_eq]
    exact (hf.sound.holds_iff hn).mp hb
  · rwa [h.bitmap] at hset

/-- The sectors that are marked are those from before and `block`. -/
def Marks (s t : Mounted) (block : Option Nat) : Prop :=
  ∀ i, (t.bitmap .sector).bit i = true →
    (s.bitmap .sector).bit i = true ∨ block = some (s.sb.idxToLba i)

theorem alloc_one_sector_marks {s t : Mounted} {lba : Nat} (hbytes : (s.bitmap .sector).Bytes)
    (h : s.allocOneSector = some (t, lba)) : Marks s t (some lba) := by
  obtain ⟨j, -, -, rfl, -, hbitmap, -⟩ := alloc_one_sector_blocks hbytes h
  intro i hset
  rw [hbitmap, bit_bitmap_set] at hset
  split at hset
  · next heq => exact .inr (by rw [heq])
  · exact .inl hset

theorem pointer_in_inode_marks {s : Mounted} (hbytes : (s.bitmap .sector).Bytes) (inode : Inode)
    (i : Nat) : Marks s (s.pointerInInode inode i).1.1 (s.pointerInInode inode i).2 := by
  rw [Mounted.pointerInInode]
  split
  · cases halloc : s.allocOneSector with
    | none => exact fun j hset => .inl hset
    | some result =>
        obtain ⟨t, lba⟩ := result
        have hmarks := alloc_one_sector_marks hbytes halloc
        exact fun j hset => hmarks j hset
  · exact fun j hset => .inl hset

theorem pointer_in_block_marks {s : Mounted} (hbytes : (s.bitmap .sector).Bytes)
    (inderect i : Nat) :
    Marks s (s.pointerInBlock inderect i).1 (s.pointerInBlock inderect i).2 := by
  rw [Mounted.pointerInBlock]
  by_cases hzero : wordAt (s.blocks inderect) i = 0
  · simp only [if_pos hzero]
    cases halloc : s.allocOneSector with
    | none => exact fun j hset => .inl hset
    | some result =>
        obtain ⟨t, lba⟩ := result
        have hmarks := alloc_one_sector_marks hbytes halloc
        exact fun j hset => hmarks j hset
  · simp only [if_neg hzero]
    exact fun j hset => .inl hset

/-- What a walk marks is on its way. -/
theorem Sound.follow_grown (h : Sound g kind f) (hg : DriveGeometry g) (hn : n < g.inodeNr.toNat)
    {i a : Nat} {front path : List Nat} (ha : (f.forest g kind).reach (n, i) front = some a)
    (hlength : front.length + path.length ≤ height i) (hpath : ∀ j ∈ path, j < 256) :
    Grown g n f (f.setFs (f.fs.followPointers a path).1) := by
  induction path generalizing kind f front a with
  | nil => exact .refl g n f
  | cons j path ih =>
      rw [List.length_cons] at hlength
      have hmarks := pointer_in_block_marks h.bytes a j
      obtain ⟨kind', hlater, hreach, -⟩ := h.pointer_in_block hg ha
        (show front.length < height (n, i).2 from by simp only; omega)
        (hpath j (List.mem_cons_self ..))
      rw [Mounted.followPointers]
      generalize f.fs.pointerInBlock a j = result at hlater hreach hmarks ⊢
      obtain ⟨t, block⟩ := result
      have hfirst : Grown g n f (f.setFs t) := by
        refine ⟨fun b hb => hlater.holds h hn hb, fun k hk hset => ?_⟩
        rcases hmarks k hset with hold | hnew
        · exact .inl hold
        · -- the new sector is in the place that the walk has come to
          rw [h.sb] at hnew
          exact .inr ((hlater.sound.holds_iff hn).mpr ⟨i, front ++ [j], hreach.symm.trans hnew⟩)
      cases block with
      | none => exact hfirst
      | some lba =>
          have hsum : (front ++ [j]).length + path.length ≤ height i := by
            rw [List.length_append, List.length_singleton]
            omega
          exact hfirst.trans (ih hlater.sound hreach.symm hsum
            fun j hj => hpath j (List.mem_cons_of_mem _ hj))

/-- The sectors that a call of `BOFS_GetInodeData` marks are the file's. -/
theorem Sound.get_inode_data_grown (h : Sound g kind f) (hg : DriveGeometry g)
    (hn : n < g.inodeNr.toNat) (index : Nat) :
    Grown g n f (f.store n (f.fs.getInodeData (f.inodes n) index).1) := by
  by_cases hindex : index < blockLv3
  · obtain ⟨hi, hlength, hpath⟩ := pointer_path_spec hindex
    have hmarks := pointer_in_inode_marks h.bytes (f.inodes n) (pointerPath index).1
    obtain ⟨kind', hlater, hreach, -⟩ := h.pointer_in_inode hg hn hi
    rw [Mounted.get_inode_data_path _ _ hindex, Mounted.getBlock]
    generalize f.fs.pointerInInode (f.inodes n) (pointerPath index).1 = result
      at hlater hreach hmarks ⊢
    obtain ⟨⟨t, inode⟩, block⟩ := result
    have hfirst : Grown g n f (f.store n (t, inode)) := by
      refine ⟨fun b hb => hlater.holds h hn hb, fun k hk hset => ?_⟩
      rcases hmarks k hset with hold | hnew
      · exact .inl hold
      · rw [h.sb] at hnew
        exact .inr ((hlater.sound.holds_iff hn).mpr ⟨_, [], hreach.symm.trans hnew⟩)
    cases block with
    | none => exact hfirst
    | some lba =>
        have hsum : ([] : List Nat).length + (pointerPath index).2.length ≤
            height (pointerPath index).1 := by
          rw [List.length_nil, Nat.zero_add]
          exact Nat.le_of_eq hlength
        exact hfirst.trans (hlater.sound.follow_grown hg hn hreach.symm hsum hpath)
  · rw [get_inode_data_beyond _ _ (Nat.not_lt.mp hindex), Files.store_self]
    exact .refl g n f

theorem WriteState.round_grown {w : WriteState} {lba : Nat} (h : Placed g kind (w.files f n))
    (hg : DriveGeometry g) (hn : n < g.inodeNr.toNat) (src : Nat → UInt8) (change : Bool)
    (hlba : (w.fs.getInodeData w.inode w.blockID).2 = some lba) :
    Grown g n (w.files f n) ((w.round src change).files f n) := by
  have hself : (w.files f n).inodes n = w.inode := Function.update_self ..
  have hgrown := h.sound.get_inode_data_grown hg hn w.blockID
  rcases hcall : w.fs.getInodeData w.inode w.blockID with ⟨⟨fs, inode⟩, block⟩
  rw [hcall] at hlba
  obtain rfl : block = some lba := hlba
  rw [hself, show (w.files f n).fs = w.fs from rfl, hcall] at hgrown
  obtain ⟨kind', hlater, hans⟩ := h.sound.call hg (w.call_step hn hcall)
  have hplaced := h.later hlater
  have hwrite := hplaced.write_same hn hans.block.symm (w.buffer src (fs.blocks lba))
  have hround : SamePointers g kind'
      (((w.files f n).store n (fs, inode)).writeBlock lba (w.buffer src (fs.blocks lba)))
      ((w.round src change).files f n) :=
    WriteState.round_same (h.sound.block_size hg) hcall src change
  exact hgrown.trans ((hwrite.grown hplaced hn).trans (hround.grown (hwrite.placed hplaced) hn))

/-- What a write leaves: the inode that it has in memory is on the disk. -/
structure WriteLeaves (g : Geometry) (f : Files) (n pos count : Nat) (buf : Nat → UInt8)
    (w : WriteState) : Prop where
  placed : ∃ kind, Placed g kind (w.files f n)
  grown : Grown g n f (w.files f n)
  kept : (f.inodes n).Kept w.inode
  loaded : w.fs.loadInodeByID n = w.inode
  done : WriteDone f.fs (f.inodes n) pos count buf w

theorem file_write_leaves {pos count : UInt32} (h : Placed g kind f) (hg : DriveGeometry g)
    (hn : n < g.inodeNr.toNat) (hfile : n ≠ 0) (hinode : (f.inodes n).Fits)
    (hpos : pos ≤ (f.inodes n).size) (hfits : pos.toNat + count.toNat < 2 ^ 32)
    (buf : Nat → UInt8) (sectorLba : Nat)
    (hfree : ¬ LacksSectors f.fs (f.inodes n) pos count buf sectorLba) :
    ∃ w, fileWrite f.fs (f.inodes n) pos count buf sectorLba true =
        some (w, toInt count.toNat) ∧
      WriteLeaves g f n pos.toNat count.toNat buf w := by
  obtain ⟨w, hloop, hcall, hall, hinv⟩ :=
    file_write_spec h hg hn hfile hpos hfits buf sectorLba hfree
  have hself : (w.files f n).inodes n = w.inode := Function.update_self ..
  obtain ⟨kind', hplaced⟩ := hinv.placed
  -- what the loop keeps besides the bytes of the file
  have hkeeps : WriteInv g f n pos.toNat count.toNat buf
      (changesFileSize (f.inodes n) pos count) w ∧ Grown g n f (w.files f n) ∧
        (f.inodes n).Kept w.inode := by
    refine WriteState.loop_rule (fun w => WriteInv g f n pos.toNat count.toNat buf
      (changesFileSize (f.inodes n) pos count) w ∧ Grown g n f (w.files f n) ∧
        (f.inodes n).Kept w.inode)
      (fun j hmore hround => ?_) ⟨h.start_write hg hpos count buf _ sectorLba, ?_, ?_⟩ hloop
    · obtain ⟨hbefore, hgrown, hkept⟩ := hround
      obtain ⟨kind'', hthere⟩ := hbefore.placed
      have hfound := fun hnone => hfree ⟨j, hmore, hnone⟩
      obtain ⟨lba, hlba⟩ := Option.ne_none_iff_exists'.mp hfound
      rw [Function.iterate_succ_apply']
      exact ⟨hbefore.round hg hn hfile hfits hmore hfound,
        hgrown.trans (WriteState.round_grown hthere hg hn buf _ hlba),
        hkept.trans (WriteState.round_kept _ buf _)⟩
    · rw [show (startWrite f.fs (f.inodes n) pos count sectorLba).files f n = f from f.store_self n]
      exact .refl g n f
    · exact .refl (f.inodes n)
  obtain ⟨-, hgrown, hkept⟩ := hkeeps
  have hid : w.inode.id = n := hkept.id.trans (h.sound.ids n hn)
  have hsync := hplaced.sync_same hg (show w.inode.id < g.inodeNr.toNat by rw [hid]; exact hn)
  refine ⟨_, hcall, ⟨kind', hsync.placed hplaced⟩, hgrown.trans (hsync.grown hplaced hn), hkept, ?_,
    hinv.done hg hn hfile hpos hfits hall⟩
  have hper : w.fs.sb.inodeNrInSector = 8 := by
    rw [show w.fs.sb = initSuperBlock g from hplaced.sound.sb, hg.inode_nr_in_sector]
  have hload := load_sync_inode hper (hkept.fits hinode)
  rwa [hid] at hload

end XBook.Bofs
