import XBook.Fs.WriteGrowth

/-!
# What a release leaves to the other files

`BOFS_ReleaseInodeData` again, for the files that are not released. Read `Releases.placed` first:
without the inode that is released the files are as sound as before, though its pointers lead to
blocks that are free.
-/

namespace XBook.Bofs

open Mounted (pointerPath)

variable {g : Geometry} {kind : Nat → Option Nat} {f f' : Files} {n index : Nat}

/-! ## Blocks of data -/

/-- The blocks of data hold what they held, and the bitmap of the inodes is as it was. -/
structure KeepsData (g : Geometry) (kind : Nat → Option Nat) (s t : Mounted) : Prop where
  sb : t.sb = s.sb
  bytes : (s.bitmap .sector).Bytes → (t.bitmap .sector).Bytes
  inode : t.bitmap .inode = s.bitmap .inode
  data : ∀ b, kind b = some 0 → Behind g b → t.blocks b = s.blocks b

theorem KeepsData.refl (g : Geometry) (kind : Nat → Option Nat) (s : Mounted) :
    KeepsData g kind s s :=
  ⟨rfl, id, rfl, fun _ _ _ => rfl⟩

theorem KeepsData.trans {s t u : Mounted} (h : KeepsData g kind s t) (h' : KeepsData g kind t u) :
    KeepsData g kind s u :=
  ⟨h'.sb.trans h.sb, fun hbytes => h'.bytes (h.bytes hbytes), h'.inode.trans h.inode,
    fun b hb hbehind => (h'.data b hb hbehind).trans (h.data b hb hbehind)⟩

theorem Sound.free_keeps (h : Sound g kind f) (hg : DriveGeometry g) {s : Mounted}
    (hsb : s.sb = initSuperBlock g) {a k : Nat} (ha : kind a = some k) :
    KeepsData g kind s (s.freeOneSector a) := by
  obtain ⟨i, hi, rfl, -, -⟩ := h.marked a k ha
  have hstop := hg.stop
  have hle := sector_bits_le g
  have hidx : s.sb.lbaToIdx ((initSuperBlock g).idxToLba i) = i := by
    rw [hsb]
    exact hg.lba_to_idx hi
  have hfree : s.freeOneSector ((initSuperBlock g).idxToLba i) =
      (s.setBitmap .sector (bitmapSet (s.bitmap .sector) i false)).syncBitmap .sector i := by
    simp only [Mounted.freeOneSector, hidx, Mounted.freeBitmap]
    rw [if_neg (by omega), Option.getD_some]
  rw [hfree]
  refine ⟨rfl, fun hbytes => ?_, rfl, fun b _ hbehind => ?_⟩
  · show (Function.update s.bitmap .sector _ .sector).Bytes
    rw [Function.update_self]
    exact hbytes.setRange false i 1
  · unfold Behind at hbehind
    have hsync := hg.sync_before hi
    have hne : b ≠ wrap (s.sb.sectorBitmapLba + i / (8 * sectorSize)) := by
      rw [hsb]
      omega
    exact block_write_other _ _ hne

/-- Along the pointers only indirect blocks are written. -/
theorem Shrunk.put_pointers_keeps (h : Shrunk g kind f f') (hf : Sound g kind f)
    (hg : DriveGeometry g) {a : Nat} {path : List Nat} (ha : kind a = some path.length)
    (hpath : ∀ j ∈ path, j < 256) : KeepsData g kind f'.fs (f'.fs.putPointers a path).1 := by
  induction path generalizing a with
  | nil => exact hf.free_keeps hg h.sb ha
  | cons j path ih =>
      have hchild := f'.child_eq (g := g) ha (hpath j (List.mem_cons_self ..))
      rw [Mounted.putPointers]
      by_cases hzero : wordAt (f'.fs.blocks a) j = 0
      · rw [if_pos hzero]
        exact .refl g kind f'.fs
      rw [if_neg hzero]
      rw [if_neg hzero] at hchild
      obtain ⟨k, hk, hnext⟩ := h.child_kind hf hchild
      rw [ha] at hk
      cases hk
      have hrest := ih hnext fun j hj => hpath j (List.mem_cons_of_mem _ hj)
      generalize wordAt (f'.fs.blocks a) j = c at hrest ⊢
      generalize f'.fs.putPointers c path = result at hrest ⊢
      obtain ⟨t, freed⟩ := result
      cases freed with
      | false => exact hrest
      | true =>
          simp only [if_true]
          split
          · exact hrest.trans (hf.free_keeps hg (hrest.sb.trans h.sb) ha)
          · -- the pointer is zeroed in an indirect block
            refine hrest.trans ⟨rfl, id, rfl, fun b hb _ => block_write_other _ _ ?_⟩
            rintro rfl
            rw [ha] at hb
            cases hb

/-- `BOFS_SyncInode` writes in front of the blocks of data. -/
theorem DriveGeometry.sync_inode_keeps (hg : DriveGeometry g) {s : Mounted} {inode : Inode}
    (hsb : s.sb = initSuperBlock g) (hid : inode.id < g.inodeNr.toNat) :
    KeepsData g kind s (s.syncInode inode) := by
  refine ⟨rfl, id, rfl, fun b _ hbehind => ?_⟩
  unfold Behind at hbehind
  exact hg.sync_inode_blocks hsb hid (by omega)

theorem Shrunk.put_block_keeps (h : Shrunk g kind f f') (hf : Sound g kind f)
    (hg : DriveGeometry g) (hn : n < g.inodeNr.toNat) {i : Nat} {path : List Nat} (hi : i < blockNr)
    (hlength : path.length = height i) (hpath : ∀ j ∈ path, j < 256) :
    KeepsData g kind f'.fs (f'.fs.putBlock (f'.inodes n) i path).1 := by
  rw [Mounted.putBlock]
  by_cases hzero : (f'.inodes n).blocks i = 0
  · rw [if_pos hzero]
    exact .refl g kind f'.fs
  rw [if_neg hzero]
  have hroot : (f'.forest g kind).root (n, i) = some ((f'.inodes n).blocks i) :=
    if_pos ⟨hn, hi, hzero⟩
  have ha : kind ((f'.inodes n).blocks i) = some path.length := by
    rw [hf.root _ _ (h.kept (.root (n, i)) _ hroot), hlength]
  have hput := h.put_pointers_keeps hf hg ha hpath
  generalize f'.fs.putPointers ((f'.inodes n).blocks i) path = result at hput ⊢
  obtain ⟨t, freed⟩ := result
  cases freed with
  | false => exact hput
  | true =>
      refine hput.trans (hg.sync_inode_keeps (hput.sb.trans h.sb) ?_)
      show (f'.inodes n).id < _
      rw [h.ids n hn]
      exact hn

theorem Shrunk.put_inderect2_keeps (h : Shrunk g kind f f') (hf : Sound g kind f)
    (hg : DriveGeometry g) (hn : n < g.inodeNr.toNat) {base : Nat} (hbase : base / 256 < 256) :
    KeepsData g kind f'.fs (f'.fs.putBlockInInderect2 (f'.inodes n) base).1 := by
  have hnr : 13 < blockNr := by decide
  unfold Mounted.putBlockInInderect2
  by_cases hzero : (f'.inodes n).blocks 13 = 0
  · simp only [if_pos hzero]
    exact .refl g kind f'.fs
  have hroot : (f'.forest g kind).root (n, 13) = some ((f'.inodes n).blocks 13) :=
    if_pos ⟨hn, hnr, hzero⟩
  have ha : kind ((f'.inodes n).blocks 13) = some 2 := hf.root _ _ (h.kept (.root (n, 13)) _ hroot)
  have hchild := f'.child_eq (g := g) ha hbase
  simp only [if_neg hzero]
  split
  · exact .refl g kind f'.fs
  · next hone =>
      rw [if_neg hone] at hchild
      obtain ⟨k, hk, hnext⟩ := h.child_kind hf hchild
      rw [ha] at hk
      cases hk
      have hlast := f'.child_eq (g := g) hnext (Nat.mod_lt base (Nat.succ_pos 255))
      split
      · exact .refl g kind f'.fs
      · next htwo =>
          rw [if_neg htwo] at hlast
          obtain ⟨k, -, hderect⟩ := h.child_kind hf hlast
          exact hf.free_keeps hg h.sb hderect

theorem Shrunk.put_index_keeps (h : Shrunk g kind f f') (hf : Sound g kind f)
    (hg : DriveGeometry g) (hn : n < g.inodeNr.toNat) (hindex : index < blockLv3)
    {state : Mounted × Inode}
    (hput : f'.fs.putBlockByBlockIndex (f'.inodes n) index = some state) :
    KeepsData g kind f'.fs state.1 := by
  obtain ⟨hi, hlength, hpath⟩ := pointer_path_spec hindex
  by_cases hlevel : (pointerPath index).1 = 13
  · obtain ⟨base, hbase, -, hcall⟩ := put_block_second f'.fs (f'.inodes n) hindex hlevel
    rw [hcall] at hput
    cases hput
    exact h.put_inderect2_keeps hf hg hn hbase
  · rw [put_block_path _ _ hindex hlevel] at hput
    cases hput
    exact h.put_block_keeps hf hg hn hi hlength hpath

/-- The loop of `BOFS_ReleaseInodeData`. -/
theorem Shrunk.release_blocks_keeps (h : Shrunk g kind f f') (hf : Sound g kind f)
    (hg : DriveGeometry g) (hn : n < g.inodeNr.toNat) {blocks : Nat}
    (hle : index + blocks ≤ blockLv3) {state : Mounted × Inode}
    (hrun : f'.fs.releaseBlocks (f'.inodes n) index blocks = some state) :
    KeepsData g kind f'.fs state.1 := by
  induction blocks generalizing f' index with
  | zero =>
      cases hrun
      exact .refl g kind f'.fs
  | succ blocks ih =>
      have hindex : index < blockLv3 := by omega
      obtain ⟨first, freed, hput, hputs⟩ := h.put_block_by_block_index hf hg hn hindex
      have hinode : (f'.store n first).inodes n = first.2 := Function.update_self ..
      rw [Mounted.releaseBlocks, hput, Option.bind_some, ← hinode] at hrun
      exact (h.put_index_keeps hf hg hn hindex hput).trans
        (ih (h.puts hputs) (by omega) hrun)

theorem Sound.release_keeps (h : Sound g kind f) (hg : DriveGeometry g) (hn : n < g.inodeNr.toNat)
    {state : Mounted × Inode} (hrun : f.fs.releaseInodeData (f.inodes n) = some state) :
    KeepsData g kind f.fs state.1 := by
  unfold Mounted.releaseInodeData at hrun
  split at hrun
  · cases hrun
    exact .refl g kind f.fs
  · rw [h.block_size hg] at hrun
    have hlt := blocks_of_size_lt (f.inodes n).size.toNat
    exact h.shrunk.release_blocks_keeps h hg hn (by omega) hrun

/-! ## The other files -/

/-- The files without the blocks of an inode. -/
def Files.without (f : Files) (n : Nat) : Files :=
  { f with inodes := Function.update f.inodes n { f.inodes n with blocks := fun _ => 0 } }

theorem Files.without_of_ne (f : Files) {m : Nat} (hm : m ≠ n) :
    (f.without n).inodes m = f.inodes m := Function.update_of_ne hm _ _

theorem Files.without_blocks (f : Files) (n i : Nat) : ((f.without n).inodes n).blocks i = 0 := by
  show (Function.update f.inodes n _ n).blocks i = 0
  rw [Function.update_self]

open Classical in
/-- The kinds of the blocks that the inode does not hold. -/
noncomputable def Files.kindWithout (f : Files) (n : Nat) (kind : Nat → Option Nat) (b : Nat) :
    Option Nat :=
  if f.Holds n b then none else kind b

theorem Files.kind_without {b : Nat} (hb : ¬f.Holds n b) : f.kindWithout n kind b = kind b :=
  if_neg hb

theorem Files.kind_without_some {b k : Nat} (hb : f.kindWithout n kind b = some k) :
    ¬f.Holds n b ∧ kind b = some k := by
  unfold Files.kindWithout at hb
  split at hb
  · cases hb
  · next hnot => exact ⟨hnot, hb⟩

/-- What a release does to the files: it puts blocks of the inode back, and the blocks of data and
the other inodes are as they were. -/
structure Releases (g : Geometry) (kind : Nat → Option Nat) (n : Nat) (f f' : Files)
    (put freed : Nat → Prop) : Prop where
  puts : Puts g kind n f f' put freed
  keeps : KeepsData g kind f.fs f'.fs
  others : ∀ m, m ≠ n → f'.inodes m = f.inodes m

variable {put freed : Nat → Prop}

theorem Releases.refl (g : Geometry) (kind : Nat → Option Nat) (n : Nat) (f : Files) :
    Releases g kind n f f (fun _ => False) fun _ => False :=
  ⟨.refl g kind n f, .refl g kind f.fs, fun _ _ => rfl⟩

section

variable (h : Placed g kind f) (hn : n < g.inodeNr.toNat) (hrel : Releases g kind n f f' put freed)
include h hn hrel

/-- A pointer that is left is one that was there, of another file. -/
theorem Releases.slot {slot : Forest.Slot (Nat × Nat) Nat} {b : Nat}
    (hb : ((f'.without n).forest g (f.kindWithout n kind)).value slot = some b) :
    (f.forest g kind).value slot = some b ∧ ¬f.Holds n b := by
  cases slot with
  | root r =>
      have hr : r.1 ≠ n := by
        rintro rfl
        simp only [Forest.value, Files.forest, Files.without_blocks] at hb
        rw [if_neg fun hc => hc.2.2 rfl] at hb
        cases hb
      have hroot : (f.forest g kind).root r = some b := by
        simp only [Forest.value, Files.forest, f'.without_of_ne hr, hrel.others _ hr] at hb
        exact hb
      refine ⟨hroot, fun hheld => hr ?_⟩
      obtain ⟨i, path, hreach⟩ := (h.sound.holds_iff hn).mp hheld
      have hself : (f.forest g kind).reach r [] = some b := hroot
      exact (congrArg Prod.fst (h.sound.apart.reach_unique hself hreach).1)
  | child a j =>
      have hkind : ∃ k, f.kindWithout n kind a = some k := by
        cases hka : f.kindWithout n kind a with
        | none =>
            have hnone := (f'.without n).child_leaf g hka j
            rw [Forest.value, hnone] at hb
            cases hb
        | some k => exact ⟨k, rfl⟩
      obtain ⟨k, hka⟩ := hkind
      obtain ⟨hnot, -⟩ := Files.kind_without_some hka
      have hold : (f'.forest g kind).child a j = some b := by
        simp only [Forest.value, Files.forest, Files.kind_without hnot] at hb ⊢
        exact hb
      have hchild := hrel.puts.kept (.child a j) b hold
      refine ⟨hchild, fun hheld => hnot ?_⟩
      -- the block above one that the inode holds is the inode's, too
      obtain ⟨i, path, hreach⟩ := (h.sound.holds_iff hn).mp hheld
      obtain ⟨front, -, hfront⟩ := h.sound.apart.reach_parent hchild hreach
      exact (h.sound.holds_iff hn).mpr ⟨i, front, hfront⟩

theorem Releases.freed_held {b : Nat} (hb : freed b) : f.Holds n b :=
  hrel.puts.freed_held h.sound hn hb

/-- What is reached from another inode stays there. -/
theorem Releases.reach {m i b : Nat} {path : List Nat} (hm : m ≠ n)
    (hb : (f.forest g kind).reach (m, i) path = some b) :
    ((f'.without n).forest g (f.kindWithout n kind)).reach (m, i) path = some b := by
  have hnot : ∀ {q : List Nat} {a : Nat}, (f.forest g kind).reach (m, i) q = some a →
      ¬f.Holds n a := by
    intro q a ha hheld
    obtain ⟨i', path', ha'⟩ := (h.sound.holds_iff hn).mp hheld
    exact hm (congrArg Prod.fst (h.sound.apart.reach_unique ha ha').1)
  induction path using List.reverseRecOn generalizing b with
  | nil =>
      simp only [Forest.reach_nil, Files.forest, f'.without_of_ne hm, hrel.others m hm] at hb ⊢
      exact hb
  | append_singleton path j ih =>
      have hleft := (hrel.puts.left _ _ _ hb).resolve_right fun hfreed =>
        hnot hb (hrel.freed_held h hn hfreed)
      rw [Forest.reach_concat, Option.bind_eq_some_iff] at hb hleft
      obtain ⟨a, ha, -⟩ := hb
      obtain ⟨a', ha', hchild⟩ := hleft
      obtain rfl : a' = a := Option.some.inj ((hrel.puts.kept.reach ha').symm.trans ha)
      rw [Forest.reach_concat, ih ha, Option.bind_some]
      simp only [Files.forest, Files.kind_without (hnot ha)] at hchild ⊢
      exact hchild

theorem Releases.placed (hg : DriveGeometry g) (hfile : n ≠ 0) :
    Placed g (f.kindWithout n kind) (f'.without n) := by
  have hslot := @Releases.slot g kind f f' n put freed h hn hrel
  have hkind : ∀ {b k}, ¬f.Holds n b → kind b = some k → f.kindWithout n kind b = some k :=
    fun hnot hb => (Files.kind_without hnot).trans hb
  constructor
  case root =>
    have hroot : (f.forest g kind).reach (0, 0) [] = some (initSuperBlock g).dataStartLba :=
      h.root
    exact hrel.reach h hn (Ne.symm hfile) hroot
  case behind => exact fun b k hb => h.behind b k (Files.kind_without_some hb).2
  case sound =>
    constructor
    case sb => exact hrel.puts.frees.sb.trans h.sound.sb
    case bytes => exact hrel.keeps.bytes h.sound.bytes
    case len =>
      show (f'.fs.bitmap .sector).btmpBytesLen * 8 = _
      rw [hrel.puts.frees.len]
      exact h.sound.len
    case ids =>
      intro m hm
      refine Eq.trans ?_ ((hrel.puts.ids m).trans (h.sound.ids m hm))
      by_cases hmn : m = n
      · rw [hmn]
        show (Function.update f'.inodes n _ n).id = _
        rw [Function.update_self]
      · rw [f'.without_of_ne hmn]
    case used =>
      intro i hi hle
      refine (hrel.puts.frees.bits i hi).mpr ⟨h.sound.used i hi hle, fun hfreed => ?_⟩
      obtain ⟨i', path, hreach⟩ := (h.sound.holds_iff hn).mp (hrel.freed_held h hn hfreed)
      obtain ⟨k, hk, -⟩ := h.sound.kind_reach hreach
      rcases h.behind _ k hk with hstart | hbehind
      · -- the block of the root directory is another inode's
        rw [hstart] at hreach
        have hroot : (f.forest g kind).reach (0, 0) [] = some (initSuperBlock g).dataStartLba :=
          h.root
        exact hfile (congrArg Prod.fst (h.sound.apart.reach_unique hreach hroot).1)
      · rw [hg.idx_to_lba hi, Behind] at hbehind
        omega
    case marked =>
      intro b k hb
      obtain ⟨hnot, hb⟩ := Files.kind_without_some hb
      obtain ⟨i, hi, rfl, hset, hbehind⟩ := h.sound.marked b k hb
      exact ⟨i, hi, rfl, (hrel.puts.frees.bits i hi).mpr
        ⟨hset, fun hfreed => hnot (hrel.freed_held h hn hfreed)⟩, hbehind⟩
    case root =>
      intro r b hb
      have hvalue : ((f'.without n).forest g (f.kindWithout n kind)).value (.root r) = some b := hb
      obtain ⟨hold, hnot⟩ := hslot hvalue
      exact hkind hnot (h.sound.root r b hold)
    case child =>
      intro a j b hb
      have hvalue : ((f'.without n).forest g (f.kindWithout n kind)).value (.child a j) = some b :=
        hb
      obtain ⟨hold, hnot⟩ := hslot hvalue
      obtain ⟨k, ha, hchild⟩ := h.sound.child a j b hold
      refine ⟨k, ?_, hkind hnot hchild⟩
      cases hka : f.kindWithout n kind a with
      | none =>
          have hnone := (f'.without n).child_leaf g hka j
          rw [hb] at hnone
          cases hnone
      | some k' => rw [← (Files.kind_without_some hka).2, ha]
    case apart =>
      exact fun slot slot' a ha ha' =>
        h.sound.apart slot slot' a (hslot ha).1 (hslot ha').1

/-- The other files have their bytes. -/
theorem Releases.byte (hg : DriveGeometry g) (hfile : n ≠ 0) {m i : Nat} {b : UInt8}
    (hm : m < g.inodeNr.toNat) (hmn : m ≠ n) (hm0 : m ≠ 0) (hb : f.byte m i = some b) :
    (f'.without n).byte m i = some b := by
  have hplaced := hrel.placed h hn hg hfile
  rw [Files.byte_eq hg h.sound, Option.map_eq_some_iff] at hb
  obtain ⟨lba, hlba, hbyte⟩ := hb
  obtain ⟨hindex, hreach, hkind⟩ := h.sound.data_kind hm hlba
  have hblock : (f'.without n).fs.dataBlock ((f'.without n).inodes m) (i / 1024) = some lba := by
    rw [hplaced.sound.data_block_eq hm hindex]
    exact hrel.reach h hn hmn hreach
  rw [Files.byte_eq hg hplaced.sound, hblock, Option.map_some]
  refine congrArg some ((congrFun ?_ (i % 1024)).trans hbyte)
  exact hrel.keeps.data lba hkind (h.data_behind hm hm0 hlba)

end

/-- `BOFS_ReleaseInodeData` releases. -/
theorem Sound.releases (h : Sound g kind f) (hg : DriveGeometry g) (hn : n < g.inodeNr.toNat) :
    ∃ state put freed, f.fs.releaseInodeData (f.inodes n) = some state ∧
      Releases g kind n f (f.store n state) put freed := by
  obtain ⟨state, freed, hrun, hputs⟩ := h.release_inode_data hg hn
  exact ⟨state, _, freed, hrun, hputs, h.release_keeps hg hn hrun,
    fun m hm => Function.update_of_ne hm _ _⟩

end XBook.Bofs
