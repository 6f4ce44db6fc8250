import XBook.Fs.BlockMap

/-!
# Putting back a block of an inode

`PutBlockByBlockIndex` of `fs/bofs/inode.c`, which frees the block of an index, with the indirect
blocks that this empties. Behind the second level the block is freed without its indirect blocks.
Read `PutSpec` first, for what happens along the pointers to one block; `Puts` says what a part of a
release does to the pointers of all inodes.
-/

namespace XBook.Bofs

namespace Mounted

/-- `IsEmprtyBlock`: no word of the block is set. -/
def isEmprtyBlock (block : Nat → UInt8) (size : Nat) : Bool :=
  (List.range (size / 4)).all fun i => wordAt block i == 0

/-- Frees the block behind some pointers, and the indirect blocks that are empty then. The answer is
whether the first block has been freed, so that the pointer to it has to go. -/
def putPointers (s : Mounted) (inderect : Nat) : List Nat → Mounted × Bool
  | [] => (s.freeOneSector inderect, true)
  | i :: path =>
      let buffer := s.blocks inderect
      if wordAt buffer i = 0 then (s, false)
      else
        let (s, freed) := s.putPointers (wordAt buffer i) path
        if freed then
          let buffer := patch buffer (4 * i) (fieldBytes 0)
          if isEmprtyBlock buffer s.sb.blockSize then (s.freeOneSector inderect, true)
          else ({ s with blocks := blockWrite s.blocks inderect buffer }, false)
        else (s, false)

/-- Frees the block behind a pointer of the inode and some pointers. -/
def putBlock (s : Mounted) (inode : Inode) (i : Nat) (path : List Nat) : Mounted × Inode :=
  if inode.blocks i = 0 then (s, inode)
  else
    let (s, freed) := s.putPointers (inode.blocks i) path
    if freed then
      let inode := inode.setBlock i 0
      (s.syncInode inode, inode)
    else (s, inode)

/-- `PutBlockInInderect1`. -/
def putBlockInInderect1 (s : Mounted) (inode : Inode) (base : Nat) : Mounted × Inode :=
  s.putBlock inode 12 [base]

/-- `PutBlockInInderect2`. It returns when it has freed the block, before the pointer is zeroed on
the disk and the indirect blocks are looked at. -/
def putBlockInInderect2 (s : Mounted) (inode : Inode) (base : Nat) : Mounted × Inode :=
  let idxInInderect1 := base / 256
  let idxInInderect2 := base % 256
  if inode.blocks 13 = 0 then (s, inode)
  else
    let inderect2 := wordAt (s.blocks (inode.blocks 13)) idxInInderect1
    if inderect2 = 0 then (s, inode)
    else
      let derect := wordAt (s.blocks inderect2) idxInInderect2
      if derect = 0 then (s, inode) else (s.freeOneSector derect, inode)

/-- `PutBlockInInderect3`. -/
def putBlockInInderect3 (s : Mounted) (inode : Inode) (base : Nat) : Mounted × Inode :=
  if base < 256 then s.putBlock inode 14 [0, 0, base]
  else if base < 256 * 256 then s.putBlock inode 14 [0, base / 256, base % 256]
  else if base < 256 * 256 * 256 then
    let idxInInderect1 := base / (256 * 256)
    let base := base - idxInInderect1 * (256 * 256)
    s.putBlock inode 14 [idxInInderect1, base / 256, base % 256]
  else s.putBlock inode 14 [0, 0, 0]

/-- `PutBlockByBlockIndex`, with `none` for `-1`. -/
def putBlockByBlockIndex (s : Mounted) (inode : Inode) (index : Nat) : Option (Mounted × Inode) :=
  if index < blockLv0 then some (s.putBlock inode index [])
  else if index < blockLv1 then some (s.putBlockInInderect1 inode (index - blockLv0))
  else if index < blockLv2 then some (s.putBlockInInderect2 inode (index - blockLv1))
  else if index < blockLv3 then some (s.putBlockInInderect3 inode (index - blockLv2))
  else none

end Mounted

variable {g : Geometry} {kind : Nat → Option Nat} {f : Files}

/-! ## Freeing sectors -/

/-- The bits of some blocks are cleared. -/
structure Frees (g : Geometry) (s t : Mounted) (freed : Nat → Prop) : Prop where
  sb : t.sb = s.sb
  len : (t.bitmap .sector).btmpBytesLen = (s.bitmap .sector).btmpBytesLen
  bits : ∀ i < sectorBits g, (t.bitmap .sector).bit i = true ↔
    (s.bitmap .sector).bit i = true ∧ ¬ freed ((initSuperBlock g).idxToLba i)

theorem Frees.trans {s t u : Mounted} {freed freed' : Nat → Prop} (h : Frees g s t freed)
    (h' : Frees g t u freed') : Frees g s u fun b => freed b ∨ freed' b := by
  refine ⟨h'.sb.trans h.sb, h'.len.trans h.len, fun i hi => ?_⟩
  rw [h'.bits i hi, h.bits i hi, and_assoc, not_or]

theorem Frees.congr {s t : Mounted} {freed freed' : Nat → Prop} (h : Frees g s t freed)
    (heq : ∀ b, freed b ↔ freed' b) : Frees g s t freed' := by
  refine ⟨h.sb, h.len, fun i hi => ?_⟩
  rw [h.bits i hi, heq]

theorem Frees.refl (g : Geometry) (s : Mounted) : Frees g s s fun _ => False :=
  ⟨rfl, rfl, fun _ _ => (and_iff_left not_false).symm⟩

/-- The indirect blocks hold what they held. -/
def SameWords (kind : Nat → Option Nat) (s t : Mounted) : Prop :=
  ∀ a k, kind a = some (k + 1) → ∀ j < 256, wordAt (t.blocks a) j = wordAt (s.blocks a) j

theorem DriveGeometry.lba_to_idx (hg : DriveGeometry g) {i : Nat} (hi : i < sectorBits g) :
    (initSuperBlock g).lbaToIdx ((initSuperBlock g).idxToLba i) = i := by
  have hstop := hg.stop
  have hle := sector_bits_le g
  have hdata := data_offset_le g
  have hplace := hg.idx_to_lba hi
  have hstart : (initSuperBlock g).dataStartLba = g.startSector.toNat + g.dataOffset := by
    rw [data_start_lba, Geometry.block, wrap_of_lt (by omega)]
  rw [SuperBlock.lbaToIdx, hplace, hstart, wrap_sub_of_le (by omega) (by omega)]
  omega

/-- `FreeOneSector` clears the bit of the block. -/
theorem Sound.free_one_sector (h : Sound g kind f) (hg : DriveGeometry g) {s : Mounted}
    (hsb : s.sb = initSuperBlock g) {a k : Nat} (ha : kind a = some k) :
    Frees g s (s.freeOneSector a) (· = a) ∧ SameWords kind s (s.freeOneSector a) := by
  obtain ⟨i, hi, rfl, -, -⟩ := h.marked a k ha
  have hstop := hg.stop
  have hle := sector_bits_le g
  have hidx : s.sb.lbaToIdx ((initSuperBlock g).idxToLba i) = i := by
    rw [hsb]
    exact hg.lba_to_idx hi
  have hfree : s.freeOneSector ((initSuperBlock g).idxToLba i) =
      (s.setBitmap .sector (bitmapSet (s.bitmap .sector) i false)).syncBitmap .sector i := by
    simp only [Mounted.freeOneSector, hidx, Mounted.freeBitmap]
    rw [if_neg (by omega), Option.getD_some]
  rw [hfree]
  refine ⟨⟨rfl, ?_, fun j hj => ?_⟩, fun b k' hb j hj => ?_⟩
  · simp only [Mounted.syncBitmap_bitmap, Mounted.setBitmap_bitmap, Function.update_self,
      bitmap_set_len]
  · simp only [Mounted.syncBitmap_bitmap, Mounted.setBitmap_bitmap, Function.update_self,
      bit_bitmap_set]
    have hsame : (initSuperBlock g).idxToLba j = (initSuperBlock g).idxToLba i ↔ j = i := by
      rw [hg.idx_to_lba hj, hg.idx_to_lba hi]
      omega
    rw [hsame]
    by_cases hji : j = i
    · simp [hji]
    · simp [hji]
  · have hbehind := h.table_behind hg hb
    have hsync := hg.sync_before hi
    have hne : b ≠ wrap (s.sb.sectorBitmapLba + i / (8 * sectorSize)) := by
      rw [hsb]
      omega
    exact congrArg (wordAt · j) (block_write_other _ _ hne)

/-! ## Along the pointers -/

/-- What `putPointers` does: nothing when the block is not there; or it frees all blocks from the
first on, which are then the only ones; or it frees the blocks behind a pointer of an indirect block
that has others, and zeroes this pointer. -/
inductive PutSpec (g : Geometry) (kind : Nat → Option Nat) (s : Mounted)
    (forest : Forest (Nat × Nat) Nat) (a : Nat) (path : List Nat) : Mounted × Bool → Prop
  | missing (hnone : forest.walk (some a) path = none) : PutSpec g kind s forest a path (s, false)
  | whole {t : Mounted} (hsome : forest.walk (some a) path ≠ none)
      (honly : ∀ q b, forest.walk (some a) q = some b → q <+: path)
      (hfrees : Frees g s t fun b => ∃ q, forest.walk (some a) q = some b)
      (hwords : SameWords kind s t) : PutSpec g kind s forest a path (t, true)
  | cut {t : Mounted} {front rest : List Nat} {j d c : Nat} (hpath : path = front ++ j :: rest)
      (hfront : forest.walk (some a) front = some d) (hchild : forest.child d j = some c)
      (hsome : forest.walk (some c) rest ≠ none)
      (honly : ∀ q b, forest.walk (some c) q = some b → q <+: rest)
      (hother : ∃ j', j' ≠ j ∧ forest.child d j' ≠ none)
      (hfrees : Frees g s t fun b => ∃ q, forest.walk (some c) q = some b)
      (hwords : ∀ b k, kind b = some (k + 1) → ∀ m < 256, wordAt (t.blocks b) m =
        if b = d ∧ m = j then 0 else wordAt (s.blocks b) m) :
      PutSpec g kind s forest a path (t, false)

/-- Files whose pointers are some of those of sound files. -/
structure Shrunk (g : Geometry) (kind : Nat → Option Nat) (f f' : Files) : Prop where
  sb : f'.fs.sb = initSuperBlock g
  ids : ∀ n < g.inodeNr.toNat, (f'.inodes n).id = n
  kept : (f'.forest g kind).Extends (f.forest g kind)

theorem Sound.shrunk (h : Sound g kind f) : Shrunk g kind f f := ⟨h.sb, h.ids, .refl _⟩

theorem Files.child_eq (f : Files) {a k : Nat} (ha : kind a = some (k + 1)) {j : Nat}
    (hj : j < 256) : (f.forest g kind).child a j =
      if wordAt (f.fs.blocks a) j = 0 then none else some (wordAt (f.fs.blocks a) j) := by
  simp only [Files.forest, ha]
  split
  · next hc => rw [if_neg hc.2.2]
  · next hc =>
      have hzero : wordAt (f.fs.blocks a) j = 0 := by
        by_contra hne
        exact hc ⟨Nat.succ_pos k, hj, hne⟩
      rw [if_pos hzero]

/-- A pointer of an indirect block has an index. -/
theorem Files.child_index (f : Files) {a j : Nat} (h : (f.forest g kind).child a j ≠ none) :
    j < 256 := by
  by_contra hj
  exact h (if_neg fun hc => hj hc.2.1)

theorem is_emprty_block_iff (block : Nat → UInt8) :
    Mounted.isEmprtyBlock block 1024 = true ↔ ∀ i < 256, wordAt block i = 0 := by
  simp only [Mounted.isEmprtyBlock, List.all_eq_true, List.mem_range, beq_iff_eq]

variable {f' : Files}

theorem Shrunk.child_kind (h : Shrunk g kind f f') (hf : Sound g kind f) {a j c : Nat}
    (hc : (f'.forest g kind).child a j = some c) : ∃ k, kind a = some (k + 1) ∧ kind c = some k :=
  hf.child a j c (h.kept (.child a j) c hc)

/-- A block of data has nothing behind it. -/
theorem Shrunk.walk_data (h : Shrunk g kind f f') (hf : Sound g kind f) {a : Nat}
    (ha : kind a = some 0) {q : List Nat} {b : Nat}
    (hb : (f'.forest g kind).walk (some a) q = some b) : q = [] ∧ b = a := by
  refine Forest.walk_leaf (fun j => ?_) hb
  cases hc : (f'.forest g kind).child a j with
  | none => rfl
  | some c =>
      obtain ⟨k, hk, -⟩ := h.child_kind hf hc
      rw [ha] at hk
      cases hk

/-- The words of a block with a pointer zeroed. -/
theorem word_zeroed (block : Nat → UInt8) (j m : Nat) :
    wordAt (patch block (4 * j) (fieldBytes 0)) m = if m = j then 0 else wordAt block m :=
  word_patch block j m (Nat.two_pow_pos 32)

/-- A block without other pointers than one. -/
theorem Files.only_child (f : Files) {a k j : Nat} (ha : kind a = some (k + 1))
    (hempty : ∀ m < 256, wordAt (patch (f.fs.blocks a) (4 * j) (fieldBytes 0)) m = 0) {m c : Nat}
    (hm : (f.forest g kind).child a m = some c) : m = j := by
  by_contra hne
  have hlt := f.child_index (by rw [hm]; exact Option.some_ne_none c)
  have hword := hempty m hlt
  rw [word_zeroed, if_neg hne] at hword
  rw [f.child_eq ha hlt, if_pos hword] at hm
  cases hm

/-- A block with another pointer. -/
theorem Files.other_child (f : Files) {a k j : Nat} (ha : kind a = some (k + 1))
    (hother : ¬ ∀ m < 256, wordAt (patch (f.fs.blocks a) (4 * j) (fieldBytes 0)) m = 0) :
    ∃ m, m ≠ j ∧ (f.forest g kind).child a m ≠ none := by
  obtain ⟨m, hm⟩ := not_forall.mp hother
  obtain ⟨hlt, hword⟩ := Classical.not_imp.mp hm
  rw [word_zeroed] at hword
  have hne : m ≠ j := fun heq => hword (if_pos heq)
  rw [if_neg hne] at hword
  refine ⟨m, hne, ?_⟩
  rw [f.child_eq ha hlt, if_neg hword]
  exact Option.some_ne_none _

/-- The last pointer of an indirect block goes, and the indirect block with it. -/
theorem Sound.put_whole (hf : Sound g kind f) (hg : DriveGeometry g) {s t : Mounted} {a k j c : Nat}
    {path : List Nat} {forest : Forest (Nat × Nat) Nat} (ha : kind a = some (k + 1))
    (hchild : forest.child a j = some c) (hlast : ∀ m c', forest.child a m = some c' → m = j)
    (hsome : forest.walk (some c) path ≠ none)
    (honly : ∀ q b, forest.walk (some c) q = some b → q <+: path)
    (hfrees : Frees g s t fun b => ∃ q, forest.walk (some c) q = some b)
    (hwords : SameWords kind s t) (hsb : t.sb = initSuperBlock g) :
    PutSpec g kind s forest a (j :: path) (t.freeOneSector a, true) := by
  obtain ⟨hfrees', hwords'⟩ := hf.free_one_sector hg hsb ha
  refine .whole ?_ ?_ ((hfrees.trans hfrees').congr fun b => ⟨?_, ?_⟩) ?_
  · rw [Forest.walk_cons, hchild]
    exact hsome
  · intro q b hb
    rcases (Forest.walk_only_child hchild hlast).mp hb with ⟨rfl, -⟩ | ⟨q', rfl, hq⟩
    · exact List.nil_prefix
    · exact List.cons_prefix_cons.mpr ⟨rfl, honly q' b hq⟩
  · rintro (⟨q, hb⟩ | rfl)
    · exact ⟨j :: q, Forest.walk_cons_eq_some.mpr ⟨c, hchild, hb⟩⟩
    · exact ⟨[], rfl⟩
  · rintro ⟨q, hb⟩
    rcases (Forest.walk_only_child hchild hlast).mp hb with ⟨-, hba⟩ | ⟨q', -, hq⟩
    · exact .inr hba
    · exact .inl ⟨q', hq⟩
  · intro b k' hb m hm
    rw [hwords' b k' hb m hm, hwords b k' hb m hm]

/-- One pointer of an indirect block is zeroed. -/
theorem word_cut {s t : Mounted} {a j : Nat} (hwords : SameWords kind s t) {b k m : Nat}
    (hb : kind b = some (k + 1)) (hm : m < 256) :
    wordAt (blockWrite t.blocks a (patch (s.blocks a) (4 * j) (fieldBytes 0)) b) m =
      if b = a ∧ m = j then 0 else wordAt (s.blocks b) m := by
  rw [word_block_write _ _ _ _ hm]
  by_cases hba : b = a
  · subst hba
    rw [if_pos rfl, word_zeroed]
    by_cases hmj : m = j
    · rw [if_pos hmj, if_pos ⟨rfl, hmj⟩]
    · rw [if_neg hmj, if_neg fun hc => hmj hc.2]
  · rw [if_neg hba, if_neg fun hc => hba hc.1, hwords b k hb m hm]

/-- Each step along the pointers. -/
theorem Shrunk.put_pointers (h : Shrunk g kind f f') (hf : Sound g kind f) (hg : DriveGeometry g)
    {a : Nat} {path : List Nat} (ha : kind a = some path.length) (hpath : ∀ j ∈ path, j < 256) :
    PutSpec g kind f'.fs (f'.forest g kind) a path (f'.fs.putPointers a path) := by
  induction path generalizing a with
  | nil =>
      obtain ⟨hfrees, hwords⟩ := hf.free_one_sector hg h.sb ha
      refine .whole (Option.some_ne_none a) ?_ (hfrees.congr fun b => ⟨?_, ?_⟩) hwords
      · intro q b hb
        rw [(h.walk_data hf ha hb).1]
      · rintro rfl
        exact ⟨[], rfl⟩
      · rintro ⟨q, hb⟩
        exact (h.walk_data hf ha hb).2
  | cons j path ih =>
      have hj := hpath j (List.mem_cons_self ..)
      have hchild := f'.child_eq (g := g) ha hj
      rw [Mounted.putPointers]
      by_cases hzero : wordAt (f'.fs.blocks a) j = 0
      · rw [if_pos hzero]
        rw [if_pos hzero] at hchild
        refine .missing ?_
        rw [Forest.walk_cons, hchild, Forest.walk_none]
      rw [if_neg hzero]
      rw [if_neg hzero] at hchild
      obtain ⟨k, hk, hnext⟩ := h.child_kind hf hchild
      rw [ha] at hk
      cases hk
      have hrest := ih hnext fun j hj => hpath j (List.mem_cons_of_mem _ hj)
      generalize wordAt (f'.fs.blocks a) j = c at hchild hnext hrest ⊢
      generalize f'.fs.putPointers c path = result at hrest ⊢
      cases hrest with
      | missing hnone =>
          refine .missing ?_
          rw [Forest.walk_cons, hchild, hnone]
      | @cut t front rest j' d c' heq hfront hchild' hsome honly hother hfrees hwords =>
          have hlonger : j :: path = (j :: front) ++ j' :: rest := by
            rw [heq]
            rfl
          have hwalk : (f'.forest g kind).walk (some a) (j :: front) = some d := by
            rw [Forest.walk_cons, hchild, hfront]
          exact .cut hlonger hwalk hchild' hsome honly hother hfrees hwords
      | @whole t hsome honly hfrees hwords =>
          have hsb : t.sb = initSuperBlock g := hfrees.sb.trans h.sb
          have hbs : t.sb.blockSize = 1024 := by
            rw [hsb]
            exact hg.blockSize
          simp only [if_true, hbs]
          by_cases hempty : Mounted.isEmprtyBlock
              (patch (f'.fs.blocks a) (4 * j) (fieldBytes 0)) 1024 = true
          · rw [if_pos hempty]
            rw [is_emprty_block_iff] at hempty
            exact hf.put_whole hg ha hchild (fun m c' hm => f'.only_child ha hempty hm) hsome honly
              hfrees hwords hsb
          · rw [if_neg hempty]
            rw [is_emprty_block_iff] at hempty
            exact .cut (List.nil_append (j :: path)).symm rfl hchild hsome honly
              (f'.other_child ha hempty) ⟨hfrees.sb, hfrees.len, hfrees.bits⟩
                fun b k hb m hm => word_cut hwords hb hm

/-! ## What a part of the release does -/

open Mounted (pointerPath)

/-- Each indirect block of the inode has a pointer. -/
def Files.Filled (f : Files) (g : Geometry) (kind : Nat → Option Nat) (n : Nat) : Prop :=
  ∀ i path b, (f.forest g kind).reach (n, i) path = some b → path.length < height i →
    ∃ j, (f.forest g kind).child b j ≠ none

/-- The block is one of data that is put back, or an indirect block on the way to it, but none
behind the second level. -/
def OnWay (forest : Forest (Nat × Nat) Nat) (n : Nat) (put : Nat → Prop) (b : Nat) : Prop :=
  ∃ index, put index ∧ forest.reach (n, (pointerPath index).1) (pointerPath index).2 ≠ none ∧
    ∃ path, path <+: (pointerPath index).2 ∧
      forest.reach (n, (pointerPath index).1) path = some b ∧
        (path = (pointerPath index).2 ∨ (pointerPath index).1 ≠ 13)

/-- The blocks of some indices are put back: blocks are still there or freed, indirect blocks do not
stay without pointers, and nothing is freed besides. -/
structure Puts (g : Geometry) (kind : Nat → Option Nat) (n : Nat) (f f' : Files)
    (put freed : Nat → Prop) : Prop where
  frees : Frees g f.fs f'.fs freed
  ids : ∀ m, (f'.inodes m).id = (f.inodes m).id
  kept : (f'.forest g kind).Extends (f.forest g kind)
  left : ∀ r path b, (f.forest g kind).reach r path = some b →
    (f'.forest g kind).reach r path = some b ∨ freed b
  filled : f.Filled g kind n → f'.Filled g kind n
  gone : ∀ index, put index → (pointerPath index).1 ≠ 13 →
    (f'.forest g kind).reach (n, (pointerPath index).1) (pointerPath index).2 = none
  only : ∀ b, freed b → OnWay (f.forest g kind) n put b

variable {n index : Nat} {put put' freed freed' : Nat → Prop} {f'' : Files}

theorem reach_ne_none {forest forest' : Forest (Nat × Nat) Nat} (h : forest.Extends forest')
    {r : Nat × Nat} {path : List Nat} (hne : forest.reach r path ≠ none) :
    forest'.reach r path ≠ none := by
  obtain ⟨b, hb⟩ := Option.ne_none_iff_exists'.mp hne
  rw [h.reach hb]
  exact Option.some_ne_none b

theorem OnWay.extends {forest forest' : Forest (Nat × Nat) Nat} (hext : forest.Extends forest')
    (hput : ∀ index, put index → put' index) {b : Nat} (h : OnWay forest n put b) :
    OnWay forest' n put' b := by
  obtain ⟨index, hindex, hne, path, hprefix, hpath, hfull⟩ := h
  exact ⟨index, hput index hindex, reach_ne_none hext hne, path, hprefix, hext.reach hpath, hfull⟩

theorem Puts.refl (g : Geometry) (kind : Nat → Option Nat) (n : Nat) (f : Files) :
    Puts g kind n f f (fun _ => False) fun _ => False :=
  ⟨.refl g f.fs, fun _ => rfl, .refl _, fun _ _ _ h => .inl h, id, fun _ h => h.elim,
    fun _ h => h.elim⟩

theorem Puts.trans (h : Puts g kind n f f' put freed) (h' : Puts g kind n f' f'' put' freed') :
    Puts g kind n f f'' (fun index => put index ∨ put' index) fun b => freed b ∨ freed' b := by
  constructor
  case frees => exact h.frees.trans h'.frees
  case ids => exact fun m => (h'.ids m).trans (h.ids m)
  case kept => exact h'.kept.trans h.kept
  case left =>
    intro r path b hb
    rcases h.left r path b hb with hb | hfreed
    · exact (h'.left r path b hb).imp_right .inr
    · exact .inr (.inl hfreed)
  case filled => exact fun hfilled => h'.filled (h.filled hfilled)
  case gone =>
    intro index hindex hlevel
    rcases hindex with hput | hput
    · by_contra hne
      exact reach_ne_none h'.kept hne (h.gone index hput hlevel)
    · exact h'.gone index hput hlevel
  case only =>
    intro b hb
    rcases hb with hfreed | hfreed
    · exact (h.only b hfreed).extends (.refl _) fun _ => .inl
    · exact (h'.only b hfreed).extends h.kept fun _ => .inr

theorem Puts.congr (h : Puts g kind n f f' put freed) (heq : ∀ index, put index ↔ put' index) :
    Puts g kind n f f' put' freed :=
  ⟨h.frees, h.ids, h.kept, h.left, h.filled, fun index hput => h.gone index ((heq index).mpr hput),
    fun b hb => (h.only b hb).extends (.refl _) fun index => (heq index).mp⟩

theorem Shrunk.puts (h : Shrunk g kind f f') (h' : Puts g kind n f' f'' put freed) :
    Shrunk g kind f f'' :=
  ⟨h'.frees.sb.trans h.sb, fun m hm => (h'.ids m).trans (h.ids m hm), h'.kept.trans h.kept⟩

/-- The pointers stay as they are. -/
theorem Puts.of_forest_eq (hforest : f'.forest g kind = f.forest g kind)
    (hfrees : Frees g f.fs f'.fs freed) (hids : ∀ m, (f'.inodes m).id = (f.inodes m).id)
    (hgone : ∀ index, put index → (pointerPath index).1 ≠ 13 →
      (f.forest g kind).reach (n, (pointerPath index).1) (pointerPath index).2 = none)
    (honly : ∀ b, freed b → OnWay (f.forest g kind) n put b) : Puts g kind n f f' put freed := by
  refine ⟨hfrees, hids, ?_, ?_, ?_, ?_, honly⟩
  · rw [hforest]
    exact .refl _
  · rw [hforest]
    exact fun _ _ _ h => .inl h
  · unfold Files.Filled
    rw [hforest]
    exact id
  · rw [hforest]
    exact hgone

/-- Nothing is done where there is no block. -/
theorem Puts.missing (h : (f.forest g kind).reach (n, (pointerPath index).1)
    (pointerPath index).2 = none) : Puts g kind n f f (· = index) fun _ => False := by
  refine .of_forest_eq rfl (.refl g f.fs) (fun _ => rfl) ?_ fun _ hfreed => hfreed.elim
  rintro _ rfl -
  exact h

theorem Files.Filled.cut (h : f.Filled g kind n) {slot : Forest.Slot (Nat × Nat) Nat}
    (hcut : (f.forest g kind).Cut (f'.forest g kind) slot)
    (hother : ∀ a j, slot = .child a j → ∃ m, m ≠ j ∧ (f.forest g kind).child a m ≠ none) :
    f'.Filled g kind n := by
  intro i path b hb hlength
  obtain ⟨j, hj⟩ := h i path b (hcut.extends.reach hb) hlength
  by_cases hslot : slot = .child b j
  · obtain ⟨m, hne, hm⟩ := hother b j hslot
    have hstays := hcut.others (.child b m) fun heq => by
      rw [hslot] at heq
      exact hne (Forest.Slot.child.inj heq).2
    exact ⟨m, ne_of_eq_of_ne hstays hm⟩
  · exact ⟨j, ne_of_eq_of_ne (hcut.others (.child b j) (Ne.symm hslot)) hj⟩

/-- A pointer goes, with all that is behind it. -/
theorem Puts.of_cut (hapart : (f.forest g kind).Apart) {slot : Forest.Slot (Nat × Nat) Nat}
    {i c : Nat} {front rest : List Nat} (hindex : pointerPath index = (i, front ++ rest))
    (hi : i ≠ 13) (hslot : (f.forest g kind).value slot = some c)
    (hfront : (f.forest g kind).reach (n, i) front = some c)
    (hcut : (f.forest g kind).Cut (f'.forest g kind) slot)
    (hother : ∀ a j, slot = .child a j → ∃ m, m ≠ j ∧ (f.forest g kind).child a m ≠ none)
    (hsome : (f.forest g kind).walk (some c) rest ≠ none)
    (honly : ∀ q b, (f.forest g kind).walk (some c) q = some b → q <+: rest)
    (hfrees : Frees g f.fs f'.fs fun b => ∃ q, (f.forest g kind).walk (some c) q = some b)
    (hids : ∀ m, (f'.inodes m).id = (f.inodes m).id) :
    Puts g kind n f f' (· = index) fun b => ∃ q, (f.forest g kind).walk (some c) q = some b := by
  have hbelow : ∀ b, (f.forest g kind).Below slot b ↔
      ∃ q, (f.forest g kind).walk (some c) q = some b := by
    intro b
    rw [Forest.Below, hslot]
  have hwalk : ∀ q, (f.forest g kind).reach (n, i) (front ++ q) =
      (f.forest g kind).walk (some c) q := by
    intro q
    rw [Forest.reach_append, hfront]
  refine ⟨hfrees, hids, hcut.extends, ?_, fun h => h.cut hcut hother, ?_, ?_⟩
  · intro r path b hb
    exact (hcut.reach hb).imp_right (hbelow b).mp
  · rintro _ rfl -
    rw [hindex]
    by_contra hne
    obtain ⟨b, hb⟩ := Option.ne_none_iff_exists'.mp hne
    refine hcut.unreached hapart hb ((hbelow b).mpr ⟨rest, ?_⟩)
    rw [← hwalk, hcut.extends.reach hb]
  · rintro b ⟨q, hq⟩
    refine ⟨index, rfl, ?_, front ++ q, ?_, ?_, .inr ?_⟩
    · rw [hindex, hwalk]
      exact hsome
    · rw [hindex]
      exact (List.prefix_append_right_inj front).mpr (honly q b hq)
    · rw [hindex, hwalk]
      exact hq
    · rw [hindex]
      exact hi

/-! ## One block -/

/-- A pointer of the inode is zeroed. -/
theorem Shrunk.cut_root (h : Shrunk g kind f f') (hf : Sound g kind f) (hg : DriveGeometry g)
    (hn : n < g.inodeNr.toNat) {i : Nat} {t : Mounted} (hsb : t.sb = initSuperBlock g)
    (hwords : SameWords kind f'.fs t) :
    (f'.forest g kind).Cut ((f'.store n (t.syncInode ((f'.inodes n).setBlock i 0),
      (f'.inodes n).setBlock i 0)).forest g kind) (.root (n, i)) := by
  have hid : ((f'.inodes n).setBlock i 0).id < g.inodeNr.toNat := by
    show (f'.inodes n).id < _
    rw [h.ids n hn]
    exact hn
  constructor
  case empty =>
    refine if_neg fun hc => hc.2.2 ?_
    rw [Files.store_blocks, if_pos rfl]
  case others =>
    intro slot hslot
    cases slot with
    | root r =>
        have hne : r ≠ (n, i) := fun heq => hslot (congrArg _ heq)
        simp only [Forest.value, Files.forest, Files.store_blocks, if_neg hne]
    | child a j =>
        refine Files.child_congr rfl fun k ha hj => ?_
        have hbehind := hf.table_behind hg ha
        refine (congrArg (wordAt · j) ?_).trans (hwords a k ha j hj)
        exact hg.sync_inode_blocks hsb hid (by omega)

/-- A pointer of an indirect block is zeroed. -/
theorem Files.cut_child (f : Files) (g : Geometry) {f' : Files} {d j : Nat}
    (hinodes : f'.inodes = f.inodes)
    (hwords : ∀ b k, kind b = some (k + 1) → ∀ m < 256, wordAt (f'.fs.blocks b) m =
      if b = d ∧ m = j then 0 else wordAt (f.fs.blocks b) m) :
    (f.forest g kind).Cut (f'.forest g kind) (.child d j) := by
  constructor
  case empty =>
    show (f'.forest g kind).child d j = none
    cases hd : kind d with
    | none => exact f'.child_leaf g hd j
    | some k =>
        refine if_neg fun hc => ?_
        obtain ⟨hpos, hj, hne⟩ := hc
        rw [hd, Option.getD_some] at hpos
        obtain ⟨k, rfl⟩ := Nat.exists_eq_succ_of_ne_zero (Nat.ne_of_gt hpos)
        exact hne ((hwords d k hd j hj).trans (if_pos ⟨rfl, rfl⟩))
  case others =>
    intro slot hslot
    cases slot with
    | root r => simp only [Forest.value, Files.forest, hinodes]
    | child b m =>
        refine Files.child_congr rfl fun k hb hm => (hwords b k hb m hm).trans (if_neg fun hc => ?_)
        exact hslot (congrArg₂ _ hc.1 hc.2)

theorem Shrunk.apart (h : Shrunk g kind f f') (hf : Sound g kind f) : (f'.forest g kind).Apart :=
  fun slot slot' a ha ha' => hf.apart slot slot' a (h.kept slot a ha) (h.kept slot' a ha')

theorem Files.store_ids (f : Files) {state : Mounted × Inode}
    (hid : state.2.id = (f.inodes n).id) (m : Nat) :
    ((f.store n state).inodes m).id = (f.inodes m).id := by
  simp only [Files.store, Function.update_apply]
  split
  · next heq => rw [hid, heq]
  · rfl

/-- A block is put back with the indirect blocks that have no other pointer. -/
theorem Shrunk.put_block (h : Shrunk g kind f f') (hf : Sound g kind f) (hg : DriveGeometry g)
    (hn : n < g.inodeNr.toNat) {i : Nat} {path : List Nat} (hi : i < blockNr)
    (hlength : path.length = height i) (hpath : ∀ j ∈ path, j < 256) (hlevel : i ≠ 13)
    (hindex : pointerPath index = (i, path)) :
    ∃ freed, Puts g kind n f' (f'.store n (f'.fs.putBlock (f'.inodes n) i path)) (· = index)
      freed := by
  rw [Mounted.putBlock]
  by_cases hzero : (f'.inodes n).blocks i = 0
  · rw [if_pos hzero, Files.store_self]
    have hempty : (f'.forest g kind).reach (n, i) [] = none := if_neg fun hc => hc.2.2 hzero
    refine ⟨_, .missing ?_⟩
    rw [hindex]
    exact Forest.reach_append_none hempty path
  rw [if_neg hzero]
  have hroot : (f'.forest g kind).root (n, i) = some ((f'.inodes n).blocks i) :=
    if_pos ⟨hn, hi, hzero⟩
  have ha : kind ((f'.inodes n).blocks i) = some path.length := by
    rw [hf.root _ _ (h.kept (.root (n, i)) _ hroot), hlength]
  have hput := h.put_pointers hf hg ha hpath
  generalize (f'.inodes n).blocks i = a at hroot hput ⊢
  generalize f'.fs.putPointers a path = result at hput ⊢
  cases hput with
  | missing hnone =>
      simp only [Bool.false_eq_true, if_false, Files.store_self]
      refine ⟨_, .missing ?_⟩
      rw [hindex, Forest.reach_eq_walk, hroot]
      exact hnone
  | @whole t hsome honly hfrees hwords =>
      simp only [if_true]
      have hcut := h.cut_root hf hg hn (hfrees.sb.trans h.sb) hwords (i := i)
      have hslot : (f'.forest g kind).value (.root (n, i)) = some a := hroot
      have hfront : pointerPath index = (i, [] ++ path) := hindex
      exact ⟨_, .of_cut (h.apart hf) hfront hlevel hslot hroot hcut (fun a j heq => by cases heq)
        hsome honly ⟨hfrees.sb, hfrees.len, hfrees.bits⟩ (f'.store_ids rfl)⟩
  | @cut t front rest j d c heq hfront hchild hsome honly hother hfrees hwords =>
      simp only [Bool.false_eq_true, if_false]
      have hinodes : (f'.store n (t, f'.inodes n)).inodes = f'.inodes := Function.update_eq_self ..
      have hcut := f'.cut_child g hinodes hwords
      have hreach : (f'.forest g kind).reach (n, i) (front ++ [j]) = some c := by
        rw [Forest.reach_concat, Forest.reach_eq_walk, hroot, hfront]
        exact hchild
      rw [heq, List.append_cons] at hindex
      have hslot : (f'.forest g kind).value (.child d j) = some c := hchild
      refine ⟨_, .of_cut (h.apart hf) hindex hlevel hslot hreach hcut ?_ hsome honly
        ⟨hfrees.sb, hfrees.len, hfrees.bits⟩ (f'.store_ids rfl)⟩
      intro a m hslot
      cases hslot
      exact hother

/-- Behind the second level the block of data is put back, and the pointers stay. -/
theorem Shrunk.put_block_in_inderect2 (h : Shrunk g kind f f') (hf : Sound g kind f)
    (hg : DriveGeometry g) (hn : n < g.inodeNr.toNat) {base : Nat}
    (hbase : base / 256 < 256)
    (hindex : pointerPath index = (13, [base / 256, base % 256])) :
    ∃ freed, Puts g kind n f' (f'.store n (f'.fs.putBlockInInderect2 (f'.inodes n) base))
      (· = index) freed := by
  have hreach : (f'.forest g kind).reach (n, (pointerPath index).1) (pointerPath index).2 =
      (f'.forest g kind).walk ((f'.forest g kind).root (n, 13)) [base / 256, base % 256] := by
    rw [hindex, Forest.reach_eq_walk]
  have hnr : 13 < blockNr := by decide
  unfold Mounted.putBlockInInderect2
  by_cases hzero : (f'.inodes n).blocks 13 = 0
  · have hempty : (f'.forest g kind).root (n, 13) = none := if_neg fun hc => hc.2.2 hzero
    rw [hempty, Forest.walk_none] at hreach
    simp only [if_pos hzero, Files.store_self]
    exact ⟨_, .missing hreach⟩
  have hroot : (f'.forest g kind).root (n, 13) = some ((f'.inodes n).blocks 13) :=
    if_pos ⟨hn, hnr, hzero⟩
  have ha : kind ((f'.inodes n).blocks 13) = some 2 := hf.root _ _ (h.kept (.root (n, 13)) _ hroot)
  have hchild := f'.child_eq (g := g) ha hbase
  rw [hroot, Forest.walk_cons, hchild] at hreach
  simp only [if_neg hzero]
  by_cases hzero1 : wordAt (f'.fs.blocks ((f'.inodes n).blocks 13)) (base / 256) = 0
  · rw [if_pos hzero1, Forest.walk_none] at hreach
    simp only [if_pos hzero1, Files.store_self]
    exact ⟨_, .missing hreach⟩
  rw [if_neg hzero1] at hchild hreach
  simp only [if_neg hzero1]
  generalize wordAt (f'.fs.blocks ((f'.inodes n).blocks 13)) (base / 256) = inderect2
    at hchild hreach ⊢
  obtain ⟨k, hk, hinderect2⟩ := h.child_kind hf hchild
  rw [ha] at hk
  cases hk
  have hlast := f'.child_eq (g := g) hinderect2 (Nat.mod_lt base (Nat.succ_pos 255))
  rw [Forest.walk_cons, hlast] at hreach
  by_cases hzero2 : wordAt (f'.fs.blocks inderect2) (base % 256) = 0
  · rw [if_pos hzero2, Forest.walk_none] at hreach
    simp only [if_pos hzero2, Files.store_self]
    exact ⟨_, .missing hreach⟩
  rw [if_neg hzero2] at hlast hreach
  simp only [if_neg hzero2]
  generalize wordAt (f'.fs.blocks inderect2) (base % 256) = derect at hlast hreach ⊢
  obtain ⟨k, hk, hderect⟩ := h.child_kind hf hlast
  obtain ⟨hfrees, hwords⟩ := hf.free_one_sector hg h.sb hderect
  have hforest : (f'.store n (f'.fs.freeOneSector derect, f'.inodes n)).forest g kind =
      f'.forest g kind := by
    refine Files.forest_congr (fun m => ?_) hwords
    rw [Files.store, Function.update_eq_self]
  refine ⟨(· = derect), .of_forest_eq hforest ⟨hfrees.sb, hfrees.len, hfrees.bits⟩
    (f'.store_ids rfl) ?_ ?_⟩
  · rintro _ rfl hlevel
    rw [hindex] at hlevel
    exact absurd rfl hlevel
  · rintro _ rfl
    rw [Forest.walk_nil] at hreach
    refine ⟨index, rfl, ?_, _, List.prefix_rfl, hreach, .inl rfl⟩
    rw [hreach]
    exact Option.some_ne_none _

/-- The levels of `PutBlockByBlockIndex` are the path of the pointers, too. -/
theorem put_block_path (s : Mounted) (inode : Inode) {index : Nat} (hindex : index < blockLv3)
    (hlevel : (pointerPath index).1 ≠ 13) : s.putBlockByBlockIndex inode index =
      some (s.putBlock inode (pointerPath index).1 (pointerPath index).2) := by
  unfold Mounted.putBlockByBlockIndex
  rcases pointer_path_cases hindex with ⟨hlt, heq⟩ | ⟨hle, hlt, heq⟩ | ⟨hle, hlt, heq⟩ |
    ⟨hle, hlt, heq⟩
  · rw [heq, if_pos hlt]
  · rw [heq, if_neg (Nat.not_lt.mpr hle), if_pos hlt]
    rfl
  · rw [heq] at hlevel
    exact absurd rfl hlevel
  · have h0 : ¬ index < blockLv0 := Nat.not_lt.mpr (le_trans (by decide) hle)
    have h1 : ¬ index < blockLv1 := Nat.not_lt.mpr (le_trans (by decide) hle)
    have h2 : ¬ index < blockLv2 := Nat.not_lt.mpr hle
    rw [heq, if_neg h0, if_neg h1, if_neg h2, if_pos hindex]
    have hbase : index - blockLv2 < 256 * 256 * 256 := by
      have hlv : blockLv2 = 65804 := rfl
      omega
    exact congrArg some (Mounted.inderect3_path (s.putBlock inode 14) hbase)

/-- The indices behind the second level. -/
theorem put_block_second (s : Mounted) (inode : Inode) (hindex : index < blockLv3)
    (hlevel : (pointerPath index).1 = 13) : ∃ base, base / 256 < 256 ∧
      pointerPath index = (13, [base / 256, base % 256]) ∧
        s.putBlockByBlockIndex inode index = some (s.putBlockInInderect2 inode base) := by
  rcases pointer_path_cases hindex with ⟨hlt, heq⟩ | ⟨-, -, heq⟩ | ⟨hle, hlt, heq⟩ | ⟨-, -, heq⟩
  · rw [heq] at hlevel
    have hpos : index = 13 := hlevel
    omega
  · rw [heq] at hlevel
    cases hlevel
  · have h0 : ¬ index < blockLv0 := Nat.not_lt.mpr (le_trans (by decide) hle)
    refine ⟨index - 268, by omega, heq, ?_⟩
    rw [Mounted.putBlockByBlockIndex, if_neg h0, if_neg (Nat.not_lt.mpr hle), if_pos hlt]
  · rw [heq] at hlevel
    cases hlevel

/-- One step of the loop. -/
theorem Shrunk.put_block_by_block_index (h : Shrunk g kind f f') (hf : Sound g kind f)
    (hg : DriveGeometry g) (hn : n < g.inodeNr.toNat) (hindex : index < blockLv3) :
    ∃ state freed, f'.fs.putBlockByBlockIndex (f'.inodes n) index = some state ∧
      Puts g kind n f' (f'.store n state) (· = index) freed := by
  obtain ⟨hi, hlength, hpath⟩ := pointer_path_spec hindex
  by_cases hlevel : (pointerPath index).1 = 13
  · obtain ⟨base, hbase, heq, hcall⟩ := put_block_second f'.fs (f'.inodes n) hindex hlevel
    obtain ⟨freed, hputs⟩ := h.put_block_in_inderect2 hf hg hn hbase heq
    exact ⟨_, freed, hcall, hputs⟩
  · obtain ⟨freed, hputs⟩ := h.put_block hf hg hn hi hlength hpath hlevel rfl
    exact ⟨_, freed, put_block_path _ _ hindex hlevel, hputs⟩

end XBook.Bofs
