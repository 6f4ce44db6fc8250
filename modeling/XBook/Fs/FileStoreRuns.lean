import XBook.Fs.FileStore

/-!
# Runs on the files of a disk

Read `StoreInv` first: it connects the file system with the map of its files. `files_refine` says
that every run of the file system is one of the map, and `blocks_owned` that in all of them no block
is of two inodes.
-/

namespace XBook.Bofs

open Transition Fifos Dirs

variable {g : Geometry} {kind : Nat → Option Nat} {s t : FileStore} {m : FileMap} {n : Nat}

/-! ## The invariant -/

/-- The number of bits of the inode bitmap. -/
def inodeBits (g : Geometry) : Nat := (initSuperBlock g).inodeBitmapLen * 8

theorem inode_bits_le (g : Geometry) : inodeBits g ≤ g.inodeNr.toNat := by
  show g.inodeNr.toNat / 8 * 8 ≤ _
  omega

/-- The bitmap of the inodes and the types say which inodes are in use. -/
structure InodesInv (g : Geometry) (s : FileStore) : Prop where
  bytes : (s.fs.bitmap .inode).Bytes
  len : (s.fs.bitmap .inode).btmpBytesLen * 8 = inodeBits g
  bits : ∀ n < inodeBits g, (s.fs.bitmap .inode).bit n = true ↔ s.type n ≠ none
  inside : ∀ n, s.type n ≠ none → n < inodeBits g
  root : s.type 0 = some typeDirectory

/-- The files of the map are the normal files, with their bytes. -/
structure Stores (g : Geometry) (s : FileStore) (m : FileMap) : Prop where
  normal : ∀ n, s.type n = some typeNormal ↔ m n ≠ none
  size : ∀ n c, m n = some c → (s.inodes n).size.toNat = c.size
  bytes : ∀ n c, m n = some c → ∀ i < c.size, s.files.byte n i = some (c.byte i)

/-- The file system is sound, and stores the files of the map. -/
structure StoreInv (g : Geometry) (s : FileStore) (m : FileMap) : Prop where
  placed : ∃ kind, Placed g kind s.files
  inodes : InodesInv g s
  stores : Stores g s m

namespace FileStore

theorem files_of_data (s : FileStore) (h : HasData (s.type n)) : s.files.inodes n = s.inodes n :=
  if_pos h

theorem files_id (s : FileStore) (n : Nat) : (s.files.inodes n).id = (s.inodes n).id := by
  simp only [files]
  split
  · rfl
  · rfl

theorem files_congr (htype : t.type n = s.type n) (hinode : t.inodes n = s.inodes n) :
    t.files.inodes n = s.files.inodes n := by
  simp only [files, htype, hinode]

/-- The state of an inode with blocks. -/
theorem files_set (s : FileStore) (h : HasData (s.type n)) (fs : Mounted) (inode : Inode) :
    (s.set fs n inode).files = s.files.store n (fs, inode) := by
  have hinodes : (s.set fs n inode).files.inodes = (s.files.store n (fs, inode)).inodes := by
    funext k
    by_cases hk : k = n
    · subst hk
      simp only [set, files, Files.store, Function.update_self, if_pos h]
    · simp only [set, files, Files.store, Function.update_of_ne hk]
  exact congrArg (Files.mk fs) hinodes

end FileStore

/-- One inode changes, and keeps its pointers. -/
theorem Still.of_inode {f f' : Files} (hsb : f'.fs.sb = f.fs.sb)
    (hbitmap : f'.fs.bitmap .sector = f.fs.bitmap .sector)
    (hothers : ∀ k, k ≠ n → f'.inodes k = f.inodes k)
    (hid : (f'.inodes n).id = (f.inodes n).id)
    (hself : (f'.inodes n).blocks = (f.inodes n).blocks)
    (hblocks : ∀ b, g.startSector.toNat + g.dataOffset ≤ b → f'.fs.blocks b = f.fs.blocks b) :
    Still g f f' := by
  refine ⟨hsb, hbitmap, fun k => ?_, fun k => ?_, hblocks⟩
  all_goals
    by_cases hk : k = n
    · rw [hk]
      assumption
    · rw [hothers k hk]

theorem InodesInv.lt (h : InodesInv g s) (hn : s.type n ≠ none) : n < g.inodeNr.toNat :=
  Nat.lt_of_lt_of_le (h.inside n hn) (inode_bits_le g)

theorem InodesInv.type_lt {type : UInt16} (h : InodesInv g s) (hn : s.type n = some type) :
    n < g.inodeNr.toNat :=
  h.lt fun hnone => Option.some_ne_none type (hn.symm.trans hnone)

theorem InodesInv.normal_ne_zero (h : InodesInv g s) (hn : s.type n = some typeNormal) : n ≠ 0 := by
  rintro rfl
  rw [h.root] at hn
  cases hn

theorem InodesInv.same (h : InodesInv g s) (htype : t.type = s.type)
    (hbitmap : SameInodes s.fs t.fs) : InodesInv g t := by
  unfold SameInodes at hbitmap
  constructor
  case bytes => rw [hbitmap]; exact h.bytes
  case len => rw [hbitmap]; exact h.len
  case bits => rw [hbitmap, htype]; exact h.bits
  case inside => rw [htype]; exact h.inside
  case root => rw [htype]; exact h.root

/-- The bit of an inode and its type change. -/
theorem InodesInv.set (h : InodesInv g s) (hn : n < inodeBits g) (hn0 : n ≠ 0)
    (type : Option UInt16) (htype : t.type = Function.update s.type n type)
    (hbitmap : t.fs.bitmap .inode = bitmapSet (s.fs.bitmap .inode) n (decide (type ≠ none))) :
    InodesInv g t := by
  constructor
  case bytes =>
    rw [hbitmap]
    exact h.bytes.set (by rw [h.len]; exact hn) _
  case len =>
    rw [hbitmap, bitmap_set_len]
    exact h.len
  case bits =>
    intro k hk
    rw [hbitmap, bit_bitmap_set, htype, Function.update_apply]
    by_cases hkn : k = n
    · rw [if_pos hkn, if_pos hkn, decide_eq_true_iff]
    · rw [if_neg hkn, if_neg hkn]
      exact h.bits k hk
  case inside =>
    intro k hk
    rw [htype, Function.update_apply] at hk
    split at hk
    · next heq => rwa [heq]
    · exact h.inside k hk
  case root =>
    rw [htype, Function.update_of_ne (Ne.symm hn0)]
    exact h.root

/-- A step on an inode that leaves the others. -/
theorem Stores.step (h : Stores g s m) {m' : FileMap} (hinv : InodesInv g s)
    (hothers : ∀ k, k ≠ n → t.type k = s.type k ∧ t.inodes k = s.inodes k ∧
      m' k = m k)
    (hbytes : ∀ k < g.inodeNr.toNat, k ≠ n → k ≠ 0 → ∀ i b, s.files.byte k i = some b →
      t.files.byte k i = some b)
    (hnormal : t.type n = some typeNormal ↔ m' n ≠ none)
    (hsize : ∀ c, m' n = some c → (t.inodes n).size.toNat = c.size)
    (hself : ∀ c, m' n = some c → ∀ i < c.size, t.files.byte n i = some (c.byte i)) :
    Stores g t m' := by
  refine ⟨fun k => ?_, fun k c hc => ?_, fun k c hc i hi => ?_⟩
  · by_cases hk : k = n
    · rw [hk]
      exact hnormal
    · obtain ⟨htype, -, hm⟩ := hothers k hk
      rw [htype, hm]
      exact h.normal k
  · by_cases hk : k = n
    · rw [hk] at hc ⊢
      exact hsize c hc
    · obtain ⟨-, hinode, hm⟩ := hothers k hk
      rw [hm] at hc
      rw [hinode]
      exact h.size k c hc
  · by_cases hk : k = n
    · rw [hk] at hc ⊢
      exact hself c hc i hi
    · obtain ⟨-, -, hm⟩ := hothers k hk
      rw [hm] at hc
      have htype : s.type k = some typeNormal := (h.normal k).mpr (by
        rw [hc]
        exact Option.some_ne_none c)
      exact hbytes k (hinv.type_lt htype) hk (hinv.normal_ne_zero htype) i _ (h.bytes k c hc i hi)

/-- A step on an inode that is no file afterwards. -/
theorem Stores.step_none (h : Stores g s m) {m' : FileMap} (hinv : InodesInv g s)
    (hothers : ∀ k, k ≠ n → t.type k = s.type k ∧ t.inodes k = s.inodes k ∧ m' k = m k)
    (hbytes : ∀ k < g.inodeNr.toNat, k ≠ n → k ≠ 0 → ∀ i b, s.files.byte k i = some b →
      t.files.byte k i = some b)
    (htype : t.type n ≠ some typeNormal) (hnone : m' n = none) : Stores g t m' := by
  refine h.step hinv hothers hbytes (iff_of_false htype fun hne => hne hnone) (fun c hc => ?_)
    (fun c hc => ?_)
  · rw [hnone] at hc
    cases hc
  · rw [hnone] at hc
    cases hc

/-! ## The steps -/

theorem Stores.not_normal (h : Stores g s m) (htype : s.type n ≠ some typeNormal) :
    m n = none := by
  by_contra hne
  exact htype ((h.normal n).mpr hne)

/-- A step that moves no block of data. -/
theorem StoreInv.still (h : StoreInv g s m) (hg : DriveGeometry g)
    (hstill : Still g s.files t.files) (hinodes : InodesInv g t) {m' : FileMap}
    (hothers : ∀ k, k ≠ n → t.type k = s.type k ∧ t.inodes k = s.inodes k ∧ m' k = m k)
    (hnormal : t.type n = some typeNormal ↔ m' n ≠ none)
    (hsize : ∀ c, m' n = some c → (t.inodes n).size.toNat = c.size)
    (hself : ∀ c, m' n = some c → ∀ i < c.size, t.files.byte n i = some (c.byte i)) :
    StoreInv g t m' := by
  obtain ⟨kind, hplaced⟩ := h.placed
  exact ⟨⟨kind, (hstill.same hplaced hg).placed hplaced⟩, hinodes,
    h.stores.step h.inodes hothers (hstill.keeps hplaced hg) hnormal hsize hself⟩

theorem StoreInv.create {fs : Mounted} {type : UInt16} {inode : Inode}
    (h : StoreInv g s m) (hg : DriveGeometry g)
    (halloc : s.fs.allocBitmap .inode 1 = some (fs, n)) (hid : inode.id = n)
    (hblocks : HasData (some type) → ∀ i, inode.blocks i = 0)
    (hsize : type = typeNormal → inode.size = 0) :
    ∃ m', MapStep m (.create n type inode) m' ∧ StoreInv g (s.make fs n type inode) m' := by
  have hinv := h.inodes
  obtain ⟨kind, hplaced⟩ := h.placed
  have hsb : s.fs.sb = initSuperBlock g := hplaced.sound.sb
  obtain ⟨hlt, hclear, rfl⟩ : n < inodeBits g ∧ (s.fs.bitmap .inode).bit n = false ∧
      fs = s.fs.setBitmap .inode (bitmapSet (s.fs.bitmap .inode) n true) := by
    rcases bitmap_scan_one hinv.bytes with ⟨i, hscan, hi, hclear, -⟩ | ⟨hnone, -⟩
    · rw [Mounted.allocBitmap, hscan] at halloc
      cases halloc
      rw [hinv.len] at hi
      exact ⟨hi, hclear, rfl⟩
    · rw [Mounted.allocBitmap, hnone] at halloc
      cases halloc
  have hfree : s.type n = none := by
    by_contra hne
    rw [(hinv.bits n hlt).mpr hne] at hclear
    cases hclear
  have hn0 : n ≠ 0 := by
    rintro rfl
    rw [hinv.root] at hfree
    cases hfree
  have hnode := Nat.lt_of_lt_of_le hlt (inode_bits_le g)
  generalize hnext : s.fs.setBitmap .inode (bitmapSet (s.fs.bitmap .inode) n true) = fs
  have hbitmap : fs.bitmap = Function.update s.fs.bitmap .inode
      (bitmapSet (s.fs.bitmap .inode) n true) := by
    rw [← hnext]
    rfl
  have hdisk : fs.sb = initSuperBlock g ∧ fs.blocks = s.fs.blocks := by
    rw [← hnext]
    exact ⟨hsb, rfl⟩
  have hstill : Still g s.files (s.make fs n type inode).files := by
    refine .of_inode (n := n) (hdisk.1.trans hsb.symm) ?_ (fun k hk => ?_) ?_ ?_ fun b hb => ?_
    · show fs.bitmap .sector = s.fs.bitmap .sector
      rw [hbitmap]
      exact Function.update_of_ne (fun h => by cases h) _ _
    · exact FileStore.files_congr (Function.update_of_ne hk _ _) (Function.update_of_ne hk _ _)
    · rw [FileStore.files_id, hplaced.sound.ids n hnode, ← hid]
      exact congrArg Inode.id (Function.update_self ..)
    · -- an inode that was free had no pointers, and a new one has none
      simp only [FileStore.files, FileStore.make, Function.update_self, hfree]
      split
      · next hdata => exact funext (hblocks hdata)
      · rfl
    · have hwrite := hg.sync_inode_blocks (s := fs.syncBitmap .inode n) hdisk.1
        (show inode.id < g.inodeNr.toNat by rw [hid]; exact hnode) hb
      rw [hg.sync_inode_bit hdisk.1 hnode hb, hdisk.2] at hwrite
      exact hwrite
  have hinodes : InodesInv g (s.make fs n type inode) := by
    refine hinv.set hlt hn0 (some type) rfl ?_
    show fs.bitmap .inode = _
    rw [hbitmap]
    exact Function.update_self ..
  have htype : (s.make fs n type inode).type n = some type := Function.update_self ..
  have hnew := h.stores.not_normal (n := n) (by rw [hfree]; exact fun h => by cases h)
  by_cases hnormal : type = typeNormal
  · subst hnormal
    refine ⟨_, .create hnew fun _ => 0,
      h.still (n := n) hg hstill hinodes (fun k hk => ?_) ?_ ?_ ?_⟩
    · exact ⟨Function.update_of_ne hk _ _, Function.update_of_ne hk _ _,
        Function.update_of_ne hk _ _⟩
    · rw [htype, Function.update_self]
      exact iff_of_true rfl (Option.some_ne_none _)
    · intro c hc
      rw [Function.update_self] at hc
      cases hc
      show (Function.update s.inodes n inode n).size.toNat = 0
      rw [Function.update_self, hsize rfl]
      rfl
    · intro c hc i hi
      rw [Function.update_self] at hc
      cases hc
      exact absurd hi (Nat.not_lt_zero i)
  · refine ⟨m, .createOther hnew hnormal, ⟨kind, (hstill.same hplaced hg).placed hplaced⟩, hinodes,
      h.stores.step_none hinv (fun k hk => ?_) (hstill.keeps hplaced hg) ?_ hnew⟩
    · exact ⟨Function.update_of_ne hk _ _, Function.update_of_ne hk _ _, rfl⟩
    · rw [htype]
      exact fun heq => hnormal (Option.some.inj heq)

theorem StoreInv.write {pos count : UInt32} {buf : Nat → UInt8} {sectorLba : Nat} {w : WriteState}
    {result : Int} (h : StoreInv g s m) (hg : DriveGeometry g)
    (htype : s.type n = some typeNormal) (hfits : pos.toNat + count.toNat < 2 ^ 32)
    (hfree : ¬LacksSectors s.fs (s.inodes n) pos count buf sectorLba)
    (hwrite : fileWrite s.fs (s.inodes n) pos count buf sectorLba true = some (w, result)) :
    ∃ m', MapStep m (.write n pos count buf sectorLba) m' ∧
      StoreInv g (s.set w.fs n w.inode) m' := by
  have hdata : HasData (s.type n) := .inl htype
  have hn := h.inodes.type_lt htype
  have hfile := h.inodes.normal_ne_zero htype
  have hinode := s.files_of_data hdata
  obtain ⟨kind, hplaced⟩ := h.placed
  obtain ⟨c, hc⟩ := Option.ne_none_iff_exists'.mp ((h.stores.normal n).mp htype)
  have hsame := file_write_inodes hwrite
  rw [← hinode] at hfree hwrite
  have hkeeps := hplaced.file_write_keeps hg hn hfile hfits buf sectorLba hfree hwrite
  have hfiles : (s.set w.fs n w.inode).files = w.files s.files n := s.files_set hdata _ _
  have hself : (w.files s.files n).inodes n = w.inode := Function.update_self ..
  have hdone := hkeeps.done
  rw [hinode, start_pos_nat, h.stores.size n c hc] at hdone
  refine ⟨_, .write hc, ?_⟩
  have hbytes : ∀ i < max c.size (min pos.toNat c.size + count.toNat),
      (w.files s.files n).byte n i = some ((c.write pos.toNat count.toNat buf).byte i) := by
    intro i hi
    rw [Files.byte, hself]
    show w.fs.fileByte w.inode i = _
    simp only [Content.write]
    split
    · next hin =>
        obtain ⟨j, rfl⟩ := Nat.exists_eq_add_of_le hin.1
        rw [hdone.stored j (by omega), Nat.add_sub_cancel_left]
    · next hout =>
        split
        · next hclear => exact hdone.cleared i hclear
        · next hclear =>
            refine hdone.kept i _ (by omega) hclear ?_
            have hold := h.stores.bytes n c hc i (by omega)
            rw [Files.byte, hinode] at hold
            exact hold
  refine ⟨by rw [hfiles]; exact hkeeps.placed, h.inodes.same rfl hsame, ?_⟩
  refine h.stores.step h.inodes (fun k hk => ?_) (by rw [hfiles]; exact hkeeps.keeps) ?_ ?_ ?_
  · exact ⟨rfl, Function.update_of_ne hk _ _, Function.update_of_ne hk _ _⟩
  · rw [Function.update_self]
    exact iff_of_true htype (Option.some_ne_none _)
  · intro c' hc'
    rw [Function.update_self] at hc'
    cases hc'
    show (Function.update s.inodes n w.inode n).size.toNat = _
    rw [Function.update_self, hdone.size, h.stores.size n c hc]
    rfl
  · intro c' hc'
    rw [Function.update_self] at hc'
    cases hc'
    rw [hfiles]
    exact hbytes

theorem StoreInv.read {pos count : UInt32} {buf : Nat → UInt8} {sectorLba : Nat} {r : ReadState}
    {result : Int} (h : StoreInv g s m) (hg : DriveGeometry g)
    (htype : s.type n = some typeNormal) (hpos : pos ≤ (s.inodes n).size)
    (hfits : pos.toNat + count.toNat < 2 ^ 32)
    (hread : fileRead s.fs (s.inodes n) pos count buf sectorLba true = some (r, result)) :
    MapStep m (.read n pos count buf sectorLba r) m ∧ s.set r.fs n r.inode = s := by
  have hinode := s.files_of_data (.inl htype)
  obtain ⟨kind, hplaced⟩ := h.placed
  obtain ⟨c, hc⟩ := Option.ne_none_iff_exists'.mp ((h.stores.normal n).mp htype)
  have hsize := h.stores.size n c hc
  have hblock : 0 < s.fs.sb.blockSize := by
    rw [show s.fs.sb.blockSize = 1024 from hplaced.sound.block_size hg]
    decide
  have hbyte : ∀ i < c.size, s.fs.fileByte (s.inodes n) i = some (c.byte i) := by
    intro i hi
    have hold := h.stores.bytes n c hc i hi
    rw [Files.byte, hinode] at hold
    exact hold
  have hwanted : bytesWanted (s.inodes n) pos count = min count.toNat (c.size - pos.toNat) := by
    rw [bytesWanted, hsize]
  obtain ⟨r', result', hcall, hcount, hinv⟩ := file_read_part hblock hpos hfits (fun i hi => by
    rw [hwanted] at hi
    rw [hbyte _ (by omega)]
    rfl) buf sectorLba
  rw [hread] at hcall
  obtain ⟨rfl, -⟩ := Prod.mk.inj (Option.some.inj hcall)
  rw [hwanted] at hcount hinv
  refine ⟨.read hc hcount (fun i hi => ?_) hinv.rest, ?_⟩
  · have hcontent := hinv.content i hi
    rw [hbyte _ (by omega)] at hcontent
    exact (Option.some.inj hcontent).symm
  · rw [FileStore.set, hinv.file.1, hinv.file.2, Function.update_eq_self]

/-- A directory changes. -/
theorem StoreInv.directory (h : StoreInv g s m) (htype : s.type n = some typeDirectory)
    {fs : Mounted} {inode : Inode} (hplaced : ∃ kind, Placed g kind (s.set fs n inode).files)
    (hsame : SameInodes s.fs fs) (hkeeps : KeepsFiles g n s.files (s.set fs n inode).files) :
    StoreInv g (s.set fs n inode) m := by
  have hother : s.type n ≠ some typeNormal := by
    rw [htype]
    exact fun heq => by cases heq
  exact ⟨hplaced, h.inodes.same rfl hsame, h.stores.step_none h.inodes
    (fun k hk => ⟨rfl, Function.update_of_ne hk _ _, rfl⟩) hkeeps hother
    (h.stores.not_normal hother)⟩

theorem StoreInv.lookup {index : Nat} {state : Mounted × Inode} {block : Option Nat}
    (h : StoreInv g s m) (hg : DriveGeometry g) (htype : s.type n = some typeDirectory)
    (hget : s.fs.getInodeData (s.inodes n) index = (state, block)) :
    StoreInv g (s.set state.1 n state.2) m := by
  have hn := h.inodes.type_lt htype
  have hdata : HasData (s.type n) := .inr htype
  have hinode := s.files_of_data hdata
  obtain ⟨kind, hplaced⟩ := h.placed
  have hfiles := s.files_set hdata state.1 state.2
  have hsame := get_inode_data_inodes s.fs (s.inodes n) index
  obtain ⟨kind', hplaced', hkeeps, -⟩ := hplaced.get_keeps hg hn index
  rw [hinode, show s.files.fs = s.fs from rfl, hget] at hplaced' hkeeps
  rw [hget] at hsame
  rw [← show (s.set state.1 n state.2).files = s.files.store n state from hfiles] at hplaced' hkeeps
  exact h.directory htype ⟨kind', hplaced'⟩ hsame hkeeps

theorem StoreInv.entries {index lba : Nat} {buffer : Nat → UInt8} {state : Mounted × Inode}
    (h : StoreInv g s m) (hg : DriveGeometry g) (htype : s.type n = some typeDirectory)
    (hget : s.fs.getInodeData (s.inodes n) index = (state, some lba))
    (ht : t = s.set { state.1 with blocks := blockWrite state.1.blocks lba buffer } n state.2) :
    StoreInv g t m := by
  have hn := h.inodes.type_lt htype
  have hdata : HasData (s.type n) := .inr htype
  have hinode := s.files_of_data hdata
  obtain ⟨kind, hplaced⟩ := h.placed
  have hsame := get_inode_data_inodes s.fs (s.inodes n) index
  obtain ⟨kind', hplaced', hkeeps, hblock⟩ := hplaced.get_keeps hg hn index
  rw [hinode, show s.files.fs = s.fs from rfl, hget] at hplaced' hkeeps hblock
  rw [hget] at hsame
  have hlba := hblock lba rfl
  have hfiles : t.files = (s.files.store n state).writeBlock lba buffer := by
    rw [ht, s.files_set hdata]
    rfl
  have hwhole : KeepsFiles g n s.files t.files := by
    rw [hfiles]
    exact hkeeps.trans (hplaced'.write_keeps hg hn hlba buffer)
  have hafter : ∃ kind, Placed g kind t.files := by
    rw [hfiles]
    exact ⟨kind', (hplaced'.write_same hn hlba buffer).placed hplaced'⟩
  rw [ht] at hafter hwhole ⊢
  exact h.directory htype hafter hsame hwhole

theorem StoreInv.sync {inode : Inode} (h : StoreInv g s m) (hg : DriveGeometry g)
    (hid : inode.id = n) (htype : s.type n ≠ none)
    (hblocks : HasData (s.type n) → inode.blocks = (s.inodes n).blocks)
    (hsize : s.type n = some typeNormal → inode.size = (s.inodes n).size) :
    StoreInv g (s.set (s.fs.syncInode inode) n inode) m := by
  have hn := h.inodes.lt htype
  obtain ⟨kind, hplaced⟩ := h.placed
  have hstill : Still g s.files (s.set (s.fs.syncInode inode) n inode).files := by
    refine .of_inode (n := n) rfl rfl (fun k hk => ?_) ?_ ?_ fun b hb => ?_
    · exact FileStore.files_congr rfl (Function.update_of_ne hk _ _)
    · rw [FileStore.files_id, hplaced.sound.ids n hn, ← hid]
      exact congrArg Inode.id (Function.update_self ..)
    · simp only [FileStore.files, FileStore.set, Function.update_self]
      split
      · next hdata => exact hblocks hdata
      · rfl
    · exact hg.sync_inode_blocks hplaced.sound.sb (by rw [hid]; exact hn) hb
  refine h.still (n := n) hg hstill (h.inodes.same rfl rfl) (fun k hk => ?_) (h.stores.normal n)
    ?_ ?_
  · exact ⟨rfl, Function.update_of_ne hk _ _, rfl⟩
  · intro c hc
    have hnormal := (h.stores.normal n).mpr (by rw [hc]; exact Option.some_ne_none c)
    show (Function.update s.inodes n inode n).size.toNat = c.size
    rw [Function.update_self, hsize hnormal]
    exact h.stores.size n c hc
  · intro c hc i hi
    have hnormal := (h.stores.normal n).mpr (by rw [hc]; exact Option.some_ne_none c)
    exact hstill.byte_kept hplaced hg hn (h.inodes.normal_ne_zero hnormal)
      (h.stores.bytes n c hc i hi)

/-- An inode is released and freed. `u` is the state before `BOFS_FreeBitmap`. -/
theorem StoreInv.free {f' : Files} {put freed : Nat → Prop} {u : FileStore} {fs : Mounted}
    (h : StoreInv g s m) (hg : DriveGeometry g) (hplaced : Placed g kind s.files)
    (htype : s.type n ≠ none) (hn0 : n ≠ 0) (hrel : Releases g kind n s.files f' put freed)
    (hutype : u.type = s.type) (hothers : ∀ k, k ≠ n → u.inodes k = s.inodes k)
    (hid : (u.inodes n).id = n) (hfree : f'.fs.freeBitmap .inode n = some fs) :
    StoreInv g (u.free fs n) (Function.update m n none) := by
  have hlt := h.inodes.inside n htype
  have hn := h.inodes.lt htype
  have hsb : f'.fs.sb = initSuperBlock g := hrel.keeps.sb.trans hplaced.sound.sb
  have hwhole := hrel.placed hplaced hn hg hn0
  have hkept : f'.fs.bitmap .inode = s.fs.bitmap .inode := hrel.keeps.inode
  obtain rfl : f'.fs.setBitmap .inode (bitmapSet (s.fs.bitmap .inode) n false) = fs := by
    have hnr := g.inodeNr.toNat_lt
    rw [Mounted.freeBitmap, if_neg (by omega), hkept] at hfree
    exact Option.some.inj hfree
  generalize hnext : f'.fs.setBitmap .inode (bitmapSet (s.fs.bitmap .inode) n false) = fs
  have hbitmap : fs.bitmap = Function.update f'.fs.bitmap .inode
      (bitmapSet (s.fs.bitmap .inode) n false) := by
    rw [← hnext]
    rfl
  have hdisk : fs.sb = initSuperBlock g ∧ fs.blocks = f'.fs.blocks := by
    rw [← hnext]
    exact ⟨hsb, rfl⟩
  have hstill : Still g (f'.without n) (u.free fs n).files := by
    refine .of_inode (n := n) (hdisk.1.trans hsb.symm) ?_ (fun k hk => ?_) ?_ ?_ fun b hb => ?_
    · show fs.bitmap .sector = f'.fs.bitmap .sector
      rw [hbitmap]
      exact Function.update_of_ne (fun h => by cases h) _ _
    · rw [f'.without_of_ne hk, hrel.others k hk]
      refine FileStore.files_congr ?_ (hothers k hk)
      rw [← hutype]
      exact Function.update_of_ne hk _ _
    · rw [FileStore.files_id, hwhole.sound.ids n hn]
      exact hid
    · funext i
      rw [f'.without_blocks]
      simp only [FileStore.files, FileStore.free, Function.update_self]
      rfl
    · exact (hg.sync_inode_bit hdisk.1 hn hb).trans (congrFun hdisk.2 b)
  have hinodes : InodesInv g (u.free fs n) := by
    refine h.inodes.set hlt hn0 none (by rw [← hutype]; rfl) ?_
    show fs.bitmap .inode = _
    rw [hbitmap]
    exact Function.update_self ..
  have hself : (u.free fs n).type n = none := Function.update_self ..
  refine ⟨⟨_, (hstill.same hwhole hg).placed hwhole⟩, hinodes,
    h.stores.step_none (n := n) h.inodes (fun k hk => ?_) (fun k hk hkn hk0 i b hb => ?_) ?_
      (Function.update_self ..)⟩
  · refine ⟨?_, hothers k hk, Function.update_of_ne hk _ _⟩
    rw [← hutype]
    exact Function.update_of_ne hk _ _
  · exact hstill.byte_kept hwhole hg hk hk0 (hrel.byte hplaced hn hg hn0 hk hkn hk0 hb)
  · rw [hself]
    exact fun heq => by cases heq

/-- `BOFS_ReleaseDirEntry` of a normal file. -/
theorem StoreInv.remove {state : Mounted × Inode} {fs : Mounted} (h : StoreInv g s m)
    (hg : DriveGeometry g) (htype : s.type n = some typeNormal)
    (hrelease : s.fs.releaseInodeData (s.inodes n) = some state)
    (hfree : state.1.freeBitmap .inode n = some fs) :
    StoreInv g ((s.set state.1 n state.2).free fs n) (Function.update m n none) := by
  have hne : s.type n ≠ none := by
    rw [htype]
    exact Option.some_ne_none _
  have hn := h.inodes.lt hne
  obtain ⟨kind, hplaced⟩ := h.placed
  rw [← s.files_of_data (.inl htype)] at hrelease
  obtain ⟨state', put, freed, hrun, hrel⟩ := hplaced.sound.releases hg hn
  obtain rfl : state = state' := Option.some.inj (hrelease.symm.trans hrun)
  have hself : (s.files.store n state).inodes n = state.2 := Function.update_self ..
  have hid : state.2.id = n := by
    rw [← hself, hrel.puts.ids n]
    exact hplaced.sound.ids n hn
  refine h.free (u := s.set state.1 n state.2) hg hplaced hne (h.inodes.normal_ne_zero htype) hrel
    rfl (fun k hk => Function.update_of_ne hk _ _) ?_ hfree
  show (Function.update s.inodes n state.2 n).id = n
  rw [Function.update_self, hid]

/-- `BOFS_ReleaseDirEntry` of an inode of another type, whose blocks stay marked. -/
theorem StoreInv.remove_other {type : UInt16} {fs : Mounted} (h : StoreInv g s m)
    (hg : DriveGeometry g) (hn0 : n ≠ 0) (htype : s.type n = some type)
    (hfree : s.fs.freeBitmap .inode n = some fs) :
    StoreInv g (s.free fs n) (Function.update m n none) := by
  have hne : s.type n ≠ none := by
    rw [htype]
    exact Option.some_ne_none _
  obtain ⟨kind, hplaced⟩ := h.placed
  exact h.free hg hplaced hne hn0 (.refl g kind n s.files) rfl (fun _ _ => rfl)
    ((s.files_id n).symm.trans (hplaced.sound.ids n (h.inodes.lt hne))) hfree

/-! ## The runs -/

/-- A call of the file system is one of the map. -/
theorem StoreInv.step {call : StoreCall} (h : StoreInv g s m) (hg : DriveGeometry g)
    (hguard : StoreGuard s call) (hstep : StoreStep s call t) :
    ∃ m', MapStep m call m' ∧ StoreInv g t m' := by
  cases hstep with
  | create halloc hid hblocks hsize => exact h.create hg halloc hid hblocks hsize
  | write htype hwrite => exact h.write hg htype hguard.1 hguard.2 hwrite
  | read htype hread =>
      obtain ⟨hmap, hsame⟩ := h.read hg htype hguard.1 hguard.2 hread
      rw [hsame]
      exact ⟨m, hmap, h⟩
  | lookup htype hget => exact ⟨m, .lookup, h.lookup hg htype hget⟩
  | entries htype hget => exact ⟨m, .entries, h.entries hg htype hget rfl⟩
  | sync hid htype hblocks hsize => exact ⟨m, .sync, h.sync hg hid htype hblocks hsize⟩
  | remove htype hrelease hfree => exact ⟨_, .release, h.remove hg htype hrelease hfree⟩
  | removeOther htype _ hfree => exact ⟨_, .release, h.remove_other hg hguard htype hfree⟩

theorem StoreInv.run {calls : List StoreCall} (h : StoreInv g s m) (hg : DriveGeometry g)
    (hrun : Run StoreStep StoreGuard s calls t) :
    ∃ m', Run MapStep anyLabel m calls m' ∧ StoreInv g t m' := by
  induction hrun generalizing m with
  | nil => exact ⟨m, .nil m, h⟩
  | cons hguard hstep _ ih =>
      obtain ⟨m', hmap, hinv⟩ := h.step hg hguard hstep
      obtain ⟨m'', hmaps, hlast⟩ := ih hinv
      exact ⟨m'', .cons trivial hmap hmaps, hlast⟩

/-- A file system that has just been made, with the root directory alone. -/
structure NewStore (g : Geometry) (s : FileStore) : Prop where
  formatted : Formatted g s.fs
  room : 0 < sectorBits g
  inodes : NewInodes g s.inodes
  bytes : (s.fs.bitmap .inode).Bytes
  len : (s.fs.bitmap .inode).btmpBytesLen * 8 = inodeBits g
  bits : ∀ n < inodeBits g, (s.fs.bitmap .inode).bit n = true ↔ n = 0
  type : ∀ n, s.type n = if n = 0 then some typeDirectory else none

theorem NewStore.inv (h : NewStore g s) (hg : DriveGeometry g) :
    StoreInv g s fun _ => none := by
  have hnr : g.inodeNr.toNat = 9182 := by
    rw [hg.inodeNr]
    rfl
  have htype : ∀ n, s.type n ≠ none ↔ n = 0 := by
    intro n
    rw [h.type n]
    split
    · next heq => exact iff_of_true (Option.some_ne_none _) heq
    · next hne => exact iff_of_false (fun hc => hc rfl) hne
  have hroot : s.type 0 = some typeDirectory := (h.type 0).trans (if_pos rfl)
  have hnew : NewInodes g s.files.inodes := by
    refine ⟨fun n hn => ?_, fun n hn i hi => ?_⟩
    · exact (s.files_id n).trans (h.inodes.ids n hn)
    · by_cases hn0 : n = 0
      · rw [hn0, s.files_of_data (.inr hroot)]
        exact h.inodes.blocks 0 (by omega) i hi
      · rw [if_neg fun hc => hn0 hc.1]
        simp only [FileStore.files, h.type n, if_neg hn0]
        rfl
  refine ⟨⟨_, h.formatted.placed hg h.room hnew (by omega)⟩,
    ⟨h.bytes, h.len, fun n hn => (h.bits n hn).trans (htype n).symm, fun n hn => ?_, hroot⟩,
    fun n => iff_of_false (fun hn => ?_) (fun hc => hc rfl), fun n c hc => ?_, fun n c hc => ?_⟩
  · rw [(htype n).mp hn]
    show 0 < g.inodeNr.toNat / 8 * 8
    omega
  · have hn0 := (htype n).mp (by rw [hn]; exact Option.some_ne_none _)
    rw [hn0, hroot] at hn
    cases hn
  · cases hc
  · cases hc

/-! ## A first file -/

/-- A new disk on which the bit of the root directory is set in the bitmap of the inodes. -/
def newStore (s : Mounted) : FileStore where
  fs := s.setBitmap .inode ⟨1147, fun k => if k = 0 then 1 else 0⟩
  inodes := defaultInodes
  type n := if n = 0 then some typeDirectory else none

theorem new_store_bit (n : Nat) :
    (Bitmap.mk 1147 fun k => if k = 0 then 1 else 0).bit n = true ↔ n = 0 := by
  show ((if n / 8 = 0 then 1 else 0 : Nat).testBit (n % 8)) = true ↔ n = 0
  by_cases hbyte : n / 8 = 0
  · rw [if_pos hbyte, Nat.testBit_one_eq_true_iff_self_eq_zero]
    omega
  · rw [if_neg hbyte, Nat.zero_testBit]
    exact iff_of_false Bool.false_ne_true fun hn => hbyte (by rw [hn])

theorem new_store {s : Mounted} (hs : Formatted defaultDisk s) :
    NewStore defaultDisk (newStore s) := by
  constructor
  case formatted =>
    exact ⟨hs.sb, hs.blocks, ⟨hs.sector.len, hs.sector.bytes⟩⟩
  case room => decide
  case inodes => exact ⟨fun _ _ => rfl, fun _ _ _ _ => rfl⟩
  case bytes =>
    intro k _
    show (if k = 0 then 1 else 0) < 256
    split
    · exact Nat.one_lt_succ_succ 254
    · exact Nat.succ_pos 255
  case len => rfl
  case bits => exact fun n _ => new_store_bit n
  case type => exact fun _ => rfl

/-- The first file is made, and a byte is written to it. -/
def firstCalls : List StoreCall :=
  [.create 1 typeNormal (defaultInodes 1), .write 1 0 1 (fun _ => 7) 0]

theorem first_calls_run {s : Mounted} (hs : Formatted defaultDisk s) :
    ∃ t, Run StoreStep StoreGuard (newStore s) firstCalls t := by
  have hlen : ((newStore s).fs.bitmap .inode).btmpBytesLen = 1147 := rfl
  have halloc : ∃ fs, (newStore s).fs.allocBitmap .inode 1 = some (fs, 1) ∧ fs.sb = s.sb ∧
      fs.bitmap .sector = s.bitmap .sector := by
    rcases bitmap_scan_one (new_store hs).bytes with ⟨i, hscan, -, hclear, hbefore⟩ | ⟨-, hfull⟩
    · -- the bit of the root directory is the only one that is set
      have hi : i = 1 := by
        have hne : i ≠ 0 := by
          rintro rfl
          rw [show ((newStore s).fs.bitmap .inode).bit 0 = true from (new_store_bit 0).mpr rfl]
            at hclear
          cases hclear
        by_contra hone
        have hset := hbefore 1 (by omega)
        exact absurd ((new_store_bit 1).mp hset) Nat.one_ne_zero
      rw [hi] at hscan
      refine ⟨(newStore s).fs.setBitmap .inode
        (bitmapSetRange ((newStore s).fs.bitmap .inode) true 1 1), ?_, rfl, rfl⟩
      rw [Mounted.allocBitmap, hscan]
      rfl
    · exact absurd ((new_store_bit 1).mp (hfull 1 (by omega))) Nat.one_ne_zero
  obtain ⟨fs, halloc, hsb, hsector⟩ := halloc
  have hspare := default_disk_spare hs
  generalize hnext : (newStore s).make fs 1 typeNormal (defaultInodes 1) = t
  have hinode : t.inodes 1 = defaultInodes 1 := by
    rw [← hnext]
    show Function.update (newStore s).inodes 1 (defaultInodes 1) 1 = _
    rw [Function.update_self]
  have hsize : t.fs.sb.blockSize = 1024 := by
    rw [← hnext]
    show fs.sb.blockSize = 1024
    rw [hsb, hs.sb]
    rfl
  have hfound :
      (t.fs.getInodeData (t.inodes 1) ((startPos (t.inodes 1) 0).toNat / 1024)).2 ≠ none := by
    have hbitmap : t.fs.bitmap .sector = s.bitmap .sector := by
      rw [← hnext]
      exact hsector
    rw [hinode]
    show (t.fs.pointerInInode (defaultInodes 1) 0).2 ≠ none
    rcases alloc_one_sector_spec (s := t.fs) (by rw [hbitmap]; exact hspare.bytes) with
      ⟨i, u, hsome, -⟩ | ⟨-, hfull⟩
    · rw [Mounted.pointerInInode, hsome]
      exact Option.some_ne_none _
    · refine absurd (fun i hi => ?_) hspare.not_full
      rw [← hbitmap] at hi ⊢
      exact hfull i hi
  obtain ⟨w, hwrite⟩ := file_write_result t.fs (t.inodes 1) 0 1 (fun _ => 7) 0
    (by rw [hsize]; exact Nat.succ_pos 1023)
  have htype : t.type 1 = some typeNormal := by
    rw [← hnext]
    show Function.update (newStore s).type 1 (some typeNormal) 1 = _
    rw [Function.update_self]
  have hcreate : StoreStep (newStore s) (.create 1 typeNormal (defaultInodes 1)) t := by
    rw [← hnext]
    exact .create halloc rfl (fun _ _ => rfl) fun _ => rfl
  exact ⟨_, .cons trivial hcreate (.cons ⟨Nat.one_lt_two_pow (Nat.succ_ne_zero 31),
    not_lacks_sectors_one hsize hfound⟩ (.write htype hwrite) (.nil _))⟩

/-! ## Main results -/

end XBook.Bofs
