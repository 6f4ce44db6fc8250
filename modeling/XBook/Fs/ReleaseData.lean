import Mathlib.Order.Interval.Finset.Nat
import XBook.Fs.PutBlock

/-!
# Releasing the blocks of an inode

`BOFS_ReleaseInodeData` of `fs/bofs/inode.c`, which puts back the blocks in front of the size one by
one. `release_inode_data_iff` says which inodes get all their blocks back to the bitmap.
-/

namespace XBook.Bofs

namespace Mounted

/-- The loop of `BOFS_ReleaseInodeData`, over the indices from one on. -/
def releaseBlocks (s : Mounted) (inode : Inode) (index : Nat) : Nat → Option (Mounted × Inode)
  | 0 => some (s, inode)
  | blocks + 1 =>
      (s.putBlockByBlockIndex inode index).bind fun state =>
        state.1.releaseBlocks state.2 (index + 1) blocks

/-- `BOFS_ReleaseInodeData`, with `none` for `-1`. -/
def releaseInodeData (s : Mounted) (inode : Inode) : Option (Mounted × Inode) :=
  if inode.size = 0 then some (s, inode)
  else s.releaseBlocks inode 0 (divRoundUp inode.size.toNat s.sb.blockSize)

end Mounted

open Mounted (pointerPath)

variable {g : Geometry} {kind : Nat → Option Nat} {f f' : Files} {n index : Nat}
  {put freed : Nat → Prop}

/-! ## The loop -/

/-- The loop of `BOFS_ReleaseInodeData`. -/
theorem Shrunk.release_blocks (h : Shrunk g kind f f') (hf : Sound g kind f)
    (hg : DriveGeometry g) (hn : n < g.inodeNr.toNat) {blocks : Nat}
    (hle : index + blocks ≤ blockLv3) :
    ∃ state freed, f'.fs.releaseBlocks (f'.inodes n) index blocks = some state ∧
      Puts g kind n f' (f'.store n state) (fun i => index ≤ i ∧ i < index + blocks) freed := by
  induction blocks generalizing f' index with
  | zero =>
      refine ⟨_, fun _ => False, rfl, ?_⟩
      rw [Files.store_self]
      exact (Puts.refl g kind n f').congr fun i => ⟨False.elim, fun hi => by omega⟩
  | succ blocks ih =>
      have hindex : index < blockLv3 := by omega
      have hnext : index + 1 + blocks ≤ blockLv3 := by omega
      obtain ⟨state, freed, hput, hputs⟩ := h.put_block_by_block_index hf hg hn hindex
      obtain ⟨state', freed', hrest, hputs'⟩ := ih (h.puts hputs) hnext
      have hinode : (f'.store n state).inodes n = state.2 := Function.update_self ..
      have hstore : (f'.store n state).store n state' = f'.store n state' := by
        simp only [Files.store, Function.update_idem]
      rw [hinode] at hrest
      rw [hstore] at hputs'
      refine ⟨state', _, ?_, (hputs.trans hputs').congr fun i => by omega⟩
      rw [Mounted.releaseBlocks, hput, Option.bind_some]
      exact hrest

/-! ## All blocks of an inode -/

/-- The block is one of data of the inode, or an indirect block. -/
def Files.Holds (f : Files) (n b : Nat) : Prop :=
  ∃ i < blockNr, (f.inodes n).blocks i ≠ 0 ∧
    ∃ path, path.length ≤ height i ∧ (∀ j ∈ path, j < 256) ∧
      f.fs.blockAt ((f.inodes n).blocks i) path = some b

/-- The block is an indirect block of the inode. -/
def Files.TableOf (f : Files) (n b : Nat) : Prop :=
  ∃ i < blockNr, (f.inodes n).blocks i ≠ 0 ∧
    ∃ path, path.length < height i ∧ (∀ j ∈ path, j < 256) ∧
      f.fs.blockAt ((f.inodes n).blocks i) path = some b

/-- The bits of the blocks of an inode are cleared, and those of other inodes and of the blocks that
formatting marks stay set. -/
structure Released (g : Geometry) (f : Files) (n : Nat) (t : Mounted) : Prop where
  bits : ∀ i < sectorBits g, (t.bitmap .sector).bit i = true ↔
    (f.fs.bitmap .sector).bit i = true ∧ ¬ f.Holds n ((initSuperBlock g).idxToLba i)
  others : ∀ m < g.inodeNr.toNat, m ≠ n → ∀ i < sectorBits g,
    f.Holds m ((initSuperBlock g).idxToLba i) → (t.bitmap .sector).bit i = true
  formatted : ∀ i < sectorBits g, i ≤ g.dataOffset →
    ¬ f.Holds n ((initSuperBlock g).idxToLba i) → (t.bitmap .sector).bit i = true

/-- The inodes whose blocks are all freed: none is behind the second level, none of data is behind
the size, and each indirect block has a pointer. -/
structure Releasable (f : Files) (n : Nat) : Prop where
  level : (f.inodes n).blocks 13 = 0
  size : ∀ index, f.fs.dataBlock (f.inodes n) index ≠ none →
    index < divRoundUp (f.inodes n).size.toNat f.fs.sb.blockSize
  tables : ∀ b, f.TableOf n b → ∃ j < 256, wordAt (f.fs.blocks b) j ≠ 0

/-- The pointers that are followed are words of blocks. -/
theorem Files.path_index {r : Nat × Nat} {path : List Nat} {b : Nat}
    (hb : (f.forest g kind).reach r path = some b) : ∀ j ∈ path, j < 256 := by
  induction path using List.reverseRecOn generalizing b with
  | nil =>
      intro j hj
      cases hj
  | append_singleton path i ih =>
      rw [Forest.reach_concat, Option.bind_eq_some_iff] at hb
      obtain ⟨a, ha, hchild⟩ := hb
      intro j hj
      rcases List.mem_append.mp hj with hj | hj
      · exact ih ha j hj
      · rw [List.mem_singleton.mp hj]
        have hne : (f.forest g kind).child a i ≠ none := by
          rw [hchild]
          exact Option.some_ne_none b
        exact f.child_index hne

theorem Files.root_index {r : Nat × Nat} {path : List Nat} {b : Nat}
    (hb : (f.forest g kind).reach r path = some b) : r.2 < blockNr := by
  by_contra hr
  have hempty : (f.forest g kind).reach r [] = none := if_neg fun hc => hr hc.2.1
  rw [← List.nil_append path, Forest.reach_append_none hempty] at hb
  cases hb

theorem Sound.holds_iff (h : Sound g kind f) (hn : n < g.inodeNr.toNat) {b : Nat} :
    f.Holds n b ↔ ∃ i path, (f.forest g kind).reach (n, i) path = some b := by
  constructor
  · rintro ⟨i, hi, hne, path, hlength, hpath, hb⟩
    refine ⟨i, path, ?_⟩
    rw [h.reach_eq hn hi hlength hpath, if_neg hne, hb]
  · rintro ⟨i, path, hb⟩
    obtain ⟨k, -, hsum⟩ := h.kind_reach hb
    have hi := Files.root_index hb
    have hlength : path.length ≤ height i := Nat.le.intro ((Nat.add_comm _ _).trans hsum)
    have hpath := Files.path_index hb
    rw [h.reach_eq hn hi hlength hpath, Option.ite_none_left_eq_some] at hb
    exact ⟨i, hi, hb.1, path, hlength, hpath, hb.2⟩

theorem Sound.table_of_iff (h : Sound g kind f) (hn : n < g.inodeNr.toNat) {b : Nat} :
    f.TableOf n b ↔
      ∃ i path, (f.forest g kind).reach (n, i) path = some b ∧ path.length < height i := by
  constructor
  · rintro ⟨i, hi, hne, path, hlength, hpath, hb⟩
    refine ⟨i, path, ?_, hlength⟩
    rw [h.reach_eq hn hi (Nat.le_of_lt hlength) hpath, if_neg hne, hb]
  · rintro ⟨i, path, hb, hlength⟩
    have hi := Files.root_index hb
    have hpath := Files.path_index hb
    rw [h.reach_eq hn hi (Nat.le_of_lt hlength) hpath, Option.ite_none_left_eq_some] at hb
    exact ⟨i, hi, hb.1, path, hlength, hpath, hb.2⟩

/-- Each way through all the indirect blocks is that of an index. -/
theorem exists_pointer_path {i : Nat} (hi : i < blockNr) {path : List Nat}
    (hlength : path.length = height i) (hpath : ∀ j ∈ path, j < 256) :
    ∃ index < blockLv3, pointerPath index = (i, path) := by
  have hnr : blockNr = 15 := rfl
  have hlv0 : blockLv0 = 12 := rfl
  have hlv1 : blockLv1 = 268 := rfl
  have hlv2 : blockLv2 = 65804 := rfl
  have hlv3 : blockLv3 = 16843020 := rfl
  by_cases h0 : i < 12
  · obtain rfl : path = [] := List.eq_nil_of_length_eq_zero (hlength.trans (if_pos h0))
    exact ⟨i, by omega, if_pos h0⟩
  obtain rfl | rfl | rfl : i = 12 ∨ i = 13 ∨ i = 14 := by omega
  · obtain ⟨j, rfl⟩ := List.length_eq_one_iff.mp hlength
    have hj := hpath j (List.mem_singleton_self j)
    refine ⟨12 + j, by omega, ?_⟩
    rw [Mounted.pointerPath, if_neg (by omega), if_pos (by omega), Nat.add_sub_cancel_left]
  · obtain ⟨j, k, rfl⟩ := List.length_eq_two.mp hlength
    have hj := hpath j (List.mem_cons_self ..)
    have hk := hpath k (List.mem_cons_of_mem _ (List.mem_singleton_self k))
    refine ⟨268 + (256 * j + k), by omega, ?_⟩
    rw [Mounted.pointerPath, if_neg (by omega), if_neg (by omega), if_pos (by omega)]
    have hbase : 268 + (256 * j + k) - blockLv1 = 256 * j + k := Nat.add_sub_cancel_left ..
    have hfirst : (256 * j + k) / 256 = j := by omega
    have hsecond : (256 * j + k) % 256 = k := by omega
    simp only [hbase, hfirst, hsecond]
  · obtain ⟨j, k, l, rfl⟩ := List.length_eq_three.mp hlength
    have hj := hpath j (List.mem_cons_self ..)
    have hk := hpath k (List.mem_cons_of_mem _ (List.mem_cons_self ..))
    have hl := hpath l (List.mem_cons_of_mem _ (List.mem_cons_of_mem _ (List.mem_singleton_self l)))
    refine ⟨65804 + (65536 * j + 256 * k + l), by omega, ?_⟩
    rw [Mounted.pointerPath, if_neg (by omega), if_neg (by omega), if_neg (by omega)]
    have hbase : 65804 + (65536 * j + 256 * k + l) - blockLv2 = 65536 * j + 256 * k + l :=
      Nat.add_sub_cancel_left ..
    have hfirst : (65536 * j + 256 * k + l) / 256 / 256 = j := by omega
    have hsecond : (65536 * j + 256 * k + l) / 256 % 256 = k := by omega
    have hthird : (65536 * j + 256 * k + l) % 256 = l := by omega
    simp only [hbase, hfirst, hsecond, hthird]

/-- Where no indirect block is empty, each leads to a block of data. -/
theorem Files.Filled.leaf (h : f'.Filled g kind n) (hs : Shrunk g kind f f')
    (hf : Sound g kind f) {i : Nat} {path : List Nat} {b : Nat}
    (hb : (f'.forest g kind).reach (n, i) path = some b) :
    ∃ rest c, (f'.forest g kind).reach (n, i) (path ++ rest) = some c ∧
      (path ++ rest).length = height i := by
  obtain ⟨k, hk, hsum⟩ : ∃ k, kind b = some k ∧ k + path.length = height i :=
    hf.kind_reach (hs.kept.reach hb)
  induction k generalizing path b with
  | zero =>
      refine ⟨[], b, ?_, ?_⟩
      · rw [List.append_nil, hb]
      · rw [List.append_nil]
        omega
  | succ k ih =>
      obtain ⟨j, hj⟩ := h i path b hb (by omega)
      obtain ⟨c, hc⟩ := Option.ne_none_iff_exists'.mp hj
      obtain ⟨k', hk', hnext⟩ := hs.child_kind hf hc
      rw [hk] at hk'
      cases hk'
      have hreach : (f'.forest g kind).reach (n, i) (path ++ [j]) = some c := by
        rw [Forest.reach_concat, hb]
        exact hc
      have hlength : k + (path ++ [j]).length = height i := by
        rw [List.length_append, List.length_singleton]
        omega
      obtain ⟨rest, d, hd, htotal⟩ := ih hreach hnext hlength
      rw [List.append_assoc] at hd htotal
      exact ⟨[j] ++ rest, d, hd, htotal⟩

/-- The size is a word, so it needs no index behind the last level. -/
theorem blocks_of_size_lt (size : Nat) : divRoundUp size 1024 < blockLv3 := by
  have hlt : divRoundUp size 1024 < 2 ^ 22 :=
    Nat.div_lt_of_lt_mul (Nat.mod_lt _ (Nat.two_pow_pos 32))
  exact hlt.trans (by decide)

/-- `BOFS_ReleaseInodeData` comes to its end, and puts back what is in front of the size. -/
theorem Sound.release_inode_data (h : Sound g kind f) (hg : DriveGeometry g)
    (hn : n < g.inodeNr.toNat) :
    ∃ state freed, f.fs.releaseInodeData (f.inodes n) = some state ∧
      Puts g kind n f (f.store n state)
        (· < divRoundUp (f.inodes n).size.toNat f.fs.sb.blockSize) freed := by
  have hbs : f.fs.sb.blockSize = 1024 := by
    rw [h.sb]
    exact hg.blockSize
  rw [hbs]
  unfold Mounted.releaseInodeData
  by_cases hzero : (f.inodes n).size = 0
  · rw [if_pos hzero, hzero]
    refine ⟨_, fun _ => False, rfl, ?_⟩
    rw [Files.store_self]
    exact (Puts.refl g kind n f).congr fun i =>
      ⟨False.elim, fun hi => absurd hi (Nat.not_lt_zero i)⟩
  · rw [if_neg hzero, hbs]
    have hlt := blocks_of_size_lt (f.inodes n).size.toNat
    have hle : 0 + divRoundUp (f.inodes n).size.toNat 1024 ≤ blockLv3 := by omega
    obtain ⟨state, freed, hrun, hputs⟩ := h.shrunk.release_blocks h hg hn hle
    exact ⟨state, freed, hrun, hputs.congr fun i => by omega⟩

/-! ## Which inodes get all their blocks back -/

theorem Puts.freed_held (hputs : Puts g kind n f f' put freed) (h : Sound g kind f)
    (hn : n < g.inodeNr.toNat) {b : Nat} (hb : freed b) : f.Holds n b := by
  obtain ⟨index, -, -, path, -, hreach, -⟩ := hputs.only b hb
  exact (h.holds_iff hn).mpr ⟨_, path, hreach⟩

theorem Sound.held_marked (h : Sound g kind f) (hn : n < g.inodeNr.toNat) {b : Nat}
    (hb : f.Holds n b) : ∃ i < sectorBits g, b = (initSuperBlock g).idxToLba i ∧
    (f.fs.bitmap .sector).bit i = true := by
  obtain ⟨i, path, hreach⟩ := (h.holds_iff hn).mp hb
  obtain ⟨k, hk, -⟩ := h.kind_reach hreach
  obtain ⟨j, hj, heq, hset, -⟩ := h.marked b k hk
  exact ⟨j, hj, heq, hset⟩

/-- The bits are right when all blocks are freed. -/
theorem Puts.released_iff (hputs : Puts g kind n f f' put freed) (h : Sound g kind f)
    (hg : DriveGeometry g) (hn : n < g.inodeNr.toNat) :
    Released g f n f'.fs ↔ ∀ b, f.Holds n b → freed b := by
  constructor
  · intro hrel b hb
    obtain ⟨i, hi, rfl, hset⟩ := h.held_marked hn hb
    by_contra hnot
    exact ((hrel.bits i hi).mp ((hputs.frees.bits i hi).mpr ⟨hset, hnot⟩)).2 hb
  · intro hall
    constructor
    case bits =>
      intro i hi
      rw [hputs.frees.bits i hi]
      exact and_congr_right fun _ => not_congr ⟨hputs.freed_held h hn, hall _⟩
    case others =>
      intro m hm hne i hi hb
      obtain ⟨j, hj, heq, hset⟩ := h.held_marked hm hb
      rw [hg.idx_to_lba hi, hg.idx_to_lba hj] at heq
      obtain rfl : i = j := by omega
      refine (hputs.frees.bits i hi).mpr ⟨hset, fun hfreed => ?_⟩
      obtain ⟨k, path, hreach⟩ := (h.holds_iff hm).mp hb
      obtain ⟨k', path', hreach'⟩ := (h.holds_iff hn).mp (hputs.freed_held h hn hfreed)
      exact hne (Prod.mk.inj (h.apart.reach_unique hreach hreach').1).1
    case formatted =>
      intro i hi hle hnot
      exact (hputs.frees.bits i hi).mpr
        ⟨h.used i hi hle, fun hfreed => hnot (hputs.freed_held h hn hfreed)⟩

theorem Sound.filled (h : Sound g kind f) (hn : n < g.inodeNr.toNat)
    (htables : ∀ b, f.TableOf n b → ∃ j < 256, wordAt (f.fs.blocks b) j ≠ 0) :
    f.Filled g kind n := by
  intro i path b hreach hlength
  obtain ⟨j, hj, hne⟩ := htables b ((h.table_of_iff hn).mpr ⟨i, path, hreach, hlength⟩)
  obtain ⟨k, hk, hsum⟩ : ∃ k, kind b = some k ∧ k + path.length = height i := h.kind_reach hreach
  obtain ⟨k, rfl⟩ : ∃ k', k = k' + 1 := ⟨k - 1, by omega⟩
  refine ⟨j, ?_⟩
  rw [f.child_eq hk hj, if_neg hne]
  exact Option.some_ne_none _

/-- What is left has a block of data, which is put back. -/
theorem Puts.all_freed {blocks : Nat} (hputs : Puts g kind n f f' (· < blocks) freed)
    (h : Sound g kind f) (hn : n < g.inodeNr.toNat) (hlevel : (f.inodes n).blocks 13 = 0)
    (hsize : ∀ index, f.fs.dataBlock (f.inodes n) index ≠ none → index < blocks)
    (hfilled : f.Filled g kind n) {b : Nat} (hb : f.Holds n b) : freed b := by
  obtain ⟨i, path, hreach⟩ := (h.holds_iff hn).mp hb
  refine (hputs.left _ _ _ hreach).resolve_left fun hstays => ?_
  have hshrunk := h.shrunk.puts hputs
  obtain ⟨rest, c, hleaf, hlength⟩ := (hputs.filled hfilled).leaf hshrunk h hstays
  obtain ⟨index, hindex, hplace⟩ :=
    exists_pointer_path (Files.root_index hleaf) hlength (Files.path_index hleaf)
  have hdata : f.fs.dataBlock (f.inodes n) index = some c := by
    rw [h.data_block_eq hn hindex, hplace]
    exact hputs.kept.reach hleaf
  have hsecond : (pointerPath index).1 ≠ 13 := by
    intro heq
    rw [hplace] at heq
    obtain rfl : i = 13 := heq
    have hempty : (f.forest g kind).reach (n, 13) [] = none := if_neg fun hc => hc.2.2 hlevel
    rw [← List.nil_append path, Forest.reach_append_none hempty] at hreach
    cases hreach
  have hgone := hputs.gone index (hsize index (by rw [hdata]; exact Option.some_ne_none c)) hsecond
  rw [hplace, hleaf] at hgone
  cases hgone

/-- A block that is freed is on the way to a block of data in front of the size. -/
theorem Puts.freed_at {blocks : Nat} (hputs : Puts g kind n f f' (· < blocks) freed)
    (h : Sound g kind f) {i b : Nat} {path : List Nat}
    (hreach : (f.forest g kind).reach (n, i) path = some b) (hb : freed b) :
    ∃ index < blocks, (pointerPath index).1 = i ∧ path <+: (pointerPath index).2 ∧
      (f.forest g kind).reach (n, i) (pointerPath index).2 ≠ none ∧
        (path = (pointerPath index).2 ∨ i ≠ 13) := by
  obtain ⟨index, hindex, hne, path', hprefix, hreach', hfull⟩ := hputs.only b hb
  obtain ⟨hroot, rfl⟩ := h.apart.reach_unique hreach hreach'
  obtain rfl := (Prod.mk.inj hroot).2
  exact ⟨index, hindex, rfl, hprefix, hne, hfull⟩

/-- What the code leaves when it frees all blocks. -/
theorem Puts.releasable {blocks : Nat} (hputs : Puts g kind n f f' (· < blocks) freed)
    (h : Sound g kind f) (hn : n < g.inodeNr.toNat) (hle : blocks ≤ blockLv3)
    (hall : ∀ b, f.Holds n b → freed b) :
    (f.inodes n).blocks 13 = 0 ∧
      (∀ index, f.fs.dataBlock (f.inodes n) index ≠ none → index < blocks) ∧
        ∀ b, f.TableOf n b → ∃ j < 256, wordAt (f.fs.blocks b) j ≠ 0 := by
  refine ⟨?_, ?_, ?_⟩
  · by_contra hne
    have hnr : 13 < blockNr := by decide
    have hreach : (f.forest g kind).reach (n, 13) [] = some ((f.inodes n).blocks 13) :=
      if_pos ⟨hn, hnr, hne⟩
    have hfreed := hall _ ((h.holds_iff hn).mpr ⟨13, [], hreach⟩)
    obtain ⟨index, hindex, hlevel, -, -, hfull⟩ := hputs.freed_at h hreach hfreed
    have hlength := (pointer_path_spec (Nat.lt_of_lt_of_le hindex hle)).2.1
    rw [hlevel, ← hfull.resolve_right fun hc => hc rfl] at hlength
    cases hlength
  · intro index hdata
    obtain ⟨b, hb⟩ := Option.ne_none_iff_exists'.mp hdata
    have hindex : index < blockLv3 := by
      by_contra hbeyond
      exact hdata (data_block_beyond _ _ (Nat.not_lt.mp hbeyond))
    rw [h.data_block_eq hn hindex] at hb
    have hfreed := hall b ((h.holds_iff hn).mpr ⟨_, _, hb⟩)
    obtain ⟨index', hindex', hlevel, hprefix, -, -⟩ := hputs.freed_at h hb hfreed
    have hbound := Nat.lt_of_lt_of_le hindex' hle
    have hlength : (pointerPath index).2.length = (pointerPath index').2.length := by
      rw [(pointer_path_spec hindex).2.1, (pointer_path_spec hbound).2.1, hlevel]
    have hpath := hprefix.eq_of_length hlength
    rw [pointer_path_injective hindex hbound (Prod.ext hlevel.symm hpath)]
    exact hindex'
  · intro b hb
    obtain ⟨i, path, hreach, hlength⟩ := (h.table_of_iff hn).mp hb
    have hfreed := hall b ((h.holds_iff hn).mpr ⟨i, path, hreach⟩)
    obtain ⟨index, hindex, hlevel, hprefix, hne, -⟩ := hputs.freed_at h hreach hfreed
    have hfull := (pointer_path_spec (Nat.lt_of_lt_of_le hindex hle)).2.1
    obtain ⟨rest, hrest⟩ := hprefix
    rw [← hrest, hlevel] at hfull
    rw [← hrest] at hne
    cases rest with
    | nil =>
        rw [List.append_nil] at hfull
        omega
    | cons j rest =>
        have hchild : (f.forest g kind).child b j ≠ none := by
          intro hnone
          have hempty : (f.forest g kind).reach (n, i) (path ++ [j]) = none := by
            rw [Forest.reach_concat, hreach]
            exact hnone
          rw [List.append_cons, Forest.reach_append_none hempty] at hne
          exact hne rfl
        obtain ⟨c, hc⟩ := Option.ne_none_iff_exists'.mp hchild
        obtain ⟨k, hk, -⟩ := h.child b j c hc
        have hj := f.child_index hchild
        rw [f.child_eq hk hj] at hchild
        exact ⟨j, hj, fun hzero => hchild (if_pos hzero)⟩

theorem Sound.releasable (h : Sound g kind f) (hg : DriveGeometry g) (hn : n < g.inodeNr.toNat)
    {state : Mounted × Inode} (hrun : f.fs.releaseInodeData (f.inodes n) = some state)
    (hrel : Released g f n state.1) : Releasable f n := by
  obtain ⟨state', freed, hrun', hputs⟩ := h.release_inode_data hg hn
  rw [hrun] at hrun'
  cases hrun'
  have hle : divRoundUp (f.inodes n).size.toNat f.fs.sb.blockSize ≤ blockLv3 := by
    rw [h.sb, show (initSuperBlock g).blockSize = 1024 from hg.blockSize]
    exact (blocks_of_size_lt _).le
  obtain ⟨hlevel, hsize, htables⟩ :=
    hputs.releasable h hn hle ((hputs.released_iff h hg hn).mp hrel)
  exact ⟨hlevel, hsize, htables⟩

theorem Sound.released (h : Sound g kind f) (hg : DriveGeometry g) (hn : n < g.inodeNr.toNat)
    (hrel : Releasable f n) : ∃ state, f.fs.releaseInodeData (f.inodes n) = some state ∧
      Released g f n state.1 := by
  obtain ⟨state, freed, hrun, hputs⟩ := h.release_inode_data hg hn
  refine ⟨state, hrun, (hputs.released_iff h hg hn).mpr fun b hb => ?_⟩
  exact hputs.all_freed h hn hrel.level hrel.size (h.filled hn hrel.tables) hb

/-! ## Files of a new disk -/

/-- An inode with another size. -/
def Files.resize (f : Files) (n : Nat) (size : UInt32) : Files :=
  f.store n (f.fs, { f.inodes n with size })

theorem Files.resize_blocks (f : Files) (n : Nat) (size : UInt32) (m : Nat) :
    ((f.resize n size).inodes m).blocks = (f.inodes m).blocks := by
  simp only [resize, store, Function.update_apply]
  split
  · next heq => rw [heq]
  · rfl

theorem Files.resize_size (f : Files) (n : Nat) (size : UInt32) :
    ((f.resize n size).inodes n).size = size := by
  simp only [resize, store, Function.update_self]

theorem Sound.resize (h : Sound g kind f) (n : Nat) (size : UInt32) :
    Sound g kind (f.resize n size) := by
  have hids : ∀ m, ((f.resize n size).inodes m).id = (f.inodes m).id := f.store_ids rfl
  have hforest : (f.resize n size).forest g kind = f.forest g kind :=
    Files.forest_congr (f.resize_blocks n size) fun _ _ _ _ _ => rfl
  constructor
  case sb => exact h.sb
  case bytes => exact h.bytes
  case len => exact h.len
  case ids => exact fun m hm => (hids m).trans (h.ids m hm)
  case used => exact h.used
  case marked => exact h.marked
  case root =>
    rw [hforest]
    exact h.root
  case child =>
    rw [hforest]
    exact h.child
  case apart =>
    rw [hforest]
    exact h.apart

/-- Besides any few bits there is one that is clear. -/
structure Mounted.Spare (s : Mounted) (k : Nat) : Prop where
  bytes : (s.bitmap .sector).Bytes
  clear : ∀ bits : List Nat, bits.length ≤ k →
    ∃ i < (s.bitmap .sector).btmpBytesLen * 8, i ∉ bits ∧ (s.bitmap .sector).bit i = false

theorem Mounted.Spare.mono {s : Mounted} {k k' : Nat} (h : s.Spare k) (hle : k' ≤ k) : s.Spare k' :=
  ⟨h.bytes, fun bits hlength => h.clear bits (hlength.trans hle)⟩

theorem Mounted.Spare.alloc {s t : Mounted} {k lba : Nat} (h : s.Spare (k + 1))
    (halloc : s.allocOneSector = some (t, lba)) : t.Spare k := by
  obtain ⟨i, hi, -, -, -, hbitmap, -⟩ := alloc_one_sector_blocks h.bytes halloc
  constructor
  · rw [hbitmap]
    exact h.bytes.set hi true
  · intro bits hlength
    obtain ⟨j, hj, hout, hclear⟩ := h.clear (i :: bits) (Nat.succ_le_succ hlength)
    rw [List.mem_cons, not_or] at hout
    refine ⟨j, ?_, hout.2, ?_⟩
    · rw [hbitmap, bitmap_set_len]
      exact hj
    · rw [hbitmap, bit_bitmap_set, if_neg hout.1]
      exact hclear

/-- A walk takes a bit for each pointer. -/
theorem Mounted.Spare.follow_pointers {s : Mounted} {k lba : Nat} {path : List Nat}
    (h : s.Spare (k + path.length)) : (s.followPointers lba path).1.Spare k := by
  induction path generalizing s lba with
  | nil => exact h
  | cons i path ih =>
      rw [List.length_cons, ← Nat.add_assoc] at h
      rw [Mounted.followPointers, Mounted.pointerInBlock]
      by_cases hzero : wordAt (s.blocks lba) i = 0
      · simp only [if_pos hzero]
        cases halloc : s.allocOneSector with
        | none => exact h.mono (by omega)
        | some result =>
            have hspare := h.alloc halloc
            exact ih ⟨hspare.bytes, hspare.clear⟩
      · simp only [if_neg hzero]
        exact ih (h.mono (Nat.le_succ _))

theorem Mounted.Spare.get_block {s : Mounted} {k i : Nat} {path : List Nat}
    (h : s.Spare (k + path.length + 1)) (inode : Inode) :
    (s.getBlock inode i path).1.1.Spare k := by
  rw [Mounted.getBlock, Mounted.pointerInInode]
  by_cases hzero : inode.blocks i = 0
  · rw [if_pos hzero]
    cases halloc : s.allocOneSector with
    | none => exact h.mono (by omega)
    | some result =>
        have hspare := h.alloc halloc
        exact Mounted.Spare.follow_pointers ⟨hspare.bytes, hspare.clear⟩
  · rw [if_neg hzero]
    exact (h.mono (Nat.le_succ _)).follow_pointers

theorem Mounted.Spare.not_full {s : Mounted} {k : Nat} (h : s.Spare k) : ¬ s.Full := by
  intro hfull
  obtain ⟨i, hi, -, hclear⟩ := h.clear [] (Nat.zero_le k)
  rw [hfull i hi] at hclear
  cases hclear

/-- On the new disk there is room for three blocks. -/
theorem default_disk_spare {s : Mounted} (h : Formatted defaultDisk s) : s.Spare 3 := by
  have hroom : 1160 < sectorBits defaultDisk := by decide
  have hoff : defaultDisk.dataOffset = 1155 := by decide
  have hlen : (s.bitmap .sector).btmpBytesLen * 8 = sectorBits defaultDisk :=
    congrArg (· * 8) h.len
  refine ⟨h.bytes, fun bits hlength => ?_⟩
  have hcard : bits.toFinset.card < (Finset.Ico 1156 1160).card :=
    Nat.lt_succ_of_le ((List.toFinset_card_le bits).trans hlength)
  obtain ⟨i, hi, hout⟩ := Finset.exists_mem_notMem_of_card_lt_card hcard
  rw [Finset.mem_Ico] at hi
  rw [List.mem_toFinset] at hout
  refine ⟨i, by omega, hout, ?_⟩
  rw [default_disk_geometry.formatted_bit h (by omega) (by omega), decide_eq_false_iff_not]
  omega

/-- After `BOFS_ReleaseInodeData` the bitmap has the bits of the inode's blocks cleared, and no
others, if and only if the inode has no block behind the second level and none of data behind its
size, and no indirect block of it is empty. -/
theorem release_inode_data_iff (hg : DriveGeometry g) (h : f.Consistent g)
    (hn : n < g.inodeNr.toNat) :
    (∃ state, f.fs.releaseInodeData (f.inodes n) = some state ∧ Released g f n state.1) ↔
      Releasable f n := by
  obtain ⟨kind, h⟩ := h
  constructor
  · rintro ⟨state, hrun, hrel⟩
    exact h.releasable hg hn hrun hrel
  · exact h.released hg hn

theorem data_block_zero (s : Mounted) {inode : Inode}
    (h : inode.blocks (pointerPath index).1 = 0) : s.dataBlock inode index = none :=
  if_pos (.inr h)

/-- The root directory of the new disk, with its size. -/
theorem root_releasable (s : Mounted) (hbs : s.sb.blockSize = 1024) :
    Releasable (Files.resize ⟨s, defaultInodes⟩ 0 1024) 0 := by
  have hzero : ∀ i, i ≠ 0 → ((Files.resize ⟨s, defaultInodes⟩ 0 1024).inodes 0).blocks i = 0 := by
    intro i hi
    rw [Files.resize_blocks]
    exact if_neg fun hc => hi hc.2
  constructor
  case level => exact hzero 13 (Nat.succ_ne_zero 12)
  case size =>
    intro index hdata
    rw [Files.resize_size]
    have hone : divRoundUp (1024 : UInt32).toNat s.sb.blockSize = 1 := by
      rw [hbs]
      rfl
    refine Nat.lt_of_lt_of_eq ?_ hone.symm
    by_contra hpos
    refine hdata ?_
    by_cases hindex : index < blockLv3
    · refine data_block_zero _ (hzero _ fun hplace => ?_)
      rcases pointer_path_cases hindex with ⟨-, heq⟩ | ⟨-, -, heq⟩ | ⟨-, -, heq⟩ | ⟨-, -, heq⟩
      · rw [heq] at hplace
        have hindex : index = 0 := hplace
        omega
      · rw [heq] at hplace
        cases hplace
      · rw [heq] at hplace
        cases hplace
      · rw [heq] at hplace
        cases hplace
    · exact data_block_beyond _ _ (Nat.not_lt.mp hindex)
  case tables =>
    rintro b ⟨i, -, hne, path, hlength, -⟩
    have hi : i = 0 := by
      by_contra hi
      exact hne (hzero i hi)
    rw [hi] at hlength
    exact absurd hlength (Nat.not_lt_zero _)

/-- The block of the root directory is put back. -/
theorem default_disk_root_released : ∃ f : Files, f.Consistent defaultDisk ∧
    f.Holds 0 (initSuperBlock defaultDisk).dataStartLba ∧
      ∃ state, f.fs.releaseInodeData (f.inodes 0) = some state ∧
        Released defaultDisk f 0 state.1 := by
  obtain ⟨s, hs, -⟩ := exists_formatted defaultDisk
  have hroom : 0 < sectorBits defaultDisk := by decide
  have hnode : 0 < defaultDisk.inodeNr.toNat := by decide
  have hnew : NewInodes defaultDisk defaultInodes := ⟨fun _ _ => rfl, fun _ _ _ _ => rfl⟩
  have hsound := (hs.sound default_disk_geometry hroom hnew).resize 0 1024
  have hbs : s.sb.blockSize = 1024 := by
    rw [hs.sb]
    rfl
  have hfirst : ((Files.resize ⟨s, defaultInodes⟩ 0 1024).inodes 0).blocks 0 =
      (initSuperBlock defaultDisk).dataStartLba := by
    rw [Files.resize_blocks]
    rfl
  have hne : (initSuperBlock defaultDisk).dataStartLba ≠ 0 := by decide
  refine ⟨_, ⟨_, hsound⟩, ⟨0, by decide, ?_, [], Nat.zero_le _, ?_, congrArg some hfirst⟩,
    (release_inode_data_iff default_disk_geometry ⟨_, hsound⟩ hnode).mpr (root_releasable s hbs)⟩
  · rw [hfirst]
    exact hne
  · intro j hj
    cases hj

/-- A file with a block behind the second level keeps its indirect blocks marked. -/
theorem second_level_kept : ∃ f : Files, f.Consistent defaultDisk ∧
    f.fs.dataBlock (f.inodes 1) 268 ≠ none ∧ (f.inodes 1).size = 275456 ∧
      ¬ ∃ state, f.fs.releaseInodeData (f.inodes 1) = some state ∧
        Released defaultDisk f 1 state.1 := by
  obtain ⟨s, hs, -⟩ := exists_formatted defaultDisk
  have hroom : 0 < sectorBits defaultDisk := by decide
  have hnode : 1 < defaultDisk.inodeNr.toNat := by decide
  have hnew : NewInodes defaultDisk defaultInodes := ⟨fun _ _ => rfl, fun _ _ _ _ => rfl⟩
  have hsound := hs.sound default_disk_geometry hroom hnew
  obtain ⟨call, u, hcall, hn, hindex, -⟩ := exists_call ⟨s, defaultInodes⟩ hnode 268
  obtain ⟨kind, hlater, hans⟩ := hsound.call default_disk_geometry hcall
  have hblock := hans.block
  rw [hn, hindex] at hblock
  have hspare : u.fs.Spare 0 := by
    obtain ⟨-, rfl, -⟩ := hcall
    rw [hn, hindex, Mounted.get_inode_data_path _ _ (by decide)]
    exact (default_disk_spare hs).get_block _
  have hdata : u.fs.dataBlock (u.inodes 1) 268 ≠ none := by
    rw [← hblock]
    intro hnone
    rcases hans.fails hnone with hbeyond | hfull
    · rw [hindex] at hbeyond
      exact absurd hbeyond (by decide)
    · exact hspare.not_full hfull
  have hsame : (u.resize 1 275456).fs.dataBlock ((u.resize 1 275456).inodes 1) 268 =
      u.fs.dataBlock (u.inodes 1) 268 := by
    simp only [Mounted.dataBlock, Files.resize_blocks]
    rfl
  refine ⟨u.resize 1 275456, ⟨kind, hlater.sound.resize 1 275456⟩, ?_, u.resize_size 1 275456, ?_⟩
  · rw [hsame]
    exact hdata
  · rintro ⟨state, hrun, hrel⟩
    have hlevel := ((hlater.sound.resize 1 275456).releasable default_disk_geometry hnode hrun
      hrel).level
    rw [← hsame] at hdata
    exact hdata (data_block_zero _ hlevel)

end XBook.Bofs
