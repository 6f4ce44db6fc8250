import Mathlib.Data.List.GetD
import Mathlib.Tactic.Ring
import XBook.Mm.Page
import XBook.Fs.DirEntry

/-!
# Directories in their inodes

A directory is the inode with its size and its blocks. Here are `BOFS_SearchDirEntry`,
`BOFS_LoadDirEntry` and `BOFS_SyncDirEntry` of `fs/bofs/dir_entry.c` with the number of blocks that
they take from the size. The places of a directory are numbered through its blocks; each scan has a
lemma in terms of these numbers.
-/

namespace XBook.Dirs

open Fifos

/-- `sizeof(struct BOFS_DirEntry)`. -/
abbrev sizeofDirEntry : Nat := 256

/-- An entry of a block that `AllocOneSector` has cleared. -/
def emptyEntry : DirEntry := ⟨0, 0, []⟩

/-- The size of a `struct BOFS_Inode` and the blocks that it has. -/
structure DirNode where
  size : Nat
  block : Nat → Option (List DirEntry)

namespace DirNode

section Scans

variable (direntryNrInSector : Nat)

/-- `DIV_ROUND_UP(parentInode.size, sb->blockSize)`. -/
def blocks (d : DirNode) : Nat := divRoundUp d.size (direntryNrInSector * sizeofDirEntry)

/-- What is read after `BOFS_GetInodeData`, which gives the inode a cleared block if it has none. -/
def load (d : DirNode) (blockID : Nat) : List DirEntry :=
  (d.block blockID).getD (List.replicate direntryNrInSector emptyEntry)

/-- `BOFS_SearchDirEntry`. -/
def searchDirEntry (d : DirNode) (name : List Char) : Option DirEntry :=
  searchDir name ((List.range (d.blocks direntryNrInSector)).map (d.load direntryNrInSector))

/-- `BOFS_LoadDirEntry`. -/
def loadDirEntry (d : DirNode) (name : List Char) : Option DirEntry :=
  loadDir name ((List.range (d.blocks direntryNrInSector)).map (d.load direntryNrInSector))

/-- A block of the inode is written. -/
def write (d : DirNode) (blockID : Nat) (block : List DirEntry) : DirNode :=
  { d with block := Function.update d.block blockID (some block) }

/-- The loop of `BOFS_SyncDirEntry` from a block on. Where the inode has no block and there is no
`room` for one, `lba` is still that of the block before, which has no place for the child. -/
def syncFrom (room : Nat → Bool) (child : DirEntry) (d : DirNode) (blockID : Nat) :
    Nat → Option (DirNode × Nat)
  | 0 => none
  | count + 1 =>
      if (d.block blockID).isNone ∧ room blockID = false then
        d.syncFrom room child (blockID + 1) count
      else
        match syncBlock child (d.load direntryNrInSector blockID) with
        | some (block, result) => some (d.write blockID block, result)
        | none =>
            (d.write blockID (d.load direntryNrInSector blockID)).syncFrom room child
              (blockID + 1) count

/-- `BOFS_SyncDirEntry`. -/
def syncDirEntry (room : Nat → Bool) (child : DirEntry) (d : DirNode) : Option (DirNode × Nat) :=
  d.syncFrom direntryNrInSector room child 0 (d.blocks direntryNrInSector + 1)

/-- The place of a number. -/
def slot (d : DirNode) (i : Nat) : DirEntry :=
  (d.load direntryNrInSector (i / direntryNrInSector)).getD (i % direntryNrInSector) emptyEntry

/-- A well-formed directory: its size covers the places that have ever been written, and no two
entries in use have one name. -/
structure WellFormed (d : DirNode) : Prop where
  sizeLt : d.size < 2 ^ 32
  wholeEntries : d.size % sizeofDirEntry = 0
  full : ∀ blockID block, d.block blockID = some block → block.length = direntryNrInSector
  written : ∀ i, (d.slot direntryNrInSector i).name ≠ [] ↔ i * sizeofDirEntry < d.size
  cleared : ∀ i, (d.slot direntryNrInSector i).name = [] →
    d.slot direntryNrInSector i = emptyEntry
  distinct : ∀ name i j, IsEntry name (d.slot direntryNrInSector i) →
    IsEntry name (d.slot direntryNrInSector j) → name ≠ [] → i = j

end Scans

variable {direntryNrInSector : Nat}

/-! ## Places and blocks -/

theorem load_length {d : DirNode} (h : ∀ blockID block, d.block blockID = some block →
    block.length = direntryNrInSector) (blockID : Nat) :
    (d.load direntryNrInSector blockID).length = direntryNrInSector := by
  unfold load
  cases hblock : d.block blockID with
  | none => exact List.length_replicate
  | some block => exact h blockID block hblock

theorem slot_in_block (d : DirNode) (blockID : Nat) {i : Nat} (hi : i < direntryNrInSector) :
    d.slot direntryNrInSector (blockID * direntryNrInSector + i) =
      (d.load direntryNrInSector blockID).getD i emptyEntry := by
  have hpos : 0 < direntryNrInSector := by omega
  unfold slot
  rw [Nat.mul_comm, Nat.mul_add_div hpos, Nat.div_eq_of_lt hi, Nat.mul_add_mod,
    Nat.mod_eq_of_lt hi, Nat.add_zero]

/-- The entries of the first blocks, one behind the other. -/
theorem flatten_blocks {d : DirNode} (h : ∀ blockID block, d.block blockID = some block →
    block.length = direntryNrInSector) (count : Nat) :
    ((List.range count).map (d.load direntryNrInSector)).flatten =
      (List.range (count * direntryNrInSector)).map (d.slot direntryNrInSector) := by
  induction count with
  | zero => simp
  | succ count ih =>
      rw [List.range_succ, List.map_append, List.flatten_append, ih, Nat.succ_mul,
        List.range_add, List.map_append]
      congr 1
      rw [List.map_singleton, List.flatten_singleton, List.map_map]
      apply List.ext_getElem
      · rw [load_length h, List.length_map, List.length_range]
      · intro i hi _
        rw [load_length h] at hi
        rw [List.getElem_map, List.getElem_range, Function.comp_apply, slot_in_block d count hi,
          List.getD_eq_getElem _ _ (by rw [load_length h]; exact hi)]

theorem load_write (d : DirNode) (blockID : Nat) (block : List DirEntry) (other : Nat) :
    (d.write blockID block).load direntryNrInSector other =
      if other = blockID then block else d.load direntryNrInSector other := by
  unfold load write
  dsimp only
  split
  · rename_i heq
    rw [heq, Function.update_self, Option.getD_some]
  · rename_i hne
    rw [Function.update_of_ne hne]

@[simp] theorem write_size (d : DirNode) (blockID : Nat) (block : List DirEntry) :
    (d.write blockID block).size = d.size := rfl

theorem write_full {d : DirNode} {blockID : Nat} {block : List DirEntry}
    (h : ∀ blockID block, d.block blockID = some block → block.length = direntryNrInSector)
    (hblock : block.length = direntryNrInSector) (other : Nat) (entries : List DirEntry)
    (hother : (d.write blockID block).block other = some entries) :
    entries.length = direntryNrInSector := by
  unfold write at hother
  dsimp only at hother
  by_cases heq : other = blockID
  · rw [heq, Function.update_self] at hother
    cases hother
    exact hblock
  · rw [Function.update_of_ne heq] at hother
    exact h other entries hother

/-! ## The scans in terms of the places -/

/-- Behind an entry that is not the child's place the scan goes on. -/
theorem sync_block_skip {child x : DirEntry} {rest : List DirEntry}
    (h : takes child x = false) : syncBlock child (x :: rest) =
      (syncBlock child rest).map fun (rest, result) => (x :: rest, result) := by
  simp only [takes, Bool.or_eq_false_iff, Bool.and_eq_false_iff, decide_eq_false_iff_not] at h
  obtain ⟨⟨⟨hsame, hinvalid⟩, hrename⟩, hempty⟩ := h
  simp only [syncBlock]
  rw [if_neg (by grind), if_neg hinvalid, if_neg (by grind), if_neg hempty]

/-- A block in which the child is stored has a first place for it. -/
theorem sync_block_place {child : DirEntry} {block block' : List DirEntry} {result : Nat}
    (h : syncBlock child block = some (block', result)) :
    ∃ i, i < block.length ∧ takes child (block.getD i emptyEntry) = true ∧
      (∀ j < i, takes child (block.getD j emptyEntry) = false) ∧ block' = block.set i child ∧
      result = if (block.getD i emptyEntry).type = typeInvalid then 2 else 1 := by
  induction block generalizing block' with
  | nil => cases h
  | cons x rest ih =>
      cases htakes : takes child x with
      | true =>
          have hhere := sync_block_here [] rest (by simp) htakes
          rw [List.nil_append, List.nil_append, h, Option.some.injEq, Prod.mk.injEq] at hhere
          exact ⟨0, by simp, htakes, by simp, hhere.1, hhere.2⟩
      | false =>
          rw [sync_block_skip htakes, Option.map_eq_some_iff] at h
          obtain ⟨⟨rest', _⟩, hrest, heq⟩ := h
          cases heq
          obtain ⟨i, hi, hplace, hbefore, hset, hresult⟩ := ih hrest
          refine ⟨i + 1, by simpa using hi, hplace, ?_, by rw [hset, List.set_cons_succ], hresult⟩
          intro j hj
          cases j with
          | zero => exact htakes
          | succ j => exact hbefore j (by omega)

/-- A block in which the child is not stored has no place for it. -/
theorem sync_block_full {child : DirEntry} {block : List DirEntry}
    (h : syncBlock child block = none) (i : Nat) (hi : i < block.length) :
    takes child (block.getD i emptyEntry) = false := by
  induction block generalizing i with
  | nil => simp at hi
  | cons x rest ih =>
      cases htakes : takes child x with
      | true =>
          have hhere := sync_block_here [] rest (by simp) htakes
          rw [List.nil_append, h] at hhere
          cases hhere
      | false =>
          rw [sync_block_skip htakes, Option.map_eq_none_iff] at h
          cases i with
          | zero => exact htakes
          | succ i => exact ih h i (by simpa using hi)

/-- What `BOFS_SyncDirEntry` has done: the child is at the first place from a number on that it may
take, and the other places are as before. -/
structure Stored (direntryNrInSector start place : Nat) (child : DirEntry) (d d' : DirNode)
    (result : Nat) : Prop where
  startLe : start ≤ place
  takesPlace : takes child (d.slot direntryNrInSector place) = true
  passed : ∀ i, start ≤ i → i < place → takes child (d.slot direntryNrInSector i) = false
  slots : ∀ i, d'.slot direntryNrInSector i =
    if i = place then child else d.slot direntryNrInSector i
  result_eq : result = if (d.slot direntryNrInSector place).type = typeInvalid then 2 else 1
  size_eq : d'.size = d.size
  full : ∀ blockID block, d'.block blockID = some block → block.length = direntryNrInSector

/-- Giving the inode a cleared block changes no place. -/
theorem slot_write_load (d : DirNode) (blockID i : Nat) :
    (d.write blockID (d.load direntryNrInSector blockID)).slot direntryNrInSector i =
      d.slot direntryNrInSector i := by
  unfold slot
  rw [load_write]
  split
  · rename_i heq
    rw [heq]
  · rfl

/-- Two numbers are the same place only in the same block. -/
theorem place_in_block {n blockID other i j : Nat} (hi : i < n) (hj : j < n)
    (h : other * n + j = blockID * n + i) : other = blockID ∧ j = i := by
  have hpos : 0 < n := by omega
  have hblock := congrArg (· / n) h
  have hrest := congrArg (· % n) h
  simpa [Nat.add_comm, Nat.add_mul_div_right _ _ hpos, Nat.div_eq_of_lt, Nat.mod_eq_of_lt, hi, hj]
    using And.intro hblock hrest

/-- A store in one block changes one place. -/
theorem slot_write_set {d : DirNode} (hfull : ∀ blockID block, d.block blockID = some block →
    block.length = direntryNrInSector) (child : DirEntry) (blockID : Nat) {i : Nat}
    (hi : i < direntryNrInSector) (j : Nat) :
    (d.write blockID ((d.load direntryNrInSector blockID).set i child)).slot direntryNrInSector j =
      if j = blockID * direntryNrInSector + i then child else d.slot direntryNrInSector j := by
  have hpos : 0 < direntryNrInSector := by omega
  have hr : j % direntryNrInSector < direntryNrInSector := Nat.mod_lt j hpos
  rw [← Nat.div_add_mod' j direntryNrInSector, slot_in_block _ _ hr, slot_in_block _ _ hr,
    load_write]
  have hlen := load_length hfull blockID
  by_cases hblock : j / direntryNrInSector = blockID
  · rw [if_pos hblock, hblock, List.getD_eq_getElem _ _ (by rwa [List.length_set, hlen]),
      List.getElem_set]
    by_cases hplace : i = j % direntryNrInSector
    · rw [if_pos hplace, if_pos (by rw [hplace])]
    · rw [if_neg hplace, if_neg (by omega), List.getD_eq_getElem _ _ (by rwa [hlen])]
  · rw [if_neg hblock, if_neg fun heq => hblock (place_in_block hi hr heq).1]

theorem stored_here {d : DirNode} {child : DirEntry} {blockID result : Nat}
    {block : List DirEntry} (hfull : ∀ blockID block, d.block blockID = some block →
      block.length = direntryNrInSector)
    (h : syncBlock child (d.load direntryNrInSector blockID) = some (block, result)) :
    ∃ place, Stored direntryNrInSector (blockID * direntryNrInSector) place child d
      (d.write blockID block) result := by
  obtain ⟨i, hi, hplace, hbefore, rfl, hresult⟩ := sync_block_place h
  have hlen := load_length hfull blockID
  rw [hlen] at hi
  refine ⟨blockID * direntryNrInSector + i, by omega, ?_, ?_, slot_write_set hfull child blockID hi,
    ?_, rfl, ?_⟩
  · rwa [slot_in_block d blockID hi]
  · intro j hstart hj
    obtain ⟨k, rfl⟩ := Nat.exists_eq_add_of_le hstart
    rw [slot_in_block d blockID (by omega)]
    exact hbefore k (by omega)
  · rwa [slot_in_block d blockID hi]
  · exact write_full hfull (by rw [List.length_set, hlen])

/-- A store behind a block without a place is a store from that block on. -/
theorem Stored.behind {blockID place result : Nat} {child : DirEntry} {d d' : DirNode}
    (hfull : ∀ blockID block, d.block blockID = some block → block.length = direntryNrInSector)
    (hsync : syncBlock child (d.load direntryNrInSector blockID) = none)
    (h : Stored direntryNrInSector ((blockID + 1) * direntryNrInSector) place child
      (d.write blockID (d.load direntryNrInSector blockID)) d' result) :
    Stored direntryNrInSector (blockID * direntryNrInSector) place child d d' result := by
  have hslot := @slot_write_load direntryNrInSector d blockID
  have hstart := h.startLe
  have hsucc : (blockID + 1) * direntryNrInSector =
      blockID * direntryNrInSector + direntryNrInSector := Nat.succ_mul _ _
  refine ⟨by omega, ?_, ?_, ?_, ?_, h.size_eq, h.full⟩
  · rw [← hslot]
    exact h.takesPlace
  · intro i hi hplace
    by_cases hin : i < (blockID + 1) * direntryNrInSector
    · obtain ⟨k, rfl⟩ := Nat.exists_eq_add_of_le hi
      rw [slot_in_block d blockID (by omega)]
      exact sync_block_full hsync k (by rw [load_length hfull]; omega)
    · rw [← hslot]
      exact h.passed i (by omega) hplace
  · intro i
    rw [h.slots, hslot]
  · rw [h.result_eq, hslot]

/-- The blocks that a loop has before it are there after a write. -/
theorem write_keeps_blocks {d : DirNode} {blockID count : Nat} {block : List DirEntry}
    (hblocks : ∀ b, b + 1 < blockID + (count + 1) → d.block b ≠ none) (b : Nat)
    (hb : b + 1 < blockID + 1 + count) : (d.write blockID block).block b ≠ none := by
  simp only [write]
  by_cases heq : b = blockID
  · rw [heq, Function.update_self]
    simp
  · rw [Function.update_of_ne heq]
    exact hblocks b (by omega)

theorem sync_from_stored {room : Nat → Bool} {child : DirEntry} {d d' : DirNode}
    {blockID count result : Nat} (hfull : ∀ blockID block, d.block blockID = some block →
      block.length = direntryNrInSector)
    (hblocks : ∀ b, b + 1 < blockID + count → d.block b ≠ none)
    (h : d.syncFrom direntryNrInSector room child blockID count = some (d', result)) :
    ∃ place, Stored direntryNrInSector (blockID * direntryNrInSector) place child d d' result := by
  induction count generalizing d blockID with
  | zero => cases h
  | succ count ih =>
      rw [syncFrom] at h
      split at h
      · -- Only the block behind the directory may be missing.
        rename_i hroom
        cases count with
        | zero => cases h
        | succ count =>
            exact absurd (Option.isNone_iff_eq_none.mp hroom.1) (hblocks blockID (by omega))
      · split at h
        · rename_i block result' hsync
          cases h
          exact stored_here hfull hsync
        · rename_i hsync
          obtain ⟨place, hstored⟩ := ih (write_full hfull (load_length hfull blockID))
            (write_keeps_blocks hblocks) h
          exact ⟨place, hstored.behind hfull hsync⟩

/-- If the loop stores nothing, there is no place in the blocks that the inode has. -/
theorem sync_from_none {room : Nat → Bool} {child : DirEntry} {d : DirNode} {blockID count : Nat}
    (hfull : ∀ blockID block, d.block blockID = some block → block.length = direntryNrInSector)
    (hblocks : ∀ b, b + 1 < blockID + count → d.block b ≠ none)
    (h : d.syncFrom direntryNrInSector room child blockID count = none) (i : Nat)
    (hstart : blockID * direntryNrInSector ≤ i)
    (hi : i + direntryNrInSector < (blockID + count) * direntryNrInSector) :
    takes child (d.slot direntryNrInSector i) = false := by
  induction count generalizing d blockID with
  | zero =>
      rw [Nat.add_zero] at hi
      omega
  | succ count ih =>
      have hsucc : (blockID + 1) * direntryNrInSector =
          blockID * direntryNrInSector + direntryNrInSector := Nat.succ_mul _ _
      cases count with
      | zero =>
          rw [Nat.zero_add, hsucc] at hi
          omega
      | succ count =>
          have hsome : ¬((d.block blockID).isNone = true ∧ room blockID = false) := by
            rintro ⟨hnone, -⟩
            exact hblocks blockID (by omega) (Option.isNone_iff_eq_none.mp hnone)
          rw [syncFrom, if_neg hsome] at h
          cases hsync : syncBlock child (d.load direntryNrInSector blockID) with
          | some stored =>
              rw [hsync] at h
              cases h
          | none =>
              rw [hsync] at h
              by_cases hin : i < (blockID + 1) * direntryNrInSector
              · obtain ⟨k, rfl⟩ := Nat.exists_eq_add_of_le hstart
                rw [slot_in_block d blockID (by omega)]
                exact sync_block_full hsync k (by rw [load_length hfull]; omega)
              · have hlater := ih (write_full hfull (load_length hfull blockID))
                  (write_keeps_blocks hblocks) h (by omega) (by rwa [Nat.add_right_comm])
                rwa [slot_write_load] at hlater

/-! ## Lookup in a well-formed directory -/

section Lookup

variable {d : DirNode} {name : List Char}

/-- The blocks of the directory hold the places that its size covers. -/
theorem blocks_cover (hn : 0 < direntryNrInSector)
    (hfits : d.size + direntryNrInSector * sizeofDirEntry ≤ 2 ^ 32) (i : Nat) :
    (i * sizeofDirEntry < d.size → i < d.blocks direntryNrInSector * direntryNrInSector) ∧
      (i < d.blocks direntryNrInSector → i * direntryNrInSector * sizeofDirEntry < d.size) := by
  simp only [sizeofDirEntry] at hfits ⊢
  have hwrap : d.size + direntryNrInSector * 256 - 1 < 2 ^ 32 := by omega
  have hround : d.blocks direntryNrInSector =
      (d.size + direntryNrInSector * 256 - 1) / (direntryNrInSector * 256) := by
    rw [blocks, divRoundUp, wrap_of_lt hwrap]
  have hdiv := Nat.div_add_mod (d.size + direntryNrInSector * 256 - 1) (direntryNrInSector * 256)
  have hmod := Nat.mod_lt (d.size + direntryNrInSector * 256 - 1)
    (show 0 < direntryNrInSector * 256 by omega)
  rw [← hround] at hdiv
  constructor
  · intro hi
    have hassoc : direntryNrInSector * 256 * d.blocks direntryNrInSector =
        d.blocks direntryNrInSector * direntryNrInSector * 256 := by ring
    omega
  · intro hi
    have hle := Nat.mul_le_mul_left (direntryNrInSector * 256) (Nat.succ_le_of_lt hi)
    have hassoc : direntryNrInSector * 256 * i.succ =
        i * direntryNrInSector * 256 + direntryNrInSector * 256 := by
      rw [Nat.succ_eq_add_one]
      ring
    omega

theorem search_eq (h : ∀ blockID block, d.block blockID = some block →
      block.length = direntryNrInSector) :
    d.searchDirEntry direntryNrInSector name = Fifos.searchDirEntry name
      ((List.range (d.blocks direntryNrInSector * direntryNrInSector)).map
        (d.slot direntryNrInSector)) := by
  rw [searchDirEntry, search_dir, flatten_blocks h]

theorem load_eq (h : ∀ blockID block, d.block blockID = some block →
      block.length = direntryNrInSector) :
    d.loadDirEntry direntryNrInSector name =
      ((List.range (d.blocks direntryNrInSector * direntryNrInSector)).map
        (d.slot direntryNrInSector)).find? fun e => IsEntry name e := by
  rw [loadDirEntry, load_dir, flatten_blocks h]

/-- The first places, up to one of them. -/
theorem range_split {count i : Nat} (hi : i < count) (f : Nat → DirEntry) :
    ∃ rest, (List.range count).map f = (List.range i).map f ++ f i :: rest := by
  obtain ⟨k, rfl⟩ := Nat.exists_eq_add_of_lt hi
  refine ⟨((List.range k).map fun j => f (i + 1 + j)), ?_⟩
  rw [Nat.add_right_comm, List.range_add, List.map_append, List.range_succ, List.map_append,
    List.map_map, List.append_assoc]
  rfl

/-- The search finds the entry that has the name. -/
theorem search_some_iff (hn : 0 < direntryNrInSector) (h : d.WellFormed direntryNrInSector)
    (hfits : d.size + direntryNrInSector * sizeofDirEntry ≤ 2 ^ 32) (hname : name ≠ [])
    (e : DirEntry) : d.searchDirEntry direntryNrInSector name = some e ↔
      IsEntry name e ∧ ∃ i, d.slot direntryNrInSector i = e := by
  rw [search_eq h.full]
  constructor
  · intro hsearch
    obtain ⟨before, after, heq, -, he, -⟩ := search_split hsearch
    have hmem : e ∈ before ++ e :: after := by simp
    rw [← heq, List.mem_map] at hmem
    obtain ⟨i, -, hi⟩ := hmem
    exact ⟨he, i, hi⟩
  · rintro ⟨he, i, rfl⟩
    have hnamed : (d.slot direntryNrInSector i).name ≠ [] := by rwa [he.1]
    obtain ⟨rest, hsplit⟩ := range_split
      ((blocks_cover hn hfits i).1 ((h.written i).mp hnamed)) (d.slot direntryNrInSector)
    rw [hsplit, search_skip]
    · rw [Fifos.searchDirEntry, if_pos hnamed, if_pos he]
    · intro x hx
      obtain ⟨j, hj, rfl⟩ := List.mem_map.mp hx
      have hlt := List.mem_range.mp hj
      have hle := Nat.mul_le_mul_right sizeofDirEntry hlt.le
      refine ⟨(h.written j).mpr (hle.trans_lt ((h.written i).mp hnamed)), fun hentry => ?_⟩
      have := h.distinct name j i hentry he hname
      omega

theorem load_some_iff (hn : 0 < direntryNrInSector) (h : d.WellFormed direntryNrInSector)
    (hfits : d.size + direntryNrInSector * sizeofDirEntry ≤ 2 ^ 32) (hname : name ≠ [])
    (e : DirEntry) : d.loadDirEntry direntryNrInSector name = some e ↔
      IsEntry name e ∧ ∃ i, d.slot direntryNrInSector i = e := by
  rw [load_eq h.full]
  constructor
  · intro hload
    have hmem := List.mem_of_find?_eq_some hload
    obtain ⟨i, -, hi⟩ := List.mem_map.mp hmem
    exact ⟨by simpa using List.find?_some hload, i, hi⟩
  · rintro ⟨he, i, rfl⟩
    have hnamed : (d.slot direntryNrInSector i).name ≠ [] := by rwa [he.1]
    obtain ⟨rest, hsplit⟩ := range_split
      ((blocks_cover hn hfits i).1 ((h.written i).mp hnamed)) (d.slot direntryNrInSector)
    rw [hsplit, List.find?_append, List.find?_eq_none.mpr, Option.none_or,
      List.find?_cons_of_pos (by simpa using he)]
    intro x hx hentry
    obtain ⟨j, hj, rfl⟩ := List.mem_map.mp hx
    have hlt := List.mem_range.mp hj
    have := h.distinct name j i (by simpa using hentry) he hname
    omega

/-- Without blocks nothing is found. -/
theorem search_no_blocks (h : d.blocks direntryNrInSector = 0) :
    d.searchDirEntry direntryNrInSector name = none := by
  rw [searchDirEntry, h]
  rfl

/-- All blocks that the size covers are there. -/
theorem blocks_allocated (hn : 0 < direntryNrInSector) (h : d.WellFormed direntryNrInSector)
    (hfits : d.size + direntryNrInSector * sizeofDirEntry ≤ 2 ^ 32) {blockID : Nat}
    (hblock : blockID < d.blocks direntryNrInSector) : d.block blockID ≠ none := by
  intro hnone
  have hnamed := (h.written (blockID * direntryNrInSector)).mpr
    ((blocks_cover hn hfits blockID).2 hblock)
  rw [← Nat.add_zero (blockID * direntryNrInSector), slot_in_block d blockID hn, load, hnone,
    Option.getD_none, List.getD_eq_getElem _ _ (by simpa using hn), List.getElem_replicate] at hnamed
  exact hnamed rfl

end Lookup

/-! ## Stores in a well-formed directory -/

section Stores

variable {child : DirEntry} {d d' : DirNode} {place result : Nat}

/-- A size near the end of the 32 bits gives no blocks. -/
theorem blocks_wrapped (hn : direntryNrInSector ≤ 16)
    (hsize : d.size < 2 ^ 32) (h : 2 ^ 32 < d.size + direntryNrInSector * sizeofDirEntry) :
    d.blocks direntryNrInSector = 0 := by
  have hblock := Nat.mul_le_mul_right sizeofDirEntry hn
  simp only [blocks, divRoundUp, wrap, sizeofDirEntry] at *
  exact Nat.div_eq_of_lt (by omega)

theorem blocks_of_empty (hn : 0 < direntryNrInSector) (hmax : direntryNrInSector ≤ 16)
    (hsize : d.size = 0) : d.blocks direntryNrInSector = 0 := by
  have hblock := Nat.mul_le_mul_right sizeofDirEntry hmax
  have hpos := Nat.mul_le_mul_right sizeofDirEntry hn
  simp only [blocks, divRoundUp, wrap, sizeofDirEntry] at *
  exact Nat.div_eq_of_lt (by omega)

theorem blocks_there (hn : 0 < direntryNrInSector) (hmax : direntryNrInSector ≤ 16)
    (hd : d.WellFormed direntryNrInSector) (b : Nat)
    (hb : b + 1 < 0 + (d.blocks direntryNrInSector + 1)) : d.block b ≠ none := by
  by_cases hfits : d.size + direntryNrInSector * sizeofDirEntry ≤ 2 ^ 32
  · exact blocks_allocated hn hd hfits (by omega)
  · rw [blocks_wrapped hmax hd.sizeLt (by omega)] at hb
    omega

theorem sync_stored {room : Nat → Bool} (hn : 0 < direntryNrInSector)
    (hmax : direntryNrInSector ≤ 16) (hd : d.WellFormed direntryNrInSector)
    (h : d.syncDirEntry direntryNrInSector room child = some (d', result)) :
    ∃ place, Stored direntryNrInSector 0 place child d d' result := by
  simpa using sync_from_stored hd.full (blocks_there hn hmax hd) h

/-- The child is stored if a block of the directory has a place for it. -/
theorem sync_succeeds {room : Nat → Bool} {i : Nat} (hn : 0 < direntryNrInSector)
    (hmax : direntryNrInSector ≤ 16) (hd : d.WellFormed direntryNrInSector)
    (hi : i < d.blocks direntryNrInSector * direntryNrInSector)
    (htakes : takes child (d.slot direntryNrInSector i) = true) :
    ∃ stored, d.syncDirEntry direntryNrInSector room child = some stored := by
  refine Option.ne_none_iff_exists'.mp fun hnone => ?_
  have hsucc : (0 + (d.blocks direntryNrInSector + 1)) * direntryNrInSector =
      d.blocks direntryNrInSector * direntryNrInSector + direntryNrInSector := by ring
  have hplace := sync_from_none hd.full (blocks_there hn hmax hd) hnone i (by omega) (by omega)
  rw [htakes] at hplace
  cases hplace

/-- A place that has never been written may take every child. -/
theorem takes_empty (child : DirEntry) : takes child emptyEntry = true := by
  simp [takes, emptyEntry]

/-- The first place that may take the child is not behind the first one that is not written. -/
theorem Stored.place_le (hd : d.WellFormed direntryNrInSector)
    (h : Stored direntryNrInSector 0 place child d d' result) :
    place * sizeofDirEntry ≤ d.size := by
  by_contra hlt
  have hwhole := Nat.div_mul_cancel (Nat.dvd_of_mod_eq_zero hd.wholeEntries)
  have hnext : (d.slot direntryNrInSector (d.size / sizeofDirEntry)).name = [] := by
    by_contra hnamed
    have := (hd.written _).mp hnamed
    omega
  have hpassed := h.passed (d.size / sizeofDirEntry) (Nat.zero_le _) (by
    rw [← hwhole] at hlt
    exact Nat.lt_of_mul_lt_mul_right (not_le.mp hlt))
  rw [hd.cleared _ hnext, takes_empty] at hpassed
  cases hpassed

/-- The places that are passed over are in use. -/
theorem Stored.passed_valid (h : Stored direntryNrInSector 0 place child d d' result) {i : Nat}
    (hi : i < place) : (d.slot direntryNrInSector i).type ≠ typeInvalid := by
  have hpassed := h.passed i (Nat.zero_le _) hi
  simp only [takes, Bool.or_eq_false_iff, Bool.and_eq_false_iff,
    decide_eq_false_iff_not] at hpassed
  exact hpassed.1.1.2

/-- The child takes the place of an entry without the name of another one, or the next place. -/
theorem WellFormed.store (hd : d.WellFormed direntryNrInSector)
    (hslots : ∀ i, d'.slot direntryNrInSector i =
      if i = place then child else d.slot direntryNrInSector i)
    (hfull : ∀ blockID block, d'.block blockID = some block → block.length = direntryNrInSector)
    (hname : child.name ≠ [])
    (hfresh : ∀ i, i ≠ place → ¬IsEntry child.name (d.slot direntryNrInSector i))
    (hsize : place * sizeofDirEntry < d.size ∧ d'.size = d.size ∨
      place * sizeofDirEntry = d.size ∧ d'.size = d.size + sizeofDirEntry)
    (hlt : d'.size < 2 ^ 32) : d'.WellFormed direntryNrInSector := by
  have hwhole := hd.wholeEntries
  refine ⟨hlt, ?_, hfull, ?_, ?_, ?_⟩
  · simp only [sizeofDirEntry] at *
    omega
  · intro i
    rw [hslots]
    by_cases hi : i = place
    · rw [if_pos hi, hi]
      refine iff_of_true hname ?_
      simp only [sizeofDirEntry] at *
      omega
    · rw [if_neg hi, hd.written i]
      simp only [sizeofDirEntry] at *
      omega
  · intro i hempty
    rw [hslots] at hempty ⊢
    by_cases hi : i = place
    · rw [if_pos hi] at hempty
      exact absurd hempty hname
    · rw [if_neg hi] at hempty ⊢
      exact hd.cleared i hempty
  · intro name i j hentry hentry' hne
    rw [hslots] at hentry hentry'
    by_cases hi : i = place
    · by_cases hj : j = place
      · rw [hi, hj]
      · rw [if_pos hi] at hentry
        rw [if_neg hj, ← hentry.1] at hentry'
        exact absurd hentry' (hfresh j hj)
    · by_cases hj : j = place
      · rw [if_pos hj] at hentry'
        rw [if_neg hi, ← hentry'.1] at hentry
        exact absurd hentry (hfresh i hi)
      · rw [if_neg hi] at hentry
        rw [if_neg hj] at hentry'
        exact hd.distinct name i j hentry hentry' hne

/-- What a store does to a name, in both scans. -/
theorem resolve_stored {name : List Char} (hn : 0 < direntryNrInSector)
    (hd : d.WellFormed direntryNrInSector) (hd' : d'.WellFormed direntryNrInSector)
    (hfits : d.size + direntryNrInSector * sizeofDirEntry ≤ 2 ^ 32)
    (hfits' : d'.size + direntryNrInSector * sizeofDirEntry ≤ 2 ^ 32) (hname : name ≠ [])
    (hsame : ∀ e, IsEntry name e → ((∃ i, d'.slot direntryNrInSector i = e) ↔
      ∃ i, d.slot direntryNrInSector i = e)) :
    d'.searchDirEntry direntryNrInSector name = d.searchDirEntry direntryNrInSector name ∧
      d'.loadDirEntry direntryNrInSector name = d.loadDirEntry direntryNrInSector name := by
  constructor
  · apply Option.ext
    intro e
    rw [search_some_iff hn hd' hfits' hname, search_some_iff hn hd hfits hname]
    exact and_congr_right fun he => hsame e he
  · apply Option.ext
    intro e
    rw [load_some_iff hn hd' hfits' hname, load_some_iff hn hd hfits hname]
    exact and_congr_right fun he => hsame e he

/-- A name of neither the child nor the entry in its place resolves as before. -/
theorem resolve_other {name : List Char} (hn : 0 < direntryNrInSector)
    (hd : d.WellFormed direntryNrInSector) (hd' : d'.WellFormed direntryNrInSector)
    (hfits : d.size + direntryNrInSector * sizeofDirEntry ≤ 2 ^ 32)
    (hfits' : d'.size + direntryNrInSector * sizeofDirEntry ≤ 2 ^ 32) (hname : name ≠ [])
    (hslots : ∀ i, d'.slot direntryNrInSector i =
      if i = place then child else d.slot direntryNrInSector i)
    (hchild : ¬IsEntry name child) (hplace : ¬IsEntry name (d.slot direntryNrInSector place)) :
    d'.searchDirEntry direntryNrInSector name = d.searchDirEntry direntryNrInSector name ∧
      d'.loadDirEntry direntryNrInSector name = d.loadDirEntry direntryNrInSector name := by
  refine resolve_stored hn hd hd' hfits hfits' hname fun e he => ⟨?_, ?_⟩
  · rintro ⟨i, hi⟩
    rw [hslots] at hi
    split at hi
    · rw [hi] at hchild
      exact absurd he hchild
    · exact ⟨i, hi⟩
  · rintro ⟨i, hi⟩
    refine ⟨i, ?_⟩
    rw [hslots, if_neg, hi]
    rintro rfl
    rw [hi] at hplace
    exact hplace he

end Stores

/-! ## Small directories -/

/-- A directory whose entries fill one block. -/
theorem one_block {n : Nat} {d : DirNode} (block : List DirEntry) (hn : 0 < n)
    (hlt : n * sizeofDirEntry < 2 ^ 32) (hlen : block.length = n) (hzero : d.block 0 = some block)
    (hnone : ∀ blockID, blockID ≠ 0 → d.block blockID = none)
    (hsize : d.size = n * sizeofDirEntry) (hnamed : ∀ e ∈ block, e.name ≠ [])
    (hdistinct : block.Pairwise fun a b =>
      a.type ≠ typeInvalid → b.type ≠ typeInvalid → a.name ≠ b.name) : d.WellFormed n := by
  have hin : ∀ i (hi : i < n), d.slot n i = block[i] := by
    intro i hi
    have hslot := slot_in_block d 0 hi
    rw [Nat.zero_mul, Nat.zero_add] at hslot
    rw [hslot, load, hzero, Option.getD_some, List.getD_eq_getElem _ _ (by omega)]
  have hout : ∀ i, n ≤ i → d.slot n i = emptyEntry := by
    intro i hi
    have hblock : i / n ≠ 0 := by
      have := Nat.div_pos hi hn
      omega
    rw [slot, load, hnone _ hblock, Option.getD_none,
      List.getD_eq_getElem _ _ (by rw [List.length_replicate]; exact Nat.mod_lt i hn),
      List.getElem_replicate]
  have hlate : ∀ i, n ≤ i → (d.slot n i).name = [] := fun i hi => by rw [hout i hi]; rfl
  refine ⟨by omega, ?_, ?_, ?_, ?_, ?_⟩
  · rw [hsize, Nat.mul_mod_left]
  · intro blockID entries hblock
    by_cases h : blockID = 0
    · rw [h, hzero] at hblock
      cases hblock
      exact hlen
    · rw [hnone blockID h] at hblock
      cases hblock
  · intro i
    by_cases hi : i < n
    · rw [hin i hi]
      refine iff_of_true (hnamed _ (List.getElem_mem _)) ?_
      rw [hsize]
      exact Nat.mul_lt_mul_of_pos_right hi (by decide)
    · refine iff_of_false (fun h => h (hlate i (by omega))) ?_
      rw [hsize, not_lt]
      exact Nat.mul_le_mul_right _ (not_lt.mp hi)
  · intro i hempty
    by_cases hi : i < n
    · rw [hin i hi] at hempty
      exact absurd hempty (hnamed _ (List.getElem_mem _))
    · exact hout i (by omega)
  · intro name i j hi hj hname
    have hlti : i < n := by
      by_contra h
      exact hname (by rw [← hi.1, hlate i (by omega)])
    have hltj : j < n := by
      by_contra h
      exact hname (by rw [← hj.1, hlate j (by omega)])
    rw [hin i hlti] at hi
    rw [hin j hltj] at hj
    have hpair := List.pairwise_iff_getElem.mp hdistinct
    by_contra hne
    obtain hlt | hlt := Nat.lt_or_gt_of_ne hne
    · exact hpair i j (by omega) (by omega) hlt hi.2 hj.2 (hi.1.trans hj.1.symm)
    · exact hpair j i (by omega) (by omega) hlt hj.2 hi.2 (hj.1.trans hi.1.symm)

/-- A directory that has no block yet. -/
theorem no_block {n : Nat} (hn : 0 < n) : (DirNode.mk 0 fun _ => none).WellFormed n := by
  have hslot : ∀ i, (DirNode.mk 0 fun _ => none).slot n i = emptyEntry := by
    intro i
    rw [slot, load, Option.getD_none,
      List.getD_eq_getElem _ _ (by rw [List.length_replicate]; exact Nat.mod_lt i hn),
      List.getElem_replicate]
  refine ⟨by decide, rfl, nofun, fun i => ?_, fun i _ => hslot i, fun name i j hi _ hname => ?_⟩
  · rw [hslot]
    exact iff_of_false (fun h => h rfl) (Nat.not_lt_zero _)
  · rw [hslot] at hi
    exact absurd hi.1.symm hname

end DirNode

end XBook.Dirs
