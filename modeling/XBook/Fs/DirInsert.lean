import Mathlib.Tactic.IntervalCases
import XBook.Fs.DirNode

/-!
# Insertion into a directory

`BOFS_CreateFile` of `fs/bofs/file.c` and `BOFS_CreateNewDirEntry` of `fs/bofs/dir.c`, over the
inodes of a disk. `BOFS_SyncDirEntry` takes the place of an entry that has the inode of the new one
for the place of that entry. `directory_insertion_iff` says when the new entry is found and the
others are as before.
-/

namespace XBook.Dirs

open Fifos

/-- The inodes of a disk, as far as they are directories, and the inode bitmap. -/
structure DirStore where
  dirs : Nat → DirNode
  inodeNr : Nat
  inodeUsed : Nat → Bool

/-- The size of the parent after `BOFS_SyncDirEntry`, unless the place was invalid. -/
def DirNode.grow (d : DirNode) (result : Nat) : DirNode :=
  if result = 1 then { d with size := wrap (d.size + sizeofDirEntry) } else d

namespace DirStore

/-- `BOFS_AllocBitmap` of one inode finds the first clear bit. -/
def allocInode (s : DirStore) : Option Nat :=
  (List.range s.inodeNr).find? fun id => !s.inodeUsed id

/-- `BOFS_SyncInode`. -/
def syncInode (s : DirStore) (id : Nat) (node : DirNode) : DirStore :=
  { s with dirs := Function.update s.dirs id node }

/-- `BOFS_CreateInode` of an allocated inode, with its bit and its size. -/
def createInode (s : DirStore) (id size : Nat) : DirStore :=
  { s.syncInode id ⟨size, fun _ => none⟩ with
    inodeUsed := Function.update s.inodeUsed id true }

section Calls

variable (direntryNrInSector : Nat)

/-- `BOFS_SyncDirEntry` of a child in its parent, with the parent's size. -/
def syncChild (s : DirStore) (parent : Nat) (room : Nat → Bool) (child : DirEntry) :
    Option DirStore :=
  ((s.dirs parent).syncDirEntry direntryNrInSector room child).map fun (node, result) =>
    s.syncInode parent (node.grow result)

/-- `BOFS_CreateFile`, with the descriptor of `BOFS_AllocFdGlobal` and `TaskInstallFD`, or -1. -/
def createFile (s : DirStore) (parentDir : DirEntry) (name : List Char) (room : Nat → Bool)
    (fd : Int) : DirStore × Int :=
  match s.allocInode with
  | none => (s, -1)
  | some inodeID =>
      let s := s.createInode inodeID 0
      match s.syncChild direntryNrInSector parentDir.inode room ⟨inodeID, typeNormal, name⟩ with
      | none => (s, -1)
      | some s => (s, fd)

/-- `BOFS_CreateNewDirEntry`, which writes `.` and `..` into the new directory first. -/
def createNewDirEntry (s : DirStore) (parentDir : DirEntry) (name : List Char)
    (childRoom room : Nat → Bool) : DirStore × Int :=
  match s.allocInode with
  | none => (s, -1)
  | some inodeID =>
      let childDir : DirEntry := ⟨inodeID, typeDirectory, name⟩
      let s := s.createInode inodeID (sizeofDirEntry * 2)
      match (s.dirs inodeID).syncDirEntry direntryNrInSector childRoom
          { childDir with name := ['.'] } with
      | none => (s, -1)
      | some (node, _) =>
          let s := s.syncInode inodeID node
          match node.syncDirEntry direntryNrInSector childRoom
              { parentDir with name := ['.', '.'] } with
          | none => (s, -1)
          | some (node, _) =>
              let s := s.syncInode inodeID node
              match s.syncChild direntryNrInSector parentDir.inode room childDir with
              | none => (s, -1)
              | some s => (s, 0)

end Calls

end DirStore

/-! ## The insertion law -/

section Law

variable (direntryNrInSector : Nat)

/-- The child is found by both scans, every other name resolves as before, and the size covers the
places that have been written. -/
structure Inserted (child : DirEntry) (d d' : DirNode) : Prop where
  found : d'.searchDirEntry direntryNrInSector child.name = some child ∧
    d'.loadDirEntry direntryNrInSector child.name = some child
  others : ∀ other, other ≠ [] → other ≠ child.name →
    d'.searchDirEntry direntryNrInSector other = d.searchDirEntry direntryNrInSector other ∧
      d'.loadDirEntry direntryNrInSector other = d.loadDirEntry direntryNrInSector other
  wellFormed : d'.WellFormed direntryNrInSector

/-- The call has inserted an entry with an inode that was free. -/
def InsertedIn (parent : Nat) (type : UInt16) (name : List Char) (s s' : DirStore) : Prop :=
  ∃ inodeID, s.inodeUsed inodeID = false ∧ s'.inodeUsed inodeID = true ∧
    Inserted direntryNrInSector ⟨inodeID, type, name⟩ (s.dirs parent) (s'.dirs parent)

/-- No entry in front of the first invalid place has the inode. -/
def NewInode (inodeID : Nat) (d : DirNode) : Prop :=
  ∀ i, i * sizeofDirEntry < d.size →
    (∀ j ≤ i, (d.slot direntryNrInSector j).type ≠ typeInvalid) →
    (d.slot direntryNrInSector i).inode ≠ inodeID

/-- `DIV_ROUND_UP` of the size that the directory will have stays in 32 bits. -/
def SizeFits (d : DirNode) : Prop :=
  d.size + direntryNrInSector * sizeofDirEntry ≤ 2 ^ 32 ∧
    ((∀ i, (d.slot direntryNrInSector i).type ≠ typeInvalid) →
      d.size + sizeofDirEntry + direntryNrInSector * sizeofDirEntry ≤ 2 ^ 32)

end Law

variable {direntryNrInSector : Nat}

namespace DirNode

@[simp] theorem slot_grow (d : DirNode) (result i : Nat) :
    (d.grow result).slot direntryNrInSector i = d.slot direntryNrInSector i := by
  unfold grow
  split <;> rfl

theorem grow_full {d : DirNode} (h : ∀ blockID block, d.block blockID = some block →
    block.length = direntryNrInSector) (result blockID : Nat) (block : List DirEntry)
    (hblock : (d.grow result).block blockID = some block) : block.length = direntryNrInSector := by
  unfold grow at hblock
  split at hblock <;> exact h blockID block hblock

variable {child : DirEntry} {d d' : DirNode} {place result : Nat}

/-- The entry with a free inode and a new name is stored at an invalid place or at the next one. -/
theorem Stored.new_place (hd : d.WellFormed direntryNrInSector)
    (h : Stored direntryNrInSector 0 place child d d' result)
    (hfresh : ∀ i, ¬IsEntry child.name (d.slot direntryNrInSector i))
    (hnew : NewInode direntryNrInSector child.inode d) :
    place * sizeofDirEntry < d.size ∧ result = 2 ∧
        (d.slot direntryNrInSector place).type = typeInvalid ∨
      place * sizeofDirEntry = d.size ∧ result = 1 ∧
        d.slot direntryNrInSector place = emptyEntry ∧
        ∀ i, (d.slot direntryNrInSector i).type ≠ typeInvalid := by
  have hle := h.place_le hd
  have hresult := h.result_eq
  by_cases hinvalid : (d.slot direntryNrInSector place).type = typeInvalid
  · left
    rw [if_pos hinvalid] at hresult
    have hnamed : (d.slot direntryNrInSector place).name ≠ [] := by
      intro hempty
      rw [hd.cleared place hempty] at hinvalid
      exact absurd hinvalid (by decide)
    exact ⟨(hd.written place).mp hnamed, hresult, hinvalid⟩
  · right
    rw [if_neg hinvalid] at hresult
    have hempty : (d.slot direntryNrInSector place).name = [] := by
      by_contra hnamed
      have htakes := h.takesPlace
      have hinode : (d.slot direntryNrInSector place).inode = child.inode := by
        have hentry := hfresh place
        simp only [takes, Bool.or_eq_true, Bool.and_eq_true, decide_eq_true_eq] at htakes
        grind
      refine hnew place ((hd.written place).mp hnamed) (fun j hj => ?_) hinode
      obtain hj | rfl := Nat.lt_or_eq_of_le hj
      · exact h.passed_valid hj
      · exact hinvalid
    have hsize : ¬place * sizeofDirEntry < d.size := fun hlt => (hd.written place).mpr hlt hempty
    refine ⟨by omega, hresult, hd.cleared place hempty, fun i => ?_⟩
    by_cases hi : i < place
    · exact h.passed_valid hi
    · have hnext : (d.slot direntryNrInSector i).name = [] := by
        by_contra hnamed
        have hlt := (hd.written i).mp hnamed
        have := Nat.mul_le_mul_right sizeofDirEntry (not_lt.mp hi)
        omega
      rw [hd.cleared i hnext]
      decide

/-- The new entry is found and the others are as before. -/
theorem Stored.inserted {n : Nat} (hn : 0 < n) (hd : d.WellFormed n)
    (h : Stored n 0 place child d d' result) (hname : child.name ≠ [])
    (htype : child.type ≠ typeInvalid) (hfresh : ∀ i, ¬IsEntry child.name (d.slot n i))
    (hnew : NewInode n child.inode d) (hfits : SizeFits n d) :
    Inserted n child d (d'.grow result) := by
  have hplace := h.new_place hd hfresh hnew
  have hslots : ∀ i, (d'.grow result).slot n i = if i = place then child else d.slot n i := by
    intro i
    rw [slot_grow, h.slots]
  have hsize : (place * sizeofDirEntry < d.size ∧ (d'.grow result).size = d.size ∨
      place * sizeofDirEntry = d.size ∧ (d'.grow result).size = d.size + sizeofDirEntry) ∧
      (d'.grow result).size + n * sizeofDirEntry ≤ 2 ^ 32 := by
    obtain ⟨hlt, rfl, -⟩ | ⟨heq, rfl, -, hvalid⟩ := hplace
    · refine ⟨.inl ⟨hlt, h.size_eq⟩, ?_⟩
      have := hfits.1
      rw [← h.size_eq] at this
      exact this
    · have hgrown := hfits.2 hvalid
      have hwrap : wrap (d'.size + sizeofDirEntry) = d.size + sizeofDirEntry := by
        rw [h.size_eq, wrap_of_lt]
        have := Nat.mul_le_mul_right sizeofDirEntry hn
        simp only [sizeofDirEntry] at *
        omega
      exact ⟨.inr ⟨heq, hwrap⟩, by rw [grow, if_pos rfl, hwrap]; exact hgrown⟩
  have hlt : (d'.grow result).size < 2 ^ 32 := by
    have := Nat.mul_le_mul_right sizeofDirEntry hn
    simp only [sizeofDirEntry] at *
    omega
  have hd' : (d'.grow result).WellFormed n := hd.store hslots (grow_full h.full result) hname
    (fun i _ => hfresh i) hsize.1 hlt
  have hchild : IsEntry child.name child ∧ ∃ i, (d'.grow result).slot n i = child :=
    ⟨⟨rfl, htype⟩, place, by rw [hslots, if_pos rfl]⟩
  refine ⟨⟨(search_some_iff hn hd' hsize.2 hname child).mpr hchild,
    (load_some_iff hn hd' hsize.2 hname child).mpr hchild⟩, fun other hne hother => ?_, hd'⟩
  refine resolve_other hn hd hd' hfits.1 hsize.2 hne hslots (fun he => hother he.1.symm) ?_
  intro hentry
  obtain ⟨-, -, hinvalid⟩ | ⟨-, -, hempty, -⟩ := hplace
  · exact hentry.2 hinvalid
  · rw [hempty] at hentry
    exact hne hentry.1.symm

/-- A child that is found is in a directory whose size has not wrapped. -/
theorem Stored.size_fits {n : Nat} (hn : 0 < n) (hmax : n ≤ 16) (hd : d.WellFormed n)
    (h : Stored n 0 place child d d' result)
    (hfound : (d'.grow result).searchDirEntry n child.name = some child) : SizeFits n d := by
  have hlt := hd.sizeLt
  have hwhole := hd.wholeEntries
  have hsearched : (d'.grow result).blocks n ≠ 0 := by
    intro hzero
    rw [search_no_blocks hzero] at hfound
    cases hfound
  have hresult := h.result_eq
  by_cases hinvalid : (d.slot n place).type = typeInvalid
  · rw [if_pos hinvalid] at hresult
    rw [hresult, grow, if_neg (by decide)] at hsearched
    refine ⟨?_, fun hvalid => absurd hinvalid (hvalid place)⟩
    by_contra hwrapped
    rw [← h.size_eq] at hlt hwrapped
    exact hsearched (blocks_wrapped hmax hlt (by omega))
  · rw [if_neg hinvalid] at hresult
    have hsize : (d'.grow result).size = wrap (d.size + sizeofDirEntry) := by
      rw [hresult, grow, if_pos rfl, h.size_eq]
    have hgrown : d.size + sizeofDirEntry < 2 ^ 32 := by
      by_contra hend
      have hzero : (d'.grow result).size = 0 := by
        rw [hsize]
        simp only [wrap, sizeofDirEntry] at *
        omega
      exact hsearched (blocks_of_empty hn hmax hzero)
    rw [wrap_of_lt hgrown] at hsize
    have hfits : (d'.grow result).size + n * sizeofDirEntry ≤ 2 ^ 32 := by
      by_contra hwrapped
      exact hsearched (blocks_wrapped hmax (by omega) (by omega))
    rw [hsize] at hfits
    exact ⟨by omega, fun _ => hfits⟩

/-- An entry with the inode of the child in front of the first invalid place is lost, and the size
covers a place that has never been written. -/
theorem Stored.new_inode {n : Nat} (hn : 4 ≤ n) (hd : d.WellFormed n)
    (h : Stored n 0 place child d d' result)
    (htype : child.type ≠ typeInvalid) (hfits : SizeFits n d)
    (hd' : (d'.grow result).WellFormed n) : NewInode n child.inode d := by
  intro i hi hvalid hinode
  have htakes : takes child (d.slot n i) = true := by
    simp [takes, (hd.written i).mpr hi, hinode, htype]
  have hle : place ≤ i := by
    by_contra hlt
    rw [h.passed i (Nat.zero_le _) (by omega)] at htakes
    cases htakes
  have hresult := h.result_eq
  rw [if_neg (hvalid place hle)] at hresult
  have hblock := Nat.mul_le_mul_right sizeofDirEntry hn
  have hsize : (d'.grow result).size = d.size + sizeofDirEntry := by
    have hfirst := hfits.1
    rw [hresult, grow, if_pos rfl, h.size_eq, wrap_of_lt]
    simp only [sizeofDirEntry] at *
    omega
  have hwhole := Nat.div_mul_cancel (Nat.dvd_of_mod_eq_zero hd.wholeEntries)
  have hnext : ((d'.grow result).slot n (d.size / sizeofDirEntry)).name ≠ [] := by
    rw [hd'.written, hwhole, hsize]
    exact Nat.lt_add_of_pos_right (by decide)
  have hbehind : d.size / sizeofDirEntry ≠ place := by
    rintro heq
    rw [← heq] at hle
    have := Nat.mul_le_mul_right sizeofDirEntry hle
    omega
  rw [slot_grow, h.slots, if_neg hbehind, hd.written, hwhole] at hnext
  exact lt_irrefl _ hnext

/-- The law of one store. -/
theorem inserted_iff {n : Nat} {room : Nat → Bool} (hn : 4 ≤ n) (hmax : n ≤ 16)
    (hd : d.WellFormed n) (hname : child.name ≠ []) (htype : child.type ≠ typeInvalid)
    (hfresh : d.searchDirEntry n child.name = none)
    (h : d.syncDirEntry n room child = some (d', result)) :
    Inserted n child d (d'.grow result) ↔ NewInode n child.inode d ∧ SizeFits n d := by
  have hpos : 0 < n := by omega
  obtain ⟨place, hstored⟩ := sync_stored hpos hmax hd h
  constructor
  · intro hinserted
    have hfits := hstored.size_fits hpos hmax hd hinserted.found.1
    exact ⟨hstored.new_inode hn hd htype hfits hinserted.wellFormed, hfits⟩
  · rintro ⟨hnew, hfits⟩
    refine hstored.inserted hpos hd hname htype (fun i hentry => ?_) hnew hfits
    rw [(search_some_iff hpos hd hfits.1 hname _).mpr ⟨hentry, i, rfl⟩] at hfresh
    cases hfresh

end DirNode

namespace DirStore

variable {n : Nat} {s s' : DirStore} {parentDir : DirEntry} {name : List Char}

theorem alloc_inode_free {inodeID : Nat} (h : s.allocInode = some inodeID) :
    s.inodeUsed inodeID = false := by
  simpa using List.find?_some h

/-- The condition under which the entry is inserted. -/
def Insertable (n parent : Nat) (s : DirStore) : Prop :=
  (∀ inodeID, s.allocInode = some inodeID → NewInode n inodeID (s.dirs parent)) ∧
    SizeFits n (s.dirs parent)

/-- Both calls end in a store of the child with the inode that they have allocated. -/
theorem inserted_in_iff {room : Nat → Bool} {type : UInt16} {inodeID : Nat} {mid : DirStore}
    (hn : 4 ≤ n) (hmax : n ≤ 16) (hd : (s.dirs parentDir.inode).WellFormed n) (hname : name ≠ [])
    (htype : type ≠ typeInvalid)
    (hfresh : (s.dirs parentDir.inode).searchDirEntry n name = none)
    (halloc : s.allocInode = some inodeID)
    (hdirs : mid.dirs parentDir.inode = s.dirs parentDir.inode)
    (hused : mid.inodeUsed = Function.update s.inodeUsed inodeID true)
    (h : mid.syncChild n parentDir.inode room ⟨inodeID, type, name⟩ = some s') :
    InsertedIn n parentDir.inode type name s s' ↔ s.Insertable n parentDir.inode := by
  rw [syncChild, hdirs, Option.map_eq_some_iff] at h
  obtain ⟨⟨node, result⟩, hsync, rfl⟩ := h
  have hone := DirNode.inserted_iff hn hmax hd hname htype hfresh hsync
  have hnode : (mid.syncInode parentDir.inode (node.grow result)).dirs parentDir.inode =
      node.grow result := Function.update_self _ _ _
  constructor
  · rintro ⟨other, hfree, hset, hinserted⟩
    have hsame : other = inodeID := by
      by_contra hne
      rw [show (mid.syncInode parentDir.inode (node.grow result)).inodeUsed = _ from hused,
        Function.update_of_ne hne, hfree] at hset
      cases hset
    rw [hsame, hnode] at hinserted
    obtain ⟨hnew, hfits⟩ := hone.mp hinserted
    refine ⟨fun id hid => ?_, hfits⟩
    rw [halloc] at hid
    cases hid
    exact hnew
  · rintro ⟨hnew, hfits⟩
    refine ⟨inodeID, alloc_inode_free halloc, ?_, ?_⟩
    · rw [show (mid.syncInode parentDir.inode (node.grow result)).inodeUsed = _ from hused,
        Function.update_self]
    · rw [hnode]
      exact hone.mpr ⟨hnew inodeID halloc, hfits⟩

/-- A new inode is not the one of a directory that exists. -/
theorem parent_ne {inodeID : Nat} (halloc : s.allocInode = some inodeID)
    (hparent : s.inodeUsed parentDir.inode = true) : parentDir.inode ≠ inodeID := by
  rintro rfl
  rw [alloc_inode_free halloc] at hparent
  cases hparent

end DirStore

open DirStore in
/-- A call that succeeds has inserted the entry if and only if the inode that it allocates belongs
to no entry in front of the first invalid place, and the size stays in its range. A block has room
for the 256 addresses that `BOFS_GetInodeData` takes from it, and at most 4096 bytes. -/
theorem directory_insertion_iff {n : Nat} (hn : 4 ≤ n) (hmax : n ≤ 16) (s : DirStore)
    (parentDir : DirEntry) (name : List Char) (hparent : s.inodeUsed parentDir.inode = true)
    (hd : (s.dirs parentDir.inode).WellFormed n) (hname : name ≠ [])
    (hfresh : (s.dirs parentDir.inode).searchDirEntry n name = none) :
    (∀ room fd s', s.createFile n parentDir name room fd = (s', fd) → fd ≠ -1 →
        (InsertedIn n parentDir.inode typeNormal name s s' ↔ s.Insertable n parentDir.inode)) ∧
      ∀ childRoom room s', s.createNewDirEntry n parentDir name childRoom room = (s', 0) →
        (InsertedIn n parentDir.inode typeDirectory name s s' ↔
          s.Insertable n parentDir.inode) := by
  constructor
  · intro room fd s' h hfd
    unfold createFile at h
    split at h
    · cases h
      exact absurd rfl hfd
    · rename_i inodeID halloc
      dsimp only at h
      split at h
      · cases h
        exact absurd rfl hfd
      · rename_i s'' hsync
        cases h
        refine inserted_in_iff hn hmax hd hname (by decide) hfresh halloc ?_ rfl hsync
        exact Function.update_of_ne (parent_ne halloc hparent) _ _
  · intro childRoom room s' h
    unfold createNewDirEntry at h
    split at h
    · cases h
    · rename_i inodeID halloc
      have hne := parent_ne halloc hparent
      dsimp only at h
      split at h
      · cases h
      · rename_i node _ _
        split at h
        · cases h
        · split at h
          · cases h
          · rename_i s'' hsync
            cases h
            refine inserted_in_iff hn hmax hd hname (by decide) hfresh halloc ?_ rfl hsync
            simp only [syncInode, createInode]
            rw [Function.update_of_ne hne, Function.update_of_ne hne, Function.update_of_ne hne]

/-! ## Two removals and two new files -/

/-- The entries of a root directory with three files in it. -/
def rootEntries : List DirEntry :=
  [⟨0, typeDirectory, ['.']⟩, ⟨1, typeNormal, ['a']⟩, ⟨2, typeNormal, ['b']⟩,
    ⟨3, typeNormal, ['c']⟩]

/-- The blocks and the inode bitmap after the removal of `a` and then of `b`. -/
def removedTwo : DirState :=
  (remove (remove ⟨[rootEntries], fun id => id < 4⟩ [] ['a'] []).1 [] ['b'] []).1

/-- A disk with one directory of a block. -/
def rootDisk (s : DirState) : DirStore where
  dirs := fun _ => ⟨4 * sizeofDirEntry, fun blockID => s.blocks[blockID]?⟩
  inodeNr := 8
  inodeUsed := s.inodeUsed

/-- The disk with a new file after the two removals. -/
def reusedDisk : DirStore :=
  ((rootDisk removedTwo).createFile 4 ⟨0, typeDirectory, ['.']⟩ ['d'] (fun _ => true) 0).1

/-- The second new file is given the inode of `b`, whose entry is still there, and takes its
place. -/
theorem directory_insertion_fails :
    (reusedDisk.dirs 0).WellFormed 4 ∧ reusedDisk.inodeUsed 0 = true ∧
      (reusedDisk.dirs 0).searchDirEntry 4 ['e'] = none ∧
      ∃ s', reusedDisk.createFile 4 ⟨0, typeDirectory, ['.']⟩ ['e'] (fun _ => true) 0 = (s', 0) ∧
        ¬InsertedIn 4 0 typeNormal ['e'] reusedDisk s' := by
  refine ⟨?_, by decide, by decide, (reusedDisk.createFile 4 ⟨0, typeDirectory, ['.']⟩ ['e']
    (fun _ => true) 0).1, Prod.ext rfl (by decide), ?_⟩
  · refine DirNode.one_block [⟨0, typeDirectory, ['.']⟩, ⟨1, typeNormal, ['d']⟩,
      ⟨2, typeNormal, ['b']⟩, ⟨3, typeNormal, ['c']⟩] (by decide) (by decide) rfl rfl ?_ rfl
      (by decide) (by decide)
    intro blockID hblock
    cases blockID with
    | zero => exact absurd rfl hblock
    | succ blockID => rfl
  · rintro ⟨inodeID, -, -, hinserted⟩
    have hother := (hinserted.others ['b'] (by decide) (show ['b'] ≠ ['e'] by decide)).1
    exact absurd hother (by decide)

/-- In a root directory whose block is full the new file gets the first place of a new block. -/
theorem directory_insertion_iff_root :
    ∃ s', (rootDisk ⟨[rootEntries], fun id => id < 4⟩).createFile 4 ⟨0, typeDirectory, ['.']⟩ ['d']
        (fun _ => true) 0 = (s', 0) ∧
      InsertedIn 4 0 typeNormal ['d'] (rootDisk ⟨[rootEntries], fun id => id < 4⟩) s' := by
  have hd : ((rootDisk ⟨[rootEntries], fun id => id < 4⟩).dirs 0).WellFormed 4 := by
    refine DirNode.one_block rootEntries (by decide) (by decide) rfl rfl ?_ rfl
      (by decide) (by decide)
    intro blockID hblock
    cases blockID with
    | zero => exact absurd rfl hblock
    | succ blockID => rfl
  refine ⟨_, Prod.ext rfl (by decide), ((directory_insertion_iff (by decide) (by decide) _
    ⟨0, typeDirectory, ['.']⟩ ['d'] (by decide) hd (by decide) (by decide)).1 (fun _ => true) 0 _
    (Prod.ext rfl (by decide)) (by decide)).mpr ⟨?_, by decide, fun _ => by decide⟩⟩
  intro inodeID halloc i hi _ hinode
  have hlt : i < 4 := by
    change i * 256 < 4 * 256 at hi
    omega
  have hid : inodeID = 4 := Option.some.inj (halloc.symm.trans (by decide))
  rw [hid] at hinode
  revert hinode
  interval_cases i <;> decide

end XBook.Dirs
