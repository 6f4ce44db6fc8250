import Mathlib.Data.List.DropRight
import XBook.Fs.SearchDir

/-!
# Renaming

`BOFS_ResetName` of `fs/bofs/dir.c` stores the entry that the path has led to, with its new name,
through `BOFS_SyncDirEntry`. `rename_iff` says in which directories the entry is stored in its own
place, so that the old name is gone and the new one is in no other place.
-/

namespace XBook.Paths

open Fifos Dirs Dirs.DirNode

/-- `BOFS_PATH_LEN`. -/
abbrev bofsPathLen : Nat := 255

namespace DirTree

variable {direntryNrInSector : Nat} (t : DirTree direntryNrInSector)

/-- `BOFS_ResetName`, with the inodes that it leaves and its result. It has none where it writes
behind `newPath`, which has the path at first and the new path then. -/
def resetName (path name : List Char) (beyond : Nat → Char) (room : Nat → Bool) :
    Option ((Nat → DirNode) × Int) :=
  if path = ['/'] then some (t.dirs, -1)
  else if bofsPathLen ≤ path.length then none
  else if bofsPathLen ≤ (path.rdropWhile (· ≠ '/') ++ name).length then none
  else
    let run := t.searchDir path beyond
    match run.result, run.childDir with
    | 0, some childDir =>
        match (t.dirs run.parentDir.inode).syncDirEntry direntryNrInSector room
            { childDir with name := name } with
        | none => some (t.dirs, -1)
        | some (node, _) => some (Function.update t.dirs run.parentDir.inode node, 0)
    | _, _ => some (t.dirs, -1)

/-- Every directory that a path leads into is well-formed. -/
def WellFormed : Prop :=
  ∀ path beyond, path ≠ ['/'] → (t.searchDir path beyond).result = 0 →
    (t.dirs (t.searchDir path beyond).parentDir.inode).WellFormed direntryNrInSector

end DirTree

section Law

variable (direntryNrInSector : Nat)

/-- The directory has the entry under the new name, and the others as they were. -/
structure Renamed (childDir : DirEntry) (name : List Char) (d d' : DirNode) : Prop where
  old : childDir.name ≠ name → d'.searchDirEntry direntryNrInSector childDir.name = none ∧
    d'.loadDirEntry direntryNrInSector childDir.name = none
  new : d'.searchDirEntry direntryNrInSector name = some { childDir with name := name } ∧
    d'.loadDirEntry direntryNrInSector name = some { childDir with name := name }
  others : ∀ other, other ≠ [] → other ≠ childDir.name → other ≠ name →
    d'.searchDirEntry direntryNrInSector other = d.searchDirEntry direntryNrInSector other ∧
      d'.loadDirEntry direntryNrInSector other = d.loadDirEntry direntryNrInSector other
  distinct : ∀ other i j, IsEntry other (d'.slot direntryNrInSector i) →
    IsEntry other (d'.slot direntryNrInSector j) → other ≠ [] → i = j

/-- In front of the entry there is no invalid place and no entry of the same inode, and no other
place has the new name. -/
def OwnPlace (childDir : DirEntry) (name : List Char) (d : DirNode) : Prop :=
  ∀ i, d.slot direntryNrInSector i = childDir →
    (∀ j < i, (d.slot direntryNrInSector j).type ≠ typeInvalid ∧
      (d.slot direntryNrInSector j).inode ≠ childDir.inode) ∧
    ∀ j, j ≠ i → ¬IsEntry name (d.slot direntryNrInSector j)

end Law

variable {n : Nat}

/-- The call is defined; if it fails the directories are as they were, and if it succeeds the entry
that the path has led to is renamed in its directory. -/
def RenameLaw (t : DirTree n) (path name : List Char) (beyond : Nat → Char)
    (room : Nat → Bool) : Prop :=
  ∃ dirs result, t.resetName path name beyond room = some (dirs, result) ∧
    (result ≠ 0 → dirs = t.dirs) ∧
    (result = 0 → ∃ childDir, (t.searchDir path beyond).childDir = some childDir ∧
      Renamed n childDir name (t.dirs (t.searchDir path beyond).parentDir.inode)
        (dirs (t.searchDir path beyond).parentDir.inode))

/-- The path is `/`, or both paths fit `newPath` and the entry that is found gets its own place. -/
def Renamable (t : DirTree n) (path name : List Char) (beyond : Nat → Char) : Prop :=
  path = ['/'] ∨
    path.length < bofsPathLen ∧ (path.rdropWhile (· ≠ '/') ++ name).length < bofsPathLen ∧
      ((t.searchDir path beyond).result = 0 →
        ∀ childDir, (t.searchDir path beyond).childDir = some childDir →
          OwnPlace n childDir name (t.dirs (t.searchDir path beyond).parentDir.inode))

/-! ## The entry that is renamed -/

namespace DirTree

variable {t : DirTree n}

theorem search_loop_found {mem : Nat → Char} {p left : Nat} {dir : DirEntry}
    (h : (t.searchLoop mem p dir left).result = 0) :
    ∃ name childDir, (t.searchLoop mem p dir left).childDir = some childDir ∧
      t.searchDirEntry (t.searchLoop mem p dir left).parentDir name = some childDir := by
  induction left generalizing p dir with
  | zero =>
      rw [searchLoop] at h ⊢
      dsimp only at h ⊢
      cases hsearch : t.searchDirEntry dir (cString (copyName mem (p + 1) bofsNameLen).1) with
      | none =>
          rw [hsearch] at h
          cases h
      | some childDir => exact ⟨_, childDir, rfl, hsearch⟩
  | succ left ih =>
      rw [searchLoop] at h ⊢
      dsimp only at h ⊢
      cases hsearch : t.searchDirEntry dir (cString (copyName mem (p + 1) bofsNameLen).1) with
      | none =>
          rw [hsearch] at h
          cases h
      | some childDir =>
          rw [hsearch] at h
          exact ih h

/-- A search that succeeds has found its entry in the parent. -/
theorem search_found {path : List Char} {beyond : Nat → Char} (hpath : path ≠ ['/'])
    (h : (t.searchDir path beyond).result = 0) :
    ∃ name childDir, (t.searchDir path beyond).childDir = some childDir ∧
      t.searchDirEntry (t.searchDir path beyond).parentDir name = some childDir := by
  rw [searchDir] at h ⊢
  split
  · rename_i habsolute
    rw [if_pos habsolute] at h
    cases h
  · rename_i habsolute
    rw [if_neg habsolute] at h
    simp only [hpath, and_false, if_false] at h ⊢
    split
    · rename_i hdepth
      rw [if_pos hdepth] at h
      exact search_loop_found h
    · rename_i hdepth
      rw [if_neg hdepth] at h
      cases h

end DirTree

/-! ## The store of the renamed entry -/

section Store

variable {childDir : DirEntry} {name : List Char} {d d' : DirNode} {result : Nat}

/-- A directory in which something is found has its blocks. -/
theorem found_fits (hmax : n ≤ 16) (hd : d.WellFormed n) {key : List Char}
    (h : d.searchDirEntry n key = some childDir) : d.size + n * sizeofDirEntry ≤ 2 ^ 32 := by
  by_contra hwrapped
  rw [search_no_blocks (blocks_wrapped hmax hd.sizeLt (by omega))] at h
  cases h

/-- The place of the entry that has been found. -/
theorem found_place (hn : 0 < n) (hmax : n ≤ 16) (hd : d.WellFormed n) {key : List Char}
    (h : d.searchDirEntry n key = some childDir) :
    childDir.name ≠ [] ∧ childDir.type ≠ typeInvalid ∧ ∃ i, d.slot n i = childDir ∧
      i < d.blocks n * n ∧ ∀ j ≤ i, (d.slot n j).name ≠ [] := by
  have hfits := found_fits hmax hd h
  have hsearch := h
  rw [search_eq hd.full] at h
  obtain ⟨before, after, heq, hne, he, -⟩ := search_split h
  have hkey : key ≠ [] := he.1 ▸ hne
  obtain ⟨-, i, hi⟩ := (search_some_iff hn hd hfits hkey childDir).mp hsearch
  have hsize := (hd.written i).mp (by rwa [hi])
  refine ⟨hne, he.2, i, hi, (blocks_cover hn hfits i).1 hsize, fun j hj => ?_⟩
  exact (hd.written j).mpr ((Nat.mul_le_mul_right sizeofDirEntry hj).trans_lt hsize)

/-- An entry in a block of the directory is not passed over by `BOFS_LoadDirEntry`. -/
theorem load_ne_none {key : List Char} (i : Nat)
    (hfull : ∀ blockID block, d.block blockID = some block → block.length = n)
    (hi : i < d.blocks n * n) (hentry : IsEntry key (d.slot n i)) :
    d.loadDirEntry n key ≠ none := by
  rw [load_eq hfull]
  intro hnone
  rw [List.find?_eq_none] at hnone
  exact hnone (d.slot n i) (List.mem_map_of_mem (List.mem_range.mpr hi)) (by simpa using hentry)

/-- The store in the entry's own place renames it. -/
theorem Renamed.of_place {i : Nat} (hn : 0 < n) (hd : d.WellFormed n)
    (hfits : d.size + n * sizeofDirEntry ≤ 2 ^ 32) (hchild : childDir.name ≠ [])
    (htype : childDir.type ≠ typeInvalid) (hname : name ≠ []) (hi : d.slot n i = childDir)
    (hother : ∀ j, j ≠ i → ¬IsEntry name (d.slot n j))
    (h : Stored n 0 i { childDir with name := name } d d' result) :
    Renamed n childDir name d d' := by
  have hsize := (hd.written i).mp (by rwa [hi])
  have hd' : d'.WellFormed n := hd.store h.slots h.full hname hother (.inl ⟨hsize, h.size_eq⟩)
    (by rw [h.size_eq]; exact hd.sizeLt)
  have hfits' : d'.size + n * sizeofDirEntry ≤ 2 ^ 32 := by rwa [h.size_eq]
  have hnew : IsEntry name { childDir with name := name } ∧
      ∃ j, d'.slot n j = { childDir with name := name } :=
    ⟨⟨rfl, htype⟩, i, by rw [h.slots, if_pos rfl]⟩
  refine ⟨fun hne => ?_, ⟨(search_some_iff hn hd' hfits' hname _).mpr hnew,
    (load_some_iff hn hd' hfits' hname _).mpr hnew⟩, fun other hempty hold hothername => ?_,
    hd'.distinct⟩
  · have hgone : ∀ e, ¬(IsEntry childDir.name e ∧ ∃ j, d'.slot n j = e) := by
      rintro e ⟨hentry, j, rfl⟩
      rw [h.slots] at hentry
      split at hentry
      · exact hne hentry.1.symm
      · rename_i hj
        exact hj (hd.distinct childDir.name j i hentry (by rw [hi]; exact ⟨rfl, htype⟩) hchild)
    constructor
    · rw [Option.eq_none_iff_forall_ne_some]
      exact fun e he => hgone e ((search_some_iff hn hd' hfits' hchild e).mp he)
    · rw [Option.eq_none_iff_forall_ne_some]
      exact fun e he => hgone e ((load_some_iff hn hd' hfits' hchild e).mp he)
  · exact resolve_other hn hd hd' hfits hfits' hempty h.slots (fun he => hothername he.1.symm)
      (by rw [hi]; exact fun he => hold he.1.symm)

/-- A store in another place leaves the entry under its old name, or twice under the new one. -/
theorem Renamed.place_eq {i place : Nat} (hi : d.slot n i = childDir) (htype : childDir.type ≠ typeInvalid) (hname : name ≠ [])
    (hblock : i < d.blocks n * n)
    (h : Stored n 0 place { childDir with name := name } d d' result)
    (hrenamed : Renamed n childDir name d d') : place = i := by
  by_contra hne
  have hleft : d'.slot n i = childDir := by rw [h.slots, if_neg (Ne.symm hne), hi]
  have hplace : d'.slot n place = { childDir with name := name } := by rw [h.slots, if_pos rfl]
  by_cases hsame : childDir.name = name
  · refine hne (hrenamed.distinct name place i ?_ ?_ hname)
    · rw [hplace]
      exact ⟨rfl, htype⟩
    · rw [hleft]
      exact ⟨hsame, htype⟩
  · refine load_ne_none i h.full ?_ ?_ (hrenamed.old hsame).2
    · rw [DirNode.blocks, h.size_eq]
      exact hblock
    · rw [hleft]
      exact ⟨rfl, htype⟩

theorem renamed_iff {room : Nat → Bool} {key : List Char} (hn : 0 < n) (hmax : n ≤ 16)
    (hd : d.WellFormed n) (hfound : d.searchDirEntry n key = some childDir) (hname : name ≠ [])
    (hsync : d.syncDirEntry n room { childDir with name := name } = some (d', result)) :
    Renamed n childDir name d d' ↔ OwnPlace n childDir name d := by
  obtain ⟨hchild, htype, i, hi, hblock, hnamed⟩ := found_place hn hmax hd hfound
  obtain ⟨place, hstored⟩ := sync_stored hn hmax hd hsync
  constructor
  · intro hrenamed i' hi'
    have hentry : IsEntry childDir.name childDir := ⟨rfl, htype⟩
    have hsame : i' = i := hd.distinct childDir.name i' i (by rwa [hi']) (by rwa [hi]) hchild
    subst hsame
    obtain rfl := hrenamed.place_eq hi htype hname hblock hstored
    refine ⟨fun j hj => ⟨hstored.passed_valid hj, fun hinode => ?_⟩, fun j hj hother => hj ?_⟩
    · have hpassed := hstored.passed j (Nat.zero_le j) hj
      simp [takes, hinode, htype, hnamed j hj.le] at hpassed
    · refine hrenamed.distinct name j place ?_ ?_ hname
      · rwa [hstored.slots, if_neg hj]
      · rw [hstored.slots, if_pos rfl]
        exact ⟨rfl, htype⟩
  · intro hown
    obtain ⟨hbefore, hother⟩ := hown i hi
    have htakes : takes { childDir with name := name } (d.slot n i) = true := by
      simp [takes, hi, htype, hchild]
    have hle : place ≤ i := by
      by_contra hlt
      rw [hstored.passed i (Nat.zero_le i) (by omega)] at htakes
      cases htakes
    have hplace : place = i := by
      by_contra hne
      have hlt : place < i := by omega
      obtain ⟨hvalid, hinode⟩ := hbefore place hlt
      have hentry : ¬IsEntry name (d.slot n place) := hother place hne
      have htakes' := hstored.takesPlace
      have hplacename := hnamed place hle
      simp only [takes, Bool.or_eq_true, Bool.and_eq_true, decide_eq_true_eq] at htakes'
      grind
    subst hplace
    exact Renamed.of_place hn hd (found_fits hmax hd hfound) hchild htype hname hi hother hstored

end Store

/-! ## The law -/

namespace DirTree

variable {t : DirTree n} {path name : List Char} {beyond : Nat → Char} {room : Nat → Bool}

/-- What the call does where the search has found the entry. -/
theorem reset_name_found {childDir : DirEntry} {stored : DirNode × Nat} (hpath : path ≠ ['/'])
    (hlen : path.length < bofsPathLen)
    (hnew : (path.rdropWhile (· ≠ '/') ++ name).length < bofsPathLen)
    (hresult : (t.searchDir path beyond).result = 0)
    (hchild : (t.searchDir path beyond).childDir = some childDir)
    (hsync : (t.dirs (t.searchDir path beyond).parentDir.inode).syncDirEntry n room
      { childDir with name := name } = some stored) :
    t.resetName path name beyond room =
      some (Function.update t.dirs (t.searchDir path beyond).parentDir.inode stored.1, 0) := by
  rw [resetName, if_neg hpath, if_neg (not_le.mpr hlen), if_neg (not_le.mpr hnew)]
  simp only [hresult, hchild, hsync]

theorem reset_name_missing (hpath : path ≠ ['/']) (hlen : path.length < bofsPathLen)
    (hnew : (path.rdropWhile (· ≠ '/') ++ name).length < bofsPathLen)
    (hresult : (t.searchDir path beyond).result ≠ 0) :
    t.resetName path name beyond room = some (t.dirs, -1) := by
  rw [resetName, if_neg hpath, if_neg (not_le.mpr hlen), if_neg (not_le.mpr hnew)]
  dsimp only
  split
  · rename_i hzero _
    exact absurd hzero hresult
  · rfl

/-- The call renames the entry in its directory if and only if both paths fit `newPath`, no invalid
place and no entry of the same inode is in front of the entry, and the new name is in no other
place. -/
theorem rename_iff (hn : 0 < n) (hmax : n ≤ 16) (t : DirTree n) (hwf : t.WellFormed)
    (path name : List Char) (hname : name ≠ []) (beyond : Nat → Char) (room : Nat → Bool) :
    RenameLaw t path name beyond room ↔ Renamable t path name beyond := by
  by_cases hpath : path = ['/']
  · refine iff_of_true ⟨t.dirs, -1, if_pos hpath, fun _ => rfl, fun h => ?_⟩ (.inl hpath)
    cases h
  · by_cases hfits : path.length < bofsPathLen ∧
        (path.rdropWhile (· ≠ '/') ++ name).length < bofsPathLen
    · obtain ⟨hlen, hnew⟩ := hfits
      have hcases : Renamable t path name beyond ↔ ((t.searchDir path beyond).result = 0 →
          ∀ childDir, (t.searchDir path beyond).childDir = some childDir →
            OwnPlace n childDir name (t.dirs (t.searchDir path beyond).parentDir.inode)) := by
        rw [Renamable, or_iff_right hpath, and_iff_right hlen, and_iff_right hnew]
      rw [hcases]
      by_cases hresult : (t.searchDir path beyond).result = 0
      · obtain ⟨key, childDir, hchild, hfound⟩ := search_found hpath hresult
        have hd := hwf path beyond hpath hresult
        obtain ⟨hchildname, htype, i, hi, hblock, -⟩ := found_place hn hmax hd hfound
        have hstored : ∃ stored, (t.dirs (t.searchDir path beyond).parentDir.inode).syncDirEntry n
            room { childDir with name := name } = some stored :=
          sync_succeeds hn hmax hd hblock (by simp [takes, hi, htype, hchildname])
        obtain ⟨⟨node, r⟩, hsync⟩ := hstored
        have hreset := reset_name_found hpath hlen hnew hresult hchild hsync
        have hone := renamed_iff hn hmax hd hfound hname hsync
        constructor
        · rintro ⟨dirs, result, hcall, -, hrenamed⟩ _ childDir' hchild'
          rw [hchild] at hchild'
          cases hchild'
          rw [hreset] at hcall
          cases hcall
          obtain ⟨childDir', hchild', hrenamed⟩ := hrenamed rfl
          rw [hchild] at hchild'
          cases hchild'
          rw [Function.update_self] at hrenamed
          exact hone.mp hrenamed
        · intro hown
          refine ⟨_, _, hreset, fun h => absurd rfl h, fun _ => ⟨childDir, hchild, ?_⟩⟩
          rw [Function.update_self]
          exact hone.mpr (hown hresult childDir hchild)
      · refine iff_of_true ⟨t.dirs, -1, reset_name_missing hpath hlen hnew hresult, fun _ => rfl,
          fun h => ?_⟩ fun h => absurd h hresult
        cases h
    · refine iff_of_false ?_ ?_
      · rintro ⟨dirs, result, hcall, -⟩
        rw [resetName, if_neg hpath] at hcall
        split at hcall
        · cases hcall
        · split at hcall
          · cases hcall
          · exact hfits ⟨by omega, by omega⟩
      · rintro (h | ⟨hlen, hnew, -⟩)
        · exact hpath h
        · exact hfits ⟨hlen, hnew⟩

/-- A root directory with three files, of which the first one may have been removed. -/
def threeFiles (type : UInt16) : DirTree 4 where
  dirs := fun inode =>
    if inode = 0 then
      { size := 4 * sizeofDirEntry
        block := fun blockID => if blockID = 0 then some [⟨0, typeDirectory, ['.']⟩,
          ⟨1, type, ['a']⟩, ⟨2, typeNormal, ['b']⟩, ⟨3, typeNormal, ['c']⟩] else none }
    else ⟨0, fun _ => none⟩
  root := ⟨0, typeDirectory, ['.']⟩
  rootType := root_entry_type
  namesFit := by
    intro inode blockID block hblock
    split at hblock
    · dsimp only at hblock
      split at hblock
      · cases hblock
        simp
      · cases hblock
    · cases hblock

theorem three_files_dirs (type : UInt16) (inode : Nat) :
    ((threeFiles type).dirs inode).WellFormed 4 := by
  simp only [threeFiles]
  split
  · exact one_block _ (by decide) (by decide) rfl rfl (fun blockID h => if_neg h) rfl (by simp)
      (by simp)
  · exact no_block (by decide)

theorem three_files_well_formed (type : UInt16) : (threeFiles type).WellFormed :=
  fun _ _ _ _ => three_files_dirs type _

/-- With `a` removed, `b` is stored under its new name in the place of `a`, and is left under its
old one. -/
theorem rename_fails : (threeFiles typeInvalid).WellFormed ∧
    ¬RenameLaw (threeFiles typeInvalid) ['/', 'b'] ['d'] (fun _ => '\x00') fun _ => true := by
  refine ⟨three_files_well_formed typeInvalid, ?_⟩
  rintro ⟨dirs, result, hcall, -, hrenamed⟩
  have hview : ((threeFiles typeInvalid).resetName ['/', 'b'] ['d'] (fun _ => '\x00')
      fun _ => true).map (fun r => (r.2, (r.1 0).searchDirEntry 4 ['b'])) =
        some (0, some ⟨2, typeNormal, ['b']⟩) := by decide +kernel
  have hparent : ((threeFiles typeInvalid).searchDir ['/', 'b'] fun _ => '\x00').parentDir =
      ⟨0, typeDirectory, ['.']⟩ := by decide +kernel
  have hchild : ((threeFiles typeInvalid).searchDir ['/', 'b'] fun _ => '\x00').childDir =
      some ⟨2, typeNormal, ['b']⟩ := by decide +kernel
  rw [hcall, Option.map_some, Option.some.injEq, Prod.mk.injEq] at hview
  obtain ⟨childDir, hfound, hlaw⟩ := hrenamed hview.1
  rw [hchild] at hfound
  cases hfound
  have hold := (hlaw.old (by decide)).1
  rw [hparent] at hold
  rw [hold] at hview
  cases hview.2

theorem three_files_slots {type : UInt16} {i : Nat}
    (h : (((threeFiles type).dirs 0).slot 4 i).name ≠ []) : i < 4 := by
  have hsize : i * 256 < 4 * 256 := ((three_files_dirs type 0).written i).mp h
  omega

theorem rename_iff_three_files :
    RenameLaw (threeFiles typeNormal) ['/', 'b'] ['d'] (fun _ => '\x00') fun _ => true := by
  refine (rename_iff (by decide) (by decide) _ (three_files_well_formed typeNormal) ['/', 'b'] ['d']
    (by decide) _ _).mpr (.inr ⟨by decide, by decide, fun _ childDir hchild => ?_⟩)
  have hparent : ((threeFiles typeNormal).searchDir ['/', 'b'] fun _ => '\x00').parentDir =
      ⟨0, typeDirectory, ['.']⟩ := by decide +kernel
  have hfound : ((threeFiles typeNormal).searchDir ['/', 'b'] fun _ => '\x00').childDir =
      some ⟨2, typeNormal, ['b']⟩ := by decide +kernel
  rw [hfound] at hchild
  cases hchild
  rw [hparent]
  intro i hi
  have hall : ∀ i < 4, ((threeFiles typeNormal).dirs 0).slot 4 i = ⟨2, typeNormal, ['b']⟩ →
      (∀ j < i, (((threeFiles typeNormal).dirs 0).slot 4 j).type ≠ typeInvalid ∧
        (((threeFiles typeNormal).dirs 0).slot 4 j).inode ≠ 2) := by decide
  have hnone : ∀ j < 4, ¬IsEntry ['d'] (((threeFiles typeNormal).dirs 0).slot 4 j) := by decide
  refine ⟨hall i (three_files_slots (by rw [hi]; decide)) hi, fun j _ hentry => ?_⟩
  exact hnone j (three_files_slots (by rw [hentry.1]; decide)) hentry

end DirTree

end XBook.Paths
