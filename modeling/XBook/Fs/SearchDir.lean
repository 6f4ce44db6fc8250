import XBook.Fs.DirNode

/-!
# Path search

`BOFS_SearchDir` of `fs/bofs/dir.c`. The path is in a memory whose bytes behind the terminator are
not known. The calls record the entries whose contents are searched, what is stored in `name`, and
how far the path is read. `path_resolution_iff` says for which paths the search is the walk from
directory to directory.
-/

namespace XBook.Paths

open Fifos Dirs

/-- `BOFS_NAME_LEN`. -/
abbrev bofsNameLen : Nat := 250

/-- The inodes of a disk, whose contents are read as entries, and `sb->rootDir->dirEntry`. -/
structure DirTree (direntryNrInSector : Nat) where
  dirs : Nat → DirNode
  root : DirEntry
  rootType : root.type = typeDirectory
  namesFit : ∀ inode blockID block, (dirs inode).block blockID = some block →
    ∀ e ∈ block, e.name.length < bofsNameLen

/-- The byte at a position from the start of the path. -/
def charAt (path : List Char) (beyond : Nat → Char) (p : Nat) : Char :=
  (path ++ ['\x00'])[p]?.getD (beyond p)

/-- The loop that gets a name, up to the next slash. It gives what it has stored in `name`, and the
position where it ends, which it has read. -/
def copyName (mem : Nat → Char) (p : Nat) : Nat → List Char × Nat
  | 0 => ([], p)
  | room + 1 =>
      if mem p = '/' then ([], p)
      else
        let next := copyName mem (p + 1) room
        (mem p :: next.1, next.2)

/-- The string in a cleared buffer. -/
def cString (name : List Char) : List Char := name.takeWhile (· ≠ '\x00')

/-- A run of `BOFS_SearchDir`, with its record. -/
structure Search where
  result : Int
  parentDir : DirEntry
  childDir : Option DirEntry
  searched : List DirEntry
  names : List (List Char)
  read : Nat

namespace DirTree

variable {direntryNrInSector : Nat} (t : DirTree direntryNrInSector)

/-- `BOFS_SearchDirEntry` in the contents of an entry. -/
def searchDirEntry (parentDir : DirEntry) (name : List Char) : Option DirEntry :=
  (t.dirs parentDir.inode).searchDirEntry direntryNrInSector name

/-- The loop of `BOFS_SearchDir` at a slash of the path, with the number of names that follow the
next one. -/
def searchLoop (mem : Nat → Char) (p : Nat) (parentDir : DirEntry) (left : Nat) : Search :=
  let name := copyName mem (p + 1) bofsNameLen
  match t.searchDirEntry parentDir (cString name.1) with
  | none => ⟨-1, parentDir, none, [parentDir], [name.1], name.2⟩
  | some childDir =>
      match left with
      | 0 => ⟨0, parentDir, some childDir, [parentDir], [name.1], name.2⟩
      | left + 1 =>
          let run := searchLoop mem name.2 childDir left
          { run with searched := parentDir :: run.searched, names := name.1 :: run.names }

/-- The slashes of the path, counted in a `char`. -/
def depth (path : List Char) : Int := Int.bmod (path.count '/') 256

/-- `BOFS_SearchDir`. -/
def searchDir (path : List Char) (beyond : Nat → Char) : Search :=
  if path.head? ≠ some '/' then ⟨-1, emptyEntry, some emptyEntry, [], [], 0⟩
  else
    let depth := depth path
    if depth = 1 ∧ path = ['/'] then
      let name := copyName (charAt path beyond) 1 bofsNameLen
      ⟨0, emptyEntry, some t.root, [], [name.1], name.2⟩
    else if 0 < depth then t.searchLoop (charAt path beyond) 0 t.root (depth.toNat - 1)
    else ⟨-1, emptyEntry, some emptyEntry, [], [], path.length⟩

/-! ## The walk -/

/-- The walk from a directory: the last name's directory and its entry. -/
def walk (dir : DirEntry) : List (List Char) → Option (DirEntry × DirEntry)
  | [] => none
  | [name] => (t.searchDirEntry dir name).map fun e => (dir, e)
  | name :: rest =>
      match t.searchDirEntry dir name with
      | none => none
      | some e => if e.type = typeDirectory then walk e rest else none

/-- The components of an absolute path. -/
def components (path : List Char) : List (List Char) := path.tail.splitOn '/'

/-- What an absolute path names. The root has no parent, and the record's is cleared. -/
def resolve (path : List Char) : Option (DirEntry × DirEntry) :=
  if path = ['/'] then some (emptyEntry, t.root) else t.walk t.root (components path)

/-- The entries that the names lead to, as far as they are found, whatever their types are. -/
def follow (dir : DirEntry) : List (List Char) → List DirEntry
  | [] => []
  | name :: rest =>
      match t.searchDirEntry dir name with
      | none => []
      | some e => e :: follow e rest

/-- The last entry that is found, and the one whose contents it is in. -/
def lastTwo (dir : DirEntry) : List DirEntry → DirEntry × DirEntry
  | [] => (dir, dir)
  | [e] => (dir, e)
  | e :: rest => lastTwo e rest

/-! ## Names in the path -/

theorem copy_name_length (mem : Nat → Char) (p room : Nat) :
    (copyName mem p room).1.length ≤ room := by
  induction room generalizing p with
  | zero => exact le_rfl
  | succ room ih =>
      rw [copyName]
      split
      · exact Nat.zero_le _
      · simpa using ih (p + 1)

theorem char_at_drop {path rest : List Char} (beyond : Nat → Char) {p : Nat} {c : Char}
    (h : path.drop p = c :: rest) : charAt path beyond p = c ∧ path.drop (p + 1) = rest := by
  have hc : path[p]? = some c := by rw [← List.head?_drop, h, List.head?_cons]
  obtain ⟨hp, -⟩ := List.getElem?_eq_some_iff.mp hc
  refine ⟨?_, by rw [← List.tail_drop, h, List.tail_cons]⟩
  rw [charAt, List.getElem?_append_left hp, hc, Option.getD_some]

theorem copy_name_le (mem : Nat → Char) (p room : Nat) : p ≤ (copyName mem p room).2 := by
  induction room generalizing p with
  | zero => exact le_rfl
  | succ room ih =>
      rw [copyName]
      split
      · exact le_rfl
      · exact (Nat.le_succ p).trans (ih (p + 1))

/-- A name that a slash ends. -/
theorem copy_name_slash {path w rest : List Char} (beyond : Nat → Char) {p room : Nat}
    (h : path.drop p = w ++ '/' :: rest) (hw : '/' ∉ w) (hroom : w.length ≤ room) :
    copyName (charAt path beyond) p room = (w, p + w.length) := by
  induction w generalizing p room with
  | nil =>
      obtain ⟨hslash, -⟩ := char_at_drop beyond h
      cases room with
      | zero => rfl
      | succ room => rw [copyName, if_pos hslash]; rfl
  | cons c w ih =>
      obtain ⟨hc, hnext⟩ := char_at_drop beyond h
      cases room with
      | zero => simp at hroom
      | succ room =>
          rw [List.mem_cons, not_or] at hw
          rw [copyName, hc, if_neg (Ne.symm hw.1), ih hnext hw.2 (by simpa using hroom)]
          simp only [List.length_cons]
          congr 1
          omega

/-- A name that fills the buffer. -/
theorem copy_name_full {path w rest : List Char} (beyond : Nat → Char) {p room : Nat}
    (h : path.drop p = w ++ rest) (hw : '/' ∉ w) (hroom : room ≤ w.length) :
    copyName (charAt path beyond) p room = (w.take room, p + room) := by
  induction w generalizing p room with
  | nil =>
      have : room = 0 := by simpa using hroom
      rw [this]
      rfl
  | cons c w ih =>
      obtain ⟨hc, hnext⟩ := char_at_drop beyond h
      cases room with
      | zero => rfl
      | succ room =>
          rw [List.mem_cons, not_or] at hw
          rw [copyName, hc, if_neg (Ne.symm hw.1), ih hnext hw.2 (by simpa using hroom)]
          simp only [List.take_succ_cons]
          congr 1
          omega

/-- A name that the end of the path ends is copied with the terminator and with what is behind. -/
theorem copy_name_end {path w : List Char} (beyond : Nat → Char) {p room : Nat}
    (h : path.drop p = w) (hp : p ≤ path.length) (hw : '/' ∉ w) (hroom : w.length < room) :
    ∃ junk, (copyName (charAt path beyond) p room).1 = w ++ '\x00' :: junk ∧
      path.length < (copyName (charAt path beyond) p room).2 := by
  induction w generalizing p room with
  | nil =>
      have hend : p = path.length := le_antisymm hp (List.drop_eq_nil_iff.mp h)
      have hzero : charAt path beyond p = '\x00' := by
        rw [charAt, hend, List.getElem?_concat_length, Option.getD_some]
      have hle := copy_name_le (charAt path beyond) (p + 1)
      cases room with
      | zero => simp at hroom
      | succ room =>
          rw [copyName, hzero, if_neg (by decide)]
          exact ⟨_, rfl, hend ▸ hle room⟩
  | cons c w ih =>
      obtain ⟨hc, hnext⟩ := char_at_drop beyond h
      have hlt : p < path.length := by
        rw [← List.drop_eq_nil_iff.not.trans not_le, h]
        exact List.cons_ne_nil c w
      cases room with
      | zero => simp at hroom
      | succ room =>
          rw [List.mem_cons, not_or] at hw
          obtain ⟨junk, hname, hread⟩ := ih hnext hlt hw.2 (by simpa using hroom)
          rw [copyName, hc, if_neg (Ne.symm hw.1)]
          exact ⟨junk, congrArg (c :: ·) hname, hread⟩

/-- The name copied after the slash of `/` is empty. -/
theorem copied_root_name (beyond : Nat → Char) :
    cString (copyName (charAt ['/'] beyond) (0 + 1) bofsNameLen).1 = [] := by
  have hdrop : ['/'].drop 1 = [] := rfl
  obtain ⟨junk, hjunk, -⟩ := copy_name_end beyond hdrop (by decide) List.not_mem_nil
    (show 0 < bofsNameLen by decide)
  rw [hjunk]
  rfl

/-- A string in a buffer that it does not fill. -/
theorem c_string_append {w : List Char} (hw : '\x00' ∉ w) (junk : List Char) :
    cString (w ++ '\x00' :: junk) = w := by
  rw [cString, List.takeWhile_append_of_pos, List.takeWhile_cons_of_neg (by simp), List.append_nil]
  intro c hc
  simpa using ne_of_mem_of_not_mem hc hw

theorem c_string_eq {w : List Char} (hw : '\x00' ∉ w) : cString w = w := by
  rw [cString, ← List.append_nil w, List.takeWhile_append_of_pos, List.takeWhile_nil]
  intro c hc
  simpa using ne_of_mem_of_not_mem hc hw

/-! ## Lookups along a path -/

section Lookups

variable {direntryNrInSector : Nat} {t : DirTree direntryNrInSector} {dir : DirEntry}

/-- A name that fills the buffer is in no directory. -/
theorem search_long {name : List Char} (h : bofsNameLen ≤ name.length) :
    t.searchDirEntry dir name = none := by
  rw [searchDirEntry, DirNode.searchDirEntry, search_dir]
  apply search_none
  intro e he hentry
  obtain ⟨block, hblock, hmem⟩ := List.mem_flatten.mp he
  obtain ⟨blockID, -, rfl⟩ := List.mem_map.mp hblock
  unfold DirNode.load at hmem
  cases hload : (t.dirs dir.inode).block blockID with
  | none =>
      rw [hload, Option.getD_none] at hmem
      rw [List.eq_of_mem_replicate hmem] at hentry
      rw [← hentry.1] at h
      exact absurd h (by decide)
  | some entries =>
      rw [hload, Option.getD_some] at hmem
      have := t.namesFit dir.inode blockID entries hload e hmem
      rw [hentry.1] at this
      omega

theorem follow_take (names : List (List Char)) (count : Nat) :
    t.follow dir (names.take count) = (t.follow dir names).take count := by
  induction names generalizing dir count with
  | nil => simp [follow]
  | cons name rest ih =>
      cases count with
      | zero => rfl
      | succ count =>
          rw [List.take_succ_cons, follow, follow]
          cases t.searchDirEntry dir name with
          | none => rfl
          | some e => rw [List.take_succ_cons, ← ih]

/-- The walk finds its end where all names are found and all but the last one are directories. -/
theorem walk_eq {names : List (List Char)} (hne : names ≠ []) (r : DirEntry × DirEntry) :
    t.walk dir names = some r ↔ (t.follow dir names).length = names.length ∧
      (∀ e ∈ (t.follow dir names).dropLast, e.type = typeDirectory) ∧
      lastTwo dir (t.follow dir names) = r := by
  induction names generalizing dir with
  | nil => exact absurd rfl hne
  | cons name rest ih =>
      cases rest with
      | nil =>
          rw [walk, follow]
          cases t.searchDirEntry dir name with
          | none => simp
          | some e => simp [follow, lastTwo]
      | cons next rest =>
          rw [walk, follow]
          · cases t.searchDirEntry dir name with
            | none => simp
            | some e =>
                have hstep := @ih e (List.cons_ne_nil next rest)
                dsimp only
                generalize t.follow e (next :: rest) = found at hstep ⊢
                cases found with
                | nil => simp [hstep]
                | cons f found =>
                    rw [List.dropLast_cons_of_ne_nil (List.cons_ne_nil f found), lastTwo]
                    · by_cases htype : e.type = typeDirectory
                      · rw [if_pos htype, hstep]
                        simp [htype]
                      · simp [htype]
                    · nofun
          · nofun

/-- What the loop gives from a slash on, for the names from there on. -/
structure Ran (t : DirTree direntryNrInSector) (path : List Char) (dir : DirEntry)
    (names : List (List Char)) (left : Nat) (run : Search) : Prop where
  result : run.result = if (t.follow dir (names.take (left + 1))).length = left + 1 then 0 else -1
  record : (t.follow dir (names.take (left + 1))).length = left + 1 →
    run.parentDir = (lastTwo dir (t.follow dir (names.take (left + 1)))).1 ∧
      run.childDir = some (lastTwo dir (t.follow dir (names.take (left + 1)))).2
  searched : run.searched = (dir :: t.follow dir (names.take (left + 1))).take (left + 1)
  namesLe : ∀ name ∈ run.names, name.length ≤ bofsNameLen
  read : (t.follow dir (names.take (left + 1))).length < left + 1 →
    (run.read ≤ path.length ↔ (t.follow dir (names.take (left + 1))).length + 1 < names.length ∨
      bofsNameLen ≤ (names.getLastD []).length)

/-- The first name behind a slash. -/
theorem split_cases (rest : List Char) :
    '/' ∉ rest ∧ rest.splitOn '/' = [rest] ∨
      ∃ w r, rest = w ++ '/' :: r ∧ '/' ∉ w ∧ rest.splitOn '/' = w :: r.splitOn '/' := by
  by_cases h : '/' ∈ rest
  · obtain ⟨w, r, rfl, hw⟩ := List.eq_append_cons_of_mem h
    refine .inr ⟨w, r, rfl, hw, ?_⟩
    exact List.splitOnP_append_cons_of_forall_mem
      (fun c hc => by simpa using ne_of_mem_of_not_mem hc hw) '/' (by simp) r
  · refine .inl ⟨h, List.splitOnP_eq_singleton fun c hc => ?_⟩
    simpa using ne_of_mem_of_not_mem hc h

/-- The name that has been copied is looked up like the one in the path. -/
theorem search_copied {path w rest : List Char} {beyond : Nat → Char} {p : Nat}
    (h : path.drop p = w ++ rest) (hp : p ≤ path.length) (hw : '/' ∉ w)
    (hrest : rest = [] ∨ ∃ r, rest = '/' :: r) (hnul : '\x00' ∉ path) :
    t.searchDirEntry dir (cString (copyName (charAt path beyond) p bofsNameLen).1) =
      t.searchDirEntry dir w := by
  have hnulw : '\x00' ∉ w := by
    intro hmem
    exact hnul (List.mem_of_mem_drop (h ▸ List.mem_append_left rest hmem))
  by_cases hlong : bofsNameLen ≤ w.length
  · rw [copy_name_full beyond h hw hlong, c_string_eq fun hmem => hnulw (List.mem_of_mem_take hmem),
      search_long hlong, search_long (by rw [List.length_take]; omega)]
  · obtain rfl | ⟨r, rfl⟩ := hrest
    · rw [List.append_nil] at h
      obtain ⟨junk, hname, -⟩ := copy_name_end beyond h hp hw (not_le.mp hlong)
      rw [hname, c_string_append hnulw]
    · rw [copy_name_slash beyond h hw (by omega), c_string_eq hnulw]

/-- Where the copying of the first name ends. -/
theorem read_copied {path rest : List Char} (beyond : Nat → Char) {p : Nat}
    (h : path.drop p = rest) (hp : p ≤ path.length) :
    (copyName (charAt path beyond) p bofsNameLen).2 ≤ path.length ↔
      0 + 1 < (rest.splitOn '/').length ∨
        bofsNameLen ≤ ((rest.splitOn '/').getLastD []).length := by
  have hlen : p + rest.length = path.length := by
    rw [← h, List.length_drop]
    omega
  obtain ⟨hw, hsplit⟩ | ⟨w, r, rfl, hw, hsplit⟩ := split_cases rest
  · rw [hsplit]
    by_cases hlong : bofsNameLen ≤ rest.length
    · have hfull := copy_name_full beyond (h.trans (List.append_nil rest).symm) hw hlong
      rw [hfull]
      exact iff_of_true (by omega) (.inr hlong)
    · obtain ⟨junk, -, hread⟩ := copy_name_end beyond h hp hw (not_le.mp hlong)
      refine iff_of_false (not_le.mpr hread) ?_
      simpa using not_le.mp hlong
  · have hmore : 0 + 1 < ((w ++ '/' :: r).splitOn '/').length := by
      have := List.length_pos_iff.mpr (List.splitOn_ne_nil '/' r)
      rw [hsplit, List.length_cons]
      omega
    refine iff_of_true ?_ (.inl hmore)
    rw [List.length_append, List.length_cons] at hlen
    by_cases hlong : bofsNameLen ≤ w.length
    · rw [copy_name_full beyond h hw hlong]
      simp only
      omega
    · rw [copy_name_slash beyond h hw (by omega)]
      simp only
      omega

/-- Behind a slash the first name is looked up, and the copying ends at the next slash. -/
theorem first_name (t : DirTree direntryNrInSector) (dir : DirEntry) {path rest : List Char}
    (beyond : Nat → Char) {p : Nat} (hnul : '\x00' ∉ path) (h : path.drop p = '/' :: rest) :
    ∃ w names, rest.splitOn '/' = w :: names ∧
      t.searchDirEntry dir (cString (copyName (charAt path beyond) (p + 1) bofsNameLen).1) =
        t.searchDirEntry dir w ∧
      ((copyName (charAt path beyond) (p + 1) bofsNameLen).2 ≤ path.length ↔
        0 + 1 < (w :: names).length ∨ bofsNameLen ≤ ((w :: names).getLastD []).length) ∧
      (w.length < bofsNameLen → names ≠ [] → ∃ r, names = r.splitOn '/' ∧
        path.drop (copyName (charAt path beyond) (p + 1) bofsNameLen).2 = '/' :: r) := by
  obtain ⟨-, hrest⟩ := char_at_drop beyond h
  have hp : p + 1 ≤ path.length := by
    have hlen := congrArg List.length h
    rw [List.length_drop, List.length_cons] at hlen
    omega
  have hread := read_copied beyond hrest hp
  obtain ⟨hw, hsplit⟩ | ⟨w, r, rfl, hw, hsplit⟩ := split_cases rest
  · rw [hsplit] at hread
    exact ⟨rest, [], hsplit, search_copied (hrest.trans (List.append_nil rest).symm) hp hw
      (.inl rfl) hnul, hread, fun _ hne => absurd rfl hne⟩
  · rw [hsplit] at hread
    refine ⟨w, r.splitOn '/', hsplit, search_copied hrest hp hw (.inr ⟨r, rfl⟩) hnul, hread, ?_⟩
    intro hshort _
    refine ⟨r, rfl, ?_⟩
    rw [copy_name_slash beyond hrest hw hshort.le, ← List.drop_drop, hrest, List.drop_left]

/-- A name that is not found ends the loop. -/
theorem Ran.stop {path w : List Char} {names : List (List Char)} {name : List Char × Nat}
    (left : Nat) (hsearch : t.searchDirEntry dir w = none) (hname : name.1.length ≤ bofsNameLen)
    (hread : name.2 ≤ path.length ↔ 0 + 1 < (w :: names).length ∨
      bofsNameLen ≤ ((w :: names).getLastD []).length) :
    Ran t path dir (w :: names) left ⟨-1, dir, none, [dir], [name.1], name.2⟩ := by
  have hfound : t.follow dir ((w :: names).take (left + 1)) = [] := by
    rw [List.take_succ_cons, follow, hsearch]
  refine ⟨?_, ?_, ?_, by simpa using hname, ?_⟩
  · rw [hfound, if_neg (by simp)]
  · rw [hfound]
    intro hlen
    simp at hlen
  · rw [hfound, List.take_succ_cons, List.take_nil]
  · rw [hfound]
    exact fun _ => hread

/-- The last name that the counter allows is found. -/
theorem Ran.last {path w : List Char} {names : List (List Char)} {name : List Char × Nat}
    {e : DirEntry} (hsearch : t.searchDirEntry dir w = some e)
    (hname : name.1.length ≤ bofsNameLen) :
    Ran t path dir (w :: names) 0 ⟨0, dir, some e, [dir], [name.1], name.2⟩ := by
  have hfound : t.follow dir ((w :: names).take (0 + 1)) = [e] := by
    rw [List.take_succ_cons, follow, hsearch]
    rfl
  refine ⟨?_, ?_, ?_, by simpa using hname, ?_⟩
  · rw [hfound]
    rfl
  · rw [hfound]
    exact fun _ => ⟨rfl, rfl⟩
  · rw [hfound]
    rfl
  · rw [hfound]
    intro hlt
    simp at hlt

/-- The loop goes on in the entry that has been found. -/
theorem Ran.next {path w name : List Char} {names : List (List Char)} {left : Nat} {e : DirEntry}
    {run : Search} (hne : names ≠ []) (hsearch : t.searchDirEntry dir w = some e)
    (hname : name.length ≤ bofsNameLen) (h : Ran t path e names left run) :
    Ran t path dir (w :: names) (left + 1)
      { run with searched := dir :: run.searched, names := name :: run.names } := by
  have hfound : t.follow dir ((w :: names).take (left + 1 + 1)) =
      e :: t.follow e (names.take (left + 1)) := by
    rw [List.take_succ_cons, follow, hsearch]
  have hlast : (w :: names).getLastD [] = names.getLastD [] := by
    cases names with
    | nil => exact absurd rfl hne
    | cons next names => simp
  refine ⟨?_, ?_, ?_, ?_, ?_⟩
  · rw [hfound, List.length_cons]
    simpa using h.result
  · rw [hfound, List.length_cons]
    intro hlen
    have hrecord := h.record (by omega)
    generalize t.follow e (names.take (left + 1)) = found at hlen hrecord ⊢
    cases found with
    | nil => simp at hlen
    | cons f found => exact hrecord
  · rw [hfound, List.take_succ_cons, ← h.searched]
  · intro x hx
    obtain rfl | hx := List.mem_cons.mp hx
    · exact hname
    · exact h.namesLe x hx
  · rw [hfound, hlast, List.length_cons, List.length_cons]
    intro hlt
    rw [Nat.add_lt_add_iff_right]
    exact h.read (by omega)

/-- The loop looks up the names of the path, whatever the types of the entries are. -/
theorem search_loop_ran {path rest : List Char} {beyond : Nat → Char} {p left : Nat}
    (hnul : '\x00' ∉ path) (h : path.drop p = '/' :: rest)
    (hleft : left < (rest.splitOn '/').length) :
    Ran t path dir (rest.splitOn '/') left (t.searchLoop (charAt path beyond) p dir left) := by
  induction left generalizing p dir rest with
  | zero =>
      obtain ⟨w, names, hsplit, hcopied, hread, -⟩ := first_name t dir beyond hnul h
      have hname := copy_name_length (charAt path beyond) (p + 1) bofsNameLen
      rw [hsplit, searchLoop]
      simp only [hcopied]
      cases hsearch : t.searchDirEntry dir w with
      | none => exact Ran.stop 0 hsearch hname hread
      | some e => exact Ran.last hsearch hname
  | succ left ih =>
      obtain ⟨w, names, hsplit, hcopied, hread, hnext⟩ := first_name t dir beyond hnul h
      have hname := copy_name_length (charAt path beyond) (p + 1) bofsNameLen
      rw [hsplit, searchLoop]
      simp only [hcopied]
      cases hsearch : t.searchDirEntry dir w with
      | none => exact Ran.stop (left + 1) hsearch hname hread
      | some e =>
          have hshort : w.length < bofsNameLen := by
            by_contra hlong
            rw [search_long (not_lt.mp hlong)] at hsearch
            cases hsearch
          rw [hsplit, List.length_cons] at hleft
          have hne : names ≠ [] := by
            rintro rfl
            simp at hleft
          obtain ⟨r, rfl, hdrop⟩ := hnext hshort hne
          exact Ran.next hne hsearch hname (ih hdrop (by omega))

end Lookups

/-! ## The resolution law -/

section Law

variable {direntryNrInSector : Nat} (t : DirTree direntryNrInSector) (path : List Char)

/-- The search is the walk; if it fails, it has searched directories only and has not read behind
the path; and it has stored no more than `name` has room for. -/
structure PathResolution (beyond : Nat → Char) : Prop where
  succeeds : (t.searchDir path beyond).result = 0 ↔ (t.resolve path).isSome
  record : ∀ r, t.resolve path = some r →
    (t.searchDir path beyond).parentDir = r.1 ∧ (t.searchDir path beyond).childDir = some r.2
  directories : (t.searchDir path beyond).result ≠ 0 →
    ∀ e ∈ (t.searchDir path beyond).searched, e.type = typeDirectory
  inPath : (t.searchDir path beyond).result ≠ 0 → (t.searchDir path beyond).read ≤ path.length
  inName : ∀ name ∈ (t.searchDir path beyond).names, name.length ≤ bofsNameLen

/-- The names that the counter allows are looked up in directories, the last name of the path is
not looked up in vain, and the walk does not go on behind the names that the counter allows. -/
structure Countable : Prop where
  directories : ∀ e ∈ (t.follow t.root (components path)).take ((depth path).toNat - 1),
    e.type = typeDirectory
  notLast : (t.follow t.root (components path)).length < (depth path).toNat →
    (t.follow t.root (components path)).length + 1 < (components path).length ∨
      bofsNameLen ≤ ((components path).getLastD []).length
  same : (depth path).toNat ≤ (t.follow t.root (components path)).length →
    t.walk t.root (components path) = t.walk t.root ((components path).take (depth path).toNat)

/-- The paths for which the search is right. -/
def Resolvable : Prop :=
  path = ['/'] ∨
    if 0 < depth path then Countable t path else t.walk t.root (components path) = none

end Law

section Proofs

variable {direntryNrInSector : Nat} {t : DirTree direntryNrInSector} {rest : List Char}

theorem components_length (rest : List Char) :
    (components ('/' :: rest)).length = ('/' :: rest).count '/' := by
  show (rest.splitOn '/').length = _
  rw [List.count_cons_self]
  induction rest with
  | nil => rfl
  | cons c rest ih =>
      rw [List.splitOn_cons_eq_if_modifyHead]
      by_cases hc : c = '/'
      · rw [if_pos (by simpa using hc), hc, List.count_cons_self, List.length_cons, ih]
      · rw [if_neg (by simpa using hc), List.count_cons_of_ne hc, List.length_modifyHead, ih]

theorem counter_le (count : Nat) : (Int.bmod count 256).toNat ≤ count := by
  rw [Int.bmod_def]
  split <;> omega

theorem depth_le (rest : List Char) :
    (depth ('/' :: rest)).toNat ≤ (components ('/' :: rest)).length := by
  rw [components_length]
  exact counter_le _

theorem search_root (beyond : Nat → Char) : PathResolution t ['/'] beyond := by
  have hrun : t.searchDir ['/'] beyond = ⟨0, emptyEntry, some t.root, [],
      [(copyName (charAt ['/'] beyond) 1 bofsNameLen).1],
      (copyName (charAt ['/'] beyond) 1 bofsNameLen).2⟩ := by
    rw [searchDir, if_neg (by decide)]
    exact if_pos ⟨by decide, rfl⟩
  have hresolve : t.resolve ['/'] = some (emptyEntry, t.root) := if_pos rfl
  refine ⟨?_, ?_, ?_, ?_, ?_⟩
  · rw [hrun, hresolve]
    exact iff_of_true rfl rfl
  · rw [hrun, hresolve]
    rintro r ⟨⟩
    exact ⟨rfl, rfl⟩
  · rw [hrun]
    exact fun h => absurd rfl h
  · rw [hrun]
    exact fun h => absurd rfl h
  · rw [hrun]
    intro name hname
    rw [List.mem_singleton.mp hname]
    exact copy_name_length _ 1 bofsNameLen

/-- The walk of the first names. -/
theorem walk_take_eq {names : List (List Char)} {left : Nat} (hleft : left < names.length)
    (r : DirEntry × DirEntry) : t.walk t.root (names.take (left + 1)) = some r ↔
      left + 1 ≤ (t.follow t.root names).length ∧
      (∀ e ∈ (t.follow t.root names).take left, e.type = typeDirectory) ∧
      lastTwo t.root ((t.follow t.root names).take (left + 1)) = r := by
  have hne : names.take (left + 1) ≠ [] := by
    rw [← List.length_pos_iff, List.length_take]
    omega
  rw [walk_eq hne, follow_take, List.length_take, List.length_take,
    Nat.min_eq_left (show left + 1 ≤ _ from hleft),
    min_eq_left_iff]
  refine and_congr_right fun hlen => ?_
  rw [List.dropLast_eq_take, List.length_take, Nat.min_eq_left hlen, Nat.add_sub_cancel,
    List.take_take, Nat.min_eq_left (Nat.le_succ left)]

/-- The names that the counter allows decide the call. -/
theorem resolution_iff_of_ran {path : List Char} {beyond : Nat → Char} {left : Nat}
    (hpath : path ≠ ['/']) (hleft : left < (components path).length)
    (hdepth : (depth path).toNat = left + 1)
    (h : Ran t path t.root (components path) left (t.searchDir path beyond)) :
    PathResolution t path beyond ↔ Countable t path := by
  have hresolve : t.resolve path = t.walk t.root (components path) := if_neg hpath
  have hne : components path ≠ [] := List.splitOn_ne_nil '/' path.tail
  have hresult := h.result
  have hrecord := h.record
  have hread := h.read
  have hsearched : (t.searchDir path beyond).searched =
      t.root :: (t.follow t.root (components path)).take left := by
    rw [h.searched, follow_take, List.take_succ_cons, List.take_take,
      Nat.min_eq_left (Nat.le_succ left)]
  simp only [follow_take, List.length_take, min_eq_left_iff] at hresult hrecord
  rw [follow_take, List.length_take] at hread
  by_cases hall : left + 1 ≤ (t.follow t.root (components path)).length
  · -- All names that the counter allows are found.
    rw [if_pos hall] at hresult
    obtain ⟨hparent, hchild⟩ := hrecord hall
    constructor
    · intro hp
      obtain ⟨r, hr⟩ := Option.isSome_iff_exists.mp (hp.succeeds.mp hresult)
      obtain ⟨hrparent, hrchild⟩ := hp.record r hr
      rw [hresolve] at hr
      obtain ⟨hlen, hdirs, -⟩ := (walk_eq hne r).mp hr
      have hdirs' : ∀ e ∈ (t.follow t.root (components path)).take left,
          e.type = typeDirectory := by
        intro e he
        apply hdirs
        rw [List.dropLast_eq_take]
        exact List.take_subset_take_left _ (by omega) he
      have hsame : lastTwo t.root ((t.follow t.root (components path)).take (left + 1)) = r := by
        refine Prod.ext (hparent.symm.trans hrparent) (Option.some.inj ?_)
        rw [← hchild, hrchild]
      refine ⟨by rwa [hdepth], fun hlt => absurd hall (by omega), fun _ => ?_⟩
      rw [hdepth, hr, (walk_take_eq hleft r).mpr ⟨hall, hdirs', hsame⟩]
    · intro hc
      have hdirs := hc.directories
      have hsame := hc.same
      rw [hdepth] at hdirs hsame
      rw [hsame hall, (walk_take_eq hleft _).mpr ⟨hall, hdirs, rfl⟩] at hresolve
      refine ⟨by simp [hresult, hresolve], ?_, fun hr => absurd hresult hr,
        fun hr => absurd hresult hr, h.namesLe⟩
      intro r hr
      rw [hresolve] at hr
      cases hr
      exact ⟨hparent, hchild⟩
  · -- A name is not found.
    rw [if_neg hall] at hresult
    have hfail : (t.searchDir path beyond).result ≠ 0 := by
      rw [hresult]
      decide
    rw [Nat.min_eq_right (by omega)] at hread
    constructor
    · intro hp
      have hdirs := hp.directories hfail
      rw [hsearched] at hdirs
      refine ⟨?_, fun _ => (hread (by omega)).mp (hp.inPath hfail), fun hle => ?_⟩
      · rw [hdepth]
        exact fun e he => hdirs e (List.mem_cons_of_mem _ he)
      · rw [hdepth] at hle
        exact absurd hle hall
    · intro hc
      have hdirs := hc.directories
      rw [hdepth] at hdirs
      have hnone : t.resolve path = none := by
        rw [hresolve, Option.eq_none_iff_forall_ne_some]
        intro r hr
        have hlen := ((walk_eq hne r).mp hr).1
        omega
      refine ⟨by simp [hresult, hnone], fun r hr => ?_, fun _ => ?_, fun _ => ?_, h.namesLe⟩
      · rw [hnone] at hr
        cases hr
      · rw [hsearched]
        intro e he
        obtain rfl | he := List.mem_cons.mp he
        · exact t.rootType
        · exact hdirs e he
      · exact (hread (by omega)).mpr (hc.notLast (by omega))

/-- A search resolves the path as the walk does if and only if the path is `/`, or the names that
the `char` counter allows are looked up in directories, and the last name of the path is not looked
up in vain. -/
theorem path_resolution_iff (t : DirTree direntryNrInSector) (path : List Char)
    (beyond : Nat → Char) (habsolute : path.head? = some '/') (hnul : '\x00' ∉ path) :
    PathResolution t path beyond ↔ Resolvable t path := by
  obtain ⟨rest, rfl⟩ := List.head?_eq_some_iff.mp habsolute
  by_cases hpath : '/' :: rest = ['/']
  · rw [hpath]
    exact iff_of_true (search_root beyond) (.inl rfl)
  · have hcases : Resolvable t ('/' :: rest) ↔ if 0 < depth ('/' :: rest) then
        Countable t ('/' :: rest) else t.walk t.root (components ('/' :: rest)) = none :=
      or_iff_right hpath
    rw [hcases]
    by_cases hdepth : 0 < depth ('/' :: rest)
    · rw [if_pos hdepth]
      have hcount := depth_le rest
      have hleft : (depth ('/' :: rest)).toNat - 1 < (components ('/' :: rest)).length := by omega
      have hrun : t.searchDir ('/' :: rest) beyond = t.searchLoop (charAt ('/' :: rest) beyond) 0
          t.root ((depth ('/' :: rest)).toNat - 1) := by
        rw [searchDir, if_neg (by simp)]
        simp only [hpath, and_false, if_false, if_pos hdepth]
      refine resolution_iff_of_ran hpath hleft (by omega) ?_
      rw [hrun]
      exact search_loop_ran hnul rfl hleft
    · rw [if_neg hdepth]
      have hrun : t.searchDir ('/' :: rest) beyond =
          ⟨-1, emptyEntry, some emptyEntry, [], [], ('/' :: rest).length⟩ := by
        rw [searchDir, if_neg (by simp)]
        simp only [hpath, and_false, if_false, if_neg hdepth]
      have hresolve : t.resolve ('/' :: rest) = t.walk t.root (components ('/' :: rest)) :=
        if_neg hpath
      constructor
      · intro hp
        have hsucceeds := hp.succeeds
        rw [hrun, hresolve] at hsucceeds
        simpa using hsucceeds
      · intro hnone
        rw [← hresolve] at hnone
        refine ⟨by simp [hrun, hnone], by simp [hnone], by simp [hrun], by simp [hrun],
          by simp [hrun]⟩

end Proofs

/-! ## A path through a regular file -/

/-- The inode of at most four entries in one block. -/
def oneBlock (entries : List DirEntry) : DirNode where
  size := entries.length * sizeofDirEntry
  block := fun blockID => if blockID = 0 then
    some (entries ++ List.replicate (4 - entries.length) emptyEntry) else none

theorem one_block_fits {entries : List DirEntry}
    (h : ∀ e ∈ entries, e.name.length < bofsNameLen) (blockID : Nat) (block : List DirEntry)
    (hblock : (oneBlock entries).block blockID = some block) :
    ∀ e ∈ block, e.name.length < bofsNameLen := by
  unfold oneBlock at hblock
  dsimp only at hblock
  split at hblock
  · cases hblock
    intro e he
    obtain he | he := List.mem_append.mp he
    · exact h e he
    · rw [List.eq_of_mem_replicate he]
      decide
  · cases hblock

theorem root_entry_type : (⟨0, typeDirectory, ['.']⟩ : DirEntry).type = typeDirectory := rfl

/-- A root directory with a regular file, whose contents look like an entry. -/
def fileTree : DirTree 4 where
  dirs := fun inode =>
    if inode = 0 then oneBlock [⟨0, typeDirectory, ['.']⟩, ⟨1, typeNormal, ['f']⟩]
    else if inode = 1 then oneBlock [⟨2, typeNormal, ['x']⟩] else oneBlock []
  root := ⟨0, typeDirectory, ['.']⟩
  rootType := root_entry_type
  namesFit := by
    intro inode
    split
    · exact one_block_fits (by decide)
    · split <;> exact one_block_fits (by decide)

/-- The search finds the entry in the file. -/
theorem path_resolution_fails :
    ¬PathResolution fileTree ['/', 'f', '/', 'x'] fun _ => '\x00' := by
  intro h
  have hsome := h.succeeds.mp (by decide +kernel)
  exact absurd hsome (by decide)

theorem path_resolution_iff_file : PathResolution fileTree ['/', 'f'] fun _ => '\x00' :=
  (path_resolution_iff fileTree ['/', 'f'] (fun _ => '\x00') rfl (by decide)).mpr
    (.inr (by rw [if_pos (by decide)]; exact ⟨by decide, by decide, by decide⟩))

end DirTree

end XBook.Paths
