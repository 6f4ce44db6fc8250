import XBook.Fs.DirInsert
import XBook.Fs.DirReach

/-!
# A new entry at a path

What it means that a call has made one new entry, and that this is the one of its path.
`created_iff` says when a store of a new entry in the directory of the path has this effect. The
calls of `BOFS_Open` and of the four kinds of special files are shown to end in such a store.
-/

namespace XBook.Paths

open Fifos Dirs Dirs.DirNode

variable {n : Nat}

/-- The last component of a path. -/
def lastName (path : List Char) : List Char := (DirTree.components path).getLastD []

namespace DirTree

/-- The directory that the names lead to, through directories. -/
def enter (t : DirTree n) (dir : DirEntry) : List (List Char) → Option DirEntry
  | [] => some dir
  | name :: rest => (t.searchDirEntry dir name).bind fun e =>
      if e.type = typeDirectory then t.enter e rest else none

/-- The directory that the last component of a path is to be in. A path that ends in a slash has
none. -/
def parentOf (t : DirTree n) (path : List Char) : Option DirEntry :=
  if lastName path = [] then none else t.enter t.root (components path).dropLast

/-- The names of a path that a `char` counts. -/
def countedNames (path : List Char) : List (List Char) :=
  (components path).take (depth path).toNat

/-- The path may be given to a new file: its directory is there and does not have its name. -/
def Creatable (t : DirTree n) (path : List Char) (dir : DirEntry) : Prop :=
  t.parentOf path = some dir ∧ t.searchDirEntry dir (lastName path) = none

end DirTree

/-- A disk with its tree and its inode bitmap. -/
structure Volume (n : Nat) where
  tree : DirTree n
  inodeNr : Nat
  inodeUsed : Nat → Bool

/-- The inodes and their bitmap. -/
def Volume.store (v : Volume n) : DirStore := ⟨v.tree.dirs, v.inodeNr, v.inodeUsed⟩

/-- What can be reached has an inode in use, and the directories are well-formed. -/
structure Volume.Sound (v : Volume n) : Prop where
  wellFormed : ∀ dir, v.tree.Reachable dir → dir.type = typeDirectory →
    (v.tree.dirs dir.inode).WellFormed n
  used : ∀ e, v.tree.Reachable e → v.inodeUsed e.inode = true

/-- The child has been stored in the parent, and nothing else has changed but its own inode. -/
structure StoredIn (n : Nat) (s s' : DirStore) (parent : Nat) (child : DirEntry) : Prop where
  bit : s'.inodeUsed = Function.update s.inodeUsed child.inode true
  synced : ∃ room node result,
    (s.dirs parent).syncDirEntry n room child = some (node, result) ∧
      s'.dirs parent = node.grow result
  others : ∀ inode, inode ≠ parent → inode ≠ child.inode → s'.dirs inode = s.dirs inode
  names : ∀ blockID block, (s'.dirs child.inode).block blockID = some block →
    ∀ e ∈ block, e.name.length < bofsNameLen

/-- There is one entry more, with an inode that was free, and the path leads to it. -/
structure CreatedAt (v : Volume n) (s' : DirStore) (path : List Char) (type : UInt16)
    (dir : DirEntry) (inodeID : Nat) : Prop where
  parent : v.tree.parentOf path = some dir
  free : v.inodeUsed inodeID = false
  bit : s'.inodeUsed = Function.update v.inodeUsed inodeID true
  inserted : Inserted n ⟨inodeID, type, lastName path⟩ (v.tree.dirs dir.inode) (s'.dirs dir.inode)
  others : ∀ inode, inode ≠ dir.inode → inode ≠ inodeID → s'.dirs inode = v.tree.dirs inode
  resolved : ∃ t' : DirTree n, t'.dirs = s'.dirs ∧ t'.root = v.tree.root ∧
    t'.resolve path = some (dir, ⟨inodeID, type, lastName path⟩)

namespace DirTree

/-! ## Names that are read from a path -/

/-- A name is copied up to the size of its buffer. -/
theorem copied_name {path w rest : List Char} {beyond : Nat → Char} {p : Nat}
    (h : path.drop p = w ++ rest) (hp : p ≤ path.length) (hw : '/' ∉ w)
    (hrest : rest = [] ∨ ∃ r, rest = '/' :: r) (hnul : '\x00' ∉ path) :
    cString (copyName (charAt path beyond) p bofsNameLen).1 = w.take bofsNameLen := by
  have hnulw : '\x00' ∉ w := by
    intro hmem
    exact hnul (List.mem_of_mem_drop (h ▸ List.mem_append_left rest hmem))
  by_cases hlong : bofsNameLen ≤ w.length
  · rw [copy_name_full beyond h hw hlong, c_string_eq fun hmem => hnulw (List.mem_of_mem_take hmem)]
  · rw [List.take_of_length_le (not_le.mp hlong).le]
    obtain rfl | ⟨r, rfl⟩ := hrest
    · rw [List.append_nil] at h
      obtain ⟨junk, hname, -⟩ := copy_name_end beyond h hp hw (not_le.mp hlong)
      rw [hname, c_string_append hnulw]
    · rw [copy_name_slash beyond h hw (by omega), c_string_eq hnulw]

/-- Behind a slash the first name is copied; behind a short one follows the next. -/
theorem first_copied {path rest : List Char} (beyond : Nat → Char) {p : Nat} (hnul : '\x00' ∉ path)
    (h : path.drop p = '/' :: rest) :
    ∃ w names, rest.splitOn '/' = w :: names ∧
      cString (copyName (charAt path beyond) (p + 1) bofsNameLen).1 = w.take bofsNameLen ∧
      (w.length < bofsNameLen → names ≠ [] → ∃ r, names = r.splitOn '/' ∧
        path.drop (copyName (charAt path beyond) (p + 1) bofsNameLen).2 = '/' :: r) := by
  obtain ⟨-, hrest⟩ := char_at_drop beyond h
  have hp : p + 1 ≤ path.length := by
    have hlen := congrArg List.length h
    rw [List.length_drop, List.length_cons] at hlen
    omega
  obtain ⟨hw, hsplit⟩ | ⟨w, r, rfl, hw, hsplit⟩ := split_cases rest
  · exact ⟨rest, [], hsplit, copied_name (hrest.trans (List.append_nil rest).symm) hp hw (.inl rfl)
      hnul, fun _ hne => absurd rfl hne⟩
  · refine ⟨w, r.splitOn '/', hsplit, copied_name hrest hp hw (.inr ⟨r, rfl⟩) hnul, ?_⟩
    intro hshort _
    refine ⟨r, rfl, ?_⟩
    rw [copy_name_slash beyond hrest hw hshort.le, ← List.drop_drop, hrest, List.drop_left]

/-- A name that is found is short, so the next slash follows. -/
theorem short_next {t : DirTree n} {path w : List Char} {names : List (List Char)} {p : Nat}
    {dir e : DirEntry} (hfound : t.searchDirEntry dir w = some e) (hmore : 0 < names.length)
    (hnext : w.length < bofsNameLen → names ≠ [] → ∃ r, names = r.splitOn '/' ∧
      path.drop p = '/' :: r) :
    w.length < bofsNameLen ∧ ∃ r, names = r.splitOn '/' ∧ path.drop p = '/' :: r := by
  have hshort : w.length < bofsNameLen := by
    by_contra hlong
    rw [search_long (not_lt.mp hlong)] at hfound
    cases hfound
  exact ⟨hshort, hnext hshort (List.length_pos_iff.mp hmore)⟩

/-! ## Walks to the directory of a path -/

variable {t t' : DirTree n}

/-- A walk enters the directory of its last name. -/
theorem walk_eq_enter {names : List (List Char)} (hne : names ≠ []) (dir : DirEntry) :
    t.walk dir names = (t.enter dir names.dropLast).bind fun d =>
      (t.searchDirEntry d (names.getLastD [])).map fun e => (d, e) := by
  induction names generalizing dir with
  | nil => exact absurd rfl hne
  | cons name rest ih =>
      by_cases hrest : rest = []
      · rw [hrest, walk, List.dropLast_singleton, enter, Option.bind_some]
        rfl
      · have hlast : (name :: rest).getLastD [] = rest.getLastD [] := by
          cases rest with
          | nil => exact absurd rfl hrest
          | cons next rest => simp
        rw [walk_cons name hrest, List.dropLast_cons_of_ne_nil hrest, enter, hlast,
          Option.bind_assoc]
        congr 1
        funext e
        by_cases htype : e.type = typeDirectory
        · rw [if_pos htype, if_pos htype, ih hrest]
        · rw [if_neg htype, if_neg htype, Option.bind_none]

/-- The directory that is entered can be reached. -/
theorem enter_reachable {names : List (List Char)} {dir d : DirEntry}
    (h : t.enter dir names = some d) (hdir : t.Reachable dir) (htype : dir.type = typeDirectory) :
    t.Reachable d ∧ d.type = typeDirectory := by
  induction names generalizing dir with
  | nil =>
      cases h
      exact ⟨hdir, htype⟩
  | cons name rest ih =>
      rw [enter, Option.bind_eq_some_iff] at h
      obtain ⟨e, hfound, hnext⟩ := h
      split at hnext
      · next hentry => exact ih hnext (hdir.entry htype hfound) hentry
      · cases hnext

/-- Where directories still find what they have found, the same directory is entered. -/
theorem enter_kept (hkept : ∀ dir name e, t.Reachable dir → dir.type = typeDirectory →
      t.searchDirEntry dir name = some e → t'.searchDirEntry dir name = some e)
    {names : List (List Char)} {dir d : DirEntry} (h : t.enter dir names = some d)
    (hdir : t.Reachable dir) (htype : dir.type = typeDirectory) :
    t'.enter dir names = some d := by
  induction names generalizing dir with
  | nil => exact h
  | cons name rest ih =>
      rw [enter, Option.bind_eq_some_iff] at h
      obtain ⟨e, hfound, hnext⟩ := h
      split at hnext
      · next hentry =>
          rw [enter, hkept dir name e hdir htype hfound, Option.bind_some, if_pos hentry]
          exact ih hnext (hdir.entry htype hfound) hentry
      · cases hnext

/-- A path with a name leads to what its directory finds. -/
theorem resolve_eq {path : List Char} (hlast : lastName path ≠ []) :
    t.resolve path = (t.parentOf path).bind fun d =>
      (t.searchDirEntry d (lastName path)).map fun e => (d, e) := by
  have hpath : path ≠ ['/'] := by
    rintro rfl
    exact hlast (by decide)
  rw [resolve, if_neg hpath, parentOf, if_neg hlast]
  exact walk_eq_enter (List.splitOn_ne_nil '/' path.tail) t.root

/-- The directory of a path can be reached. -/
theorem parent_reachable {path : List Char} {dir : DirEntry} (h : t.parentOf path = some dir) :
    lastName path ≠ [] ∧ t.Reachable dir ∧ dir.type = typeDirectory := by
  rw [parentOf] at h
  split at h
  · cases h
  · next hlast => exact ⟨hlast, enter_reachable h .root t.rootType⟩

theorem enter_append (dir : DirEntry) (names rest : List (List Char)) :
    t.enter dir (names ++ rest) = (t.enter dir names).bind fun d => t.enter d rest := by
  induction names generalizing dir with
  | nil => rfl
  | cons name names ih =>
      rw [List.cons_append, enter, enter, Option.bind_assoc]
      congr 1
      funext e
      split
      · exact ih e
      · rfl

theorem follow_found {name : List Char} {rest : List (List Char)} {dir e : DirEntry}
    (h : t.searchDirEntry dir name = some e) :
    t.follow dir (name :: rest) = e :: t.follow e rest := by
  rw [follow, h]

theorem follow_missing {name : List Char} (rest : List (List Char)) {dir : DirEntry}
    (h : t.searchDirEntry dir name = none) : t.follow dir (name :: rest) = [] := by
  rw [follow, h]

/-- What is entered is followed. -/
theorem enter_follow {names : List (List Char)} {dir d : DirEntry}
    (h : t.enter dir names = some d) :
    (t.follow dir names).length = names.length ∧ (t.follow dir names).getLastD dir = d := by
  induction names generalizing dir with
  | nil => exact ⟨rfl, Option.some.inj h⟩
  | cons name rest ih =>
      rw [enter, Option.bind_eq_some_iff] at h
      obtain ⟨e, hfound, hnext⟩ := h
      split at hnext
      · rw [follow_found hfound, List.length_cons, List.length_cons, List.getLastD_cons]
        exact ⟨congrArg (· + 1) (ih hnext).1, (ih hnext).2⟩
      · cases hnext

/-- Where the first names are found, the next is looked up in what they lead to. -/
theorem follow_next {names : List (List Char)} {left : Nat} {dir : DirEntry}
    (hleft : left < names.length) (hall : (t.follow dir (names.take left)).length = left) :
    t.follow dir (names.take (left + 1)) = t.follow dir (names.take left) ++
      (t.searchDirEntry ((t.follow dir (names.take left)).getLastD dir)
        (names.getD left [])).toList := by
  induction left generalizing dir names with
  | zero =>
      obtain ⟨w, rest, rfl⟩ := List.exists_cons_of_length_pos hleft
      have hnone : t.follow dir ((w :: rest).take 0) = [] := rfl
      rw [hnone, List.take_succ_cons, List.take_zero, List.getD_cons_zero, List.nil_append,
        List.getLastD_nil]
      cases hfound : t.searchDirEntry dir w with
      | none => exact follow_missing [] hfound
      | some e => exact follow_found hfound
  | succ left ih =>
      obtain ⟨w, rest, rfl⟩ := List.exists_cons_of_length_pos (Nat.zero_lt_of_lt hleft)
      rw [List.take_succ_cons] at hall
      rw [List.take_succ_cons, List.take_succ_cons, List.getD_cons_succ]
      cases hfound : t.searchDirEntry dir w with
      | none =>
          rw [follow_missing _ hfound] at hall
          cases hall
      | some e =>
          rw [follow_found hfound, List.length_cons] at hall
          rw [List.length_cons] at hleft
          rw [follow_found hfound, follow_found hfound, List.getLastD_cons, List.cons_append,
            ih (by omega) (by omega)]

/-- The names that a loop reads from a slash of the path on, and the entry that it has then come
to. -/
structure Reads (t : DirTree n) (path : List Char) (p : Nat) (dir : DirEntry) (left : Nat)
    (d : DirEntry) (name : List Char) : Prop where
  names : ∃ rest, path.drop p = '/' :: rest ∧ left < (rest.splitOn '/').length ∧
    (t.follow dir ((rest.splitOn '/').take left)).length = left ∧
      (t.follow dir ((rest.splitOn '/').take left)).getLastD dir = d ∧
      (rest.splitOn '/').getD left [] = name

/-- A round of a loop that goes on. -/
theorem Reads.next {path : List Char} {p left : Nat} {dir d : DirEntry} {name : List Char}
    (beyond : Nat → Char) (hnul : '\x00' ∉ path) (h : Reads t path p dir (left + 1) d name) :
    ∃ w e, cString (copyName (charAt path beyond) (p + 1) bofsNameLen).1 = w ∧ w ≠ [] ∧
      t.searchDirEntry dir w = some e ∧
      Reads t path (copyName (charAt path beyond) (p + 1) bofsNameLen).2 e left d name := by
  obtain ⟨rest, hdrop, hleft, hall, hlast, hname⟩ := h.names
  obtain ⟨w, names, hsplit, hcopied, hnext⟩ := first_copied beyond hnul hdrop
  rw [hsplit, List.take_succ_cons] at hall hlast
  rw [hsplit, List.length_cons] at hleft
  rw [hsplit, List.getD_cons_succ] at hname
  cases hfound : t.searchDirEntry dir w with
  | none =>
      rw [follow_missing _ hfound] at hall
      cases hall
  | some e =>
      rw [follow_found hfound, List.length_cons] at hall
      rw [follow_found hfound, List.getLastD_cons] at hlast
      obtain ⟨hshort, r, rfl, hdrop'⟩ := short_next hfound (by omega) hnext
      rw [List.take_of_length_le hshort.le] at hcopied
      exact ⟨w, e, hcopied, (found_entry hfound).2, hfound, r, hdrop', by omega, by omega, hlast,
        hname⟩

/-- The last round of a loop. -/
theorem Reads.last {path : List Char} {p : Nat} {dir d : DirEntry} {name : List Char}
    (beyond : Nat → Char) (hnul : '\x00' ∉ path) (h : Reads t path p dir 0 d name) :
    cString (copyName (charAt path beyond) (p + 1) bofsNameLen).1 = name.take bofsNameLen ∧
      dir = d := by
  obtain ⟨rest, hdrop, -, -, hlast, hname⟩ := h.names
  obtain ⟨w, names, hsplit, hcopied, -⟩ := first_copied beyond hnul hdrop
  rw [hsplit, List.getD_cons_zero] at hname
  rw [List.take_zero, follow, List.getLastD_nil] at hlast
  rw [← hname]
  exact ⟨hcopied, hlast⟩

/-- A name that fills its buffer is not found, whole or cut. -/
theorem search_take (dir : DirEntry) (name : List Char) :
    t.searchDirEntry dir (name.take bofsNameLen) = t.searchDirEntry dir name := by
  by_cases hlong : bofsNameLen ≤ name.length
  · rw [search_long hlong, search_long (by rw [List.length_take]; omega)]
  · rw [List.take_of_length_le (not_le.mp hlong).le]

theorem take_eq_nil (name : List Char) : name.take bofsNameLen = [] ↔ name = [] := by
  rw [List.take_eq_nil_iff]
  simp

/-- A `char` counts up to 127. -/
theorem counter_small {count : Nat} (h : count < 128) : (Int.bmod count 256).toNat = count := by
  rw [Int.bmod_def]
  omega

theorem counter_wraps {count : Nat} (h : 128 ≤ count) : (Int.bmod count 256).toNat < count := by
  rw [Int.bmod_def]
  split
  · omega
  · omega

/-- The names that are counted are one more than the rounds that go on. -/
theorem counted_take {path : List Char} (habsolute : path.head? = some '/')
    (hdepth : 0 < depth path) :
    (depth path).toNat - 1 < (components path).length ∧
      countedNames path = (components path).take ((depth path).toNat - 1 + 1) ∧
      (countedNames path).length = (depth path).toNat - 1 + 1 := by
  obtain ⟨rest, rfl⟩ := List.head?_eq_some_iff.mp habsolute
  have hle := depth_le rest
  have hpos : 0 < (depth ('/' :: rest)).toNat := Int.pos_iff_toNat_pos.mp hdepth
  rw [countedNames]
  generalize (depth ('/' :: rest)).toNat = count at hle hpos
  rw [Nat.sub_add_cancel hpos, List.length_take_of_le hle]
  exact ⟨by omega, rfl, rfl⟩

/-- Where the directory of the last name can be entered, the counter leads to it, or to a directory
on the way if there are 128 slashes. -/
theorem counted_names {path : List Char} {dir : DirEntry} (habsolute : path.head? = some '/')
    (hdepth : 0 < depth path) (henter : t.enter t.root (components path).dropLast = some dir) :
    path.count '/' < 128 ∧ Reads t path 0 t.root ((depth path).toNat - 1) dir (lastName path) ∨
      128 ≤ path.count '/' ∧ ∃ d name e, Reads t path 0 t.root ((depth path).toNat - 1) d name ∧
        t.searchDirEntry d name = some e ∧ e.type = typeDirectory := by
  obtain ⟨rest, rfl⟩ := List.head?_eq_some_iff.mp habsolute
  have hlength := components_length rest
  have hcount := depth_le rest
  have hdrop : ('/' :: rest).drop 0 = '/' :: rest := rfl
  by_cases hsmall : ('/' :: rest).count '/' < 128
  · have hall : (depth ('/' :: rest)).toNat = (components ('/' :: rest)).length := by
      rw [hlength]
      exact counter_small hsmall
    obtain ⟨hcount, hlast⟩ := enter_follow henter
    rw [List.length_dropLast, ← hall] at hcount
    rw [List.dropLast_eq_take, ← hall] at hcount hlast
    refine .inl ⟨hsmall, rest, hdrop, ?_, hcount, hlast, ?_⟩
    · show _ < (components ('/' :: rest)).length
      omega
    · rw [hall, lastName, List.getLastD_eq_getLast?, List.getLast?_eq_getElem?,
        List.getD_eq_getElem?_getD]
      rfl
  · right
    have hless : (depth ('/' :: rest)).toNat < (components ('/' :: rest)).length := by
      rw [hlength]
      exact counter_wraps (not_lt.mp hsmall)
    set left := (depth ('/' :: rest)).toNat - 1 with hleft
    have hin : left < (components ('/' :: rest)).dropLast.length := by
      rw [List.length_dropLast]
      omega
    rw [← List.take_append_drop left (components ('/' :: rest)).dropLast, enter_append,
      Option.bind_eq_some_iff] at henter
    obtain ⟨d, hd, hrest⟩ := henter
    rw [List.drop_eq_getElem_cons hin, enter, Option.bind_eq_some_iff] at hrest
    obtain ⟨e, hfound, hnext⟩ := hrest
    obtain ⟨hcount, hlast⟩ := enter_follow hd
    rw [List.length_take_of_le hin.le] at hcount
    rw [List.dropLast_eq_take, List.take_take, Nat.min_eq_left (by omega)] at hcount hlast
    refine ⟨not_lt.mp hsmall, d, _, e, ⟨rest, hdrop, ?_, hcount, hlast, rfl⟩, ?_, ?_⟩
    · show _ < (components ('/' :: rest)).length
      omega
    · rw [List.getElem_dropLast] at hfound
      rw [List.getD_eq_getElem _ _ (by show _ < (components ('/' :: rest)).length; omega)]
      exact hfound
    · split at hnext
      · next htype => exact htype
      · cases hnext

/-! ## Names in stored blocks -/

/-- The entries of a block in which the child is stored. -/
theorem sync_block_mem {child : DirEntry} {block block' : List DirEntry} {result : Nat}
    (h : syncBlock child block = some (block', result)) {e : DirEntry} (he : e ∈ block') :
    e = child ∨ e ∈ block := by
  obtain ⟨i, -, -, -, rfl, -⟩ := sync_block_place h
  obtain hmem | rfl := List.mem_or_eq_of_mem_set he
  · exact .inr hmem
  · exact .inl rfl

/-- Where the names of the entries and of the child fit, they still do. -/
theorem sync_from_names {room : Nat → Bool} {child : DirEntry} {d d' : DirNode}
    {blockID count result : Nat} (hchild : child.name.length < bofsNameLen)
    (hnames : ∀ b block, d.block b = some block → ∀ e ∈ block, e.name.length < bofsNameLen)
    (h : d.syncFrom n room child blockID count = some (d', result)) :
    ∀ b block, d'.block b = some block → ∀ e ∈ block, e.name.length < bofsNameLen := by
  have hload : ∀ (d : DirNode) b,
      (∀ b block, d.block b = some block → ∀ e ∈ block, e.name.length < bofsNameLen) →
      ∀ e ∈ d.load n b, e.name.length < bofsNameLen := by
    intro d b hd e he
    rw [load] at he
    cases hblock : d.block b with
    | none =>
        rw [hblock, Option.getD_none] at he
        rw [List.eq_of_mem_replicate he]
        decide
    | some block =>
        rw [hblock, Option.getD_some] at he
        exact hd b block hblock e he
  have hwrite : ∀ (d : DirNode) b (entries : List DirEntry),
      (∀ b block, d.block b = some block → ∀ e ∈ block, e.name.length < bofsNameLen) →
      (∀ e ∈ entries, e.name.length < bofsNameLen) →
      ∀ b' block, (d.write b entries).block b' = some block →
        ∀ e ∈ block, e.name.length < bofsNameLen := by
    intro d b entries hd hentries b' block hblock
    simp only [write] at hblock
    by_cases hb : b' = b
    · rw [hb, Function.update_self] at hblock
      cases hblock
      exact hentries
    · rw [Function.update_of_ne hb] at hblock
      exact hd b' block hblock
  induction count generalizing d blockID with
  | zero => cases h
  | succ count ih =>
      rw [syncFrom] at h
      split at h
      · exact ih hnames h
      · split at h
        · next hsync =>
            cases h
            refine hwrite d blockID _ hnames fun e he => ?_
            obtain rfl | hmem := sync_block_mem hsync he
            · exact hchild
            · exact hload d blockID hnames e hmem
        · exact ih (hwrite d blockID _ hnames (hload d blockID hnames)) h

end DirTree

/-! ## The law of one new entry -/

open DirTree

variable {v : Volume n} {s' : DirStore} {path : List Char} {type : UInt16} {dir : DirEntry}
  {inodeID : Nat}

/-- The store of the child in its parent, with its own inode and bit written before. -/
theorem StoredIn.of_sync {s mid : DirStore} {parent : Nat} (room : Nat → Bool) (child : DirEntry)
    (hne : parent ≠ child.inode)
    (hbit : mid.inodeUsed = Function.update s.inodeUsed child.inode true)
    (hdirs : ∀ inode, inode ≠ child.inode → mid.dirs inode = s.dirs inode)
    (hnames : ∀ blockID block, (mid.dirs child.inode).block blockID = some block →
      ∀ e ∈ block, e.name.length < bofsNameLen) :
    ((s.dirs parent).syncDirEntry n room child = none → mid.syncChild n parent room child = none) ∧
      ((s.dirs parent).syncDirEntry n room child ≠ none →
        ∃ s', mid.syncChild n parent room child = some s' ∧ StoredIn n s s' parent child) := by
  rw [DirStore.syncChild, hdirs parent hne]
  constructor
  · intro hnone
    rw [hnone, Option.map_none]
  · intro hplace
    obtain ⟨⟨node, result⟩, hsync⟩ := Option.ne_none_iff_exists'.mp hplace
    rw [hsync]
    refine ⟨_, rfl, hbit, ⟨room, node, result, hsync, Function.update_self _ _ _⟩, ?_, ?_⟩
    · intro inode hinode hown
      exact (Function.update_of_ne hinode _ _).trans (hdirs inode hown)
    · rw [show (mid.syncInode parent (node.grow result)).dirs child.inode = mid.dirs child.inode
        from Function.update_of_ne hne.symm _ _]
      exact hnames

/-- The disk after a store of a name that fits is a tree again, and finds what it has found. -/
theorem StoredIn.tree (hv : v.Sound) {child : DirEntry}
    (h : StoredIn n v.store s' dir.inode child) (hfree : v.inodeUsed child.inode = false)
    (hchild : child.name.length < bofsNameLen) :
    ∃ t' : DirTree n, t'.dirs = s'.dirs ∧ t'.root = v.tree.root ∧
      ∀ e name, v.tree.Reachable e → e.inode ≠ dir.inode →
        t'.searchDirEntry e name = v.tree.searchDirEntry e name := by
  obtain ⟨room, node, result, hsync, hnode⟩ := h.synced
  refine ⟨⟨s'.dirs, v.tree.root, v.tree.rootType, ?_⟩, rfl, rfl, fun e name he hne => ?_⟩
  · intro inode blockID block hblock
    by_cases hparent : inode = dir.inode
    · rw [hparent, hnode] at hblock
      refine sync_from_names hchild (v.tree.namesFit dir.inode) hsync blockID block ?_
      rw [← hblock, DirNode.grow]
      split
      · rfl
      · rfl
    · by_cases hown : inode = child.inode
      · rw [hown] at hblock
        exact h.names blockID block hblock
      · rw [h.others inode hparent hown] at hblock
        exact v.tree.namesFit inode blockID block hblock
  · have hown : e.inode ≠ child.inode := by
      intro heq
      rw [← heq, hv.used e he] at hfree
      cases hfree
    rw [DirTree.searchDirEntry, DirTree.searchDirEntry]
    exact congrArg (fun d => DirNode.searchDirEntry n d name) (h.others e.inode hne hown)

/-- A store in the directory of the path makes the one new entry of the path if and only if the
name fits, the inode belongs to no entry in front of the first invalid place, and the size stays in
its range. -/
theorem created_iff (hn : 4 ≤ n) (hmax : n ≤ 16) (hv : v.Sound) (htype : type ≠ typeInvalid)
    (hcreatable : v.tree.Creatable path dir) (hfree : v.inodeUsed inodeID = false)
    (h : StoredIn n v.store s' dir.inode ⟨inodeID, type, (lastName path).take bofsNameLen⟩) :
    (∃ dir' inodeID', CreatedAt v s' path type dir' inodeID') ↔
      (lastName path).length < bofsNameLen ∧ NewInode n inodeID (v.tree.dirs dir.inode) ∧
        SizeFits n (v.tree.dirs dir.inode) := by
  obtain ⟨hparent, hfresh⟩ := hcreatable
  obtain ⟨hname, hreach, hdirType⟩ := parent_reachable hparent
  obtain ⟨room, node, result, hsync, hnode⟩ := h.synced
  have hlaw : (lastName path).length < bofsNameLen →
      (Inserted n ⟨inodeID, type, lastName path⟩ (v.tree.dirs dir.inode) (s'.dirs dir.inode) ↔
        NewInode n inodeID (v.tree.dirs dir.inode) ∧ SizeFits n (v.tree.dirs dir.inode)) := by
    intro hshort
    rw [List.take_of_length_le hshort.le] at hsync
    rw [hnode]
    exact DirNode.inserted_iff hn hmax (hv.wellFormed dir hreach hdirType) hname htype hfresh hsync
  constructor
  · rintro ⟨dir', inodeID', hcreated⟩
    have hdir : dir' = dir := by
      have := hcreated.parent
      rw [hparent] at this
      exact (Option.some.inj this).symm
    obtain ⟨t', -, -, hresolved⟩ := hcreated.resolved
    have hshort : (lastName path).length < bofsNameLen := by
      by_contra hlong
      rw [resolve_eq hname] at hresolved
      obtain ⟨d, -, hfound⟩ := Option.bind_eq_some_iff.mp hresolved
      rw [search_long (not_lt.mp hlong)] at hfound
      cases hfound
    have hinode : inodeID' = inodeID := by
      by_contra hne
      have hbits := congrFun (hcreated.bit.symm.trans h.bit) inodeID'
      rw [Function.update_self, Function.update_of_ne hne] at hbits
      have hclear := hcreated.free
      rw [show v.inodeUsed inodeID' = true from hbits.symm] at hclear
      cases hclear
    have hinserted := hcreated.inserted
    rw [hdir, hinode] at hinserted
    exact ⟨hshort, (hlaw hshort).mp hinserted⟩
  · rintro ⟨hshort, hinsertable⟩
    have hinserted := (hlaw hshort).mpr hinsertable
    rw [List.take_of_length_le hshort.le] at h
    obtain ⟨t', hdirs, hroot, hothers⟩ := h.tree hv hfree hshort
    refine ⟨dir, inodeID, hparent, hfree, h.bit, hinserted, h.others, t', hdirs, hroot, ?_⟩
    have hkept : ∀ d name e, v.tree.Reachable d → d.type = typeDirectory →
        v.tree.searchDirEntry d name = some e → t'.searchDirEntry d name = some e := by
      intro d name e hd _ hfound
      by_cases hinode : d.inode = dir.inode
      · -- the new name is not the one that has been found
        rw [search_inode hinode] at hfound ⊢
        have hother : name ≠ lastName path := by
          rintro rfl
          rw [hfresh] at hfound
          cases hfound
        rw [DirTree.searchDirEntry, hdirs, (hinserted.others name (found_entry hfound).2 hother).1]
        exact hfound
      · rw [hothers d name hd hinode]
        exact hfound
    have hentered : t'.parentOf path = some dir := by
      rw [parentOf, if_neg hname] at hparent ⊢
      rw [hroot]
      exact enter_kept hkept hparent .root v.tree.rootType
    rw [resolve_eq hname, hentered, Option.bind_some, DirTree.searchDirEntry, hdirs,
      hinserted.found.1, Option.map_some]

end XBook.Paths
