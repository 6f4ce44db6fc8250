import XBook.Fs.Rename

/-!
# Directories that lead to each other

What can be reached from the root through the entries of a disk, and what it means that this is a
tree. `Without` relates a disk to one without some of the entries; `rooted_of_reachable` says that
`.` and `..` lead to nothing that the other names do not lead to.
-/

namespace XBook.Paths

open Fifos Dirs Dirs.DirNode

variable {n : Nat}

/-- The names of the entries that every directory has. -/
abbrev IsDots (name : List Char) : Prop := name = ['.'] ∨ name = ['.', '.']

namespace DirTree

/-- The entries that the root leads to through directories. -/
inductive Reachable (t : DirTree n) : DirEntry → Prop
  | root : Reachable t t.root
  | entry {dir e : DirEntry} {name : List Char} : Reachable t dir → dir.type = typeDirectory →
      t.searchDirEntry dir name = some e → Reachable t e

/-- The entries that the root leads to without `.` and `..`. -/
inductive Rooted (t : DirTree n) : DirEntry → Prop
  | root : Rooted t t.root
  | entry {dir e : DirEntry} {name : List Char} : Rooted t dir → dir.type = typeDirectory →
      t.searchDirEntry dir name = some e → ¬IsDots name → Rooted t e

/-- `.` leads to the directory itself, and `..` to the one that it is in. -/
structure DotsLead (t : DirTree n) : Prop where
  itself : ∀ dir e, t.Reachable dir → dir.type = typeDirectory →
    t.searchDirEntry dir ['.'] = some e → e.inode = dir.inode ∧ e.type = typeDirectory
  parent : ∀ dir name e e', t.Reachable dir → dir.type = typeDirectory → ¬IsDots name →
    t.searchDirEntry dir name = some e → e.type = typeDirectory →
      t.searchDirEntry e ['.', '.'] = some e' → e'.inode = dir.inode ∧ e'.type = typeDirectory
  rootParent : ∀ e, t.searchDirEntry t.root ['.', '.'] = some e →
    e.inode = t.root.inode ∧ e.type = typeDirectory

/-- The directories are well-formed, and an inode is that of the root, or of one entry besides the
dots. -/
structure IsTree (t : DirTree n) : Prop extends DotsLead t where
  wellFormed : ∀ dir, t.Reachable dir → dir.type = typeDirectory →
    (t.dirs dir.inode).WellFormed n
  rootOnly : ∀ dir name e, t.Reachable dir → dir.type = typeDirectory → ¬IsDots name →
    t.searchDirEntry dir name = some e → e.inode ≠ t.root.inode
  once : ∀ dir dir' name name' e e', t.Reachable dir → dir.type = typeDirectory →
    t.Reachable dir' → dir'.type = typeDirectory → ¬IsDots name → ¬IsDots name' →
      t.searchDirEntry dir name = some e → t.searchDirEntry dir' name' = some e' →
        e.inode = e'.inode → dir.inode = dir'.inode ∧ name = name'

/-- The other disk finds what this one finds, but not the entry in the contents of the inode. -/
def Without (t t' : DirTree n) (inode : Nat) (gone : DirEntry) : Prop :=
  ∀ dir name e, t'.searchDirEntry dir name = some e ↔
    t.searchDirEntry dir name = some e ∧ ¬(dir.inode = inode ∧ e = gone)

/-- The names lead from a directory through directories to an entry in the contents of another
one. -/
inductive Visits (t : DirTree n) : DirEntry → List (List Char) → DirEntry → DirEntry → Prop
  | here {dir e : DirEntry} {name : List Char} {rest : List (List Char)} :
      t.searchDirEntry dir name = some e → Visits t dir (name :: rest) dir e
  | next {dir e parent child : DirEntry} {name : List Char} {rest : List (List Char)} :
      t.searchDirEntry dir name = some e → e.type = typeDirectory →
        Visits t e rest parent child → Visits t dir (name :: rest) parent child

variable {t t' : DirTree n} {dir e : DirEntry} {name : List Char}

/-- What is found has the name, and is in use. -/
theorem found_entry (h : t.searchDirEntry dir name = some e) : IsEntry name e ∧ name ≠ [] := by
  rw [searchDirEntry, DirNode.searchDirEntry, search_dir] at h
  obtain ⟨_, _, -, hne, he, -⟩ := search_split h
  refine ⟨he, ?_⟩
  rw [← he.1]
  exact hne

/-- What is found depends on the inode of the directory only. -/
theorem search_inode {dir' : DirEntry} (h : dir'.inode = dir.inode) (name : List Char) :
    t.searchDirEntry dir' name = t.searchDirEntry dir name := by
  rw [searchDirEntry, searchDirEntry, h]

/-! ## Walks -/

/-- A name at the start of a walk. -/
theorem walk_cons (name : List Char) {rest : List (List Char)} (hrest : rest ≠ []) :
    t.walk dir (name :: rest) = (t.searchDirEntry dir name).bind fun e =>
      if e.type = typeDirectory then t.walk e rest else none := by
  rw [walk]
  · cases t.searchDirEntry dir name with
    | none => rfl
    | some e => rfl
  · exact hrest

theorem walk_congr (h : ∀ dir name, t'.searchDirEntry dir name = t.searchDirEntry dir name)
    (names : List (List Char)) (dir : DirEntry) : t'.walk dir names = t.walk dir names := by
  induction names generalizing dir with
  | nil => rfl
  | cons name rest ih =>
      by_cases hrest : rest = []
      · rw [hrest, walk, walk, h]
      · rw [walk_cons name hrest, walk_cons name hrest, h]
        simp only [ih]

/-- The first name of a walk is found. -/
theorem walk_first {names : List (List Char)} {r : DirEntry × DirEntry}
    (h : t.walk dir (name :: names) = some r) : ∃ e, t.searchDirEntry dir name = some e ∧
      (names ≠ [] → e.type = typeDirectory ∧ t.walk e names = some r) := by
  by_cases hnames : names = []
  · rw [hnames, walk, Option.map_eq_some_iff] at h
    obtain ⟨e, he, -⟩ := h
    exact ⟨e, he, fun hne => absurd hnames hne⟩
  · rw [walk_cons name hnames, Option.bind_eq_some_iff] at h
    obtain ⟨e, he, hrest⟩ := h
    split at hrest
    · next htype => exact ⟨e, he, fun _ => ⟨htype, hrest⟩⟩
    · cases hrest

/-- What a walk visits is in a directory that can be reached. -/
theorem Visits.reachable {names : List (List Char)} {parent child : DirEntry}
    (h : t.Visits dir names parent child) (hdir : t.Reachable dir)
    (htype : dir.type = typeDirectory) : t.Reachable parent ∧ parent.type = typeDirectory ∧
      t.searchDirEntry parent child.name = some child := by
  induction h with
  | here hfound =>
      refine ⟨hdir, htype, ?_⟩
      rw [(found_entry hfound).1.1]
      exact hfound
  | next hfound hentry _ ih => exact ih (hdir.entry htype hfound) hentry

/-- The walk to the end of a path visits its last entry. -/
theorem walk_visits {names : List (List Char)} {r : DirEntry × DirEntry}
    (h : t.walk dir names = some r) : t.Visits dir names r.1 r.2 := by
  induction names generalizing dir with
  | nil => cases h
  | cons name rest ih =>
      by_cases hrest : rest = []
      · rw [hrest, walk, Option.map_eq_some_iff] at h
        obtain ⟨e, he, rfl⟩ := h
        exact .here he
      · obtain ⟨e, he, hnext⟩ := walk_first h
        obtain ⟨htype, hwalk⟩ := hnext hrest
        exact .next he htype (ih hwalk)

/-- Without an entry that it visits, the walk finds nothing. -/
theorem Visits.walk_none {names : List (List Char)} {parent child : DirEntry}
    (h : t.Visits dir names parent child) (hwithout : Without t t' parent.inode child) :
    t'.walk dir names = none := by
  induction h with
  | @here dir e name rest hfound =>
      have hnone : t'.searchDirEntry dir name = none := by
        rw [Option.eq_none_iff_forall_ne_some]
        intro x hx
        obtain ⟨hold, hnot⟩ := (hwithout dir name x).mp hx
        rw [hfound] at hold
        exact hnot ⟨rfl, (Option.some.inj hold).symm⟩
      by_cases hrest : rest = []
      · rw [hrest, walk, hnone, Option.map_none]
      · rw [walk_cons name hrest, hnone, Option.bind_none]
  | @next dir e parent child name rest hfound _ hvisits ih =>
      have hrest : rest ≠ [] := by
        rintro rfl
        cases hvisits
      rw [walk_cons name hrest, Option.bind_eq_none_iff]
      intro x hx
      have hold := ((hwithout dir name x).mp hx).1
      rw [hfound] at hold
      rw [← Option.some.inj hold, ih hwithout, ite_self]

/-! ## Trees -/

/-- The other names lead to what can be reached. -/
theorem Rooted.reachable (h : t.Rooted e) : t.Reachable e := by
  induction h with
  | root => exact .root
  | entry _ htype hfound _ ih => exact ih.entry htype hfound

/-- An inode that can be reached is that of an entry that the other names lead to. -/
theorem rooted_of_reachable (hdots : DotsLead t) (h : t.Reachable e) :
    ∃ e', t.Rooted e' ∧ e'.inode = e.inode ∧ e'.type = e.type := by
  induction h with
  | root => exact ⟨t.root, .root, rfl, rfl⟩
  | @entry dir e name hdir htype hfound ih =>
      obtain ⟨dir', hrooted, hinode, htype'⟩ := ih
      by_cases hname : IsDots name
      · obtain rfl | rfl := hname
        · obtain ⟨hsame, hentry⟩ := hdots.itself dir e hdir htype hfound
          exact ⟨dir', hrooted, by rw [hinode, hsame], by rw [htype', htype, hentry]⟩
        · -- the directory that the entry is in, or the root
          rw [← search_inode hinode] at hfound
          rw [htype] at htype'
          cases hrooted with
          | root =>
              obtain ⟨hsame, hentry⟩ := hdots.rootParent e hfound
              exact ⟨t.root, .root, hsame.symm, by rw [hentry, t.rootType]⟩
          | @entry above _ below habove htypeAbove hbelow hdotsName =>
              obtain ⟨hsame, hentry⟩ := hdots.parent above below dir' e habove.reachable htypeAbove
                hdotsName hbelow htype' hfound
              exact ⟨above, habove, hsame.symm, by rw [hentry, htypeAbove]⟩
      · refine ⟨e, hrooted.entry (htype'.trans htype) ?_ hname, rfl, rfl⟩
        rw [search_inode hinode]
        exact hfound

section Removed

variable {inode : Nat} {gone : DirEntry}

/-- What can be reached without an entry could be reached with it. -/
theorem Without.reachable (h : Without t t' inode gone) (hroot : t'.root = t.root)
    (he : t'.Reachable e) : t.Reachable e := by
  induction he with
  | root =>
      rw [hroot]
      exact .root
  | entry _ htype hfound ih => exact ih.entry htype ((h _ _ _).mp hfound).1

/-- The dots of a disk without an entry lead where they have led. -/
theorem Without.dotsLead (h : Without t t' inode gone) (hroot : t'.root = t.root)
    (hdots : DotsLead t) : DotsLead t' := by
  refine ⟨?_, ?_, ?_⟩
  · intro dir e hdir htype hfound
    exact hdots.itself dir e (h.reachable hroot hdir) htype ((h _ _ _).mp hfound).1
  · intro dir name e e' hdir htype hname hfound hentry hparent
    exact hdots.parent dir name e e' (h.reachable hroot hdir) htype hname
      ((h _ _ _).mp hfound).1 hentry ((h _ _ _).mp hparent).1
  · intro e hfound
    rw [hroot] at hfound ⊢
    exact hdots.rootParent e ((h _ _ _).mp hfound).1

/-- Without the one entry of an inode besides the dots, the inode cannot be reached. -/
theorem IsTree.unreachable (htree : IsTree t) {parent child : DirEntry}
    (h : Without t t' parent.inode child) (hroot : t'.root = t.root)
    (hparent : t.Reachable parent) (htype : parent.type = typeDirectory)
    (hfound : t.searchDirEntry parent child.name = some child) (hname : ¬IsDots child.name)
    (he : t'.Reachable e) : e.inode ≠ child.inode := by
  intro hinode
  obtain ⟨e', hrooted, hsame, -⟩ := rooted_of_reachable (h.dotsLead hroot htree.toDotsLead) he
  rw [hinode] at hsame
  cases hrooted with
  | root =>
      rw [hroot] at hsame
      exact htree.rootOnly parent child.name child hparent htype hname hfound hsame.symm
  | @entry dir _ name hdir htypeDir hentry hnameDir =>
      obtain ⟨hold, hnot⟩ := (h dir name e').mp hentry
      obtain ⟨hdirInode, rfl⟩ := htree.once dir parent name child.name e' child
        (h.reachable hroot hdir.reachable) htypeDir hparent htype hnameDir hname hold hfound hsame
      rw [search_inode hdirInode, hfound] at hold
      exact hnot ⟨hdirInode, (Option.some.inj hold).symm⟩

/-- Without an entry that is one of the dots, or leads to a directory with the dots only, the other
inodes can be reached. -/
theorem IsTree.still_reachable (htree : IsTree t) {parent child : DirEntry} {empty : Nat}
    (h : Without t t' parent.inode child) (hroot : t'.root = t.root)
    (hleaf : ∀ dir name e, dir.inode = empty → t.searchDirEntry dir name = some e → IsDots name)
    (hchild : IsDots child.name ∨ child.inode = empty) (he : t.Reachable e)
    (hinode : e.inode ≠ empty) : ∃ e', t'.Reachable e' ∧ e'.inode = e.inode := by
  obtain ⟨e', hrooted, hsame, -⟩ := rooted_of_reachable htree.toDotsLead he
  refine ⟨e', ?_, hsame⟩
  rw [← hsame] at hinode
  clear hsame he
  induction hrooted with
  | root =>
      rw [← hroot]
      exact .root
  | @entry dir e' name hdir htype hfound hname ih =>
      -- the directory is not the empty one, and its entry is not the one that is gone
      have hdirInode : dir.inode ≠ empty := fun heq => hname (hleaf dir name e' heq hfound)
      refine (ih hdirInode).entry htype ((h dir name e').mpr ⟨hfound, ?_⟩)
      rintro ⟨-, rfl⟩
      obtain hdots | hleads := hchild
      · rw [(found_entry hfound).1.1] at hdots
        exact hname hdots
      · exact hinode hleads

end Removed

end DirTree

end XBook.Paths
