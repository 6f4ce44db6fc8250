import XBook.Fs.DirReach

/-!
# Removing a directory

`BOFS_RemoveDir` of `fs/bofs/dir.c`, with `BOFS_ReleaseDirEntry` as far as directories and the
inode bitmap go. The walk of the call does not stop at a name that is missing, and looks at no
type. `remove_dir_iff` says when it removes the empty directory of the path, or nothing.
-/

namespace XBook.Paths

open Fifos Dirs Dirs.DirNode

/-- A directory without entries in use other than `.` and `..`. -/
def IsEmpty (n : Nat) (d : DirNode) : Prop :=
  ∀ i, (d.slot n i).name ≠ [] → (d.slot n i).type ≠ typeInvalid → IsDots (d.slot n i).name

/-- What `BOFS_RemoveDir` leaves, and its result. -/
structure Removal where
  dirs : Nat → DirNode
  inodeUsed : Nat → Bool
  result : Int

namespace DirTree

variable {n : Nat}

section Calls

variable (t : DirTree n)

/-- The rounds of `BOFS_RemoveDir` from a slash of the path on, up to the search of the last one. A
name that is not found is passed over. -/
def removeLoop (mem : Nat → Char) (p : Nat) (parentDir : DirEntry) (left : Nat) :
    Option (DirEntry × DirEntry) :=
  let name := copyName mem (p + 1) bofsNameLen
  if cString name.1 = [] then none
  else
    match left with
    | 0 => (t.searchDirEntry parentDir (cString name.1)).map fun childDir => (parentDir, childDir)
    | left + 1 =>
        removeLoop mem name.2 ((t.searchDirEntry parentDir (cString name.1)).getD parentDir) left

/-- The entry that `BOFS_RemoveDir` removes, with the one whose contents it is in. -/
def toRemove (path : List Char) (beyond : Nat → Char) : Option (DirEntry × DirEntry) :=
  if path.head? ≠ some '/' then none
  else if 0 < depth path then
    t.removeLoop (charAt path beyond) 0 t.root ((depth path).toNat - 1)
  else none

/-- `BOFS_RemoveDir`. There may be no memory for the buffer of `BOFS_SyncDirEntry`. -/
def removeDir (inodeUsed : Nat → Bool) (path : List Char) (beyond : Nat → Char)
    (room : Nat → Bool) (iobuf : Bool) : Removal :=
  match t.toRemove path beyond with
  | none => ⟨t.dirs, inodeUsed, -1⟩
  | some (parentDir, childDir) =>
      let inodeUsed := Function.update inodeUsed childDir.inode false
      if iobuf = false then ⟨t.dirs, inodeUsed, -1⟩
      else
        match (t.dirs parentDir.inode).syncDirEntry n room
            { childDir with type := typeInvalid } with
        | none => ⟨t.dirs, inodeUsed, -1⟩
        | some (node, _) => ⟨Function.update t.dirs parentDir.inode node, inodeUsed, 0⟩

end Calls

/-- The path has led to an empty directory, which it does not lead to any more, and every other
inode can still be reached. -/
structure RemovedDir (t t' : DirTree n) (path : List Char) (dir e : DirEntry) : Prop where
  resolved : t.resolve path = some (dir, e)
  directory : e.type = typeDirectory
  empty : IsEmpty n (t.dirs e.inode)
  gone : t'.resolve path = none
  kept : ∀ other, t.Reachable other → other.inode ≠ e.inode →
    ∃ other', t'.Reachable other' ∧ other'.inode = other.inode

/-- A call that succeeds removes the directory of the path, and one that fails changes nothing. -/
def RemoveDirSafe (t : DirTree n) (inodeUsed : Nat → Bool) (path : List Char)
    (beyond : Nat → Char) (room : Nat → Bool) (iobuf : Bool) : Prop :=
  ((t.removeDir inodeUsed path beyond room iobuf).result = 0 → ∃ t' : DirTree n,
    t'.dirs = (t.removeDir inodeUsed path beyond room iobuf).dirs ∧ t'.root = t.root ∧
      ∃ dir e, RemovedDir t t' path dir e) ∧
  ((t.removeDir inodeUsed path beyond room iobuf).result ≠ 0 →
    (t.removeDir inodeUsed path beyond room iobuf).dirs = t.dirs ∧
      (t.removeDir inodeUsed path beyond room iobuf).inodeUsed = inodeUsed)

/-- The entry is in front of every place that a removed entry has left. -/
def FirstInvalid (n : Nat) (e : DirEntry) (d : DirNode) : Prop :=
  ∀ i j, d.slot n i = e → j < i → (d.slot n j).type ≠ typeInvalid

/-- The path leads to an empty directory, and what is removed is one of the dots or leads to this
directory, and gets its own place. -/
def Removes (t : DirTree n) (path : List Char) (parent child : DirEntry) : Prop :=
  ∃ dir e, t.resolve path = some (dir, e) ∧ e.type = typeDirectory ∧
    IsEmpty n (t.dirs e.inode) ∧ FirstInvalid n child (t.dirs parent.inode) ∧
      (IsDots child.name ∨ child.inode = e.inode)

/-- There is nothing to remove, or the right entry, and memory for it. -/
def RemoveGuard (t : DirTree n) (inodeUsed : Nat → Bool) (path : List Char)
    (beyond : Nat → Char) (iobuf : Bool) : Prop :=
  ∀ parent child, t.toRemove path beyond = some (parent, child) →
    if iobuf = true then Removes t path parent child else inodeUsed child.inode = false

/-! ## The entry that is removed -/

section Walk

variable {t : DirTree n} {path : List Char} {beyond : Nat → Char}

/-- Where the path leads somewhere, the loop visits an entry on the way. -/
theorem remove_loop_visits {dir parent child : DirEntry} {rest : List Char} {p left : Nat}
    {r : DirEntry × DirEntry} (hnul : '\x00' ∉ path) (h : path.drop p = '/' :: rest)
    (hleft : left < (rest.splitOn '/').length) (hwalk : t.walk dir (rest.splitOn '/') = some r)
    (hloop : t.removeLoop (charAt path beyond) p dir left = some (parent, child)) :
    t.Visits dir (rest.splitOn '/') parent child := by
  induction left generalizing p dir rest with
  | zero =>
      obtain ⟨w, names, hsplit, hcopied, -, -⟩ := first_name t dir beyond hnul h
      rw [removeLoop] at hloop
      simp only [hcopied] at hloop
      split at hloop
      · cases hloop
      · rw [Option.map_eq_some_iff] at hloop
        obtain ⟨e, hfound, heq⟩ := hloop
        cases heq
        rw [hsplit]
        exact .here hfound
  | succ left ih =>
      obtain ⟨w, names, hsplit, hcopied, -, hnext⟩ := first_name t dir beyond hnul h
      rw [hsplit] at hwalk hleft ⊢
      obtain ⟨e, hfound, hgoes⟩ := walk_first hwalk
      have hne : names ≠ [] := by
        rintro rfl
        simp at hleft
      have hshort : w.length < bofsNameLen := by
        by_contra hlong
        rw [search_long (not_lt.mp hlong)] at hfound
        cases hfound
      obtain ⟨htype, hrest⟩ := hgoes hne
      obtain ⟨r', rfl, hdrop⟩ := hnext hshort hne
      rw [removeLoop] at hloop
      simp only [hcopied, hfound, Option.getD_some] at hloop
      split at hloop
      · cases hloop
      · rw [List.length_cons] at hleft
        exact .next hfound htype (ih hdrop (by omega) hrest hloop)

/-- Nothing is removed for the path `/`. -/
theorem to_remove_root : t.toRemove ['/'] beyond = none := by
  have hdepth : (depth ['/']).toNat - 1 = 0 := by decide
  rw [toRemove, if_neg (by decide), if_pos (by decide), hdepth, removeLoop]
  simp only [copied_root_name, if_true]

/-- What is removed for a path that leads somewhere is visited on the way. -/
theorem to_remove_visits {parent child : DirEntry} {r : DirEntry × DirEntry}
    (hnul : '\x00' ∉ path) (hresolve : t.resolve path = some r)
    (h : t.toRemove path beyond = some (parent, child)) :
    path ≠ ['/'] ∧ t.Visits t.root (components path) parent child := by
  have hpath : path ≠ ['/'] := by
    rintro rfl
    rw [to_remove_root] at h
    cases h
  refine ⟨hpath, ?_⟩
  rw [resolve, if_neg hpath] at hresolve
  rw [toRemove] at h
  split at h
  · cases h
  · next habsolute =>
      obtain ⟨rest, rfl⟩ := List.head?_eq_some_iff.mp (not_not.mp habsolute)
      split at h
      · next hdepth =>
          have hcount := depth_le rest
          exact remove_loop_visits hnul List.drop_zero (by
            show _ < (components ('/' :: rest)).length
            omega) hresolve h
      · cases h

/-- What is removed has been found. -/
theorem remove_loop_found {mem : Nat → Char} {dir parent child : DirEntry} {p left : Nat}
    (h : t.removeLoop mem p dir left = some (parent, child)) :
    t.searchDirEntry parent child.name = some child := by
  induction left generalizing p dir with
  | zero =>
      rw [removeLoop] at h
      split at h
      · cases h
      · rw [Option.map_eq_some_iff] at h
        obtain ⟨e, hfound, heq⟩ := h
        cases heq
        rw [(found_entry hfound).1.1]
        exact hfound
  | succ left ih =>
      rw [removeLoop] at h
      split at h
      · cases h
      · exact ih h

theorem to_remove_found {parent child : DirEntry}
    (h : t.toRemove path beyond = some (parent, child)) :
    t.searchDirEntry parent child.name = some child := by
  rw [toRemove] at h
  split at h
  · cases h
  · split at h
    · exact remove_loop_found h
    · cases h

end Walk

/-! ## The store of the removed entry -/

section Store

variable {d d' : DirNode} {child : DirEntry} {room : Nat → Bool} {name : List Char}

/-- A child with an entry of its name in a block of the inode is stored. -/
theorem sync_from_some {blockID count b : Nat} {block : List DirEntry} (hle : blockID ≤ b)
    (hlt : b < blockID + count) (hblock : d.block b = some block)
    (htakes : ∃ e ∈ block, takes child e = true) :
    d.syncFrom n room child blockID count ≠ none := by
  induction count generalizing d blockID with
  | zero => omega
  | succ count ih =>
      rw [syncFrom]
      split
      · next hskip =>
          have hne : b ≠ blockID := by
            rintro rfl
            rw [hblock] at hskip
            cases hskip.1
          exact ih (by omega) (by omega) hblock
      · split
        · simp
        · next hsync =>
            have hne : b ≠ blockID := by
              rintro rfl
              obtain ⟨e, hmem, he⟩ := htakes
              rw [load, hblock, Option.getD_some] at hsync
              obtain ⟨i, hi, rfl⟩ := List.getElem_of_mem hmem
              have hfull := sync_block_full hsync i hi
              rw [List.getD_eq_getElem _ _ hi, he] at hfull
              cases hfull
            refine ih (by omega) (by omega) ?_
            simp only [write, Function.update_of_ne hne]
            exact hblock

/-- What has been found in the contents of an inode can be stored there. -/
theorem sync_found (room : Nat → Bool) (h : d.searchDirEntry n name = some child)
    (type : UInt16) :
    d.syncDirEntry n room { child with type := type } ≠ none := by
  rw [DirNode.searchDirEntry, search_dir] at h
  obtain ⟨before, after, heq, hne, he, -⟩ := search_split h
  have hmem : child ∈ before ++ child :: after := by simp
  rw [← heq] at hmem
  obtain ⟨block, hblock, hin⟩ := List.mem_flatten.mp hmem
  obtain ⟨b, hb, rfl⟩ := List.mem_map.mp hblock
  have hlt := List.mem_range.mp hb
  cases hthere : d.block b with
  | none =>
      rw [load, hthere, Option.getD_none] at hin
      rw [List.eq_of_mem_replicate hin] at hne
      exact absurd rfl hne
  | some block =>
      rw [load, hthere, Option.getD_some] at hin
      refine sync_from_some (Nat.zero_le b) (by omega) hthere ⟨child, hin, ?_⟩
      simp [takes, he.2]

/-- The child with the type of a removed entry is stored in its own place, or in front of it in the
place of another removed entry. -/
theorem removed_place {result : Nat} (hn : 0 < n) (hmax : n ≤ 16) (hd : d.WellFormed n)
    (h : d.searchDirEntry n name = some child)
    (hsync : d.syncDirEntry n room { child with type := typeInvalid } = some (d', result)) :
    ∃ place, Stored n 0 place { child with type := typeInvalid } d d' result ∧
      (d.slot n place).name ≠ [] ∧
      (d.slot n place = child ∧ FirstInvalid n child d ∨
        (d.slot n place).type = typeInvalid ∧ ¬FirstInvalid n child d) := by
  obtain ⟨place, hstored⟩ := sync_stored hn hmax hd hsync
  obtain ⟨hname, htype, i, hi, -, hnamed⟩ := found_place hn hmax hd h
  have hle : place ≤ i := by
    by_contra hlt
    have hpassed := hstored.passed i (Nat.zero_le i) (by omega)
    rw [hi] at hpassed
    simp [takes, htype] at hpassed
  refine ⟨place, hstored, hnamed place hle, ?_⟩
  by_cases hsame : place = i
  · refine .inl ⟨by rw [hsame, hi], fun i' j hi' hj => hstored.passed_valid ?_⟩
    have hplace := hd.distinct child.name i' i (by rw [hi']; exact ⟨rfl, htype⟩)
      (by rw [hi]; exact ⟨rfl, htype⟩) hname
    omega
  · right
    have htakes := hstored.takesPlace
    have hinvalid : (d.slot n place).type = typeInvalid := by
      by_contra hvalid
      have hnamedPlace := hnamed place hle
      have hown : IsEntry child.name (d.slot n place) := by
        refine ⟨?_, hvalid⟩
        simpa [takes, hvalid, hnamedPlace] using htakes
      exact hsame (hd.distinct child.name place i hown (by rw [hi]; exact ⟨rfl, htype⟩) hname)
    exact ⟨hinvalid, fun hfirst => hfirst i place hi (by omega) hinvalid⟩

/-- A directory with an invalid entry in the place of another one is well-formed. -/
theorem invalidated_well_formed {place result : Nat} (hd : d.WellFormed n)
    (h : Stored n 0 place { child with type := typeInvalid } d d' result) (hname : child.name ≠ [])
    (hplace : (d.slot n place).name ≠ []) : d'.WellFormed n := by
  have hentry : ∀ key i, IsEntry key (d'.slot n i) → IsEntry key (d.slot n i) := by
    intro key i hkey
    rw [h.slots] at hkey
    split at hkey
    · exact absurd rfl hkey.2
    · exact hkey
  refine ⟨?_, ?_, h.full, ?_, ?_, ?_⟩
  · rw [h.size_eq]
    exact hd.sizeLt
  · rw [h.size_eq]
    exact hd.wholeEntries
  · intro i
    rw [h.size_eq, ← hd.written i, h.slots]
    split
    · next hi =>
        rw [hi]
        exact iff_of_true hname hplace
    · exact Iff.rfl
  · intro i
    rw [h.slots]
    split
    · exact fun hempty => absurd hempty hname
    · exact hd.cleared i
  · intro key i j hi hj
    exact hd.distinct key i j (hentry key i hi) (hentry key j hj)

/-- The directory still finds what it has found, but not the entry in that place. -/
theorem invalidated_search {place result : Nat} (hn : 0 < n) (hd : d.WellFormed n)
    (hfits : d.size + n * sizeofDirEntry ≤ 2 ^ 32)
    (h : Stored n 0 place { child with type := typeInvalid } d d' result) (hname : child.name ≠ [])
    (hplace : (d.slot n place).name ≠ []) {key : List Char} (hkey : key ≠ []) (e : DirEntry) :
    d'.searchDirEntry n key = some e ↔
      d.searchDirEntry n key = some e ∧ e ≠ d.slot n place := by
  have hd' := invalidated_well_formed hd h hname hplace
  have hfits' : d'.size + n * sizeofDirEntry ≤ 2 ^ 32 := by
    rw [h.size_eq]
    exact hfits
  rw [search_some_iff hn hd' hfits' hkey, search_some_iff hn hd hfits hkey]
  constructor
  · rintro ⟨hentry, i, hi⟩
    rw [h.slots] at hi
    split at hi
    · rw [← hi] at hentry
      exact absurd rfl hentry.2
    · next hne =>
        refine ⟨⟨hentry, i, hi⟩, fun hsame => hne ?_⟩
        rw [hsame] at hentry hi
        exact hd.distinct key i place (by rw [hi]; exact hentry) hentry hkey
  · rintro ⟨⟨hentry, i, hi⟩, hne⟩
    refine ⟨hentry, i, ?_⟩
    rw [h.slots, if_neg]
    · exact hi
    · rintro rfl
      exact hne hi.symm

end Store

section Tree

variable {t : DirTree n}

/-- The name of every place of an inode fits in its buffer. -/
theorem slot_fits (t : DirTree n) (inode i : Nat) :
    ((t.dirs inode).slot n i).name.length < bofsNameLen := by
  have hplace : ∀ block : List DirEntry, (∀ e ∈ block, e.name.length < bofsNameLen) →
      (block.getD (i % n) emptyEntry).name.length < bofsNameLen := by
    intro block hblock
    rw [List.getD_eq_getElem?_getD]
    cases hentry : block[i % n]? with
    | none => exact (by decide : emptyEntry.name.length < bofsNameLen)
    | some e => exact hblock e (List.mem_of_getElem? hentry)
  rw [slot, load]
  cases hblock : (t.dirs inode).block (i / n) with
  | none =>
      refine hplace _ fun e he => ?_
      rw [List.eq_of_mem_replicate he]
      decide
  | some block => exact hplace block (t.namesFit inode _ block hblock)

/-- The disk with a directory in which the child is stored as removed. -/
theorem removed_tree {parent child : DirEntry} {node : DirNode} {place result : Nat}
    (hchild : child.name.length < bofsNameLen)
    (h : Stored n 0 place { child with type := typeInvalid } (t.dirs parent.inode) node result) :
    ∃ t' : DirTree n, t'.dirs = Function.update t.dirs parent.inode node ∧ t'.root = t.root := by
  refine ⟨⟨Function.update t.dirs parent.inode node, t.root, t.rootType, ?_⟩, rfl, rfl⟩
  intro inode blockID block hblock e he
  by_cases hinode : inode = parent.inode
  · rw [hinode, Function.update_self] at hblock
    -- the entry is at some place of the directory
    obtain ⟨k, hk, rfl⟩ := List.getElem_of_mem he
    have hslot := slot_in_block node blockID (Nat.lt_of_lt_of_eq hk (h.full blockID block hblock))
    rw [load, hblock, Option.getD_some, List.getD_eq_getElem _ _ hk, h.slots] at hslot
    rw [← hslot]
    split
    · exact hchild
    · exact slot_fits t _ _
  · rw [Function.update_of_ne hinode] at hblock
    exact t.namesFit inode blockID block hblock e he

/-- It is without the entry that was in that place. -/
theorem removed_without {t' : DirTree n} {parent child : DirEntry} {node : DirNode}
    {place result : Nat} (hn : 0 < n) (hd : (t.dirs parent.inode).WellFormed n)
    (hfits : (t.dirs parent.inode).size + n * sizeofDirEntry ≤ 2 ^ 32)
    (h : Stored n 0 place { child with type := typeInvalid } (t.dirs parent.inode) node result)
    (hname : child.name ≠ []) (hplace : ((t.dirs parent.inode).slot n place).name ≠ [])
    (hdirs : t'.dirs = Function.update t.dirs parent.inode node) :
    Without t t' parent.inode ((t.dirs parent.inode).slot n place) := by
  intro dir key e
  by_cases hkey : key = []
  · refine iff_of_false (fun hfound => (found_entry hfound).2 hkey) fun hfound => ?_
    exact (found_entry hfound.1).2 hkey
  rw [searchDirEntry, searchDirEntry, hdirs]
  by_cases hinode : dir.inode = parent.inode
  · rw [hinode, Function.update_self, invalidated_search hn hd hfits h hname hplace hkey]
    simp
  · rw [Function.update_of_ne hinode]
    simp [hinode]

/-- Without an entry that is not in use, everything resolves as before. -/
theorem Without.resolve_eq {t' : DirTree n} {inode : Nat} {gone : DirEntry} {path : List Char}
    (h : Without t t' inode gone) (hgone : gone.type = typeInvalid) (hroot : t'.root = t.root) :
    t'.resolve path = t.resolve path := by
  have hsame : ∀ dir name, t'.searchDirEntry dir name = t.searchDirEntry dir name := by
    intro dir name
    apply Option.ext
    intro e
    refine (h dir name e).trans (and_iff_left_of_imp fun hfound => ?_)
    rintro ⟨-, rfl⟩
    exact (found_entry hfound).1.2 hgone
  rw [resolve, resolve, hroot, walk_congr hsame]

/-- A directory with the dots only leads to nothing else. -/
theorem empty_leads {e : DirEntry} (hn : 0 < n) (hmax : n ≤ 16)
    (hd : (t.dirs e.inode).WellFormed n) (hempty : IsEmpty n (t.dirs e.inode)) (dir : DirEntry)
    (name : List Char) (x : DirEntry) (hinode : dir.inode = e.inode)
    (hfound : t.searchDirEntry dir name = some x) : IsDots name := by
  obtain ⟨hentry, hname⟩ := found_entry hfound
  rw [searchDirEntry, hinode] at hfound
  obtain ⟨-, i, hi⟩ := (search_some_iff hn hd (found_fits hmax hd hfound) hname x).mp hfound
  rw [← hentry.1, ← hi]
  refine hempty i ?_ ?_
  · rw [hi, hentry.1]
    exact hname
  · rw [hi]
    exact hentry.2

end Tree

/-! ## The removal law -/

variable {t : DirTree n} {path : List Char} {beyond : Nat → Char}

/-- With memory, the removal is right exactly if the entry is the right one. -/
theorem removed_iff {parent child : DirEntry} {node : DirNode} {room : Nat → Bool} {result : Nat}
    (hn : 0 < n) (hmax : n ≤ 16) (htree : IsTree t) (hnul : '\x00' ∉ path)
    (hremove : t.toRemove path beyond = some (parent, child))
    (hsync : (t.dirs parent.inode).syncDirEntry n room { child with type := typeInvalid } =
      some (node, result)) :
    (∃ t' : DirTree n, t'.dirs = Function.update t.dirs parent.inode node ∧ t'.root = t.root ∧
        ∃ dir e, RemovedDir t t' path dir e) ↔ Removes t path parent child := by
  have hfound := to_remove_found hremove
  have hname := (found_entry hfound).2
  -- where the path leads somewhere, the entry is in a directory of the tree
  have hstored : ∀ dir e, t.resolve path = some (dir, e) → e.type = typeDirectory →
      t.Reachable e ∧ t.Reachable parent ∧ parent.type = typeDirectory ∧
        t.Visits t.root (components path) parent child ∧ path ≠ ['/'] ∧
        ∃ place, Stored n 0 place { child with type := typeInvalid } (t.dirs parent.inode) node
            result ∧ ((t.dirs parent.inode).slot n place = child ∧
                FirstInvalid n child (t.dirs parent.inode) ∨
              ((t.dirs parent.inode).slot n place).type = typeInvalid ∧
                ¬FirstInvalid n child (t.dirs parent.inode)) ∧
          ∀ t' : DirTree n, t'.dirs = Function.update t.dirs parent.inode node →
            Without t t' parent.inode ((t.dirs parent.inode).slot n place) := by
    intro dir e hresolve htype
    obtain ⟨hpath, hvisits⟩ := to_remove_visits hnul hresolve hremove
    obtain ⟨hparent, hparentType, -⟩ := hvisits.reachable .root t.rootType
    have hwf := htree.wellFormed parent hparent hparentType
    obtain ⟨place, hplace, hnamed, hcases⟩ := removed_place hn hmax hwf hfound hsync
    rw [resolve, if_neg hpath] at hresolve
    obtain ⟨hdir, hdirType, hentry⟩ := (walk_visits hresolve).reachable .root t.rootType
    refine ⟨hdir.entry hdirType hentry, hparent, hparentType, hvisits, hpath, place, hplace, hcases,
      fun t' hdirs => ?_⟩
    exact removed_without hn hwf (found_fits hmax hwf hfound) hplace hname hnamed hdirs
  constructor
  · rintro ⟨t', hdirs, hroot, dir, e, hremoved⟩
    obtain ⟨-, hparent, hparentType, -, -, place, -, hcases, hwithout⟩ :=
      hstored dir e hremoved.resolved hremoved.directory
    have hwithout := hwithout t' hdirs
    -- in another place, the path leads where it has led
    obtain ⟨hplace, hfirst⟩ | ⟨hinvalid, -⟩ := hcases
    · rw [hplace] at hwithout
      refine ⟨dir, e, hremoved.resolved, hremoved.directory, hremoved.empty, hfirst, ?_⟩
      by_contra hother
      obtain ⟨hdots, hinode⟩ := not_or.mp hother
      obtain ⟨other, hreach, hsame⟩ := hremoved.kept child
        (hparent.entry hparentType hfound) hinode
      exact htree.unreachable hwithout hroot hparent hparentType hfound hdots hreach hsame
    · have hgone := hremoved.gone
      rw [hwithout.resolve_eq hinvalid hroot, hremoved.resolved] at hgone
      cases hgone
  · rintro ⟨dir, e, hresolve, htype, hempty, hfirst, hleads⟩
    obtain ⟨he, -, -, hvisits, hpath, place, hplace, hcases, hwithout⟩ :=
      hstored dir e hresolve htype
    obtain ⟨hown, -⟩ | ⟨-, hnot⟩ := hcases
    · rw [hown] at hwithout
      have hfits := slot_fits t parent.inode place
      rw [hown] at hfits
      obtain ⟨t', hdirs, hroot⟩ := removed_tree hfits hplace
      have hwithout := hwithout t' hdirs
      refine ⟨t', hdirs, hroot, dir, e, hresolve, htype, hempty, ?_, fun other hreach hne => ?_⟩
      · rw [resolve, if_neg hpath, hroot]
        exact hvisits.walk_none hwithout
      · exact htree.still_reachable hwithout hroot
          (empty_leads hn hmax (htree.wellFormed e he htype) hempty) hleads hreach hne
    · exact absurd hfirst hnot

/-- `BOFS_RemoveDir` removes the empty directory of the path, or fails without a change, if and only
if there is nothing to remove, or there is memory and the entry that its walk ends at, with no place
of a removed entry in front of it, is the one of the empty directory that the path leads to. -/
theorem remove_dir_iff (hn : 0 < n) (hmax : n ≤ 16) (t : DirTree n) (htree : IsTree t)
    (inodeUsed : Nat → Bool) (path : List Char) (hnul : '\x00' ∉ path) (beyond : Nat → Char)
    (room : Nat → Bool) (iobuf : Bool) :
    RemoveDirSafe t inodeUsed path beyond room iobuf ↔
      RemoveGuard t inodeUsed path beyond iobuf := by
  rw [RemoveDirSafe, RemoveGuard, removeDir]
  cases hremove : t.toRemove path beyond with
  | none => simp
  | some found =>
      obtain ⟨parent, child⟩ := found
      cases iobuf with
      | false =>
          simp only [if_true, Bool.false_eq_true, if_false]
          constructor
          · rintro ⟨-, hfailed⟩ _ _ ⟨⟩
            have hused := (hfailed (by decide)).2
            rw [← hused, Function.update_self]
          · intro hfree
            refine ⟨fun hzero => absurd hzero (by decide), fun _ => ⟨trivial, ?_⟩⟩
            exact Function.update_eq_self_iff.mpr (hfree parent child rfl).symm
      | true =>
          have hfound := to_remove_found hremove
          obtain ⟨⟨node, result⟩, hsync⟩ := Option.ne_none_iff_exists'.mp
            (sync_found room hfound typeInvalid)
          have hlaw := removed_iff hn hmax htree hnul hremove hsync
          simp only [Bool.true_eq_false, if_false, if_true, hsync]
          constructor
          · rintro ⟨hremoved, -⟩ _ _ ⟨⟩
            exact hlaw.mp (hremoved trivial)
          · intro hremoves
            exact ⟨fun _ => hlaw.mpr (hremoves parent child rfl), fun hfailed => absurd rfl hfailed⟩

/-! ## A missing component -/

/-- What is found in one block is one of its entries. -/
theorem one_block_found {entries : List DirEntry} {name : List Char} {e : DirEntry}
    (h : (oneBlock entries).searchDirEntry 4 name = some e) : e ∈ entries := by
  rw [DirNode.searchDirEntry, search_dir] at h
  obtain ⟨before, after, heq, hne, -, -⟩ := search_split h
  have hmem : e ∈ before ++ e :: after := by simp
  rw [← heq] at hmem
  obtain ⟨block, hblock, he⟩ := List.mem_flatten.mp hmem
  obtain ⟨blockID, -, rfl⟩ := List.mem_map.mp hblock
  have hnotEmpty : ∀ count, e ∉ List.replicate count emptyEntry := by
    intro count hin
    rw [List.eq_of_mem_replicate hin] at hne
    exact hne rfl
  simp only [load, oneBlock] at he
  split at he
  · rw [Option.getD_some, List.mem_append] at he
    exact he.resolve_right (hnotEmpty _)
  · exact absurd he (hnotEmpty _)

/-- The entries of the root directory. -/
def topEntries : List DirEntry :=
  [⟨0, typeDirectory, ['.']⟩, ⟨0, typeDirectory, ['.', '.']⟩, ⟨1, typeDirectory, ['a']⟩,
    ⟨2, typeNormal, ['b']⟩]

/-- The entries of `a`, from which two files have been removed. -/
def subEntries : List DirEntry :=
  [⟨1, typeDirectory, ['.']⟩, ⟨0, typeDirectory, ['.', '.']⟩, ⟨3, typeInvalid, ['x']⟩,
    ⟨4, typeInvalid, ['y']⟩]

/-- A disk with an empty directory and a file. -/
def smallTree : DirTree 4 where
  dirs := fun inode =>
    if inode = 0 then oneBlock topEntries
    else if inode = 1 then oneBlock subEntries else oneBlock []
  root := ⟨0, typeDirectory, ['/']⟩
  rootType := rfl
  namesFit := by
    intro inode
    split
    · exact one_block_fits (by decide)
    · split
      · exact one_block_fits (by decide)
      · exact one_block_fits (by decide)

theorem small_tree_found {dir e : DirEntry} {name : List Char}
    (h : smallTree.searchDirEntry dir name = some e) : IsEntry name e ∧
      (dir.inode = 0 ∧ e ∈ topEntries ∨ dir.inode = 1 ∧ e ∈ subEntries) := by
  refine ⟨(found_entry h).1, ?_⟩
  simp only [searchDirEntry, smallTree] at h
  split at h
  · next hzero => exact .inl ⟨hzero, one_block_found h⟩
  · split at h
    · next hone => exact .inr ⟨hone, one_block_found h⟩
    · exact absurd (one_block_found h) List.not_mem_nil

/-- An entry besides the dots is `a` or `b`. -/
theorem small_tree_named {dir e : DirEntry} {name : List Char} (hname : ¬IsDots name)
    (h : smallTree.searchDirEntry dir name = some e) : dir.inode = 0 ∧ e.name = name ∧
      (e = ⟨1, typeDirectory, ['a']⟩ ∨ e = ⟨2, typeNormal, ['b']⟩) := by
  obtain ⟨⟨rfl, htype⟩, ⟨hzero, hmem⟩ | ⟨-, hmem⟩⟩ := small_tree_found h
  · refine ⟨hzero, rfl, ?_⟩
    simp only [topEntries, List.mem_cons, List.not_mem_nil, or_false] at hmem
    obtain rfl | rfl | hmem := hmem
    · exact absurd (.inl rfl) hname
    · exact absurd (.inr rfl) hname
    · exact hmem
  · simp only [subEntries, List.mem_cons, List.not_mem_nil, or_false] at hmem
    obtain rfl | rfl | rfl | rfl := hmem
    · exact absurd (.inl rfl) hname
    · exact absurd (.inr rfl) hname
    · exact absurd rfl htype
    · exact absurd rfl htype

/-- The dots lead to the directory, and to the root. -/
theorem small_tree_dots {dir e : DirEntry} {name : List Char} (hname : IsDots name)
    (h : smallTree.searchDirEntry dir name = some e) : e.type = typeDirectory ∧
      e.inode = if name = ['.'] then dir.inode else 0 := by
  obtain ⟨⟨rfl, -⟩, ⟨hinode, hmem⟩ | ⟨hinode, hmem⟩⟩ := small_tree_found h
  · simp only [topEntries, List.mem_cons, List.not_mem_nil, or_false] at hmem
    obtain rfl | rfl | rfl | rfl := hmem
    · exact ⟨rfl, hinode.symm⟩
    · exact ⟨rfl, rfl⟩
    · exact absurd hname (by decide)
    · exact absurd hname (by decide)
  · simp only [subEntries, List.mem_cons, List.not_mem_nil, or_false] at hmem
    obtain rfl | rfl | rfl | rfl := hmem
    · exact ⟨rfl, hinode.symm⟩
    · exact ⟨rfl, rfl⟩
    · exact absurd hname (by decide)
    · exact absurd hname (by decide)

theorem small_tree_dirs {dir : DirEntry} (h : smallTree.Reachable dir)
    (htype : dir.type = typeDirectory) : dir.inode = 0 ∨ dir.inode = 1 := by
  induction h with
  | root => exact .inl rfl
  | @entry dir e name _ hdirType hfound ih =>
      by_cases hname : IsDots name
      · have hinode := (small_tree_dots hname hfound).2
        split at hinode
        · rw [hinode]
          exact ih hdirType
        · exact .inl hinode
      · obtain ⟨-, -, rfl | rfl⟩ := small_tree_named hname hfound
        · exact .inr rfl
        · exact absurd htype (by decide)

theorem small_tree_well_formed {inode : Nat} (h : inode = 0 ∨ inode = 1) :
    (smallTree.dirs inode).WellFormed 4 := by
  obtain rfl | rfl := h
  · exact one_block topEntries (by decide) (by decide) rfl rfl (fun blockID h => if_neg h) rfl
      (by decide) (by decide)
  · exact one_block subEntries (by decide) (by decide) rfl rfl (fun blockID h => if_neg h) rfl
      (by decide) (by decide)

theorem small_tree_is_tree : IsTree smallTree := by
  refine ⟨⟨?_, ?_, ?_⟩, ?_, ?_, ?_⟩
  · intro dir e _ _ hfound
    exact (small_tree_dots (.inl rfl) hfound).symm
  · intro dir name e e' _ _ hname hfound _ hparent
    obtain ⟨htype, hinode⟩ := small_tree_dots (.inr rfl) hparent
    rw [(small_tree_named hname hfound).1]
    exact ⟨hinode, htype⟩
  · intro e hfound
    exact (small_tree_dots (.inr rfl) hfound).symm
  · intro dir hdir htype
    exact small_tree_well_formed (small_tree_dirs hdir htype)
  · intro dir name e _ _ hname hfound
    obtain ⟨-, -, rfl | rfl⟩ := small_tree_named hname hfound
    · decide
    · decide
  · intro dir dir' name name' e e' _ _ _ _ hname hname' hfound hfound' hinode
    obtain ⟨hdir, rfl, he⟩ := small_tree_named hname hfound
    obtain ⟨hdir', rfl, he'⟩ := small_tree_named hname' hfound'
    refine ⟨hdir.trans hdir'.symm, ?_⟩
    obtain rfl | rfl := he
    · obtain rfl | rfl := he'
      · rfl
      · exact absurd hinode (by decide)
    · obtain rfl | rfl := he'
      · exact absurd hinode (by decide)
      · rfl

/-- Four places of a directory are in use. -/
theorem small_tree_slot {inode i : Nat} (hinode : inode = 0 ∨ inode = 1)
    (h : ((smallTree.dirs inode).slot 4 i).name ≠ []) : i < 4 := by
  have hsize := ((small_tree_well_formed hinode).written i).mp h
  obtain rfl | rfl := hinode
  · exact Nat.lt_of_mul_lt_mul_right hsize
  · exact Nat.lt_of_mul_lt_mul_right hsize

/-- The empty directory is removed. -/
theorem empty_dir_removed :
    RemoveDirSafe smallTree (fun _ => true) ['/', 'a'] (fun _ => '\x00') (fun _ => true) true := by
  refine (remove_dir_iff (by decide) (by decide) smallTree small_tree_is_tree _ ['/', 'a']
    (by decide) _ _ _).mpr ?_
  intro parent child hremove
  have hfound : smallTree.toRemove ['/', 'a'] (fun _ => '\x00') =
      some (⟨0, typeDirectory, ['/']⟩, ⟨1, typeDirectory, ['a']⟩) := by decide +kernel
  rw [hfound] at hremove
  cases hremove
  rw [if_pos rfl]
  refine ⟨⟨0, typeDirectory, ['/']⟩, ⟨1, typeDirectory, ['a']⟩, by decide +kernel, rfl, ?_, ?_,
    .inr rfl⟩
  · intro i hnamed htype
    have hall : ∀ i < 4, ((oneBlock subEntries).slot 4 i).type ≠ typeInvalid →
        IsDots ((oneBlock subEntries).slot 4 i).name := by decide
    exact hall i (small_tree_slot (.inr rfl) hnamed) htype
  · intro i j hi hj
    have hall : ∀ i < 4, ∀ j < i, ((oneBlock topEntries).slot 4 j).type ≠ typeInvalid := by decide
    exact hall i (small_tree_slot (.inl rfl) (by rw [hi]; decide)) j hj

/-- Behind a name that is missing, the directory of the next name is removed. -/
theorem missing_dir_passed : ¬∀ (n : Nat) (t : DirTree n) (inodeUsed : Nat → Bool)
    (path : List Char) (beyond : Nat → Char) (room : Nat → Bool) (iobuf : Bool), 0 < n → n ≤ 16 →
      IsTree t → '\x00' ∉ path → RemoveDirSafe t inodeUsed path beyond room iobuf := by
  intro h
  have hsafe := h 4 smallTree (fun _ => true) ['/', 'c', '/', 'a'] (fun _ => '\x00')
    (fun _ => true) true (by decide) (by decide) small_tree_is_tree (by decide)
  obtain ⟨t', -, -, dir, e, hremoved⟩ := hsafe.1 (by decide +kernel)
  have hnone : smallTree.resolve ['/', 'c', '/', 'a'] = none := by decide +kernel
  rw [hremoved.resolved] at hnone
  cases hnone

end DirTree

end XBook.Paths
