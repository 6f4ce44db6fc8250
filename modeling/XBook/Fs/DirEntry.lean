import XBook.Fs.FifoInode

/-!
# The entries of a directory

The scans of `fs/bofs/dir_entry.c` over the blocks of a directory, and `BOFS_Remove` of
`fs/bofs/file.c` once the path has led to the directory. A block has `direntryNrInSector` entries.
The scans are shown to be scans of the entries in a row, and the removal law is settled on these.
-/

namespace XBook.Dirs

open Fifos

/-- `BOFS_FILE_TYPE_DIRECTORY`. -/
abbrev typeDirectory : UInt16 := 0x02

/-- The test of the scans: the entry has the name and is in use. -/
abbrev IsEntry (name : List Char) (e : DirEntry) : Prop := e.name = name ∧ e.type ≠ typeInvalid

/-- `BOFS_SearchDirEntry` in one block, with the result of the call if the block ends it. -/
def searchBlock (name : List Char) : List DirEntry → Option (Option DirEntry)
  | [] => none
  | e :: rest =>
      if e.name ≠ [] then
        if IsEntry name e then some (some e) else searchBlock name rest
      else some none

/-- `BOFS_SearchDirEntry`. -/
def searchDir (name : List Char) : List (List DirEntry) → Option DirEntry
  | [] => none
  | block :: rest =>
      match searchBlock name block with
      | some result => result
      | none => searchDir name rest

/-- `BOFS_LoadDirEntry`. An entry without a name does not end it. -/
def loadDir (name : List Char) : List (List DirEntry) → Option DirEntry
  | [] => none
  | block :: rest =>
      match block.find? fun e => IsEntry name e with
      | some e => some e
      | none => loadDir name rest

/-- `BOFS_SyncDirEntry` in one block, with its result: 2 for the place of an invalid entry. -/
def syncBlock (child : DirEntry) : List DirEntry → Option (List DirEntry × Nat)
  | [] => none
  | e :: rest =>
      if IsEntry child.name e then some (child :: rest, 1)
      else if e.type = typeInvalid then some (child :: rest, 2)
      else if e.name ≠ [] ∧ e.inode = child.inode ∧ child.type ≠ typeInvalid then
        some (child :: rest, 1)
      else if e.name = [] then some (child :: rest, 1)
      else (syncBlock child rest).map fun (rest, result) => (e :: rest, result)

/-- `BOFS_SyncDirEntry`, in the blocks of the directory and one more. -/
def syncDir (child : DirEntry) : List (List DirEntry) → Option (List (List DirEntry) × Nat)
  | [] => none
  | block :: rest =>
      match syncBlock child block with
      | some (block, result) => some (block :: rest, result)
      | none => (syncDir child rest).map fun (rest, result) => (block :: rest, result)

/-- The blocks of a directory, and the inode bitmap. -/
structure DirState where
  blocks : List (List DirEntry)
  inodeUsed : Nat → Bool

/-- `BOFS_Remove` and its result, with the entries of the files in `BOFS_GlobalFdTable` and what is
in the block behind the directory. The data of the inode are released elsewhere. -/
def remove (s : DirState) (openFiles : List DirEntry) (name : List Char) (next : List DirEntry) :
    DirState × Int :=
  match searchDir name s.blocks with
  | none => (s, -1)
  | some e =>
      if e.type = typeDirectory then (s, -1)
      else if e ∈ openFiles then (s, -1)
      else
        -- `BOFS_ReleaseDirEntry`
        let s := { s with inodeUsed := Function.update s.inodeUsed e.inode false }
        match syncDir { e with type := typeInvalid } (s.blocks ++ [next]) with
        | none => (s, -1)
        | some (blocks, _) => ({ s with blocks := blocks.take s.blocks.length }, 0)

/-- A well-formed directory: full blocks, one entry in use for a name, and the places that have
never been used behind the others. -/
structure Directory (direntryNrInSector : Nat) where
  blocks : List (List DirEntry)
  full : ∀ block ∈ blocks, block.length = direntryNrInSector
  distinct : blocks.flatten.Pairwise fun a b =>
    a.name ≠ [] → a.type ≠ typeInvalid → b.type ≠ typeInvalid → a.name ≠ b.name
  unusedLast : blocks.flatten.Pairwise fun a b => a.name = [] → b.name = []

/-! ## The scans in a row -/

theorem search_block (name : List Char) (block rest : List DirEntry) :
    searchDirEntry name (block ++ rest) =
      match searchBlock name block with
      | some result => result
      | none => searchDirEntry name rest := by
  induction block with
  | nil => rfl
  | cons e block ih =>
      simp only [List.cons_append, searchDirEntry, searchBlock]
      by_cases hname : e.name ≠ []
      · rw [if_pos hname, if_pos hname]
        by_cases he : IsEntry name e
        · rw [if_pos he, if_pos he]
        · rw [if_neg he, if_neg he]
          exact ih
      · rw [if_neg hname, if_neg hname]

theorem search_dir (name : List Char) (blocks : List (List DirEntry)) :
    searchDir name blocks = searchDirEntry name blocks.flatten := by
  induction blocks with
  | nil => rfl
  | cons block blocks ih =>
      rw [List.flatten_cons, search_block, ← ih]
      rfl

theorem load_dir (name : List Char) (blocks : List (List DirEntry)) :
    loadDir name blocks = blocks.flatten.find? fun e => IsEntry name e := by
  induction blocks with
  | nil => rfl
  | cons block blocks ih =>
      rw [List.flatten_cons, List.find?_append, ← ih]
      show (match block.find? fun e => IsEntry name e with
        | some e => some e
        | none => loadDir name blocks) = _
      cases block.find? fun e => decide (IsEntry name e) with
      | none => rfl
      | some e => rfl

/-- The child is stored at the first entry that it may take the place of. -/
theorem sync_block_here {child e : DirEntry} (before after : List DirEntry)
    (hbefore : ∀ x ∈ before, takes child x = false) (he : takes child e = true) :
    syncBlock child (before ++ e :: after) =
      some (before ++ child :: after, if e.type = typeInvalid then 2 else 1) := by
  induction before with
  | nil =>
      simp only [List.nil_append, syncBlock]
      simp only [takes, Bool.or_eq_true, Bool.and_eq_true, decide_eq_true_eq] at he
      grind
  | cons x before ih =>
      have hx := hbefore x List.mem_cons_self
      simp only [takes, Bool.or_eq_false_iff, Bool.and_eq_false_iff, decide_eq_false_iff_not] at hx
      obtain ⟨⟨⟨hsame, hinvalid⟩, hrename⟩, hempty⟩ := hx
      simp only [List.cons_append, syncBlock]
      rw [if_neg (by grind), if_neg hinvalid, if_neg (by grind), if_neg hempty,
        ih fun y hy => hbefore y (List.mem_cons_of_mem x hy)]
      rfl

/-- A block where the child finds no place. -/
theorem sync_block_none {child : DirEntry} {block : List DirEntry}
    (h : ∀ x ∈ block, takes child x = false) : syncBlock child block = none := by
  induction block with
  | nil => rfl
  | cons x block ih =>
      have hx := h x List.mem_cons_self
      simp only [takes, Bool.or_eq_false_iff, Bool.and_eq_false_iff, decide_eq_false_iff_not] at hx
      obtain ⟨⟨⟨hsame, hinvalid⟩, hrename⟩, hempty⟩ := hx
      simp only [syncBlock]
      rw [if_neg (by grind), if_neg hinvalid, if_neg (by grind), if_neg hempty,
        ih fun y hy => h y (List.mem_cons_of_mem x hy)]
      rfl

/-- The blocks keep their lengths, and what is behind the directory stays. -/
theorem sync_dir {child e : DirEntry} (blocks : List (List DirEntry)) (next : List DirEntry)
    (before after : List DirEntry) (heq : blocks.flatten = before ++ e :: after)
    (hbefore : ∀ x ∈ before, takes child x = false) (he : takes child e = true) :
    ∃ blocks', syncDir child (blocks ++ [next]) =
        some (blocks' ++ [next], if e.type = typeInvalid then 2 else 1) ∧
      blocks'.flatten = before ++ child :: after ∧
      blocks'.map List.length = blocks.map List.length := by
  induction blocks generalizing before with
  | nil => simp at heq
  | cons block blocks ih =>
      rw [List.flatten_cons, List.append_eq_append_iff] at heq
      obtain ⟨behind, hbehind, hrest⟩ | ⟨behind, hbehind, hrest⟩ := heq
      · -- The place is in a later block.
        subst hbehind
        obtain ⟨blocks', hsync, hflat, hlen⟩ := ih behind hrest
          fun x hx => hbefore x (List.mem_append_right block hx)
        refine ⟨block :: blocks', ?_, ?_, ?_⟩
        · simp only [List.cons_append, syncDir]
          rw [sync_block_none fun x hx => hbefore x (List.mem_append_left behind hx), hsync]
          rfl
        · rw [List.flatten_cons, hflat, List.append_assoc]
        · rw [List.map_cons, hlen, List.map_cons]
      · cases behind with
        | nil =>
            -- The block ends where the place begins.
            rw [List.append_nil] at hbehind
            subst hbehind
            obtain ⟨blocks', hsync, hflat, hlen⟩ := ih [] hrest.symm (by simp)
            refine ⟨block :: blocks', ?_, ?_, ?_⟩
            · simp only [List.cons_append, syncDir]
              rw [sync_block_none hbefore, hsync]
              rfl
            · rw [List.flatten_cons, hflat, List.nil_append]
            · rw [List.map_cons, hlen, List.map_cons]
        | cons x behind =>
            rw [List.cons_append, List.cons.injEq] at hrest
            obtain ⟨rfl, hafter⟩ := hrest
            subst hbehind
            refine ⟨(before ++ child :: behind) :: blocks, ?_, ?_, ?_⟩
            · simp only [List.cons_append, syncDir]
              rw [sync_block_here before behind hbefore he]
            · rw [List.flatten_cons, hafter]
              simp
            · simp

/-! ## What a stored entry changes -/

theorem search_skip {name : List Char} {before rest : List DirEntry}
    (h : ∀ x ∈ before, x.name ≠ [] ∧ ¬IsEntry name x) :
    searchDirEntry name (before ++ rest) = searchDirEntry name rest := by
  induction before with
  | nil => rfl
  | cons x before ih =>
      obtain ⟨hname, hx⟩ := h x List.mem_cons_self
      simp only [List.cons_append, searchDirEntry]
      rw [if_pos hname, if_neg hx]
      exact ih fun y hy => h y (List.mem_cons_of_mem x hy)

theorem search_none {name : List Char} {entries : List DirEntry}
    (h : ∀ x ∈ entries, ¬IsEntry name x) : searchDirEntry name entries = none := by
  induction entries with
  | nil => rfl
  | cons x entries ih =>
      simp only [searchDirEntry]
      rw [if_neg (h x List.mem_cons_self), ih fun y hy => h y (List.mem_cons_of_mem x hy)]
      exact ite_self _

/-- A search that finds an entry has passed over the entries before it. -/
theorem search_split {name : List Char} {entries : List DirEntry} {e : DirEntry}
    (h : searchDirEntry name entries = some e) :
    ∃ before after, entries = before ++ e :: after ∧ e.name ≠ [] ∧ IsEntry name e ∧
      ∀ x ∈ before, x.name ≠ [] ∧ ¬IsEntry name x := by
  induction entries with
  | nil => cases h
  | cons x entries ih =>
      simp only [searchDirEntry] at h
      split at h
      · rename_i hname
        split at h
        · rename_i hx
          cases h
          exact ⟨[], entries, rfl, hname, hx, by simp⟩
        · rename_i hx
          obtain ⟨before, after, rfl, hne, he, hbefore⟩ := ih h
          refine ⟨x :: before, after, rfl, hne, he, ?_⟩
          intro y hy
          obtain rfl | hy := List.mem_cons.mp hy
          · exact ⟨hname, hx⟩
          · exact hbefore y hy
      · cases h

/-- An entry that a search passes over may be replaced by another one. -/
theorem search_replace {name : List Char} {e child : DirEntry} (before after : List DirEntry)
    (hname : e.name ≠ []) (he : ¬IsEntry name e) (hchild : child.name ≠ [])
    (hother : ¬IsEntry name child) :
    searchDirEntry name (before ++ child :: after) =
      searchDirEntry name (before ++ e :: after) := by
  induction before with
  | nil =>
      simp only [List.nil_append, searchDirEntry]
      rw [if_pos hchild, if_neg hother, if_pos hname, if_neg he]
  | cons x before ih =>
      simp only [List.cons_append, searchDirEntry]
      rw [ih]

theorem find_replace {name : List Char} {e child : DirEntry} (before after : List DirEntry)
    (he : ¬IsEntry name e) (hother : ¬IsEntry name child) :
    (before ++ child :: after).find? (fun x => IsEntry name x) =
      (before ++ e :: after).find? fun x => IsEntry name x := by
  rw [List.find?_append, List.find?_append, List.find?_cons_of_neg (by simpa using hother),
    List.find?_cons_of_neg (by simpa using he)]

/-! ## The removal law -/

/-- The entry that a name resolves to, in both scans. -/
def Resolves (name : List Char) (s s' : DirState) : Prop :=
  searchDir name s'.blocks = searchDir name s.blocks ∧
    loadDir name s'.blocks = loadDir name s.blocks

/-- The name does not resolve any more, and the others resolve as before. -/
structure Removed (name : List Char) (s s' : DirState) : Prop where
  gone : searchDir name s'.blocks = none ∧ loadDir name s'.blocks = none
  others : ∀ other, other ≠ name → Resolves other s s'

/-- No place of an earlier removal is before the entry of the name. -/
def NoInvalidBefore (name : List Char) (s : DirState) : Prop :=
  ∀ x ∈ s.blocks.flatten.takeWhile (fun e => ¬IsEntry name e), x.type ≠ typeInvalid

/-- A call that succeeds has found the entry and stored it as an invalid one. -/
theorem remove_spec {s s' : DirState} {openFiles next : List DirEntry} {name : List Char}
    (h : remove s openFiles name next = (s', 0)) :
    ∃ e, searchDir name s.blocks = some e ∧
      ∃ blocks result, syncDir { e with type := typeInvalid } (s.blocks ++ [next]) =
          some (blocks, result) ∧ s'.blocks = blocks.take s.blocks.length := by
  unfold remove at h
  split at h
  · cases h
  · rename_i e he
    refine ⟨e, he, ?_⟩
    split at h
    · cases h
    · split at h
      · cases h
      · dsimp only at h
        split at h
        · cases h
        · rename_i blocks result hsync
          cases h
          exact ⟨blocks, result, hsync, rfl⟩

/-- Of the entries behind the one of the name none has the name. -/
theorem not_entry_behind {entries before after : List DirEntry} {e : DirEntry} {name : List Char}
    (hdistinct : entries.Pairwise fun a b =>
      a.name ≠ [] → a.type ≠ typeInvalid → b.type ≠ typeInvalid → a.name ≠ b.name)
    (heq : entries = before ++ e :: after) (hne : e.name ≠ []) (he : IsEntry name e) :
    ∀ x ∈ after, ¬IsEntry name x := by
  subst heq
  intro x hx hentry
  have hpair := (List.pairwise_cons.mp (List.pairwise_append.mp hdistinct).2.1).1 x hx
  exact hpair hne he.2 hentry.2 (he.1.trans hentry.1.symm)

/-- The removed entry is stored at the first place that has the name or an earlier removal. -/
theorem remove_stored {s s' : DirState} {openFiles next : List DirEntry} {name : List Char}
    {e x : DirEntry} {front rest : List DirEntry}
    (h : remove s openFiles name next = (s', 0)) (he : searchDir name s.blocks = some e)
    (hname : e.name = name) (heq : s.blocks.flatten = front ++ x :: rest)
    (hfront : ∀ y ∈ front, y.name ≠ [] ∧ ¬IsEntry name y ∧ y.type ≠ typeInvalid)
    (hx : IsEntry name x ∨ x.type = typeInvalid) :
    s'.blocks.flatten = front ++ { e with type := typeInvalid } :: rest ∧
      s'.blocks.map List.length = s.blocks.map List.length := by
  obtain ⟨e', he', blocks, result, hsync, hblocks⟩ := remove_spec h
  rw [he] at he'
  cases he'
  have hskip : ∀ y ∈ front, takes { e with type := typeInvalid } y = false := by
    intro y hy
    obtain ⟨hne, hentry, hvalid⟩ := hfront y hy
    have hother : y.name ≠ e.name := fun hsame => hentry ⟨hsame.trans hname, hvalid⟩
    simp [takes, hother, hvalid, hne]
  have htakes : takes { e with type := typeInvalid } x = true := by
    obtain hx | hx := hx
    · simp [takes, hx.1, hx.2, hname]
    · simp [takes, hx]
  obtain ⟨blocks', hsync', hflat, hlen⟩ := sync_dir s.blocks next front rest heq hskip htakes
  rw [hsync] at hsync'
  cases hsync'
  have hcount : blocks'.length = s.blocks.length := by
    simpa using congrArg List.length hlen
  have hkept : s'.blocks = blocks' := by
    rw [hblocks, ← hcount, List.take_left]
  rw [hkept]
  exact ⟨hflat, hlen⟩

/-- The first entry of a kind, with the entries before it. -/
theorem first_invalid {entries : List DirEntry} (h : ∃ x ∈ entries, x.type = typeInvalid) :
    ∃ front x rest, entries = front ++ x :: rest ∧ x.type = typeInvalid ∧
      ∀ y ∈ front, y.type ≠ typeInvalid := by
  have hsome : (entries.find? fun x => x.type = typeInvalid).isSome := by
    rw [List.find?_isSome]
    simpa using h
  obtain ⟨x, hx⟩ := Option.isSome_iff_exists.mp hsome
  obtain ⟨htype, front, rest, heq, hfront⟩ := List.find?_eq_some_iff_append.mp hx
  exact ⟨front, x, rest, heq, by simpa using htype, by simpa using hfront⟩

/-- A place of an earlier removal is before the entry: the name still resolves. -/
theorem remove_leaves {s s' : DirState} {openFiles next : List DirEntry} {name : List Char}
    {e x : DirEntry} {front between after : List DirEntry}
    (h : remove s openFiles name next = (s', 0)) (he : searchDir name s.blocks = some e)
    (hentry : IsEntry name e)
    (heq : s.blocks.flatten = front ++ x :: (between ++ e :: after))
    (hfront : ∀ y ∈ front, y.name ≠ [] ∧ ¬IsEntry name y ∧ y.type ≠ typeInvalid)
    (hx : x.type = typeInvalid) (hname : x.name ≠ []) (hne : e.name ≠ []) :
    searchDir name s'.blocks = some e := by
  have hflat := (remove_stored h he hentry.1 heq hfront (.inr hx)).1
  have hold : ¬IsEntry name x := fun hsame => hsame.2 hx
  have hnew : ¬IsEntry name { e with type := typeInvalid } := fun hsame => hsame.2 rfl
  calc searchDir name s'.blocks
      = searchDirEntry name
          (front ++ { e with type := typeInvalid } :: (between ++ e :: after)) := by
        rw [search_dir, hflat]
    _ = searchDirEntry name (front ++ x :: (between ++ e :: after)) :=
        search_replace front _ hname hold hne hnew
    _ = some e := by rw [← heq, ← search_dir, he]

/-- No place of an earlier removal is before the entry: the law holds. -/
theorem remove_removes {s s' : DirState} {openFiles next : List DirEntry} {name : List Char}
    {e : DirEntry} {before after : List DirEntry}
    (h : remove s openFiles name next = (s', 0)) (he : searchDir name s.blocks = some e)
    (hne : e.name ≠ []) (hentry : IsEntry name e)
    (heq : s.blocks.flatten = before ++ e :: after)
    (hbefore : ∀ y ∈ before, y.name ≠ [] ∧ ¬IsEntry name y ∧ y.type ≠ typeInvalid)
    (hafter : ∀ y ∈ after, ¬IsEntry name y) : Removed name s s' := by
  have hflat := (remove_stored h he hentry.1 heq hbefore (.inl hentry)).1
  -- The name is that of no entry in use.
  have hnone : ∀ y ∈ s'.blocks.flatten, ¬IsEntry name y := by
    rw [hflat]
    intro y hy
    simp only [List.mem_append, List.mem_cons] at hy
    rcases hy with hy | rfl | hy
    · exact (hbefore y hy).2.1
    · exact fun hsame => hsame.2 rfl
    · exact hafter y hy
  constructor
  case gone =>
    rw [search_dir, load_dir]
    exact ⟨search_none hnone, List.find?_eq_none.mpr (by simpa using hnone)⟩
  case others =>
    intro other hother
    have hskip : ¬IsEntry other e := fun hsame => hother (hsame.1.symm.trans hentry.1)
    have hskip' : ¬IsEntry other { e with type := typeInvalid } := fun hsame => hsame.2 rfl
    constructor
    · rw [search_dir, search_dir, hflat, heq]
      exact search_replace before after hne hskip hne hskip'
    · rw [load_dir, load_dir, hflat, heq]
      exact find_replace before after hskip hskip'

/-- After the removal of a file the name does not resolve any more, and the other names resolve as
before, if and only if no place of an earlier removal is before the entry of the file. -/
theorem removal_law_iff {direntryNrInSector : Nat} (d : Directory direntryNrInSector)
    (inodeUsed : Nat → Bool) (openFiles next : List DirEntry) (name : List Char) (s' : DirState)
    (h : remove ⟨d.blocks, inodeUsed⟩ openFiles name next = (s', 0)) :
    Removed name ⟨d.blocks, inodeUsed⟩ s' ↔ NoInvalidBefore name ⟨d.blocks, inodeUsed⟩ := by
  obtain ⟨e, he, -⟩ := remove_spec h
  have hsearch := he
  rw [search_dir] at hsearch
  obtain ⟨before, after, heq, hne, hentry, hbefore⟩ := search_split hsearch
  replace heq : d.blocks.flatten = before ++ e :: after := heq
  have htake : d.blocks.flatten.takeWhile (fun e => ¬IsEntry name e) = before := by
    rw [heq, List.takeWhile_append_of_pos fun y hy => decide_eq_true (hbefore y hy).2,
      List.takeWhile_cons_of_neg (by simpa using hentry), List.append_nil]
  have hafter := not_entry_behind d.distinct heq hne hentry
  constructor
  · intro hremoved x hx htype
    rw [htake] at hx
    obtain ⟨front, x, between, hsplit, htype, hfront⟩ := first_invalid ⟨x, hx, htype⟩
    subst hsplit
    have hleft : searchDir name s'.blocks = some e :=
      remove_leaves h he hentry (by simpa using heq)
        (fun y hy => ⟨(hbefore y (List.mem_append_left _ hy)).1,
          (hbefore y (List.mem_append_left _ hy)).2, hfront y hy⟩)
        htype (hbefore x (by simp)).1 hne
    rw [hremoved.gone.1] at hleft
    cases hleft
  · intro hvalid
    exact remove_removes h he hne hentry heq
      (fun y hy => ⟨(hbefore y hy).1, (hbefore y hy).2, hvalid y (by rw [htake]; exact hy)⟩) hafter

/-- Two files in a directory, of which the first one may have been removed. -/
def twoFiles (type : UInt16) : Directory 2 where
  blocks := [[⟨4, type, ['a']⟩, ⟨5, typeNormal, ['b']⟩]]
  full := by simp
  distinct := by simp
  unusedLast := by simp

/-- With `a` removed, the removal of `b` is stored in the place of `a`, and `b` still resolves. -/
theorem removal_law_fails :
    ∃ s', remove ⟨(twoFiles typeInvalid).blocks, fun _ => true⟩ [] ['b'] [] = (s', 0) ∧
      ¬Removed ['b'] ⟨(twoFiles typeInvalid).blocks, fun _ => true⟩ s' := by
  refine ⟨(remove ⟨(twoFiles typeInvalid).blocks, fun _ => true⟩ [] ['b'] []).1,
    Prod.ext rfl (by decide), ?_⟩
  intro hremoved
  exact absurd hremoved.gone.1 (by decide)

theorem removal_law_iff_two_files :
    Removed ['b'] ⟨(twoFiles typeNormal).blocks, fun _ => true⟩
        (remove ⟨(twoFiles typeNormal).blocks, fun _ => true⟩ [] ['b'] []).1 ↔
      NoInvalidBefore ['b'] ⟨(twoFiles typeNormal).blocks, fun _ => true⟩ :=
  removal_law_iff (twoFiles typeNormal) (fun _ => true) [] [] ['b'] _ (Prod.ext rfl (by decide))

end XBook.Dirs
