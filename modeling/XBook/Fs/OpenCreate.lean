import XBook.Fs.DirCreate
import XBook.Fs.FileCalls
import XBook.Fs.RemoveDir

/-!
# Opening with `O_CREAT`

`BOFS_Open` of `fs/bofs/file.c` with `BOFS_PathToName`, up to the call that opens or creates the
file. It creates where the search of the path has stopped. `open_create_iff` says for which paths
and disks this is the file of the path, or nothing.
-/

namespace XBook.Paths

open Fifos Dirs Dirs.DirNode
open Calls (oRdonly oWronly oRdwr typeBlock typeChar)

/-- `BOFS_O_CREAT`. -/
abbrev oCreat : UInt32 := 0x08

variable {n : Nat}

namespace DirTree

/-- The loop of `BOFS_PathToName` at a slash of the path. The terminator behind a name that fills
its buffer is left out. -/
def pathToNameLoop (mem : Nat → Char) (p left : Nat) : Option (List Char) :=
  let name := copyName mem (p + 1) bofsNameLen
  if cString name.1 = [] then none
  else
    match left with
    | 0 => some (cString name.1)
    | left + 1 => pathToNameLoop mem name.2 left

/-- `BOFS_PathToName`. -/
def pathToName (path : List Char) (beyond : Nat → Char) : Option (List Char) :=
  if path.head? ≠ some '/' then none
  else if 0 < depth path then pathToNameLoop (charAt path beyond) 0 ((depth path).toNat - 1)
  else none

/-- What `BOFS_Open` goes on with. -/
inductive OpenStep where
  | fail
  | openFile
  | createFile (parentDir : DirEntry) (name : List Char)

/-- Whether a file with the type is opened. -/
abbrev Opens (type : UInt16) : Prop :=
  type = typeNormal ∨ type = typeFifo ∨ type = typeBlock ∨ type = typeChar

/-- Whether the flags ask for an access. -/
abbrev Accesses (flags : UInt32) : Prop :=
  flags &&& oRdonly ≠ 0 ∨ flags &&& oWronly ≠ 0 ∨ flags &&& oRdwr ≠ 0

/-- `BOFS_Open` behind the search. -/
def openFound (flags : UInt32) (name : List Char) (run : Search) : OpenStep :=
  match run.result, run.childDir with
  | 0, some childDir =>
      if childDir.type = typeDirectory then .fail
      else if flags &&& oCreat ≠ 0 then
        if childDir.type = typeNormal then if Accesses flags then .openFile else .fail
        else .createFile run.parentDir name
      else if Accesses flags ∧ Opens childDir.type then .openFile else .fail
  | _, _ => if flags &&& oCreat = 0 then .fail else .createFile run.parentDir name

/-- `BOFS_Open`. -/
def openStep (t : DirTree n) (path : List Char) (flags : UInt32) (beyond : Nat → Char) : OpenStep :=
  match pathToName path beyond with
  | none => .fail
  | some name => openFound flags name (t.searchDir path beyond)

end DirTree

open DirTree

/-- `BOFS_Open`, with the descriptor that `BOFS_OpenFile` or `BOFS_CreateFile` gets, or -1. -/
def Volume.bofsOpen (v : Volume n) (path : List Char) (flags : UInt32) (beyond : Nat → Char)
    (room : Nat → Bool) (fd : Int) : DirStore × Int :=
  match v.tree.openStep path flags beyond with
  | .fail => (v.store, -1)
  | .openFile => (v.store, fd)
  | .createFile parentDir name => v.store.createFile n parentDir name room fd

/-- The call creates the file of the path if its directory is there, fails without a change if it
is not, and changes nothing where the path leads to something. -/
structure OpenCreates (v : Volume n) (path : List Char) (s' : DirStore) (result : Int) : Prop where
  created : ∀ dir, v.tree.Creatable path dir →
    ∃ dir' inodeID, CreatedAt v s' path typeNormal dir' inodeID
  missing : v.tree.resolve path = none → v.tree.parentOf path = none →
    result = -1 ∧ s' = v.store
  kept : v.tree.resolve path ≠ none → s' = v.store

/-- There are an inode and a place for a new file in the directory, and the inode is not that of an
entry in front of the first invalid place. -/
def HasPlace (v : Volume n) (room : Nat → Bool) (type : UInt16) (name : List Char)
    (dir : DirEntry) : Prop :=
  ∃ inodeID, v.store.allocInode = some inodeID ∧ NewInode n inodeID (v.tree.dirs dir.inode) ∧
    SizeFits n (v.tree.dirs dir.inode) ∧
    (v.tree.dirs dir.inode).syncDirEntry n room ⟨inodeID, type, name⟩ ≠ none

/-- There is no inode, or the names that are counted lead to a directory, or to a regular file that
is not opened. The search does not look at the types on the way. -/
structure LeftAlone (v : Volume n) (path : List Char) (flags : UInt32) (fd : Int) : Prop where
  lost : (v.tree.follow v.tree.root (countedNames path)).length ≠ (countedNames path).length →
    v.store.allocInode = none
  opened : (v.tree.follow v.tree.root (countedNames path)).length = (countedNames path).length →
    ((v.tree.follow v.tree.root (countedNames path)).getLastD v.tree.root).type = typeNormal →
      Accesses flags → fd = -1
  other : (v.tree.follow v.tree.root (countedNames path)).length = (countedNames path).length →
    ((v.tree.follow v.tree.root (countedNames path)).getLastD v.tree.root).type = typeDirectory ∨
    ((v.tree.follow v.tree.root (countedNames path)).getLastD v.tree.root).type = typeNormal ∨
      v.store.allocInode = none

/-- The condition on the path and on the disk, for each of the three kinds of paths. -/
structure OpenGuard (v : Volume n) (path : List Char) (flags : UInt32) (beyond : Nat → Char)
    (room : Nat → Bool) (fd : Int) : Prop where
  creatable : ∀ dir, v.tree.Creatable path dir → path.count '/' < 128 ∧
    (lastName path).length < bofsNameLen ∧ HasPlace v room typeNormal (lastName path) dir
  missing : v.tree.resolve path = none → v.tree.parentOf path = none →
    pathToName path beyond ≠ none → LeftAlone v path flags fd
  found : ∀ dir e, v.tree.resolve path = some (dir, e) →
    e.type = typeDirectory ∨ e.type = typeNormal ∨ 128 ≤ path.count '/' ∨
      v.store.allocInode = none

/-! ## The decision of the call -/

section Decision

variable {t : DirTree n} {path : List Char} {flags : UInt32} {dir : DirEntry}

/-- The loop gives the name that it has come to. -/
theorem path_to_name_reads {p left : Nat} {start : DirEntry} {name : List Char}
    (beyond : Nat → Char) (hnul : '\x00' ∉ path) (h : Reads t path p start left dir name) :
    pathToNameLoop (charAt path beyond) p left =
      if name = [] then none else some (name.take bofsNameLen) := by
  induction left generalizing p start with
  | zero =>
      rw [pathToNameLoop, (h.last beyond hnul).1]
      exact if_congr (take_eq_nil name) rfl rfl
  | succ left ih =>
      obtain ⟨w, e, hcopied, hne, -, hnext⟩ := h.next beyond hnul
      rw [pathToNameLoop, hcopied, if_neg hne]
      exact ih hnext

/-- The search looks the name up in the directory that it has come to. -/
theorem search_loop_reads {p left : Nat} {start : DirEntry} {name : List Char}
    (beyond : Nat → Char) (hnul : '\x00' ∉ path) (h : Reads t path p start left dir name) :
    (t.searchLoop (charAt path beyond) p start left).parentDir = dir ∧
      (t.searchDirEntry dir name = none →
        (t.searchLoop (charAt path beyond) p start left).result = -1) ∧
      ∀ e, t.searchDirEntry dir name = some e →
        (t.searchLoop (charAt path beyond) p start left).result = 0 ∧
          (t.searchLoop (charAt path beyond) p start left).childDir = some e := by
  induction left generalizing p start with
  | zero =>
      obtain ⟨hcopied, rfl⟩ := h.last beyond hnul
      rw [searchLoop, hcopied, search_take]
      cases hsearch : t.searchDirEntry start name with
      | none => exact ⟨rfl, fun _ => rfl, fun e he => absurd he (by simp)⟩
      | some e =>
          refine ⟨rfl, fun hnone => absurd hnone (by simp), fun e' he => ⟨rfl, he⟩⟩
  | succ left ih =>
      obtain ⟨w, e, hcopied, -, hfound, hnext⟩ := h.next beyond hnul
      rw [searchLoop, hcopied, hfound]
      exact ih hnext

theorem search_dir_loop (habsolute : path.head? = some '/') (hpath : path ≠ ['/'])
    (hdepth : 0 < depth path) {beyond : Nat → Char} : t.searchDir path beyond =
      t.searchLoop (charAt path beyond) 0 t.root ((depth path).toNat - 1) := by
  rw [DirTree.searchDir, if_neg (not_not.mpr habsolute)]
  simp only [hpath, and_false, if_false, if_pos hdepth]

/-- With 128 slashes or more the call fails. -/
theorem open_step_wrapped (flags : UInt32) (habsolute : path.head? = some '/')
    (hnul : '\x00' ∉ path) (henter : t.enter t.root (components path).dropLast = some dir)
    (beyond : Nat → Char) (hcount : 128 ≤ path.count '/') :
    t.openStep path flags beyond = .fail := by
  rw [openStep]
  by_cases hdepth : 0 < depth path
  · obtain ⟨hsmall, -⟩ | ⟨-, d, name, e, hreads, hfound, htype⟩ :=
      counted_names habsolute hdepth henter
    · omega
    · have hpath : path ≠ ['/'] := by
        rintro rfl
        exact absurd hcount (by decide)
      have hname : pathToName path beyond = some (name.take bofsNameLen) := by
        rw [pathToName, if_neg (not_not.mpr habsolute), if_pos hdepth,
          path_to_name_reads beyond hnul hreads, if_neg (found_entry hfound).2]
      obtain ⟨hresult, hchild⟩ := (search_loop_reads beyond hnul hreads).2.2 e hfound
      rw [hname, search_dir_loop habsolute hpath hdepth]
      simp only [openFound, hresult, hchild, htype, if_true]
  · rw [pathToName, if_neg (not_not.mpr habsolute), if_neg hdepth]

/-- With fewer slashes the call goes by what the directory of the path has under the last name. -/
theorem open_step_counted (habsolute : path.head? = some '/') (hnul : '\x00' ∉ path)
    (hparent : t.parentOf path = some dir) (hcreat : flags &&& oCreat ≠ 0) (beyond : Nat → Char)
    (hcount : path.count '/' < 128) :
    (t.searchDirEntry dir (lastName path) = none →
      t.openStep path flags beyond = .createFile dir ((lastName path).take bofsNameLen)) ∧
    ∀ e, t.searchDirEntry dir (lastName path) = some e →
      if e.type = typeDirectory ∨ e.type = typeNormal then
        ∀ parentDir name, t.openStep path flags beyond ≠ .createFile parentDir name
      else t.openStep path flags beyond = .createFile dir ((lastName path).take bofsNameLen) := by
  have hlast := (parent_reachable hparent).1
  rw [parentOf, if_neg hlast] at hparent
  have hdepth : 0 < depth path := by
    obtain ⟨rest, rfl⟩ := List.head?_eq_some_iff.mp habsolute
    have hsmall : (depth ('/' :: rest)).toNat = ('/' :: rest).count '/' := counter_small hcount
    rw [List.count_cons_self] at hsmall
    omega
  obtain ⟨-, hreads⟩ | ⟨hmany, -⟩ := counted_names habsolute hdepth hparent
  · have hpath : path ≠ ['/'] := by
      rintro rfl
      exact hlast (by decide)
    have hname : pathToName path beyond = some ((lastName path).take bofsNameLen) := by
      rw [pathToName, if_neg (not_not.mpr habsolute), if_pos hdepth,
        path_to_name_reads beyond hnul hreads, if_neg hlast]
    obtain ⟨hparentDir, hnone, hsome⟩ := search_loop_reads beyond hnul hreads
    rw [openStep, hname, search_dir_loop habsolute hpath hdepth]
    constructor
    · intro hfresh
      simp only [openFound, hnone hfresh, if_neg hcreat, hparentDir]
    · intro e hfound
      obtain ⟨hresult, hchild⟩ := hsome e hfound
      simp only [openFound, hresult, hchild, hparentDir, if_pos hcreat]
      by_cases hdir : e.type = typeDirectory
      · simp [hdir]
      · by_cases hnormal : e.type = typeNormal
        · simp only [hnormal, or_true, if_true, if_neg (show typeNormal ≠ typeDirectory by decide)]
          intro parentDir name
          split
          · simp
          · simp
        · simp [hdir, hnormal]
  · omega

/-- The path `/` has no name. -/
theorem path_to_name_root (beyond : Nat → Char) : pathToName ['/'] beyond = none := by
  have hdepth : (depth ['/']).toNat - 1 = 0 := by decide
  rw [pathToName, if_neg (by decide), if_pos (by decide), hdepth, pathToNameLoop]
  simp only [copied_root_name, if_true]

/-- The last of the entries that are found is the last one of the record. -/
theorem last_two_child (dir : DirEntry) (found : List DirEntry) :
    (lastTwo dir found).2 = found.getLastD dir := by
  induction found generalizing dir with
  | nil => rfl
  | cons e found ih =>
      cases found with
      | nil => rfl
      | cons next found => exact ih e

/-- The call goes by what the names that are counted lead to. -/
theorem open_step_follow (habsolute : path.head? = some '/') (hnul : '\x00' ∉ path)
    (hcreat : flags &&& oCreat ≠ 0) {beyond : Nat → Char} {name : List Char}
    (hname : pathToName path beyond = some name) :
    t.openStep path flags beyond =
      if (t.follow t.root (countedNames path)).length = (countedNames path).length then
        if ((t.follow t.root (countedNames path)).getLastD t.root).type = typeDirectory then .fail
        else if ((t.follow t.root (countedNames path)).getLastD t.root).type = typeNormal then
          if Accesses flags then .openFile else .fail
        else .createFile (t.searchDir path beyond).parentDir name
      else .createFile (t.searchDir path beyond).parentDir name := by
  have hpath : path ≠ ['/'] := by
    rintro rfl
    rw [path_to_name_root] at hname
    cases hname
  have hdepth : 0 < depth path := by
    by_contra hdepth
    rw [pathToName, if_neg (not_not.mpr habsolute), if_neg hdepth] at hname
    cases hname
  obtain ⟨hleft, hnames, hcount⟩ := counted_take habsolute hdepth
  rw [openStep, hname, search_dir_loop habsolute hpath hdepth]
  obtain ⟨rest, rfl⟩ := List.head?_eq_some_iff.mp habsolute
  generalize (depth ('/' :: rest)).toNat - 1 = left at hleft hnames hcount ⊢
  have hran : Ran t ('/' :: rest) t.root (components ('/' :: rest)) left
      (t.searchLoop (charAt ('/' :: rest) beyond) 0 t.root left) := search_loop_ran hnul rfl hleft
  have hresult := hran.result
  have hrecord := hran.record
  rw [← hnames] at hresult hrecord
  rw [hcount]
  dsimp only
  by_cases hfound : (t.follow t.root (countedNames ('/' :: rest))).length = left + 1
  · have hchild := (hrecord hfound).2
    rw [if_pos hfound] at hresult ⊢
    rw [last_two_child] at hchild
    simp only [openFound, hresult, hchild, if_pos hcreat]
  · rw [if_neg hfound] at hresult ⊢
    simp only [openFound, hresult, if_neg hcreat]

/-- Where a path leads to something, it is `/`, or its directory finds the last name. -/
theorem resolve_cases {e : DirEntry} (h : t.resolve path = some (dir, e)) :
    path = ['/'] ∧ e = t.root ∨
      t.parentOf path = some dir ∧ t.searchDirEntry dir (lastName path) = some e := by
  by_cases hpath : path = ['/']
  · rw [resolve, if_pos hpath] at h
    cases h
    exact .inl ⟨hpath, rfl⟩
  · right
    have hne : components path ≠ [] := List.splitOn_ne_nil '/' path.tail
    rw [resolve, if_neg hpath, walk_eq_enter hne, Option.bind_eq_some_iff] at h
    obtain ⟨d, henter, hfound⟩ := h
    rw [Option.map_eq_some_iff] at hfound
    obtain ⟨e', hfound, heq⟩ := hfound
    cases heq
    have hlast : lastName path ≠ [] := (found_entry hfound).2
    rw [parentOf, if_neg hlast]
    exact ⟨henter, hfound⟩

end Decision

/-! ## The law of `O_CREAT` -/

section Law

variable {v : Volume n} {path : List Char} {dir parentDir : DirEntry} {name : List Char}
  {room : Nat → Bool} {fd : Int} {inodeID : Nat}

/-- The disk as it was has no entry more. -/
theorem not_created (type : UInt16) (dir : DirEntry) (inodeID : Nat) :
    ¬CreatedAt v v.store path type dir inodeID := by
  intro h
  have hset := congrFun h.bit inodeID
  have hfree := h.free
  rw [Function.update_self] at hset
  rw [show v.inodeUsed inodeID = true from hset] at hfree
  cases hfree

/-- Without a free inode nothing is created. -/
theorem create_file_none (h : v.store.allocInode = none) :
    v.store.createFile n parentDir name room fd = (v.store, -1) := by
  rw [DirStore.createFile, h]

/-- A disk with the inode in use is not the one from before. -/
theorem taken_ne {s' : DirStore} (h : v.store.allocInode = some inodeID)
    (hset : s'.inodeUsed inodeID = true) : s' ≠ v.store := by
  intro heq
  have hfree := DirStore.alloc_inode_free h
  rw [← heq, hset] at hfree
  cases hfree

/-- A store in a directory leaves the bitmap as it is. -/
theorem sync_child_bits {s s' : DirStore} {parent : Nat} {child : DirEntry}
    (h : s.syncChild n parent room child = some s') : s'.inodeUsed = s.inodeUsed := by
  rw [DirStore.syncChild, Option.map_eq_some_iff] at h
  obtain ⟨_, -, rfl⟩ := h
  rfl

/-- A free inode is taken, whatever comes then. -/
theorem create_file_bit (h : v.store.allocInode = some inodeID) :
    (v.store.createFile n parentDir name room fd).1 ≠ v.store := by
  refine taken_ne h ?_
  rw [DirStore.createFile, h]
  dsimp only
  split
  · exact Function.update_self _ _ _
  · next hsync =>
      rw [sync_child_bits hsync]
      exact Function.update_self _ _ _

/-- The entry of an inode that has just been created is stored in its directory if there is a
place. -/
theorem new_inode_stored (room : Nat → Bool) (type : UInt16) (name : List Char) (size : Nat)
    (h : v.store.allocInode = some inodeID) (hparent : v.inodeUsed parentDir.inode = true) :
    ((v.tree.dirs parentDir.inode).syncDirEntry n room ⟨inodeID, type, name⟩ = none →
      (v.store.createInode inodeID size).syncChild n parentDir.inode room ⟨inodeID, type, name⟩ =
        none) ∧
    ((v.tree.dirs parentDir.inode).syncDirEntry n room ⟨inodeID, type, name⟩ ≠ none →
      ∃ s', (v.store.createInode inodeID size).syncChild n parentDir.inode room
          ⟨inodeID, type, name⟩ = some s' ∧
        StoredIn n v.store s' parentDir.inode ⟨inodeID, type, name⟩) := by
  have hdirs : ∀ inode, inode ≠ inodeID →
      (v.store.createInode inodeID size).dirs inode = v.store.dirs inode :=
    fun inode hinode => Function.update_of_ne hinode _ _
  refine StoredIn.of_sync room ⟨inodeID, type, name⟩ (DirStore.parent_ne h hparent) rfl hdirs ?_
  intro blockID block hblock
  rw [show (v.store.createInode inodeID size).dirs inodeID = ⟨size, fun _ => none⟩ from
    Function.update_self _ _ _] at hblock
  cases hblock

/-- The new entry is stored in its directory if there is a place; otherwise the directory stays as
it was. -/
theorem create_file_stored (room : Nat → Bool) (fd : Int) (h : v.store.allocInode = some inodeID)
    (hparent : v.inodeUsed parentDir.inode = true) :
    ((v.tree.dirs parentDir.inode).syncDirEntry n room ⟨inodeID, typeNormal, name⟩ = none →
      (v.store.createFile n parentDir name room fd).1.dirs parentDir.inode =
        v.tree.dirs parentDir.inode) ∧
    ((v.tree.dirs parentDir.inode).syncDirEntry n room ⟨inodeID, typeNormal, name⟩ ≠ none →
      StoredIn n v.store (v.store.createFile n parentDir name room fd).1 parentDir.inode
        ⟨inodeID, typeNormal, name⟩) := by
  obtain ⟨hfull, hstored⟩ := new_inode_stored room typeNormal name 0 h hparent
  rw [DirStore.createFile, h]
  dsimp only
  constructor
  · intro hplace
    rw [hfull hplace]
    exact Function.update_of_ne (DirStore.parent_ne h hparent) _ _
  · intro hplace
    obtain ⟨s', hsync, hs'⟩ := hstored hplace
    rw [hsync]
    exact hs'

variable {flags : UInt32} {beyond : Nat → Char}

/-- The call leaves the disk as it was if and only if it does not come to `BOFS_CreateFile`, or
there is no inode. -/
theorem bofs_open_kept : (v.bofsOpen path flags beyond room fd).1 = v.store ↔
    ∀ parentDir name, v.tree.openStep path flags beyond = .createFile parentDir name →
      v.store.allocInode = none := by
  rw [Volume.bofsOpen]
  cases hstep : v.tree.openStep path flags beyond with
  | fail => exact iff_of_true rfl fun _ _ h => absurd h (by simp)
  | openFile => exact iff_of_true rfl fun _ _ h => absurd h (by simp)
  | createFile parentDir name =>
      constructor
      · intro hkept _ _ _
        rw [Option.eq_none_iff_forall_ne_some]
        intro inodeID halloc
        exact create_file_bit halloc hkept
      · intro hnone
        dsimp only
        rw [create_file_none (hnone parentDir name rfl)]

/-- In a directory that does not have the name, the call creates the file exactly if the counter and
the buffer of the name are large enough and there is a place. -/
theorem open_created_iff (hn : 4 ≤ n) (hmax : n ≤ 16) (hv : v.Sound)
    (habsolute : path.head? = some '/') (hnul : '\x00' ∉ path) (hcreat : flags &&& oCreat ≠ 0)
    (hcreatable : v.tree.Creatable path dir) :
    (∃ dir' inodeID, CreatedAt v (v.bofsOpen path flags beyond room fd).1 path typeNormal dir'
        inodeID) ↔
      path.count '/' < 128 ∧ (lastName path).length < bofsNameLen ∧
        HasPlace v room typeNormal (lastName path) dir := by
  obtain ⟨hparent, hfresh⟩ := hcreatable
  obtain ⟨hlast, hreach, -⟩ := parent_reachable hparent
  have hused := hv.used dir hreach
  by_cases hcount : path.count '/' < 128
  · have hstep := (open_step_counted habsolute hnul hparent hcreat beyond hcount).1 hfresh
    rw [Volume.bofsOpen, hstep]
    dsimp only
    cases halloc : v.store.allocInode with
    | none =>
        rw [create_file_none halloc]
        constructor
        · rintro ⟨dir', inodeID, hcreated⟩
          exact absurd hcreated (not_created typeNormal dir' inodeID)
        · rintro ⟨-, -, inodeID, hsome, -⟩
          rw [halloc] at hsome
          cases hsome
    | some inodeID =>
        have hfree : v.inodeUsed inodeID = false := DirStore.alloc_inode_free halloc
        by_cases hplace : (v.tree.dirs dir.inode).syncDirEntry n room
            ⟨inodeID, typeNormal, (lastName path).take bofsNameLen⟩ = none
        · have hsame := (create_file_stored room fd halloc hused).1 hplace
          constructor
          · rintro ⟨dir', inodeID', hcreated⟩
            have hdir := hcreated.parent
            rw [hparent] at hdir
            cases hdir
            have hfound := hcreated.inserted.found.1
            rw [hsame] at hfound
            exact absurd (hfresh.symm.trans hfound) (by simp)
          · rintro ⟨-, hshort, inodeID', hsome, -, -, hroom⟩
            rw [halloc] at hsome
            cases hsome
            rw [List.take_of_length_le hshort.le] at hplace
            exact absurd hplace hroom
        · have hlaw := created_iff hn hmax hv (by decide) ⟨hparent, hfresh⟩ hfree
            ((create_file_stored room fd halloc hused).2 hplace)
          rw [hlaw]
          constructor
          · rintro ⟨hshort, hnew, hfits⟩
            rw [List.take_of_length_le hshort.le] at hplace
            exact ⟨hcount, hshort, inodeID, halloc, hnew, hfits, hplace⟩
          · rintro ⟨-, hshort, inodeID', hsome, hnew, hfits, -⟩
            rw [halloc] at hsome
            cases hsome
            exact ⟨hshort, hnew, hfits⟩
  · have henter := hparent
    rw [parentOf, if_neg hlast] at henter
    have hstep := open_step_wrapped flags habsolute hnul henter beyond (not_lt.mp hcount)
    rw [Volume.bofsOpen, hstep]
    constructor
    · rintro ⟨dir', inodeID, hcreated⟩
      exact absurd hcreated (not_created typeNormal dir' inodeID)
    · exact fun h => absurd h.1 hcount

/-- Where the path leads to something, the call changes nothing exactly if this is a directory or a
regular file, or it does not come so far. -/
theorem open_found_iff {e : DirEntry} (habsolute : path.head? = some '/') (hnul : '\x00' ∉ path)
    (hcreat : flags &&& oCreat ≠ 0) (hresolve : v.tree.resolve path = some (dir, e)) :
    (v.bofsOpen path flags beyond room fd).1 = v.store ↔
      e.type = typeDirectory ∨ e.type = typeNormal ∨ 128 ≤ path.count '/' ∨
        v.store.allocInode = none := by
  rw [bofs_open_kept]
  obtain ⟨rfl, rfl⟩ | ⟨hparent, hfound⟩ := resolve_cases hresolve
  · refine iff_of_true ?_ (.inl v.tree.rootType)
    intro parentDir name hstep
    rw [openStep, path_to_name_root] at hstep
    cases hstep
  · by_cases hcount : path.count '/' < 128
    · have hcounted := (open_step_counted habsolute hnul hparent hcreat beyond hcount).2 e hfound
      by_cases htype : e.type = typeDirectory ∨ e.type = typeNormal
      · rw [if_pos htype] at hcounted
        refine iff_of_true (fun parentDir name hstep => absurd hstep (hcounted parentDir name)) ?_
        exact htype.imp id .inl
      · rw [if_neg htype] at hcounted
        rw [hcounted]
        obtain ⟨hdir, hnormal⟩ := not_or.mp htype
        constructor
        · exact fun hnone => .inr (.inr (.inr (hnone _ _ rfl)))
        · rintro (h | h | h | h)
          · exact absurd h hdir
          · exact absurd h hnormal
          · exact absurd hcount (not_lt.mpr h)
          · exact fun _ _ _ => h
    · have henter := hparent
      rw [parentOf, if_neg (parent_reachable hparent).1] at henter
      rw [open_step_wrapped flags habsolute hnul henter beyond (not_lt.mp hcount)]
      exact iff_of_true (fun _ _ h => absurd h (by simp)) (.inr (.inr (.inl (not_lt.mp hcount))))

/-- A call with a name fails without a change exactly if what it comes to is left alone. -/
theorem open_missing_iff (room : Nat → Bool) (habsolute : path.head? = some '/')
    (hnul : '\x00' ∉ path) (hcreat : flags &&& oCreat ≠ 0) :
    ((v.bofsOpen path flags beyond room fd).2 = -1 ∧
        (v.bofsOpen path flags beyond room fd).1 = v.store) ↔
      (pathToName path beyond ≠ none → LeftAlone v path flags fd) := by
  cases hname : pathToName path beyond with
  | none =>
      rw [forall_prop_of_false (show ¬(none : Option (List Char)) ≠ none by simp), Volume.bofsOpen,
        openStep, hname]
      exact iff_of_true ⟨rfl, rfl⟩ trivial
  | some name =>
      have hcreate : ∀ parentDir, (v.store.createFile n parentDir name room fd).2 = -1 ∧
          (v.store.createFile n parentDir name room fd).1 = v.store ↔
            v.store.allocInode = none := by
        intro parentDir
        constructor
        · rintro ⟨-, hkept⟩
          rw [Option.eq_none_iff_forall_ne_some]
          intro inodeID halloc
          exact create_file_bit halloc hkept
        · intro hnone
          rw [create_file_none hnone]
          exact ⟨rfl, rfl⟩
      rw [forall_prop_of_true (show some name ≠ none by simp), Volume.bofsOpen,
        open_step_follow habsolute hnul hcreat hname]
      constructor
      · rintro ⟨hresult, hkept⟩
        refine ⟨fun hlost => ?_, fun hfound hnormal haccess => ?_, fun hfound => ?_⟩
        · rw [if_neg hlost] at hresult hkept
          exact (hcreate _).mp ⟨hresult, hkept⟩
        · rw [if_pos hfound, hnormal, if_neg (by decide), if_pos rfl, if_pos haccess] at hresult
          exact hresult
        · by_cases hdir : ((v.tree.follow v.tree.root (countedNames path)).getLastD
              v.tree.root).type = typeDirectory
          · exact .inl hdir
          · by_cases hnormal : ((v.tree.follow v.tree.root (countedNames path)).getLastD
                v.tree.root).type = typeNormal
            · exact .inr (.inl hnormal)
            · rw [if_pos hfound, if_neg hdir, if_neg hnormal] at hresult hkept
              exact .inr (.inr ((hcreate _).mp ⟨hresult, hkept⟩))
      · intro hleft
        by_cases hfound : (v.tree.follow v.tree.root (countedNames path)).length =
            (countedNames path).length
        · rw [if_pos hfound]
          by_cases hdir : ((v.tree.follow v.tree.root (countedNames path)).getLastD
              v.tree.root).type = typeDirectory
          · rw [if_pos hdir]
            exact ⟨rfl, rfl⟩
          · rw [if_neg hdir]
            by_cases hnormal : ((v.tree.follow v.tree.root (countedNames path)).getLastD
                v.tree.root).type = typeNormal
            · rw [if_pos hnormal]
              by_cases haccess : Accesses flags
              · rw [if_pos haccess]
                exact ⟨hleft.opened hfound hnormal haccess, rfl⟩
              · rw [if_neg haccess]
                exact ⟨rfl, rfl⟩
            · rw [if_neg hnormal]
              exact (hcreate _).mpr (((hleft.other hfound).resolve_left hdir).resolve_left hnormal)
        · rw [if_neg hfound]
          exact (hcreate _).mpr (hleft.lost hfound)

/-- `BOFS_Open` with `O_CREAT` creates the file of the path, or nothing where it must not, if and
only if the path has fewer than 128 slashes, its name fits and there is a place in its directory;
where the directory is missing the call does not come to `BOFS_CreateFile`; and a path that leads to
something leads to a directory or a regular file. -/
theorem open_create_iff (hn : 4 ≤ n) (hmax : n ≤ 16) (v : Volume n) (hv : v.Sound)
    (path : List Char) (habsolute : path.head? = some '/') (hnul : '\x00' ∉ path) (flags : UInt32)
    (hcreat : flags &&& oCreat ≠ 0) (beyond : Nat → Char) (room : Nat → Bool) (fd : Int) :
    OpenCreates v path (v.bofsOpen path flags beyond room fd).1
        (v.bofsOpen path flags beyond room fd).2 ↔
      OpenGuard v path flags beyond room fd := by
  constructor
  · rintro ⟨hcreated, hmissing, hkept⟩
    refine ⟨?_, ?_, ?_⟩
    · intro dir hcreatable
      exact (open_created_iff hn hmax hv habsolute hnul hcreat hcreatable).mp
        (hcreated dir hcreatable)
    · intro hresolve hparent
      rw [← open_missing_iff room habsolute hnul hcreat]
      exact hmissing hresolve hparent
    · intro dir e hresolve
      exact (open_found_iff habsolute hnul hcreat hresolve).mp (hkept (by rw [hresolve]; simp))
  · intro hguard
    refine ⟨?_, ?_, ?_⟩
    · intro dir hdir
      exact (open_created_iff hn hmax hv habsolute hnul hcreat hdir).mpr (hguard.creatable dir hdir)
    · intro hresolve hparent
      rw [open_missing_iff room habsolute hnul hcreat]
      exact hguard.missing hresolve hparent
    · intro hsome
      obtain ⟨⟨dir, e⟩, hresolve⟩ := Option.ne_none_iff_exists'.mp hsome
      exact (open_found_iff habsolute hnul hcreat hresolve).mpr
        (hguard.found dir e hresolve)

end Law

/-! ## A missing directory -/

/-- The disk with the small tree, and free inodes from 3 on. -/
def smallVolume : Volume 4 where
  tree := smallTree
  inodeNr := 8
  inodeUsed := fun inode => inode < 3

theorem small_volume_sound : smallVolume.Sound := by
  refine ⟨small_tree_is_tree.wellFormed, fun e he => ?_⟩
  have hlt : e.inode < 3 := by
    cases he with
    | root => decide
    | @entry dir e name hdir htype hfound =>
        by_cases hname : IsDots name
        · have hinode := (small_tree_dots hname hfound).2
          have hdirs := small_tree_dirs hdir htype
          split at hinode
          · omega
          · omega
        · obtain ⟨-, -, rfl | rfl⟩ := small_tree_named hname hfound
          · decide
          · decide
  exact decide_eq_true hlt

theorem small_volume_creatable {dir : DirEntry}
    (h : smallVolume.tree.Creatable ['/', 'd'] dir) : dir = smallTree.root := by
  have hparent : smallVolume.tree.parentOf ['/', 'd'] = some smallTree.root := by decide +kernel
  exact Option.some.inj (h.1.symm.trans hparent)

/-- The next inode is new to the root directory, whose size can grow. -/
theorem small_volume_new : NewInode 4 3 (smallVolume.tree.dirs smallTree.root.inode) ∧
    SizeFits 4 (smallVolume.tree.dirs smallTree.root.inode) := by
  refine ⟨?_, by decide, fun _ => by decide⟩
  intro i hi _
  have hall : ∀ i < 4, ((oneBlock topEntries).slot 4 i).inode ≠ 3 := by decide
  exact hall i (Nat.lt_of_mul_lt_mul_right hi)

/-- In the root directory a file is created. -/
theorem root_file_created :
    OpenCreates smallVolume ['/', 'd']
      (smallVolume.bofsOpen ['/', 'd'] (oCreat ||| oRdwr) (fun _ => '\x00') (fun _ => true) 0).1
      (smallVolume.bofsOpen ['/', 'd'] (oCreat ||| oRdwr) (fun _ => '\x00') (fun _ => true)
        0).2 := by
  refine (open_create_iff (by decide) (by decide) smallVolume small_volume_sound ['/', 'd'] rfl
    (by decide) (oCreat ||| oRdwr) (by decide) _ _ 0).mpr ⟨?_, ?_, ?_⟩
  · intro dir hcreatable
    rw [small_volume_creatable hcreatable]
    refine ⟨by decide, by decide, 3, by decide, small_volume_new.1, small_volume_new.2, ?_⟩
    rw [← Option.isSome_iff_ne_none]
    decide +kernel
  · intro _ hparent
    have hthere : smallVolume.tree.parentOf ['/', 'd'] ≠ none := by decide +kernel
    exact absurd hparent hthere
  · intro dir e hresolve
    have hnone : smallVolume.tree.resolve ['/', 'd'] = none := by decide +kernel
    rw [hnone] at hresolve
    cases hresolve

/-- The file `d` of a missing directory is created in the root directory. -/
theorem missing_dir_created : ¬∀ (n : Nat) (v : Volume n) (path : List Char) (flags : UInt32)
    (beyond : Nat → Char) (room : Nat → Bool) (fd : Int), 4 ≤ n → n ≤ 16 → v.Sound →
      path.head? = some '/' → '\x00' ∉ path → flags &&& oCreat ≠ 0 →
        OpenCreates v path (v.bofsOpen path flags beyond room fd).1
          (v.bofsOpen path flags beyond room fd).2 := by
  intro h
  have hlaw := h 4 smallVolume ['/', 'c', '/', 'd'] (oCreat ||| oRdwr) (fun _ => '\x00')
    (fun _ => true) 0 (by decide) (by decide) small_volume_sound rfl (by decide) (by decide)
  have hfailed := (hlaw.missing (by decide +kernel) (by decide +kernel)).1
  exact absurd hfailed (by decide +kernel)

end XBook.Paths
