import XBook.Fs.OpenCreate

/-!
# Making directories, devices, task files and FIFOs

`BOFS_MakeDir`, `BOFS_MakeDevice`, `BOFS_MakeTask` and `BOFS_MakeFifo` of `fs/bofs`, with the calls
that create the entry. The four have one walk. `make_node_iff` says for which paths and disks a call
makes the entry of its path, or fails without a change.
-/

namespace XBook.Paths

open Fifos Dirs Dirs.DirNode DirTree
open Calls (typeBlock typeChar)

/-- `BOFS_FILE_TYPE_TASK`. -/
abbrev typeTask : UInt16 := 0x04

/-- `BOFS_FILE_TYPE_UNKNOWN`. -/
abbrev typeUnknown : UInt16 := 0x00

/-- `enum DeviceType`, as far as files are made for devices. -/
inductive DeviceType where
  | block
  | char
  | other
  deriving DecidableEq

/-- The type of a file for a device. -/
def DeviceType.dirType : DeviceType → UInt16
  | .block => typeBlock
  | .char => typeChar
  | .other => typeUnknown

variable {n : Nat}

namespace DirTree

/-- What the walk of a call comes to. -/
inductive MakeStep where
  | fail
  | done
  | create (parentDir : DirEntry) (name : List Char)

/-- The rounds of the walk from a slash of the path on. -/
def makeLoop (t : DirTree n) (mem : Nat → Char) (p : Nat) (parentDir : DirEntry) (left : Nat) :
    MakeStep :=
  let name := copyName mem (p + 1) bofsNameLen
  if cString name.1 = [] then .fail
  else
    match t.searchDirEntry parentDir (cString name.1), left with
    | some _, 0 => .fail
    | some childDir, left + 1 => t.makeLoop mem name.2 childDir left
    | none, 0 => .create parentDir (cString name.1)
    | none, _ + 1 => .fail

/-- The walk. With no round the call returns 0. -/
def makeStep (t : DirTree n) (path : List Char) (beyond : Nat → Char) : MakeStep :=
  if path.head? ≠ some '/' then .fail
  else if 0 < depth path then t.makeLoop (charAt path beyond) 0 t.root ((depth path).toNat - 1)
  else .done

/-- The names that a `char` counts are found but for the last one, which is not empty. -/
def LastMissing (t : DirTree n) (path : List Char) : Prop :=
  (t.follow t.root (countedNames path)).length + 1 = (countedNames path).length ∧
    (countedNames path).getLastD [] ≠ []

end DirTree

/-- What a call leaves, with the pipe objects that it has made, and its result. -/
structure Made where
  store : DirStore
  pipes : Nat
  result : Int

section Creates

variable (n : Nat) (s : DirStore) (parentDir : DirEntry) (name : List Char) (room : Nat → Bool)

/-- The calls that create an inode and its entry. The number in the first block is left out. -/
def createNewNode (type : UInt16) (size : Nat) : Made :=
  match s.allocInode with
  | none => ⟨s, 0, -1⟩
  | some inodeID =>
      let s := s.createInode inodeID size
      match s.syncChild n parentDir.inode room ⟨inodeID, type, name⟩ with
      | none => ⟨s, 0, -1⟩
      | some s => ⟨s, 0, 0⟩

/-- `BOFS_CreateNewDevice`. -/
def createNewDevice (type : DeviceType) (size : UInt32) : Made :=
  createNewNode n s parentDir name room type.dirType size.toNat

/-- `BOFS_CreateNewTask`. -/
def createNewTask : Made := createNewNode n s parentDir name room typeTask 0

/-- `BOFS_CreateNewFifo`, with memory for the pipe and for its buffer or without. -/
def createNewFifo (pipe buf : Bool) : Made :=
  match s.allocInode with
  | none => ⟨s, 0, -1⟩
  | some inodeID =>
      if pipe = false ∨ buf = false then
        ⟨{ s with inodeUsed := Function.update s.inodeUsed inodeID true }, 0, -1⟩
      else
        let s := s.createInode inodeID 0
        match s.syncChild n parentDir.inode room ⟨inodeID, typeFifo, name⟩ with
        | none => ⟨s, 1, -1⟩
        | some s => ⟨s, 1, 0⟩

end Creates

/-- A call after its walk. -/
def Volume.makeNode (v : Volume n) (path : List Char) (beyond : Nat → Char)
    (create : DirEntry → List Char → Made) : Made :=
  match v.tree.makeStep path beyond with
  | .fail => ⟨v.store, 0, -1⟩
  | .done => ⟨v.store, 0, 0⟩
  | .create parentDir name => create parentDir name

section Calls

variable (v : Volume n) (path : List Char) (beyond : Nat → Char) (room : Nat → Bool)

/-- `BOFS_MakeDir`. -/
def Volume.makeDir (childRoom : Nat → Bool) : Made :=
  v.makeNode path beyond fun parentDir name =>
    let (s, result) := v.store.createNewDirEntry n parentDir name childRoom room
    ⟨s, 0, result⟩

/-- `BOFS_MakeDevice`. -/
def Volume.makeDevice (type : DeviceType) (size : UInt32) : Made :=
  v.makeNode path beyond fun parentDir name =>
    createNewDevice n v.store parentDir name room type size

/-- `BOFS_MakeTask`. -/
def Volume.makeTask : Made :=
  v.makeNode path beyond fun parentDir name => createNewTask n v.store parentDir name room

/-- `BOFS_MakeFifo`. -/
def Volume.makeFifo (pipe buf : Bool) : Made :=
  v.makeNode path beyond fun parentDir name =>
    createNewFifo n v.store parentDir name room pipe buf

end Calls

/-- The four calls, with what they need besides an inode and a place in the directory. -/
inductive NodeCall where
  | makeDir (childRoom : Nat → Bool)
  | makeDevice (type : DeviceType) (size : UInt32)
  | makeTask
  | makeFifo (pipe buf : Bool)

namespace NodeCall

/-- The call. -/
def made (v : Volume n) (path : List Char) (beyond : Nat → Char) (room : Nat → Bool) :
    NodeCall → Made
  | makeDir childRoom => v.makeDir path beyond room childRoom
  | makeDevice type size => v.makeDevice path beyond room type size
  | makeTask => v.makeTask path beyond room
  | makeFifo pipe buf => v.makeFifo path beyond room pipe buf

/-- The type of the entry. -/
def type : NodeCall → UInt16
  | makeDir _ => typeDirectory
  | makeDevice type _ => type.dirType
  | makeTask => typeTask
  | makeFifo _ _ => typeFifo

/-- A directory needs room for its first two entries, and a FIFO memory for the pipe. -/
def Ready (n : Nat) (parentDir : DirEntry) (inodeID : Nat) : NodeCall → Prop
  | makeDir childRoom =>
      ∃ node, (∃ result, (DirNode.mk (sizeofDirEntry * 2) fun _ => none).syncDirEntry n childRoom
          ⟨inodeID, typeDirectory, ['.']⟩ = some (node, result)) ∧
        node.syncDirEntry n childRoom { parentDir with name := ['.', '.'] } ≠ none
  | makeDevice _ _ | makeTask => True
  | makeFifo pipe buf => pipe = true ∧ buf = true

/-- What the walk ends in. -/
def create (v : Volume n) (room : Nat → Bool) (parentDir : DirEntry) (name : List Char) :
    NodeCall → Made
  | makeDir childRoom =>
      let (s, result) := v.store.createNewDirEntry n parentDir name childRoom room
      ⟨s, 0, result⟩
  | makeDevice type size => createNewDevice n v.store parentDir name room type size
  | makeTask => createNewTask n v.store parentDir name room
  | makeFifo pipe buf => createNewFifo n v.store parentDir name room pipe buf

/-- There are an inode, what the kind of file needs, and a place in the directory. -/
def Resources (v : Volume n) (room : Nat → Bool) (path : List Char) (dir : DirEntry)
    (call : NodeCall) : Prop :=
  ∃ inodeID, v.store.allocInode = some inodeID ∧ call.Ready n dir inodeID ∧
    (v.tree.dirs dir.inode).syncDirEntry n room ⟨inodeID, call.type, lastName path⟩ ≠ none

/-! ## The four ways to create an entry -/

section Creation

variable {v : Volume n} {room : Nat → Bool} {parentDir : DirEntry} {name : List Char}
  {inodeID : Nat}

/-- The four calls have one walk. -/
theorem made_eq (v : Volume n) (path : List Char) (beyond : Nat → Char) (room : Nat → Bool)
    (call : NodeCall) : call.made v path beyond room =
      v.makeNode path beyond fun parentDir name => call.create v room parentDir name := by
  cases call with
  | makeDir childRoom => rfl
  | makeDevice type size => rfl
  | makeTask => rfl
  | makeFifo pipe buf => rfl

/-- Without a free inode nothing is created. -/
theorem create_none (call : NodeCall) (h : v.store.allocInode = none) :
    call.create v room parentDir name = ⟨v.store, 0, -1⟩ := by
  cases call with
  | makeDir childRoom => simp only [create, DirStore.createNewDirEntry, h]
  | makeDevice type size => simp only [create, createNewDevice, createNewNode, h]
  | makeTask => simp only [create, createNewTask, createNewNode, h]
  | makeFifo pipe buf => simp only [create, createNewFifo, h]

/-- An inode and its entry are created in a used directory exactly if there is a place. -/
structure Creation (v : Volume n) (parentDir : DirEntry) (room : Nat → Bool) (child : DirEntry)
    (Ready : Prop) (made : Made) : Prop where
  bit : made.store.inodeUsed child.inode = true
  result : made.result = 0 ∨ made.result = -1
  stored : v.inodeUsed parentDir.inode = true → Ready →
    (v.tree.dirs parentDir.inode).syncDirEntry n room child ≠ none →
      made.result = 0 ∧ StoredIn n v.store made.store parentDir.inode child
  failed : v.inodeUsed parentDir.inode = true →
    ¬(Ready ∧ (v.tree.dirs parentDir.inode).syncDirEntry n room child ≠ none) → made.result = -1

/-- A call that ends in the store of the entry, with its inode and bit written before. -/
theorem Creation.of_sync (mid : DirStore) {child : DirEntry} {made : Made}
    (hne : v.inodeUsed parentDir.inode = true → parentDir.inode ≠ child.inode)
    (hbit : mid.inodeUsed = Function.update v.inodeUsed child.inode true)
    (hdirs : ∀ inode, inode ≠ child.inode → mid.dirs inode = v.tree.dirs inode)
    (hnames : ∀ blockID block, (mid.dirs child.inode).block blockID = some block →
      ∀ e ∈ block, e.name.length < bofsNameLen)
    (hnone : mid.syncChild n parentDir.inode room child = none →
      made.store = mid ∧ made.result = -1)
    (hsome : ∀ s', mid.syncChild n parentDir.inode room child = some s' →
      made.store = s' ∧ made.result = 0) :
    Creation v parentDir room child True made := by
  have hset : mid.inodeUsed child.inode = true := by
    rw [hbit]
    exact Function.update_self _ _ _
  refine ⟨?_, ?_, ?_, ?_⟩
  · cases hsync : mid.syncChild n parentDir.inode room child with
    | none =>
        rw [(hnone hsync).1]
        exact hset
    | some s' =>
        rw [(hsome s' hsync).1, sync_child_bits hsync]
        exact hset
  · cases hsync : mid.syncChild n parentDir.inode room child with
    | none => exact .inr (hnone hsync).2
    | some s' => exact .inl (hsome s' hsync).2
  · intro hparent _ hplace
    obtain ⟨s', hsync, hs'⟩ :=
      (StoredIn.of_sync (s := v.store) room child (hne hparent) hbit hdirs hnames).2 hplace
    obtain ⟨hstore, hresult⟩ := hsome s' hsync
    rw [hstore]
    exact ⟨hresult, hs'⟩
  · intro hparent hfull
    rw [true_and, not_not] at hfull
    have hsync :=
      (StoredIn.of_sync (s := v.store) room child (hne hparent) hbit hdirs hnames).1 hfull
    exact (hnone hsync).2

/-- A call that ends in the store of the entry of an inode without blocks. -/
theorem Creation.of_inode (type : UInt16) (size : Nat) {made : Made}
    (h : v.store.allocInode = some inodeID)
    (hnone : (v.store.createInode inodeID size).syncChild n parentDir.inode room
      ⟨inodeID, type, name⟩ = none →
        made.store = v.store.createInode inodeID size ∧ made.result = -1)
    (hsome : ∀ s', (v.store.createInode inodeID size).syncChild n parentDir.inode room
      ⟨inodeID, type, name⟩ = some s' → made.store = s' ∧ made.result = 0) :
    Creation v parentDir room ⟨inodeID, type, name⟩ True made := by
  have hdirs : ∀ inode, inode ≠ inodeID →
      (v.store.createInode inodeID size).dirs inode = v.tree.dirs inode :=
    fun inode hinode => Function.update_of_ne hinode _ _
  refine Creation.of_sync (v.store.createInode inodeID size)
    (fun hparent => DirStore.parent_ne h hparent) rfl hdirs ?_ hnone hsome
  intro blockID block hblock
  rw [show (v.store.createInode inodeID size).dirs inodeID = ⟨size, fun _ => none⟩ from
    Function.update_self _ _ _] at hblock
  cases hblock

/-- `BOFS_CreateNewDevice` and `BOFS_CreateNewTask`. -/
theorem create_new_node (type : UInt16) (size : Nat) (h : v.store.allocInode = some inodeID) :
    Creation v parentDir room ⟨inodeID, type, name⟩ True
      (createNewNode n v.store parentDir name room type size) := by
  rw [createNewNode, h]
  dsimp only
  refine Creation.of_inode type size h (fun hsync => ?_) fun s' hsync => ?_
  · rw [hsync]
    exact ⟨rfl, rfl⟩
  · rw [hsync]
    exact ⟨rfl, rfl⟩

/-- `BOFS_CreateNewFifo`. -/
theorem create_new_fifo (pipe buf : Bool) (h : v.store.allocInode = some inodeID) :
    Creation v parentDir room ⟨inodeID, typeFifo, name⟩ (pipe = true ∧ buf = true)
      (createNewFifo n v.store parentDir name room pipe buf) := by
  rw [createNewFifo, h]
  dsimp only
  by_cases hpipe : pipe = false ∨ buf = false
  · rw [if_pos hpipe]
    refine ⟨Function.update_self _ _ _, .inr rfl, fun _ hready => ?_, fun _ _ => rfl⟩
    rw [hready.1, hready.2] at hpipe
    exact absurd hpipe (by decide)
  · rw [if_neg hpipe, show (pipe = true ∧ buf = true) = True by simpa using hpipe]
    refine Creation.of_inode typeFifo 0 h (fun hsync => ?_) fun s' hsync => ?_
    · rw [hsync]
      exact ⟨rfl, rfl⟩
    · rw [hsync]
      exact ⟨rfl, rfl⟩

/-- `BOFS_CreateNewDirEntry`. -/
theorem create_new_dir_entry (childRoom : Nat → Bool) (h : v.store.allocInode = some inodeID) :
    Creation v parentDir room ⟨inodeID, typeDirectory, name⟩
      ((makeDir childRoom).Ready n parentDir inodeID)
      ((makeDir childRoom).create v room parentDir name) := by
  have hown : (v.store.createInode inodeID (sizeofDirEntry * 2)).dirs inodeID =
      ⟨sizeofDirEntry * 2, fun _ => none⟩ := Function.update_self _ _ _
  rw [create, DirStore.createNewDirEntry, h]
  dsimp only
  rw [hown]
  cases hself : (DirNode.mk (sizeofDirEntry * 2) fun _ => none).syncDirEntry n childRoom
      ⟨inodeID, typeDirectory, ['.']⟩ with
  | none =>
      refine ⟨Function.update_self _ _ _, .inr rfl, fun _ hready => ?_, fun _ _ => rfl⟩
      obtain ⟨node, ⟨result, hnode⟩, -⟩ := hready
      rw [hself] at hnode
      cases hnode
  | some self =>
      obtain ⟨node, result⟩ := self
      dsimp only
      cases hup : node.syncDirEntry n childRoom { parentDir with name := ['.', '.'] } with
      | none =>
          refine ⟨Function.update_self _ _ _, .inr rfl, fun _ hready => ?_, fun _ _ => rfl⟩
          obtain ⟨node', ⟨result', hnode⟩, hroom⟩ := hready
          rw [hself] at hnode
          cases hnode
          exact absurd hup hroom
      | some up =>
          obtain ⟨node', result'⟩ := up
          have hready : (makeDir childRoom).Ready n parentDir inodeID = True := by
            refine eq_true ⟨node, ⟨result, hself⟩, ?_⟩
            rw [hup]
            simp
          have hnode : ∀ blockID block, node'.block blockID = some block →
              ∀ e ∈ block, e.name.length < bofsNameLen := by
            refine sync_from_names ?_ (sync_from_names ?_ ?_ hself) hup
            · exact (show 2 < bofsNameLen by decide)
            · exact (show 1 < bofsNameLen by decide)
            · intro blockID block hblock
              cases hblock
          have hlast : ∀ s : DirStore, (s.syncInode inodeID node').dirs inodeID = node' :=
            fun s => Function.update_self _ _ _
          dsimp only
          rw [hready]
          refine Creation.of_sync (((v.store.createInode inodeID (sizeofDirEntry * 2)).syncInode
              inodeID node).syncInode inodeID node')
            (fun hparent => DirStore.parent_ne h hparent) rfl (fun inode hinode => ?_) ?_
            (fun hsync => ?_) fun s' hsync => ?_
          · exact (Function.update_of_ne hinode _ _).trans ((Function.update_of_ne hinode _ _).trans
              (Function.update_of_ne hinode _ _))
          · intro blockID block hblock
            rw [hlast] at hblock
            exact hnode blockID block hblock
          · rw [hsync]
            exact ⟨rfl, rfl⟩
          · rw [hsync]
            exact ⟨rfl, rfl⟩

/-- Each call creates an inode and an entry of its type. -/
theorem creation (call : NodeCall) (h : v.store.allocInode = some inodeID) :
    Creation v parentDir room ⟨inodeID, call.type, name⟩ (call.Ready n parentDir inodeID)
      (call.create v room parentDir name) := by
  cases call with
  | makeDir childRoom => exact create_new_dir_entry childRoom h
  | makeDevice type size => exact create_new_node type.dirType size.toNat h
  | makeTask => exact create_new_node typeTask 0 h
  | makeFifo pipe buf => exact create_new_fifo pipe buf h

theorem type_ne_invalid (call : NodeCall) : call.type ≠ typeInvalid := by
  cases call with
  | makeDir childRoom => exact (show typeDirectory ≠ typeInvalid by decide)
  | makeDevice type size =>
      cases type with
      | block => exact (show typeBlock ≠ typeInvalid by decide)
      | char => exact (show typeChar ≠ typeInvalid by decide)
      | other => exact (show typeUnknown ≠ typeInvalid by decide)
  | makeTask => exact (show typeTask ≠ typeInvalid by decide)
  | makeFifo pipe buf => exact (show typeFifo ≠ typeInvalid by decide)

end Creation

end NodeCall

/-- The call succeeds exactly if the path may be given to a new file and there is all that this
needs. Then there is one entry more, and it is the one of the path; a call that fails leaves nothing
behind. -/
structure MakesNode (v : Volume n) (path : List Char) (room : Nat → Bool) (call : NodeCall)
    (made : Made) : Prop where
  succeeds : made.result = 0 ↔
    ∃ dir, v.tree.Creatable path dir ∧ call.Resources v room path dir
  created : made.result = 0 → ∃ dir inodeID, CreatedAt v made.store path call.type dir inodeID
  kept : made.result = -1 → made.store = v.store ∧ made.pipes = 0

/-- The condition on the path and on the disk. Where an entry is created there is all that it needs
once there is an inode, since a failure keeps this inode. -/
structure MakeGuard (v : Volume n) (path : List Char) (room : Nat → Bool) (call : NodeCall) :
    Prop where
  counted : 0 < depth path
  creatable : ∀ dir, v.tree.Creatable path dir → path.count '/' < 128 →
    ∀ inodeID, v.store.allocInode = some inodeID →
      (lastName path).length < bofsNameLen ∧ call.Ready n dir inodeID ∧
        (v.tree.dirs dir.inode).syncDirEntry n room ⟨inodeID, call.type, lastName path⟩ ≠ none ∧
        NewInode n inodeID (v.tree.dirs dir.inode) ∧ SizeFits n (v.tree.dirs dir.inode)
  wrapped : ∀ dir, v.tree.Creatable path dir → 128 ≤ path.count '/' →
    ¬call.Resources v room path dir
  elsewhere : (∀ dir, ¬v.tree.Creatable path dir) → v.tree.LastMissing path →
    v.store.allocInode = none

/-! ## The walk -/

section Walk

variable {t : DirTree n} {path : List Char} {dir : DirEntry}

/-- The walk looks the name up in the directory that it has come to, and creates what is not
found. -/
theorem make_loop_reads {p left : Nat} {start : DirEntry} {name : List Char}
    (beyond : Nat → Char) (hnul : '\x00' ∉ path) (h : Reads t path p start left dir name) :
    t.makeLoop (charAt path beyond) p start left =
      if name = [] ∨ t.searchDirEntry dir name ≠ none then .fail
      else .create dir (name.take bofsNameLen) := by
  induction left generalizing p start with
  | zero =>
      obtain ⟨hcopied, rfl⟩ := h.last beyond hnul
      rw [makeLoop.eq_def]
      dsimp only
      rw [hcopied]
      by_cases hname : name = []
      · rw [if_pos ((take_eq_nil name).mpr hname), if_pos (.inl hname)]
      · rw [if_neg fun hnil => hname ((take_eq_nil name).mp hnil), search_take]
        cases hsearch : t.searchDirEntry start name with
        | none => simp [hname]
        | some e => simp
  | succ left ih =>
      obtain ⟨w, e, hcopied, hne, hfound, hnext⟩ := h.next beyond hnul
      rw [makeLoop.eq_def]
      dsimp only
      rw [hcopied, if_neg hne, hfound]
      exact ih hnext

/-- Where the path may be given to a new file, the walk comes to its directory, or fails if there
are 128 slashes. -/
theorem make_step_creatable (habsolute : path.head? = some '/') (hnul : '\x00' ∉ path)
    (hcreatable : t.Creatable path dir) (beyond : Nat → Char) (hdepth : 0 < depth path) :
    t.makeStep path beyond =
      if path.count '/' < 128 then .create dir ((lastName path).take bofsNameLen) else .fail := by
  obtain ⟨hparent, hfresh⟩ := hcreatable
  have hlast := (parent_reachable hparent).1
  rw [parentOf, if_neg hlast] at hparent
  rw [makeStep, if_neg (not_not.mpr habsolute), if_pos hdepth]
  obtain ⟨hcount, hreads⟩ | ⟨hcount, d, name, e, hreads, hfound, -⟩ :=
    counted_names habsolute hdepth hparent
  · rw [make_loop_reads beyond hnul hreads, if_pos hcount, if_neg]
    exact not_or.mpr ⟨hlast, not_not.mpr hfresh⟩
  · rw [make_loop_reads beyond hnul hreads, if_neg (not_lt.mpr hcount), if_pos]
    exact .inr (by rw [hfound]; simp)

/-- A name on the way that is not found ends the walk. -/
theorem make_loop_lost {p left : Nat} {start : DirEntry} {rest : List Char}
    (beyond : Nat → Char) (hnul : '\x00' ∉ path) (hdrop : path.drop p = '/' :: rest)
    (hleft : left < (rest.splitOn '/').length)
    (hlost : (t.follow start ((rest.splitOn '/').take left)).length ≠ left) :
    t.makeLoop (charAt path beyond) p start left = .fail := by
  induction left generalizing p start rest with
  | zero => exact absurd rfl hlost
  | succ left ih =>
      obtain ⟨w, names, hsplit, hcopied, hnext⟩ := first_copied beyond hnul hdrop
      rw [hsplit, List.take_succ_cons] at hlost
      rw [hsplit, List.length_cons] at hleft
      rw [makeLoop.eq_def]
      dsimp only
      rw [hcopied, search_take]
      by_cases hname : w.take bofsNameLen = []
      · rw [if_pos hname]
      · rw [if_neg hname]
        cases hfound : t.searchDirEntry start w with
        | none => rfl
        | some e =>
            rw [follow_found hfound, List.length_cons] at hlost
            obtain ⟨-, r, rfl, hdrop'⟩ := short_next hfound (by omega) hnext
            exact ih hdrop' (by omega) (by omega)

/-- The walk creates an entry exactly if the last name that is counted is the one that is not
found. -/
theorem make_step_eq (habsolute : path.head? = some '/') (hnul : '\x00' ∉ path)
    (beyond : Nat → Char) (hdepth : 0 < depth path) :
    (t.LastMissing path → ∃ parentDir name, t.makeStep path beyond = .create parentDir name) ∧
      (¬t.LastMissing path → t.makeStep path beyond = .fail) := by
  obtain ⟨hleft, hnames, hcount⟩ := counted_take habsolute hdepth
  obtain ⟨rest, rfl⟩ := List.head?_eq_some_iff.mp habsolute
  rw [makeStep, if_neg (not_not.mpr habsolute), if_pos hdepth, LastMissing, hcount]
  generalize (depth ('/' :: rest)).toNat - 1 = left at hleft hnames hcount ⊢
  by_cases hall : (t.follow t.root ((components ('/' :: rest)).take left)).length = left
  · have hreads : Reads t ('/' :: rest) 0 t.root left
        ((t.follow t.root ((components ('/' :: rest)).take left)).getLastD t.root)
        ((components ('/' :: rest)).getD left []) := ⟨rest, rfl, hleft, hall, rfl, rfl⟩
    have hlast : (countedNames ('/' :: rest)).getLastD [] =
        (components ('/' :: rest)).getD left [] := by
      rw [hnames, List.getLastD_eq_getLast?, List.getLast?_take, List.getD_eq_getElem?_getD,
        List.getElem?_eq_getElem hleft, if_neg (Nat.succ_ne_zero left), Nat.add_sub_cancel,
        List.getElem?_eq_getElem hleft]
      rfl
    rw [make_loop_reads beyond hnul hreads, hlast, hnames, follow_next hleft hall,
      List.length_append, hall]
    cases hfound : t.searchDirEntry
        ((t.follow t.root ((components ('/' :: rest)).take left)).getLastD t.root)
        ((components ('/' :: rest)).getD left []) with
    | none =>
        refine ⟨fun hmissing => ?_, fun hmissing => ?_⟩
        · rw [if_neg (by simpa using hmissing.2)]
          exact ⟨_, _, rfl⟩
        · rw [if_pos]
          by_contra hname
          exact hmissing ⟨rfl, (not_or.mp hname).1⟩
    | some e =>
        refine ⟨fun hmissing => absurd hmissing.1 ?_, fun _ => if_pos (.inr (by simp))⟩
        rw [Option.toList_some, List.length_singleton]
        omega
  · refine ⟨fun hmissing => absurd hmissing.1 ?_, fun _ => ?_⟩
    · intro hlength
      have htake : t.follow t.root ((countedNames ('/' :: rest)).take left) =
          (t.follow t.root (countedNames ('/' :: rest))).take left := follow_take _ left
      rw [List.take_of_length_le (l := t.follow t.root _) (by omega), hnames, List.take_take,
        Nat.min_eq_left (Nat.le_succ left)] at htake
      rw [htake, ← hnames] at hall
      omega
    · exact make_loop_lost beyond hnul rfl hleft hall

end Walk

/-! ## The law of the four calls -/

section Law

variable {v : Volume n} {path : List Char} {dir : DirEntry} {room : Nat → Bool} {call : NodeCall}
  {beyond : Nat → Char}

/-- A call that does not come to create an entry fails without a change, if there are rounds. -/
theorem made_fail (h : v.tree.makeStep path beyond = .fail) :
    call.made v path beyond room = ⟨v.store, 0, -1⟩ := by
  rw [NodeCall.made_eq, Volume.makeNode, h]

/-- Without a round the call returns 0, and nothing has been made. -/
theorem made_done (habsolute : path.head? = some '/') (h : ¬0 < depth path) :
    call.made v path beyond room = ⟨v.store, 0, 0⟩ := by
  rw [NodeCall.made_eq, Volume.makeNode, makeStep, if_neg (not_not.mpr habsolute), if_neg h]

/-- A failure without a change is right exactly if there is not all that the call needs. -/
theorem failed_makes_iff : MakesNode v path room call ⟨v.store, 0, -1⟩ ↔
    ∀ dir, v.tree.Creatable path dir → ¬call.Resources v room path dir := by
  have hne : ¬(-1 : Int) = 0 := by decide
  constructor
  · exact fun h dir hdir hresources => hne (h.succeeds.mpr ⟨dir, hdir, hresources⟩)
  · intro h
    refine ⟨iff_of_false hne ?_, fun hzero => absurd hzero hne, fun _ => ⟨rfl, rfl⟩⟩
    rintro ⟨dir, hdir, hresources⟩
    exact h dir hdir hresources

/-- Where the path may not be given to a new file, the call is right exactly if nothing is created
elsewhere. -/
theorem make_elsewhere_iff (habsolute : path.head? = some '/') (hnul : '\x00' ∉ path)
    (hdepth : 0 < depth path) (hnot : ∀ dir, ¬v.tree.Creatable path dir) :
    MakesNode v path room call (call.made v path beyond room) ↔
      (v.tree.LastMissing path → v.store.allocInode = none) := by
  have hfailed : MakesNode v path room call ⟨v.store, 0, -1⟩ :=
    failed_makes_iff.mpr fun dir hdir => absurd hdir (hnot dir)
  obtain ⟨hcreate, hfail⟩ := make_step_eq habsolute hnul beyond hdepth
  by_cases hmissing : v.tree.LastMissing path
  · obtain ⟨parentDir, name, hstep⟩ := hcreate hmissing
    rw [forall_prop_of_true hmissing, NodeCall.made_eq, Volume.makeNode, hstep]
    dsimp only
    constructor
    · intro hmakes
      rw [Option.eq_none_iff_forall_ne_some]
      intro inodeID halloc
      have hcreation : NodeCall.Creation v parentDir room ⟨inodeID, call.type, name⟩ _ _ :=
        call.creation halloc
      obtain hzero | hfailed := hcreation.result
      · obtain ⟨dir, hdir, -⟩ := hmakes.succeeds.mp hzero
        exact hnot dir hdir
      · exact taken_ne halloc hcreation.bit (hmakes.kept hfailed).1
    · intro hnone
      rw [NodeCall.create_none call hnone]
      exact hfailed
  · rw [made_fail (hfail hmissing)]
    exact iff_of_true hfailed fun h => absurd h hmissing

/-- Where the path may be given to a new file, the call is right exactly if its slashes can be
counted and there is all that it needs, or it is known to fail. -/
theorem make_creatable_iff (hn : 4 ≤ n) (hmax : n ≤ 16) (hv : v.Sound)
    (habsolute : path.head? = some '/') (hnul : '\x00' ∉ path) (hdepth : 0 < depth path)
    (hcreatable : v.tree.Creatable path dir) :
    MakesNode v path room call (call.made v path beyond room) ↔
      if path.count '/' < 128 then
        ∀ inodeID, v.store.allocInode = some inodeID →
          (lastName path).length < bofsNameLen ∧ call.Ready n dir inodeID ∧
            (v.tree.dirs dir.inode).syncDirEntry n room ⟨inodeID, call.type, lastName path⟩ ≠ none ∧
            NewInode n inodeID (v.tree.dirs dir.inode) ∧ SizeFits n (v.tree.dirs dir.inode)
      else ¬call.Resources v room path dir := by
  have hsame : ∀ dir', v.tree.Creatable path dir' → dir' = dir :=
    fun dir' hdir' => Option.some.inj (hdir'.1.symm.trans hcreatable.1)
  have hstep := make_step_creatable habsolute hnul hcreatable beyond hdepth
  by_cases hcount : path.count '/' < 128
  · rw [if_pos hcount] at hstep ⊢
    rw [NodeCall.made_eq, Volume.makeNode, hstep]
    dsimp only
    cases halloc : v.store.allocInode with
    | none =>
        rw [NodeCall.create_none call halloc, failed_makes_iff]
        refine iff_of_true ?_ fun inodeID h => absurd h (by simp)
        rintro dir' - ⟨inodeID, hsome, -⟩
        rw [halloc] at hsome
        cases hsome
    | some inodeID =>
        have hused := hv.used dir (parent_reachable hcreatable.1).2.1
        have hcreation : NodeCall.Creation v dir room
          ⟨inodeID, call.type, (lastName path).take bofsNameLen⟩ _ _ := call.creation halloc
        have hfree : v.inodeUsed inodeID = false := DirStore.alloc_inode_free halloc
        constructor
        · intro hmakes inodeID' hsome
          cases hsome
          have hzero := hcreation.result.resolve_right fun hfailed =>
            taken_ne halloc hcreation.bit (hmakes.kept hfailed).1
          have hplace : call.Ready n dir inodeID ∧ (v.tree.dirs dir.inode).syncDirEntry n room
              ⟨inodeID, call.type, (lastName path).take bofsNameLen⟩ ≠ none := by
            by_contra hfull
            have hfailed := hcreation.failed hused hfull
            rw [hzero] at hfailed
            cases hfailed
          obtain ⟨hready, hroom⟩ := hplace
          obtain ⟨-, hstored⟩ := hcreation.stored hused hready hroom
          obtain ⟨hshort, hnew, hfits⟩ := (created_iff hn hmax hv call.type_ne_invalid hcreatable
            hfree hstored).mp (hmakes.created hzero)
          rw [List.take_of_length_le hshort.le] at hroom
          exact ⟨hshort, hready, hroom, hnew, hfits⟩
        · intro hall
          obtain ⟨hshort, hready, hroom, hnew, hfits⟩ := hall inodeID rfl
          have hplace := hroom
          rw [← List.take_of_length_le (l := lastName path) hshort.le] at hplace
          obtain ⟨hzero, hstored⟩ := hcreation.stored hused hready hplace
          have hcreated := (created_iff hn hmax hv call.type_ne_invalid hcreatable hfree
            hstored).mpr ⟨hshort, hnew, hfits⟩
          refine ⟨iff_of_true hzero ⟨dir, hcreatable, inodeID, halloc, hready, hroom⟩,
            fun _ => hcreated, fun hfailed => ?_⟩
          rw [hzero] at hfailed
          cases hfailed
  · rw [if_neg hcount] at hstep ⊢
    rw [made_fail hstep, failed_makes_iff]
    constructor
    · exact fun h => h dir hcreatable
    · intro h dir' hdir'
      rw [hsame dir' hdir']
      exact h

/-- A call makes the entry of its path, or fails and leaves nothing behind, if and only if the
slashes can be counted as a `char`, everything is there that an entry needs once it has an inode,
and there is no inode where it would be made elsewhere. -/
theorem make_node_iff (hn : 4 ≤ n) (hmax : n ≤ 16) (v : Volume n) (hv : v.Sound)
    (path : List Char) (habsolute : path.head? = some '/') (hnul : '\x00' ∉ path)
    (beyond : Nat → Char) (room : Nat → Bool) (call : NodeCall) :
    MakesNode v path room call (call.made v path beyond room) ↔ MakeGuard v path room call := by
  by_cases hdepth : 0 < depth path
  · by_cases hcreatable : ∃ dir, v.tree.Creatable path dir
    · obtain ⟨dir, hdir⟩ := hcreatable
      have hsame : ∀ dir', v.tree.Creatable path dir' → dir' = dir :=
        fun dir' hdir' => Option.some.inj (hdir'.1.symm.trans hdir.1)
      rw [make_creatable_iff hn hmax hv habsolute hnul hdepth hdir]
      constructor
      · intro h
        refine ⟨hdepth, fun dir' hdir' hcount => ?_, fun dir' hdir' hcount => ?_,
          fun hnot => absurd hdir (hnot dir)⟩
        · rw [if_pos hcount] at h
          rw [hsame dir' hdir']
          exact h
        · rw [if_neg (not_lt.mpr hcount)] at h
          rw [hsame dir' hdir']
          exact h
      · intro hguard
        by_cases hcount : path.count '/' < 128
        · rw [if_pos hcount]
          exact hguard.creatable dir hdir hcount
        · rw [if_neg hcount]
          exact hguard.wrapped dir hdir (not_lt.mp hcount)
    · have hnot := not_exists.mp hcreatable
      rw [make_elsewhere_iff habsolute hnul hdepth hnot]
      constructor
      · exact fun h => ⟨hdepth, fun dir hdir => absurd hdir (hnot dir),
          fun dir hdir => absurd hdir (hnot dir), fun _ => h⟩
      · exact fun hguard => hguard.elsewhere hnot
  · rw [made_done habsolute hdepth]
    constructor
    · intro hmakes
      obtain ⟨dir, inodeID, hcreated⟩ := hmakes.created rfl
      exact absurd hcreated (not_created call.type dir inodeID)
    · exact fun hguard => absurd hguard.counted hdepth

end Law

/-! ## A FIFO without memory -/

/-- In the root directory a FIFO is made. -/
theorem root_fifo_made :
    MakesNode smallVolume ['/', 'd'] (fun _ => true) (.makeFifo true true)
      ((NodeCall.makeFifo true true).made smallVolume ['/', 'd'] (fun _ => '\x00')
        fun _ => true) := by
  have hdepth : 0 < depth ['/', 'd'] := by decide
  refine (make_node_iff (by decide) (by decide) smallVolume small_volume_sound ['/', 'd'] rfl
    (by decide) _ _ _).mpr ⟨hdepth, fun dir hdir _ inodeID halloc => ?_,
      fun dir _ hcount => absurd hcount (by decide), fun hnot => ?_⟩
  · have hnext : smallVolume.store.allocInode = some 3 := by decide
    rw [hnext] at halloc
    cases halloc
    rw [small_volume_creatable hdir]
    refine ⟨by decide, ⟨rfl, rfl⟩, ?_, small_volume_new⟩
    rw [← Option.isSome_iff_ne_none]
    decide +kernel
  · exact absurd ⟨by decide +kernel, by decide +kernel⟩ (hnot smallTree.root)

/-- Without memory for its pipe a FIFO is not made, and its inode is kept. -/
theorem fifo_inode_kept : ¬∀ (n : Nat) (v : Volume n) (path : List Char) (beyond : Nat → Char)
    (room : Nat → Bool) (call : NodeCall), 4 ≤ n → n ≤ 16 → v.Sound → path.head? = some '/' →
      '\x00' ∉ path → MakesNode v path room call (call.made v path beyond room) := by
  intro h
  have hmakes := h 4 smallVolume ['/', 'd'] (fun _ => '\x00') (fun _ => true)
    (.makeFifo false true) (by decide) (by decide) small_volume_sound rfl (by decide)
  have hkept := (hmakes.kept (by decide +kernel)).1
  have hbit := congrArg (fun s : DirStore => s.inodeUsed 3) hkept
  exact absurd hbit (by decide +kernel)

end XBook.Paths
