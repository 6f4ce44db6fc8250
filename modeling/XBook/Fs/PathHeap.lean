import XBook.Lib.Heap
import XBook.Fs.MakeNode

/-!
# The heap behind the path operations

`BOFS_Access`, `BOFS_Stat`, `BOFS_Remove`, `BOFS_MakeDir`, `BOFS_RemoveDir`, `BOFS_ChangeCWD` and
`BOFS_OpenDir` with `BOFS_CloseDir` by what they allocate and free. `BOFS_SearchDirEntry` does not
free its buffer, so a call leaves the heap as it was only where it does not search, or has no memory
to do it. `path_heap_iff` is the exact condition.
-/

namespace XBook.Paths

open Fifos Dirs Dirs.DirNode DirTree Heaps
open Calls (imodeR imodeW)

variable {n : Nat}

/-- What is read by `BOFS_SearchDirEntry`: all of the directory, its first blocks where `BlockRead`
fails for the next one, or what stands in the memory of an inode that is not loaded. -/
inductive SearchReads where
  | whole
  | upTo (blockID : Nat)
  | unloaded (node : DirNode)

/-- A call with a path, and what memory, the disk and the tables have for it. The searches of a call
have numbers, and the lookups in a search. `buffer` is what a lookup reads where it has memory. -/
structure PathCall (n : Nat) where
  tree : DirTree n
  path : List Char
  beyond : Nat → Char
  record : Nat → Bool
  buffer : Nat → Nat → Option SearchReads
  /-- `inode.mode` behind `BOFS_LoadInodeByID`. -/
  mode : Nat → UInt32
  /-- Whether the global table has an open file with the entry. -/
  opened : DirEntry → Bool
  /-- `blocks[0]` of an inode. -/
  pipe : Nat → Nat
  /-- The results of `BOFS_SyncDirEntry` and of `BOFS_CreateNewDirEntry`. -/
  synced : Bool
  created : Bool
  /-- The buffers of `AllocOneSector` whose blocks could not be written. -/
  lost : Nat
  /-- What `BOFS_OpenDir` and `BOFS_OpenDirSub` get of memory and of the disk. -/
  dirEntry : Bool
  dir : Bool
  inode : Bool
  buf : Bool
  read : Bool

/-- `struct BOFS_DirSearchRecord` behind a search, with the content of its child and the result. -/
structure Record where
  found : Int
  parentDir : Nat
  childDir : Option Nat
  child : DirEntry

/-- The operations. -/
inductive PathOp where
  | access (mode : UInt32)
  | stat
  | remove
  | makeDir
  | removeDir
  | changeCWD
  | openDir

/-- `BOFS_F_OK`, `BOFS_X_OK`, `BOFS_R_OK` and `BOFS_W_OK`. -/
abbrev fOk : UInt32 := 1
abbrev xOk : UInt32 := 2
abbrev rOk : UInt32 := 3
abbrev wOk : UInt32 := 4

/-- `BOFS_IMODE_X`. -/
abbrev imodeX : UInt32 := 0x04

/-- The `BOFS_IMODE_` bit for a mode of `BOFS_Access`. -/
def inodeMode (mode : UInt32) : UInt32 :=
  if mode = xOk then imodeX else if mode = rOk then imodeR else if mode = wOk then imodeW else 0

namespace DirTree

variable (t : DirTree n)

/-- What `BOFS_SearchDirEntry` finds in what it reads. -/
def searchRead (parentDir : DirEntry) (name : List Char) : SearchReads → Option DirEntry
  | .whole => t.searchDirEntry parentDir name
  | .upTo blockID =>
      let node := t.dirs parentDir.inode
      Dirs.searchDir name ((List.range (min blockID (node.blocks n))).map (node.load n))
  | .unloaded node => node.searchDirEntry n name

/-- `BOFS_SearchDirEntry`. It returns without `kfree(iobuf)`. -/
def searchDirEntryOn (buffer : Option SearchReads) (parentDir : DirEntry) (name : List Char)
    (h : Heap) : Heap × Option DirEntry :=
  match buffer with
  | none => (h, none)
  | some reads => (h.kmalloc.1, t.searchRead parentDir name reads)

/-- The loop of `BOFS_SearchDir` at a slash of the path, before the lookup of a number. -/
def searchLoopOn (buffer : Nat → Option SearchReads) (mem : Nat → Char) (p : Nat)
    (parentDir : DirEntry) (i left : Nat) (h : Heap) : Heap × Option DirEntry :=
  let name := copyName mem (p + 1) bofsNameLen
  let r := t.searchDirEntryOn (buffer i) parentDir (cString name.1) h
  match r.2 with
  | none => (r.1, none)
  | some childDir =>
      match left with
      | 0 => (r.1, some childDir)
      | left + 1 => searchLoopOn buffer mem name.2 childDir (i + 1) left r.1

/-- The walk of `BOFS_MakeDir`. -/
def makeLoopOn (buffer : Nat → Option SearchReads) (mem : Nat → Char) (p : Nat)
    (parentDir : DirEntry) (i left : Nat) (h : Heap) : Heap × MakeStep :=
  let name := copyName mem (p + 1) bofsNameLen
  if cString name.1 = [] then (h, .fail)
  else
    let r := t.searchDirEntryOn (buffer i) parentDir (cString name.1) h
    match left with
    | 0 =>
        match r.2 with
        | some _ => (r.1, .fail)
        | none => (r.1, .create parentDir (cString name.1))
    | left + 1 =>
        match r.2 with
        | some childDir => makeLoopOn buffer mem name.2 childDir (i + 1) left r.1
        | none => (r.1, .fail)

/-- The rounds of `BOFS_RemoveDir`, up to the entry that it removes. -/
def removeLoopOn (buffer : Nat → Option SearchReads) (mem : Nat → Char) (p : Nat)
    (parentDir : DirEntry) (i left : Nat) (h : Heap) : Heap × Option DirEntry :=
  let name := copyName mem (p + 1) bofsNameLen
  if cString name.1 = [] then (h, none)
  else
    let r := t.searchDirEntryOn (buffer i) parentDir (cString name.1) h
    match left with
    | 0 => (r.1, r.2)
    | left + 1 => removeLoopOn buffer mem name.2 (r.2.getD parentDir) (i + 1) left r.1

end DirTree

namespace PathCall

variable (c : PathCall n)

/-- `BOFS_SearchDir`, which clears its two entries before it looks whether it has them. -/
def searchDir (k : Nat) (h : Heap) : Option (Heap × Record) :=
  if c.record k = false then none
  else
    let parentDir := h.kmalloc
    let childDir := parentDir.1.kmalloc
    let h := childDir.1
    if c.path.head? ≠ some '/' then some (h, ⟨-1, parentDir.2, some childDir.2, emptyEntry⟩)
    else if depth c.path = 1 ∧ c.path = ['/'] then
      some (h, ⟨0, parentDir.2, some childDir.2, c.tree.root⟩)
    else if 0 < depth c.path then
      let r := c.tree.searchLoopOn (c.buffer k) (charAt c.path c.beyond) 0 c.tree.root 0
        ((depth c.path).toNat - 1) h
      match r.2 with
      | some child => some (r.1, ⟨0, parentDir.2, some childDir.2, child⟩)
      | none => some (r.1.kfree childDir.2, ⟨-1, parentDir.2, none, emptyEntry⟩)
    else some (h, ⟨-1, parentDir.2, some childDir.2, emptyEntry⟩)

/-- A search, a result for what is found, and the end of the calls that close the child only where
it is found. -/
def lookUp (k : Nat) (found : DirEntry → Int) (h : Heap) : Option (Heap × Int) :=
  match c.searchDir k h with
  | none => none
  | some (h, record) =>
      if record.found = 0 then
        some ((h.kfreeOption record.childDir).kfree record.parentDir, found record.child)
      else some (h.kfree record.parentDir, -1)

/-- `BOFS_IsPathExist`. -/
def isPathExist (h : Heap) : Option (Heap × Int) :=
  if c.path = ['/'] then some (h, 0) else c.lookUp 0 (fun _ => 0) h

/-- `BOFS_IsPathModeTrue`. -/
def isPathModeTrue (mode : UInt32) (h : Heap) : Option (Heap × Int) :=
  if c.path = ['/'] then some (h, 0)
  else c.lookUp 1 (fun child => if c.mode child.inode &&& mode ≠ 0 then 0 else -1) h

/-- `BOFS_Access` behind its test for `BOFS_F_OK`. -/
def accessMode (mode : UInt32) (h : Heap) : Option (Heap × Int) :=
  match c.isPathModeTrue (inodeMode mode) h with
  | none => none
  | some (h, result) => some (h, if result = 0 then 0 else -1)

/-- `BOFS_Access`. -/
def access (mode : UInt32) (h : Heap) : Option (Heap × Int) :=
  if mode &&& fOk ≠ 0 then
    match c.isPathExist h with
    | none => none
    | some (h, result) => if result = 0 then some (h, 0) else c.accessMode mode h
  else c.accessMode mode h

/-- `BOFS_Stat`. -/
def stat (h : Heap) : Option (Heap × Int) :=
  if c.path = ['/'] then some (h, 0) else c.lookUp 0 (fun _ => 0) h

/-- `BOFS_ChangeCWD`. -/
def changeCWD (h : Heap) : Option (Heap × Int) :=
  if c.path = ['/'] then some (h, 0)
  else c.lookUp 0 (fun child => if child.type = typeDirectory then 0 else -1) h

/-- `BOFS_ReleaseDirEntry`, as far as it frees the pipe of a FIFO. The pipe is an object of before
the call: where it has been freed since it was made, this is one time more. -/
def releaseDirEntry (before h : Heap) (childDir : DirEntry) : Heap :=
  if childDir.type = typeFifo then
    if c.pipe childDir.inode ∈ before.live then h.kfree (c.pipe childDir.inode)
    else { h with twice := h.twice + 1 }
  else h

/-- The end of `BOFS_Remove`. -/
def closeBoth (h : Heap) (record : Record) : Heap :=
  (h.kfree record.parentDir).kfreeOption record.childDir

/-- `BOFS_Remove`. -/
def remove (h : Heap) : Option (Heap × Int) :=
  if c.path = ['/'] then some (h, -1)
  else if pathToName c.path c.beyond = none then some (h, -1)
  else
    match c.searchDir 0 h with
    | none => none
    | some (h', record) =>
        if record.found ≠ 0 then some (closeBoth h' record, -1)
        else if record.child.type = typeDirectory then some (closeBoth h' record, -1)
        else if c.opened record.child then some (closeBoth h' record, -1)
        else
          let h' := (c.releaseDirEntry h h' record.child).lose c.lost
          some (closeBoth h' record, if c.synced then 0 else -1)

/-- `BOFS_MakeDir`. -/
def makeDir (h : Heap) : Heap × Int :=
  if c.path.head? ≠ some '/' then (h, -1)
  else if 0 < depth c.path then
    let r := c.tree.makeLoopOn (c.buffer 0) (charAt c.path c.beyond) 0 c.tree.root 0
      ((depth c.path).toNat - 1) h
    match r.2 with
    | .fail => (r.1, -1)
    | .done => (r.1, 0)
    | .create _ _ => (r.1.lose c.lost, if c.created then 0 else -1)
  else (h, 0)

/-- `BOFS_RemoveDir`. -/
def removeDir (h : Heap) : Heap × Int :=
  if c.path.head? ≠ some '/' then (h, -1)
  else if 0 < depth c.path then
    let r := c.tree.removeLoopOn (c.buffer 0) (charAt c.path c.beyond) 0 c.tree.root 0
      ((depth c.path).toNat - 1) h
    match r.2 with
    | none => (r.1, -1)
    | some childDir =>
        ((c.releaseDirEntry h r.1 childDir).lose c.lost, if c.synced then 0 else -1)
  else (h, -1)

/-- `BOFS_OpenDirSub`, with the directory where it opens. Its buffer is `dir->buf`. -/
def openDirSub (h : Heap) : Heap × Option Nat :=
  if c.dir = false then (h, none)
  else
    let dir := h.kmalloc
    if c.inode = false then (dir.1.kfree dir.2, none)
    else if c.buf = false then (dir.1.kfree dir.2, none)
    else
      let buf := dir.1.kmalloc
      let h := buf.1.lose c.lost
      if c.read = false then ((h.kfree buf.2).kfree dir.2, none) else (h, some dir.2)

/-- `BOFS_CloseDir` of a directory and its entry. It leaves `dir->buf`. -/
def closeDir (h : Heap) (dirEntry dir : Nat) : Heap := (h.kfree dirEntry).kfree dir

/-- `BOFS_OpenDir` of the root, and `BOFS_CloseDir`. -/
def openRoot (h : Heap) : Heap × Int :=
  if c.dirEntry = false then (h, -1)
  else
    let dirEntry := h.kmalloc
    let r := c.openDirSub dirEntry.1
    match r.2 with
    | none => (r.1.kfree dirEntry.2, -1)
    | some dir => (closeDir r.1 dirEntry.2 dir, 0)

/-- `BOFS_OpenDir`, and `BOFS_CloseDir` of the directory that it gives. -/
def openDir (h : Heap) : Option (Heap × Int) :=
  if c.path = ['/'] then some (c.openRoot h)
  else
    match c.searchDir 0 h with
    | none => none
    | some (h, record) =>
        if record.found ≠ 0 then some (h.kfree record.parentDir, -1)
        else if record.child.type = typeNormal then
          some ((h.kfreeOption record.childDir).kfree record.parentDir, -1)
        else if record.child.type = typeDirectory then
          let r := c.openDirSub h
          match r.2, record.childDir with
          | some dir, some dirEntry =>
              some (closeDir (r.1.kfree record.parentDir) dirEntry dir, 0)
          | _, _ => some (closeBoth r.1 record, -1)
        else some (h.kfree record.parentDir, -1)

/-- A call of an operation with what it returns, where it returns. -/
def run (h : Heap) : PathOp → Option (Heap × Int)
  | .access mode => c.access mode h
  | .stat => c.stat h
  | .remove => c.remove h
  | .makeDir => some (c.makeDir h)
  | .removeDir => some (c.removeDir h)
  | .changeCWD => c.changeCWD h
  | .openDir => c.openDir h

/-- The lookups of `BOFS_RemoveDir` from a slash of the path on: one for each name in front of the
first one that is empty. -/
def lookups (mem : Nat → Char) (p : Nat) : Nat → Nat
  | 0 => if cString (copyName mem (p + 1) bofsNameLen).1 = [] then 0 else 1
  | left + 1 =>
      let name := copyName mem (p + 1) bofsNameLen
      if cString name.1 = [] then 0 else lookups mem name.2 left + 1

/-- A search that has memory for its record, and none for the buffer of its first lookup. -/
structure Unsearched (k : Nat) : Prop where
  record : c.record k = true
  absolute : c.path.head? = some '/'
  names : 0 < depth c.path
  buffer : c.buffer k 0 = none

/-- Where an operation has no lookup that has memory, and loses nothing else: the path is `/`, or
does not get to a search, or the search is without a buffer. A directory that opens keeps its own
buffer. -/
def Spared : PathOp → Prop
  | .access mode =>
      c.path = ['/'] ∨ (mode &&& fOk ≠ 0 → c.Unsearched 0) ∧ c.Unsearched 1
  | .stat => c.path = ['/'] ∨ c.Unsearched 0
  | .remove => c.path = ['/'] ∨ pathToName c.path c.beyond = none ∨ c.Unsearched 0
  | .makeDir =>
      c.path.head? ≠ some '/' ∨ depth c.path ≤ 0 ∨
        cString (copyName (charAt c.path c.beyond) 1 bofsNameLen).1 = [] ∨
          c.buffer 0 0 = none ∧ (depth c.path = 1 → c.lost = 0)
  | .removeDir =>
      c.path.head? ≠ some '/' ∨ depth c.path ≤ 0 ∨
        ∀ i < lookups (charAt c.path c.beyond) 0 ((depth c.path).toNat - 1), c.buffer 0 i = none
  | .changeCWD => c.path = ['/'] ∨ c.Unsearched 0
  | .openDir =>
      if c.path = ['/'] then
        c.dirEntry = true → c.dir = true → c.inode = true → c.buf = true →
          c.lost = 0 ∧ c.read = false
      else c.Unsearched 0

/-- A call returns, with the objects of before, and has freed nothing twice. -/
def Returned (before : Heap) (run : Option (Heap × Int)) : Prop :=
  ∃ after result, run = some (after, result) ∧ before.Balanced after

def HeapBalanced (op : PathOp) (h : Heap) : Prop := Returned h (c.run h op)

end PathCall

/-! ## Lookups -/

namespace DirTree

variable {t : DirTree n} {before h : Heap} {own : List Nat}

/-- A lookup without memory, and one that has a buffer. -/
theorem search_entry_cases (buffer : Option SearchReads) (parentDir : DirEntry)
    (name : List Char) (h : Heap) :
    buffer = none ∧ t.searchDirEntryOn buffer parentDir name h = (h, none) ∨
      buffer ≠ none ∧ (t.searchDirEntryOn buffer parentDir name h).1 = h.kmalloc.1 := by
  cases buffer with
  | none => exact .inl ⟨rfl, rfl⟩
  | some reads => exact .inr ⟨Option.some_ne_none reads, rfl⟩

/-- A loop leaves the buffer of its first lookup. -/
theorem search_loop_leaves (t : DirTree n) (buffer : Nat → Option SearchReads)
    (mem : Nat → Char) (hold : Holds before own h) (p : Nat) (parentDir : DirEntry)
    (i left : Nat) :
    Leaves before own (buffer i = none) (t.searchLoopOn buffer mem p parentDir i left h).1 := by
  induction left generalizing p parentDir i own h with
  | zero =>
      rw [searchLoopOn]
      obtain ⟨hnone, hrun⟩ | ⟨hsome, hrun⟩ := t.search_entry_cases (buffer i) parentDir
        (cString (copyName mem (p + 1) bofsNameLen).1) h
      · rw [hrun]
        exact hold.leaves hnone
      · have hleft := (hold.kmalloc.leaves trivial).left hsome
        split <;> rwa [hrun]
  | succ left ih =>
      rw [searchLoopOn]
      obtain ⟨hnone, hrun⟩ | ⟨hsome, hrun⟩ := t.search_entry_cases (buffer i) parentDir
        (cString (copyName mem (p + 1) bofsNameLen).1) h
      · rw [hrun]
        exact hold.leaves hnone
      · split
        · rw [hrun]
          exact (hold.kmalloc.leaves trivial).left hsome
        · rw [hrun]
          exact (ih hold.kmalloc _ _ _).left hsome

/-- Without memory nothing is found. -/
theorem search_loop_none {buffer : Nat → Option SearchReads} {mem : Nat → Char} {i : Nat}
    (hnone : buffer i = none) (p : Nat) (parentDir : DirEntry)
    (left : Nat) : t.searchLoopOn buffer mem p parentDir i left h = (h, none) := by
  rw [searchLoopOn.eq_def, hnone]
  rfl

/-- A walk of `BOFS_MakeDir` leaves the buffer of its first lookup. -/
theorem make_loop_leaves (t : DirTree n) (buffer : Nat → Option SearchReads)
    (mem : Nat → Char) (hold : Holds before own h) (p : Nat) (parentDir : DirEntry)
    (i left : Nat) :
    Leaves before own (cString (copyName mem (p + 1) bofsNameLen).1 = [] ∨ buffer i = none)
      (t.makeLoopOn buffer mem p parentDir i left h).1 := by
  induction left generalizing p parentDir i own h with
  | zero =>
      rw [makeLoopOn]
      split
      · next hname => exact hold.leaves (.inl hname)
      · next hname =>
          obtain ⟨hnone, hrun⟩ | ⟨hsome, hrun⟩ := t.search_entry_cases (buffer i) parentDir
            (cString (copyName mem (p + 1) bofsNameLen).1) h
          · rw [hrun]
            exact hold.leaves (.inr hnone)
          · dsimp only
            have hleft := (hold.kmalloc.leaves trivial).left (not_or.mpr ⟨hname, hsome⟩)
            split <;> rwa [hrun]
  | succ left ih =>
      rw [makeLoopOn]
      split
      · next hname => exact hold.leaves (.inl hname)
      · next hname =>
          obtain ⟨hnone, hrun⟩ | ⟨hsome, hrun⟩ := t.search_entry_cases (buffer i) parentDir
            (cString (copyName mem (p + 1) bofsNameLen).1) h
          · rw [hrun]
            exact hold.leaves (.inr hnone)
          · dsimp only
            split
            · rw [hrun]
              exact (ih hold.kmalloc _ _ _).left (not_or.mpr ⟨hname, hsome⟩)
            · rw [hrun]
              exact (hold.kmalloc.leaves trivial).left (not_or.mpr ⟨hname, hsome⟩)

/-- Without memory the walk stops at its first name. -/
theorem make_loop_none {buffer : Nat → Option SearchReads} {mem : Nat → Char} {i p left : Nat}
    (hnone : buffer i = none) (parentDir : DirEntry)
    (hname : cString (copyName mem (p + 1) bofsNameLen).1 ≠ []) :
    t.makeLoopOn buffer mem p parentDir i left h =
      (h, if left = 0 then .create parentDir (cString (copyName mem (p + 1) bofsNameLen).1)
        else .fail) := by
  rw [makeLoopOn.eq_def, hnone]
  refine (if_neg hname).trans ?_
  cases left with
  | zero => rfl
  | succ left => rfl

/-- The rounds of `BOFS_RemoveDir` leave the buffers of all their lookups. -/
theorem remove_loop_leaves (t : DirTree n) (buffer : Nat → Option SearchReads)
    (mem : Nat → Char) (hold : Holds before own h) (p : Nat) (parentDir : DirEntry)
    (i left : Nat) :
    Leaves before own (∀ j < PathCall.lookups mem p left, buffer (i + j) = none)
        (t.removeLoopOn buffer mem p parentDir i left h).1 ∧
      ((∀ j < PathCall.lookups mem p left, buffer (i + j) = none) →
        (t.removeLoopOn buffer mem p parentDir i left h).2 = none) := by
  induction left generalizing p parentDir i own h with
  | zero =>
      rw [removeLoopOn, PathCall.lookups]
      split
      · exact ⟨hold.leaves fun j hj => absurd hj (Nat.not_lt_zero j), fun _ => rfl⟩
      · obtain ⟨hnone, hrun⟩ | ⟨hsome, hrun⟩ := t.search_entry_cases (buffer i) parentDir
          (cString (copyName mem (p + 1) bofsNameLen).1) h
        · rw [hrun]
          refine ⟨hold.leaves fun j hj => ?_, fun _ => rfl⟩
          rw [Nat.lt_one_iff.mp hj]
          exact hnone
        · have hlast : ¬∀ j < 1, buffer (i + j) = none := fun hall => hsome (hall 0 Nat.one_pos)
          rw [hrun]
          exact ⟨(hold.kmalloc.leaves trivial).left hlast, fun hall => absurd hall hlast⟩
  | succ left ih =>
      rw [removeLoopOn, PathCall.lookups]
      split
      · exact ⟨hold.leaves fun j hj => absurd hj (Nat.not_lt_zero j), fun _ => rfl⟩
      · have hall : (∀ j < PathCall.lookups mem (copyName mem (p + 1) bofsNameLen).2 left + 1,
            buffer (i + j) = none) ↔ buffer i = none ∧
              ∀ j < PathCall.lookups mem (copyName mem (p + 1) bofsNameLen).2 left,
                buffer (i + 1 + j) = none := by
          rw [Nat.forall_lt_succ_left]
          refine and_congr_right fun _ => forall₂_congr fun j _ => ?_
          rw [Nat.add_right_comm, Nat.add_assoc]
        obtain ⟨hnone, hrun⟩ | ⟨hsome, hrun⟩ := t.search_entry_cases (buffer i) parentDir
          (cString (copyName mem (p + 1) bofsNameLen).1) h
        · rw [hrun]
          obtain ⟨hleaves, hgone⟩ := ih hold (copyName mem (p + 1) bofsNameLen).2
            ((none : Option DirEntry).getD parentDir) (i + 1)
          exact ⟨hleaves.congr (hall.trans (and_iff_right hnone)).symm,
            fun h => hgone (hall.mp h).2⟩
        · dsimp only
          rw [hrun]
          exact ⟨(ih hold.kmalloc _ _ _).1.left fun h => hsome (hall.mp h).1,
            fun h => absurd (hall.mp h).1 hsome⟩

theorem search_loop_child (t : DirTree n) (mem : Nat → Char) (p : Nat) (parentDir : DirEntry)
    (left : Nat) :
    (t.searchLoop mem p parentDir left).result =
      if (t.searchLoop mem p parentDir left).childDir.isSome then 0 else -1 := by
  induction left generalizing p parentDir with
  | zero =>
      rw [searchLoop]
      cases t.searchDirEntry parentDir (cString (copyName mem (p + 1) bofsNameLen).1) with
      | none => rfl
      | some childDir => rfl
  | succ left ih =>
      rw [searchLoop]
      cases t.searchDirEntry parentDir (cString (copyName mem (p + 1) bofsNameLen).1) with
      | none => rfl
      | some childDir => exact ih ..

/-- Where all is read, the loop is the one of the search, with a buffer for each directory. -/
theorem search_loop_whole (mem : Nat → Char) (p : Nat) (parentDir : DirEntry) (i left : Nat) :
    t.searchLoopOn (fun _ => some .whole) mem p parentDir i left h =
      (h.lose (t.searchLoop mem p parentDir left).searched.length,
        (t.searchLoop mem p parentDir left).childDir) := by
  induction left generalizing p parentDir i h with
  | zero =>
      rw [searchLoopOn, searchLoop]
      dsimp only [searchDirEntryOn, searchRead]
      cases t.searchDirEntry parentDir (cString (copyName mem (p + 1) bofsNameLen).1) with
      | none => rfl
      | some childDir => rfl
  | succ left ih =>
      rw [searchLoopOn, searchLoop]
      dsimp only [searchDirEntryOn, searchRead]
      cases t.searchDirEntry parentDir (cString (copyName mem (p + 1) bofsNameLen).1) with
      | none => rfl
      | some childDir => exact ih ..

end DirTree

/-! ## Searches -/

namespace PathCall

variable {c : PathCall n} {before h : Heap} {own : List Nat} {k : Nat}

/-- What a search leaves: its buffers with the entries of its record, of which the child is freed
where a name is missing. -/
inductive Searched (c : PathCall n) (k : Nat) (before : Heap) (own : List Nat) :
    Option (Heap × Record) → Prop
  | fault : c.record k = false → Searched c k before own none
  | stopped {h : Heap} {parentDir childDir : Nat} :
      ¬(c.path.head? = some '/' ∧ 0 < depth c.path) →
      Holds before (childDir :: parentDir :: own) h →
        Searched c k before own (some (h, ⟨-1, parentDir, some childDir, emptyEntry⟩))
  | found {h : Heap} {parentDir childDir : Nat} {buffers : List Nat} (child : DirEntry) :
      ¬c.Unsearched k → buffers ≠ [] → Holds before (buffers ++ childDir :: parentDir :: own) h →
        Searched c k before own (some (h, ⟨0, parentDir, some childDir, child⟩))
  | missing {h : Heap} {parentDir : Nat} {buffers : List Nat} :
      (buffers = [] ↔ c.Unsearched k) → Holds before (buffers ++ parentDir :: own) h →
        Searched c k before own (some (h, ⟨-1, parentDir, none, emptyEntry⟩))

theorem loud_of_fault (hrecord : c.record k = false) : ¬c.Unsearched k := fun hquiet => by
  rw [hquiet.record] at hrecord
  cases hrecord

/-- A search for another path than the root. -/
theorem searched (hold : Holds before own h) (hpath : c.path ≠ ['/']) (k : Nat) :
    Searched c k before own (c.searchDir k h) := by
  unfold searchDir
  split
  · next hrecord => exact .fault hrecord
  · next hrecord =>
      have hentries := hold.kmalloc.kmalloc
      dsimp only
      split
      · next hrelative => exact .stopped (fun hstart => hrelative hstart.1) hentries
      · next habsolute =>
          rw [if_neg fun hroot => hpath hroot.2]
          split
          · next hdepth =>
              have hquiet : c.buffer k 0 = none ↔ c.Unsearched k :=
                ⟨fun hnone => ⟨Bool.eq_true_of_not_eq_false hrecord, not_not.mp habsolute, hdepth,
                  hnone⟩, fun hquiet => hquiet.buffer⟩
              obtain ⟨buffers, hrun, hbuffers⟩ := (search_loop_leaves c.tree (c.buffer k)
                (charAt c.path c.beyond) hentries 0 c.tree.root 0
                ((depth c.path).toNat - 1)).congr hquiet
              split
              · next child hchild =>
                  have hloud : ¬c.Unsearched k := by
                    intro h
                    rw [search_loop_none h.buffer] at hchild
                    cases hchild
                  exact .found child hloud (fun hnil => hloud (hbuffers.mp hnil)) hrun
              · exact .missing hbuffers hrun.kfree_at
          · next hdepth => exact .stopped (fun hstart => hdepth hstart.2) hentries

/-- Where all is read, the search is the one of the tree, and finds the same entry. -/
theorem search_dir_whole (hrecord : c.record k = true)
    (hwhole : c.buffer k = fun _ => some .whole) :
    ∃ h' record, c.searchDir k h = some (h', record) ∧
      record.found = (c.tree.searchDir c.path c.beyond).result ∧
        (record.found = 0 → (c.tree.searchDir c.path c.beyond).childDir = some record.child) := by
  have hfail : (-1 : Int) ≠ 0 := by decide
  unfold searchDir DirTree.searchDir
  rw [if_neg (by rw [hrecord]; exact Bool.noConfusion)]
  dsimp only
  split
  · exact ⟨_, _, rfl, rfl, fun h => absurd h hfail⟩
  split
  · exact ⟨_, _, rfl, rfl, fun _ => rfl⟩
  split
  · have hresult := search_loop_child c.tree (charAt c.path c.beyond) 0 c.tree.root
      ((depth c.path).toNat - 1)
    rw [hwhole, search_loop_whole, hresult]
    cases (c.tree.searchLoop (charAt c.path c.beyond) 0 c.tree.root
        ((depth c.path).toNat - 1)).childDir with
    | none => exact ⟨_, _, rfl, rfl, fun h => absurd h hfail⟩
    | some child => exact ⟨_, _, rfl, rfl, fun _ => rfl⟩
  · exact ⟨_, _, rfl, rfl, fun h => absurd h hfail⟩

/-- A lookup of another path than the root. -/
theorem look_up_leaves (hold : Holds before own h) (hpath : c.path ≠ ['/']) (k : Nat)
    (found : DirEntry → Int) :
    c.lookUp k found h = none ∧ ¬c.Unsearched k ∨ ∃ h' result,
      c.lookUp k found h = some (h', result) ∧ Leaves before own (c.Unsearched k) h' ∧
        (c.Unsearched k → result = -1) := by
  have hfail : (-1 : Int) ≠ 0 := by decide
  have hsearched := searched hold hpath k
  unfold lookUp
  generalize c.searchDir k h = run at hsearched ⊢
  cases hsearched with
  | fault hrecord => exact .inl ⟨rfl, loud_of_fault hrecord⟩
  | stopped hstart hentries =>
      have hloud : ¬c.Unsearched k := fun hquiet => hstart ⟨hquiet.absolute, hquiet.names⟩
      refine .inr ⟨_, _, if_neg hfail, ?_, fun _ => rfl⟩
      exact (hentries.kfree_next.leaves trivial).left hloud
  | found child hloud hbuffers hentries =>
      refine .inr ⟨_, _, if_pos rfl, ?_, fun hquiet => absurd hquiet hloud⟩
      exact ⟨_, hentries.kfree_at.kfree_at, iff_of_false hbuffers hloud⟩
  | missing hbuffers hentries =>
      exact .inr ⟨_, _, if_neg hfail, ⟨_, hentries.kfree_at, hbuffers⟩, fun _ => rfl⟩

/-! ## Operations -/

theorem not_returned_none : ¬Returned before none := by
  rintro ⟨_, _, heq, -⟩
  cases heq

theorem returned_some (result : Int) : Returned before (some (h, result)) ↔ before.Balanced h := by
  constructor
  · rintro ⟨_, _, heq, hbalanced⟩
    cases heq
    exact hbalanced
  · exact fun hbalanced => ⟨h, result, rfl, hbalanced⟩

theorem returned_same (h : Heap) (result : Int) : Returned h (some (h, result)) :=
  (returned_some result).mpr ⟨rfl, rfl⟩

/-- `BOFS_Stat`, `BOFS_ChangeCWD`, and a test of `BOFS_Access`. -/
theorem look_up_iff (hpath : c.path ≠ ['/']) (k : Nat) (found : DirEntry → Int) :
    Returned h (c.lookUp k found h) ↔ c.Unsearched k := by
  obtain ⟨hrun, hloud⟩ | ⟨h', result, hrun, hleaves, -⟩ := look_up_leaves (.refl h) hpath k found
  · rw [hrun]
    exact iff_of_false not_returned_none hloud
  · rw [hrun, returned_some]
    exact hleaves.balanced_iff

theorem look_up_root_iff (k : Nat) (found : DirEntry → Int) (result : Int) :
    Returned h (if c.path = ['/'] then some (h, result) else c.lookUp k found h) ↔
      c.path = ['/'] ∨ c.Unsearched k := by
  split
  · next hpath => exact iff_of_true (returned_same h result) (.inl hpath)
  · next hpath => rw [look_up_iff hpath, or_iff_right hpath]

/-- The test of `BOFS_Access` for a mode. -/
theorem access_mode_leaves (hold : Holds before own h) (hpath : c.path ≠ ['/']) (mode : UInt32) :
    c.accessMode mode h = none ∧ ¬c.Unsearched 1 ∨ ∃ h' result,
      c.accessMode mode h = some (h', result) ∧ Leaves before own (c.Unsearched 1) h' := by
  unfold accessMode isPathModeTrue
  rw [if_neg hpath]
  obtain ⟨hrun, hloud⟩ | ⟨h', result, hrun, hleaves, -⟩ := look_up_leaves hold hpath 1
    fun child => if c.mode child.inode &&& inodeMode mode ≠ 0 then 0 else -1
  · rw [hrun]
    exact .inl ⟨rfl, hloud⟩
  · rw [hrun]
    exact .inr ⟨h', _, rfl, hleaves⟩

theorem access_mode_iff (hpath : c.path ≠ ['/']) (mode : UInt32) :
    Returned h (c.accessMode mode h) ↔ c.Unsearched 1 := by
  obtain ⟨hrun, hloud⟩ | ⟨h', result, hrun, hleaves⟩ := access_mode_leaves (.refl h) hpath mode
  · rw [hrun]
    exact iff_of_false not_returned_none hloud
  · rw [hrun, returned_some]
    exact hleaves.balanced_iff

theorem access_heap_iff (mode : UInt32) :
    Returned h (c.access mode h) ↔ c.Spared (.access mode) := by
  unfold access
  by_cases hpath : c.path = ['/']
  · refine iff_of_true ?_ (.inl hpath)
    unfold accessMode isPathExist isPathModeTrue
    simp only [if_pos hpath]
    split <;> exact returned_same h 0
  · have hcond : c.Spared (.access mode) ↔
        (mode &&& fOk ≠ 0 → c.Unsearched 0) ∧ c.Unsearched 1 := or_iff_right hpath
    rw [hcond]
    split
    · next hmode =>
        rw [imp_iff_right hmode]
        unfold isPathExist
        rw [if_neg hpath]
        obtain ⟨hrun, hloud⟩ | ⟨h', result, hrun, hleaves, hresult⟩ :=
          look_up_leaves (.refl h) hpath 0 fun _ => 0
        · rw [hrun]
          exact iff_of_false not_returned_none fun hquiet => hloud hquiet.1
        · rw [hrun]
          dsimp only
          split
          · next hfound =>
              have hloud : ¬c.Unsearched 0 := fun hquiet => by
                rw [hresult hquiet] at hfound
                cases hfound
              rw [returned_some, hleaves.balanced_iff]
              exact iff_of_false hloud fun hquiet => hloud hquiet.1
          · obtain ⟨more, hold, hmore⟩ := hleaves
            obtain ⟨hrun', hloud⟩ | ⟨after, result', hrun', hleaves'⟩ :=
              access_mode_leaves hold hpath mode
            · rw [hrun']
              exact iff_of_false not_returned_none fun hquiet => hloud hquiet.2
            · rw [hrun', returned_some]
              exact (hleaves'.after hmore).balanced_iff
    · next hmode => rw [access_mode_iff hpath, and_iff_right fun h => absurd h hmode]

/-- A pipe of before is no object of the call. -/
theorem live_release {p : Nat} (hp : p ∈ h.live) (hnew : p ∉ before.live) (childDir : DirEntry) :
    p ∈ (c.releaseDirEntry before h childDir).live := by
  unfold releaseDirEntry
  split
  · split
    · next hpipe => exact Heap.live_kfree hp fun heq => hnew (heq ▸ hpipe)
    · exact hp
  · exact hp

/-- Both entries are closed, the parent first. -/
theorem close_both_holds {parentDir childDir : Nat} {buffers : List Nat}
    (hold : Holds before (buffers ++ childDir :: parentDir :: own) h) (found : Int)
    (child : DirEntry) :
    Holds before (buffers ++ own) (closeBoth h ⟨found, parentDir, some childDir, child⟩) := by
  have hsplit : buffers ++ childDir :: parentDir :: own =
      (buffers ++ [childDir]) ++ parentDir :: own := (List.append_cons ..)
  rw [hsplit] at hold
  have hparent := hold.kfree_at
  rw [← List.append_cons] at hparent
  exact hparent.kfree_at

/-- A search that has found an entry leaves its buffers, whatever becomes of the entry. -/
theorem remove_found {h' : Heap} {parentDir childDir : Nat} {buffers : List Nat}
    (hbuffers : buffers ≠ []) (hold : Holds h (buffers ++ [childDir, parentDir]) h')
    (child entry : DirEntry) (count : Nat) (result : Int) :
    ¬Returned h (some (closeBoth ((c.releaseDirEntry h h' child).lose count)
      ⟨0, parentDir, some childDir, entry⟩, result)) := by
  obtain ⟨p, hp⟩ := List.exists_mem_of_ne_nil buffers hbuffers
  have happart := (List.nodup_append.mp hold.nodup).2.2 p hp
  have hown : p ∈ buffers ++ [childDir, parentDir] := List.mem_append_left _ hp
  have hnew := hold.apart p hown
  rw [returned_some]
  refine Heap.not_balanced hnew ?_
  refine Heap.live_kfree (Heap.live_kfree (Heap.live_lose ?_ count) ?_) ?_
  · exact live_release ((hold.live p).mpr (.inr hown)) hnew child
  · exact happart parentDir (List.mem_cons_of_mem _ (List.mem_singleton_self _))
  · exact happart childDir (List.mem_cons_self ..)

/-- A path with a last name is absolute, and has slashes that are counted. -/
theorem start_of_name (hname : pathToName c.path c.beyond ≠ none) :
    c.path.head? = some '/' ∧ 0 < depth c.path := by
  unfold pathToName at hname
  split at hname
  · exact absurd rfl hname
  · next habsolute =>
      split at hname
      · next hdepth => exact ⟨not_not.mp habsolute, hdepth⟩
      · exact absurd rfl hname

theorem remove_heap_iff : Returned h (c.remove h) ↔ c.Spared .remove := by
  unfold remove
  by_cases hpath : c.path = ['/']
  · rw [if_pos hpath]
    exact iff_of_true (returned_same h _) (.inl hpath)
  rw [if_neg hpath]
  by_cases hname : pathToName c.path c.beyond = none
  · rw [if_pos hname]
    exact iff_of_true (returned_same h _) (.inr (.inl hname))
  rw [if_neg hname]
  have hcond : c.Spared .remove ↔ c.Unsearched 0 := (or_iff_right hpath).trans (or_iff_right hname)
  have hfail : (-1 : Int) ≠ 0 := by decide
  rw [hcond]
  have hsearched := searched (.refl h) hpath 0
  generalize c.searchDir 0 h = run at hsearched ⊢
  cases hsearched with
  | fault hrecord => exact iff_of_false not_returned_none (loud_of_fault hrecord)
  | stopped hstart _ => exact absurd (start_of_name hname) hstart
  | @found h' parentDir childDir buffers child hloud hbuffers hentries =>
      refine iff_of_false ?_ hloud
      have hclosed : ∀ result, ¬Returned h
          (some (closeBoth h' ⟨0, parentDir, some childDir, child⟩, result)) := by
        intro result
        rw [returned_some, (close_both_holds hentries 0 child).balanced_iff, List.append_nil]
        exact hbuffers
      dsimp only
      rw [if_neg (not_not.mpr rfl)]
      split
      · exact hclosed _
      · split
        · exact hclosed _
        · exact remove_found hbuffers hentries child child c.lost _
  | missing hbuffers hentries =>
      dsimp only
      rw [if_pos hfail, returned_some]
      have hclosed := hentries.kfree_at
      rw [List.append_nil] at hclosed
      exact hclosed.balanced_iff.trans hbuffers

theorem make_dir_heap_iff : Returned h (some (c.makeDir h)) ↔ c.Spared .makeDir := by
  unfold makeDir
  by_cases habsolute : c.path.head? ≠ some '/'
  · rw [if_pos habsolute]
    exact iff_of_true (returned_same h _) (.inl habsolute)
  rw [if_neg habsolute]
  by_cases hdepth : 0 < depth c.path
  swap
  · rw [if_neg hdepth]
    exact iff_of_true (returned_same h _) (.inr (.inl (not_lt.mp hdepth)))
  rw [if_pos hdepth]
  have hcond : c.Spared .makeDir ↔
      cString (copyName (charAt c.path c.beyond) 1 bofsNameLen).1 = [] ∨
        c.buffer 0 0 = none ∧ (depth c.path = 1 → c.lost = 0) :=
    (or_iff_right habsolute).trans (or_iff_right (not_le.mpr hdepth))
  rw [hcond]
  have hleaves := make_loop_leaves c.tree (c.buffer 0)
    (charAt c.path c.beyond) (Holds.refl h) 0 c.tree.root 0 ((depth c.path).toNat - 1)
  by_cases hname : cString (copyName (charAt c.path c.beyond) 1 bofsNameLen).1 = []
  · have hrun : c.tree.makeLoopOn (c.buffer 0) (charAt c.path c.beyond) 0 c.tree.root 0
        ((depth c.path).toNat - 1) h = (h, .fail) := by
      rw [makeLoopOn.eq_def]
      exact if_pos hname
    rw [hrun]
    exact iff_of_true (returned_same h _) (.inl hname)
  rw [or_iff_right hname]
  by_cases hbuffer : c.buffer 0 0 = none
  · rw [make_loop_none hbuffer c.tree.root hname, and_iff_right hbuffer]
    by_cases hone : (depth c.path).toNat - 1 = 0
    · have hlast : depth c.path = 1 := by omega
      rw [if_pos hone, imp_iff_right hlast]
      dsimp only
      rw [returned_some]
      exact ((Holds.refl h).leaves_lost c.lost).balanced_iff
    · rw [if_neg hone]
      exact iff_of_true (returned_same h _) fun hlast => absurd hlast (by omega)
  · refine iff_of_false ?_ fun hquiet => hbuffer hquiet.1
    generalize c.tree.makeLoopOn (c.buffer 0) (charAt c.path c.beyond) 0 c.tree.root 0
      ((depth c.path).toNat - 1) h = run at hleaves ⊢
    obtain ⟨p, hnew, hlive⟩ := hleaves.exists_new (not_or.mpr ⟨hname, hbuffer⟩)
    dsimp only
    split
    · rw [returned_some]
      exact Heap.not_balanced hnew hlive
    · rw [returned_some]
      exact Heap.not_balanced hnew hlive
    · rw [returned_some]
      exact Heap.not_balanced hnew (Heap.live_lose hlive c.lost)

theorem remove_dir_heap_iff : Returned h (some (c.removeDir h)) ↔ c.Spared .removeDir := by
  unfold removeDir
  by_cases habsolute : c.path.head? ≠ some '/'
  · rw [if_pos habsolute]
    exact iff_of_true (returned_same h _) (.inl habsolute)
  rw [if_neg habsolute]
  by_cases hdepth : 0 < depth c.path
  swap
  · rw [if_neg hdepth]
    exact iff_of_true (returned_same h _) (.inr (.inl (not_lt.mp hdepth)))
  rw [if_pos hdepth]
  have hcond : c.Spared .removeDir ↔
      ∀ i < lookups (charAt c.path c.beyond) 0 ((depth c.path).toNat - 1), c.buffer 0 i = none :=
    (or_iff_right habsolute).trans (or_iff_right (not_le.mpr hdepth))
  rw [hcond]
  obtain ⟨hleaves, hgone⟩ := remove_loop_leaves c.tree (c.buffer 0)
    (charAt c.path c.beyond) (Holds.refl h) 0 c.tree.root 0 ((depth c.path).toNat - 1)
  simp only [Nat.zero_add] at hleaves hgone
  by_cases hquiet : ∀ i < lookups (charAt c.path c.beyond) 0 ((depth c.path).toNat - 1),
      c.buffer 0 i = none
  · dsimp only
    rw [hgone hquiet, returned_some]
    exact hleaves.balanced_iff
  · refine iff_of_false ?_ hquiet
    generalize c.tree.removeLoopOn (c.buffer 0) (charAt c.path c.beyond) 0 c.tree.root 0
      ((depth c.path).toNat - 1) h = run at hleaves ⊢
    obtain ⟨p, hnew, hlive⟩ := hleaves.exists_new hquiet
    dsimp only
    split
    · rw [returned_some]
      exact Heap.not_balanced hnew hlive
    · rw [returned_some]
      exact Heap.not_balanced hnew (Heap.live_lose (live_release hlive hnew _) c.lost)

/-- The opening of a directory leaves nothing where it fails, but what has been lost by then. -/
theorem open_dir_sub_leaves (hold : Holds before own h) :
    (∃ dir buf more, (c.openDirSub h).2 = some dir ∧
      Holds before (more ++ buf :: dir :: own) (c.openDirSub h).1) ∧
        (c.dir = true ∧ c.inode = true ∧ c.buf = true ∧ c.read = true) ∨
    (c.openDirSub h).2 = none ∧
      Leaves before own (c.dir = true → c.inode = true → c.buf = true → c.lost = 0)
        (c.openDirSub h).1 ∧ ¬(c.dir = true ∧ c.inode = true ∧ c.buf = true ∧ c.read = true) := by
  unfold openDirSub
  cases hdir : c.dir with
  | false => exact .inr ⟨rfl, hold.leaves (by simp), by simp⟩
  | true =>
      have hsub := hold.kmalloc
      cases hinode : c.inode with
      | false => exact .inr ⟨rfl, hsub.kfree_head.leaves (by simp), by simp⟩
      | true =>
          cases hbuf : c.buf with
          | false => exact .inr ⟨rfl, hsub.kfree_head.leaves (by simp), by simp⟩
          | true =>
              obtain ⟨lost, hlength, hlost⟩ := hsub.kmalloc.lose c.lost
              cases hread : c.read with
              | false =>
                  refine .inr ⟨rfl, ⟨lost, hlost.kfree_at.kfree_at, ?_⟩, by simp⟩
                  rw [← hlength, List.length_eq_zero_iff]
                  simp
              | true => exact .inl ⟨⟨_, _, lost, rfl, hlost⟩, rfl, rfl, rfl, rfl⟩

/-- A directory that is closed leaves its buffer. -/
theorem close_dir_left {buf dir dirEntry : Nat} {more older : List Nat}
    (hold : Holds before (more ++ buf :: dir :: older) h) (parentDir : Nat)
    (hentry : dirEntry ∈ older) (hparent : parentDir ∈ older) :
    ¬before.Balanced (closeDir h dirEntry dir) ∧
      ¬before.Balanced (closeDir (h.kfree parentDir) dirEntry dir) := by
  obtain ⟨hnew, hlive, hne⟩ := hold.owned
  have hdir := hne dir (List.mem_cons_self ..)
  have hentry := hne dirEntry (List.mem_cons_of_mem _ hentry)
  have hparent := hne parentDir (List.mem_cons_of_mem _ hparent)
  exact ⟨Heap.not_balanced hnew (Heap.live_kfree (Heap.live_kfree hlive hentry) hdir),
    Heap.not_balanced hnew
      (Heap.live_kfree (Heap.live_kfree (Heap.live_kfree hlive hparent) hentry) hdir)⟩

theorem open_root_heap_iff : Returned h (some (c.openRoot h)) ↔
    (c.dirEntry = true → c.dir = true → c.inode = true → c.buf = true →
      c.lost = 0 ∧ c.read = false) := by
  unfold openRoot
  cases hentry : c.dirEntry with
  | false => exact iff_of_true (returned_same h _) fun h => by cases h
  | true =>
      rw [if_neg Bool.noConfusion, imp_iff_right rfl]
      dsimp only
      obtain ⟨⟨dir, buf, more, hopen, hold⟩, hdir, hinode, hbuf, hread⟩ |
          ⟨hopen, ⟨more, hold, hmore⟩, hfails⟩ :=
        open_dir_sub_leaves (c := c) (Holds.refl h).kmalloc
      · rw [hopen, returned_some]
        refine iff_of_false (close_dir_left hold _ (List.mem_singleton_self _)
          (List.mem_singleton_self _)).1 fun hquiet => ?_
        rw [(hquiet hdir hinode hbuf).2] at hread
        cases hread
      · have hclosed := hold.kfree_at
        rw [List.append_nil] at hclosed
        rw [hopen, returned_some, hclosed.balanced_iff, hmore]
        refine ⟨fun hlost hdir hinode hbuf => ⟨hlost hdir hinode hbuf, ?_⟩,
          fun hquiet hdir hinode hbuf => (hquiet hdir hinode hbuf).1⟩
        exact Bool.eq_false_of_not_eq_true fun hread => hfails ⟨hdir, hinode, hbuf, hread⟩

theorem open_dir_heap_iff : Returned h (c.openDir h) ↔ c.Spared .openDir := by
  unfold openDir
  by_cases hpath : c.path = ['/']
  · have hcond : c.Spared .openDir ↔ (c.dirEntry = true → c.dir = true → c.inode = true →
        c.buf = true → c.lost = 0 ∧ c.read = false) := iff_of_eq (if_pos hpath)
    rw [if_pos hpath, hcond]
    exact open_root_heap_iff
  have hcond : c.Spared .openDir ↔ c.Unsearched 0 := iff_of_eq (if_neg hpath)
  have hfail : (-1 : Int) ≠ 0 := by decide
  rw [if_neg hpath, hcond]
  have hsearched := searched (.refl h) hpath 0
  generalize c.searchDir 0 h = run at hsearched ⊢
  cases hsearched with
  | fault hrecord => exact iff_of_false not_returned_none (loud_of_fault hrecord)
  | stopped hstart hentries =>
      have hclosed := hentries.kfree_next
      dsimp only
      rw [if_pos hfail, returned_some, hclosed.balanced_iff]
      exact iff_of_false (List.cons_ne_nil _ _) fun hquiet => hstart ⟨hquiet.absolute, hquiet.names⟩
  | @found h' parentDir childDir buffers child hloud hbuffers hentries =>
      refine iff_of_false ?_ hloud
      dsimp only
      rw [if_neg (not_not.mpr rfl)]
      split
      · rw [returned_some]
        have hclosed : Holds h (buffers ++ []) ((h'.kfree childDir).kfree parentDir) :=
          hentries.kfree_at.kfree_at
        rw [List.append_nil] at hclosed
        exact fun hbalanced => hbuffers (hclosed.balanced_iff.mp hbalanced)
      split
      · obtain ⟨⟨dir, buf, more, hopen, hold⟩, -⟩ | ⟨hopen, ⟨more, hold, -⟩, -⟩ :=
          open_dir_sub_leaves (c := c) hentries
        · rw [hopen]
          dsimp only
          rw [returned_some]
          exact (close_dir_left hold parentDir (by simp) (by simp)).2
        · rw [hopen]
          dsimp only
          rw [← List.append_assoc] at hold
          rw [returned_some, (close_both_holds hold 0 child).balanced_iff, List.append_nil]
          exact List.append_ne_nil_of_right_ne_nil more hbuffers
      · have hsplit : buffers ++ [childDir, parentDir] = (buffers ++ [childDir]) ++ [parentDir] :=
          List.append_cons ..
        rw [hsplit] at hentries
        rw [returned_some, hentries.kfree_at.balanced_iff]
        simp
  | missing hbuffers hentries =>
      have hclosed := hentries.kfree_at
      rw [List.append_nil] at hclosed
      dsimp only
      rw [if_pos hfail, returned_some, hclosed.balanced_iff]
      exact hbuffers

/-- A path operation leaves the objects of the heap as they were, and frees nothing twice, if and
only if it does not come to a lookup that has memory for its buffer, and no buffer of a directory
that is read or of a block is lost. -/
theorem path_heap_iff (c : PathCall n) (op : PathOp) (h : Heap) :
    c.HeapBalanced op h ↔ c.Spared op := by
  cases op with
  | access mode => exact access_heap_iff mode
  | stat => exact look_up_root_iff 0 (fun _ => 0) 0
  | remove => exact remove_heap_iff
  | makeDir => exact make_dir_heap_iff
  | removeDir => exact remove_dir_heap_iff
  | changeCWD => exact look_up_root_iff 0 _ 0
  | openDir => exact open_dir_heap_iff

/-- A call for a file of the root, where nothing fails. -/
def statFile : PathCall 4 where
  tree := DirTree.fileTree
  path := ['/', 'f']
  beyond := fun _ => '\x00'
  record := fun _ => true
  buffer := fun _ _ => some .whole
  mode := fun _ => imodeR
  opened := fun _ => false
  pipe := fun _ => 0
  synced := true
  created := true
  lost := 0
  dirEntry := true
  dir := true
  inode := true
  buf := true
  read := true

/-- A heap without objects. -/
def emptyHeap : Heap := ⟨∅, 0, 0, fun p hp => absurd hp (Finset.notMem_empty p)⟩

/-- `BOFS_Stat` finds the file, and its lookup leaves the buffer. -/
theorem stat_leaves_buffer : ¬statFile.HeapBalanced .stat emptyHeap := by
  intro hbalanced
  have hstat : Returned emptyHeap (statFile.stat emptyHeap) := hbalanced
  obtain hroot | hquiet := (look_up_root_iff 0 _ 0).mp hstat
  · exact absurd hroot (by decide)
  · cases hquiet.buffer

end PathCall

end XBook.Paths
