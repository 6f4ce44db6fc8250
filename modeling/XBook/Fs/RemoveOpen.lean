import XBook.Fs.DescriptorRuns
import XBook.Fs.FileCalls
import XBook.Fs.DirEntry

/-!
# Removal of open files

The check of `BOFS_Remove` in `fs/bofs/file.c` for the descriptors that are in use, with the
directory entries that `BOFS_OpenFile` and `BOFS_CreateFile` store in the global table. A path is
given as the inode that it leads to. Read `OpenFiles.Marked.step` first: `BOFS_FD_USING` has to
survive in the flags of every file, and a pipe has it without an entry.
-/

namespace XBook.Files

open Transition Fifos Dirs Calls FileState

/-- `BOFS_O_CREAT`. -/
abbrev oCreat : UInt32 := 0x08

/-- `BOFS_O_RDONLY`, `BOFS_O_WRONLY` and `BOFS_O_RDWR`. -/
abbrev accessModes : UInt32 := oRdonly ||| oWronly ||| oRdwr

/-- The entries of the inodes of each super block. -/
structure Disk where
  entry : Nat → Nat → Option DirEntry
  inode_eq : ∀ sb inode e, entry sb inode = some e → e.inode = inode

namespace Disk

/-- Stores an entry at its inode. -/
def store (d : Disk) (sb : Nat) (e : DirEntry) : Disk where
  entry sb' inode := if sb' = sb ∧ inode = e.inode then some e else d.entry sb' inode
  inode_eq := by
    intro sb' inode e' he'
    split at he'
    · next h =>
        obtain rfl := Option.some.inj he'
        exact h.2.symm
    · exact d.inode_eq sb' inode e' he'

/-- Takes away the entry of an inode. -/
def erase (d : Disk) (sb inode : Nat) : Disk where
  entry sb' inode' := if sb' = sb ∧ inode' = inode then none else d.entry sb' inode'
  inode_eq := by
    intro sb' inode' e' he'
    split at he'
    · cases he'
    · exact d.inode_eq sb' inode' e' he'

end Disk

/-- The descriptor tables with the entries and super blocks of the files, and the disks. -/
structure OpenFiles (τ : Type*) where
  files : FileState τ
  dirEntry : Fin maxFdNr → Option DirEntry
  superBlock : Fin maxFdNr → Option Nat
  disk : Disk

variable {τ : Type*} [DecidableEq τ]

namespace OpenFiles

/-- The state in which nothing has been opened. -/
def init (live : τ → Bool) (disk : Disk) : OpenFiles τ :=
  { files := .init live
    dirEntry := fun _ => none
    superBlock := fun _ => none
    disk }

/-- The ends of `BOFS_OpenFile` and `BOFS_CreateFile`. -/
def openFile (s : OpenFiles τ) (t : τ) (sb : Nat) (e : DirEntry) (flags : UInt32) : OpenFiles τ :=
  match s.files.allocFdGlobal with
  | none => s
  | some (_, fd) =>
      { s with
        files := (s.files.openFile t flags).1
        dirEntry := Function.update s.dirEntry fd (some e)
        superBlock := Function.update s.superBlock fd (some sb) }

/-- What `BOFS_FreeFdGlobal` clears in the entries that it frees. -/
def clearFreed (s : OpenFiles τ) (files : FileState τ) : OpenFiles τ :=
  { s with
    files
    dirEntry := fun fd => if (files.globalFdTable fd).flags = fdFree then none else s.dirEntry fd
    superBlock := fun fd =>
      if (files.globalFdTable fd).flags = fdFree then none else s.superBlock fd }

/-- `BOFS_Open` of a file that exists. With `BOFS_O_CREAT` it reopens regular files only, and with
no descriptor for a device or a FIFO it reads in front of the table of the task. -/
def «open» (s : OpenFiles τ) (t : τ) (sb inode : Nat) (flags : UInt32) : Option (OpenFiles τ) :=
  match s.disk.entry sb inode with
  | none => some s
  | some e =>
      if e.type = typeDirectory then some s
      else if flags &&& oCreat ≠ 0 ∧ e.type ≠ typeNormal then none
      else if flags &&& accessModes = 0 then some s
      else if e.type = typeNormal then some (s.openFile t sb e flags)
      else if e.type = typeFifo ∨ e.type = typeBlock ∨ e.type = typeChar then
        match (s.files.openFile t flags).2 with
        | none => none
        | some _ => some (s.openFile t sb e flags)
      else some s

/-- `BOFS_Open` where it creates a file. -/
def create (s : OpenFiles τ) (t : τ) (sb inode : Nat) (name : List Char) (flags : UInt32) :
    Option (OpenFiles τ) :=
  if flags &&& oCreat ≠ 0 ∧ s.disk.entry sb inode = none then
    let e : DirEntry := ⟨inode, typeNormal, name⟩
    some ({ s with disk := s.disk.store sb e }.openFile t sb e flags)
  else none

/-- `BOFS_Pipe`. -/
def pipe (s : OpenFiles τ) (t : τ) (allocated : Bool) : OpenFiles τ :=
  s.clearFreed (s.files.pipe t allocated)

/-- `BOFS_Close`. It uses the entry of a file that is no pipe, and the pipe of one that is. -/
def close (s : OpenFiles τ) (t : τ) (localFd : Fin maxOpenFiles) : Option (OpenFiles τ) :=
  match s.files.fdTable t localFd with
  | none => some s
  | some fd =>
      let file := s.files.globalFdTable fd
      if file.isPipe then
        if file.reference ≤ 1 ∧ file.pipe = none then none
        else some (s.clearFreed (s.files.close t localFd))
      else if s.dirEntry fd = none then none
      else some (s.clearFreed (s.files.close t localFd))

/-- The scan of `BOFS_Remove`: whether the entry is that of a descriptor, with `none` for the use of
a null pointer. -/
def scan (s : OpenFiles τ) (childDir : DirEntry) : List (Fin maxFdNr) → Option Bool
  | [] => some false
  | fd :: rest =>
      if (s.files.globalFdTable fd).flags &&& fdUsing ≠ 0 then
        match s.dirEntry fd with
        | none => none
        | some e =>
            if childDir.inode = e.inode ∧ childDir.name = e.name ∧ childDir.type = e.type then
              some true
            else scan s childDir rest
      else scan s childDir rest

/-- `BOFS_Remove` of what a path leads to, and its result. Storing the directory can fail. -/
def remove (s : OpenFiles τ) (sb inode : Nat) (synced : Bool) : Option (OpenFiles τ × Int) :=
  match s.disk.entry sb inode with
  | none => some (s, -1)
  | some childDir =>
      if childDir.type = typeDirectory then some (s, -1)
      else
        (s.scan childDir (List.finRange maxFdNr)).map fun inUse =>
          if inUse then (s, -1)
          else if synced then ({ s with disk := s.disk.erase sb inode }, 0)
          else (s, -1)

/-- A descriptor in use refers to the inode. -/
def RefersTo (s : OpenFiles τ) (fd : Fin maxFdNr) (sb inode : Nat) : Prop :=
  s.files.InUse fd ∧ s.superBlock fd = some sb ∧ ∃ e, s.dirEntry fd = some e ∧ e.inode = inode

/-- No removal uses a null pointer, and none of an inode that a descriptor refers to succeeds. -/
def RemoveSafe (s : OpenFiles τ) : Prop :=
  ∀ sb inode synced, ∃ s' result, s.remove sb inode synced = some (s', result) ∧
    ((∃ fd, s.RefersTo fd sb inode) → result = -1)

/-- Each descriptor in use has `BOFS_FD_USING`, and the entry of its inode. -/
def Marked (s : OpenFiles τ) : Prop :=
  ∀ fd, s.files.InUse fd → (s.files.globalFdTable fd).flags &&& fdUsing ≠ 0 ∧
    ∃ sb e, s.superBlock fd = some sb ∧ s.dirEntry fd = some e ∧ s.disk.entry sb e.inode = some e

end OpenFiles

open OpenFiles

/-- A call on files. -/
inductive OpenOp (τ : Type*) where
  | open (t : τ) (sb inode : Nat) (flags : UInt32)
  | create (t : τ) (sb inode : Nat) (name : List Char) (flags : UInt32)
  | pipe (t : τ) (allocated : Bool)
  | close (t : τ) (fd : Int)

/-- One call. -/
def openStep (s : OpenFiles τ) : OpenOp τ → Option (OpenFiles τ)
  | .open t sb inode flags => s.open t sb inode flags
  | .create t sb inode name flags => s.create t sb inode name flags
  | .pipe t allocated => some (s.pipe t allocated)
  | .close t fd =>
      match inTable fd with
      | none => some s
      | some localFd => s.close t localFd

/-- What is opened keeps `BOFS_FD_USING` in its flags, and no pipe gets its two descriptors. -/
def removeGuard (s : OpenFiles τ) : OpenOp τ → Prop
  | .open _ _ _ flags | .create _ _ _ _ flags => flags &&& fdUsing ≠ 0 ∨ s.files.TableFull
  | .pipe _ allocated => allocated = false ∨ s.files.AlmostFull
  | .close _ _ => True

variable {s : OpenFiles τ} {t : τ}

/-! ## The scan -/

omit [DecidableEq τ] in
/-- The scan of marked descriptors finds the entry wherever it is. -/
theorem OpenFiles.Marked.scan (h : Marked s) (childDir : DirEntry) (fds : List (Fin maxFdNr)) :
    ∃ inUse, s.scan childDir fds = some inUse ∧
      ∀ fd ∈ fds, s.files.InUse fd → s.dirEntry fd = some childDir → inUse = true := by
  induction fds with
  | nil => exact ⟨false, rfl, by simp⟩
  | cons fd rest ih =>
      obtain ⟨inUse, hscan, hrest⟩ := ih
      rw [OpenFiles.scan]
      by_cases hused : s.files.InUse fd
      · obtain ⟨husing, sb, e, -, hentry, -⟩ := h fd hused
        rw [if_pos husing, hentry]
        by_cases hsame : childDir.inode = e.inode ∧ childDir.name = e.name ∧ childDir.type = e.type
        · exact ⟨true, if_pos hsame, fun _ _ _ _ => rfl⟩
        · refine ⟨inUse, (if_neg hsame).trans hscan, fun fd' hmem hused' hfd' => ?_⟩
          rcases List.mem_cons.mp hmem with rfl | hmem
          · obtain rfl := Option.some.inj (hentry.symm.trans hfd')
            exact absurd ⟨rfl, rfl, rfl⟩ hsame
          · exact hrest fd' hmem hused' hfd'
      · have hfree : (s.files.globalFdTable fd).flags = fdFree := not_not.mp hused
        rw [if_neg (by rw [hfree]; decide)]
        refine ⟨inUse, hscan, fun fd' hmem hused' hfd' => ?_⟩
        rcases List.mem_cons.mp hmem with rfl | hmem
        · exact absurd hused' hused
        · exact hrest fd' hmem hused' hfd'

omit [DecidableEq τ] in
/-- Where all descriptors are marked, a removal is safe. -/
theorem OpenFiles.Marked.removeSafe (h : Marked s) : RemoveSafe s := by
  intro sb inode synced
  rw [OpenFiles.remove.eq_def]
  cases hchild : s.disk.entry sb inode with
  | none => exact ⟨s, -1, rfl, fun _ => rfl⟩
  | some childDir =>
      by_cases htype : childDir.type = typeDirectory
      · exact ⟨s, -1, if_pos htype, fun _ => rfl⟩
      obtain ⟨inUse, hscan, hfound⟩ := h.scan childDir (List.finRange maxFdNr)
      simp only [if_neg htype, hscan, Option.map_some]
      have hmarked : (∃ fd, s.RefersTo fd sb inode) → inUse = true := by
        rintro ⟨fd, hused, hsb, e, he, hinode⟩
        obtain ⟨-, sb', e', hsb', he', hdisk⟩ := h fd hused
        obtain rfl := Option.some.inj (hsb.symm.trans hsb')
        obtain rfl := Option.some.inj (he.symm.trans he')
        rw [hinode] at hdisk
        obtain rfl := Option.some.inj (hchild.symm.trans hdisk)
        exact hfound fd (List.mem_finRange fd) hused he
      cases inUse with
      | true => exact ⟨s, -1, rfl, fun _ => rfl⟩
      | false =>
          cases synced with
          | true => exact ⟨_, 0, rfl, fun hrefers => absurd (hmarked hrefers) (by decide)⟩
          | false => exact ⟨s, -1, rfl, fun _ => rfl⟩

/-! ## The calls -/

/-- The entry that a file gets has its flags, and the others keep theirs. -/
theorem open_file_flags (t : τ) (flags : UInt32) {s s' : FileState τ} {fd : Fin maxFdNr}
    (halloc : s.allocFdGlobal = some (s', fd)) (fd' : Fin maxFdNr) :
    ((s.openFile t flags).1.globalFdTable fd').flags =
      if fd' = fd then flags else (s.globalFdTable fd').flags := by
  rcases alloc_fd_global_spec s with ⟨-, hnone⟩ | ⟨fd₀, -, hsome⟩
  · rw [hnone] at halloc
    cases halloc
  rw [hsome] at halloc
  obtain ⟨rfl, rfl⟩ := Prod.mk.inj (Option.some.inj halloc)
  rw [FileState.openFile, hsome]
  simp only
  rcases task_install_fd_spec ((s.setFile fd₀ { s.globalFdTable fd₀ with flags := fdUsing }).setFile
    fd₀ _) t fd₀ with ⟨-, heq⟩ | ⟨i, -, heq⟩
  · rw [heq]
    simp only [setFile_globalFdTable]
    split
    · rfl
    · rfl
  · rw [heq]
    simp only [setLocal_globalFdTable, setFile_globalFdTable]
    split
    · rfl
    · rfl

/-- A new file with `BOFS_FD_USING` is marked. -/
theorem OpenFiles.Marked.openFile (h : Marked s) {sb : Nat} {e : DirEntry} {flags : UInt32}
    (hdisk : s.disk.entry sb e.inode = some e)
    (hflags : flags &&& fdUsing ≠ 0 ∨ s.files.TableFull) : Marked (s.openFile t sb e flags) := by
  rw [OpenFiles.openFile]
  rcases alloc_fd_global_spec s.files with ⟨-, hnone⟩ | ⟨fd, hfree, hsome⟩
  · rw [hnone]
    exact h
  have husing : flags &&& fdUsing ≠ 0 := hflags.resolve_right fun hfull => hfree (hfull fd)
  rw [hsome]
  intro fd' hused
  have hsame := open_file_flags t flags hsome fd'
  simp only [InUse] at hused ⊢
  rw [hsame] at hused ⊢
  by_cases hfd : fd' = fd
  · subst hfd
    rw [if_pos rfl]
    exact ⟨husing, sb, e, Function.update_self .., Function.update_self .., hdisk⟩
  · rw [if_neg hfd] at hused ⊢
    simp only [Function.update_of_ne hfd]
    exact h fd' hused

omit [DecidableEq τ] in
/-- Calls that free descriptors and keep the flags of the others keep the marks. -/
theorem OpenFiles.Marked.clearFreed (h : Marked s) {files : FileState τ}
    (hflags : ∀ fd, files.InUse fd →
      (files.globalFdTable fd).flags = (s.files.globalFdTable fd).flags) :
    Marked (s.clearFreed files) := by
  intro fd hused
  have hold : s.files.InUse fd := by
    rw [InUse, ← hflags fd hused]
    exact hused
  have husing := h fd hold
  rw [← hflags fd hused] at husing
  have hkept : (files.globalFdTable fd).flags ≠ fdFree := hused
  simp only [OpenFiles.clearFreed, if_neg hkept]
  exact husing

/-- `BOFS_Close` frees a descriptor, or keeps its flags. -/
theorem close_flags (s : FileState τ) (t : τ) (i : Fin maxOpenFiles) (fd : Fin maxFdNr)
    (hused : (s.close t i).InUse fd) :
    ((s.close t i).globalFdTable fd).flags = (s.globalFdTable fd).flags := by
  rw [FileState.close.eq_def] at hused ⊢
  cases hfd : s.fdTable t i with
  | none => rfl
  | some fd' =>
      rw [hfd] at hused
      obtain ⟨file, hfiles, -, -, hlast, hmore⟩ := close_file_spec s fd'
      simp only [InUse, setLocal_globalFdTable, hfiles, Function.update_apply] at hused ⊢
      by_cases hsame : fd = fd'
      · subst hsame
        rw [if_pos rfl] at hused ⊢
        by_cases hcount : (s.globalFdTable fd).reference ≤ 1
        · exact absurd (hlast hcount) hused
        · exact (hmore (by omega)).1
      · rw [if_neg hsame]

/-- A pipe without its two descriptors leaves those of others in use as they are. -/
theorem pipe_flags (s : FileState τ) (t : τ) {allocated : Bool}
    (hnone : allocated = false ∨ s.AlmostFull) (fd : Fin maxFdNr)
    (hused : (s.pipe t allocated).InUse fd) :
    ((s.pipe t allocated).globalFdTable fd).flags = (s.globalFdTable fd).flags := by
  rcases alloc_fd_global_spec s with ⟨-, halloc⟩ | ⟨readFd, hread, halloc⟩
  · rw [FileState.pipe, halloc]
  rcases alloc_fd_global_spec (s.setFile readFd { s.globalFdTable readFd with flags := fdUsing })
    with ⟨-, halloc'⟩ | ⟨writeFd, hwrite, halloc'⟩
  · rw [FileState.pipe, halloc] at hused ⊢
    simp only [halloc', freeFdGlobal, InUse, setFile_globalFdTable] at hused ⊢
    split at hused
    · exact absurd rfl hused
    · next hne => rw [if_neg hne, if_neg hne]
  · obtain ⟨hne, hwrite⟩ := in_use_of_alloc hwrite
    have hfail : allocated = false :=
      hnone.resolve_right fun hfew => hne (hfew _ _ hwrite hread)
    rw [FileState.pipe, halloc] at hused ⊢
    simp only [halloc', hfail, freeFdGlobal, InUse, setFile_globalFdTable, Bool.false_eq_true,
      if_false] at hused ⊢
    split at hused
    · exact absurd rfl hused
    · next hnotRead =>
        split at hused
        · exact absurd rfl hused
        · next hnotWrite =>
            rw [if_neg hnotRead, if_neg hnotWrite, if_neg hnotWrite, if_neg hnotRead]

omit [DecidableEq τ] in
/-- A file on the disk stays there when another is created. -/
theorem OpenFiles.Marked.store (h : Marked s) {sb : Nat} {e : DirEntry}
    (hnew : s.disk.entry sb e.inode = none) : Marked { s with disk := s.disk.store sb e } := by
  intro fd hused
  obtain ⟨husing, sb', e', hsb, he, hdisk⟩ := h fd hused
  refine ⟨husing, sb', e', hsb, he, ?_⟩
  show (if sb' = sb ∧ e'.inode = e.inode then some e else s.disk.entry sb' e'.inode) = some e'
  rw [if_neg]
  · exact hdisk
  · rintro ⟨rfl, hinode⟩
    rw [hinode, hnew] at hdisk
    cases hdisk

/-- What `BOFS_Open` can do with a file that exists. -/
theorem open_cases {sb inode : Nat} {flags : UInt32} {s' : OpenFiles τ}
    (hopen : s.open t sb inode flags = some s') :
    s' = s ∨ ∃ e, s.disk.entry sb inode = some e ∧ s' = s.openFile t sb e flags := by
  rw [OpenFiles.open.eq_def] at hopen
  cases hentry : s.disk.entry sb inode with
  | none =>
      rw [hentry] at hopen
      exact .inl (Option.some.inj hopen).symm
  | some e =>
      rw [hentry] at hopen
      simp only at hopen
      split at hopen
      · exact .inl (Option.some.inj hopen).symm
      split at hopen
      · cases hopen
      split at hopen
      · exact .inl (Option.some.inj hopen).symm
      split at hopen
      · exact .inr ⟨e, rfl, (Option.some.inj hopen).symm⟩
      split at hopen
      · cases hfd : (s.files.openFile t flags).2 with
        | none =>
            rw [hfd] at hopen
            cases hopen
        | some fd =>
            rw [hfd] at hopen
            exact .inr ⟨e, rfl, (Option.some.inj hopen).symm⟩
      · exact .inl (Option.some.inj hopen).symm

/-- What `BOFS_Close` can do. -/
theorem close_cases {i : Fin maxOpenFiles} {s' : OpenFiles τ} (hclose : s.close t i = some s') :
    s' = s ∨ s' = s.clearFreed (s.files.close t i) := by
  rw [OpenFiles.close.eq_def] at hclose
  split at hclose
  · exact .inl (Option.some.inj hclose).symm
  · simp only at hclose
    split at hclose
    · split at hclose
      · cases hclose
      · exact .inr (Option.some.inj hclose).symm
    · split at hclose
      · cases hclose
      · exact .inr (Option.some.inj hclose).symm

/-- A call that meets the guard keeps all descriptors marked. -/
theorem OpenFiles.Marked.step (h : Marked s) {op : OpenOp τ} (hguard : removeGuard s op)
    {s' : OpenFiles τ} (hstep : openStep s op = some s') : Marked s' := by
  cases op with
  | «open» t sb inode flags =>
      rcases open_cases hstep with rfl | ⟨e, hentry, rfl⟩
      · exact h
      · refine h.openFile ?_ hguard
        rw [s.disk.inode_eq sb inode e hentry, hentry]
  | create t sb inode name flags =>
      rw [openStep, OpenFiles.create] at hstep
      split at hstep
      · next hnew =>
          cases hstep
          refine (h.store (e := ⟨inode, typeNormal, name⟩) hnew.2).openFile ?_ hguard
          exact if_pos ⟨rfl, rfl⟩
      · cases hstep
  | pipe t allocated =>
      cases hstep
      exact h.clearFreed fun fd hused => pipe_flags s.files t hguard fd hused
  | close t fd =>
      rw [openStep.eq_def] at hstep
      cases hlocal : inTable fd with
      | none =>
          simp only [hlocal] at hstep
          cases hstep
          exact h
      | some localFd =>
          simp only [hlocal] at hstep
          rcases close_cases hstep with rfl | rfl
          · exact h
          · exact h.clearFreed fun fd hused => close_flags s.files t localFd fd hused

/-! ## Runs -/

instance (s : OpenFiles τ) : (op : OpenOp τ) → Decidable (removeGuard s op)
  | .open _ _ _ flags | .create _ _ _ _ flags =>
      inferInstanceAs (Decidable (flags &&& fdUsing ≠ 0 ∨ s.files.TableFull))
  | .pipe _ allocated =>
      inferInstanceAs (Decidable (allocated = false ∨ s.files.AlmostFull))
  | .close _ _ => inferInstanceAs (Decidable True)

/-- A disk with one file. -/
def oneFile : Disk where
  entry sb inode := if sb = 0 ∧ inode = 1 then some ⟨1, typeNormal, ['a']⟩ else none
  inode_eq := by
    intro sb inode e he
    split at he
    · next h =>
        obtain rfl := Option.some.inj he
        exact h.2.symm
    · cases he

/-- A file is opened with `BOFS_FD_USING` in its flags, and there is no memory for a pipe. -/
def markedOpen : List (OpenOp (Fin 1)) := [.open 0 0 1 (fdUsing ||| oRdonly), .pipe 0 false]

end XBook.Files
