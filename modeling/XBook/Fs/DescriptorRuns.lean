import XBook.Fs.DescriptorCounts

/-!
# Runs of the descriptor tables

`fileGuard` is the state in which a call keeps the counts: a call that opens finds a place in the
table of its task, and a program is loaded by a task that has nothing but its first three
descriptors. Read `open_file_spec` first, for which of its ends `BOFS_Open` reaches.
-/

namespace XBook.Files

open Tally Transition FileState

variable {τ : Type*} [Fintype τ] [DecidableEq τ] {s : FileState τ} {t : τ}

/-- The task has a free descriptor. -/
def FileState.HasSlot (s : FileState τ) (t : τ) : Prop := ∃ i, s.fdTable t i = none

/-- Every entry of the global table is in use. -/
def FileState.TableFull (s : FileState τ) : Prop := ∀ fd, s.InUse fd

/-! ## Opening -/

omit [Fintype τ] [DecidableEq τ] in
/-- `BOFS_AllocFdGlobal` finds a free entry if there is one. -/
theorem alloc_fd_global_spec (s : FileState τ) :
    s.TableFull ∧ s.allocFdGlobal = none ∨
      ∃ fd, ¬ s.InUse fd ∧ s.allocFdGlobal =
        some (s.setFile fd { s.globalFdTable fd with flags := fdUsing }, fd) := by
  rw [allocFdGlobal]
  cases hfind : (List.finRange maxFdNr).find? fun fd => (s.globalFdTable fd).flags = fdFree with
  | none =>
      refine .inl ⟨fun fd => ?_, rfl⟩
      have hused := List.find?_eq_none.mp hfind fd (List.mem_finRange fd)
      exact of_decide_eq_false (by simpa using hused)
  | some fd =>
      have hfree := List.find?_some hfind
      exact .inr ⟨fd, not_not.mpr (by simpa using hfree), rfl⟩

omit [Fintype τ] in
/-- `TaskInstallFD` finds a free descriptor if there is one. -/
theorem task_install_fd_spec (s : FileState τ) (t : τ) (fd : Fin maxFdNr) :
    ¬ s.HasSlot t ∧ s.taskInstallFD t fd = (s, none) ∨
      ∃ i, s.fdTable t i = none ∧ s.taskInstallFD t fd = (s.setLocal t i (some fd), some i) := by
  rw [taskInstallFD]
  cases hfind : (List.finRange maxOpenFiles).find? fun i => s.fdTable t i = none with
  | none =>
      refine .inl ⟨?_, rfl⟩
      rintro ⟨i, hnone⟩
      have hused := List.find?_eq_none.mp hfind i (List.mem_finRange i)
      exact hused (by simpa using hnone)
  | some i =>
      have hfree := List.find?_some hfind
      exact .inr ⟨i, by simpa using hfree, rfl⟩

omit [DecidableEq τ] in
/-- An entry that is not in use has no name. -/
theorem Balanced.unnamed (h : Balanced s) {fd : Fin maxFdNr} (hfd : ¬ s.InUse fd) :
    s.names fd = 0 := not_not.mp fun hne => hfd ((h.used fd).mpr hne)

/-- The entry of a file that has been opened. -/
abbrev openedFile (s : FileState τ) (fd : Fin maxFdNr) (flags : UInt32) : FileDescriptor :=
  { s.globalFdTable fd with pos := 0, reference := 1, flags }

omit [Fintype τ] in
/-- The ends of `BOFS_OpenFile`: no entry, an entry without a descriptor, or both. -/
theorem open_file_ends (s : FileState τ) (t : τ) (flags : UInt32) :
    s.TableFull ∧ s.allocFdGlobal = none ∧ s.openFile t flags = (s, none) ∨
      ∃ fd used, ¬ s.InUse fd ∧ s.allocFdGlobal = some (used, fd) ∧
        (¬ s.HasSlot t ∧
            s.openFile t flags = (s.setFile fd (openedFile s fd flags), none) ∨
          ∃ i, s.fdTable t i = none ∧ s.openFile t flags =
            ((s.setFile fd (openedFile s fd flags)).setLocal t i (some fd), some i)) := by
  rcases alloc_fd_global_spec s with ⟨hfull, halloc⟩ | ⟨fd, hfd, halloc⟩
  · refine .inl ⟨hfull, halloc, ?_⟩
    rw [openFile, halloc]
  · have hopen : s.openFile t flags =
        (s.setFile fd (openedFile s fd flags)).taskInstallFD t fd := by
      rw [openFile, halloc]
      dsimp only
      rw [FileState.setFile, FileState.setFile, FileState.setFile]
      dsimp only
      rw [Function.update_self, Function.update_idem]
    refine .inr ⟨fd, _, hfd, halloc, ?_⟩
    rw [hopen]
    exact task_install_fd_spec (s.setFile fd (openedFile s fd flags)) t fd

/-- A file that has been opened is balanced. -/
theorem Balanced.opened (h : Balanced s) (hlive : s.live t = true) {flags : UInt32}
    (hflags : flags ≠ fdFree) {i : Fin maxOpenFiles} {fd : Fin maxFdNr} (hfd : ¬ s.InUse fd)
    (hnone : s.fdTable t i = none) :
    Balanced ((s.setFile fd (openedFile s fd flags)).setLocal t i (some fd)) := by
  refine h.add hlive hnone hflags ?_
  rw [h.unnamed hfd]
  rfl

/-- What `BOFS_OpenFile` does where the global table or the table of the task has room. -/
theorem open_file_spec (h : Balanced s) (hlive : s.live t = true) {flags : UInt32}
    (hflags : flags ≠ fdFree) (hroom : s.HasSlot t ∨ s.TableFull) :
    s.TableFull ∧ s.openFile t flags = (s, none) ∨
      ∃ i fd file, ¬ s.InUse fd ∧ s.fdTable t i = none ∧
        s.openFile t flags = ((s.setFile fd file).setLocal t i (some fd), some i) ∧
        Balanced ((s.setFile fd file).setLocal t i (some fd)) := by
  rcases open_file_ends s t flags with
    ⟨hfull, -, hopen⟩ | ⟨fd, -, hfd, -, ⟨hno, -⟩ | ⟨i, hnone, hopen⟩⟩
  · exact .inl ⟨hfull, hopen⟩
  · exact absurd (hroom.resolve_right fun hfull => hfd (hfull fd)) hno
  · exact .inr ⟨i, fd, _, hfd, hnone, hopen, h.opened hlive hflags hfd hnone⟩

/-- `BOFS_Open` keeps the balance. -/
theorem Balanced.openFile (h : Balanced s) (hlive : s.live t = true) {flags : UInt32}
    (hflags : flags ≠ fdFree) (hroom : s.HasSlot t ∨ s.TableFull) :
    Balanced (s.openFile t flags).1 := by
  rcases open_file_spec h hlive hflags hroom with ⟨-, heq⟩ | ⟨i, fd, file, -, -, heq, hbalanced⟩
  · rw [heq]
    exact h
  · rw [heq]
    exact hbalanced

omit [Fintype τ] in
/-- The last loop of `SysExecv` leaves descriptors out. -/
theorem reset_fds_eq (s : FileState τ) (t : τ) :
    s.resetFds t = s.restrict t fun i => i.val < 3 := by
  have htable : (fun i : Fin maxOpenFiles => if 3 ≤ i.val then none else s.fdTable t i) =
      fun i => if decide (i.val < 3) = true then s.fdTable t i else none := by
    funext i
    by_cases hi : 3 ≤ i.val
    · rw [if_pos hi, if_neg (by simpa using hi)]
    · rw [if_neg hi, if_pos (by simpa using hi)]
  simp only [resetFds, FileState.restrict, htable]

/-- `SysExecv` keeps the balance of a task with no descriptor for its last loop to forget. -/
theorem Balanced.exec (h : Balanced s) (hlive : s.live t = true) (result : ExecEnd)
    (hroom : s.HasSlot t ∨ s.TableFull)
    (hfew : result = .toEnd → s.TableFull ∨ ∀ i : Fin maxOpenFiles, 3 ≤ i.val →
      s.fdTable t i = none) : Balanced (s.exec t result) := by
  rw [FileState.exec]
  rcases open_file_spec h hlive (by decide : rdOnly ≠ fdFree) hroom with
    ⟨-, heq⟩ | ⟨i, fd, file, hfd, hnone, heq, hbalanced⟩
  · rw [heq]
    exact h
  · rw [heq]
    cases result with
    | statFailed => exact hbalanced
    | toEnd =>
        obtain ⟨hclosed, -, htable⟩ := hbalanced.close (t := t) hlive i
        have hclear := (hfew rfl).resolve_left fun hfull => hfd (hfull fd)
        show Balanced ((_ : FileState τ).resetFds t)
        rw [reset_fds_eq]
        have hall : Balanced ((((s.setFile fd file).setLocal t i (some fd)).close t i).restrict t
            fun _ => true) := by
          refine hclosed.congr rfl fun fd' p => ?_
          rw [restrict_names]
          simp
        refine hall.restrict_congr fun i' => ?_
        by_cases hi : 3 ≤ i'.val
        · -- closing takes back what opening stored
          right
          rw [htable, setLocal_fdTable, setLocal_fdTable]
          by_cases hsame : t = t ∧ i' = i
          · rw [if_pos hsame]
          · rw [if_neg hsame, if_neg hsame]
            exact hclear i' hi
        · exact .inl (by simpa using hi)

/-- The task has two free descriptors. -/
def FileState.TwoSlots (s : FileState τ) (t : τ) : Prop :=
  ∃ i j, i ≠ j ∧ s.fdTable t i = none ∧ s.fdTable t j = none

/-- The global table has at most one free entry. -/
def FileState.AlmostFull (s : FileState τ) : Prop :=
  ∀ fd fd', ¬ s.InUse fd → ¬ s.InUse fd' → fd = fd'

omit [Fintype τ] [DecidableEq τ] in
/-- After one entry has been allocated, the free ones are the others. -/
theorem in_use_of_alloc {fd fd' : Fin maxFdNr}
    (h : ¬ (s.setFile fd { s.globalFdTable fd with flags := fdUsing }).InUse fd') :
    fd' ≠ fd ∧ ¬ s.InUse fd' := by
  rw [in_use_setFile] at h
  by_cases hsame : fd' = fd
  · rw [if_pos hsame] at h
    exact absurd (show fdUsing ≠ fdFree by decide) h
  · rw [if_neg hsame] at h
    exact ⟨hsame, h⟩

/-- The state in which at most two entries are other than before. -/
structure FileState.Agrees (s x : FileState τ) (fd fd' : Fin maxFdNr) : Prop where
  other : ∀ e, e ≠ fd → e ≠ fd' → x.globalFdTable e = s.globalFdTable e
  live : x.live = s.live
  fdTable : x.fdTable = s.fdTable

omit [Fintype τ] [DecidableEq τ] in
/-- Two stores are all the difference. -/
theorem FileState.Agrees.files {x : FileState τ} {fd fd' : Fin maxFdNr} (h : s.Agrees x fd fd') :
    x.globalFdTable = Function.update (Function.update s.globalFdTable fd (x.globalFdTable fd)) fd'
      (x.globalFdTable fd') := by
  funext e
  rw [Function.update_apply, Function.update_apply]
  split
  · next heq => rw [heq]
  · next hne' =>
      split
      · next heq => rw [heq]
      · next hne => exact h.other e hne hne'

omit [DecidableEq τ] in
/-- Two entries that nothing names can be freed. -/
theorem Balanced.free_two (h : Balanced s) {x : FileState τ} {fd fd' : Fin maxFdNr}
    (hagrees : s.Agrees x fd fd') (hfd : ¬ s.InUse fd) (hfd' : ¬ s.InUse fd')
    (hfile : ¬ x.InUse fd) (hfile' : ¬ x.InUse fd') : Balanced x := by
  have hfirst := h.free (h.unnamed hfd) (not_not.mp hfile)
  have hnames : (s.setFile fd (x.globalFdTable fd)).names fd' = 0 := h.unnamed hfd'
  have hsecond := hfirst.free hnames (not_not.mp hfile')
  refine hsecond.congr hagrees.files fun fd p => ?_
  simp only [Names, hagrees.live, hagrees.fdTable, setFile_live, setFile_fdTable]

/-- Two new descriptors come with a reference each. -/
theorem Balanced.add_two (h : Balanced s) (hlive : s.live t = true) {x : FileState τ}
    {fd fd' : Fin maxFdNr} (hagrees : s.Agrees x fd fd') (hne : fd' ≠ fd) (hfd : ¬ s.InUse fd)
    (hfd' : ¬ s.InUse fd') (hfile : x.InUse fd ∧ (x.globalFdTable fd).reference = 1)
    (hfile' : x.InUse fd' ∧ (x.globalFdTable fd').reference = 1) (hslots : s.TwoSlots t) :
    Balanced ((x.taskInstallFD t fd).1.taskInstallFD t fd').1 := by
  obtain ⟨i₁, i₂, hslot, hnone₁, hnone₂⟩ := hslots
  have htable := hagrees.fdTable
  rcases task_install_fd_spec x t fd with ⟨hno, -⟩ | ⟨i, hi, heq⟩
  · exact absurd ⟨i₁, by rw [htable, hnone₁]⟩ hno
  rw [heq]
  show Balanced ((x.setLocal t i (some fd)).taskInstallFD t fd').1
  rcases task_install_fd_spec (x.setLocal t i (some fd)) t fd' with ⟨hno, -⟩ | ⟨j, hj, heq'⟩
  · -- one of the two descriptors is still free
    refine absurd ?_ hno
    by_cases hi₁ : i₁ = i
    · refine ⟨i₂, ?_⟩
      rw [setLocal_fdTable, if_neg (fun hsame => hslot (hi₁.trans hsame.2.symm)), htable, hnone₂]
    · refine ⟨i₁, ?_⟩
      rw [setLocal_fdTable, if_neg (fun hsame => hi₁ hsame.2), htable, hnone₁]
  rw [heq']
  set file := x.globalFdTable fd
  set file' := x.globalFdTable fd'
  have hfirst : Balanced ((s.setFile fd file).setLocal t i (some fd)) := by
    refine h.add hlive (by rw [← htable, hi]) hfile.1 ?_
    rw [h.unnamed hfd, hfile.2]
    rfl
  have hunused : ¬ ((s.setFile fd file).setLocal t i (some fd)).InUse fd' := by
    intro hin
    have hold := (in_use_setFile file fd').mp hin
    rw [if_neg hne] at hold
    exact hfd' hold
  have hsecond : Balanced ((((s.setFile fd file).setLocal t i (some fd)).setFile fd' file').setLocal
      t j (some fd')) := by
    refine hfirst.add hlive ?_ hfile'.1 ?_
    · rw [setLocal_fdTable] at hj ⊢
      rw [← hj, htable]
      rfl
    · rw [hfirst.unnamed hunused, hfile'.2]
      rfl
  refine hsecond.congr hagrees.files fun fd p => ?_
  simp only [Names, setLocal_live, setLocal_fdTable, setFile_live, setFile_fdTable, hagrees.live,
    htable]

/-- `BOFS_Pipe` keeps the balance where there is room for both of its ends. -/
theorem Balanced.pipe (h : Balanced s) (hlive : s.live t = true) (allocated : Bool)
    (hroom : allocated = true → s.TwoSlots t ∨ s.AlmostFull) : Balanced (s.pipe t allocated) := by
  rcases alloc_fd_global_spec s with ⟨-, halloc⟩ | ⟨readFd, hread, halloc⟩
  · rw [FileState.pipe, halloc]
    exact h
  rcases alloc_fd_global_spec (s.setFile readFd { s.globalFdTable readFd with flags := fdUsing })
    with ⟨-, halloc'⟩ | ⟨writeFd, hwrite, halloc'⟩
  · rw [FileState.pipe, halloc]
    simp only [halloc']
    refine h.free_two ?_ hread hread ?_ ?_
    · refine ⟨fun e he _ => ?_, rfl, rfl⟩
      simp [freeFdGlobal, setFile_globalFdTable, he]
    · simp [freeFdGlobal, InUse, setFile_globalFdTable]
    · simp [freeFdGlobal, InUse, setFile_globalFdTable]
  · obtain ⟨hne, hwrite⟩ := in_use_of_alloc hwrite
    rw [FileState.pipe, halloc]
    simp only [halloc']
    cases allocated with
    | false =>
        refine h.free_two ?_ hwrite hread ?_ ?_
        · refine ⟨fun e he he' => ?_, rfl, rfl⟩
          simp [freeFdGlobal, setFile_globalFdTable, he, he']
        · simp [freeFdGlobal, InUse, setFile_globalFdTable, hne]
        · simp [freeFdGlobal, InUse, setFile_globalFdTable]
    | true =>
        have hslots := (hroom rfl).resolve_right fun hfew => hne (hfew _ _ hwrite hread)
        have hflags : fdUsing ||| flagsPipe ≠ fdFree := by decide
        refine h.add_two hlive ⟨fun e he he' => ?_, rfl, rfl⟩ hne hread hwrite ?_ ?_ hslots
        · simp [setFile_globalFdTable, he, he']
        · simpa [InUse, setFile_globalFdTable, hne, hne.symm] using hflags
        · simpa [InUse, setFile_globalFdTable, hne, hne.symm] using hflags

/-! ## Runs -/

/-- The call finds room for what it opens, and loading a program finds no descriptor to forget. -/
def fileGuard (s : FileState τ) : FileOp τ → Prop
  | .open t _ | .exec t .statFailed => s.HasSlot t ∨ s.TableFull
  | .pipe t allocated => allocated = true → s.TwoSlots t ∨ s.AlmostFull
  | .exec t .toEnd =>
      s.TableFull ∨ ∀ i : Fin maxOpenFiles, 3 ≤ i.val → s.fdTable t i = none
  | .close _ _ | .fork _ _ | .exit _ => True

/-- A call that meets the guard keeps the balance. -/
theorem Balanced.step (h : Balanced s) {op : FileOp τ} (hguard : fileGuard s op)
    {s' : FileState τ} (hstep : fileStep s op = some s') : Balanced s' := by
  rw [fileStep.eq_def] at hstep
  split at hstep
  · next hlive =>
      cases op with
      | «open» t flags =>
          simp only [Option.ite_none_right_eq_some, Option.some.injEq] at hstep
          obtain ⟨⟨-, haccess⟩, rfl⟩ := hstep
          refine h.openFile hlive ?_ hguard
          rintro rfl
          exact haccess (by decide)
      | pipe t allocated =>
          cases Option.some.inj hstep
          exact h.pipe hlive allocated hguard
      | close t fd =>
          simp only at hstep
          split at hstep
          · cases Option.some.inj hstep
            exact (h.close hlive _).1
          · cases Option.some.inj hstep
            exact h
      | fork parent child =>
          simp only at hstep
          split at hstep
          · cases hstep
          · next hnew =>
              cases Option.some.inj hstep
              exact h.fork hlive (by simpa using hnew)
      | exec t result =>
          cases Option.some.inj hstep
          cases result with
          | statFailed => exact h.exec hlive _ hguard (by simp)
          | toEnd =>
              refine h.exec hlive _ (hguard.symm.imp_left fun hclear => ?_) fun _ => hguard
              exact ⟨3, hclear 3 (by decide)⟩
      | exit t =>
          cases Option.some.inj hstep
          exact h.exit hlive
  · cases hstep

omit [DecidableEq τ] in
/-- Nothing is open at the start. -/
theorem balanced_init (live : τ → Bool) : Balanced (FileState.init live) := by
  have hnone : ∀ fd, (FileState.init live).names fd = 0 := by
    intro fd
    refine tally_eq_zero.mpr fun p => ?_
    rw [if_neg]
    rintro ⟨-, hfd⟩
    cases hfd
  refine ⟨fun fd hfd => absurd rfl hfd, fun fd => ?_, fun t i fd _ hfd => ?_⟩
  · rw [hnone]
    simp [InUse, FileState.init]
  · cases hfd

instance (s : FileState τ) (t : τ) : Decidable (s.HasSlot t) := inferInstanceAs (Decidable (∃ _, _))

instance (s : FileState τ) : Decidable s.TableFull := inferInstanceAs (Decidable (∀ _, _ ≠ _))

instance (s : FileState τ) (t : τ) : Decidable (s.TwoSlots t) :=
  inferInstanceAs (Decidable (∃ _ _, _))

instance (s : FileState τ) : Decidable s.AlmostFull :=
  inferInstanceAs (Decidable (∀ fd fd', ¬ (_ ≠ _) → ¬ (_ ≠ _) → fd = fd'))

instance (s : FileState τ) : (op : FileOp τ) → Decidable (fileGuard s op)
  | .open t _ | .exec t .statFailed => inferInstanceAs (Decidable (s.HasSlot t ∨ s.TableFull))
  | .pipe t allocated =>
      inferInstanceAs (Decidable (allocated = true → s.TwoSlots t ∨ s.AlmostFull))
  | .exec t .toEnd =>
      inferInstanceAs (Decidable (s.TableFull ∨ ∀ i : Fin maxOpenFiles, 3 ≤ i.val →
        s.fdTable t i = none))
  | .close _ _ | .fork _ _ | .exit _ => inferInstanceAs (Decidable True)

/-- A task opens a pipe, its child closes one end and loads a program, and the task exits. -/
def pipeToChild : List (FileOp (Fin 2)) :=
  [.pipe 0 true, .fork 0 1, .close 1 0, .exec 1 .toEnd, .exit 0]

/-- A task with four open files loads a program. -/
def fourFiles : List (FileOp (Fin 1)) :=
  [.open 0 rdOnly, .open 0 rdOnly, .open 0 rdOnly, .open 0 rdOnly, .exec 0 .toEnd]

end XBook.Files
