import XBook.Fs.Descriptor

/-!
# The reference counts of the descriptor tables

`Balanced` says that the count of an entry is the number of descriptors that name it. Read
`Balanced.add` and `Balanced.drop` first: a descriptor comes and goes with its reference. A call
breaks the balance when it forgets a descriptor without closing it (`SysExecv`), or opens an entry
that no descriptor names (`BOFS_Open` and `BOFS_Pipe` of a task with a full table).
-/

namespace XBook.Files

open Tally Transition

variable {τ : Type*}

namespace FileState

/-- The descriptor of a live task names the entry. -/
def Names (s : FileState τ) (fd : Fin maxFdNr) (p : τ × Fin maxOpenFiles) : Prop :=
  s.live p.1 = true ∧ s.fdTable p.1 p.2 = some fd

instance (s : FileState τ) (fd : Fin maxFdNr) (p : τ × Fin maxOpenFiles) :
    Decidable (s.Names fd p) := inferInstanceAs (Decidable (_ ∧ _))

/-- The number of descriptors of live tasks that name the entry. -/
def names [Fintype τ] (s : FileState τ) (fd : Fin maxFdNr) : Nat :=
  tally fun p => if s.Names fd p then 1 else 0

/-- The entry is in use. -/
def InUse (s : FileState τ) (fd : Fin maxFdNr) : Prop := (s.globalFdTable fd).flags ≠ fdFree

end FileState

open FileState

/-- The count of each entry in use is the number of descriptors that name it, the entries in use are
those that are named, and no descriptor names another one. -/
structure Balanced [Fintype τ] (s : FileState τ) : Prop where
  reference : ∀ fd, s.InUse fd → (s.globalFdTable fd).reference = s.names fd
  used : ∀ fd, s.InUse fd ↔ s.names fd ≠ 0
  named : ∀ t localFd fd, s.live t = true → s.fdTable t localFd = some fd → s.InUse fd

/-! ## One descriptor -/

variable {s s' : FileState τ} {t : τ} {i : Fin maxOpenFiles} {fd : Fin maxFdNr}

@[simp] theorem setFile_live (file : FileDescriptor) : (s.setFile fd file).live = s.live := rfl

@[simp] theorem setFile_fdTable (file : FileDescriptor) :
    (s.setFile fd file).fdTable = s.fdTable := rfl

theorem setFile_globalFdTable (file : FileDescriptor) (fd' : Fin maxFdNr) :
    (s.setFile fd file).globalFdTable fd' = if fd' = fd then file else s.globalFdTable fd' :=
  Function.update_apply ..

theorem in_use_setFile (file : FileDescriptor) (fd' : Fin maxFdNr) :
    (s.setFile fd file).InUse fd' ↔ if fd' = fd then file.flags ≠ fdFree else s.InUse fd' := by
  rw [InUse, setFile_globalFdTable]
  split
  · rfl
  · rfl

section

variable [Fintype τ]

@[simp] theorem setFile_names (file : FileDescriptor) (fd' : Fin maxFdNr) :
    (s.setFile fd file).names fd' = s.names fd' := rfl

theorem names_pos (hlive : s.live t = true) (hfd : s.fdTable t i = some fd) : s.names fd ≠ 0 := by
  intro hzero
  have hnone := tally_eq_zero.mp hzero (t, i)
  simp [Names, hlive, hfd] at hnone

/-- The numbers depend on the descriptors of the live tasks only. -/
theorem names_congr (h : ∀ fd p, s'.Names fd p ↔ s.Names fd p) (fd : Fin maxFdNr) :
    s'.names fd = s.names fd := by
  simp only [names, h]

/-- So does the balance. -/
theorem Balanced.congr (h : Balanced s) (hfiles : s'.globalFdTable = s.globalFdTable)
    (hnames : ∀ fd p, s'.Names fd p ↔ s.Names fd p) : Balanced s' := by
  have huse : ∀ fd, s'.InUse fd ↔ s.InUse fd := fun fd => by rw [InUse, InUse, hfiles]
  refine ⟨fun fd hfd => ?_, fun fd => ?_, fun t i fd hlive hfd => ?_⟩
  · rw [hfiles, names_congr hnames]
    exact h.reference fd ((huse fd).mp hfd)
  · rw [huse, names_congr hnames]
    exact h.used fd
  · obtain ⟨hlive', hfd'⟩ := (hnames fd (t, i)).mp ⟨hlive, hfd⟩
    exact (huse fd).mpr (h.named t i fd hlive' hfd')

end

variable [DecidableEq τ]

@[simp] theorem setLocal_live (v : Option (Fin maxFdNr)) : (s.setLocal t i v).live = s.live := rfl

@[simp] theorem setLocal_globalFdTable (v : Option (Fin maxFdNr)) :
    (s.setLocal t i v).globalFdTable = s.globalFdTable := rfl

theorem setLocal_fdTable (v : Option (Fin maxFdNr)) (t' : τ) (i' : Fin maxOpenFiles) :
    (s.setLocal t i v).fdTable t' i' = if t' = t ∧ i' = i then v else s.fdTable t' i' := by
  by_cases ht : t' = t
  · subst ht
    simp [FileState.setLocal, Function.update_apply]
  · simp [FileState.setLocal, ht]

variable [Fintype τ]

/-- Storing a descriptor of a live task changes the numbers by that descriptor. -/
theorem setLocal_names (hlive : s.live t = true) (v : Option (Fin maxFdNr)) (fd : Fin maxFdNr) :
    (s.setLocal t i v).names fd + (if s.fdTable t i = some fd then 1 else 0) =
      s.names fd + if v = some fd then 1 else 0 := by
  have heq : (fun p => if (s.setLocal t i v).Names fd p then 1 else 0) =
      Function.update (fun p => if s.Names fd p then 1 else 0) (t, i)
        (if v = some fd then 1 else 0) := by
    funext ⟨t', i'⟩
    simp only [Function.update_apply, Names, setLocal_live, setLocal_fdTable, Prod.mk.injEq]
    by_cases hp : t' = t ∧ i' = i
    · obtain ⟨rfl, rfl⟩ := hp
      simp [hlive]
    · simp only [if_neg hp]
      exact if_congr Iff.rfl rfl rfl
  have hsum := tally_update (fun p => if s.Names fd p then 1 else 0) (t, i)
    (if v = some fd then 1 else 0)
  rw [← heq] at hsum
  simpa [names, Names, hlive] using hsum

omit [DecidableEq τ] in
/-- An entry that nothing names can be freed. -/
theorem Balanced.free (h : Balanced s) (hnames : s.names fd = 0) {file : FileDescriptor}
    (hfile : file.flags = fdFree) : Balanced (s.setFile fd file) := by
  refine ⟨fun fd' hfd => ?_, fun fd' => ?_, fun t i fd' hlive hfd => ?_⟩
  · rw [in_use_setFile] at hfd
    split at hfd
    · exact absurd hfile hfd
    · next hne =>
        rw [setFile_globalFdTable, if_neg hne]
        exact h.reference fd' hfd
  · rw [in_use_setFile, setFile_names]
    split
    · next heq => simp [heq, hnames, hfile]
    · exact h.used fd'
  · rw [in_use_setFile]
    split
    · next heq => exact absurd hnames (names_pos hlive (heq ▸ hfd))
    · exact h.named t i fd' hlive hfd

/-- A new descriptor comes with a reference. -/
theorem Balanced.add (h : Balanced s) (hlive : s.live t = true) (hnone : s.fdTable t i = none)
    {file : FileDescriptor} (hflags : file.flags ≠ fdFree)
    (hreference : file.reference = s.names fd + 1) :
    Balanced ((s.setFile fd file).setLocal t i (some fd)) := by
  have hsum : ∀ fd', ((s.setFile fd file).setLocal t i (some fd)).names fd' =
      s.names fd' + if fd = fd' then 1 else 0 := by
    intro fd'
    have hsum := setLocal_names (s := s.setFile fd file) (t := t) (i := i) hlive (some fd) fd'
    simpa [hnone] using hsum
  have huse : ∀ fd', ((s.setFile fd file).setLocal t i (some fd)).InUse fd' ↔
      if fd' = fd then True else s.InUse fd' := by
    intro fd'
    have hbase : (s.setFile fd file).InUse fd' ↔
        if fd' = fd then file.flags ≠ fdFree else s.InUse fd' := in_use_setFile file fd'
    simpa [InUse, hflags] using hbase
  refine ⟨fun fd' hfd => ?_, fun fd' => ?_, fun t' i' fd' hlive' hfd => ?_⟩
  · rw [hsum, setLocal_globalFdTable]
    by_cases heq : fd' = fd
    · subst heq
      simp [setFile_globalFdTable, hreference]
    · rw [huse, if_neg heq] at hfd
      rw [if_neg (Ne.symm heq), setFile_globalFdTable, if_neg heq]
      simpa using h.reference fd' hfd
  · rw [hsum, huse]
    by_cases heq : fd' = fd
    · simp [heq]
    · rw [if_neg heq, if_neg (Ne.symm heq)]
      simpa using h.used fd'
  · rw [huse]
    split
    · trivial
    · next hne =>
        rw [setLocal_fdTable] at hfd
        split at hfd
        · exact absurd (Option.some.inj hfd).symm hne
        · exact h.named t' i' fd' hlive' hfd

/-- A descriptor goes with its reference, and the last one with the entry. -/
theorem Balanced.drop (h : Balanced s) (hlive : s.live t = true) (hfd : s.fdTable t i = some fd)
    {file : FileDescriptor} (hlast : s.names fd = 1 → file.flags = fdFree)
    (hmore : s.names fd ≠ 1 → file.flags ≠ fdFree ∧ file.reference = s.names fd - 1) :
    Balanced ((s.setFile fd file).setLocal t i none) := by
  have hpos := names_pos hlive hfd
  have hsum : ∀ fd', ((s.setFile fd file).setLocal t i none).names fd' +
      (if fd = fd' then 1 else 0) = s.names fd' := by
    intro fd'
    have hsum := setLocal_names (s := s.setFile fd file) (t := t) (i := i) hlive none fd'
    simpa [hfd] using hsum
  have huse : ∀ fd', ((s.setFile fd file).setLocal t i none).InUse fd' ↔
      if fd' = fd then file.flags ≠ fdFree else s.InUse fd' := fun fd' => in_use_setFile file fd'
  refine ⟨fun fd' hin => ?_, fun fd' => ?_, fun t' i' fd' hlive' hfd' => ?_⟩
  · have hcount := hsum fd'
    rw [setLocal_globalFdTable]
    rw [huse] at hin
    by_cases heq : fd' = fd
    · subst heq
      rw [if_pos rfl] at hin hcount
      have hne : s.names fd' ≠ 1 := fun hone => hin (hlast hone)
      rw [setFile_globalFdTable, if_pos rfl, (hmore hne).2]
      omega
    · rw [if_neg heq] at hin
      rw [if_neg (Ne.symm heq)] at hcount
      rw [setFile_globalFdTable, if_neg heq, h.reference fd' hin]
      omega
  · have hcount := hsum fd'
    rw [huse]
    by_cases heq : fd' = fd
    · subst heq
      rw [if_pos rfl] at hcount ⊢
      by_cases hone : s.names fd' = 1
      · have hfree := hlast hone
        simp only [hfree, ne_eq, not_true_eq_false, false_iff, Decidable.not_not]
        omega
      · have hused := (hmore hone).1
        simp only [hused, ne_eq, not_false_eq_true, true_iff]
        omega
    · rw [if_neg heq]
      rw [if_neg (Ne.symm heq)] at hcount
      rw [h.used fd']
      omega
  · rw [setLocal_fdTable] at hfd'
    split at hfd'
    · cases hfd'
    · next hother =>
        have hcount := hsum fd'
        rw [huse]
        split
        · next heq =>
            subst heq
            intro hfree
            -- the entry has another descriptor
            have hmany : ((s.setFile fd' file).setLocal t i none).names fd' ≠ 0 := by
              refine names_pos (t := t') (i := i') hlive' ?_
              rw [setLocal_fdTable, if_neg hother]
              exact hfd'
            rw [if_pos rfl] at hcount
            exact (hmore (by omega)).1 hfree
        · exact h.named t' i' fd' hlive' hfd'

/-! ## Closing -/

omit [Fintype τ] [DecidableEq τ] in
/-- The end of a pipe is no part of the tables. -/
theorem close_pipe_end_frame (s : FileState τ) (file : FileDescriptor) :
    (s.closePipeEnd file).globalFdTable = s.globalFdTable ∧
      (s.closePipeEnd file).live = s.live ∧ (s.closePipeEnd file).fdTable = s.fdTable := by
  rw [closePipeEnd]
  split
  · exact ⟨rfl, rfl, rfl⟩
  · exact ⟨rfl, rfl, rfl⟩

omit [Fintype τ] [DecidableEq τ] in
/-- The last reference frees the entry, for a pipe and for a file. -/
theorem close_file_eq (s : FileState τ) (fd : Fin maxFdNr) :
    ∃ x : FileState τ, x.globalFdTable = (s.addReference fd (-1)).globalFdTable ∧
      x.live = s.live ∧ x.fdTable = s.fdTable ∧
      s.closeFile fd = if (s.globalFdTable fd).reference - 1 ≤ 0 then x.freeFdGlobal fd
        else s.addReference fd (-1) := by
  have hcount : ((s.addReference fd (-1)).globalFdTable fd).reference =
      (s.globalFdTable fd).reference - 1 := by
    rw [addReference, setFile_globalFdTable, if_pos rfl]
    rfl
  by_cases hpipe : (s.globalFdTable fd).isPipe = true
  · obtain ⟨hfiles, hlive, htable⟩ := close_pipe_end_frame (s.addReference fd (-1))
      ((s.addReference fd (-1)).globalFdTable fd)
    refine ⟨_, hfiles, hlive, htable, ?_⟩
    simp only [closeFile, if_pos hpipe, pipeClose, hcount]
  · refine ⟨s.addReference fd (-1), rfl, rfl, rfl, ?_⟩
    simp only [closeFile, if_neg hpipe, hcount]

omit [Fintype τ] [DecidableEq τ] in
/-- What `BOFS_Close` does to the entry. -/
theorem close_file_spec (s : FileState τ) (fd : Fin maxFdNr) :
    ∃ file, (s.closeFile fd).globalFdTable = Function.update s.globalFdTable fd file ∧
      (s.closeFile fd).live = s.live ∧ (s.closeFile fd).fdTable = s.fdTable ∧
      ((s.globalFdTable fd).reference ≤ 1 → file.flags = fdFree) ∧
      (1 < (s.globalFdTable fd).reference → file.flags = (s.globalFdTable fd).flags ∧
        file.reference = (s.globalFdTable fd).reference - 1) := by
  obtain ⟨x, hfiles, hlive, htable, heq⟩ := close_file_eq s fd
  by_cases hlast : (s.globalFdTable fd).reference ≤ 1
  · rw [heq, if_pos (by omega)]
    refine ⟨{ x.globalFdTable fd with flags := fdFree, pos := 0 }, ?_, hlive, htable, fun _ => rfl,
      fun h => absurd hlast (by omega)⟩
    simp only [freeFdGlobal, FileState.setFile, hfiles, addReference, Function.update_idem]
  · rw [heq, if_neg (by omega)]
    exact ⟨_, rfl, rfl, rfl, fun h => absurd h hlast, fun _ => ⟨rfl, rfl⟩⟩

omit [Fintype τ] in
/-- The names after a descriptor has been stored. -/
theorem setLocal_names_iff {x y : FileState τ} (hlive : x.live = y.live)
    (htable : x.fdTable = y.fdTable) (v : Option (Fin maxFdNr)) (fd : Fin maxFdNr)
    (p : τ × Fin maxOpenFiles) : (x.setLocal t i v).Names fd p ↔ (y.setLocal t i v).Names fd p := by
  simp only [Names, setLocal_live, setLocal_fdTable, hlive, htable]

/-- Closing a descriptor clears it, also where it was clear already. -/
theorem Balanced.close (h : Balanced s) (hlive : s.live t = true) (i : Fin maxOpenFiles) :
    Balanced (s.close t i) ∧ (s.close t i).live = s.live ∧
      (s.close t i).fdTable = (s.setLocal t i none).fdTable := by
  cases hfd : s.fdTable t i with
  | none =>
      have hsame : s.close t i = s := by simp only [FileState.close, hfd]
      rw [hsame]
      refine ⟨h, rfl, ?_⟩
      funext t' i'
      rw [setLocal_fdTable]
      split
      · next heq => rw [heq.1, heq.2, hfd]
      · rfl
  | some fd =>
      obtain ⟨file, hfiles, hlives, htable, hlast, hmore⟩ := close_file_spec s fd
      have hused := h.named t i fd hlive hfd
      have hcount := h.reference fd hused
      have hpos := names_pos hlive hfd
      have hclose : s.close t i = (s.closeFile fd).setLocal t i none := by
        simp only [FileState.close, hfd]
      have hdrop : Balanced ((s.setFile fd file).setLocal t i none) := by
        refine h.drop hlive hfd (fun hone => hlast (by omega)) (fun hne => ?_)
        obtain ⟨hflags, href⟩ := hmore (by omega)
        exact ⟨by rw [hflags]; exact hused, by rw [href, hcount]⟩
      rw [hclose]
      refine ⟨hdrop.congr ?_ (setLocal_names_iff hlives htable none), hlives, ?_⟩
      · rw [setLocal_globalFdTable, hfiles]
        rfl
      · simp only [FileState.setLocal, htable]

/-! ## Loops over the descriptors of a task -/

/-- The descriptors of a task, some of them left out. -/
def FileState.restrict (s : FileState τ) (t : τ) (keep : Fin maxOpenFiles → Bool) : FileState τ :=
  let table : FdTable := fun i => if keep i then s.fdTable t i else none
  { s with fdTable := Function.update s.fdTable t table }

omit [Fintype τ] in
theorem restrict_fdTable (s : FileState τ) (t : τ) (keep : Fin maxOpenFiles → Bool) (t' : τ)
    (i : Fin maxOpenFiles) : (s.restrict t keep).fdTable t' i =
      if t' = t ∧ keep i = false then none else s.fdTable t' i := by
  by_cases ht : t' = t
  · subst ht
    cases hkeep : keep i <;> simp [restrict, hkeep]
  · simp [restrict, ht]

omit [Fintype τ] in
/-- The names of a task, some of whose descriptors are left out. -/
theorem restrict_names (s : FileState τ) (t : τ) (keep : Fin maxOpenFiles → Bool)
    (fd : Fin maxFdNr) (p : τ × Fin maxOpenFiles) :
    (s.restrict t keep).Names fd p ↔ s.Names fd p ∧ (p.1 = t → keep p.2 = true) := by
  rw [Names, restrict_fdTable, Names]
  show s.live p.1 = true ∧ _ ↔ _
  by_cases hout : p.1 = t ∧ keep p.2 = false
  · simp [hout.1, hout.2]
  · rw [if_neg hout]
    refine (and_iff_left ?_).symm
    intro hsame
    by_contra hkeep
    exact hout ⟨hsame, by simpa using hkeep⟩

/-- A round that leaves out an empty descriptor, or lets one in, changes no name. -/
theorem Balanced.restrict_congr {keep keep' : Fin maxOpenFiles → Bool}
    (h : Balanced (s.restrict t keep))
    (hsame : ∀ i, keep' i = keep i ∨ s.fdTable t i = none) : Balanced (s.restrict t keep') := by
  refine h.congr rfl ?_
  rintro fd ⟨t', i⟩
  rw [restrict_names, restrict_names]
  refine and_congr_right ?_
  rintro ⟨-, hfd⟩
  refine imp_congr_right ?_
  intro ht
  rcases hsame i with heq | hnone
  · rw [heq]
  · rw [← (show t' = t from ht)] at hnone
    rw [show s.fdTable t' i = some fd from hfd] at hnone
    cases hnone

omit [Fintype τ] in
/-- One round of `BOFS_ReleaseTaskFiles`. The entry stays in use with the references that are
left. -/
theorem release_file_spec (hfd : s.fdTable t i = some fd) :
    ∃ file, (s.releaseFile t i).globalFdTable = Function.update s.globalFdTable fd file ∧
      (s.releaseFile t i).live = s.live ∧
      (∀ t' i', ¬ (t' = t ∧ i' = i) → (s.releaseFile t i).fdTable t' i' = s.fdTable t' i') ∧
      ((s.globalFdTable fd).reference = 1 → file.flags = fdFree) ∧
      ((s.globalFdTable fd).reference ≠ 1 → file.flags = (s.globalFdTable fd).flags ∧
        file.reference = (s.globalFdTable fd).reference - 1) := by
  have hcount : ((s.addReference fd (-1)).globalFdTable fd).reference =
      (s.globalFdTable fd).reference - 1 := by
    rw [addReference, setFile_globalFdTable, if_pos rfl]
    rfl
  by_cases hlast : (s.globalFdTable fd).reference = 1
  · -- the count is 0 before `BOFS_Close` takes another one
    obtain ⟨file, hfiles, hlive, htable, hfree, -⟩ := close_file_spec (s.addReference fd (-1)) fd
    have hround : s.releaseFile t i = ((s.addReference fd (-1)).closeFile fd).setLocal t i none := by
      simp only [releaseFile, hfd]
      rw [if_pos (by omega), FileState.close, show (s.addReference fd (-1)).fdTable t i = some fd
        from hfd]
    rw [hround]
    refine ⟨file, ?_, hlive, ?_, fun _ => hfree (by omega), fun hne => absurd hlast hne⟩
    · rw [setLocal_globalFdTable, hfiles, addReference]
      exact Function.update_idem ..
    · intro t' i' hne
      rw [setLocal_fdTable, if_neg hne, htable]
      rfl
  · have hround : s.releaseFile t i = s.addReference fd (-1) := by
      simp only [releaseFile, hfd]
      rw [if_neg (by omega)]
    rw [hround]
    exact ⟨_, rfl, rfl, fun _ _ _ => rfl, fun hone => absurd hone hlast, fun _ => ⟨rfl, rfl⟩⟩

/-- One round takes one descriptor away. -/
theorem Balanced.release {keep keep' : Fin maxOpenFiles → Bool} (h : Balanced (s.restrict t keep))
    (hlive : s.live t = true) (i : Fin maxOpenFiles) (hin : keep i = true)
    (hkeep : ∀ i', keep' i' = (keep i' && i' != i)) :
    Balanced ((s.releaseFile t i).restrict t keep') ∧ (s.releaseFile t i).live = s.live := by
  cases hfd : s.fdTable t i with
  | none =>
      have hround : s.releaseFile t i = s := by simp only [releaseFile, hfd]
      rw [hround]
      refine ⟨h.restrict_congr fun i' => ?_, rfl⟩
      by_cases hi : i' = i
      · exact .inr (hi ▸ hfd)
      · exact .inl (by simp [hkeep, hi])
  | some fd =>
      obtain ⟨file, hfiles, hlives, htable, hfree, hmore⟩ := release_file_spec hfd
      have hfd' : (s.restrict t keep).fdTable t i = some fd := by
        rw [restrict_fdTable, if_neg (by simp [hin]), hfd]
      have hused := h.named t i fd hlive hfd'
      have hcount : (s.globalFdTable fd).reference = (s.restrict t keep).names fd :=
        h.reference fd hused
      have hdrop : Balanced (((s.restrict t keep).setFile fd file).setLocal t i none) := by
        refine h.drop hlive hfd' (fun hone => hfree (by omega)) (fun hne => ?_)
        obtain ⟨hflags, href⟩ := hmore (by omega)
        exact ⟨by rw [hflags]; exact hused, by rw [href, hcount]⟩
      refine ⟨hdrop.congr hfiles ?_, hlives⟩
      rintro fd' ⟨t', i'⟩
      rw [restrict_names]
      simp only [Names, setLocal_live, setLocal_fdTable, setFile_live, setFile_fdTable,
        restrict_fdTable, hlives, hkeep]
      by_cases hsame : t' = t ∧ i' = i
      · simp [hsame.1, hsame.2]
      · rw [htable t' i' hsame, if_neg hsame]
        by_cases ht : t' = t
        · have hi : i' ≠ i := fun hi => hsame ⟨ht, hi⟩
          cases keep i' <;> simp [ht, hi, FileState.restrict]
        · simp [ht, FileState.restrict]

/-- After some rounds of `BOFS_ReleaseTaskFiles`, the descriptors that are left are balanced. -/
theorem Balanced.release_rounds (h : Balanced s) (hlive : s.live t = true) {n : Nat}
    (hn : n ≤ maxOpenFiles) :
    Balanced ((loopFds (fun s i => s.releaseFile t i) s n).restrict t fun i => n ≤ i.val) ∧
      (loopFds (fun s i => s.releaseFile t i) s n).live = s.live := by
  induction n with
  | zero =>
      refine ⟨h.congr rfl fun fd p => ?_, rfl⟩
      rw [restrict_names]
      simp [loopFds]
  | succ n ih =>
      obtain ⟨hbalanced, hlives⟩ := ih (by omega)
      have hlt : n < maxOpenFiles := by omega
      rw [loopFds, dif_pos hlt]
      have hkeep : ∀ i' : Fin maxOpenFiles,
          decide (n + 1 ≤ i'.val) = (decide (n ≤ i'.val) && i' != ⟨n, hlt⟩) := by
        intro i'
        rw [Bool.eq_iff_iff]
        simp only [decide_eq_true_eq, Bool.and_eq_true, bne_iff_ne, ne_eq, Fin.ext_iff]
        omega
      have hround := hbalanced.release (by rw [hlives, hlive]) ⟨n, hlt⟩ (by simp) hkeep
      exact ⟨hround.1, hround.2.trans hlives⟩

/-- `SysExit` gives every reference of the task back. -/
theorem Balanced.exit (h : Balanced s) (hlive : s.live t = true) : Balanced (s.exit t) := by
  obtain ⟨hrounds, hlives⟩ := h.release_rounds hlive (n := maxOpenFiles) le_rfl
  refine hrounds.congr rfl ?_
  rintro fd ⟨t', i⟩
  rw [restrict_names]
  have hlt := i.isLt
  by_cases ht : t' = t
  · subst ht
    have hdead : (s.exit t').live t' = false := Function.update_self ..
    simp only [Names, hdead, true_implies, decide_eq_true_eq]
    constructor
    · rintro ⟨hfalse, -⟩
      cases hfalse
    · rintro ⟨-, hle⟩
      omega
  · have hsame : (s.exit t).live t' = (s.releaseTaskFiles t).live t' := Function.update_of_ne ht ..
    rw [Names, hsame]
    exact (and_iff_left fun hsame => absurd hsame ht).symm

/-- Counting a descriptor of a new task. -/
theorem Balanced.count {keep keep' : Fin maxOpenFiles → Bool} (h : Balanced (s.restrict t keep))
    (hlive : s.live t = true) (i : Fin maxOpenFiles) (hout : keep i = false)
    (hkeep : ∀ i', keep' i' = (keep i' || i' == i))
    (hused : ∀ fd, s.fdTable t i = some fd → s.InUse fd) :
    Balanced ((s.updateCount t i).restrict t keep') := by
  cases hfd : s.fdTable t i with
  | none =>
      have hround : s.updateCount t i = s := by simp only [updateCount, hfd]
      rw [hround]
      refine h.restrict_congr fun i' => ?_
      by_cases hi : i' = i
      · exact .inr (hi ▸ hfd)
      · exact .inl (by simp [hkeep, hi])
  | some fd =>
      have hround : s.updateCount t i = s.addReference fd 1 := by simp only [updateCount, hfd]
      have hnone : (s.restrict t keep).fdTable t i = none := by
        rw [restrict_fdTable, if_pos ⟨rfl, hout⟩]
      have hcount : (s.globalFdTable fd).reference = (s.restrict t keep).names fd :=
        h.reference fd (hused fd hfd)
      have hadd : Balanced (((s.restrict t keep).setFile fd
          { s.globalFdTable fd with reference := (s.globalFdTable fd).reference + 1 }).setLocal t i
            (some fd)) := h.add hlive hnone (hused fd hfd) (by rw [hcount])
      rw [hround]
      refine hadd.congr rfl ?_
      rintro fd' ⟨t', i'⟩
      rw [restrict_names]
      simp only [Names, setLocal_live, setLocal_fdTable, setFile_live, setFile_fdTable,
        restrict_fdTable, addReference, hkeep]
      by_cases hsame : t' = t ∧ i' = i
      · simp [hsame.1, hsame.2, hfd, FileState.restrict]
      · rw [if_neg hsame]
        by_cases ht : t' = t
        · have hi : i' ≠ i := fun hi => hsame ⟨ht, hi⟩
          cases keep i' <;> simp [ht, hi, FileState.restrict]
        · simp [ht, FileState.restrict]

/-- `SysFork` counts what the new task has from its parent. -/
theorem Balanced.fork (h : Balanced s) {parent child : τ} (hlive : s.live parent = true)
    (hnew : s.live child = false) :
    Balanced ((s.copyTask parent child).updateInodeOpenCounts child) := by
  have hne : parent ≠ child := by
    rintro rfl
    rw [hnew] at hlive
    cases hlive
  have hchild : (s.copyTask parent child).live child = true := Function.update_self ..
  have hother : ∀ t', t' ≠ child → (s.copyTask parent child).live t' = s.live t' ∧
      (s.copyTask parent child).fdTable t' = s.fdTable t' := fun t' ht =>
    ⟨Function.update_of_ne ht .., Function.update_of_ne ht ..⟩
  have hrounds : ∀ n ≤ maxOpenFiles, ∀ x,
      x = loopFds (fun s i => s.updateCount child i) (s.copyTask parent child) n →
      Balanced (x.restrict child fun i => i.val < n) ∧
        x.live = (s.copyTask parent child).live ∧
        x.fdTable = (s.copyTask parent child).fdTable := by
    intro n
    induction n with
    | zero =>
        rintro - x rfl
        refine ⟨h.congr rfl ?_, rfl, rfl⟩
        rintro fd ⟨t', i⟩
        rw [restrict_names]
        by_cases ht : t' = child
        · simp [ht, Names, hnew]
        · simp [ht, Names, loopFds, hother t' ht]
    | succ n ih =>
        rintro hn x rfl
        obtain ⟨hbalanced, hlives, htable⟩ := ih (by omega) _ rfl
        have hlt : n < maxOpenFiles := by omega
        rw [loopFds, dif_pos hlt]
        set x := loopFds (fun s i => s.updateCount child i) (s.copyTask parent child) n with hx
        refine ⟨hbalanced.count (by rw [hlives, hchild]) ⟨n, hlt⟩ (by simp) ?_ ?_, ?_⟩
        · intro i'
          rw [Bool.eq_iff_iff]
          simp only [decide_eq_true_eq, Bool.or_eq_true, beq_iff_eq, Fin.ext_iff]
          omega
        · -- the parent names the entry too
          intro fd hfd
          refine hbalanced.named parent ⟨n, hlt⟩ fd ?_ ?_
          · show x.live parent = true
            rw [hlives, (hother parent hne).1, hlive]
          · rw [restrict_fdTable, if_neg (fun hsame => hne hsame.1), htable, (hother parent hne).2]
            rw [htable] at hfd
            have hcopy : (s.copyTask parent child).fdTable child = s.fdTable parent :=
              Function.update_self ..
            rw [← hfd, hcopy]
        · rw [updateCount]
          split
          · exact ⟨hlives, htable⟩
          · exact ⟨hlives, htable⟩
  obtain ⟨hbalanced, -⟩ := hrounds maxOpenFiles le_rfl _ rfl
  refine hbalanced.congr rfl ?_
  rintro fd ⟨t', i⟩
  rw [restrict_names]
  exact (and_iff_left fun _ => decide_eq_true i.isLt).symm

end XBook.Files
