import XBook.Fs.DescriptorRuns
import XBook.Fs.FifoInode

/-!
# The lifetime of the objects behind FIFOs

A removed FIFO frees its object and forgets the buffer, and a FIFO from before the last boot has a
pointer to nothing. `fifoGuard` rules both out, with the two ways of losing an object: a directory
without a place for its entry, and `BOFS_O_CREAT` on a FIFO. Then no object is ever freed, and
`FifoInv` says where each is kept.
-/

namespace XBook.Fifos

open Files Transition

variable {τ : Type*} {s : FifoState τ}

/-- The entry of a FIFO still keeps the object. -/
def FifoState.Keeps (s : FifoState τ) (o : PipeObject) : Prop :=
  ∃ dir, ∃ e ∈ s.dirs dir, e.type = typeFifo ∧ e.inode = o.inode ∧ s.blocks₀ e.inode = o.pipe

/-- Every use is of the object that was made for the inode, and an object that nothing keeps any
more has been freed once, with its buffer. -/
structure FifoLifetime (s : FifoState τ) : Prop where
  owned : ∀ a ∈ s.accesses, a.owner = some a.inode
  kept : ∀ o ∈ s.objects, s.Keeps o → o.freed = 0 ∧ o.bufFreed = 0
  freed : ∀ o ∈ s.objects, ¬ s.Keeps o → o.freed = 1 ∧ o.bufFreed = 1

/-- No object has been freed, each is behind the pointer of its inode, and an open file has the
pointer of such an object. -/
structure FifoInv (s : FifoState τ) : Prop where
  distinct : (s.objects.map (·.pipe)).Nodup
  unfreed : ∀ o ∈ s.objects, o.freed = 0 ∧ o.bufFreed = 0
  inode : ∀ o ∈ s.objects, s.blocks₀ o.inode = o.pipe ∧ s.inodeUsed o.inode = true
  entry : ∀ o ∈ s.objects, ∃ dir, ∃ e ∈ s.dirs dir,
    e.type = typeFifo ∧ e.inode = o.inode ∧ e.name ≠ []
  node : ∀ fd node, s.node fd = some node →
    ∃ o ∈ s.objects, o.inode = node.dirEntry.inode ∧ o.pipe = node.pipe
  owned : ∀ a ∈ s.accesses, a.owner = some a.inode

/-- The invariant is more than the claim on lifetimes. -/
theorem FifoInv.lifetime (h : FifoInv s) : FifoLifetime s := by
  refine ⟨h.owned, fun o ho _ => h.unfreed o ho, fun o ho hnot => absurd ?_ hnot⟩
  obtain ⟨dir, e, he, htype, hinode, -⟩ := h.entry o ho
  exact ⟨dir, e, he, htype, hinode, by rw [hinode, (h.inode o ho).1]⟩

theorem fifo_inv_mount (live : τ → Bool) (dirs : Nat → List DirEntry) (inodeNr : Nat)
    (inodeUsed : Nat → Bool) (blocks₀ : Nat → UInt32) :
    FifoInv (FifoState.mount live dirs inodeNr inodeUsed blocks₀) where
  distinct := List.nodup_nil
  unfreed := by rintro o ⟨⟩
  inode := by rintro o ⟨⟩
  entry := by rintro o ⟨⟩
  node := by rintro fd node ⟨⟩
  owned := by rintro a ⟨⟩

/-! ## Uses -/

/-- The object that was made for an inode is found at its address. -/
theorem FifoInv.owner (h : FifoInv s) {o : PipeObject} (ho : o ∈ s.objects) :
    s.owner o.pipe = some o.inode := by
  have hsame : ∀ o' ∈ s.objects, o'.pipe = o.pipe → o' = o := fun o' ho' hpipe =>
    List.inj_on_of_nodup_map h.distinct ho' ho hpipe
  cases hfind : s.objects.find? fun o' => o'.pipe = o.pipe ∧ o'.freed = 0 with
  | none =>
      have hno := List.find?_eq_none.mp hfind o ho
      simp [(h.unfreed o ho).1] at hno
  | some o' =>
      have hpipe := List.find?_some hfind
      simp only [decide_eq_true_eq] at hpipe
      rw [FifoState.owner, hfind, hsame o' (List.mem_of_find?_eq_some hfind) hpipe.1]
      rfl

/-- The use of an object by its inode. -/
theorem FifoInv.access (h : FifoInv s) {o : PipeObject} (ho : o ∈ s.objects) :
    FifoInv (s.access o.inode o.pipe) := by
  refine { h with owned := fun a ha => ?_ }
  rcases List.mem_append.mp ha with hold | hnew
  · exact h.owned a hold
  · rw [List.mem_singleton.mp hnew]
    exact h.owner ho

/-- The use of an open file. -/
theorem FifoInv.accessFile (h : FifoInv s) (fd : Fin maxFdNr) : FifoInv (s.accessFile fd) := by
  rw [FifoState.accessFile]
  cases hnode : s.node fd with
  | none => exact h
  | some node =>
      obtain ⟨o, ho, hinode, hpipe⟩ := h.node fd node hnode
      show FifoInv (s.access node.dirEntry.inode node.pipe)
      rw [← hinode, ← hpipe]
      exact h.access ho

theorem FifoInv.accessFd (h : FifoInv s) (t : τ) (localFd : Fin maxOpenFiles) :
    FifoInv (s.accessFd t localFd) := by
  rw [FifoState.accessFd]
  split
  · exact h
  · exact h.accessFile _

/-- The descriptor tables do not matter. -/
theorem FifoInv.withFiles (h : FifoInv s) (files : FileState τ) : FifoInv { s with files } :=
  { h with }

/-! ## Directories -/

/-- The entry that the child takes the place of is not that of a FIFO that was made since boot. -/
def FifoState.Spares (s : FifoState τ) (dir : Nat) (child : DirEntry) : Prop :=
  ∀ e ∈ (s.dirs dir).find? (takes child), e.type = typeFifo → e.name ≠ [] →
    ∀ o ∈ s.objects, o.inode ≠ e.inode

/-- An entry whose place is taken for its name is the one that a search finds. -/
theorem search_of_takes {child e : DirEntry} {entries : List DirEntry}
    (hfind : entries.find? (takes child) = some e) (hname : e.name = child.name)
    (htype : e.type ≠ typeInvalid) (hne : e.name ≠ []) :
    searchDirEntry child.name entries = some e := by
  induction entries with
  | nil => cases hfind
  | cons e₀ rest ih =>
      rw [searchDirEntry]
      rw [List.find?_cons] at hfind
      split at hfind
      · cases Option.some.inj hfind
        rw [if_pos hne, if_pos ⟨hname, htype⟩]
      · next hother =>
          have hempty : e₀.name ≠ [] := by
            intro hempty
            simp [takes, hempty] at hother
          have hdiffers : ¬ (e₀.name = child.name ∧ e₀.type ≠ typeInvalid) := by
            rintro ⟨hsame, hvalid⟩
            simp [takes, hsame, hvalid] at hother
          rw [if_pos hempty, if_neg hdiffers]
          exact ih hfind

/-- A search finds an entry of the name. -/
theorem name_of_search {name : List Char} {entries : List DirEntry} {e : DirEntry}
    (h : searchDirEntry name entries = some e) : e.name = name := by
  induction entries with
  | nil => cases h
  | cons e₀ rest ih =>
      rw [searchDirEntry] at h
      split at h
      · split at h
        · next hsame =>
            cases Option.some.inj h
            exact hsame.1
        · exact ih h
      · cases h

/-- The child has its entry, and all others stay but the one whose place it takes. -/
theorem sync_dir_entry_spec {entries next entries' : List DirEntry} {child : DirEntry}
    (hsync : syncDirEntry entries next child = some entries') :
    child ∈ entries' ∧ ∀ e ∈ entries, entries.find? (takes child) ≠ some e → e ∈ entries' := by
  obtain ⟨i, hi, rfl⟩ := Option.map_eq_some_iff.mp hsync
  obtain ⟨hlt, htakes, hbefore⟩ := List.findIdx?_eq_some_iff_getElem.mp hi
  constructor
  · split
    · next hin => exact List.mem_set hin child
    · exact List.mem_set hlt child
  · intro e he hother
    obtain ⟨j, hj⟩ := List.mem_iff_getElem?.mp he
    obtain ⟨hlen, hget⟩ := List.getElem?_eq_some_iff.mp hj
    have hne : i ≠ j := by
      rintro rfl
      refine hother (List.find?_eq_some_iff_getElem.mpr ⟨?_, i, hlen, hget, fun k hk => ?_⟩)
      · rwa [List.getElem_append_left hlen, hget] at htakes
      · have hno := hbefore k hk
        rw [List.getElem_append_left (by omega)] at hno
        simpa using hno
    split
    · exact List.mem_iff_getElem?.mpr ⟨j, by rw [List.getElem?_set_ne hne, hj]⟩
    · exact List.mem_iff_getElem?.mpr
        ⟨j, by rw [List.getElem?_set_ne hne, List.getElem?_append_left hlen, hj]⟩

/-- A directory entry is stored, and no object loses its own. -/
theorem FifoInv.sync (h : FifoInv s) {dir : Nat} {next entries : List DirEntry} {child : DirEntry}
    (hspares : s.Spares dir child) (hsync : syncDirEntry (s.dirs dir) next child = some entries) :
    FifoInv { s with dirs := Function.update s.dirs dir entries } := by
  refine { h with entry := fun o ho => ?_ }
  obtain ⟨dir', e, he, htype, hinode, hne⟩ := h.entry o ho
  refine ⟨dir', e, ?_, htype, hinode, hne⟩
  show e ∈ Function.update s.dirs dir entries dir'
  by_cases hdir : dir' = dir
  · subst hdir
    rw [Function.update_self]
    exact (sync_dir_entry_spec hsync).2 e he fun hfind =>
      hspares e hfind htype hne o ho hinode.symm
  · rwa [Function.update_of_ne hdir]

/-! ## Inodes -/

/-- `BOFS_AllocBitmap` returns a free inode. -/
theorem free_inode_unused {id : Nat} (h : s.freeInode = some id) : s.inodeUsed id = false := by
  have hfree := List.find?_some h
  simpa using hfree

/-- A free inode has no object. -/
theorem FifoInv.inode_ne (h : FifoInv s) {id : Nat} (hfree : s.inodeUsed id = false)
    {o : PipeObject} (ho : o ∈ s.objects) : o.inode ≠ id := by
  rintro rfl
  rw [(h.inode o ho).2] at hfree
  cases hfree

/-- A free inode is taken. -/
theorem FifoInv.reserve (h : FifoInv s) {id : Nat} (hfree : s.inodeUsed id = false)
    (pipe : UInt32) : FifoInv (s.setInode id true pipe) := by
  refine { h with inode := fun o ho => ?_ }
  have hne := h.inode_ne hfree ho
  obtain ⟨hpipe, hused⟩ := h.inode o ho
  exact ⟨(Function.update_of_ne hne ..).trans hpipe, (Function.update_of_ne hne ..).trans hused⟩

/-- A new object, whose inode has an entry. -/
theorem FifoInv.addObject (h : FifoInv s) {id : Nat} (hfree : s.inodeUsed id = false)
    {pipe : UInt32} (buf : UInt32) (hfresh : ∀ o ∈ s.objects, o.pipe ≠ pipe)
    (hentry : ∃ dir, ∃ e ∈ s.dirs dir, e.type = typeFifo ∧ e.inode = id ∧ e.name ≠ []) :
    let made : PipeObject := ⟨pipe, buf, id, 0, 0⟩
    FifoInv (FifoState.setInode { s with objects := s.objects ++ [made] } id true pipe) := by
  intro made
  have hreserve := h.reserve hfree pipe
  refine ⟨?_, ?_, ?_, ?_, fun fd node hnode => ?_, h.owned⟩
  · show ((s.objects ++ [made]).map (·.pipe)).Nodup
    rw [List.map_append, List.nodup_append]
    refine ⟨h.distinct, List.nodup_singleton _, ?_⟩
    rintro _ hold _ hnew rfl
    obtain ⟨o, ho, hpipe⟩ := List.mem_map.mp hold
    exact hfresh o ho (hpipe.trans (List.mem_singleton.mp hnew))
  · intro o ho
    rcases List.mem_append.mp ho with hold | hnew
    · exact h.unfreed o hold
    · rw [List.mem_singleton.mp hnew]
      exact ⟨rfl, rfl⟩
  · intro o ho
    rcases List.mem_append.mp ho with hold | hnew
    · exact hreserve.inode o hold
    · rw [List.mem_singleton.mp hnew]
      exact ⟨Function.update_self .., Function.update_self ..⟩
  · intro o ho
    rcases List.mem_append.mp ho with hold | hnew
    · exact h.entry o hold
    · rw [List.mem_singleton.mp hnew]
      exact hentry
  · obtain ⟨o, ho, hsame⟩ := h.node fd node hnode
    exact ⟨o, List.mem_append_left _ ho, hsame⟩

/-! ## The calls -/

/-- What the calls must not meet: a directory without a place for a new FIFO, an entry from before
the last boot, a `BOFS_O_CREAT` that takes the place of a FIFO, and a FIFO to remove. -/
def fifoGuard (s : FifoState τ) : FifoOp τ → Prop
  | .make dir name memory next =>
      memory ≠ none → name ≠ [] → searchDirEntry name (s.dirs dir) = none →
        ∀ id ∈ s.freeInode, ∃ e ∈ s.dirs dir ++ next, takes ⟨id, typeFifo, name⟩ e
  | .open t dir name flags _ => ∀ e ∈ s.fifoEntry dir name,
      if flags &&& oCreat ≠ 0 then ∀ id ∈ s.freeInode, s.Spares dir ⟨id, typeNormal, name⟩
      else flags &&& readOrWrite ≠ 0 →
        (∃ o ∈ s.objects, o.inode = e.inode) ∧
          (flags &&& oneEnd ≠ 0 → s.files.HasSlot t ∧ ¬ s.files.TableFull)
  | .remove dir name _ => ∀ e ∈ s.fifoEntry dir name, s.InUse e
  | .use _ _ | .fork _ _ | .close _ _ => True

/-- The entry that a new FIFO takes the place of is not that of another FIFO. -/
theorem FifoInv.spares_make (h : FifoInv s) {dir id : Nat} {name : List Char}
    (hnone : searchDirEntry name (s.dirs dir) = none) (hfree : s.inodeUsed id = false) :
    s.Spares dir ⟨id, typeFifo, name⟩ := by
  intro e hfind htype hne o ho hinode
  have hvalid : e.type ≠ typeInvalid := by rw [htype]; decide
  have htakes := List.find?_some hfind
  have hother : e.inode ≠ id := fun heq => h.inode_ne hfree ho (hinode.trans heq)
  have hname : e.name = name := by simpa [takes, hvalid, hne, hother] using htakes
  have hfound := search_of_takes hfind hname hvalid hne
  rw [hnone] at hfound
  cases hfound

theorem FifoInv.makeFifo (h : FifoInv s) {dir : Nat} {name : List Char}
    {memory : Option (UInt32 × UInt32)} {next : List DirEntry}
    (hfresh : ∀ m ∈ memory, ∀ o ∈ s.objects, o.freed = 0 → o.pipe ≠ m.1)
    (hguard : fifoGuard s (.make dir name memory next)) :
    FifoInv (s.makeFifo dir name memory next) := by
  rw [FifoState.makeFifo]
  by_cases hname : name = []
  · rw [if_pos hname]
    exact h
  rw [if_neg hname]
  cases hsearch : searchDirEntry name (s.dirs dir) with
  | some e => exact h
  | none =>
      cases hinode : s.freeInode with
      | none => exact h
      | some id =>
          have hfree := free_inode_unused hinode
          cases memory with
          | none => exact h.reserve hfree _
          | some m =>
              obtain ⟨pipe, buf⟩ := m
              obtain ⟨e, he, htakes⟩ := hguard (by simp) hname hsearch id hinode
              obtain ⟨entries, hsync⟩ : ∃ entries, syncDirEntry (s.dirs dir) next
                  ⟨id, typeFifo, name⟩ = some entries := by
                refine Option.isSome_iff_exists.mp ?_
                rw [syncDirEntry, Option.isSome_map, List.findIdx?_isSome, List.any_eq_true]
                exact ⟨e, he, htakes⟩
              have hdirs := h.sync (h.spares_make hsearch hfree) hsync
              have hadd := hdirs.addObject hfree buf
                (fun o ho => hfresh (pipe, buf) rfl o ho (h.unfreed o ho).1)
                ⟨dir, ⟨id, typeFifo, name⟩, by
                  show _ ∈ Function.update s.dirs dir entries dir
                  rw [Function.update_self]
                  exact (sync_dir_entry_spec hsync).1, rfl, rfl, hname⟩
              simp only [FifoState.syncDir, FifoState.setInode]
              rw [hsync]
              exact hadd

/-- An open file has its FIFO. -/
theorem FifoInv.installNode (h : FifoInv s) (t : τ) (localFd : Fin maxOpenFiles)
    {node : Option FifoNode} (hnode : ∀ n, node = some n →
      ∃ o ∈ s.objects, o.inode = n.dirEntry.inode ∧ o.pipe = n.pipe) :
    FifoInv (s.installNode t localFd node) := by
  rw [FifoState.installNode]
  split
  · exact h
  · refine { h with node := fun fd n hn => ?_ }
    change Function.update s.node _ node fd = some n at hn
    rw [Function.update_apply] at hn
    split at hn
    · exact hnode n hn
    · exact h.node fd n hn

variable [DecidableEq τ]

theorem FifoInv.createFile (h : FifoInv s) (t : τ) {dir : Nat} {name : List Char} (flags : UInt32)
    (next : List DirEntry)
    (hspares : ∀ id, s.freeInode = some id → s.Spares dir ⟨id, typeNormal, name⟩) :
    FifoInv (s.createFile t dir name flags next) := by
  rw [FifoState.createFile]
  cases hinode : s.freeInode with
  | none => exact h
  | some id =>
      have hreserve := h.reserve (free_inode_unused hinode) 0
      simp only [show (s.setInode id true 0).dirs = s.dirs from rfl]
      cases hsync : syncDirEntry (s.dirs dir) next ⟨id, typeNormal, name⟩ with
      | none => exact hreserve
      | some entries =>
          have hdirs := FifoInv.sync hreserve (hspares id hinode) hsync
          simp only
          split
          · exact hdirs.withFiles _
          · exact (hdirs.withFiles _).installNode t _ (by rintro n ⟨⟩)

/-- With room in the tables there is a descriptor. -/
theorem open_file_installs {files : FileState τ} {t : τ} (flags : UInt32) (hslot : files.HasSlot t)
    (hroom : ¬ files.TableFull) :
    ∃ files' localFd, files.openFile t flags = (files', some localFd) := by
  rcases alloc_fd_global_spec files with ⟨hfull, -⟩ | ⟨fd, -, halloc⟩
  · exact absurd hfull hroom
  · simp only [FileState.openFile, halloc]
    generalize hx : FileState.setFile _ _ _ = x
    have hsame : x.HasSlot t := hx ▸ hslot
    rcases task_install_fd_spec x t fd with ⟨hno, -⟩ | ⟨i, -, hinstall⟩
    · exact absurd hsame hno
    · exact ⟨_, i, hinstall⟩

theorem FifoInv.openFifo (h : FifoInv s) {t : τ} {dir : Nat} {name : List Char} {e : DirEntry}
    {flags : UInt32} {next : List DirEntry} (he : s.fifoEntry dir name = some e)
    (hguard : fifoGuard s (.open t dir name flags next)) :
    FifoInv (s.openFifo t dir e flags next) := by
  have hcan := hguard e he
  have hname : e.name = name := name_of_search (Option.filter_eq_some_iff.mp he).1
  rw [FifoState.openFifo]
  by_cases hcreat : flags &&& oCreat ≠ 0
  · rw [if_pos hcreat] at hcan ⊢
    rw [hname]
    exact h.createFile t flags next hcan
  rw [if_neg hcreat] at hcan ⊢
  by_cases hends : flags &&& readOrWrite = 0
  · rw [if_pos hends]
    exact h
  rw [if_neg hends]
  obtain ⟨⟨o, ho, hinode⟩, hroom⟩ := hcan hends
  have hpipe : o.pipe = s.blocks₀ e.inode := by rw [← hinode, (h.inode o ho).1]
  split
  · next files hopen =>
      -- nothing is opened for an end that nobody waits for
      have hnoEnd : ¬ flags &&& oneEnd ≠ 0 := by
        intro hend
        obtain ⟨_, _, hinstalls⟩ := open_file_installs flags (hroom hend).1 (hroom hend).2
        rw [hinstalls] at hopen
        cases hopen
      rw [if_neg hnoEnd]
      exact h.withFiles files
  · next files localFd hopen =>
      have hnode : ∀ n, some (⟨e, s.blocks₀ e.inode⟩ : FifoNode) = some n →
          ∃ o ∈ s.objects, o.inode = n.dirEntry.inode ∧ o.pipe = n.pipe := by
        rintro n ⟨⟩
        exact ⟨o, ho, hinode, hpipe⟩
      have hinstalled := (h.withFiles files).installNode t localFd hnode
      simp only
      split
      · exact hinstalled.accessFd t localFd
      · exact hinstalled

theorem FifoInv.fork (h : FifoInv s) (parent child : τ) : FifoInv (s.fork parent child) := by
  rw [FifoState.fork]
  have hloop : ∀ (fds : List (Fin maxOpenFiles)) (s : FifoState τ), FifoInv s →
      FifoInv (fds.foldl (fun s localFd => s.accessFd child localFd) s) := by
    intro fds
    induction fds with
    | nil => exact fun s h => h
    | cons fd rest ih => exact fun s h => ih _ (h.accessFd child fd)
  exact hloop _ _ (h.withFiles _)

/-- A call that meets the guard keeps the invariant. -/
theorem FifoInv.step (h : FifoInv s) {op : FifoOp τ} (hguard : fifoGuard s op) {s' : FifoState τ}
    (hstep : fifoStep s op = some s') : FifoInv s' := by
  cases op with
  | make dir name memory next =>
      simp only [fifoStep, Option.ite_none_right_eq_some, Option.some.injEq] at hstep
      obtain ⟨hfresh, rfl⟩ := hstep
      exact h.makeFifo hfresh hguard
  | «open» t dir name flags next =>
      simp only [fifoStep, Option.ite_none_right_eq_some] at hstep
      obtain ⟨-, hstep⟩ := hstep
      obtain ⟨e, he, rfl⟩ := Option.map_eq_some_iff.mp hstep
      exact h.openFifo he hguard
  | use t fd =>
      simp only [fifoStep, Option.ite_none_right_eq_some, Option.some.injEq] at hstep
      obtain ⟨-, rfl⟩ := hstep
      exact h.accessFd t fd
  | fork parent child =>
      simp only [fifoStep, Option.ite_none_right_eq_some, Option.some.injEq] at hstep
      obtain ⟨-, rfl⟩ := hstep
      exact h.fork parent child
  | close t fd =>
      simp only [fifoStep, Option.ite_none_right_eq_some, Option.some.injEq] at hstep
      obtain ⟨-, rfl⟩ := hstep
      exact (h.accessFd t fd).withFiles _
  | remove dir name next =>
      obtain ⟨e, he, rfl⟩ := Option.map_eq_some_iff.mp hstep
      rw [FifoState.remove, if_pos (hguard e he)]
      exact h

/-- In every run of calls that meet the guard, from whatever disk, the objects live as they
should. -/
theorem fifo_objects_live {live : τ → Bool} {dirs : Nat → List DirEntry} {inodeNr : Nat}
    {inodeUsed : Nat → Bool} {blocks₀ : Nat → UInt32} {ops : List (FifoOp τ)}
    (hrun : Run (stepOf fifoStep) fifoGuard (.mount live dirs inodeNr inodeUsed blocks₀) ops s) :
    FifoLifetime s :=
  (hrun.invariant (fun _ _ _ h hguard hstep => h.step hguard hstep)
    (fifo_inv_mount live dirs inodeNr inodeUsed blocks₀)).lifetime

instance (s : FifoState τ) (dir : Nat) (child : DirEntry) : Decidable (s.Spares dir child) :=
  inferInstanceAs (Decidable (∀ e ∈ (s.dirs dir).find? (takes child), e.type = typeFifo →
    e.name ≠ [] → ∀ o ∈ s.objects, o.inode ≠ e.inode))

instance (s : FifoState τ) : DecidablePred (fifoGuard s)
  | .make dir name memory next => inferInstanceAs (Decidable (memory ≠ none → name ≠ [] →
      searchDirEntry name (s.dirs dir) = none → ∀ id ∈ s.freeInode,
        ∃ e ∈ s.dirs dir ++ next, takes ⟨id, typeFifo, name⟩ e))
  | .open t dir name flags _ => inferInstanceAs (Decidable (∀ e ∈ s.fifoEntry dir name,
      if flags &&& oCreat ≠ 0 then ∀ id ∈ s.freeInode, s.Spares dir ⟨id, typeNormal, name⟩
      else flags &&& readOrWrite ≠ 0 → (∃ o ∈ s.objects, o.inode = e.inode) ∧
        (flags &&& oneEnd ≠ 0 → s.files.HasSlot t ∧ ¬ s.files.TableFull)))
  | .remove dir name _ => inferInstanceAs (Decidable (∀ e ∈ s.fifoEntry dir name, s.InUse e))
  | .use _ _ | .fork _ _ | .close _ _ => inferInstanceAs (Decidable True)

/-- A FIFO is made on an empty disk, a task opens it, and forks a child that closes it. -/
def madeAndOpened : List (FifoOp (Fin 2)) :=
  [.make 0 ['f'] (some (0x80001000, 0x80002000)) [⟨0, 0, []⟩], .open 0 0 ['f'] 1 [], .use 0 0,
    .fork 0 1, .close 1 0]

/-- The object has been used four times, for inode 0. -/
theorem made_and_opened_lives : ∃ s : FifoState (Fin 2),
    Run (stepOf fifoStep) fifoGuard
      (.mount (fun t => t = 0) (fun _ => []) 4 (fun _ => false) fun _ => 0) madeAndOpened s ∧
      (s.accesses.length, s.objects.length) = (4, 1) ∧ FifoLifetime s := by
  obtain ⟨s, t, hstart, hrun, hview⟩ := exists_run_checked fifoStep fifoGuard
    (some (.mount (fun t : Fin 2 => t = 0) (fun _ => []) 4 (fun _ => false) fun _ => 0))
    madeAndOpened (fun s => (s.accesses.length, s.objects.length)) (v := (4, 1))
    (by decide +kernel)
  cases Option.some.inj hstart
  exact ⟨t, hrun, hview, fifo_objects_live hrun⟩

/-- A disk with a FIFO from before the last boot. -/
def oldFifo : FifoState (Fin 1) :=
  .mount (fun _ => true) (fun _ => [⟨3, typeFifo, ['f']⟩]) 4 (fun id => id = 3) fun _ => 0x80c00000

/-- Its pointer is followed when it is opened, and there is no object. -/
theorem old_fifo_followed : ∃ s : FifoState (Fin 1),
    Run (stepOf fifoStep) anyLabel oldFifo [.open 0 0 ['f'] 1 []] s ∧ ¬ FifoLifetime s := by
  obtain ⟨s, t, hstart, hrun, hview⟩ := exists_run_all fifoStep (some oldFifo)
    [.open 0 0 ['f'] 1 []] (fun s => s.accesses.map (·.owner)) (v := [none]) (by decide +kernel)
  cases Option.some.inj hstart
  refine ⟨t, hrun, fun h => ?_⟩
  obtain ⟨a, ha, howner⟩ := List.mem_map.mp
    (show none ∈ t.accesses.map (·.owner) by rw [hview]; exact List.mem_singleton.mpr rfl)
  rw [h.owned a ha] at howner
  cases howner

end XBook.Fifos
