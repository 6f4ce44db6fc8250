import XBook.Fs.DirInsert
import XBook.Fs.RemoveDir
import XBook.Fs.Rename
import XBook.Lib.Transition

/-!
# A directory over its calls

A directory is to be a map from names to inodes. `BOFS_CreateFile`, and `BOFS_Remove` and
`BOFS_ResetName` behind their search, are steps of a directory and the inode bitmap. `DirInv` says
that the entries in use name inodes in use, and no inode but that of a dot entry is named twice;
`directory_is_map` that the searches then find what the map has.
-/

namespace XBook.Paths

open Fifos Dirs Dirs.DirNode DirTree Transition

/-- A call on the entries of one directory. Removal is given the entries of the open files. -/
inductive DirCall where
  | create (name : List Char) (room : Nat → Bool) (fd : Int)
  | remove (name : List Char) (openFiles : List DirEntry) (room : Nat → Bool)
  | rename (name newName : List Char) (room : Nat → Bool)

section Calls

variable (n : Nat) (s : DirStore) (parentDir : DirEntry)

/-- `BOFS_Remove` behind the search, with `BOFS_ReleaseDirEntry` as far as the bitmap goes. There is
memory for the buffer of `BOFS_SyncDirEntry`. -/
def removeFile (name : List Char) (openFiles : List DirEntry) (room : Nat → Bool) :
    DirStore × Int :=
  match (s.dirs parentDir.inode).searchDirEntry n name with
  | none => (s, -1)
  | some childDir =>
      if childDir.type = typeDirectory then (s, -1)
      else if childDir ∈ openFiles then (s, -1)
      else
        let freed := { s with inodeUsed := Function.update s.inodeUsed childDir.inode false }
        match (s.dirs parentDir.inode).syncDirEntry n room
            { childDir with type := typeInvalid } with
        | none => (freed, -1)
        | some (node, _) => (freed.syncInode parentDir.inode node, 0)

/-- `BOFS_ResetName` behind the search. -/
def resetEntry (name newName : List Char) (room : Nat → Bool) : DirStore × Int :=
  match (s.dirs parentDir.inode).searchDirEntry n name with
  | none => (s, -1)
  | some childDir =>
      match (s.dirs parentDir.inode).syncDirEntry n room { childDir with name := newName } with
      | none => (s, -1)
      | some (node, _) => (s.syncInode parentDir.inode node, 0)

/-- What a call leaves, and its result. -/
def dirCall : DirCall → DirStore × Int
  | .create name room fd => s.createFile n parentDir name room fd
  | .remove name openFiles room => removeFile n s parentDir name openFiles room
  | .rename name newName room => resetEntry n s parentDir name newName room

end Calls

/-- A call with its result. -/
def dirStep (n : Nat) (parentDir : DirEntry) (s : DirStore) (call : DirCall × Int)
    (t : DirStore) : Prop := dirCall n s parentDir call.1 = (t, call.2)

/-- A name that fits an entry, and is none of the dots. -/
structure FileName (name : List Char) : Prop where
  nonempty : name ≠ []
  fits : name.length < bofsNameLen
  notDots : ¬IsDots name

/-- What the caller sees to. `BOFS_Open` creates no file whose name is found, in a directory that
may grow. An entry that is removed or renamed is in front of every place that a removed entry has
left, and a new name is new. The dots stay. -/
def dirGuard (n : Nat) (parentDir : DirEntry) (s : DirStore) (call : DirCall × Int) : Prop :=
  match call.1 with
  | .create name _ fd => FileName name ∧ fd ≠ -1 ∧
      (s.dirs parentDir.inode).searchDirEntry n name = none ∧ SizeFits n (s.dirs parentDir.inode)
  | .remove name _ _ => ¬IsDots name ∧
      ∀ e, (s.dirs parentDir.inode).searchDirEntry n name = some e →
        FirstInvalid n e (s.dirs parentDir.inode)
  | .rename name newName _ => ¬IsDots name ∧ FileName newName ∧
      (newName = name ∨ (s.dirs parentDir.inode).searchDirEntry n newName = none) ∧
      ∀ e, (s.dirs parentDir.inode).searchDirEntry n name = some e →
        FirstInvalid n e (s.dirs parentDir.inode)

/-! ## The map -/

/-- The inode and the type of each name. -/
abbrev Bindings := List Char → Option (Nat × UInt16)

/-- The names that a directory finds. -/
def bindings (n : Nat) (d : DirNode) : Bindings := fun name =>
  (d.searchDirEntry n name).map fun e => (e.inode, e.type)

/-- What a call is to do to the map, by its result. -/
inductive Binds (m : Bindings) : DirCall × Int → Bindings → Prop where
  | fails {call : DirCall} {result : Int} (hresult : result = -1) : Binds m (call, result) m
  | creates {name : List Char} {room : Nat → Bool} {fd : Int} (inode : Nat) (hfd : fd ≠ -1)
      (hnew : m name = none) (hfree : ∀ other x, m other = some x → x.1 ≠ inode) :
      Binds m (.create name room fd, fd) (Function.update m name (some (inode, typeNormal)))
  | removes {name : List Char} {openFiles : List DirEntry} {room : Nat → Bool} (x : Nat × UInt16)
      (hthere : m name = some x) (htype : x.2 ≠ typeDirectory) :
      Binds m (.remove name openFiles room, 0) (Function.update m name none)
  | renames {name newName : List Char} {room : Nat → Bool} (x : Nat × UInt16)
      (hthere : m name = some x) :
      Binds m (.rename name newName room, 0)
        (Function.update (Function.update m name none) newName (some x))

/-! ## The invariant -/

/-- The entry in use at a place. -/
def ValidAt (n : Nat) (d : DirNode) (i : Nat) : Prop :=
  (d.slot n i).name ≠ [] ∧ (d.slot n i).type ≠ typeInvalid

/-- The directory is well-formed, its entries in use name inodes in use, and a file has one name. -/
structure DirInv (n : Nat) (parentDir : DirEntry) (s : DirStore) : Prop where
  wellFormed : (s.dirs parentDir.inode).WellFormed n
  fits : (s.dirs parentDir.inode).size + n * sizeofDirEntry ≤ 2 ^ 32
  parent : s.inodeUsed parentDir.inode = true
  used : ∀ i, ValidAt n (s.dirs parentDir.inode) i →
    s.inodeUsed ((s.dirs parentDir.inode).slot n i).inode = true
  once : ∀ i j, ValidAt n (s.dirs parentDir.inode) i →
    ¬IsDots ((s.dirs parentDir.inode).slot n i).name → ValidAt n (s.dirs parentDir.inode) j →
    ((s.dirs parentDir.inode).slot n j).inode = ((s.dirs parentDir.inode).slot n i).inode → j = i
  notParent : ∀ i, ValidAt n (s.dirs parentDir.inode) i →
    ¬IsDots ((s.dirs parentDir.inode).slot n i).name →
    ((s.dirs parentDir.inode).slot n i).inode ≠ parentDir.inode

section Steps

variable {n : Nat} {s t : DirStore} {parentDir : DirEntry}

/-- A search for no name stops at the first entry. -/
theorem search_nil {d : DirNode}
    (hfull : ∀ blockID block, d.block blockID = some block → block.length = n) :
    d.searchDirEntry n [] = none := by
  rw [Option.eq_none_iff_forall_ne_some]
  intro e hfound
  rw [search_eq hfull] at hfound
  obtain ⟨before, after, -, hname, he, -⟩ := search_split hfound
  exact hname he.1

/-- A map is what the names of a directory find, whatever it says about no name. -/
theorem bindings_eq {d : DirNode} {m : Bindings}
    (hfull : ∀ blockID block, d.block blockID = some block → block.length = n)
    (hm : m [] = none) (h : ∀ key, key ≠ [] → bindings n d key = m key) : bindings n d = m := by
  funext key
  by_cases hkey : key = []
  · rw [hkey, hm, bindings, search_nil hfull]
    rfl
  · exact h key hkey

theorem bindings_nil {d : DirNode}
    (hfull : ∀ blockID block, d.block blockID = some block → block.length = n) :
    bindings n d [] = none := by
  rw [bindings, search_nil hfull]
  rfl

/-- What is found is at a place that is in use. -/
theorem DirInv.found (hn : 0 < n) (h : DirInv n parentDir s) {name : List Char} {e : DirEntry}
    (hfound : (s.dirs parentDir.inode).searchDirEntry n name = some e) :
    e.name = name ∧ name ≠ [] ∧ e.type ≠ typeInvalid ∧
      ∃ i, (s.dirs parentDir.inode).slot n i = e ∧ ValidAt n (s.dirs parentDir.inode) i := by
  have hne : name ≠ [] := by
    rintro rfl
    rw [search_nil h.wellFormed.full] at hfound
    cases hfound
  obtain ⟨he, i, hi⟩ := (search_some_iff hn h.wellFormed h.fits hne e).mp hfound
  refine ⟨he.1, hne, he.2, i, hi, ?_⟩
  unfold ValidAt
  rw [hi, he.1]
  exact ⟨hne, he.2⟩

/-- A name that is not found is at no place. -/
theorem DirInv.fresh (hn : 0 < n) (h : DirInv n parentDir s) {name : List Char} (hname : name ≠ [])
    (hnone : (s.dirs parentDir.inode).searchDirEntry n name = none) (i : Nat) :
    ¬IsEntry name ((s.dirs parentDir.inode).slot n i) := by
  intro hentry
  rw [(search_some_iff hn h.wellFormed h.fits hname _).mpr ⟨hentry, i, rfl⟩] at hnone
  cases hnone

/-- The directory is as before, and no inode is freed. -/
theorem DirInv.more_used (h : DirInv n parentDir s)
    (hdirs : t.dirs parentDir.inode = s.dirs parentDir.inode)
    (hused : ∀ id, s.inodeUsed id = true → t.inodeUsed id = true) : DirInv n parentDir t := by
  refine ⟨?_, ?_, hused _ h.parent, ?_, ?_, ?_⟩ <;> rw [hdirs]
  · exact h.wellFormed
  · exact h.fits
  · exact fun i hi => hused _ (h.used i hi)
  · exact h.once
  · exact h.notParent

/-! ## A new file -/

theorem normal_valid : typeNormal ≠ typeInvalid := by decide

/-- No entry in use has an inode that is free. -/
theorem DirInv.new_inode (h : DirInv n parentDir s) {inodeID : Nat}
    (hfree : s.inodeUsed inodeID = false) : NewInode n inodeID (s.dirs parentDir.inode) := by
  intro i hi hvalid hinode
  have hused := h.used i ⟨(h.wellFormed.written i).mpr hi, hvalid i le_rfl⟩
  rw [hinode, hfree] at hused
  cases hused

/-- The entry with a free inode keeps the invariant. -/
theorem DirInv.inserted (h : DirInv n parentDir s) (child : DirEntry) (place : Nat)
    (hfree : s.inodeUsed child.inode = false)
    (hused : t.inodeUsed = Function.update s.inodeUsed child.inode true)
    (hwf : (t.dirs parentDir.inode).WellFormed n)
    (hfits : (t.dirs parentDir.inode).size + n * sizeofDirEntry ≤ 2 ^ 32)
    (hslots : ∀ i, (t.dirs parentDir.inode).slot n i =
      if i = place then child else (s.dirs parentDir.inode).slot n i) : DirInv n parentDir t := by
  have hother : ∀ i, i ≠ place →
      (t.dirs parentDir.inode).slot n i = (s.dirs parentDir.inode).slot n i := by
    intro i hi
    rw [hslots, if_neg hi]
  have hplace : (t.dirs parentDir.inode).slot n place = child := by rw [hslots, if_pos rfl]
  -- An entry in use at another place was there before, so its inode is not the free one.
  have hold : ∀ i, i ≠ place → ValidAt n (t.dirs parentDir.inode) i →
      ValidAt n (s.dirs parentDir.inode) i ∧
        ((s.dirs parentDir.inode).slot n i).inode ≠ child.inode := by
    intro i hi hvalid
    unfold ValidAt at hvalid
    rw [hother i hi] at hvalid
    refine ⟨hvalid, fun hinode => ?_⟩
    have hthere := h.used i hvalid
    rw [hinode, hfree] at hthere
    cases hthere
  refine ⟨hwf, hfits, ?_, ?_, ?_, ?_⟩
  · rw [hused, Function.update_apply]
    split
    · rfl
    · exact h.parent
  · intro i hvalid
    by_cases hi : i = place
    · rw [hi, hplace, hused, Function.update_self]
    · obtain ⟨hbefore, hne⟩ := hold i hi hvalid
      rw [hother i hi, hused, Function.update_of_ne hne]
      exact h.used i hbefore
  · intro i j hi hdots hj hsame
    by_cases hip : i = place
    · by_contra hne
      rw [hip] at hne hsame
      rw [hother j hne, hplace] at hsame
      exact (hold j hne hj).2 hsame
    · by_cases hjp : j = place
      · rw [hjp, hplace, hother i hip] at hsame
        exact absurd hsame.symm (hold i hip hi).2
      · rw [hother i hip] at hdots hsame
        rw [hother j hjp] at hsame
        exact h.once i j (hold i hip hi).1 hdots (hold j hjp hj).1 hsame
  · intro i hi hdots hinode
    by_cases hip : i = place
    · rw [hip, hplace] at hinode
      rw [hinode, h.parent] at hfree
      cases hfree
    · rw [hother i hip] at hdots hinode
      exact h.notParent i (hold i hip hi).1 hdots hinode

/-- `BOFS_CreateFile` binds a new name to a free inode. -/
theorem create_step (hn : 0 < n) (hmax : n ≤ 16) (h : DirInv n parentDir s) {name : List Char}
    {room : Nat → Bool} {fd result : Int} (hname : FileName name) (hfd : fd ≠ -1)
    (hnew : (s.dirs parentDir.inode).searchDirEntry n name = none)
    (hsize : SizeFits n (s.dirs parentDir.inode))
    (hcall : s.createFile n parentDir name room fd = (t, result)) :
    DirInv n parentDir t ∧ Binds (bindings n (s.dirs parentDir.inode))
      (.create name room fd, result) (bindings n (t.dirs parentDir.inode)) := by
  unfold DirStore.createFile at hcall
  cases halloc : s.allocInode with
  | none =>
      rw [halloc] at hcall
      cases hcall
      exact ⟨h, .fails rfl⟩
  | some inodeID =>
      have hfree := DirStore.alloc_inode_free halloc
      have hdir : (s.createInode inodeID 0).dirs parentDir.inode = s.dirs parentDir.inode :=
        Function.update_of_ne (DirStore.parent_ne halloc h.parent) _ _
      rw [halloc] at hcall
      dsimp only at hcall
      cases hsync : (s.createInode inodeID 0).syncChild n parentDir.inode room
          ⟨inodeID, typeNormal, name⟩ with
      | none =>
          -- The inode stays allocated, but no entry has it.
          rw [hsync] at hcall
          cases hcall
          refine ⟨h.more_used hdir fun id hid => ?_, by rw [hdir]; exact .fails rfl⟩
          show Function.update s.inodeUsed inodeID true id = true
          rw [Function.update_apply]
          split
          · rfl
          · exact hid
      | some s' =>
          rw [hsync] at hcall
          cases hcall
          rw [DirStore.syncChild, hdir, Option.map_eq_some_iff] at hsync
          obtain ⟨⟨node, r⟩, hstored, rfl⟩ := hsync
          obtain ⟨place, hplace⟩ := sync_stored hn hmax h.wellFormed hstored
          have hnode : ((s.createInode inodeID 0).syncInode parentDir.inode (node.grow r)).dirs
              parentDir.inode = node.grow r := Function.update_self _ _ _
          have hins := hplace.inserted hn h.wellFormed hname.nonempty normal_valid
            (h.fresh hn hname.nonempty hnew) (h.new_inode hfree) hsize
          have hslots : ∀ i, (node.grow r).slot n i =
              if i = place then ⟨inodeID, typeNormal, name⟩
              else (s.dirs parentDir.inode).slot n i := by
            intro i
            rw [slot_grow, hplace.slots]
          refine ⟨h.inserted ⟨inodeID, typeNormal, name⟩ place hfree rfl ?_ ?_ ?_, ?_⟩
          · rw [hnode]
            exact hins.wellFormed
          · rw [hnode]
            exact found_fits hmax hins.wellFormed hins.found.1
          · rw [hnode]
            exact hslots
          · rw [hnode]
            have hmap : bindings n (node.grow r) = Function.update
                (bindings n (s.dirs parentDir.inode)) name (some (inodeID, typeNormal)) := by
              refine bindings_eq hins.wellFormed.full ?_ fun key hkey => ?_
              · rw [Function.update_of_ne hname.nonempty.symm]
                exact bindings_nil h.wellFormed.full
              · by_cases hsame : key = name
                · rw [hsame, Function.update_self, bindings, hins.found.1]
                  rfl
                · rw [Function.update_of_ne hsame, bindings, (hins.others key hkey hsame).1]
                  rfl
            rw [hmap]
            refine .creates inodeID hfd ?_ fun other x hx hinode => ?_
            · rw [bindings, hnew]
              rfl
            · obtain ⟨e, he, rfl⟩ := Option.map_eq_some_iff.mp hx
              obtain ⟨-, -, -, i, hi, hvalid⟩ := h.found hn he
              have hused := h.used i hvalid
              rw [hi, show e.inode = inodeID from hinode, hfree] at hused
              cases hused

/-! ## A removed file -/

/-- The entry that is first of the removed ones gets its own place. -/
theorem DirInv.removed (h : DirInv n parentDir s) {child : DirEntry} {place result : Nat}
    {node : DirNode} (hplace : (s.dirs parentDir.inode).slot n place = child)
    (hvalid : ValidAt n (s.dirs parentDir.inode) place) (hdots : ¬IsDots child.name)
    (hstored : Stored n 0 place { child with type := typeInvalid } (s.dirs parentDir.inode) node
      result)
    (hdirs : t.dirs parentDir.inode = node)
    (hused : t.inodeUsed = Function.update s.inodeUsed child.inode false) :
    DirInv n parentDir t := by
  have hown : ¬IsDots ((s.dirs parentDir.inode).slot n place).name := by rwa [hplace]
  have hslots := hstored.slots
  -- What is still in use is at another place, and its inode is another one.
  have hold : ∀ i, ValidAt n node i → node.slot n i = (s.dirs parentDir.inode).slot n i ∧
      ValidAt n (s.dirs parentDir.inode) i ∧ i ≠ place := by
    intro i hi
    unfold ValidAt at hi
    rw [hslots] at hi ⊢
    split at hi
    · exact absurd rfl hi.2
    · next hne =>
        rw [if_neg hne]
        exact ⟨rfl, hi, hne⟩
  have hparent : parentDir.inode ≠ child.inode := by
    rw [← hplace]
    exact (h.notParent place hvalid hown).symm
  refine ⟨?_, ?_, ?_, ?_, ?_, ?_⟩
  · rw [hdirs]
    refine invalidated_well_formed h.wellFormed hstored ?_ hvalid.1
    rw [← hplace]
    exact hvalid.1
  · rw [hdirs, hstored.size_eq]
    exact h.fits
  · rw [hused, Function.update_of_ne hparent]
    exact h.parent
  · rw [hdirs]
    intro i hi
    obtain ⟨hsame, hbefore, hne⟩ := hold i hi
    rw [hsame, hused, Function.update_of_ne]
    · exact h.used i hbefore
    · intro hinode
      rw [← hplace] at hinode
      exact hne (h.once place i hvalid hown hbefore hinode)
  · rw [hdirs]
    intro i j hi hidots hj hinode
    obtain ⟨hisame, hibefore, -⟩ := hold i hi
    obtain ⟨hjsame, hjbefore, -⟩ := hold j hj
    rw [hisame] at hidots hinode
    rw [hjsame] at hinode
    exact h.once i j hibefore hidots hjbefore hinode
  · rw [hdirs]
    intro i hi hidots
    obtain ⟨hsame, hbefore, -⟩ := hold i hi
    rw [hsame] at hidots ⊢
    exact h.notParent i hbefore hidots

/-- `BOFS_Remove` unbinds the name of a file. -/
theorem remove_step (hn : 0 < n) (hmax : n ≤ 16) (h : DirInv n parentDir s) {name : List Char}
    {openFiles : List DirEntry} {room : Nat → Bool} {result : Int} (hdots : ¬IsDots name)
    (hfirst : ∀ e, (s.dirs parentDir.inode).searchDirEntry n name = some e →
      FirstInvalid n e (s.dirs parentDir.inode))
    (hcall : removeFile n s parentDir name openFiles room = (t, result)) :
    DirInv n parentDir t ∧ Binds (bindings n (s.dirs parentDir.inode))
      (.remove name openFiles room, result) (bindings n (t.dirs parentDir.inode)) := by
  unfold removeFile at hcall
  cases hfound : (s.dirs parentDir.inode).searchDirEntry n name with
  | none =>
      rw [hfound] at hcall
      cases hcall
      exact ⟨h, .fails rfl⟩
  | some childDir =>
      rw [hfound] at hcall
      dsimp only at hcall
      split at hcall
      · cases hcall
        exact ⟨h, .fails rfl⟩
      · next htype =>
          split at hcall
          · cases hcall
            exact ⟨h, .fails rfl⟩
          · cases hsync : (s.dirs parentDir.inode).syncDirEntry n room
                { childDir with type := typeInvalid } with
            | none => exact absurd hsync (sync_found room hfound typeInvalid)
            | some stored =>
                obtain ⟨node, r⟩ := stored
                rw [hsync] at hcall
                cases hcall
                obtain ⟨hname, hne, hvalid, -⟩ := h.found hn hfound
                obtain ⟨place, hstored, hnamed, hplace⟩ :=
                  removed_place hn hmax h.wellFormed hfound hsync
                -- No removed entry is in front of the child.
                have hown : (s.dirs parentDir.inode).slot n place = childDir := by
                  obtain ⟨hown, -⟩ | ⟨-, hnot⟩ := hplace
                  · exact hown
                  · exact absurd (hfirst childDir hfound) hnot
                have hchild : childDir.name ≠ [] := by rwa [hname]
                refine ⟨h.removed hown ⟨hnamed, by rwa [hown]⟩ (by rwa [hname]) hstored
                  (Function.update_self _ _ _) rfl, ?_⟩
                show Binds _ _ (bindings n (Function.update s.dirs parentDir.inode node
                  parentDir.inode))
                rw [Function.update_self]
                have hmap : bindings n node =
                    Function.update (bindings n (s.dirs parentDir.inode)) name none := by
                  refine bindings_eq hstored.full ?_ fun key hkey => ?_
                  · rw [Function.update_of_ne hne.symm]
                    exact bindings_nil h.wellFormed.full
                  · have hsearch := invalidated_search hn h.wellFormed h.fits hstored hchild hnamed
                      hkey
                    rw [hown] at hsearch
                    by_cases hsame : key = name
                    · rw [hsame, Function.update_self, bindings, Option.map_eq_none_iff,
                        Option.eq_none_iff_forall_ne_some]
                      intro e he
                      rw [← hsame] at he hfound
                      obtain ⟨hbefore, hother⟩ := (hsearch e).mp he
                      exact hother (Option.some.inj (hbefore.symm.trans hfound))
                    · rw [Function.update_of_ne hsame, bindings, bindings]
                      refine congrArg _ (Option.ext fun e => (hsearch e).trans ?_)
                      refine and_iff_left_of_imp fun he => ?_
                      rintro rfl
                      exact hsame ((h.found hn he).1.symm.trans hname)
                rw [hmap]
                refine .removes (childDir.inode, childDir.type) ?_ htype
                rw [bindings, hfound]
                rfl

/-! ## A renamed entry -/

/-- The inodes, and what is in use, are as before. -/
theorem DirInv.renamed (h : DirInv n parentDir s)
    (hwf : (t.dirs parentDir.inode).WellFormed n)
    (hfits : (t.dirs parentDir.inode).size + n * sizeofDirEntry ≤ 2 ^ 32)
    (hused : t.inodeUsed = s.inodeUsed)
    (hsame : ∀ i, ValidAt n (t.dirs parentDir.inode) i →
      ValidAt n (s.dirs parentDir.inode) i ∧ ((t.dirs parentDir.inode).slot n i).inode =
        ((s.dirs parentDir.inode).slot n i).inode ∧
      (IsDots ((s.dirs parentDir.inode).slot n i).name →
        IsDots ((t.dirs parentDir.inode).slot n i).name)) : DirInv n parentDir t := by
  refine ⟨hwf, hfits, by rw [hused]; exact h.parent, ?_, ?_, ?_⟩
  · intro i hi
    obtain ⟨hbefore, hinode, -⟩ := hsame i hi
    rw [hused, hinode]
    exact h.used i hbefore
  · intro i j hi hdots hj hij
    obtain ⟨hibefore, hiinode, hidots⟩ := hsame i hi
    obtain ⟨hjbefore, hjinode, -⟩ := hsame j hj
    rw [hiinode, hjinode] at hij
    exact h.once i j hibefore (fun hd => hdots (hidots hd)) hjbefore hij
  · intro i hi hdots
    obtain ⟨hbefore, hinode, hidots⟩ := hsame i hi
    rw [hinode]
    exact h.notParent i hbefore fun hd => hdots (hidots hd)

/-- In front of an entry that is first of the removed ones there is none of its inode. -/
theorem DirInv.own_place (hn : 0 < n) (h : DirInv n parentDir s) {name newName : List Char}
    {childDir : DirEntry} (hfound : (s.dirs parentDir.inode).searchDirEntry n name = some childDir)
    (hdots : ¬IsDots name) (hnewName : newName ≠ [])
    (hnew : newName = name ∨ (s.dirs parentDir.inode).searchDirEntry n newName = none)
    (hfirst : FirstInvalid n childDir (s.dirs parentDir.inode)) :
    OwnPlace n childDir newName (s.dirs parentDir.inode) := by
  intro i hi
  obtain ⟨hname, hne, hvalid, -⟩ := h.found hn hfound
  have hentry : ValidAt n (s.dirs parentDir.inode) i := by
    unfold ValidAt
    rw [hi, hname]
    exact ⟨hne, hvalid⟩
  refine ⟨fun j hj => ⟨hfirst i j hi hj, fun hinode => ?_⟩, fun j hj hother => ?_⟩
  · have hbefore : ((s.dirs parentDir.inode).slot n j).name ≠ [] := by
      rw [h.wellFormed.written]
      exact (Nat.mul_le_mul_right sizeofDirEntry hj.le).trans_lt
        ((h.wellFormed.written i).mp hentry.1)
    have hsame := h.once i j hentry (by rwa [hi, hname]) ⟨hbefore, hfirst i j hi hj⟩
      (by rwa [hi])
    omega
  · obtain rfl | hnone := hnew
    · exact hj (h.wellFormed.distinct newName j i hother (by rw [hi]; exact ⟨hname, hvalid⟩) hne)
    · exact h.fresh hn hnewName hnone j hother

/-- `BOFS_ResetName` binds the new name to what the old one was bound to. -/
theorem rename_step (hn : 0 < n) (hmax : n ≤ 16) (h : DirInv n parentDir s)
    {name newName : List Char} {room : Nat → Bool} {result : Int} (hdots : ¬IsDots name)
    (hnewName : FileName newName)
    (hnew : newName = name ∨ (s.dirs parentDir.inode).searchDirEntry n newName = none)
    (hfirst : ∀ e, (s.dirs parentDir.inode).searchDirEntry n name = some e →
      FirstInvalid n e (s.dirs parentDir.inode))
    (hcall : resetEntry n s parentDir name newName room = (t, result)) :
    DirInv n parentDir t ∧ Binds (bindings n (s.dirs parentDir.inode))
      (.rename name newName room, result) (bindings n (t.dirs parentDir.inode)) := by
  unfold resetEntry at hcall
  cases hfound : (s.dirs parentDir.inode).searchDirEntry n name with
  | none =>
      rw [hfound] at hcall
      cases hcall
      exact ⟨h, .fails rfl⟩
  | some childDir =>
      rw [hfound] at hcall
      dsimp only at hcall
      cases hsync : (s.dirs parentDir.inode).syncDirEntry n room
          { childDir with name := newName } with
      | none =>
          rw [hsync] at hcall
          cases hcall
          exact ⟨h, .fails rfl⟩
      | some stored =>
          obtain ⟨node, r⟩ := stored
          rw [hsync] at hcall
          cases hcall
          obtain ⟨hname, hne, hvalid, -⟩ := h.found hn hfound
          obtain ⟨-, -, i, hi, hblock, -⟩ := found_place hn hmax h.wellFormed hfound
          obtain ⟨place, hstored⟩ := sync_stored hn hmax h.wellFormed hsync
          have hown := h.own_place hn hfound hdots hnewName.nonempty hnew (hfirst childDir hfound)
          have hrenamed := (renamed_iff hn hmax h.wellFormed hfound hnewName.nonempty hsync).mpr
            hown
          obtain rfl := hrenamed.place_eq hi hvalid hnewName.nonempty hblock hstored
          obtain ⟨-, hother⟩ := hown place hi
          have hchild : ValidAt n (s.dirs parentDir.inode) place := by
            unfold ValidAt
            rw [hi, hname]
            exact ⟨hne, hvalid⟩
          have hnode : (s.syncInode parentDir.inode node).dirs parentDir.inode = node :=
            Function.update_self _ _ _
          have hwf : node.WellFormed n := h.wellFormed.store hstored.slots hstored.full
            hnewName.nonempty hother (.inl ⟨(h.wellFormed.written place).mp hchild.1,
              hstored.size_eq⟩) (by rw [hstored.size_eq]; exact h.wellFormed.sizeLt)
          refine ⟨h.renamed ?_ ?_ rfl ?_, ?_⟩ <;> rw [hnode]
          · exact hwf
          · rw [hstored.size_eq]
            exact h.fits
          · intro j hj
            unfold ValidAt at hj
            rw [hstored.slots] at hj ⊢
            split at hj
            · next heq =>
                rw [if_pos heq, heq]
                refine ⟨hchild, by rw [hi], fun hd => absurd ?_ hdots⟩
                rwa [hi, hname] at hd
            · next heq =>
                rw [if_neg heq]
                exact ⟨hj, rfl, id⟩
          · have hmap : bindings n node = Function.update (Function.update
                (bindings n (s.dirs parentDir.inode)) name none) newName
                  (some (childDir.inode, childDir.type)) := by
              refine bindings_eq hwf.full ?_ fun key hkey => ?_
              · rw [Function.update_of_ne hnewName.nonempty.symm, Function.update_of_ne hne.symm]
                exact bindings_nil h.wellFormed.full
              · by_cases hisnew : key = newName
                · rw [hisnew, Function.update_self, bindings, hrenamed.new.1]
                  rfl
                · rw [Function.update_of_ne hisnew]
                  by_cases hisold : key = name
                  · rw [hisold, Function.update_self, bindings, ← hname,
                      (hrenamed.old (by rw [hname, ← hisold]; exact hisnew)).1]
                    rfl
                  · rw [Function.update_of_ne hisold, bindings,
                      (hrenamed.others key hkey (by rwa [hname]) hisnew).1]
                    rfl
            rw [hmap]
            refine .renames (childDir.inode, childDir.type) ?_
            rw [bindings, hfound]
            rfl

/-! ## The runs -/

/-- Every call keeps the invariant, and does to the map what it is to do. -/
theorem dir_step (hn : 0 < n) (hmax : n ≤ 16) (h : DirInv n parentDir s) {call : DirCall × Int}
    (hguard : dirGuard n parentDir s call) (hstep : dirStep n parentDir s call t) :
    DirInv n parentDir t ∧ Binds (bindings n (s.dirs parentDir.inode)) call
      (bindings n (t.dirs parentDir.inode)) := by
  obtain ⟨call, result⟩ := call
  cases call with
  | create name room fd =>
      obtain ⟨hname, hfd, hnew, hsize⟩ := hguard
      exact create_step hn hmax h hname hfd hnew hsize hstep
  | remove name openFiles room => exact remove_step hn hmax h hguard.1 hguard.2 hstep
  | rename name newName room =>
      obtain ⟨hdots, hnewName, hnew, hfirst⟩ := hguard
      exact rename_step hn hmax h hdots hnewName hnew hfirst hstep

end Steps

/-! ## A file that comes and goes -/

/-- The root directory of a disk. -/
def diskRoot : DirEntry := ⟨0, typeDirectory, ['.']⟩

/-- A disk with eight inodes, of which the first one is that of the root. -/
def emptyDisk : DirStore where
  dirs := fun _ => ⟨0, fun _ => none⟩
  inodeNr := 8
  inodeUsed := fun id => id = 0

theorem empty_slot (i : Nat) : (emptyDisk.dirs 0).slot 4 i = emptyEntry :=
  (no_block (by decide)).cleared i (by
    by_contra hnamed
    exact Nat.not_lt_zero _ (((no_block (by decide)).written i).mp hnamed))

theorem empty_disk_inv : DirInv 4 diskRoot emptyDisk := by
  have hnone : ∀ i, ¬ValidAt 4 (emptyDisk.dirs 0) i := by
    intro i hi
    unfold ValidAt at hi
    rw [empty_slot] at hi
    exact hi.1 rfl
  refine ⟨no_block (by decide), by decide, rfl, ?_, ?_, ?_⟩
  · exact fun i hi => absurd hi (hnone i)
  · exact fun i _ hi => absurd hi (hnone i)
  · exact fun i hi => absurd hi (hnone i)

/-- The disk with a file in its root. -/
def fileDisk : DirStore :=
  (dirCall 4 emptyDisk diskRoot (.create ['a'] (fun _ => true) 3)).1

theorem file_disk_guard :
    dirGuard 4 diskRoot emptyDisk (.create ['a'] (fun _ => true) 3, 3) :=
  ⟨⟨by decide, by decide, by decide⟩, by decide, by decide, by decide, fun _ => by decide⟩

theorem file_disk_step :
    dirStep 4 diskRoot emptyDisk (.create ['a'] (fun _ => true) 3, 3) fileDisk :=
  Prod.ext rfl (by decide)

/-- The file is at the first place. -/
theorem file_disk_first (e : DirEntry)
    (hfound : (fileDisk.dirs 0).searchDirEntry 4 ['a'] = some e) :
    FirstInvalid 4 e (fileDisk.dirs 0) := by
  intro i j hi hj
  obtain ⟨hinv, -⟩ := dir_step (by decide) (by decide) empty_disk_inv file_disk_guard
    file_disk_step
  obtain ⟨hname, hne, hvalid, -⟩ := hinv.found (by decide) hfound
  have hplace : i = 0 := hinv.wellFormed.distinct ['a'] i 0
    (by rw [show (fileDisk.dirs diskRoot.inode).slot 4 i = e from hi]; exact ⟨hname, hvalid⟩)
    ⟨by decide, by decide⟩ hne
  omega

end XBook.Paths
