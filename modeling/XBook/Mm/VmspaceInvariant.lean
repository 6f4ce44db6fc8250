import Mathlib.Data.List.Pairwise
import XBook.Lib.Transition
import XBook.Mm.Vmspace

/-!
# The list of spaces stays well formed

`SpacesOrdered` is the invariant of the list: each space ends before the next one starts. Every
operation keeps it except a `DoMmap` whose search for a free range runs off the end of the list:
`GetUnmappedVMSpace` then returns the end of the last space unchecked, and the new range can leave
the address space. `WrapsAtEnd` says when it does, and `vm_spaces_well_formed` that the list is
well formed after every run without such a call.
-/

namespace XBook

open Transition

namespace VMSpace

/-- The address lies in the space. -/
def Holds (s : VMSpace) (address : Nat) : Prop := s.start ≤ address ∧ address < s.stop

/-- The first space ends before the second starts. -/
def Follows (s t : VMSpace) : Prop := s.stop ≤ t.start

/-- A non-empty range of pages. -/
structure Valid (s : VMSpace) : Prop where
  nonempty : s.start < s.stop
  startAligned : s.start % pageSize = 0
  stopAligned : s.stop % pageSize = 0
  word : s.stop < 2 ^ 32

end VMSpace

/-- The list is sorted by start, its spaces are pairwise disjoint, and each is a non-empty range
of pages. -/
structure WellFormed (spaces : List VMSpace) : Prop where
  sorted : spaces.Pairwise fun s t => s.start ≤ t.start
  disjoint : spaces.Pairwise fun s t => ∀ address, ¬ (s.Holds address ∧ t.Holds address)
  valid : ∀ s ∈ spaces, s.Valid

/-- Each space ends before the next one starts, and each is a non-empty range of pages. -/
structure SpacesOrdered (spaces : List VMSpace) : Prop where
  follows : spaces.Pairwise VMSpace.Follows
  valid : ∀ s ∈ spaces, s.Valid

theorem well_formed_iff_ordered {spaces : List VMSpace} :
    WellFormed spaces ↔ SpacesOrdered spaces := by
  constructor
  · intro h
    refine ⟨?_, h.valid⟩
    refine (h.sorted.and h.disjoint).imp_of_mem ?_
    rintro s t hs ht ⟨hsorted, hdisjoint⟩
    have hsn := (h.valid s hs).nonempty
    have htn := (h.valid t ht).nonempty
    -- otherwise both hold the start of the second
    by_contra hnot
    unfold VMSpace.Follows at hnot
    exact hdisjoint t.start ⟨⟨hsorted, by omega⟩, Nat.le_refl _, htn⟩
  · intro h
    refine ⟨?_, ?_, h.valid⟩
    · refine h.follows.imp_of_mem ?_
      intro s t hs _ hst
      have := (h.valid s hs).nonempty
      unfold VMSpace.Follows at hst
      omega
    · refine h.follows.imp ?_
      intro s t hst address
      unfold VMSpace.Follows VMSpace.Holds at *
      omega

/-- Nothing of `[addr, addr + len)` is mapped. -/
def Unmapped (spaces : List VMSpace) (addr len : Nat) : Prop :=
  ∀ t ∈ spaces, t.stop ≤ addr ∨ addr + len ≤ t.start

/-- The search for `len` free bytes runs off the end of the list, and the range that starts where
the last space ends leaves the address space. -/
def WrapsAtEnd (spaces : List VMSpace) (len : Nat) : Prop :=
  ∃ pre last, spaces = pre ++ [last] ∧ vmsUnmappedBase < last.stop ∧ 2 ^ 32 ≤ last.stop + len ∧
    vmsUnmappedBase + len ≤ userVmSize ∧ (∀ t ∈ pre, t.stop + len ≤ userVmSize) ∧
    ∀ addr, vmsUnmappedBase ≤ addr → Unmapped spaces addr len → last.stop ≤ addr

/-- An operation on an address space, with the results of its `kmalloc` calls. -/
inductive VmOp where
  | mmap (addr len prot flags : UInt32) (kmalloc : Option VMSpace)
  | munmap (addr len : UInt32) (kmalloc : Option VMSpace)
  | brk (brk : UInt32) (kmallocCut kmalloc : Option VMSpace)
  | pageFault (addr esp errorCode : UInt32)

/-- The memory manager after an operation. -/
def vmStep (mm : MemoryManager) : VmOp → MemoryManager
  | .mmap addr len prot flags kmalloc =>
      (doMmap mm addr.toNat len.toNat prot.toNat flags.toNat kmalloc).1
  | .munmap addr len kmalloc => (doMunmap mm addr.toNat len.toNat kmalloc).1
  | .brk brk kmallocCut kmalloc => (sysBrk mm brk.toNat kmallocCut kmalloc).1
  | .pageFault addr esp errorCode => doPageFault mm addr.toNat esp.toNat errorCode.toNat

/-- The call of `DoMmap` passes its checks, is not fixed, and wraps at the end of the list. -/
def MmapWraps (spaces : List VMSpace) (addr len flags : Nat) (kmalloc : Option VMSpace) : Prop :=
  0 < pageAlign len ∧ addr + pageAlign len ≤ userVmSize ∧ mapFixed flags = false ∧
    kmalloc.isSome ∧ WrapsAtEnd spaces (pageAlign len)

/-- The guard of a run in which no `DoMmap` wraps. -/
def vmGuard (mm : MemoryManager) : VmOp → Prop
  | .mmap addr len _ flags kmalloc =>
      ¬ MmapWraps mm.spaceMap addr.toNat len.toNat flags.toNat kmalloc
  | _ => True

/-! ## Searching and inserting -/

/-- What `FindVMSpace` finds. -/
theorem find_vm_space_some {spaces : List VMSpace} {addr : Nat} {c : VMSpaceCursor}
    (h : findVMSpace spaces addr = some c) :
    spaces = c.before ++ c.space :: c.after ∧ (∀ t ∈ c.before, t.stop ≤ addr) ∧
      addr < c.space.stop := by
  induction spaces generalizing c with
  | nil => simp [findVMSpace] at h
  | cons s rest ih =>
      simp only [findVMSpace] at h
      split at h
      · next hlt =>
          cases Option.some.inj h
          exact ⟨rfl, by simp, hlt⟩
      · next hge =>
          obtain ⟨d, hd, rfl⟩ := Option.map_eq_some_iff.mp h
          obtain ⟨hrest, hbefore, hspace⟩ := ih hd
          refine ⟨congrArg (s :: ·) hrest, ?_, hspace⟩
          intro t ht
          rcases List.mem_cons.mp ht with rfl | ht
          · exact Nat.not_lt.mp hge
          · exact hbefore t ht

theorem find_vm_space_none {spaces : List VMSpace} {addr : Nat}
    (h : findVMSpace spaces addr = none) : ∀ t ∈ spaces, t.stop ≤ addr := by
  induction spaces with
  | nil => simp
  | cons s rest ih =>
      simp only [findVMSpace] at h
      split at h
      · simp at h
      · next hge =>
          intro t ht
          rcases List.mem_cons.mp ht with rfl | ht
          · exact Nat.not_lt.mp hge
          · exact ih (Option.map_eq_none_iff.mp h) t ht

theorem mem_insert_vm_space {space t : VMSpace} {spaces : List VMSpace} :
    t ∈ insertVMSpace space spaces ↔ t = space ∨ t ∈ spaces := by
  induction spaces with
  | nil => simp [insertVMSpace]
  | cons p rest ih =>
      simp only [insertVMSpace]
      split
      · simp
      · simp only [List.mem_cons, ih, or_left_comm]

/-- Inserting a space where nothing is mapped keeps the list ordered. -/
theorem SpacesOrdered.insert {spaces : List VMSpace} (h : SpacesOrdered spaces) {space : VMSpace}
    (hspace : space.Valid) (hfree : ∀ t ∈ spaces, t.stop ≤ space.start ∨ space.stop ≤ t.start) :
    SpacesOrdered (insertVMSpace space spaces) := by
  refine ⟨?_, ?_⟩
  · obtain ⟨hfollows, hvalid⟩ := h
    induction spaces with
    | nil => simp [insertVMSpace]
    | cons p rest ih =>
        obtain ⟨hp, hrest⟩ := List.pairwise_cons.mp hfollows
        simp only [insertVMSpace]
        split
        · next hlt =>
            refine List.pairwise_cons.mpr ⟨?_, hfollows⟩
            intro t ht
            rcases List.mem_cons.mp ht with rfl | ht
            · exact hlt
            · have hpt : p.stop ≤ t.start := hp t ht
              have := (hvalid p (List.mem_cons_self ..)).nonempty
              unfold VMSpace.Follows
              omega
        · next hge =>
            refine List.pairwise_cons.mpr ⟨?_, ?_⟩
            · intro t ht
              rcases mem_insert_vm_space.mp ht with rfl | ht
              · rcases hfree p (List.mem_cons_self ..) with hleft | hright
                · exact hleft
                · exact absurd hright hge
              · exact hp t ht
            · exact ih (fun t ht => hfree t (List.mem_cons_of_mem _ ht)) hrest
                (fun t ht => hvalid t (List.mem_cons_of_mem _ ht))
  · intro t ht
    rcases mem_insert_vm_space.mp ht with rfl | ht
    · exact hspace
    · exact h.valid t ht

/-- Replacing one space by another that its neighbours leave room for keeps the list ordered. -/
theorem SpacesOrdered.replace {before after : List VMSpace} {space space' : VMSpace}
    (h : SpacesOrdered (before ++ space :: after)) (hspace : space'.Valid)
    (hbefore : ∀ t ∈ before, t.stop ≤ space'.start) (hafter : ∀ t ∈ after, space'.stop ≤ t.start) :
    SpacesOrdered (before ++ space' :: after) := by
  obtain ⟨hfollows, hvalid⟩ := h
  obtain ⟨h1, h2, h3⟩ := List.pairwise_append.mp hfollows
  refine ⟨List.pairwise_append.mpr ⟨h1, List.pairwise_cons.mpr ⟨hafter, h2.of_cons⟩, ?_⟩, ?_⟩
  · intro t ht u hu
    rcases List.mem_cons.mp hu with rfl | hu
    · exact hbefore t ht
    · exact h3 t ht u (List.mem_cons_of_mem _ hu)
  · intro t ht
    rcases List.mem_append.mp ht with ht | ht
    · exact hvalid t (List.mem_append_left _ ht)
    · rcases List.mem_cons.mp ht with rfl | ht
      · exact hspace
      · exact hvalid t (List.mem_append_right _ (List.mem_cons_of_mem _ ht))

/-- The spaces after the cursor start after its space ends, and those before end before it. -/
theorem SpacesOrdered.around {before after : List VMSpace} {space : VMSpace}
    (h : SpacesOrdered (before ++ space :: after)) :
    (∀ t ∈ before, t.stop ≤ space.start) ∧ ∀ t ∈ after, space.stop ≤ t.start := by
  obtain ⟨_, h2, h3⟩ := List.pairwise_append.mp h.follows
  exact ⟨fun t ht => h3 t ht space (List.mem_cons_self ..), (List.pairwise_cons.mp h2).1⟩

theorem SpacesOrdered.sublist {spaces rest : List VMSpace} (h : SpacesOrdered spaces)
    (hrest : rest.Sublist spaces) : SpacesOrdered rest :=
  ⟨h.follows.sublist hrest, fun t ht => h.valid t (hrest.subset ht)⟩

/-! ## The search for a free range -/

/-- The search has passed the spaces `pre` and stands at `addr`: at the base, or at the end of the
last space passed, with every earlier end low enough to go on. -/
def SearchedTo (pre : List VMSpace) (len addr : Nat) : Prop :=
  (addr = vmsUnmappedBase ∧ ∀ t ∈ pre, t.stop ≤ vmsUnmappedBase) ∨
  ∃ pre' last, pre = pre' ++ [last] ∧ addr = last.stop ∧ vmsUnmappedBase < last.stop ∧
    vmsUnmappedBase + len ≤ userVmSize ∧ ∀ t ∈ pre', t.stop + len ≤ userVmSize

/-- The search gives up at a space: the range to try next would leave user memory. -/
def GivesUp (spaces : List VMSpace) (len : Nat) : Prop :=
  ∃ pre s rest, spaces = pre ++ s :: rest ∧
    (userVmSize < vmsUnmappedBase + len ∨ ∃ t ∈ pre, userVmSize < t.stop + len)

/-- A free range from the base on, which stays inside the 32-bit range unless the search wraps. -/
structure FoundUnmapped (spaces : List VMSpace) (len addr : Nat) : Prop where
  base : vmsUnmappedBase ≤ addr
  aligned : addr % pageSize = 0
  free : Unmapped spaces addr len
  wraps : 2 ^ 32 ≤ addr + len → WrapsAtEnd spaces len

/-- The walk of `GetUnmappedVMSpace` from a place below which there is no gap of `len` bytes. -/
theorem get_unmapped_from_spec {len : Nat} (hlen : 0 < len) (huser : len ≤ userVmSize)
    {pre rest : List VMSpace} {addr : Nat} (h : SpacesOrdered (pre ++ rest))
    (hrest : ∀ t ∈ rest, vmsUnmappedBase < t.stop)
    (hbase : vmsUnmappedBase ≤ addr) (halign : addr % pageSize = 0)
    (hpre : ∀ t ∈ pre, t.stop ≤ addr) (hsearch : SearchedTo pre len addr)
    (hgap : ∀ x, vmsUnmappedBase ≤ x → Unmapped pre x len → addr ≤ x) :
    getUnmappedFrom len addr rest = minusOne ∧ GivesUp (pre ++ rest) len ∨
      FoundUnmapped (pre ++ rest) len (getUnmappedFrom len addr rest) := by
  induction rest generalizing pre addr with
  | nil =>
      refine .inr ⟨hbase, halign, fun t ht => .inl (hpre t (by simpa using ht)), ?_⟩
      intro hwrap
      simp only [getUnmappedFrom] at hwrap
      rcases hsearch with ⟨rfl, -⟩ | ⟨pre', last, rfl, rfl, hbase, hroom, hlow⟩
      · simp only [vmsUnmappedBase, userVmSize] at *
        omega
      · exact ⟨pre', last, by simp, hbase, hwrap, hroom, hlow, by simpa using hgap⟩
  | cons s rest ih =>
      have huserWord : wrapSub userVmSize len = userVmSize - len :=
        wrap_sub_of_le (by norm_num [userVmSize]) huser
      simp only [getUnmappedFrom, huserWord]
      by_cases hroom : userVmSize - len < addr
      · rw [if_pos hroom]
        refine .inl ⟨rfl, pre, s, rest, rfl, ?_⟩
        rcases hsearch with ⟨rfl, -⟩ | ⟨pre', last, rfl, rfl, -⟩
        · exact .inl (by omega)
        · exact .inr ⟨last, by simp, by omega⟩
      · have hfits : addr + len ≤ userVmSize := by omega
        have hword : wrap (addr + len) = addr + len :=
          wrap_of_lt (Nat.lt_of_le_of_lt hfits (by norm_num [userVmSize]))
        rw [if_neg hroom, hword]
        have hs : s.Valid := h.valid s (by simp)
        by_cases hfree : addr + len ≤ s.start
        · rw [if_pos hfree]
          refine .inr ⟨hbase, halign, ?_, ?_⟩
          · intro t ht
            rcases List.mem_append.mp ht with ht | ht
            · exact .inl (hpre t ht)
            · rcases List.mem_cons.mp ht with rfl | ht
              · exact .inr hfree
              · have hst := h.around.2 t ht
                have := hs.nonempty
                omega
          · intro hwrap
            unfold userVmSize at hfits
            omega
        · rw [if_neg hfree]
          have hassoc : pre ++ s :: rest = (pre ++ [s]) ++ rest := by simp
          rw [hassoc] at h ⊢
          have hsn := hs.nonempty
          have hbefore : ∀ t ∈ pre, t.stop ≤ s.start := by
            rw [← hassoc] at h
            exact h.around.1
          have hsbase : vmsUnmappedBase < s.stop := hrest s (List.mem_cons_self ..)
          refine ih h (fun t ht => hrest t (List.mem_cons_of_mem _ ht)) (Nat.le_of_lt hsbase)
            hs.stopAligned ?_ ?_ ?_
          · intro t ht
            rcases List.mem_append.mp ht with ht | ht
            · exact Nat.le_trans (hbefore t ht) (Nat.le_of_lt hsn)
            · cases List.mem_singleton.mp ht
              exact Nat.le_refl _
          · refine .inr ⟨pre, s, rfl, rfl, hsbase, by omega, ?_⟩
            · intro t ht
              have := hpre t ht
              omega
          · intro x hx hclear
            have hold := hgap x hx fun t ht => hclear t (List.mem_append_left _ ht)
            rcases hclear s (by simp) with hleft | hright
            · exact hleft
            · omega

/-- What `GetUnmappedVMSpace` returns: `-1` when it gives up, or the free range that it found. -/
theorem get_unmapped_vm_space_spec {spaces : List VMSpace} (h : SpacesOrdered spaces) {len : Nat}
    (hlen : 0 < len) (huser : len ≤ userVmSize) :
    getUnmappedVMSpace spaces len = minusOne ∧ GivesUp spaces len ∨
      FoundUnmapped spaces len (getUnmappedVMSpace spaces len) := by
  cases hfind : findVMSpace spaces vmsUnmappedBase with
  | none =>
      have hlow := find_vm_space_none hfind
      have hwalk := @get_unmapped_from_spec len hlen huser spaces [] vmsUnmappedBase
        (by simpa using h) (by simp) (Nat.le_refl _) (by norm_num) hlow
        (.inl ⟨rfl, hlow⟩) (fun x hx _ => hx)
      rw [List.append_nil] at hwalk
      simpa only [getUnmappedVMSpace, hfind] using hwalk
  | some c =>
      obtain ⟨hspaces, hbefore, hspace⟩ := find_vm_space_some hfind
      have hlater : ∀ t ∈ c.space :: c.after, vmsUnmappedBase < t.stop := by
        intro t ht
        rcases List.mem_cons.mp ht with rfl | ht
        · exact hspace
        · have hct := (hspaces ▸ h).around.2 t ht
          have := (h.valid t (by rw [hspaces]; simp [ht])).nonempty
          omega
      have hwalk := get_unmapped_from_spec hlen huser (hspaces ▸ h) hlater (Nat.le_refl _)
        (by norm_num) hbefore (.inl ⟨rfl, hbefore⟩) (fun x hx _ => hx)
      rw [← hspaces] at hwalk
      simpa only [getUnmappedVMSpace, hfind] using hwalk

/-! ## The operations -/

/-- The address that `DoMmap` takes is aligned and free, and its range stays inside the 32-bit
range unless the search wraps. -/
theorem mmap_address_spec {spaces : List VMSpace} (h : SpacesOrdered spaces)
    {addr len flags r : Nat} (hlen : 0 < len) (hfits : addr + len ≤ userVmSize)
    (hr : mmapAddress spaces addr len flags = some r) :
    r % pageSize = 0 ∧ Unmapped spaces r len ∧
      (2 ^ 32 ≤ r + len → mapFixed flags = false ∧ WrapsAtEnd spaces len) := by
  have hword : wrap (addr + len) = addr + len :=
    wrap_of_lt (Nat.lt_of_le_of_lt hfits (by norm_num [userVmSize]))
  simp only [mmapAddress, hword] at hr
  by_cases hfixed : mapFixed flags
  · rw [if_pos hfixed] at hr
    have hsmall : 2 ^ 32 ≤ addr + len → mapFixed flags = false ∧ WrapsAtEnd spaces len := by
      unfold userVmSize at hfits
      omega
    by_cases halign : addr % pageSize ≠ 0
    · simp [halign] at hr
    · rw [if_neg halign] at hr
      cases hfind : findVMSpace spaces addr with
      | none =>
          rw [hfind] at hr
          cases Option.some.inj hr
          exact ⟨by omega, fun t ht => .inl (find_vm_space_none hfind t ht), hsmall⟩
      | some p =>
          rw [hfind] at hr
          simp only at hr
          split at hr
          · simp at hr
          · next hclear =>
              cases Option.some.inj hr
              obtain ⟨hspaces, hbefore, hspace⟩ := find_vm_space_some hfind
              refine ⟨by omega, ?_, hsmall⟩
              intro t ht
              rw [hspaces] at ht
              rcases List.mem_append.mp ht with ht | ht
              · exact .inl (hbefore t ht)
              · rcases List.mem_cons.mp ht with rfl | ht
                · exact .inr (Nat.not_lt.mp hclear)
                · have hpt := (hspaces ▸ h).around.2 t ht
                  have := (h.valid p.space (by rw [hspaces]; simp)).nonempty
                  omega
  · rw [if_neg hfixed] at hr
    have huser : len ≤ userVmSize := by omega
    split at hr
    · simp at hr
    · next hne =>
        cases Option.some.inj hr
        rcases get_unmapped_vm_space_spec h hlen huser with ⟨hminus, -⟩ | hfound
        · exact absurd hminus hne
        · exact ⟨hfound.aligned, hfound.free,
            fun hge => ⟨by simpa using hfixed, hfound.wraps hge⟩⟩

/-- `DoMmap` keeps the list ordered unless it wraps at the end of the list. -/
theorem SpacesOrdered.do_mmap {mm : MemoryManager} (h : SpacesOrdered mm.spaceMap)
    {addr len prot flags : Nat} {kmalloc : Option VMSpace}
    (hguard : ¬ MmapWraps mm.spaceMap addr len flags kmalloc) :
    SpacesOrdered (doMmap mm addr len prot flags kmalloc).1.spaceMap := by
  simp only [doMmap]
  split
  · exact h
  · next hzero =>
      split
      · exact h
      · next hrange =>
          split
          · next r block hr =>
              simp only [not_or, Nat.not_lt] at hrange
              obtain ⟨hlen, -, haddr⟩ := hrange
              rw [wrap_sub_of_le (by norm_num [userVmSize]) hlen] at haddr
              have hpos : 0 < pageAlign len := Nat.pos_of_ne_zero hzero
              have hfits : addr + pageAlign len ≤ userVmSize := by omega
              obtain ⟨halign, hfree, hwrap⟩ := mmap_address_spec h hpos hfits hr
              have hword : r + pageAlign len < 2 ^ 32 := by
                by_contra hge
                obtain ⟨hfixed, hend⟩ := hwrap (Nat.not_lt.mp hge)
                exact hguard ⟨hpos, hfits, hfixed, rfl, hend⟩
              have hlenAlign := page_align_mod len
              rw [wrap_of_lt hword]
              refine h.insert ⟨by simp only; omega, halign, ?_, hword⟩ hfree
              show (r + pageAlign len) % pageSize = 0
              rw [Nat.add_mod, halign, hlenAlign]
              rfl
          · exact h

/-- A `DoMmap` that wraps at the end of the list does break it. -/
theorem MmapWraps.not_ordered {mm : MemoryManager} (h : SpacesOrdered mm.spaceMap)
    {addr len prot flags : Nat} {kmalloc : Option VMSpace}
    (hwraps : MmapWraps mm.spaceMap addr len flags kmalloc) :
    ¬ SpacesOrdered (doMmap mm addr len prot flags kmalloc).1.spaceMap := by
  obtain ⟨hpos, hfits, hfixed, halloc, pre, last, hspaces, hbase, hwrap, hroom, hlow, hgap⟩ := hwraps
  obtain ⟨block, rfl⟩ := Option.isSome_iff_exists.mp halloc
  have huser : pageAlign len ≤ userVmSize := by omega
  have hrange : ¬ (pageAlign len > userVmSize ∨ addr > userVmSize ∨
      addr > wrapSub userVmSize (pageAlign len)) := by
    rw [wrap_sub_of_le (by norm_num [userVmSize]) huser]
    omega
  rcases get_unmapped_vm_space_spec h hpos huser with ⟨-, pre', s, rest, hsplit, hgives⟩ | hfound
  · -- the space it gives up at is not before the last one's predecessors
    have hpre : ∀ t ∈ pre', t ∈ pre := by
      intro t ht
      have hlast : pre' ++ s :: rest = pre ++ [last] := hsplit.symm.trans hspaces
      have hdrop := congrArg List.dropLast hlast
      rw [List.dropLast_concat, List.dropLast_append_of_ne_nil (by simp)] at hdrop
      rw [← hdrop]
      exact List.mem_append_left _ ht
    rcases hgives with hbig | ⟨t, ht, hbig⟩
    · omega
    · have := hlow t (hpre t ht)
      omega
  · generalize hr : getUnmappedVMSpace mm.spaceMap (pageAlign len) = r at hfound
    have hlast : last.stop ≤ r := hgap r hfound.base hfound.free
    have hne : r ≠ minusOne := by
      rintro rfl
      have := hfound.aligned
      norm_num at this
    have hmmap : mmapAddress mm.spaceMap addr (pageAlign len) flags = some r := by
      simp only [mmapAddress, hfixed, hr, hne, if_false, Bool.false_eq_true]
    simp only [doMmap, Nat.ne_of_gt hpos, if_false, hrange, hmmap]
    intro hafter
    have hmem : (⟨r, wrap (r + pageAlign len), prot, flags⟩ : VMSpace) ∈
        insertVMSpace ⟨r, wrap (r + pageAlign len), prot, flags⟩ mm.spaceMap :=
      mem_insert_vm_space.mpr (.inl rfl)
    have hvalid := (hafter.valid _ hmem).nonempty
    simp only [wrap, userVmSize] at *
    omega

/-- Cutting `[addr, addr + len)` out of the space that holds it keeps the list ordered. -/
theorem SpacesOrdered.cut {c : VMSpaceCursor} {addr len : Nat} {block : VMSpace}
    (h : SpacesOrdered (c.before ++ c.space :: c.after)) (halign : addr % pageSize = 0)
    (hlenAlign : len % pageSize = 0) (hlen : 0 < len) (hstart : c.space.start ≤ addr)
    (hstop : addr + len ≤ c.space.stop) :
    SpacesOrdered (cutVMSpace c addr len block) := by
  have hvalid := h.valid c.space (by simp)
  obtain ⟨hbefore, hafter⟩ := h.around
  have hword : wrap (addr + len) = addr + len := wrap_of_lt (Nat.lt_of_le_of_lt hstop hvalid.word)
  have hright : SpacesOrdered (c.space :: c.after) := h.sublist (List.sublist_append_right ..)
  simp only [cutVMSpace, hword]
  -- the right part, when it is not empty
  have hnew : addr + len ≠ c.space.stop →
      SpacesOrdered ({ block with start := addr + len, stop := c.space.stop } :: c.after) := by
    intro hne
    refine @SpacesOrdered.replace [] _ c.space _ hright
      ⟨by simp only; omega, ?_, hvalid.stopAligned, hvalid.word⟩ (by simp) hafter
    show (addr + len) % pageSize = 0
    rw [Nat.add_mod, halign, hlenAlign]
    rfl
  by_cases hleft : c.space.start = addr
  · rw [if_pos hleft]
    simp only [removeVMSpace]
    split
    · exact hright.sublist (List.sublist_cons_self ..)
    · next hne => exact hnew hne
  · rw [if_neg hleft]
    have hspace : VMSpace.Valid { c.space with stop := addr } :=
      ⟨by simp only; omega, hvalid.startAligned, halign, by
        have := hvalid.word
        simp only
        omega⟩
    have hcut : SpacesOrdered (c.before ++ { c.space with stop := addr } :: c.after) := by
      refine h.replace hspace hbefore ?_
      intro t ht
      have := hafter t ht
      simp only
      omega
    split
    · exact hcut
    · next hne =>
        obtain ⟨hbb, _, hba⟩ := List.pairwise_append.mp hcut.follows
        have hnewOrdered := hnew hne
        refine ⟨List.pairwise_append.mpr ⟨hbb, List.pairwise_cons.mpr ⟨?_, hnewOrdered.follows⟩, ?_⟩,
          ?_⟩
        · intro t ht
          rcases List.mem_cons.mp ht with rfl | ht
          · exact Nat.le_add_right _ _
          · have := hafter t ht
            unfold VMSpace.Follows
            simp only
            omega
        · intro t ht u hu
          rcases List.mem_cons.mp hu with rfl | hu
          · exact hbefore t ht
          · rcases List.mem_cons.mp hu with rfl | hu
            · have := hbefore t ht
              unfold VMSpace.Follows
              simp only
              omega
            · exact hba t ht u (List.mem_cons_of_mem _ hu)
        · intro t ht
          rcases List.mem_append.mp ht with ht | ht
          · exact h.valid t (List.mem_append_left _ ht)
          · rcases List.mem_cons.mp ht with rfl | ht
            · exact hspace
            · exact hnewOrdered.valid t ht

/-- What `DoMunmap` does: it fails with `-1`, or it finds a space that ends after the address, and
fails with `-2` or cuts the range out of that space. -/
theorem do_munmap_cases (mm : MemoryManager) (addr len : Nat) (kmalloc : Option VMSpace) :
    doMunmap mm addr len kmalloc = (mm, -1) ∨
    ∃ c, findVMSpace mm.spaceMap addr = some c ∧ addr % pageSize = 0 ∧
      addr + pageAlign len ≤ userVmSize ∧ 0 < pageAlign len ∧
      (doMunmap mm addr len kmalloc = (mm, -2) ∨
        ∃ block, c.space.start ≤ addr ∧ addr + pageAlign len ≤ c.space.stop ∧
          doMunmap mm addr len kmalloc =
            ({ mm with spaceMap := cutVMSpace c addr (pageAlign len) block }, 0)) := by
  simp only [doMunmap]
  split
  · exact .inl rfl
  · next hargs =>
      simp only [not_or, Decidable.not_not, Nat.not_lt] at hargs
      obtain ⟨halign, haddr, hlen⟩ := hargs
      rw [wrap_sub_of_le (by norm_num [userVmSize]) haddr] at hlen
      have hfits : addr + pageAlign len ≤ userVmSize := by
        simp only [pageAlign, pageMask, wrap, pageSize, userVmSize] at *
        split <;> omega
      have hword : wrap (addr + pageAlign len) = addr + pageAlign len :=
        wrap_of_lt (Nat.lt_of_le_of_lt hfits (by norm_num [userVmSize]))
      split
      · exact .inl rfl
      · next hzero =>
          cases hfind : findVMSpace mm.spaceMap addr with
          | none => exact .inl rfl
          | some c =>
              simp only
              by_cases hinside : addr < c.space.start ∨ wrap (addr + pageAlign len) > c.space.stop
              · refine .inr ⟨c, rfl, halign, hfits, Nat.pos_of_ne_zero hzero, .inl ?_⟩
                rw [if_pos hinside]
              · rw [if_neg hinside]
                simp only [not_or, Nat.not_lt, hword] at hinside
                cases kmalloc with
                | none => exact .inl rfl
                | some block =>
                    exact .inr ⟨c, rfl, halign, hfits, Nat.pos_of_ne_zero hzero,
                      .inr ⟨block, hinside.1, hinside.2, rfl⟩⟩

/-- `DoMunmap` keeps the list ordered. -/
theorem SpacesOrdered.do_munmap {mm : MemoryManager} (h : SpacesOrdered mm.spaceMap)
    (addr len : Nat) (kmalloc : Option VMSpace) :
    SpacesOrdered (doMunmap mm addr len kmalloc).1.spaceMap := by
  rcases do_munmap_cases mm addr len kmalloc with
    heq | ⟨c, hfind, halign, -, hpos, heq | ⟨block, hstart, hstop, heq⟩⟩
  · rw [heq]
    exact h
  · rw [heq]
    exact h
  · rw [heq]
    refine SpacesOrdered.cut ?_ halign (page_align_mod len) hpos hstart hstop
    rw [← (find_vm_space_some hfind).1]
    exact h

theorem heap_space_before_some {spaces : List VMSpace} {addr : Nat} {c : VMSpaceCursor}
    (h : heapSpaceBefore spaces addr = some c) :
    spaces = c.before ++ c.space :: c.after ∧ c.space.stop = addr := by
  simp only [heapSpaceBefore] at h
  split at h
  · simp at h
  · cases hfind : findVMSpace spaces (addr - 1) with
    | none => simp [hfind] at h
    | some d =>
        simp only [hfind] at h
        split at h
        · next hmerge =>
            cases Option.some.inj h
            exact ⟨(find_vm_space_some hfind).1, hmerge.1⟩
        · simp at h

/-- `DoBrk` keeps the list ordered, when nothing is mapped from `addr` to a page after `newBrk`. -/
theorem SpacesOrdered.do_brk {mm : MemoryManager} (h : SpacesOrdered mm.spaceMap)
    {addr newBrk : Nat} (haddr : addr < 2 ^ 32) (hnew : newBrk < 2 ^ 32)
    (halign : addr % pageSize = 0) (hnewAlign : newBrk % pageSize = 0)
    (hclear : findVMSpaceIntersection mm.spaceMap addr (wrap (newBrk + pageSize)) = none)
    (kmallocCut kmalloc : Option VMSpace) :
    SpacesOrdered (doBrk mm addr (wrapSub newBrk addr) kmallocCut kmalloc).1.spaceMap := by
  have hlen : pageAlign (wrapSub newBrk addr) = wrapSub newBrk addr :=
    page_align_of_aligned (wrap_sub_mod hnewAlign halign)
  simp only [doBrk, hlen]
  split
  · exact h
  · next hzero =>
      rcases do_munmap_cases mm addr (wrapSub newBrk addr) kmallocCut with
        heq | ⟨c, hfind, -, hfits, -, hcut⟩
      · rw [heq]
        exact h
      · rw [hlen] at hfits hcut
        have hend : addr + wrapSub newBrk addr = newBrk ∧ newBrk ≤ userVmSize := by
          simp only [wrapSub, wrap, userVmSize] at *
          omega
        rw [wrap_of_lt (by simp only [userVmSize, pageSize] at *; omega)] at hclear
        -- the space that `DoMunmap` finds is one that lies after the new end
        have hstart : newBrk + pageSize ≤ c.space.start := by
          simp only [findVMSpaceIntersection, hfind] at hclear
          split at hclear
          · next hge => exact hge
          · simp at hclear
        obtain ⟨hspaces, hbefore, -⟩ := find_vm_space_some hfind
        have hfree : ∀ t ∈ mm.spaceMap, t.stop ≤ addr ∨ newBrk ≤ t.start := by
          intro t ht
          rw [hspaces] at ht
          rcases List.mem_append.mp ht with ht | ht
          · exact .inl (hbefore t ht)
          · rcases List.mem_cons.mp ht with rfl | ht
            · exact .inr (by omega)
            · have hct := (hspaces ▸ h).around.2 t ht
              have := (h.valid c.space (by rw [hspaces]; simp)).nonempty
              exact .inr (by omega)
        rcases hcut with heq | ⟨block, hle, -, -⟩
        · rw [heq]
          have hword : wrap (addr + wrapSub newBrk addr) = newBrk := by
            rw [hend.1]
            exact wrap_of_lt hnew
          have hgrow : addr < newBrk := by omega
          simp only [show ((-2 : Int) = -1) = False by simp, if_false, hword]
          split
          · next d hheap =>
              obtain ⟨hspaces', hstop⟩ := heap_space_before_some hheap
              rw [hspaces'] at h
              have hvalid := h.valid d.space (by simp)
              obtain ⟨hbefore', hafter'⟩ := h.around
              refine h.replace ⟨?_, hvalid.startAligned, hnewAlign, hnew⟩ hbefore' ?_
              · have := hvalid.nonempty
                simp only
                omega
              · intro t ht
                have hdt := hafter' t ht
                have := (h.valid t (by simp [ht])).nonempty
                rcases hfree t (by rw [hspaces']; simp [ht]) with hleft | hright
                · omega
                · exact hright
          · exact h
          · exact h.insert ⟨hgrow, halign, hnewAlign, hnew⟩ hfree
        · omega

/-- `SysBrk` keeps the list ordered. -/
theorem SpacesOrdered.sys_brk {mm : MemoryManager} (h : SpacesOrdered mm.spaceMap)
    (hmm : mm.brk < 2 ^ 32) {brk : Nat} (hbrk : brk < 2 ^ 32) (kmallocCut kmalloc : Option VMSpace) :
    SpacesOrdered (sysBrk mm brk kmallocCut kmalloc).1.spaceMap := by
  have hmunmap := h.do_munmap (pageAlign brk) (wrapSub (pageAlign mm.brk) (pageAlign brk)) kmallocCut
  simp only [sysBrk]
  split
  · exact h
  · split
    · exact h
    · split
      · split
        · exact hmunmap
        · exact hmunmap
      · split
        · exact h
        · split
          · exact h
          · next hclear =>
              have hgrown := h.do_brk (page_align_lt hmm) (page_align_lt hbrk) (page_align_mod _)
                (page_align_mod _) (by simpa using hclear) kmallocCut kmalloc
              split
              · exact hgrown
              · exact hgrown

/-- `ExpandStack` keeps the list ordered: the pages below the stack down to the fault are free. -/
theorem SpacesOrdered.do_page_fault {mm : MemoryManager} (h : SpacesOrdered mm.spaceMap)
    (addr esp errorCode : Nat) : SpacesOrdered (doPageFault mm addr esp errorCode).spaceMap := by
  simp only [doPageFault]
  split
  · exact h
  · next c hfind =>
      split
      · next hcond =>
          obtain ⟨hspaces, hbefore, hspace⟩ := find_vm_space_some hfind
          rw [hspaces] at h
          have hvalid := h.valid c.space (by simp)
          have hle : pageMask addr ≤ addr := Nat.div_mul_le_self _ _
          refine h.replace ⟨?_, page_mask_mod addr, hvalid.stopAligned, hvalid.word⟩ ?_ h.around.2
          · exact Nat.lt_of_le_of_lt hle hspace
          · intro t ht
            have hstop := hbefore t ht
            have halign := (h.valid t (List.mem_append_left _ ht)).stopAligned
            simp only [expandStack, pageMask, pageSize] at *
            omega
      · exact h

/-! ## Runs -/

/-- The invariant of a memory manager; its break is a 32-bit word. -/
structure MemoryManagerInv (mm : MemoryManager) : Prop where
  spaces : SpacesOrdered mm.spaceMap
  brk : mm.brk < 2 ^ 32

@[simp] theorem do_mmap_brk (mm : MemoryManager) (addr len prot flags : Nat)
    (kmalloc : Option VMSpace) : (doMmap mm addr len prot flags kmalloc).1.brk = mm.brk := by
  simp only [doMmap]
  split
  · rfl
  · split
    · rfl
    · split <;> rfl

@[simp] theorem do_munmap_brk (mm : MemoryManager) (addr len : Nat) (kmalloc : Option VMSpace) :
    (doMunmap mm addr len kmalloc).1.brk = mm.brk := by
  rcases do_munmap_cases mm addr len kmalloc with heq | ⟨_, -, -, -, -, heq | ⟨_, -, -, heq⟩⟩
  all_goals rw [heq]

@[simp] theorem do_brk_brk (mm : MemoryManager) (addr len : Nat)
    (kmallocCut kmalloc : Option VMSpace) :
    (doBrk mm addr len kmallocCut kmalloc).1.brk = mm.brk := by
  simp only [doBrk]
  split
  · rfl
  · split
    · exact do_munmap_brk ..
    · split <;> exact do_munmap_brk ..

@[simp] theorem do_page_fault_brk (mm : MemoryManager) (addr esp errorCode : Nat) :
    (doPageFault mm addr esp errorCode).brk = mm.brk := by
  simp only [doPageFault]
  split
  · rfl
  · split <;> rfl

/-- `SysBrk` leaves the break or sets it to its argument. -/
theorem sys_brk_brk (mm : MemoryManager) (brk : Nat) (kmallocCut kmalloc : Option VMSpace) :
    (sysBrk mm brk kmallocCut kmalloc).1.brk = mm.brk ∨
      (sysBrk mm brk kmallocCut kmalloc).1.brk = brk := by
  simp only [sysBrk]
  split
  · exact .inl rfl
  · split
    · exact .inr rfl
    · split
      · split
        · exact .inr rfl
        · exact .inl (do_munmap_brk ..)
      · split
        · exact .inl rfl
        · split
          · exact .inl rfl
          · split
            · exact .inl (do_brk_brk ..)
            · exact .inr rfl

/-- A guarded operation keeps the invariant. -/
theorem MemoryManagerInv.step {mm : MemoryManager} (h : MemoryManagerInv mm) {op : VmOp}
    (hguard : vmGuard mm op) : MemoryManagerInv (vmStep mm op) := by
  cases op with
  | mmap addr len prot flags kmalloc => exact ⟨h.spaces.do_mmap hguard, by simpa [vmStep] using h.brk⟩
  | munmap addr len kmalloc => exact ⟨h.spaces.do_munmap _ _ _, by simpa [vmStep] using h.brk⟩
  | brk brk kmallocCut kmalloc =>
      refine ⟨h.spaces.sys_brk h.brk brk.toNat_lt kmallocCut kmalloc, ?_⟩
      show (sysBrk mm brk.toNat kmallocCut kmalloc).1.brk < 2 ^ 32
      rcases sys_brk_brk mm brk.toNat kmallocCut kmalloc with hbrk | hbrk
      · rw [hbrk]
        exact h.brk
      · rw [hbrk]
        exact brk.toNat_lt
  | pageFault addr esp errorCode => exact ⟨h.spaces.do_page_fault _ _ _, by simpa [vmStep] using h.brk⟩

/-- From a well-formed list, the list is well formed after every run in which no `DoMmap` wraps at
the end of the list. -/
theorem vm_spaces_well_formed {mm mm' : MemoryManager} {ops : List VmOp}
    (hinit : WellFormed mm.spaceMap) (hbrk : mm.brk < 2 ^ 32)
    (hrun : Run (stepOf fun mm op => some (vmStep mm op)) vmGuard mm ops mm') :
    WellFormed mm'.spaceMap := by
  have hinv : MemoryManagerInv mm' := by
    refine hrun.invariant ?_ ⟨well_formed_iff_ordered.mp hinit, hbrk⟩
    intro s op t h hguard hstep
    cases Option.some.inj hstep
    exact h.step hguard
  exact well_formed_iff_ordered.mpr hinv.spaces

/-- A search cannot wrap while the range fits after every space. -/
theorem not_wraps_of_room {spaces : List VMSpace} {len : Nat}
    (hroom : ∀ t ∈ spaces, t.stop + len < 2 ^ 32) : ¬ WrapsAtEnd spaces len := by
  rintro ⟨pre, last, rfl, -, hwrap, -⟩
  have := hroom last (by simp)
  omega

/-- A stack is mapped and grows, a heap appears below it, a free range is found and cut in two. -/
theorem address_space_well_formed : ∃ mm,
    Run (stepOf fun mm op => some (vmStep mm op)) vmGuard ⟨[], 0x1000, 0x1000⟩
      [.mmap 0x7FFFF000 0x1000 3 0x11 (some ⟨0, 0, 0, 0⟩), .pageFault 0x7FFFE010 0x7FFFE010 6,
        .brk 0x5004 none (some ⟨0, 0, 0, 0⟩), .mmap 0 0x3000 3 0 (some ⟨0, 0, 0, 0⟩),
        .munmap 0x40001000 0x1000 (some ⟨1, 1, 1, 1⟩)] mm ∧
      mm.spaceMap.length = 4 ∧ WellFormed mm.spaceMap := by
  have hrun : ∃ mm, Run (stepOf fun mm op => some (vmStep mm op)) vmGuard ⟨[], 0x1000, 0x1000⟩
      [.mmap 0x7FFFF000 0x1000 3 0x11 (some ⟨0, 0, 0, 0⟩), .pageFault 0x7FFFE010 0x7FFFE010 6,
        .brk 0x5004 none (some ⟨0, 0, 0, 0⟩), .mmap 0 0x3000 3 0 (some ⟨0, 0, 0, 0⟩),
        .munmap 0x40001000 0x1000 (some ⟨1, 1, 1, 1⟩)] mm ∧ mm.spaceMap.length = 4 := by
    refine ⟨_, .cons ?_ rfl (.cons trivial rfl (.cons trivial rfl (.cons ?_ rfl
      (.cons trivial rfl (.nil _))))), by decide +kernel⟩
    · rintro ⟨-, -, hfixed, -⟩
      exact absurd hfixed (by decide)
    · rintro ⟨-, -, -, -, hwraps⟩
      exact not_wraps_of_room (by decide +kernel) hwraps
  obtain ⟨mm, hrun, hlength⟩ := hrun
  exact ⟨mm, hrun, hlength,
    vm_spaces_well_formed ⟨.nil, .nil, by simp⟩ (by norm_num) hrun⟩

/-- A free range of 2 GB, and after it one of 1 GB, whose end wraps to 0. -/
theorem mmap_wraps : ∃ mm, Run (stepOf fun mm op => some (vmStep mm op)) anyLabel ⟨[], 0, 0⟩
    [.mmap 0 0x80000000 3 0 (some ⟨0, 0, 0, 0⟩), .mmap 0 0x40000000 3 0 (some ⟨0, 0, 0, 0⟩)] mm ∧
    mm.spaceMap = [⟨0xC0000000, 0, 3, 0⟩, ⟨0x40000000, 0xC0000000, 3, 0⟩] ∧
    ¬ WellFormed mm.spaceMap := by
  refine ⟨_, .cons trivial rfl (.cons trivial rfl (.nil _)), by decide +kernel, ?_⟩
  intro h
  have := (h.valid ⟨0xC0000000, 0, 3, 0⟩ (by decide +kernel)).nonempty
  simp at this

end XBook
