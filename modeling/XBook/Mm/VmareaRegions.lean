import XBook.Lib.Transition
import XBook.Mm.Vmarea

/-!
# Regions of virtual memory

Every area is on one of the two lists, apart from all others and mapped as a whole: `VMAreaInv`,
which holds in every run. What fails is the size. `vmalloc` looks for a free area with
`size >= area->size`, the comparison the wrong way round, and takes one that can be smaller than
the request: `vmalloc_size_iff` says when, and `small_region` is a run in which it does.
`vmalloc_regions` is about the runs that meet no smaller free area.
-/

namespace XBook.Paging

open Transition

/-- The areas on both lists. -/
def VMAreas.areas (s : VMAreas) : List VMArea := s.usingVMAreaList ++ s.freeVMAreaList

/-- The address lies in the area. -/
def VMArea.Holds (a : VMArea) (v : Nat) : Prop := a.addr ≤ v ∧ v < a.addr + a.size

/-- Two areas have no address in common. -/
def VMArea.Apart (a b : VMArea) : Prop := a.addr + a.size ≤ b.addr ∨ b.addr + b.size ≤ a.addr

/-- The number of bits of the bitmap. -/
abbrev vmPages : Nat := 32768

/-- An area is two pages or more, and ends at most one page after the last that the bitmap
describes. -/
structure VMArea.Placed (a : VMArea) : Prop where
  addr : a.addr % pageSize = 0
  size : a.size % pageSize = 0
  low : vmBaseAddress ≤ a.addr
  pages : 2 * pageSize ≤ a.size
  high : a.addr + a.size ≤ vmBaseAddress + (vmPages + 1) * pageSize

/-- What holds in every state of a run. -/
structure VMAreaInv (s : VMAreas) : Prop where
  len : s.vmBitmap.btmpBytesLen = 4096
  bytes : s.vmBitmap.Bytes
  placed : ∀ a ∈ s.areas, a.Placed
  marked : ∀ a ∈ s.areas, ∀ i < vmPages, a.Holds (vmBaseAddress + i * pageSize) →
    s.vmBitmap.bit i = true
  apart : s.areas.Pairwise VMArea.Apart
  sorted : s.freeVMAreaList.Pairwise fun a b => a.size ≤ b.size
  mapped : ∀ a ∈ s.areas, ∀ v, a.Holds v → (s.pgdir.frame v).isSome

/-- The live requests and the areas that are in use, one for one: an area begins at the address of
its request, and `fits` the size. -/
def Regions.Fit (fits : Nat → VMArea → Prop) (s : Regions) : Prop :=
  List.Forall₂ (fun p a => p.1 = a.addr ∧ fits p.2 a) s.live s.areas.usingVMAreaList

/-- The regions are as large as they were asked for, apart, and mapped; and no area is on both
lists, or twice on one. -/
structure Regions.Sound (s : Regions) : Prop where
  large : s.Fit fun size a => size ≤ a.size
  apart : s.areas.usingVMAreaList.Pairwise VMArea.Apart
  mapped : ∀ a ∈ s.areas.usingVMAreaList, ∀ v, a.Holds v → (s.areas.pgdir.frame v).isSome
  oneList : s.areas.areas.Nodup

/-- The mapping of pages succeeds. -/
def mappingGuard (s : Regions) : VMAreaOp → Prop
  | .vmalloc size kmalloc => mappingSucceeds s.areas size.toNat kmalloc = true
  | _ => True

/-- The mapping of pages succeeds, and no free area is smaller than the request. -/
def regionGuard (s : Regions) (op : VMAreaOp) : Prop :=
  mappingGuard s op ∧
    match op with
    | .vmalloc size _ => ∀ a ∈ s.areas.freeVMAreaList, size.toNat ≤ a.size
    | _ => True

/-- The areas as `InitVMArea` leaves them. -/
def Regions.Started (s : Regions) : Prop :=
  ∃ bits mem pgdir, s = ⟨initVMArea bits mem pgdir, []⟩

/-! ## Mapping -/

variable {m m' : PageMemory} {dir dir' : Directory}

/-- `PageTableAdd` unmaps nothing, and maps its page when it returns 0. -/
theorem page_table_add_mapped {v page protect : Nat} {ret : Int}
    (hadd : pageTableAdd m dir v page protect = some (m', dir', ret)) (u : Nat) :
    ((dir.frame u).isSome → (dir'.frame u).isSome) ∧
      (ret = 0 → SamePage u v → (dir'.frame u).isSome) := by
  have hset : ∀ d : Directory, ((d.frame u).isSome →
      ((d.setWord v (page ||| protect ||| 1)).frame u).isSome) ∧ ((d (pdeIdx v)).isSome →
      SamePage u v → ((d.setWord v (page ||| protect ||| 1)).frame u).isSome) := by
    intro d
    simp only [Directory.frame, Directory.word_set_word]
    by_cases hsame : SamePage u v ∧ (d.word v).isSome
    · simp [hsame, present_entry]
    · refine ⟨fun hframe => by simpa only [if_neg hsame] using hframe, ?_⟩
      intro htable huv
      refine absurd ⟨huv, ?_⟩ hsame
      simpa [Directory.word] using htable
  rcases page_table_add_cases hadd with ⟨htable, -, -, rfl⟩ | ⟨hnone, q, -, hcase⟩
  · exact ⟨(hset dir).1, fun _ => (hset dir).2 htable⟩
  · rcases hcase with ⟨-, rfl, rfl⟩ | ⟨-, -, rfl⟩
    · exact ⟨fun hframe => hframe, fun hret => by cases hret⟩
    · refine ⟨fun hframe => (hset _).1 ?_, fun _ => (hset _).2 (by simp [Directory.addTable])⟩
      -- nothing was mapped where the new table is
      have hpde : pdeIdx u ≠ pdeIdx v := by
        intro hpde
        simp [Directory.frame, Directory.word, hpde, hnone] at hframe
      simpa only [Directory.frame, Directory.word_add_table, if_neg hpde] using hframe

/-- The loop of `MapPages`, when every `PageTableAdd` returns 0. -/
theorem link_pages_mapped {protect paddr : Nat} {vaddrs : List Nat}
    (hall : linksAll protect vaddrs paddr m dir = true)
    (hlink : linkPages protect vaddrs paddr m dir = some (m', dir')) (u : Nat) :
    ((dir.frame u).isSome → (dir'.frame u).isSome) ∧
      ∀ v ∈ vaddrs, SamePage u v → (dir'.frame u).isSome := by
  induction vaddrs generalizing paddr m dir with
  | nil =>
      cases hlink
      exact ⟨fun hframe => hframe, by simp⟩
  | cons v rest ih =>
      obtain ⟨⟨m₁, dir₁, ret⟩, hadd, hlink⟩ := Option.bind_eq_some_iff.mp hlink
      simp only [linksAll, hadd, Bool.and_eq_true, decide_eq_true_iff] at hall
      obtain ⟨hkeep, hnew⟩ := page_table_add_mapped hadd u
      obtain ⟨hkeep', hrest⟩ := ih hall.2 hlink
      refine ⟨fun hframe => hkeep' (hkeep hframe), ?_⟩
      intro w hw hsame
      rcases List.mem_cons.mp hw with rfl | hw
      · exact hkeep' (hnew hall.1 hsame)
      · exact hrest w hw hsame

/-- `MapPages` over an area, when it succeeds. -/
theorem map_pages_mapped {a : VMArea} (ha : a.Placed) {ret : Int}
    (hall : mapsAll m dir a.addr a.size supervisorWrite = true)
    (hmap : mapPages m dir a.addr a.size supervisorWrite = some (m', dir', ret)) :
    ret = 0 ∧ (∀ u, (dir.frame u).isSome → (dir'.frame u).isSome) ∧
      ∀ v, a.Holds v → (dir'.frame v).isSome := by
  have hsize : pageAlign a.size = a.size := page_align_of_aligned ha.size
  have hend : wrap (a.addr + a.size) = a.addr + a.size := by
    refine wrap_of_lt (Nat.lt_of_le_of_lt ha.high ?_)
    norm_num [vmBaseAddress, vmPages, pageSize]
  simp only [mapsAll, mapPages, hsize, hend] at hall hmap
  obtain ⟨⟨phymem, paddr⟩, halloc, hmap⟩ := Option.bind_eq_some_iff.mp hmap
  simp only [halloc, Bool.and_eq_true, decide_eq_true_iff] at hall
  rw [if_neg (by simpa using hall.1)] at hmap
  obtain ⟨⟨m₁, dir₁⟩, hlink, heq⟩ := Option.map_eq_some_iff.mp hmap
  cases heq
  have hmapped := link_pages_mapped hall.2 hlink
  refine ⟨rfl, fun u => (hmapped u).1, ?_⟩
  intro v hv
  refine (hmapped v).2 (a.addr + (v - a.addr) / pageSize * pageSize) ?_ ?_
  · refine List.mem_map.mpr ⟨(v - a.addr) / pageSize, List.mem_range.mpr ?_, rfl⟩
    have := hv.1
    have := hv.2
    simp only [pageSize]
    omega
  · have := ha.addr
    have := hv.1
    simp only [SamePage, pageSize] at *
    omega

/-! ## Lists -/

theorem VMArea.Apart.symm {a b : VMArea} (h : a.Apart b) : b.Apart a := Or.symm h

/-- An area that `findArea` finds, and the first that passes the test. -/
theorem find_area_some {test : VMArea → Bool} {areas rest : List VMArea} {target : VMArea}
    (h : findArea test areas = some (target, rest)) :
    test target = true ∧ ∃ before after, areas = before ++ target :: after ∧
      rest = before ++ after ∧ ∀ a ∈ before, test a = false := by
  induction areas generalizing rest with
  | nil => simp [findArea] at h
  | cons a areas ih =>
      simp only [findArea] at h
      split at h
      · next htest =>
          cases h
          exact ⟨htest, [], areas, rfl, rfl, by simp⟩
      · next htest =>
          obtain ⟨⟨found, rest'⟩, hfind, heq⟩ := Option.map_eq_some_iff.mp h
          cases heq
          obtain ⟨htarget, before, after, hareas, hrest, hbefore⟩ := ih hfind
          refine ⟨htarget, a :: before, after, by rw [hareas]; rfl, by rw [hrest]; rfl, ?_⟩
          intro b hb
          rcases List.mem_cons.mp hb with rfl | hb
          · simpa using htest
          · exact hbefore b hb

theorem find_area_none {test : VMArea → Bool} {areas : List VMArea}
    (h : findArea test areas = none) : ∀ a ∈ areas, test a = false := by
  induction areas with
  | nil => simp
  | cons a areas ih =>
      simp only [findArea] at h
      split at h
      · cases h
      · next htest =>
          intro b hb
          rcases List.mem_cons.mp hb with rfl | hb
          · simpa using htest
          · exact ih (Option.map_eq_none_iff.mp h) b hb

theorem vfree_perm (target : VMArea) (areas : List VMArea) :
    (__vfree target areas).Perm (target :: areas) := by
  induction areas with
  | nil => exact .refl _
  | cons a areas ih =>
      simp only [__vfree]
      split
      · exact (ih.cons a).trans (.swap _ _ _)
      · exact .refl _

/-- The list of free areas stays ordered by size. -/
theorem vfree_sorted (target : VMArea) {areas : List VMArea}
    (h : areas.Pairwise fun a b => a.size ≤ b.size) :
    (__vfree target areas).Pairwise fun a b => a.size ≤ b.size := by
  induction areas with
  | nil => simp [__vfree]
  | cons a areas ih =>
      obtain ⟨ha, hareas⟩ := List.pairwise_cons.mp h
      simp only [__vfree]
      split
      · next hlarger =>
          refine List.pairwise_cons.mpr ⟨?_, ih hareas⟩
          intro b hb
          rcases List.mem_cons.mp ((vfree_perm target areas).mem_iff.mp hb) with rfl | hb
          · omega
          · exact ha b hb
      · next hsmaller =>
          refine List.pairwise_cons.mpr ⟨?_, h⟩
          intro b hb
          rcases List.mem_cons.mp hb with rfl | hb
          · omega
          · have := ha b hb
            omega

/-! ## Steps -/

variable {s t : VMAreas}

/-- A step that moves areas between the lists. -/
theorem VMAreaInv.move (h : VMAreaInv s) (hperm : t.areas.Perm s.areas)
    (hbitmap : t.vmBitmap = s.vmBitmap) (hdir : t.pgdir = s.pgdir)
    (hsorted : t.freeVMAreaList.Pairwise fun a b => a.size ≤ b.size) : VMAreaInv t := by
  refine ⟨by rw [hbitmap]; exact h.len, by rw [hbitmap]; exact h.bytes, ?_, ?_, ?_, hsorted, ?_⟩
  · intro a ha
    exact h.placed a (hperm.mem_iff.mp ha)
  · intro a ha
    rw [hbitmap]
    exact h.marked a (hperm.mem_iff.mp ha)
  · exact (hperm.pairwise_iff fun hab => VMArea.Apart.symm hab).mpr h.apart
  · intro a ha
    rw [hdir]
    exact h.mapped a (hperm.mem_iff.mp ha)

/-- What `AllocVaddress` returns is an area apart from all others, whose bits were clear. -/
theorem alloc_vaddress_cases (h : VMAreaInv s) {size : Nat} (hsize : size % pageSize = 0)
    (hpages : size ≠ 0 → 2 * pageSize ≤ size) (hword : size < 2 ^ 32) :
    allocVaddress s.vmBitmap size = (s.vmBitmap, 0) ∨
    ∃ idx, allocVaddress s.vmBitmap size = (bitmapSetRange s.vmBitmap true idx (size / pageSize),
        vmBaseAddress + idx * pageSize) ∧
      VMArea.Placed ⟨vmBaseAddress + idx * pageSize, size⟩ ∧
      (∀ i, idx ≤ i → i < idx + size / pageSize → s.vmBitmap.bit i = false) ∧
      ∀ a ∈ s.areas, VMArea.Apart ⟨vmBaseAddress + idx * pageSize, size⟩ a := by
  have halign : pageAlign size = size := page_align_of_aligned hsize
  simp only [allocVaddress, halign]
  split
  · exact .inl rfl
  next hne =>
  split
  · exact .inl rfl
  next idx hscan =>
    have hpages := hpages hne
    have hcnt : 2 ≤ size / pageSize := by
      simp only [pageSize] at *
      omega
    obtain ⟨hend, hclear⟩ := bitmap_scan_many h.bytes hcnt hscan
    rw [h.len] at hend
    have hstart : wrap (vmBaseAddress + wrap (idx * pageSize)) =
        vmBaseAddress + idx * pageSize := by
      simp only [wrap, vmBaseAddress, pageSize]
      omega
    have hplaced : VMArea.Placed ⟨vmBaseAddress + idx * pageSize, size⟩ := by
      refine ⟨?_, hsize, Nat.le_add_right _ _, hpages, ?_⟩
      · simp only [vmBaseAddress, pageSize]
        omega
      · simp only [vmBaseAddress, vmPages, pageSize] at *
        omega
    refine .inr ⟨idx, by rw [hstart], hplaced, hclear, ?_⟩
    intro a ha
    by_contra hoverlap
    simp only [VMArea.Apart, not_or, Nat.not_le] at hoverlap
    have hother := h.placed a ha
    obtain ⟨haddr, hasize, hlow, hapages, hhigh⟩ := hother
    -- two areas that overlap have a page in common that the bitmap describes
    obtain ⟨i, hi, hnew, hold⟩ : ∃ i < vmPages, (idx ≤ i ∧ i < idx + size / pageSize) ∧
        a.Holds (vmBaseAddress + i * pageSize) := by
      refine ⟨max idx ((a.addr - vmBaseAddress) / pageSize), ?_, ?_, ?_⟩
      all_goals
        simp only [VMArea.Holds, vmBaseAddress, vmPages, pageSize] at *
        omega
    have hset := h.marked a ha i hi hold
    rw [hclear i hnew.1 hnew.2] at hset
    cases hset

/-- A new area on the list of used ones, with its bits set and its pages mapped. -/
theorem VMAreaInv.add (h : VMAreaInv s) {a : VMArea} (ha : a.Placed)
    (hapart : ∀ b ∈ s.areas, a.Apart b) {idx : Nat} (haddr : a.addr = vmBaseAddress + idx * pageSize)
    (husing : t.usingVMAreaList = s.usingVMAreaList ++ [a])
    (hfree : t.freeVMAreaList = s.freeVMAreaList)
    (hbitmap : t.vmBitmap = bitmapSetRange s.vmBitmap true idx (a.size / pageSize))
    (hkeep : ∀ u, (s.pgdir.frame u).isSome → (t.pgdir.frame u).isSome)
    (hmapped : ∀ v, a.Holds v → (t.pgdir.frame v).isSome) : VMAreaInv t := by
  have hperm : t.areas.Perm (a :: s.areas) := by
    rw [VMAreas.areas, VMAreas.areas, husing, hfree, List.append_assoc]
    exact List.perm_middle
  refine ⟨by rw [hbitmap, bitmap_set_range_len]; exact h.len,
    by rw [hbitmap]; exact h.bytes.setRange _ _ _, ?_, ?_, ?_, by rw [hfree]; exact h.sorted, ?_⟩
  · intro b hb
    rcases List.mem_cons.mp (hperm.mem_iff.mp hb) with rfl | hb
    · exact ha
    · exact h.placed b hb
  · intro b hb i hi hholds
    rw [hbitmap, bit_bitmap_set_range]
    split
    · rfl
    next hout =>
      rcases List.mem_cons.mp (hperm.mem_iff.mp hb) with rfl | hb
      · refine absurd ?_ hout
        have := ha.size
        simp only [VMArea.Holds, haddr, vmBaseAddress, pageSize] at *
        omega
      · exact h.marked b hb i hi hholds
  · refine (hperm.pairwise_iff fun hab => VMArea.Apart.symm hab).mpr ?_
    exact List.pairwise_cons.mpr ⟨hapart, h.apart⟩
  · intro b hb v hv
    rcases List.mem_cons.mp (hperm.mem_iff.mp hb) with rfl | hb
    · exact hmapped v hv
    · exact hkeep v (h.mapped b hb v hv)

/-- `FreeVaddress` after `AllocVaddress`: the bits are clear again. -/
theorem VMAreaInv.unmark (h : VMAreaInv s) {idx n : Nat}
    (hclear : ∀ i, idx ≤ i → i < idx + n → s.vmBitmap.bit i = false) :
    VMAreaInv { s with vmBitmap := bitmapSetRange (bitmapSetRange s.vmBitmap true idx n) false
                                     idx n } := by
  refine ⟨by simpa using h.len, (h.bytes.setRange _ _ _).setRange _ _ _, h.placed, ?_, h.apart, h.sorted,
    h.mapped⟩
  intro a ha i hi hholds
  have hset := h.marked a ha i hi hholds
  simp only [bit_bitmap_set_range]
  split
  · next hin =>
      rw [hclear i hin.1 hin.2] at hset
      cases hset
  · exact hset

theorem area_size_spec {size : Nat} (hword : size < 2 ^ 32) (hne : pageAlign size ≠ 0) :
    areaSize size % pageSize = 0 ∧ areaSize size < 2 ^ 32 ∧
      (areaSize size ≠ 0 → 2 * pageSize ≤ areaSize size ∧ size ≤ areaSize size) := by
  have halign := page_align_mod size
  have hlt := page_align_lt hword
  refine ⟨?_, wrap_lt _, ?_⟩
  · simp only [areaSize, wrap, pageSize] at *
    omega
  · intro hsum
    have hsize : size ≤ 0xFFFFF000 := by
      by_contra hlarge
      refine hne ?_
      simp only [pageAlign, pageMask, wrap, pageSize]
      split <;> omega
    have hbounds := page_align_bounds hsize
    simp only [areaSize, wrap, pageSize] at *
    omega

/-- What a call of `vmalloc` does, when its mapping succeeds. -/
theorem vmalloc_cases (h : VMAreaInv s) {size : Nat} (hword : size < 2 ^ 32) {kmalloc : Bool}
    (hmap : mappingSucceeds s size kmalloc = true) {addr : Nat}
    (hcall : vmalloc s size kmalloc = some (t, addr)) :
    VMAreaInv t ∧ (∀ a ∈ s.areas, a ∈ t.areas) ∧
      ((addr = 0 ∧ t.usingVMAreaList = s.usingVMAreaList) ∨
        ∃ a, a.addr = addr ∧ addr ≠ 0 ∧ t.usingVMAreaList = s.usingVMAreaList ++ [a] ∧
          (size ≤ a.size ↔ ∀ b ∈ s.freeVMAreaList, size ≤ b.size)) := by
  simp only [vmalloc] at hcall
  split at hcall
  · cases hcall
    exact ⟨h, fun _ ha => ha, .inl ⟨rfl, rfl⟩⟩
  next hne =>
    obtain ⟨halign, hareaWord, hlarge⟩ := area_size_spec hword hne
    cases htake : takeArea s size with
    | some found =>
        obtain ⟨target, rest⟩ := found
        simp only [htake] at hcall
        cases hcall
        obtain ⟨htest, before, after, hfree, rfl, hbefore⟩ := find_area_some htake
        simp only [decide_eq_true_iff, decide_eq_false_iff_not] at htest hbefore
        have hplaced := h.placed target (by simp [VMAreas.areas, hfree])
        obtain ⟨hsize, hfits⟩ := hlarge (by
          have := hplaced.pages
          simp only [pageSize] at this
          omega)
        have hsorted := h.sorted
        rw [hfree] at hsorted
        have hperm : List.Perm ((s.usingVMAreaList ++ [target]) ++ (before ++ after)) s.areas := by
          rw [VMAreas.areas, hfree, List.append_assoc, List.singleton_append]
          exact List.perm_middle.symm.append_left _
        refine ⟨h.move hperm rfl rfl (hsorted.sublist ?_),
          fun a ha => hperm.mem_iff.mpr ha, .inr ⟨target, rfl, ?_, rfl, ?_⟩⟩
        · exact (List.sublist_cons_self target after).append_left before
        · have := hplaced.low
          simp only [vmBaseAddress] at this
          omega
        · constructor
          · intro htarget b hb
            rw [hfree] at hb
            rcases List.mem_append.mp hb with hb | hb
            · have := hbefore b hb
              omega
            · rcases List.mem_cons.mp hb with rfl | hb
              · exact htarget
              · have hle := (List.pairwise_cons.mp (List.pairwise_append.mp hsorted).2.1).1 b hb
                omega
          · intro hall
            exact hall target (by simp [hfree])
    | none =>
        simp only [htake, __vmalloc] at hcall
        have hnone := find_area_none htake
        simp only [decide_eq_false_iff_not, Nat.not_le] at hnone
        rcases alloc_vaddress_cases h halign (fun hsum => (hlarge hsum).1) hareaWord with
          heq | ⟨idx, heq, hplaced, hclear, hapart⟩
        · rw [heq] at hcall
          cases hcall
          exact ⟨h, fun _ ha => ha, .inl ⟨rfl, rfl⟩⟩
        · have hstart : vmBaseAddress + idx * pageSize ≠ 0 := by
            simp only [vmBaseAddress]
            omega
          rw [heq] at hcall
          simp only [if_neg hstart] at hcall
          cases kmalloc with
          | false =>
              cases hcall
              have hidx : wrapSub (vmBaseAddress + idx * pageSize) vmBaseAddress / pageSize = idx := by
                have := hplaced.high
                simp only [wrapSub, wrap, vmBaseAddress, vmPages, pageSize] at *
                omega
              refine ⟨?_, fun _ ha => ha, .inl ⟨rfl, rfl⟩⟩
              rw [freeVaddress, hidx]
              exact h.unmark hclear
          | true =>
              have hall : mapsAll s.mem s.pgdir (vmBaseAddress + idx * pageSize) (areaSize size)
                  supervisorWrite = true := by
                simpa [mappingSucceeds, hne, htake, heq, hstart] using hmap
              obtain ⟨⟨mem, pgdir, ret⟩, hpages, hcall⟩ := Option.map_eq_some_iff.mp hcall
              obtain ⟨rfl, hkeep, hmapped⟩ := map_pages_mapped hplaced hall hpages
              cases hcall
              refine ⟨h.add hplaced hapart rfl rfl rfl rfl hkeep hmapped, ?_,
                .inr ⟨⟨vmBaseAddress + idx * pageSize, areaSize size⟩, rfl, hstart, rfl, ?_⟩⟩
              · intro a ha
                simp only [VMAreas.areas, List.mem_append] at ha ⊢
                exact ha.imp_left .inl
              · have hpos : 0 < areaSize size := Nat.lt_of_lt_of_le (by decide) hplaced.pages
                have hfits := (hlarge (Nat.ne_of_gt hpos)).2
                exact ⟨fun _ b hb => Nat.le_of_lt (Nat.lt_of_le_of_lt hfits (hnone b hb)),
                  fun _ => hfits⟩

/-- A call of `vfree` for an address that is live. -/
theorem vfree_cases (h : VMAreaInv s) {ptr : Nat} (hlive : ptr ∈ s.usingVMAreaList.map VMArea.addr) :
    VMAreaInv (vfree s ptr).1 ∧ (∀ a ∈ s.areas, a ∈ (vfree s ptr).1.areas) ∧
      ∃ target ∈ s.usingVMAreaList, target.addr = ptr ∧
        (vfree s ptr).1.usingVMAreaList = s.usingVMAreaList.filter fun a => a.addr ≠ ptr := by
  obtain ⟨b, hb, rfl⟩ := List.mem_map.mp hlive
  have hplaced := h.placed b (List.mem_append_left _ hb)
  have hne : b.addr ≠ 0 ∧ ¬ (b.addr < vmBaseAddress ∨ b.addr ≥ nullMemAddr) := by
    obtain ⟨haddr, hsize, hlow, hpages, hhigh⟩ := hplaced
    simp only [vmBaseAddress, nullMemAddr, vmPages, pageSize] at *
    omega
  simp only [vfree, if_neg hne.1, if_neg hne.2]
  cases hfind : findArea (fun area => area.addr = b.addr) s.usingVMAreaList with
  | none =>
      have hall := find_area_none hfind b hb
      simp at hall
  | some found =>
      obtain ⟨target, rest⟩ := found
      obtain ⟨htest, before, after, husing, rfl, hbefore⟩ := find_area_some hfind
      have haddr : target.addr = b.addr := by simpa using htest
      have hperm : List.Perm ((before ++ after) ++ __vfree target s.freeVMAreaList) s.areas := by
        rw [VMAreas.areas, husing, List.append_assoc, List.append_assoc, List.cons_append]
        refine List.Perm.append_left _ ?_
        exact ((vfree_perm target _).append_left after).trans List.perm_middle
      refine ⟨h.move hperm rfl rfl (vfree_sorted target h.sorted), fun a ha => hperm.mem_iff.mpr ha,
        target, by simp [husing], haddr, ?_⟩
      -- the addresses of two areas differ
      have hapart := h.apart
      rw [VMAreas.areas, husing] at hapart
      have hafter : ∀ a ∈ after, a.addr ≠ b.addr := by
        intro a ha heq
        have hdis := (List.pairwise_cons.mp (List.pairwise_append.mp
          (List.pairwise_append.mp hapart).1).2.1).1 a ha
        have hsize := (h.placed a (by simp [VMAreas.areas, husing, ha])).pages
        have hsize' := (h.placed target (by simp [VMAreas.areas, husing])).pages
        simp only [VMArea.Apart, pageSize] at *
        omega
      have hbefore' : before.filter (fun a => a.addr ≠ b.addr) = before :=
        List.filter_eq_self.mpr fun a ha => by simpa using hbefore a ha
      have hafter' : after.filter (fun a => a.addr ≠ b.addr) = after :=
        List.filter_eq_self.mpr fun a ha => by simpa using hafter a ha
      rw [husing, List.filter_append, List.filter_cons_of_neg (by simpa using haddr), hbefore',
        hafter']

/-! ## Runs -/

variable {r u : Regions}

theorem others_inv (h : VMAreaInv s) (mem : PageMemory) (bits : Nat → Nat) :
    VMAreaInv { s with
      mem := mem
      vmBitmap := { s.vmBitmap with bits := fun i =>
        if i < s.vmBitmap.btmpBytesLen then s.vmBitmap.bits i else bits i } } := by
  refine ⟨h.len, ?_, h.placed, ?_, h.apart, h.sorted, h.mapped⟩
  · intro i hi
    simp only at hi ⊢
    rw [if_pos hi]
    exact h.bytes i hi
  · intro a ha i hi hholds
    have hbyte : i / 8 < s.vmBitmap.btmpBytesLen := by
      rw [h.len]
      simp only [vmPages] at hi
      omega
    simpa only [Bitmap.bit, if_pos hbyte] using h.marked a ha i hi hholds

/-- One step. A new region fits its request when `fits` follows from what `vmalloc` returns. -/
theorem region_step {fits : Nat → VMArea → Prop} (h : VMAreaInv r.areas) (hfit : r.Fit fits)
    {op : VMAreaOp} (hguard : mappingGuard r op)
    (hfits : ∀ size kmalloc a, op = .vmalloc size kmalloc →
      (size.toNat ≤ a.size ↔ ∀ b ∈ r.areas.freeVMAreaList, size.toNat ≤ b.size) →
        fits size.toNat a)
    (hstep : regionStep r op = some u) :
    VMAreaInv u.areas ∧ u.Fit fits ∧ ∀ a ∈ r.areas.areas, a ∈ u.areas.areas := by
  cases op with
  | vmalloc size kmalloc =>
      obtain ⟨⟨areas, addr⟩, hcall, rfl⟩ := Option.map_eq_some_iff.mp hstep
      obtain ⟨hinv, hkept, hcase⟩ := vmalloc_cases h size.toNat_lt hguard hcall
      refine ⟨hinv, ?_, hkept⟩
      rcases hcase with ⟨hzero, husing⟩ | ⟨a, rfl, hne, husing, hsize⟩
      · simp only [Regions.Fit, if_pos hzero, husing]
        exact hfit
      · simp only [Regions.Fit, if_neg hne, husing]
        exact List.rel_append hfit (.cons ⟨rfl, hfits size kmalloc a rfl hsize⟩ .nil)
  | vfree ptr =>
      simp only [regionStep] at hstep
      split at hstep
      · next hlive =>
          cases hstep
          have haddrs : r.live.map Prod.fst = r.areas.usingVMAreaList.map VMArea.addr :=
            List.forall₂_eq_eq_eq ▸ List.rel_map (fun _ _ hpa => hpa.1) hfit
          rw [haddrs] at hlive
          obtain ⟨hinv, hkept, -, -, -, husing⟩ := vfree_cases h hlive
          refine ⟨hinv, ?_, hkept⟩
          simp only [Regions.Fit, husing]
          refine List.rel_filter ?_ hfit
          intro p a hpa
          simp [hpa.1]
      · cases hstep
  | others mem bits =>
      cases hstep
      exact ⟨others_inv h mem bits, hfit, fun _ ha => ha⟩

theorem Regions.Started.inv (h : r.Started) :
    VMAreaInv r.areas ∧ ∀ fits, r.Fit fits := by
  obtain ⟨bits, mem, pgdir, rfl⟩ := h
  refine ⟨⟨rfl, bytes_bitmap_init _, ?_, ?_, .nil, .nil, ?_⟩, fun _ => .nil⟩
  all_goals
    intro a ha
    cases ha

/-- In a run whose mappings succeed, a call of `vmalloc` returns a region that is large enough
exactly when no free area is smaller than the request. -/
theorem vmalloc_size_iff {r₀ : Regions} {ls : List VMAreaOp} (hstart : r₀.Started)
    (hrun : Run (stepOf regionStep) mappingGuard r₀ ls r) {size : UInt32} {kmalloc : Bool}
    (hmap : mappingSucceeds r.areas size.toNat kmalloc = true) {areas : VMAreas} {addr : Nat}
    (hcall : vmalloc r.areas size.toNat kmalloc = some (areas, addr)) (hne : addr ≠ 0) :
    ∃ a, a.addr = addr ∧ areas.usingVMAreaList = r.areas.usingVMAreaList ++ [a] ∧
      (size.toNat ≤ a.size ↔ ∀ b ∈ r.areas.freeVMAreaList, size.toNat ≤ b.size) := by
  have hkeep : ∀ a op b, (VMAreaInv a.areas ∧ a.Fit fun _ _ => True) → mappingGuard a op →
      stepOf regionStep a op b → VMAreaInv b.areas ∧ b.Fit fun _ _ => True := by
    intro a op b ha hguard hstep
    obtain ⟨hb, hfit, -⟩ := region_step ha.1 ha.2 hguard (fun _ _ _ _ _ => trivial) hstep
    exact ⟨hb, hfit⟩
  have hinv := hrun.invariant hkeep ⟨hstart.inv.1, hstart.inv.2 _⟩
  obtain ⟨-, -, ⟨hzero, -⟩ | ⟨a, haddr, -, husing, hsize⟩⟩ :=
    vmalloc_cases hinv.1 size.toNat_lt hmap hcall
  · exact absurd hzero hne
  · exact ⟨a, haddr, husing, hsize⟩

/-- In a run whose mappings succeed and in which no free area is ever smaller than a request, the
regions are as they should be, and an area that is on one of the lists stays on one. -/
theorem vmalloc_regions {r₀ : Regions} {ls : List VMAreaOp} (hstart : r₀.Started)
    (hrun : Run (stepOf regionStep) regionGuard r₀ ls r) :
    r.Sound ∧ ∀ ms u, Run (stepOf regionStep) regionGuard r ms u →
      ∀ a ∈ r.areas.areas, a ∈ u.areas.areas := by
  have hkeep : ∀ a op b, (VMAreaInv a.areas ∧ a.Fit fun size area => size ≤ area.size) →
      regionGuard a op → stepOf regionStep a op b →
        (VMAreaInv b.areas ∧ b.Fit fun size area => size ≤ area.size) ∧
          ∀ area ∈ a.areas.areas, area ∈ b.areas.areas := by
    intro a op b ha hguard hstep
    obtain ⟨hb, hfit, hkept⟩ := region_step ha.1 ha.2 hguard.1 (fun size kmalloc area hop hsize => by
      subst hop
      exact hsize.mpr hguard.2) hstep
    exact ⟨⟨hb, hfit⟩, hkept⟩
  obtain ⟨hinv, hfit⟩ := hrun.invariant (fun a op b ha hguard hstep => (hkeep a op b ha hguard hstep).1)
    ⟨hstart.inv.1, hstart.inv.2 _⟩
  have husing := (List.pairwise_append.mp hinv.apart).1
  refine ⟨⟨hfit, husing, fun a ha => hinv.mapped a (List.mem_append_left _ ha), ?_⟩, ?_⟩
  · refine hinv.apart.imp_of_mem ?_
    rintro a b ha - hab rfl
    have hpages := (hinv.placed a ha).pages
    simp only [VMArea.Apart, pageSize] at *
    omega
  · intro ms u hrest
    have hstay : ∀ a op b, ((VMAreaInv a.areas ∧ a.Fit fun size area => size ≤ area.size) ∧
        ∀ area ∈ r.areas.areas, area ∈ a.areas.areas) → regionGuard a op →
          stepOf regionStep a op b →
            (VMAreaInv b.areas ∧ b.Fit fun size area => size ≤ area.size) ∧
              ∀ area ∈ r.areas.areas, area ∈ b.areas.areas := by
      intro a op b ha hguard hstep
      obtain ⟨hb, hkept⟩ := hkeep a op b ha.1 hguard hstep
      exact ⟨hb, fun area harea => hkept area (ha.2 area harea)⟩
    exact (hrest.invariant hstay ⟨⟨hinv, hfit⟩, fun _ ha => ha⟩).2

/-! ## Examples -/

instance (r : Regions) : DecidablePred (mappingGuard r)
  | .vmalloc _ _ => inferInstanceAs (Decidable (_ = true))
  | .vfree _ | .others _ _ => inferInstanceAs (Decidable True)

instance (r : Regions) : DecidablePred (regionGuard r)
  | .vmalloc size _ =>
      inferInstanceAs (Decidable (_ = true ∧ ∀ a ∈ r.areas.freeVMAreaList, size.toNat ≤ a.size))
  | .vfree _ | .others _ _ => inferInstanceAs (Decidable (True ∧ True))

/-- No region yet, on a machine with 256 MB of cleared memory. -/
def bootRegions : Regions :=
  ⟨initVMArea (fun _ => 0)
    { phymem := ((initPhysicMemory 0x10000000).map AllocState.mem).getD ⟨fun _ => {}, 0, 0⟩
      pages := fun _ _ => 0 } fun _ => none, []⟩

/-- Two regions are allocated; the first is freed and used again. -/
theorem region_used_again : ∃ r, Run (stepOf regionStep) regionGuard bootRegions
      [.vmalloc 8192 true, .vmalloc 4096 true, .vfree 0xF7C00000, .vmalloc 5000 true] r ∧
    r.live = [(0xF7C03000, 4096), (0xF7C00000, 5000)] ∧ r.Sound := by
  obtain ⟨r₀, r, hstart, hrun, hview⟩ := exists_run_checked regionStep regionGuard (some bootRegions)
    [.vmalloc 8192 true, .vmalloc 4096 true, .vfree 0xF7C00000, .vmalloc 5000 true] Regions.live
    (v := [(0xF7C03000, 4096), (0xF7C00000, 5000)]) (by decide +kernel)
  cases hstart
  exact ⟨r, hrun, hview, (vmalloc_regions ⟨_, _, _, rfl⟩ hrun).1⟩

/-- A region of one page is freed, and then returned for a request of ten pages. -/
theorem small_region : ∃ r, bootRegions.Started ∧ Run (stepOf regionStep) mappingGuard bootRegions
      [.vmalloc 4096 true, .vfree 0xF7C00000, .vmalloc 40960 true] r ∧
    r.live = [(0xF7C00000, 40960)] ∧ r.areas.usingVMAreaList = [⟨0xF7C00000, 8192⟩] ∧
    ¬ r.Sound := by
  obtain ⟨r₀, r, hstart, hrun, hview⟩ := exists_run_checked regionStep mappingGuard
    (some bootRegions) [.vmalloc 4096 true, .vfree 0xF7C00000, .vmalloc 40960 true]
    (fun r => (r.live, r.areas.usingVMAreaList))
    (v := ([(0xF7C00000, 40960)], [⟨0xF7C00000, 8192⟩])) (by decide +kernel)
  cases hstart
  obtain ⟨hlive, husing⟩ := Prod.mk.inj hview
  refine ⟨r, ⟨_, _, _, rfl⟩, hrun, hlive, husing, ?_⟩
  intro hsound
  have hlarge := hsound.large
  simp [Regions.Fit, hlive, husing] at hlarge

end XBook.Paging
