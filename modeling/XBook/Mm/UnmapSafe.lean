import XBook.Mm.PageLinks

/-!
# What unmapping frees

The paging functions as steps of a system: several tasks map, fault and unmap over one allocator,
and the kernel allocates and frees pages of its own. `UnmapPagesFragment` frees the page in every
entry that it reads, also when the entry is not present and its page has long been handed to
somebody else, as `stale_page_freed` shows. `unmapping_frees_mapped_pages` says when a call frees
only what its range maps, and that then nobody holds the pages that it freed.
-/

namespace XBook.Paging

open Transition

/-- One step of the system. -/
inductive Op where
  /-- A store of the processor to a word of a page. -/
  | store (page index word : Nat)
  /-- `AllocPages`, for the kernel. -/
  | alloc (count : UInt32)
  /-- `FreePages`, on an allocation of the kernel. -/
  | free (b : PageBlock)
  /-- `PageTableAdd` for a kernel address, as `MapPages` and `memmap` call it. -/
  | add (pid vaddr paddr protect : Nat)
  /-- `DoHandleNoPage`. -/
  | fault (pid addr : Nat)
  /-- `DoProtectionFault` for a write. -/
  | protection (pid addr : Nat)
  /-- `AllocPage` and `PageTableAdd`, as `CopyPageTable` and `InitUserStack` call them. -/
  | link (pid vaddr : Nat)
  /-- `MapPagesMaybeMapped`. -/
  | map (pid start npages : Nat)
  /-- `UnmapPagesFragment`. -/
  | unmap (pid vaddr len : Nat)

namespace System

/-- The system after a function has run on the page tables of one task. -/
def withPages (s : System) (pid : Nat) (mem : PageMemory) (dir : Directory) : System :=
  { s with mem := mem, pgdir := Function.update s.pgdir pid dir }

/-- One step, with `none` where a search of the allocator never ends. -/
def step (s : System) : Op → Option System
  | .store page index word =>
      some { s with mem := { s.mem with
        pages := Function.update s.mem.pages page (Function.update (s.mem.pages page) index word) } }
  | .alloc count =>
      if count = 0 then none
      else
        (s.mem.phymem.allocPages count.toNat).map fun (phymem, page) =>
          { s with
            mem := { s.mem with phymem := phymem }
            kernel := if page = 0 then s.kernel else ⟨page, count.toNat⟩ :: s.kernel }
  | .free b =>
      if b ∈ s.kernel then
        some { s with
          mem := { s.mem with phymem := (s.mem.phymem.freePages b.page).1 }
          kernel := s.kernel.erase b }
      else none
  | .add pid vaddr paddr protect =>
      if vaddr < userVmSize then none
      else
        (pageTableAdd s.mem (s.pgdir pid) vaddr paddr protect).map fun (mem, dir, _) =>
          { s.withPages pid mem dir with
            -- a new page table of the kernel half is the kernel's
            kernel := match s.pgdir pid (pdeIdx vaddr), dir (pdeIdx vaddr) with
              | none, some table => ⟨table.page, 1⟩ :: s.kernel
              | _, _ => s.kernel }
  | .fault pid addr =>
      (doHandleNoPage s.mem (s.pgdir pid) addr).map fun (mem, dir, _) => s.withPages pid mem dir
  | .protection pid addr =>
      let (dir, ret) := makePteWrite (s.pgdir pid) addr
      if ret ≠ 0 then some s
      else (doHandleNoPage s.mem dir addr).map fun (mem, dir, _) => s.withPages pid mem dir
  | .link pid vaddr =>
      s.mem.allocPage.bind fun (mem, paddr) =>
        if paddr = 0 then some { s with mem := mem }
        else
          (pageTableAdd mem (s.pgdir pid) vaddr paddr userWrite).map fun (mem, dir, _) =>
            s.withPages pid mem dir
  | .map pid start npages =>
      (mapPagesMaybeMapped userWrite npages start s.mem (s.pgdir pid)).map fun (mem, dir, _) =>
        s.withPages pid mem dir
  | .unmap pid vaddr len =>
      let (phymem, dir, _) := unmapPagesFragment s.mem.phymem (s.pgdir pid) vaddr len
      some (s.withPages pid { s.mem with phymem := phymem } dir)

/-- The node is marked before a step and clear after it. -/
def Frees (s t : System) (i : Nat) : Prop :=
  (s.mem.phymem.memNodeTable i).reference ≠ 0 ∧ (t.mem.phymem.memNodeTable i).reference = 0

/-- The page of the node is mapped in the range. -/
def MappedIn (s : System) (pid vaddr len i : Nat) : Prop :=
  ∃ u ∈ fragment vaddr len, ∃ page, (s.pgdir pid).frame u = some page ∧
    s.mem.phymem.page2MemNode page = some i

/-- A call of `UnmapPagesFragment` frees only pages that are mapped in its range when it
begins. -/
def FreesMapped (s : System) (pid vaddr len : Nat) : Prop :=
  ∀ t, s.step (.unmap pid vaddr len) = some t → ∀ i, s.Frees t i → s.MappedIn pid vaddr len i

/-- Nobody holds a page that the call has freed: no entry of any task, no page table, and no
allocation reaches it. -/
def FreesUnused (s : System) (pid vaddr len : Nat) : Prop :=
  ∀ t, s.step (.unmap pid vaddr len) = some t → ∀ i, s.Frees t i →
    (∀ o, ¬ t.Owns o i) ∧
      ∀ j < t.mem.phymem.memNodeCount, (t.mem.phymem.memNodeTable j).reference ≠ 0 →
        ¬ (j ≤ i ∧ i < j + (t.mem.phymem.memNodeTable j).count)

/-- Every entry of the range that is not present holds the address of a free page, or of a page
that is mapped in the range. -/
def StaleFree (s : System) (pid vaddr len : Nat) : Prop :=
  len ≠ 0 → ∀ u ∈ fragment vaddr len, ∀ word, (s.pgdir pid).word u = some word →
    present word = false → ∀ i, s.mem.phymem.page2MemNode (pageMask word) = some i →
      (s.mem.phymem.memNodeTable i).reference = 0 ∨ s.MappedIn pid vaddr len i

/-- The range lies in the user half of the address space. -/
def InUser (vaddr len : Nat) : Prop := ∀ u ∈ fragment vaddr len, u < userVmSize

/-- No page that becomes a page table of the user half holds a word with the present bit. -/
def NewTablesClean (s t : System) : Prop :=
  ∀ pid region table, region < userRegions → t.pgdir pid region = some table →
    s.pgdir pid region = none → ∀ index < 1024, present (s.mem.pages table.page index) = false

/-- What each step needs: an allocation takes no page of another, a new page table is clean, and
an unmapping of user pages finds no stale entry of a page in use. -/
def Guard (s : System) : Op → Prop
  | .alloc count => NodesFit s.mem.phymem count.toNat
  | .unmap pid vaddr len => InUser vaddr len ∧ s.StaleFree pid vaddr len
  | op => ∀ t, s.step op = some t → s.NewTablesClean t

/-- The system after `InitPhysicMemory`: the kernel holds what boot memory has used, and no task
has a page table for user addresses. -/
def Started (s : System) : Prop :=
  ∃ memSize a, initPhysicMemory memSize = some a ∧ s.mem.phymem = a.mem ∧ s.kernel = a.live ∧
    ∀ pid region, region < userRegions → s.pgdir pid region = none

end System

/-! ## Unmapping -/

namespace System

variable {s t : System} {pid vaddr len : Nat}

/-- What a call of `UnmapPagesFragment` does to a task's pages. -/
theorem step_unmap (hstep : s.step (.unmap pid vaddr len) = some t) :
    t.kernel = s.kernel ∧ (∀ pid', pid' ≠ pid → t.pgdir pid' = s.pgdir pid') ∧
      ((len = 0 ∧ t.mem.phymem = s.mem.phymem ∧ t.pgdir pid = s.pgdir pid) ∨
        (len ≠ 0 ∧
          t.mem.phymem = freeAll s.mem.phymem ((s.pgdir pid).pagesAt (fragment vaddr len)) ∧
          ∃ phymem, t.pgdir pid = (unmapPagesAt (fragment vaddr len) phymem (s.pgdir pid)).2)) := by
  by_cases hlen : len = 0
  · simp only [step, unmapPagesFragment, hlen, if_true, Option.some.injEq] at hstep
    cases hstep
    exact ⟨rfl, fun pid' hne => Function.update_of_ne hne _ _,
      .inl ⟨hlen, rfl, Function.update_self ..⟩⟩
  · simp only [step, unmapPagesFragment, hlen, if_false, Option.some.injEq] at hstep
    cases hstep
    exact ⟨rfl, fun pid' hne => Function.update_of_ne hne _ _,
      .inr ⟨hlen, unmap_pages_phymem _ _ _, s.mem.phymem, Function.update_self ..⟩⟩

theorem mem_pages_at {dir : Directory} {vaddrs : List Nat} {page : Nat} :
    page ∈ dir.pagesAt vaddrs ↔
      ∃ u ∈ vaddrs, ∃ word, dir.word u = some word ∧ pageMask word = page := by
  simp only [Directory.pagesAt, List.mem_filterMap, Option.map_eq_some_iff]

/-- The nodes that a call frees are those of the pages in the entries of its range. -/
theorem frees_iff (hstep : s.step (.unmap pid vaddr len) = some t) (i : Nat) :
    s.Frees t i ↔ len ≠ 0 ∧ (s.mem.phymem.memNodeTable i).reference ≠ 0 ∧
      ∃ u ∈ fragment vaddr len, ∃ word, (s.pgdir pid).word u = some word ∧
        s.mem.phymem.page2MemNode (pageMask word) = some i := by
  obtain ⟨-, -, ⟨hlen, hmem, -⟩ | ⟨hlen, hmem, -⟩⟩ := step_unmap hstep
  · simp only [Frees, hmem, hlen, ne_eq, not_true_eq_false, false_and, iff_false]
    exact fun hfree => hfree.1 hfree.2
  · simp only [Frees, hmem, free_all_node]
    constructor
    · intro ⟨href, hfree⟩
      split at hfree
      · next hboth =>
          obtain ⟨page, hpage, hi⟩ := hboth.1
          obtain ⟨u, hu, word, hword, rfl⟩ := mem_pages_at.mp hpage
          exact ⟨hlen, href, u, hu, word, hword, hi⟩
      · exact absurd hfree href
    · intro hall
      obtain ⟨-, href, u, hu, word, hword, hi⟩ := hall
      have hpage := mem_pages_at.mpr ⟨u, hu, word, hword, rfl⟩
      exact ⟨href, by rw [if_pos ⟨⟨_, hpage, hi⟩, href⟩]⟩

/-- A call frees only what is mapped in its range exactly when the range has no stale entry of a
page in use. -/
theorem frees_mapped_iff : s.FreesMapped pid vaddr len ↔ s.StaleFree pid vaddr len := by
  constructor
  · intro h hlen u hu word hword hpresent i hi
    by_cases href : (s.mem.phymem.memNodeTable i).reference = 0
    · exact .inl href
    · exact .inr (h _ rfl i ((frees_iff rfl i).mpr ⟨hlen, href, u, hu, word, hword, hi⟩))
  · intro h t hstep i hfree
    obtain ⟨hlen, href, u, hu, word, hword, hi⟩ := (frees_iff hstep i).mp hfree
    by_cases hpresent : present word = true
    · exact ⟨u, hu, _, Directory.frame_eq_some.mpr ⟨word, hword, hpresent, rfl⟩, hi⟩
    · rcases h hlen u hu word hword (by simpa using hpresent) i hi with hzero | hmapped
      · exact absurd hzero href
      · exact hmapped

/-- What is mapped after a call was mapped before it, outside the range. -/
theorem unmap_frame (hstep : s.step (.unmap pid vaddr len) = some t) {pid' u page : Nat}
    (hframe : (t.pgdir pid').frame u = some page) :
    (s.pgdir pid').frame u = some page ∧
      (pid' = pid → len ≠ 0 → ∀ v ∈ fragment vaddr len, ¬ SamePage u v) := by
  obtain ⟨-, hother, hcase⟩ := step_unmap hstep
  rcases eq_or_ne pid' pid with rfl | hpid
  · rcases hcase with ⟨hlen, -, hdir⟩ | ⟨-, -, phymem, hdir⟩
    · rw [hdir] at hframe
      exact ⟨hframe, fun _ hne => absurd hlen hne⟩
    · rw [hdir, Directory.frame, unmap_pages_word] at hframe
      split at hframe
      · cases hword : (s.pgdir pid').word u <;> simp [hword, not_present_clear] at hframe
      · next hnot => exact ⟨hframe, fun _ _ v hv hsame => hnot ⟨v, hv, hsame⟩⟩
  · rw [hother pid' hpid] at hframe
    exact ⟨hframe, fun heq => absurd heq hpid⟩

theorem unmap_owns (hstep : s.step (.unmap pid vaddr len) = some t) {o : Owner} {i : Nat}
    (ho : t.Owns o i) : s.Owns o i := by
  obtain ⟨hkernel, hother, hcase⟩ := step_unmap hstep
  have hindex : ∀ page, t.mem.phymem.page2MemNode page = s.mem.phymem.page2MemNode page := by
    intro page
    rcases hcase with ⟨-, hmem, -⟩ | ⟨-, hmem, -⟩
    · rw [hmem]
    · simp only [hmem, PhysicMemory.page2MemNode, free_all_count, free_all_base]
  have htables : ∀ pid' region, (t.pgdir pid' region).map Table.page =
      (s.pgdir pid' region).map Table.page := by
    intro pid' region
    rcases eq_or_ne pid' pid with rfl | hpid
    · rcases hcase with ⟨-, -, hdir⟩ | ⟨-, -, phymem, hdir⟩
      · rw [hdir]
      · rw [hdir, unmap_pages_field Table.page fun _ _ => rfl]
    · rw [hother pid' hpid]
  cases o with
  | block b => exact ⟨hkernel ▸ ho.1, (hindex _) ▸ ho.2⟩
  | table pid' region =>
      obtain ⟨hlt, table, htable, hi⟩ := ho
      have hpage := htables pid' region
      rw [htable] at hpage
      obtain ⟨table', htable', hsame⟩ := Option.map_eq_some_iff.mp hpage.symm
      exact ⟨hlt, table', htable', by rw [hsame, ← hindex]; exact hi⟩
  | page pid' vpn =>
      obtain ⟨hlt, page, hframe, hi⟩ := ho
      exact ⟨hlt, page, (unmap_frame hstep hframe).1, by rw [← hindex]; exact hi⟩

/-- After a call that meets its guard, no freed page has an owner. -/
theorem unmap_unowned (h : OwnerInv s) (huser : InUser vaddr len)
    (hstale : s.StaleFree pid vaddr len) (hstep : s.step (.unmap pid vaddr len) = some t)
    {i : Nat} (hfree : s.Frees t i) (o : Owner) : ¬ t.Owns o i := by
  intro ho
  obtain ⟨hlen, -⟩ := (frees_iff hstep i).mp hfree
  obtain ⟨u, hu, page, hframe, hi⟩ := frees_mapped_iff.mpr hstale t hstep i hfree
  have hsame : SamePage (u / pageSize * pageSize) u := (same_page_vpn _ _).mpr rfl
  have hvpn : u / pageSize < userPages := by
    have hlt := huser u hu
    simp only [pageSize, userPages, userVmSize] at *
    omega
  -- the page belonged to an entry of the range, which is no longer present
  have hown : s.Owns (.page pid (u / pageSize)) i :=
    ⟨hvpn, page, by rw [(s.pgdir pid).frame_congr hsame]; exact hframe, hi⟩
  obtain rfl := h.unique _ _ i (unmap_owns hstep ho) hown
  obtain ⟨-, page', hframe', -⟩ := ho
  exact (unmap_frame hstep hframe').2 rfl hlen u hu hsame

/-- A call that meets its guard keeps the invariant. -/
theorem unmap_inv (h : OwnerInv s) (huser : InUser vaddr len)
    (hstale : s.StaleFree pid vaddr len) (hstep : s.step (.unmap pid vaddr len) = some t) :
    OwnerInv t := by
  obtain ⟨hkernel, -, hcase⟩ := step_unmap hstep
  have hcount : t.mem.phymem.memNodeCount = s.mem.phymem.memNodeCount := by
    rcases hcase with ⟨-, hmem, -⟩ | ⟨-, hmem, -⟩ <;> simp [hmem]
  have hbase : t.mem.phymem.memNodeBase = s.mem.phymem.memNodeBase := by
    rcases hcase with ⟨-, hmem, -⟩ | ⟨-, hmem, -⟩ <;> simp [hmem]
  have hnode : ∀ i, (t.mem.phymem.memNodeTable i).reference ≠ 0 →
      t.mem.phymem.memNodeTable i = s.mem.phymem.memNodeTable i := by
    intro i href
    rcases hcase with ⟨-, hmem, -⟩ | ⟨-, hmem, -⟩
    · rw [hmem]
    · rw [hmem, free_all_node] at href ⊢
      split at href
      · exact absurd rfl href
      · next hne => rw [if_neg hne]
  refine ⟨h.nodes.clear hcount hbase hnode, ?_, ?_, ?_, hkernel ▸ h.nodup⟩
  · intro o i ho
    obtain ⟨hlt, href, hlen⟩ := h.marked o i (unmap_owns hstep ho)
    have href' : (t.mem.phymem.memNodeTable i).reference ≠ 0 := fun hzero =>
      unmap_unowned h huser hstale hstep ⟨href, hzero⟩ o ho
    rw [hnode i href', hcount]
    exact ⟨hlt, href, hlen⟩
  · intro o o' i ho ho'
    exact h.unique o o' i (unmap_owns hstep ho) (unmap_owns hstep ho')
  · intro b hb
    obtain ⟨i, hi⟩ := h.blocks b (hkernel ▸ hb)
    exact ⟨i, by simpa only [PhysicMemory.page2MemNode, hcount, hbase] using hi⟩

/-! ## Runs -/

theorem newTablesClean_dir {mem : PageMemory} {dir : Directory}
    (h : s.NewTablesClean (s.withPages pid mem dir)) :
    CleanTables s.mem.pages (s.pgdir pid) dir := by
  intro region table hregion htable hnone
  exact h pid region table hregion (by simpa [withPages] using htable) hnone

/-- A step that meets its guard keeps the invariant. -/
theorem step_inv (h : OwnerInv s) {op : Op} (hguard : s.Guard op) (hstep : s.step op = some t) :
    OwnerInv t := by
  have hself : ∀ pid, OwnerInv ⟨s.mem, Function.update s.pgdir pid (s.pgdir pid), s.kernel⟩ := by
    intro pid
    rw [Function.update_eq_self]
    exact h
  cases op with
  | store page index word =>
      cases hstep
      exact OwnerInv.pages h rfl
  | alloc count =>
      simp only [step] at hstep
      split at hstep
      · cases hstep
      · next hne =>
          have hpos : 0 < count.toNat := by
            rcases Nat.eq_zero_or_pos count.toNat with hzero | hpos
            · exact absurd (UInt32.toNat_inj.mp hzero) hne
            · exact hpos
          obtain ⟨⟨phymem, page⟩, halloc, heq⟩ := Option.map_eq_some_iff.mp hstep
          cases heq
          let mem : PageMemory := { s.mem with phymem := phymem }
          by_cases hpage : page = 0
          · have hinv : OwnerInv ⟨mem, s.pgdir, s.kernel⟩ :=
              OwnerInv.alloc_failed h hpos hguard (hpage ▸ halloc)
            simpa only [hpage, if_true] using hinv
          · have hinv : OwnerInv ⟨mem, s.pgdir, ⟨page, count.toNat⟩ :: s.kernel⟩ :=
              (OwnerInv.alloc h hpos hguard halloc hpage).1
            simpa only [hpage, if_false] using hinv
  | free b =>
      simp only [step] at hstep
      split at hstep
      · next hb =>
          cases hstep
          exact OwnerInv.free h hb
      · cases hstep
  | add pid vaddr paddr protect =>
      simp only [step] at hstep
      split at hstep
      · cases hstep
      · next huser =>
          obtain ⟨⟨mem, dir, ret⟩, hadd, heq⟩ := Option.map_eq_some_iff.mp hstep
          cases heq
          exact OwnerInv.pageTableAdd_kernel h (Nat.not_lt.mp huser) hadd
  | fault pid addr =>
      have hclean := hguard t hstep
      obtain ⟨⟨mem, dir, ret⟩, hfault, rfl⟩ := Option.map_eq_some_iff.mp hstep
      exact (hself pid).handleNoPage hfault (newTablesClean_dir hclean)
  | protection pid addr =>
      have hclean := hguard t hstep
      simp only [step] at hstep
      split at hstep
      · cases hstep
        exact h
      · obtain ⟨⟨mem, dir, ret⟩, hfault, rfl⟩ := Option.map_eq_some_iff.mp hstep
        refine OwnerInv.handleNoPage (OwnerInv.makePteWrite h) hfault ?_
        refine (newTablesClean_dir hclean).rest ?_
        intro region table htable
        have hpage := (make_pte_write_frame (s.pgdir pid) addr 0).2 region
        rw [htable] at hpage
        exact Option.map_eq_some_iff.mp hpage
  | link pid vaddr =>
      have hclean := hguard t hstep
      obtain ⟨⟨mem, paddr⟩, halloc, hrest⟩ := Option.bind_eq_some_iff.mp hstep
      by_cases hpaddr : paddr = 0
      · simp only [hpaddr, if_true] at hrest
        cases hrest
        exact OwnerInv.allocNone h (hpaddr ▸ halloc)
      · simp only [hpaddr, if_false] at hrest
        obtain ⟨⟨mem', dir, ret⟩, hadd, rfl⟩ := Option.map_eq_some_iff.mp hrest
        exact ((hself pid).allocLink halloc hpaddr hadd (newTablesClean_dir hclean)).1
  | map pid start npages =>
      have hclean := hguard t hstep
      obtain ⟨⟨mem, dir, ret⟩, hmap, rfl⟩ := Option.map_eq_some_iff.mp hstep
      exact (hself pid).mapPages hmap (newTablesClean_dir hclean)
  | unmap pid vaddr len => exact unmap_inv h hguard.1 hguard.2 hstep

theorem init_physic_memory_base {memSize : UInt32} {a : AllocState}
    (hinit : initPhysicMemory memSize = some a) : a.mem.memNodeBase = normalMemAddr := by
  obtain ⟨⟨mem, usedPages⟩, htable, halloc⟩ := Option.bind_eq_some_iff.mp hinit
  obtain ⟨_, -, hpair⟩ := Option.map_eq_some_iff.mp htable
  cases hpair
  obtain ⟨⟨mem', page⟩, hpages, rfl⟩ := Option.map_eq_some_iff.mp halloc
  rcases alloc_pages_cases hpages with ⟨rfl, -⟩ | ⟨i, -, rfl, -⟩ <;> rfl

/-- The system starts with the invariant. -/
theorem Started.inv (h : s.Started) : OwnerInv s := by
  obtain ⟨memSize, a, hinit, hmem, hkernel, hempty⟩ := h
  have hinv := init_physic_memory_inv hinit
  have hspan : ∀ b ∈ a.live, b.span a.mem ∈ a.spans := fun b hb => List.mem_map_of_mem hb
  have hstart : ∀ b ∈ a.live, (b.span a.mem).start < a.mem.memNodeCount := by
    intro b hb
    have hstop := hinv.nodes.inTable _ (hspan b hb)
    have hpos := hinv.nodes.pos _ (hspan b hb)
    unfold Span.stop at hstop
    omega
  have hindex : ∀ b ∈ a.live, a.mem.page2MemNode b.page = some (b.span a.mem).start := by
    intro b hb
    rw [hinv.pages b hb]
    exact page2_mem_node_page hinv.nodes.bound (hstart b hb)
  -- at the start only the kernel holds pages
  have howns : ∀ o i, s.Owns o i → ∃ b ∈ a.live, o = .block b ∧ (b.span a.mem).start = i := by
    intro o i ho
    cases o with
    | block b =>
        obtain ⟨hb, hi⟩ := ho
        rw [hkernel] at hb
        rw [hmem, hindex b hb] at hi
        exact ⟨b, hb, rfl, Option.some.inj hi⟩
    | table pid region =>
        obtain ⟨hlt, table, htable, -⟩ := ho
        simp [hempty pid region hlt] at htable
    | page pid vpn =>
        obtain ⟨hlt, page, hframe, -⟩ := ho
        have hregion : pdeIdx (vpn * pageSize) < userRegions := by
          simp only [pdeIdx, pageSize, userRegions, userPages] at *
          omega
        simp [Directory.frame, Directory.word, hempty pid _ hregion] at hframe
  refine ⟨?_, ?_, ?_, ?_, ?_⟩
  · rw [hmem]
    exact NodeInv.nodesApart hinv.nodes (by
      rw [init_physic_memory_base hinit]
      decide)
  · intro o i ho
    obtain ⟨b, hb, rfl, rfl⟩ := howns o i ho
    have hmarked := hinv.nodes.marked _ (hspan b hb)
    rw [hmem]
    exact ⟨hstart b hb, hmarked.1, hmarked.2⟩
  · intro o o' i ho ho'
    obtain ⟨b, hb, rfl, hi⟩ := howns o i ho
    obtain ⟨b', hb', rfl, hi'⟩ := howns o' i ho'
    have hpage : b.page = b'.page := by rw [hinv.pages b hb, hinv.pages b' hb', hi, hi']
    have hcount : b.count = b'.count := by
      have hmarked := (hinv.nodes.marked _ (hspan b hb)).2
      have hmarked' := (hinv.nodes.marked _ (hspan b' hb')).2
      rw [hi] at hmarked
      rw [hi'] at hmarked'
      exact hmarked.symm.trans hmarked'
    cases b
    cases b'
    simp only at hpage hcount
    rw [hpage, hcount]
  · intro b hb
    rw [hkernel] at hb
    exact ⟨_, by rw [hmem]; exact hindex b hb⟩
  · rw [hkernel]
    refine (List.pairwise_map.mp hinv.nodes.apart).imp_of_mem ?_
    intro b b' hb _ hapart heq
    have hpos := hinv.nodes.pos _ (hspan b hb)
    rw [← heq] at hapart
    unfold Span.Apart Span.stop at hapart
    omega

/-- In every run whose steps all meet their guard, and for every range of every task: a call of
`UnmapPagesFragment` frees only what its range maps exactly when no stale entry of the range names
a page in use, and then, on a range of user addresses, nobody holds what it has freed. -/
theorem unmapping_frees_mapped_pages {s₀ s : System} {ops : List Op} (hstart : s₀.Started)
    (hrun : Run (stepOf step) Guard s₀ ops s) (pid vaddr len : Nat) :
    (s.FreesMapped pid vaddr len ↔ s.StaleFree pid vaddr len) ∧
      (s.StaleFree pid vaddr len → InUser vaddr len → s.FreesUnused pid vaddr len) := by
  have h : OwnerInv s :=
    hrun.invariant (fun _ _ _ h hguard hstep => step_inv h hguard hstep) hstart.inv
  refine ⟨frees_mapped_iff, ?_⟩
  intro hstale huser t hstep i hfree
  refine ⟨unmap_unowned h huser hstale hstep hfree, ?_⟩
  intro j hj href hcover
  obtain ⟨hlen, hrefi, u, hu, word, hword, hi⟩ := (frees_iff hstep i).mp hfree
  have ht := unmap_inv h huser hstale hstep
  obtain ⟨-, -, ⟨hzero, -⟩ | ⟨-, hmem, -⟩⟩ := step_unmap hstep
  · exact hlen hzero
  -- a marked node before `i` ends before `i`, as it did when `i` was marked
  have hne : j ≠ i := by
    rintro rfl
    exact href hfree.2
  rw [hmem, free_all_node] at href hcover
  split at href
  · exact absurd rfl href
  · next hnot =>
      rw [if_neg hnot] at hcover
      have hend := h.nodes.apart j i (by omega) (page2_mem_node_lt hi) href hrefi
      omega

/-- The system after `InitPhysicMemory` with 256 MB of cleared memory. -/
def bootSystem : System :=
  { mem := { phymem := ((initPhysicMemory 0x10000000).map AllocState.mem).getD ⟨fun _ => {}, 0, 0⟩
             pages := fun _ _ => 0 }
    pgdir := fun _ _ => none
    kernel := ((initPhysicMemory 0x10000000).map AllocState.live).getD [] }

theorem boot_system_started : bootSystem.Started := by
  have hsome : (initPhysicMemory 0x10000000).isSome = true := by decide +kernel
  obtain ⟨a, ha⟩ := Option.isSome_iff_exists.mp hsome
  exact ⟨0x10000000, a, ha, by simp [bootSystem, ha], by simp [bootSystem, ha], fun _ _ _ => rfl⟩

/-- A page is faulted in and unmapped again. -/
theorem faulted_page_unmapped : ∃ s, Run (stepOf step) Guard bootSystem [.fault 0 0x1000] s ∧
    s.FreesMapped 0 0x1000 0x1000 ∧ s.FreesUnused 0 0x1000 0x1000 := by
  have hview : (bootSystem.step (.fault 0 0x1000)).map (fun s => (s.pgdir 0).word 0x1000) =
      some (some 0x1141007) := by decide +kernel
  obtain ⟨s, hstep, hword⟩ := Option.map_eq_some_iff.mp hview
  have hrun : Run (stepOf step) Guard bootSystem [.fault 0 0x1000] s :=
    .cons (fun _ _ _ _ _ _ _ _ _ _ => (by decide : present 0 = false)) hstep (.nil s)
  have hrange : fragment 0x1000 0x1000 = [0x1000] := by decide
  have hstale : s.StaleFree 0 0x1000 0x1000 := by
    intro _ u hu word hword' hpresent
    rw [hrange, List.mem_singleton] at hu
    rw [hu, hword] at hword'
    cases hword'
    cases hpresent
  have huser : InUser 0x1000 0x1000 := by
    rw [InUser, hrange]
    decide
  obtain ⟨hmapped, hunused⟩ := unmapping_frees_mapped_pages boot_system_started hrun 0 0x1000 0x1000
  exact ⟨s, hrun, hmapped.mpr hstale, hunused hstale huser⟩

/-- A task unmaps a page, another task gets it, and the first unmaps its range once more: the
page is freed while it is mapped in the other task. -/
theorem stale_page_freed : ∃ s,
    Run (stepOf step) anyLabel bootSystem
      [.fault 0 0x1000, .unmap 0 0x1000 0x1000, .fault 1 0x1000] s ∧
    (s.pgdir 1).frame 0x1000 = some 0x1141000 ∧ ¬ s.FreesMapped 0 0x1000 0x1000 ∧
      ¬ s.FreesUnused 0 0x1000 0x1000 := by
  let ops : List Op := [.fault 0 0x1000, .unmap 0 0x1000 0x1000, .fault 1 0x1000]
  let view : System → List (Option Nat) := fun s =>
    let t := s.step (.unmap 0 0x1000 0x1000)
    [(s.pgdir 0).frame 0x1000, (s.pgdir 1).frame 0x1000, (s.mem.phymem.memNodeTable 321).reference,
      t.map fun t => (t.mem.phymem.memNodeTable 321).reference,
      t.bind fun t => (t.pgdir 1).frame 0x1000,
      t.bind fun t => t.mem.phymem.page2MemNode 0x1141000]
  obtain ⟨_, s, hstart, hrun, hview⟩ := exists_run_all step (some bootSystem) ops view
    (v := [none, some 0x1141000, some 1, some 0, some 0x1141000, some 321]) (by decide +kernel)
  cases hstart
  obtain ⟨t, hstep⟩ : ∃ t, s.step (.unmap 0 0x1000 0x1000) = some t := ⟨_, rfl⟩
  simp only [view, hstep, Option.map_some, Option.bind_some, List.cons.injEq, and_true,
    Option.some.injEq] at hview
  obtain ⟨hframe, hother, href, hfreed, hother', hindex'⟩ := hview
  have hfree : s.Frees t 321 := ⟨by omega, hfreed⟩
  refine ⟨s, hrun, hother, ?_, ?_⟩
  · intro h
    obtain ⟨u, hu, page, hmapped, -⟩ := h t hstep 321 hfree
    rw [show fragment 0x1000 0x1000 = [0x1000] by decide, List.mem_singleton] at hu
    rw [hu, hframe] at hmapped
    cases hmapped
  · intro h
    exact (h t hstep 321 hfree).1 (.page 1 1) ⟨by decide, 0x1141000, hother', hindex'⟩

end System

end XBook.Paging
