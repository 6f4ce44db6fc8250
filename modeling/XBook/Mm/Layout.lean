import XBook.Mm.DirectMap
import XBook.Mm.Memcache
import XBook.Mm.PhymemDisjoint

/-!
# The layout of physical memory

`InitPhysicMemory` computes the number of nodes, the boot memory and the direct map from the RAM
size. The nodes begin at `NORMAL_MEM_ADDR` and are as many as RAM has pages, so the last 16 MB of
them lie behind the end of RAM; `layout_unsound` says that this is so for every RAM size, and which
requests are served by pages that are there.
-/

namespace XBook.Paging

open Transition

/-- The boot memory after `InitPhysicMemory` has allocated the node table. -/
def bootMem (memSize : Nat) : BootMem :=
  let sizes := memSizes memSize
  (bootMemAlloc (initBootMem (wrap (pageOffset + normalMemAddr))
    (wrap (pageOffset + wrap (normalMemAddr + sizes.1))))
    (wrap (wrap (sizes.1 + sizes.2) / pageSize * sizeofMemNode))).1

/-- The numbers of pages that `CreateMemGroup` and `MemGroupInit` ask for. -/
def slabCounts : List Nat :=
  1 :: (cacheSizes.filter (1024 ≤ ·)).map fun size => objectPages (cacheObjectNumber size) size

/-- The pages lie in RAM, behind the memory that is not allocated by pages. -/
def InRam (memSize : Nat) (b : PageBlock) : Prop :=
  normalMemAddr ≤ b.page ∧ b.page + b.count * pageSize ≤ memSize

/-- The pages do not meet the boot memory. -/
def ApartFromBoot (memSize : Nat) (b : PageBlock) : Prop :=
  b.page + b.count * pageSize ≤ normalMemAddr ∨
    normalMemAddr + bootMemSize (bootMem memSize) ≤ b.page

/-- The kernel reaches the pages through `Phy2Vir`. -/
def Reached (memSize : Nat) (b : PageBlock) : Prop :=
  normalMemAddr ≤ b.page ∧ ∀ address, b.page ≤ address → address < b.page + b.count * pageSize →
    DirectMapped (memSizes memSize).1 address

/-- The boot memory is never freed. -/
def keepsBoot (_ : AllocState) (op : PageOp) : Prop := op ≠ .free normalMemAddr

/-- `AllocPages` can return the range after some calls of the allocator. -/
def Returned (s : AllocState) (b : PageBlock) : Prop :=
  ∃ ops t mem, Run (stepOf pageStep) keepsBoot s ops t ∧ 0 < b.count ∧ b.count < 2 ^ 32 ∧
    t.mem.allocPages b.count = some (mem, b.page) ∧ b.page ≠ 0

/-- Every range that `AllocPages` can return lies in RAM and apart from the boot memory, and those
that the slab allocator gets can be reached. -/
structure LayoutSound (memSize : Nat) (s : AllocState) : Prop where
  inRam : ∀ b, Returned s b → InRam memSize b
  apartFromBoot : ∀ b, Returned s b → ApartFromBoot memSize b
  reached : ∀ b, Returned s b → b.count ∈ slabCounts → Reached memSize b

/-- The guard of a run whose allocations all fit and that never frees the boot memory. -/
def layoutGuard (s : AllocState) (op : PageOp) : Prop := pageGuard s op ∧ keepsBoot s op

/-! ## Sizes -/

theorem mem_sizes_cases (memSize : Nat) :
    let n := wrapSub memSize (normalMemAddr + highMemSize + nullMemSize) / 2
    (n ≤ 0x40000000 ∧ memSizes memSize = (n, wrapSub memSize n)) ∨
      (0x40000000 < n ∧ memSizes memSize = (wrapSub n (wrapSub n 0x40000000),
        wrap (wrapSub memSize n + wrapSub n 0x40000000))) := by
  intro n
  unfold memSizes
  simp only
  split
  · next hlarge => exact .inr ⟨hlarge, rfl⟩
  · next hsmall => exact .inl ⟨Nat.not_lt.mp hsmall, rfl⟩

theorem mem_sizes_spec {memSize : Nat} (hword : memSize < 2 ^ 32)
    (hbound : normalMemAddr + highMemSize + nullMemSize < memSize) :
    wrap ((memSizes memSize).1 + (memSizes memSize).2) = memSize ∧
      (memSizes memSize).1 ≤ 0x40000000 ∧ 2 * (memSizes memSize).1 < memSize - normalMemAddr := by
  rcases mem_sizes_cases memSize with ⟨hsmall, heq⟩ | ⟨hlarge, heq⟩
  · rw [heq]
    simp only [wrapSub, wrap, normalMemAddr, highMemSize, nullMemSize] at *
    omega
  · rw [heq]
    simp only [wrapSub, wrap, normalMemAddr, highMemSize, nullMemSize] at *
    omega

/-- The boot memory holds the node table and little more. -/
theorem boot_mem_size_eq {memSize : Nat} (hword : memSize < 2 ^ 32)
    (hbound : normalMemAddr + highMemSize + nullMemSize < memSize) :
    bootMemSize (bootMem memSize) = (memSize / pageSize * sizeofMemNode / 32 + 1) * 32 := by
  have hsum := (mem_sizes_spec hword hbound).1
  have hsize : wrap (memSize / pageSize * sizeofMemNode) = memSize / pageSize * sizeofMemNode ∧
      memSize / pageSize * sizeofMemNode ≤ 20971520 := by
    simp only [wrap, pageSize, sizeofMemNode]
    omega
  rw [bootMem, hsum, hsize.1]
  exact boot_mem_size hsize.2

/-- The pages that boot memory has used. -/
def bootPages (memSize : Nat) : Nat := divRoundUp (bootMemSize (bootMem memSize)) pageSize

theorem boot_pages_spec {memSize : Nat} (hword : memSize < 2 ^ 32)
    (hbound : normalMemAddr + highMemSize + nullMemSize < memSize) :
    0 < bootPages memSize ∧ bootPages memSize < memSize / pageSize ∧
      bootMemSize (bootMem memSize) ≤ bootPages memSize * pageSize ∧
        bootPages memSize ≤ 8192 := by
  rw [bootPages, boot_mem_size_eq hword hbound]
  have hcount : 37888 ≤ memSize / pageSize ∧ memSize / pageSize ≤ 1048576 := by
    simp only [pageSize, normalMemAddr, highMemSize, nullMemSize] at *
    omega
  generalize memSize / pageSize = n at *
  have hbytes : n * sizeofMemNode / 32 ≤ 655360 := by
    simp only [sizeofMemNode]
    omega
  rw [divRoundUp, wrap_of_lt (by simp only [pageSize]; omega)]
  simp only [pageSize, sizeofMemNode] at *
  omega

/-- The allocator, in every run that keeps the boot memory. -/
structure LayoutInv (memSize : Nat) (t : AllocState) : Prop where
  alloc : AllocInv t
  base : t.mem.memNodeBase = normalMemAddr
  count : t.mem.memNodeCount = memSize / pageSize
  boot : ⟨normalMemAddr, bootPages memSize⟩ ∈ t.live

/-! ## Runs -/

variable {memSize : UInt32} {s t : AllocState}

/-- What `AllocPages` returns, when it returns a page: that of the first free node. -/
theorem alloc_pages_first {t : AllocState} (h : AllocInv t) {count page : Nat} {mem : PhysicMemory}
    (halloc : t.mem.allocPages count = some (mem, page)) (hne : page ≠ 0) :
    ∃ i, Span.FirstFree t.spans t.mem.memNodeCount i ∧ wrap (i + count) ≤ t.mem.memNodeCount ∧
      page = t.mem.memNode2Page i := by
  obtain ⟨r, hr, hfound⟩ := get_free_mem_node_spec h.nodes
  simp only [PhysicMemory.allocPages, PhysicMemory.takeMemNode, hr] at halloc
  cases r with
  | none =>
      cases halloc
      exact absurd rfl hne
  | some i =>
      by_cases hguard : wrap (i + count) > t.mem.memNodeCount
      · simp only [hguard, if_true] at halloc
        cases halloc
        exact absurd rfl hne
      · simp only [hguard, if_false] at halloc
        cases halloc
        exact ⟨i, hfound.1, Nat.not_lt.mp hguard, rfl⟩

/-- `InitPhysicMemory` up to `CutUesdMemory`. -/
theorem init_mem_node_table_some {memSize : Nat} (hword : memSize < 2 ^ 32)
    (hbound : normalMemAddr + highMemSize + nullMemSize < memSize) {m : PhysicMemory}
    {usedPages : Nat} (hinit : initMemNodeTable memSize = some (m, usedPages)) :
    m = ⟨fun _ => {}, memSize / pageSize, normalMemAddr⟩ ∧ usedPages = bootPages memSize := by
  have hsum := (mem_sizes_spec hword hbound).1
  rw [initMemNodeTable] at hinit
  obtain ⟨_, _, hpair⟩ := Option.map_eq_some_iff.mp hinit
  obtain ⟨hm, hused⟩ := Prod.mk.inj hpair
  rw [hsum] at hm
  exact ⟨hm.symm, hused.symm⟩

theorem LayoutInv.init (hbound : normalMemAddr + highMemSize + nullMemSize < memSize.toNat)
    (hinit : initPhysicMemory memSize = some s) :
    LayoutInv memSize.toNat s ∧ s.live = [⟨normalMemAddr, bootPages memSize.toNat⟩] := by
  have hinv := init_physic_memory_inv hinit
  obtain ⟨⟨mem, usedPages⟩, htable, halloc⟩ := Option.bind_eq_some_iff.mp hinit
  obtain ⟨rfl, rfl⟩ := init_mem_node_table_some memSize.toNat_lt hbound htable
  obtain ⟨hpos, hlt, -⟩ := boot_pages_spec memSize.toNat_lt hbound
  have hcount : memSize.toNat / pageSize ≤ 1048576 := by
    have := memSize.toNat_lt
    simp only [pageSize]
    omega
  have hempty := alloc_inv_empty (m := ⟨fun _ => {}, memSize.toNat / pageSize, normalMemAddr⟩)
    (fun _ => rfl) hcount
  have hfirst : Span.FirstFree (AllocState.spans ⟨⟨fun _ => {}, memSize.toNat / pageSize,
      normalMemAddr⟩, []⟩) (memSize.toNat / pageSize) 0 :=
    ⟨by omega, by simp [Span.Covers, AllocState.spans], fun j hj => absurd hj (Nat.not_lt_zero j)⟩
  have hword : wrap (0 + bootPages memSize.toNat) = bootPages memSize.toNat := by
    rw [Nat.zero_add]
    exact wrap_of_lt (by omega)
  rcases hempty.alloc_cases halloc with ⟨i, hi, -, -, rfl⟩ | ⟨hfull, -⟩
  · obtain rfl := hi.unique hfirst
    have hpage : PhysicMemory.memNode2Page ⟨fun _ => {}, memSize.toNat / pageSize, normalMemAddr⟩ 0 =
        normalMemAddr := by
      simp [PhysicMemory.memNode2Page, wrap, normalMemAddr]
    exact ⟨⟨hinv, rfl, rfl, by simp [AllocState.marked, hpage]⟩,
      by simp [AllocState.marked, hpage]⟩
  · have := hfull 0 hfirst
    rw [hword] at this
    simp only at this
    omega

theorem alloc_pages_fields {m m' : PhysicMemory} {count page : Nat}
    (h : m.allocPages count = some (m', page)) :
    m'.memNodeBase = m.memNodeBase ∧ m'.memNodeCount = m.memNodeCount := by
  simp only [PhysicMemory.allocPages] at h
  split at h
  · cases h
  · cases h
    exact ⟨rfl, rfl⟩
  · cases h
    exact ⟨rfl, rfl⟩

theorem LayoutInv.step {memSize : Nat} (h : LayoutInv memSize s) {op : PageOp}
    (hguard : layoutGuard s op) (hstep : pageStep s op = some t) : LayoutInv memSize t := by
  have hinv := h.alloc.step hguard.1 hstep
  cases op with
  | alloc count =>
      simp only [pageStep] at hstep
      split at hstep
      · cases hstep
      · obtain ⟨⟨mem, page⟩, halloc, rfl⟩ := Option.map_eq_some_iff.mp hstep
        obtain ⟨hbase, hcount⟩ := alloc_pages_fields halloc
        refine ⟨hinv, hbase.trans h.base, hcount.trans h.count, ?_⟩
        simp only
        split
        · exact List.mem_cons_of_mem _ h.boot
        · exact h.boot
  | free page =>
      simp only [pageStep, AllocState.free] at hstep
      split at hstep
      · cases hstep
        refine ⟨hinv, ?_, ?_, ?_⟩
        · exact (free_pages_base s.mem page).trans h.base
        · exact (free_pages_count s.mem page).trans h.count
        · refine List.mem_filter.mpr ⟨h.boot, ?_⟩
          have hne : normalMemAddr ≠ page := by
            rintro rfl
            exact hguard.2 rfl
          simpa using hne
      · cases hstep

/-- The pages before the first that no live allocation holds are more than the boot memory. -/
theorem LayoutInv.boot_le {memSize : Nat} (h : LayoutInv memSize t) {i : Nat}
    (hi : Span.FirstFree t.spans t.mem.memNodeCount i) : bootPages memSize ≤ i := by
  by_contra hlt
  have hspan : (⟨0, bootPages memSize⟩ : Span) ∈ t.spans := by
    refine List.mem_map.mpr ⟨_, h.boot, ?_⟩
    have hzero : wrapSub normalMemAddr normalMemAddr / pageSize = 0 := by decide
    simp only [PageBlock.span, h.base, hzero]
  exact hi.free ⟨_, hspan, Nat.zero_le _, by simpa [Span.stop] using hlt⟩

theorem alloc_pages_of_free {m : PhysicMemory} {i count : Nat}
    (hfree : m.getFreeMemNode = some (some i)) (hguard : wrap (i + count) ≤ m.memNodeCount) :
    m.allocPages count = some (m.setMemNode i { count := count, reference := 1 },
      m.memNode2Page i) := by
  simp only [PhysicMemory.allocPages, PhysicMemory.takeMemNode, hfree,
    if_neg (Nat.not_lt.mpr hguard)]

theorem mem_node2_page_first {m : PhysicMemory} (hbase : m.memNodeBase = normalMemAddr) {i : Nat}
    (hi : i ≤ 8192) : m.memNode2Page i = normalMemAddr + i * pageSize := by
  rw [PhysicMemory.memNode2Page, hbase]
  simp only [wrap, normalMemAddr, pageSize]
  omega

/-- As many pages as RAM has, behind the first 16 MB, end behind RAM. -/
theorem pages_behind_ram {memSize : Nat} :
    ¬ normalMemAddr + memSize / pageSize * pageSize ≤ memSize := by
  simp only [normalMemAddr, pageSize]
  omega

/-- A request that is served lies in RAM exactly when its pages end with RAM, and is reached
exactly when they end with the direct map. -/
theorem LayoutInv.served {memSize : Nat} (h : LayoutInv memSize t) (hword : memSize < 2 ^ 32)
    (hbound : normalMemAddr + highMemSize + nullMemSize < memSize) {b : PageBlock}
    {mem : PhysicMemory} (hpos : 0 < b.count) (hfits : AllocFits t b.count)
    (halloc : t.mem.allocPages b.count = some (mem, b.page)) (hne : b.page ≠ 0) :
    ∃ i, Span.FirstFree t.spans t.mem.memNodeCount i ∧
      (InRam memSize b ↔ i + b.count ≤ (memSize - normalMemAddr) / pageSize) ∧
      ApartFromBoot memSize b ∧
      (Reached memSize b ↔ i + b.count ≤ (memSizes memSize).1 / pageSize) := by
  obtain ⟨i, hi, hguard, hpage⟩ := alloc_pages_first h.alloc halloc hne
  refine ⟨i, hi, ?_⟩
  obtain ⟨-, hnormal, hhalf⟩ := mem_sizes_spec hword hbound
  obtain ⟨-, -, hboot, -⟩ := boot_pages_spec hword hbound
  have hle := h.boot_le hi
  rw [wrap_of_lt (hfits i hi).1, h.count] at hguard
  rw [PhysicMemory.memNode2Page, h.base] at hpage
  obtain ⟨page, count⟩ := b
  simp only at hpos hguard hpage
  simp only [InRam, ApartFromBoot, Reached]
  generalize bootMemSize (bootMem memSize) = used at *
  generalize bootPages memSize = boot at *
  generalize (memSizes memSize).1 = normal at *
  -- the page's address can leave the address space, but then lies below the nodes
  have hcases : page = normalMemAddr + i * pageSize ∨
      (page < normalMemAddr ∧ page + 2 ^ 32 = normalMemAddr + i * pageSize) := by
    rw [hpage]
    simp only [wrap, normalMemAddr, pageSize] at *
    omega
  refine ⟨?_, ?_, ?_⟩
  · rcases hcases with hplain | ⟨hlow, hwrapped⟩
    · rw [hplain]
      simp only [normalMemAddr, pageSize] at *
      omega
    · simp only [normalMemAddr, pageSize] at *
      omega
  · have hused : used ≤ i * pageSize := Nat.le_trans hboot (Nat.mul_le_mul_right _ hle)
    rcases hcases with hplain | ⟨hlow, hwrapped⟩
    · right
      omega
    · left
      simp only [normalMemAddr, pageSize] at *
      omega
  · constructor
    · rintro ⟨hlow, hmapped⟩
      have hplain := hcases.resolve_right (fun hwrapped => by omega)
      by_contra hmore
      -- the first page behind the direct map, or the first of the range
      have hlast := (hmapped (normalMemAddr + max i (normal / pageSize) * pageSize) (by
        rw [hplain]
        exact Nat.add_le_add_left (Nat.mul_le_mul_right _ (Nat.le_max_left _ _)) _) (by
        rw [hplain, Nat.add_assoc, ← Nat.add_mul]
        refine Nat.add_lt_add_left (Nat.mul_lt_mul_of_pos_right ?_ (by decide)) _
        omega)).lt hnormal
      have hmax : normal / pageSize * pageSize ≤ max i (normal / pageSize) * pageSize :=
        Nat.mul_le_mul_right _ (Nat.le_max_right _ _)
      omega
    · intro hfit
      have hend : (i + count) * pageSize ≤ normal / pageSize * pageSize :=
        Nat.mul_le_mul_right _ hfit
      rw [Nat.add_mul] at hend
      have hplain : page = normalMemAddr + i * pageSize := by
        refine hcases.resolve_right fun hwrapped => ?_
        simp only [normalMemAddr, pageSize] at *
        omega
      refine ⟨by omega, fun address hlow hhigh => ?_⟩
      rw [direct_mapped_iff hnormal (by omega)]
      omega

/-- For every RAM size, `AllocPages` can return pages that are not there. A request is served by
pages in RAM exactly when they end with RAM, and by pages that the kernel reaches exactly when they
end with the direct map; the boot memory is never given away. -/
theorem layout_unsound (hbound : normalMemAddr + highMemSize + nullMemSize < memSize.toNat)
    (hinit : initPhysicMemory memSize = some s) :
    ¬ LayoutSound memSize.toNat s ∧
    ∀ ops t b mem, Run (stepOf pageStep) layoutGuard s ops t → 0 < b.count → AllocFits t b.count →
      t.mem.allocPages b.count = some (mem, b.page) → b.page ≠ 0 →
        ∃ i, Span.FirstFree t.spans t.mem.memNodeCount i ∧
          (InRam memSize.toNat b ↔ i + b.count ≤ (memSize.toNat - normalMemAddr) / pageSize) ∧
          ApartFromBoot memSize.toNat b ∧
          (Reached memSize.toNat b ↔ i + b.count ≤ (memSizes memSize.toNat).1 / pageSize) := by
  obtain ⟨hlayout, hlive⟩ := LayoutInv.init hbound hinit
  refine ⟨?_, ?_⟩
  · intro hsound
    obtain ⟨hpos, hlt, -, hsmall⟩ := boot_pages_spec memSize.toNat_lt hbound
    -- all pages that are left, in one request
    have hspans : s.spans = [⟨0, bootPages memSize.toNat⟩] := by
      have hzero : wrapSub normalMemAddr normalMemAddr / pageSize = 0 := by decide
      simp [AllocState.spans, hlive, PageBlock.span, hlayout.base, hzero]
    have hfirst : Span.FirstFree s.spans s.mem.memNodeCount (bootPages memSize.toNat) := by
      rw [hspans, hlayout.count]
      refine ⟨hlt, by simp [Span.Covers, Span.Holds, Span.stop], ?_⟩
      intro j hj
      exact ⟨_, List.mem_singleton_self _, Nat.zero_le _, by simpa [Span.stop] using hj⟩
    obtain ⟨r, hr, hfound⟩ := get_free_mem_node_spec hlayout.alloc.nodes
    cases r with
    | none => exact hfirst.free (hfound _ hfirst.lt)
    | some i =>
        obtain rfl := hfound.1.unique hfirst
        have hsum : bootPages memSize.toNat +
            (memSize.toNat / pageSize - bootPages memSize.toNat) = memSize.toNat / pageSize :=
          Nat.add_sub_cancel' (Nat.le_of_lt hlt)
        have hcount : memSize.toNat / pageSize ≤ 1048575 := by
          have := memSize.toNat_lt
          simp only [pageSize]
          omega
        have hpage := mem_node2_page_first hlayout.base hsmall
        have hfits : wrap (bootPages memSize.toNat +
            (memSize.toNat / pageSize - bootPages memSize.toNat)) ≤ s.mem.memNodeCount := by
          rw [hsum, hlayout.count]
          exact Nat.mod_le _ _
        have halloc := alloc_pages_of_free hr hfits
        rw [hpage] at halloc
        have hreturned : Returned s ⟨normalMemAddr + bootPages memSize.toNat * pageSize,
            memSize.toNat / pageSize - bootPages memSize.toNat⟩ :=
          ⟨[], s, _, .nil s, Nat.sub_pos_of_lt hlt, by simp only; omega, halloc,
            Nat.ne_of_gt (Nat.add_pos_left (by decide) _)⟩
        -- they end 16 MB behind the last page of RAM
        have hend := (hsound.inRam _ hreturned).2
        simp only [Nat.add_assoc, ← Nat.add_mul, hsum] at hend
        exact pages_behind_ram hend
  · intro ops t b mem hrun hpos hfits halloc hne
    have hinv : LayoutInv memSize.toNat t :=
      hrun.invariant (fun _ _ _ h hguard hstep => h.step hguard hstep) hlayout
    exact hinv.served memSize.toNat_lt hbound hpos hfits halloc hne

theorem layout_256m_unsound : ∃ s, initPhysicMemory 0x10000000 = some s ∧
    ¬ LayoutSound (0x10000000 : UInt32).toNat s := by
  have hsome : (initPhysicMemory 0x10000000).isSome = true := by decide +kernel
  obtain ⟨s, hs⟩ := Option.isSome_iff_exists.mp hsome
  exact ⟨s, hs, (layout_unsound (by decide) hs).1⟩

/-- With 256 MB, the pages from `0x1141000` on that `AllocPages` returns end at `0x11000000`. -/
theorem pages_behind_256m : ∃ s t mem, initPhysicMemory 0x10000000 = some s ∧
    Run (stepOf pageStep) keepsBoot s [] t ∧ t.mem.allocPages 65215 = some (mem, 0x1141000) ∧
    ¬ InRam 0x10000000 ⟨0x1141000, 65215⟩ := by
  have hview : ((initPhysicMemory 0x10000000).bind fun s =>
      (s.mem.allocPages 65215).map (·.2)) = some 0x1141000 := by decide +kernel
  obtain ⟨s, hs, hpage⟩ := Option.bind_eq_some_iff.mp hview
  obtain ⟨⟨mem, page⟩, halloc, rfl⟩ := Option.map_eq_some_iff.mp hpage
  exact ⟨s, s, mem, hs, .nil s, halloc, by simp [InRam, pageSize]⟩

end XBook.Paging
