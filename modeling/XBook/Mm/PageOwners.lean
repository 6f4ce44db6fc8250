import XBook.Mm.PageTable
import XBook.Mm.PhymemDisjoint

/-!
# Who holds a physical page

The page tables of every task over one page allocator. A page belongs to the page table entry
that maps it, to the directory entry of the page table that lies in it, or to the kernel, which
keeps a list of its own allocations. `OwnerInv` says that every owner holds a marked node and that
no node has two owners. A page that a function has just allocated belongs to the kernel until it
is linked, so that the functions of `PageTable` are chains of four small steps: `OwnerInv.alloc`,
`OwnerInv.addTable`, `OwnerInv.link` and `OwnerInv.drop`.
-/

namespace XBook.Paging

/-- The page tables of the tasks, the allocator, and the allocations that the kernel holds. -/
structure System where
  mem : PageMemory
  pgdir : Nat → Directory
  kernel : List PageBlock

/-- What can hold a page: a page table entry, a directory entry, or an allocation. -/
inductive Owner where
  | page (pid vpn : Nat)
  | table (pid region : Nat)
  | block (b : PageBlock)
  deriving DecidableEq

/-- The number of pages that an owner holds. -/
def Owner.count : Owner → Nat
  | .page _ _ => 1
  | .table _ _ => 1
  | .block b => b.count

/-- The number of pages in the user half of an address space. -/
abbrev userPages : Nat := 524288

/-- The number of directory entries for the user half. -/
abbrev userRegions : Nat := 512

/-- The owner holds the allocation whose node is the one at an index. -/
def System.Owns (s : System) : Owner → Nat → Prop
  | .page pid vpn, i =>
      vpn < userPages ∧ ∃ page, (s.pgdir pid).frame (vpn * pageSize) = some page ∧
        s.mem.phymem.page2MemNode page = some i
  | .table pid region, i =>
      region < userRegions ∧ ∃ table, s.pgdir pid region = some table ∧
        s.mem.phymem.page2MemNode table.page = some i
  | .block b, i => b ∈ s.kernel ∧ s.mem.phymem.page2MemNode b.page = some i

/-! ## The node table -/

/-- The allocations in a node table lie in it, one after the other. -/
structure NodesApart (m : PhysicMemory) : Prop where
  bound : m.memNodeCount ≤ 1048576
  aligned : m.memNodeBase % pageSize = 0
  inTable : ∀ i < m.memNodeCount, (m.memNodeTable i).reference ≠ 0 →
    0 < (m.memNodeTable i).count ∧ i + (m.memNodeTable i).count ≤ m.memNodeCount
  apart : ∀ i j, i < j → j < m.memNodeCount → (m.memNodeTable i).reference ≠ 0 →
    (m.memNodeTable j).reference ≠ 0 → i + (m.memNodeTable i).count ≤ j

/-- The node table's allocations, as spans. -/
def nodeSpans (m : PhysicMemory) : List Span :=
  ((List.range m.memNodeCount).filter fun i => (m.memNodeTable i).reference ≠ 0).map
    fun i => ⟨i, (m.memNodeTable i).count⟩

theorem mem_node_spans {m : PhysicMemory} {sp : Span} :
    sp ∈ nodeSpans m ↔ sp.start < m.memNodeCount ∧ (m.memNodeTable sp.start).reference ≠ 0 ∧
      sp.len = (m.memNodeTable sp.start).count := by
  simp only [nodeSpans, List.mem_map, List.mem_filter, List.mem_range, decide_eq_true_eq]
  constructor
  · rintro ⟨i, ⟨hi, href⟩, rfl⟩
    exact ⟨hi, href, rfl⟩
  · intro ⟨hi, href, hlen⟩
    exact ⟨sp.start, ⟨hi, href⟩, by rw [← hlen]⟩

theorem NodesApart.nodeInv {m : PhysicMemory} (h : NodesApart m) : NodeInv m (nodeSpans m) := by
  refine ⟨h.bound, ?_, ?_, ?_, ?_, ?_⟩
  · refine List.pairwise_map.mpr ?_
    refine (List.Pairwise.filter _ List.pairwise_lt_range).imp_of_mem ?_
    intro i j hi hj hij
    simp only [List.mem_filter, List.mem_range, decide_eq_true_eq] at hi hj
    exact .inl (h.apart i j hij hj.1 hi.2 hj.2)
  · intro sp hsp
    obtain ⟨-, href, hlen⟩ := mem_node_spans.mp hsp
    exact ⟨href, hlen.symm⟩
  · intro sp hsp
    obtain ⟨hi, href, hlen⟩ := mem_node_spans.mp hsp
    rw [hlen]
    exact (h.inTable _ hi href).1
  · intro sp hsp
    obtain ⟨hi, href, hlen⟩ := mem_node_spans.mp hsp
    rw [Span.stop, hlen]
    exact (h.inTable _ hi href).2
  · intro i hi href
    exact ⟨⟨i, (m.memNodeTable i).count⟩, mem_node_spans.mpr ⟨hi, href, rfl⟩, rfl⟩

theorem NodeInv.nodesApart {m : PhysicMemory} {spans : List Span} (h : NodeInv m spans)
    (haligned : m.memNodeBase % pageSize = 0) : NodesApart m := by
  refine ⟨h.bound, haligned, ?_, ?_⟩
  · intro i hi href
    obtain ⟨sp, hsp, rfl⟩ := h.heads i hi href
    rw [(h.marked sp hsp).2]
    exact ⟨h.pos sp hsp, h.inTable sp hsp⟩
  · intro i j hij hj hrefi hrefj
    obtain ⟨sp, hsp, rfl⟩ := h.heads i (by omega) hrefi
    obtain ⟨sp', hsp', rfl⟩ := h.heads j hj hrefj
    rw [(h.marked sp hsp).2]
    have hne : sp ≠ sp' := fun heq => by simp [heq] at hij
    have hpos := h.pos sp' hsp'
    rcases h.apart.forall hsp hsp' hne with happart | happart
    · exact happart
    · unfold Span.stop at happart
      omega

/-- The pages that `AllocPages(count)` takes do not leave the 32-bit range, and belong to no
other allocation. -/
def NodesFit (m : PhysicMemory) (count : Nat) : Prop :=
  ∀ i, m.takeMemNode count = some (some i) → i + count < 2 ^ 32 ∧
    ∀ j < m.memNodeCount, i < j → (m.memNodeTable j).reference ≠ 0 → i + count ≤ j

instance (m : PhysicMemory) (count : Nat) : Decidable (NodesFit m count) :=
  match htake : m.takeMemNode count with
  | some (some i) =>
      decidable_of_iff (i + count < 2 ^ 32 ∧
          ∀ j < m.memNodeCount, i < j → (m.memNodeTable j).reference ≠ 0 → i + count ≤ j)
        (by simp [NodesFit, htake])
  | some none => .isTrue (by simp [NodesFit, htake])
  | none => .isTrue (by simp [NodesFit, htake])

/-- What `AllocPages` does. -/
theorem alloc_pages_cases {m m' : PhysicMemory} {count page : Nat}
    (h : m.allocPages count = some (m', page)) :
    (m' = m ∧ page = 0) ∨ ∃ i, m.takeMemNode count = some (some i) ∧
      m' = m.setMemNode i { count := count, reference := 1 } ∧ page = m.memNode2Page i := by
  simp only [PhysicMemory.allocPages] at h
  split at h
  · cases h
  · cases h
    exact .inl ⟨rfl, rfl⟩
  · next i htake =>
      cases h
      exact .inr ⟨i, htake, rfl, rfl⟩

/-- The node that is taken is free. -/
theorem take_mem_node_free {m : PhysicMemory} {count i : Nat}
    (h : m.takeMemNode count = some (some i)) : m.getFreeMemNode = some (some i) ∧
      i < m.memNodeCount ∧ (m.memNodeTable i).reference = 0 ∧
      wrap (i + count) ≤ m.memNodeCount := by
  simp only [PhysicMemory.takeMemNode] at h
  split at h
  · cases h
  · cases h
  · next index hfound =>
      split at h
      · cases h
      · next hle =>
          cases h
          obtain ⟨hlt, hfree⟩ := PhysicMemory.free_mem_node_from_free hfound
          exact ⟨hfound, hlt, hfree, Nat.not_lt.mp hle⟩

theorem NodesApart.fits_one {m : PhysicMemory} (h : NodesApart m) : NodesFit m 1 := by
  intro i htake
  have hlt := (take_mem_node_free htake).2.1
  have := h.bound
  exact ⟨by omega, fun j _ hij _ => by omega⟩

/-- Taking pages that belong to no other allocation keeps the allocations apart. -/
theorem NodesApart.take {m : PhysicMemory} (h : NodesApart m) {count i : Nat} (hpos : 0 < count)
    (hfits : NodesFit m count) (htake : m.takeMemNode count = some (some i)) :
    NodesApart (m.setMemNode i { count := count, reference := 1 }) := by
  obtain ⟨hfound, hlt, -, hguard⟩ := take_mem_node_free htake
  obtain ⟨hword, hclear⟩ := hfits i htake
  obtain ⟨r, hr, hspec⟩ := get_free_mem_node_spec h.nodeInv
  rw [hfound] at hr
  cases hr
  rw [wrap_of_lt hword] at hguard
  have hbefore : ∀ j < i, (m.memNodeTable j).reference ≠ 0 →
      j + (m.memNodeTable j).count ≤ i := by
    intro j hj href
    have hspan : (⟨j, (m.memNodeTable j).count⟩ : Span) ∈ nodeSpans m :=
      mem_node_spans.mpr ⟨by simp only; omega, href, rfl⟩
    rcases hspec.2 _ hspan with hle | hle
    · exact hle
    · exact absurd hle (by simp only; omega)
  refine ⟨h.bound, h.aligned, ?_, ?_⟩
  · intro j hj href
    by_cases hji : j = i
    · subst hji
      simpa using ⟨hpos, hguard⟩
    · simp only [PhysicMemory.setMemNode_memNodeTable, Function.update_of_ne hji,
        PhysicMemory.setMemNode_memNodeCount] at href hj ⊢
      exact h.inTable j hj href
  · intro j k hjk hk hrefj hrefk
    simp only [PhysicMemory.setMemNode_memNodeTable, PhysicMemory.setMemNode_memNodeCount,
      Function.update_apply] at hk hrefj hrefk ⊢
    by_cases hji : j = i
    · have hki : k ≠ i := by omega
      simp only [if_neg hki] at hrefk
      simpa [hji] using hclear k hk (by omega) hrefk
    · simp only [if_neg hji] at hrefj ⊢
      by_cases hki : k = i
      · rw [hki]
        exact hbefore j (by omega) hrefj
      · simp only [if_neg hki] at hrefk
        exact h.apart j k hjk hk hrefj hrefk

/-- Clearing nodes keeps the allocations apart. -/
theorem NodesApart.clear {m m' : PhysicMemory} (h : NodesApart m)
    (hcount : m'.memNodeCount = m.memNodeCount) (hbase : m'.memNodeBase = m.memNodeBase)
    (hnode : ∀ i, (m'.memNodeTable i).reference ≠ 0 → m'.memNodeTable i = m.memNodeTable i) :
    NodesApart m' := by
  refine ⟨by rw [hcount]; exact h.bound, by rw [hbase]; exact h.aligned, ?_, ?_⟩
  · intro i hi href
    have hsame := hnode i href
    rw [hcount] at hi ⊢
    rw [hsame] at href ⊢
    exact h.inTable i hi href
  · intro i j hij hj hrefi hrefj
    have hsamei := hnode i hrefi
    have hsamej := hnode j hrefj
    rw [hcount] at hj
    rw [hsamei] at hrefi ⊢
    rw [hsamej] at hrefj
    exact h.apart i j hij hj hrefi hrefj

/-- Page addresses are page-aligned. -/
theorem page_aligned {m : PhysicMemory} (h : m.memNodeBase % pageSize = 0) (i : Nat) :
    m.memNode2Page i % pageSize = 0 := by
  simp only [PhysicMemory.memNode2Page, wrap, pageSize] at *
  omega

/-! ## The invariant -/

/-- Every owner holds a marked node, and no node has two owners. -/
structure OwnerInv (s : System) : Prop where
  nodes : NodesApart s.mem.phymem
  marked : ∀ o i, s.Owns o i → i < s.mem.phymem.memNodeCount ∧
    (s.mem.phymem.memNodeTable i).reference ≠ 0 ∧ (s.mem.phymem.memNodeTable i).count = o.count
  unique : ∀ o o' i, s.Owns o i → s.Owns o' i → o = o'
  blocks : ∀ b ∈ s.kernel, ∃ i, s.mem.phymem.page2MemNode b.page = some i
  nodup : s.kernel.Nodup

theorem page2_mem_node_lt {m : PhysicMemory} {page i : Nat} (h : m.page2MemNode page = some i) :
    i < m.memNodeCount := by
  simp only [PhysicMemory.page2MemNode] at h
  split at h
  · next hlt =>
      cases h
      exact hlt
  · cases h

/-- Owners can only go away when nothing else changes. -/
theorem OwnerInv.mono {s t : System} (h : OwnerInv s) (hmem : t.mem.phymem = s.mem.phymem)
    (howns : ∀ o i, t.Owns o i → s.Owns o i) (hkernel : t.kernel.Sublist s.kernel) :
    OwnerInv t := by
  refine ⟨by rw [hmem]; exact h.nodes, ?_, ?_, ?_, h.nodup.sublist hkernel⟩
  · intro o i ho
    rw [hmem]
    exact h.marked o i (howns o i ho)
  · intro o o' i ho ho'
    exact h.unique o o' i (howns o i ho) (howns o' i ho')
  · intro b hb
    rw [hmem]
    exact h.blocks b (hkernel.subset hb)

/-- The kernel allocates pages. -/
theorem OwnerInv.alloc {m m' : PageMemory} {pgdir : Nat → Directory} {kernel : List PageBlock}
    {count page : Nat} (h : OwnerInv ⟨m, pgdir, kernel⟩) (hpos : 0 < count)
    (hfits : NodesFit m.phymem count) (halloc : m.phymem.allocPages count = some (m'.phymem, page))
    (hpage : page ≠ 0) :
    OwnerInv ⟨m', pgdir, ⟨page, count⟩ :: kernel⟩ ∧ page % pageSize = 0 := by
  rcases alloc_pages_cases halloc with ⟨-, hzero⟩ | ⟨i, htake, hmem, rfl⟩
  · exact absurd hzero hpage
  obtain ⟨-, hlt, hfree, -⟩ := take_mem_node_free htake
  have hindex : ∀ page, m'.phymem.page2MemNode page = m.phymem.page2MemNode page := by
    intro page
    rw [hmem]
    rfl
  have hself : m.phymem.page2MemNode (m.phymem.memNode2Page i) = some i :=
    page2_mem_node_page h.nodes.bound hlt
  -- an owner of another node is an owner from before
  have hold : ∀ o j, System.Owns ⟨m', pgdir, ⟨m.phymem.memNode2Page i, count⟩ :: kernel⟩ o j →
      (o = .block ⟨m.phymem.memNode2Page i, count⟩ ∧ j = i) ∨
        System.Owns ⟨m, pgdir, kernel⟩ o j := by
    intro o j ho
    cases o with
    | page pid vpn => exact .inr (by simpa only [System.Owns, hindex] using ho)
    | table pid region => exact .inr (by simpa only [System.Owns, hindex] using ho)
    | block b =>
        simp only [System.Owns, hindex] at ho
        rcases List.mem_cons.mp ho.1 with rfl | hb
        · rw [hself] at ho
          exact .inl ⟨rfl, (Option.some.inj ho.2).symm⟩
        · exact .inr ⟨hb, ho.2⟩
  have hne : ∀ o j, System.Owns ⟨m, pgdir, kernel⟩ o j → j ≠ i := by
    rintro o j ho rfl
    exact (h.marked o j ho).2.1 hfree
  refine ⟨⟨by rw [hmem]; exact h.nodes.take hpos hfits htake, ?_, ?_, ?_, ?_⟩,
    page_aligned h.nodes.aligned i⟩
  · intro o j ho
    rcases hold o j ho with ⟨rfl, rfl⟩ | ho
    · simp [hmem, hlt, Owner.count]
    · simpa [hmem, Function.update_of_ne (hne o j ho)] using h.marked o j ho
  · intro o o' j ho ho'
    rcases hold o j ho with ⟨rfl, hj⟩ | hpast
    · rcases hold o' j ho' with ⟨rfl, -⟩ | hpast'
      · rfl
      · exact absurd hj (hne o' j hpast')
    · rcases hold o' j ho' with ⟨-, hj⟩ | hpast'
      · exact absurd hj (hne o j hpast)
      · exact h.unique o o' j hpast hpast'
  · intro b hb
    rcases List.mem_cons.mp hb with rfl | hb
    · exact ⟨i, by rw [hindex]; exact hself⟩
    · obtain ⟨j, hj⟩ := h.blocks b hb
      exact ⟨j, by rw [hindex]; exact hj⟩
  · refine List.nodup_cons.mpr ⟨?_, h.nodup⟩
    intro hb
    exact hne (.block _) i ⟨hb, hself⟩ rfl

/-- An allocation that fails leaves the node table alone, or marks a node that nobody holds. -/
theorem OwnerInv.alloc_failed {m m' : PageMemory} {pgdir : Nat → Directory}
    {kernel : List PageBlock} {count : Nat} (h : OwnerInv ⟨m, pgdir, kernel⟩) (hpos : 0 < count)
    (hfits : NodesFit m.phymem count) (halloc : m.phymem.allocPages count = some (m'.phymem, 0)) :
    OwnerInv ⟨m', pgdir, kernel⟩ := by
  rcases alloc_pages_cases halloc with ⟨hmem, -⟩ | ⟨i, htake, hmem, -⟩
  · exact h.mono hmem (fun o j ho => by cases o <;> simpa only [System.Owns, hmem] using ho)
      (List.Sublist.refl _)
  · obtain ⟨-, -, hfree, -⟩ := take_mem_node_free htake
    have hindex : ∀ page, m'.phymem.page2MemNode page = m.phymem.page2MemNode page := by
      intro page
      rw [hmem]
      rfl
    have hold : ∀ o j, System.Owns ⟨m', pgdir, kernel⟩ o j →
        System.Owns ⟨m, pgdir, kernel⟩ o j := by
      intro o j ho
      cases o <;> simpa only [System.Owns, hindex] using ho
    refine ⟨by rw [hmem]; exact h.nodes.take hpos hfits htake, ?_, ?_, ?_, h.nodup⟩
    · intro o j ho
      have hne : j ≠ i := by
        rintro rfl
        exact (h.marked o j (hold o j ho)).2.1 hfree
      simpa [hmem, Function.update_of_ne hne] using h.marked o j (hold o j ho)
    · intro o o' j ho ho'
      exact h.unique o o' j (hold o j ho) (hold o' j ho')
    · intro b hb
      obtain ⟨j, hj⟩ := h.blocks b hb
      exact ⟨j, by rw [hindex]; exact hj⟩

/-- The kernel forgets an allocation. -/
theorem OwnerInv.drop {m : PageMemory} {pgdir : Nat → Directory} {kernel : List PageBlock}
    {b : PageBlock} (h : OwnerInv ⟨m, pgdir, b :: kernel⟩) : OwnerInv ⟨m, pgdir, kernel⟩ := by
  refine h.mono rfl ?_ (List.sublist_cons_self b kernel)
  intro o i ho
  cases o with
  | page pid vpn => exact ho
  | table pid region => exact ho
  | block b' => exact ⟨List.mem_cons_of_mem b ho.1, ho.2⟩

/-- The memory contents do not matter. -/
theorem OwnerInv.pages {m m' : PageMemory} {pgdir : Nat → Directory} {kernel : List PageBlock}
    (h : OwnerInv ⟨m, pgdir, kernel⟩) (hmem : m'.phymem = m.phymem) :
    OwnerInv ⟨m', pgdir, kernel⟩ :=
  h.mono hmem (fun o i ho => by cases o <;> simpa only [System.Owns, hmem] using ho)
    (List.Sublist.refl _)

/-- An allocation of one page passes from the kernel to an entry of a task's page tables. `o` is
the entry, and every other owner was there before. -/
theorem OwnerInv.give {m : PageMemory} {pgdir pgdir' : Nat → Directory} {kernel : List PageBlock}
    {page : Nat} {o : Owner} (h : OwnerInv ⟨m, pgdir, ⟨page, 1⟩ :: kernel⟩) (hcount : o.count = 1)
    (howner : ∀ o' i, System.Owns ⟨m, pgdir', kernel⟩ o' i →
      (o' = o ∧ m.phymem.page2MemNode page = some i) ∨
        (o' ≠ o ∧ System.Owns ⟨m, pgdir, kernel⟩ o' i)) :
    OwnerInv ⟨m, pgdir', kernel⟩ := by
  have hkernel : ∀ o' i, System.Owns ⟨m, pgdir, kernel⟩ o' i →
      System.Owns ⟨m, pgdir, ⟨page, 1⟩ :: kernel⟩ o' i ∧ o' ≠ .block ⟨page, 1⟩ := by
    intro o' i ho
    cases o' with
    | page pid vpn => exact ⟨ho, by simp⟩
    | table pid region => exact ⟨ho, by simp⟩
    | block b =>
        refine ⟨⟨List.mem_cons_of_mem _ ho.1, ho.2⟩, ?_⟩
        intro heq
        cases heq
        exact (List.nodup_cons.mp h.nodup).1 ho.1
  have hblock : ∀ i, m.phymem.page2MemNode page = some i →
      System.Owns ⟨m, pgdir, ⟨page, 1⟩ :: kernel⟩ (.block ⟨page, 1⟩) i :=
    fun i hi => ⟨List.mem_cons_self, hi⟩
  refine ⟨h.nodes, ?_, ?_, fun b hb => h.blocks b (List.mem_cons_of_mem _ hb),
    (List.nodup_cons.mp h.nodup).2⟩
  · intro o' i ho
    rcases howner o' i ho with ⟨rfl, hi⟩ | ⟨-, ho⟩
    · rw [hcount]
      exact h.marked _ i (hblock i hi)
    · exact h.marked o' i (hkernel o' i ho).1
  · intro o₁ o₂ i h₁ h₂
    rcases howner o₁ i h₁ with ⟨rfl, hi⟩ | ⟨hne₁, h₁⟩
    · rcases howner o₂ i h₂ with ⟨rfl, -⟩ | ⟨-, h₂⟩
      · rfl
      · obtain ⟨h₂, hne⟩ := hkernel o₂ i h₂
        exact absurd (h.unique _ _ i h₂ (hblock i hi)) hne
    · obtain ⟨h₁, hne⟩ := hkernel o₁ i h₁
      rcases howner o₂ i h₂ with ⟨rfl, hi⟩ | ⟨-, h₂⟩
      · exact absurd (h.unique _ _ i h₁ (hblock i hi)) hne
      · exact h.unique _ _ i h₁ (hkernel o₂ i h₂).1

end XBook.Paging
