import XBook.Mm.Fork
import XBook.Mm.VmspaceInvariant

/-!
# When a fork is faithful

The child of a fork has the memory of its parent exactly when the parent's spaces are mapped
user-writable throughout, nothing else is mapped, and the memory of the child's manager happens to
hold the bounds of the parent's. `Grows` is what allocation and copying leave alone, and `CopyInv`
what the pages copied so far have become.
-/

namespace XBook

/-! ## Free pages -/

namespace PageMemory

/-- A page that `AllocPages(1)` may take. -/
def Free (m : PageMemory) (page : Nat) : Prop :=
  ∃ i < m.phymem.memNodeCount, (m.phymem.memNodeTable i).reference = 0 ∧
    m.phymem.memNode2Page i = page

/-- The node table describes pages of a 32-bit address space. -/
def Fits (m : PageMemory) : Prop :=
  m.phymem.memNodeBase + m.phymem.memNodeCount * pageSize ≤ 2 ^ 32

/-- Pages are only taken, and only pages that were free are written. -/
structure Grows (m m' : PageMemory) : Prop where
  count : m'.phymem.memNodeCount = m.phymem.memNodeCount
  base : m'.phymem.memNodeBase = m.phymem.memNodeBase
  free : ∀ page, m'.Free page → m.Free page
  pages : ∀ page, m'.Free page ∨ ¬ m.Free page → m'.pages page = m.pages page

theorem Grows.refl (m : PageMemory) : Grows m m := ⟨rfl, rfl, fun _ h => h, fun _ _ => rfl⟩

theorem Grows.trans {m m' m'' : PageMemory} (h : Grows m m') (h' : Grows m' m'') :
    Grows m m'' := by
  refine ⟨h'.count.trans h.count, h'.base.trans h.base, fun page hfree => h.free _ (h'.free _ hfree),
    ?_⟩
  intro page hpage
  rcases hpage with hfree | htaken
  · exact (h'.pages page (.inl hfree)).trans (h.pages page (.inl (h'.free page hfree)))
  · exact (h'.pages page (.inr fun hfree => htaken (h.free page hfree))).trans
      (h.pages page (.inr htaken))

theorem Grows.fits {m m' : PageMemory} (h : Grows m m') (hfits : m.Fits) : m'.Fits := by
  rw [Fits, h.count, h.base]
  exact hfits

end PageMemory

/-- What the walk over the node table ends at is free. -/
theorem PhysicMemory.free_mem_node_from_free {m : PhysicMemory} {fuel i index : Nat}
    (h : m.freeMemNodeFrom fuel i = some (some index)) :
    index < m.memNodeCount ∧ (m.memNodeTable index).reference = 0 := by
  induction fuel generalizing i with
  | zero => cases h
  | succ fuel ih =>
      simp only [PhysicMemory.freeMemNodeFrom] at h
      split at h
      · next hlt =>
          split at h
          · next hfree =>
              cases h
              exact ⟨hlt, hfree⟩
          · exact ih h
      · cases h

/-- The nodes of the table describe different pages. -/
theorem PageMemory.Fits.mem_node2_page {m : PageMemory} (h : m.Fits) {i j : Nat}
    (hi : i < m.phymem.memNodeCount) (hj : j < m.phymem.memNodeCount)
    (heq : m.phymem.memNode2Page i = m.phymem.memNode2Page j) : i = j := by
  simp only [Fits, pageSize] at h
  simp only [PhysicMemory.memNode2Page, wrap, pageSize] at heq
  omega

/-- `AllocPage` takes a free page, which is then no longer free. -/
theorem PageMemory.alloc_page_spec {m m' : PageMemory} {page : Nat} (hfits : m.Fits)
    (h : m.allocPage = some (m', page)) :
    m.Grows m' ∧ m'.pages = m.pages ∧ (page ≠ 0 → m.Free page ∧ ¬ m'.Free page) := by
  obtain ⟨⟨phymem, page'⟩, halloc, heq⟩ := Option.map_eq_some_iff.mp h
  cases heq
  simp only [PhysicMemory.allocPages, PhysicMemory.takeMemNode] at halloc
  cases hfound : m.phymem.getFreeMemNode with
  | none => simp [hfound] at halloc
  | some found =>
      cases found with
      | none =>
          simp only [hfound, Option.some.injEq, Prod.mk.injEq] at halloc
          obtain ⟨rfl, rfl⟩ := halloc
          exact ⟨.refl m, rfl, fun hne => absurd rfl hne⟩
      | some index =>
          obtain ⟨hlt, hfree⟩ := PhysicMemory.free_mem_node_from_free hfound
          by_cases hwrap : wrap (index + 1) > m.phymem.memNodeCount
          · simp only [hfound, if_pos hwrap, Option.some.injEq, Prod.mk.injEq] at halloc
            obtain ⟨rfl, rfl⟩ := halloc
            exact ⟨.refl m, rfl, fun hne => absurd rfl hne⟩
          · simp only [hfound, if_neg hwrap, Option.some.injEq, Prod.mk.injEq] at halloc
            obtain ⟨rfl, rfl⟩ := halloc
            have hnode : ∀ i, ((m.phymem.setMemNode index
                { count := 1, reference := 1 }).memNodeTable i).reference = 0 →
                  i ≠ index ∧ (m.phymem.memNodeTable i).reference = 0 := by
              intro i hzero
              rw [PhysicMemory.setMemNode_memNodeTable, Function.update_apply] at hzero
              split at hzero
              · cases hzero
              · next hne => exact ⟨hne, hzero⟩
            refine ⟨⟨rfl, rfl, ?_, fun _ _ => rfl⟩, rfl, fun _ => ⟨⟨index, hlt, hfree, rfl⟩, ?_⟩⟩
            · intro page hpage
              obtain ⟨i, hi, hzero, hpage⟩ := hpage
              exact ⟨i, hi, (hnode i hzero).2, hpage⟩
            · intro hpage
              obtain ⟨i, hi, hzero, hpage⟩ := hpage
              exact (hnode i hzero).1 (hfits.mem_node2_page hi hlt hpage)

/-! ## Page tables -/

/-- Two addresses in one page. -/
def SamePage (u v : Nat) : Prop := u / pageSize = v / pageSize

instance (u v : Nat) : Decidable (SamePage u v) := inferInstanceAs (Decidable (_ = _))

theorem same_page_iff {u v : Nat} :
    SamePage u v ↔ pdeIdx u = pdeIdx v ∧ pteIdx u = pteIdx v := by
  simp only [SamePage, pdeIdx, pteIdx, pageSize]
  omega

theorem PageDir.lookup_congr (dir : PageDir) {u v : Nat} (h : SamePage u v) :
    dir.lookup u = dir.lookup v := by
  obtain ⟨hpde, hpte⟩ := same_page_iff.mp h
  rw [PageDir.lookup, PageDir.lookup, hpde, hpte]

/-- What the directory shows at the address of a stored entry. -/
theorem PageDir.lookup_fill_same (dir : PageDir) (table : PageTable) {u v : Nat} (entry : PageEntry)
    (h : SamePage u v) : (dir.fill table v entry).lookup u =
      some ⟨entry.page, table.user && entry.user, table.write && entry.write⟩ := by
  rw [PageDir.lookup_congr _ h]
  simp [PageDir.lookup, PageDir.fill]

/-- A stored entry changes no other page, when its table has the other entries that the directory
had. -/
theorem PageDir.lookup_fill_other (dir : PageDir) {table : PageTable} {u v : Nat}
    (entry : PageEntry)
    (htable : dir (pdeIdx v) = some table ∨
      dir (pdeIdx v) = none ∧ ∀ k, table.entries k = none)
    (h : ¬ SamePage u v) : (dir.fill table v entry).lookup u = dir.lookup u := by
  by_cases hpde : pdeIdx u = pdeIdx v
  · have hpte : pteIdx u ≠ pteIdx v := fun hpte => h (same_page_iff.mpr ⟨hpde, hpte⟩)
    rcases htable with hold | ⟨hnone, hclean⟩
    · simp [PageDir.lookup, PageDir.fill, hpde, hold, hpte]
    · simp [PageDir.lookup, PageDir.fill, hpde, hnone, hpte, hclean]
  · simp [PageDir.lookup, PageDir.fill, hpde]

/-- All tables of the directory are user-writable. -/
def PageDir.Open (dir : PageDir) : Prop :=
  ∀ region table, dir region = some table → table.user = true ∧ table.write = true

theorem PageDir.Open.fill {dir : PageDir} (h : dir.Open) {table : PageTable}
    (htable : table.user = true ∧ table.write = true) (v : Nat) (entry : PageEntry) :
    (dir.fill table v entry).Open := by
  intro region table' hregion
  rw [PageDir.fill, Function.update_apply] at hregion
  split at hregion
  · cases hregion
    exact htable
  · exact h region table' hregion

/-- The outcomes of `PageTableAdd` for a page that users may write. -/
theorem PageMemory.page_table_add_cases {m m' : PageMemory} {dir dir' : PageDir} {v p : Nat}
    {ret : Int} (h : m.pageTableAdd dir v p true true = some (m', dir', ret)) :
    (∃ table, dir (pdeIdx v) = some table ∧ m' = m ∧ dir' = dir.fill table v ⟨p, true, true⟩) ∨
      ∃ page, m.allocPage = some (m', page) ∧ dir (pdeIdx v) = none ∧
        (dir' = dir ∨ page ≠ 0 ∧ dir' = dir.fill
          ⟨true, true, fun index => entryOfWord (m'.pages page index)⟩ v ⟨p, true, true⟩) := by
  unfold PageMemory.pageTableAdd at h
  cases htable : dir (pdeIdx v) with
  | some table =>
      simp only [htable, Option.some.injEq, Prod.mk.injEq] at h
      exact .inl ⟨table, rfl, h.1.symm, h.2.1.symm⟩
  | none =>
      simp only [htable] at h
      obtain ⟨⟨m'', page⟩, halloc, heq⟩ := Option.map_eq_some_iff.mp h
      by_cases hpage : page = 0
      · simp only [hpage, if_true, Prod.mk.injEq] at heq
        obtain ⟨rfl, rfl, -⟩ := heq
        exact .inr ⟨page, halloc, rfl, .inl rfl⟩
      · simp only [hpage, if_false, Prod.mk.injEq] at heq
        obtain ⟨rfl, rfl, -⟩ := heq
        exact .inr ⟨page, halloc, rfl, .inr ⟨hpage, rfl⟩⟩

/-! ## Copying pages -/

/-- A page of the child that the user may write. -/
def Copied (dir : PageDir) (v : Nat) : Prop :=
  ∃ entry, dir.lookup v = some entry ∧ entry.user = true ∧ entry.write = true

section

variable {spaceMap : List VMSpace} {s t : ForkState} {v : Nat}

/-- The steps of the loop body: the page is read, a page is taken, and the child's table has an
entry for it. -/
theorem copy_page_cases (h : copyPage spaceMap s v = some t) :
    ∃ m parentDir buf m' p ret entry,
      s.mem.readPage spaceMap s.parentDir v = some (m, parentDir, buf) ∧
      (∃ m₁, m.allocPage = some (m₁, p) ∧ p ≠ 0 ∧
        m₁.pageTableAdd s.childDir v p true true = some (m', t.childDir, ret)) ∧
      t.childDir.lookup v = some entry ∧ t.parentDir = parentDir ∧
      t.mem = { m' with pages := Function.update m'.pages entry.page buf } := by
  obtain ⟨⟨m, parentDir, buf⟩, hread, h⟩ := Option.bind_eq_some_iff.mp h
  obtain ⟨⟨m₁, p⟩, halloc, h⟩ := Option.bind_eq_some_iff.mp h
  by_cases hp : p = 0
  · simp only [hp, if_true] at h
    cases h
  · simp only [hp, if_false] at h
    obtain ⟨⟨m', childDir, ret⟩, hadd, h⟩ := Option.bind_eq_some_iff.mp h
    obtain ⟨entry, hentry, heq⟩ := Option.map_eq_some_iff.mp h
    cases heq
    exact ⟨m, parentDir, buf, m', p, ret, entry, hread, ⟨m₁, halloc, hp, hadd⟩, hentry, rfl, rfl⟩

theorem copied_fill (dir : PageDir) {table : PageTable}
    (htable : table.user = true ∧ table.write = true) (p : Nat) {u : Nat} (h : SamePage u v) :
    Copied (dir.fill table v ⟨p, true, true⟩) u := by
  refine ⟨_, PageDir.lookup_fill_same dir table _ h, ?_, ?_⟩
  · simp [htable]
  · simp [htable]

/-- One page is copied, and the pages copied before stay. -/
theorem copy_page_copied (hopen : s.childDir.Open) (h : copyPage spaceMap s v = some t) :
    t.childDir.Open ∧ Copied t.childDir v ∧ ∀ u, Copied s.childDir u → Copied t.childDir u := by
  obtain ⟨-, -, -, m', p, ret, entry, -, ⟨m₁, -, -, hadd⟩, hentry, -, -⟩ := copy_page_cases h
  rcases PageMemory.page_table_add_cases hadd with ⟨table, htable, -, hdir⟩ | ⟨page, -, hnone, hdir⟩
  · have htables := hopen _ _ htable
    rw [hdir]
    refine ⟨hopen.fill htables _ _, copied_fill _ htables p rfl, ?_⟩
    intro u hu
    by_cases hsame : SamePage u v
    · exact copied_fill _ htables p hsame
    · rwa [Copied, PageDir.lookup_fill_other _ _ (.inl htable) hsame]
  · rcases hdir with hdir | ⟨-, hdir⟩
    · rw [hdir, PageDir.lookup, hnone] at hentry
      cases hentry
    · rw [hdir]
      refine ⟨hopen.fill ⟨rfl, rfl⟩ _ _, copied_fill _ ⟨rfl, rfl⟩ p rfl, ?_⟩
      intro u hu
      obtain ⟨entry, hlookup, hrights⟩ := hu
      have hpde : pdeIdx u ≠ pdeIdx v := by
        intro hpde
        rw [PageDir.lookup, hpde, hnone] at hlookup
        cases hlookup
      refine ⟨entry, ?_, hrights⟩
      rw [← hlookup]
      simp [PageDir.lookup, PageDir.fill, hpde]

/-- All the pages of a loop are copied. -/
theorem copy_pages_copied {addrs : List Nat} (hopen : s.childDir.Open)
    (h : copyPages spaceMap addrs s = some t) :
    (∀ u ∈ addrs, Copied t.childDir u) ∧ ∀ u, Copied s.childDir u → Copied t.childDir u := by
  induction addrs generalizing s with
  | nil =>
      cases h
      exact ⟨nofun, fun _ hu => hu⟩
  | cons v rest ih =>
      obtain ⟨r, hone, hrest⟩ := Option.bind_eq_some_iff.mp h
      obtain ⟨hr, hself, hkept⟩ := copy_page_copied hopen hone
      obtain ⟨hall, hkept'⟩ := ih hr hrest
      refine ⟨?_, fun u hu => hkept' u (hkept u hu)⟩
      intro u hu
      rcases List.mem_cons.mp hu with heq | hmem
      · rw [heq]
        exact hkept' v hself
      · exact hall u hmem

end

/-! ## The invariant of the copy -/

/-- The parent's pages are not free. -/
def Held (m : PageMemory) (dir : PageDir) : Prop :=
  ∀ v entry, dir.lookup v = some entry → ¬ m.Free entry.page

/-- A free page that becomes a page table has no entries. -/
def FreePagesClean (m : PageMemory) : Prop :=
  ∀ page, m.Free page → ∀ k, entryOfWord (m.pages page k) = none

/-- The copy of the pages at `addrs`, begun in `s₀`. -/
structure CopyInv (s₀ s : ForkState) (addrs : List Nat) : Prop where
  grows : s₀.mem.Grows s.mem
  parent : s.parentDir = s₀.parentDir
  tables : s.childDir.Open
  copied : ∀ v ∈ addrs, ∃ entry entry₀, s.childDir.lookup v = some entry ∧
    s₀.parentDir.lookup v = some entry₀ ∧ entry.user = true ∧ entry.write = true ∧
    s₀.mem.Free entry.page ∧ ¬ s.mem.Free entry.page ∧
    s.mem.pages entry.page = s₀.mem.pages entry₀.page
  rest : ∀ v, (∀ u ∈ addrs, ¬ SamePage v u) → s.childDir.lookup v = none

section

variable {spaceMap : List VMSpace} {s₀ s t : ForkState} {addrs : List Nat} {v : Nat}

/-- Adding an entry for a page that was free gives the child that page at the address, and no
other page. -/
theorem CopyInv.table_add (h : CopyInv s₀ s addrs) (hfits : s₀.mem.Fits)
    (hclean : FreePagesClean s₀.mem) {m m' : PageMemory} {dir : PageDir} {p : Nat} {ret : Int}
    {entry : PageEntry} (hm : s.mem.Grows m)
    (hadd : m.pageTableAdd s.childDir v p true true = some (m', dir, ret))
    (hentry : dir.lookup v = some entry) :
    m.Grows m' ∧ m'.pages = m.pages ∧ dir.Open ∧ entry = ⟨p, true, true⟩ ∧
      ∀ u, ¬ SamePage u v → dir.lookup u = s.childDir.lookup u := by
  rcases PageMemory.page_table_add_cases hadd with ⟨table, htable, rfl, rfl⟩ |
    ⟨page, halloc, hnone, hdir⟩
  · have htables := h.tables _ _ htable
    rw [PageDir.lookup_fill_same _ _ _ rfl, htables.1, htables.2] at hentry
    cases hentry
    exact ⟨.refl m', rfl, h.tables.fill htables _ _, rfl,
      fun u hu => PageDir.lookup_fill_other _ _ (.inl htable) hu⟩
  · obtain ⟨hgrows, hpages, hfree⟩ := PageMemory.alloc_page_spec
      (hm.fits (h.grows.fits hfits)) halloc
    rcases hdir with rfl | ⟨hpage, rfl⟩
    · rw [PageDir.lookup, hnone] at hentry
      cases hentry
    · rw [PageDir.lookup_fill_same _ _ _ rfl] at hentry
      cases hentry
      have hentries : ∀ k, entryOfWord (m'.pages page k) = none := by
        intro k
        have hback := h.grows.trans hm
        rw [hpages, hback.pages page (.inl (hfree hpage).1)]
        exact hclean page (hback.free page (hfree hpage).1) k
      exact ⟨hgrows, hpages, h.tables.fill ⟨rfl, rfl⟩ _ _, rfl,
        fun u hu => PageDir.lookup_fill_other _ _ (.inr ⟨hnone, hentries⟩) hu⟩

/-- One more page of the parent is copied. -/
theorem CopyInv.step (h : CopyInv s₀ s addrs) (hfits : s₀.mem.Fits)
    (hclean : FreePagesClean s₀.mem) (hheld : Held s₀.mem s₀.parentDir) {entry₀ : PageEntry}
    (hmapped : s₀.parentDir.lookup v = some entry₀) (hstep : copyPage spaceMap s v = some t) :
    CopyInv s₀ t (v :: addrs) := by
  obtain ⟨m, parentDir, buf, m', p, ret, entry, hread, ⟨m₁, halloc, hp, hadd⟩, hentry, hparent,
    hmem⟩ := copy_page_cases hstep
  -- the page of the parent is there, so that reading it changes nothing
  rw [PageMemory.readPage, h.parent, hmapped] at hread
  cases hread
  obtain ⟨hgrows₁, hpages₁, hfree⟩ := PageMemory.alloc_page_spec (h.grows.fits hfits) halloc
  obtain ⟨hfreep, htaken⟩ := hfree hp
  obtain ⟨hgrows₂, hpages₂, hopen, hentryp, hother⟩ :=
    h.table_add hfits hclean hgrows₁ hadd hentry
  cases hentryp
  have hbuf : s.mem.pages entry₀.page = s₀.mem.pages entry₀.page :=
    h.grows.pages _ (.inr (hheld v entry₀ hmapped))
  have htaken' : ¬ t.mem.Free p := by
    rw [hmem]
    exact fun hfree => htaken (hgrows₂.free p hfree)
  have hpages : ∀ page, page ≠ p → t.mem.pages page = s.mem.pages page := by
    intro page hne
    rw [hmem]
    show Function.update m'.pages p _ page = _
    rw [Function.update_of_ne hne, hpages₂, hpages₁]
  have hself : t.mem.pages p = s₀.mem.pages entry₀.page := by
    rw [hmem, ← hbuf]
    exact Function.update_self ..
  have hgrows : s.mem.Grows t.mem := by
    have hgrows := hgrows₁.trans hgrows₂
    refine ⟨?_, ?_, ?_, ?_⟩
    · rw [hmem]
      exact hgrows.count
    · rw [hmem]
      exact hgrows.base
    · rw [hmem]
      exact hgrows.free
    · intro page hpage
      refine hpages page ?_
      intro heq
      subst heq
      exact hpage.elim htaken' fun hnot => hnot hfreep
  refine ⟨h.grows.trans hgrows, hparent.trans rfl, hopen, ?_, ?_⟩
  · intro u hu
    by_cases hsame : SamePage u v
    · refine ⟨⟨p, true, true⟩, entry₀, ?_, ?_, rfl, rfl, h.grows.free p hfreep, htaken', hself⟩
      · rw [PageDir.lookup_congr _ hsame]
        exact hentry
      · rw [PageDir.lookup_congr _ hsame]
        exact hmapped
    · have hmem' : u ∈ addrs := by
        rcases List.mem_cons.mp hu with heq | hmem'
        · exact absurd (heq ▸ rfl) hsame
        · exact hmem'
      obtain ⟨e, e₀, he, he₀, huser, hwrite, hfreshe, htakene, hpagee⟩ := h.copied u hmem'
      have hne : e.page ≠ p := fun heq => htakene (heq ▸ hfreep)
      refine ⟨e, e₀, ?_, he₀, huser, hwrite, hfreshe, fun hfree => htakene (hgrows.free _ hfree), ?_⟩
      · rw [hother u hsame]
        exact he
      · rw [hpages _ hne]
        exact hpagee
  · intro u hu
    rw [hother u (hu v List.mem_cons_self)]
    exact h.rest u fun w hw => hu w (List.mem_cons_of_mem _ hw)

/-- The copy of all pages of a loop. -/
theorem CopyInv.run (h : CopyInv s₀ s addrs) (hfits : s₀.mem.Fits)
    (hclean : FreePagesClean s₀.mem) (hheld : Held s₀.mem s₀.parentDir) {more : List Nat}
    (hmapped : ∀ v ∈ more, ∃ entry₀, s₀.parentDir.lookup v = some entry₀)
    (hrun : copyPages spaceMap more s = some t) :
    ∃ all, CopyInv s₀ t all ∧ ∀ v, v ∈ all ↔ v ∈ addrs ∨ v ∈ more := by
  induction more generalizing s addrs with
  | nil =>
      cases hrun
      exact ⟨addrs, h, by simp⟩
  | cons v rest ih =>
      obtain ⟨r, hone, hrest⟩ := Option.bind_eq_some_iff.mp hrun
      obtain ⟨entry₀, hentry₀⟩ := hmapped v List.mem_cons_self
      obtain ⟨all, hall, hmem⟩ := ih (h.step hfits hclean hheld hentry₀ hone)
        (fun u hu => hmapped u (List.mem_cons_of_mem _ hu)) hrest
      refine ⟨all, hall, ?_⟩
      intro u
      rw [hmem u, List.mem_cons, List.mem_cons]
      tauto

end

/-! ## Forks -/

/-- What a task sees at an address: the page and the rights to it. -/
def userView (m : PageMemory) (dir : PageDir) (v : Nat) : Option ((Nat → Nat) × Bool × Bool) :=
  (dir.lookup v).map fun entry => (m.pages entry.page, entry.user, entry.write)

/-- The same heap, stack, code and argument bounds. -/
def SameBounds (a b : MemoryBounds) : Prop :=
  a.brkStart = b.brkStart ∧ a.brk = b.brk ∧ a.stackStart = b.stackStart ∧
    a.codeStart = b.codeStart ∧ a.codeEnd = b.codeEnd ∧ a.argStart = b.argStart ∧
    a.argEnd = b.argEnd

instance (a b : MemoryBounds) : Decidable (SameBounds a b) := inferInstanceAs (Decidable (_ ∧ _))

/-- The child has the spaces, the bytes, the rights and the bounds of the parent, on pages of its
own, and the parent is as before. -/
structure Faithful (parent : TaskMemory) (mem : PageMemory) (f : Forked) : Prop where
  spaces : f.child.spaceMap = parent.spaceMap
  bytes : ∀ v < userVmSize, userView f.mem f.child.pgdir v = userView mem parent.pgdir v
  bounds : SameBounds f.child.bounds parent.bounds
  apart : ∀ u < userVmSize, ∀ v < userVmSize, ∀ entry entry' : PageEntry,
    f.parent.pgdir.lookup u = some entry → f.child.pgdir.lookup v = some entry' →
      entry.page ≠ entry'.page
  parentSpaces : f.parent.spaceMap = parent.spaceMap
  parentBytes : ∀ v < userVmSize,
    userView f.mem f.parent.pgdir v = userView mem parent.pgdir v
  parentBounds : f.parent.bounds = parent.bounds

/-- Every page of the parent's spaces is mapped, for the user to write, no other page is mapped,
and the memory of the child's manager holds the parent's bounds. -/
structure ForkFits (parent : TaskMemory) (block : MemoryBounds) : Prop where
  bounds : SameBounds block parent.bounds
  inside : ∀ space ∈ parent.spaceMap, ∀ v, space.Holds v → Copied parent.pgdir v
  outside : ∀ v < userVmSize, (∀ space ∈ parent.spaceMap, ¬ space.Holds v) →
    parent.pgdir.lookup v = none

/-- The inner loop visits the pages of the space. -/
theorem VMSpace.Valid.holds_iff {space : VMSpace} (h : space.Valid) (v : Nat) :
    space.Holds v ↔ ∃ u ∈ spacePages space, SamePage v u := by
  have hstart := h.startAligned
  have hstop := h.stopAligned
  simp only [VMSpace.Holds, spacePages, SamePage, List.mem_map, List.mem_range, pageSize] at *
  constructor
  · intro ⟨hle, hlt⟩
    exact ⟨_, ⟨(v - space.start) / 4096, by omega, rfl⟩, by omega⟩
  · intro ⟨u, ⟨i, hi, hu⟩, hsame⟩
    omega

theorem copy_vm_space_eq {kmallocs : Nat} {spaces copy : List VMSpace}
    (h : copyVMSpace kmallocs spaces = some copy) : copy = spaces := by
  induction spaces generalizing kmallocs copy with
  | nil =>
      rw [copyVMSpace] at h
      exact (Option.some.inj h).symm
  | cons p rest ih =>
      cases kmallocs with
      | zero => cases h
      | succ kmallocs =>
          obtain ⟨tail, htail, heq⟩ := Option.map_eq_some_iff.mp h
          rw [← heq, ih htail]

section

variable {parent : TaskMemory} {mem : PageMemory} {block : MemoryBounds} {kmallocs : Nat}
  {f : Forked}

/-- The parts of a fork. -/
theorem sys_fork_cases (h : sysFork parent mem block kmallocs = some f) :
    ∃ s, copyPages parent.spaceMap (parent.spaceMap.flatMap spacePages)
        ⟨mem, parent.pgdir, fun _ => none⟩ = some s ∧
      f = ⟨{ parent with pgdir := s.parentDir }, ⟨parent.spaceMap, block, s.childDir⟩, s.mem⟩ := by
  obtain ⟨s, hcopy, h⟩ := Option.bind_eq_some_iff.mp h
  obtain ⟨spaceMap, hspaces, heq⟩ := Option.map_eq_some_iff.mp h
  rw [copy_vm_space_eq hspaces] at heq
  exact ⟨s, hcopy, heq.symm⟩

theorem copy_inv_start (s₀ : ForkState) (hempty : ∀ region, s₀.childDir region = none) :
    CopyInv s₀ s₀ [] := by
  refine ⟨.refl _, rfl, ?_, nofun, ?_⟩
  · intro region table htable
    rw [hempty] at htable
    cases htable
  · intro v _
    rw [PageDir.lookup, hempty]
    rfl

/-- The pages that the fork copies are those of the spaces. -/
theorem mem_pages_iff (hwf : WellFormed parent.spaceMap) (v : Nat) :
    (∃ u ∈ parent.spaceMap.flatMap spacePages, SamePage v u) ↔
      ∃ space ∈ parent.spaceMap, space.Holds v := by
  constructor
  · intro ⟨u, hu, hsame⟩
    obtain ⟨space, hspace, hpage⟩ := List.mem_flatMap.mp hu
    exact ⟨space, hspace, ((hwf.valid space hspace).holds_iff v).mpr ⟨u, hpage, hsame⟩⟩
  · intro ⟨space, hspace, hholds⟩
    obtain ⟨u, hpage, hsame⟩ := ((hwf.valid space hspace).holds_iff v).mp hholds
    exact ⟨u, List.mem_flatMap.mpr ⟨space, hspace, hpage⟩, hsame⟩

/-- In the child every page of a space is mapped for the user to write. -/
theorem child_copied (hwf : WellFormed parent.spaceMap)
    (hfork : sysFork parent mem block kmallocs = some f) {space : VMSpace}
    (hspace : space ∈ parent.spaceMap) {v : Nat} (hholds : space.Holds v) :
    Copied f.child.pgdir v := by
  obtain ⟨s, hcopy, rfl⟩ := sys_fork_cases hfork
  obtain ⟨u, hu, hsame⟩ := (mem_pages_iff hwf v).mpr ⟨space, hspace, hholds⟩
  have hopen : PageDir.Open fun _ => none := by
    intro region table htable
    cases htable
  obtain ⟨hcopied, -⟩ := copy_pages_copied hopen hcopy
  rw [Copied, PageDir.lookup_congr _ hsame]
  exact hcopied u hu

/-- When all pages of the spaces are mapped, the fork copies each to a page that was free. -/
theorem fork_copy_inv (hwf : WellFormed parent.spaceMap) (hfits : mem.Fits)
    (hheld : Held mem parent.pgdir) (hclean : FreePagesClean mem)
    (hfork : sysFork parent mem block kmallocs = some f)
    (hinside : ∀ space ∈ parent.spaceMap, ∀ v, space.Holds v → Copied parent.pgdir v) :
    ∃ s all, f = ⟨{ parent with pgdir := s.parentDir },
        ⟨parent.spaceMap, block, s.childDir⟩, s.mem⟩ ∧
      CopyInv ⟨mem, parent.pgdir, fun _ => none⟩ s all ∧
      ∀ v, v ∈ all ↔ v ∈ parent.spaceMap.flatMap spacePages := by
  obtain ⟨s, hcopy, hf⟩ := sys_fork_cases hfork
  obtain ⟨all, hinv, hall⟩ := (copy_inv_start ⟨mem, parent.pgdir, fun _ => none⟩
    (fun _ => rfl)).run hfits hclean hheld (by
      intro v hv
      obtain ⟨space, hspace, hholds⟩ := (mem_pages_iff hwf v).mp ⟨v, hv, rfl⟩
      obtain ⟨entry, hentry, -⟩ := hinside space hspace v hholds
      exact ⟨entry, hentry⟩) hcopy
  exact ⟨s, all, hf, hinv, by simpa using hall⟩

/-- A faithful fork had a parent that fits. -/
theorem Faithful.fits (h : Faithful parent mem f) (hwf : WellFormed parent.spaceMap)
    (huser : ∀ space ∈ parent.spaceMap, space.stop ≤ userVmSize) (hfits : mem.Fits)
    (hheld : Held mem parent.pgdir) (hclean : FreePagesClean mem)
    (hfork : sysFork parent mem block kmallocs = some f) : ForkFits parent block := by
  have hinside : ∀ space ∈ parent.spaceMap, ∀ v, space.Holds v → Copied parent.pgdir v := by
    intro space hspace v hholds
    obtain ⟨entry, hentry, hentryUser, hentryWrite⟩ := child_copied hwf hfork hspace hholds
    have hbytes := h.bytes v (Nat.lt_of_lt_of_le hholds.2 (huser space hspace))
    rw [userView, hentry, Option.map_some, hentryUser, hentryWrite] at hbytes
    obtain ⟨entry', hentry', heq⟩ := Option.map_eq_some_iff.mp hbytes.symm
    obtain ⟨-, hrights⟩ := Prod.mk.inj heq
    obtain ⟨huser', hwrite'⟩ := Prod.mk.inj hrights
    exact ⟨entry', hentry', huser', hwrite'⟩
  obtain ⟨s, all, rfl, hinv, hall⟩ := fork_copy_inv hwf hfits hheld hclean hfork hinside
  refine ⟨h.bounds, hinside, ?_⟩
  intro v hv hnot
  have hnone : s.childDir.lookup v = none := by
    refine hinv.rest v ?_
    intro u hu hsame
    obtain ⟨space, hspace, hholds⟩ := (mem_pages_iff hwf v).mp ⟨u, (hall u).mp hu, hsame⟩
    exact hnot space hspace hholds
  have hbytes := h.bytes v hv
  simp only [userView, hnone, Option.map_none] at hbytes
  exact Option.map_eq_none_iff.mp hbytes.symm

/-- The fork of a parent that fits is faithful. -/
theorem ForkFits.faithful (h : ForkFits parent block) (hwf : WellFormed parent.spaceMap)
    (hfits : mem.Fits) (hheld : Held mem parent.pgdir) (hclean : FreePagesClean mem)
    (hfork : sysFork parent mem block kmallocs = some f) : Faithful parent mem f := by
  obtain ⟨s, all, rfl, hinv, hall⟩ := fork_copy_inv hwf hfits hheld hclean hfork h.inside
  have hchild : ∀ v, (∃ space ∈ parent.spaceMap, space.Holds v) →
      ∃ entry entry₀, s.childDir.lookup v = some entry ∧ parent.pgdir.lookup v = some entry₀ ∧
        entry.user = true ∧ entry.write = true ∧ mem.Free entry.page ∧
        s.mem.pages entry.page = mem.pages entry₀.page := by
    intro v hv
    obtain ⟨u, hu, hsame⟩ := (mem_pages_iff hwf v).mpr hv
    obtain ⟨entry, entry₀, hentry, hentry₀, huser, hwrite, hfree, -, hpage⟩ :=
      hinv.copied u ((hall u).mpr hu)
    refine ⟨entry, entry₀, ?_, ?_, huser, hwrite, hfree, hpage⟩
    · rw [PageDir.lookup_congr _ hsame]
      exact hentry
    · rw [PageDir.lookup_congr _ hsame]
      exact hentry₀
  have hnone : ∀ v, ¬ (∃ space ∈ parent.spaceMap, space.Holds v) →
      s.childDir.lookup v = none := by
    intro v hv
    refine hinv.rest v ?_
    intro u hu hsame
    exact hv ((mem_pages_iff hwf v).mp ⟨u, (hall u).mp hu, hsame⟩)
  refine ⟨rfl, ?_, h.bounds, ?_, rfl, ?_, rfl⟩
  · intro v hv
    by_cases hin : ∃ space ∈ parent.spaceMap, space.Holds v
    · obtain ⟨space, hspace, hholds⟩ := hin
      obtain ⟨entry, entry₀, hentry, hentry₀, huser, hwrite, -, hpage⟩ :=
        hchild v ⟨space, hspace, hholds⟩
      obtain ⟨entry₁, hentry₁, huser₁, hwrite₁⟩ := h.inside space hspace v hholds
      rw [hentry₀] at hentry₁
      cases hentry₁
      simp only [userView, hentry, hentry₀, Option.map_some, hpage, huser, hwrite, huser₁,
        hwrite₁]
    · have hparent := h.outside v hv fun space hspace hholds => hin ⟨space, hspace, hholds⟩
      simp only [userView, hnone v hin, hparent, Option.map_none]
  · intro u _ v _ entry entry' hentry hentry' heq
    by_cases hin : ∃ space ∈ parent.spaceMap, space.Holds v
    · obtain ⟨entry₁, -, hentry₁, -, -, -, hfree, -⟩ := hchild v hin
      simp only at hentry hentry'
      rw [hentry'] at hentry₁
      cases hentry₁
      rw [hinv.parent] at hentry
      exact hheld u entry hentry (heq ▸ hfree)
    · simp only [hnone v hin] at hentry'
      cases hentry'
  · intro v _
    simp only [userView, hinv.parent]
    cases hentry : parent.pgdir.lookup v with
    | none => rfl
    | some entry =>
        simp only [Option.map_some]
        rw [hinv.grows.pages entry.page (.inr (hheld v entry hentry))]

end

/-- Four pages, of which the first is taken. -/
def fourPages : PageMemory :=
  { phymem :=
      { memNodeTable := fun i => if i = 0 then { count := 1, reference := 1 } else {}
        memNodeCount := 4
        memNodeBase := 0x1000000 }
    pages := fun page index => if page = 0x1000000 then index else 0 }

/-- A task with one page of code, and its heap behind it. -/
def onePageTask : TaskMemory :=
  { spaceMap := [⟨0x1000, 0x2000, 5, 0⟩]
    bounds :=
      { codeStart := 0x1000, codeEnd := 0x1800, dataStart := 0, dataEnd := 0
        brkStart := 0x2000, brk := 0x2000, stackStart := 0, argStart := 0, argEnd := 0
        envStart := 0, envEnd := 0 }
    pgdir := fun region =>
      if region = 0 then
        some ⟨true, true, fun index => if index = 1 then some ⟨0x1000000, true, true⟩ else none⟩
      else none }

theorem one_page_lookup {v : Nat} {entry : PageEntry}
    (h : onePageTask.pgdir.lookup v = some entry) :
    SamePage v 0x1000 ∧ entry = ⟨0x1000000, true, true⟩ := by
  simp only [PageDir.lookup, onePageTask] at h
  by_cases hpde : pdeIdx v = 0
  · by_cases hpte : pteIdx v = 1
    · simp only [hpde, hpte, if_true, Option.bind_some, Option.map_some] at h
      exact ⟨same_page_iff.mpr ⟨hpde, hpte⟩, (Option.some.inj h).symm⟩
    · simp [hpde, hpte] at h
  · simp [hpde] at h

theorem four_pages_free {page : Nat} (h : fourPages.Free page) : page ≠ 0x1000000 := by
  obtain ⟨i, hi, hfree, hpage⟩ := h
  intro heq
  have hzero : i = 0 := by
    rw [heq] at hpage
    simp only [fourPages, PhysicMemory.memNode2Page, wrap, pageSize] at hi hpage
    omega
  rw [hzero] at hfree
  cases hfree

theorem four_pages_clean : FreePagesClean fourPages := by
  intro page hfree k
  have hzero : fourPages.pages page k = 0 := if_neg (four_pages_free hfree)
  rw [hzero]
  rfl

theorem one_page_held : Held fourPages onePageTask.pgdir := by
  intro v entry hentry hfree
  rw [(one_page_lookup hentry).2] at hfree
  exact four_pages_free hfree rfl

theorem one_page_well_formed : WellFormed onePageTask.spaceMap := by
  refine ⟨by simp [onePageTask], by simp [onePageTask], ?_⟩
  intro space hspace
  cases List.mem_singleton.mp hspace
  exact ⟨by decide, by decide, by decide, by decide⟩

end XBook
