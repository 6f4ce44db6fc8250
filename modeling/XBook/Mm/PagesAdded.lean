import XBook.Mm.ProcessMemory

/-!
# What mapping adds

The functions that map pages, seen from the process: `Adds` says that they map the pages of a
given set and change nothing that was mapped. `PagesOpen` is what every one of them keeps, that a
user page is user-writable and in the node table; so a user access to a mapped page never faults.
-/

namespace XBook.Paging

/-- The address lies in one of the spaces. -/
def Covered (spaces : List VMSpace) (v : Nat) : Prop := ∃ sp ∈ spaces, sp.start ≤ v ∧ v < sp.stop

/-- The node table is where `InitPhysicMemory` may put it. -/
structure WellPlaced (m : PhysicMemory) : Prop where
  bound : m.memNodeCount ≤ 1048576
  aligned : m.memNodeBase % pageSize = 0

/-- Flags with both `PAGE_US_U` and `PAGE_RW_W`. -/
def Open (flags : Nat) : Prop := flags.testBit 1 = true ∧ flags.testBit 2 = true

/-- Every user page that is mapped is user-writable and described by the node table. -/
structure PagesOpen (phymem : PhysicMemory) (dir : Directory) : Prop where
  tables : ∀ region < userRegions, ∀ table, dir region = some table → Open table.protect
  entries : ∀ v < userVmSize, ∀ word, dir.word v = some word → present word = true →
    Open word ∧ (phymem.page2MemNode (pageMask word)).isSome

/-- What functions do that map pages in `at'`: nothing that was mapped changes. -/
structure Adds (m : PageMemory) (dir : Directory) (m' : PageMemory) (dir' : Directory)
    (pages : Nat → Prop) : Prop where
  count : m'.phymem.memNodeCount = m.phymem.memNodeCount
  base : m'.phymem.memNodeBase = m.phymem.memNodeBase
  keeps : ∀ v < userVmSize, ∀ page, dir.frame v = some page → dir'.frame v = some page
  adds : ∀ v < userVmSize, (dir'.frame v).isSome → (dir.frame v).isSome ∨ pages v
  opened : PagesOpen m.phymem dir → PagesOpen m'.phymem dir'

variable {m m' m'' : PageMemory} {dir dir' dir'' : Directory} {pages pages' : Nat → Prop}

theorem Adds.refl (m : PageMemory) (dir : Directory) (pages : Nat → Prop) :
    Adds m dir m dir pages :=
  ⟨rfl, rfl, fun _ _ _ h => h, fun _ _ h => .inl h, fun h => h⟩

theorem Adds.trans (h : Adds m dir m' dir' pages) (h' : Adds m' dir' m'' dir'' pages') :
    Adds m dir m'' dir'' fun v => pages v ∨ pages' v := by
  refine ⟨h'.count.trans h.count, h'.base.trans h.base, ?_, ?_, fun hopen => h'.opened (h.opened hopen)⟩
  · intro v hv page hframe
    exact h'.keeps v hv page (h.keeps v hv page hframe)
  · intro v hv hframe
    rcases h'.adds v hv hframe with hmid | hnew
    · rcases h.adds v hv hmid with hold | hnew
      · exact .inl hold
      · exact .inr (.inl hnew)
    · exact .inr (.inr hnew)

theorem Adds.mono (h : Adds m dir m' dir' pages) (himp : ∀ v < userVmSize, pages v → pages' v) :
    Adds m dir m' dir' pages' :=
  ⟨h.count, h.base, h.keeps, fun v hv hframe => (h.adds v hv hframe).imp_right (himp v hv),
    h.opened⟩

theorem Adds.wellPlaced (h : Adds m dir m' dir' pages) (hm : WellPlaced m.phymem) :
    WellPlaced m'.phymem :=
  ⟨by rw [h.count]; exact hm.bound, by rw [h.base]; exact hm.aligned⟩

theorem page2_mem_node_congr {m m' : PhysicMemory} (hcount : m'.memNodeCount = m.memNodeCount)
    (hbase : m'.memNodeBase = m.memNodeBase) (page : Nat) :
    m'.page2MemNode page = m.page2MemNode page := by
  simp only [PhysicMemory.page2MemNode, hcount, hbase]

theorem PagesOpen.congr {m m' : PhysicMemory} (h : PagesOpen m dir)
    (hcount : m'.memNodeCount = m.memNodeCount) (hbase : m'.memNodeBase = m.memNodeBase) :
    PagesOpen m' dir := by
  refine ⟨h.tables, ?_⟩
  intro v hv word hword hpresent
  rw [page2_mem_node_congr hcount hbase]
  exact h.entries v hv word hword hpresent

/-! ## Mapping -/

/-- What `AllocPage` returns is a page of the node table. -/
theorem alloc_page_placed {page : Nat} (hm : WellPlaced m.phymem)
    (h : m.allocPage = some (m', page)) :
    m'.phymem.memNodeCount = m.phymem.memNodeCount ∧ m'.phymem.memNodeBase = m.phymem.memNodeBase ∧
      (page ≠ 0 → page % pageSize = 0 ∧ (m.phymem.page2MemNode page).isSome) := by
  rcases alloc_pages_cases (alloc_page_cases h).1 with ⟨hmem, hpage⟩ | ⟨i, htake, hmem, rfl⟩
  · exact ⟨by rw [hmem], by rw [hmem], fun hne => absurd hpage hne⟩
  · have hlt := (take_mem_node_free htake).2.1
    refine ⟨by rw [hmem]; rfl, by rw [hmem]; rfl, fun _ => ⟨page_aligned hm.aligned i, ?_⟩⟩
    rw [page2_mem_node_page hm.bound hlt]
    rfl

/-- An entry that is present after `PageTableAdd` was there before, or is the new one. -/
theorem page_table_add_word {v page protect : Nat} {ret : Int}
    (hadd : pageTableAdd m dir v page protect = some (m', dir', ret))
    (hclean : CleanTables m.pages dir dir') {u word : Nat} (hu : u < userVmSize)
    (hword : dir'.word u = some word) (hpresent : present word = true) :
    dir.word u = some word ∨ (SamePage u v ∧ word = page ||| protect ||| 1) := by
  rcases page_table_add_cases hadd with ⟨-, -, -, rfl⟩ | ⟨hnone, q, halloc, hcase⟩
  · rw [Directory.word_set_word] at hword
    split at hword
    · next hsame => exact .inr ⟨hsame.1, (Option.some.inj hword).symm⟩
    · exact .inl hword
  · rcases hcase with ⟨-, rfl, -⟩ | ⟨-, -, rfl⟩
    · exact .inl hword
    · have hpages := (alloc_page_cases halloc).2
      rw [Directory.word_set_word] at hword
      split at hword
      · next hsame => exact .inr ⟨hsame.1, (Option.some.inj hword).symm⟩
      · rw [Directory.word_add_table] at hword
        split at hword
        · next hpde =>
            -- the entries of the new table are not present
            have hindex : pteIdx u < 1024 := Nat.mod_lt _ (by decide)
            have hregion : pdeIdx v < userRegions := by
              rw [← hpde]
              simp only [pdeIdx, userRegions, userVmSize] at *
              omega
            have htable := Directory.set_word_table (dir.addTable v ⟨q, protect, m'.pages q⟩) v
              (page ||| protect ||| 1) (pdeIdx v)
            rw [Directory.addTable, Function.update_self] at htable
            obtain ⟨table, htable, hpage⟩ := Option.map_eq_some_iff.mp htable
            have hbits := hclean _ table hregion htable hnone _ hindex
            rw [hpage] at hbits
            cases hword
            simp only [hpages] at hpresent
            rw [hbits] at hpresent
            cases hpresent
        · exact .inl hword

/-- `PageTableAdd` changes no entry of another page. -/
theorem page_table_add_keeps {v page protect : Nat} {ret : Int}
    (hadd : pageTableAdd m dir v page protect = some (m', dir', ret)) {u word : Nat}
    (hword : dir.word u = some word) (hne : ¬ SamePage u v) : dir'.word u = some word := by
  rcases page_table_add_cases hadd with ⟨-, -, -, rfl⟩ | ⟨hnone, q, -, hcase⟩
  · rw [Directory.word_set_word, if_neg (fun hboth => hne hboth.1)]
    exact hword
  · rcases hcase with ⟨-, rfl, -⟩ | ⟨-, -, rfl⟩
    · exact hword
    · have hpde : pdeIdx u ≠ pdeIdx v := by
        intro hpde
        simp [Directory.word, hpde, hnone] at hword
      rw [Directory.word_set_word, if_neg (fun hboth => hne hboth.1), Directory.word_add_table,
        if_neg hpde]
      exact hword

theorem page_table_add_tables {v page protect : Nat} {ret : Int}
    (hadd : pageTableAdd m dir v page protect = some (m', dir', ret)) {region : Nat} {table : Table}
    (htable : dir' region = some table) :
    table.protect = protect ∨ ∃ table', dir region = some table' ∧
      table.protect = table'.protect := by
  have hset : ∀ (d : Directory) word, (d.setWord v word) region = some table →
      ∃ table', d region = some table' ∧ table.protect = table'.protect := by
    intro d word hsome
    cases hold : d (pdeIdx v) with
    | none => exact ⟨table, by rwa [Directory.set_word_none hold] at hsome, rfl⟩
    | some table' =>
        rw [Directory.set_word_some hold, Function.update_apply] at hsome
        split at hsome
        · next heq =>
            cases hsome
            exact ⟨table', heq ▸ hold, rfl⟩
        · exact ⟨table, hsome, rfl⟩
  rcases page_table_add_cases hadd with ⟨-, -, -, rfl⟩ | ⟨-, q, -, hcase⟩
  · exact .inr (hset dir _ htable)
  · rcases hcase with ⟨-, rfl, -⟩ | ⟨-, -, rfl⟩
    · exact .inr ⟨table, htable, rfl⟩
    · obtain ⟨table', htable', hprotect⟩ := hset _ _ htable
      rw [Directory.addTable, Function.update_apply] at htable'
      split at htable'
      · cases htable'
        exact .inl hprotect
      · exact .inr ⟨table', htable', hprotect⟩

/-- `PageTableAdd` of a page of the node table, where nothing is mapped. -/
theorem adds_page_table_add {v page : Nat} {ret : Int} (hm : WellPlaced m.phymem)
    (halign : page % pageSize = 0) (hpage : (m.phymem.page2MemNode page).isSome)
    (hfree : v < userVmSize → dir.frame v = none)
    (hadd : pageTableAdd m dir v page userWrite = some (m', dir', ret))
    (hclean : CleanTables m.pages dir dir') : Adds m dir m' dir' (SamePage · v) := by
  have hplaced : m'.phymem.memNodeCount = m.phymem.memNodeCount ∧
      m'.phymem.memNodeBase = m.phymem.memNodeBase := by
    rcases page_table_add_cases hadd with ⟨-, rfl, -, -⟩ | ⟨-, q, halloc, -⟩
    · exact ⟨rfl, rfl⟩
    · exact ⟨(alloc_page_placed hm halloc).1, (alloc_page_placed hm halloc).2.1⟩
  have hentry : Open (page ||| userWrite ||| 1) := by
    simp only [Open, userWrite, Nat.testBit_or]
    exact ⟨by rw [show Nat.testBit 6 1 = true by decide]; simp,
      by rw [show Nat.testBit 6 2 = true by decide]; simp⟩
  have hsame : ∀ u, u < userVmSize → SamePage u v → dir.frame u = none := by
    intro u hu huv
    rw [dir.frame_congr huv]
    refine hfree ?_
    simp only [SamePage, pageSize, userVmSize] at *
    omega
  refine ⟨hplaced.1, hplaced.2, ?_, ?_, ?_⟩
  · intro u hu page' hframe
    obtain ⟨word, hword, hpresent, rfl⟩ := Directory.frame_eq_some.mp hframe
    have hne : ¬ SamePage u v := by
      intro huv
      rw [hsame u hu huv] at hframe
      cases hframe
    exact Directory.frame_eq_some.mpr ⟨word, page_table_add_keeps hadd hword hne, hpresent, rfl⟩
  · intro u hu hframe
    obtain ⟨page', hframe⟩ := Option.isSome_iff_exists.mp hframe
    obtain ⟨word, hword, hpresent, rfl⟩ := Directory.frame_eq_some.mp hframe
    rcases page_table_add_word hadd hclean hu hword hpresent with hold | ⟨huv, -⟩
    · left
      rw [Directory.frame_eq_some.mpr ⟨word, hold, hpresent, rfl⟩]
      rfl
    · exact .inr huv
  · intro hopen
    refine ⟨?_, ?_⟩
    · intro region hregion table htable
      rcases page_table_add_tables hadd htable with hprotect | ⟨table', htable', hprotect⟩
      · rw [hprotect]
        exact ⟨by decide, by decide⟩
      · rw [hprotect]
        exact hopen.tables region hregion table' htable'
    · intro u hu word hword hpresent
      rw [page2_mem_node_congr hplaced.1 hplaced.2]
      rcases page_table_add_word hadd hclean hu hword hpresent with hold | ⟨-, rfl⟩
      · exact hopen.entries u hu word hold hpresent
      · refine ⟨hentry, ?_⟩
        rw [page_mask_entry halign (by decide)]
        exact hpage

/-- A page is allocated and linked. -/
theorem adds_alloc_link {m₁ : PageMemory} {v page : Nat} {ret : Int} (hm : WellPlaced m.phymem)
    (halloc : m.allocPage = some (m₁, page)) (hpage : page ≠ 0)
    (hfree : v < userVmSize → dir.frame v = none)
    (hadd : pageTableAdd m₁ dir v page userWrite = some (m', dir', ret))
    (hclean : CleanTables m.pages dir dir') : Adds m dir m' dir' (SamePage · v) := by
  obtain ⟨hcount, hbase, hplaced⟩ := alloc_page_placed hm halloc
  obtain ⟨halign, hsome⟩ := hplaced hpage
  have hm₁ : WellPlaced m₁.phymem := ⟨by rw [hcount]; exact hm.bound, by rw [hbase]; exact hm.aligned⟩
  rw [← page2_mem_node_congr hcount hbase] at hsome
  rw [← (alloc_page_cases halloc).2] at hclean
  have h := adds_page_table_add hm₁ halign hsome hfree hadd hclean
  exact ⟨h.count.trans hcount, h.base.trans hbase, h.keeps, h.adds,
    fun hopen => h.opened (hopen.congr hcount hbase)⟩

theorem adds_alloc_none {m₁ : PageMemory} {page : Nat} (hm : WellPlaced m.phymem)
    (halloc : m.allocPage = some (m₁, page)) (dir : Directory) (pages : Nat → Prop) :
    Adds m dir m₁ dir pages := by
  obtain ⟨hcount, hbase, -⟩ := alloc_page_placed hm halloc
  exact ⟨hcount, hbase, fun _ _ _ h => h, fun _ _ h => .inl h,
    fun hopen => hopen.congr hcount hbase⟩

/-- `DoHandleNoPage`, where nothing is mapped. -/
theorem adds_handle_no_page {addr : Nat} {ret : Int} (hm : WellPlaced m.phymem)
    (hfree : addr < userVmSize → dir.frame addr = none)
    (hfault : doHandleNoPage m dir addr = some (m', dir', ret))
    (hclean : CleanTables m.pages dir dir') : Adds m dir m' dir' (SamePage · addr) := by
  obtain ⟨⟨m₁, page⟩, halloc, hrest⟩ := Option.bind_eq_some_iff.mp hfault
  have hmask : SamePage (pageMask addr) addr := by
    simp only [SamePage, pageMask, pageSize]
    omega
  by_cases hpage : page = 0
  · simp only [hpage, if_true] at hrest
    cases hrest
    exact adds_alloc_none hm halloc _ _
  · simp only [hpage, if_false] at hrest
    obtain ⟨⟨m₂, dir₂, ret₂⟩, hadd, heq⟩ := Option.map_eq_some_iff.mp hrest
    cases heq
    refine (adds_alloc_link hm halloc hpage ?_ hadd hclean).mono (fun v _ h => h.trans hmask)
    intro hlt
    rw [dir.frame_congr hmask]
    refine hfree ?_
    simp only [SamePage, pageSize, userVmSize] at *
    omega

/-- The pages that `MapPagesMaybeMapped` visits. -/
def VisitedFrom (v npages u : Nat) : Prop := ∃ i < npages, SamePage u (wrap (v + i * pageSize))

/-- `MapPagesMaybeMapped`. -/
theorem adds_map_pages {npages v : Nat} {ret : Int} (hm : WellPlaced m.phymem) (hv : v < 2 ^ 32)
    (hmap : mapPagesMaybeMapped userWrite npages v m dir = some (m', dir', ret))
    (hclean : CleanTables m.pages dir dir') : Adds m dir m' dir' (VisitedFrom v npages) := by
  have hnext : ∀ (v n u : Nat), VisitedFrom (wrap (v + pageSize)) n u → VisitedFrom v (n + 1) u := by
    intro v n u hvisit
    obtain ⟨i, hi, hsame⟩ := hvisit
    refine ⟨i + 1, by omega, ?_⟩
    have heq : wrap (wrap (v + pageSize) + i * pageSize) = wrap (v + (i + 1) * pageSize) := by
      simp only [wrap, pageSize]
      omega
    rwa [heq] at hsame
  induction npages generalizing v m dir with
  | zero =>
      cases hmap
      exact Adds.refl _ _ _
  | succ npages ih =>
      have hself : ∀ u, SamePage u v → VisitedFrom v (npages + 1) u := by
        intro u hsame
        exact ⟨0, by omega, by rwa [Nat.zero_mul, Nat.add_zero, wrap_of_lt hv]⟩
      simp only [mapPagesMaybeMapped] at hmap
      split at hmap
      · exact (ih hm (wrap_lt _) hmap hclean).mono (fun u _ => hnext v npages u)
      · next hunmapped =>
          have hfree : dir.frame v = none := by simpa using hunmapped
          obtain ⟨⟨m₁, page⟩, halloc, hmap⟩ := Option.bind_eq_some_iff.mp hmap
          by_cases hpage : page = 0
          · simp only [hpage, if_true] at hmap
            cases hmap
            exact adds_alloc_none hm halloc _ _
          · simp only [hpage, if_false] at hmap
            obtain ⟨⟨m₂, dir₂, ret₂⟩, hadd, hmap⟩ := Option.bind_eq_some_iff.mp hmap
            have hpages := (keeps_page_table_add hadd).2.trans (alloc_page_cases halloc).2
            simp only at hmap
            split at hmap
            · cases hmap
              exact (adds_alloc_link hm halloc hpage (fun _ => hfree) hadd hclean).mono
                (fun u _ => hself u)
            · have hfirst := adds_alloc_link hm halloc hpage (fun _ => hfree) hadd
                (hclean.first (keeps_map_pages hmap))
              have hrest := ih (hfirst.wellPlaced hm) (wrap_lt _) hmap
                (by rw [hpages]; exact hclean.rest (keeps_page_table_add hadd).1)
              refine (hfirst.trans hrest).mono ?_
              intro u _ hu
              rcases hu with hu | hu
              · exact hself u hu
              · exact hnext v npages u hu

/-! ## Faults -/

/-- The bounds of a space are words and page addresses. -/
structure SpaceBounds (sp : VMSpace) : Prop where
  start : sp.start % pageSize = 0
  stop : sp.stop % pageSize = 0
  startWord : sp.start < 2 ^ 32
  stopWord : sp.stop < 2 ^ 32

theorem Covered.same_page {spaces : List VMSpace} (hbounds : ∀ sp ∈ spaces, SpaceBounds sp)
    {u v : Nat} (h : Covered spaces v) (hsame : SamePage u v) : Covered spaces u := by
  obtain ⟨sp, hsp, hstart, hstop⟩ := h
  have halign := hbounds sp hsp
  have := halign.start
  have := halign.stop
  refine ⟨sp, hsp, ?_, ?_⟩
  · simp only [SamePage, pageSize] at *
    omega
  · simp only [SamePage, pageSize] at *
    omega

/-- A user page that faults is not mapped. -/
theorem faults_user {addr errorCode : Nat} (hopen : PagesOpen m.phymem dir)
    (haddr : addr < userVmSize) (h : faults dir addr errorCode = true) :
    pageErrProtect errorCode = false ∧ dir.frame addr = none := by
  simp only [faults] at h
  cases htable : dir (pdeIdx addr) with
  | none =>
      simp only [htable] at h
      exact ⟨by simpa using h, by simp [Directory.frame, Directory.word, htable]⟩
  | some table =>
      have hword : dir.word addr = some (table.entries (pteIdx addr)) := by
        simp [Directory.word, htable]
      simp only [htable] at h
      split at h
      · next hpresent =>
          have hregion : pdeIdx addr < userRegions := by
            simp only [pdeIdx, userRegions, userVmSize] at *
            omega
          have htables := hopen.tables _ hregion table htable
          have hentries := (hopen.entries addr haddr _ hword hpresent).1
          simp [grants, htables.1, htables.2, hentries.1, hentries.2] at h
      · next hpresent =>
          exact ⟨by simpa using h, by simp [Directory.frame, hword, hpresent]⟩

/-- `MakePteWrite` on a kernel address. -/
theorem adds_make_pte_write {addr : Nat} (haddr : userVmSize ≤ addr) (m : PageMemory)
    (dir : Directory) (pages : Nat → Prop) : Adds m dir m (makePteWrite dir addr).1 pages := by
  have hframe := fun u => (make_pte_write_frame dir addr u).1
  refine ⟨rfl, rfl, ?_, ?_, ?_⟩
  · intro u _ page hmapped
    rw [hframe]
    exact hmapped
  · intro u _ hmapped
    rw [hframe] at hmapped
    exact .inl hmapped
  · intro hopen
    have hcase : (makePteWrite dir addr).1 = dir ∨
        ∃ word, (makePteWrite dir addr).1 = dir.setWord addr word := by
      simp only [makePteWrite]
      split
      · exact .inl rfl
      · split
        · exact .inl rfl
        · split
          · exact .inr ⟨_, rfl⟩
          · exact .inl rfl
    rcases hcase with heq | ⟨word, heq⟩
    · rw [heq]
      exact hopen
    · rw [heq]
      refine ⟨?_, ?_⟩
      · intro region hregion table htable
        have hne : region ≠ pdeIdx addr := by
          simp only [pdeIdx, userRegions, userVmSize] at *
          omega
        rw [Directory.set_word_other hne] at htable
        exact hopen.tables region hregion table htable
      · intro u hu word' hword' hpresent
        have hne : ¬ SamePage u addr := by
          simp only [SamePage, pageSize, userVmSize] at *
          omega
        rw [Directory.word_set_word, if_neg (fun hboth => hne hboth.1)] at hword'
        exact hopen.entries u hu word' hword' hpresent

/-- `DoProtectionFault` for a kernel address maps nothing for the user. -/
theorem adds_protection_fault {addr : Nat} {write : Bool} {ret : Int} (hm : WellPlaced m.phymem)
    (haddr : userVmSize ≤ addr)
    (hfault : doProtectionFault m dir addr write = some (m', dir', ret))
    (hclean : CleanTables m.pages dir dir') : Adds m dir m' dir' fun _ => False := by
  have hpte := adds_make_pte_write haddr m dir fun _ => False
  simp only [doProtectionFault] at hfault
  split at hfault
  · split at hfault
    · cases hfault
      exact hpte
    · obtain ⟨⟨m₁, dir₁, ret₁⟩, hpage, heq⟩ := Option.map_eq_some_iff.mp hfault
      cases heq
      have hkeep : KeepsTables dir (makePteWrite dir addr).1 := by
        intro region table htable
        have hpage := (make_pte_write_frame dir addr 0).2 region
        rw [htable] at hpage
        exact Option.map_eq_some_iff.mp hpage
      have hadds := adds_handle_no_page hm (fun hlt => absurd haddr (Nat.not_le.mpr hlt)) hpage
        (hclean.rest hkeep)
      refine (hpte.trans hadds).mono ?_
      intro u hu hor
      rcases hor with hfalse | hsame
      · exact hfalse
      · simp only [SamePage, pageSize, userVmSize] at *
        omega
  · cases hfault
    exact Adds.refl _ _ _

/-- A fault maps at most the page of the address, when that lies in a space. -/
theorem adds_page_fault {mm mm' : MemoryManager} {addr esp errorCode : Nat} {ret : Int}
    (hm : WellPlaced m.phymem) (hopen : PagesOpen m.phymem dir)
    (hfaults : faults dir addr errorCode = true)
    (hfault : doPageFault m dir mm addr esp errorCode = some (m', dir', mm', ret))
    (hclean : CleanTables m.pages dir dir') :
    mm' = XBook.doPageFault mm addr esp errorCode ∧
      Adds m dir m' dir' fun u => SamePage u addr ∧ Covered mm'.spaceMap addr := by
  simp only [doPageFault] at hfault
  split at hfault
  · cases hfault
    exact ⟨rfl, Adds.refl _ _ _⟩
  · next c hfind =>
      split at hfault
      · cases hfault
        exact ⟨rfl, Adds.refl _ _ _⟩
      · next hstart =>
          obtain ⟨⟨m₁, dir₁, ret₁⟩, hmap, heq⟩ := Option.map_eq_some_iff.mp hfault
          cases heq
          refine ⟨rfl, ?_⟩
          obtain ⟨hspaces, -, hstop⟩ := find_vm_space_some hfind
          have hcovered : Covered (XBook.doPageFault mm addr esp errorCode).spaceMap addr :=
            ⟨c.space, by rw [hspaces]; simp, Nat.not_lt.mp hstart, hstop⟩
          have huser : addr < userVmSize →
              pageErrProtect errorCode = false ∧ dir.frame addr = none :=
            fun hlt => faults_user hopen hlt hfaults
          split at hmap
          · next hprotect =>
              have haddr : userVmSize ≤ addr := by
                by_contra hlt
                rw [(huser (Nat.not_le.mp hlt)).1] at hprotect
                cases hprotect
              exact (adds_protection_fault hm haddr hmap hclean).mono (fun _ _ h => h.elim)
          · exact (adds_handle_no_page hm (fun hlt => (huser hlt).2) hmap hclean).mono
              (fun _ _ h => ⟨h, hcovered⟩)

end XBook.Paging
