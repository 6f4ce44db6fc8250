import XBook.Mm.PageOwners

/-!
# Ownership across the paging functions

Each function of `PageTable` that maps pages keeps `OwnerInv`: the pages that it takes were free,
and a new page table, if it needs one, shows no entries when the page it lies in was clean.
`CleanTables` says the latter for a whole function, and `KeepsTables` carries it to its parts.
-/

namespace XBook.Paging

/-! ## Linking pages -/

variable {m m' : PageMemory} {pgdir : Nat → Directory} {kernel : List PageBlock} {pid : Nat}

theorem same_page_vpn (n v : Nat) : SamePage (n * pageSize) v ↔ n = v / pageSize := by
  simp only [SamePage, pageSize]
  omega

theorem Directory.frame_set_word (dir : Directory) (u v : Nat) {page protect : Nat}
    (halign : page % pageSize = 0) (hprotect : protect < pageSize) :
    (dir.setWord v (page ||| protect ||| 1)).frame u =
      if SamePage u v ∧ (dir.word v).isSome then some page else dir.frame u := by
  simp only [Directory.frame, Directory.word_set_word]
  split
  · simp [present_entry, page_mask_entry halign hprotect]
  · rfl

/-- A page passes from the kernel to a page table entry. -/
theorem OwnerInv.link {page protect : Nat} (h : OwnerInv ⟨m, pgdir, ⟨page, 1⟩ :: kernel⟩)
    (halign : page % pageSize = 0) (hprotect : protect < pageSize) (pid v : Nat) :
    OwnerInv ⟨m, Function.update pgdir pid
      ((pgdir pid).setWord v (page ||| protect ||| 1)), kernel⟩ := by
  refine h.give (o := .page pid (v / pageSize)) rfl ?_
  intro o i ho
  cases o with
  | block b => exact .inr ⟨by simp, ho⟩
  | table pid' region =>
      refine .inr ⟨by simp, ho.1, ?_⟩
      obtain ⟨-, table, htable, hi⟩ := ho
      simp only at htable hi
      rcases eq_or_ne pid' pid with rfl | hpid
      · rw [Function.update_self] at htable
        have hpage := Directory.set_word_table (pgdir pid') v
          (page ||| protect ||| 1) region
        rw [htable] at hpage
        obtain ⟨table', htable', hsame⟩ := Option.map_eq_some_iff.mp hpage.symm
        exact ⟨table', htable', by rw [hsame]; exact hi⟩
      · rw [Function.update_of_ne hpid] at htable
        exact ⟨table, htable, hi⟩
  | page pid' vpn =>
      obtain ⟨hvpn, page', hframe, hi⟩ := ho
      simp only at hframe hi
      rcases eq_or_ne pid' pid with rfl | hpid
      · rw [Function.update_self, Directory.frame_set_word _ _ _ halign hprotect] at hframe
        by_cases hsame : SamePage (vpn * pageSize) v
        · obtain rfl := (same_page_vpn _ _).mp hsame
          by_cases hsome : ((pgdir pid').word v).isSome = true
          · rw [if_pos ⟨hsame, hsome⟩] at hframe
            cases hframe
            exact .inl ⟨rfl, hi⟩
          · rw [if_neg (fun hboth => hsome hboth.2), Directory.frame,
              (pgdir pid').word_congr hsame] at hframe
            simp only [Option.not_isSome_iff_eq_none] at hsome
            simp [hsome] at hframe
        · rw [if_neg (fun hboth => hsame hboth.1)] at hframe
          refine .inr ⟨?_, hvpn, page', hframe, hi⟩
          intro heq
          cases heq
          exact hsame ((same_page_vpn _ _).mpr rfl)
      · rw [Function.update_of_ne hpid] at hframe
        exact .inr ⟨by simp [hpid], hvpn, page', hframe, hi⟩

/-- A clean page passes from the kernel to a directory entry. -/
theorem OwnerInv.addTable {page v : Nat} {words : Nat → Nat}
    (h : OwnerInv ⟨m, pgdir, ⟨page, 1⟩ :: kernel⟩) (protect : Nat)
    (hnone : pgdir pid (pdeIdx v) = none)
    (hclean : pdeIdx v < userRegions → ∀ index < 1024, present (words index) = false) :
    OwnerInv ⟨m, Function.update pgdir pid ((pgdir pid).addTable v ⟨page, protect, words⟩),
      kernel⟩ := by
  refine h.give (o := .table pid (pdeIdx v)) rfl ?_
  intro o i ho
  cases o with
  | block b => exact .inr ⟨by simp, ho⟩
  | table pid' region =>
      obtain ⟨hregion, table, htable, hi⟩ := ho
      simp only at htable hi
      rcases eq_or_ne pid' pid with rfl | hpid
      · rw [Function.update_self, Directory.addTable, Function.update_apply] at htable
        split at htable
        · next heq =>
            cases htable
            exact .inl ⟨by rw [heq], hi⟩
        · next hne => exact .inr ⟨by simpa using hne, hregion, table, htable, hi⟩
      · rw [Function.update_of_ne hpid] at htable
        exact .inr ⟨by simp [hpid], hregion, table, htable, hi⟩
  | page pid' vpn =>
      refine .inr ⟨by simp, ho.1, ?_⟩
      obtain ⟨hvpn, page', hframe, hi⟩ := ho
      simp only at hframe hi
      rcases eq_or_ne pid' pid with rfl | hpid
      · rw [Function.update_self, Directory.frame, Directory.word_add_table] at hframe
        split at hframe
        · next heq =>
            -- the entries of the new table are not present
            have hindex : pteIdx (vpn * pageSize) < 1024 := by
              simp only [pteIdx, pageSize]
              omega
            have hregion : pdeIdx v < userRegions := by
              rw [← heq]
              simp only [pdeIdx, pageSize, userRegions, userPages] at *
              omega
            simp [hclean hregion _ hindex] at hframe
        · exact ⟨page', hframe, hi⟩
      · rw [Function.update_of_ne hpid] at hframe
        exact ⟨page', hframe, hi⟩

/-- The tables of the user half that `dir'` has and `dir` has not were made from clean pages. -/
def CleanTables (pages : Nat → Nat → Nat) (dir dir' : Directory) : Prop :=
  ∀ region table, region < userRegions → dir' region = some table → dir region = none →
    ∀ index < 1024, present (pages table.page index) = false

/-- The page tables of `dir` are still there in `dir'`. -/
def KeepsTables (dir dir' : Directory) : Prop :=
  ∀ region table, dir region = some table → ∃ table', dir' region = some table' ∧
    table'.page = table.page

theorem KeepsTables.trans {dir dir' dir'' : Directory} (h : KeepsTables dir dir')
    (h' : KeepsTables dir' dir'') : KeepsTables dir dir'' := by
  intro region table htable
  obtain ⟨table', htable', hpage⟩ := h region table htable
  obtain ⟨table'', htable'', hpage'⟩ := h' region table' htable'
  exact ⟨table'', htable'', hpage'.trans hpage⟩

theorem KeepsTables.set_word (dir : Directory) (v word : Nat) :
    KeepsTables dir (dir.setWord v word) := by
  intro region table htable
  have hpage := Directory.set_word_table dir v word region
  rw [htable] at hpage
  exact Option.map_eq_some_iff.mp hpage

/-- The tables of a first part of a run are clean when those of the whole run are. -/
theorem CleanTables.first {pages : Nat → Nat → Nat} {dir dir' dir'' : Directory}
    (h : CleanTables pages dir dir'') (hkeep : KeepsTables dir' dir'') :
    CleanTables pages dir dir' := by
  intro region table hregion htable hnone index hindex
  obtain ⟨table', htable', hpage⟩ := hkeep region table htable
  rw [← hpage]
  exact h region table' hregion htable' hnone index hindex

/-- The tables of the rest of a run are clean when those of the whole run are. -/
theorem CleanTables.rest {pages : Nat → Nat → Nat} {dir dir' dir'' : Directory}
    (h : CleanTables pages dir dir'') (hkeep : KeepsTables dir dir') :
    CleanTables pages dir' dir'' := by
  intro region table hregion htable hnone
  refine h region table hregion htable ?_
  cases hold : dir region with
  | none => rfl
  | some table' =>
      obtain ⟨table'', htable'', -⟩ := hkeep region table' hold
      rw [hnone] at htable''
      cases htable''

/-- What `PageTableAdd` does. -/
theorem page_table_add_cases {dir dir' : Directory} {v page protect : Nat} {ret : Int}
    (h : pageTableAdd m dir v page protect = some (m', dir', ret)) :
    ((dir (pdeIdx v)).isSome ∧ m' = m ∧ ret = 0 ∧
      dir' = dir.setWord v (page ||| protect ||| 1)) ∨
    (dir (pdeIdx v) = none ∧ ∃ q, m.allocPage = some (m', q) ∧
      ((q = 0 ∧ dir' = dir ∧ ret = -1) ∨ (q ≠ 0 ∧ ret = 0 ∧
        dir' = (dir.addTable v ⟨q, protect, m'.pages q⟩).setWord v (page ||| protect ||| 1)))) := by
  simp only [pageTableAdd] at h
  split at h
  · next table htable =>
      cases h
      exact .inl ⟨by rw [htable]; rfl, rfl, rfl, rfl⟩
  · next hnone =>
      obtain ⟨⟨m'', q⟩, halloc, heq⟩ := Option.map_eq_some_iff.mp h
      by_cases hq : q = 0
      · simp only [hq, if_true, Prod.mk.injEq] at heq
        obtain ⟨rfl, rfl, rfl⟩ := heq
        exact .inr ⟨hnone, q, halloc, .inl ⟨hq, rfl, rfl⟩⟩
      · simp only [hq, if_false, Prod.mk.injEq] at heq
        obtain ⟨rfl, rfl, rfl⟩ := heq
        exact .inr ⟨hnone, q, halloc, .inr ⟨hq, rfl, rfl⟩⟩

theorem alloc_page_cases {page : Nat} (h : m.allocPage = some (m', page)) :
    m.phymem.allocPages 1 = some (m'.phymem, page) ∧ m'.pages = m.pages := by
  obtain ⟨⟨phymem, page'⟩, halloc, heq⟩ := Option.map_eq_some_iff.mp h
  cases heq
  exact ⟨halloc, rfl⟩

theorem keeps_page_table_add {dir dir' : Directory} {v page protect : Nat} {ret : Int}
    (h : pageTableAdd m dir v page protect = some (m', dir', ret)) :
    KeepsTables dir dir' ∧ m'.pages = m.pages := by
  rcases page_table_add_cases h with ⟨-, rfl, -, rfl⟩ | ⟨hnone, q, halloc, hcase⟩
  · exact ⟨.set_word _ _ _, rfl⟩
  · refine ⟨?_, (alloc_page_cases halloc).2⟩
    rcases hcase with ⟨-, rfl, -⟩ | ⟨-, -, rfl⟩
    · exact fun region table htable => ⟨table, htable, rfl⟩
    · refine KeepsTables.trans ?_ (.set_word _ _ _)
      intro region table htable
      refine ⟨table, ?_, rfl⟩
      have hne : region ≠ pdeIdx v := by
        rintro rfl
        rw [hnone] at htable
        cases htable
      rw [Directory.addTable, Function.update_of_ne hne]
      exact htable

/-- `PageTableAdd` of a page that the kernel has just allocated. -/
theorem OwnerInv.pageTableAdd {dir' : Directory} {v page protect : Nat} {ret : Int}
    (h : OwnerInv ⟨m, pgdir, ⟨page, 1⟩ :: kernel⟩) (halign : page % pageSize = 0)
    (hprotect : protect < pageSize)
    (hadd : pageTableAdd m (pgdir pid) v page protect = some (m', dir', ret))
    (hclean : CleanTables m.pages (pgdir pid) dir') :
    OwnerInv ⟨m', Function.update pgdir pid dir', kernel⟩ := by
  rcases page_table_add_cases hadd with ⟨-, rfl, -, rfl⟩ | ⟨hnone, q, halloc, hcase⟩
  · exact h.link halign hprotect pid v
  · obtain ⟨halloc, hpages⟩ := alloc_page_cases halloc
    rcases hcase with ⟨rfl, rfl, -⟩ | ⟨hq, -, rfl⟩
    · rw [Function.update_eq_self]
      exact (h.alloc_failed Nat.one_pos h.nodes.fits_one halloc).drop
    · have hword := Directory.set_word_table ((pgdir pid).addTable v ⟨q, protect, m'.pages q⟩) v
        (page ||| protect ||| 1) (pdeIdx v)
      rw [Directory.addTable, Function.update_self] at hword
      obtain ⟨table, htable, hpage⟩ := Option.map_eq_some_iff.mp hword
      have hwords : pdeIdx v < userRegions → ∀ index < 1024,
          present (m'.pages q index) = false := by
        intro hregion index hindex
        rw [hpages]
        simpa [hpage] using hclean _ table hregion htable hnone index hindex
      have htable' := (h.alloc Nat.one_pos h.nodes.fits_one halloc hq).1.addTable protect hnone
        hwords
      have hlink := htable'.link halign hprotect pid v
      rwa [Function.update_self, Function.update_idem] at hlink

/-- `PageTableAdd` for a kernel address gives no page to a user. -/
theorem OwnerInv.pageTableAdd_kernel {dir' : Directory} {v page protect : Nat} {ret : Int}
    (h : OwnerInv ⟨m, pgdir, kernel⟩) (hv : userVmSize ≤ v)
    (hadd : Paging.pageTableAdd m (pgdir pid) v page protect = some (m', dir', ret)) :
    OwnerInv ⟨m', Function.update pgdir pid dir',
      match pgdir pid (pdeIdx v), dir' (pdeIdx v) with
      | none, some table => ⟨table.page, 1⟩ :: kernel
      | _, _ => kernel⟩ := by
  have hregion : ∀ region < userRegions, region ≠ pdeIdx v := by
    intro region hlt
    simp only [userRegions, userVmSize, pdeIdx] at *
    omega
  -- the user half of the directory does not change
  have hkeep : (∀ region, region ≠ pdeIdx v → dir' region = pgdir pid region) →
      ∀ m'' kernel' o i, System.Owns ⟨m'', Function.update pgdir pid dir', kernel'⟩ o i →
        System.Owns ⟨m'', pgdir, kernel'⟩ o i := by
    intro hdir m'' kernel' o i ho
    cases o with
    | block b => exact ho
    | table pid' region =>
        obtain ⟨hlt, table, htable, hi⟩ := ho
        refine ⟨hlt, table, ?_, hi⟩
        rcases eq_or_ne pid' pid with rfl | hpid
        · simpa [hdir region (hregion region hlt)] using htable
        · simpa [Function.update_of_ne hpid] using htable
    | page pid' vpn =>
        obtain ⟨hlt, page, hframe, hi⟩ := ho
        refine ⟨hlt, page, ?_, hi⟩
        rcases eq_or_ne pid' pid with rfl | hpid
        · have hpde : pdeIdx (vpn * pageSize) ≠ pdeIdx v := by
            refine hregion _ ?_
            simp only [pdeIdx, pageSize, userRegions, userPages] at *
            omega
          simpa [Directory.frame, Directory.word, hdir _ hpde] using hframe
        · simpa [Function.update_of_ne hpid] using hframe
  rcases page_table_add_cases hadd with ⟨hsome, rfl, -, rfl⟩ | ⟨hnone, q, halloc, hcase⟩
  · obtain ⟨table, htable⟩ := Option.isSome_iff_exists.mp hsome
    simp only [htable]
    exact h.mono rfl (hkeep (fun _ => Directory.set_word_other) _ _) (List.Sublist.refl _)
  · obtain ⟨halloc, -⟩ := alloc_page_cases halloc
    rcases hcase with ⟨rfl, rfl, -⟩ | ⟨hq, -, rfl⟩
    · simp only [Function.update_eq_self, hnone]
      exact h.alloc_failed Nat.one_pos h.nodes.fits_one halloc
    · have hword := Directory.set_word_table ((pgdir pid).addTable v ⟨q, protect, m'.pages q⟩) v
        (page ||| protect ||| 1) (pdeIdx v)
      rw [Directory.addTable, Function.update_self] at hword
      obtain ⟨table, htable, hpage⟩ := Option.map_eq_some_iff.mp hword
      have hpage : table.page = q := by simpa using hpage
      simp only [hnone, Directory.addTable, htable, hpage]
      refine (h.alloc Nat.one_pos h.nodes.fits_one halloc hq).1.mono rfl
        (hkeep ?_ _ _) (List.Sublist.refl _)
      intro region hne
      rw [Directory.set_word_other hne, Directory.addTable, Function.update_of_ne hne]

/-! ## The other functions -/

theorem page_mask_or_write (word : Nat) : pageMask (word ||| 2) = pageMask word := by
  have hdiv : (word ||| 2) / 2 ^ 12 = word / 2 ^ 12 := by
    rw [← Nat.shiftRight_eq_div_pow, Nat.shiftRight_or_distrib, Nat.shiftRight_eq_div_pow,
      show 2 >>> 12 = 0 by rfl, Nat.or_zero]
  simp only [pageMask, pageSize]
  rw [show 4096 = 2 ^ 12 by rfl, hdiv]

theorem present_or_write (word : Nat) : present (word ||| 2) = present word := by
  simp [present]

/-- `MakePteWrite` maps the same pages. -/
theorem make_pte_write_frame (dir : Directory) (addr u : Nat) :
    (makePteWrite dir addr).1.frame u = dir.frame u ∧
      ∀ region, ((makePteWrite dir addr).1 region).map Table.page = (dir region).map Table.page := by
  simp only [makePteWrite]
  split
  · exact ⟨rfl, fun _ => rfl⟩
  cases hword : dir.word addr with
  | none => exact ⟨rfl, fun _ => rfl⟩
  | some word =>
      by_cases hpresent : present word = true
      · simp only [hpresent, if_true]
        refine ⟨?_, Directory.set_word_table dir addr _⟩
        simp only [Directory.frame, Directory.word_set_word, hword, Option.isSome_some, and_true]
        by_cases hsame : SamePage u addr
        · simp [hsame, dir.word_congr hsame, hword, present_or_write, page_mask_or_write]
        · simp [hsame]
      · simp [hpresent]

theorem OwnerInv.makePteWrite {addr : Nat} (h : OwnerInv ⟨m, pgdir, kernel⟩) :
    OwnerInv ⟨m, Function.update pgdir pid (makePteWrite (pgdir pid) addr).1, kernel⟩ := by
  refine h.mono rfl ?_ (List.Sublist.refl _)
  intro o i ho
  cases o with
  | block b => exact ho
  | table pid' region =>
      obtain ⟨hlt, table, htable, hi⟩ := ho
      rcases eq_or_ne pid' pid with rfl | hpid
      · simp only [Function.update_self] at htable
        have hpage := (make_pte_write_frame (pgdir pid') addr 0).2 region
        rw [htable] at hpage
        obtain ⟨table', htable', hsame⟩ := Option.map_eq_some_iff.mp hpage.symm
        exact ⟨hlt, table', htable', by rw [hsame]; exact hi⟩
      · exact ⟨hlt, table, by simpa [Function.update_of_ne hpid] using htable, hi⟩
  | page pid' vpn =>
      obtain ⟨hlt, page, hframe, hi⟩ := ho
      refine ⟨hlt, page, ?_, hi⟩
      rcases eq_or_ne pid' pid with rfl | hpid
      · simpa [(make_pte_write_frame (pgdir pid') addr _).1] using hframe
      · simpa [Function.update_of_ne hpid] using hframe

/-- What `AllocPage` and `PageTableAdd` do together. -/
theorem OwnerInv.allocLink {m₁ : PageMemory} {dir dir' : Directory} {v page : Nat} {ret : Int}
    (h : OwnerInv ⟨m, Function.update pgdir pid dir, kernel⟩)
    (halloc : m.allocPage = some (m₁, page)) (hpage : page ≠ 0)
    (hadd : Paging.pageTableAdd m₁ dir v page userWrite = some (m', dir', ret))
    (hclean : CleanTables m.pages dir dir') :
    OwnerInv ⟨m', Function.update pgdir pid dir', kernel⟩ ∧ m'.pages = m.pages ∧
      KeepsTables dir dir' := by
  obtain ⟨halloc, hpages⟩ := alloc_page_cases halloc
  obtain ⟨hkernel, halign⟩ := h.alloc Nat.one_pos h.nodes.fits_one halloc hpage
  obtain ⟨hkeep, hpages'⟩ := keeps_page_table_add hadd
  have hdir : Function.update pgdir pid dir pid = dir := Function.update_self ..
  rw [← hdir] at hadd
  have hinv := hkernel.pageTableAdd halign (by decide) hadd (by rwa [hdir, hpages])
  rw [Function.update_idem] at hinv
  exact ⟨hinv, hpages'.trans hpages, hkeep⟩

theorem OwnerInv.allocNone {m₁ : PageMemory} (h : OwnerInv ⟨m, pgdir, kernel⟩)
    (halloc : m.allocPage = some (m₁, 0)) : OwnerInv ⟨m₁, pgdir, kernel⟩ :=
  h.alloc_failed Nat.one_pos h.nodes.fits_one (alloc_page_cases halloc).1

/-- `DoHandleNoPage`. -/
theorem OwnerInv.handleNoPage {dir dir' : Directory} {addr : Nat} {ret : Int}
    (h : OwnerInv ⟨m, Function.update pgdir pid dir, kernel⟩)
    (hfault : doHandleNoPage m dir addr = some (m', dir', ret))
    (hclean : CleanTables m.pages dir dir') :
    OwnerInv ⟨m', Function.update pgdir pid dir', kernel⟩ := by
  obtain ⟨⟨m₁, page⟩, halloc, hrest⟩ := Option.bind_eq_some_iff.mp hfault
  by_cases hpage : page = 0
  · simp only [hpage, if_true] at hrest
    cases hrest
    exact h.allocNone (hpage ▸ halloc)
  · simp only [hpage, if_false] at hrest
    obtain ⟨⟨m₂, dir₂, ret₂⟩, hadd, heq⟩ := Option.map_eq_some_iff.mp hrest
    cases heq
    exact (h.allocLink halloc hpage hadd hclean).1

theorem keeps_map_pages {npages v : Nat} {dir dir' : Directory} {ret : Int}
    (h : mapPagesMaybeMapped userWrite npages v m dir = some (m', dir', ret)) :
    KeepsTables dir dir' := by
  induction npages generalizing v m dir with
  | zero =>
      cases h
      exact fun region table htable => ⟨table, htable, rfl⟩
  | succ npages ih =>
      simp only [mapPagesMaybeMapped] at h
      split at h
      · exact ih h
      · obtain ⟨⟨m₁, page⟩, -, h⟩ := Option.bind_eq_some_iff.mp h
        by_cases hpage : page = 0
        · simp only [hpage, if_true] at h
          cases h
          exact fun region table htable => ⟨table, htable, rfl⟩
        · simp only [hpage, if_false] at h
          obtain ⟨⟨m₂, dir₂, ret₂⟩, hadd, h⟩ := Option.bind_eq_some_iff.mp h
          simp only at h
          split at h
          · cases h
            exact (keeps_page_table_add hadd).1
          · exact (keeps_page_table_add hadd).1.trans (ih h)

/-- `MapPagesMaybeMapped`. -/
theorem OwnerInv.mapPages {npages v : Nat} {dir dir' : Directory} {ret : Int}
    (h : OwnerInv ⟨m, Function.update pgdir pid dir, kernel⟩)
    (hmap : mapPagesMaybeMapped userWrite npages v m dir = some (m', dir', ret))
    (hclean : CleanTables m.pages dir dir') :
    OwnerInv ⟨m', Function.update pgdir pid dir', kernel⟩ := by
  induction npages generalizing v m dir with
  | zero =>
      cases hmap
      exact h
  | succ npages ih =>
      simp only [mapPagesMaybeMapped] at hmap
      split at hmap
      · exact ih h hmap hclean
      · obtain ⟨⟨m₁, page⟩, halloc, hmap⟩ := Option.bind_eq_some_iff.mp hmap
        by_cases hpage : page = 0
        · simp only [hpage, if_true] at hmap
          cases hmap
          exact h.allocNone (hpage ▸ halloc)
        · simp only [hpage, if_false] at hmap
          obtain ⟨⟨m₂, dir₂, ret₂⟩, hadd, hmap⟩ := Option.bind_eq_some_iff.mp hmap
          simp only at hmap
          split at hmap
          · cases hmap
            exact (h.allocLink halloc hpage hadd hclean).1
          · have hkeep := keeps_map_pages hmap
            obtain ⟨hinv, hpages, hkeep'⟩ := h.allocLink halloc hpage hadd (hclean.first hkeep)
            exact ih hinv hmap (by rw [hpages]; exact hclean.rest hkeep')

/-- `FreePages` on an allocation of the kernel. -/
theorem OwnerInv.free {b : PageBlock} (h : OwnerInv ⟨m, pgdir, kernel⟩) (hb : b ∈ kernel) :
    OwnerInv ⟨{ m with phymem := (m.phymem.freePages b.page).1 }, pgdir, kernel.erase b⟩ := by
  obtain ⟨i, hi⟩ := h.blocks b hb
  have hown : System.Owns ⟨m, pgdir, kernel⟩ (.block b) i := ⟨hb, hi⟩
  have hold : ∀ o j, System.Owns ⟨{ m with phymem := (m.phymem.freePages b.page).1 }, pgdir,
      kernel.erase b⟩ o j → System.Owns ⟨m, pgdir, kernel⟩ o j ∧ j ≠ i := by
    intro o j ho
    have hpast : System.Owns ⟨m, pgdir, kernel⟩ o j ∧ o ≠ .block b := by
      cases o with
      | page pid vpn => exact ⟨by simpa only [System.Owns, free_pages_index] using ho, by simp⟩
      | table pid region => exact ⟨by simpa only [System.Owns, free_pages_index] using ho, by simp⟩
      | block b' =>
          simp only [System.Owns, free_pages_index, h.nodup.mem_erase_iff] at ho
          exact ⟨⟨ho.1.2, ho.2⟩, by simpa using ho.1.1⟩
    refine ⟨hpast.1, ?_⟩
    rintro rfl
    exact hpast.2 (h.unique _ _ j hpast.1 hown)
  refine ⟨?_, ?_, ?_, ?_, h.nodup.sublist List.erase_sublist⟩
  · refine h.nodes.clear (free_pages_count _ _) (free_pages_base _ _) ?_
    intro j href
    simp only [free_pages_node] at href ⊢
    split at href
    · exact absurd rfl href
    · next hne => rw [if_neg hne]
  · intro o j ho
    obtain ⟨hpast, hne⟩ := hold o j ho
    simp only [free_pages_count, free_pages_node, hi, Option.some.injEq, Ne.symm hne, false_and,
      if_false]
    exact h.marked o j hpast
  · intro o o' j ho ho'
    exact h.unique o o' j (hold o j ho).1 (hold o' j ho').1
  · intro b' hb'
    simp only [free_pages_index]
    exact h.blocks b' (List.mem_of_mem_erase hb')

end XBook.Paging
