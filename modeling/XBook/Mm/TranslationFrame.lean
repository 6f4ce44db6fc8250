import XBook.Mm.PagesAdded

/-!
# What a new entry changes

`TableAddFrame` says what `PageTableAdd` should do to the translation of addresses: its page is
mapped as asked for, and no other page changes. Where the page table is there already, that takes
a directory entry with the rights that are asked for. Where it is not, `PageTableAdd` takes a page
for it and does not clear it, so that each word of the page becomes an entry; `table_add_frame_iff`
says exactly when no harm is done, and `maps_fresh` what follows for `MapPagesMaybeMapped`.

The addresses are those below the window in which the last directory entry shows the page tables
themselves.
-/

namespace XBook.Paging

/-- The address of the first page table entry, as `PageGetPte` computes it. -/
abbrev tableWindow : Nat := 0xFFC00000

/-- An entry seen through a directory entry with the given flags. -/
def throughTable (protect : Nat) (entry : PageEntry) : PageEntry :=
  ⟨entry.page, protect.testBit 2 && entry.user, protect.testBit 1 && entry.write⟩

/-- The page that the processor finds for an address, with the rights of both levels. -/
def Directory.translate (dir : Directory) (vaddr : Nat) : Option PageEntry :=
  (dir (pdeIdx vaddr)).bind fun table =>
    (entryOfWord (table.entries (pteIdx vaddr))).map (throughTable table.protect)

/-- What `PageTableAdd` should do to the translation. -/
structure TableAddFrame (dir dir' : Directory) (virtualAddr physicAddr protect : Nat) : Prop where
  maps : dir'.translate virtualAddr = some ⟨physicAddr, protect.testBit 2, protect.testBit 1⟩
  others : ∀ u < tableWindow, ¬ SamePage u virtualAddr → dir'.translate u = dir.translate u

/-- The page table has the rights that are asked for, or it is made from a page without a word
that is an entry. -/
def AddsCleanly (m : PageMemory) (dir : Directory) (virtualAddr physicAddr protect : Nat) : Prop :=
  match dir (pdeIdx virtualAddr) with
  | some table => physicAddr % pageSize = 0 ∧
      (protect.testBit 2 → table.protect.testBit 2) ∧ (protect.testBit 1 → table.protect.testBit 1)
  | none => ∀ m' page, m.allocPage = some (m', page) → page ≠ 0 → physicAddr % pageSize = 0 ∧
      ∀ index < 1024, index ≠ pteIdx virtualAddr → present (m.pages page index) = false

/-- No page that `AllocPages(1)` may take has a word that is an entry. -/
def FreeClean (m : PageMemory) : Prop :=
  ∀ page, m.Free page → ∀ index < 1024, present (m.pages page index) = false

/-- What `MapPagesMaybeMapped` should do: the pages of its range that were not mapped are mapped to
pages that were free, each to its own, and what was mapped stays. -/
structure MapsFresh (m : PageMemory) (dir : Directory) (m' : PageMemory) (dir' : Directory)
    (start npages : Nat) : Prop where
  keeps : ∀ u, (dir.frame u).isSome → dir'.frame u = dir.frame u
  fresh : ∀ u, VisitedFrom start npages u → dir.frame u = none →
    ∃ page, dir'.frame u = some page ∧ m.Free page ∧ ¬ m'.Free page
  apart : ∀ u w, VisitedFrom start npages u → VisitedFrom start npages w → dir.frame u = none →
    dir.frame w = none → ¬ SamePage u w → dir'.frame u ≠ dir'.frame w

/-! ## Translation -/

variable {m m' : PageMemory} {dir dir' : Directory}

theorem translate_set_word {v : Nat} {table : Table} (htable : dir (pdeIdx v) = some table)
    (word u : Nat) : (dir.setWord v word).translate u =
      if SamePage u v then (entryOfWord word).map (throughTable table.protect)
      else dir.translate u := by
  rw [Directory.set_word_some htable]
  by_cases hpde : pdeIdx u = pdeIdx v
  · by_cases hpte : pteIdx u = pteIdx v
    · rw [if_pos (same_page_iff.mpr ⟨hpde, hpte⟩)]
      simp [Directory.translate, hpde, hpte]
    · rw [if_neg fun h => hpte (same_page_iff.mp h).2]
      simp [Directory.translate, hpde, hpte, htable]
  · rw [if_neg fun h => hpde (same_page_iff.mp h).1]
    simp [Directory.translate, hpde]

theorem translate_add_table (dir : Directory) (v u : Nat) (table : Table) :
    (dir.addTable v table).translate u =
      if pdeIdx u = pdeIdx v then
        (entryOfWord (table.entries (pteIdx u))).map (throughTable table.protect)
      else dir.translate u := by
  simp only [Directory.addTable, Directory.translate, Function.update_apply]
  split <;> simp

/-- The entry that `PageTableAdd` stores maps the page that it is given. -/
theorem entry_of_added {physicAddr protect : Nat} (hprotect : protect < 8) :
    ∃ entry, entryOfWord (physicAddr ||| protect ||| 1) = some entry ∧
      entry.page % pageSize = 0 ∧ (physicAddr % pageSize = 0 →
        entry = ⟨physicAddr, protect.testBit 2, protect.testBit 1⟩) := by
  refine ⟨_, if_pos (present_entry physicAddr protect), page_mask_mod _, fun halign => ?_⟩
  have hbit : ∀ k < 12, physicAddr.testBit k = false := by
    intro k hk
    have hdvd : 2 ^ (k + 1) ∣ physicAddr :=
      (Nat.pow_dvd_pow 2 hk).trans (Nat.dvd_of_mod_eq_zero halign)
    obtain ⟨n, rfl⟩ := hdvd
    rw [Nat.testBit_two_pow_mul]
    simp
  rw [page_mask_entry halign (Nat.lt_of_lt_of_le hprotect (by decide))]
  simp [Nat.testBit_or, hbit, show Nat.testBit 1 1 = false by decide,
    show Nat.testBit 1 2 = false by decide]

/-- Where the page table is there, the new entry is the only change. -/
theorem table_add_present {table : Table} {virtualAddr physicAddr protect : Nat}
    (hprotect : protect < 8) (htable : dir (pdeIdx virtualAddr) = some table) :
    TableAddFrame dir (dir.setWord virtualAddr (physicAddr ||| protect ||| 1)) virtualAddr
        physicAddr protect ↔
      physicAddr % pageSize = 0 ∧ (protect.testBit 2 → table.protect.testBit 2) ∧
        (protect.testBit 1 → table.protect.testBit 1) := by
  obtain ⟨entry, hentry, halign, heq⟩ := @entry_of_added physicAddr protect hprotect
  have hmaps : (dir.setWord virtualAddr (physicAddr ||| protect ||| 1)).translate virtualAddr =
      some (throughTable table.protect entry) := by
    have hself : SamePage virtualAddr virtualAddr := rfl
    rw [translate_set_word htable, if_pos hself, hentry]
    rfl
  have hrights : ∀ a b : Bool, (a && b) = b ↔ (b = true → a = true) := by decide
  constructor
  · intro h
    have hsame := Option.some.inj (hmaps.symm.trans h.maps)
    have hpage : entry.page = physicAddr := congrArg PageEntry.page hsame
    have hphysic : physicAddr % pageSize = 0 := hpage ▸ halign
    rw [heq hphysic] at hsame
    simp only [throughTable, PageEntry.mk.injEq, true_and, hrights] at hsame
    exact ⟨hphysic, hsame⟩
  · rintro ⟨hphysic, huser, hwrite⟩
    refine ⟨?_, fun u _ hne => by rw [translate_set_word htable, if_neg hne]⟩
    rw [hmaps, heq hphysic]
    simp only [throughTable, Option.some.injEq, PageEntry.mk.injEq, true_and, hrights]
    exact ⟨huser, hwrite⟩

/-- Where a page table is made, the words of its page become entries. -/
theorem table_add_made {virtualAddr physicAddr protect page : Nat} {entries : Nat → Nat}
    (hprotect : protect < 8) (hvirtual : virtualAddr < tableWindow)
    (hnone : dir (pdeIdx virtualAddr) = none) :
    TableAddFrame dir ((dir.addTable virtualAddr ⟨page, protect, entries⟩).setWord virtualAddr
        (physicAddr ||| protect ||| 1)) virtualAddr physicAddr protect ↔
      physicAddr % pageSize = 0 ∧
        ∀ index < 1024, index ≠ pteIdx virtualAddr → present (entries index) = false := by
  have htable : dir.addTable virtualAddr ⟨page, protect, entries⟩ (pdeIdx virtualAddr) =
      some ⟨page, protect, entries⟩ := Function.update_self ..
  have hset := @table_add_present _ _ virtualAddr physicAddr protect hprotect htable
  -- another address of the region is mapped exactly when its word is an entry
  have hother : ∀ u, pdeIdx u = pdeIdx virtualAddr → ¬ SamePage u virtualAddr →
      (((dir.addTable virtualAddr ⟨page, protect, entries⟩).setWord virtualAddr
        (physicAddr ||| protect ||| 1)).translate u = dir.translate u ↔
          present (entries (pteIdx u)) = false) := by
    intro u hpde hne
    have hold : dir.translate u = none := by
      simp [Directory.translate, hpde, hnone]
    rw [translate_set_word htable, if_neg hne, translate_add_table, if_pos hpde, hold]
    by_cases hword : (entries (pteIdx u)).testBit 0 = true <;> simp [entryOfWord, present, hword]
  constructor
  · intro h
    refine ⟨(hset.mp ⟨h.maps, fun u _ hne => by rw [translate_set_word htable, if_neg hne]⟩).1, ?_⟩
    intro index hindex hne
    -- the address whose entry stands at the index
    have hpde : pdeIdx (pdeIdx virtualAddr * 2 ^ 22 + index * pageSize) = pdeIdx virtualAddr := by
      simp only [pdeIdx, pageSize]
      omega
    have hpte : pteIdx (pdeIdx virtualAddr * 2 ^ 22 + index * pageSize) = index := by
      simp only [pdeIdx, pteIdx, pageSize]
      omega
    have hpage : ¬ SamePage (pdeIdx virtualAddr * 2 ^ 22 + index * pageSize) virtualAddr := by
      intro hsame
      exact hne (hpte.symm.trans (same_page_iff.mp hsame).2)
    have hlow : pdeIdx virtualAddr * 2 ^ 22 + index * pageSize < tableWindow := by
      simp only [pdeIdx, pageSize, tableWindow] at *
      omega
    have hword := (hother _ hpde hpage).mp (h.others _ hlow hpage)
    rwa [hpte] at hword
  · rintro ⟨hphysic, hclean⟩
    refine ⟨(hset.mpr ⟨hphysic, id, id⟩).maps, ?_⟩
    intro u hu hne
    by_cases hpde : pdeIdx u = pdeIdx virtualAddr
    · refine (hother u hpde hne).mpr (hclean _ (Nat.mod_lt _ (by decide)) ?_)
      exact fun hpte => hne (same_page_iff.mpr ⟨hpde, hpte⟩)
    · rw [translate_set_word htable, if_neg hne, translate_add_table, if_neg hpde]

/-- `PageTableAdd` does what it should exactly when it adds cleanly. -/
theorem table_add_frame_iff {virtualAddr physicAddr protect : Nat}
    (hvirtual : virtualAddr < tableWindow) (hprotect : protect < 8) :
    (∀ m' dir', pageTableAdd m dir virtualAddr physicAddr protect = some (m', dir', 0) →
        TableAddFrame dir dir' virtualAddr physicAddr protect) ↔
      AddsCleanly m dir virtualAddr physicAddr protect := by
  unfold AddsCleanly pageTableAdd
  cases htable : dir (pdeIdx virtualAddr) with
  | some table =>
      simp only [← table_add_present hprotect htable]
      constructor
      · exact fun h => h m _ rfl
      · rintro h m' dir' heq
        cases heq
        exact h
  | none =>
      simp only
      constructor
      · intro h m' page halloc hpage
        rw [← (alloc_page_cases halloc).2]
        have hframe := h m' ((dir.addTable virtualAddr ⟨page, protect, m'.pages page⟩).setWord
          virtualAddr (physicAddr ||| protect ||| 1)) (by simp [halloc, hpage])
        exact (table_add_made hprotect hvirtual htable).mp hframe
      · intro h m' dir' heq
        obtain ⟨⟨m₁, page⟩, halloc, heq⟩ := Option.map_eq_some_iff.mp heq
        by_cases hpage : page = 0
        · simp [hpage] at heq
        · simp only [hpage, if_false, Prod.mk.injEq, and_true] at heq
          obtain ⟨rfl, rfl⟩ := heq
          refine (table_add_made hprotect hvirtual htable).mpr ?_
          rw [(alloc_page_cases halloc).2]
          exact h m₁ page halloc hpage

/-! ## Mapping a range -/

/-- The frames after `PageTableAdd`, when no free page has a word that is an entry. -/
theorem add_frame_clean {v page protect : Nat} {ret : Int} (hfits : m.Fits)
    (hclean : FreeClean m) (halign : page % pageSize = 0) (hprotect : protect < 8)
    (hadd : pageTableAdd m dir v page protect = some (m', dir', ret)) (hret : ret = 0) (u : Nat) :
    dir'.frame u = if SamePage u v then some page else dir.frame u := by
  have hentry : ((if present (page ||| protect ||| 1) then
      some (pageMask (page ||| protect ||| 1)) else none : Option Nat)) = some page := by
    rw [if_pos (present_entry page protect),
      page_mask_entry halign (Nat.lt_of_lt_of_le hprotect (by decide))]
  rcases page_table_add_cases hadd with ⟨hsome, -, -, rfl⟩ | ⟨hnone, q, halloc, hcase⟩
  · have hword : (dir.word v).isSome := by
      simpa [Directory.word] using hsome
    rw [Directory.frame, Directory.word_set_word]
    by_cases hsame : SamePage u v
    · rw [if_pos ⟨hsame, hword⟩, if_pos hsame]
      exact hentry
    · rw [if_neg fun hand => hsame hand.1, if_neg hsame]
      rfl
  · rcases hcase with ⟨-, -, hfail⟩ | ⟨hq, -, rfl⟩
    · rw [hfail] at hret
      cases hret
    · obtain ⟨-, hpages, hfree⟩ := PageMemory.alloc_page_spec hfits halloc
      have hword : ((dir.addTable v ⟨q, protect, m'.pages q⟩).word v).isSome := by
        simp [Directory.word_add_table]
      rw [Directory.frame, Directory.word_set_word]
      by_cases hsame : SamePage u v
      · rw [if_pos ⟨hsame, hword⟩, if_pos hsame]
        exact hentry
      · rw [if_neg fun hand => hsame hand.1, if_neg hsame, Directory.word_add_table]
        by_cases hpde : pdeIdx u = pdeIdx v
        · -- the region had no table, and the page of the new one is clean
          have hbits := hclean q (hfree hq).1 (pteIdx u) (Nat.mod_lt _ (by decide))
          simp [Directory.frame, Directory.word, hpde, hnone, hpages, hbits]
        · rw [if_neg hpde]
          rfl

theorem FreeClean.grows (h : FreeClean m) (hgrows : m.Grows m') : FreeClean m' := by
  intro page hfree index hindex
  rw [hgrows.pages page (.inl hfree)]
  exact h page (hgrows.free page hfree) index hindex

theorem grows_page_table_add {v page protect : Nat} {ret : Int} (hfits : m.Fits)
    (hadd : pageTableAdd m dir v page protect = some (m', dir', ret)) : m.Grows m' := by
  rcases page_table_add_cases hadd with ⟨-, rfl, -, -⟩ | ⟨-, q, halloc, -⟩
  · exact .refl _
  · exact (PageMemory.alloc_page_spec hfits halloc).1

theorem visited_from_succ {v npages u : Nat} (hv : v < 2 ^ 32) :
    VisitedFrom v (npages + 1) u ↔ SamePage u v ∨ VisitedFrom (wrap (v + pageSize)) npages u := by
  have hstep : ∀ i, wrap (wrap (v + pageSize) + i * pageSize) = wrap (v + (i + 1) * pageSize) := by
    intro i
    simp only [wrap, pageSize]
    omega
  constructor
  · rintro ⟨i, hi, hsame⟩
    cases i with
    | zero =>
        rw [Nat.zero_mul, Nat.add_zero, wrap_of_lt hv] at hsame
        exact .inl hsame
    | succ i => exact .inr ⟨i, by omega, by rwa [hstep]⟩
  · rintro (hsame | ⟨i, hi, hsame⟩)
    · exact ⟨0, by omega, by rwa [Nat.zero_mul, Nat.add_zero, wrap_of_lt hv]⟩
    · exact ⟨i + 1, by omega, by rwa [hstep] at hsame⟩

/-- One page is mapped before the rest of the range. -/
theorem MapsFresh.cons {m₂ : PageMemory} {dir₂ : Directory} {v npages page : Nat}
    (hv : v < 2 ^ 32) (hunmapped : dir.frame v = none)
    (hgrows : m.Grows m₂) (hfree : m.Free page) (htaken : ¬ m₂.Free page)
    (hframe : ∀ u, dir₂.frame u = if SamePage u v then some page else dir.frame u)
    (hrest : MapsFresh m₂ dir₂ m' dir' (wrap (v + pageSize)) npages)
    (hgrowsRest : m₂.Grows m') : MapsFresh m dir m' dir' v (npages + 1) := by
  have hself : ∀ u, SamePage u v → dir'.frame u = some page := by
    intro u hsame
    have hmapped : dir₂.frame u = some page := by rw [hframe, if_pos hsame]
    rw [hrest.keeps u (by rw [hmapped]; rfl), hmapped]
  have hother : ∀ u, ¬ SamePage u v → dir₂.frame u = dir.frame u :=
    fun u hne => by rw [hframe, if_neg hne]
  have hlater : ∀ u, VisitedFrom v (npages + 1) u → ¬ SamePage u v →
      VisitedFrom (wrap (v + pageSize)) npages u :=
    fun u hvisit hne => ((visited_from_succ hv).mp hvisit).resolve_left hne
  -- a page that is mapped later was free when this one was not
  have hdiffers : ∀ u, VisitedFrom v (npages + 1) u → dir.frame u = none → ¬ SamePage u v →
      dir'.frame u ≠ some page := by
    intro u hvisit hnone hne heq
    obtain ⟨page', hpage', hfree', -⟩ := hrest.fresh u (hlater u hvisit hne)
      ((hother u hne).trans hnone)
    rw [heq] at hpage'
    cases hpage'
    exact htaken hfree'
  refine ⟨?_, ?_, ?_⟩
  · intro u hsome
    have hne : ¬ SamePage u v := by
      intro hsame
      rw [dir.frame_congr hsame, hunmapped] at hsome
      cases hsome
    rw [← hother u hne] at hsome ⊢
    exact hrest.keeps u hsome
  · intro u hvisit hnone
    by_cases hsame : SamePage u v
    · exact ⟨page, hself u hsame, hfree, fun hfree' => htaken (hgrowsRest.free page hfree')⟩
    · obtain ⟨page', hpage', hfree', htaken'⟩ := hrest.fresh u (hlater u hvisit hsame)
        ((hother u hsame).trans hnone)
      exact ⟨page', hpage', hgrows.free page' hfree', htaken'⟩
  · intro u w hu hw hunone hwnone hne
    by_cases hsameu : SamePage u v
    · have hsamew : ¬ SamePage w v := fun hsamew => hne (hsameu.trans hsamew.symm)
      rw [hself u hsameu]
      exact (hdiffers w hw hwnone hsamew).symm
    · by_cases hsamew : SamePage w v
      · rw [hself w hsamew]
        exact hdiffers u hu hunone hsameu
      · exact hrest.apart u w (hlater u hu hsameu) (hlater w hw hsamew)
          ((hother u hsameu).trans hunone) ((hother w hsamew).trans hwnone) hne

/-- `MapPagesMaybeMapped` maps what was not mapped, when no free page has a word that is an
entry. -/
theorem maps_fresh {protect npages v : Nat} (hm : WellPlaced m.phymem) (hfits : m.Fits)
    (hclean : FreeClean m) (hprotect : protect < 8) (hv : v < 2 ^ 32)
    (hmap : mapPagesMaybeMapped protect npages v m dir = some (m', dir', 0)) :
    MapsFresh m dir m' dir' v npages ∧ m.Grows m' := by
  induction npages generalizing v m dir with
  | zero =>
      cases hmap
      refine ⟨⟨fun _ _ => rfl, ?_, ?_⟩, .refl _⟩
      · rintro u ⟨i, hi, -⟩
        exact absurd hi (Nat.not_lt_zero i)
      · rintro u w ⟨i, hi, -⟩
        exact absurd hi (Nat.not_lt_zero i)
  | succ npages ih =>
      rw [mapPagesMaybeMapped] at hmap
      split at hmap
      · next hmapped =>
          obtain ⟨hrest, hgrows⟩ := ih hm hfits hclean (wrap_lt _) hmap
          have hlater : ∀ u, VisitedFrom v (npages + 1) u → dir.frame u = none →
              VisitedFrom (wrap (v + pageSize)) npages u := by
            intro u hvisit hnone
            refine ((visited_from_succ hv).mp hvisit).resolve_left fun hsame => ?_
            rw [← dir.frame_congr hsame, hnone] at hmapped
            cases hmapped
          exact ⟨⟨hrest.keeps, fun u hu hnone => hrest.fresh u (hlater u hu hnone) hnone,
            fun u w hu hw hunone hwnone => hrest.apart u w (hlater u hu hunone)
              (hlater w hw hwnone) hunone hwnone⟩, hgrows⟩
      · next hunmapped =>
          have hnone : dir.frame v = none := by simpa using hunmapped
          obtain ⟨⟨m₁, page⟩, halloc, hmap⟩ := Option.bind_eq_some_iff.mp hmap
          by_cases hpage : page = 0
          · simp [hpage] at hmap
          · simp only [hpage, if_false] at hmap
            obtain ⟨⟨m₂, dir₂, ret⟩, hadd, hmap⟩ := Option.bind_eq_some_iff.mp hmap
            by_cases hret : ret = 0
            · simp only [hret, ne_eq, not_true_eq_false, if_false] at hmap
              obtain ⟨hgrows₁, -, hfree⟩ := PageMemory.alloc_page_spec hfits halloc
              obtain ⟨hcount, hbase, hplaced⟩ := alloc_page_placed hm halloc
              have hfits₁ := hgrows₁.fits hfits
              have hgrows₂ := grows_page_table_add hfits₁ hadd
              have hm₂ : WellPlaced m₂.phymem := by
                refine ⟨?_, ?_⟩
                · rw [hgrows₂.count, hcount]
                  exact hm.bound
                · rw [hgrows₂.base, hbase]
                  exact hm.aligned
              have hclean₁ := hclean.grows hgrows₁
              obtain ⟨hrest, hgrows⟩ := ih hm₂ (hgrows₂.fits hfits₁) (hclean₁.grows hgrows₂)
                (wrap_lt _) hmap
              have hframe := add_frame_clean hfits₁ hclean₁ (hplaced hpage).1 hprotect hadd hret
              exact ⟨MapsFresh.cons hv hnone (hgrows₁.trans hgrows₂) (hfree hpage).1
                (fun hfree' => (hfree hpage).2 (hgrows₂.free page hfree')) hframe hrest hgrows,
                (hgrows₁.trans hgrows₂).trans hgrows⟩
            · simp [hret] at hmap

/-- Two free pages above `0x1000000`, whose words are all `word`. -/
def twoPages (word : Nat) : PageMemory := ⟨⟨fun _ => {}, 2, 0x1000000⟩, fun _ _ => word⟩

end XBook.Paging
