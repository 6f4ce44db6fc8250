import XBook.Mm.PageTable

/-!
# The direct map

`StepPage` of `arch/x86/boot/loader.asm` and `MapDirectMemory` of `arch/x86/mm/phymem.c`, which
build the kernel's page tables word by word. The tables of the direct map lie 16 KB apart, since
`pageTablePhyAddress`, a pointer to words, advances by `PAGE_SIZE`. `direct_mapped_iff` says which
physical addresses `Phy2Vir` may be applied to.
-/

namespace XBook.Paging

/-- The word at each physical address. -/
abbrev Words := Nat → Nat

/-- `PAGE_DIR_PHY_ADDR`. -/
abbrev pageDirPhyAddr : Nat := 0x201000

/-- `PAGE_TABLE_PHY_ADDR`. -/
abbrev pageTablePhyAddr : Nat := 0x202000

/-- `PAGE_TABLE_PHY_NR`. -/
abbrev pageTablePhyNr : Nat := 2

/-- `DMA_MEM_ADDR`. -/
abbrev dmaMemAddr : Nat := 0x800000

/-- `KERNEL_PAGE_ATTR`, which is `PAGE_P_1 | PAGE_RW_W | PAGE_US_S`. -/
abbrev kernelPageAttr : Nat := 3

/-- Fills entries of a page table, from the one at `entry` on, with the pages from `start` on. -/
def fillTable : Nat → Nat → Nat → Words → Words
  | 0, _, _, w => w
  | n + 1, entry, start, w =>
      fillTable n (entry + 4) (wrap (start + pageSize))
        (Function.update w entry (start ||| kernelPageAttr))

/-- Clears entries of the page directory, from the one at `index` on. -/
def clearDirectory : Nat → Nat → Words → Words
  | 0, _, w => w
  | n + 1, index, w => clearDirectory n (index + 1) (Function.update w (pageDirPhyAddr + index * 4) 0)

/-- Sets an entry of the page directory. -/
def setDirectory (w : Words) (index table : Nat) : Words :=
  Function.update w (pageDirPhyAddr + index * 4) (table ||| kernelPageAttr)

/-- `StepPage`: the first 8 MB, mapped at 0 and at `PAGE_OFFSET`, and the directory itself. -/
def stepPage (w : Words) : Words :=
  let w := clearDirectory 1024 0 w
  let w := setDirectory w 0 pageTablePhyAddr
  let w := setDirectory w 512 pageTablePhyAddr
  let w := setDirectory w 1 (pageTablePhyAddr + 0x1000)
  let w := setDirectory w 513 (pageTablePhyAddr + 0x1000)
  let w := setDirectory w 1023 pageDirPhyAddr
  fillTable 2048 pageTablePhyAddr 0 w

/-- The first loop of `MapDirectMemory`, over the directory entries whose tables are full. Returns
`pageTablePhyAddress` and `start` as well. -/
def fillDirectory : Nat → Nat → Nat → Nat → Words → Words × Nat × Nat
  | 0, _, table, start, w => (w, table, start)
  | n + 1, i, table, start, w =>
      fillDirectory n (i + 1) (table + 4 * pageSize) (wrap (start + 1024 * pageSize))
        (fillTable 1024 table start (setDirectory w (512 + pageTablePhyNr + i) table))

/-- `MapDirectMemory`. -/
def mapDirectMemory (w : Words) (start stop : Nat) : Words :=
  let pageDirEntryNumber := wrapSub stop start / (1024 * pageSize)
  let pageTableEntryNumber := wrapSub stop start / pageSize % 1024
  let (w, table, start) := fillDirectory pageDirEntryNumber 0
    (pageTablePhyAddr + pageSize * pageTablePhyNr) start w
  let w := if pageTableEntryNumber ≠ 0 then
      fillTable pageTableEntryNumber table start
        (setDirectory w (512 + pageTablePhyNr + pageDirEntryNumber) table)
    else w
  clearDirectory 512 0 w

/-- The physical address that the processor finds for a virtual one. -/
def translate (w : Words) (vaddr : Nat) : Option Nat :=
  let pde := w (pageDirPhyAddr + pdeIdx vaddr * 4)
  if present pde then
    let pte := w (pageMask pde + pteIdx vaddr * 4)
    if present pte then some (pageMask pte + vaddr % pageSize) else none
  else none

/-- `Phy2Vir`. -/
def phy2Vir (address : Nat) : Nat := wrap (address + pageOffset)

/-- Whatever the memory held, the direct map that is made for `normalSize` translates
`Phy2Vir(address)` to the address. -/
def DirectMapped (normalSize address : Nat) : Prop :=
  ∀ w, translate (mapDirectMemory (stepPage w) dmaMemAddr (normalMemAddr + normalSize))
    (phy2Vir address) = some address

/-! ## Entries -/

theorem present_attr (page : Nat) : present (page ||| kernelPageAttr) = true := by
  simp [present, kernelPageAttr]

theorem page_mask_attr {page : Nat} (h : page % pageSize = 0) :
    pageMask (page ||| kernelPageAttr) = page := by
  have heq : page ||| kernelPageAttr = page ||| 2 ||| 1 := by
    rw [Nat.or_assoc]
    rfl
  rw [heq]
  exact page_mask_entry h (by decide)

/-- The loop stores nothing outside its entries. -/
theorem fill_table_frame {n entry start : Nat} {w : Words} {addr : Nat}
    (h : addr < entry ∨ entry + n * 4 ≤ addr) : fillTable n entry start w addr = w addr := by
  induction n generalizing entry start w with
  | zero => rfl
  | succ n ih =>
      rw [fillTable, ih (by omega), Function.update_of_ne (by omega)]

/-- The loop stores an entry for each page. -/
theorem fill_table_get {n entry start j : Nat} {w : Words} (hj : j < n) (hstart : start < 2 ^ 32) :
    fillTable n entry start w (entry + j * 4) =
      wrap (start + j * pageSize) ||| kernelPageAttr := by
  induction n generalizing entry start w j with
  | zero => omega
  | succ n ih =>
      rw [fillTable]
      cases j with
      | zero =>
          rw [fill_table_frame (by omega), Nat.zero_mul, Nat.add_zero, Function.update_self,
            Nat.zero_mul, Nat.add_zero, wrap_of_lt hstart]
      | succ j =>
          have hpage : wrap (wrap (start + pageSize) + j * pageSize) =
              wrap (start + (j + 1) * pageSize) := by
            simp only [wrap, pageSize]
            omega
          rw [show entry + (j + 1) * 4 = entry + 4 + j * 4 by omega, ih (by omega) (wrap_lt _), hpage]

/-- The loop leaves the entries outside its range as they are, and clears those inside. -/
theorem clear_directory_word (n index : Nat) (w : Words) (addr : Nat) :
    clearDirectory n index w addr =
      if ∃ k < n, addr = pageDirPhyAddr + (index + k) * 4 then 0 else w addr := by
  induction n generalizing index w with
  | zero => simp [clearDirectory]
  | succ n ih =>
      rw [clearDirectory, ih, Function.update_apply]
      by_cases hrest : ∃ k < n, addr = pageDirPhyAddr + (index + 1 + k) * 4
      · obtain ⟨k, hk, rfl⟩ := hrest
        rw [if_pos ⟨k, hk, rfl⟩, if_pos ⟨k + 1, by omega, by omega⟩]
      · rw [if_neg hrest]
        by_cases hfirst : addr = pageDirPhyAddr + index * 4
        · rw [if_pos hfirst, if_pos ⟨0, by omega, by omega⟩]
        · rw [if_neg hfirst, if_neg]
          rintro ⟨k, hk, heq⟩
          cases k with
          | zero => exact hfirst heq
          | succ k => exact hrest ⟨k, by omega, by omega⟩

theorem set_directory_self (w : Words) (index table : Nat) :
    setDirectory w index table (pageDirPhyAddr + index * 4) = table ||| kernelPageAttr :=
  Function.update_self _ _ _

theorem set_directory_other {w : Words} {index table addr : Nat}
    (h : addr ≠ pageDirPhyAddr + index * 4) : setDirectory w index table addr = w addr :=
  Function.update_of_ne h _ _

/-- What the first loop of `MapDirectMemory` leaves: a directory entry and a full table for each
of its rounds, and every other word as it was. -/
structure FilledDirectory (n i table start : Nat) (w w' : Words) : Prop where
  directory : ∀ k < n, w' (pageDirPhyAddr + (512 + pageTablePhyNr + (i + k)) * 4) =
    (table + k * (4 * pageSize)) ||| kernelPageAttr
  tables : ∀ k < n, ∀ j < 1024, w' (table + k * (4 * pageSize) + j * 4) =
    wrap (start + (k * 1024 + j) * pageSize) ||| kernelPageAttr
  frame : ∀ addr, addr < pageDirPhyAddr + (512 + pageTablePhyNr + i) * 4 ∨
    (pageDirPhyAddr + (512 + pageTablePhyNr + (i + n)) * 4 ≤ addr ∧ addr < table) ∨
    table + n * (4 * pageSize) ≤ addr → w' addr = w addr

theorem fill_directory_spec {n i table start : Nat} {w : Words}
    (htable : pageDirPhyAddr + (512 + pageTablePhyNr + (i + n)) * 4 ≤ table)
    (hstart : start < 2 ^ 32) :
    FilledDirectory n i table start w (fillDirectory n i table start w).1 ∧
      (fillDirectory n i table start w).2.1 = table + n * (4 * pageSize) ∧
      (fillDirectory n i table start w).2.2 = wrap (start + n * (1024 * pageSize)) := by
  induction n generalizing i table start w with
  | zero =>
      refine ⟨⟨?_, ?_, ?_⟩, by simp [fillDirectory], ?_⟩
      · intro k hk
        omega
      · intro k hk
        omega
      · intro addr _
        rfl
      · simp [fillDirectory, wrap_of_lt hstart]
  | succ n ih =>
      rw [fillDirectory]
      generalize hfirst : fillTable 1024 table start
        (setDirectory w (512 + pageTablePhyNr + i) table) = w₁
      obtain ⟨hrest, htable', hstart'⟩ := @ih (i + 1) (table + 4 * pageSize)
        (wrap (start + 1024 * pageSize)) w₁ (by simp only [pageSize] at *; omega) (wrap_lt _)
      have hframe : ∀ addr, addr < table ∨ table + 1024 * 4 ≤ addr →
          w₁ addr = setDirectory w (512 + pageTablePhyNr + i) table addr := by
        intro addr haddr
        rw [← hfirst]
        exact fill_table_frame haddr
      refine ⟨⟨?_, ?_, ?_⟩, ?_, ?_⟩
      · intro k hk
        cases k with
        | zero =>
            rw [hrest.frame _ (.inl (by omega)), hframe _ (.inl (by omega)), Nat.add_zero,
              set_directory_self, Nat.zero_mul, Nat.add_zero]
        | succ k =>
            have hk' := hrest.directory k (by omega)
            have htables : table + 4 * pageSize + k * (4 * pageSize) =
                table + (k + 1) * (4 * pageSize) := by
              simp only [pageSize]
              omega
            rw [htables, show i + 1 + k = i + (k + 1) by omega] at hk'
            exact hk'
      · intro k hk j hj
        cases k with
        | zero =>
            have haddr : table + 0 * (4 * pageSize) + j * 4 = table + j * 4 := by omega
            have hbelow : table + j * 4 < table + 4 * pageSize := by
              simp only [pageSize]
              omega
            rw [haddr, hrest.frame _ (.inr (.inl ⟨by omega, hbelow⟩)), ← hfirst,
              fill_table_get hj hstart, Nat.zero_mul, Nat.zero_add]
        | succ k =>
            have hk' := hrest.tables k (by omega) j hj
            have haddr : table + 4 * pageSize + k * (4 * pageSize) + j * 4 =
                table + (k + 1) * (4 * pageSize) + j * 4 := by
              simp only [pageSize]
              omega
            have hpage : wrap (wrap (start + 1024 * pageSize) + (k * 1024 + j) * pageSize) =
                wrap (start + ((k + 1) * 1024 + j) * pageSize) := by
              simp only [wrap, pageSize]
              omega
            rw [haddr, hpage] at hk'
            exact hk'
      · intro addr haddr
        have hne : addr ≠ pageDirPhyAddr + (512 + pageTablePhyNr + i) * 4 := by
          simp only [pageSize] at *
          omega
        have hout : addr < table ∨ table + 1024 * 4 ≤ addr := by
          simp only [pageSize] at *
          omega
        rw [hrest.frame addr (by simp only [pageSize] at *; omega), hframe addr hout,
          set_directory_other hne]
      · rw [htable']
        simp only [pageSize]
        omega
      · rw [hstart']
        simp only [wrap, pageSize]
        omega

/-! ## Translation -/

/-- `MapDirectMemory` after its first loop. -/
theorem map_direct_memory_eq {w w₁ : Words} {start stop table start₁ len : Nat}
    (hlen : wrapSub stop start = len)
    (hfill : fillDirectory (len / (1024 * pageSize)) 0 (pageTablePhyAddr + pageSize * pageTablePhyNr)
      start w = (w₁, table, start₁)) :
    mapDirectMemory w start stop = clearDirectory 512 0
      (if len / pageSize % 1024 ≠ 0 then
        fillTable (len / pageSize % 1024) table start₁
          (setDirectory w₁ (512 + pageTablePhyNr + len / (1024 * pageSize)) table)
      else w₁) := by
  rw [mapDirectMemory, hlen, hfill]

/-- The entries that `MapDirectMemory` makes for the page with number `k` of its range. -/
theorem map_direct_memory_page {normalSize k : Nat} (hsize : normalSize ≤ 0x40000000)
    (hk : k < (0x800000 + normalSize) / pageSize) (w : Words) :
    mapDirectMemory w dmaMemAddr (normalMemAddr + normalSize)
        (pageDirPhyAddr + (512 + pageTablePhyNr + k / 1024) * 4) =
      (0x204000 + k / 1024 * (4 * pageSize)) ||| kernelPageAttr ∧
    mapDirectMemory w dmaMemAddr (normalMemAddr + normalSize)
        (0x204000 + k / 1024 * (4 * pageSize) + k % 1024 * 4) =
      (dmaMemAddr + k * pageSize) ||| kernelPageAttr := by
  have hlen : wrapSub (normalMemAddr + normalSize) dmaMemAddr = 0x800000 + normalSize := by
    simp only [wrapSub, wrap, normalMemAddr, dmaMemAddr]
    omega
  have hdirs : (0x800000 + normalSize) / (1024 * pageSize) ≤ 258 := by
    simp only [pageSize]
    omega
  obtain ⟨hfilled, htable, hstart⟩ := @fill_directory_spec
    ((0x800000 + normalSize) / (1024 * pageSize)) 0 (pageTablePhyAddr + pageSize * pageTablePhyNr)
    dmaMemAddr w (by simp only [pageDirPhyAddr, pageTablePhyAddr, pageTablePhyNr, pageSize]; omega)
    (by decide)
  obtain ⟨⟨w₁, table, start⟩, hfill⟩ : ∃ r, fillDirectory
    ((0x800000 + normalSize) / (1024 * pageSize)) 0 (pageTablePhyAddr + pageSize * pageTablePhyNr)
    dmaMemAddr w = r := ⟨_, rfl⟩
  rw [map_direct_memory_eq hlen hfill]
  rw [hfill] at hfilled htable hstart
  rw [show pageTablePhyAddr + pageSize * pageTablePhyNr = 0x204000 by decide] at hfilled htable
  generalize hn : (0x800000 + normalSize) / (1024 * pageSize) = n at *
  simp only at hfilled htable hstart
  subst htable hstart
  have hpage : wrap (dmaMemAddr + k * pageSize) = dmaMemAddr + k * pageSize := by
    simp only [wrap, dmaMemAddr, pageSize] at *
    omega
  -- the last loop clears the user half only
  have hclear : ∀ (u : Words) addr, pageDirPhyAddr + 512 * 4 ≤ addr →
      clearDirectory 512 0 u addr = u addr := by
    intro u addr haddr
    rw [clear_directory_word, if_neg]
    rintro ⟨j, hj, rfl⟩
    omega
  rw [hclear _ _ (by omega), hclear _ _ (by simp only [pageDirPhyAddr]; omega)]
  by_cases hfull : k / 1024 < n
  · have hentry := hfilled.directory (k / 1024) hfull
    have hword := hfilled.tables (k / 1024) hfull (k % 1024) (Nat.mod_lt _ (by decide))
    rw [show k / 1024 * 1024 + k % 1024 = k by omega, hpage] at hword
    rw [Nat.zero_add] at hentry
    split
    · -- the partial table lies behind the full ones
      have hbelow : k / 1024 * (4 * pageSize) + 4 * pageSize ≤ n * (4 * pageSize) := by
        rw [← Nat.succ_mul]
        exact Nat.mul_le_mul_right _ hfull
      rw [fill_table_frame (.inl (by simp only [pageDirPhyAddr, pageTablePhyNr]; omega)),
        set_directory_other (by omega),
        fill_table_frame (.inl (by simp only [pageSize] at *; omega)),
        set_directory_other (by
          simp only [pageDirPhyAddr, pageTablePhyNr]
          omega)]
      exact ⟨hentry, hword⟩
    · exact ⟨hentry, hword⟩
  · have hlast : k / 1024 = n ∧ k % 1024 < (0x800000 + normalSize) / pageSize % 1024 := by
      simp only [pageSize] at *
      omega
    rw [if_pos (by omega), hlast.1]
    have hstart : wrap (wrap (dmaMemAddr + n * (1024 * pageSize)) + k % 1024 * pageSize) =
        dmaMemAddr + k * pageSize := by
      rw [← hpage]
      simp only [wrap, pageSize]
      omega
    refine ⟨?_, ?_⟩
    · rw [fill_table_frame (.inl (by simp only [pageDirPhyAddr, pageTablePhyNr]; omega)),
        set_directory_self]
    · rw [fill_table_get hlast.2 (wrap_lt _), hstart]

/-- The direct map translates the addresses that it is made for. -/
theorem direct_mapped_of_lt {normalSize address : Nat} (hsize : normalSize ≤ 0x40000000)
    (hlow : dmaMemAddr ≤ address)
    (hhigh : address < normalMemAddr + normalSize / pageSize * pageSize) :
    DirectMapped normalSize address := by
  intro w
  have hk : (address - dmaMemAddr) / pageSize < (0x800000 + normalSize) / pageSize := by
    simp only [dmaMemAddr, normalMemAddr, pageSize] at *
    omega
  obtain ⟨hentry, hword⟩ := map_direct_memory_page hsize hk (stepPage w)
  generalize hkdef : (address - dmaMemAddr) / pageSize = k at *
  have hvirt : phy2Vir address = address + pageOffset := by
    refine wrap_of_lt ?_
    simp only [normalMemAddr, pageSize, pageOffset] at *
    omega
  have hpde : pdeIdx (phy2Vir address) = 512 + pageTablePhyNr + k / 1024 := by
    rw [hvirt]
    simp only [pdeIdx, pageTablePhyNr, pageOffset, dmaMemAddr, pageSize] at *
    omega
  have hpte : pteIdx (phy2Vir address) = k % 1024 := by
    rw [hvirt]
    simp only [pteIdx, pageOffset, dmaMemAddr, pageSize] at *
    omega
  have htable : pageMask ((0x204000 + k / 1024 * (4 * pageSize)) ||| kernelPageAttr) =
      0x204000 + k / 1024 * (4 * pageSize) := by
    refine page_mask_attr ?_
    simp only [pageSize]
    omega
  have hpage : pageMask ((dmaMemAddr + k * pageSize) ||| kernelPageAttr) =
      dmaMemAddr + k * pageSize := by
    refine page_mask_attr ?_
    simp only [dmaMemAddr, pageSize]
    omega
  simp only [translate, hpde, hentry, present_attr, if_true, hpte, htable, hword, hpage]
  rw [hvirt, Option.some_inj]
  simp only [pageOffset, dmaMemAddr, pageSize] at *
  omega

/-! ## The end of the map -/

/-- Every page that an entry names ends at `bound` or before. -/
def EntriesBelow (bound : Nat) (w : Words) : Prop :=
  ∀ addr, present (w addr) = true → pageMask (w addr) + pageSize ≤ bound

variable {bound : Nat} {w : Words}

theorem EntriesBelow.store (h : EntriesBelow bound w) {page : Nat} (halign : page % pageSize = 0)
    (hbound : page + pageSize ≤ bound) (entry : Nat) :
    EntriesBelow bound (Function.update w entry (page ||| kernelPageAttr)) := by
  intro addr hpresent
  rw [Function.update_apply] at hpresent ⊢
  split
  · rw [page_mask_attr halign]
    exact hbound
  · next hne =>
      rw [if_neg hne] at hpresent
      exact h addr hpresent

theorem EntriesBelow.set (h : EntriesBelow bound w) {table : Nat} (halign : table % pageSize = 0)
    (hbound : table + pageSize ≤ bound) (index : Nat) :
    EntriesBelow bound (setDirectory w index table) :=
  h.store halign hbound _

theorem EntriesBelow.clear (h : EntriesBelow bound w) (n index : Nat) :
    EntriesBelow bound (clearDirectory n index w) := by
  intro addr hpresent
  rw [clear_directory_word] at hpresent ⊢
  split
  · next hcleared =>
      rw [if_pos hcleared] at hpresent
      cases hpresent
  · next hkept =>
      rw [if_neg hkept] at hpresent
      exact h addr hpresent

theorem EntriesBelow.fill (h : EntriesBelow bound w) (hword : bound < 2 ^ 32) {n entry start : Nat}
    (halign : start % pageSize = 0) (hbound : start + n * pageSize ≤ bound) :
    EntriesBelow bound (fillTable n entry start w) := by
  induction n generalizing entry start w with
  | zero => exact h
  | succ n ih =>
      have hnext : wrap (start + pageSize) = start + pageSize := by
        refine wrap_of_lt ?_
        simp only [pageSize] at *
        omega
      rw [fillTable, hnext]
      refine ih (h.store halign ?_ entry) ?_ ?_
      all_goals
        simp only [pageSize] at *
        omega

theorem EntriesBelow.fillDirectory (h : EntriesBelow bound w) (hword : bound < 2 ^ 32)
    {n i table start : Nat} (htable : table % pageSize = 0) (hstart : start % pageSize = 0)
    (htables : table + n * (4 * pageSize) ≤ bound) (hpages : start + n * (1024 * pageSize) ≤ bound) :
    EntriesBelow bound (fillDirectory n i table start w).1 := by
  induction n generalizing i table start w with
  | zero => exact h
  | succ n ih =>
      rw [Nat.succ_mul] at htables hpages
      have hfull : start + 1024 * pageSize ≤ bound :=
        Nat.le_trans (Nat.add_le_add_left (Nat.le_add_left _ _) _) hpages
      have hone : pageSize ≤ n * (4 * pageSize) + 4 * pageSize :=
        Nat.le_trans (by decide) (Nat.le_add_left _ _)
      have htable' : table + pageSize ≤ bound :=
        Nat.le_trans (Nat.add_le_add_left hone _) htables
      have hnext : wrap (start + 1024 * pageSize) = start + 1024 * pageSize :=
        wrap_of_lt (Nat.lt_of_le_of_lt hfull hword)
      have hround : EntriesBelow bound (fillTable 1024 table start
          (setDirectory w (512 + pageTablePhyNr + i) table)) :=
        (h.set htable htable' _).fill hword hstart hfull
      rw [Paging.fillDirectory, hnext]
      refine ih hround ?_ ?_ ?_ ?_
      · exact (Nat.add_mul_mod_self_right _ _ _).trans htable
      · exact (Nat.add_mul_mod_self_right _ _ _).trans hstart
      · rw [Nat.add_assoc, Nat.add_comm (4 * pageSize)]
        exact htables
      · rw [Nat.add_assoc, Nat.add_comm (1024 * pageSize)]
        exact hpages

theorem step_page_below {bound : Nat} (hlow : dmaMemAddr ≤ bound) (hword : bound < 2 ^ 32) :
    EntriesBelow bound (stepPage fun _ => 0) := by
  have hzero : EntriesBelow bound fun _ => 0 := by
    intro addr hpresent
    simp [present] at hpresent
  have htable : pageTablePhyAddr + 0x1000 + pageSize ≤ bound := Nat.le_trans (by decide) hlow
  have hdir : pageDirPhyAddr + pageSize ≤ bound := Nat.le_trans (by decide) hlow
  have hfirst : pageTablePhyAddr + pageSize ≤ bound := Nat.le_trans (by decide) hlow
  have hset := ((((hzero.clear 1024 0).set (by decide) hfirst 0).set (by decide) hfirst 512).set
    (by decide) htable 1).set (by decide) htable 513
  exact (hset.set (by decide) hdir 1023).fill hword (by decide) (Nat.le_trans (by decide) hlow)

/-- The direct map ends with the last whole page of `normalSize`. -/
theorem DirectMapped.lt {normalSize address : Nat} (hsize : normalSize ≤ 0x40000000)
    (h : DirectMapped normalSize address) :
    address < normalMemAddr + normalSize / pageSize * pageSize := by
  have hlen : wrapSub (normalMemAddr + normalSize) dmaMemAddr = 0x800000 + normalSize := by
    simp only [wrapSub, wrap, normalMemAddr, dmaMemAddr]
    omega
  generalize hbound : normalMemAddr + normalSize / pageSize * pageSize = bound
  have hlow : dmaMemAddr ≤ bound := by
    simp only [dmaMemAddr, normalMemAddr] at *
    omega
  have hword : bound < 2 ^ 32 := by
    simp only [normalMemAddr, pageSize] at *
    omega
  have hbelow : EntriesBelow bound
      (mapDirectMemory (stepPage fun _ => 0) dmaMemAddr (normalMemAddr + normalSize)) := by
    obtain ⟨⟨w₁, table, start⟩, hfill⟩ : ∃ r, fillDirectory
      ((0x800000 + normalSize) / (1024 * pageSize)) 0
      (pageTablePhyAddr + pageSize * pageTablePhyNr) dmaMemAddr (stepPage fun _ => 0) = r :=
        ⟨_, rfl⟩
    have hdirs : (0x800000 + normalSize) / (1024 * pageSize) ≤ 258 := by
      simp only [pageSize]
      omega
    obtain ⟨-, htable, hstart⟩ := @fill_directory_spec
      ((0x800000 + normalSize) / (1024 * pageSize)) 0 (pageTablePhyAddr + pageSize * pageTablePhyNr)
      dmaMemAddr (stepPage fun _ => 0)
      (by simp only [pageDirPhyAddr, pageTablePhyAddr, pageTablePhyNr, pageSize]; omega) (by decide)
    have hfirst : EntriesBelow bound (fillDirectory ((0x800000 + normalSize) / (1024 * pageSize)) 0
        (pageTablePhyAddr + pageSize * pageTablePhyNr) dmaMemAddr (stepPage fun _ => 0)).1 := by
      refine (step_page_below hlow hword).fillDirectory hword (by decide) (by decide) ?_ ?_
      · simp only [pageTablePhyAddr, pageTablePhyNr, normalMemAddr, pageSize] at *
        omega
      · simp only [dmaMemAddr, normalMemAddr, pageSize] at *
        omega
    rw [map_direct_memory_eq hlen hfill]
    rw [hfill] at hfirst htable hstart
    simp only at hfirst htable hstart
    refine EntriesBelow.clear ?_ 512 0
    split
    · refine EntriesBelow.fill (hfirst.set ?_ ?_ _) hword ?_ ?_
      all_goals
        subst htable hstart
        simp only [wrap, pageTablePhyAddr, pageTablePhyNr, dmaMemAddr, normalMemAddr, pageSize] at *
        omega
    · exact hfirst
  have haddr := h fun _ => 0
  simp only [translate] at haddr
  split at haddr
  · split at haddr
    · next hpresent =>
        have hpage := hbelow _ hpresent
        rw [Option.some_inj] at haddr
        have hoffset : phy2Vir address % pageSize < pageSize := Nat.mod_lt _ (by decide)
        omega
    · cases haddr
  · cases haddr

/-- The physical addresses from `NORMAL_MEM_ADDR` on that the direct map holds. -/
theorem direct_mapped_iff {normalSize address : Nat} (hsize : normalSize ≤ 0x40000000)
    (hlow : normalMemAddr ≤ address) :
    DirectMapped normalSize address ↔ address < normalMemAddr + normalSize / pageSize * pageSize :=
  ⟨fun h => h.lt hsize,
    fun h => direct_mapped_of_lt hsize (Nat.le_trans (by decide) hlow) h⟩

end XBook.Paging
