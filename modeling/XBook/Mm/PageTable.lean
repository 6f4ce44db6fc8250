import XBook.Mm.ForkFaithful

/-!
# Page tables word by word

The functions of `arch/x86/mm/page.c` that map and unmap pages, on page tables whose entries are
words. A word keeps the address of its page after its present bit is cleared, and
`RemoveFromPageTable` returns that address all the same. The directory is the active one; a page
table is a value of its own, which begins as what its page held.

Each function is followed by what it does to `Directory.word`, the entry of an address, and to the
node table.
-/

namespace XBook.Paging

/-- A page table: the page it lies in, the flags of its directory entry, and its words. -/
structure Table where
  page : Nat
  protect : Nat
  entries : Nat → Nat

/-- A page directory, with `none` for an entry without `PAGE_P_1`. -/
abbrev Directory := Nat → Option Table

/-- `PAGE_US_U | PAGE_RW_W`. -/
abbrev userWrite : Nat := 6

/-- `PAGE_P_1` is set. -/
def present (word : Nat) : Bool := word.testBit 0

/-- `*pte &= ~PAGE_P_1`. -/
def clearPresent (word : Nat) : Nat := word - word % 2

/-- The page table entry of an address. -/
def Directory.word (dir : Directory) (vaddr : Nat) : Option Nat :=
  (dir (pdeIdx vaddr)).map fun table => table.entries (pteIdx vaddr)

/-- The page that is mapped at an address. -/
def Directory.frame (dir : Directory) (vaddr : Nat) : Option Nat :=
  (dir.word vaddr).bind fun word => if present word then some (pageMask word) else none

/-- Stores a page table entry; without a page table there is none to store to. -/
def Directory.setWord (dir : Directory) (vaddr word : Nat) : Directory :=
  match dir (pdeIdx vaddr) with
  | none => dir
  | some table =>
      Function.update dir (pdeIdx vaddr)
        (some { table with entries := Function.update table.entries (pteIdx vaddr) word })

/-- Stores a directory entry that names the page table in a page. -/
def Directory.addTable (dir : Directory) (vaddr : Nat) (table : Table) : Directory :=
  Function.update dir (pdeIdx vaddr) (some table)

/-- `PageTableAdd`. -/
def pageTableAdd (m : PageMemory) (dir : Directory) (virtualAddr physicAddr protect : Nat) :
    Option (PageMemory × Directory × Int) :=
  let entry := physicAddr ||| protect ||| 1
  match dir (pdeIdx virtualAddr) with
  | some _ => some (m, dir.setWord virtualAddr entry, 0)
  | none =>
      m.allocPage.map fun (m, pageTableAddr) =>
        if pageTableAddr = 0 then (m, dir, -1)
        else
          let table := ⟨pageTableAddr, protect, m.pages pageTableAddr⟩
          (m, (dir.addTable virtualAddr table).setWord virtualAddr entry, 0)

/-- The addresses that a loop from `start` to `stop` visits, page by page. -/
def pagesBetween (start stop : Nat) : List Nat :=
  (List.range ((stop - start + (pageSize - 1)) / pageSize)).map fun i => start + i * pageSize

/-- The loop of `MapPages`, which does not look at the result of `PageTableAdd`. -/
def linkPages (protect : Nat) : List Nat → Nat → PageMemory → Directory →
    Option (PageMemory × Directory)
  | [], _, m, dir => some (m, dir)
  | vaddr :: rest, paddr, m, dir =>
      (pageTableAdd m dir vaddr paddr protect).bind fun (m, dir, _) =>
        linkPages protect rest (wrap (paddr + pageSize)) m dir

/-- `MapPages`. -/
def mapPages (m : PageMemory) (dir : Directory) (start len protect : Nat) :
    Option (PageMemory × Directory × Int) :=
  let len := pageAlign len
  (m.phymem.allocPages (len / pageSize)).bind fun (phymem, paddr) =>
    let m := { m with phymem := phymem }
    if paddr = 0 then some (m, dir, -1)
    else
      (linkPages protect (pagesBetween start (wrap (start + len))) paddr m dir).map
        fun (m, dir) => (m, dir, 0)

/-- `MapPagesMaybeMapped`, over the pages that are left. -/
def mapPagesMaybeMapped (protect : Nat) : Nat → Nat → PageMemory → Directory →
    Option (PageMemory × Directory × Int)
  | 0, _, m, dir => some (m, dir, 0)
  | npages + 1, vaddr, m, dir =>
      if (dir.frame vaddr).isSome then
        mapPagesMaybeMapped protect npages (wrap (vaddr + pageSize)) m dir
      else
        m.allocPage.bind fun (m, page) =>
          if page = 0 then some (m, dir, -1)
          else
            (pageTableAdd m dir vaddr page protect).bind fun (m, dir, ret) =>
              if ret ≠ 0 then some (m, dir, -1)
              else mapPagesMaybeMapped protect npages (wrap (vaddr + pageSize)) m dir

/-- `DoHandleNoPage`. -/
def doHandleNoPage (m : PageMemory) (dir : Directory) (addr : Nat) :
    Option (PageMemory × Directory × Int) :=
  m.allocPage.bind fun (m, paddr) =>
    if paddr = 0 then some (m, dir, -1)
    else
      (pageTableAdd m dir (pageMask addr) paddr userWrite).map fun (m, dir, ret) =>
        (m, dir, if ret ≠ 0 then -1 else 0)

/-- `MakePteWrite`. -/
def makePteWrite (dir : Directory) (addr : Nat) : Directory × Int :=
  if addr > userVmSize then (dir, -1)
  else
    match dir.word addr with
    | none => (dir, -1)
    | some word => if present word then (dir.setWord addr (word ||| 2), 0) else (dir, -1)

/-- `RemoveFromPageTable`. -/
def removeFromPageTable (dir : Directory) (virtualAddr : Nat) : Directory × Nat :=
  match dir.word virtualAddr with
  | none => (dir, minusOne)
  | some word =>
      let physicAddr := pageMask word
      if present word then (dir.setWord virtualAddr (clearPresent word), physicAddr)
      else (dir, physicAddr)

/-- One round of the loop of `UnmapPagesFragment`. -/
def unmapPage (phymem : PhysicMemory) (dir : Directory) (vaddr : Nat) :
    PhysicMemory × Directory :=
  let (dir, paddr) := removeFromPageTable dir vaddr
  if paddr ≠ minusOne then ((phymem.freePages paddr).1, dir) else (phymem, dir)

/-- The loop of `UnmapPagesFragment`, over the addresses that it visits. -/
def unmapPagesAt : List Nat → PhysicMemory → Directory → PhysicMemory × Directory
  | [], phymem, dir => (phymem, dir)
  | vaddr :: rest, phymem, dir =>
      let (phymem, dir) := unmapPage phymem dir vaddr
      unmapPagesAt rest phymem dir

/-- The addresses that `UnmapPagesFragment` visits. -/
def fragment (vaddr len : Nat) : List Nat := pagesBetween vaddr (wrap (vaddr + pageAlign len))

/-- `UnmapPagesFragment`. -/
def unmapPagesFragment (phymem : PhysicMemory) (dir : Directory) (vaddr len : Nat) :
    PhysicMemory × Directory × Int :=
  if len = 0 then (phymem, dir, -1)
  else
    let (phymem, dir) := unmapPagesAt (fragment vaddr len) phymem dir
    (phymem, dir, 0)

/-! ## Entries -/

theorem present_iff {word : Nat} : present word = true ↔ word % 2 = 1 := by
  simp [present, Nat.testBit_zero]

theorem page_mask_clear (word : Nat) : pageMask (clearPresent word) = pageMask word := by
  simp only [pageMask, clearPresent, pageSize]
  omega

theorem not_present_clear (word : Nat) : present (clearPresent word) = false := by
  rw [Bool.eq_false_iff, ne_eq, present_iff, clearPresent]
  omega

/-- An entry that is stored for a page is present. -/
theorem present_entry (physicAddr protect : Nat) :
    present (physicAddr ||| protect ||| 1) = true := by
  simp [present]

/-- The entry for a page holds its address. -/
theorem page_mask_entry {physicAddr protect : Nat} (halign : physicAddr % pageSize = 0)
    (hprotect : protect < pageSize) :
    pageMask (physicAddr ||| protect ||| 1) = physicAddr := by
  have hflags : protect ||| 1 < 2 ^ 12 := Nat.or_lt_two_pow (n := 12) hprotect (by decide)
  have hsum := Nat.two_pow_add_eq_or_of_lt hflags (physicAddr / pageSize)
  rw [show 2 ^ 12 * (physicAddr / pageSize) = physicAddr by simp only [pageSize] at *; omega]
    at hsum
  rw [Nat.or_assoc, ← hsum, pageMask]
  simp only [pageSize] at *
  omega

theorem Directory.word_congr (dir : Directory) {u v : Nat} (h : SamePage u v) :
    dir.word u = dir.word v := by
  obtain ⟨hpde, hpte⟩ := same_page_iff.mp h
  rw [Directory.word, Directory.word, hpde, hpte]

theorem Directory.frame_congr (dir : Directory) {u v : Nat} (h : SamePage u v) :
    dir.frame u = dir.frame v := by
  rw [Directory.frame, Directory.frame, dir.word_congr h]

theorem Directory.set_word_none {dir : Directory} {v word : Nat} (h : dir (pdeIdx v) = none) :
    dir.setWord v word = dir := by
  simp only [Directory.setWord, h]

theorem Directory.set_word_some {dir : Directory} {v word : Nat} {table : Table}
    (h : dir (pdeIdx v) = some table) :
    dir.setWord v word = Function.update dir (pdeIdx v)
      (some { table with entries := Function.update table.entries (pteIdx v) word }) := by
  simp only [Directory.setWord, h]

/-- A store keeps the page tables, as to everything but their words. -/
theorem Directory.set_word_field {α : Type*} (f : Table → α)
    (hf : ∀ table entries, f { table with entries := entries } = f table) (dir : Directory)
    (v word region : Nat) : ((dir.setWord v word) region).map f = (dir region).map f := by
  cases htable : dir (pdeIdx v) with
  | none => rw [Directory.set_word_none htable]
  | some table =>
      rw [Directory.set_word_some htable]
      by_cases hregion : region = pdeIdx v
      · simp [hregion, htable, hf]
      · simp [Function.update_of_ne hregion]

theorem Directory.set_word_table (dir : Directory) (v word region : Nat) :
    ((dir.setWord v word) region).map Table.page = (dir region).map Table.page :=
  set_word_field Table.page (fun _ _ => rfl) dir v word region

theorem Directory.set_word_other {dir : Directory} {v word region : Nat}
    (hne : region ≠ pdeIdx v) : dir.setWord v word region = dir region := by
  cases htable : dir (pdeIdx v) with
  | none => rw [Directory.set_word_none htable]
  | some table => rw [Directory.set_word_some htable, Function.update_of_ne hne]

/-- A store changes the entry of one page. -/
theorem Directory.word_set_word (dir : Directory) (u v word : Nat) :
    (dir.setWord v word).word u =
      if SamePage u v ∧ (dir.word v).isSome then some word else dir.word u := by
  cases htable : dir (pdeIdx v) with
  | none => simp [Directory.set_word_none htable, Directory.word, htable]
  | some table =>
      rw [Directory.set_word_some htable]
      by_cases hpde : pdeIdx u = pdeIdx v
      · by_cases hpte : pteIdx u = pteIdx v
        · simp [Directory.word, htable, hpde, hpte, same_page_iff.mpr ⟨hpde, hpte⟩]
        · have hne : ¬ SamePage u v := fun h => hpte (same_page_iff.mp h).2
          simp [Directory.word, htable, hpde, hpte, hne]
      · have hne : ¬ SamePage u v := fun h => hpde (same_page_iff.mp h).1
        simp [Directory.word, hpde, hne]

/-- A new page table shows what its page held. -/
theorem Directory.word_add_table (dir : Directory) (u v : Nat) (table : Table) :
    (dir.addTable v table).word u =
      if pdeIdx u = pdeIdx v then some (table.entries (pteIdx u)) else dir.word u := by
  simp only [Directory.addTable, Directory.word, Function.update_apply]
  split <;> simp

theorem Directory.frame_eq_some {dir : Directory} {vaddr page : Nat} :
    dir.frame vaddr = some page ↔
      ∃ word, dir.word vaddr = some word ∧ present word = true ∧ pageMask word = page := by
  simp only [Directory.frame, Option.bind_eq_some_iff, Option.ite_none_right_eq_some,
    Option.some.injEq]

/-! ## Unmapping -/

/-- The pages whose addresses stand in the entries that the loop reads. -/
def Directory.pagesAt (dir : Directory) (vaddrs : List Nat) : List Nat :=
  vaddrs.filterMap fun vaddr => (dir.word vaddr).map pageMask

theorem remove_word (dir : Directory) (u v : Nat) :
    (removeFromPageTable dir v).1.word u =
      if SamePage u v then (dir.word u).map clearPresent else dir.word u := by
  have hsame : ∀ word, dir.word v = some word → present word = false → clearPresent word = word := by
    intro word _ hword
    have hmod : word % 2 ≠ 1 := fun h => by simp [present_iff.mpr h] at hword
    rw [clearPresent]
    omega
  by_cases hu : SamePage u v
  · rw [if_pos hu, dir.word_congr hu, removeFromPageTable]
    cases hword : dir.word v with
    | none => simpa [dir.word_congr hu] using hword
    | some word =>
        by_cases hpresent : present word = true
        · simp [hpresent, Directory.word_set_word, hu, hword]
        · simp [hpresent, dir.word_congr hu, hword, hsame word hword (by simpa using hpresent)]
  · rw [if_neg hu, removeFromPageTable]
    cases hword : dir.word v with
    | none => rfl
    | some word =>
        by_cases hpresent : present word = true
        · simp [hpresent, Directory.word_set_word, hu]
        · simp [hpresent]

/-- The address that `RemoveFromPageTable` returns is that of the entry, present or not. -/
theorem remove_page (dir : Directory) (v : Nat) :
    (removeFromPageTable dir v).2 = ((dir.word v).map pageMask).getD minusOne := by
  rw [removeFromPageTable]
  cases dir.word v with
  | none => rfl
  | some word => by_cases hpresent : present word = true <;> simp [hpresent]

theorem page_mask_ne_minus_one (word : Nat) : pageMask word ≠ minusOne := by
  simp only [pageMask, pageSize, minusOne]
  omega

theorem unmap_page_phymem (phymem : PhysicMemory) (dir : Directory) (v : Nat) :
    (unmapPage phymem dir v).1 =
      ((dir.word v).map fun word => (phymem.freePages (pageMask word)).1).getD phymem := by
  simp only [unmapPage, remove_page]
  cases dir.word v with
  | none => simp
  | some word => simp [page_mask_ne_minus_one]

theorem unmap_page_word (phymem : PhysicMemory) (dir : Directory) (u v : Nat) :
    (unmapPage phymem dir v).2.word u =
      if SamePage u v then (dir.word u).map clearPresent else dir.word u := by
  rw [← remove_word]
  simp only [unmapPage]
  split <;> rfl

/-- Unmapping clears present bits and nothing else. -/
theorem unmap_pages_word (vaddrs : List Nat) (phymem : PhysicMemory) (dir : Directory) (u : Nat) :
    (unmapPagesAt vaddrs phymem dir).2.word u =
      if ∃ v ∈ vaddrs, SamePage u v then (dir.word u).map clearPresent else dir.word u := by
  have hclear : clearPresent ∘ clearPresent = clearPresent := by
    funext word
    simp only [Function.comp_apply, clearPresent]
    omega
  induction vaddrs generalizing phymem dir with
  | nil => simp [unmapPagesAt]
  | cons v rest ih =>
      simp only [unmapPagesAt, ih, unmap_page_word, List.exists_mem_cons_iff]
      by_cases hv : SamePage u v <;> by_cases hrest : ∃ v ∈ rest, SamePage u v <;>
        simp [hv, hrest, hclear]

/-- Unmapping keeps the page tables, as to everything but their words. -/
theorem unmap_pages_field {α : Type*} (f : Table → α)
    (hf : ∀ table entries, f { table with entries := entries } = f table) (vaddrs : List Nat)
    (phymem : PhysicMemory) (dir : Directory) (region : Nat) :
    ((unmapPagesAt vaddrs phymem dir).2 region).map f = (dir region).map f := by
  induction vaddrs generalizing phymem dir with
  | nil => rfl
  | cons v rest ih =>
      have hpage : ((unmapPage phymem dir v).2 region).map f = (dir region).map f := by
        have hremove : (unmapPage phymem dir v).2 = (removeFromPageTable dir v).1 := by
          simp only [unmapPage]
          split <;> rfl
        rw [hremove, removeFromPageTable]
        split
        · rfl
        · dsimp only
          split
          · exact Directory.set_word_field f hf dir v _ region
          · rfl
      exact (ih _ _).trans hpage

/-- The pages in the entries are the same after one of them is cleared. -/
theorem pages_at_unmap_page (phymem : PhysicMemory) (dir : Directory) (v : Nat)
    (vaddrs : List Nat) : (unmapPage phymem dir v).2.pagesAt vaddrs = dir.pagesAt vaddrs := by
  simp only [Directory.pagesAt]
  congr 1
  funext u
  rw [unmap_page_word]
  split
  · cases dir.word u <;> simp [page_mask_clear]
  · rfl

/-- The node table after `FreePages` on each page of a list. -/
def freeAll (phymem : PhysicMemory) (pages : List Nat) : PhysicMemory :=
  pages.foldl (fun phymem page => (phymem.freePages page).1) phymem

/-- The loop frees the page in each entry that it reads, present or not. -/
theorem unmap_pages_phymem (vaddrs : List Nat) (phymem : PhysicMemory) (dir : Directory) :
    (unmapPagesAt vaddrs phymem dir).1 = freeAll phymem (dir.pagesAt vaddrs) := by
  induction vaddrs generalizing phymem dir with
  | nil => rfl
  | cons v rest ih =>
      simp only [unmapPagesAt, ih, pages_at_unmap_page, unmap_page_phymem]
      cases hword : dir.word v with
      | none => simp [Directory.pagesAt, hword]
      | some word => simp [Directory.pagesAt, freeAll, hword]

/-! ## Freed nodes -/

@[simp] theorem free_pages_count (m : PhysicMemory) (page : Nat) :
    (m.freePages page).1.memNodeCount = m.memNodeCount := by
  simp only [PhysicMemory.freePages]
  split <;> try split
  all_goals rfl

@[simp] theorem free_pages_base (m : PhysicMemory) (page : Nat) :
    (m.freePages page).1.memNodeBase = m.memNodeBase := by
  simp only [PhysicMemory.freePages]
  split <;> try split
  all_goals rfl

@[simp] theorem free_pages_index (m : PhysicMemory) (page page' : Nat) :
    (m.freePages page).1.page2MemNode page' = m.page2MemNode page' := by
  simp only [PhysicMemory.page2MemNode, free_pages_count, free_pages_base]

/-- `FreePages` clears the page's node, unless it is free already. -/
theorem free_pages_node (m : PhysicMemory) (page i : Nat) :
    (m.freePages page).1.memNodeTable i =
      if m.page2MemNode page = some i ∧ (m.memNodeTable i).reference ≠ 0 then {}
      else m.memNodeTable i := by
  simp only [PhysicMemory.freePages]
  cases hindex : m.page2MemNode page with
  | none => simp
  | some index =>
      by_cases href : (m.memNodeTable index).reference = 0
      · by_cases hi : index = i
        · simp [← hi, href]
        · simp [href, hi]
      · by_cases hi : i = index
        · simp [hi, href]
        · simp [href, hi, Ne.symm hi]

/-- Freeing pages clears their nodes and no others. -/
theorem free_all_node (m : PhysicMemory) (pages : List Nat) (i : Nat) :
    (freeAll m pages).memNodeTable i =
      if (∃ page ∈ pages, m.page2MemNode page = some i) ∧ (m.memNodeTable i).reference ≠ 0 then {}
      else m.memNodeTable i := by
  induction pages generalizing m with
  | nil => simp [freeAll]
  | cons page rest ih =>
      have hrest := ih (m.freePages page).1
      simp only [freeAll, List.foldl_cons] at hrest ⊢
      rw [hrest]
      simp only [free_pages_index, free_pages_node, List.exists_mem_cons_iff]
      by_cases hpage : m.page2MemNode page = some i <;>
        by_cases href : (m.memNodeTable i).reference = 0 <;>
        simp [hpage, href]

@[simp] theorem free_all_count (m : PhysicMemory) (pages : List Nat) :
    (freeAll m pages).memNodeCount = m.memNodeCount := by
  induction pages generalizing m with
  | nil => rfl
  | cons page rest ih => exact (ih _).trans (free_pages_count m page)

@[simp] theorem free_all_base (m : PhysicMemory) (pages : List Nat) :
    (freeAll m pages).memNodeBase = m.memNodeBase := by
  induction pages generalizing m with
  | nil => rfl
  | cons page rest ih => exact (ih _).trans (free_pages_base m page)

end XBook.Paging
