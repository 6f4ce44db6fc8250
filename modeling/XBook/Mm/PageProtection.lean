import XBook.Mm.StackBound
import XBook.Mm.TranslationFrame

/-!
# Page faults and the protection of a space

What `DoPageFault` should do when it returns 0: the page at the address is then mapped with no more
rights than `pageProt` of its space gives, and pages that were there before stay as they were. The
source maps each page that it adds with `PAGE_US_U | PAGE_RW_W`, whatever `pageProt` says, and a
write to a protected page that is there ends in `DoHandleNoPage` too, which puts a new page in its
place. `page_fault_protection_iff` says which faults are handled as they should be.
-/

namespace XBook.Paging

/-- `PROT_WRITE` is set. -/
def protWrite (pageProt : Nat) : Bool := pageProt.testBit 1

/-- An entry has no more rights than `pageProt`: `PROT_NONE` gives none, and only `PROT_WRITE`
gives the right to write. -/
structure Allows (pageProt : Nat) (user write : Bool) : Prop where
  access : user → pageProt ≠ 0
  write : write → protWrite pageProt

/-- What a handled fault at an address should leave. -/
structure Respects (m : PageMemory) (dir : Directory) (m' : PageMemory) (dir' : Directory)
    (mm' : MemoryManager) (addr : Nat) : Prop where
  rights : ∃ c entry, findVMSpace mm'.spaceMap addr = some c ∧ c.space.start ≤ addr ∧
    dir'.translate addr = some entry ∧ Allows c.space.pageProt entry.user entry.write
  kept : ∀ v page, dir.frame v = some page → dir'.frame v = some page ∧ m'.pages page = m.pages page

/-- The space that a fault belongs to holds its address, or is a stack that is expanded to it. -/
def Faulting (mm : MemoryManager) (fault : PageFault) (c : VMSpaceCursor) : Prop :=
  findVMSpace mm.spaceMap fault.addr.toNat = some c ∧
    (c.space.start ≤ fault.addr.toNat ∨ ExpandsStack mm fault c)

/-- `AllocPage` has a page for the address, and one more when it has no page table. -/
def HasPages (m : PageMemory) (dir : Directory) (addr : Nat) : Prop :=
  ∃ m₁ page, m.allocPage = some (m₁, page) ∧ page ≠ 0 ∧
    (dir (pdeIdx addr) = none → ∃ m₂ table, m₁.allocPage = some (m₂, table) ∧ table ≠ 0)

/-- The flags of the directory entry for an address, or those that a new one is made with. -/
def tableFlags (dir : Directory) (addr : Nat) : Nat :=
  ((dir (pdeIdx addr)).map Table.protect).getD userWrite

/-- The faults that are resolved: they belong to a space, there is memory, and a protection fault
is a write to a user page that is mapped. -/
def Handled (m : PageMemory) (dir : Directory) (mm : MemoryManager) (fault : PageFault) : Prop :=
  (∃ c, Faulting mm fault c) ∧ HasPages m dir fault.addr.toNat ∧
    (pageErrProtect fault.errorCode.toNat → pageErrWrite fault.errorCode.toNat ∧
      fault.addr.toNat ≤ userVmSize ∧ (dir.frame fault.addr.toNat).isSome)

variable {m m' : PageMemory} {dir dir' : Directory}

/-! ## The page at the address -/

theorem same_page_mask (addr : Nat) : SamePage (pageMask addr) addr := by
  simp only [SamePage, pageMask, pageSize]
  omega

/-- The entry that `DoHandleNoPage` stores gives every right. -/
theorem entry_user_write (page : Nat) : entryOfWord (page ||| userWrite ||| 1) =
    some ⟨pageMask (page ||| userWrite ||| 1), true, true⟩ := by
  refine (if_pos (present_entry page userWrite)).trans ?_
  simp [Nat.testBit_or, show Nat.testBit 6 2 = true by decide, show Nat.testBit 6 1 = true by decide]

/-- A page is linked with the rights of its page table. -/
theorem table_add_rights {v page : Nat} {ret : Int}
    (hadd : pageTableAdd m dir v page userWrite = some (m', dir', ret)) :
    (ret = 0 ∧ dir'.translate v = some ⟨pageMask (page ||| userWrite ||| 1),
      (tableFlags dir v).testBit 2, (tableFlags dir v).testBit 1⟩) ∨
    (ret ≠ 0 ∧ dir (pdeIdx v) = none ∧ m.allocPage = some (m', 0)) := by
  have hself : SamePage v v := rfl
  rcases page_table_add_cases hadd with ⟨hsome, -, hret, rfl⟩ | ⟨hnone, q, halloc, hcase⟩
  · obtain ⟨table, htable⟩ := Option.isSome_iff_exists.mp hsome
    refine .inl ⟨hret, ?_⟩
    rw [translate_set_word htable, if_pos hself, entry_user_write]
    simp [throughTable, tableFlags, htable]
  · rcases hcase with ⟨rfl, -, hret⟩ | ⟨-, hret, rfl⟩
    · exact .inr ⟨by rw [hret]; decide, hnone, halloc⟩
    · have htable : dir.addTable v ⟨q, userWrite, m'.pages q⟩ (pdeIdx v) =
          some ⟨q, userWrite, m'.pages q⟩ := Function.update_self ..
      refine .inl ⟨hret, ?_⟩
      rw [translate_set_word htable, if_pos hself, entry_user_write]
      simp [throughTable, tableFlags, hnone]

/-- `AllocPage` takes a free page, whose address is that of a page. -/
theorem alloc_page_free {m₁ : PageMemory} {page : Nat} (hm : WellPlaced m.phymem)
    (halloc : m.allocPage = some (m₁, page)) (hpage : page ≠ 0) :
    m.Free page ∧ page % pageSize = 0 := by
  refine ⟨?_, ((alloc_page_placed hm halloc).2.2 hpage).1⟩
  rcases alloc_pages_cases (alloc_page_cases halloc).1 with ⟨-, hzero⟩ | ⟨i, htake, -, rfl⟩
  · exact absurd hzero hpage
  · obtain ⟨-, hlt, hfree, -⟩ := take_mem_node_free htake
    exact ⟨i, hlt, hfree, rfl⟩

/-- What `DoHandleNoPage` does. -/
theorem handle_no_page_spec {addr : Nat} {ret : Int} (hm : WellPlaced m.phymem)
    (hfault : doHandleNoPage m dir addr = some (m', dir', ret)) :
    m'.pages = m.pages ∧
    (∀ v page, dir.frame v = some page → ¬ SamePage v addr → dir'.frame v = some page) ∧
    ((ret = 0 ∧ HasPages m dir addr ∧ ∃ page, m.Free page ∧
        dir'.translate addr = some ⟨page, (tableFlags dir addr).testBit 2,
          (tableFlags dir addr).testBit 1⟩) ∨
      (ret ≠ 0 ∧ ¬ HasPages m dir addr)) := by
  obtain ⟨⟨m₁, page⟩, halloc, hrest⟩ := Option.bind_eq_some_iff.mp hfault
  have hmask := same_page_mask addr
  have hpde : pdeIdx (pageMask addr) = pdeIdx addr := (same_page_iff.mp hmask).1
  by_cases hpage : page = 0
  · simp only [hpage, if_true] at hrest
    cases hrest
    refine ⟨(alloc_page_cases halloc).2, fun _ _ h _ => h, .inr ⟨by decide, ?_⟩⟩
    rintro ⟨m₂, page₂, halloc₂, hne, -⟩
    rw [halloc] at halloc₂
    cases halloc₂
    exact hne hpage
  · simp only [hpage, if_false] at hrest
    obtain ⟨⟨m₂, dir₂, ret₂⟩, hadd, heq⟩ := Option.map_eq_some_iff.mp hrest
    cases heq
    obtain ⟨hfree, halign⟩ := alloc_page_free hm halloc hpage
    refine ⟨(keeps_page_table_add hadd).2.trans (alloc_page_cases halloc).2, ?_, ?_⟩
    · intro v old hframe hne
      obtain ⟨word, hword, hpresent⟩ := Directory.frame_eq_some.mp hframe
      exact Directory.frame_eq_some.mpr ⟨word,
        page_table_add_keeps hadd hword fun hsame => hne (hsame.trans hmask), hpresent⟩
    · have htranslate : ∀ v, SamePage v addr → dir₂.translate v = dir₂.translate addr := by
        intro v hv
        obtain ⟨hpde', hpte'⟩ := same_page_iff.mp hv
        rw [Directory.translate, Directory.translate, hpde', hpte']
      rcases table_add_rights hadd with ⟨hret, hentry⟩ | ⟨hret, hnone, hfull⟩
      · refine .inl ⟨by simp [hret], ⟨m₁, page, halloc, hpage, fun hnone => ?_⟩, page, hfree, ?_⟩
        · rcases page_table_add_cases hadd with ⟨hsome, -⟩ | ⟨-, q, halloc₂, hcase⟩
          · rw [hpde, hnone] at hsome
            cases hsome
          · rcases hcase with ⟨-, -, hfail⟩ | ⟨hq, -⟩
            · rw [hret] at hfail
              cases hfail
            · exact ⟨_, q, halloc₂, hq⟩
        · rw [← htranslate _ hmask, hentry, page_mask_entry halign (by decide)]
          simp only [tableFlags, hpde]
      · refine .inr ⟨by simp [hret], ?_⟩
        rintro ⟨m₃, page₃, halloc₃, -, htable⟩
        rw [halloc] at halloc₃
        cases halloc₃
        obtain ⟨m₄, table, halloc₄, hne⟩ := htable (hpde ▸ hnone)
        rw [hfull] at halloc₄
        cases halloc₄
        exact hne rfl

/-- A page that is found is mapped. -/
theorem frame_of_translate {v : Nat} {entry : PageEntry} (h : dir.translate v = some entry) :
    dir.frame v = some entry.page := by
  obtain ⟨table, htable, hentry⟩ := Option.bind_eq_some_iff.mp h
  obtain ⟨raw, hraw, rfl⟩ := Option.map_eq_some_iff.mp hentry
  have hword : dir.word v = some (table.entries (pteIdx v)) := by
    rw [Directory.word, htable]
    rfl
  refine Directory.frame_eq_some.mpr ⟨_, hword, ?_⟩
  simp only [entryOfWord, Option.ite_none_right_eq_some, Option.some.injEq] at hraw
  obtain ⟨hpresent, rfl⟩ := hraw
  exact ⟨hpresent, rfl⟩

/-- `MakePteWrite` finds the pages below `USER_VM_SIZE` that are mapped. -/
theorem make_pte_write_ret (dir : Directory) (addr : Nat) :
    (makePteWrite dir addr).2 = 0 ↔ addr ≤ userVmSize ∧ (dir.frame addr).isSome := by
  simp only [makePteWrite]
  by_cases hhigh : addr > userVmSize
  · rw [if_pos hhigh]
    refine ⟨fun h => absurd h (show ¬ (-1 : Int) = 0 by decide), fun h => ?_⟩
    omega
  · rw [if_neg hhigh]
    cases hword : dir.word addr with
    | none => simp [Directory.frame, hword]
    | some word =>
        by_cases hpresent : present word = true
        · simp only [hpresent, if_true, Directory.frame, hword, Option.bind_some]
          exact ⟨fun _ => ⟨Nat.not_lt.mp hhigh, rfl⟩, fun _ => trivial⟩
        · simp [Directory.frame, hword, hpresent]

/-- The pages that a fault needs at an address that is mapped. -/
theorem has_pages_mapped {addr : Nat} (hframe : (dir.frame addr).isSome) :
    HasPages m dir addr ↔ ∃ m₁ page, m.allocPage = some (m₁, page) ∧ page ≠ 0 := by
  have htable : dir (pdeIdx addr) ≠ none := by
    intro hnone
    simp [Directory.frame, Directory.word, hnone] at hframe
  constructor
  · rintro ⟨m₁, page, halloc, hpage, -⟩
    exact ⟨m₁, page, halloc, hpage⟩
  · rintro ⟨m₁, page, halloc, hpage⟩
    exact ⟨m₁, page, halloc, hpage, fun hnone => absurd hnone htable⟩

/-- A protection fault that is resolved has replaced the page. -/
theorem protection_fault_spec {addr : Nat} {write : Bool} {ret : Int} (hm : WellPlaced m.phymem)
    (hfault : doProtectionFault m dir addr write = some (m', dir', ret)) :
    (ret = 0 ↔ HasPages m dir addr ∧ write ∧ addr ≤ userVmSize ∧ (dir.frame addr).isSome) ∧
      (ret = 0 → ∃ page, m.Free page ∧ dir'.frame addr = some page) := by
  simp only [doProtectionFault] at hfault
  by_cases hwrite : write = true
  · rw [if_pos hwrite] at hfault
    by_cases hret : (makePteWrite dir addr).2 = 0
    · obtain ⟨hlow, hframe⟩ := (make_pte_write_ret dir addr).mp hret
      rw [if_neg (not_not.mpr hret)] at hfault
      obtain ⟨⟨m₁, dir₁, ret₁⟩, hpage, heq⟩ := Option.map_eq_some_iff.mp hfault
      cases heq
      have hframe' : ((makePteWrite dir addr).1.frame addr).isSome := by
        rw [(make_pte_write_frame dir addr addr).1]
        exact hframe
      have hneeds : HasPages m (makePteWrite dir addr).1 addr ↔ HasPages m dir addr :=
        (has_pages_mapped hframe').trans (has_pages_mapped hframe).symm
      rcases (handle_no_page_spec hm hpage).2.2 with ⟨hzero, hhas, page, hfree, hentry⟩ | ⟨hne, hhas⟩
      · refine ⟨⟨fun _ => ⟨hneeds.mp hhas, hwrite, hlow, hframe⟩, fun _ => by simp [hzero]⟩,
          fun _ => ⟨page, hfree, frame_of_translate hentry⟩⟩
      · refine ⟨⟨fun h => ?_, fun h => absurd (hneeds.mpr h.1) hhas⟩, fun h => ?_⟩
        · simp [hne] at h
        · simp [hne] at h
    · rw [if_pos hret] at hfault
      cases hfault
      refine ⟨⟨fun h => absurd h (by decide), ?_⟩, fun h => absurd h (by decide)⟩
      rintro ⟨-, -, hlow, hframe⟩
      exact absurd ((make_pte_write_ret dir addr).mpr ⟨hlow, hframe⟩) hret
  · rw [if_neg hwrite] at hfault
    cases hfault
    refine ⟨⟨fun h => absurd h (by decide), fun h => absurd h.2.1 hwrite⟩,
      fun h => absurd h (by decide)⟩

/-! ## The space of a fault -/

theorem find_vm_space_middle {before after : List VMSpace} {space : VMSpace} {addr : Nat}
    (hbefore : ∀ t ∈ before, t.stop ≤ addr) (hspace : addr < space.stop) :
    findVMSpace (before ++ space :: after) addr = some ⟨before, space, after⟩ := by
  induction before with
  | nil => simp only [List.nil_append, findVMSpace, if_pos hspace]
  | cons t before ih =>
      have ht : ¬ addr < t.stop := Nat.not_lt.mpr (hbefore t List.mem_cons_self)
      rw [List.cons_append, findVMSpace, if_neg ht,
        ih fun u hu => hbefore u (List.mem_cons_of_mem t hu)]
      rfl

/-- The space that `DoPageFault` finds at the address after a stack has been expanded. -/
theorem fault_space {mm mm' : MemoryManager} {fault : PageFault}
    (h : afterFault mm fault = some mm') :
    (∀ c, Faulting mm fault c → ∃ c', findVMSpace mm'.spaceMap fault.addr.toNat = some c' ∧
      c'.space.start ≤ fault.addr.toNat ∧ c'.space.pageProt = c.space.pageProt) ∧
    ∀ c', findVMSpace mm'.spaceMap fault.addr.toNat = some c' →
      c'.space.start ≤ fault.addr.toNat → ∃ c, Faulting mm fault c := by
  rcases after_fault_cases h with ⟨c, hexpands, hspaces, hspaces'⟩ | ⟨hnone, rfl⟩
  · obtain ⟨-, hbefore, hstop⟩ := find_vm_space_some hexpands.1
    have hbelow : pageMask fault.addr.toNat ≤ fault.addr.toNat := Nat.div_mul_le_self _ _
    refine ⟨fun d hd => ?_, fun _ _ _ => ⟨c, hexpands.1, .inr hexpands⟩⟩
    obtain rfl := Option.some.inj (hexpands.1.symm.trans hd.1)
    rw [hspaces']
    exact ⟨_, find_vm_space_middle hbefore hstop, hbelow, rfl⟩
  · refine ⟨fun c hc => ?_, fun c hfind hstart => ⟨c, hfind, .inl hstart⟩⟩
    rcases hc.2 with hstart | hexpands
    · exact ⟨c, hc.1, hstart, rfl⟩
    · exact absurd hexpands (hnone c)

/-! ## Faults -/

/-- `DoPageFault` returns 0 for the faults that are handled, and only for them. -/
theorem page_fault_cases {mm mm' : MemoryManager} {fault : PageFault} {ret : Int}
    (hm : WellPlaced m.phymem)
    (hfault : doPageFault m dir mm fault.addr.toNat fault.esp.toNat fault.errorCode.toNat =
      some (m', dir', mm', ret)) :
    afterFault mm fault = some mm' ∧ (ret = 0 ↔ Handled m dir mm fault) ∧
      (ret = 0 → if pageErrProtect fault.errorCode.toNat then
          ∃ page, m.Free page ∧ dir'.frame fault.addr.toNat = some page
        else doHandleNoPage m dir fault.addr.toNat = some (m', dir', 0)) := by
  simp only [doPageFault] at hfault
  generalize hmm : XBook.doPageFault mm fault.addr.toNat fault.esp.toNat fault.errorCode.toNat =
    mm₁ at hfault
  have hafter : afterFault mm fault = some mm₁ := congrArg some hmm
  obtain ⟨hfound, hback⟩ := fault_space hafter
  -- without a space at the address the fault is refused
  have hrefused : (∀ c', findVMSpace mm₁.spaceMap fault.addr.toNat = some c' →
      ¬ c'.space.start ≤ fault.addr.toNat) → ¬ Handled m dir mm fault := by
    rintro hno ⟨⟨c, hc⟩, -⟩
    obtain ⟨c', hfind, hstart, -⟩ := hfound c hc
    exact hno c' hfind hstart
  cases hspace : findVMSpace mm₁.spaceMap fault.addr.toNat with
  | none =>
      rw [hspace] at hfault
      cases hfault
      refine ⟨hafter, ⟨fun h => absurd h (by decide), fun h => absurd h (hrefused ?_)⟩,
        fun h => absurd h (by decide)⟩
      intro c' hc'
      rw [hspace] at hc'
      cases hc'
  | some c' =>
      rw [hspace] at hfault
      by_cases hstart : c'.space.start > fault.addr.toNat
      · simp only [if_pos hstart] at hfault
        cases hfault
        refine ⟨hafter, ⟨fun h => absurd h (by decide), fun h => absurd h (hrefused ?_)⟩,
          fun h => absurd h (by decide)⟩
        intro c hc
        obtain rfl := Option.some.inj (hspace.symm.trans hc)
        exact Nat.not_le.mpr hstart
      · obtain ⟨c, hc⟩ := hback c' hspace (Nat.not_lt.mp hstart)
        simp only [if_neg hstart] at hfault
        obtain ⟨⟨m₁, dir₁, ret₁⟩, hpage, heq⟩ := Option.map_eq_some_iff.mp hfault
        cases heq
        refine ⟨hafter, ?_⟩
        by_cases hprotect : pageErrProtect fault.errorCode.toNat = true
        · rw [if_pos hprotect] at hpage ⊢
          obtain ⟨hret, hnew⟩ := protection_fault_spec hm hpage
          refine ⟨⟨fun h => ?_, fun h => ?_⟩, hnew⟩
          · obtain ⟨hhas, hrest⟩ := hret.mp h
            exact ⟨⟨c, hc⟩, hhas, fun _ => hrest⟩
          · exact hret.mpr ⟨h.2.1, h.2.2 hprotect⟩
        · rw [if_neg hprotect] at hpage ⊢
          rcases (handle_no_page_spec hm hpage).2.2 with ⟨rfl, hhas, -⟩ | ⟨hne, hhas⟩
          · exact ⟨⟨fun _ => ⟨⟨c, hc⟩, hhas, fun h => absurd h hprotect⟩, fun _ => rfl⟩,
              fun _ => hpage⟩
          · exact ⟨⟨fun h => absurd h hne, fun h => absurd h.2.1 hhas⟩, fun h => absurd h hne⟩

/-- A fault is handled as it should be if and only if it is not resolved, or it is one for a page
that is not there, in a space that gives the rights of the page table. -/
theorem page_fault_protection_iff {mm mm' : MemoryManager} {fault : PageFault} {ret : Int}
    (hm : WellPlaced m.phymem)
    (hused : ∀ page, dir.frame fault.addr.toNat = some page → ¬ m.Free page)
    (hfault : doPageFault m dir mm fault.addr.toNat fault.esp.toNat fault.errorCode.toNat =
      some (m', dir', mm', ret)) :
    (ret = 0 → Respects m dir m' dir' mm' fault.addr.toNat) ↔
      (Handled m dir mm fault → pageErrProtect fault.errorCode.toNat = false ∧
        dir.frame fault.addr.toNat = none ∧ ∀ c, Faulting mm fault c →
          Allows c.space.pageProt ((tableFlags dir fault.addr.toNat).testBit 2)
            ((tableFlags dir fault.addr.toNat).testBit 1)) := by
  obtain ⟨hafter, hret, hpages⟩ := page_fault_cases hm hfault
  rw [← hret]
  refine forall_congr' fun hzero => ?_
  obtain ⟨hfound, -⟩ := fault_space hafter
  -- a page that was there has given way to a free one
  have hlost : ∀ old page, dir.frame fault.addr.toNat = some old → m.Free page →
      dir'.frame fault.addr.toNat = some page → ¬ Respects m dir m' dir' mm' fault.addr.toNat := by
    intro old page hold hfree hnew hrespects
    have hkept := (hrespects.kept _ _ hold).1
    rw [hnew] at hkept
    cases hkept
    exact hused old hold hfree
  obtain ⟨⟨c, hc⟩, -, hmapped⟩ := hret.mp hzero
  specialize hpages hzero
  by_cases hprotect : pageErrProtect fault.errorCode.toNat = true
  · rw [if_pos hprotect] at hpages
    obtain ⟨page, hfree, hnew⟩ := hpages
    obtain ⟨old, hold⟩ := Option.isSome_iff_exists.mp (hmapped hprotect).2.2
    refine ⟨fun h => absurd h (hlost old page hold hfree hnew), ?_⟩
    rintro ⟨hclear, -⟩
    rw [hprotect] at hclear
    cases hclear
  · rw [if_neg hprotect] at hpages
    obtain ⟨hkeeps, hothers, hcase⟩ := handle_no_page_spec hm hpages
    obtain ⟨-, -, page, hfree, hentry⟩ | ⟨hne, -⟩ := hcase
    · constructor
      · intro hrespects
        refine ⟨by simpa using hprotect, ?_, fun d hd => ?_⟩
        · cases hold : dir.frame fault.addr.toNat with
          | none => rfl
          | some old =>
              exact absurd hrespects (hlost old page hold hfree (frame_of_translate hentry))
        · obtain ⟨c', hfind, -, hprot⟩ := hfound d hd
          obtain ⟨c'', entry, hfind', -, hentry', hallows⟩ := hrespects.rights
          rw [hfind] at hfind'
          rw [hentry] at hentry'
          cases hfind'
          cases hentry'
          rw [← hprot]
          exact hallows
      · rintro ⟨-, hnone, hallows⟩
        obtain ⟨c', hfind, hstart, hprot⟩ := hfound c hc
        refine ⟨⟨c', _, hfind, hstart, hentry, hprot ▸ hallows c hc⟩, fun v old hframe => ?_⟩
        refine ⟨hothers v old hframe ?_, by rw [hkeeps]⟩
        intro hsame
        rw [dir.frame_congr hsame, hnone] at hframe
        cases hframe
    · exact absurd rfl hne

/-- A process with one space of one page. -/
def onePage (pageProt : Nat) : MemoryManager := ⟨[⟨0x1000, 0x2000, pageProt, 0⟩], 0x3000, 0x3000⟩

/-- A user access to the page, which is not there. -/
def firstAccess : PageFault := ⟨0x1234, 0, 6⟩

/-- The first write to a page of a space with `PROT_READ | PROT_WRITE`. -/
theorem page_fault_writable : ∃ m' dir' mm',
    doPageFault (twoPages 0) (fun _ => none) (onePage 3) firstAccess.addr.toNat
      firstAccess.esp.toNat firstAccess.errorCode.toNat = some (m', dir', mm', 0) ∧
      Respects (twoPages 0) (fun _ => none) m' dir' mm' firstAccess.addr.toNat := by
  have hused : ∀ page, Directory.frame (fun _ => none) firstAccess.addr.toNat = some page →
      ¬ (twoPages 0).Free page := by
    intro page hpage
    cases hpage
  have hrun : (doPageFault (twoPages 0) (fun _ => none) (onePage 3) firstAccess.addr.toNat
      firstAccess.esp.toNat firstAccess.errorCode.toNat).map (fun r => r.2.2.2) = some 0 := rfl
  obtain ⟨⟨m', dir', mm', ret⟩, hfault, rfl⟩ := Option.map_eq_some_iff.mp hrun
  refine ⟨m', dir', mm', hfault,
    (page_fault_protection_iff ⟨by decide, by decide⟩ hused hfault).mpr ?_ rfl⟩
  refine fun _ => ⟨by decide, rfl, fun c hc => ?_⟩
  obtain rfl : c = ⟨[], ⟨0x1000, 0x2000, 3, 0⟩, []⟩ := Option.some.inj hc.1.symm
  exact ⟨fun _ => by decide, fun _ => by decide⟩

/-- The same access where the space has `PROT_READ` only: it is granted, and the page can be
written from then on. -/
theorem page_fault_read_only : ∃ m' dir' mm',
    doPageFault (twoPages 0) (fun _ => none) (onePage 1) firstAccess.addr.toNat
      firstAccess.esp.toNat firstAccess.errorCode.toNat = some (m', dir', mm', 0) ∧
      (dir'.translate firstAccess.addr.toNat).map PageEntry.write = some true ∧
      ¬ Respects (twoPages 0) (fun _ => none) m' dir' mm' firstAccess.addr.toNat := by
  have hrun : (doPageFault (twoPages 0) (fun _ => none) (onePage 1) firstAccess.addr.toNat
      firstAccess.esp.toNat firstAccess.errorCode.toNat).map
      (fun r => ((r.2.1.translate firstAccess.addr.toNat).map PageEntry.write, r.2.2)) =
        some (some true, onePage 1, 0) := by decide
  obtain ⟨⟨m', dir', mm', ret⟩, hfault, hview⟩ := Option.map_eq_some_iff.mp hrun
  simp only [Prod.mk.injEq] at hview
  obtain ⟨hwrite, rfl, rfl⟩ := hview
  refine ⟨m', dir', onePage 1, hfault, hwrite, fun h => ?_⟩
  obtain ⟨c, entry, hfind, -, hentry, hallows⟩ := h.rights
  obtain rfl : c = ⟨[], ⟨0x1000, 0x2000, 1, 0⟩, []⟩ := Option.some.inj hfind.symm
  rw [hentry] at hwrite
  exact absurd (hallows.write (Option.some.inj hwrite)) (by decide)

end XBook.Paging
