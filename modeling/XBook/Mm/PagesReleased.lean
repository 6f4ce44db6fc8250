import XBook.Mm.PagesAdded

/-!
# What a release takes away

`Released` says what `MemoryManagerRelease` does with the pages of a process: the spaces that its
flags select are unmapped, every page that loses its mapping is in the record of freed pages, and
nothing new is mapped. `release_spaces_spec` proves it along the list of spaces.
-/

namespace XBook.Paging

/-- What unmapping pages does, with the pages that it has freed. -/
structure Released (phymem : PhysicMemory) (dir : Directory) (phymem' : PhysicMemory)
    (dir' : Directory) (freed : List Nat) : Prop where
  count : phymem'.memNodeCount = phymem.memNodeCount
  base : phymem'.memNodeBase = phymem.memNodeBase
  tables : ∀ region, (dir' region).map (fun table => (table.page, table.protect)) =
    (dir region).map fun table => (table.page, table.protect)
  words : ∀ v, dir'.word v = dir.word v ∨ dir'.word v = (dir.word v).map clearPresent
  logged : ∀ v page, dir.frame v = some page → dir'.frame v = none →
    (phymem.page2MemNode page).isSome → page ∈ freed
  nodes : ∀ page ∈ freed, ∃ i, phymem.page2MemNode page = some i ∧
    (phymem'.memNodeTable i).reference = 0
  clears : ∀ i, (phymem'.memNodeTable i).reference ≠ 0 →
    phymem'.memNodeTable i = phymem.memNodeTable i

variable {phymem phymem' phymem'' : PhysicMemory} {dir dir' dir'' : Directory}
  {freed freed' : List Nat}

theorem Released.refl (phymem : PhysicMemory) (dir : Directory) :
    Released phymem dir phymem dir [] :=
  ⟨rfl, rfl, fun _ => rfl, fun _ => .inl rfl,
    fun v page hsome hnone => by simp [hsome] at hnone, by simp, fun _ _ => rfl⟩

/-- What is mapped after a release was mapped before it. -/
theorem Released.frame (h : Released phymem dir phymem' dir' freed) {v page : Nat}
    (hframe : dir'.frame v = some page) : dir.frame v = some page := by
  rcases h.words v with hsame | hclear
  · rwa [Directory.frame, hsame] at hframe
  · rw [Directory.frame, hclear] at hframe
    cases hword : dir.word v <;> simp [hword, not_present_clear] at hframe

theorem Released.trans (h : Released phymem dir phymem' dir' freed)
    (h' : Released phymem' dir' phymem'' dir'' freed') :
    Released phymem dir phymem'' dir'' (freed ++ freed') := by
  refine ⟨h'.count.trans h.count, h'.base.trans h.base,
    fun region => (h'.tables region).trans (h.tables region), ?_, ?_, ?_, ?_⟩
  · intro v
    rcases h'.words v with hsame | hclear
    · rw [hsame]
      exact h.words v
    · rw [hclear]
      rcases h.words v with hsame' | hclear'
      · rw [hsame']
        exact .inr rfl
      · right
        rw [hclear', Option.map_map]
        congr 1
        funext word
        simp only [Function.comp_apply, clearPresent]
        omega
  · intro v page hframe hnone hsome
    cases hmid : dir'.frame v with
    | none => exact List.mem_append_left _ (h.logged v page hframe hmid hsome)
    | some page' =>
        have hpage := (h.frame hmid).symm.trans hframe
        cases hpage
        refine List.mem_append_right _ (h'.logged v page hmid hnone ?_)
        rwa [page2_mem_node_congr h.count h.base]
  · intro page hpage
    rcases List.mem_append.mp hpage with hpage | hpage
    · obtain ⟨i, hi, href⟩ := h.nodes page hpage
      refine ⟨i, hi, ?_⟩
      by_contra hne
      rw [h'.clears i hne] at hne
      exact hne href
    · obtain ⟨i, hi, href⟩ := h'.nodes page hpage
      exact ⟨i, by rwa [page2_mem_node_congr h.count h.base] at hi, href⟩
  · intro i href
    have hsame := h'.clears i href
    rw [hsame] at href ⊢
    exact h.clears i href

/-- A release unmaps user pages, and keeps the others as they are. -/
theorem Released.opened (h : Released phymem dir phymem' dir' freed) (hopen : PagesOpen phymem dir) :
    PagesOpen phymem' dir' := by
  refine ⟨?_, ?_⟩
  · intro region hregion table htable
    have htables := h.tables region
    rw [htable] at htables
    obtain ⟨table', htable', hsame⟩ := Option.map_eq_some_iff.mp htables.symm
    have hprotect : table'.protect = table.protect := congrArg Prod.snd hsame
    rw [← hprotect]
    exact hopen.tables region hregion table' htable'
  · intro v hv word hword hpresent
    rw [page2_mem_node_congr h.count h.base]
    rcases h.words v with hsame | hclear
    · exact hopen.entries v hv word (hsame ▸ hword) hpresent
    · rw [hclear] at hword
      obtain ⟨word', -, rfl⟩ := Option.map_eq_some_iff.mp hword
      simp [not_present_clear] at hpresent

theorem Released.keepsTables (h : Released phymem dir phymem' dir' freed) : KeepsTables dir dir' := by
  intro region table htable
  have htables := h.tables region
  rw [htable] at htables
  obtain ⟨table', htable', hsame⟩ := Option.map_eq_some_iff.mp htables
  exact ⟨table', htable', congrArg Prod.fst hsame⟩

/-! ## Spaces -/

/-- The pages of a space are those that `UnmapPagesFragment` visits for it. -/
theorem mem_fragment {sp : VMSpace} (hbounds : SpaceBounds sp) {v : Nat} (hstart : sp.start ≤ v)
    (hstop : v < sp.stop) : wrapSub sp.stop sp.start ≠ 0 ∧
      ∃ u ∈ fragment sp.start (wrapSub sp.stop sp.start), SamePage v u := by
  have hlen : wrapSub sp.stop sp.start = sp.stop - sp.start :=
    wrap_sub_of_le hbounds.stopWord (by omega)
  have halign : (sp.stop - sp.start) % pageSize = 0 := by
    have := hbounds.start
    have := hbounds.stop
    simp only [pageSize] at *
    omega
  have hend : wrap (sp.start + pageAlign (sp.stop - sp.start)) = sp.stop := by
    rw [page_align_of_aligned halign]
    have := hbounds.stopWord
    simp only [wrap]
    omega
  rw [hlen]
  refine ⟨by omega, sp.start + (v - sp.start) / pageSize * pageSize, ?_, ?_⟩
  · simp only [fragment, hend, pagesBetween, List.mem_map, List.mem_range]
    refine ⟨(v - sp.start) / pageSize, ?_, rfl⟩
    simp only [pageSize]
    omega
  · have := hbounds.start
    simp only [SamePage, pageSize] at *
    omega

/-- One call of `UnmapPagesFragment`. -/
theorem released_fragment (phymem : PhysicMemory) (dir : Directory) (vaddr len : Nat) :
    Released phymem dir (unmapPagesFragment phymem dir vaddr len).1
      (unmapPagesFragment phymem dir vaddr len).2.1 (freedPages phymem dir vaddr len) ∧
    (len ≠ 0 → ∀ v, (∃ u ∈ fragment vaddr len, SamePage v u) →
      (unmapPagesFragment phymem dir vaddr len).2.1.frame v = none) := by
  by_cases hlen : len = 0
  · simp only [unmapPagesFragment, freedPages, hlen, if_true]
    exact ⟨.refl _ _, fun hne => absurd rfl hne⟩
  · simp only [unmapPagesFragment, freedPages, hlen, if_false, unmap_pages_phymem]
    have hword := unmap_pages_word (fragment vaddr len) phymem dir
    refine ⟨⟨free_all_count _ _, free_all_base _ _, ?_, ?_, ?_, ?_, ?_⟩, ?_⟩
    · intro region
      exact unmap_pages_field (fun table => (table.page, table.protect)) (fun _ _ => rfl) _ _ _ _
    · intro v
      rw [hword]
      split
      · exact .inr rfl
      · exact .inl rfl
    · intro v page hframe hnone hsome
      obtain ⟨word, hold, hpresent, rfl⟩ := Directory.frame_eq_some.mp hframe
      refine List.mem_filter.mpr ⟨?_, hsome⟩
      by_cases hhit : ∃ u ∈ fragment vaddr len, SamePage v u
      · obtain ⟨u, hu, hsame⟩ := hhit
        refine List.mem_filterMap.mpr ⟨u, hu, ?_⟩
        rw [← dir.word_congr hsame, hold]
        rfl
      · rw [Directory.frame, hword, if_neg hhit, hold] at hnone
        simp [hpresent] at hnone
    · intro page hpage
      obtain ⟨hpage, hsome⟩ := List.mem_filter.mp hpage
      obtain ⟨i, hi⟩ := Option.isSome_iff_exists.mp hsome
      refine ⟨i, hi, ?_⟩
      rw [free_all_node]
      split
      · rfl
      · next hnot =>
          by_contra href
          exact hnot ⟨⟨page, hpage, hi⟩, href⟩
    · intro i href
      rw [free_all_node] at href ⊢
      split at href
      · exact absurd rfl href
      · next hnot => rw [if_neg hnot]
    · intro _ v hhit
      rw [Directory.frame, hword, if_pos hhit]
      cases hold : dir.word v <;> simp [not_present_clear]

/-- The loop of `MemoryManagerRelease`. -/
theorem release_spaces_spec (flags : Nat) (spaces : List VMSpace) (phymem : PhysicMemory)
    (dir : Directory) (freed : List Nat) :
    ∃ new, (releaseSpaces flags spaces phymem dir freed).2.2 = freed ++ new ∧
      Released phymem dir (releaseSpaces flags spaces phymem dir freed).1
        (releaseSpaces flags spaces phymem dir freed).2.1 new ∧
      ∀ sp ∈ spaces, releases flags sp = true → SpaceBounds sp → ∀ v, sp.start ≤ v → v < sp.stop →
        (releaseSpaces flags spaces phymem dir freed).2.1.frame v = none := by
  induction spaces generalizing phymem dir freed with
  | nil => exact ⟨[], by simp [releaseSpaces], .refl _ _, by simp⟩
  | cons sp rest ih =>
      by_cases hrelease : releases flags sp = true
      · simp only [releaseSpaces, hrelease, if_true]
        obtain ⟨hfirst, hcleared⟩ := released_fragment phymem dir sp.start (wrapSub sp.stop sp.start)
        obtain ⟨new, hnew, hrest, hspaces⟩ := ih
          (unmapPagesFragment phymem dir sp.start (wrapSub sp.stop sp.start)).1
          (unmapPagesFragment phymem dir sp.start (wrapSub sp.stop sp.start)).2.1
          (freed ++ freedPages phymem dir sp.start (wrapSub sp.stop sp.start))
        refine ⟨_, by rw [hnew, List.append_assoc], hfirst.trans hrest, ?_⟩
        intro sp' hsp' hrelease' hbounds v hstart hstop
        rcases List.mem_cons.mp hsp' with rfl | hsp'
        · obtain ⟨hlen, hhit⟩ := mem_fragment hbounds hstart hstop
          -- what the first call has cleared stays clear
          cases hframe : (releaseSpaces flags rest
              (unmapPagesFragment phymem dir sp'.start (wrapSub sp'.stop sp'.start)).1
              (unmapPagesFragment phymem dir sp'.start (wrapSub sp'.stop sp'.start)).2.1
              (freed ++ freedPages phymem dir sp'.start
                (wrapSub sp'.stop sp'.start))).2.1.frame v with
          | none => rfl
          | some page =>
              have hmid := hrest.frame hframe
              rw [hcleared hlen v hhit] at hmid
              cases hmid
        · exact hspaces sp' hsp' hrelease' hbounds v hstart hstop
      · simp only [releaseSpaces, hrelease]
        obtain ⟨new, hnew, hrest, hspaces⟩ := ih phymem dir freed
        refine ⟨new, hnew, hrest, ?_⟩
        intro sp' hsp' hrelease' hbounds v hstart hstop
        rcases List.mem_cons.mp hsp' with rfl | hsp'
        · exact absurd hrelease' hrelease
        · exact hspaces sp' hsp' hrelease' hbounds v hstart hstop

/-- The flags of `SysExit` release every space. -/
theorem releases_all (sp : VMSpace) : releases vmsAll sp = true := by
  have hbits : Nat.testBit 0x83 0 = true ∧ Nat.testBit 0x83 1 = true ∧
      Nat.testBit 0x83 7 = true := by decide
  simp only [releases, vmsAll, hbits, Bool.true_and]
  cases sp.flags.testBit 0 <;> cases sp.flags.testBit 1 <;> rfl

end XBook.Paging
