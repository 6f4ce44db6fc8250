import XBook.Mm.VmspaceInvariant

/-!
# What unmapping leaves

`MunmapFrame` says what a `DoMunmap` should do: the range is not mapped any more, every other
address keeps its rights, and a call that fails changes nothing. `DoMunmap` cuts the range out of
one space. Where it keeps the part before the range, that part keeps its place in the list; where
the range begins its space, everything before the space is dropped with it, since `prev` is always
`NULL`. The part behind the range is a new space, whose rights are never set. `munmap_frame_iff`
says that these are the only ways to go wrong.
-/

namespace XBook

/-- `pageProt` and `flags` of the space that holds an address. -/
def rights (spaces : List VMSpace) (address : Nat) : Option (Nat × Nat) :=
  (spaces.find? fun s => s.start ≤ address ∧ address < s.stop).map fun s => (s.pageProt, s.flags)

/-- What a `DoMunmap` should leave and return. -/
structure MunmapFrame (mm : MemoryManager) (addr len : Nat) (res : MemoryManager × Int) : Prop where
  mapped : res.2 = 0 → ∀ address, (∃ s ∈ res.1.spaceMap, s.Holds address) ↔
    (∃ s ∈ mm.spaceMap, s.Holds address) ∧ ¬ (addr ≤ address ∧ address < addr + pageAlign len)
  kept : res.2 = 0 → ∀ address, (∃ s ∈ res.1.spaceMap, s.Holds address) →
    rights res.1.spaceMap address = rights mm.spaceMap address
  unchanged : res.2 ≠ 0 → res.1 = mm

/-- The arguments pass the tests of `DoMunmap`, and the range lies in the space found. -/
def CutsRange (c : VMSpaceCursor) (addr len : Nat) : Prop :=
  addr % pageSize = 0 ∧ addr ≤ userVmSize ∧ len ≤ userVmSize - addr ∧ 0 < pageAlign len ∧
    c.space.start ≤ addr ∧ addr + pageAlign len ≤ c.space.stop

/-- The first space is cut, or the range does not begin its space; and where something of the space
is left behind the range, the memory for it happens to hold the rights of the space. -/
def CutsCleanly (mm : MemoryManager) (addr len : Nat) (kmalloc : Option VMSpace) : Prop :=
  ∀ c block, findVMSpace mm.spaceMap addr = some c → kmalloc = some block →
    CutsRange c addr len →
      (addr = c.space.start → c.before = []) ∧
      (addr + pageAlign len < c.space.stop →
        block.pageProt = c.space.pageProt ∧ block.flags = c.space.flags)

/-! ## Rights of a list -/

@[simp] theorem rights_nil (address : Nat) : rights [] address = none := rfl

theorem rights_cons (s : VMSpace) (rest : List VMSpace) (address : Nat) :
    rights (s :: rest) address =
      if s.start ≤ address ∧ address < s.stop then some (s.pageProt, s.flags)
      else rights rest address := by
  by_cases hin : s.start ≤ address ∧ address < s.stop <;> simp [rights, hin]

theorem rights_append (l₁ l₂ : List VMSpace) (address : Nat) :
    rights (l₁ ++ l₂) address = (rights l₁ address).or (rights l₂ address) := by
  simp only [rights, List.find?_append, Option.map_or]

/-- An address has rights when a space holds it. -/
theorem rights_is_some {spaces : List VMSpace} {address : Nat} :
    (rights spaces address).isSome ↔ ∃ s ∈ spaces, s.Holds address := by
  simp [rights, VMSpace.Holds]

theorem rights_eq_none {spaces : List VMSpace} {address : Nat}
    (h : ∀ s ∈ spaces, s.stop ≤ address ∨ address < s.start) : rights spaces address = none := by
  rw [← Option.not_isSome_iff_eq_none, rights_is_some]
  rintro ⟨s, hs, hlow, hhigh⟩
  rcases h s hs with hleft | hright <;> omega

/-- The frame law of a successful call, as one equation for each address. -/
theorem munmap_frame_zero {mm mm' : MemoryManager} {addr len : Nat} :
    MunmapFrame mm addr len (mm', 0) ↔ ∀ address, rights mm'.spaceMap address =
      if addr ≤ address ∧ address < addr + pageAlign len then none
      else rights mm.spaceMap address := by
  constructor
  · intro h address
    have hmapped := h.mapped rfl address
    rw [← rights_is_some, ← rights_is_some] at hmapped
    by_cases hrange : addr ≤ address ∧ address < addr + pageAlign len
    · rw [if_pos hrange, ← Option.not_isSome_iff_eq_none]
      exact fun hsome => (hmapped.mp hsome).2 hrange
    · rw [if_neg hrange]
      by_cases hsome : (rights mm'.spaceMap address).isSome
      · exact h.kept rfl address (rights_is_some.mp hsome)
      · have hnone : ¬ (rights mm.spaceMap address).isSome :=
          fun hold => hsome (hmapped.mpr ⟨hold, hrange⟩)
        rw [Option.not_isSome_iff_eq_none] at hsome hnone
        rw [hsome, hnone]
  · intro h
    refine ⟨fun _ address => ?_, fun _ address hheld => ?_, fun hne => absurd rfl hne⟩
    · rw [← rights_is_some, ← rights_is_some, h address]
      split <;> simp_all
    · rw [← rights_is_some, h address] at hheld
      rw [h address]
      split at hheld
      · simp at hheld
      · next hout => rw [if_neg hout]

/-! ## Cutting -/

/-- What stands behind the range after the cut. -/
def cutTail (c : VMSpaceCursor) (addr len : Nat) (block : VMSpace) : List VMSpace :=
  if addr + len = c.space.stop then c.after
  else { block with start := addr + len, stop := c.space.stop } :: c.after

/-- The two shapes of a cut: the range begins the space, or something is left before it. -/
theorem cut_vm_space_eq {c : VMSpaceCursor} {addr len : Nat} {block : VMSpace}
    (hword : addr + len < 2 ^ 32) : cutVMSpace c addr len block =
      if c.space.start = addr then cutTail c addr len block
      else c.before ++ { c.space with stop := addr } :: cutTail c addr len block := by
  simp only [cutVMSpace, cutTail, wrap_of_lt hword, removeVMSpace]
  split <;> split <;> rfl

theorem rights_cut_tail (c : VMSpaceCursor) (addr len : Nat) (block : VMSpace) (address : Nat) :
    rights (cutTail c addr len block) address =
      if addr + len ≤ address ∧ address < c.space.stop then some (block.pageProt, block.flags)
      else rights c.after address := by
  rw [cutTail]
  split
  · rw [if_neg (by omega)]
  · rw [rights_cons]

/-- The cut is right exactly when it drops no space and the part behind the range has the rights
of its space. -/
theorem cut_frame_iff {c : VMSpaceCursor} {addr len : Nat} {block : VMSpace}
    (h : SpacesOrdered (c.before ++ c.space :: c.after)) (hlen : 0 < len)
    (hstart : c.space.start ≤ addr) (hstop : addr + len ≤ c.space.stop) :
    (∀ address, rights (cutVMSpace c addr len block) address =
        if addr ≤ address ∧ address < addr + len then none
        else rights (c.before ++ c.space :: c.after) address) ↔
      (addr = c.space.start → c.before = []) ∧
      (addr + len < c.space.stop →
        block.pageProt = c.space.pageProt ∧ block.flags = c.space.flags) := by
  have hword : addr + len < 2 ^ 32 := Nat.lt_of_le_of_lt hstop (h.valid c.space (by simp)).word
  obtain ⟨hbefore, hafter⟩ := h.around
  have hnoBefore : ∀ address, c.space.start ≤ address → rights c.before address = none :=
    fun address hle => rights_eq_none fun s hs => .inl (Nat.le_trans (hbefore s hs) hle)
  have hnoAfter : ∀ address, address < c.space.stop → rights c.after address = none :=
    fun address hlt => rights_eq_none fun s hs => .inr (Nat.lt_of_lt_of_le hlt (hafter s hs))
  have hold : ∀ address, c.space.start ≤ address →
      rights (c.before ++ c.space :: c.after) address =
        if address < c.space.stop then some (c.space.pageProt, c.space.flags)
        else rights c.after address := by
    intro address hle
    rw [rights_append, hnoBefore address hle, Option.none_or, rights_cons]
    simp only [hle, true_and]
  -- from the range on, both shapes show what is left behind it
  have hbehind : ∀ address, addr ≤ address → rights (cutVMSpace c addr len block) address =
      rights (cutTail c addr len block) address := by
    intro address hle
    rw [cut_vm_space_eq hword]
    split
    · rfl
    · rw [rights_append, hnoBefore address (Nat.le_trans hstart hle), Option.none_or, rights_cons,
        if_neg (by simp only; omega)]
  constructor
  · intro hframe
    refine ⟨fun hfirst => ?_, fun hpart => ?_⟩
    · cases hlist : c.before with
      | nil => rfl
      | cons s rest =>
          exfalso
          have hs : s.stop ≤ c.space.start := hbefore s (by simp [hlist])
          have hvalid := (h.valid s (by simp [hlist])).nonempty
          -- the first space is not mapped any more
          have heq := hframe s.start
          rw [cut_vm_space_eq hword, if_pos hfirst.symm, rights_cut_tail, if_neg (by omega),
            hnoAfter s.start (by omega), if_neg (by omega), hlist, List.cons_append, rights_cons,
            if_pos ⟨Nat.le_refl _, hvalid⟩] at heq
          simp at heq
    · have heq := hframe (addr + len)
      rw [hbehind _ (by omega), rights_cut_tail, if_pos ⟨Nat.le_refl _, hpart⟩, if_neg (by omega),
        hold _ (by omega), if_pos hpart] at heq
      simpa using heq
  · rintro ⟨hfirst, hrights⟩ address
    by_cases hrange : addr ≤ address
    · rw [hbehind address hrange, rights_cut_tail, hold address (Nat.le_trans hstart hrange)]
      by_cases hin : address < addr + len
      · rw [if_neg (by omega), if_pos ⟨hrange, hin⟩, hnoAfter address (by omega)]
      · rw [if_neg (c := addr ≤ address ∧ address < addr + len) fun hand => hin hand.2]
        by_cases hpart : address < c.space.stop
        · obtain ⟨hprot, hflags⟩ := hrights (by omega)
          rw [if_pos ⟨Nat.not_lt.mp hin, hpart⟩, if_pos hpart, hprot, hflags]
        · rw [if_neg fun hand => hpart hand.2, if_neg hpart]
    · rw [if_neg (fun hand => hrange hand.1), cut_vm_space_eq hword]
      split
      · next heq =>
          rw [hfirst heq.symm, List.nil_append, rights_cons, rights_cut_tail, if_neg (by omega),
            if_neg (by omega)]
      · rw [rights_append, rights_append, rights_cons, rights_cons, rights_cut_tail]
        congr 1
        by_cases hin : c.space.start ≤ address
        · rw [if_pos ⟨hin, Nat.not_le.mp hrange⟩, if_pos ⟨hin, by omega⟩]
        · rw [if_neg (fun hand => hin hand.1), if_neg (by omega), if_neg (fun hand => hin hand.1)]

/-! ## The call -/

theorem do_munmap_cut {mm : MemoryManager} {addr len : Nat} {c : VMSpaceCursor} {block : VMSpace}
    (hfind : findVMSpace mm.spaceMap addr = some c) (hword : c.space.stop < 2 ^ 32)
    (hcuts : CutsRange c addr len) : doMunmap mm addr len (some block) =
      ({ mm with spaceMap := cutVMSpace c addr (pageAlign len) block }, 0) := by
  obtain ⟨halign, haddr, hlen, hpos, hstart, hstop⟩ := hcuts
  have hargs : ¬ (addr % pageSize ≠ 0 ∨ addr > userVmSize ∨ len > wrapSub userVmSize addr) := by
    rw [wrap_sub_of_le (by norm_num [userVmSize]) haddr]
    omega
  have hinside : ¬ (addr < c.space.start ∨ wrap (addr + pageAlign len) > c.space.stop) := by
    rw [wrap_of_lt (Nat.lt_of_le_of_lt hstop hword)]
    omega
  simp only [doMunmap, hargs, if_false, Nat.ne_of_gt hpos, hfind, hinside]

/-- A call that cuts nothing fails. -/
theorem do_munmap_refused {mm : MemoryManager} {addr len : Nat} {kmalloc : Option VMSpace}
    (h : ∀ c block, findVMSpace mm.spaceMap addr = some c → kmalloc = some block →
      ¬ CutsRange c addr len) : ∃ ret, ret ≠ 0 ∧ doMunmap mm addr len kmalloc = (mm, ret) := by
  by_cases hargs : addr % pageSize ≠ 0 ∨ addr > userVmSize ∨ len > wrapSub userVmSize addr
  · exact ⟨-1, by decide, by simp only [doMunmap, hargs, if_true]⟩
  by_cases hzero : pageAlign len = 0
  · exact ⟨-1, by decide, by simp only [doMunmap, hargs, if_false, hzero, if_true]⟩
  simp only [doMunmap, hargs, if_false, hzero]
  cases hfind : findVMSpace mm.spaceMap addr with
  | none => exact ⟨-1, by decide, rfl⟩
  | some c =>
      by_cases hinside : addr < c.space.start ∨ wrap (addr + pageAlign len) > c.space.stop
      · exact ⟨-2, by decide, by simp only [hinside, if_true]⟩
      · cases kmalloc with
        | none => exact ⟨-1, by decide, by simp only [hinside, if_false]⟩
        | some block =>
            exfalso
            simp only [not_or, Decidable.not_not, Nat.not_lt] at hargs hinside
            obtain ⟨halign, haddr, hlen⟩ := hargs
            rw [wrap_sub_of_le (by norm_num [userVmSize]) haddr] at hlen
            have hfits : addr + pageAlign len ≤ userVmSize := by
              simp only [pageAlign, pageMask, wrap, pageSize, userVmSize] at *
              split <;> omega
            rw [wrap_of_lt (Nat.lt_of_le_of_lt hfits (by norm_num [userVmSize]))] at hinside
            exact h c block hfind rfl ⟨halign, haddr, hlen, Nat.pos_of_ne_zero hzero, hinside⟩

/-- For every well-formed list and every range, `DoMunmap` does what it should exactly when it
cuts cleanly. -/
theorem munmap_frame_iff {mm : MemoryManager} (hwf : WellFormed mm.spaceMap) (addr len : UInt32)
    (kmalloc : Option VMSpace) :
    MunmapFrame mm addr.toNat len.toNat (doMunmap mm addr.toNat len.toNat kmalloc) ↔
      CutsCleanly mm addr.toNat len.toNat kmalloc := by
  have hordered := well_formed_iff_ordered.mp hwf
  generalize addr.toNat = addr
  generalize len.toNat = len
  by_cases hcuts : ∃ c block, findVMSpace mm.spaceMap addr = some c ∧ kmalloc = some block ∧
      CutsRange c addr len
  · obtain ⟨c, block, hfind, rfl, hcuts⟩ := hcuts
    have hspaces := (find_vm_space_some hfind).1
    rw [hspaces] at hordered
    have hclean : CutsCleanly mm addr len (some block) ↔
        (addr = c.space.start → c.before = []) ∧ (addr + pageAlign len < c.space.stop →
          block.pageProt = c.space.pageProt ∧ block.flags = c.space.flags) := by
      refine ⟨fun h => h c block hfind rfl hcuts, ?_⟩
      rintro h c' block' hfind' hblock -
      obtain rfl : c = c' := Option.some.inj (hfind.symm.trans hfind')
      obtain rfl : block = block' := Option.some.inj hblock
      exact h
    have hword := (hordered.valid c.space (by simp)).word
    rw [do_munmap_cut hfind hword hcuts, munmap_frame_zero, hclean]
    obtain ⟨-, -, -, hpos, hstart, hstop⟩ := hcuts
    rw [← cut_frame_iff hordered hpos hstart hstop, hspaces]
  · obtain ⟨ret, hret, heq⟩ := @do_munmap_refused mm addr len kmalloc
      fun c block hfind hblock hrange => hcuts ⟨c, block, hfind, hblock, hrange⟩
    rw [heq]
    refine iff_of_true ⟨fun hzero => absurd hzero hret, fun hzero => absurd hzero hret,
      fun _ => rfl⟩ ?_
    intro c block hfind hblock hrange
    exact absurd ⟨c, block, hfind, hblock, hrange⟩ hcuts

/-- The end of a space is unmapped; the space before it stays. -/
theorem munmap_end_framed :
    MunmapFrame ⟨[⟨0x1000, 0x2000, 5, 0⟩, ⟨0x40000000, 0x40003000, 3, 0⟩], 0, 0⟩ 0x40002000 0x1000
      (doMunmap ⟨[⟨0x1000, 0x2000, 5, 0⟩, ⟨0x40000000, 0x40003000, 3, 0⟩], 0, 0⟩ 0x40002000 0x1000
        (some ⟨0, 0, 0, 0⟩)) := by
  refine (@munmap_frame_iff ⟨[⟨0x1000, 0x2000, 5, 0⟩, ⟨0x40000000, 0x40003000, 3, 0⟩], 0, 0⟩
    ⟨?_, ?_, ?_⟩ 0x40002000 0x1000 (some ⟨0, 0, 0, 0⟩)).mpr ?_
  · simp
  · simp only [List.pairwise_pair, VMSpace.Holds]
    intro address
    omega
  · intro s hs
    rcases List.mem_cons.mp hs with rfl | hs
    · constructor <;> norm_num
    · rw [List.mem_singleton.mp hs]
      constructor <;> norm_num
  · intro c block hfind _ _
    cases Option.some.inj hfind
    exact ⟨fun heq => absurd heq (by decide), fun hlt => absurd hlt (by decide)⟩

/-- The whole of the second space is unmapped, and the first one is gone as well. -/
theorem munmap_drops_first_space : ∃ mm : MemoryManager, WellFormed mm.spaceMap ∧
    (doMunmap mm 0x40000000 0x3000 (some ⟨0, 0, 0, 0⟩)).1.spaceMap = [] ∧
    ¬ MunmapFrame mm 0x40000000 0x3000 (doMunmap mm 0x40000000 0x3000 (some ⟨0, 0, 0, 0⟩)) := by
  have hempty : doMunmap ⟨[⟨0x1000, 0x2000, 5, 0⟩, ⟨0x40000000, 0x40003000, 3, 0⟩], 0, 0⟩
      0x40000000 0x3000 (some ⟨0, 0, 0, 0⟩) = (⟨[], 0, 0⟩, 0) := by decide
  refine ⟨⟨[⟨0x1000, 0x2000, 5, 0⟩, ⟨0x40000000, 0x40003000, 3, 0⟩], 0, 0⟩, ⟨?_, ?_, ?_⟩, ?_, ?_⟩
  · simp
  · simp only [List.pairwise_pair, VMSpace.Holds]
    intro address
    omega
  · intro s hs
    rcases List.mem_cons.mp hs with rfl | hs
    · constructor <;> norm_num
    · rw [List.mem_singleton.mp hs]
      constructor <;> norm_num
  · rw [hempty]
  · rw [hempty]
    intro h
    have hfirst := (h.mapped rfl 0x1000).mpr
      ⟨⟨⟨0x1000, 0x2000, 5, 0⟩, by simp, by decide, by decide⟩, by decide⟩
    simp at hfirst

end XBook
