import XBook.User.Malloc

/-!
# Allocations that fail

`malloc` gives the memory of its tail back before it asks for more. `malloc_failure_iff` says that
a call for which `sbrk` fails leaves the heap as it was only if the kernel has refused every one of
its requests.
-/

namespace XBook.Malloc

open ByteMemory

namespace UserHeap

/-- The blocks of the heap from `head` to `tail`, in the order of the list. -/
structure Blocks (h : UserHeap) (l : List Address) : Prop where
  initialized : h.hadInitialized = true
  first : l.head? = some h.head
  last : l.getLast? = some h.tail
  next : ∀ i (hi : i < l.length) (hnext : (i + 1) % l.length < l.length),
    h.next l[i] = l[(i + 1) % l.length]
  prev : ∀ i (hi : i < l.length) (hnext : (i + 1) % l.length < l.length),
    h.prev l[(i + 1) % l.length] = l[i]
  flag : h.flag ∈ l

/-- A heap whose headers lie below the break, with the tail at its end. The stack is above it. -/
structure Listed (h : UserHeap) (l : List Address) : Prop where
  blocks : h.Blocks l
  inside : ∀ b ∈ l, b.toNat + 16 ≤ h.brk.toNat
  nonzero : ∀ b ∈ l, b ≠ 0
  tailLast : h.tail.toNat + 16 = h.brk.toNat
  curbrk : h.curbrk = h.brk
  brkLt : h.brk.toNat < 2 ^ 31

/-- A heap before its first `malloc`. -/
structure Fresh (h : UserHeap) : Prop where
  initialized : h.hadInitialized = false
  brkPos : 0 < h.brk.toNat
  curbrk : h.curbrk = 0 ∨ h.curbrk = h.brk
  brkLt : h.brk.toNat + 256 < 2 ^ 31

/-- The states of the heap. -/
def WellFormed (h : UserHeap) : Prop := h.Fresh ∨ ∃ l, h.Listed l

end UserHeap

/-- A later call. -/
inductive Call where
  | malloc (size : BitVec 32) (accept : SbrkCall → Bool) (fuel : Nat)
  | free (ptr : Address)

namespace UserHeap

/-- The results of calls, each with the memory that it leaves. -/
def results (h : UserHeap) : List Call → List (ByteMemory 32 × Option Address)
  | [] => []
  | .malloc size accept fuel :: rest =>
      match h.malloc size accept fuel with
      | none => [(h.mem, none)]
      | some (h, ptr) => (h.mem, some ptr) :: h.results rest
  | .free ptr :: rest => ((h.free ptr).mem, none) :: (h.free ptr).results rest

/-- The list has the blocks that it had, all of them below the break, and later calls give what
they would have given. -/
structure FailureAtomic (h h' : UserHeap) : Prop where
  blocks : ∀ l, h.Blocks l ↔ h'.Blocks l
  inside : ∀ l, h'.Blocks l → ∀ b ∈ l, b.toNat + 16 ≤ h'.brk.toNat
  later : ∀ calls, h.results calls = h'.results calls

/-- The kernel refuses the requests that `malloc` makes before the one for the block. -/
def Refused (h : UserHeap) (accept : SbrkCall → Bool) : Prop :=
  if h.hadInitialized then accept .shrink = false
  else accept .head = false ∧ accept .tail = false

/-! ## The break -/

theorem set_curbrk {h : UserHeap} (hcur : h.curbrk = h.brk) : { h with curbrk := h.brk } = h := by
  cases h
  cases hcur
  rfl

theorem ask_break {h : UserHeap} (hcur : h.curbrk = 0 ∨ h.curbrk = h.brk) :
    (if h.curbrk = 0 then { h with curbrk := h.brk } else h) = { h with curbrk := h.brk } := by
  obtain hzero | hbrk := hcur
  · rw [if_pos hzero]
  · rw [set_curbrk hbrk]
    exact ite_self h

/-- A request for more memory. -/
theorem sbrk_up {h : UserHeap} {increment : BitVec 32} (accept : Bool)
    (hcur : h.curbrk = 0 ∨ h.curbrk = h.brk) (hpos : 0 < increment.toNat)
    (hinc : increment.toNat < 2 ^ 31) (hroom : h.brk.toNat + increment.toNat < 2 ^ 32) :
    h.sbrk increment accept =
      if accept then
        ({ h with curbrk := h.brk + increment, brk := h.brk + increment }, h.brk)
      else ({ h with curbrk := h.brk }, -1) := by
  have hne : increment ≠ 0 := by
    rintro rfl
    exact absurd hpos (by decide)
  have hsigned : (0 : BitVec 32).slt increment = true := by
    rw [BitVec.slt_iff_toInt_lt, BitVec.toInt_eq_toNat_of_lt (show 2 * increment.toNat < _ by omega)]
    exact Int.natCast_pos.mpr hpos
  have hover : (h.brk + increment).ult h.brk = false := by
    rw [BitVec.ult_eq_decide, decide_eq_false_iff_not]
    bv_omega
  have hself : (h.brk + increment).ult (h.brk + increment) = false := by
    rw [BitVec.ult_eq_decide, decide_eq_false_iff_not]
    exact Nat.lt_irrefl _
  have hless : h.brk.ult (h.brk + increment) = true := by
    rw [BitVec.ult_eq_decide, decide_eq_true_eq]
    bv_omega
  unfold sbrk
  simp only [ask_break hcur, if_neg hne, hsigned, if_true, hover, Bool.false_eq_true, if_false]
  cases accept with
  | true => simp only [if_true, hself, Bool.false_eq_true, if_false]
  | false => simp only [Bool.false_eq_true, if_false, hless, if_true]

/-- The memory of the tail is given back, unless the kernel refuses. -/
theorem sbrk_down {h : UserHeap} (accept : Bool) (hcur : h.curbrk = h.brk)
    (hlow : 16 ≤ h.brk.toNat) (hhigh : h.brk.toNat < 2 ^ 31) :
    (h.sbrk (-1 * memBlockSize) accept).1 =
      if accept then { h with curbrk := h.brk - 16, brk := h.brk - 16 } else h := by
  have hback : h.brk + -1 * memBlockSize = h.brk - 16 := by bv_omega
  have hsigned : (0 : BitVec 32).slt (-1 * memBlockSize) = false := by decide
  have hstart : h.brk.slt (-(-1 * memBlockSize)) = false := by
    rw [← Bool.not_eq_true, BitVec.slt_iff_toInt_lt,
      BitVec.toInt_eq_toNat_of_lt (show 2 * h.brk.toNat < _ by omega)]
    exact Int.not_lt.mpr (Int.ofNat_le.mpr hlow)
  have hself : (h.brk - 16).ult (h.brk - 16) = false := by
    rw [BitVec.ult_eq_decide, decide_eq_false_iff_not]
    exact Nat.lt_irrefl _
  have hmore : h.brk.ult (h.brk - 16) = false := by
    rw [BitVec.ult_eq_decide, decide_eq_false_iff_not]
    bv_omega
  have hask := (ask_break (.inr hcur)).trans (set_curbrk hcur)
  unfold sbrk
  simp only [hask]
  simp only [hcur, if_neg (show ¬-1 * memBlockSize = 0 by decide), hsigned, hstart, hback,
    Bool.false_eq_true, if_false]
  cases accept with
  | true => simp only [if_true, hself, Bool.false_eq_true, if_false]
  | false =>
      simp only [Bool.false_eq_true, if_false, hmore]
      exact set_curbrk hcur

/-- A request that fails changes nothing. -/
theorem sbrk_failed {h : UserHeap} {increment : BitVec 32} {accept : Bool}
    (hcur : h.curbrk = h.brk) (hhigh : h.brk.toNat < 2 ^ 31)
    (hfail : (h.sbrk increment accept).2 = -1) : (h.sbrk increment accept).1 = h := by
  have hbrk : h.brk ≠ -1 := by
    intro hbrk
    rw [hbrk] at hhigh
    exact absurd hhigh (by decide)
  have hself : (h.brk + increment).ult (h.brk + increment) = false := by
    rw [BitVec.ult_eq_decide, decide_eq_false_iff_not]
    exact Nat.lt_irrefl _
  have hask := (ask_break (.inr hcur)).trans (set_curbrk hcur)
  unfold sbrk at hfail ⊢
  simp only [hask] at hfail ⊢
  simp only [hcur] at hfail ⊢
  by_cases hzero : increment = 0
  · rw [if_pos hzero] at hfail
    exact absurd hfail hbrk
  · rw [if_neg hzero] at hfail ⊢
    generalize (if (0 : BitVec 32).slt increment then (h.brk + increment).ult h.brk
      else h.brk.slt (-increment)) = refused at hfail ⊢
    cases refused with
    | true => rfl
    | false =>
        simp only [Bool.false_eq_true, if_false] at hfail ⊢
        cases accept with
        | true =>
            simp only [if_true, hself, Bool.false_eq_true, if_false] at hfail
            exact absurd hfail hbrk
        | false =>
            simp only [Bool.false_eq_true, if_false] at hfail ⊢
            split
            · exact set_curbrk hcur
            · rename_i hless
              rw [if_neg hless] at hfail
              exact absurd hfail hbrk

theorem sbrk_result {h : UserHeap} {increment : BitVec 32} {accept : Bool}
    (hcur : h.curbrk = h.brk) :
    (h.sbrk increment accept).2 = -1 ∨ (h.sbrk increment accept).2 = h.brk := by
  have hask := (ask_break (.inr hcur)).trans (set_curbrk hcur)
  unfold sbrk
  simp only [hask]
  split
  · exact .inr hcur
  · generalize (if (0 : BitVec 32).slt increment then (h.curbrk + increment).ult h.curbrk
      else h.curbrk.slt (-increment)) = refused
    cases refused with
    | true => exact .inl rfl
    | false =>
        simp only [Bool.false_eq_true, if_false]
        generalize (if accept = true then h.curbrk + increment else h.brk) = newbrk
        split
        · exact .inl rfl
        · exact .inr hcur

/-! ## The loop and the growth -/

theorem Blocks.next_mem {h : UserHeap} {l : List Address} (hb : h.Blocks l) {b : Address}
    (hmem : b ∈ l) : h.next b ∈ l := by
  obtain ⟨i, hi, rfl⟩ := List.mem_iff_getElem.mp hmem
  rw [hb.next i hi (Nat.mod_lt _ (Nat.zero_lt_of_lt hi))]
  exact List.getElem_mem _

/-- The blocks that are reached from `head` are those of the list. -/
theorem Blocks.subset {h : UserHeap} {l l' : List Address} (hb : h.Blocks l)
    (hb' : h.Blocks l') {b : Address} (hmem : b ∈ l') : b ∈ l := by
  obtain ⟨i, hi, rfl⟩ := List.mem_iff_getElem.mp hmem
  clear hmem
  induction i with
  | zero =>
      have hfirst := hb'.first
      rw [List.head?_eq_getElem?, List.getElem?_eq_getElem hi, Option.some.injEq] at hfirst
      rw [hfirst]
      exact List.mem_of_mem_head? hb.first
  | succ i ih =>
      have hnext := hb'.next i (by omega) (Nat.mod_lt _ (Nat.zero_lt_of_lt hi))
      simp only [Nat.mod_eq_of_lt hi] at hnext
      rw [← hnext]
      exact hb.next_mem (ih (by omega))

/-- A loop that takes no block ends where it has begun. -/
theorem find_block_none {h h' : UserHeap} {l : List Address} {size : BitVec 32} {fuel : Nat}
    {current last : Address} (hl : h.Listed l) (hmem : current ∈ l)
    (hfind : h.findBlock size fuel current = some (h', last, 0)) : h' = h ∧ last = h.flag := by
  induction fuel generalizing current with
  | zero => cases hfind
  | succ fuel ih =>
      rw [findBlock, if_neg (hl.nonzero current hmem)] at hfind
      split at hfind
      · -- The memory of a block is not at address 0.
        simp only [Option.some.injEq, Prod.mk.injEq] at hfind
        obtain ⟨-, -, hzero⟩ := hfind
        have hin := hl.inside current hmem
        have hlt := hl.brkLt
        exfalso
        bv_omega
      · dsimp only at hfind
        split at hfind
        · rename_i hflag
          cases hfind
          exact ⟨rfl, hflag⟩
        · exact ih (hl.blocks.next_mem hmem) hfind

/-- The heap after a growth that has failed. -/
theorem grow_heap_failed {h h' : UserHeap} {size blockSize : BitVec 32}
    {accept : SbrkCall → Bool} (hcur : h.curbrk = h.brk) (hlow : 16 ≤ h.brk.toNat)
    (hhigh : h.brk.toNat < 2 ^ 31) (hgrow : h.growHeap size blockSize accept = (h', 0)) :
    h' = if accept .shrink then { h with curbrk := h.brk - 16, brk := h.brk - 16 } else h := by
  rw [growHeap, sbrk_down (accept .shrink) hcur hlow hhigh] at hgrow
  generalize hgiven : (if accept .shrink = true then
    { h with curbrk := h.brk - 16, brk := h.brk - 16 } else h) = given at hgrow ⊢
  have hcur' : given.curbrk = given.brk := by
    rw [← hgiven]
    split
    · rfl
    · exact hcur
  have hhigh' : given.brk.toNat < 2 ^ 31 := by
    rw [← hgiven]
    split
    · dsimp only
      bv_omega
    · exact hhigh
  dsimp only at hgrow
  split at hgrow
  · rename_i hfail
    rw [sbrk_failed hcur' hhigh' hfail] at hgrow
    cases hgrow
    rfl
  · rename_i hsome
    -- The memory that `sbrk` gives is not at the end of the addresses.
    have hzero := congrArg Prod.snd hgrow
    have hbrk := (sbrk_result hcur').resolve_left hsome
    dsimp only at hzero
    rw [hbrk] at hzero
    exfalso
    bv_omega

/-- In a heap that has blocks, a call that fails leaves the heap as it was, or without the memory of
its tail. -/
theorem malloc_failed_listed {h h' : UserHeap} {l : List Address} {size : BitVec 32}
    {accept : SbrkCall → Bool} {fuel : Nat} (hl : h.Listed l) (hsize : align4 size ≠ 0)
    (hfail : h.malloc size accept fuel = some (h', 0)) :
    h' = if accept .shrink then { h with curbrk := h.brk - 16, brk := h.brk - 16 } else h := by
  have hlow := hl.tailLast
  rw [malloc] at hfail
  simp only [if_neg hsize, hl.blocks.initialized, if_true, Bool.true_eq_false, if_false] at hfail
  obtain ⟨⟨found, current, location⟩, hfind, hrest⟩ := Option.map_eq_some_iff.mp hfail
  dsimp only at hrest
  by_cases hzero : location = 0
  · rw [if_pos hzero] at hrest
    rw [hzero] at hfind
    obtain ⟨rfl, rfl⟩ := find_block_none hl hl.blocks.flag hfind
    exact grow_heap_failed hl.curbrk (by omega) hl.brkLt hrest
  · rw [if_neg hzero, Prod.mk.injEq] at hrest
    exact absurd hrest.2 hzero

/-- The tail that has lost its memory is not below the break. -/
theorem tail_lost {h : UserHeap} {l : List Address} (hl : h.Listed l) :
    ¬FailureAtomic h { h with curbrk := h.brk - 16, brk := h.brk - 16 } := by
  intro hatomic
  have htail : h.tail ∈ l := List.mem_of_getLast? hl.blocks.last
  have hin := hatomic.inside l ((hatomic.blocks l).mp hl.blocks) h.tail htail
  have hlast := hl.tailLast
  dsimp only at hin
  bv_omega

theorem atomic_refl {h : UserHeap} {l : List Address} (hl : h.Listed l) : FailureAtomic h h :=
  ⟨fun _ => Iff.rfl, fun _ hl' b hb => hl.inside b (hl.blocks.subset hl' hb), fun _ => rfl⟩

/-! ## The first call -/

/-- The first call asks for the memory of the head and of the tail. -/
theorem init_requests {h : UserHeap} (accept : SbrkCall → Bool)
    (hcur : h.curbrk = 0 ∨ h.curbrk = h.brk) (hroom : h.brk.toNat + 64 < 2 ^ 31) :
    h.sbrk memBlockSize (accept .head) =
        (if accept .head then ({ h with curbrk := h.brk + 16, brk := h.brk + 16 }, h.brk)
        else ({ h with curbrk := h.brk }, -1)) ∧
      (h.sbrk memBlockSize (accept .head)).1.sbrk memBlockSize (accept .tail) =
        if accept .head then
          if accept .tail then
            ({ h with curbrk := h.brk + 16 + 16, brk := h.brk + 16 + 16 }, h.brk + 16)
          else ({ h with curbrk := h.brk + 16, brk := h.brk + 16 }, -1)
        else if accept .tail then ({ h with curbrk := h.brk + 16, brk := h.brk + 16 }, h.brk)
        else ({ h with curbrk := h.brk }, -1) := by
  have hfirst := @sbrk_up h memBlockSize (accept .head) hcur (by decide) (by decide)
    (show h.brk.toNat + 16 < 2 ^ 32 by omega)
  refine ⟨hfirst, ?_⟩
  rw [hfirst]
  cases accept .head with
  | true =>
      rw [if_pos rfl, if_pos rfl]
      exact sbrk_up (accept .tail) (.inr rfl) (by decide) (by decide)
        (show (h.brk + 16).toNat + 16 < 2 ^ 32 by bv_omega)
  | false =>
      rw [if_neg (by decide), if_neg (by decide)]
      exact sbrk_up (accept .tail) (.inr rfl) (by decide) (by decide)
        (show h.brk.toNat + 16 < 2 ^ 32 by omega)

/-- Without one of the two the heap stays as it was, but for the memory of the other. -/
theorem init_refused {h : UserHeap} {accept : SbrkCall → Bool}
    (hcur : h.curbrk = 0 ∨ h.curbrk = h.brk) (hroom : h.brk.toNat + 64 < 2 ^ 31)
    (hrefused : accept .head = false ∨ accept .tail = false) :
    ∃ head tail, h.initMemoryAlloctor accept =
      if accept .head || accept .tail then
        ({ h with head := head, tail := tail, curbrk := h.brk + 16, brk := h.brk + 16 }, false)
      else ({ h with head := head, tail := tail, curbrk := h.brk }, false) := by
  obtain ⟨hfirst, hsecond⟩ := init_requests accept hcur hroom
  unfold initMemoryAlloctor
  dsimp only
  rw [hsecond, hfirst]
  cases hhead : accept .head with
  | true =>
      cases htail : accept .tail with
      | true => simp [hhead, htail] at hrefused
      | false => exact ⟨h.brk, -1, by simp⟩
  | false =>
      cases accept .tail with
      | true => exact ⟨-1, h.brk, by simp⟩
      | false => exact ⟨-1, -1, by simp⟩

/-- The head and the tail in front of each other, both in use. -/
structure Empty (h : UserHeap) (start : Address) : Prop where
  initialized : h.hadInitialized = true
  head : h.head = start
  tail : h.tail = start + 16
  flag : h.flag = start
  brk : h.brk = start + 16 + 16
  curbrk : h.curbrk = start + 16 + 16
  headUsed : h.used start = 1
  tailUsed : h.used (start + 16) = 1
  headNext : h.next start = start + 16
  tailNext : h.next (start + 16) = start
  headPrev : h.prev start = start + 16
  tailPrev : h.prev (start + 16) = start

theorem init_accepted {h : UserHeap} {accept : SbrkCall → Bool}
    (hcur : h.curbrk = 0 ∨ h.curbrk = h.brk) (hroom : h.brk.toNat + 64 < 2 ^ 31)
    (hhead : accept .head = true) (htail : accept .tail = true) :
    ∃ h', h.initMemoryAlloctor accept = (h', true) ∧ h'.Empty h.brk := by
  obtain ⟨hfirst, hsecond⟩ := init_requests accept hcur hroom
  rw [if_pos hhead] at hfirst
  rw [if_pos hhead, if_pos htail] at hsecond
  have hne : ¬(h.brk = -1 ∨ h.brk + 16 = -1) := by
    rintro (heq | heq) <;> bv_omega
  unfold initMemoryAlloctor
  dsimp only
  rw [hsecond, hfirst]
  dsimp only
  rw [if_neg hne]
  -- The words of the two headers are at offsets of one address.
  obtain ⟨start, hstart⟩ : ∃ start, h.brk = start + 0#32 := ⟨h.brk, (BitVec.add_zero _).symm⟩
  rw [hstart]
  refine ⟨_, rfl, rfl, rfl, rfl, rfl, rfl, rfl, ?_, ?_, ?_, ?_, ?_, ?_⟩
  all_goals
    simp only [setUsed, setPrev, setNext, used, next, prev, BitVec.add_assoc, BitVec.reduceAdd]
    simp (disch := decide) only [load_store_off, load_store_word]

/-- The only blocks are the head and the tail. -/
theorem Empty.listed {h : UserHeap} {start : Address} (he : h.Empty start)
    (hpos : 0 < start.toNat) (hroom : start.toNat + 64 < 2 ^ 31) :
    h.Listed [start, start + 16] := by
  refine ⟨⟨he.initialized, ?_, ?_, ?_, ?_, ?_⟩, ?_, ?_, ?_, ?_, ?_⟩
  · rw [he.head]
    rfl
  · rw [he.tail]
    rfl
  · intro i hi _
    match i with
    | 0 => exact he.headNext
    | 1 => simpa using he.tailNext
  · intro i hi _
    match i with
    | 0 => exact he.tailPrev
    | 1 => simpa using he.headPrev
  · rw [he.flag]
    exact List.mem_cons_self
  · rw [he.brk]
    intro b hb
    obtain rfl | hb := List.mem_cons.mp hb
    · bv_omega
    · rw [List.mem_singleton.mp hb]
      bv_omega
  · intro b hb
    obtain rfl | hb := List.mem_cons.mp hb
    · bv_omega
    · rw [List.mem_singleton.mp hb]
      bv_omega
  · rw [he.tail, he.brk]
    bv_omega
  · rw [he.curbrk, he.brk]
  · rw [he.brk]
    bv_omega

/-- The heap grows where its tail was. -/
theorem grow_heap_result {h : UserHeap} {size blockSize : BitVec 32} (hcur : h.curbrk = h.brk)
    (hlow : 16 ≤ h.brk.toNat) (hpos : 0 < blockSize.toNat)
    (hroom : h.brk.toNat + blockSize.toNat < 2 ^ 31) :
    (h.growHeap size blockSize fun _ => true).2 = h.brk - 16 + 16 := by
  have hshrunk : (h.brk - 16).toNat + blockSize.toNat < 2 ^ 31 := by bv_omega
  have hgrown := @sbrk_up { h with curbrk := h.brk - 16, brk := h.brk - 16 } blockSize true
    (.inr rfl) hpos (by omega) (show (h.brk - 16).toNat + blockSize.toNat < 2 ^ 32 by omega)
  have hne : h.brk - 16 ≠ -1 := by bv_omega
  rw [if_pos rfl] at hgrown
  rw [growHeap, sbrk_down true hcur hlow (by omega), if_pos rfl]
  dsimp only
  rw [hgrown, if_neg hne]

/-- The first block of a heap, where the kernel refuses nothing. -/
theorem first_malloc {h : UserHeap} (hinit : h.hadInitialized = false) (hpos : 0 < h.brk.toNat)
    (hcur : h.curbrk = 0 ∨ h.curbrk = h.brk) (hroom : h.brk.toNat + 128 < 2 ^ 31) :
    ∃ h', h.malloc 4 (fun _ => true) 2 = some (h', h.brk + 16 + 16) := by
  obtain ⟨start, hstart, he⟩ := @init_accepted h (fun _ => true) hcur (by omega) rfl rfl
  have hfind : start.findBlock (align4 4) 2 start.flag = some (start, start.flag, 0) := by
    have hne : h.brk ≠ 0 := by bv_omega
    have hne' : h.brk + 16 ≠ 0 := by bv_omega
    have hne'' : h.brk + 16 ≠ h.brk := by bv_omega
    rw [he.flag, findBlock, if_neg hne, if_neg (by rw [he.headUsed]; simp), he.headNext]
    dsimp only
    rw [he.flag, if_neg hne'', findBlock, if_neg hne', if_neg (by rw [he.tailUsed]; simp),
      he.tailNext]
    dsimp only
    rw [he.flag, if_pos rfl]
  have hbrk : start.brk.toNat = h.brk.toNat + 32 := by
    rw [he.brk]
    bv_omega
  have hgrow := @grow_heap_result start (align4 4) (4 + memBlockSize)
    (he.curbrk.trans he.brk.symm) (by omega) (by decide)
    (show start.brk.toNat + 20 < 2 ^ 31 by omega)
  refine ⟨(start.growHeap (align4 4) (4 + memBlockSize) fun _ => true).1, ?_⟩
  rw [malloc]
  simp only [hinit, hstart, Bool.false_eq_true, Bool.true_eq_false, if_false]
  rw [if_neg (by decide), hfind, Option.map_some, Option.some.injEq]
  have hsame : ({ start with flag := start.flag } : UserHeap) = start := rfl
  have hptr : start.brk - 16 + 16 = h.brk + 16 + 16 := by
    rw [he.brk]
    bv_omega
  rw [if_pos rfl, hsame, ← hptr, ← hgrow]

/-! ## Heaps whose first call has been refused -/

/-- The variables that the first call sets, before it has succeeded. -/
def withUnset (h : UserHeap) (head tail : Address) : UserHeap :=
  { h with head := head, tail := tail, curbrk := h.brk }

theorem free_with_unset (h : UserHeap) (head tail ptr : Address) :
    (h.withUnset head tail).free ptr = (h.free ptr).withUnset head tail := by
  unfold free
  simp only [apply_ite fun g : UserHeap => g.withUnset head tail]
  rfl

theorem malloc_with_unset {h : UserHeap} (hf : h.Fresh) (head tail : Address) (size : BitVec 32)
    (accept : SbrkCall → Bool) (fuel : Nat) (hsize : align4 size ≠ 0) :
    (h.withUnset head tail).malloc size accept fuel = h.malloc size accept fuel := by
  have hinit : (h.withUnset head tail).initMemoryAlloctor accept = h.initMemoryAlloctor accept := by
    have hroom : h.brk.toNat + 64 < 2 ^ 31 := by
      have := hf.brkLt
      omega
    obtain ⟨hfirst, hsecond⟩ := init_requests accept hf.curbrk hroom
    obtain ⟨hfirst', hsecond'⟩ := @init_requests (h.withUnset head tail) accept (.inr rfl) hroom
    unfold initMemoryAlloctor
    dsimp only
    rw [hsecond, hsecond', hfirst, hfirst']
    cases accept .head <;> cases accept .tail <;> rfl
  have hunset : (h.withUnset head tail).hadInitialized = false := hf.initialized
  rw [malloc, malloc, if_neg hsize, if_neg hsize]
  simp only [hunset, hf.initialized, hinit, Bool.false_eq_true, if_false]

theorem free_fresh {h : UserHeap} (hf : h.Fresh) (ptr : Address) : (h.free ptr).Fresh := by
  have hkept : ∀ g : UserHeap, g.hadInitialized = h.hadInitialized → g.curbrk = h.curbrk →
      g.brk = h.brk → g.Fresh := by
    intro g hinit hcur hbrk
    exact ⟨hinit.trans hf.initialized, by rw [hbrk]; exact hf.brkPos,
      by rw [hcur, hbrk]; exact hf.curbrk, by rw [hbrk]; exact hf.brkLt⟩
  unfold free
  dsimp only
  split
  · exact hf
  split
  · exact hkept _ rfl rfl rfl
  split
  · exact hkept _ rfl rfl rfl
  split
  · exact hkept _ rfl rfl rfl
  · exact hkept _ rfl rfl rfl

/-- Later calls do not see what the first call has set. -/
theorem results_with_unset {h : UserHeap} (hf : h.Fresh) (head tail : Address) (calls : List Call) :
    h.results calls = (h.withUnset head tail).results calls := by
  induction calls generalizing h with
  | nil => rfl
  | cons call rest ih =>
      cases call with
      | malloc size accept fuel =>
          by_cases hsize : align4 size = 0
          · have hnone : ∀ g : UserHeap, g.malloc size accept fuel = some (g, 0) :=
              fun g => if_pos hsize
            rw [results, results, hnone, hnone]
            exact congrArg (_ :: ·) (ih hf)
          · rw [results, results, malloc_with_unset hf head tail size accept fuel hsize]
            cases h.malloc size accept fuel with
            | none => rfl
            | some result => rfl
      | free ptr =>
          rw [results, results, free_with_unset]
          exact congrArg (_ :: ·) (ih (free_fresh hf ptr))

theorem Fresh.no_blocks {h : UserHeap} (hf : h.Fresh) (l : List Address) : ¬h.Blocks l := by
  intro hb
  exact absurd (hf.initialized.symm.trans hb.initialized) (by decide)

/-- The two variables do not make a heap of the blocks that it has not. -/
theorem with_unset_atomic {h : UserHeap} (hf : h.Fresh) (head tail : Address) :
    FailureAtomic h (h.withUnset head tail) := by
  have hnone : ∀ l, ¬(h.withUnset head tail).Blocks l := by
    intro l hb
    exact absurd (hf.initialized.symm.trans hb.initialized) (by decide)
  refine ⟨?_, ?_, results_with_unset hf head tail⟩
  · exact fun l => iff_of_false (hf.no_blocks l) (hnone l)
  · exact fun l hb => absurd hb (hnone l)

/-- The memory of one of the two moves the blocks of later calls. -/
theorem memory_kept {h h' : UserHeap} (hf : h.Fresh) (hinit : h'.hadInitialized = false)
    (hcur : h'.curbrk = h.brk + 16) (hbrk : h'.brk = h.brk + 16) : ¬FailureAtomic h h' := by
  intro hatomic
  have hpos := hf.brkPos
  have hlt := hf.brkLt
  obtain ⟨g, hfirst⟩ := first_malloc hf.initialized hpos hf.curbrk (by omega)
  obtain ⟨g', hfirst'⟩ := @first_malloc h' hinit (by rw [hbrk]; bv_omega)
    (.inr (hcur.trans hbrk.symm)) (by rw [hbrk]; bv_omega)
  have hlater := hatomic.later [.malloc 4 (fun _ => true) 2]
  simp only [results, hfirst, hfirst', hbrk, List.cons.injEq, Prod.mk.injEq,
    Option.some.injEq] at hlater
  have hptr := hlater.1.2
  bv_omega

/-- In a heap that has no blocks, the first call fails before or after it has made the head and the
tail. -/
theorem malloc_failed_fresh {h h' : UserHeap} {size : BitVec 32} {accept : SbrkCall → Bool}
    {fuel : Nat} (hf : h.Fresh) (hsize : align4 size ≠ 0)
    (hfail : h.malloc size accept fuel = some (h', 0)) :
    FailureAtomic h h' ↔ accept .head = false ∧ accept .tail = false := by
  have hroom : h.brk.toNat + 64 < 2 ^ 31 := by
    have := hf.brkLt
    omega
  by_cases hboth : accept .head = true ∧ accept .tail = true
  · obtain ⟨start, hstart, he⟩ := init_accepted hf.curbrk hroom hboth.1 hboth.2
    have hl := he.listed hf.brkPos hroom
    -- The call goes on as one on the heap of the two blocks.
    have hsame : start.malloc size accept fuel = some (h', 0) := by
      rw [← hfail, malloc, malloc, if_neg hsize, if_neg hsize]
      simp only [he.initialized, hf.initialized, hstart, Bool.false_eq_true, if_false, if_true]
    have hblocks : h'.Blocks [h.brk, h.brk + 16] := by
      rw [malloc_failed_listed hl hsize hsame]
      split
      · obtain ⟨⟨hinit, hfirst, hlast, hnext, hprev, hflag⟩, -⟩ := hl
        exact ⟨hinit, hfirst, hlast, hnext, hprev, hflag⟩
      · exact hl.blocks
    refine iff_of_false ?_ ?_
    · exact fun hatomic => hf.no_blocks _ ((hatomic.blocks _).mpr hblocks)
    · rintro ⟨hhead, -⟩
      exact absurd (hhead.symm.trans hboth.1) (by decide)
  · obtain ⟨head, tail, hinit⟩ := @init_refused h accept hf.curbrk hroom (by
      cases hhead : accept .head with
      | true =>
          refine .inr ?_
          cases htail : accept .tail with
          | true => exact absurd ⟨hhead, htail⟩ hboth
          | false => rfl
      | false => exact .inl rfl)
    rw [malloc, if_neg hsize] at hfail
    simp only [hf.initialized, hinit, Bool.false_eq_true, if_false] at hfail
    cases hone : accept .head || accept .tail with
    | true =>
        simp only [hone, if_true, Option.some.injEq, Prod.mk.injEq, and_true] at hfail
        refine iff_of_false ?_ ?_
        · rw [← hfail]
          exact memory_kept hf rfl rfl rfl
        · rintro ⟨hhead, htail⟩
          rw [hhead, htail] at hone
          exact absurd hone (by decide)
    | false =>
        simp only [hone, Bool.false_eq_true, if_false, if_true, Option.some.injEq,
          Prod.mk.injEq, and_true] at hfail
        refine iff_of_true ?_ ?_
        · have hatomic := with_unset_atomic hf head tail
          rw [withUnset, hf.initialized, hfail] at hatomic
          exact hatomic
        · exact Bool.or_eq_false_iff.mp hone

/-! ## The condition -/

/-- A call that fails for want of memory leaves the heap as it was if and only if the kernel has
refused the requests before the one for the block. -/
theorem malloc_failure_iff (h h' : UserHeap) (size : BitVec 32) (accept : SbrkCall → Bool)
    (fuel : Nat) (hwf : h.WellFormed) (hsize : align4 size ≠ 0)
    (hfail : h.malloc size accept fuel = some (h', 0)) :
    FailureAtomic h h' ↔ h.Refused accept := by
  obtain hf | ⟨l, hl⟩ := hwf
  · rw [Refused, if_neg (by rw [hf.initialized]; decide)]
    exact malloc_failed_fresh hf hsize hfail
  · rw [Refused, if_pos hl.blocks.initialized]
    have hresult := malloc_failed_listed hl hsize hfail
    cases hshrink : accept .shrink with
    | true =>
        rw [if_pos hshrink] at hresult
        rw [hresult]
        exact iff_of_false (tail_lost hl) (by decide)
    | false =>
        rw [hshrink, if_neg (by decide)] at hresult
        rw [hresult]
        exact iff_of_true (atomic_refl hl) rfl

/-- The heap of a program that starts. -/
def atStart : UserHeap where
  mem := fun _ => 0
  head := 0
  tail := 0
  flag := 0
  hadInitialized := false
  curbrk := 0
  brk := 0x8050000

theorem fresh_at_start : atStart.Fresh := ⟨rfl, by decide, .inl rfl, by decide⟩

/-- The first call of a program, all of whose requests are refused. -/
theorem malloc_failure_iff_first :
    ∃ h', atStart.malloc 4 (fun _ => false) 2 = some (h', 0) ∧ FailureAtomic atStart h' :=
  ⟨_, rfl, (malloc_failure_iff atStart _ 4 (fun _ => false) 2 (.inl fresh_at_start) (by decide)
    rfl).mpr ⟨rfl, rfl⟩⟩

/-- The heap has its head and its tail, and the kernel refuses no request but the one for the
block. -/
theorem malloc_failure_fails :
    ¬∀ (h h' : UserHeap) (size : BitVec 32) (accept : SbrkCall → Bool) (fuel : Nat),
      h.WellFormed → align4 size ≠ 0 → h.malloc size accept fuel = some (h', 0) →
        FailureAtomic h h' := by
  intro hall
  obtain ⟨h, hinit, he⟩ := @init_accepted atStart (fun _ => true) (.inl rfl) (by decide) rfl rfl
  have hl := he.listed (by decide) (by decide)
  obtain ⟨h', hfail⟩ : ∃ h', h.malloc 4 (fun call => decide (call = .shrink)) 2 = some (h', 0) := by
    rw [← show (atStart.initMemoryAlloctor fun _ => true).1 = h from congrArg Prod.fst hinit]
    exact ⟨_, rfl⟩
  have hatomic := hall h h' 4 _ 2 (.inr ⟨_, hl⟩) (by decide) hfail
  rw [malloc_failed_listed hl (by decide) hfail] at hatomic
  exact tail_lost hl hatomic

end UserHeap

end XBook.Malloc
