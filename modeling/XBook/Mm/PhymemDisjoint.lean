import XBook.Lib.Span
import XBook.Mm.Phymem

/-!
# Live page allocations are disjoint

A run of the allocator carries the list of the allocations that are live. `AllocPages` does not
look at the pages after the first free one, so an allocation can reach into a later one, as
`alloc_pages_overlap` shows. `alloc_pages_disjoint` says that this is the only way to fail: in
every run whose calls all meet `AllocFits`, the live page ranges stay disjoint and inside the
node table. The invariant is `NodeInv`, which ties the marked nodes to the live allocations.
-/

namespace XBook

open Transition

/-- An allocation: the address that `AllocPages` returned and the number of pages asked for. -/
structure PageBlock where
  page : Nat
  count : Nat
  deriving DecidableEq, Repr

namespace PageBlock

/-- The address lies in `[page, page + count * PAGE_SIZE)`. -/
def Holds (b : PageBlock) (address : Nat) : Prop := wrapSub address b.page < b.count * pageSize

/-- The node indices of the allocation's pages. -/
def span (m : PhysicMemory) (b : PageBlock) : Span :=
  ⟨wrapSub b.page m.memNodeBase / pageSize, b.count⟩

end PageBlock

/-- The allocator together with its live allocations. -/
structure AllocState where
  mem : PhysicMemory
  live : List PageBlock

namespace AllocState

/-- The node indices of the live allocations. -/
def spans (s : AllocState) : List Span := s.live.map (PageBlock.span s.mem)

/-- A call of `AllocPages`. An allocation is live once its node is marked. -/
def alloc (s : AllocState) (count : Nat) : Option AllocState :=
  (s.mem.allocPages count).map fun r =>
    { mem := r.1
      live := match s.mem.takeMemNode count with
        | some (some _) => ⟨r.2, count⟩ :: s.live
        | _ => s.live }

/-- A call of `FreePages` on the address of a live allocation. -/
def free (s : AllocState) (page : Nat) : Option AllocState :=
  if s.live.any (·.page = page) then
    some { mem := (s.mem.freePages page).1, live := s.live.filter (·.page ≠ page) }
  else none

/-- The page ranges of the live allocations are pairwise disjoint. -/
def Disjoint (s : AllocState) : Prop :=
  s.live.Pairwise fun b c => ∀ address < 2 ^ 32, ¬ (b.Holds address ∧ c.Holds address)

/-- Every live allocation lies inside the node table. -/
def InTable (s : AllocState) : Prop :=
  ∀ b ∈ s.live, ∃ index, s.mem.page2MemNode b.page = some index ∧
    index + b.count ≤ s.mem.memNodeCount

end AllocState

/-- A call of the allocator. -/
inductive PageOp where
  | alloc (count : UInt32)
  | free (page : Nat)

/-- One call, on arguments that a caller may pass. -/
def pageStep (s : AllocState) : PageOp → Option AllocState
  | .alloc count => if count = 0 then none else s.alloc count.toNat
  | .free page => s.free page

/-- The state that `InitPhysicMemory` leaves: `CutUesdMemory` allocates the pages that boot
memory has used. -/
def initPhysicMemory (memSize : UInt32) : Option AllocState :=
  (initMemNodeTable memSize.toNat).bind fun (mem, usedPages) =>
    AllocState.alloc ⟨mem, []⟩ usedPages

/-- With `i` the first page that no live allocation holds, `i + count` does not leave the 32-bit
range, and the `count` pages from `i` on either leave the table or meet no live allocation. -/
def AllocFits (s : AllocState) (count : Nat) : Prop :=
  ∀ i, Span.FirstFree s.spans s.mem.memNodeCount i → i + count < 2 ^ 32 ∧
    (i + count ≤ s.mem.memNodeCount → ∀ sp ∈ s.spans, sp.start ≤ i ∨ i + count ≤ sp.start)

instance (s : AllocState) (count : Nat) : Decidable (AllocFits s count) :=
  decidable_of_iff (∀ i < s.mem.memNodeCount, Span.FirstFree s.spans s.mem.memNodeCount i →
      i + count < 2 ^ 32 ∧
        (i + count ≤ s.mem.memNodeCount → ∀ sp ∈ s.spans, sp.start ≤ i ∨ i + count ≤ sp.start))
    ⟨fun h i hi => h i hi.lt hi, fun h i _ hi => h i hi⟩

/-- The guard of a run whose allocations all fit. -/
def pageGuard (s : AllocState) : PageOp → Prop
  | .alloc count => AllocFits s count.toNat
  | .free _ => True

instance (s : AllocState) : (op : PageOp) → Decidable (pageGuard s op)
  | .alloc count => inferInstanceAs (Decidable (AllocFits s count.toNat))
  | .free _ => inferInstanceAs (Decidable True)

/-! ## The walk over the node table -/

/-- The marked nodes are the first nodes of the spans, which lie apart inside the table. -/
structure NodeInv (m : PhysicMemory) (spans : List Span) : Prop where
  bound : m.memNodeCount ≤ 1048576
  apart : spans.Pairwise Span.Apart
  marked : ∀ sp ∈ spans, (m.memNodeTable sp.start).reference ≠ 0 ∧
    (m.memNodeTable sp.start).count = sp.len
  pos : ∀ sp ∈ spans, 0 < sp.len
  inTable : ∀ sp ∈ spans, sp.stop ≤ m.memNodeCount
  heads : ∀ i < m.memNodeCount, (m.memNodeTable i).reference ≠ 0 → ∃ sp ∈ spans, sp.start = i

/-- What `GetFreeMemNode` finds: the first free page, at a boundary of the allocations. -/
def FoundFree (m : PhysicMemory) (spans : List Span) : Option Nat → Prop
  | some i => Span.FirstFree spans m.memNodeCount i ∧ Span.Boundary spans i
  | none => ∀ j < m.memNodeCount, Span.Covers spans j

/-- A walk that has reached a boundary with every earlier page taken ends at the first free
page. -/
theorem free_mem_node_from_spec {m : PhysicMemory} {spans : List Span} (h : NodeInv m spans)
    {fuel i : Nat} (hfuel : m.memNodeCount < fuel + i) (hbound : Span.Boundary spans i)
    (hbelow : ∀ j < i, Span.Covers spans j) (hi : i ≤ m.memNodeCount) :
    ∃ r, m.freeMemNodeFrom fuel i = some r ∧ FoundFree m spans r := by
  induction fuel generalizing i with
  | zero => omega
  | succ fuel ih =>
      simp only [PhysicMemory.freeMemNodeFrom]
      by_cases hlt : i < m.memNodeCount
      · by_cases href : (m.memNodeTable i).reference = 0
        · refine ⟨some i, by simp [hlt, href], ⟨hlt, ?_, hbelow⟩, hbound⟩
          rintro ⟨sp, hsp, hle, hstop⟩
          -- a boundary inside a span is its first node, which is marked
          have hstart : sp.start = i := by
            have := hbound sp hsp
            omega
          exact (h.marked sp hsp).1 (hstart ▸ href)
        · obtain ⟨sp, hsp, rfl⟩ := h.heads i hlt href
          have hcount := (h.marked sp hsp).2
          have hpos := h.pos sp hsp
          have htable := h.inTable sp hsp
          have hnext : wrap (sp.start + sp.len) = sp.stop := by
            have := h.bound
            exact wrap_of_lt (by unfold Span.stop at htable; omega)
          have hwalk := ih (i := sp.stop) (by unfold Span.stop; omega)
            (Span.boundary_stop h.apart hsp)
            (fun j hj => by
              by_cases hlow : j < sp.start
              · exact hbelow j hlow
              · exact ⟨sp, hsp, by omega, hj⟩)
            htable
          have hne : sp.len ≠ 0 := by omega
          simpa [hlt, href, hcount, hne, hnext] using hwalk
      · refine ⟨none, by simp [hlt], ?_⟩
        intro j hj
        exact hbelow j (by omega)

/-- `GetFreeMemNode` always ends, at the first free page. -/
theorem get_free_mem_node_spec {m : PhysicMemory} {spans : List Span} (h : NodeInv m spans) :
    ∃ r, m.getFreeMemNode = some r ∧ FoundFree m spans r :=
  free_mem_node_from_spec h (by omega) (fun _ _ => .inr (Nat.zero_le _))
    (fun j hj => absurd hj (Nat.not_lt_zero j)) (Nat.zero_le _)

/-! ## Page addresses and node indices -/

/-- Page address and node index determine each other. -/
theorem page_index {m : PhysicMemory} {i : Nat} (hi : i < 1048576) :
    wrapSub (m.memNode2Page i) m.memNodeBase / pageSize = i := by
  simp only [PhysicMemory.memNode2Page, wrapSub, wrap, pageSize]
  omega

theorem page2_mem_node_page {m : PhysicMemory} (hm : m.memNodeCount ≤ 1048576) {i : Nat}
    (hi : i < m.memNodeCount) : m.page2MemNode (m.memNode2Page i) = some i := by
  have hindex := page_index (m := m) (show i < 1048576 by omega)
  simp only [PhysicMemory.page2MemNode, hindex, hi, if_true]

/-- Allocations whose pages lie apart hold no common address. -/
theorem not_holds_of_apart {m : PhysicMemory} {b c : PageBlock}
    (hb : b.page = m.memNode2Page (b.span m).start) (hbs : (b.span m).stop ≤ 1048576)
    (hc : c.page = m.memNode2Page (c.span m).start) (hcs : (c.span m).stop ≤ 1048576)
    (h : (b.span m).Apart (c.span m)) (address : Nat) :
    ¬ (b.Holds address ∧ c.Holds address) := by
  have hbc : (b.span m).len = b.count ∧ (c.span m).len = c.count := ⟨rfl, rfl⟩
  generalize b.span m = bs at *
  generalize c.span m = cs at *
  simp only [PageBlock.Holds, Span.Apart, Span.stop, PhysicMemory.memNode2Page, wrapSub, wrap,
    pageSize] at *
  rw [hb, hc, ← hbc.1, ← hbc.2]
  omega

/-! ## The invariant along a run -/

/-- The node table describes the live allocations. -/
structure AllocInv (s : AllocState) : Prop where
  nodes : NodeInv s.mem s.spans
  pages : ∀ b ∈ s.live, b.page = s.mem.memNode2Page (b.span s.mem).start

/-- Marking the first free node with a count whose pages are free keeps the invariant. -/
theorem NodeInv.mark {m : PhysicMemory} {spans : List Span} (h : NodeInv m spans) {i count : Nat}
    (hfree : Span.FirstFree spans m.memNodeCount i) (hbound : Span.Boundary spans i)
    (hpos : 0 < count) (hfit : i + count ≤ m.memNodeCount)
    (hclear : ∀ sp ∈ spans, sp.start ≤ i ∨ i + count ≤ sp.start) :
    NodeInv (m.setMemNode i { count := count, reference := 1 }) (⟨i, count⟩ :: spans) := by
  have hne : ∀ sp ∈ spans, sp.start ≠ i := by
    rintro sp hsp rfl
    exact hfree.free ⟨sp, hsp, Nat.le_refl _, Nat.lt_add_of_pos_right (h.pos sp hsp)⟩
  refine ⟨h.bound, List.pairwise_cons.mpr ⟨Span.apart_of_boundary hbound hclear hne, h.apart⟩,
    ?_, ?_, ?_, ?_⟩
  · intro sp hsp
    rcases List.mem_cons.mp hsp with rfl | hsp
    · simp
    · simpa [Function.update_of_ne (hne sp hsp)] using h.marked sp hsp
  · rintro sp (_ | ⟨_, hsp⟩)
    · exact hpos
    · exact h.pos sp hsp
  · rintro sp (_ | ⟨_, hsp⟩)
    · exact hfit
    · exact h.inTable sp hsp
  · intro j hj href
    by_cases hji : j = i
    · exact ⟨⟨i, count⟩, by simp, hji.symm⟩
    · rw [PhysicMemory.setMemNode_memNodeTable, Function.update_of_ne hji] at href
      obtain ⟨sp, hsp, hstart⟩ := h.heads j hj href
      exact ⟨sp, List.mem_cons_of_mem _ hsp, hstart⟩

/-- Clearing a node keeps the invariant for the spans with another first node. -/
theorem NodeInv.clear {m : PhysicMemory} {spans rest : List Span} (h : NodeInv m spans) {i : Nat}
    (hrest : rest.Sublist spans) (hne : ∀ sp ∈ rest, sp.start ≠ i)
    (hkeep : ∀ sp ∈ spans, sp.start ≠ i → sp ∈ rest) : NodeInv (m.setMemNode i {}) rest := by
  refine ⟨h.bound, h.apart.sublist hrest, ?_, fun sp hsp => h.pos sp (hrest.subset hsp),
    fun sp hsp => h.inTable sp (hrest.subset hsp), ?_⟩
  · intro sp hsp
    rw [PhysicMemory.setMemNode_memNodeTable, Function.update_of_ne (hne sp hsp)]
    exact h.marked sp (hrest.subset hsp)
  · intro j hj href
    by_cases hji : j = i
    · subst hji
      simp at href
    · rw [PhysicMemory.setMemNode_memNodeTable, Function.update_of_ne hji] at href
      obtain ⟨sp, hsp, rfl⟩ := h.heads j hj href
      exact ⟨sp, hkeep sp hsp hji, rfl⟩

/-- The state after an allocation whose node is the one at `i`. -/
def AllocState.marked (s : AllocState) (i count : Nat) : AllocState :=
  ⟨s.mem.setMemNode i { count := count, reference := 1 }, ⟨s.mem.memNode2Page i, count⟩ :: s.live⟩

/-- What a call of `AllocPages` does: it takes the first free page, or fails and changes nothing. -/
theorem AllocInv.alloc_cases {s t : AllocState} (h : AllocInv s) {count : Nat}
    (hstep : s.alloc count = some t) :
    (∃ i, Span.FirstFree s.spans s.mem.memNodeCount i ∧ Span.Boundary s.spans i ∧
      wrap (i + count) ≤ s.mem.memNodeCount ∧ t = s.marked i count) ∨
    ((∀ i, Span.FirstFree s.spans s.mem.memNodeCount i →
      s.mem.memNodeCount < wrap (i + count)) ∧ t = s) := by
  obtain ⟨r, hr, hfound⟩ := get_free_mem_node_spec h.nodes
  cases r with
  | none =>
      simp only [AllocState.alloc, PhysicMemory.allocPages, PhysicMemory.takeMemNode, hr,
        Option.map_some, Option.some.injEq] at hstep
      exact .inr ⟨fun i hi => absurd (hfound i hi.lt) hi.free, hstep.symm⟩
  | some i =>
      by_cases hguard : wrap (i + count) > s.mem.memNodeCount
      · simp only [AllocState.alloc, PhysicMemory.allocPages, PhysicMemory.takeMemNode, hr, hguard,
          if_true, Option.map_some, Option.some.injEq] at hstep
        refine .inr ⟨?_, hstep.symm⟩
        intro j hj
        rw [hj.unique hfound.1]
        exact hguard
      · simp only [AllocState.alloc, PhysicMemory.allocPages, PhysicMemory.takeMemNode, hr, hguard,
          if_false, Option.map_some, Option.some.injEq] at hstep
        exact .inl ⟨i, hfound.1, hfound.2, Nat.not_lt.mp hguard, hstep.symm⟩

/-- The new allocation's pages are those of the nodes from `i` on. -/
theorem marked_span (s : AllocState) {i : Nat} (count : Nat) (hi : i < 1048576) :
    PageBlock.span (s.marked i count).mem ⟨s.mem.memNode2Page i, count⟩ = ⟨i, count⟩ := by
  show (⟨wrapSub (s.mem.memNode2Page i) s.mem.memNodeBase / pageSize, count⟩ : Span) = _
  rw [page_index hi]

/-- An allocation that fits keeps the invariant. -/
theorem AllocInv.alloc {s t : AllocState} (h : AllocInv s) {count : Nat} (hpos : 0 < count)
    (hfits : AllocFits s count) (hstep : s.alloc count = some t) : AllocInv t := by
  rcases h.alloc_cases hstep with ⟨i, hfree, hbound, hguard, rfl⟩ | ⟨-, rfl⟩
  · obtain ⟨hword, hclear⟩ := hfits i hfree
    rw [wrap_of_lt hword] at hguard
    have hspan := marked_span s count (Nat.lt_of_lt_of_le hfree.lt h.nodes.bound)
    refine ⟨?_, ?_⟩
    · have hmark := h.nodes.mark hfree hbound hpos hguard (hclear hguard)
      rw [← hspan] at hmark
      exact hmark
    · intro b hb
      rcases List.mem_cons.mp hb with rfl | hb
      · show _ = s.mem.memNode2Page (PageBlock.span (s.marked i count).mem _).start
        rw [hspan]
      · exact h.pages b hb
  · exact h

/-- Freeing a live allocation keeps the invariant. -/
theorem AllocInv.free {s t : AllocState} (h : AllocInv s) {page : Nat}
    (hstep : s.free page = some t) : AllocInv t := by
  simp only [AllocState.free] at hstep
  split at hstep
  case isFalse => simp at hstep
  case isTrue hany =>
    cases Option.some.inj hstep
    obtain ⟨b, hb, hpage⟩ := List.any_eq_true.mp hany
    have hpage : b.page = page := by simpa using hpage
    have hmem : b.span s.mem ∈ s.spans := List.mem_map_of_mem hb
    have hstart : (b.span s.mem).start < s.mem.memNodeCount := by
      have h1 := h.nodes.inTable _ hmem
      have h2 := h.nodes.pos _ hmem
      unfold Span.stop at h1
      omega
    have hindex : s.mem.page2MemNode page = some (b.span s.mem).start := by
      rw [← hpage, h.pages b hb]
      exact page2_mem_node_page h.nodes.bound hstart
    have hfree : (s.mem.freePages page).1 = s.mem.setMemNode (b.span s.mem).start {} := by
      simp only [PhysicMemory.freePages, hindex, ne_eq, (h.nodes.marked _ hmem).1,
        not_false_eq_true, if_true]
    -- the address of a live allocation names its first node
    have hsame : ∀ c ∈ s.live, (c.span s.mem).start = (b.span s.mem).start ↔ c.page = page := by
      intro c hc
      rw [h.pages c hc, ← hpage, h.pages b hb]
      constructor
      · intro heq
        rw [heq]
      · intro heq
        have hcmem : c.span s.mem ∈ s.spans := List.mem_map_of_mem hc
        have h1 := h.nodes.inTable _ hcmem
        have h2 := h.nodes.pos _ hcmem
        have h3 := h.nodes.bound
        unfold Span.stop at h1
        rw [← page_index (m := s.mem) (i := (c.span s.mem).start) (by omega), heq,
          page_index (by omega)]
    refine ⟨?_, ?_⟩
    · show NodeInv (s.mem.freePages page).1 _
      rw [hfree]
      refine h.nodes.clear ?_ ?_ ?_
      · exact (List.filter_sublist (l := s.live)).map _
      · intro sp hsp
        obtain ⟨c, hc, rfl⟩ := List.mem_map.mp hsp
        obtain ⟨hc, hne⟩ := List.mem_filter.mp hc
        intro heq
        have := (hsame c hc).mp heq
        simp [this] at hne
      · intro sp hsp hne
        obtain ⟨c, hc, rfl⟩ := List.mem_map.mp hsp
        refine List.mem_map.mpr ⟨c, List.mem_filter.mpr ⟨hc, ?_⟩, rfl⟩
        have : c.page ≠ page := fun heq => hne ((hsame c hc).mpr heq)
        simpa using this
    · intro c hc
      show c.page = (s.mem.freePages page).1.memNode2Page _
      rw [hfree]
      exact h.pages c (List.mem_filter.mp hc).1

/-- A guarded call keeps the invariant. -/
theorem AllocInv.step {s t : AllocState} (h : AllocInv s) {op : PageOp} (hguard : pageGuard s op)
    (hstep : pageStep s op = some t) : AllocInv t := by
  cases op with
  | alloc count =>
      simp only [pageStep] at hstep
      split at hstep
      · simp at hstep
      · next hne =>
          have hpos : 0 < count.toNat := by
            rcases Nat.eq_zero_or_pos count.toNat with hzero | hpos
            · exact absurd (UInt32.toNat_inj.mp hzero) hne
            · exact hpos
          exact h.alloc hpos hguard hstep
  | free page => exact h.free hstep

/-- The invariant gives the disjointness and the bounds of the live allocations. -/
theorem AllocInv.disjoint {s : AllocState} (h : AllocInv s) : s.Disjoint ∧ s.InTable := by
  have hstop : ∀ b ∈ s.live, (b.span s.mem).stop ≤ 1048576 := fun b hb =>
    Nat.le_trans (h.nodes.inTable _ (List.mem_map_of_mem hb)) h.nodes.bound
  refine ⟨?_, ?_⟩
  · have hapart := List.pairwise_map.mp h.nodes.apart
    refine hapart.imp_of_mem ?_
    intro b c hb hc hbc address _
    exact not_holds_of_apart (h.pages b hb) (hstop b hb) (h.pages c hc) (hstop c hc) hbc address
  · intro b hb
    have hmem : b.span s.mem ∈ s.spans := List.mem_map_of_mem hb
    have htable := h.nodes.inTable _ hmem
    have hpos := h.nodes.pos _ hmem
    refine ⟨(b.span s.mem).start, ?_, htable⟩
    have hindex := page2_mem_node_page (i := (b.span s.mem).start) h.nodes.bound
      (by unfold Span.stop at htable; omega)
    rw [← h.pages b hb] at hindex
    exact hindex

/-- An allocation that does not fit breaks the disjointness or the bounds at once: `AllocFits` is
exactly what a call needs. -/
theorem AllocInv.fits_of_disjoint {s t : AllocState} (h : AllocInv s) {count : Nat}
    (hcount : count < 2 ^ 32) (hstep : s.alloc count = some t) (hdisj : t.Disjoint)
    (htable : t.InTable) : AllocFits s count := by
  intro j hj
  have hbound := h.nodes.bound
  have hjlt := hj.lt
  rcases h.alloc_cases hstep with ⟨i, hfree, -, hguard, rfl⟩ | ⟨hfull, rfl⟩
  · obtain rfl := hj.unique hfree
    obtain ⟨index, hindex, hle⟩ := htable _ (List.mem_cons_self ..)
    have hpage : s.mem.page2MemNode (s.mem.memNode2Page j) = some j :=
      page2_mem_node_page hbound hjlt
    obtain rfl : j = index := Option.some.inj (hpage.symm.trans hindex)
    have hfit : j + count ≤ s.mem.memNodeCount := hle
    refine ⟨by omega, ?_⟩
    intro _ sp hsp
    obtain ⟨b, hb, rfl⟩ := List.mem_map.mp hsp
    by_contra hmeet
    -- the first page of `b` lies in both allocations
    have hb' := h.pages b hb
    have hpos := h.nodes.pos _ hsp
    have hstop := h.nodes.inTable _ hsp
    have hlen : (b.span s.mem).len = b.count := rfl
    refine (List.pairwise_cons.mp hdisj).1 b hb b.page ?_ ⟨?_, ?_⟩
    · rw [hb']
      exact wrap_lt _
    · unfold Span.stop at hstop
      simp only [PageBlock.Holds, hb', PhysicMemory.memNode2Page, wrapSub, wrap, pageSize]
      omega
    · simp only [PageBlock.Holds, wrapSub, wrap, pageSize]
      omega
  · have hword := hfull j hj
    by_contra hnot
    have hlt : j + count < 2 ^ 32 := by
      by_contra hge
      unfold wrap at hword
      omega
    rw [wrap_of_lt hlt] at hword
    exact hnot ⟨hlt, fun hle => by omega⟩

/-- Boot memory after one allocation. -/
theorem boot_mem_size {top size : Nat} (hsize : size ≤ 20971520) :
    bootMemSize (bootMemAlloc (initBootMem 0x81000000 top) size).1 = (size / 32 + 1) * 32 := by
  have hcurrent : alignWith (wrap (0x81000000 + size)) 32 = 0x81000000 + (size / 32 + 1) * 32 := by
    simp only [alignWith, wrap]
    omega
  have hused : wrapSub (0x81000000 + (size / 32 + 1) * 32) 0x81000000 = (size / 32 + 1) * 32 := by
    simp only [wrapSub, wrap]
    omega
  show wrapSub (alignWith (wrap (0x81000000 + size)) 32) 0x81000000 = _
  rw [hcurrent, hused]

/-- Boot memory always has used a page, and never more than the table can describe. -/
theorem boot_mem_pages {top size : Nat} (hsize : size ≤ 20971520) :
    let bootMem := (bootMemAlloc (initBootMem 0x81000000 top) size).1
    0 < divRoundUp (bootMemSize bootMem) pageSize ∧
      divRoundUp (bootMemSize bootMem) pageSize ≤ 1048576 := by
  simp only [boot_mem_size hsize, divRoundUp, wrap, pageSize]
  omega

/-- `InitPhysicMemory` starts from an empty table, and asks for a bounded number of pages. -/
theorem init_mem_node_table_spec {memSize usedPages : Nat} {m : PhysicMemory}
    (hinit : initMemNodeTable memSize = some (m, usedPages)) :
    (∀ i, m.memNodeTable i = {}) ∧ m.memNodeCount ≤ 1048576 ∧
      0 < usedPages ∧ usedPages ≤ 1048576 := by
  obtain ⟨_, _, hpair⟩ := Option.map_eq_some_iff.mp hinit
  obtain ⟨rfl, rfl⟩ := Prod.mk.inj hpair
  have hcount : wrap ((memSizes memSize).1 + (memSizes memSize).2) / pageSize ≤ 1048576 := by
    have := wrap_lt ((memSizes memSize).1 + (memSizes memSize).2)
    unfold pageSize
    omega
  have hsize : wrap (wrap ((memSizes memSize).1 + (memSizes memSize).2) / pageSize *
      sizeofMemNode) ≤ 20971520 := by
    generalize wrap ((memSizes memSize).1 + (memSizes memSize).2) / pageSize = n at hcount
    have hle : wrap (n * sizeofMemNode) ≤ n * sizeofMemNode := Nat.mod_le _ _
    unfold sizeofMemNode at *
    omega
  exact ⟨fun _ => rfl, hcount, boot_mem_pages hsize⟩

/-- An empty table describes no allocation. -/
theorem alloc_inv_empty {m : PhysicMemory} (htable : ∀ i, m.memNodeTable i = {})
    (hcount : m.memNodeCount ≤ 1048576) : AllocInv ⟨m, []⟩ := by
  refine ⟨⟨hcount, .nil, ?_, ?_, ?_, ?_⟩, ?_⟩ <;> simp [AllocState.spans, htable]

/-- `InitPhysicMemory` establishes the invariant, whatever the RAM size. -/
theorem init_physic_memory_inv {memSize : UInt32} {s : AllocState}
    (hinit : initPhysicMemory memSize = some s) : AllocInv s := by
  obtain ⟨⟨mem, usedPages⟩, htable, halloc⟩ := Option.bind_eq_some_iff.mp hinit
  obtain ⟨htab, hcount, hpos, hused⟩ := init_mem_node_table_spec htable
  refine (alloc_inv_empty htab hcount).alloc hpos ?_ halloc
  intro i hi
  have := hi.lt
  exact ⟨by simp only at this; omega, by simp [AllocState.spans]⟩

/-- In every run whose allocations all fit, the live allocations are pairwise disjoint and inside
the node table. -/
theorem alloc_pages_disjoint {memSize : UInt32} {s t : AllocState} {ops : List PageOp}
    (hinit : initPhysicMemory memSize = some s) (hrun : Run (stepOf pageStep) pageGuard s ops t) :
    t.Disjoint ∧ t.InTable :=
  (hrun.invariant (fun _ _ _ h hguard hstep => h.step hguard hstep)
    (init_physic_memory_inv hinit)).disjoint

/-- Three allocations around a freed page. -/
theorem three_allocations_disjoint : ∃ s t, initPhysicMemory 65536 = some s ∧
    Run (stepOf pageStep) pageGuard s [.alloc 2, .alloc 3, .free 0x1001000, .alloc 1] t ∧
      t.live.length = 3 ∧ t.Disjoint ∧ t.InTable := by
  obtain ⟨s, t, hinit, hrun, hlive⟩ := exists_run_checked pageStep pageGuard
    (initPhysicMemory 65536) [.alloc 2, .alloc 3, .free 0x1001000, .alloc 1]
    (fun t => t.live.length) (v := 3) (by decide +kernel)
  exact ⟨s, t, hinit, hrun, hlive, alloc_pages_disjoint hinit hrun⟩

/-- Two allocations of one page, the first of them freed, leave a hole of one page; the next
allocation of two pages takes it and the live page after it. -/
theorem alloc_pages_overlap : ∃ s t, initPhysicMemory 0x10000000 = some s ∧
    Run (stepOf pageStep) anyLabel s [.alloc 1, .alloc 1, .free 0x1141000, .alloc 2] t ∧
      ¬ t.Disjoint := by
  obtain ⟨s, t, hinit, hrun, hlive⟩ := exists_run_all pageStep
    (initPhysicMemory 0x10000000) [.alloc 1, .alloc 1, .free 0x1141000, .alloc 2] AllocState.live
    (v := [⟨0x1141000, 2⟩, ⟨0x1142000, 1⟩, ⟨0x1000000, 321⟩]) (by decide +kernel)
  refine ⟨s, t, hinit, hrun, ?_⟩
  intro h
  rw [AllocState.Disjoint, hlive] at h
  refine (List.pairwise_cons.mp h).1 ⟨0x1142000, 1⟩ (by simp) 0x1142000 (by norm_num) ?_
  unfold PageBlock.Holds
  decide

end XBook
