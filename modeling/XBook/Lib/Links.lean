import Mathlib.Data.List.Chain
import Mathlib.Logic.Function.Basic

/-!
# Circular doubly linked lists

Nodes with a link in each direction, which are changed by one store at a time. `Circle` says that
the nodes of a list lie between a head and itself. The stores of an insertion and of a removal are
given as lists, so that a program may be interrupted between two of them: `settle_comm` says when
the stores of the interrupting code commute with those that are still to come. `Trail` is the
same for lists with a link in one direction, whose ends are null.
-/

namespace Links

/-- The two links of a node. -/
inductive Field where
  | prev
  | next
  deriving DecidableEq, Repr

/-- The links of all nodes. A null pointer is `none`. -/
abbrev Heap (N : Type*) := N → Field → Option N

/-- One store to a link. -/
structure Store (N : Type*) where
  node : N
  field : Field
  value : Option N
  deriving DecidableEq, Repr

variable {N : Type*} [DecidableEq N]

/-- The links after a store. -/
def Store.apply (h : Heap N) (st : Store N) : Heap N :=
  Function.update h st.node (Function.update (h st.node) st.field st.value)

/-- The links after some stores. -/
def settle (h : Heap N) (stores : List (Store N)) : Heap N := stores.foldl Store.apply h

@[simp] theorem settle_nil (h : Heap N) : settle h [] = h := rfl

@[simp] theorem settle_cons (h : Heap N) (st : Store N) (stores : List (Store N)) :
    settle h (st :: stores) = settle (st.apply h) stores := rfl

theorem apply_apply (h : Heap N) (st : Store N) (n : N) (f : Field) :
    st.apply h n f = if n = st.node ∧ f = st.field then st.value else h n f := by
  show Function.update h st.node _ n f = _
  by_cases hn : n = st.node
  · subst hn
    rw [Function.update_self, Function.update_apply]
    simp
  · rw [Function.update_of_ne hn, if_neg fun hand => hn hand.1]

/-- Two stores to different links. -/
def Apart (st st' : Store N) : Prop := st.node ≠ st'.node ∨ st.field ≠ st'.field

instance (st st' : Store N) : Decidable (Apart st st') := inferInstanceAs (Decidable (_ ∨ _))

theorem apply_comm {st st' : Store N} (h : Heap N) (hapart : Apart st st') :
    st.apply (st'.apply h) = st'.apply (st.apply h) := by
  funext n f
  simp only [apply_apply]
  rcases hapart with hne | hne <;> grind

theorem settle_apply {st : Store N} {stores : List (Store N)} (h : Heap N)
    (hapart : ∀ st' ∈ stores, Apart st st') :
    settle (st.apply h) stores = st.apply (settle h stores) := by
  induction stores generalizing h with
  | nil => rfl
  | cons st' stores ih =>
      rw [settle_cons, settle_cons, ← apply_comm h (hapart st' List.mem_cons_self)]
      exact ih _ fun st'' hmem => hapart st'' (List.mem_cons_of_mem _ hmem)

/-- Stores to different links may come in either order. -/
theorem settle_comm {stores stores' : List (Store N)} (h : Heap N)
    (hapart : ∀ st ∈ stores', ∀ st' ∈ stores, Apart st st') :
    settle (settle h stores') stores = settle (settle h stores) stores' := by
  induction stores' generalizing h with
  | nil => rfl
  | cons st stores' ih =>
      rw [settle_cons, settle_cons, ih _ fun st' hmem => hapart st' (List.mem_cons_of_mem _ hmem),
        settle_apply h (hapart st List.mem_cons_self)]

/-- A link that no store writes. -/
theorem settle_eq {stores : List (Store N)} {n : N} {f : Field} (h : Heap N)
    (hapart : ∀ st ∈ stores, n ≠ st.node ∨ f ≠ st.field) : settle h stores n f = h n f := by
  induction stores generalizing h with
  | nil => rfl
  | cons st stores ih =>
      rw [settle_cons, ih _ fun st' hmem => hapart st' (List.mem_cons_of_mem _ hmem), apply_apply,
        if_neg fun hand => (hapart st List.mem_cons_self).elim (· hand.1) (· hand.2)]

/-- The stores that put `new` between two neighbours. -/
def insertStores (new prev next : N) : List (Store N) :=
  [⟨next, .prev, some new⟩, ⟨new, .next, some next⟩, ⟨new, .prev, some prev⟩,
    ⟨prev, .next, some new⟩]

/-- The stores that take `node` from between its neighbours. -/
def removeStores (node prev next : N) : List (Store N) :=
  [⟨next, .prev, some prev⟩, ⟨prev, .next, some next⟩, ⟨node, .prev, none⟩, ⟨node, .next, none⟩]

/-- Two neighbours. -/
def Linked (h : Heap N) (a b : N) : Prop := h a .next = some b ∧ h b .prev = some a

/-- The nodes of the list, in this order, from the head round to the head. -/
structure Circle (h : Heap N) (head : N) (l : List N) : Prop where
  chain : List.IsChain (Linked h) (head :: l ++ [head])
  nodup : (head :: l).Nodup

omit [DecidableEq N] in
/-- A chain keeps its links when no store writes one of them. -/
theorem chain_congr {h h' : Heap N} {c : List N} (hc : c.IsChain (Linked h))
    (hnext : ∀ x ∈ c.dropLast, h' x .next = h x .next)
    (hprev : ∀ y ∈ c.tail, h' y .prev = h y .prev) : c.IsChain (Linked h') := by
  induction c with
  | nil => exact .nil
  | cons x c ih =>
      cases c with
      | nil => exact .singleton x
      | cons y c =>
          rw [List.isChain_cons_cons] at hc ⊢
          refine ⟨⟨?_, ?_⟩, ih hc.2 ?_ ?_⟩
          · rw [hnext x (by simp)]
            exact hc.1.1
          · rw [hprev y (by simp)]
            exact hc.1.2
          · intro z hz
            exact hnext z (by simp [hz])
          · intro z hz
            exact hprev z (List.mem_cons_of_mem _ hz)

namespace Circle

variable {h : Heap N} {head : N} {l l₁ l₂ : List N} {a b n : N}

omit [DecidableEq N] in
/-- The two neighbours where a list is cut. -/
theorem linked (hc : Circle h head (l₁ ++ l₂)) (ha : (head :: l₁).getLast? = some a)
    (hb : (l₂ ++ [head]).head? = some b) : Linked h a b := by
  have hchain := hc.chain
  rw [List.cons_append, List.append_assoc, ← List.cons_append, List.isChain_append] at hchain
  exact hchain.2.2 a ha b hb

omit [DecidableEq N] in
/-- Neither neighbour occurs again in the part beside it, nor at all in the other part. -/
theorem neighbours (hnodup : (head :: (l₁ ++ l₂)).Nodup) (ha : (head :: l₁).getLast? = some a)
    (hb : (l₂ ++ [head]).head? = some b) :
    ((∀ x ∈ (head :: l₁).dropLast, x ≠ a) ∧ ∀ y ∈ (l₂ ++ [head]).tail, y ≠ b) ∧
      ((∀ x ∈ l₂, x ≠ a) ∧ ∀ y ∈ l₁, y ≠ b) ∧ a ∈ head :: l₁ ∧ b ∈ l₂ ++ [head] := by
  obtain ⟨pre, hpre⟩ : ∃ pre, head :: l₁ = pre ++ [a] := List.getLast?_eq_some_iff.mp ha
  have hmem : a ∈ head :: l₁ := List.mem_of_getLast? ha
  have hdisj : ∀ x ∈ head :: l₁, ∀ y ∈ l₂, x ≠ y :=
    (List.nodup_append.mp (by rwa [List.cons_append])).2.2
  have hnodup₁ : (pre ++ [a]).Nodup := by
    rw [← hpre]
    exact (List.nodup_append.mp (by rwa [List.cons_append] : (head :: l₁ ++ l₂).Nodup)).1
  have hnot : head ∉ l₁ ++ l₂ ∧ (l₁ ++ l₂).Nodup := List.nodup_cons.mp hnodup
  refine ⟨⟨?_, ?_⟩, ⟨?_, ?_⟩, hmem, List.mem_of_head? hb⟩
  · intro x hx
    rw [hpre, List.dropLast_concat] at hx
    exact (List.nodup_append.mp hnodup₁).2.2 x hx a (List.mem_singleton_self a)
  · intro y hy
    cases l₂ with
    | nil => simp at hy
    | cons b' l₂ =>
        obtain rfl : b' = b := by simpa using hb
        have hb' := (List.nodup_append.mp hnot.2).2.1
        rw [List.nodup_cons] at hb'
        rcases List.mem_append.mp (show y ∈ l₂ ++ [head] from hy) with hy | hy
        · exact fun heq => hb'.1 (heq ▸ hy)
        · rw [List.mem_singleton.mp hy]
          exact fun heq => hnot.1 (by simp [heq])
  · exact fun x hx heq => hdisj a hmem x hx heq.symm
  · intro y hy
    rcases List.mem_append.mp (List.mem_of_head? hb) with hb' | hb'
    · exact hdisj y (List.mem_cons_of_mem _ hy) b hb'
    · rw [List.mem_singleton.mp hb']
      exact fun heq => hnot.1 (List.mem_append_left _ (heq ▸ hy))

/-- `n` between the two neighbours. -/
theorem insert (hc : Circle h head (l₁ ++ l₂)) (hn : n ∉ head :: (l₁ ++ l₂))
    (ha : (head :: l₁).getLast? = some a) (hb : (l₂ ++ [head]).head? = some b) :
    Circle (settle h (insertStores n a b)) head (l₁ ++ n :: l₂) := by
  obtain ⟨hchain, hnodup⟩ := hc
  obtain ⟨⟨hda, htb⟩, ⟨ha₂, hb₁⟩, hmema, hmemb⟩ := neighbours hnodup ha hb
  rw [List.cons_append, List.append_assoc, ← List.cons_append, List.isChain_append] at hchain
  obtain ⟨hpre, hpost, -⟩ := hchain
  have hnpre : ∀ x ∈ head :: l₁, x ≠ n := by grind
  have hnpost : ∀ y ∈ l₂ ++ [head], y ≠ n := by grind
  refine ⟨?_, by grind⟩
  rw [List.cons_append, List.append_assoc, ← List.cons_append, List.isChain_append]
  refine ⟨chain_congr hpre ?_ ?_, ?_, ?_⟩
  · intro x hx
    simp [insertStores, apply_apply, hda x hx, hnpre x (List.dropLast_subset _ hx)]
  · intro y hy
    simp [insertStores, apply_apply, hb₁ y hy, hnpre y (List.mem_cons_of_mem _ hy)]
  · obtain ⟨post, hpostb⟩ : ∃ post, l₂ ++ [head] = b :: post := List.head?_eq_some_iff.mp hb
    rw [List.cons_append, hpostb, List.isChain_cons_cons, ← hpostb]
    refine ⟨⟨?_, ?_⟩, chain_congr hpost ?_ ?_⟩
    · simp [insertStores, apply_apply, (hnpre a hmema).symm]
    · simp [insertStores, apply_apply, hnpost b hmemb]
    · intro x hx
      rw [List.dropLast_concat] at hx
      simp [insertStores, apply_apply, ha₂ x hx, hnpost x (List.mem_append_left _ hx)]
    · intro y hy
      simp [insertStores, apply_apply, htb y hy, hnpost y (List.mem_of_mem_tail hy)]
  · intro x hx y hy
    obtain rfl : a = x := Option.some.inj (ha.symm.trans hx)
    obtain rfl : n = y := by simpa using hy
    refine ⟨?_, ?_⟩
    · simp [insertStores, apply_apply]
    · simp [insertStores, apply_apply]

/-- `n` is taken from between the two neighbours. -/
theorem remove (hc : Circle h head (l₁ ++ n :: l₂)) (ha : (head :: l₁).getLast? = some a)
    (hb : (l₂ ++ [head]).head? = some b) :
    Circle (settle h (removeStores n a b)) head (l₁ ++ l₂) := by
  obtain ⟨hchain, hnodup⟩ := hc
  have hnodup' : (head :: (l₁ ++ l₂)).Nodup := by grind
  obtain ⟨⟨hda, htb⟩, ⟨ha₂, hb₁⟩, hmema, hmemb⟩ := neighbours hnodup' ha hb
  rw [List.cons_append, List.append_assoc, ← List.cons_append, List.isChain_append] at hchain
  obtain ⟨hpre, hpost, -⟩ := hchain
  have hnpre : ∀ x ∈ head :: l₁, x ≠ n := by grind
  have hnpost : ∀ y ∈ l₂ ++ [head], y ≠ n := by grind
  obtain ⟨post, hpostb⟩ : ∃ post, l₂ ++ [head] = b :: post := List.head?_eq_some_iff.mp hb
  rw [List.cons_append, hpostb, List.isChain_cons_cons, ← hpostb] at hpost
  refine ⟨?_, hnodup'⟩
  rw [List.cons_append, List.append_assoc, ← List.cons_append, List.isChain_append]
  refine ⟨chain_congr hpre ?_ ?_, chain_congr hpost.2 ?_ ?_, ?_⟩
  · intro x hx
    simp [removeStores, apply_apply, hda x hx, hnpre x (List.dropLast_subset _ hx)]
  · intro y hy
    simp [removeStores, apply_apply, hb₁ y hy, hnpre y (List.mem_cons_of_mem _ hy)]
  · intro x hx
    rw [List.dropLast_concat] at hx
    simp [removeStores, apply_apply, ha₂ x hx, hnpost x (List.mem_append_left _ hx)]
  · intro y hy
    simp [removeStores, apply_apply, htb y hy, hnpost y (List.mem_of_mem_tail hy)]
  · intro x hx y hy
    obtain rfl : a = x := Option.some.inj (ha.symm.trans hx)
    obtain rfl : b = y := Option.some.inj (hb.symm.trans hy)
    refine ⟨?_, ?_⟩
    · simp [removeStores, apply_apply, hnpre a hmema]
    · simp [removeStores, apply_apply, hnpost b hmemb]

omit [DecidableEq N] in
/-- The first node, or the head. -/
theorem next_head (hc : Circle h head l) : h head .next = (l ++ [head]).head? := by
  cases hb : (l ++ [head]).head? with
  | none => simp at hb
  | some b =>
      have hc' : Circle h head ([] ++ l) := hc
      exact (hc'.linked rfl hb).1

omit [DecidableEq N] in
/-- The last node, or the head. -/
theorem prev_head (hc : Circle h head l) : h head .prev = (head :: l).getLast? := by
  cases ha : (head :: l).getLast? with
  | none => simp at ha
  | some a =>
      have hc' : Circle h head (l ++ []) := by rwa [List.append_nil]
      exact (hc'.linked ha rfl).2

omit [DecidableEq N] in
/-- Whatever comes before the head goes on to it. -/
theorem next_of_prev_head (hc : Circle h head l) (ha : h head .prev = some a) :
    h a .next = some head := by
  have hc' : Circle h head (l ++ []) := by rwa [List.append_nil]
  exact (hc'.linked (hc.prev_head.symm.trans ha) rfl).1

omit [DecidableEq N] in
theorem next_head_eq_head (hc : Circle h head l) : h head .next = some head ↔ l = [] := by
  rw [hc.next_head]
  cases l with
  | nil => simp
  | cons x l =>
      have hnodup := hc.nodup
      have hne : x ≠ head := by
        intro heq
        simp [heq] at hnodup
      simp [hne]

end Circle

/-! ## Singly linked lists -/

/-- The nodes of the list, in this order, from the pointer to the null link. -/
def Trail (next : N → Option N) : Option N → List N → Prop
  | none, l => l = []
  | some _, [] => False
  | some a, b :: l => a = b ∧ Trail next (next a) l

namespace Trail

variable {next next' : N → Option N} {p : Option N} {a : N} {l : List N}

omit [DecidableEq N] in
theorem nil : Trail next none [] := rfl

omit [DecidableEq N] in
/-- The null pointer has the empty list. -/
theorem eq_nil (h : Trail next none l) : l = [] := by
  cases l with
  | nil => rfl
  | cons a rest => exact h

omit [DecidableEq N] in
/-- The list of a node begins with it. -/
theorem cons_of_some (h : Trail next (some a) l) :
    ∃ rest, l = a :: rest ∧ Trail next (next a) rest := by
  cases l with
  | nil => exact h.elim
  | cons b rest =>
      obtain ⟨rfl, hrest⟩ := h
      exact ⟨rest, rfl, hrest⟩

omit [DecidableEq N] in
/-- Nothing but the null pointer has the empty list. -/
theorem eq_none (h : Trail next p []) : p = none := by
  cases p with
  | none => rfl
  | some a => exact h.elim

omit [DecidableEq N] in
/-- The list depends on the links of its nodes. -/
theorem congr (h : Trail next p l) (hsame : ∀ a ∈ l, next' a = next a) : Trail next' p l := by
  induction l generalizing p with
  | nil =>
      rw [h.eq_none]
      exact nil
  | cons b rest ih =>
      cases p with
      | none => cases h
      | some a =>
          obtain ⟨rfl, hrest⟩ := h
          refine ⟨rfl, ih ?_ fun c hc => hsame c (List.mem_cons_of_mem _ hc)⟩
          rwa [hsame a List.mem_cons_self]

/-- A node that is in no list may point anywhere. -/
theorem update (h : Trail next p l) (ha : a ∉ l) (v : Option N) :
    Trail (Function.update next a v) p l := by
  refine h.congr fun b hb => Function.update_of_ne ?_ ..
  rintro rfl
  exact ha hb

/-- A node in front of a list. -/
theorem push (h : Trail next p l) (ha : a ∉ l) :
    Trail (Function.update next a p) (some a) (a :: l) := by
  refine ⟨rfl, ?_⟩
  rw [Function.update_self]
  exact h.update ha p

omit [DecidableEq N] in
/-- A pointer has one list. -/
theorem unique {l' : List N} (h : Trail next p l) (h' : Trail next p l') : l = l' := by
  induction l generalizing p l' with
  | nil =>
      rw [h.eq_none] at h'
      exact h'.eq_nil.symm
  | cons b rest ih =>
      cases p with
      | none => exact absurd h.eq_nil (List.cons_ne_nil _ _)
      | some a =>
          obtain ⟨rfl, hrest⟩ := h
          obtain ⟨rest', rfl, hrest'⟩ := h'.cons_of_some
          rw [ih hrest hrest']

/-- A node behind the last one. -/
theorem concat {new last : N} (h : Trail next p (l ++ [last])) (hnodup : (l ++ [last]).Nodup)
    (hnew : new ∉ l ++ [last]) (hnull : next new = none) :
    Trail (Function.update next last (some new)) p (l ++ [last, new]) := by
  induction l generalizing p with
  | nil =>
      cases p with
      | none => cases h
      | some a =>
          obtain ⟨rfl, -⟩ := h
          refine ⟨rfl, ?_⟩
          rw [Function.update_self]
          refine ⟨rfl, ?_⟩
          have hne : new ≠ a := by simpa using hnew
          rw [Function.update_of_ne hne, hnull]
          exact nil
  | cons b rest ih =>
      cases p with
      | none => cases h
      | some a =>
          obtain ⟨rfl, hrest⟩ := h
          rw [List.cons_append, List.nodup_cons] at hnodup
          have hne : a ≠ last := by
            rintro rfl
            exact hnodup.1 (by simp)
          refine ⟨rfl, ?_⟩
          rw [Function.update_of_ne hne]
          exact ih hrest hnodup.2 fun hmem => hnew (List.mem_cons_of_mem _ hmem)

end Trail

end Links
