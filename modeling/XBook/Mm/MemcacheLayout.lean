import XBook.Lib.Span
import XBook.Mm.Memcache

/-!
# Where the groups of the heap lie

The sizes of the caches are fixed, and with them how many objects a group has and how many pages
they take. `Layout` says that the pages of different groups are apart and that every page with
objects carries the back pointers to its group and cache. `Layout.create` and `Layout.destroy`
follow the two operations that change it.
-/

namespace XBook

/-- `objectSize` of a cache. -/
def cacheSize (k : Nat) : Nat := cacheSizes.getD k 0

/-- `objectNumber` of a cache. -/
def cacheNumber (k : Nat) : Nat := cacheObjectNumber (cacheSize k)

/-- The pages that the objects of a group of a cache take. -/
def cachePages (k : Nat) : Nat := objectPages (cacheNumber k) (cacheSize k)

theorem cache_size_pos {k : Nat} (hk : k < cacheSizes.length) : 0 < cacheSize k := by
  have hall : ∀ k < 13, 0 < cacheSize k := by decide
  exact hall k hk

theorem cache_number_pos {k : Nat} (hk : k < cacheSizes.length) : 0 < cacheNumber k := by
  have hall : ∀ k < 13, 0 < cacheNumber k := by decide
  exact hall k hk

/-- The objects of a small cache fit behind the group and its bitmap in one page. -/
theorem small_cache_fits {k : Nat} (hk : k < cacheSizes.length) (hsmall : cacheSize k < 1024) :
    sizeofMemGroup + 16 + cacheNumber k * cacheSize k ≤ pageSize := by
  have hall : ∀ k < 13, cacheSize k < 1024 →
      sizeofMemGroup + 16 + cacheNumber k * cacheSize k ≤ pageSize := by decide
  exact hall k hk hsmall

/-- The objects of a large cache fill their pages. -/
theorem large_cache_fills {k : Nat} (hk : k < cacheSizes.length) (hlarge : ¬ cacheSize k < 1024) :
    cacheNumber k * cacheSize k = cachePages k * pageSize := by
  have hall : ∀ k < 13, ¬ cacheSize k < 1024 →
      cacheNumber k * cacheSize k = cachePages k * pageSize := by decide
  exact hall k hk hlarge

theorem cache_pages_pos {k : Nat} (hk : k < cacheSizes.length) (hlarge : ¬ cacheSize k < 1024) :
    0 < cachePages k := by
  have hpos := Nat.mul_pos (cache_number_pos hk) (cache_size_pos hk)
  rw [large_cache_fills hk hlarge] at hpos
  exact Nat.pos_of_mul_pos_right hpos

/-- The bitmap of a group has a bit for every object. -/
theorem cache_number_le {k : Nat} (hk : k < cacheSizes.length) :
    cacheNumber k ≤ divRoundUp (cacheNumber k) 8 * 8 := by
  have hall : ∀ k < 13, cacheNumber k ≤ divRoundUp (cacheNumber k) 8 * 8 := by decide
  exact hall k hk

/-- The cache that `kmalloc` takes exists and its objects are large enough. -/
theorem cache_index_spec {size : Nat} (h : size ≤ maxMemCacheSize) :
    cacheIndex size < cacheSizes.length ∧ size ≤ cacheSize (cacheIndex size) := by
  have hlt : cacheSizes.findIdx (· ≥ size) < cacheSizes.length := by
    refine List.findIdx_lt_length_of_exists ⟨128 * 1024, by simp [cacheSizes], ?_⟩
    simpa using h
  refine ⟨hlt, ?_⟩
  have hfound := List.findIdx_getElem (w := hlt)
  rw [cacheSize, cacheIndex, List.getD_eq_getElem _ _ hlt]
  simpa using hfound

/-- The pages of a group, as ranges of page numbers. -/
def pageSpans (k g objects : Nat) : List Span :=
  ⟨g / pageSize, 1⟩ :: if cacheSize k < 1024 then [] else [⟨objects / pageSize, cachePages k⟩]

/-- The pages that hold the objects of a group. -/
def objectSpan (k g objects : Nat) : Span :=
  if cacheSize k < 1024 then ⟨g / pageSize, 1⟩ else ⟨objects / pageSize, cachePages k⟩

theorem object_span_mem (k g objects : Nat) : objectSpan k g objects ∈ pageSpans k g objects := by
  unfold objectSpan pageSpans
  split <;> simp

/-- The memory of the objects of a group. -/
def objectArea (k objects : Nat) : Span := ⟨objects, cacheNumber k * cacheSize k⟩

/-- Where the objects of a group of cache `k` at `g` begin. -/
structure GroupLayout (k g objects : Nat) : Prop where
  cache : k < cacheSizes.length
  aligned : g % pageSize = 0
  small : cacheSize k < 1024 → objects = g + sizeofMemGroup + 16
  large : ¬ cacheSize k < 1024 → objects % pageSize = 0 ∧ objects ≠ 0

/-- An address in the object area lies in a page with objects. -/
theorem GroupLayout.page {k g objects address : Nat} (h : GroupLayout k g objects)
    (haddress : (objectArea k objects).Holds address) :
    (objectSpan k g objects).Holds (address / pageSize) := by
  obtain ⟨hle, hlt⟩ := haddress
  simp only [objectArea, Span.stop] at hle hlt
  unfold objectSpan Span.Holds Span.stop
  by_cases hsmall : cacheSize k < 1024
  · have hfits := small_cache_fits h.cache hsmall
    have hobjects := h.small hsmall
    have haligned := h.aligned
    rw [if_pos hsmall]
    simp only [pageSize, sizeofMemGroup] at *
    omega
  · have hfills := large_cache_fills h.cache hsmall
    have haligned := (h.large hsmall).1
    rw [if_neg hsmall]
    simp only [pageSize] at *
    omega

/-- The object at an index lies in the object area. -/
theorem object_in_area {k objects i : Nat} (hi : i < cacheNumber k) :
    objects ≤ objects + i * cacheSize k ∧
      objects + i * cacheSize k + cacheSize k ≤ (objectArea k objects).stop := by
  have hmul : (i + 1) * cacheSize k ≤ cacheNumber k * cacheSize k := Nat.mul_le_mul_right _ hi
  rw [Nat.add_mul, Nat.one_mul] at hmul
  simp only [objectArea, Span.stop]
  omega

theorem object_address_in_area {k objects i : Nat} (hk : k < cacheSizes.length)
    (hi : i < cacheNumber k) : (objectArea k objects).Holds (objects + i * cacheSize k) := by
  have hsize := cache_size_pos hk
  obtain ⟨hle, hstop⟩ := @object_in_area k objects i hi
  exact ⟨hle, by omega⟩

/-- The groups lie in pages of their own, and the pages with objects point back to them. -/
structure Layout (owner : Nat → Option Nat) (objects : Nat → Nat) (nodes : Nat → NodeMark) :
    Prop where
  group : ∀ g k, owner g = some k → GroupLayout k g (objects g)
  apart : ∀ g h k l, owner g = some k → owner h = some l → g ≠ h →
    ∀ a ∈ pageSpans k g (objects g), ∀ b ∈ pageSpans l h (objects h), a.Apart b
  marks : ∀ g k, owner g = some k → ∀ node, (objectSpan k g (objects g)).Holds node →
    nodes node = ⟨some k, some g⟩

section

variable {owner : Nat → Option Nat} {objects : Nat → Nat} {nodes nodes' : Nat → NodeMark}
variable {k g : Nat}

/-- An address in the object area of a group finds the group through its page. -/
theorem Layout.find (h : Layout owner objects nodes) (hg : owner g = some k) {address : Nat}
    (haddress : (objectArea k (objects g)).Holds address) :
    nodes (address / pageSize) = ⟨some k, some g⟩ :=
  h.marks g k hg _ ((h.group g k hg).page haddress)

/-- An address lies in the object area of at most one group. -/
theorem Layout.group_unique (h : Layout owner objects nodes) (hg : owner g = some k) {g' k' : Nat}
    (hg' : owner g' = some k') {address : Nat} (haddress : (objectArea k (objects g)).Holds address)
    (haddress' : (objectArea k' (objects g')).Holds address) : g = g' ∧ k = k' := by
  have hfind := h.find hg haddress
  rw [h.find hg' haddress'] at hfind
  obtain ⟨hk, hgroup⟩ := NodeMark.mk.inj hfind
  exact ⟨(Option.some.inj hgroup).symm, (Option.some.inj hk).symm⟩

/-- A group in pages that are apart from all others is a new one. -/
theorem not_owned {o : Nat} (hfresh : ∀ g' k', owner g' = some k' → ∀ a ∈ pageSpans k g o,
    ∀ b ∈ pageSpans k' g' (objects g'), a.Apart b) : owner g = none := by
  cases howner : owner g with
  | none => rfl
  | some k' =>
      have hapart := hfresh g k' howner ⟨g / pageSize, 1⟩ List.mem_cons_self ⟨g / pageSize, 1⟩
        List.mem_cons_self
      unfold Span.Apart Span.stop at hapart
      simp only at hapart
      omega

/-- A new group in pages that are apart from all others. -/
theorem Layout.create (h : Layout owner objects nodes) {o : Nat} (hgroup : GroupLayout k g o)
    (hfresh : ∀ g' k', owner g' = some k' → ∀ a ∈ pageSpans k g o,
      ∀ b ∈ pageSpans k' g' (objects g'), a.Apart b)
    (hmarked : ∀ node, (objectSpan k g o).Holds node → nodes' node = ⟨some k, some g⟩)
    (hkept : ∀ node, (∀ a ∈ pageSpans k g o, ¬ a.Holds node) → nodes' node = nodes node) :
    Layout (Function.update owner g (some k)) (Function.update objects g o) nodes' := by
  refine ⟨?_, ?_, ?_⟩
  · intro g' k' hg'
    by_cases hgg : g' = g
    · subst hgg
      rw [Function.update_self] at hg' ⊢
      cases hg'
      exact hgroup
    · rw [Function.update_of_ne hgg] at hg' ⊢
      exact h.group g' k' hg'
  · intro g₁ g₂ k₁ k₂ h₁ h₂ hne a ha b hb
    by_cases h1 : g₁ = g
    · have h2 : g₂ ≠ g := fun h2 => hne (h1.trans h2.symm)
      subst h1
      rw [Function.update_self] at h₁ ha
      rw [Function.update_of_ne h2] at h₂ hb
      cases h₁
      exact hfresh g₂ k₂ h₂ a ha b hb
    · rw [Function.update_of_ne h1] at h₁ ha
      by_cases h2 : g₂ = g
      · subst h2
        rw [Function.update_self] at h₂ hb
        cases h₂
        exact (hfresh g₁ k₁ h₁ b hb a ha).symm
      · rw [Function.update_of_ne h2] at h₂ hb
        exact h.apart g₁ g₂ k₁ k₂ h₁ h₂ hne a ha b hb
  · intro g' k' hg' node hnode
    by_cases hgg : g' = g
    · subst hgg
      rw [Function.update_self] at hg' hnode
      cases hg'
      exact hmarked node hnode
    · rw [Function.update_of_ne hgg] at hg' hnode
      rw [hkept node]
      · exact h.marks g' k' hg' node hnode
      · intro a ha hheld
        exact (hfresh g' k' hg' a ha _ (object_span_mem ..)).not_holds hheld hnode

/-- A group whose pages are given back. -/
theorem Layout.destroy (h : Layout owner objects nodes) (hg : owner g = some k)
    (hkept : ∀ node, (∀ a ∈ pageSpans k g (objects g), ¬ a.Holds node) →
      nodes' node = nodes node) : Layout (Function.update owner g none) objects nodes' := by
  have hother : ∀ g' k', Function.update owner g none g' = some k' →
      g' ≠ g ∧ owner g' = some k' := by
    intro g' k' hg'
    by_cases hgg : g' = g
    · subst hgg
      simp at hg'
    · rw [Function.update_of_ne hgg] at hg'
      exact ⟨hgg, hg'⟩
  refine ⟨?_, ?_, ?_⟩
  · intro g' k' hg'
    exact h.group g' k' (hother g' k' hg').2
  · intro g₁ g₂ k₁ k₂ h₁ h₂
    exact h.apart g₁ g₂ k₁ k₂ (hother g₁ k₁ h₁).2 (hother g₂ k₂ h₂).2
  · intro g' k' hg' node hnode
    obtain ⟨hne, howner⟩ := hother g' k' hg'
    rw [hkept node]
    · exact h.marks g' k' howner node hnode
    · intro a ha hheld
      exact (h.apart g g' k k' hg howner hne.symm a ha _ (object_span_mem ..)).not_holds hheld hnode

end

end XBook
