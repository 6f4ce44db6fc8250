import Mathlib.Order.Bounds.Basic
import XBook.Kernel.Bitmap

/-!
# The search for a run of clear bits

`BitmapScan` once more, in the `unsigned int` arithmetic of the source and with the bytes that it
reads. Both matter at the end of the map: the first loop reads a byte before it compares the index
with the length, and the loop over a run takes one step too many. So every search that finds
nothing has read the byte behind the map. `bitmap_scan_iff` says that these are the only searches
that go wrong.
-/

namespace XBook

/-- What `BitmapScan` returns, and the bytes of the map that it has read. -/
structure BitmapSearch where
  bitIdxStart : Int
  reads : List Nat

/-- The loop over the full bytes: the byte that it stops at, and those that it has read. -/
def skipFull (m : Bitmap) : Nat → Nat → Nat × List Nat
  | 0, idxByte => (idxByte, [])
  | fuel + 1, idxByte =>
      if m.bits idxByte = 255 ∧ idxByte < m.btmpBytesLen then
        let rest := skipFull m fuel (idxByte + 1)
        (rest.1, idxByte :: rest.2)
      else (idxByte, [idxByte])

/-- The loop `while (bit_left-- > 0)`. -/
def countClear (m : Bitmap) (cnt : Nat) : Nat → Nat → Nat → BitmapSearch
  | 0, _, _ => ⟨-1, []⟩
  | bitLeft + 1, nextBit, count =>
      let count := if bitmapScanTest m nextBit then 0 else count + 1
      if count = cnt then ⟨((nextBit : Int) - cnt + 1).bmod (2 ^ 32), [nextBit / 8]⟩
      else
        let rest := countClear m cnt bitLeft ((nextBit + 1) % 2 ^ 32) count
        ⟨rest.bitIdxStart, nextBit / 8 :: rest.reads⟩

/-- `BitmapScan`. The index of a bit is an `unsigned int`, the result an `int`. -/
def bitmapSearch (m : Bitmap) (cnt : Nat) : BitmapSearch :=
  let bytes := skipFull m (m.btmpBytesLen + 1) 0
  let idxByte := bytes.1
  if idxByte = m.btmpBytesLen then ⟨-1, bytes.2⟩
  else
    let bitIdxStart : Nat := (idxByte * 8 + scanBit (m.bits idxByte) 8 0) % 2 ^ 32
    if cnt = 1 then ⟨(bitIdxStart : Int).bmod (2 ^ 32), bytes.2⟩
    else
      let bitLeft := (m.btmpBytesLen * 8 + (2 ^ 32 - bitIdxStart)) % 2 ^ 32
      let run := countClear m cnt bitLeft ((bitIdxStart + 1) % 2 ^ 32) 1
      ⟨run.bitIdxStart, bytes.2 ++ run.reads⟩

namespace Bitmap

/-- The bits from the index on are clear, whether they belong to the map or not. -/
def Clear (m : Bitmap) (cnt i : Nat) : Prop := ∀ j, i ≤ j → j < i + cnt → m.bit j = false

/-- A run of clear bits inside the map. -/
def Run (m : Bitmap) (cnt i : Nat) : Prop := i + cnt ≤ m.btmpBytesLen * 8 ∧ m.Clear cnt i

end Bitmap

/-- The search finds the first run, finds nothing only where there is none, and stays in the
map. -/
structure BitmapSearch.Right (m : Bitmap) (cnt : Nat) (r : BitmapSearch) : Prop where
  first : ∀ i : Nat, r.bitIdxStart = i ↔ IsLeast {i | m.Run cnt i} i
  none : r.bitIdxStart = -1 ↔ ¬ ∃ i, m.Run cnt i
  inside : ∀ byte ∈ r.reads, byte < m.btmpBytesLen

/-! ## The loops -/

/-- The first loop reads the byte that it stops at, also when this is no byte of the map. -/
theorem skip_full_eq (m : Bitmap) (fuel idxByte : Nat) (hfuel : m.btmpBytesLen ≤ fuel + idxByte)
    (hidx : idxByte ≤ m.btmpBytesLen) :
    skipFull m (fuel + 1) idxByte = (scanByte m fuel idxByte,
      List.range' idxByte (scanByte m fuel idxByte + 1 - idxByte)) := by
  induction fuel generalizing idxByte with
  | zero =>
      have hend : ¬ (m.bits idxByte = 255 ∧ idxByte < m.btmpBytesLen) := by omega
      simp [skipFull, scanByte, if_neg hend]
  | succ fuel ih =>
      rw [skipFull, scanByte]
      by_cases hfull : m.bits idxByte = 255 ∧ idxByte < m.btmpBytesLen
      · obtain ⟨hle, -⟩ := scan_byte_spec m fuel (idxByte + 1) (by omega) (by omega)
        rw [if_pos hfull, if_pos hfull, ih (idxByte + 1) (by omega) (by omega)]
        have hlen : scanByte m fuel (idxByte + 1) + 1 - idxByte =
            (scanByte m fuel (idxByte + 1) + 1 - (idxByte + 1)) + 1 := by omega
        rw [hlen, List.range'_succ]
      · rw [if_neg hfull, if_neg hfull, Nat.add_sub_cancel_left]
        rfl

/-- What the loop over a run makes of the bits from `nextBit` on: it finds the first clear bits, or
there are none in its reach. Either way it reads up to the last bit that it has looked at. -/
def Searched (m : Bitmap) (cnt nextBit bitLeft : Nat) (r : BitmapSearch) : Prop :=
  (∃ i, IsLeast {i | m.Clear cnt i} i ∧ nextBit < i + cnt ∧ i + cnt ≤ nextBit + bitLeft ∧
    r.bitIdxStart = (i : Int).bmod (2 ^ 32) ∧ (i + cnt - 1) / 8 ∈ r.reads ∧
    ∀ byte ∈ r.reads, byte * 8 < i + cnt) ∨
  (r.bitIdxStart = -1 ∧ (∀ i, i + cnt ≤ nextBit + bitLeft → ¬ m.Clear cnt i) ∧
    (0 < bitLeft → (nextBit + bitLeft - 1) / 8 ∈ r.reads))

/-- A step that does not end the loop. -/
theorem Searched.step {m : Bitmap} {cnt nextBit bitLeft : Nat} {r : BitmapSearch}
    (h : Searched m cnt (nextBit + 1) bitLeft r) :
    Searched m cnt nextBit (bitLeft + 1) ⟨r.bitIdxStart, nextBit / 8 :: r.reads⟩ := by
  rcases h with ⟨i, hleast, hlow, hhigh, hresult, hlast, hreads⟩ | ⟨hresult, hnone, hlast⟩
  · refine .inl ⟨i, hleast, by omega, by omega, hresult, List.mem_cons_of_mem _ hlast, ?_⟩
    intro byte hbyte
    rcases List.mem_cons.mp hbyte with rfl | hbyte
    · omega
    · exact hreads byte hbyte
  · refine .inr ⟨hresult, fun i hi => hnone i (by omega), fun _ => ?_⟩
    cases bitLeft with
    | zero => exact List.mem_cons_self
    | succ bitLeft =>
        have hmem := hlast (Nat.succ_pos bitLeft)
        rw [show nextBit + 1 + (bitLeft + 1) - 1 = nextBit + (bitLeft + 1 + 1) - 1 by omega] at hmem
        exact List.mem_cons_of_mem _ hmem

/-- The loop has counted the clear bits before `nextBit`, and no run starts before these. -/
theorem count_clear_searched (m : Bitmap) {cnt bitLeft nextBit count : Nat}
    (hwrap : nextBit + bitLeft < 2 ^ 32) (hcount : count < cnt) (hle : count ≤ nextBit)
    (hclear : ∀ j, nextBit ≤ j + count → j < nextBit → m.bit j = false)
    (hbefore : ∀ i, i + count < nextBit → ¬ m.Clear cnt i) :
    Searched m cnt nextBit bitLeft (countClear m cnt bitLeft nextBit count) := by
  induction bitLeft generalizing nextBit count with
  | zero =>
      refine .inr ⟨rfl, ?_, fun hpos => absurd hpos (Nat.lt_irrefl 0)⟩
      intro i hi
      exact hbefore i (by omega)
  | succ bitLeft ih =>
      have hnext : (nextBit + 1) % 2 ^ 32 = nextBit + 1 := Nat.mod_eq_of_lt (by omega)
      simp only [countClear, bitmap_scan_test, hnext]
      by_cases hbit : m.bit nextBit = true
      · have hpassed : ∀ i, i + 0 < nextBit + 1 → ¬ m.Clear cnt i := by
          intro i hi hrun
          by_cases hlow : i + count < nextBit
          · exact hbefore i hlow hrun
          · have hfree := hrun nextBit (by omega) (by omega)
            rw [hbit] at hfree
            cases hfree
        rw [if_pos hbit, if_neg (by omega)]
        exact (ih (by omega) (by omega) (Nat.zero_le _) (fun j hj hlt => by omega) hpassed).step
      · have hcounted : ∀ j, nextBit + 1 ≤ j + (count + 1) → j < nextBit + 1 →
            m.bit j = false := by
          intro j hj hlt
          by_cases heq : j = nextBit
          · rw [heq]
            simpa using hbit
          · exact hclear j (by omega) (by omega)
        rw [if_neg hbit]
        by_cases hfound : count + 1 = cnt
        · rw [if_pos hfound]
          refine .inl ⟨nextBit + 1 - cnt, ⟨?_, ?_⟩, by omega, by omega, ?_, ?_, ?_⟩
          · intro j hj hlt
            exact hcounted j (by omega) (by omega)
          · intro i hi
            by_contra hlt
            exact hbefore i (by omega) hi
          · rw [show ((nextBit : Int) - cnt + 1) = ((nextBit + 1 - cnt : Nat) : Int) by omega]
          · rw [show nextBit + 1 - cnt + cnt - 1 = nextBit by omega]
            exact List.mem_singleton_self _
          · intro byte hbyte
            rw [List.mem_singleton] at hbyte
            omega
        · rw [if_neg hfound]
          exact (ih (by omega) (by omega) (by omega) hcounted
            (fun i hi => hbefore i (by omega))).step

/-! ## The search -/

/-- The first loops: all bits are set and the byte behind the map has been read, or they stop at the
first clear bit. -/
theorem first_clear {m : Bitmap} (h : m.Bytes) :
    (scanByte m m.btmpBytesLen 0 = m.btmpBytesLen ∧ ∀ j < m.btmpBytesLen * 8, m.bit j = true) ∨
    (scanByte m m.btmpBytesLen 0 < m.btmpBytesLen ∧
      IsLeast {i | i < m.btmpBytesLen * 8 ∧ m.bit i = false} (scanByte m m.btmpBytesLen 0 * 8 +
        scanBit (m.bits (scanByte m m.btmpBytesLen 0)) 8 0)) := by
  obtain ⟨-, hbound, -⟩ := scan_byte_spec m m.btmpBytesLen 0 (by omega) (Nat.zero_le _)
  rcases bitmap_scan_one h with ⟨i, hscan, hi, hbit, hset⟩ | ⟨hscan, hset⟩
  · simp only [bitmapScan, if_true] at hscan
    split at hscan
    · cases hscan
    · next hend =>
        obtain rfl := Option.some.inj hscan
        refine .inr ⟨by omega, ⟨hi, hbit⟩, ?_⟩
        rintro j ⟨-, hj⟩
        by_contra hlt
        rw [hset j (by omega)] at hj
        cases hj
  · simp only [bitmapScan, if_true] at hscan
    split at hscan
    · next hend => exact .inl ⟨hend, hset⟩
    · cases hscan

theorem skip_full_whole (m : Bitmap) :
    skipFull m (m.btmpBytesLen + 1) 0 =
      (scanByte m m.btmpBytesLen 0, List.range (scanByte m m.btmpBytesLen 0 + 1)) := by
  rw [skip_full_eq m m.btmpBytesLen 0 (by omega) (Nat.zero_le _), List.range_eq_range']
  rfl

theorem clear_one {m : Bitmap} {i : Nat} : m.Clear 1 i ↔ m.bit i = false :=
  ⟨fun h => h i (Nat.le_refl i) (Nat.lt_succ_self i), fun h j hj hlt => by
    rw [show j = i by omega]
    exact h⟩

/-- The loop over a run, from the first clear bit to one step past the map. -/
theorem run_searched {m : Bitmap} {cnt start : Nat} (hlen : m.btmpBytesLen * 8 < 2 ^ 32)
    (hcnt : 2 ≤ cnt) (hstart : IsLeast {i | i < m.btmpBytesLen * 8 ∧ m.bit i = false} start) :
    Searched m cnt (start + 1) (m.btmpBytesLen * 8 - start)
      (countClear m cnt (m.btmpBytesLen * 8 - start) (start + 1) 1) := by
  obtain ⟨⟨hin, hbit⟩, hleast⟩ := hstart
  refine count_clear_searched m (by omega) (by omega) (by omega) ?_ ?_
  · intro j hj hlt
    rw [show j = start by omega]
    exact hbit
  · intro i hi hrun
    have hle := hleast ⟨by omega, hrun i (Nat.le_refl i) (by omega)⟩
    omega

/-- A search finds the first run inside the map, or it reads the byte behind the map. -/
theorem bitmap_search_spec {m : Bitmap} (h : m.Bytes) {cnt : Nat}
    (hlen : m.btmpBytesLen * 8 < 2 ^ 32) (hcnt : 1 ≤ cnt) :
    (∃ i, IsLeast {i | m.Run cnt i} i ∧
      (bitmapSearch m cnt).bitIdxStart = (i : Int).bmod (2 ^ 32) ∧
      ∀ byte ∈ (bitmapSearch m cnt).reads, byte < m.btmpBytesLen) ∨
    ((¬ ∃ i, m.Run cnt i) ∧ m.btmpBytesLen ∈ (bitmapSearch m cnt).reads) := by
  simp only [bitmapSearch, skip_full_whole]
  rcases first_clear h with ⟨hend, hset⟩ | ⟨hbyte, hfirst⟩
  · refine .inr ⟨?_, ?_⟩
    · rintro ⟨i, hin, hrun⟩
      have hfree := hrun i (Nat.le_refl i) (by omega)
      rw [hset i (by omega)] at hfree
      cases hfree
    · rw [if_pos hend, hend]
      exact List.mem_range.mpr (Nat.lt_succ_self _)
  · generalize scanBit (m.bits (scanByte m m.btmpBytesLen 0)) 8 0 = idxBit at hfirst ⊢
    generalize scanByte m m.btmpBytesLen 0 = idxByte at hbyte hfirst ⊢
    generalize hstart : idxByte * 8 + idxBit = start at hfirst ⊢
    have hin : start < m.btmpBytesLen * 8 := hfirst.1.1
    have hread : ∀ byte ∈ List.range (idxByte + 1), byte < m.btmpBytesLen := by
      intro byte hmem
      have hle := List.mem_range.mp hmem
      omega
    rw [if_neg (Nat.ne_of_lt hbyte), Nat.mod_eq_of_lt (show start < 2 ^ 32 by omega)]
    by_cases hone : cnt = 1
    · subst hone
      rw [if_pos rfl]
      refine .inl ⟨start, ⟨⟨hin, clear_one.mpr hfirst.1.2⟩, ?_⟩, by dsimp only, hread⟩
      rintro j ⟨hj, hrun⟩
      exact hfirst.2 ⟨hj, clear_one.mp hrun⟩
    · have hleft : (m.btmpBytesLen * 8 + (2 ^ 32 - start)) % 2 ^ 32 =
          m.btmpBytesLen * 8 - start := by omega
      rw [if_neg hone, hleft, Nat.mod_eq_of_lt (show start + 1 < 2 ^ 32 by omega)]
      rcases run_searched hlen (by omega : 2 ≤ cnt) hfirst with
        ⟨i, hleast, -, hhigh, hresult, hlast, hreads⟩ | ⟨-, hnone, hlast⟩
      · by_cases hmap : i + cnt ≤ m.btmpBytesLen * 8
        · refine .inl ⟨i, ⟨⟨hmap, hleast.1⟩, fun j hj => hleast.2 hj.2⟩, hresult, ?_⟩
          intro byte hmem
          rcases List.mem_append.mp hmem with hmem | hmem
          · exact hread byte hmem
          · have hlt := hreads byte hmem
            omega
        · -- the run ends with the bit behind the map
          refine .inr ⟨?_, List.mem_append_right _ ?_⟩
          · rintro ⟨j, hj, hrun⟩
            have hle := hleast.2 hrun
            omega
          · rw [show (i + cnt - 1) / 8 = m.btmpBytesLen by omega] at hlast
            exact hlast
      · refine .inr ⟨?_, List.mem_append_right _ ?_⟩
        · rintro ⟨j, hj, hrun⟩
          exact hnone j (by omega) hrun
        · have hmem := hlast (by omega)
          rw [show (start + 1 + (m.btmpBytesLen * 8 - start) - 1) / 8 = m.btmpBytesLen by
            omega] at hmem
          exact hmem

/-- The search is right where the map holds a run, and its index is an `int`. -/
theorem bitmap_scan_iff {m : Bitmap} (h : m.Bytes) {cnt : Nat}
    (hlen : m.btmpBytesLen * 8 < 2 ^ 32) (hcnt : 1 ≤ cnt) :
    (bitmapSearch m cnt).Right m cnt ↔ ∃ i < 2 ^ 31, IsLeast {i | m.Run cnt i} i := by
  constructor
  · intro hright
    rcases bitmap_search_spec h hlen hcnt with ⟨i, hleast, hresult, -⟩ | ⟨-, hmem⟩
    · have hi := (hright.first i).mpr hleast
      have hbound := Int.bmod_lt (x := i) (m := 2 ^ 32) (by omega)
      refine ⟨i, ?_, hleast⟩
      rw [← hresult, hi] at hbound
      omega
    · exact absurd (hright.inside _ hmem) (Nat.lt_irrefl _)
  · rintro ⟨i, hi, hleast⟩
    rcases bitmap_search_spec h hlen hcnt with ⟨j, hleast', hresult, hreads⟩ | ⟨hnone, -⟩
    · obtain rfl := hleast.unique hleast'
      rw [Int.bmod_eq_of_le_mul_two (by omega) (by omega)] at hresult
      refine ⟨fun k => ?_, ?_, hreads⟩
      · rw [hresult]
        constructor
        · intro heq
          obtain rfl : i = k := Int.ofNat.inj heq
          exact hleast
        · intro hk
          rw [hleast.unique hk]
      · rw [hresult]
        exact ⟨fun heq => by omega, fun hnone => absurd ⟨i, hleast.1⟩ hnone⟩
    · exact absurd ⟨i, hleast.1⟩ hnone

/-- One free byte: the search of a run of two bits is right. -/
theorem bitmap_scan_free :
    (bitmapSearch ⟨1, fun _ => 0⟩ 2).Right ⟨1, fun _ => 0⟩ 2 :=
  (bitmap_scan_iff (m := ⟨1, fun _ => 0⟩) (fun _ _ => (by decide : 0 < 256)) (by decide)
    (by decide)).mpr ⟨0, by decide, ⟨by decide, fun j _ _ => by simp [Bitmap.bit]⟩,
      fun _ _ => Nat.zero_le _⟩

/-- Seven bits of the byte are set, and the byte behind the map is clear: of two bits that the
search finds, one is not in the map. -/
theorem bitmap_scan_past_map :
    (bitmapSearch ⟨1, fun i => if i = 0 then 127 else 0⟩ 2).bitIdxStart = 7 ∧
      (bitmapSearch ⟨1, fun i => if i = 0 then 127 else 0⟩ 2).reads = [0, 1] ∧
      ¬ (bitmapSearch ⟨1, fun i => if i = 0 then 127 else 0⟩ 2).Right
        ⟨1, fun i => if i = 0 then 127 else 0⟩ 2 :=
  ⟨by decide, by decide, fun h => absurd (h.inside 1 (by decide)) (by decide)⟩

end XBook
