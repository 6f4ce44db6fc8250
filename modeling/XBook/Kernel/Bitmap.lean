import Mathlib.Data.Nat.Bitwise
import Mathlib.Data.Nat.Count
import Mathlib.Logic.Function.Basic

/-!
# Bitmaps

`kernel/bitmap.c`. A bitmap is a row of bytes in memory and the number of bytes that belong to
it. The lemmas speak of its bits: `bit_bitmap_set` for an update, `used_bitmap_set` for the number
of set bits, and `bitmap_scan_one` for the search of one clear bit.
-/

namespace XBook

/-- `struct Bitmap`, with the memory that `bits` points to. -/
structure Bitmap where
  btmpBytesLen : Nat
  bits : Nat → Nat

namespace Bitmap

/-- The bit at an index. -/
def bit (m : Bitmap) (bitIdx : Nat) : Bool := (m.bits (bitIdx / 8)).testBit (bitIdx % 8)

/-- The memory of the bitmap holds bytes. -/
def Bytes (m : Bitmap) : Prop := ∀ i < m.btmpBytesLen, m.bits i < 256

/-- The number of set bits among the first `n`. -/
def used (m : Bitmap) (n : Nat) : Nat := Nat.count (fun i => m.bit i = true) n

end Bitmap

/-- `BitmapInit`. -/
def bitmapInit (m : Bitmap) : Bitmap :=
  { m with bits := fun i => if i < m.btmpBytesLen then 0 else m.bits i }

/-- `BitmapScanTest`. -/
def bitmapScanTest (m : Bitmap) (bitIdx : Nat) : Bool :=
  decide (m.bits (bitIdx / 8) &&& 1 <<< (bitIdx % 8) ≠ 0)

/-- `BitmapSet`. -/
def bitmapSet (m : Bitmap) (bitIdx : Nat) (value : Bool) : Bitmap :=
  let byte := m.bits (bitIdx / 8)
  let mask := 1 <<< (bitIdx % 8)
  let byte := if value then byte ||| mask else byte &&& (255 ^^^ mask)
  { m with bits := Function.update m.bits (bitIdx / 8) byte }

/-- The loop of `BitmapScan` over the full bytes. -/
def scanByte (m : Bitmap) : Nat → Nat → Nat
  | 0, idxByte => idxByte
  | fuel + 1, idxByte =>
      if m.bits idxByte = 255 ∧ idxByte < m.btmpBytesLen then scanByte m fuel (idxByte + 1)
      else idxByte

/-- The loop of `BitmapScan` over the set bits of a byte. -/
def scanBit (byte : Nat) : Nat → Nat → Nat
  | 0, idxBit => idxBit
  | fuel + 1, idxBit => if 1 <<< idxBit &&& byte ≠ 0 then scanBit byte fuel (idxBit + 1) else idxBit

/-- The loop of `BitmapScan` for a run of more than one clear bit. -/
def scanRun (m : Bitmap) (cnt : Nat) : Nat → Nat → Nat → Option Nat
  | 0, _, _ => none
  | bitLeft + 1, nextBit, count =>
      let count := if bitmapScanTest m nextBit then 0 else count + 1
      if count = cnt then some (nextBit + 1 - cnt) else scanRun m cnt bitLeft (nextBit + 1) count

/-- `BitmapScan`, with `none` for `-1`. -/
def bitmapScan (m : Bitmap) (cnt : Nat) : Option Nat :=
  let idxByte := scanByte m m.btmpBytesLen 0
  if idxByte = m.btmpBytesLen then none
  else
    let bitIdxStart := idxByte * 8 + scanBit (m.bits idxByte) 8 0
    if cnt = 1 then some bitIdxStart
    else scanRun m cnt (m.btmpBytesLen * 8 - bitIdxStart) (bitIdxStart + 1) 1

theorem and_mask_ne_zero (byte i : Nat) : byte &&& 1 <<< i ≠ 0 ↔ byte.testBit i = true := by
  rw [Nat.one_shiftLeft, Nat.and_two_pow]
  cases byte.testBit i <;> simp

theorem bitmap_scan_test (m : Bitmap) (bitIdx : Nat) :
    bitmapScanTest m bitIdx = m.bit bitIdx := by
  rw [Bool.eq_iff_iff, bitmapScanTest, decide_eq_true_iff]
  exact and_mask_ne_zero _ _

@[simp] theorem bitmap_set_len (m : Bitmap) (bitIdx : Nat) (value : Bool) :
    (bitmapSet m bitIdx value).btmpBytesLen = m.btmpBytesLen := rfl

/-- An update changes one bit. -/
theorem bit_bitmap_set (m : Bitmap) (i j : Nat) (value : Bool) :
    (bitmapSet m i value).bit j = if j = i then value else m.bit j := by
  simp only [Bitmap.bit, bitmapSet, Function.update_apply]
  by_cases hbyte : j / 8 = i / 8
  · have hmod : i % 8 = j % 8 ↔ j = i := by omega
    have hlt : j % 8 < 8 := Nat.mod_lt _ (by decide)
    rw [if_pos hbyte, hbyte]
    cases value with
    | true =>
        simp only [if_true, Nat.testBit_or, Nat.one_shiftLeft, Nat.testBit_two_pow, hmod]
        by_cases hji : j = i <;> simp [hji]
    | false =>
        have hones : Nat.testBit 255 (j % 8) = true := by
          rw [show 255 = 2 ^ 8 - 1 by rfl, Nat.testBit_two_pow_sub_one]
          simpa using hlt
        simp only [Bool.false_eq_true, if_false, Nat.testBit_and, Nat.testBit_xor, hones,
          Nat.one_shiftLeft, Nat.testBit_two_pow, hmod]
        by_cases hji : j = i <;> simp [hji]
  · rw [if_neg hbyte, if_neg (fun h => hbyte (by rw [h]))]

/-- An update keeps the bytes. -/
theorem Bitmap.Bytes.set {m : Bitmap} (h : m.Bytes) {i : Nat} (hi : i < m.btmpBytesLen * 8)
    (value : Bool) : (bitmapSet m i value).Bytes := by
  intro k hk
  simp only [bitmapSet, Function.update_apply]
  split
  · have hbyte := h (i / 8) (by omega)
    have hmask : 1 <<< (i % 8) < 2 ^ 8 := by
      rw [Nat.one_shiftLeft]
      exact Nat.pow_lt_pow_right (by decide) (Nat.mod_lt _ (by decide))
    split
    · exact Nat.or_lt_two_pow (n := 8) hbyte hmask
    · exact Nat.lt_of_le_of_lt Nat.and_le_left hbyte
  · exact h k hk

theorem bytes_bitmap_init (m : Bitmap) : (bitmapInit m).Bytes := by
  intro i hi
  simp only [bitmapInit] at hi ⊢
  simp [hi]

theorem bit_bitmap_init {m : Bitmap} {i : Nat} (hi : i < m.btmpBytesLen * 8) :
    (bitmapInit m).bit i = false := by
  have hlt : i / 8 < m.btmpBytesLen := by omega
  simp [Bitmap.bit, bitmapInit, hlt]

/-- The bytes that the first loop passes are full, and the one that it stops at is not. -/
theorem scan_byte_spec (m : Bitmap) (fuel idxByte : Nat) (hfuel : m.btmpBytesLen ≤ fuel + idxByte)
    (hidx : idxByte ≤ m.btmpBytesLen) :
    idxByte ≤ scanByte m fuel idxByte ∧ scanByte m fuel idxByte ≤ m.btmpBytesLen ∧
      (∀ k, idxByte ≤ k → k < scanByte m fuel idxByte → m.bits k = 255) ∧
      (scanByte m fuel idxByte < m.btmpBytesLen → m.bits (scanByte m fuel idxByte) ≠ 255) := by
  induction fuel generalizing idxByte with
  | zero =>
      simp only [scanByte]
      refine ⟨Nat.le_refl _, hidx, ?_, ?_⟩ <;> omega
  | succ fuel ih =>
      simp only [scanByte]
      by_cases hfull : m.bits idxByte = 255 ∧ idxByte < m.btmpBytesLen
      · obtain ⟨hle, hbound, hpassed, hstop⟩ := ih (idxByte + 1) (by omega) (by omega)
        rw [if_pos hfull]
        refine ⟨by omega, hbound, ?_, hstop⟩
        intro k hk hlt
        by_cases heq : k = idxByte
        · rw [heq]
          exact hfull.1
        · exact hpassed k (by omega) hlt
      · rw [if_neg hfull]
        refine ⟨Nat.le_refl _, hidx, ?_, ?_⟩
        · omega
        · intro hlt hbits
          exact hfull ⟨hbits, hlt⟩

/-- The bits that the second loop passes are set, and the one that it stops at is clear. -/
theorem scan_bit_spec (byte fuel i : Nat)
    (hclear : ∃ k, i ≤ k ∧ k < fuel + i ∧ byte.testBit k = false) :
    i ≤ scanBit byte fuel i ∧ scanBit byte fuel i < fuel + i ∧
      byte.testBit (scanBit byte fuel i) = false ∧
      ∀ k, i ≤ k → k < scanBit byte fuel i → byte.testBit k = true := by
  induction fuel generalizing i with
  | zero =>
      obtain ⟨k, hk, hlt, -⟩ := hclear
      omega
  | succ fuel ih =>
      simp only [scanBit]
      have hmask : 1 <<< i &&& byte ≠ 0 ↔ byte.testBit i = true := by
        rw [Nat.and_comm]
        exact and_mask_ne_zero byte i
      by_cases hset : byte.testBit i = true
      · rw [if_pos (hmask.mpr hset)]
        obtain ⟨k, hk, hlt, hbit⟩ := hclear
        have hne : k ≠ i := by
          rintro rfl
          rw [hset] at hbit
          cases hbit
        obtain ⟨hle, hbound, hstop, hpassed⟩ := ih (i + 1) ⟨k, by omega, by omega, hbit⟩
        refine ⟨by omega, by omega, hstop, ?_⟩
        intro j hj hlt'
        by_cases heq : j = i
        · rw [heq]
          exact hset
        · exact hpassed j (by omega) hlt'
      · rw [if_neg (fun hne => hset (hmask.mp hne))]
        refine ⟨Nat.le_refl _, by omega, by simpa using hset, ?_⟩
        omega

/-- A byte that is not full has a clear bit. -/
theorem exists_clear_bit {byte : Nat} (hbyte : byte < 256) (hne : byte ≠ 255) :
    ∃ k < 8, byte.testBit k = false := by
  by_contra hall
  have hset : ∀ k < 8, byte.testBit k = true := by
    intro k hk
    by_contra hk'
    exact hall ⟨k, hk, by simpa using hk'⟩
  refine hne (Nat.eq_of_testBit_eq fun k => ?_)
  rw [show 255 = 2 ^ 8 - 1 by rfl, Nat.testBit_two_pow_sub_one]
  by_cases hk : k < 8
  · simp [hk, hset k hk]
  · have hle : 2 ^ 8 ≤ 2 ^ k := Nat.pow_le_pow_right (by decide) (by omega)
    have hpow : byte < 2 ^ k := by omega
    simp [hk, Nat.testBit_lt_two_pow hpow]

/-- The search of one clear bit finds the first, or there is none. -/
theorem bitmap_scan_one {m : Bitmap} (h : m.Bytes) :
    (∃ i, bitmapScan m 1 = some i ∧ i < m.btmpBytesLen * 8 ∧ m.bit i = false ∧
      ∀ j < i, m.bit j = true) ∨
    (bitmapScan m 1 = none ∧ ∀ j < m.btmpBytesLen * 8, m.bit j = true) := by
  have hfull : ∀ k, m.bits k = 255 → ∀ j, j / 8 = k → m.bit j = true := by
    rintro k hk j rfl
    have hlt : j % 8 < 8 := Nat.mod_lt _ (by decide)
    rw [Bitmap.bit, hk, show 255 = 2 ^ 8 - 1 by rfl, Nat.testBit_two_pow_sub_one]
    simpa using hlt
  obtain ⟨-, hbound, hpassed, hstop⟩ :=
    scan_byte_spec m m.btmpBytesLen 0 (by omega) (Nat.zero_le _)
  generalize hbyte : scanByte m m.btmpBytesLen 0 = b at *
  by_cases hend : b = m.btmpBytesLen
  · refine .inr ⟨by simp only [bitmapScan, hbyte, if_pos hend], ?_⟩
    intro j hj
    exact hfull (j / 8) (hpassed (j / 8) (Nat.zero_le _) (by omega)) j rfl
  · have hb : b < m.btmpBytesLen := by omega
    obtain ⟨k, hk, hclear⟩ := exists_clear_bit (h b hb) (hstop hb)
    obtain ⟨-, hlt, hbit, hset⟩ :=
      scan_bit_spec (m.bits b) 8 0 ⟨k, Nat.zero_le _, hk, hclear⟩
    generalize hscan : scanBit (m.bits b) 8 0 = c at *
    refine .inl ⟨b * 8 + c, ?_, by omega, ?_, ?_⟩
    · simp only [bitmapScan, hbyte, if_neg hend, if_true, hscan]
    · rw [Bitmap.bit, show (b * 8 + c) / 8 = b by omega, show (b * 8 + c) % 8 = c by omega]
      exact hbit
    · intro j hj
      by_cases hlow : j / 8 < b
      · exact hfull (j / 8) (hpassed (j / 8) (Nat.zero_le _) hlow) j rfl
      · rw [Bitmap.bit, show j / 8 = b by omega]
        exact hset (j % 8) (Nat.zero_le _) (by omega)

/-- The bit at which `BitmapScan` starts to count is clear. -/
theorem bitmap_scan_start {m : Bitmap} (h : m.Bytes)
    (hend : scanByte m m.btmpBytesLen 0 ≠ m.btmpBytesLen) :
    let bitIdxStart := scanByte m m.btmpBytesLen 0 * 8 +
      scanBit (m.bits (scanByte m m.btmpBytesLen 0)) 8 0
    bitIdxStart < m.btmpBytesLen * 8 ∧ m.bit bitIdxStart = false := by
  obtain ⟨-, hbound, -, hstop⟩ := scan_byte_spec m m.btmpBytesLen 0 (by omega) (Nat.zero_le _)
  generalize scanByte m m.btmpBytesLen 0 = b at *
  have hb : b < m.btmpBytesLen := by omega
  obtain ⟨k, hk, hclear⟩ := exists_clear_bit (h b hb) (hstop hb)
  obtain ⟨-, hlt, hbit, -⟩ := scan_bit_spec (m.bits b) 8 0 ⟨k, Nat.zero_le _, hk, hclear⟩
  generalize scanBit (m.bits b) 8 0 = c at *
  refine ⟨by omega, ?_⟩
  rw [Bitmap.bit, show (b * 8 + c) / 8 = b by omega, show (b * 8 + c) % 8 = c by omega]
  exact hbit

/-- The run that the third loop finds is clear. It has counted the bits before `nextBit`. -/
theorem scan_run_spec (m : Bitmap) {cnt bitLeft nextBit count r : Nat} (hcount : count < cnt)
    (hle : count ≤ nextBit) (hclear : ∀ i, nextBit ≤ i + count → i < nextBit → m.bit i = false)
    (h : scanRun m cnt bitLeft nextBit count = some r) :
    r + cnt ≤ nextBit + bitLeft ∧ ∀ i, r ≤ i → i < r + cnt → m.bit i = false := by
  induction bitLeft generalizing nextBit count with
  | zero => simp [scanRun] at h
  | succ bitLeft ih =>
      simp only [scanRun, bitmap_scan_test] at h
      by_cases hbit : m.bit nextBit = true
      · rw [if_pos hbit, if_neg (by omega)] at h
        have hnone : ∀ i, nextBit + 1 ≤ i + 0 → i < nextBit + 1 → m.bit i = false := by
          intro i hi hlt
          omega
        have hpos : 0 < cnt := by omega
        have hrest := ih hpos (Nat.zero_le _) hnone h
        exact ⟨by omega, hrest.2⟩
      · rw [if_neg hbit] at h
        have hcounted : ∀ i, nextBit + 1 ≤ i + (count + 1) → i < nextBit + 1 → m.bit i = false := by
          intro i hi hlt
          by_cases heq : i = nextBit
          · rw [heq]
            simpa using hbit
          · exact hclear i (by omega) (by omega)
        split at h
        · next hfound =>
            have hr : nextBit + 1 - cnt = r := Option.some.inj h
            exact ⟨by omega, fun i hi hlt => hcounted i (by omega) (by omega)⟩
        · next hmore =>
            have hrest := ih (by omega) (by omega) hcounted h
            exact ⟨by omega, hrest.2⟩

/-- A run of clear bits that `BitmapScan` finds. Its last bit can lie one past the bitmap. -/
theorem bitmap_scan_many {m : Bitmap} (h : m.Bytes) {cnt r : Nat} (hcnt : 2 ≤ cnt)
    (hscan : bitmapScan m cnt = some r) :
    r + cnt ≤ m.btmpBytesLen * 8 + 1 ∧ ∀ i, r ≤ i → i < r + cnt → m.bit i = false := by
  simp only [bitmapScan] at hscan
  split at hscan
  · cases hscan
  next hend =>
    rw [if_neg (by omega)] at hscan
    obtain ⟨hlt, hbit⟩ := bitmap_scan_start h hend
    generalize scanByte m m.btmpBytesLen 0 * 8 +
      scanBit (m.bits (scanByte m m.btmpBytesLen 0)) 8 0 = start at *
    have hfirst : ∀ i, start + 1 ≤ i + 1 → i < start + 1 → m.bit i = false := by
      intro i hi hlt'
      rw [show i = start by omega]
      exact hbit
    obtain ⟨hend', hclear⟩ := scan_run_spec m (by omega) (by omega) hfirst hscan
    exact ⟨by omega, hclear⟩

/-! ## Ranges -/

/-- A loop of `BitmapSet` over consecutive bits. -/
def bitmapSetRange (m : Bitmap) (value : Bool) : Nat → Nat → Bitmap
  | _, 0 => m
  | idx, n + 1 => bitmapSetRange (bitmapSet m idx value) value (idx + 1) n

@[simp] theorem bitmap_set_range_len (m : Bitmap) (value : Bool) (idx n : Nat) :
    (bitmapSetRange m value idx n).btmpBytesLen = m.btmpBytesLen := by
  induction n generalizing m idx with
  | zero => rfl
  | succ n ih => exact ih _ _

theorem bit_bitmap_set_range (m : Bitmap) (value : Bool) (idx n j : Nat) :
    (bitmapSetRange m value idx n).bit j = if idx ≤ j ∧ j < idx + n then value else m.bit j := by
  induction n generalizing m idx with
  | zero => rw [bitmapSetRange, if_neg (by omega)]
  | succ n ih =>
      rw [bitmapSetRange, ih, bit_bitmap_set]
      by_cases heq : j = idx
      · simp [heq]
      · by_cases hin : idx + 1 ≤ j ∧ j < idx + 1 + n
        · rw [if_pos hin, if_pos (by omega)]
        · rw [if_neg hin, if_neg heq, if_neg (by omega)]

theorem Bitmap.Bytes.setRange {m : Bitmap} (h : m.Bytes) (value : Bool) (idx n : Nat) :
    (bitmapSetRange m value idx n).Bytes := by
  induction n generalizing m idx with
  | zero => exact h
  | succ n ih =>
      refine ih ?_ _
      by_cases hidx : idx < m.btmpBytesLen * 8
      · exact h.set hidx value
      · intro k hk
        have hk' : k < m.btmpBytesLen := hk
        simp only [bitmapSet]
        rw [Function.update_of_ne (by omega)]
        exact h k hk

/-! ## Counting -/

/-- An update past the first `n` bits does not change their number. -/
theorem used_bitmap_set_of_le (m : Bitmap) {n i : Nat} (hi : n ≤ i) (value : Bool) :
    (bitmapSet m i value).used n = m.used n := by
  simp only [Bitmap.used, Nat.count_eq_card_filter_range]
  congr 1
  refine Finset.filter_congr ?_
  intro j hj
  have hlt : j < n := Finset.mem_range.mp hj
  rw [bit_bitmap_set, if_neg (by omega)]

/-- An update changes the number of set bits by the difference of the old and the new bit. -/
theorem used_bitmap_set (m : Bitmap) {n i : Nat} (hi : i < n) (value : Bool) :
    (bitmapSet m i value).used n + (m.bit i).toNat = m.used n + value.toNat := by
  induction n with
  | zero => omega
  | succ n ih =>
      simp only [Bitmap.used, Nat.count_succ, bit_bitmap_set]
      by_cases hin : i = n
      · subst hin
        have hsame : (bitmapSet m i value).used i = m.used i :=
          used_bitmap_set_of_le m (Nat.le_refl _) value
        simp only [Bitmap.used, bit_bitmap_set] at hsame
        rw [hsame]
        cases value <;> cases m.bit i <;> simp
      · have hrest := ih (by omega)
        simp only [Bitmap.used, bit_bitmap_set] at hrest
        rw [if_neg (Ne.symm hin)]
        omega

/-- Fewer set bits than bits leave a clear one. -/
theorem exists_clear_of_used_lt {m : Bitmap} {n : Nat} (h : m.used n < n) :
    ∃ i < n, m.bit i = false := by
  by_contra hall
  refine absurd (Nat.count_iff_forall.mpr ?_) (Nat.ne_of_lt h)
  intro i hi
  by_contra hclear
  exact hall ⟨i, hi, by simpa using hclear⟩

/-- No set bit is counted exactly when all bits are clear. -/
theorem used_eq_zero {m : Bitmap} {n : Nat} : m.used n = 0 ↔ ∀ i < n, m.bit i = false := by
  simp [Bitmap.used, Nat.count_iff_forall_not]

end XBook
