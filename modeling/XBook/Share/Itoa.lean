import Mathlib.Data.Int.Init
import Mathlib.Tactic.IntervalCases

/-!
# Numbers as text

`itoa` and `itoa16_align` of `share/string.c`. Each comes with the text that it should write, and
`itoa_eq` and `itoa16_align_eq` say where it does: `itoa` for the numbers that are not negative.
-/

namespace XBook.Printf

/-- `itoa`, which puts the characters one behind the other. Its fuel is more than the digits. -/
def itoaLoop : Nat → Int → Int → List UInt8
  | 0, _, _ => []
  | fuel + 1, val, base =>
      let m := val.tmod base
      let q := val.tdiv base
      (if q ≠ 0 then itoaLoop fuel q base else []) ++
        [UInt8.ofInt (if m < 10 then m + 48 else m - 10 + 65)]

/-- `itoa`. -/
def itoa (val base : Int) : List UInt8 := itoaLoop (val.natAbs + 1) val base

/-- The character for four bits of `itoa16_align`. -/
def itoa16Char (num : BitVec 32) (i : Nat) : UInt8 :=
  let ch := UInt8.ofBitVec ((num.sshiftRight i &&& 0xF#32).setWidth 8) + 48
  if ch > 57 then ch + 7 else ch

/-- `itoa16_align`, with the terminator. -/
def itoa16Align (num : BitVec 32) : List UInt8 :=
  (if num = 0#32 then [48] else [28, 24, 20, 16, 12, 8, 4, 0].map (itoa16Char num)) ++ [0]

/-- The decimal digits of a number. -/
def digits (n : Nat) : List UInt8 := (Nat.toDigits 10 n).map Char.toUInt8

/-- The decimal form of a number. -/
def decimal (v : Int) : List UInt8 := if v < 0 then 45 :: digits v.natAbs else digits v.natAbs

/-- The upper-case character of a hexadecimal digit. -/
def hexDigit (d : Nat) : UInt8 := (Nat.digitChar d).toUpper.toUInt8

/-- `0`, or eight hexadecimal digits. -/
def hexadecimal (num : BitVec 32) : List UInt8 :=
  if num = 0#32 then [48]
  else [7, 6, 5, 4, 3, 2, 1, 0].map fun i => hexDigit (num.toNat / 16 ^ i % 16)

theorem digit_char {d : Nat} (h : d < 10) : (Nat.digitChar d).toUInt8 = UInt8.ofNat (d + 48) := by
  revert d
  decide

theorem of_int_digit (d : Nat) : UInt8.ofInt ((d : Int) + 48) = UInt8.ofNat (d + 48) := by
  rw [UInt8.ofInt]
  apply UInt8.toNat_inj.mp
  rw [UInt8.toNat_ofNat', UInt8.toNat_ofNat']
  omega

theorem itoa_loop_eq {n fuel : Nat} (h : n < fuel) : itoaLoop fuel n 10 = digits n := by
  induction fuel generalizing n with
  | zero => exact absurd h (Nat.not_lt_zero n)
  | succ fuel ih =>
      have hdigit : n % 10 < 10 := Nat.mod_lt n (by decide)
      have hlast : UInt8.ofInt (if ((n : Int).tmod 10) < 10 then (n : Int).tmod 10 + 48
          else (n : Int).tmod 10 - 10 + 65) = (Nat.digitChar (n % 10)).toUInt8 := by
        have hmod : (n : Int).tmod 10 = ((n % 10 : Nat) : Int) := rfl
        rw [hmod, if_pos (by omega), digit_char hdigit, of_int_digit]
      have hquot : (n : Int).tdiv 10 = ((n / 10 : Nat) : Int) := rfl
      rw [itoaLoop, hlast, hquot, digits, Nat.toDigits_eq_if (by decide)]
      by_cases hsmall : n < 10
      · rw [if_pos hsmall, if_neg (by omega), Nat.mod_eq_of_lt hsmall]
        rfl
      · rw [if_neg hsmall, if_pos (by omega), ih (by omega), List.map_append]
        rfl

/-- `itoa` writes the decimal digits. -/
theorem itoa_eq (n : Nat) : itoa n 10 = digits n := itoa_loop_eq (Nat.lt_succ_self n)

/-- No digit is 0. -/
theorem digits_ne_zero (n : Nat) : 0 ∉ digits n := by
  rw [digits, List.mem_map]
  rintro ⟨c, hc, hzero⟩
  have hdigit := Nat.isDigit_of_mem_toDigits (by decide) (by decide) hc
  rw [Char.isDigit_iff_toNat] at hdigit
  have hbyte : c.toUInt8.toNat = c.toNat % 256 := rfl
  have hfirst : ('0').toNat = 48 := rfl
  have hlast : ('9').toNat = 57 := rfl
  have hnul : (0 : UInt8).toNat = 0 := rfl
  rw [hzero, hnul] at hbyte
  omega

/-- The four bits, which the sign does not come to. -/
theorem four_bits (num : BitVec 32) {i : Nat} (h : i ≤ 28) :
    (num.sshiftRight i &&& 0xF#32).toNat = num.toNat / 2 ^ i % 16 := by
  have hmask : ∀ j, (0xF#32).getLsbD j = decide (j < 4) := by
    intro j
    rw [BitVec.getLsbD_ofNat]
    show (decide (j < 32) && (2 ^ 4 - 1).testBit j) = _
    rw [Nat.testBit_two_pow_sub_one, ← Bool.decide_and]
    exact decide_eq_decide.mpr (by omega)
  have hlogical : num.sshiftRight i &&& 0xF#32 = num >>> i &&& 0xF#32 := by
    apply BitVec.eq_of_getLsbD_eq
    intro j hj
    rw [BitVec.getLsbD_and, BitVec.getLsbD_and, hmask, BitVec.getLsbD_sshiftRight,
      BitVec.getLsbD_ushiftRight]
    by_cases hlow : j < 4
    · rw [if_pos (by omega), decide_eq_false (Nat.not_le.mpr hj)]
      rfl
    · simp [hlow]
  rw [hlogical, BitVec.toNat_and, BitVec.toNat_ushiftRight, Nat.shiftRight_eq_div_pow]
  exact Nat.and_two_pow_sub_one_eq_mod _ 4

theorem itoa16_char_eq (num : BitVec 32) {i : Nat} (h : i ≤ 28) :
    itoa16Char num i = hexDigit (num.toNat / 2 ^ i % 16) := by
  have hbits := four_bits num h
  have hall : ∀ d < 16,
      (if UInt8.ofBitVec ((BitVec.ofNat 32 d).setWidth 8) + 48 > 57 then
        UInt8.ofBitVec ((BitVec.ofNat 32 d).setWidth 8) + 48 + 7
      else UInt8.ofBitVec ((BitVec.ofNat 32 d).setWidth 8) + 48) = hexDigit d := by
    decide
  have hd := hall (num.toNat / 2 ^ i % 16) (Nat.mod_lt _ (by decide))
  rw [← hbits, BitVec.ofNat_toNat, BitVec.setWidth_eq] at hd
  rw [← hbits]
  exact hd

/-- `itoa16_align` writes the hexadecimal digits and the terminator. -/
theorem itoa16_align_eq (num : BitVec 32) : itoa16Align num = hexadecimal num ++ [0] := by
  rw [itoa16Align, hexadecimal]
  split
  · rfl
  · have hplaces : [28, 24, 20, 16, 12, 8, 4, 0] = [7, 6, 5, 4, 3, 2, 1, 0].map (4 * ·) := rfl
    rw [hplaces, List.map_map]
    refine congrArg (· ++ [0]) (List.map_congr_left fun i hi => ?_)
    have hle : 4 * i ≤ 28 := by
      revert i
      decide
    rw [Function.comp_apply, itoa16_char_eq num hle, Nat.pow_mul]

end XBook.Printf
