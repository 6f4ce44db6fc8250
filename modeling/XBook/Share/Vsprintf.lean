import Mathlib.Data.List.TakeWhile
import XBook.Share.Itoa

/-!
# `vsprintf`

`vsprintf` of `share/vsprintf.c` with the bytes that its conversions store in `inner_buf`. The
formats are made of items, and `vsprintf_iff` says with which values of the items the text is the
one that they stand for and `inner_buf` is not left.
-/

namespace XBook.Printf

/-- `STR_DEFAULT_LEN`. -/
abbrev strDefaultLen : Nat := 256

/-- The four bytes of an argument, or the string that they point to. -/
inductive Arg where
  | word (w : BitVec 32)
  | string (s : List UInt8)

/-- An argument that is taken as a number. -/
def takeWord : List Arg → Option (BitVec 32 × List Arg)
  | .word w :: args => some (w, args)
  | _ => none

/-- An argument that is taken as a string. -/
def takeString : List Arg → Option (List UInt8 × List Arg)
  | .string s :: args => some (s, args)
  | _ => none

/-- What `%c` stores. -/
def byteOf (w : BitVec 32) : UInt8 := UInt8.ofBitVec (w.setWidth 8)

/-- What `%d` stores. -/
def itoaSigned (w : BitVec 32) : List UInt8 :=
  let m := w.toInt
  if m < 0 then 45 :: itoa (Int.bmod (m * -1) (2 ^ 32)) 10 else itoa m 10

/-- The `switch` over the letter of a conversion: what is stored in `inner_buf`, and the arguments
that are left. -/
def convert (letter : UInt8) (args : List Arg) : Option (List UInt8 × List Arg) :=
  if letter = 99 then (takeWord args).map fun p => ([byteOf p.1], p.2)
  else if letter = 120 then (takeWord args).map fun p => (itoa16Align p.1, p.2)
  else if letter = 100 then (takeWord args).map fun p => (itoaSigned p.1, p.2)
  else if letter = 115 then (takeString args).map fun p => (p.1 ++ [0], p.2)
  else some ([], args)

/-- What has been stored in `buf`, and how many bytes each conversion has stored in `inner_buf`. -/
structure Printed where
  text : List UInt8
  inner : List Nat

/-- A character of the format. -/
def Printed.put (out : Printed) (c : UInt8) : Printed := ⟨out.text ++ [c], out.inner⟩

/-- A conversion: its string, which begins `inner_buf`, behind the characters that align it. -/
def Printed.conversion (out : Printed) (cs : UInt8) (alignNr : UInt32) (written : List UInt8) :
    Printed :=
  let str := written.takeWhile (· ≠ 0)
  let len := UInt32.ofNat str.length
  let count := if alignNr > len then alignNr - len else 0
  ⟨out.text ++ (List.replicate count.toNat cs ++ str), written.length :: out.inner⟩

/-- The test of the loop over the width. -/
def isDigit (c : UInt8) : Bool := 48 ≤ c ∧ c ≤ 57

/-- The loop over the width, of which the digits behind the 32nd bit are lost. -/
def alignNr (digits : List UInt8) : UInt32 :=
  digits.foldl (fun n c => n * 10 + (c.toUInt32 - 48)) 0

/-- The loop over the format, whose characters are those before the terminator. -/
def vsprintfLoop : Nat → List UInt8 → List Arg → Printed → Option Printed
  | 0, _, _, _ => none
  | _ + 1, [], _, out => some out
  | fuel + 1, c :: fmt, args, out =>
      if c ≠ 37 then vsprintfLoop fuel fmt args (out.put c)
      else if fmt.head? = some 37 then vsprintfLoop fuel fmt.tail args (out.put 37)
      else
        let cs : UInt8 := if fmt.head? = some 48 then 48 else 32
        let width := if fmt.head? = some 48 then fmt.tail else fmt
        match width.dropWhile isDigit with
        | [] => none
        | letter :: fmt =>
            (convert letter args).bind fun p =>
              vsprintfLoop fuel fmt p.2
                (out.conversion cs (alignNr (width.takeWhile isDigit)) p.1)

/-- `vsprintf`: what it has stored, and what it returns. -/
def vsprintf (fmt : List UInt8) (args : List Arg) : Option (Printed × Int) :=
  (vsprintfLoop (fmt.length + 1) fmt args ⟨[], []⟩).map fun out =>
    (out.put 0, Int.bmod out.text.length (2 ^ 32))

/-! ## Formats -/

/-- The value of a conversion. -/
inductive Value where
  | char (w : BitVec 32) (h : byteOf w ≠ 0)
  | dec (w : BitVec 32)
  | hex (w : BitVec 32)
  | str (s : List UInt8) (h : 0 ∉ s)

namespace Value

/-- The letter of its conversion. -/
def letter : Value → UInt8
  | char _ _ => 99
  | dec _ => 100
  | hex _ => 120
  | str _ _ => 115

/-- The argument for it. -/
def arg : Value → Arg
  | char w _ => .word w
  | dec w => .word w
  | hex w => .word w
  | str s _ => .string s

/-- The text that it stands for. -/
def text : Value → List UInt8
  | char w _ => [byteOf w]
  | dec w => decimal w.toInt
  | hex w => hexadecimal w
  | str s _ => s

/-- What its conversion stores in `inner_buf`. -/
def written : Value → List UInt8
  | char w _ => [byteOf w]
  | dec w => itoaSigned w
  | hex w => itoa16Align w
  | str s _ => s ++ [0]

/-- A string fits into `inner_buf`, and a number is not the smallest one. -/
def Safe : Value → Prop
  | char _ _ => True
  | dec w => w ≠ BitVec.intMin 32
  | hex _ => True
  | str s _ => s.length < strDefaultLen

end Value

/-- A conversion. Without the flag, its width cannot begin with a 0. -/
structure Conversion where
  zero : Bool
  width : List (Fin 10)
  plain : zero = false → ∀ d ∈ width.head?, d.val ≠ 0
  value : Value

/-- The parts of a format. -/
inductive Item where
  | literal (c : UInt8) (h : c ≠ 37 ∧ c ≠ 0)
  | percent
  | conversion (c : Conversion)

namespace Conversion

variable (c : Conversion)

/-- The characters of the width. -/
def widthChars : List UInt8 := c.width.map fun d => UInt8.ofNat (48 + d.val)

def format : List UInt8 :=
  37 :: ((if c.zero then [48] else []) ++ (c.widthChars ++ [c.value.letter]))

/-- The character that aligns. -/
def fill : UInt8 := if c.zero then 48 else 32

/-- The width. -/
def minimum : Nat := c.width.foldl (fun n d => n * 10 + d.val) 0

/-- The text that the conversion stands for. -/
def text : List UInt8 :=
  List.replicate (c.minimum - c.value.text.length) c.fill ++ c.value.text

end Conversion

namespace Item

/-- The characters in the format. -/
def format : Item → List UInt8
  | literal c _ => [c]
  | percent => [37, 37]
  | conversion c => c.format

/-- The arguments. -/
def args : Item → List Arg
  | literal _ _ => []
  | percent => []
  | conversion c => [c.value.arg]

/-- The text that the item stands for. -/
def text : Item → List UInt8
  | literal c _ => [c]
  | percent => [37]
  | conversion c => c.text

/-- Its value is one that `vsprintf` can take. -/
def Safe : Item → Prop
  | literal _ _ => True
  | percent => True
  | conversion c => c.value.Safe

end Item

/-- The text is the one that the items stand for, with a terminator, the result its length, and no
conversion leaves `inner_buf`. -/
def VsprintfRight (items : List Item) : Prop :=
  ∃ out value, vsprintf (items.flatMap Item.format) (items.flatMap Item.args) = some (out, value) ∧
    out.text = items.flatMap Item.text ++ [0] ∧ value = (items.flatMap Item.text).length ∧
    ∀ n ∈ out.inner, n ≤ strDefaultLen

/-! ## Parsing a conversion -/

/-- The character of a digit. -/
theorem digit_bounds (d : Fin 10) :
    isDigit (UInt8.ofNat (48 + d.val)) = true ∧ (UInt8.ofNat (48 + d.val)).toUInt32 - 48 =
      UInt32.ofNat d.val ∧ UInt8.ofNat (48 + d.val) ≠ 37 ∧
        (UInt8.ofNat (48 + d.val) = 48 → d.val = 0) := by
  revert d
  decide

theorem letter_bounds (v : Value) :
    isDigit v.letter = false ∧ v.letter ≠ 37 ∧ v.letter ≠ 48 := by
  have hletter : v.letter ∈ ([99, 100, 120, 115] : List UInt8) := by
    cases v <;> simp [Value.letter]
  simp only [List.mem_cons, List.not_mem_nil, or_false] at hletter
  rcases hletter with hletter | hletter | hletter | hletter <;> rw [hletter] <;> decide

namespace Conversion

variable (c : Conversion) (fmt : List UInt8)

theorem take_width :
    (c.widthChars ++ c.value.letter :: fmt).takeWhile isDigit = c.widthChars ∧
      (c.widthChars ++ c.value.letter :: fmt).dropWhile isDigit = c.value.letter :: fmt := by
  have hdigits : ∀ d ∈ c.widthChars, isDigit d = true := by
    rw [widthChars, List.forall_mem_map]
    exact fun d _ => (digit_bounds d).1
  have hletter : ¬isDigit c.value.letter = true := by
    rw [(letter_bounds c.value).1]
    exact Bool.false_ne_true
  rw [List.takeWhile_append_of_pos hdigits, List.dropWhile_append_of_pos hdigits,
    List.takeWhile_cons_of_neg hletter, List.dropWhile_cons_of_neg hletter, List.append_nil]
  exact ⟨rfl, rfl⟩

/-- What comes behind a conversion without the flag does not look like one. -/
theorem head_width (h : c.zero = false) :
    (c.widthChars ++ c.value.letter :: fmt).head? ≠ some 48 := by
  have hplain := c.plain h
  rw [widthChars]
  cases hwidth : c.width with
  | nil => exact fun heq => (letter_bounds c.value).2.2 (Option.some.inj heq)
  | cons d width =>
      rw [hwidth] at hplain
      exact fun heq => hplain d rfl ((digit_bounds d).2.2.2 (Option.some.inj heq))

theorem head_ne_percent : (c.widthChars ++ c.value.letter :: fmt).head? ≠ some 37 := by
  rw [widthChars]
  cases c.width with
  | nil => exact fun heq => (letter_bounds c.value).2.1 (Option.some.inj heq)
  | cons d width => exact fun heq => (digit_bounds d).2.2.1 (Option.some.inj heq)

end Conversion

theorem convert_value (v : Value) (args : List Arg) :
    convert v.letter (v.arg :: args) = some (v.written, args) := by
  cases v <;> rfl

/-- A conversion of the format is carried out. -/
theorem vsprintf_loop_conversion (c : Conversion) (fuel : Nat) (fmt : List UInt8)
    (args : List Arg) (out : Printed) :
    vsprintfLoop (fuel + 1) (c.format ++ fmt) (c.value.arg :: args) out =
      vsprintfLoop fuel fmt args
        (out.conversion c.fill (alignNr c.widthChars) c.value.written) := by
  obtain ⟨htake, hdrop⟩ := c.take_width fmt
  have hwritten := convert_value c.value args
  cases hzero : c.zero with
  | false =>
      have hformat : c.format ++ fmt = 37 :: (c.widthChars ++ c.value.letter :: fmt) := by
        rw [Conversion.format, hzero, List.cons_append, if_neg Bool.false_ne_true, List.nil_append,
          List.append_assoc, List.singleton_append]
      rw [hformat, vsprintfLoop, if_neg (not_not.mpr rfl), if_neg (c.head_ne_percent fmt)]
      dsimp only
      rw [if_neg (c.head_width fmt hzero), if_neg (c.head_width fmt hzero), htake, hdrop]
      dsimp only
      rw [hwritten, Option.bind_some, Conversion.fill, hzero, if_neg Bool.false_ne_true]
  | true =>
      have hformat : c.format ++ fmt = 37 :: 48 :: (c.widthChars ++ c.value.letter :: fmt) := by
        rw [Conversion.format, hzero, List.cons_append, if_pos rfl, List.append_assoc,
          List.append_assoc, List.singleton_append, List.singleton_append]
      rw [hformat, vsprintfLoop, if_neg (not_not.mpr rfl), List.head?_cons, if_neg (by decide)]
      dsimp only
      rw [if_pos rfl, if_pos rfl, List.tail_cons, htake, hdrop]
      dsimp only
      rw [hwritten, Option.bind_some, Conversion.fill, hzero, if_pos rfl]

/-! ## All items -/

/-- The string that a conversion finds in `inner_buf`. -/
def Value.shown (v : Value) : List UInt8 := v.written.takeWhile (· ≠ 0)

/-- The text that a conversion stores. -/
def Conversion.shown (c : Conversion) : List UInt8 :=
  List.replicate (if alignNr c.widthChars > UInt32.ofNat c.value.shown.length then
    alignNr c.widthChars - UInt32.ofNat c.value.shown.length else 0).toNat c.fill ++ c.value.shown

namespace Item

/-- The text that an item stores. -/
def shown : Item → List UInt8
  | literal c _ => [c]
  | percent => [37]
  | conversion c => c.shown

/-- How many bytes an item stores in `inner_buf`. -/
def stored : Item → List Nat
  | literal _ _ => []
  | percent => []
  | conversion c => [c.value.written.length]

theorem format_pos (item : Item) : 0 < item.format.length := by
  cases item <;> exact Nat.succ_pos _

end Item

/-- One item. -/
theorem vsprintf_loop_item (item : Item) (fuel : Nat) (fmt : List UInt8) (args : List Arg)
    (out : Printed) :
    vsprintfLoop (fuel + 1) (item.format ++ fmt) (item.args ++ args) out =
      vsprintfLoop fuel fmt args ⟨out.text ++ item.shown, item.stored ++ out.inner⟩ := by
  cases item with
  | literal c h => exact if_pos h.1
  | percent =>
      rw [Item.format, List.cons_append, List.singleton_append, vsprintfLoop,
        if_neg (not_not.mpr rfl), List.head?_cons, if_pos rfl]
      rfl
  | conversion c => exact vsprintf_loop_conversion c fuel fmt args out

theorem vsprintf_loop_items (items : List Item) : ∀ {fuel : Nat} (out : Printed),
    items.length < fuel →
    vsprintfLoop fuel (items.flatMap Item.format) (items.flatMap Item.args) out =
      some ⟨out.text ++ items.flatMap Item.shown,
        (items.reverse.flatMap Item.stored) ++ out.inner⟩ := by
  induction items with
  | nil =>
      intro fuel out hfuel
      cases fuel with
      | zero => cases hfuel
      | succ fuel =>
          rw [List.flatMap_nil, List.flatMap_nil, vsprintfLoop, List.flatMap_nil, List.append_nil]
          rfl
  | cons item items ih =>
      intro fuel out hfuel
      cases fuel with
      | zero => cases hfuel
      | succ fuel =>
          rw [List.flatMap_cons, List.flatMap_cons, vsprintf_loop_item,
            ih _ (Nat.lt_of_succ_lt_succ hfuel), List.flatMap_cons, List.reverse_cons,
            List.flatMap_append, List.flatMap_singleton, List.append_assoc, List.append_assoc]

theorem length_le_format (items : List Item) :
    items.length ≤ (items.flatMap Item.format).length := by
  induction items with
  | nil => exact Nat.zero_le _
  | cons item items ih =>
      have hpos := item.format_pos
      rw [List.flatMap_cons, List.length_append, List.length_cons]
      omega

/-- What `vsprintf` does with a format. -/
theorem vsprintf_eq (items : List Item) :
    vsprintf (items.flatMap Item.format) (items.flatMap Item.args) =
      some (⟨items.flatMap Item.shown ++ [0], items.reverse.flatMap Item.stored⟩,
        Int.bmod (items.flatMap Item.shown).length (2 ^ 32)) := by
  rw [vsprintf, vsprintf_loop_items items _ (Nat.lt_succ_of_le (length_le_format items)),
    Option.map_some, List.append_nil, List.nil_append]
  rfl

theorem vsprintf_right_iff (items : List Item) :
    VsprintfRight items ↔ items.flatMap Item.shown = items.flatMap Item.text ∧
      (items.flatMap Item.text).length < 2 ^ 31 ∧
      ∀ item ∈ items, ∀ n ∈ item.stored, n ≤ strDefaultLen := by
  have hstored : (∀ n ∈ items.reverse.flatMap Item.stored, n ≤ strDefaultLen) ↔
      ∀ item ∈ items, ∀ n ∈ item.stored, n ≤ strDefaultLen := by
    simp only [List.mem_flatMap, List.mem_reverse]
    exact ⟨fun h item hitem n hn => h n ⟨item, hitem, hn⟩,
      fun h n ⟨item, hitem, hn⟩ => h item hitem n hn⟩
  constructor
  · rintro ⟨out, value, hrun, htext, hvalue, hinner⟩
    rw [vsprintf_eq] at hrun
    cases hrun
    have hshown : items.flatMap Item.shown = items.flatMap Item.text :=
      List.append_cancel_right htext
    refine ⟨hshown, ?_, hstored.mp hinner⟩
    have hlt : Int.bmod (items.flatMap Item.shown).length (2 ^ 32) < 2 ^ 31 :=
      Int.bmod_lt (by decide)
    rw [hvalue] at hlt
    omega
  · rintro ⟨hshown, hshort, hinner⟩
    refine ⟨_, _, vsprintf_eq items, by rw [hshown], ?_, hstored.mpr hinner⟩
    rw [hshown, Int.bmod_eq_of_le] <;> omega

/-! ## One value -/

theorem decimal_ne_zero (v : Int) : 0 ∉ decimal v := by
  rw [decimal]
  split
  · rw [List.mem_cons, not_or]
    exact ⟨by decide, digits_ne_zero _⟩
  · exact digits_ne_zero _

theorem hexadecimal_ne_zero (num : BitVec 32) : 0 ∉ hexadecimal num := by
  have hdigit : ∀ d < 16, hexDigit d ≠ 0 := by decide
  rw [hexadecimal]
  split
  · decide
  · rw [List.mem_map]
    rintro ⟨i, -, hzero⟩
    exact hdigit _ (Nat.mod_lt _ (by decide)) hzero

/-- Every number but the smallest is written in decimal form. -/
theorem itoa_signed_eq {w : BitVec 32} (h : w ≠ BitVec.intMin 32) :
    itoaSigned w = decimal w.toInt := by
  have hmin : w.toInt ≠ -2 ^ 31 := fun heq => h (BitVec.eq_of_toInt_eq heq)
  have hlow := w.le_toInt
  have hhigh := w.toInt_lt
  rw [itoaSigned, decimal]
  split
  · have hpositive : Int.bmod (w.toInt * -1) (2 ^ 32) = (w.toInt.natAbs : Int) := by
      rw [Int.bmod_eq_of_le] <;> omega
    rw [hpositive, itoa_eq]
  · next hnonneg =>
      have hnat : w.toInt = (w.toInt.natAbs : Int) := by omega
      rw [hnat, itoa_eq, Int.natAbs_natCast]

/-- What is written for the smallest number. -/
theorem itoa_signed_min :
    itoaSigned (BitVec.intMin 32) = [45, 46, 47, 44, 41, 44, 40, 45, 42, 44, 40] := by
  decide

theorem take_while_eq {s : List UInt8} (h : 0 ∉ s) : s.takeWhile (· ≠ 0) = s := by
  rw [List.takeWhile_eq_self_iff]
  intro c hc
  simpa using ne_of_mem_of_not_mem hc h

/-- A string with its terminator. -/
theorem take_while_append {s : List UInt8} (h : 0 ∉ s) : (s ++ [0]).takeWhile (· ≠ 0) = s := by
  rw [List.takeWhile_append_of_pos, List.takeWhile_cons_of_neg (by simp), List.append_nil]
  intro c hc
  simpa using ne_of_mem_of_not_mem hc h

theorem digits_length_le {n : Nat} (h : n < 10 ^ 10) : (digits n).length ≤ 10 := by
  rw [digits, List.length_map]
  exact (Nat.length_toDigits_le_iff (by decide) (by decide)).mpr h

theorem decimal_length_le (w : BitVec 32) : (decimal w.toInt).length ≤ 11 := by
  have hlow := w.le_toInt
  have hhigh := w.toInt_lt
  have hdigits : (digits w.toInt.natAbs).length ≤ 10 := digits_length_le (by omega)
  rw [decimal]
  split
  · exact Nat.succ_le_succ hdigits
  · exact Nat.le_succ_of_le hdigits

theorem hexadecimal_length_le (num : BitVec 32) : (hexadecimal num).length ≤ 8 := by
  rw [hexadecimal]
  split
  · decide
  · rw [List.length_map]
    decide

/-- A number is written as it should be, or with other characters in its place. -/
theorem shown_dec (w : BitVec 32) :
    w ≠ BitVec.intMin 32 ∧ (Value.dec w).shown = decimal w.toInt ∨
      w = BitVec.intMin 32 ∧ (Value.dec w).shown ≠ decimal w.toInt ∧
        (Value.dec w).shown.length = (decimal w.toInt).length := by
  by_cases hmin : w = BitVec.intMin 32
  · have hshown : (Value.dec w).shown = [45, 46, 47, 44, 41, 44, 40, 45, 42, 44, 40] := by
      rw [Value.shown, Value.written, hmin, itoa_signed_min]
      rfl
    refine .inr ⟨hmin, ?_, ?_⟩
    · rw [hshown, hmin]
      decide
    · rw [hshown, hmin]
      decide
  · refine .inl ⟨hmin, ?_⟩
    rw [Value.shown, Value.written, itoa_signed_eq hmin, take_while_eq (decimal_ne_zero _)]

theorem shown_hex (w : BitVec 32) : (Value.hex w).shown = hexadecimal w := by
  rw [Value.shown, Value.written, itoa16_align_eq, take_while_append (hexadecimal_ne_zero w)]

theorem shown_char (w : BitVec 32) (h : byteOf w ≠ 0) : (Value.char w h).shown = [byteOf w] :=
  take_while_eq (List.mem_singleton.not.mpr h.symm)

theorem shown_length (v : Value) : v.shown.length = v.text.length := by
  cases v with
  | char w h => rw [shown_char, Value.text]
  | dec w =>
      rcases shown_dec w with ⟨-, hshown⟩ | ⟨-, -, hlength⟩
      · rw [hshown, Value.text]
      · exact hlength
  | hex w => rw [shown_hex, Value.text]
  | str s h => exact congrArg List.length (take_while_append h)

theorem value_safe_iff (v : Value) :
    v.Safe ↔ v.shown = v.text ∧ v.written.length ≤ strDefaultLen := by
  cases v with
  | char w h => exact iff_of_true trivial ⟨shown_char w h, Nat.le_add_left 1 255⟩
  | dec w =>
      rcases shown_dec w with ⟨hmin, hshown⟩ | ⟨hmin, hshown, -⟩
      · refine iff_of_true hmin ⟨hshown, ?_⟩
        rw [Value.written, itoa_signed_eq hmin]
        exact (decimal_length_le w).trans (by decide)
      · exact iff_of_false (not_not.mpr hmin) fun h => hshown h.1
  | hex w =>
      refine iff_of_true trivial ⟨shown_hex w, ?_⟩
      rw [Value.written, itoa16_align_eq, List.length_append]
      exact (Nat.succ_le_succ (hexadecimal_length_le w)).trans (by decide)
  | str s h =>
      rw [Value.written, List.length_append, Value.Safe]
      exact (and_iff_right (take_while_append h)).symm

/-! ## One item -/

theorem align_nr_eq (c : Conversion) : (alignNr c.widthChars).toNat = c.minimum % 2 ^ 32 := by
  have hloop : ∀ (width : List (Fin 10)) (n : UInt32) (m : Nat), n.toNat = m % 2 ^ 32 →
      ((width.map fun d => UInt8.ofNat (48 + d.val)).foldl
        (fun n c => n * 10 + (c.toUInt32 - 48)) n).toNat =
          width.foldl (fun n d => n * 10 + d.val) m % 2 ^ 32 := by
    intro width
    induction width with
    | nil => exact fun n m h => h
    | cons d width ih =>
        intro n m h
        refine ih _ _ ?_
        have hlt := d.isLt
        dsimp only
        rw [(digit_bounds d).2.1, UInt32.toNat_add, UInt32.toNat_mul, h, UInt32.toNat_ofNat']
        show (m % 2 ^ 32 * 10 % 2 ^ 32 + d.val % 2 ^ 32) % 2 ^ 32 = _
        omega
  exact hloop c.width 0 0 rfl

theorem minimum_le (c : Conversion) : c.minimum ≤ c.text.length := by
  rw [Conversion.text, List.length_append, List.length_replicate]
  omega

theorem value_length_le (c : Conversion) : c.value.text.length ≤ c.text.length := by
  rw [Conversion.text, List.length_append]
  omega

/-- The characters that align a text that is not too long. -/
theorem conversion_shown_eq {c : Conversion} (h : c.text.length < 2 ^ 32) :
    c.shown =
      List.replicate (c.minimum - c.value.text.length) c.fill ++ c.value.shown := by
  have halign := align_nr_eq c
  have hminimum := minimum_le c
  have hvalue := value_length_le c
  have hlen : (UInt32.ofNat c.value.shown.length).toNat = c.value.text.length := by
    rw [UInt32.toNat_ofNat', shown_length, Nat.mod_eq_of_lt (by omega)]
  rw [Nat.mod_eq_of_lt (by omega)] at halign
  rw [Conversion.shown]
  congr 2
  split
  · next hgt =>
      have hlt : (UInt32.ofNat c.value.shown.length).toNat < (alignNr c.widthChars).toNat := hgt
      rw [UInt32.toNat_sub_of_le _ _ (UInt32.le_of_lt hgt), halign, hlen]
  · next hle =>
      have hle : (alignNr c.widthChars).toNat ≤ (UInt32.ofNat c.value.shown.length).toNat :=
        Nat.not_lt.mp hle
      rw [halign, hlen] at hle
      exact (Nat.sub_eq_zero_of_le hle).symm

theorem item_shown_length {item : Item} (h : item.text.length < 2 ^ 32) :
    item.shown.length = item.text.length := by
  cases item with
  | literal c hc => rfl
  | percent => rfl
  | conversion c =>
      show c.shown.length = c.text.length
      rw [conversion_shown_eq h, List.length_append, shown_length, Conversion.text,
        List.length_append]

theorem item_safe_iff {item : Item} (h : item.text.length < 2 ^ 32) :
    item.Safe ↔ item.shown = item.text ∧ ∀ n ∈ item.stored, n ≤ strDefaultLen := by
  cases item with
  | literal c hc => exact iff_of_true trivial ⟨rfl, fun n hn => absurd hn List.not_mem_nil⟩
  | percent => exact iff_of_true trivial ⟨rfl, fun n hn => absurd hn List.not_mem_nil⟩
  | conversion c =>
      rw [Item.Safe, value_safe_iff, Item.shown, Item.text, conversion_shown_eq h,
        Conversion.text, List.append_cancel_left_eq, Item.stored, List.forall_mem_singleton]

/-- Texts of the same lengths are equal together where each is. -/
theorem flat_map_eq_iff {α : Type*} {items : List α} {f g : α → List UInt8}
    (h : ∀ item ∈ items, (f item).length = (g item).length) :
    items.flatMap f = items.flatMap g ↔ ∀ item ∈ items, f item = g item := by
  induction items with
  | nil => exact iff_of_true rfl fun item hitem => absurd hitem List.not_mem_nil
  | cons item items ih =>
      obtain ⟨hfirst, hrest⟩ := List.forall_mem_cons.mp h
      rw [List.flatMap_cons, List.flatMap_cons, List.forall_mem_cons, ← ih hrest]
      exact ⟨fun heq => List.append_inj heq hfirst, fun heq => by rw [heq.1, heq.2]⟩

/-- `vsprintf` is right exactly where no number is the smallest `int`, every string fits into
`inner_buf` with its terminator, and the length of the text is an `int`. -/
theorem vsprintf_iff (items : List Item) :
    VsprintfRight items ↔
      (∀ item ∈ items, item.Safe) ∧ (items.flatMap Item.text).length < 2 ^ 31 := by
  rw [vsprintf_right_iff, and_comm (a := ∀ item ∈ items, item.Safe), and_left_comm]
  refine and_congr_right fun hshort => ?_
  have hitems : ∀ item ∈ items, item.text.length < 2 ^ 32 := by
    intro item hitem
    have hpart : item.text.Sublist (items.flatMap Item.text) :=
      List.sublist_flatten_of_mem (List.mem_map_of_mem hitem)
    have hle := hpart.length_le
    omega
  rw [flat_map_eq_iff fun item hitem => item_shown_length (hitems item hitem), ← forall₂_and]
  exact forall₂_congr fun item hitem => (item_safe_iff (hitems item hitem)).symm

/-- The smallest number is written with characters that are no digits. -/
theorem smallest_number_garbled : ¬∀ items : List Item, VsprintfRight items := by
  intro hall
  have hplain : false = false → ∀ d ∈ ([] : List (Fin 10)).head?, d.val ≠ 0 := by
    intro _ d hd
    cases hd
  have hright := (vsprintf_right_iff _).mp
    (hall [.conversion ⟨false, [], hplain, .dec (BitVec.intMin 32)⟩])
  have hdiffer : ∀ h, [Item.conversion ⟨false, [], h, .dec (BitVec.intMin 32)⟩].flatMap
      Item.shown ≠ [Item.conversion ⟨false, [], h, .dec (BitVec.intMin 32)⟩].flatMap
        Item.text := by
    decide
  exact hdiffer hplain hright.1

end XBook.Printf
