import Mathlib.Data.List.Forall2
import Mathlib.Logic.Function.Basic
import XBook.Drivers.Keys

/-!
# The keyboard

`KeyboardDoRead` of `drivers/keyboard.c` over the bytes of its queue. It keeps the right Alt key in
the field of the left one, and behind the first code of PrintScreen it takes bytes that belong to
other codes; `keyboard_right` says that otherwise the flags of each key are those of the modifiers
that are held.
-/

namespace XBook.Keyboard

open Keys

/-- The modifier keys. -/
inductive Modifier where
  | shiftLeft
  | shiftRight
  | ctrlLeft
  | ctrlRight
  | altLeft
  | altRight
  deriving DecidableEq

/-- Which modifiers are down. -/
abbrev Modifiers := Modifier → Bool

/-- `struct KeyboardPrivate`. -/
structure KeyboardPrivate where
  modifiers : Modifiers
  capsLock : Bool
  numLock : Bool
  scrollLock : Bool

/-- `keymap`: for each scan code the keys without and with Shift and the one behind `E0`. The codes
from 0x5E on have none. -/
def keymap : List (List UInt32) :=
  [[0, 0, 0], [esc, esc, 0], ['1'.val, '!'.val, 0], ['2'.val, '@'.val, 0], ['3'.val, '#'.val, 0],
    ['4'.val, '$'.val, 0], ['5'.val, '%'.val, 0], ['6'.val, '^'.val, 0], ['7'.val, '&'.val, 0],
    ['8'.val, '*'.val, 0], ['9'.val, '('.val, 0], ['0'.val, ')'.val, 0], ['-'.val, '_'.val, 0],
    ['='.val, '+'.val, 0], [backspace, backspace, 0], [tab, tab, 0], ['q'.val, 'Q'.val, 0],
    ['w'.val, 'W'.val, 0], ['e'.val, 'E'.val, 0], ['r'.val, 'R'.val, 0], ['t'.val, 'T'.val, 0],
    ['y'.val, 'Y'.val, 0], ['u'.val, 'U'.val, 0], ['i'.val, 'I'.val, 0], ['o'.val, 'O'.val, 0],
    ['p'.val, 'P'.val, 0], ['['.val, 0x7B, 0], [']'.val, 0x7D, 0], [enter, enter, padEnter],
    [ctrlL, ctrlL, ctrlR], ['a'.val, 'A'.val, 0], ['s'.val, 'S'.val, 0], ['d'.val, 'D'.val, 0],
    ['f'.val, 'F'.val, 0], ['g'.val, 'G'.val, 0], ['h'.val, 'H'.val, 0], ['j'.val, 'J'.val, 0],
    ['k'.val, 'K'.val, 0], ['l'.val, 'L'.val, 0], [';'.val, ':'.val, 0], [0x27, 0x22, 0],
    [0x60, '~'.val, 0], [shiftL, shiftL, 0], [0x5C, '|'.val, 0], ['z'.val, 'Z'.val, 0],
    ['x'.val, 'X'.val, 0], ['c'.val, 'C'.val, 0], ['v'.val, 'V'.val, 0], ['b'.val, 'B'.val, 0],
    ['n'.val, 'N'.val, 0], ['m'.val, 'M'.val, 0], [','.val, '<'.val, 0], ['.'.val, '>'.val, 0],
    ['/'.val, '?'.val, padSlash], [shiftR, shiftR, 0], ['*'.val, '*'.val, 0], [altL, altL, altR],
    [' '.val, ' '.val, 0], [capsLock, capsLock, 0], [f 1, f 1, 0], [f 2, f 2, 0], [f 3, f 3, 0],
    [f 4, f 4, 0], [f 5, f 5, 0], [f 6, f 6, 0], [f 7, f 7, 0], [f 8, f 8, 0], [f 9, f 9, 0],
    [f 10, f 10, 0], [numLock, numLock, 0], [scrollLock, scrollLock, 0], [pad 7, '7'.val, home],
    [pad 8, '8'.val, up], [pad 9, '9'.val, pageup], [padMinus, '-'.val, 0], [pad 4, '4'.val, left],
    [pad 5, '5'.val, 0], [pad 6, '6'.val, right], [padPlus, '+'.val, 0], [pad 1, '1'.val, endKey],
    [pad 2, '2'.val, down], [pad 3, '3'.val, pagedown], [pad 0, '0'.val, insert],
    [padDot, '.'.val, delete], [0, 0, 0], [0, 0, 0], [0, 0, 0], [f 11, f 11, 0], [f 12, f 12, 0],
    [0, 0, 0], [0, 0, 0], [0, 0, guiL], [0, 0, guiR], [0, 0, apps]]

/-- An entry of a row. -/
def entry (row column : Nat) : UInt32 := (keymap.getD row []).getD column 0

/-- An entry of the row of a scan code. -/
def keyAt (scanCode : UInt8) (column : Nat) : UInt32 := entry (scanCode &&& 0x7F).toNat column

/-- `GetByteFromBuf` for some bytes that are compared with others, up to the first difference. It
waits where there are no more. -/
def matchBytes : List UInt8 → List UInt8 → Option (Bool × List UInt8)
  | [], input => some (true, input)
  | _ :: _, [] => none
  | b :: bs, c :: input => if c = b then matchBytes bs input else some (false, input)

/-- The `switch` over the modifiers, where the case of the right Alt key has the field of the left
one. -/
def modifierOf (key : UInt32) : Option Modifier :=
  if key = shiftL then some .shiftLeft
  else if key = shiftR then some .shiftRight
  else if key = ctrlL then some .ctrlLeft
  else if key = ctrlR then some .ctrlRight
  else if key = altL then some .altLeft
  else if key = altR then some .altLeft
  else none

/-- A modifier goes down or up. -/
def Modifiers.set (m : Modifiers) (modifier : Option Modifier) (make : Bool) : Modifiers :=
  match modifier with
  | some modifier => Function.update m modifier make
  | none => m

/-- The flags of a key. -/
def Modifiers.flags (m : Modifiers) : UInt32 :=
  (if m .shiftLeft then flagShiftL else 0) ||| (if m .shiftRight then flagShiftR else 0) |||
    (if m .ctrlLeft then flagCtrlL else 0) ||| (if m .ctrlRight then flagCtrlR else 0) |||
    (if m .altLeft then flagAltL else 0) ||| (if m .altRight then flagAltR else 0)

/-- The keys of the number pad that have another meaning without `NumLock`. -/
def padMoves (key : UInt32) : UInt32 :=
  if key = pad 7 then home
  else if key = pad 1 then endKey
  else if key = pad 9 then pageup
  else if key = pad 3 then pagedown
  else if key = pad 0 then insert
  else if key = pad 8 then up
  else if key = pad 2 then down
  else if key = pad 4 then left
  else if key = pad 6 then right
  else if key = padDot then delete
  else key

/-- What becomes of a key of the number pad. -/
def padKey (numLock : Bool) (key : UInt32) : UInt32 :=
  if padSlash ≤ key ∧ key ≤ pad 9 then
    if key = padSlash then '/'.val
    else if key = padStar then '*'.val
    else if key = padMinus then '-'.val
    else if key = padPlus then '+'.val
    else if key = padEnter then enter
    else if numLock ∧ pad 0 ≤ key ∧ key ≤ pad 9 then key - pad 0 + '0'.val
    else if numLock ∧ key = padDot then '.'.val
    else padMoves key
  else key

/-- `KeyboardDoRead` behind the prefixes. -/
def processCode (k : KeyboardPrivate) (codeWithE0 : Bool) (scanCode : UInt8) :
    UInt32 × KeyboardPrivate :=
  let make := decide (scanCode &&& 0x80 = 0)
  let first := keyAt scanCode 0
  let shift := k.modifiers .shiftLeft || k.modifiers .shiftRight
  let caps := if k.capsLock ∧ 'a'.val ≤ first ∧ first ≤ 'z'.val then !shift else shift
  let column := if codeWithE0 then 2 else if caps then 1 else 0
  let key := keyAt scanCode column
  let modifiers := k.modifiers.set (modifierOf key) make
  let k : KeyboardPrivate :=
    ⟨modifiers, k.capsLock ^^ (decide (key = capsLock) && make),
      k.numLock ^^ (decide (key = numLock) && make),
      k.scrollLock ^^ (decide (key = scrollLock) && make)⟩
  let flagOfPad := if padSlash ≤ key ∧ key ≤ pad 9 then flagPad else 0
  (if make then padKey k.numLock key ||| modifiers.flags ||| flagOfPad else keycodeNone, k)

/-- `KeyboardDoRead`, unless it waits for a byte. -/
def keyboardDoRead (k : KeyboardPrivate) : List UInt8 →
    Option (UInt32 × KeyboardPrivate × List UInt8)
  | [] => none
  | scanCode :: input =>
      if scanCode = 0xE1 then
        (matchBytes [0x1D, 0x45, 0xE1, 0x9D, 0xC5] input).map fun read =>
          if read.1 then (keycodeNone, k, read.2)
          else ((processCode k false scanCode).1, (processCode k false scanCode).2, read.2)
      else if scanCode = 0xE0 then
        match input with
        | [] => none
        | scanCode :: input =>
            (if scanCode = 0x2A then matchBytes [0xE0, 0x37] input
            else if scanCode = 0xB7 then matchBytes [0xE0, 0xAA] input
            else some (false, input)).map fun read =>
              if read.1 then (keycodeNone, k, read.2)
              else ((processCode k true scanCode).1, (processCode k true scanCode).2, read.2)
      else some ((processCode k false scanCode).1, (processCode k false scanCode).2, input)

/-- The results of calls, for as long as none waits. -/
def keyboardRun : Nat → KeyboardPrivate → List UInt8 → List UInt32
  | 0, _, _ => []
  | fuel + 1, k, input =>
      match keyboardDoRead k input with
      | none => []
      | some read => read.1 :: keyboardRun fuel read.2.1 read.2.2

/-! ## What should happen -/

/-- A make or break code, with or without `E0`, or the code of Pause. The two codes whose break
would be a prefix are not in use. -/
inductive ScanCode where
  | key (e0 : Bool) (code : Fin 128) (make : Bool)
      (h : e0 = false → code.val ≠ 0x60 ∧ code.val ≠ 0x61)
  | pause
  deriving DecidableEq

/-- The last byte of a make or break code. -/
def codeByte (code : Fin 128) (make : Bool) : UInt8 :=
  UInt8.ofNat (if make then code.val else code.val + 0x80)

namespace ScanCode

/-- The bytes of a code. -/
def bytes : ScanCode → List UInt8
  | key e0 code make _ => (if e0 then [0xE0] else []) ++ [codeByte code make]
  | pause => [0xE1, 0x1D, 0x45, 0xE1, 0x9D, 0xC5]

/-- The modifier that a code is of. -/
def modifier : ScanCode → Option Modifier
  | key false code _ _ =>
      if code.val = 0x2A then some .shiftLeft
      else if code.val = 0x36 then some .shiftRight
      else if code.val = 0x1D then some .ctrlLeft
      else if code.val = 0x38 then some .altLeft
      else none
  | key true code _ _ =>
      if code.val = 0x1D then some .ctrlRight
      else if code.val = 0x38 then some .altRight
      else none
  | pause => none

/-- Which modifiers are held behind a code. -/
def held (m : Modifiers) : ScanCode → Modifiers
  | key e0 code make h => m.set (key e0 code make h).modifier make
  | pause => m

/-- The flags that the key of a make code should have. -/
def attached (m : Modifiers) : ScanCode → Option UInt32
  | key e0 code make h => if make then some ((key e0 code make h).held m).flags else none
  | pause => none

/-- The code has a prefix, and is the make or break code of a number. -/
def IsExtended (number : Nat) (make : Bool) : ScanCode → Prop
  | key e0 code make' _ => e0 = true ∧ code.val = number ∧ make' = make
  | pause => False

instance (number : Nat) (make : Bool) (c : ScanCode) : Decidable (c.IsExtended number make) :=
  match c with
  | key e0 code make' _ =>
      inferInstanceAs (Decidable (e0 = true ∧ code.val = number ∧ make' = make))
  | pause => inferInstanceAs (Decidable False)

end ScanCode

/-- The two codes of PrintScreen, which are one key. -/
def PrintScreen (a b : ScanCode) : Prop :=
  a.IsExtended 0x2A true ∧ b.IsExtended 0x37 true ∨
    a.IsExtended 0x37 false ∧ b.IsExtended 0x2A false

instance (a b : ScanCode) : Decidable (PrintScreen a b) :=
  inferInstanceAs (Decidable (_ ∨ _))

/-- The flags that the results of calls should have, where PrintScreen, Pause and break codes give
no key. -/
def expected (m : Modifiers) : List ScanCode → List (Option UInt32)
  | [] => []
  | [a] => [a.attached m]
  | a :: b :: rest =>
      if PrintScreen a b then none :: expected m rest
      else a.attached m :: expected (a.held m) (b :: rest)

/-- All flags of modifiers. -/
abbrev modifierFlags : UInt32 := 0x7E00

/-- A result is a key with the flags, or no key. -/
def Attached (key : UInt32) : Option UInt32 → Prop
  | some flags => key &&& modifierFlags = flags
  | none => key = keycodeNone

instance (key : UInt32) (flags : Option UInt32) : Decidable (Attached key flags) :=
  match flags with
  | some flags => inferInstanceAs (Decidable (key &&& modifierFlags = flags))
  | none => inferInstanceAs (Decidable (key = keycodeNone))

/-- The results of the calls for some codes are as they should be. -/
def KeyboardRight (k : KeyboardPrivate) (codes : List ScanCode) : Prop :=
  List.Forall₂ Attached
    (keyboardRun ((codes.flatMap ScanCode.bytes).length + 1) k (codes.flatMap ScanCode.bytes))
    (expected k.modifiers codes)

/-- Neither a code of the right Alt key nor the first one of PrintScreen. -/
def ScanCode.Plain (c : ScanCode) : Prop :=
  c.modifier ≠ some .altRight ∧ ¬c.IsExtended 0x2A true ∧ ¬c.IsExtended 0x37 false

instance (c : ScanCode) : Decidable c.Plain := inferInstanceAs (Decidable (_ ∧ _ ∧ _))

/-- No code is of the right Alt key, and the codes of PrintScreen come together. -/
def Taken : List ScanCode → Prop
  | [] => True
  | [a] => a.Plain
  | a :: b :: rest => if PrintScreen a b then Taken rest else a.Plain ∧ Taken (b :: rest)

instance decidableTaken : (codes : List ScanCode) → Decidable (Taken codes)
  | [] => inferInstanceAs (Decidable True)
  | [a] => inferInstanceAs (Decidable a.Plain)
  | a :: b :: rest =>
      have := decidableTaken rest
      have := decidableTaken (b :: rest)
      inferInstanceAs (Decidable (if PrintScreen a b then _ else _ ∧ _))

/-! ## The tables -/

theorem code_byte : ∀ (code : Fin 128) (make : Bool),
    (codeByte code make &&& 0x7F).toNat = code.val ∧
      decide (codeByte code make &&& 0x80 = 0) = make := by
  decide +kernel

/-- A code without a prefix does not begin with one. -/
theorem code_no_prefix : ∀ (code : Fin 128) (make : Bool), code.val ≠ 0x60 ∧ code.val ≠ 0x61 →
    codeByte code make ≠ 0xE1 ∧ codeByte code make ≠ 0xE0 := by
  decide +kernel

/-- The codes that the two of PrintScreen begin with. -/
theorem code_print_screen : ∀ (code : Fin 128) (make : Bool),
    (codeByte code make = 0x2A ↔ code.val = 0x2A ∧ make = true) ∧
      (codeByte code make = 0xB7 ↔ code.val = 0x37 ∧ make = false) := by
  decide +kernel

/-- Both columns of a row have the same modifier. -/
theorem modifier_of_entry : ∀ row < 128, ∀ column < 2, modifierOf (entry row column) =
    if row = 0x2A then some .shiftLeft
    else if row = 0x36 then some .shiftRight
    else if row = 0x1D then some .ctrlLeft
    else if row = 0x38 then some .altLeft
    else none := by
  decide +kernel

theorem modifier_of_extended : ∀ row < 128, row ≠ 0x38 → modifierOf (entry row 2) =
    if row = 0x1D then some .ctrlRight else none := by
  decide +kernel

/-- No key has a flag of a modifier. -/
theorem pad_key_flags : ∀ row < 128, ∀ column < 3, ∀ numLock : Bool,
    padKey numLock (entry row column) &&& modifierFlags = 0 := by
  decide +kernel

theorem flags_eq (m : Modifiers) : m.flags &&& modifierFlags = m.flags := by
  rw [Modifiers.flags]
  generalize m .shiftLeft = a
  generalize m .shiftRight = b
  generalize m .ctrlLeft = c
  generalize m .ctrlRight = d
  generalize m .altLeft = e
  generalize m .altRight = g
  revert a b c d e g
  decide

theorem or_and (x y z : UInt32) : (x ||| y) &&& z = x &&& z ||| y &&& z := by
  apply UInt32.toBitVec_inj.mp
  ext i hi
  simp [Bool.and_or_distrib_right]

/-! ## One code -/

/-- What a code does to the modifiers, by the column that its key is taken from, and the flags of
its key. -/
theorem process_code_cases (k : KeyboardPrivate) (e0 : Bool) (code : Fin 128) (make : Bool)
    {key : UInt32} {k' : KeyboardPrivate}
    (h : processCode k e0 (codeByte code make) = (key, k')) :
    ∃ column < 3, (e0 = true → column = 2) ∧ (e0 = false → column < 2) ∧
      k'.modifiers = k.modifiers.set (modifierOf (entry code column)) make ∧
      (make = true → key &&& modifierFlags = k'.modifiers.flags) ∧
      (make = false → key = keycodeNone) := by
  obtain ⟨hrow, hmake⟩ := code_byte code make
  have hentry : ∀ column, keyAt (codeByte code make) column = entry code column := by
    intro column
    rw [keyAt, hrow]
  rw [processCode] at h
  simp only [hmake, hentry] at h
  generalize (if k.capsLock = true ∧ 'a'.val ≤ entry code 0 ∧ entry code 0 ≤ 'z'.val then
    !(k.modifiers .shiftLeft || k.modifiers .shiftRight)
    else k.modifiers .shiftLeft || k.modifiers .shiftRight) = caps at h
  cases h
  have hcolumn : (if e0 then 2 else if caps then 1 else 0) < 3 := by
    cases e0 <;> cases caps <;> decide
  refine ⟨if e0 then 2 else if caps then 1 else 0, hcolumn, ?_, ?_, rfl, ?_, ?_⟩
  · rintro rfl
    rfl
  · rintro rfl
    cases caps <;> decide
  · rintro rfl
    generalize (if e0 then 2 else if caps then 1 else 0) = column at hcolumn ⊢
    have hpad : ∀ key, (if padSlash ≤ key ∧ key ≤ pad 9 then flagPad else 0) &&& modifierFlags =
        0 := by
      intro key
      split <;> rfl
    rw [if_pos rfl, or_and, or_and, pad_key_flags code code.isLt column hcolumn, hpad, flags_eq,
      UInt32.zero_or, UInt32.or_zero]
  · rintro rfl
    rfl

section

variable {k : KeyboardPrivate} {rest : List UInt8}

/-- A call takes a code and leaves the modifiers as they are held. -/
def Read (k : KeyboardPrivate) (m : Modifiers) (flags : Option UInt32)
    (input rest : List UInt8) : Prop :=
  ∃ key k', keyboardDoRead k input = some (key, k', rest) ∧ k'.modifiers = m ∧ Attached key flags

/-- A code without a prefix. -/
theorem read_plain (code : Fin 128) (make : Bool)
    (h : false = false → code.val ≠ 0x60 ∧ code.val ≠ 0x61) :
    Read k ((ScanCode.key false code make h).held k.modifiers)
      ((ScanCode.key false code make h).attached k.modifiers)
      ((ScanCode.key false code make h).bytes ++ rest) rest := by
  obtain ⟨hpause, hprefix⟩ := code_no_prefix code make (h rfl)
  obtain ⟨column, -, -, hcolumn, hmodifiers, hmake, hbreak⟩ :=
    process_code_cases k false code make rfl
  rw [modifier_of_entry code code.isLt column (hcolumn rfl)] at hmodifiers
  refine ⟨(processCode k false (codeByte code make)).1,
    (processCode k false (codeByte code make)).2, ?_, hmodifiers, ?_⟩
  · rw [ScanCode.bytes, if_neg Bool.false_ne_true, List.nil_append, List.singleton_append]
    unfold keyboardDoRead
    dsimp only
    rw [if_neg hpause, if_neg hprefix]
  · rw [ScanCode.attached]
    cases make with
    | false => exact hbreak rfl
    | true =>
        rw [if_pos rfl]
        exact (hmake rfl).trans (congrArg _ hmodifiers)

/-- A code with a prefix that is not of PrintScreen. -/
theorem read_extended (code : Fin 128) (make : Bool)
    (h : true = false → code.val ≠ 0x60 ∧ code.val ≠ 0x61)
    (hplain : (ScanCode.key true code make h).Plain) :
    Read k ((ScanCode.key true code make h).held k.modifiers)
      ((ScanCode.key true code make h).attached k.modifiers)
      ((ScanCode.key true code make h).bytes ++ rest) rest := by
  obtain ⟨halt, hmakes, hbreaks⟩ := hplain
  obtain ⟨hprint, hunprint⟩ := code_print_screen code make
  have hnoprint : codeByte code make ≠ 0x2A := fun heq => hmakes ⟨rfl, hprint.mp heq⟩
  have hnounprint : codeByte code make ≠ 0xB7 := fun heq => hbreaks ⟨rfl, hunprint.mp heq⟩
  have hright : code.val ≠ 0x38 := by
    intro heq
    refine halt ?_
    rw [ScanCode.modifier, if_neg (by omega), if_pos heq]
  have hmodifier : (ScanCode.key true code make h).modifier =
      if code.val = 0x1D then some .ctrlRight else none := by
    rw [ScanCode.modifier, if_neg hright]
  obtain ⟨column, -, hcolumn, -, hmodifiers, hmake, hbreak⟩ :=
    process_code_cases k true code make rfl
  rw [hcolumn rfl, modifier_of_extended code code.isLt hright, ← hmodifier] at hmodifiers
  refine ⟨(processCode k true (codeByte code make)).1,
    (processCode k true (codeByte code make)).2, ?_, hmodifiers, ?_⟩
  · rw [ScanCode.bytes, if_pos rfl, List.append_assoc, List.singleton_append,
      List.singleton_append, keyboardDoRead, if_neg (by decide), if_pos rfl, if_neg hnoprint,
      if_neg hnounprint]
    rfl
  · rw [ScanCode.attached]
    cases make with
    | false => exact hbreak rfl
    | true =>
        rw [if_pos rfl]
        exact (hmake rfl).trans (congrArg _ hmodifiers)

theorem read_pause : Read k k.modifiers none (ScanCode.pause.bytes ++ rest) rest :=
  ⟨keycodeNone, k, rfl, rfl, rfl⟩

/-- The code of a prefixed number. -/
theorem extended_bytes {c : ScanCode} {number : Nat} {make : Bool}
    (h : c.IsExtended number make) :
    c.bytes = [0xE0, UInt8.ofNat (if make then number else number + 0x80)] := by
  cases c with
  | pause => cases h
  | key e0 code make' hcode =>
      obtain ⟨rfl, rfl, rfl⟩ := h
      rfl

theorem read_print_screen {a b : ScanCode} (h : PrintScreen a b) :
    Read k k.modifiers none (a.bytes ++ (b.bytes ++ rest)) rest := by
  rcases h with ⟨ha, hb⟩ | ⟨ha, hb⟩
  · rw [extended_bytes ha, extended_bytes hb]
    exact ⟨keycodeNone, k, rfl, rfl, rfl⟩
  · rw [extended_bytes ha, extended_bytes hb]
    exact ⟨keycodeNone, k, rfl, rfl, rfl⟩

theorem read_code {c : ScanCode} (h : c.Plain) :
    Read k (c.held k.modifiers) (c.attached k.modifiers) (c.bytes ++ rest) rest := by
  cases c with
  | pause => exact read_pause
  | key e0 code make hcode =>
      cases e0 with
      | false => exact read_plain code make hcode
      | true => exact read_extended code make hcode h

/-! ## All codes -/

theorem run_read {m : Modifiers} {flags : Option UInt32} {input : List UInt8} {fuel : Nat}
    {results : List (Option UInt32)} (h : Read k m flags input rest)
    (hrest : ∀ k', k'.modifiers = m → List.Forall₂ Attached (keyboardRun fuel k' rest) results) :
    List.Forall₂ Attached (keyboardRun (fuel + 1) k input) (flags :: results) := by
  obtain ⟨key, k', hread, hm, hkey⟩ := h
  rw [keyboardRun, hread]
  exact .cons hkey (hrest k' hm)

theorem bytes_pos (c : ScanCode) : 0 < c.bytes.length := by
  cases c with
  | pause => exact Nat.succ_pos _
  | key e0 code make hcode => cases e0 <;> exact Nat.succ_pos _

theorem run_taken (codes : List ScanCode) : ∀ {k : KeyboardPrivate} {fuel : Nat}, Taken codes →
    codes.length < fuel →
    List.Forall₂ Attached (keyboardRun fuel k (codes.flatMap ScanCode.bytes))
      (expected k.modifiers codes) := by
  induction codes using Taken.induct with
  | case1 =>
      intro k fuel _ hfuel
      cases fuel with
      | zero => cases hfuel
      | succ fuel => exact .nil
  | case2 a =>
      intro k fuel htaken hfuel
      cases fuel with
      | zero => cases hfuel
      | succ fuel =>
          rw [List.flatMap_cons, List.flatMap_nil, expected]
          refine run_read (read_code htaken) fun k' _ => ?_
          cases fuel <;> exact .nil
  | case3 a b rest hprint ih =>
      intro k fuel htaken hfuel
      rw [Taken, if_pos hprint] at htaken
      cases fuel with
      | zero => cases hfuel
      | succ fuel =>
          rw [List.flatMap_cons, List.flatMap_cons, expected, if_pos hprint]
          refine run_read (read_print_screen hprint) fun k' hk' => ?_
          rw [← hk']
          refine ih htaken ?_
          rw [List.length_cons, List.length_cons] at hfuel
          omega
  | case4 a b rest hprint ih =>
      intro k fuel htaken hfuel
      rw [Taken, if_neg hprint] at htaken
      cases fuel with
      | zero => cases hfuel
      | succ fuel =>
          rw [List.flatMap_cons, expected, if_neg hprint]
          refine run_read (read_code htaken.1) fun k' hk' => ?_
          rw [← hk']
          exact ih htaken.2 (Nat.lt_of_succ_lt_succ hfuel)

end

theorem length_le_bytes (codes : List ScanCode) :
    codes.length ≤ (codes.flatMap ScanCode.bytes).length := by
  induction codes with
  | nil => exact Nat.zero_le _
  | cons c codes ih =>
      have hpos := bytes_pos c
      rw [List.flatMap_cons, List.length_append, List.length_cons]
      omega

/-- The flags of each key are those of the modifiers that are held, in every sequence of codes
without the right Alt key where the codes of PrintScreen come together. -/
theorem keyboard_right (k : KeyboardPrivate) {codes : List ScanCode} (h : Taken codes) :
    KeyboardRight k codes :=
  run_taken codes h (Nat.lt_succ_of_le (length_le_bytes codes))

/-- What `InitKeyboardDriver` begins with. -/
def initKeyboard : KeyboardPrivate := ⟨fun _ => false, false, true, false⟩

/-- The left Shift key. -/
def ScanCode.shift (make : Bool) : ScanCode := .key false ⟨0x2A, by decide⟩ make (by decide)

/-- The right Ctrl key and the key `a` with Shift held. -/
theorem shift_held : KeyboardRight initKeyboard
    [.shift true, .key true ⟨0x1D, by decide⟩ true (by decide),
      .key false ⟨0x1E, by decide⟩ true (by decide), .shift false] :=
  keyboard_right initKeyboard (by decide)

/-- The right Alt key is taken for the left one. -/
theorem right_alt_taken_for_left : ¬∀ (k : KeyboardPrivate) (codes : List ScanCode),
    KeyboardRight k codes := by
  intro hall
  have hright := hall initKeyboard [.key true ⟨0x38, by decide⟩ true (by decide)]
  have hrun : keyboardRun 3 initKeyboard [0xE0, 0x38] = [altR ||| flagAltL] := by decide
  have hexpected : expected initKeyboard.modifiers
      [.key true ⟨0x38, by decide⟩ true (by decide)] = [some flagAltR] := by decide
  have hresults : List.Forall₂ Attached (keyboardRun 3 initKeyboard [0xE0, 0x38])
      (expected initKeyboard.modifiers [.key true ⟨0x38, by decide⟩ true (by decide)]) := hright
  rw [hrun, hexpected, List.forall₂_cons] at hresults
  exact absurd hresults.1 (by decide)

end XBook.Keyboard
