import Mathlib.Logic.Basic

/-!
# The codes of the keys

The flags and key codes of `keyboard.h`, and which keys `TTY_ProcessKey` of `tty.c` puts into its
terminal, where `read` takes them from.
-/

namespace XBook.Keys

abbrev maskRaw : UInt32 := 0x01FF
abbrev flagExt : UInt32 := 0x0100
abbrev flagShiftL : UInt32 := 0x0200
abbrev flagShiftR : UInt32 := 0x0400
abbrev flagCtrlL : UInt32 := 0x0800
abbrev flagCtrlR : UInt32 := 0x1000
abbrev flagAltL : UInt32 := 0x2000
abbrev flagAltR : UInt32 := 0x4000
abbrev flagPad : UInt32 := 0x8000

/-! The special keys. -/

abbrev esc : UInt32 := 0x01 + flagExt
abbrev tab : UInt32 := 0x02 + flagExt
abbrev enter : UInt32 := 0x03 + flagExt
abbrev backspace : UInt32 := 0x04 + flagExt

abbrev guiL : UInt32 := 0x05 + flagExt
abbrev guiR : UInt32 := 0x06 + flagExt
abbrev apps : UInt32 := 0x07 + flagExt

abbrev shiftL : UInt32 := 0x08 + flagExt
abbrev shiftR : UInt32 := 0x09 + flagExt
abbrev ctrlL : UInt32 := 0x0A + flagExt
abbrev ctrlR : UInt32 := 0x0B + flagExt
abbrev altL : UInt32 := 0x0C + flagExt
abbrev altR : UInt32 := 0x0D + flagExt

abbrev capsLock : UInt32 := 0x0E + flagExt
abbrev numLock : UInt32 := 0x0F + flagExt
abbrev scrollLock : UInt32 := 0x10 + flagExt

/-- `F1` to `F12`. -/
abbrev f (n : UInt32) : UInt32 := 0x10 + n + flagExt

abbrev printscreen : UInt32 := 0x1D + flagExt
abbrev pausebreak : UInt32 := 0x1E + flagExt
abbrev insert : UInt32 := 0x1F + flagExt
abbrev delete : UInt32 := 0x20 + flagExt
abbrev home : UInt32 := 0x21 + flagExt
abbrev endKey : UInt32 := 0x22 + flagExt
abbrev pageup : UInt32 := 0x23 + flagExt
abbrev pagedown : UInt32 := 0x24 + flagExt
abbrev up : UInt32 := 0x25 + flagExt
abbrev down : UInt32 := 0x26 + flagExt
abbrev left : UInt32 := 0x27 + flagExt
abbrev right : UInt32 := 0x28 + flagExt

abbrev padSlash : UInt32 := 0x2C + flagExt
abbrev padStar : UInt32 := 0x2D + flagExt
abbrev padMinus : UInt32 := 0x2E + flagExt
abbrev padPlus : UInt32 := 0x2F + flagExt
abbrev padEnter : UInt32 := 0x30 + flagExt
abbrev padDot : UInt32 := 0x31 + flagExt

/-- `PAD_0` to `PAD_9`. -/
abbrev pad (n : UInt32) : UInt32 := 0x32 + n + flagExt

/-- `KEYCODE_NONE`. -/
abbrev keycodeNone : UInt32 := 0

/-- The special keys that a terminal takes as they are. -/
abbrev taken : List UInt32 :=
  [f 4, f 5, f 6, f 7, f 8, f 9, f 10, f 11, esc, up, down, left, right, pageup, pagedown, home,
    endKey, insert, delete]

/-- What `TTY_ProcessKey` puts into the terminal. -/
def ttyProcessKey (key : UInt32) : Option UInt32 :=
  if key &&& flagExt = 0 then
    if key &&& flagCtrlL ≠ 0 ∨ key &&& flagCtrlR ≠ 0 then none else some key
  else if key &&& maskRaw = enter then some 0x0A
  else if key &&& maskRaw = backspace then some 0x08
  else if key &&& maskRaw ∈ taken then some (key &&& maskRaw)
  else none

/-- The keys that a terminal has for `read`: `TTY_DoRead` drops `KEYCODE_NONE`, and the keyboard has
no flag above `FLAG_PAD`. -/
def Delivered (key : UInt32) : Prop :=
  ∃ code : UInt32, code ≠ keycodeNone ∧ code < 0x10000 ∧ ttyProcessKey code = some key

/-- A delivered key is a positive number. -/
theorem Delivered.bounds {key : UInt32} (h : Delivered key) : 0 < key ∧ key < 0x10000 := by
  obtain ⟨code, hne, hlt, hput⟩ := h
  rw [ttyProcessKey] at hput
  split at hput
  · split at hput
    · cases hput
    · cases hput
      exact ⟨UInt32.pos_iff_ne_zero.mpr hne, hlt⟩
  · split at hput
    · cases hput
      exact ⟨by decide, by decide⟩
    · split at hput
      · cases hput
        exact ⟨by decide, by decide⟩
      · split at hput
        · next hraw =>
            cases hput
            have hall : taken.all (fun raw => decide (0 < raw ∧ raw < 0x10000)) = true := by decide
            exact of_decide_eq_true (List.all_eq_true.mp hall _ hraw)
        · cases hput

end XBook.Keys
