import Mathlib.Logic.Function.Basic
import XBook.Lib.Transition

/-!
# The text consoles

`drivers/console.c`: three consoles share the video memory, each with its own cells. Cells are
numbered from the start of the video memory, and a cell is a character with its color. The size of
a console is rounded up to whole lines, so that the last one ends behind the video memory, and
`ConsoleGotoXY` takes any place for the cursor. `console_iff` says that these two are all that is
wrong: other characters and calls keep each cursor and each write in its console, and the scroll
loop ends.

No sum of cells here passes 2 ^ 23, so that they are plain numbers.
-/

namespace XBook.Consoles

open Transition

/-- `MAX_CONSOLE_NR`. -/
abbrev maxConsoleNr : Nat := 3

/-- `SCREEN_WIDTH`. -/
abbrev screenWidth : Nat := 80

/-- `SCREEN_SIZE`. -/
abbrev screenSize : Nat := 80 * 25

/-- `V_MEM_SIZE`, in bytes. -/
abbrev vMemSize : Nat := 0x8000

/-- `MAKE_COLOR`. -/
def makeColor (x y : UInt8) : UInt8 := x <<< 4 ||| y

/-- `COLOR_DEFAULT`. -/
def colorDefault : UInt8 := makeColor 0x0 0x7

def screenUp : Int32 := -1

def screenDown : Int32 := 1

def conCmdSetColor : Int32 := 1

def conCmdSelectCon : Int32 := 2

def conCmdScroll : Int32 := 3

def conCmdClean : Int32 := 4

def conCmdGoto : Int32 := 5

/-- `'\n'`. -/
def newline : UInt8 := 10

/-- `'\b'`. -/
def backspace : UInt8 := 8

/-- `DIV_ROUND_UP`. -/
def divRoundUp (x step : Nat) : Nat := (x + step - 1) / step

/-- The size of a console, in cells. -/
abbrev consoleVideoMemorySize : Nat :=
  divRoundUp (vMemSize / 2 / maxConsoleNr) screenWidth * screenWidth

/-- `Console_t`. -/
structure Console where
  currentStartAddr : Nat
  originalAddr : Nat
  videoMemorySize : Nat
  cursor : Nat
  color : UInt8

/-- A byte that a console writes to the video memory. -/
structure Write where
  console : Fin maxConsoleNr
  address : Nat
  value : UInt8

/-- The registers of the display. -/
structure Crtc where
  cursor : UInt16
  startAddr : UInt16

structure State where
  consoles : Fin maxConsoleNr → Console
  currentConsoleID : Fin maxConsoleNr
  crtc : Crtc
  /-- All writes, in their order. -/
  written : List Write

namespace State

/-- Stores the fields of a console. -/
def set (s : State) (id : Fin maxConsoleNr) (console : Console) : State :=
  { s with consoles := Function.update s.consoles id console }

/-- Writes a cell of the video memory. -/
def writeCell (s : State) (id : Fin maxConsoleNr) (cell : Nat) (ch color : UInt8) : State :=
  { s with written := s.written ++ [⟨id, 2 * cell, ch⟩, ⟨id, 2 * cell + 1, color⟩] }

variable (s : State) (id : Fin maxConsoleNr) (console : Console) (cell : Nat) (ch color : UInt8)

@[simp] theorem set_consoles :
    (s.set id console).consoles = Function.update s.consoles id console := rfl

@[simp] theorem set_written : (s.set id console).written = s.written := rfl

@[simp] theorem write_cell_consoles : (s.writeCell id cell ch color).consoles = s.consoles := rfl

@[simp] theorem write_cell_written : (s.writeCell id cell ch color).written =
    s.written ++ [⟨id, 2 * cell, ch⟩, ⟨id, 2 * cell + 1, color⟩] := rfl

end State

/-- `SetCursor`. -/
def setCursor (s : State) (cursor : UInt16) : State :=
  { s with crtc := { s.crtc with cursor := cursor } }

/-- `SetVideoStartAddr`. -/
def setVideoStartAddr (s : State) (addr : UInt16) : State :=
  { s with crtc := { s.crtc with startAddr := addr } }

/-- `Flush`. -/
def flush (s : State) (id : Fin maxConsoleNr) : State :=
  if id = s.currentConsoleID then
    setVideoStartAddr (setCursor s (s.consoles id).cursor.toUInt16)
      (s.consoles id).currentStartAddr.toUInt16
  else s

/-- The loop of `ConsoleClean`, for its last rounds. -/
def cleanLoop (s : State) (id : Fin maxConsoleNr) (cell : Nat) : Nat → State
  | 0 => s
  | left + 1 => cleanLoop (s.writeCell id cell 0 colorDefault) id (cell + 1) left

/-- `ConsoleClean`. -/
def consoleClean (s : State) (id : Fin maxConsoleNr) : State :=
  let console := s.consoles id
  flush ((cleanLoop s id console.originalAddr console.videoMemorySize).set id
    { console with cursor := console.originalAddr, currentStartAddr := console.originalAddr }) id

/-- `ConsoleScrollScreen`. -/
def consoleScrollScreen (s : State) (id : Fin maxConsoleNr) (direction : Int32) : State :=
  let console := s.consoles id
  if direction = screenUp then
    if console.originalAddr < console.currentStartAddr then
      flush (s.set id
        { console with currentStartAddr := console.currentStartAddr - screenWidth }) id
    else flush s id
  else if direction = screenDown then
    if console.currentStartAddr + screenSize < console.originalAddr + console.videoMemorySize then
      flush (s.set id
        { console with currentStartAddr := console.currentStartAddr + screenWidth }) id
    else flush s id
  else flush s id

/-- The `switch` of `ConsolePutChar`. -/
def putCell (s : State) (id : Fin maxConsoleNr) (ch : UInt8) : State :=
  let console := s.consoles id
  if ch = newline then
    if console.cursor < console.originalAddr + console.videoMemorySize - screenWidth then
      s.set id { console with
        cursor := console.originalAddr +
          screenWidth * ((console.cursor - console.originalAddr) / screenWidth + 1) }
    else s
  else if ch = backspace then
    if console.originalAddr < console.cursor then
      (s.writeCell id (console.cursor - 1) 0x20 console.color).set id
        { console with cursor := console.cursor - 1 }
    else s
  else
    if console.cursor < console.originalAddr + console.videoMemorySize - 1 then
      (s.writeCell id console.cursor ch console.color).set id
        { console with cursor := console.cursor + 1 }
    else s

/-- The scroll loop of `ConsolePutChar`, unless it makes more checks than `fuel`. -/
def scrollLoop (id : Fin maxConsoleNr) : Nat → State → Option State
  | 0, _ => none
  | fuel + 1, s =>
      if (s.consoles id).currentStartAddr + screenSize ≤ (s.consoles id).cursor then
        scrollLoop id fuel (consoleScrollScreen s id screenDown)
      else some s

/-- `ConsolePutChar`. -/
def consolePutChar (fuel : Nat) (s : State) (id : Fin maxConsoleNr) (ch : UInt8) : Option State :=
  (scrollLoop id fuel (putCell s id ch)).map (flush · id)

/-- `SelectConsole`. -/
def selectConsole (s : State) (consoleID : Int32) : State :=
  if consoleID < 0 then s
  else if h : consoleID.toNatClampNeg < maxConsoleNr then
    flush { s with currentConsoleID := ⟨consoleID.toNatClampNeg, h⟩ } ⟨consoleID.toNatClampNeg, h⟩
  else s

/-- The place of `ConsoleGotoXY` in its console. -/
def gotoOffset (xy : UInt32) : Nat :=
  (xy &&& 0xffff).toUInt16.toNat * screenWidth + (xy >>> 16 &&& 0xffff).toUInt16.toNat

/-- `ConsoleGotoXY`. -/
def consoleGotoXY (s : State) (id : Fin maxConsoleNr) (xy : UInt32) : State :=
  let console := s.consoles id
  let cursor := console.originalAddr + gotoOffset xy
  setCursor ((setVideoStartAddr s console.originalAddr.toUInt16).set id
    { console with cursor := cursor }) cursor.toUInt16

/-- `ConsoleSetColor`. -/
def consoleSetColor (s : State) (id : Fin maxConsoleNr) (color : UInt8) : State :=
  s.set id { s.consoles id with color := color }

/-- `ConsoleIoctl`. -/
def consoleIoctl (s : State) (id : Fin maxConsoleNr) (cmd arg : Int32) : Int × State :=
  if cmd = conCmdSetColor then (0, consoleSetColor s id arg.toUInt32.toUInt8)
  else if cmd = conCmdSelectCon then (0, selectConsole s arg)
  else if cmd = conCmdScroll then (0, consoleScrollScreen s id arg)
  else if cmd = conCmdClean then (0, consoleClean s id)
  else if cmd = conCmdGoto then (0, consoleGotoXY s id arg.toUInt32)
  else (-1, s)

/-- `ConsolePutc`. -/
def consolePutc (fuel : Nat) (s : State) (id : Fin maxConsoleNr) (ch : UInt32) : Option State :=
  consolePutChar fuel s id ch.toUInt8

/-- `ConsoleWrite`, where the buffer is given by its bytes. -/
def consoleWrite (fuel : Nat) (s : State) (id : Fin maxConsoleNr) :
    List UInt8 → Nat → Option State
  | ch :: buf, count + 1 =>
      if ch = 0 then some s
      else (consolePutChar fuel s id ch).bind fun t => consoleWrite fuel t id buf count
  | _, _ => some s

/-- `ConsoleInitOne`. -/
def consoleInitOne (s : State) (id : Fin maxConsoleNr) : State :=
  let original := id * consoleVideoMemorySize
  let added := s.set id ⟨original, original, consoleVideoMemorySize, original, colorDefault⟩
  if id.val = 0 then setCursor (consoleClean added id) original.toUInt16
  else setCursor added original.toUInt16

def firstConsole : Fin maxConsoleNr := ⟨0, Nat.zero_lt_succ 2⟩

/-- `consoleTable` before its initialisation. -/
def blank : State := ⟨fun _ => ⟨0, 0, 0, 0, 0⟩, firstConsole, ⟨0, 0⟩, []⟩

/-- `ConsoleInit`. -/
def consoleInit : State :=
  selectConsole ((List.finRange maxConsoleNr).foldl consoleInitOne blank) 0

/-- What is asked of the consoles. -/
inductive Operation where
  | putc (id : Fin maxConsoleNr) (ch : UInt32)
  | ioctl (id : Fin maxConsoleNr) (cmd arg : Int32)

/-- The operation returns. -/
def Step (s : State) (op : Operation) (t : State) : Prop :=
  match op with
  | .putc id ch => ∃ fuel, consolePutc fuel s id ch = some t
  | .ioctl id cmd arg => (consoleIoctl s id cmd arg).2 = t

/-- The cells of two consoles. -/
def Disjoint (k l : Console) : Prop :=
  k.originalAddr + k.videoMemorySize ≤ l.originalAddr ∨
    l.originalAddr + l.videoMemorySize ≤ k.originalAddr

/-- Each console keeps to its own cells, and these to the video memory. -/
structure Confined (s : State) : Prop where
  cursor : ∀ id, (s.consoles id).originalAddr ≤ (s.consoles id).cursor ∧
    (s.consoles id).cursor < (s.consoles id).originalAddr + (s.consoles id).videoMemorySize
  region : ∀ w ∈ s.written, 2 * (s.consoles w.console).originalAddr ≤ w.address ∧
    w.address <
      2 * ((s.consoles w.console).originalAddr + (s.consoles w.console).videoMemorySize)
  memory : ∀ w ∈ s.written, w.address < vMemSize
  disjoint : ∀ i j, i ≠ j → Disjoint (s.consoles i) (s.consoles j)

/-- The operation returns, and leaves the consoles confined. -/
def Safe (s : State) (op : Operation) : Prop :=
  (∃ t, Step s op t) ∧ ∀ t, Step s op t → Confined t

/-- The console is the last one, whose cells end behind the video memory. -/
def IsLast (id : Fin maxConsoleNr) : Prop := id.val + 1 = maxConsoleNr

/-- The character writes no cell behind the video memory. -/
def CharFits (k : Console) (ch : UInt8) : Prop :=
  if ch = newline then True
  else if ch = backspace then k.cursor ≤ vMemSize / 2
  else k.cursor < vMemSize / 2 ∨ k.cursor + 1 = k.originalAddr + k.videoMemorySize

/-- What the consoles bear: a place inside for the cursor, and nothing in the part of the last
console that is behind the video memory. -/
def Allowed (s : State) : Operation → Prop
  | .putc id ch => IsLast id → CharFits (s.consoles id) ch.toUInt8
  | .ioctl id cmd arg =>
      (cmd = conCmdClean → ¬ IsLast id) ∧
        (cmd = conCmdGoto → gotoOffset arg.toUInt32 < (s.consoles id).videoMemorySize)

/-- The layout of a console, with the window on its lines. -/
structure Laid (id : Fin maxConsoleNr) (k : Console) : Prop where
  original : k.originalAddr = id.val * consoleVideoMemorySize
  size : k.videoMemorySize = consoleVideoMemorySize
  start_le : k.originalAddr ≤ k.currentStartAddr
  start_line : (k.currentStartAddr - k.originalAddr) % screenWidth = 0
  window : k.currentStartAddr + screenSize ≤ k.originalAddr + k.videoMemorySize

/-- The cursor is on a cell of its console. -/
def CursorIn (k : Console) : Prop :=
  k.originalAddr ≤ k.cursor ∧ k.cursor < k.originalAddr + k.videoMemorySize

/-- The write is in the cells of its console. -/
def Write.InRegion (w : Write) : Prop :=
  2 * (w.console.val * consoleVideoMemorySize) ≤ w.address ∧
    w.address < 2 * (w.console.val * consoleVideoMemorySize + consoleVideoMemorySize)

structure Inv (s : State) : Prop where
  laid : ∀ id, Laid id (s.consoles id)
  cursor : ∀ id, CursorIn (s.consoles id)
  region : ∀ w ∈ s.written, w.InRegion
  memory : ∀ w ∈ s.written, w.address < vMemSize

theorem console_size : consoleVideoMemorySize = 5520 := rfl

theorem Inv.confined {s : State} (h : Inv s) : Confined s where
  cursor := h.cursor
  region w hw := by
    rw [(h.laid w.console).original, (h.laid w.console).size]
    exact h.region w hw
  memory := h.memory
  disjoint i j hne := by
    show _ ≤ _ ∨ _ ≤ _
    rw [(h.laid i).original, (h.laid i).size, (h.laid j).original, (h.laid j).size]
    have hval : i.val ≠ j.val := fun heq => hne (Fin.ext heq)
    rw [console_size]
    omega

section Flush

variable (s : State) (id : Fin maxConsoleNr)

@[simp] theorem flush_consoles : (flush s id).consoles = s.consoles := by
  unfold flush
  split <;> rfl

@[simp] theorem flush_written : (flush s id).written = s.written := by
  unfold flush
  split <;> rfl

end Flush

/-- A flush changes only the registers. -/
theorem inv_flush {s : State} {id : Fin maxConsoleNr} : Inv (flush s id) ↔ Inv s := by
  constructor
  · intro h
    exact ⟨flush_consoles s id ▸ h.laid, flush_consoles s id ▸ h.cursor,
      flush_written s id ▸ h.region, flush_written s id ▸ h.memory⟩
  · intro h
    exact ⟨(flush_consoles s id).symm ▸ h.laid, (flush_consoles s id).symm ▸ h.cursor,
      (flush_written s id).symm ▸ h.region, (flush_written s id).symm ▸ h.memory⟩

/-- A console is changed in its place. -/
theorem Inv.set {s : State} (h : Inv s) {id : Fin maxConsoleNr} {k : Console} (hlaid : Laid id k)
    (hcursor : CursorIn k) : Inv (s.set id k) where
  laid i := by
    rw [State.set_consoles]
    rcases eq_or_ne i id with rfl | hne
    · rw [Function.update_self]
      exact hlaid
    · rw [Function.update_of_ne hne]
      exact h.laid i
  cursor i := by
    rw [State.set_consoles]
    rcases eq_or_ne i id with rfl | hne
    · rw [Function.update_self]
      exact hcursor
    · rw [Function.update_of_ne hne]
      exact h.cursor i
  region := h.region
  memory := h.memory

/-- The two bytes of a cell come behind the earlier writes. -/
theorem mem_write_cell {s : State} {id : Fin maxConsoleNr} {cell : Nat} {ch color : UInt8}
    {w : Write} (hw : w ∈ (s.writeCell id cell ch color).written) :
    w ∈ s.written ∨ w.console = id ∧ 2 * cell ≤ w.address ∧ w.address < 2 * (cell + 1) := by
  rw [State.write_cell_written, List.mem_append, List.mem_pair] at hw
  rcases hw with hw | rfl | rfl
  · exact .inl hw
  · exact .inr ⟨rfl, Nat.le_refl _, Nat.lt_succ_of_lt (Nat.lt_succ_self _)⟩
  · exact .inr ⟨rfl, Nat.le_succ _, Nat.lt_succ_self _⟩

@[simp] theorem clean_loop_consoles (s : State) (id : Fin maxConsoleNr) (cell left : Nat) :
    (cleanLoop s id cell left).consoles = s.consoles := by
  induction left generalizing s cell with
  | zero => rfl
  | succ left ih => rw [cleanLoop, ih, State.write_cell_consoles]

/-- The cells that are cleaned come behind the earlier writes. -/
theorem mem_clean_loop {id : Fin maxConsoleNr} {left : Nat} {s : State} {cell : Nat} {w : Write}
    (hw : w ∈ (cleanLoop s id cell left).written) :
    w ∈ s.written ∨ w.console = id ∧ 2 * cell ≤ w.address ∧ w.address < 2 * (cell + left) := by
  induction left generalizing s cell with
  | zero => exact .inl hw
  | succ left ih =>
      rcases ih hw with hw | ⟨hid, hfirst, hlast⟩
      · rcases mem_write_cell hw with hw | ⟨hid, hfirst, hlast⟩
        · exact .inl hw
        · exact .inr ⟨hid, hfirst, by omega⟩
      · exact .inr ⟨hid, by omega, by omega⟩

/-- Cells of a console are written in its region. -/
theorem Inv.writes {s t : State} (h : Inv s) (hconsoles : t.consoles = s.consoles)
    {id : Fin maxConsoleNr} {first last : Nat}
    (hwritten : ∀ w ∈ t.written, w ∈ s.written ∨
      w.console = id ∧ 2 * first ≤ w.address ∧ w.address < 2 * last)
    (hle : (s.consoles id).originalAddr ≤ first)
    (hlt : last ≤ (s.consoles id).originalAddr + (s.consoles id).videoMemorySize)
    (hmemory : last ≤ vMemSize / 2) : Inv t := by
  rw [(h.laid id).original] at hle hlt
  rw [(h.laid id).size] at hlt
  refine ⟨hconsoles ▸ h.laid, hconsoles ▸ h.cursor, ?_, ?_⟩
  · intro w hw
    rcases hwritten w hw with hw | ⟨rfl, hfirst, hlast⟩
    · exact h.region w hw
    · exact ⟨by omega, by omega⟩
  · intro w hw
    rcases hwritten w hw with hw | ⟨rfl, hfirst, hlast⟩
    · exact h.memory w hw
    · omega

theorem Inv.write_cell {s : State} (h : Inv s) {id : Fin maxConsoleNr} {cell : Nat}
    (hle : (s.consoles id).originalAddr ≤ cell)
    (hlt : cell < (s.consoles id).originalAddr + (s.consoles id).videoMemorySize)
    (hmemory : cell < vMemSize / 2) {ch color : UInt8} : Inv (s.writeCell id cell ch color) :=
  h.writes (State.write_cell_consoles s id cell ch color) (fun _ => mem_write_cell) hle hlt hmemory

/-- The window moves up by a line. -/
theorem Laid.up {id : Fin maxConsoleNr} {k : Console} (h : Laid id k)
    (hlt : k.originalAddr < k.currentStartAddr) :
    Laid id { k with currentStartAddr := k.currentStartAddr - screenWidth } := by
  obtain ⟨start, original, size, cursor, color⟩ := k
  obtain ⟨horiginal, hsize, hstart, hline, hwindow⟩ := h
  simp only [screenWidth, screenSize] at *
  refine ⟨horiginal, hsize, ?_, ?_, ?_⟩ <;> simp only [screenWidth, screenSize] <;> omega

/-- The window moves down by a line. -/
theorem Laid.down {id : Fin maxConsoleNr} {k : Console} (h : Laid id k)
    (hlt : k.currentStartAddr + screenSize < k.originalAddr + k.videoMemorySize) :
    Laid id { k with currentStartAddr := k.currentStartAddr + screenWidth } := by
  obtain ⟨start, original, size, cursor, color⟩ := k
  obtain ⟨horiginal, hsize, hstart, hline, hwindow⟩ := h
  -- the window and the console are both of whole lines
  have hlines : size = 5520 := hsize
  simp only [screenWidth, screenSize] at *
  refine ⟨horiginal, hsize, ?_, ?_, ?_⟩ <;> simp only [screenWidth, screenSize] <;> omega

/-- Scrolling keeps the window in the console. -/
theorem Inv.scroll_screen {s : State} (h : Inv s) (id : Fin maxConsoleNr) (direction : Int32) :
    Inv (consoleScrollScreen s id direction) := by
  simp only [consoleScrollScreen]
  split
  · split
    · next hlt => exact inv_flush.mpr (h.set ((h.laid id).up hlt) (h.cursor id))
    · exact inv_flush.mpr h
  · split
    · split
      · next hlt => exact inv_flush.mpr (h.set ((h.laid id).down hlt) (h.cursor id))
      · exact inv_flush.mpr h
    · exact inv_flush.mpr h

/-- The scroll loop makes no more checks than a console has lines, and one. -/
def scrollChecks : Nat := consoleVideoMemorySize / screenWidth + 1

/-- The scroll loop keeps what each of its rounds keeps. -/
theorem scroll_loop_inv {id : Fin maxConsoleNr} {fuel : Nat} {s t : State} (h : Inv s)
    (hloop : scrollLoop id fuel s = some t) : Inv t := by
  induction fuel generalizing s with
  | zero => simp [scrollLoop] at hloop
  | succ fuel ih =>
      rw [scrollLoop] at hloop
      split at hloop
      · exact ih (h.scroll_screen id screenDown) hloop
      · exact Option.some.inj hloop ▸ h

/-- Below the window there is another line, as long as the cursor is there. -/
theorem Inv.scroll_down {s : State} (h : Inv s) {id : Fin maxConsoleNr}
    (hbelow : (s.consoles id).currentStartAddr + screenSize ≤ (s.consoles id).cursor) :
    consoleScrollScreen s id screenDown = flush (s.set id { s.consoles id with
      currentStartAddr := (s.consoles id).currentStartAddr + screenWidth }) id := by
  have hcursor := (h.cursor id).2
  have hup : screenDown ≠ screenUp := by decide
  simp only [consoleScrollScreen]
  rw [if_neg hup, if_pos trivial, if_pos (by omega)]

/-- The scroll loop ends, as long as the cursor is in the console. -/
theorem scroll_loop_returns {id : Fin maxConsoleNr} (lines : Nat) {s : State} (h : Inv s)
    (hlines : (s.consoles id).originalAddr + (s.consoles id).videoMemorySize ≤
      (s.consoles id).currentStartAddr + screenSize + screenWidth * lines) :
    ∃ t, scrollLoop id (lines + 1) s = some t := by
  induction lines generalizing s with
  | zero =>
      have hcursor := (h.cursor id).2
      refine ⟨s, ?_⟩
      rw [scrollLoop, if_neg (by omega)]
  | succ lines ih =>
      rw [scrollLoop]
      split
      · next hbelow =>
          apply ih (h.scroll_screen id screenDown)
          rw [h.scroll_down hbelow, flush_consoles, State.set_consoles, Function.update_self]
          rw [Nat.mul_succ] at hlines
          dsimp only
          omega
      · exact ⟨s, rfl⟩

/-- A console that is not the last one ends before the video memory does. -/
theorem Inv.not_last {s : State} (h : Inv s) {id : Fin maxConsoleNr} (hid : ¬ IsLast id) :
    (s.consoles id).originalAddr + (s.consoles id).videoMemorySize ≤ vMemSize / 2 := by
  have hid : id.val + 1 ≠ 3 := hid
  have hlt : id.val < 3 := id.isLt
  have hmemory : vMemSize / 2 = 16384 := rfl
  rw [(h.laid id).original, (h.laid id).size, console_size, hmemory]
  omega

/-- A character that fits changes its own cells. -/
theorem Inv.put_cell {s : State} (h : Inv s) {id : Fin maxConsoleNr} {ch : UInt8}
    (hfits : IsLast id → CharFits (s.consoles id) ch) : Inv (putCell s id ch) := by
  have hcursor := h.cursor id
  have hlaid := h.laid id
  have hmemory : ¬ IsLast id → (s.consoles id).cursor < vMemSize / 2 :=
    fun hid => Nat.lt_of_lt_of_le hcursor.2 (h.not_last hid)
  simp only [putCell]
  simp only [CharFits] at hfits
  split
  · split
    · next hlt =>
        refine h.set ⟨hlaid.original, hlaid.size, hlaid.start_le, hlaid.start_line, hlaid.window⟩ ?_
        have hsize : (s.consoles id).videoMemorySize = 5520 := hlaid.size
        refine ⟨Nat.le_add_right _ _, ?_⟩
        simp only [screenWidth] at hlt ⊢
        have hle := hcursor.1
        omega
    · exact h
  · split
    · split
      · next hnewline hback hlt =>
          rw [if_neg hnewline, if_pos hback] at hfits
          have hcell : (s.consoles id).cursor - 1 < vMemSize / 2 := by
            by_cases hid : IsLast id
            · have := hfits hid
              omega
            · have := hmemory hid
              omega
          have hin := hcursor.2
          refine (h.write_cell (by omega) (by omega) hcell).set
            ⟨hlaid.original, hlaid.size, hlaid.start_le, hlaid.start_line, hlaid.window⟩ ?_
          exact ⟨Nat.le_sub_one_of_lt hlt, Nat.lt_of_le_of_lt (Nat.sub_le _ _) hin⟩
      · exact h
    · split
      · next hnewline hback hlt =>
          rw [if_neg hnewline, if_neg hback] at hfits
          have hcell : (s.consoles id).cursor < vMemSize / 2 := by
            by_cases hid : IsLast id
            · rcases hfits hid with hcell | hend
              · exact hcell
              · omega
            · exact hmemory hid
          refine (h.write_cell hcursor.1 hcursor.2 hcell).set
            ⟨hlaid.original, hlaid.size, hlaid.start_le, hlaid.start_line, hlaid.window⟩ ?_
          exact ⟨Nat.le_succ_of_le hcursor.1, Nat.add_lt_of_lt_sub hlt⟩
      · exact h

/-- A character that does not fit is written behind the video memory. -/
theorem Inv.put_cell_behind {s : State} (h : Inv s) {id : Fin maxConsoleNr} {ch : UInt8}
    (hfits : ¬ CharFits (s.consoles id) ch) :
    ∃ w ∈ (putCell s id ch).written, vMemSize ≤ w.address := by
  have hcursor := (h.cursor id).2
  have horiginal := (h.laid id).original
  have hmemory : vMemSize = 32768 := rfl
  have hlt : id.val < 3 := id.isLt
  rw [console_size] at horiginal
  rw [CharFits] at hfits
  simp only [putCell]
  split
  · next hnewline =>
      rw [if_pos hnewline] at hfits
      exact absurd trivial hfits
  · next hnewline =>
      rw [if_neg hnewline] at hfits
      split
      · next hback =>
          rw [if_pos hback] at hfits
          rw [if_pos (by omega)]
          refine ⟨⟨id, 2 * ((s.consoles id).cursor - 1), 0x20⟩, ?_, ?_⟩
          · simp
          · show vMemSize ≤ 2 * _
            omega
      · next hback =>
          rw [if_neg hback] at hfits
          rw [if_pos (by omega)]
          refine ⟨⟨id, 2 * (s.consoles id).cursor, ch⟩, ?_, ?_⟩
          · simp
          · show vMemSize ≤ 2 * _
            omega

@[simp] theorem scroll_screen_written (s : State) (id : Fin maxConsoleNr) (direction : Int32) :
    (consoleScrollScreen s id direction).written = s.written := by
  simp only [consoleScrollScreen]
  split
  · split <;> simp
  · split
    · split <;> simp
    · simp

/-- The scroll loop writes no cell. -/
theorem scroll_loop_written {id : Fin maxConsoleNr} {fuel : Nat} {s t : State}
    (hloop : scrollLoop id fuel s = some t) : t.written = s.written := by
  induction fuel generalizing s with
  | zero => simp [scrollLoop] at hloop
  | succ fuel ih =>
      rw [scrollLoop] at hloop
      split at hloop
      · rw [ih hloop, scroll_screen_written]
      · rw [Option.some.inj hloop]

/-- A character that fits is put, whatever lines it scrolls by. -/
theorem Inv.put_char {s : State} (h : Inv s) {id : Fin maxConsoleNr} {ch : UInt8}
    (hfits : IsLast id → CharFits (s.consoles id) ch) :
    (∃ t, consolePutChar scrollChecks s id ch = some t) ∧
      ∀ fuel t, consolePutChar fuel s id ch = some t → Inv t := by
  have hput := h.put_cell hfits
  constructor
  · have hstart := (hput.laid id).start_le
    have hsize : ((putCell s id ch).consoles id).videoMemorySize = 5520 := (hput.laid id).size
    have hlines : screenSize + screenWidth * (consoleVideoMemorySize / screenWidth) = 7520 := rfl
    have hbelow : ((putCell s id ch).consoles id).originalAddr +
        ((putCell s id ch).consoles id).videoMemorySize ≤
        ((putCell s id ch).consoles id).currentStartAddr + screenSize +
          screenWidth * (consoleVideoMemorySize / screenWidth) := by
      omega
    obtain ⟨t, ht⟩ := scroll_loop_returns (consoleVideoMemorySize / screenWidth) hput hbelow
    exact ⟨flush t id, Option.map_eq_some_iff.mpr ⟨t, ht, rfl⟩⟩
  · intro fuel t ht
    obtain ⟨u, hu, rfl⟩ := Option.map_eq_some_iff.mp ht
    exact inv_flush.mpr (scroll_loop_inv hput hu)

/-- Cleaning writes the last of its cells. -/
theorem clean_loop_last {id : Fin maxConsoleNr} (left : Nat) (s : State) (cell : Nat) :
    (∀ w ∈ s.written, w ∈ (cleanLoop s id cell left).written) ∧
      (0 < left → ∃ w ∈ (cleanLoop s id cell left).written,
        w.address = 2 * (cell + left - 1)) := by
  induction left generalizing s cell with
  | zero => exact ⟨fun _ hw => hw, fun h => absurd h (Nat.lt_irrefl 0)⟩
  | succ left ih =>
      obtain ⟨hkeeps, hlast⟩ := ih (s.writeCell id cell 0 colorDefault) (cell + 1)
      rw [cleanLoop]
      refine ⟨fun w hw => hkeeps w ?_, fun _ => ?_⟩
      · rw [State.write_cell_written]
        exact List.mem_append_left _ hw
      · rcases Nat.eq_zero_or_pos left with rfl | hpos
        · refine ⟨⟨id, 2 * cell, 0⟩, hkeeps _ ?_, rfl⟩
          rw [State.write_cell_written]
          simp
        · obtain ⟨w, hw, haddress⟩ := hlast hpos
          exact ⟨w, hw, by omega⟩

/-- A console is cleaned where all of its cells are in the video memory. -/
theorem Inv.clean {s : State} (h : Inv s) {id : Fin maxConsoleNr} (hid : ¬ IsLast id) :
    Inv (consoleClean s id) := by
  have hlaid := h.laid id
  have hmemory := h.not_last hid
  have hsize : (s.consoles id).videoMemorySize = 5520 := hlaid.size
  have hcleaned := h.writes (clean_loop_consoles s id _ _) (fun _ => mem_clean_loop)
    (Nat.le_refl _) (Nat.le_refl _) hmemory
  refine inv_flush.mpr (hcleaned.set
    ⟨hlaid.original, hlaid.size, Nat.le_refl _, ?_, ?_⟩ ⟨Nat.le_refl _, ?_⟩)
  · show (_ - _) % _ = 0
    rw [Nat.sub_self, Nat.zero_mod]
  · show _ + screenSize ≤ _ + _
    simp only [screenSize]
    omega
  · exact Nat.lt_add_of_pos_right (hsize.symm ▸ Nat.zero_lt_succ 5519)

/-- The last console is cleaned behind the video memory. -/
theorem Inv.clean_behind {s : State} (h : Inv s) {id : Fin maxConsoleNr} (hid : IsLast id) :
    ∃ w ∈ (consoleClean s id).written, vMemSize ≤ w.address := by
  have hsize : (s.consoles id).videoMemorySize = 5520 := (h.laid id).size
  have horiginal := (h.laid id).original
  have hmemory : vMemSize = 32768 := rfl
  have hid : id.val + 1 = 3 := hid
  rw [console_size] at horiginal
  obtain ⟨w, hw, haddress⟩ := (clean_loop_last (s.consoles id).videoMemorySize s
    (s.consoles id).originalAddr).2 (by omega)
  refine ⟨w, ?_, by omega⟩
  simp only [consoleClean, flush_written, State.set_written]
  exact hw

theorem Inv.select {s : State} (h : Inv s) (consoleID : Int32) :
    Inv (selectConsole s consoleID) := by
  unfold selectConsole
  split
  · exact h
  · split
    · exact inv_flush.mpr ⟨h.laid, h.cursor, h.region, h.memory⟩
    · exact h

theorem ioctl_goto (s : State) (id : Fin maxConsoleNr) (arg : Int32) :
    (consoleIoctl s id conCmdGoto arg).2 = consoleGotoXY s id arg.toUInt32 := rfl

@[simp] theorem goto_console (s : State) (id : Fin maxConsoleNr) (xy : UInt32) :
    (consoleGotoXY s id xy).consoles id =
      { s.consoles id with cursor := (s.consoles id).originalAddr + gotoOffset xy } :=
  Function.update_self ..

theorem Inv.goto {s : State} (h : Inv s) {id : Fin maxConsoleNr} {xy : UInt32}
    (hxy : gotoOffset xy < (s.consoles id).videoMemorySize) : Inv (consoleGotoXY s id xy) := by
  have hlaid := h.laid id
  have hset := h.set (k := { s.consoles id with
    cursor := (s.consoles id).originalAddr + gotoOffset xy })
    ⟨hlaid.original, hlaid.size, hlaid.start_le, hlaid.start_line, hlaid.window⟩
    ⟨Nat.le_add_right _ _, Nat.add_lt_add_left hxy _⟩
  exact ⟨hset.laid, hset.cursor, hset.region, hset.memory⟩

/-- The calls that the consoles bear. -/
theorem Inv.ioctl {s : State} (h : Inv s) {id : Fin maxConsoleNr} {cmd arg : Int32}
    (hallowed : Allowed s (.ioctl id cmd arg)) : Inv (consoleIoctl s id cmd arg).2 := by
  obtain ⟨hclean, hgoto⟩ := hallowed
  have hlaid := h.laid id
  unfold consoleIoctl
  split
  · exact h.set ⟨hlaid.original, hlaid.size, hlaid.start_le, hlaid.start_line, hlaid.window⟩
      (h.cursor id)
  · split
    · exact h.select arg
    · split
      · exact h.scroll_screen id arg
      · split
        · next hcmd => exact h.clean (hclean hcmd)
        · split
          · next hcmd => exact h.goto (hgoto hcmd)
          · exact h

/-- After a call that leaves the consoles confined they did bear it. -/
theorem Inv.ioctl_allowed {s : State} (h : Inv s) {id : Fin maxConsoleNr} {cmd arg : Int32}
    (hconfined : Confined (consoleIoctl s id cmd arg).2) : Allowed s (.ioctl id cmd arg) := by
  constructor
  · rintro rfl hlast
    obtain ⟨w, hw, hbehind⟩ := h.clean_behind hlast
    exact absurd (hconfined.memory w hw) (Nat.not_lt_of_le hbehind)
  · rintro rfl
    have hcursor := (hconfined.cursor id).2
    rw [ioctl_goto, goto_console] at hcursor
    exact Nat.add_lt_add_iff_left.mp hcursor

/-- An operation is safe just where the consoles bear it. -/
theorem Inv.safe_iff {s : State} (h : Inv s) (op : Operation) : Safe s op ↔ Allowed s op := by
  cases op with
  | putc id ch =>
      constructor
      · intro hsafe hlast
        obtain ⟨t, fuel, ht⟩ := hsafe.1
        by_contra hfits
        obtain ⟨w, hw, hbehind⟩ := h.put_cell_behind hfits
        obtain ⟨u, hu, rfl⟩ := Option.map_eq_some_iff.mp ht
        have hmemory := (hsafe.2 _ ⟨fuel, ht⟩).memory w
        rw [flush_written, scroll_loop_written hu] at hmemory
        exact absurd (hmemory hw) (Nat.not_lt_of_le hbehind)
      · intro hallowed
        obtain ⟨⟨t, ht⟩, hinv⟩ := h.put_char hallowed
        refine ⟨⟨t, scrollChecks, ht⟩, ?_⟩
        rintro u ⟨fuel', hu⟩
        exact (hinv fuel' u hu).confined
  | ioctl id cmd arg =>
      constructor
      · intro hsafe
        exact h.ioctl_allowed (hsafe.2 _ rfl)
      · intro hallowed
        refine ⟨⟨_, rfl⟩, ?_⟩
        rintro t rfl
        exact (h.ioctl hallowed).confined

/-- What the consoles bear keeps them in order. -/
theorem Inv.step {s t : State} {op : Operation} (h : Inv s) (hallowed : Allowed s op)
    (hstep : Step s op t) : Inv t := by
  cases op with
  | putc id ch =>
      obtain ⟨fuel, ht⟩ := hstep
      exact (h.put_char hallowed).2 fuel t ht
  | ioctl id cmd arg =>
      obtain rfl := hstep
      exact h.ioctl hallowed

/-- The characters of a call of `ConsoleWrite`. -/
def written (id : Fin maxConsoleNr) (buf : List UInt8) (count : Nat) : List Operation :=
  ((buf.take count).takeWhile (· ≠ 0)).map fun ch => .putc id ch.toUInt32

/-- `ConsoleWrite` puts the characters up to the first zero. -/
theorem console_write_run {s t : State} {id : Fin maxConsoleNr} {buf : List UInt8}
    {count fuel : Nat} (h : consoleWrite fuel s id buf count = some t) :
    Run Step anyLabel s (written id buf count) t := by
  induction buf generalizing s count with
  | nil =>
      obtain rfl : s = t := Option.some.inj h
      simpa [written] using Run.nil s
  | cons ch buf ih =>
      cases count with
      | zero =>
          obtain rfl : s = t := Option.some.inj h
          simpa [written] using Run.nil s
      | succ count =>
          rw [consoleWrite] at h
          split at h
          · next hzero =>
              obtain rfl : s = t := Option.some.inj h
              simpa [written, hzero] using Run.nil s
          · next hch =>
              obtain ⟨u, hu, ht⟩ := Option.bind_eq_some_iff.mp h
              have hrun : Run Step anyLabel s (.putc id ch.toUInt32 :: written id buf count) t := by
                refine .cons trivial ⟨fuel, ?_⟩ (ih ht)
                rw [consolePutc, UInt8.toUInt8_toUInt32]
                exact hu
              simpa [written, hch] using hrun

/-- `ConsoleWrite` returns where each of its characters fits. -/
theorem Inv.write {s : State} (h : Inv s) {id : Fin maxConsoleNr} {buf : List UInt8} {count : Nat}
    (hallowed : Always Step Allowed s (written id buf count)) :
    ∃ t, consoleWrite scrollChecks s id buf count = some t ∧ Inv t := by
  induction buf generalizing s count with
  | nil => exact ⟨s, rfl, h⟩
  | cons ch buf ih =>
      cases count with
      | zero => exact ⟨s, rfl, h⟩
      | succ count =>
          rw [consoleWrite]
          split
          · exact ⟨s, rfl, h⟩
          · next hch =>
              have hallowed : Always Step Allowed s
                  (.putc id ch.toUInt32 :: written id buf count) := by
                simpa [written, hch] using hallowed
              have hfits := hallowed.1
              rw [Allowed, UInt8.toUInt8_toUInt32] at hfits
              obtain ⟨⟨u, hu⟩, hinv⟩ := h.put_char hfits
              have hstep : Step s (.putc id ch.toUInt32) u := by
                refine ⟨scrollChecks, ?_⟩
                rw [consolePutc, UInt8.toUInt8_toUInt32]
                exact hu
              rw [hu]
              exact ih (hinv _ u hu) (hallowed.2 u hstep)

/-- A console as `ConsoleInitOne` sets it up. -/
def initialConsole (id : Fin maxConsoleNr) : Console :=
  ⟨id.val * consoleVideoMemorySize, id.val * consoleVideoMemorySize, consoleVideoMemorySize,
    id.val * consoleVideoMemorySize, colorDefault⟩

@[simp] theorem init_one_consoles (s : State) (id : Fin maxConsoleNr) :
    (consoleInitOne s id).consoles = Function.update s.consoles id (initialConsole id) := by
  simp only [consoleInitOne]
  split <;> simp [setCursor, consoleClean, initialConsole]

/-- The consoles of the list are set up, and those that were stay so. -/
theorem init_fold_console {ids : List (Fin maxConsoleNr)} {s : State} {id : Fin maxConsoleNr}
    (h : s.consoles id = initialConsole id ∨ id ∈ ids) :
    (ids.foldl consoleInitOne s).consoles id = initialConsole id := by
  induction ids generalizing s with
  | nil => exact h.resolve_right List.not_mem_nil
  | cons i ids ih =>
      apply ih
      rw [init_one_consoles]
      rcases eq_or_ne id i with rfl | hne
      · exact .inl (Function.update_self ..)
      · rw [Function.update_of_ne hne]
        exact h.imp_right fun hmem => (List.mem_cons.mp hmem).resolve_left hne

@[simp] theorem select_consoles (s : State) (consoleID : Int32) :
    (selectConsole s consoleID).consoles = s.consoles := by
  unfold selectConsole
  split
  · rfl
  · split <;> simp

@[simp] theorem select_written (s : State) (consoleID : Int32) :
    (selectConsole s consoleID).written = s.written := by
  unfold selectConsole
  split
  · rfl
  · split <;> simp

/-- All consoles are set up. -/
theorem init_console (id : Fin maxConsoleNr) : consoleInit.consoles id = initialConsole id := by
  rw [consoleInit, select_consoles, init_fold_console (.inr (List.mem_finRange id))]

theorem init_laid (id : Fin maxConsoleNr) : Laid id (initialConsole id) where
  original := rfl
  size := rfl
  start_le := Nat.le_refl _
  start_line := by simp [initialConsole]
  window := Nat.add_le_add_left (show screenSize ≤ consoleVideoMemorySize by decide) _

/-- Only the first console is cleaned. -/
theorem mem_init_one {s : State} {id : Fin maxConsoleNr} {w : Write}
    (hw : w ∈ (consoleInitOne s id).written) :
    w ∈ s.written ∨ w.console.val = 0 ∧ w.address < 2 * consoleVideoMemorySize := by
  simp only [consoleInitOne] at hw
  split at hw
  · next hid =>
      have hw : w ∈ (consoleClean _ id).written := hw
      simp only [consoleClean, flush_written, State.set_written] at hw
      rcases mem_clean_loop hw with hw | ⟨rfl, -, hlt⟩
      · exact .inl hw
      · refine .inr ⟨hid, ?_⟩
        simpa [hid] using hlt
  · exact .inl hw

theorem mem_init_fold {ids : List (Fin maxConsoleNr)} {s : State} {w : Write}
    (hw : w ∈ (ids.foldl consoleInitOne s).written) :
    w ∈ s.written ∨ w.console.val = 0 ∧ w.address < 2 * consoleVideoMemorySize := by
  induction ids generalizing s with
  | nil => exact .inl hw
  | cons id ids ih =>
      rcases ih hw with hw | hfirst
      · exact mem_init_one hw
      · exact .inr hfirst

/-- The consoles are in order after their initialisation. -/
theorem init_inv : Inv consoleInit := by
  have hfirst : ∀ w ∈ consoleInit.written,
      w.console.val = 0 ∧ w.address < 2 * consoleVideoMemorySize := by
    intro w hw
    rw [consoleInit, select_written] at hw
    rcases mem_init_fold hw with hw | hfirst
    · exact absurd hw List.not_mem_nil
    · exact hfirst
  refine ⟨?_, ?_, ?_, ?_⟩
  · intro id
    rw [init_console]
    exact init_laid id
  · intro id
    rw [init_console]
    exact ⟨Nat.le_refl _, Nat.lt_add_of_pos_right (show 0 < consoleVideoMemorySize by decide)⟩
  · intro w hw
    obtain ⟨hid, hlt⟩ := hfirst w hw
    rw [Write.InRegion, hid, Nat.zero_mul, Nat.zero_add]
    exact ⟨Nat.zero_le _, hlt⟩
  · intro w hw
    exact Nat.lt_of_lt_of_le (hfirst w hw).2 (by decide)

/-- The consoles stay in their cells, and each operation returns, just as long as the cursor is
sent to places inside and nothing is written to the part of the last console that is behind the
video memory. -/
theorem console_iff (ops : List Operation) :
    (Confined consoleInit ∧ Always Step Safe consoleInit ops) ↔
      Always Step Allowed consoleInit ops := by
  have hiff : Always Step Safe consoleInit ops ↔ Always Step Allowed consoleInit ops :=
    always_iff (fun s op (h : Inv s) => h.safe_iff op) (fun _ _ _ h => h.step) init_inv ops
  rw [hiff]
  exact ⟨And.right, fun h => ⟨init_inv.confined, h⟩⟩

/-- The cursor is sent to the line behind the first console. -/
theorem line_behind_console : ¬ (Confined consoleInit ∧
    Always Step Safe consoleInit [.ioctl firstConsole conCmdGoto 69]) := by
  rintro ⟨-, ⟨-, hconfined⟩, -⟩
  have hcursor := ((hconfined _ (ioctl_goto consoleInit _ 69)).cursor firstConsole).2
  rw [goto_console, init_console] at hcursor
  exact absurd hcursor (by decide)

end XBook.Consoles
