import Mathlib.Data.List.GetD
import Mathlib.Logic.Function.Basic
import XBook.Drivers.Keys

/-!
# The line editor of the shell

`readline` and `read_key` of `bin/bosh/main.c` over the keys that `read` delivers, with the stores
that they make. `read_key` stores a key before `readline` tests whether there is room for it, so
a key that comes to a full line is stored behind the buffer; `readline_iff` says that this is all.
-/

namespace XBook.Shell

open Keys

/-- A key that `read` delivers. -/
abbrev Key := { key : UInt32 // Delivered key }

/-- The buffer with what comes behind it, the place of `pos` in it, and the places that have been
stored to. -/
structure LineState where
  buf : Nat → UInt8
  pos : Nat
  stored : List Nat

/-- What `read_key` does with a key. -/
def LineState.readKey (s : LineState) (key : UInt32) : LineState :=
  if 0 < key.toBitVec.toInt ∨ key &&& flagPad ≠ 0 then
    { s with buf := Function.update s.buf s.pos key.toUInt8, stored := s.pos :: s.stored }
  else s

/-- The buffer before the first key. -/
def LineState.start (buf : Nat → UInt8) : LineState := ⟨buf, 0, []⟩

/-- `readline` waits for a key, has come to the end of the line, or gives up. -/
inductive LineStatus where
  | waiting
  | done
  | error
  deriving DecidableEq

/-- `readline`, up to the last one of some reads, of which those without a key are made again. -/
def readline (count : Nat) : List (Option Key) → LineState → LineState × LineStatus
  | [], s => (s, .waiting)
  | none :: reads, s => readline count reads s
  | some key :: reads, s =>
      let s₁ := s.readKey key
      if s₁.pos < count then
        if s₁.buf s₁.pos = 0x0A then
          ({ s₁ with buf := Function.update s₁.buf s₁.pos 0, stored := s₁.pos :: s₁.stored }, .done)
        else if s₁.buf s₁.pos = 0x08 then
          readline count reads (if s₁.buf 0 ≠ 0x08 then { s₁ with pos := s₁.pos - 1 } else s₁)
        else readline count reads { s₁ with pos := s₁.pos + 1 }
      else (s₁, .error)

/-! ## What should happen -/

/-- What a character does to the line: a backspace takes the last one off, if there is one. -/
def edit (line : List UInt8) (c : UInt8) : List UInt8 :=
  if c = 0x08 then line.dropLast else line ++ [c]

/-- The line that is there when Enter arrives, if it was never full before. -/
def entered (count : Nat) : List (Option Key) → List UInt8 → Option (List UInt8)
  | [], _ => none
  | none :: reads, line => entered count reads line
  | some key :: reads, line =>
      if count ≤ line.length then none
      else if key.1.toUInt8 = 0x0A then some line
      else entered count reads (edit line key.1.toUInt8)

/-- From a line that has been typed on, the stores are in the buffer, which holds the line with its
terminator when Enter has arrived before it was full. -/
def ReadlineRight (count : Nat) (reads : List (Option Key)) (line : List UInt8) (s : LineState) :
    Prop :=
  (∀ i ∈ (readline count reads s).1.stored, i < count) ∧
    ∀ last, entered count reads line = some last →
      (readline count reads s).2 = .done ∧
        ∀ i ≤ last.length, (readline count reads s).1.buf i = (last ++ [0]).getD i 0

/-- No key arrives at a full line. -/
def Fits (count : Nat) : List (Option Key) → List UInt8 → Prop
  | [], _ => True
  | none :: reads, line => Fits count reads line
  | some key :: reads, line =>
      line.length < count ∧ (key.1.toUInt8 ≠ 0x0A → Fits count reads (edit line key.1.toUInt8))

/-! ## One key -/

theorem Key.positive (key : Key) : 0 < key.1.toBitVec.toInt := by
  obtain ⟨hpos, hlt⟩ := key.2.bounds
  have hsmall : key.1.toNat < 0x10000 := hlt
  have hne : 0 < key.1.toNat := hpos
  rw [BitVec.toInt_eq_toNat_of_lt (by rw [UInt32.toNat_toBitVec]; omega), UInt32.toNat_toBitVec]
  omega

/-- Each key is stored. -/
theorem read_key_eq (s : LineState) (key : Key) : s.readKey key =
    { s with buf := Function.update s.buf s.pos key.1.toUInt8, stored := s.pos :: s.stored } :=
  if_pos (.inl key.positive)

/-- The buffer holds a line up to `pos`. -/
structure Holds (line : List UInt8) (s : LineState) : Prop where
  pos : s.pos = line.length
  chars : ∀ i < line.length, s.buf i = line.getD i 0
  noBackspace : 0x08 ∉ line

section

variable {count : Nat} {line : List UInt8} {s : LineState} {key : Key}

/-- A key at a full line is stored behind the buffer. -/
theorem readline_full (h : Holds line s) (hfull : count ≤ line.length)
    (reads : List (Option Key)) :
    line.length ∈ (readline count (some key :: reads) s).1.stored := by
  have hpos := h.pos
  rw [readline, read_key_eq]
  dsimp only
  rw [if_neg (by omega), ← hpos]
  exact List.mem_cons_self

/-- What is stored at `pos` comes behind the line. -/
theorem Holds.update (h : Holds line s) (c : UInt8) :
    ∀ i ≤ line.length, Function.update s.buf s.pos c i = (line ++ [c]).getD i 0 := by
  intro i hi
  rcases Nat.lt_or_eq_of_le hi with hlt | rfl
  · rw [Function.update_of_ne (by rw [h.pos]; omega), h.chars i hlt,
      List.getD_append _ _ _ _ hlt]
  · rw [← h.pos, Function.update_self, h.pos, List.getD_append_right _ _ _ _ (Nat.le_refl _),
      Nat.sub_self]
    rfl

/-- Enter ends the line. -/
theorem readline_enter (h : Holds line s) (hroom : line.length < count)
    (henter : key.1.toUInt8 = 0x0A) (reads : List (Option Key)) :
    (readline count (some key :: reads) s).2 = .done ∧
      (readline count (some key :: reads) s).1.stored = s.pos :: s.pos :: s.stored ∧
      ∀ i ≤ line.length,
        (readline count (some key :: reads) s).1.buf i = (line ++ [0]).getD i 0 := by
  have hpos := h.pos
  have hread : Function.update s.buf s.pos key.1.toUInt8 s.pos = 0x0A :=
    (Function.update_self ..).trans henter
  rw [readline, read_key_eq]
  dsimp only
  rw [if_pos (by omega), if_pos hread, Function.update_idem]
  exact ⟨rfl, rfl, h.update 0⟩

/-- Another key edits the line. -/
theorem readline_edit (h : Holds line s) (hroom : line.length < count)
    (henter : key.1.toUInt8 ≠ 0x0A) (reads : List (Option Key)) :
    ∃ t, Holds (edit line key.1.toUInt8) t ∧ t.stored = s.pos :: s.stored ∧
      readline count (some key :: reads) s = readline count reads t := by
  have hpos := h.pos
  have hstored := h.update key.1.toUInt8
  have hread : Function.update s.buf s.pos key.1.toUInt8 s.pos = key.1.toUInt8 :=
    Function.update_self ..
  rw [readline, read_key_eq]
  dsimp only
  rw [if_pos (by omega), if_neg (hread.trans_ne henter)]
  by_cases hback : key.1.toUInt8 = 0x08
  · rw [if_pos (hread.trans hback), edit, if_pos hback]
    have hfirst := hstored 0 (Nat.zero_le _)
    cases line with
    | nil =>
        -- The backspace itself is what the buffer begins with.
        have hkept : ¬Function.update s.buf s.pos key.1.toUInt8 0 ≠ 0x08 :=
          not_not.mpr (hfirst.trans hback)
        rw [if_neg hkept]
        refine ⟨_, ?_, ?_, rfl⟩
        · exact ⟨hpos, fun i hi => absurd hi (Nat.not_lt_zero i), h.noBackspace⟩
        · rfl
    | cons c line =>
        have hback' : Function.update s.buf s.pos key.1.toUInt8 0 ≠ 0x08 := by
          rw [hfirst]
          exact ne_of_mem_of_not_mem List.mem_cons_self h.noBackspace
        rw [if_pos hback']
        refine ⟨_, ⟨?_, ?_, ?_⟩, rfl, rfl⟩
        · rw [List.length_dropLast, hpos]
        · intro i hi
          rw [List.length_dropLast] at hi
          have hlt : i < (c :: line).length := Nat.lt_of_lt_of_le hi (Nat.sub_le _ _)
          refine (hstored i (Nat.le_of_lt hlt)).trans ?_
          rw [List.getD_append _ _ _ _ hlt, List.getD_eq_getElem?_getD, List.getD_eq_getElem?_getD,
            List.getElem?_dropLast, if_pos hi]
        · exact fun hmem => h.noBackspace (List.dropLast_subset _ hmem)
  · rw [if_neg (hread.trans_ne hback), edit, if_neg hback]
    refine ⟨_, ⟨?_, ?_, ?_⟩, rfl, rfl⟩
    · rw [List.length_append, List.length_singleton, hpos]
    · intro i hi
      rw [List.length_append, List.length_singleton] at hi
      exact hstored i (by omega)
    · rw [List.mem_append, List.mem_singleton]
      rintro (hmem | heq)
      · exact h.noBackspace hmem
      · exact hback heq.symm

/-! ## All keys -/

theorem readline_right_iff (reads : List (Option Key)) : ∀ {line : List UInt8} {s : LineState},
    Holds line s → (∀ i ∈ s.stored, i < count) →
      (ReadlineRight count reads line s ↔ Fits count reads line) := by
  induction reads with
  | nil =>
      intro line s h hstored
      refine iff_of_true ⟨hstored, fun last hlast => ?_⟩ trivial
      cases hlast
  | cons read reads ih =>
      intro line s h hstored
      cases read with
      | none => exact ih h hstored
      | some key =>
          rw [Fits]
          by_cases hroom : line.length < count
          · have hpos : ∀ i ∈ s.pos :: s.stored, i < count :=
              List.forall_mem_cons.mpr ⟨h.pos ▸ hroom, hstored⟩
            rw [and_iff_right hroom]
            by_cases henter : key.1.toUInt8 = 0x0A
            · obtain ⟨hdone, hstores, hbuf⟩ := readline_enter h hroom henter reads
              refine iff_of_true ⟨?_, fun last hlast => ?_⟩ (absurd henter)
              · rw [hstores]
                exact List.forall_mem_cons.mpr ⟨h.pos ▸ hroom, hpos⟩
              · rw [entered, if_neg (Nat.not_le.mpr hroom), if_pos henter] at hlast
                cases hlast
                exact ⟨hdone, hbuf⟩
            · obtain ⟨t, hholds, hstores, hnext⟩ := readline_edit h hroom henter reads
              rw [ReadlineRight, hnext, entered, if_neg (Nat.not_le.mpr hroom), if_neg henter,
                ← ih hholds (hstores ▸ hpos), ReadlineRight]
              exact ⟨fun hright _ => hright, fun hright => hright henter⟩
          · have hfull := Nat.not_lt.mp hroom
            refine iff_of_false (fun hright => hroom ?_) fun hfits => hroom hfits.1
            exact hright.1 _ (readline_full h hfull reads)

end

/-- A line is read as it was typed, into the buffer only, exactly where no key arrives when the
buffer is full. -/
theorem readline_iff (count : Nat) (buf : Nat → UInt8) (reads : List (Option Key)) :
    ReadlineRight count reads [] (.start buf) ↔ Fits count reads [] :=
  readline_right_iff reads
    ⟨rfl, fun i hi => absurd hi (Nat.not_lt_zero i), List.not_mem_nil⟩
    fun _ hi => absurd hi List.not_mem_nil

/-- The key `a`. -/
def Key.a : Key := ⟨0x61, 0x61, by decide⟩

/-- The last of 129 characters is stored behind the buffer of the shell. -/
theorem last_key_behind : ¬∀ (count : Nat) (buf : Nat → UInt8) (reads : List (Option Key)),
    ReadlineRight count reads [] (.start buf) := by
  intro hall
  have hstored : 128 ∈ (readline 128 (List.replicate 129 (some Key.a))
      (.start fun _ => 0)).1.stored := by decide +kernel
  exact Nat.lt_irrefl 128 ((hall 128 (fun _ => 0) (List.replicate 129 (some Key.a))).1 128 hstored)

end XBook.Shell
