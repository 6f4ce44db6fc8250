import Mathlib.Data.List.TakeWhile
import Mathlib.Logic.Function.Basic
import XBook.Lib.Words

/-!
# The command line of the shell

`cmd_parse` of `bin/bosh/main.c` with the stores that it makes in `argv`, and what `main` does with
its result. The limit is tested behind the store and lets one word too many pass, so `argv` is left
by 16 words or more; `cmd_parse_iff` gives the lines on which both are right.
-/

namespace XBook.Shell

open Words

/-- `MAX_ARG_NR`. -/
abbrev maxArgNr : Nat := 16

/-- The buffer of the line up to its terminator, the slots of `argv` with the places in the line
that they point to, and the slots that have been stored to. -/
structure ParseState where
  cmdStr : List Char
  argv : Nat → Option Nat
  stored : List Nat

namespace ParseState

variable (s : ParseState)

/-- `argv[i] = value`. -/
def store (i : Nat) (value : Option Nat) : ParseState :=
  { s with argv := Function.update s.argv i value, stored := i :: s.stored }

/-- `*next`, which is 0 at the end of the line. -/
def char (next : Nat) : Char := s.cmdStr.getD next '\x00'

/-- A loop that moves `next` on while its characters pass a test. -/
def skip (test : Char → Bool) (next : Nat) : Nat :=
  next + ((s.cmdStr.drop next).takeWhile test).length

/-- What ends a word: the separator behind it becomes 0. -/
def endWord (next : Nat) : ParseState × Nat :=
  if s.char next = '\x00' then (s, next)
  else ({ s with cmdStr := s.cmdStr.set next '\x00' }, next + 1)

/-- The string that a slot points to. -/
def string (i : Nat) : Option (List Char) :=
  (s.argv i).map fun next => (s.cmdStr.drop next).takeWhile (· ≠ '\x00')

end ParseState

/-- The loop over the words. -/
def parseLoop (token : Char) : Nat → Nat → Nat → ParseState → Option (Int × ParseState)
  | 0, _, _, _ => none
  | fuel + 1, next, argc, s =>
      if s.char next = '\x00' then some (argc, s)
      else
        let start := s.skip (· = token) next
        if s.char start = '\x00' then some (argc, s)
        else
          let word := s.store argc (some start)
          let ended := word.endWord (word.skip (fun c => c ≠ '\x00' ∧ c ≠ token) start)
          if argc > maxArgNr then some (-1, ended.1)
          else parseLoop token fuel ended.2 (argc + 1) (ended.1.store (argc + 1) none)

/-- The loop that stores `NULL` in the slots. -/
def ParseState.cleared (line : List Char) : ParseState :=
  ⟨line, fun _ => none, List.range maxArgNr⟩

/-- `cmd_parse`. -/
def cmdParse (line : List Char) (token : Char) : Option (Int × ParseState) :=
  parseLoop token (line.length + 1) 0 0 (.cleared line)

/-- What the body of `main` does with a line: it goes on with the next one, or it calls
`buildin_cmd`. -/
inductive MainStep where
  | empty
  | exceeded
  | buildin (argc : Int) (s : ParseState)

/-- The body of `main`. -/
def mainStep (line : List Char) : Option MainStep :=
  if line = [] then some .empty
  else (cmdParse line ' ').map fun (argc, s) => if argc = -1 then .exceeded else .buildin argc s

/-- The call reads the string of `argv[0]`, as `buildin_cmd` does first. -/
def MainStep.LooksAtFirst : MainStep → Prop
  | .buildin _ _ => True
  | _ => False

/-! ## What should happen -/

/-- The words of the line, or -1 where there are too many, with nothing stored outside of `argv`,
also by the caller. -/
def ParseRight (line : List Char) (token : Char) : Prop :=
  ∃ argc s, cmdParse line token = some (argc, s) ∧ (∀ i ∈ s.stored, i < maxArgNr) ∧
    (argc = -1 ∧ maxArgNr ≤ (words token line).length ∨
      argc = (words token line).length ∧ (words token line).length < maxArgNr ∧
        ∀ i < (words token line).length, s.string i = (words token line)[i]?)

/-- The first word is not looked at where there is none. -/
def MainRight (line : List Char) : Prop :=
  ∃ step, mainStep line = some step ∧ (words ' ' line = [] → ¬step.LooksAtFirst)

/-! ## One round -/

section

variable {s : ParseState} {next argc : Nat} {token : Char} {rest : List Char}

theorem char_of_drop (h : s.cmdStr.drop next = rest) : s.char next = rest.headD '\x00' := by
  rw [ParseState.char, ← h, List.getD_eq_getElem?_getD, List.headD_eq_head?_getD, List.head?_drop]

/-- Behind the characters that a loop passes over are the others. -/
theorem drop_skip (test : Char → Bool) (h : s.cmdStr.drop next = rest) :
    s.cmdStr.drop (s.skip test next) = rest.dropWhile test := by
  rw [ParseState.skip, ← List.drop_drop, h]
  nth_rewrite 2 [← @List.takeWhile_append_dropWhile _ test rest]
  exact List.drop_left' rfl

/-- What a round does with a word: it has a slot, and what the line holds up to the next word gives
its string, whatever becomes of the line behind it. -/
structure Round (token : Char) (s : ParseState) (next argc : Nat) (rest w : List Char)
    (s₁ : ParseState) (next₁ : Nat) (rest₁ : List Char) : Prop where
  words : words token rest = w :: Words.words token rest₁
  shorter : rest₁.length < rest.length
  nul : '\x00' ∉ rest₁
  drop : s₁.cmdStr.drop next₁ = rest₁
  stored : s₁.stored = argc :: s.stored
  others : ∀ i ≠ argc, s₁.argv i = s.argv i
  le : next ≤ next₁
  before : s₁.cmdStr.take next = s.cmdStr.take next
  string : ∀ t : ParseState, t.argv argc = s₁.argv argc →
    t.cmdStr.take next₁ = s₁.cmdStr.take next₁ → (rest₁ = [] → t.cmdStr = s₁.cmdStr) →
      t.string argc = some w

/-- A line without a word ends the loop. -/
theorem parse_loop_none (hdrop : s.cmdStr.drop next = rest) (hnone : words token rest = [])
    (fuel : Nat) : parseLoop token (fuel + 1) next argc s = some ((argc : Int), s) := by
  rw [parseLoop]
  split
  · rfl
  · have hend : s.char (s.skip (fun c => c = token) next) = '\x00' := by
      rw [char_of_drop (drop_skip _ hdrop)]
      cases words_cases token rest with
      | none hrest _ => rw [hrest]; rfl
      | last w hne hw hrest hwords =>
          rw [hwords] at hnone
          cases hnone
      | more w r hne hw hrest hwords =>
          rw [hwords] at hnone
          cases hnone
    dsimp only
    rw [if_pos hend]

/-- The characters of a word are passed over. -/
theorem word_passed {w : List Char} (hw : token ∉ w) (hnul : '\x00' ∉ w) :
    ∀ c ∈ w, decide (c ≠ '\x00' ∧ c ≠ token) = true := by
  intro c hc
  rw [decide_eq_true_iff]
  exact ⟨ne_of_mem_of_not_mem hc hnul, ne_of_mem_of_not_mem hc hw⟩

/-- A word that lies in the line up to a terminator is the string there. -/
theorem string_of_take {t : ParseState} {start last : Nat} {w r : List Char} (hnul : '\x00' ∉ w)
    (hline : t.cmdStr.take last = r) (hword : r.drop start = w ++ ['\x00']) :
    (t.cmdStr.drop start).takeWhile (· ≠ '\x00') = w := by
  have hle : start ≤ (t.cmdStr.take last).length := by
    rw [hline]
    by_contra hlt
    rw [List.drop_eq_nil_of_le (Nat.le_of_not_le hlt)] at hword
    simp at hword
  have hpart : t.cmdStr.drop start = w ++ '\x00' :: t.cmdStr.drop last := by
    conv_lhs => rw [← List.take_append_drop last t.cmdStr]
    rw [List.drop_append_of_le_length hle, hline, hword, List.append_assoc, List.singleton_append]
  rw [hpart, List.takeWhile_append_of_pos, List.takeWhile_cons_of_neg (by simp), List.append_nil]
  intro c hc
  simpa using ne_of_mem_of_not_mem hc hnul

/-- Where a word begins and ends. -/
theorem word_bounds {start : Nat} {w tail : List Char} (hstart : s.cmdStr.drop start = w ++ tail)
    (hne : w ≠ []) (hw : token ∉ w) (hnul : '\x00' ∉ w)
    (htail : tail.takeWhile (fun c => decide (c ≠ '\x00' ∧ c ≠ token)) = []) :
    s.char start ≠ '\x00' ∧
      s.skip (fun c => decide (c ≠ '\x00' ∧ c ≠ token)) start = start + w.length ∧
      s.cmdStr.drop (start + w.length) = tail := by
  refine ⟨?_, ?_, ?_⟩
  · rw [char_of_drop hstart]
    cases w with
    | nil => exact absurd rfl hne
    | cons c w => exact ne_of_mem_of_not_mem List.mem_cons_self hnul
  · rw [ParseState.skip, hstart, List.takeWhile_append_of_pos (word_passed hw hnul), htail,
      List.append_nil]
  · rw [← List.drop_drop, hstart, List.drop_left' rfl]

/-- One round of the loop. -/
theorem parse_loop_word (hdrop : s.cmdStr.drop next = rest) (hnul : '\x00' ∉ rest)
    (hsome : words token rest ≠ []) (fuel argc : Nat) :
    ∃ w s₁ next₁ rest₁, Round token s next argc rest w s₁ next₁ rest₁ ∧
      parseLoop token (fuel + 1) next argc s =
        if argc > maxArgNr then some (-1, s₁)
        else parseLoop token fuel next₁ (argc + 1) (s₁.store (argc + 1) none) := by
  have hstart := drop_skip (fun c => decide (c = token)) hdrop
  have hnext : next ≤ s.skip (fun c => decide (c = token)) next := Nat.le_add_right _ _
  have hsuffix := List.dropWhile_suffix (fun c => decide (c = token)) (l := rest)
  have hbegin : s.char next ≠ '\x00' := by
    rw [char_of_drop hdrop]
    cases rest with
    | nil => exact absurd words_nil hsome
    | cons c rest => exact ne_of_mem_of_not_mem List.mem_cons_self hnul
  rw [parseLoop, if_neg hbegin]
  generalize s.skip (fun c => decide (c = token)) next = start at hstart hnext ⊢
  dsimp only
  cases words_cases token rest with
  | none hrest hwords => exact absurd hwords hsome
  | last w hne hw hrest hwords =>
      rw [hrest] at hstart hsuffix
      have hnulw : '\x00' ∉ w := fun hmem => hnul (hsuffix.subset hmem)
      obtain ⟨hfirst, hskip, hafter⟩ := word_bounds
        (hstart.trans (List.append_nil w).symm) hne hw hnulw rfl
      have hword : (s.store argc (some start)).skip (fun c => c ≠ '\x00' ∧ c ≠ token) start =
          start + w.length := hskip
      have hend : (s.store argc (some start)).char (start + w.length) = '\x00' :=
        char_of_drop hafter
      rw [if_neg hfirst, hword, ParseState.endWord, if_pos hend]
      refine ⟨w, s.store argc (some start), start + w.length, [], ?_, rfl⟩
      exact {
        words := by rw [hwords, words_nil]
        shorter := List.length_pos_iff.mpr (fun hnil => hsome (hnil ▸ words_nil))
        nul := List.not_mem_nil
        drop := hafter
        stored := rfl
        others := fun i hi => Function.update_of_ne hi ..
        le := Nat.le_add_right_of_le hnext
        before := rfl
        string := by
          intro t hargv _ hsame
          have hline : t.cmdStr = s.cmdStr := hsame rfl
          have hslot : t.argv argc = some start := hargv.trans (Function.update_self ..)
          rw [ParseState.string, hslot, Option.map_some, hline, hstart,
            List.takeWhile_eq_self_iff.mpr]
          intro c hc
          simpa using ne_of_mem_of_not_mem hc hnulw }
  | more w r hne hw hrest hwords =>
      rw [hrest] at hstart hsuffix
      have hnulw : '\x00' ∉ w := fun hmem => hnul (hsuffix.subset (List.mem_append_left _ hmem))
      have htoken : token ≠ '\x00' := fun heq =>
        hnul (hsuffix.subset (List.mem_append_right _ (heq ▸ List.mem_cons_self)))
      obtain ⟨hfirst, hskip, hafter⟩ := word_bounds hstart hne hw hnulw
        (List.takeWhile_cons_of_neg (by simp))
      have hword : (s.store argc (some start)).skip (fun c => c ≠ '\x00' ∧ c ≠ token) start =
          start + w.length := hskip
      have hend : (s.store argc (some start)).char (start + w.length) ≠ '\x00' := by
        rw [show (s.store argc (some start)).char (start + w.length) = token from
          char_of_drop hafter]
        exact htoken
      rw [if_neg hfirst, hword, ParseState.endWord, if_neg hend]
      have hlast : start + w.length < s.cmdStr.length := by
        rw [← Nat.not_le, ← List.drop_eq_nil_iff, hafter]
        exact List.cons_ne_nil token r
      have hset : (s.cmdStr.set (start + w.length) '\x00').take (start + w.length + 1) =
          s.cmdStr.take (start + w.length) ++ ['\x00'] := by
        rw [List.take_add_one, List.take_set_of_le (Nat.le_refl _), List.getElem?_set_self hlast]
        rfl
      refine ⟨w, { s.store argc (some start) with
        cmdStr := s.cmdStr.set (start + w.length) '\x00' }, start + w.length + 1, r, ?_, rfl⟩
      exact {
        words := hwords
        shorter := by
          have hle := hsuffix.length_le
          rw [List.length_append, List.length_cons] at hle
          omega
        nul := fun hmem =>
          hnul (hsuffix.subset (List.mem_append_right _ (List.mem_cons_of_mem _ hmem)))
        drop := by
          show (s.cmdStr.set (start + w.length) '\x00').drop (start + w.length + 1) = r
          rw [List.drop_set_of_lt (by omega), ← List.drop_drop, hafter]
          rfl
        stored := rfl
        others := fun i hi => Function.update_of_ne hi ..
        le := by omega
        before := List.take_set_of_le (by omega)
        string := by
          intro t hargv hline _
          have hslot : t.argv argc = some start := hargv.trans (Function.update_self ..)
          rw [ParseState.string, hslot, Option.map_some]
          refine congrArg some (string_of_take hnulw (hline.trans hset) ?_)
          have hbefore : (s.cmdStr.take (start + w.length)).drop start = w := by
            rw [List.drop_take, hstart, Nat.add_sub_cancel_left, List.take_left' rfl]
          rw [List.drop_append_of_le_length (by rw [List.length_take]; omega), hbefore] }

end

/-! ## The whole line -/

/-- The loop comes to its end. -/
theorem parse_loop_total (token : Char) (fuel : Nat) :
    ∀ {next argc : Nat} {s : ParseState} {rest : List Char}, s.cmdStr.drop next = rest →
      '\x00' ∉ rest → rest.length < fuel →
      ∃ result, parseLoop token fuel next argc s = some result := by
  induction fuel with
  | zero => exact fun _ _ hfuel => absurd hfuel (Nat.not_lt_zero _)
  | succ fuel ih =>
      intro next argc s rest hdrop hnul hfuel
      by_cases hnone : words token rest = []
      · exact ⟨_, parse_loop_none hdrop hnone fuel⟩
      · obtain ⟨w, s₁, next₁, rest₁, hround, hloop⟩ := parse_loop_word hdrop hnul hnone fuel argc
        rw [hloop]
        split
        · exact ⟨_, rfl⟩
        · exact ih hround.drop hround.nul (by have := hround.shorter; omega)

/-- What the loop does with a line whose words all have a slot, and a slot behind them. -/
structure Parsed (token : Char) (s : ParseState) (next argc : Nat) (rest : List Char)
    (t : ParseState) : Prop where
  stored : ∀ i ∈ t.stored, i ∈ s.stored ∨ i < maxArgNr
  others : ∀ i < argc, t.argv i = s.argv i
  before : t.cmdStr.take next = s.cmdStr.take next
  same : rest = [] → t.cmdStr = s.cmdStr
  strings : ∀ i < (words token rest).length, t.string (argc + i) = (words token rest)[i]?

theorem parse_loop_fits (token : Char) (fuel : Nat) :
    ∀ {next argc : Nat} {s : ParseState} {rest : List Char}, s.cmdStr.drop next = rest →
      '\x00' ∉ rest → rest.length < fuel → argc + (words token rest).length < maxArgNr →
      ∃ t, parseLoop token fuel next argc s =
          some (((argc + (words token rest).length : Nat) : Int), t) ∧
        Parsed token s next argc rest t := by
  induction fuel with
  | zero => exact fun _ _ hfuel => absurd hfuel (Nat.not_lt_zero _)
  | succ fuel ih =>
      intro next argc s rest hdrop hnul hfuel hfits
      by_cases hnone : words token rest = []
      · refine ⟨s, ?_, ?_⟩
        · rw [parse_loop_none hdrop hnone, hnone]
          rfl
        · exact {
            stored := fun i hi => .inl hi
            others := fun i hi => rfl
            before := rfl
            same := fun _ => rfl
            strings := by
              intro i hi
              rw [hnone] at hi
              exact absurd hi (Nat.not_lt_zero i) }
      · obtain ⟨w, s₁, next₁, rest₁, hround, hloop⟩ := parse_loop_word hdrop hnul hnone fuel argc
        have hshorter := hround.shorter
        rw [hround.words, List.length_cons] at hfits ⊢
        rw [hloop, if_neg (by omega)]
        have hdrop₁ : (s₁.store (argc + 1) none).cmdStr.drop next₁ = rest₁ := hround.drop
        have hfits₁ : argc + 1 + (words token rest₁).length < maxArgNr := by omega
        obtain ⟨t, hrest, hparsed⟩ := ih hdrop₁ hround.nul (by omega) hfits₁
        have hothers : ∀ i ≤ argc, t.argv i = s₁.argv i := by
          intro i hi
          rw [hparsed.others i (by omega)]
          exact Function.update_of_ne (by omega) ..
        have hword : t.string argc = some w :=
          hround.string t (hothers argc (Nat.le_refl _)) hparsed.before hparsed.same
        refine ⟨t, by rw [hrest, Nat.add_right_comm, Nat.add_assoc], ?_⟩
        exact {
          stored := by
            intro i hi
            rcases hparsed.stored i hi with hold | hnew
            · rcases List.mem_cons.mp hold with rfl | hold
              · exact .inr (by omega)
              · rw [hround.stored] at hold
                rcases List.mem_cons.mp hold with rfl | hold
                · exact .inr (by omega)
                · exact .inl hold
            · exact .inr hnew
          others := by
            intro i hi
            rw [hothers i (by omega), hround.others i (by omega)]
          before := by
            have hbefore := congrArg (List.take next) hparsed.before
            rw [List.take_take, List.take_take, Nat.min_eq_left hround.le] at hbefore
            exact hbefore.trans hround.before
          same := by
            rintro rfl
            exact absurd words_nil hnone
          strings := by
            intro i hi
            rw [hround.words] at hi ⊢
            cases i with
            | zero => exact hword
            | succ i =>
                rw [List.getElem?_cons_succ, Nat.add_comm i 1, ← Nat.add_assoc]
                exact hparsed.strings i (by simpa using hi) }

/-- What has been stored to stays so. -/
theorem parse_loop_stored (token : Char) (fuel : Nat) :
    ∀ {next argc : Nat} {s t : ParseState} {value : Int},
      parseLoop token fuel next argc s = some (value, t) → s.stored ⊆ t.stored := by
  induction fuel with
  | zero =>
      intro next argc s t value h
      cases h
  | succ fuel ih =>
      intro next argc s t value h
      have hended : ∀ word : ParseState, ∀ last, (word.endWord last).1.stored = word.stored := by
        intro word last
        rw [ParseState.endWord]
        split <;> rfl
      rw [parseLoop] at h
      split at h
      · cases h
        exact List.Subset.refl _
      · dsimp only at h
        split at h
        · cases h
          exact List.Subset.refl _
        · split at h
          · cases h
            rw [hended]
            exact List.subset_cons_self _ _
          · have hstored := ih h
            rw [ParseState.store, hended] at hstored
            exact fun i hi =>
              hstored (List.mem_cons_of_mem _ (List.mem_cons_of_mem _ hi))

/-- A word too many leaves the slots. -/
theorem parse_loop_leaves (token : Char) (fuel : Nat) :
    ∀ {next argc : Nat} {s t : ParseState} {rest : List Char} {value : Int},
      s.cmdStr.drop next = rest → '\x00' ∉ rest → argc < maxArgNr →
      maxArgNr ≤ argc + (words token rest).length →
      parseLoop token fuel next argc s = some (value, t) → maxArgNr ∈ t.stored := by
  induction fuel with
  | zero =>
      intro next argc s t rest value _ _ _ _ h
      cases h
  | succ fuel ih =>
      intro next argc s t rest value hdrop hnul hargc hmany h
      have hsome : words token rest ≠ [] := by
        intro hnone
        rw [hnone] at hmany
        exact absurd hargc (Nat.not_lt.mpr hmany)
      obtain ⟨w, s₁, next₁, rest₁, hround, hloop⟩ := parse_loop_word hdrop hnul hsome fuel argc
      rw [hround.words, List.length_cons] at hmany
      rw [hloop, if_neg (Nat.not_lt.mpr hargc.le)] at h
      rcases Nat.lt_or_eq_of_le (Nat.succ_le_of_lt hargc) with hmore | hlast
      · have hdrop₁ : (s₁.store (argc + 1) none).cmdStr.drop next₁ = rest₁ := hround.drop
        exact ih hdrop₁ hround.nul hmore (by omega) h
      · exact parse_loop_stored token fuel h (hlast ▸ List.mem_cons_self)

/-- `cmd_parse` is right exactly where the words have slots and `NULL` one behind them. -/
theorem parse_right_iff {line : List Char} (hnul : '\x00' ∉ line) (token : Char) :
    ParseRight line token ↔ (words token line).length < maxArgNr := by
  constructor
  · rintro ⟨value, s, hparse, hstored, -⟩
    by_contra hmany
    have hleft := parse_loop_leaves token _ List.drop_zero hnul (Nat.succ_pos _)
      (by rw [Nat.zero_add]; exact Nat.not_lt.mp hmany) hparse
    exact absurd (hstored _ hleft) (Nat.lt_irrefl _)
  · intro hfits
    have hdrop : (ParseState.cleared line).cmdStr.drop 0 = line := List.drop_zero
    have hfits₀ : 0 + (words token line).length < maxArgNr := by rwa [Nat.zero_add]
    obtain ⟨t, hparse, hparsed⟩ : ∃ t, cmdParse line token =
        some (((0 + (words token line).length : Nat) : Int), t) ∧
          Parsed token (.cleared line) 0 0 line t :=
      parse_loop_fits token _ hdrop hnul (Nat.lt_succ_self _) hfits₀
    refine ⟨_, t, hparse, fun i hi => ?_, .inr ⟨by rw [Nat.zero_add], hfits, fun i hi => ?_⟩⟩
    · rcases hparsed.stored i hi with hfirst | hlater
      · exact List.mem_range.mp hfirst
      · exact hlater
    · rw [← hparsed.strings i hi, Nat.zero_add]

/-- `main` looks at a first word that is not there where the line holds separators only. -/
theorem main_right_iff {line : List Char} (hnul : '\x00' ∉ line) :
    MainRight line ↔ line = [] ∨ words ' ' line ≠ [] := by
  by_cases hempty : line = []
  · exact iff_of_true ⟨.empty, if_pos hempty, fun _ => not_false⟩ (.inl hempty)
  · rw [or_iff_right hempty]
    constructor
    · rintro ⟨step, hstep, hlooks⟩ hnone
      have hparse : cmdParse line ' ' = some (0, .cleared line) :=
        parse_loop_none List.drop_zero hnone _
      rw [mainStep, if_neg hempty, hparse] at hstep
      cases hstep
      exact hlooks hnone trivial
    · intro hsome
      have hdrop : (ParseState.cleared line).cmdStr.drop 0 = line := List.drop_zero
      obtain ⟨result, hparse⟩ : ∃ result, cmdParse line ' ' = some result :=
        parse_loop_total ' ' _ hdrop hnul (Nat.lt_succ_self _)
      have hstep : ∃ step, mainStep line = some step := by
        rw [mainStep, if_neg hempty, hparse]
        exact ⟨_, rfl⟩
      obtain ⟨step, hstep⟩ := hstep
      exact ⟨step, hstep, fun hnone => absurd hnone hsome⟩

/-- The command line is parsed and looked at as it should be exactly where `argv` has room for its
words and the `NULL` behind them, and the line is empty or has a word. -/
theorem cmd_parse_iff {line : List Char} (hnul : '\x00' ∉ line) (token : Char) :
    ParseRight line token ∧ MainRight line ↔
      (words token line).length < maxArgNr ∧ (line = [] ∨ words ' ' line ≠ []) :=
  and_congr (parse_right_iff hnul token) (main_right_iff hnul)

/-- A line with two words and separators around them. -/
theorem two_words_parsed : ParseRight " ls  / ".toList ' ' ∧ MainRight " ls  / ".toList :=
  (cmd_parse_iff (by decide) ' ').mpr (by decide)

/-- The first word of a line that is a single separator is looked at. -/
theorem blank_line_looked_at : ¬∀ line : List Char, '\x00' ∉ line →
    ∀ token, ParseRight line token ∧ MainRight line := by
  intro hall
  have hright := (main_right_iff (by decide)).mp (hall [' '] (by decide) ' ').2
  revert hright
  decide

end XBook.Shell
