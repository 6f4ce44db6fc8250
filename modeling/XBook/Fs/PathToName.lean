import XBook.Fs.OpenCreate

/-!
# The name of a path

`BOFS_PathToName` of `fs/bofs/dir.c` with the bytes that it stores and reads. Its copy loop ends at
a slash or with the buffer, but not at the terminator, so the last component is never copied without
leaving the path or the buffer. `path_to_name_iff` says for which paths it is left out.
-/

namespace XBook.Paths

open DirTree

/-- A run of `BOFS_PathToName`: the string in `namebuf`, unless it fails, how many bytes of `name`
and of `namebuf` have been stored to, and how far the path has been read. -/
structure NameRun where
  result : Option (List Char)
  name : Nat
  namebuf : Nat
  read : Nat

/-- The loop of `BOFS_PathToName` at a slash of the path. -/
def nameLoop (mem : Nat → Char) (p left : Nat) : NameRun :=
  let copied := copyName mem (p + 1) bofsNameLen
  let stored := copied.1.length + 1
  if cString copied.1 = [] then ⟨none, stored, 0, copied.2⟩
  else
    match left with
    | 0 => ⟨some (cString copied.1), stored, (cString copied.1).length + 1, copied.2⟩
    | left + 1 =>
        let next := nameLoop mem copied.2 left
        ⟨next.result, max stored next.name, next.namebuf, next.read⟩

/-- `BOFS_PathToName`, which first counts the slashes of an absolute path. -/
def nameRun (path : List Char) (beyond : Nat → Char) : NameRun :=
  if path.head? ≠ some '/' then ⟨none, 0, 0, 0⟩
  else if 0 < depth path then
    let run := nameLoop (charAt path beyond) 0 ((depth path).toNat - 1)
    ⟨run.result, run.name, run.namebuf, max path.length run.read⟩
  else ⟨none, 0, 0, path.length⟩

/-- A run fails or gives the last component, within both buffers and the path. -/
structure NameRight (path : List Char) (run : NameRun) : Prop where
  result : ∀ name ∈ run.result, name = lastName path
  name : run.name ≤ bofsNameLen
  namebuf : run.namebuf ≤ bofsNameLen
  read : run.read ≤ path.length

/-- Some components, of which no more than one are left to go behind the first, are left before the
last one: at an empty one, or at one that is equal to the last. -/
def LeftBefore (last : List Char) : List (List Char) → Nat → Prop
  | [], _ => False
  | w :: names, left =>
      names ≠ [] ∧ (w = [] ∨ w.length < bofsNameLen ∧
        if left = 0 then w = last else LeftBefore last names (left - 1))

/-! ## One round -/

section

variable {mem : Nat → Char} {p left : Nat}

/-- A round that comes to an empty name. -/
theorem name_loop_empty (h : cString (copyName mem (p + 1) bofsNameLen).1 = []) :
    nameLoop mem p left =
      ⟨none, (copyName mem (p + 1) bofsNameLen).1.length + 1, 0,
        (copyName mem (p + 1) bofsNameLen).2⟩ := by
  cases left <;> rw [nameLoop] <;> exact if_pos h

/-- The round that gives its name. -/
theorem name_loop_given (h : cString (copyName mem (p + 1) bofsNameLen).1 ≠ []) :
    nameLoop mem p 0 =
      ⟨some (cString (copyName mem (p + 1) bofsNameLen).1),
        (copyName mem (p + 1) bofsNameLen).1.length + 1,
        (cString (copyName mem (p + 1) bofsNameLen).1).length + 1,
        (copyName mem (p + 1) bofsNameLen).2⟩ := by
  rw [nameLoop]
  exact if_neg h

/-- A round that goes on with the next name. -/
theorem name_loop_next (h : cString (copyName mem (p + 1) bofsNameLen).1 ≠ []) :
    nameLoop mem p (left + 1) =
      ⟨(nameLoop mem (copyName mem (p + 1) bofsNameLen).2 left).result,
        max ((copyName mem (p + 1) bofsNameLen).1.length + 1)
          (nameLoop mem (copyName mem (p + 1) bofsNameLen).2 left).name,
        (nameLoop mem (copyName mem (p + 1) bofsNameLen).2 left).namebuf,
        (nameLoop mem (copyName mem (p + 1) bofsNameLen).2 left).read⟩ := by
  rw [nameLoop]
  exact if_neg h

/-- What has been read and stored to stays so. -/
theorem name_loop_le (mem : Nat → Char) (p left : Nat) :
    (copyName mem (p + 1) bofsNameLen).2 ≤ (nameLoop mem p left).read ∧
      (copyName mem (p + 1) bofsNameLen).1.length < (nameLoop mem p left).name := by
  induction left generalizing p with
  | zero =>
      by_cases hempty : cString (copyName mem (p + 1) bofsNameLen).1 = []
      · rw [name_loop_empty hempty]
        exact ⟨le_rfl, Nat.lt_succ_self _⟩
      · rw [name_loop_given hempty]
        exact ⟨le_rfl, Nat.lt_succ_self _⟩
  | succ left ih =>
      by_cases hempty : cString (copyName mem (p + 1) bofsNameLen).1 = []
      · rw [name_loop_empty hempty]
        exact ⟨le_rfl, Nat.lt_succ_self _⟩
      · have hle := copy_name_le mem ((copyName mem (p + 1) bofsNameLen).2 + 1) bofsNameLen
        rw [name_loop_next hempty]
        exact ⟨((Nat.le_succ _).trans hle).trans (ih _).1, Nat.lt_of_succ_le (le_max_left _ _)⟩

end

/-- The text in `namebuf` is the one that `BOFS_Open` takes. -/
theorem name_loop_result (mem : Nat → Char) (p left : Nat) :
    (nameLoop mem p left).result = pathToNameLoop mem p left := by
  induction left generalizing p with
  | zero =>
      rw [pathToNameLoop]
      by_cases hempty : cString (copyName mem (p + 1) bofsNameLen).1 = []
      · rw [name_loop_empty hempty, if_pos hempty]
      · rw [name_loop_given hempty, if_neg hempty]
  | succ left ih =>
      rw [pathToNameLoop]
      by_cases hempty : cString (copyName mem (p + 1) bofsNameLen).1 = []
      · rw [name_loop_empty hempty, if_pos hempty]
      · rw [name_loop_next hempty, if_neg hempty]
        exact ih _

theorem name_run_result (path : List Char) (beyond : Nat → Char) :
    (nameRun path beyond).result = pathToName path beyond := by
  rw [nameRun, pathToName]
  by_cases habsolute : path.head? ≠ some '/'
  · rw [if_pos habsolute, if_pos habsolute]
  · rw [if_neg habsolute, if_neg habsolute]
    by_cases hdepth : 0 < depth path
    · rw [if_pos hdepth, if_pos hdepth]
      dsimp only
      rw [name_loop_result]
    · rw [if_neg hdepth, if_neg hdepth]

/-! ## The components -/

section

variable {path rest w r : List Char} {beyond : Nat → Char} {p left : Nat}

/-- A component that fills the buffer leaves it. -/
theorem name_loop_long (h : path.drop p = '/' :: (w ++ r)) (hw : '/' ∉ w)
    (hlong : bofsNameLen ≤ w.length) :
    ¬NameRight path (nameLoop (charAt path beyond) p left) := by
  intro hright
  obtain ⟨-, hname⟩ := name_loop_le (charAt path beyond) p left
  obtain ⟨-, hdrop⟩ := char_at_drop beyond h
  have hfits := hright.name
  rw [copy_name_full beyond hdrop hw hlong, List.length_take_of_le hlong] at hname
  omega

/-- Another last component leaves the path. -/
theorem name_loop_last (h : path.drop p = '/' :: w) (hw : '/' ∉ w) :
    ¬NameRight path (nameLoop (charAt path beyond) p left) := by
  by_cases hlong : bofsNameLen ≤ w.length
  · exact name_loop_long (h.trans (congrArg _ (List.append_nil w).symm)) hw hlong
  · intro hright
    have hinside := hright.read
    obtain ⟨hread, -⟩ := name_loop_le (charAt path beyond) p left
    obtain ⟨-, hdrop⟩ := char_at_drop beyond h
    have hp : p + 1 ≤ path.length := by
      have hlen := congrArg List.length h
      rw [List.length_drop, List.length_cons] at hlen
      omega
    obtain ⟨junk, -, hbeyond⟩ := copy_name_end beyond hdrop hp hw (Nat.not_le.mp hlong)
    omega

/-- A component with a slash behind it, which the next round begins at. -/
structure Passed (path : List Char) (beyond : Nat → Char) (p : Nat) (w r : List Char) : Prop where
  short : w.length < bofsNameLen
  copied : copyName (charAt path beyond) (p + 1) bofsNameLen = (w, p + 1 + w.length)
  string : cString w = w
  next : path.drop (p + 1 + w.length) = '/' :: r
  inside : p + 1 + w.length ≤ path.length

/-- The first component is the last one, or fills the buffer, or is passed. -/
theorem first_component (beyond : Nat → Char) (hnul : '\x00' ∉ path)
    (h : path.drop p = '/' :: rest) :
    (∀ left, ¬NameRight path (nameLoop (charAt path beyond) p left) ∧
      ¬LeftBefore (lastName path) (rest.splitOn '/') left) ∨
    ∃ w r, rest.splitOn '/' = w :: r.splitOn '/' ∧ Passed path beyond p w r := by
  rcases split_cases rest with ⟨hrest, hsplit⟩ | ⟨w, r, rfl, hw, hsplit⟩
  · refine .inl fun left => ⟨name_loop_last h hrest, ?_⟩
    rw [hsplit, LeftBefore]
    exact fun hleft => hleft.1 rfl
  · by_cases hlong : bofsNameLen ≤ w.length
    · refine .inl fun left => ⟨name_loop_long h hw hlong, ?_⟩
      rw [hsplit, LeftBefore]
      rintro ⟨-, hempty | ⟨hshort, -⟩⟩
      · rw [hempty] at hlong
        exact absurd hlong (by decide)
      · omega
    · obtain ⟨-, hdrop⟩ := char_at_drop beyond h
      have hnulw : '\x00' ∉ w := by
        intro hmem
        refine hnul (List.mem_of_mem_drop (i := p + 1) ?_)
        rw [hdrop]
        exact List.mem_append_left _ hmem
      have hnext : path.drop (p + 1 + w.length) = '/' :: r := by
        rw [← List.drop_drop, hdrop, List.drop_left' rfl]
      exact .inr ⟨w, r, hsplit, {
        short := Nat.not_le.mp hlong
        copied := copy_name_slash beyond hdrop hw (Nat.le_of_not_le hlong)
        string := c_string_eq hnulw
        next := hnext
        inside := by
          have hlen := congrArg List.length hnext
          rw [List.length_drop, List.length_cons] at hlen
          omega }⟩

/-- An empty component makes the call fail. -/
theorem Passed.empty (h : Passed path beyond p w r) (hempty : w = []) :
    NameRight path (nameLoop (charAt path beyond) p left) := by
  have hinside := h.inside
  have hstring : cString (copyName (charAt path beyond) (p + 1) bofsNameLen).1 = [] := by
    rw [h.copied, h.string, hempty]
  rw [name_loop_empty hstring, h.copied]
  refine ⟨?_, h.short, Nat.zero_le _, hinside⟩
  rintro name ⟨⟩

/-- From every slash of the path on, the loop is right exactly where it is left before the last
component. -/
theorem name_loop_iff (beyond : Nat → Char) (hnul : '\x00' ∉ path) (h : path.drop p = '/' :: rest) :
    NameRight path (nameLoop (charAt path beyond) p left) ↔
      LeftBefore (lastName path) (rest.splitOn '/') left := by
  induction left generalizing p rest with
  | zero =>
      rcases first_component beyond hnul h with hfalse | ⟨w, r, hsplit, hpassed⟩
      · exact iff_of_false (hfalse 0).1 (hfalse 0).2
      · rw [hsplit, LeftBefore, and_iff_right (List.splitOn_ne_nil '/' r)]
        by_cases hempty : w = []
        · exact iff_of_true (hpassed.empty hempty) (.inl hempty)
        · rw [or_iff_right hempty, and_iff_right hpassed.short, if_pos rfl]
          have hstring : cString (copyName (charAt path beyond) (p + 1) bofsNameLen).1 = w := by
            rw [hpassed.copied, hpassed.string]
          rw [name_loop_given (hstring.trans_ne hempty), hstring, hpassed.copied]
          constructor
          · intro hright
            exact hright.result w rfl
          · rintro rfl
            exact ⟨fun name hname => (Option.some.inj hname).symm, hpassed.short, hpassed.short,
              hpassed.inside⟩
  | succ left ih =>
      rcases first_component beyond hnul h with hfalse | ⟨w, r, hsplit, hpassed⟩
      · exact iff_of_false (hfalse (left + 1)).1 (hfalse (left + 1)).2
      · rw [hsplit, LeftBefore, and_iff_right (List.splitOn_ne_nil '/' r)]
        by_cases hempty : w = []
        · exact iff_of_true (hpassed.empty hempty) (.inl hempty)
        · rw [or_iff_right hempty, and_iff_right hpassed.short, if_neg (Nat.succ_ne_zero left),
            Nat.add_sub_cancel, ← ih hpassed.next]
          have hstring : cString (copyName (charAt path beyond) (p + 1) bofsNameLen).1 = w := by
            rw [hpassed.copied, hpassed.string]
          rw [name_loop_next (hstring.trans_ne hempty), hpassed.copied]
          constructor
          · intro hright
            exact ⟨hright.result, (le_max_right _ _).trans hright.name, hright.namebuf, hright.read⟩
          · intro hright
            exact ⟨hright.result, max_le hpassed.short hright.name, hright.namebuf, hright.read⟩

end

/-- The name of an absolute path is given, or the call fails, within the buffers and the path,
exactly where a `char` counts no slashes, or the components are left before the last one. -/
theorem path_to_name_iff {path : List Char} (hnul : '\x00' ∉ path)
    (habsolute : path.head? = some '/') (beyond : Nat → Char) :
    NameRight path (nameRun path beyond) ↔
      depth path ≤ 0 ∨
        LeftBefore (lastName path) (components path) ((depth path).toNat - 1) := by
  obtain ⟨rest, rfl⟩ : ∃ rest, path = '/' :: rest := by
    cases path with
    | nil => cases habsolute
    | cons c rest =>
        cases habsolute
        exact ⟨rest, rfl⟩
  rw [nameRun, if_neg (not_not.mpr habsolute)]
  by_cases hdepth : 0 < depth ('/' :: rest)
  · have hdrop : ('/' :: rest).drop 0 = '/' :: rest := List.drop_zero
    rw [if_pos hdepth, or_iff_right (Int.not_le.mpr hdepth), components, List.tail_cons,
      ← name_loop_iff beyond hnul hdrop]
    generalize nameLoop (charAt ('/' :: rest) beyond) 0 ((depth ('/' :: rest)).toNat - 1) = run
    constructor
    · intro hright
      exact ⟨hright.result, hright.name, hright.namebuf, (le_max_right _ _).trans hright.read⟩
    · intro hright
      exact ⟨hright.result, hright.name, hright.namebuf, max_le le_rfl hright.read⟩
  · rw [if_neg hdepth]
    refine iff_of_true ⟨?_, Nat.zero_le _, Nat.zero_le _, le_rfl⟩ (.inl (Int.not_lt.mp hdepth))
    rintro name ⟨⟩

/-- An empty component before the last one. -/
theorem double_slash_fails : NameRight "//a".toList (nameRun "//a".toList fun _ => 'a') :=
  (path_to_name_iff (by decide) (by decide) _).mpr
    (.inr ⟨by decide, .inl (by decide)⟩)

/-- A path with one component is read behind its terminator. -/
theorem terminator_passed : ¬∀ path : List Char, '\x00' ∉ path → path.head? = some '/' →
    ∀ beyond, NameRight path (nameRun path beyond) := by
  intro hall
  have hread : (nameRun ['/', 'a'] fun _ => '/').read = 3 := by decide
  have hinside := (hall ['/', 'a'] (by decide) (by decide) fun _ => '/').read
  rw [hread] at hinside
  revert hinside
  decide

end XBook.Paths
