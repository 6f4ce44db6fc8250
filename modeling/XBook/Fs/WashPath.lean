import XBook.Fs.SearchDir
import Mathlib.Data.List.TakeWhile

/-!
# Washing a path

`BOFS_WashPath` and `BOFS_ParsePathAfterward` of `fs/bofs/dir.c`, with `strrchr` of
`share/string.c`. The new path is edited in place. Read `add_name` first: on the text of a stack of
names, a round of the loop is a push or a pop.
-/

namespace XBook.Paths

open DirTree (components split_cases)

/-- `strrchr`, with the position of the character for the pointer to it. -/
def strrchr (str : List Char) (c : Char) : Option Nat :=
  match str with
  | [] => none
  | a :: rest =>
      match strrchr rest c with
      | some p => some (p + 1)
      | none => if a = c then some 0 else none

/-- `BOFS_ParsePathAfterward`: the name that it stores, and what is left of the path. -/
def parsePathAfterward (pathname : List Char) : List Char × Option (List Char) :=
  let pathname := pathname.dropWhile (· = '/')
  let rest := pathname.dropWhile (· ≠ '/')
  (pathname.takeWhile (· ≠ '/'), if rest = [] then none else some rest)

/-- What a round of `BOFS_WashPath` does to the new path, with `none` where it has no slash. -/
def addName (newAbsPath name : List Char) : Option (List Char) :=
  if name = ['.', '.'] then
    match strrchr newAbsPath '/' with
    | none => none
    | some 0 => some (newAbsPath.take 1)
    | some p => some (newAbsPath.take p)
  else if name = ['.'] then some newAbsPath
  else if newAbsPath = ['/'] then some (newAbsPath ++ name)
  else some (newAbsPath ++ '/' :: name)

/-- The loop of `BOFS_WashPath`, with some rounds. A name that does not fit in its buffer has no
result. -/
def washLoop (newAbsPath name : List Char) (subPath : Option (List Char)) :
    Nat → Option (List Char)
  | 0 => none
  | rounds + 1 =>
      if bofsNameLen ≤ name.length then none
      else if name = [] then some newAbsPath
      else
        match addName newAbsPath name with
        | none => none
        | some newAbsPath =>
            match subPath with
            | none => washLoop newAbsPath [] none rounds
            | some subPath =>
                let (name, subPath) := parsePathAfterward subPath
                washLoop newAbsPath name subPath rounds

/-- `BOFS_WashPath`. The assertion fails for a path that does not start with a slash. -/
def washPath (oldAbsPath : List Char) : Option (List Char) :=
  if oldAbsPath.head? = some '/' then
    let (name, subPath) := parsePathAfterward oldAbsPath
    if name = [] then some ['/'] else washLoop ['/'] name subPath (oldAbsPath.length + 1)
  else none

/-! ## The normal form -/

/-- What a component does to the names before it. -/
def push (names : List (List Char)) (name : List Char) : List (List Char) :=
  if name = ['.', '.'] then names.dropLast
  else if name = ['.'] ∨ name = [] then names
  else names ++ [name]

/-- The names that are left of the components of a path. -/
def normalNames (path : List Char) : List (List Char) := (components path).foldl push []

/-- The absolute path of some names. -/
def joined (names : List (List Char)) : List Char :=
  if names = [] then ['/'] else names.flatMap ('/' :: ·)

/-- The normal form of an absolute path. -/
def normalForm (path : List Char) : List Char := joined (normalNames path)

/-- The name of an entry: no part of a path that is dropped, and without slashes. -/
structure Plain (name : List Char) : Prop where
  noSlash : '/' ∉ name
  nonempty : name ≠ []
  notDot : name ≠ ['.']
  notDotDot : name ≠ ['.', '.']

/-- The path is the root, or has no empty component, and none that is a dot or two. -/
def Washed (path : List Char) : Prop :=
  path = ['/'] ∨ path.head? = some '/' ∧ ∀ name ∈ components path, Plain name

/-! ## One round -/

theorem strrchr_append {before after : List Char} {c : Char} (h : c ∉ after) :
    strrchr (before ++ c :: after) c = some before.length := by
  have hnone : ∀ after : List Char, c ∉ after → strrchr after c = none := by
    intro after
    induction after with
    | nil => exact fun _ => rfl
    | cons a after ih =>
        intro h
        rw [List.mem_cons, not_or] at h
        rw [strrchr, ih h.2, if_neg (Ne.symm h.1)]
  induction before with
  | nil => rw [List.nil_append, strrchr, hnone after h, if_pos rfl, List.length_nil]
  | cons a before ih => rw [List.cons_append, strrchr, ih, List.length_cons]

theorem joined_append (names : List (List Char)) (name : List Char) :
    joined (names ++ [name]) = names.flatMap ('/' :: ·) ++ '/' :: name := by
  rw [joined, if_neg (by simp), List.flatMap_append, List.flatMap_singleton]

/-- The text is that of the root only without names. -/
theorem joined_eq_root {names : List (List Char)} (h : ∀ name ∈ names, Plain name) :
    joined names = ['/'] ↔ names = [] := by
  refine ⟨fun heq => ?_, fun heq => if_pos heq⟩
  rcases List.eq_nil_or_concat names with hnil | ⟨init, name, rfl⟩
  · exact hnil
  · rw [List.concat_eq_append] at h heq
    rw [joined_append] at heq
    have hlength := congrArg List.length heq
    have hname := List.length_pos_iff.mpr (h name (by simp)).nonempty
    simp only [List.length_append, List.length_cons, List.length_nil] at hlength
    omega

/-- Names stay plain. -/
theorem push_plain {names : List (List Char)} (h : ∀ name ∈ names, Plain name) {name : List Char}
    (hslash : '/' ∉ name) : ∀ x ∈ push names name, Plain x := by
  intro x hx
  rw [push] at hx
  split at hx
  · exact h x (List.mem_of_mem_dropLast hx)
  · next hdots =>
      split at hx
      · exact h x hx
      · next hdot =>
          rw [not_or] at hdot
          rcases List.mem_append.mp hx with hx | hx
          · exact h x hx
          · rw [List.mem_singleton.mp hx]
            exact ⟨hslash, hdot.2, hdot.1, hdots⟩

/-- A round of the loop pushes the name, or pops one. -/
theorem add_name {names : List (List Char)} (h : ∀ name ∈ names, Plain name) {name : List Char}
    (hname : name ≠ []) : addName (joined names) name = some (joined (push names name)) := by
  rw [addName.eq_def, push]
  by_cases hdots : name = ['.', '.']
  · rw [if_pos hdots, if_pos hdots]
    rcases List.eq_nil_or_concat names with rfl | ⟨init, last, rfl⟩
    · rfl
    · rw [List.concat_eq_append] at h ⊢
      rw [List.dropLast_concat, joined_append,
        strrchr_append (h last (by simp)).noSlash]
      cases init with
      | nil => rfl
      | cons first init =>
          have hjoined : joined (first :: init) = (first :: init).flatMap ('/' :: ·) :=
            if_neg (by simp)
          rw [hjoined]
          show some (List.take _ _) = _
          rw [List.take_left']
          rfl
  · rw [if_neg hdots, if_neg hdots]
    by_cases hdot : name = ['.']
    · rw [if_pos hdot, if_pos (.inl hdot)]
    · rw [if_neg hdot, if_neg (not_or.mpr ⟨hdot, hname⟩), joined_append]
      by_cases hroot : joined names = ['/']
      · obtain rfl := (joined_eq_root h).mp hroot
        rw [if_pos hroot]
        rfl
      · have hne : names ≠ [] := fun heq => hroot ((joined_eq_root h).mpr heq)
        rw [if_neg hroot, joined, if_neg hne]

/-! ## The loop -/

/-- The components behind a slash that are not empty. -/
def names (rest : List Char) : List (List Char) := (rest.splitOn '/').filter (· ≠ [])

/-- How the next name of a path comes apart from the names behind a slash. -/
inductive Parsed (rest : List Char) : List Char × Option (List Char) → Prop where
  | done : names rest = [] → Parsed rest ([], none)
  | last (name : List Char) : name ≠ [] → '/' ∉ name → names rest = [name] →
      Parsed rest (name, none)
  | more (name after : List Char) : name ≠ [] → '/' ∉ name → after.length < rest.length →
      names rest = name :: names after → Parsed rest (name, some ('/' :: after))

theorem split_on_slash (rest : List Char) :
    ('/' :: rest).splitOn '/' = [] :: rest.splitOn '/' := by
  rcases split_cases ('/' :: rest) with ⟨hno, -⟩ | ⟨w, r, heq, hw, hsplit⟩
  · simp at hno
  · cases w with
    | nil =>
        obtain rfl : rest = r := (List.cons.inj heq).2
        exact hsplit
    | cons c w =>
        obtain rfl : '/' = c := (List.cons.inj heq).1
        simp at hw

/-- `BOFS_ParsePathAfterward` passes the empty components, and takes the next one. -/
theorem parse_path (rest : List Char) : Parsed rest (parsePathAfterward ('/' :: rest)) := by
  induction rest with
  | nil => exact .done rfl
  | cons c rest ih =>
      by_cases hc : c = '/'
      · subst hc
        have hskip : parsePathAfterward ('/' :: '/' :: rest) = parsePathAfterward ('/' :: rest) :=
          rfl
        have hnames : names ('/' :: rest) = names rest := by
          rw [names, split_on_slash, List.filter_cons_of_neg (by simp), names]
        rw [hskip]
        generalize parsePathAfterward ('/' :: rest) = result at ih
        cases ih with
        | done hnone => exact .done (hnames.trans hnone)
        | last name hne hslash hlast => exact .last name hne hslash (hnames.trans hlast)
        | more name after hne hslash hlength hmore =>
            exact .more name after hne hslash (hlength.trans (by simp)) (hnames.trans hmore)
      · have hfirst : parsePathAfterward ('/' :: c :: rest) =
            ((c :: rest).takeWhile (· ≠ '/'), if (c :: rest).dropWhile (· ≠ '/') = [] then none
              else some ((c :: rest).dropWhile (· ≠ '/'))) := by
          simp only [parsePathAfterward, List.dropWhile_cons, decide_true, if_true, hc,
            decide_false, Bool.false_eq_true, if_false]
        rw [hfirst]
        rcases split_cases (c :: rest) with ⟨hno, hsplit⟩ | ⟨w, r, heq, hw, hsplit⟩
        · have hall : ∀ x ∈ c :: rest, decide (x ≠ '/') = true := by
            intro x hx
            simpa using ne_of_mem_of_not_mem hx hno
          rw [List.takeWhile_eq_self_iff.mpr hall, List.dropWhile_eq_nil_iff.mpr hall, if_pos rfl]
          exact .last _ (List.cons_ne_nil c rest) hno (by rw [names, hsplit]; rfl)
        · have hall : ∀ x ∈ w, decide (x ≠ '/') = true := by
            intro x hx
            simpa using ne_of_mem_of_not_mem hx hw
          have hne : w ≠ [] := by
            rintro rfl
            exact hc (List.cons.inj heq).1
          have hrest : (c :: rest).dropWhile (· ≠ '/') = '/' :: r := by
            rw [heq, List.dropWhile_append_of_pos hall]
            exact List.dropWhile_cons_of_neg (by simp)
          have hname : (c :: rest).takeWhile (· ≠ '/') = w := by
            rw [heq, List.takeWhile_append_of_pos hall, List.takeWhile_cons_of_neg (by simp),
              List.append_nil]
          have hlength : r.length < (c :: rest).length := by
            rw [heq, List.length_append, List.length_cons]
            omega
          rw [hname, hrest, if_neg (by simp)]
          refine .more w r hne hw hlength ?_
          rw [names, hsplit, List.filter_cons_of_pos (by simpa using hne), names]

/-- The loop folds the names that follow. -/
theorem wash_loop {rest : List Char} {stack : List (List Char)} {rounds : Nat}
    (hrounds : rest.length < rounds) (hplain : ∀ name ∈ stack, Plain name)
    (hshort : ∀ name ∈ names rest, name.length < bofsNameLen) :
    washLoop (joined stack) (parsePathAfterward ('/' :: rest)).1
      (parsePathAfterward ('/' :: rest)).2 rounds =
        some (joined ((names rest).foldl push stack)) := by
  induction rounds generalizing rest stack with
  | zero => simp at hrounds
  | succ rounds ih =>
      have hparsed := parse_path rest
      generalize parsePathAfterward ('/' :: rest) = result at hparsed
      rw [washLoop.eq_def]
      cases hparsed with
      | done hnone =>
          rw [hnone]
          rfl
      | last name hne hslash hlast =>
          have hname := hshort name (by simp [hlast])
          simp only [if_neg hname.not_ge, if_neg hne, add_name hplain hne, hlast]
          cases rounds with
          | zero =>
              obtain rfl : rest = [] := List.length_eq_zero_iff.mp (by omega)
              exact absurd hlast.symm (List.cons_ne_nil name [])
          | succ rounds => rfl
      | more name after hne hslash hlength hmore =>
          have hname := hshort name (by simp [hmore])
          simp only [if_neg hname.not_ge, if_neg hne, add_name hplain hne, hmore]
          exact ih (by omega) (push_plain hplain hslash) fun x hx => hshort x (by simp [hmore, hx])

/-- A long name has no result. -/
theorem wash_loop_long {rest : List Char} {stack : List (List Char)} {rounds : Nat}
    (hplain : ∀ name ∈ stack, Plain name)
    (hlong : ∃ name ∈ names rest, bofsNameLen ≤ name.length) :
    washLoop (joined stack) (parsePathAfterward ('/' :: rest)).1
      (parsePathAfterward ('/' :: rest)).2 rounds = none := by
  induction rounds generalizing rest stack with
  | zero => rfl
  | succ rounds ih =>
      have hparsed := parse_path rest
      generalize parsePathAfterward ('/' :: rest) = result at hparsed
      rw [washLoop.eq_def]
      obtain ⟨long, hmem, hlength⟩ := hlong
      cases hparsed with
      | done hnone =>
          rw [hnone] at hmem
          cases hmem
      | last name hne hslash hlast =>
          rw [hlast, List.mem_singleton] at hmem
          rw [hmem] at hlength
          exact if_pos hlength
      | more name after hne hslash _ hmore =>
          simp only [add_name hplain hne]
          split
          · rfl
          · next hname =>
              refine ih (push_plain hplain hslash) ⟨long, ?_, hlength⟩
              rw [hmore, List.mem_cons] at hmem
              refine hmem.resolve_left ?_
              rintro rfl
              exact hname hlength

/-! ## The result -/

/-- The names that are left are plain, and components of the path. -/
theorem fold_push {names comps : List (List Char)} (hnames : ∀ name ∈ names, Plain name)
    (hcomps : ∀ name ∈ comps, '/' ∉ name) :
    (∀ name ∈ comps.foldl push names, Plain name) ∧
      ∀ name ∈ comps.foldl push names, name ∈ names ∨ name ∈ comps := by
  induction comps generalizing names with
  | nil => exact ⟨hnames, fun name hname => .inl hname⟩
  | cons first comps ih =>
      obtain ⟨hplain, hmem⟩ := ih (push_plain hnames (hcomps first (by simp)))
        fun name hname => hcomps name (List.mem_cons_of_mem _ hname)
      refine ⟨hplain, fun name hname => ?_⟩
      rcases hmem name hname with hpushed | hlater
      · rw [push] at hpushed
        split at hpushed
        · exact .inl (List.mem_of_mem_dropLast hpushed)
        split at hpushed
        · exact .inl hpushed
        · rcases List.mem_append.mp hpushed with hold | hnew
          · exact .inl hold
          · exact .inr (List.mem_cons.mpr (.inl (List.mem_singleton.mp hnew)))
      · exact .inr (List.mem_cons_of_mem _ hlater)

/-- No component has a slash. -/
theorem mem_split_slash {rest name : List Char} (h : name ∈ rest.splitOn '/') : '/' ∉ name := by
  induction hlength : rest.length using Nat.strong_induction_on generalizing rest with
  | h n ih =>
      rcases split_cases rest with ⟨hno, hsplit⟩ | ⟨w, r, rfl, hw, hsplit⟩
      · rw [hsplit, List.mem_singleton] at h
        rwa [h]
      · rw [hsplit, List.mem_cons] at h
        rcases h with rfl | h
        · exact hw
        · refine ih r.length ?_ h rfl
          rw [← hlength, List.length_append, List.length_cons]
          omega

/-- The components of the path of some plain names are these names. -/
theorem split_joined {name : List Char} {names : List (List Char)}
    (h : ∀ x ∈ name :: names, '/' ∉ x) :
    (name ++ names.flatMap ('/' :: ·)).splitOn '/' = name :: names := by
  induction names generalizing name with
  | nil =>
      rw [List.flatMap_nil, List.append_nil]
      rcases split_cases name with ⟨-, hsplit⟩ | ⟨w, r, rfl, -, -⟩
      · exact hsplit
      · exact absurd (by simp) (h (w ++ '/' :: r) (by simp))
  | cons next names ih =>
      rw [List.flatMap_cons, List.cons_append]
      have hrest := ih fun x hx => h x (List.mem_cons_of_mem _ hx)
      rw [← hrest]
      exact List.splitOnP_append_cons_of_forall_mem (fun c hc => by
        simpa using ne_of_mem_of_not_mem hc (h name (by simp))) '/' (by simp) _

theorem components_joined {names : List (List Char)} (h : ∀ name ∈ names, Plain name)
    (hne : names ≠ []) : components (joined names) = names := by
  cases names with
  | nil => exact absurd rfl hne
  | cons name names =>
      rw [joined, if_neg hne, components, List.flatMap_cons, List.cons_append, List.tail_cons]
      exact split_joined fun x hx => (h x hx).noSlash

/-- Plain names are pushed as they are. -/
theorem fold_plain {names comps : List (List Char)} (h : ∀ name ∈ comps, Plain name) :
    comps.foldl push names = names ++ comps := by
  induction comps generalizing names with
  | nil => rw [List.foldl_nil, List.append_nil]
  | cons name comps ih =>
      have hname := h name (by simp)
      have hpush : push names name = names ++ [name] := by
        rw [push, if_neg hname.notDotDot, if_neg (not_or.mpr ⟨hname.notDot, hname.nonempty⟩)]
      rw [List.foldl_cons, hpush, ih fun x hx => h x (List.mem_cons_of_mem _ hx),
        List.append_assoc, List.singleton_append]

/-- Empty components are not pushed. -/
theorem fold_names (rest : List Char) (stack : List (List Char)) :
    (names rest).foldl push stack = (rest.splitOn '/').foldl push stack := by
  rw [names]
  induction rest.splitOn '/' generalizing stack with
  | nil => rfl
  | cons name comps ih =>
      by_cases hname : name = []
      · subst hname
        exact ih stack
      · rw [List.filter_cons_of_pos (by simpa using hname), List.foldl_cons, List.foldl_cons, ih]

/-- `BOFS_WashPath` is its loop: without a name there is nothing to do. -/
theorem wash_path_loop (rest : List Char) :
    washPath ('/' :: rest) = washLoop (joined []) (parsePathAfterward ('/' :: rest)).1
      (parsePathAfterward ('/' :: rest)).2 (rest.length + 2) := by
  rw [washPath, if_pos List.head?_cons]
  by_cases hname : (parsePathAfterward ('/' :: rest)).1 = []
  · simp only [hname]
    rfl
  · simp only [if_neg hname]
    rfl

theorem exists_rest {path : List Char} (habs : path.head? = some '/') :
    ∃ rest, path = '/' :: rest := by
  cases path with
  | nil => cases habs
  | cons c rest => exact ⟨rest, by rw [Option.some.inj habs]⟩

/-- What `BOFS_WashPath` gives for an absolute path. -/
theorem wash_path {path : List Char} (habs : path.head? = some '/')
    (hshort : ∀ name ∈ components path, name.length < bofsNameLen) :
    washPath path = some (normalForm path) := by
  obtain ⟨rest, rfl⟩ := exists_rest habs
  have hnames : ∀ name ∈ names rest, name.length < bofsNameLen := fun name hname =>
    hshort name (List.mem_of_mem_filter hname)
  rw [wash_path_loop, wash_loop (by omega) (by simp) hnames, fold_names]
  rfl

/-- A path with a long name has no result. -/
theorem wash_path_long {path : List Char} (habs : path.head? = some '/')
    (hlong : ∃ name ∈ components path, bofsNameLen ≤ name.length) : washPath path = none := by
  obtain ⟨rest, rfl⟩ := exists_rest habs
  obtain ⟨long, hmem, hlength⟩ := hlong
  have hnames : long ∈ names rest := by
    refine List.mem_filter.mpr ⟨hmem, decide_eq_true ?_⟩
    rintro rfl
    simp at hlength
  rw [wash_path_loop]
  exact wash_loop_long (by simp) ⟨long, hnames, hlength⟩

/-- The names that are left of a path are plain. -/
theorem normal_names_plain (path : List Char) : ∀ name ∈ normalNames path, Plain name :=
  (fold_push (by simp) fun _ hname => mem_split_slash hname).1

/-- The normal form is washed. -/
theorem normal_form_washed (path : List Char) : Washed (normalForm path) := by
  have hplain := normal_names_plain path
  by_cases hne : normalNames path = []
  · exact .inl (if_pos hne)
  · refine .inr ⟨?_, ?_⟩
    · rw [normalForm, joined, if_neg hne]
      cases hnames : normalNames path with
      | nil => exact absurd hnames hne
      | cons name names => rfl
    · rw [normalForm, components_joined hplain hne]
      exact hplain

/-- A washed path is its own normal form. -/
theorem normal_form_fixed (path : List Char) : normalForm (normalForm path) = normalForm path := by
  have hplain := normal_names_plain path
  by_cases hne : normalNames path = []
  · have hroot : normalForm path = ['/'] := if_pos hne
    rw [hroot]
    rfl
  · have hnames : normalNames (normalForm path) = normalNames path := by
      rw [normalNames, normalForm, components_joined hplain hne, fold_plain hplain, List.nil_append]
    rw [normalForm, hnames, normalForm]

/-- `BOFS_WashPath` gives the normal form, which is washed, and which it leaves as it is. -/
theorem wash_path_normal (path : List Char) (habs : path.head? = some '/')
    (hshort : ∀ name ∈ components path, name.length < bofsNameLen) :
    washPath path = some (normalForm path) ∧ Washed (normalForm path) ∧
      washPath (normalForm path) = some (normalForm path) := by
  refine ⟨wash_path habs hshort, normal_form_washed path, ?_⟩
  have hwashed := normal_form_washed path
  have hfixed := normal_form_fixed path
  by_cases hne : normalNames path = []
  · have hroot : normalForm path = ['/'] := if_pos hne
    rw [hroot]
    rfl
  · have hcomps : components (normalForm path) = normalNames path :=
      components_joined (normal_names_plain path) hne
    have hhead : (normalForm path).head? = some '/' := by
      rcases hwashed with hroot | ⟨hhead, -⟩
      · rw [hroot]
        rfl
      · exact hhead
    have hagain := wash_path hhead (by
      rw [hcomps]
      intro name hname
      refine hshort name ?_
      exact ((fold_push (by simp) fun _ hname => mem_split_slash hname).2 name hname).resolve_left
        (by simp))
    rwa [hfixed] at hagain

/-- A path with every kind of component. -/
theorem mixed_path_washed : washPath "/a//./b/../../../c".toList = some "/c".toList ∧
    Washed "/c".toList ∧ washPath "/c".toList = some "/c".toList := by
  have hnormal : normalForm "/a//./b/../../../c".toList = "/c".toList := by decide +kernel
  have h := wash_path_normal "/a//./b/../../../c".toList (by decide +kernel) (by decide +kernel)
  rwa [hnormal] at h

end XBook.Paths
