import XBook.Fs.Rename
import XBook.Fs.WashPath

/-!
# Absolute paths

`BOFS_MakeAbsPath`, `BOFS_PathToDrive` and `BOFS_GetDriveByPath` of `fs/bofs/dir.c`, and what the
calls of `fs/symphyses.c` do with them before a path is searched. A string that does not fit in its
buffer has no result. `path_denotes_iff` says for which paths the calls go where the path says.
-/

namespace XBook.Paths

open DirTree (components split_cases)

/-- `MAX_PATH_LEN`. -/
abbrev maxPathLen : Nat := 256

/-- `BOFS_DRIVE_NAME_LEN`. -/
abbrev driveNameLen : Nat := 24

/-- `strchr`, with the rest of the string for the pointer into it. -/
def strchr (str : List Char) (c : Char) : Option (List Char) :=
  match str with
  | [] => none
  | a :: rest => if a = c then some (a :: rest) else strchr rest c

/-- `strcat` in a buffer of `size` bytes. -/
def strcat (size : Nat) (dest src : List Char) : Option (List Char) :=
  if dest.length + src.length < size then some (dest ++ src) else none

/-- `strmet`, into a buffer of `size` bytes. -/
def strmet (size : Nat) (src : List Char) (ch : Char) : Option (List Char) :=
  let buf := src.takeWhile (· ≠ ch)
  if buf.length < size then some buf else none

/-- `BOFS_PathToDrive`, into a buffer of `BOFS_DRIVE_NAME_LEN` bytes: its result, and the name. -/
def pathToDrive (pathname : List Char) : Option (Int × List Char) :=
  match strchr pathname ':' with
  | none => some (-1, [])
  | some _ => do
      let namebuf ← strmet driveNameLen pathname ':'
      return if namebuf.length = 0 then (-1, namebuf) else (0, namebuf)

/-- The working directory in `BOFS_MakeAbsPath`, with a slash behind it. `BOFS_GetCWD` copies
`BOFS_PATH_LEN` bytes, and the last one of the buffer stays a terminator. -/
def startPath (cwd : List Char) : Option (List Char) :=
  let abspath := cwd.take bofsPathLen
  match strchr abspath '/' with
  | none => some abspath
  | some p => if p = ['/'] then some abspath else strcat maxPathLen abspath ['/']

/-- `BOFS_MakeAbsPath`, into a cleared buffer of `MAX_PATH_LEN` bytes. -/
def makeAbsPath (cwd pathname : List Char) : Option (List Char) := do
  let (failed, _) ← pathToDrive pathname
  let abspath ← if failed ≠ 0 then startPath cwd else some []
  if pathname = ['/'] then
    match strchr abspath '/' with
    | none => return abspath
    | some q => return abspath.take (abspath.length - q.length + 1)
  else
    let abspath ← strcat maxPathLen abspath pathname
    match strchr abspath '/' with
    | none => strcat maxPathLen abspath ['/']
    | some _ => return abspath

/-- The drive and the path in it of an absolute path. `BOFS_GetDriveByPath` looks the drive up by
its name, and a path without a slash is a null pointer. -/
def locate (absPath : List Char) : Option (List Char × List Char) := do
  let (failed, driveName) ← pathToDrive absPath
  if failed ≠ 0 then none
  else
    let path ← strchr absPath '/'
    let finalPath ← washPath path
    return (driveName, finalPath)

/-- What the calls search for a path. -/
def drivePath (cwd pathname : List Char) : Option (List Char × List Char) := do
  let absPath ← makeAbsPath cwd pathname
  locate absPath

/-! ## What a path denotes -/

/-- A working directory: a drive, and an absolute path in it. -/
structure WorkDir where
  drive : List Char
  path : List Char
  named : drive ≠ []
  noColon : ':' ∉ drive
  noSlash : '/' ∉ drive
  driveFits : drive.length < driveNameLen
  absolute : path.head? = some '/'
  short : ∀ name ∈ components path, name.length < bofsNameLen
  fits : (drive ++ ':' :: path).length < maxPathLen

/-- The string in `cwd`. -/
def WorkDir.text (cwd : WorkDir) : List Char := cwd.drive ++ ':' :: cwd.path

/-- The drive before the first colon, which is not in a later component, and the text behind it. -/
def drivePrefix (pathname : List Char) : Option (List Char × List Char) :=
  let drive := pathname.takeWhile (· ≠ ':')
  if ':' ∈ pathname ∧ drive ≠ [] ∧ '/' ∉ drive then
    some (drive, (pathname.dropWhile (· ≠ ':')).tail)
  else none

/-- The drive and the path in it that a path stands for. -/
def placeNamed (cwd : WorkDir) (pathname : List Char) : List Char × List Char :=
  match drivePrefix pathname with
  | some (drive, rest) => (drive, normalForm ('/' :: rest))
  | none =>
      if pathname = ['/'] then (cwd.drive, ['/'])
      else (cwd.drive, normalForm (cwd.path ++ '/' :: pathname))

/-- The path that a relative one is appended to. -/
def WorkDir.base (cwd : WorkDir) : List Char :=
  if cwd.path = ['/'] then cwd.text else cwd.text ++ ['/']

/-- The text of a drive's path from its first slash on. -/
def fromSlash (rest : List Char) : List Char :=
  if '/' ∈ rest then rest.dropWhile (· ≠ '/') else ['/']

/-- A path that fits in the buffers. It has no colon, or only behind one that it starts with; or the
first colon is behind a drive, and what is between it and the next slash makes no difference. -/
def PathFits (cwd : WorkDir) (pathname : List Char) : Prop :=
  if ':' ∉ pathname ∨ pathname.head? = some ':' then
    if pathname = ['/'] then cwd.base.length < maxPathLen
    else (cwd.base ++ pathname).length < maxPathLen ∧
      ∀ name ∈ pathname.splitOn '/', name.length < bofsNameLen
  else
    let drive := pathname.takeWhile (· ≠ ':')
    let rest := (pathname.dropWhile (· ≠ ':')).tail
    '/' ∉ drive ∧ drive.length < driveNameLen ∧
      pathname.length + (if '/' ∈ pathname then 0 else 1) < maxPathLen ∧
      (∀ name ∈ components (fromSlash rest), name.length < bofsNameLen) ∧
      normalForm (fromSlash rest) = normalForm ('/' :: rest)

/-! ## Strings -/

theorem strchr_none {str : List Char} {c : Char} (h : c ∉ str) : strchr str c = none := by
  induction str with
  | nil => rfl
  | cons a rest ih =>
      rw [List.mem_cons, not_or] at h
      rw [strchr, if_neg (Ne.symm h.1), ih h.2]

theorem strchr_append {before after : List Char} {c : Char} (h : c ∉ before) :
    strchr (before ++ after) c = strchr after c := by
  induction before with
  | nil => rfl
  | cons a before ih =>
      rw [List.mem_cons, not_or] at h
      rw [List.cons_append, strchr, if_neg (Ne.symm h.1), ih h.2]

theorem strchr_head (after : List Char) (c : Char) : strchr (c :: after) c = some (c :: after) :=
  if_pos rfl

theorem strchr_mem {str : List Char} {c : Char} (h : c ∈ str) :
    strchr str c = some (str.dropWhile (· ≠ c)) := by
  induction str with
  | nil => simp at h
  | cons a rest ih =>
      by_cases ha : a = c
      · rw [strchr, if_pos ha, List.dropWhile_cons_of_neg (by simpa using ha)]
      · rw [strchr, if_neg ha, ih ((List.mem_cons.mp h).resolve_left (Ne.symm ha)),
          List.dropWhile_cons_of_pos (by simpa using ha)]

theorem take_while_append {before after : List Char} {c : Char} (h : c ∉ before) :
    (before ++ c :: after).takeWhile (· ≠ c) = before := by
  rw [List.takeWhile_append_of_pos fun x hx => by simpa using ne_of_mem_of_not_mem hx h,
    List.takeWhile_cons_of_neg (by simp), List.append_nil]

theorem drop_while_append {before after : List Char} {c : Char} (h : c ∉ before) :
    (before ++ c :: after).dropWhile (· ≠ c) = c :: after := by
  rw [List.dropWhile_append_of_pos fun x hx => by simpa using ne_of_mem_of_not_mem hx h,
    List.dropWhile_cons_of_neg (by simp)]

/-- The components on both sides of a slash. -/
theorem split_append (before after : List Char) :
    (before ++ '/' :: after).splitOn '/' = before.splitOn '/' ++ after.splitOn '/' := by
  induction hlength : before.length using Nat.strong_induction_on generalizing before with
  | h n ih =>
      rcases split_cases before with ⟨hno, hsplit⟩ | ⟨w, r, rfl, hw, hsplit⟩
      · rw [hsplit, List.singleton_append]
        exact List.splitOnP_append_cons_of_forall_mem
          (fun c hc => by simpa using ne_of_mem_of_not_mem hc hno) '/' (by simp) after
      · have hshorter : r.length < n := by
          rw [← hlength, List.length_append, List.length_cons]
          omega
        rw [hsplit, List.cons_append, ← ih _ hshorter r rfl, List.append_assoc, List.cons_append]
        exact List.splitOnP_append_cons_of_forall_mem
          (fun c hc => by simpa using ne_of_mem_of_not_mem hc hw) '/' (by simp) _

/-! ## Drives -/

/-- `BOFS_PathToDrive` for a path whose first colon is not at its start. -/
theorem path_to_drive {drive : List Char} (rest : List Char) (hne : drive ≠ [])
    (hcolon : ':' ∉ drive) :
    pathToDrive (drive ++ ':' :: rest) =
      if drive.length < driveNameLen then some (0, drive) else none := by
  rw [pathToDrive, strchr_append hcolon, strchr_head]
  simp only [strmet, take_while_append hcolon]
  split
  · exact congrArg some (if_neg (by simpa using hne))
  · rfl

/-- A path without a colon, or with one at its start, has no drive. -/
theorem path_to_drive_relative {pathname : List Char}
    (h : ':' ∉ pathname ∨ pathname.head? = some ':') : pathToDrive pathname = some (-1, []) := by
  rw [pathToDrive.eq_def]
  rcases h with hno | hhead
  · rw [strchr_none hno]
  · cases pathname with
    | nil => cases hhead
    | cons c rest =>
        obtain rfl := Option.some.inj hhead
        rfl

/-- A drive and an absolute path in it are found again. -/
theorem locate_drive {drive path : List Char} (hne : drive ≠ []) (hcolon : ':' ∉ drive)
    (hslash : '/' ∉ drive) (hfits : drive.length < driveNameLen) {rest : List Char}
    (hpath : strchr rest '/' = some path) :
    locate (drive ++ ':' :: rest) = (washPath path).map fun out => (drive, out) := by
  have hsearch : strchr (drive ++ ':' :: rest) '/' = some path := by
    rw [strchr_append hslash, strchr, if_neg (by decide), hpath]
  rw [locate, path_to_drive rest hne hcolon, if_pos hfits, hsearch]
  cases hwash : washPath path with
  | none => simp [hwash]
  | some out => simp [hwash]

/-- The drive is the text before the first colon. -/
theorem locate_name {drive rest : List Char} (hne : drive ≠ []) (hcolon : ':' ∉ drive)
    {result : List Char × List Char} (h : locate (drive ++ ':' :: rest) = some result) :
    result.1 = drive := by
  rw [locate, path_to_drive rest hne hcolon] at h
  split at h
  · simp only [Option.bind_eq_bind, Option.bind_some, ne_eq, not_true_eq_false, if_false,
      Option.bind_eq_some_iff] at h
    obtain ⟨path, -, out, -, heq⟩ := h
    rw [← Option.some.inj heq]
  · cases h

/-- Which paths `BOFS_WashPath` has a result for. -/
theorem wash_path_iff {path out : List Char} (habs : path.head? = some '/') :
    washPath path = some out ↔
      (∀ name ∈ components path, name.length < bofsNameLen) ∧ normalForm path = out := by
  by_cases hshort : ∀ name ∈ components path, name.length < bofsNameLen
  · rw [wash_path habs hshort, Option.some.injEq, and_iff_right hshort]
  · refine iff_of_false ?_ fun h => hshort h.1
    simp only [not_forall, Nat.not_lt] at hshort
    obtain ⟨name, hmem, hlong⟩ := hshort
    rw [wash_path_long habs ⟨name, hmem, hlong⟩]
    simp

/-! ## The working directory -/

variable (cwd : WorkDir)

theorem WorkDir.strchr_text : strchr cwd.text '/' = some cwd.path := by
  obtain ⟨rest, hrest⟩ := exists_rest cwd.absolute
  rw [WorkDir.text, strchr_append cwd.noSlash, strchr, if_neg (by decide), hrest, strchr_head]

/-- What the path is appended to, if there is room for it. -/
theorem WorkDir.start_path :
    startPath cwd.text = if cwd.base.length < maxPathLen then some cwd.base else none := by
  have htake : cwd.text.take bofsPathLen = cwd.text :=
    List.take_of_length_le (Nat.le_of_lt_succ cwd.fits)
  rw [startPath.eq_def, htake]
  simp only
  rw [cwd.strchr_text, WorkDir.base]
  simp only
  by_cases hroot : cwd.path = ['/']
  · rw [if_pos hroot, if_pos hroot, if_pos (show cwd.text.length < maxPathLen from cwd.fits)]
  · rw [if_neg hroot, if_neg hroot, strcat, List.length_append]

/-- The path of the base in the drive. -/
theorem WorkDir.base_split : ∃ p, cwd.base = cwd.drive ++ ':' :: p ∧ p.head? = some '/' ∧
    ∀ pathname, normalForm (p ++ pathname) = normalForm (cwd.path ++ '/' :: pathname) ∧
      ((∀ name ∈ components (p ++ pathname), name.length < bofsNameLen) ↔
        ∀ name ∈ pathname.splitOn '/', name.length < bofsNameLen) := by
  obtain ⟨rest, hrest⟩ := exists_rest cwd.absolute
  by_cases hroot : cwd.path = ['/']
  · refine ⟨['/'], ?_, rfl, fun pathname => ⟨?_, Iff.rfl⟩⟩
    · rw [WorkDir.base, if_pos hroot, WorkDir.text, hroot]
    · rw [hroot]
      show joined (List.foldl push [] (pathname.splitOn '/')) =
        joined (List.foldl push [] (('/' :: pathname).splitOn '/'))
      rw [split_on_slash]
      rfl
  · refine ⟨cwd.path ++ ['/'], ?_, ?_, fun pathname => ⟨?_, ?_⟩⟩
    · rw [WorkDir.base, if_neg hroot, WorkDir.text, List.append_assoc, List.cons_append]
    · rw [hrest]
      rfl
    · rw [List.append_assoc, List.singleton_append]
    · have hcomps : components (cwd.path ++ ['/'] ++ pathname) =
          components cwd.path ++ pathname.splitOn '/' := by
        rw [hrest, List.append_assoc, List.singleton_append]
        exact split_append rest pathname
      rw [hcomps]
      constructor
      · intro h name hname
        exact h name (List.mem_append_right _ hname)
      · intro h name hname
        rcases List.mem_append.mp hname with hold | hnew
        · exact cwd.short name hold
        · exact h name hnew

/-! ## What the calls search -/

variable (pathname : List Char)

/-- The root of the working drive. -/
theorem make_abs_root :
    makeAbsPath cwd.text ['/'] =
      if cwd.base.length < maxPathLen then some (cwd.drive ++ [':', '/']) else none := by
  obtain ⟨p, hbase, hhead, -⟩ := cwd.base_split
  obtain ⟨rest, rfl⟩ := exists_rest hhead
  have hsearch : strchr cwd.base '/' = some ('/' :: rest) := by
    rw [hbase, strchr_append cwd.noSlash, strchr, if_neg (by decide), strchr_head]
  have hcut : cwd.base.take (cwd.base.length - ('/' :: rest).length + 1) =
      cwd.drive ++ [':', '/'] := by
    have hlength : cwd.base.length - ('/' :: rest).length + 1 =
        (cwd.drive ++ [':', '/']).length := by
      simp only [hbase, List.length_append, List.length_cons, List.length_nil]
      omega
    have hsplit : cwd.base = (cwd.drive ++ [':', '/']) ++ rest := by
      rw [hbase, List.append_assoc]
      rfl
    rw [hlength, hsplit, List.take_left' rfl]
  rw [makeAbsPath, path_to_drive_relative (.inl (by decide))]
  simp only [Option.bind_eq_bind, Option.bind_some]
  rw [if_pos (by decide), cwd.start_path]
  split
  · simp only [Option.bind_some, if_true, hsearch, hcut]
    rfl
  · rfl

/-- A relative path behind the working directory. -/
theorem make_abs_relative (hrel : ':' ∉ pathname ∨ pathname.head? = some ':')
    (hroot : pathname ≠ ['/']) :
    makeAbsPath cwd.text pathname =
      if (cwd.base ++ pathname).length < maxPathLen then some (cwd.base ++ pathname) else none := by
  obtain ⟨p, hbase, hhead, -⟩ := cwd.base_split
  obtain ⟨rest, rfl⟩ := exists_rest hhead
  have hsearch : strchr (cwd.base ++ pathname) '/' = some ('/' :: rest ++ pathname) := by
    rw [hbase, List.append_assoc, strchr_append cwd.noSlash, List.cons_append, List.cons_append,
      strchr, if_neg (by decide), strchr_head]
  rw [makeAbsPath, path_to_drive_relative hrel]
  simp only [Option.bind_eq_bind, Option.bind_some]
  rw [if_pos (by decide), cwd.start_path]
  by_cases hfits : (cwd.base ++ pathname).length < maxPathLen
  · have hbaseFits : cwd.base.length < maxPathLen := by
      rw [List.length_append] at hfits
      omega
    rw [if_pos hfits, if_pos hbaseFits]
    simp only [Option.bind_some, if_neg hroot, strcat]
    rw [if_pos (by rwa [List.length_append] at hfits)]
    simp only [Option.bind_some, hsearch]
    rfl
  · rw [if_neg hfits]
    split
    · simp only [Option.bind_some, strcat]
      rw [if_neg (by rwa [List.length_append] at hfits)]
      rfl
    · rfl

/-- A path with a drive, and the slash that one without it gets. -/
theorem make_abs_drive {drive rest : List Char} (cwd : List Char) (hne : drive ≠ [])
    (hcolon : ':' ∉ drive) :
    makeAbsPath cwd (drive ++ ':' :: rest) =
      let pathname := drive ++ ':' :: rest
      if drive.length < driveNameLen ∧
          pathname.length + (if '/' ∈ pathname then 0 else 1) < maxPathLen then
        some (if '/' ∈ pathname then pathname else pathname ++ ['/'])
      else none := by
  have hroot : drive ++ ':' :: rest ≠ ['/'] := by
    intro heq
    have hmem : ':' ∈ drive ++ ':' :: rest := by simp
    rw [heq] at hmem
    exact absurd hmem (by decide)
  rw [makeAbsPath, path_to_drive rest hne hcolon]
  generalize drive ++ ':' :: rest = pathname at hroot
  simp only
  by_cases hdrive : drive.length < driveNameLen
  · simp only [hdrive, if_true, true_and, Option.bind_eq_bind, Option.bind_some, ne_eq,
      not_true_eq_false, if_false, if_neg hroot, strcat, List.length_nil, Nat.zero_add,
      List.nil_append]
    by_cases hslash : '/' ∈ pathname
    · rw [if_pos hslash, if_pos hslash, Nat.add_zero]
      by_cases hfits : pathname.length < maxPathLen
      · rw [if_pos hfits]
        simp only [Option.bind_some, strchr_mem hslash]
        rfl
      · rw [if_neg hfits]
        rfl
    · rw [if_neg hslash, if_neg hslash]
      by_cases hfits : pathname.length < maxPathLen
      · rw [if_pos hfits]
        simp only [Option.bind_some, strchr_none hslash, List.length_singleton]
      · rw [if_neg hfits, if_neg fun h => hfits (by omega)]
        rfl
  · rw [if_neg hdrive, if_neg fun h => hdrive h.1]
    rfl

/-! ## The result -/

/-- A relative path leads where it says, if it fits. -/
theorem relative_denotes (hrel : ':' ∉ pathname ∨ pathname.head? = some ':') :
    drivePath cwd.text pathname = some (placeNamed cwd pathname) ↔
      if pathname = ['/'] then cwd.base.length < maxPathLen
      else (cwd.base ++ pathname).length < maxPathLen ∧
        ∀ name ∈ pathname.splitOn '/', name.length < bofsNameLen := by
  have hprefix : drivePrefix pathname = none := by
    rw [drivePrefix]
    refine if_neg ?_
    rintro ⟨hmem, hne, -⟩
    refine hne ?_
    cases pathname with
    | nil => rfl
    | cons c rest =>
        obtain rfl := Option.some.inj (hrel.resolve_left (not_not.mpr hmem))
        rfl
  rw [placeNamed, hprefix, drivePath]
  by_cases hroot : pathname = ['/']
  · subst hroot
    rw [if_pos rfl, make_abs_root]
    simp only [if_true]
    by_cases hfits : cwd.base.length < maxPathLen
    · rw [if_pos hfits]
      refine iff_of_true ?_ hfits
      exact locate_drive cwd.named cwd.noColon cwd.noSlash cwd.driveFits (strchr_head [] '/')
    · rw [if_neg hfits]
      exact iff_of_false (by simp) hfits
  · obtain ⟨p, hbase, hhead, hwash⟩ := cwd.base_split
    obtain ⟨hnormal, hshort⟩ := hwash pathname
    rw [if_neg hroot, make_abs_relative cwd pathname hrel hroot]
    simp only [if_neg hroot]
    by_cases hfits : (cwd.base ++ pathname).length < maxPathLen
    · obtain ⟨rest, hrest⟩ := exists_rest hhead
      have habs : (p ++ pathname).head? = some '/' := by
        rw [hrest]
        rfl
      have hsearch : strchr (p ++ pathname) '/' = some (p ++ pathname) := by
        rw [hrest, List.cons_append, strchr_head]
      rw [if_pos hfits, and_iff_right hfits, ← hshort, hbase, List.append_assoc, List.cons_append]
      simp only [Option.bind_eq_bind, Option.bind_some]
      rw [locate_drive cwd.named cwd.noColon cwd.noSlash cwd.driveFits hsearch, ← hnormal]
      simp only [Option.map_eq_some_iff, Prod.mk.injEq, true_and, exists_eq_right]
      rw [wash_path_iff habs, and_iff_left rfl]
    · rw [if_neg hfits]
      refine iff_of_false ?_ fun h => hfits h.1
      simp

/-- The part of a drive's path that is searched. -/
theorem strchr_drive {drive : List Char} (rest : List Char) (hslash : '/' ∉ drive) :
    (if '/' ∈ drive ++ ':' :: rest then drive ++ ':' :: rest else drive ++ ':' :: rest ++ ['/']) =
      drive ++ ':' :: (if '/' ∈ rest then rest else rest ++ ['/']) ∧
    strchr (if '/' ∈ rest then rest else rest ++ ['/']) '/' = some (fromSlash rest) := by
  have hmem : '/' ∈ drive ++ ':' :: rest ↔ '/' ∈ rest := by simp [hslash]
  simp only [hmem, fromSlash]
  by_cases hrest : '/' ∈ rest
  · rw [if_pos hrest, if_pos hrest, if_pos hrest]
    exact ⟨rfl, strchr_mem hrest⟩
  · rw [if_neg hrest, if_neg hrest, if_neg hrest, strchr_append hrest, strchr_head,
      List.append_assoc]
    exact ⟨rfl, rfl⟩

theorem from_slash_head (rest : List Char) : (fromSlash rest).head? = some '/' := by
  rw [fromSlash]
  split
  · next h =>
      obtain ⟨w, r, rfl, hw⟩ := List.eq_append_cons_of_mem h
      rw [drop_while_append hw]
      rfl
  · rfl

/-- A path leads where it says exactly if it fits. -/
theorem path_denotes_iff (cwd : WorkDir) (pathname : List Char) :
    drivePath cwd.text pathname = some (placeNamed cwd pathname) ↔ PathFits cwd pathname := by
  rw [PathFits]
  by_cases hrel : ':' ∉ pathname ∨ pathname.head? = some ':'
  · rw [if_pos hrel]
    exact relative_denotes cwd pathname hrel
  rw [if_neg hrel]
  rw [not_or, not_not] at hrel
  obtain ⟨drive, rest, rfl, hcolon⟩ := List.eq_append_cons_of_mem hrel.1
  have hne : drive ≠ [] := by
    rintro rfl
    exact hrel.2 rfl
  have hparts : drivePrefix (drive ++ ':' :: rest) =
      if '/' ∉ drive then some (drive, rest) else none := by
    simp only [drivePrefix, take_while_append hcolon, drop_while_append hcolon, List.tail_cons]
    exact if_congr (by simp [hne]) rfl rfl
  simp only [take_while_append hcolon, drop_while_append hcolon, List.tail_cons]
  rw [drivePath, make_abs_drive cwd.text hne hcolon, placeNamed, hparts]
  by_cases hfits : drive.length < driveNameLen ∧ (drive ++ ':' :: rest).length +
      (if '/' ∈ drive ++ ':' :: rest then 0 else 1) < maxPathLen
  · simp only [if_pos hfits, Option.bind_eq_bind, Option.bind_some]
    by_cases hslash : '/' ∈ drive
    · -- the drive is a part of a path
      have hmem : '/' ∈ drive ++ ':' :: rest := List.mem_append_left _ hslash
      refine iff_of_false (fun heq => ?_) fun h => h.1 hslash
      rw [if_pos hmem] at heq
      have hname := locate_name hne hcolon heq
      have hcwd : (if '/' ∉ drive then some (drive, rest) else none) = none :=
        if_neg (not_not.mpr hslash)
      rw [hcwd] at hname
      have hsame : cwd.drive = drive := by
        simp only at hname
        split at hname
        · exact hname
        · exact hname
      exact cwd.noSlash (hsame.symm ▸ hslash)
    · obtain ⟨htext, hsearch⟩ := strchr_drive rest hslash
      rw [htext, locate_drive hne hcolon hslash hfits.1 hsearch]
      simp only [hslash, not_false_eq_true, if_true, Option.map_eq_some_iff, Prod.mk.injEq,
        true_and, exists_eq_right]
      rw [wash_path_iff (from_slash_head rest)]
      exact ⟨fun h => ⟨hfits.1, hfits.2, h⟩, fun h => h.2.2⟩
  · simp only [if_neg hfits, Option.bind_eq_bind, Option.bind_none]
    exact iff_of_false (by simp) fun h => hfits ⟨h.2.1, h.2.2.1⟩

/-- The working directory at the start of a task. -/
def rootDir : WorkDir where
  drive := "root".toList
  path := ['/']
  named := by decide
  noColon := by decide
  noSlash := by decide
  driveFits := by decide
  absolute := rfl
  short := by decide
  fits := by decide

/-- A colon in a later component makes a drive of the components before it. -/
theorem later_colon_misread :
    ¬ ∀ cwd pathname, drivePath (WorkDir.text cwd) pathname = some (placeNamed cwd pathname) := by
  intro h
  have hwrong : drivePath rootDir.text "a/b:c".toList ≠
      some (placeNamed rootDir "a/b:c".toList) := by
    decide +kernel
  exact hwrong (h rootDir _)

end XBook.Paths
