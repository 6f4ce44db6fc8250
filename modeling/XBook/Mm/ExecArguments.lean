import XBook.Lib.CString
import XBook.Mm.NoStrayPages

/-!
# The arguments of a new image

`SysExecv` copies the strings of `argv` into a page of the kernel with `MakeArguments`, since the
old image goes away, and `InitUserStack` copies them from there to the stack of the new one. Memory
is addressed as the kernel does, with the old or the new image below `userVmSize`; the addresses
that the two functions write are recorded.
-/

namespace XBook.Exec

open Paging ByteMemory

/-- A string of `argv`. -/
abbrev CString := { s : List (BitVec 8) // 0 ∉ s }

/-- `MAX_STACK_ARGC`. -/
abbrev maxStackArgc : Nat := 16

/-- `USER_STACK_TOP`. -/
abbrev userStackTop : BitVec 32 := 0x80000000

/-- A string has at most this many bytes. -/
abbrev addressSpace : Nat := 2 ^ 32

/-- What `MakeArguments` has written: to memory, and to its array `strStack`. -/
structure Arguments where
  trace : Trace 32
  strStack : List (BitVec 32)

/-- The loop of `MakeArguments` over the strings. -/
def copyStrings (argStack : BitVec 32) : List CString → BitVec 32 → Arguments → Arguments
  | [], _, made => made
  | s :: argv, stackLen, made =>
      let len := BitVec.ofNat 32 s.1.length
      let trace := made.trace.store (argStack + stackLen) s.1
      let strStack := made.strStack ++ [argStack + stackLen]
      -- one byte behind the place of the zero byte
      let trace := trace.store (argStack + (stackLen + len + 1)) [0]
      copyStrings argStack argv (stackLen + (len + 1)) ⟨trace, strStack⟩

/-- The loop of `MakeArguments` over the pointers. -/
def fillPointers (p : BitVec 32) : List (BitVec 32) → Trace 32 → Trace 32
  | [], t => t
  | v :: vs, t => fillPointers (p + 4) vs (t.store p (wordBytes v))

/-- `MakeArguments`. Without an `argv` there are no strings. -/
def makeArguments (t : Trace 32) (buf : BitVec 32) (argv : List CString) : Arguments :=
  let made := copyStrings buf argv (BitVec.ofNat 32 (4 * argv.length)) ⟨t, []⟩
  { made with trace := fillPointers buf made.strStack made.trace }

/-- The loop of `InitUserStack` that makes room for the strings. -/
def reserveStrings (m : ByteMemory 32) : Nat → BitVec 32 → BitVec 32 → Option (BitVec 32)
  | 0, _, esp => some esp
  | argc + 1, argv, esp =>
      (m.strlen addressSpace (m.loadWord argv)).bind fun len =>
        reserveStrings m argc (argv + 4) (esp - (BitVec.ofNat 32 len + 1))

/-- The loop of `InitUserStack` that copies the strings, with `_argv` and `p`. -/
def copyArguments : Nat → BitVec 32 → BitVec 32 → BitVec 32 → Trace 32 → Option (Trace 32)
  | 0, _, _, _, t => some t
  | argc + 1, argv, _argv, p, t =>
      let t := t.store _argv (wordBytes p)
      (t.strcpy addressSpace p (t.mem.loadWord argv)).bind fun t =>
        (t.mem.strlen addressSpace p).bind fun len =>
          copyArguments argc (argv + 4) (_argv + 4) (p + (BitVec.ofNat 32 len + 1)) t

/-- `InitUserStack` once the stack page is mapped, with `frame->esp`. -/
def initArguments (t : Trace 32) (argv : BitVec 32) (argc : Nat) :
    Option (Trace 32 × BitVec 32) :=
  let esp := userStackTop - 4
  if argc ≠ 0 then
    (reserveStrings t.mem argc argv esp).bind fun esp =>
      let esp := esp - esp % 4
      let esp := esp - BitVec.ofNat 32 (4 * argc)
      let esp := esp - BitVec.ofNat 32 (4 * argc)
      let esp := esp - 4
      let top := esp
      let t := t.store top (wordBytes (BitVec.ofNat 32 argc))
      let top := top + 4
      let t := t.store top (wordBytes (top + 4))
      let top := top + 4
      (copyArguments argc argv top (top + BitVec.ofNat 32 (4 * argc)) t).map fun t => (t, esp)
  else
    let esp := esp - BitVec.ofNat 32 (4 * argc)
    let esp := esp - 4
    let top := esp
    let t := t.store top (wordBytes 0)
    let top := top + 4
    let t := t.store top (wordBytes 0)
    some (t, esp)

/-- What has been written for the arguments, to the buffer and to the stack. -/
structure ArgumentRun where
  made : Arguments
  stack : Option (Trace 32 × BitVec 32)

/-- The part of `SysExecv` for the arguments, from the `memset` of the buffer on. Between the two
copies the image of the process is replaced by that of `user`. -/
def execArguments (m user : ByteMemory 32) (argBuf : BitVec 32) (argv : List CString) :
    ArgumentRun :=
  let made := makeArguments ((Trace.mk m []).store argBuf (List.replicate pageSize 0)) argBuf argv
  let loaded : ByteMemory 32 := fun a =>
    if a.toNat < userVmSize then user a else made.trace.mem a
  { made, stack := initArguments ⟨loaded, []⟩ argBuf argv.length }

/-- The law of the arguments, for what has been written and the page tables of the new image. -/
structure ArgumentsKept (r : ArgumentRun) (argBuf : BitVec 32) (argv : List CString)
    (pgdir : Directory) : Prop where
  buffer : r.made.trace.Inside argBuf pageSize
  array : r.made.strStack.length ≤ maxStackArgc / 4
  mapped : (pgdir.frame stackPage).isSome
  stack : ∃ t esp, r.stack = some (t, esp) ∧
    t.Inside (BitVec.ofNat 32 stackPage) pageSize ∧
    t.mem.loadWord esp = BitVec.ofNat 32 argv.length ∧
    (argv ≠ [] → List.Forall₂ (fun p s => HoldsString t.mem p s.1)
      (t.mem.loadWords (t.mem.loadWord (esp + 4)) argv.length) argv)

/-- The bytes of the strings, with their zero bytes. -/
def size (argv : List CString) : Nat := (argv.map fun s => s.1.length + 1).sum

/-- The arguments fit: the array has room for the pointers, and the stack page for the strings,
twice the pointers and two words. -/
def ArgumentsFit (argv : List CString) : Prop :=
  argv.length ≤ maxStackArgc / 4 ∧ (size argv + 3) / 4 * 4 + 8 * argv.length + 8 ≤ pageSize

/-! ## Offsets from a base -/

theorem offset_add (base : BitVec 32) (n k : Nat) :
    base + BitVec.ofNat 32 n + BitVec.ofNat 32 k = base + BitVec.ofNat 32 (n + k) := by
  rw [BitVec.add_assoc, ← BitVec.ofNat_add]

theorem offset_four (base : BitVec 32) (n : Nat) :
    base + BitVec.ofNat 32 n + 4 = base + BitVec.ofNat 32 (n + 4) :=
  offset_add base n 4

/-- The address behind a string and its zero byte. -/
theorem offset_string (base : BitVec 32) (n len : Nat) :
    base + BitVec.ofNat 32 n + (BitVec.ofNat 32 len + 1) =
      base + BitVec.ofNat 32 (n + (len + 1)) := by
  rw [show BitVec.ofNat 32 len + 1 = BitVec.ofNat 32 (len + 1) from (BitVec.ofNat_add len 1).symm]
  exact offset_add base n (len + 1)

/-- A byte that is not among those that are stored. -/
theorem store_offset (m : ByteMemory 32) (base : BitVec 32) {bs : List (BitVec 8)} {n p : Nat}
    (h : p < n ∨ n + bs.length ≤ p) (hn : n + bs.length ≤ 2 ^ 32) (hp : p < 2 ^ 32) :
    m.storeBytes (base + BitVec.ofNat 32 n) bs (base + BitVec.ofNat 32 p) =
      m (base + BitVec.ofNat 32 p) :=
  SameOn.store_at m base bs h hn hp _ (within_self _)

/-- An offset that is outside of a page. -/
theorem within_page {base : BitVec 32} {n : Nat} (hn : n < 2 ^ 32)
    (h : Within base pageSize (base + BitVec.ofNat 32 n)) : n < pageSize := by
  have hwithin : (base + BitVec.ofNat 32 n - base).toNat < pageSize := h
  rwa [BitVec.add_comm, BitVec.add_sub_cancel, BitVec.toNat_ofNat, Nat.mod_eq_of_lt hn] at hwithin

/-- The pointers to strings that lie one behind the other. -/
def pointers (base : BitVec 32) : Nat → List CString → List (BitVec 32)
  | _, [] => []
  | n, s :: argv => (base + BitVec.ofNat 32 n) :: pointers base (n + (s.1.length + 1)) argv

theorem length_pointers (base : BitVec 32) (n : Nat) (argv : List CString) :
    (pointers base n argv).length = argv.length := by
  induction argv generalizing n with
  | nil => rfl
  | cons s argv ih => rw [pointers, List.length_cons, ih, List.length_cons]

theorem size_cons (s : CString) (argv : List CString) :
    size (s :: argv) = s.1.length + 1 + size argv := by
  rw [size, List.map_cons, List.sum_cons]
  rfl

/-! ## The buffer of the kernel -/

section buffer

variable {buf : BitVec 32}

theorem copy_strings_cons (s : CString) (argv : List CString) (n : Nat) (made : Arguments) :
    copyStrings buf (s :: argv) (BitVec.ofNat 32 n) made =
      copyStrings buf argv (BitVec.ofNat 32 (n + (s.1.length + 1)))
        ⟨(made.trace.store (buf + BitVec.ofNat 32 n) s.1).store
            (buf + BitVec.ofNat 32 (n + (s.1.length + 1))) [0],
          made.strStack ++ [buf + BitVec.ofNat 32 n]⟩ := by
  have hlen : BitVec.ofNat 32 n + (BitVec.ofNat 32 s.1.length + 1) =
      BitVec.ofNat 32 (n + (s.1.length + 1)) := by
    rw [BitVec.ofNat_add n, BitVec.ofNat_add s.1.length]
    rfl
  rw [copyStrings, BitVec.add_assoc (BitVec.ofNat 32 n), hlen]

/-- The pointers that the loop has collected. -/
theorem copy_strings_pointers (argv : List CString) (n : Nat) (made : Arguments) :
    (copyStrings buf argv (BitVec.ofNat 32 n) made).strStack =
      made.strStack ++ pointers buf n argv := by
  induction argv generalizing n made with
  | nil => exact (List.append_nil _).symm
  | cons s argv ih =>
      rw [copy_strings_cons, ih, List.append_assoc]
      rfl

/-- The loop takes no write back. -/
theorem copy_strings_writes (argv : List CString) (n : Nat) (made : Arguments) {base : BitVec 32}
    {len : Nat} (h : (copyStrings buf argv (BitVec.ofNat 32 n) made).trace.Inside base len) :
    made.trace.Inside base len := by
  induction argv generalizing n made with
  | nil => exact h
  | cons s argv ih =>
      rw [copy_strings_cons] at h
      exact (Trace.inside_store.mp (Trace.inside_store.mp (ih _ _ h)).1).1

/-- Strings whose writes are in the buffer end in front of its last byte. -/
theorem copy_strings_inside (argv : List CString) (n : Nat) (made : Arguments) (hn : n < pageSize)
    (h : (copyStrings buf argv (BitVec.ofNat 32 n) made).trace.Inside buf pageSize) :
    n + size argv < pageSize := by
  induction argv generalizing n made with
  | nil => exact hn
  | cons s argv ih =>
      rw [copy_strings_cons] at h
      have hnext : n + (s.1.length + 1) < pageSize := by
        obtain ⟨hstring, hzero⟩ := Trace.inside_store.mp (copy_strings_writes _ _ _ h)
        have hstring := (Trace.inside_store.mp hstring).2
        by_contra hlarge
        simp only [pageSize] at *
        by_cases hend : n + s.1.length ≤ 4096
        · -- The zero byte is behind the page.
          have hbyte := hzero 0 (by decide)
          rw [BitVec.add_zero] at hbyte
          have := within_page (by omega) hbyte
          simp only [pageSize] at this
          omega
        · -- The string goes beyond the page.
          have hbyte := hstring (4096 - n) (by omega)
          rw [offset_add] at hbyte
          have := within_page (by omega) hbyte
          simp only [pageSize] at this
          omega
      have hrest := ih _ _ hnext h
      rw [size_cons]
      omega

theorem within_offset_page {n : Nat} (h : n < pageSize) :
    Within buf pageSize (buf + BitVec.ofNat 32 n) :=
  within_offset buf h (by simp only [pageSize] at h; omega)

/-- What the loop does when the strings fit into the cleared rest of the buffer. -/
theorem copy_strings_spec (argv : List CString) (n : Nat) (made : Arguments)
    (hfits : n + size argv < pageSize)
    (hcleared : ∀ p, n ≤ p → p < pageSize → made.trace.mem (buf + BitVec.ofNat 32 p) = 0)
    (hinside : made.trace.Inside buf pageSize) :
    (copyStrings buf argv (BitVec.ofNat 32 n) made).trace.Inside buf pageSize ∧
      (∀ p < n, (copyStrings buf argv (BitVec.ofNat 32 n) made).trace.mem
        (buf + BitVec.ofNat 32 p) = made.trace.mem (buf + BitVec.ofNat 32 p)) ∧
      List.Forall₂ (fun p s => HoldsString
        (copyStrings buf argv (BitVec.ofNat 32 n) made).trace.mem p s.1) (pointers buf n argv)
        argv := by
  induction argv generalizing n made with
  | nil => exact ⟨hinside, fun _ _ => rfl, .nil⟩
  | cons s argv ih =>
      rw [size_cons] at hfits
      rw [copy_strings_cons]
      set len := s.1.length with hlen
      set stored := (made.trace.store (buf + BitVec.ofNat 32 n) s.1).store
        (buf + BitVec.ofNat 32 (n + (len + 1))) [0] with hstored
      have hpage : pageSize = 4096 := rfl
      -- A byte behind the string is cleared.
      have hbehind : ∀ p, n + len ≤ p → p < pageSize →
          stored.mem (buf + BitVec.ofNat 32 p) = 0 := by
        intro p hp hlt
        have hold : (made.trace.store (buf + BitVec.ofNat 32 n) s.1).mem
            (buf + BitVec.ofNat 32 p) = 0 := by
          rw [Trace.store_mem, store_offset _ _ (by omega) (by omega) (by omega)]
          exact hcleared p (by omega) hlt
        by_cases heq : p = n + (len + 1)
        · have hbyte := @store_bytes_inside _
            (made.trace.store (buf + BitVec.ofNat 32 n) s.1).mem
            (buf + BitVec.ofNat 32 (n + (len + 1))) [0] 0 (by decide) (by decide)
          rw [BitVec.add_zero] at hbyte
          rw [heq]
          exact hbyte
        · rw [hstored, Trace.store_mem,
            store_offset _ _ (by simp; omega) (by simp; omega) (by omega)]
          exact hold
      have hinside' : stored.Inside buf pageSize := by
        refine Trace.inside_store.mpr ⟨Trace.inside_store.mpr ⟨hinside, ?_⟩, ?_⟩
        · intro i hi
          rw [offset_add]
          exact within_offset_page (by omega)
        · intro i hi
          rw [offset_add]
          rw [List.length_singleton] at hi
          exact within_offset_page (by omega)
      obtain ⟨hrest, hkept, hstrings⟩ := ih (n + (len + 1))
        ⟨stored, made.strStack ++ [buf + BitVec.ofNat 32 n]⟩ (by omega)
        (fun p hp hlt => hbehind p (by omega) hlt) hinside'
      refine ⟨hrest, ?_, ?_⟩
      · intro p hp
        rw [hkept p (by omega), hstored, Trace.store_mem,
          store_offset _ _ (by omega) (by simp; omega) (by omega), Trace.store_mem,
          store_offset _ _ (by omega) (by omega) (by omega)]
      · rw [pointers]
        refine .cons ?_ hstrings
        apply holds_of_bytes
        · intro i hi
          rw [offset_add, hkept _ (by omega), hstored, Trace.store_mem,
            store_offset _ _ (by omega) (by simp; omega) (by omega), Trace.store_mem, ← offset_add]
          exact store_bytes_inside _ _ hi (by omega)
        · rw [offset_add, hkept _ (by omega)]
          exact hbehind _ (Nat.le_refl _) (by omega)

theorem fill_pointers_eq (p : BitVec 32) (vs : List (BitVec 32)) (t : Trace 32) :
    fillPointers p vs t = t.store p (vs.flatMap wordBytes) := by
  induction vs generalizing p t with
  | nil => exact (Trace.store_nil t p).symm
  | cons v vs ih =>
      rw [fillPointers, ih, List.flatMap_cons, Trace.store_append]
      rfl

/-- Strings that lie one behind the other depend on the bytes from the first one on. -/
theorem strings_same {m m' : ByteMemory 32} {base : BitVec 32} {n : Nat} {argv : List CString}
    (h : List.Forall₂ (fun p s => HoldsString m p s.1) (pointers base n argv) argv)
    (hsame : ∀ p, n ≤ p → p < n + size argv →
      m' (base + BitVec.ofNat 32 p) = m (base + BitVec.ofNat 32 p)) :
    List.Forall₂ (fun p s => HoldsString m' p s.1) (pointers base n argv) argv := by
  induction argv generalizing n with
  | nil => exact .nil
  | cons s argv ih =>
      rw [size_cons] at hsame
      rw [pointers] at h ⊢
      obtain ⟨hfirst, hrest⟩ := List.forall₂_cons.mp h
      refine .cons (hfirst.same (.of_bytes fun i hi => ?_)) (ih hrest fun p hp hlt => ?_)
      · rw [offset_add]
        exact hsame _ (by omega) (by omega)
      · exact hsame p (by omega) (by omega)

/-- What `MakeArguments` does when the strings fit into the cleared buffer. -/
theorem make_arguments_spec (argv : List CString) (t : Trace 32)
    (hfits : 4 * argv.length + size argv < pageSize)
    (hcleared : ∀ p < pageSize, t.mem (buf + BitVec.ofNat 32 p) = 0)
    (hinside : t.Inside buf pageSize) :
    (makeArguments t buf argv).trace.Inside buf pageSize ∧
      (makeArguments t buf argv).trace.mem.loadWords buf argv.length =
        pointers buf (4 * argv.length) argv ∧
      List.Forall₂ (fun p s => HoldsString (makeArguments t buf argv).trace.mem p s.1)
        (pointers buf (4 * argv.length) argv) argv := by
  have hpage : pageSize = 4096 := rfl
  obtain ⟨hcopied, -, hstrings⟩ := copy_strings_spec argv (4 * argv.length) ⟨t, []⟩ hfits
    (fun p _ hlt => hcleared p hlt) hinside
  have hstack : (copyStrings buf argv (BitVec.ofNat 32 (4 * argv.length)) ⟨t, []⟩).strStack =
      pointers buf (4 * argv.length) argv := by
    rw [copy_strings_pointers, List.nil_append]
  have hbytes : ((pointers buf (4 * argv.length) argv).flatMap wordBytes).length =
      4 * argv.length := by
    rw [length_word_bytes, length_pointers]
  have htrace : (makeArguments t buf argv).trace =
      (copyStrings buf argv (BitVec.ofNat 32 (4 * argv.length)) ⟨t, []⟩).trace.store buf
        ((pointers buf (4 * argv.length) argv).flatMap wordBytes) := by
    rw [makeArguments, fill_pointers_eq, hstack]
  rw [htrace]
  refine ⟨Trace.inside_store.mpr ⟨hcopied, ?_⟩, ?_, ?_⟩
  · intro i hi
    exact within_offset_page (by omega)
  · have hload := load_store_words
      (copyStrings buf argv (BitVec.ofNat 32 (4 * argv.length)) ⟨t, []⟩).trace.mem buf
      (pointers buf (4 * argv.length) argv) (by rw [length_pointers]; omega)
    rwa [length_pointers] at hload
  · refine strings_same hstrings fun p hp hlt => ?_
    have hother := store_offset
      (copyStrings buf argv (BitVec.ofNat 32 (4 * argv.length)) ⟨t, []⟩).trace.mem buf (n := 0)
      (show p < 0 ∨ 0 + _ ≤ p from .inr (by rw [hbytes]; omega)) (by omega) (by omega)
    rwa [BitVec.add_zero] at hother

end buffer

/-! ## The stack of the image -/

theorem sub_offset {e k : Nat} (h : k ≤ e) :
    BitVec.ofNat 32 e - BitVec.ofNat 32 k = BitVec.ofNat 32 (e - k) := by
  have hsplit : BitVec.ofNat 32 e = BitVec.ofNat 32 (e - k) + BitVec.ofNat 32 k := by
    rw [← BitVec.ofNat_add, Nat.sub_add_cancel h]
  rw [hsplit, BitVec.add_sub_cancel]

/-- The room for the strings. -/
theorem reserve_strings_eq {m : ByteMemory 32} {base a : BitVec 32} {n e : Nat}
    (argv : List CString) (hwords : m.loadWords a argv.length = pointers base n argv)
    (hstrings : List.Forall₂ (fun p s => HoldsString m p s.1) (pointers base n argv) argv)
    (hsize : size argv ≤ e) (he : e < 2 ^ 32) :
    reserveStrings m argv.length a (BitVec.ofNat 32 e) =
      some (BitVec.ofNat 32 (e - size argv)) := by
  induction argv generalizing a n e with
  | nil => rfl
  | cons s argv ih =>
      rw [size_cons] at hsize ⊢
      rw [pointers] at hwords hstrings
      rw [List.length_cons, loadWords, List.cons.injEq] at hwords
      obtain ⟨hfirst, hrest⟩ := List.forall₂_cons.mp hstrings
      have hlen : m.strlen addressSpace (m.loadWord a) = some s.1.length := by
        rw [hwords.1]
        exact strlen_eq hfirst s.2 (by simp only [addressSpace]; omega)
      have hroom : BitVec.ofNat 32 e - (BitVec.ofNat 32 s.1.length + 1) =
          BitVec.ofNat 32 (e - (s.1.length + 1)) := by
        rw [← sub_offset (by omega), BitVec.ofNat_add]
        rfl
      rw [List.length_cons, reserveStrings, hlen, Option.bind_some, hroom,
        ih hwords.2 hrest (by omega) (by omega), Nat.sub_sub]

/-- The copy takes no write back. -/
theorem strcpy_writes {t t' : Trace 32} {bound : Nat} {dst src base : BitVec 32} {len : Nat}
    (h : t.strcpy bound dst src = some t') (hinside : t'.Inside base len) : t.Inside base len := by
  induction bound generalizing t dst src with
  | zero => cases h
  | succ bound ih =>
      simp only [Trace.strcpy] at h
      split at h
      · cases h
        exact (Trace.inside_store.mp hinside).1
      · exact (Trace.inside_store.mp (ih h)).1

theorem copy_arguments_writes {t t' : Trace 32} {argc : Nat} {argv array p base : BitVec 32}
    {len : Nat} (h : copyArguments argc argv array p t = some t') (hinside : t'.Inside base len) :
    t.Inside base len := by
  induction argc generalizing t argv array p with
  | zero =>
      cases h
      exact hinside
  | succ argc ih =>
      simp only [copyArguments] at h
      obtain ⟨t₁, hcopy, h⟩ := Option.bind_eq_some_iff.mp h
      obtain ⟨k, -, h⟩ := Option.bind_eq_some_iff.mp h
      exact (Trace.inside_store.mp (strcpy_writes hcopy (ih h))).1

section stack

variable {m : ByteMemory 32} {buf base : BitVec 32} {limit : Nat}

/-- The stack is apart from the buffer. -/
theorem buffer_apart (hkernel : userVmSize ≤ buf.toNat) (hpage : buf.toNat + pageSize ≤ 2 ^ 32)
    (hbase : base.toNat + limit ≤ userVmSize) {n k : Nat} (hn : n + k ≤ limit) {x : BitVec 32}
    (hx : Within buf pageSize x) : k ≤ (x - (base + BitVec.ofNat 32 n)).toNat := by
  have hx : (x - buf).toNat < pageSize := hx
  simp only [userVmSize, pageSize] at *
  have hat : (base + BitVec.ofNat 32 n).toNat = base.toNat + n := by
    rw [BitVec.toNat_add, BitVec.toNat_ofNat]
    omega
  rw [BitVec.toNat_sub] at hx ⊢
  rw [hat]
  omega

theorem buffer_kept (hkernel : userVmSize ≤ buf.toNat) (hpage : buf.toNat + pageSize ≤ 2 ^ 32)
    (hbase : base.toNat + limit ≤ userVmSize) {m' : ByteMemory 32} {n : Nat} {bs : List (BitVec 8)}
    (h : SameOn buf pageSize m m') (hn : n + bs.length ≤ limit) :
    SameOn buf pageSize m (m'.storeBytes (base + BitVec.ofNat 32 n) bs) :=
  h.trans (SameOn.store m' bs fun _ hx => buffer_apart hkernel hpage hbase hn hx)

/-- What the loop does where the pointers and the strings have their places below the limit. -/
theorem copy_arguments_spec (hkernel : userVmSize ≤ buf.toNat)
    (hpage : buf.toNat + pageSize ≤ 2 ^ 32) (hbase : base.toNat + limit ≤ userVmSize)
    (argv : List CString) {j n d q : Nat} (t : Trace 32) (hsame : SameOn buf pageSize m t.mem)
    (hwords : m.loadWords (buf + BitVec.ofNat 32 (4 * j)) argv.length = pointers buf n argv)
    (hstrings : List.Forall₂ (fun p s => HoldsString m p s.1) (pointers buf n argv) argv)
    (hj : 4 * (j + argv.length) ≤ pageSize) (hn : n + size argv ≤ pageSize)
    (hd : d + 4 * argv.length ≤ q) (hq : q + size argv ≤ limit) (hinside : t.Inside base limit) :
    ∃ t', copyArguments argv.length (buf + BitVec.ofNat 32 (4 * j)) (base + BitVec.ofNat 32 d)
        (base + BitVec.ofNat 32 q) t = some t' ∧ t'.Inside base limit ∧
      (∀ p, p < d ∨ d + 4 * argv.length ≤ p ∧ p < q →
        t'.mem (base + BitVec.ofNat 32 p) = t.mem (base + BitVec.ofNat 32 p)) ∧
      t'.mem.loadWords (base + BitVec.ofNat 32 d) argv.length = pointers base q argv ∧
      List.Forall₂ (fun p s => HoldsString t'.mem p s.1) (pointers base q argv) argv := by
  induction argv generalizing j n d q t with
  | nil => exact ⟨t, rfl, hinside, fun _ _ => rfl, rfl, .nil⟩
  | cons s argv ih =>
      have hsmall : limit ≤ 2 ^ 31 := by
        simp only [userVmSize] at hbase
        omega
      have hpages : pageSize = 4096 := rfl
      rw [size_cons] at hn hq
      rw [List.length_cons] at hj hd
      rw [pointers] at hwords hstrings
      rw [List.length_cons, loadWords, List.cons.injEq] at hwords
      obtain ⟨hfirst, hrest⟩ := List.forall₂_cons.mp hstrings
      have hsmallS : s.1.length + 1 ≤ 4096 := by omega
      have hsmallQ : q + (s.1.length + 1) ≤ limit := by omega
      have hcount : 4 * (argv.length + 1) = 4 * argv.length + 4 := by omega
      -- The pointer is stored, then the string.
      set t₁ := t.store (base + BitVec.ofNat 32 d) (wordBytes (base + BitVec.ofNat 32 q)) with ht₁
      have hsame₁ : SameOn buf pageSize m t₁.mem :=
        buffer_kept hkernel hpage hbase hsame (show d + 4 ≤ limit by omega)
      have hpointer : t₁.mem.loadWord (buf + BitVec.ofNat 32 (4 * j)) =
          buf + BitVec.ofNat 32 n := by
        rw [load_word_congr (hsame₁.part (by omega)) (by decide)]
        exact hwords.1
      have hstring : HoldsString t₁.mem (buf + BitVec.ofNat 32 n) s.1 :=
        hfirst.same (hsame₁.part (by omega))
      set t₂ := t₁.store (base + BitVec.ofNat 32 q) (s.1 ++ [0]) with ht₂
      have hlen₂ : (s.1 ++ [0]).length = s.1.length + 1 := List.length_append ..
      have hcopy : t₁.strcpy addressSpace (base + BitVec.ofNat 32 q)
          (t₁.mem.loadWord (buf + BitVec.ofNat 32 (4 * j))) = some t₂ := by
        rw [hpointer]
        refine Trace.strcpy_eq hstring s.2 (by simp only [addressSpace]; omega) fun x hx => ?_
        refine buffer_apart hkernel hpage hbase (show q + (s.1.length + 1) ≤ limit by omega) ?_
        exact within_part (show n + (s.1.length + 1) ≤ pageSize by omega) hx
      have hat : HoldsString t₂.mem (base + BitVec.ofNat 32 q) s.1 :=
        holds_store t₁.mem _ (by omega)
      have hlen : t₂.mem.strlen addressSpace (base + BitVec.ofNat 32 q) = some s.1.length :=
        strlen_eq hat s.2 (by simp only [addressSpace]; omega)
      have hsame₂ : SameOn buf pageSize m t₂.mem :=
        buffer_kept hkernel hpage hbase hsame₁ (by omega)
      have hinside₂ : t₂.Inside base limit := by
        refine Trace.inside_store.mpr ⟨Trace.inside_store.mpr ⟨hinside, fun i hi => ?_⟩,
          fun i hi => ?_⟩
        · have hi : i < 4 := hi
          rw [offset_add]
          exact within_offset base (by omega) (by omega)
        · rw [offset_add]
          exact within_offset base (by omega) (by omega)
      -- What the round has left alone.
      have hframe : ∀ p, p < d ∨ d + 4 ≤ p ∧ p < q →
          t₂.mem (base + BitVec.ofNat 32 p) = t.mem (base + BitVec.ofNat 32 p) := by
        intro p hp
        have hbytes : (wordBytes (base + BitVec.ofNat 32 q)).length = 4 := rfl
        rw [ht₂, Trace.store_mem, store_offset _ _ (by omega) (by omega) (by omega), ht₁,
          Trace.store_mem, store_offset _ _ (by omega) (by omega) (by omega)]
      rw [offset_four, show 4 * j + 4 = 4 * (j + 1) by omega] at hwords
      obtain ⟨t', hloop, hinside', hkept, hloaded, hheld⟩ := ih t₂ hsame₂ hwords.2 hrest
        (by omega) (by omega) (show d + 4 + 4 * argv.length ≤ q + (s.1.length + 1) by omega)
        (by omega) hinside₂
      refine ⟨t', ?_, hinside', ?_, ?_, ?_⟩
      · rw [List.length_cons, copyArguments]
        show (t₁.strcpy addressSpace (base + BitVec.ofNat 32 q)
          (t₁.mem.loadWord (buf + BitVec.ofNat 32 (4 * j)))).bind _ = _
        rw [hcopy, Option.bind_some, hlen, Option.bind_some, offset_four, offset_four,
          offset_string]
        exact hloop
      · intro p hp
        rw [List.length_cons, hcount] at hp
        rw [hkept p (by omega), hframe p (by omega)]
      · have hword : t'.mem.loadWord (base + BitVec.ofNat 32 d) = base + BitVec.ofNat 32 q := by
          rw [load_word_congr (m := t₁.mem) (.of_bytes fun i hi => ?_) (by decide), ht₁]
          · exact load_store_word t.mem _ _ (by decide)
          · rw [offset_add, hkept _ (by omega), ht₂, Trace.store_mem,
              store_offset _ _ (by omega) (by omega) (by omega)]
        rw [List.length_cons, loadWords, hword, offset_four, hloaded]
        rfl
      · refine .cons (hat.same (.of_bytes fun i hi => ?_)) hheld
        rw [offset_add]
        exact hkept _ (by omega)

end stack

/-- The stack pointer of the new image, when the strings are short. -/
def espOf (argv : List CString) : Nat :=
  (0x7FFFFFFC - size argv) / 4 * 4 - 8 * argv.length - 4

theorem esp_eq {argv : List CString} (hlen : argv.length ≤ 4) (hsize : size argv < 4096) :
    BitVec.ofNat 32 (0x7FFFFFFC - size argv) - BitVec.ofNat 32 (0x7FFFFFFC - size argv) % 4 -
        BitVec.ofNat 32 (4 * argv.length) - BitVec.ofNat 32 (4 * argv.length) - 4 =
      BitVec.ofNat 32 (espOf argv) := by
  have hmod : BitVec.ofNat 32 (0x7FFFFFFC - size argv) % 4 =
      BitVec.ofNat 32 ((0x7FFFFFFC - size argv) % 4) := by
    apply BitVec.eq_of_toNat_eq
    rw [BitVec.toNat_umod, BitVec.toNat_ofNat, BitVec.toNat_ofNat,
      show (4 : BitVec 32).toNat = 4 from rfl]
    omega
  rw [hmod, sub_offset (Nat.mod_le _ _), sub_offset (by omega), sub_offset (by omega),
    show (4 : BitVec 32) = BitVec.ofNat 32 4 from rfl, sub_offset (by omega), espOf]
  congr 1
  omega

/-- What `InitUserStack` writes before its loop. -/
def stackWords (t : Trace 32) (argv : List CString) : Trace 32 :=
  (t.store (BitVec.ofNat 32 (espOf argv)) (wordBytes (BitVec.ofNat 32 argv.length))).store
    (BitVec.ofNat 32 (espOf argv) + BitVec.ofNat 32 4)
    (wordBytes (BitVec.ofNat 32 (espOf argv) + BitVec.ofNat 32 8))

/-- The two words in front of the pointers. -/
theorem stack_words_spec {m : ByteMemory 32} {buf : BitVec 32} {argv : List CString} {limit : Nat}
    (hkernel : userVmSize ≤ buf.toNat) (hpage : buf.toNat + pageSize ≤ 2 ^ 32)
    (hbase : (BitVec.ofNat 32 (espOf argv)).toNat + limit ≤ userVmSize) (hlimit : 8 ≤ limit) :
    SameOn buf pageSize m (stackWords ⟨m, []⟩ argv).mem ∧
      (stackWords ⟨m, []⟩ argv).Inside (BitVec.ofNat 32 (espOf argv)) limit ∧
      (stackWords ⟨m, []⟩ argv).mem.loadWord (BitVec.ofNat 32 (espOf argv)) =
        BitVec.ofNat 32 argv.length ∧
      (stackWords ⟨m, []⟩ argv).mem.loadWord
          (BitVec.ofNat 32 (espOf argv) + BitVec.ofNat 32 4) =
        BitVec.ofNat 32 (espOf argv) + BitVec.ofNat 32 8 := by
  set base := BitVec.ofNat 32 (espOf argv) with hesp
  have hzero : base + BitVec.ofNat 32 0 = base := BitVec.add_zero base
  have hsmall : limit ≤ 2 ^ 31 := by
    simp only [userVmSize] at hbase
    omega
  have hfirst : SameOn buf pageSize m
      (m.storeBytes base (wordBytes (BitVec.ofNat 32 argv.length))) := by
    have hkept := buffer_kept hkernel hpage hbase (.refl buf pageSize m) (n := 0)
      (show 0 + (wordBytes (BitVec.ofNat 32 argv.length)).length ≤ limit from
        Nat.le_trans (by decide : 4 ≤ 8) hlimit)
    rwa [hzero] at hkept
  refine ⟨buffer_kept hkernel hpage hbase hfirst (show 4 + 4 ≤ limit from hlimit), ?_, ?_, ?_⟩
  · refine Trace.inside_store.mpr ⟨Trace.inside_store.mpr
      ⟨fun x hx => absurd hx List.not_mem_nil, fun i hi => ?_⟩, fun i hi => ?_⟩
    · have hi : i < 4 := hi
      exact within_offset base (by omega) (by omega)
    · have hi : i < 4 := hi
      rw [offset_add]
      exact within_offset base (by omega) (by omega)
  · have hother : SameOn base 4 (m.storeBytes base (wordBytes (BitVec.ofNat 32 argv.length)))
        (stackWords ⟨m, []⟩ argv).mem := by
      refine .of_bytes fun i hi => ?_
      exact store_offset _ _ (.inl hi) (show 4 + 4 ≤ 2 ^ 32 by decide) (by omega)
    rw [load_word_congr hother (by decide)]
    exact load_store_word m base _ (by decide)
  · exact load_store_word _ _ _ (by decide)

theorem init_arguments_eq {t : Trace 32} {buf : BitVec 32} {n : Nat} {argv : List CString}
    (hne : argv ≠ []) (hlen : argv.length ≤ 4) (hsize : size argv < 4096)
    (hwords : t.mem.loadWords buf argv.length = pointers buf n argv)
    (hstrings : List.Forall₂ (fun p s => HoldsString t.mem p s.1) (pointers buf n argv) argv) :
    initArguments t buf argv.length =
      (copyArguments argv.length buf (BitVec.ofNat 32 (espOf argv) + BitVec.ofNat 32 8)
        (BitVec.ofNat 32 (espOf argv) + BitVec.ofNat 32 (8 + 4 * argv.length))
        (stackWords t argv)).map fun t => (t, BitVec.ofNat 32 (espOf argv)) := by
  have hcount : argv.length ≠ 0 := fun h => hne (List.length_eq_zero_iff.mp h)
  have hroom : reserveStrings t.mem argv.length buf (userStackTop - 4) =
      some (BitVec.ofNat 32 (0x7FFFFFFC - size argv)) :=
    reserve_strings_eq (e := 0x7FFFFFFC) argv hwords hstrings (by omega) (by omega)
  have htop : BitVec.ofNat 32 (espOf argv) + BitVec.ofNat 32 4 + 4 =
      BitVec.ofNat 32 (espOf argv) + BitVec.ofNat 32 8 := offset_four _ 4
  have hstart : BitVec.ofNat 32 (espOf argv) + BitVec.ofNat 32 8 +
      BitVec.ofNat 32 (4 * argv.length) =
      BitVec.ofNat 32 (espOf argv) + BitVec.ofNat 32 (8 + 4 * argv.length) := offset_add _ _ _
  rw [initArguments, if_pos hcount, hroom, Option.bind_some]
  simp only [esp_eq hlen hsize]
  rw [show (BitVec.ofNat 32 (espOf argv) + 4 : BitVec 32) =
    BitVec.ofNat 32 (espOf argv) + BitVec.ofNat 32 4 from rfl, htop, hstart]
  rfl

/-! ## The law of the arguments -/

section law

variable (m user : ByteMemory 32) {argBuf : BitVec 32} (argv : List CString)

/-- What `MakeArguments` has made, in the cleared buffer. -/
abbrev madeArguments (argBuf : BitVec 32) : Arguments :=
  makeArguments ((Trace.mk m []).store argBuf (List.replicate pageSize 0)) argBuf argv

/-- Arguments that are kept in the buffer are few and short. -/
theorem made_inside (hinside : (madeArguments m argv argBuf).trace.Inside argBuf pageSize)
    (harray : (madeArguments m argv argBuf).strStack.length ≤ maxStackArgc / 4) :
    argv.length ≤ 4 ∧ 4 * argv.length + size argv < pageSize := by
  have hcount : (madeArguments m argv argBuf).strStack.length = argv.length := by
    show (copyStrings _ _ _ _).strStack.length = _
    rw [copy_strings_pointers, List.nil_append, length_pointers]
  rw [hcount] at harray
  have hfour : argv.length ≤ 4 := harray
  refine ⟨hfour, ?_⟩
  rw [madeArguments, makeArguments, fill_pointers_eq] at hinside
  exact copy_strings_inside argv _ _ (by simp only [pageSize]; omega)
    (Trace.inside_store.mp hinside).1

/-- The buffer, when the strings fit. -/
theorem made_spec (hfits : 4 * argv.length + size argv < pageSize) :
    (madeArguments m argv argBuf).trace.Inside argBuf pageSize ∧
      (madeArguments m argv argBuf).trace.mem.loadWords argBuf argv.length =
        pointers argBuf (4 * argv.length) argv ∧
      List.Forall₂ (fun p s => HoldsString (madeArguments m argv argBuf).trace.mem p s.1)
        (pointers argBuf (4 * argv.length) argv) argv := by
  have hzeros : (List.replicate pageSize (0 : BitVec 8)).length = pageSize := List.length_replicate
  apply make_arguments_spec argv _ hfits
  · intro p hp
    rw [Trace.store_mem, store_bytes_inside _ _ (by omega) (by rw [hzeros]; decide),
      List.getElem_replicate]
  · refine Trace.inside_store.mpr ⟨fun x hx => absurd hx List.not_mem_nil, fun i hi => ?_⟩
    exact within_offset_page (by omega)

/-- The buffer, when the image has been replaced. -/
theorem loaded_same (hkernel : userVmSize ≤ argBuf.toNat) (hpage : argBuf.toNat + pageSize ≤ 2 ^ 32)
    (m' : ByteMemory 32) :
    SameOn argBuf pageSize m' fun a => if a.toNat < userVmSize then user a else m' a := by
  intro x hx
  have hx : (x - argBuf).toNat < pageSize := hx
  have hlarge : ¬x.toNat < userVmSize := by
    rw [BitVec.toNat_sub] at hx
    simp only [userVmSize, pageSize] at *
    omega
  exact if_neg hlarge

/-- The arguments in the memory that `InitUserStack` reads. -/
theorem loaded_spec (hkernel : userVmSize ≤ argBuf.toNat) (hpage : argBuf.toNat + pageSize ≤ 2 ^ 32)
    (hfits : 4 * argv.length + size argv < pageSize) :
    ∃ loaded : ByteMemory 32,
      (execArguments m user argBuf argv).stack = initArguments ⟨loaded, []⟩ argBuf argv.length ∧
      loaded.loadWords argBuf argv.length = pointers argBuf (4 * argv.length) argv ∧
      List.Forall₂ (fun p s => HoldsString loaded p s.1) (pointers argBuf (4 * argv.length) argv)
        argv := by
  obtain ⟨-, hwords, hstrings⟩ := @made_spec m argBuf argv hfits
  have hsame := loaded_same user hkernel hpage (madeArguments m argv argBuf).trace.mem
  have hbuf : argBuf + BitVec.ofNat 32 0 = argBuf := BitVec.add_zero argBuf
  refine ⟨_, rfl, ?_, ?_⟩
  · rw [← hwords]
    refine load_words_congr ?_ (by simp only [pageSize] at hfits; omega)
    have hpart := hsame.part (show 0 + 4 * argv.length ≤ pageSize by omega)
    rwa [hbuf] at hpart
  · exact strings_same hstrings fun p _ hp => hsame _ (within_offset_page (by omega))

/-- Arguments that are kept fit. -/
theorem kept_fit {pgdir : Directory} (hkernel : userVmSize ≤ argBuf.toNat)
    (hpage : argBuf.toNat + pageSize ≤ 2 ^ 32)
    (hkept : ArgumentsKept (execArguments m user argBuf argv) argBuf argv pgdir) :
    ArgumentsFit argv := by
  obtain ⟨hlen, hfits⟩ := made_inside m argv hkept.buffer hkept.array
  refine ⟨hlen, ?_⟩
  by_cases hne : argv = []
  · subst hne
    decide
  obtain ⟨t, esp, hstack, hinside, -⟩ := hkept.stack
  obtain ⟨loaded, hrun, hwords, hstrings⟩ := loaded_spec m user argv hkernel hpage hfits
  have hsize : size argv < 4096 := by
    simp only [pageSize] at hfits
    omega
  rw [hrun, init_arguments_eq hne hlen hsize hwords hstrings] at hstack
  obtain ⟨t', hcopy, heq⟩ := Option.map_eq_some_iff.mp hstack
  cases heq
  -- The number of arguments has been written at the stack pointer.
  have hwrites := copy_arguments_writes hcopy hinside
  have hbyte := (Trace.inside_store.mp (Trace.inside_store.mp hwrites).1).2 0
    (show 0 < 4 by decide)
  rw [BitVec.add_zero] at hbyte
  have hbyte : (BitVec.ofNat 32 (espOf argv) - BitVec.ofNat 32 stackPage).toNat < pageSize := hbyte
  rw [BitVec.toNat_sub, BitVec.toNat_ofNat, BitVec.toNat_ofNat] at hbyte
  simp only [espOf, pageSize, stackPage] at *
  omega

/-- Arguments that fit are kept. -/
theorem fit_kept {pgdir : Directory} (hkernel : userVmSize ≤ argBuf.toNat)
    (hpage : argBuf.toNat + pageSize ≤ 2 ^ 32) (hmapped : (pgdir.frame stackPage).isSome)
    (hfit : ArgumentsFit argv) :
    ArgumentsKept (execArguments m user argBuf argv) argBuf argv pgdir := by
  obtain ⟨hlen, hroom⟩ := hfit
  have hfour : argv.length ≤ 4 := hlen
  have hfits : 4 * argv.length + size argv < pageSize := by omega
  refine ⟨(made_spec m argv hfits).1, ?_, hmapped, ?_⟩
  · show (copyStrings _ _ _ _).strStack.length ≤ _
    rw [copy_strings_pointers, List.nil_append, length_pointers]
    exact hlen
  obtain ⟨loaded, hrun, hwords, hstrings⟩ := loaded_spec m user argv hkernel hpage hfits
  rw [hrun]
  by_cases hne : argv = []
  · -- Two words without a string.
    subst hne
    have htop : userStackTop - 4 - BitVec.ofNat 32 (4 * 0) - 4 =
        BitVec.ofNat 32 stackPage + BitVec.ofNat 32 0xFF8 := by decide
    refine ⟨_, _, rfl, ?_, ?_, fun h => absurd rfl h⟩
    · refine Trace.inside_store.mpr ⟨Trace.inside_store.mpr
        ⟨fun x hx => absurd hx List.not_mem_nil, fun i hi => ?_⟩, fun i hi => ?_⟩
      · have hi : i < 4 := hi
        rw [List.length_nil, htop, offset_add]
        exact within_offset_page (by simp only [pageSize]; omega)
      · have hi : i < 4 := hi
        rw [List.length_nil, htop, offset_four, offset_add]
        exact within_offset_page (by simp only [pageSize]; omega)
    · rw [List.length_nil, htop]
      refine (load_word_congr (.of_bytes fun i hi => ?_) (by decide)).trans
        (load_store_word loaded _ 0 (by decide))
      rw [offset_four, offset_add]
      exact store_offset _ _ (.inl (by omega)) (show 0xFF8 + 4 + 4 ≤ 2 ^ 32 by decide) (by omega)
  · have hsize : size argv < 4096 := by
      simp only [pageSize] at hfits
      omega
    have hesp : stackPage ≤ espOf argv ∧
        espOf argv + 8 + 4 * argv.length + size argv ≤ userVmSize := by
      simp only [espOf, stackPage, userVmSize, pageSize] at *
      omega
    obtain ⟨hlow, hhigh⟩ := hesp
    have hbase : (BitVec.ofNat 32 (espOf argv)).toNat + (userVmSize - espOf argv) ≤ userVmSize := by
      rw [BitVec.toNat_ofNat]
      simp only [userVmSize] at *
      omega
    obtain ⟨hsame, hinside, hargc, harray⟩ :=
      stack_words_spec (m := loaded) hkernel hpage hbase (by omega)
    have hzero : argBuf + BitVec.ofNat 32 (4 * 0) = argBuf := BitVec.add_zero argBuf
    obtain ⟨t, hcopy, hinside', hframe, hloaded, hheld⟩ := copy_arguments_spec hkernel hpage hbase
      argv (j := 0) (n := 4 * argv.length) (d := 8) (q := 8 + 4 * argv.length) _ hsame
      (by rw [hzero]; exact hwords) hstrings (by omega) (by omega) (by omega) (by omega) hinside
    rw [hzero] at hcopy
    -- The words in front of the pointers stay.
    have hword : ∀ k, k + 4 ≤ 8 →
        t.mem.loadWord (BitVec.ofNat 32 (espOf argv) + BitVec.ofNat 32 k) =
          (stackWords ⟨loaded, []⟩ argv).mem.loadWord
          (BitVec.ofNat 32 (espOf argv) + BitVec.ofNat 32 k) := by
      intro k hk
      refine load_word_congr (.of_bytes fun i hi => ?_) (by decide)
      rw [offset_add]
      exact hframe _ (by omega)
    have hargc' : t.mem.loadWord (BitVec.ofNat 32 (espOf argv)) = BitVec.ofNat 32 argv.length := by
      have h := hword 0 (by decide)
      rw [show BitVec.ofNat 32 (espOf argv) + BitVec.ofNat 32 0 = BitVec.ofNat 32 (espOf argv) from
        BitVec.add_zero _] at h
      rw [h, hargc]
    rw [init_arguments_eq hne hfour hsize hwords hstrings, hcopy]
    refine ⟨t, _, rfl, ?_, hargc', fun _ => ?_⟩
    · intro x hx
      have hpart := hinside' x hx
      have hsplit : BitVec.ofNat 32 (espOf argv) =
          BitVec.ofNat 32 stackPage + BitVec.ofNat 32 (espOf argv - stackPage) := by
        rw [← BitVec.ofNat_add, Nat.add_sub_cancel' hlow]
      rw [hsplit] at hpart
      refine within_part ?_ hpart
      simp only [stackPage, userVmSize, pageSize] at *
      omega
    · have h := hword 4 (by decide)
      rw [harray] at h
      rw [show BitVec.ofNat 32 (espOf argv) + 4 =
        BitVec.ofNat 32 (espOf argv) + BitVec.ofNat 32 4 from rfl, h, hloaded]
      exact hheld

end law

/-- A new image has its stack page. -/
theorem exec_stack_mapped {s t : ProcessState} {image : Image}
    (hexec : sysExecv s image = some (t, 0)) : (t.proc.pgdir.frame stackPage).isSome := by
  rw [sysExecv] at hexec
  obtain ⟨⟨s₁, ret₁⟩, -, hexec⟩ := Option.bind_eq_some_iff.mp hexec
  simp only at hexec
  split at hexec
  · simp at hexec
  obtain ⟨⟨s₂, ret₂⟩, hinit, heq⟩ := Option.map_eq_some_iff.mp hexec
  simp only at heq
  split at heq
  · simp at heq
  next hret =>
    have hzero : ret₂ = 0 := by simpa using hret
    rw [hzero] at hinit
    have hdir : t.proc.pgdir = s₂.proc.pgdir := by
      rw [← (Prod.mk.inj heq).1]
      rfl
    rw [hdir]
    cases hspace : image.stackSpace with
    | none =>
        rw [hspace] at hinit
        simp [initUserStack] at hinit
    | some block =>
        rw [hspace] at hinit
        simp only [initUserStack] at hinit
        obtain ⟨⟨m₁, page⟩, -, hrest⟩ := Option.bind_eq_some_iff.mp hinit
        by_cases hpage : page = 0
        · simp [hpage] at hrest
        · simp only [hpage, if_false] at hrest
          obtain ⟨⟨m₂, dir₂, ret₂⟩, hadd, heq⟩ := Option.map_eq_some_iff.mp hrest
          simp only at heq
          split at heq
          · simp at heq
          next hadded =>
            cases heq
            have hword : dir₂.word stackPage = some (page ||| userWrite ||| 1) := by
              rcases page_table_add_cases hadd with ⟨htable, -, -, rfl⟩ | ⟨-, q, -, hcase⟩
              · have hold : (s₁.proc.pgdir.word stackPage).isSome := by
                  rw [Directory.word, Option.isSome_map]
                  exact htable
                rw [Directory.word_set_word, if_pos ⟨rfl, hold⟩]
              · rcases hcase with ⟨-, -, rfl⟩ | ⟨-, -, rfl⟩
                · exact absurd rfl hadded
                · have hnew : ((s₁.proc.pgdir.addTable stackPage
                      ⟨q, userWrite, m₂.pages q⟩).word stackPage).isSome := by
                    rw [Directory.word_add_table, if_pos rfl]
                    rfl
                  rw [Directory.word_set_word, if_pos ⟨rfl, hnew⟩]
            rw [Directory.frame, hword]
            simp [present_entry]

/-- When `SysExecv` succeeds, the new image has its arguments, and every write for them has been in
its place, if and only if the arguments fit. -/
theorem exec_arguments_iff (m user : ByteMemory 32) {argBuf : BitVec 32}
    (hkernel : userVmSize ≤ argBuf.toNat) (hpage : argBuf.toNat + pageSize ≤ 2 ^ 32)
    (argv : List CString) {s t : ProcessState} {image : Image}
    (hexec : sysExecv s image = some (t, 0)) :
    ArgumentsKept (execArguments m user argBuf argv) argBuf argv t.proc.pgdir ↔
      ArgumentsFit argv :=
  ⟨kept_fit m user argv hkernel hpage, fit_kept m user argv hkernel hpage (exec_stack_mapped hexec)⟩

/-- An image without a segment. -/
def emptyImage : Image := ⟨[], some ⟨0, 0, 0, 0⟩⟩

theorem empty_image_loads : ∃ t, sysExecv bootProcess emptyImage = some (t, 0) := by
  have hret : (sysExecv bootProcess emptyImage).map Prod.snd = some 0 := by decide +kernel
  obtain ⟨⟨t, ret⟩, hexec, heq⟩ := Option.map_eq_some_iff.mp hret
  cases heq
  exact ⟨t, hexec⟩

/-- Five arguments overflow the array of the pointers, and `SysExecv` goes on. -/
theorem five_arguments_overflow : ∃ t, sysExecv bootProcess emptyImage = some (t, 0) ∧
    ¬ArgumentsKept (execArguments (fun _ => 0) (fun _ => 0) 0x81000000
      (List.replicate 5 ⟨[], List.not_mem_nil⟩)) 0x81000000
      (List.replicate 5 ⟨[], List.not_mem_nil⟩) t.proc.pgdir := by
  obtain ⟨t, hexec⟩ := empty_image_loads
  refine ⟨t, hexec, fun hkept => ?_⟩
  have hfit := kept_fit _ _ _ (by decide) (by decide) hkept
  exact absurd hfit.1 (by decide)

theorem one_argument_kept : ∃ t, sysExecv bootProcess emptyImage = some (t, 0) ∧
    (ArgumentsKept (execArguments (fun _ => 0) (fun _ => 0) 0x81000000
        [⟨[0x61], by decide⟩]) 0x81000000 [⟨[0x61], by decide⟩] t.proc.pgdir ↔
      ArgumentsFit [⟨[0x61], by decide⟩]) := by
  obtain ⟨t, hexec⟩ := empty_image_loads
  exact ⟨t, hexec, exec_arguments_iff _ _ (by decide) (by decide) _ hexec⟩

end XBook.Exec
