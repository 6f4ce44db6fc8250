import XBook.Lib.Bytes

/-!
# Strings in memory

A string lies in a memory as its bytes and a zero byte behind them. `strlen` and `strcpy` go byte
by byte, for at most the number of bytes that they are given. A `Trace` is a memory with the
addresses that have been written.
-/

namespace XBook

namespace ByteMemory

variable {w : Nat}

/-- The string lies at the address. -/
def HoldsString (m : ByteMemory w) (a : BitVec w) : List (BitVec 8) → Prop
  | [] => m a = 0
  | b :: s => m a = b ∧ HoldsString m (a + 1) s

def strlen (m : ByteMemory w) : Nat → BitVec w → Option Nat
  | 0, _ => none
  | bound + 1, a => if m a = 0 then some 0 else (strlen m bound (a + 1)).map (· + 1)

/-- The addresses of a region. -/
def addresses (a : BitVec w) : Nat → List (BitVec w)
  | 0 => []
  | n + 1 => a :: addresses (a + 1) n

theorem mem_addresses {a x : BitVec w} {n : Nat} :
    x ∈ addresses a n ↔ ∃ i < n, x = a + BitVec.ofNat w i := by
  induction n generalizing a with
  | zero => simp [addresses]
  | succ n ih =>
      have hshift : ∀ i, a + 1 + BitVec.ofNat w i = a + BitVec.ofNat w (i + 1) := by
        intro i
        rw [Nat.add_comm i 1, BitVec.ofNat_add, BitVec.add_assoc]
        rfl
      rw [addresses, List.mem_cons, ih]
      constructor
      · rintro (rfl | ⟨i, hi, rfl⟩)
        · exact ⟨0, Nat.succ_pos n, (BitVec.add_zero x).symm⟩
        · exact ⟨i + 1, Nat.succ_lt_succ hi, hshift i⟩
      · rintro ⟨i, hi, rfl⟩
        cases i with
        | zero => exact .inl (BitVec.add_zero a)
        | succ i => exact .inr ⟨i, Nat.lt_of_succ_lt_succ hi, (hshift i).symm⟩

/-- The part of a region behind its first byte. -/
theorem SameOn.tail {m m' : ByteMemory w} {a : BitVec w} {n : Nat} (h : SameOn a (n + 1) m m') :
    SameOn (a + 1) n m m' :=
  h.part (p := 1) (Nat.le_of_eq (Nat.add_comm 1 n))

theorem SameOn.head {m m' : ByteMemory w} {a : BitVec w} {n : Nat} (h : SameOn a (n + 1) m m') :
    m' a = m a :=
  h a (Nat.lt_of_lt_of_le (within_self a) (Nat.le_add_left 1 n))

/-- A string depends on its bytes and the one behind them. -/
theorem HoldsString.same {m m' : ByteMemory w} {a : BitVec w} {s : List (BitVec 8)}
    (h : HoldsString m a s) (hsame : SameOn a (s.length + 1) m m') : HoldsString m' a s := by
  induction s generalizing a with
  | nil => exact hsame.head.trans h
  | cons b s ih => exact ⟨hsame.head.trans h.1, ih h.2 hsame.tail⟩

theorem holds_of_bytes {m : ByteMemory w} {a : BitVec w} {s : List (BitVec 8)}
    (h : ∀ i (hi : i < s.length), m (a + BitVec.ofNat w i) = s[i])
    (hend : m (a + BitVec.ofNat w s.length) = 0) : HoldsString m a s := by
  induction s generalizing a with
  | nil =>
      rw [List.length_nil, BitVec.add_zero] at hend
      exact hend
  | cons b s ih =>
      have hshift : ∀ i, a + BitVec.ofNat w (i + 1) = a + 1 + BitVec.ofNat w i := by
        intro i
        rw [Nat.add_comm i 1, BitVec.ofNat_add, BitVec.add_assoc]
        rfl
      have hfirst := h 0 (Nat.succ_pos _)
      rw [BitVec.add_zero] at hfirst
      refine ⟨hfirst, ih (fun i hi => ?_) ?_⟩
      · rw [← hshift]
        exact h (i + 1) (Nat.succ_lt_succ hi)
      · rw [← hshift]
        exact hend

/-- A string that has been stored with a zero byte behind it. -/
theorem holds_store (m : ByteMemory w) (a : BitVec w) {s : List (BitVec 8)}
    (hw : s.length + 1 ≤ 2 ^ w) : HoldsString (m.storeBytes a (s ++ [0])) a s := by
  have hlen : (s ++ [0]).length = s.length + 1 := List.length_append ..
  apply holds_of_bytes
  · intro i hi
    rw [store_bytes_inside m a (by omega) (by omega), List.getElem_append_left hi]
  · rw [store_bytes_inside m a (by omega) (by omega)]
    exact List.getElem_concat_length rfl _

theorem strlen_eq {m : ByteMemory w} {a : BitVec w} {s : List (BitVec 8)} {bound : Nat}
    (h : HoldsString m a s) (hzero : 0 ∉ s) (hbound : s.length < bound) :
    m.strlen bound a = some s.length := by
  induction bound generalizing a s with
  | zero => exact absurd hbound (Nat.not_lt_zero _)
  | succ bound ih =>
      rw [strlen]
      cases s with
      | nil => exact if_pos h
      | cons b s =>
          have hb : m a ≠ 0 := by
            rw [h.1]
            exact fun hb => hzero (hb ▸ List.mem_cons_self)
          rw [if_neg hb, ih h.2 (fun hs => hzero (List.mem_cons_of_mem b hs))
            (Nat.lt_of_succ_lt_succ hbound)]
          rfl

end ByteMemory

open ByteMemory

/-- A memory, with the addresses that have been written. -/
structure Trace (w : Nat) where
  mem : ByteMemory w
  writes : List (BitVec w)

namespace Trace

variable {w : Nat}

def store (t : Trace w) (a : BitVec w) (bs : List (BitVec 8)) : Trace w :=
  ⟨t.mem.storeBytes a bs, t.writes ++ addresses a bs.length⟩

/-- Every write has been in the region. -/
def Inside (t : Trace w) (base : BitVec w) (len : Nat) : Prop :=
  ∀ x ∈ t.writes, Within base len x

def strcpy (t : Trace w) : Nat → BitVec w → BitVec w → Option (Trace w)
  | 0, _, _ => none
  | bound + 1, dst, src =>
      let b := t.mem src
      if b = 0 then some (t.store dst [b]) else strcpy (t.store dst [b]) bound (dst + 1) (src + 1)

@[simp] theorem store_mem (t : Trace w) (a : BitVec w) (bs : List (BitVec 8)) :
    (t.store a bs).mem = t.mem.storeBytes a bs := rfl

theorem store_nil (t : Trace w) (a : BitVec w) : t.store a [] = t := by
  show (⟨t.mem, t.writes ++ []⟩ : Trace w) = t
  rw [List.append_nil]

theorem store_cons (t : Trace w) (a : BitVec w) (b : BitVec 8) (bs : List (BitVec 8)) :
    t.store a (b :: bs) = (t.store a [b]).store (a + 1) bs := by
  simp only [store, storeBytes, List.length_cons, List.length_nil, addresses, List.append_assoc,
    List.cons_append, List.nil_append]

theorem store_append (t : Trace w) (a : BitVec w) (bs cs : List (BitVec 8)) :
    t.store a (bs ++ cs) = (t.store a bs).store (a + BitVec.ofNat w bs.length) cs := by
  induction bs generalizing t a with
  | nil => rw [List.nil_append, store_nil, List.length_nil, BitVec.add_zero]
  | cons b bs ih =>
      have hshift : a + BitVec.ofNat w (bs.length + 1) = a + 1 + BitVec.ofNat w bs.length := by
        rw [Nat.add_comm, BitVec.ofNat_add, BitVec.add_assoc]
        rfl
      rw [List.cons_append, store_cons, ih, ← store_cons, List.length_cons, hshift]

theorem inside_store {t : Trace w} {base a : BitVec w} {len : Nat} {bs : List (BitVec 8)} :
    (t.store a bs).Inside base len ↔
      t.Inside base len ∧ ∀ i < bs.length, Within base len (a + BitVec.ofNat w i) := by
  simp only [Inside, store, List.mem_append, mem_addresses]
  constructor
  · intro h
    exact ⟨fun x hx => h x (.inl hx), fun i hi => h _ (.inr ⟨i, hi, rfl⟩)⟩
  · rintro ⟨hold, hnew⟩ x (hx | ⟨i, hi, rfl⟩)
    · exact hold x hx
    · exact hnew i hi

/-- `strcpy` stores the string and its zero byte, where these are apart from the string that is
read. -/
theorem strcpy_eq {t : Trace w} {dst src : BitVec w} {s : List (BitVec 8)} {bound : Nat}
    (h : HoldsString t.mem src s) (hzero : 0 ∉ s) (hbound : s.length < bound)
    (hapart : ∀ x, Within src (s.length + 1) x → s.length + 1 ≤ (x - dst).toNat) :
    t.strcpy bound dst src = some (t.store dst (s ++ [0])) := by
  induction bound generalizing t dst src s with
  | zero => exact absurd hbound (Nat.not_lt_zero _)
  | succ bound ih =>
      rw [strcpy]
      cases s with
      | nil =>
          have hend : t.mem src = 0 := h
          rw [hend]
          rfl
      | cons b s =>
          have hb : b ≠ 0 := fun hb => hzero (hb ▸ List.mem_cons_self)
          simp only [h.1, if_neg hb]
          rw [List.length_cons] at hapart
          have hone : (1 : BitVec w).toNat ≤ 1 := by
            rw [BitVec.ofNat_eq_ofNat, BitVec.toNat_ofNat]
            exact Nat.mod_le 1 _
          -- What is left to read lies in the region that has been read from.
          have hrest : ∀ x, Within (src + 1) (s.length + 1) x →
              Within src (s.length + 1 + 1) x :=
            fun x hx => within_part (p := 1) (Nat.le_of_eq (Nat.add_comm 1 (s.length + 1))) hx
          have hkept : SameOn (src + 1) (s.length + 1) t.mem (t.store dst [b]).mem := by
            refine SameOn.store t.mem [b] fun x hx => ?_
            exact Nat.le_trans (Nat.le_add_left 1 _) (hapart x (hrest x hx))
          rw [ih (h.2.same hkept) (fun hs => hzero (List.mem_cons_of_mem b hs))
            (Nat.lt_of_succ_lt_succ hbound) ?_, List.cons_append, ← store_cons]
          intro x hx
          have hfar := hapart x (hrest x hx)
          have hsplit : x - (dst + 1) = (x - dst) - 1 := by
            rw [← BitVec.sub_sub]
          rw [hsplit, BitVec.toNat_sub_of_le]
          · omega
          · rw [BitVec.le_def]
            omega

end Trace

end XBook
