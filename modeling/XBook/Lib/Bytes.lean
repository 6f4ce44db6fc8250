import Mathlib.Algebra.Group.Nat.Defs
import Mathlib.Logic.Function.Basic

/-!
# Byte-addressed memory

A memory is a function from addresses of `w` bits to bytes, and its addresses wrap around. Words
are stored with the low byte first. A region is given by its first address and its length, so that
it may wrap around as well.
-/

namespace XBook

/-- The bits outside of a mask and those of the mask make up the word. -/
theorem and_not_add_and {w : Nat} (x m : BitVec w) : (x &&& ~~~m) + (x &&& m) = x := by
  rw [BitVec.add_eq_or_of_and_eq_zero]
  · apply BitVec.eq_of_getLsbD_eq
    intro i hi
    simp only [BitVec.getLsbD_or, BitVec.getLsbD_and, BitVec.getLsbD_not, hi, decide_true,
      Bool.true_and]
    cases x.getLsbD i <;> cases m.getLsbD i <;> rfl
  · apply BitVec.eq_of_getLsbD_eq
    intro i hi
    simp only [BitVec.getLsbD_and, BitVec.getLsbD_not, hi, decide_true, Bool.true_and,
      BitVec.getLsbD_zero]
    cases x.getLsbD i <;> cases m.getLsbD i <;> rfl

abbrev ByteMemory (w : Nat) := BitVec w → BitVec 8

namespace ByteMemory

variable {w : Nat}

/-- The address is within the region. -/
def Within (base : BitVec w) (len : Nat) (a : BitVec w) : Prop := (a - base).toNat < len

/-- Two memories agree on a region. -/
def SameOn (base : BitVec w) (len : Nat) (m m' : ByteMemory w) : Prop :=
  ∀ a, Within base len a → m' a = m a

def storeBytes (m : ByteMemory w) (a : BitVec w) : List (BitVec 8) → ByteMemory w
  | [] => m
  | b :: bs => storeBytes (Function.update m a b) (a + 1) bs

/-- The bytes of a word, low byte first. -/
def wordBytes (v : BitVec 32) : List (BitVec 8) :=
  [v.extractLsb' 0 8, v.extractLsb' 8 8, v.extractLsb' 16 8, v.extractLsb' 24 8]

def storeWord (m : ByteMemory w) (a : BitVec w) (v : BitVec 32) : ByteMemory w :=
  m.storeBytes a (wordBytes v)

def loadWord (m : ByteMemory w) (a : BitVec w) : BitVec 32 :=
  m (a + 3) ++ m (a + 2) ++ m (a + 1) ++ m a

def storeWords (m : ByteMemory w) (a : BitVec w) (vs : List (BitVec 32)) : ByteMemory w :=
  m.storeBytes a (vs.flatMap wordBytes)

def loadWords (m : ByteMemory w) (a : BitVec w) : Nat → List (BitVec 32)
  | 0 => []
  | n + 1 => m.loadWord a :: m.loadWords (a + 4) n

theorem SameOn.refl (base : BitVec w) (len : Nat) (m : ByteMemory w) : SameOn base len m m :=
  fun _ _ => rfl

theorem SameOn.trans {base : BitVec w} {len : Nat} {m m' m'' : ByteMemory w}
    (h : SameOn base len m m') (h' : SameOn base len m' m'') : SameOn base len m m'' :=
  fun a ha => (h' a ha).trans (h a ha)

theorem SameOn.mono {base base' : BitVec w} {len len' : Nat} {m m' : ByteMemory w}
    (h : SameOn base len m m') (hsub : ∀ a, Within base' len' a → Within base len a) :
    SameOn base' len' m m' := fun a ha => h a (hsub a ha)

theorem within_offset (base : BitVec w) {i len : Nat} (hi : i < len) (hw : i < 2 ^ w) :
    Within base len (base + BitVec.ofNat w i) := by
  show (base + BitVec.ofNat w i - base).toNat < len
  rw [BitVec.add_comm, BitVec.add_sub_cancel, BitVec.toNat_ofNat, Nat.mod_eq_of_lt hw]
  exact hi

theorem within_self (a : BitVec w) : Within a 1 a := by
  show (a - a).toNat < 1
  rw [BitVec.sub_self, BitVec.toNat_zero]
  exact Nat.one_pos

/-- A part of a region. -/
theorem within_part {a x : BitVec w} {p n len : Nat} (hp : p + n ≤ len)
    (hx : Within (a + BitVec.ofNat w p) n x) : Within a len x := by
  have hx : (x - (a + BitVec.ofNat w p)).toNat < n := hx
  show (x - a).toNat < len
  have hsplit : x - a = (x - (a + BitVec.ofNat w p)) + BitVec.ofNat w p := by
    rw [← BitVec.sub_sub, BitVec.sub_add_cancel]
  have hle : (BitVec.ofNat w p).toNat ≤ p := by
    rw [BitVec.toNat_ofNat]
    exact Nat.mod_le p _
  rw [hsplit, BitVec.toNat_add]
  exact Nat.lt_of_le_of_lt (Nat.mod_le _ _) (by omega)

theorem SameOn.part {m m' : ByteMemory w} {a : BitVec w} {len : Nat} (h : SameOn a len m m')
    {p n : Nat} (hp : p + n ≤ len) : SameOn (a + BitVec.ofNat w p) n m m' :=
  h.mono fun _ hx => within_part hp hx

/-- A byte of a region. -/
theorem SameOn.byte {m m' : ByteMemory w} {a : BitVec w} {len : Nat} (h : SameOn a len m m')
    {i : Nat} (hi : i < len) (hw : i < 2 ^ w) :
    m' (a + BitVec.ofNat w i) = m (a + BitVec.ofNat w i) := h _ (within_offset a hi hw)

/-- Memories that agree on each byte of a region. -/
theorem SameOn.of_bytes {m m' : ByteMemory w} {a : BitVec w} {n : Nat}
    (h : ∀ i < n, m' (a + BitVec.ofNat w i) = m (a + BitVec.ofNat w i)) : SameOn a n m m' := by
  intro x hx
  have hbyte := h (x - a).toNat hx
  rw [BitVec.ofNat_toNat, BitVec.setWidth_eq, BitVec.add_comm, BitVec.sub_add_cancel] at hbyte
  exact hbyte

/-- The stores change nothing outside of their region. -/
theorem store_bytes_outside (m : ByteMemory w) (a x : BitVec w) (bs : List (BitVec 8))
    (h : bs.length ≤ (x - a).toNat) : m.storeBytes a bs x = m x := by
  induction bs generalizing m a with
  | nil => rfl
  | cons b bs ih =>
      rw [List.length_cons] at h
      have hne : x ≠ a := by
        rintro rfl
        rw [BitVec.sub_self] at h
        exact absurd h (Nat.not_succ_le_zero _)
      have hrest : bs.length ≤ (x - (a + 1)).toNat := by
        have hone : x - (a + 1) = (x - a) - 1 := by
          rw [← BitVec.sub_sub]
        rw [hone, BitVec.toNat_sub_of_le]
        · have hle : (1 : BitVec w).toNat ≤ 1 := by
            rw [BitVec.ofNat_eq_ofNat, BitVec.toNat_ofNat]
            exact Nat.mod_le 1 _
          omega
        · rw [BitVec.le_def]
          have hle : (1 : BitVec w).toNat ≤ 1 := by
            rw [BitVec.ofNat_eq_ofNat, BitVec.toNat_ofNat]
            exact Nat.mod_le 1 _
          omega
      rw [storeBytes, ih _ _ hrest, Function.update_of_ne hne]

/-- A byte of the region is the one that was stored there. -/
theorem store_bytes_inside (m : ByteMemory w) (a : BitVec w) {bs : List (BitVec 8)} {i : Nat}
    (hi : i < bs.length) (hw : bs.length ≤ 2 ^ w) :
    m.storeBytes a bs (a + BitVec.ofNat w i) = bs[i] := by
  induction bs generalizing m a i with
  | nil => exact absurd hi (Nat.not_lt_zero i)
  | cons b bs ih =>
      rw [List.length_cons] at hi hw
      rw [storeBytes]
      cases i with
      | zero =>
          rw [BitVec.add_zero, store_bytes_outside]
          · rw [Function.update_self, List.getElem_cons_zero]
          · have htoNat : (1 : BitVec w).toNat = 1 % 2 ^ w := BitVec.toNat_ofNat ..
            rw [← BitVec.sub_sub, BitVec.sub_self, BitVec.zero_sub, BitVec.toNat_neg, htoNat]
            rcases Nat.lt_or_ge 1 (2 ^ w) with hone | hone
            · rw [Nat.mod_eq_of_lt hone, Nat.mod_eq_of_lt (by omega)]
              omega
            · omega
      | succ i =>
          have hshift : a + BitVec.ofNat w (i + 1) = a + 1 + BitVec.ofNat w i := by
            rw [Nat.add_comm i 1, BitVec.ofNat_add, BitVec.add_assoc]
            rfl
          rw [hshift, ih _ _ (by omega) (by omega), List.getElem_cons_succ]

/-- A store keeps a region that is apart from its own. -/
theorem SameOn.store {base a : BitVec w} {len : Nat} (m : ByteMemory w) (bs : List (BitVec 8))
    (h : ∀ x, Within base len x → bs.length ≤ (x - a).toNat) :
    SameOn base len m (m.storeBytes a bs) :=
  fun x hx => store_bytes_outside m a x bs (h x hx)

/-- A store at one offset keeps a region at another. -/
theorem SameOn.store_at (m : ByteMemory w) (a : BitVec w) {o p n : Nat} (bs : List (BitVec 8))
    (h : p + n ≤ o ∨ o + bs.length ≤ p) (ho : o + bs.length ≤ 2 ^ w) (hp : p + n ≤ 2 ^ w) :
    SameOn (a + BitVec.ofNat w p) n m (m.storeBytes (a + BitVec.ofNat w o) bs) := by
  refine SameOn.store m bs fun x hx => ?_
  have hx : (x - (a + BitVec.ofNat w p)).toNat < n := hx
  have hsplit : x - (a + BitVec.ofNat w o) =
      (x - (a + BitVec.ofNat w p)) + BitVec.ofNat w p - BitVec.ofNat w o := by
    rw [← BitVec.sub_sub, ← BitVec.sub_sub, BitVec.sub_add_cancel]
  rcases Nat.eq_zero_or_pos bs.length with hzero | hpos
  · rw [hzero]
    exact Nat.zero_le _
  · rw [hsplit, BitVec.toNat_sub, BitVec.toNat_add, BitVec.toNat_ofNat, BitVec.toNat_ofNat,
      Nat.mod_eq_of_lt (show p < 2 ^ w by omega), Nat.mod_eq_of_lt (show o < 2 ^ w by omega)]
    generalize (x - (a + BitVec.ofNat w p)).toNat = i at hx
    rw [Nat.mod_eq_of_lt (show i + p < 2 ^ w by omega)]
    rcases h with h | h
    · rw [Nat.mod_eq_of_lt (by omega)]
      omega
    · have hwrap : 2 ^ w - o + (i + p) = (i + p - o) + 2 ^ w := by omega
      rw [hwrap, Nat.add_mod_right, Nat.mod_eq_of_lt (by omega)]
      omega

/-- A word depends on its four bytes. -/
theorem load_word_congr {m m' : ByteMemory w} {a : BitVec w} (h : SameOn a 4 m m') (hw : 4 ≤ 2 ^ w) :
    m'.loadWord a = m.loadWord a := by
  have hbyte : ∀ i, i < 4 → m' (a + BitVec.ofNat w i) = m (a + BitVec.ofNat w i) :=
    fun i hi => h _ (within_offset a hi (by omega))
  have hzero := hbyte 0 (by decide)
  rw [BitVec.add_zero] at hzero
  simp only [loadWord]
  rw [show m' (a + 3) = m (a + 3) from hbyte 3 (by decide),
    show m' (a + 2) = m (a + 2) from hbyte 2 (by decide),
    show m' (a + 1) = m (a + 1) from hbyte 1 (by decide), hzero]

/-- The words of a region depend on its bytes. -/
theorem load_words_congr {m m' : ByteMemory w} {a : BitVec w} {n : Nat}
    (h : SameOn a (4 * n) m m') (hw : 4 * n ≤ 2 ^ w) : m'.loadWords a n = m.loadWords a n := by
  induction n generalizing a with
  | zero => rfl
  | succ n ih =>
      have hfirst : m'.loadWord a = m.loadWord a := by
        refine load_word_congr (h.mono fun x hx => ?_) (by omega)
        exact Nat.lt_of_lt_of_le hx (by omega)
      have hrest : m'.loadWords (a + 4) n = m.loadWords (a + 4) n := by
        refine ih (h.mono fun x hx => ?_) (by omega)
        have hx : (x - (a + 4)).toNat < 4 * n := hx
        show (x - a).toNat < 4 * (n + 1)
        have hsplit : x - a = (x - (a + 4)) + 4 := by
          rw [← BitVec.sub_sub, BitVec.sub_add_cancel]
        have hfour : (4 : BitVec w).toNat ≤ 4 := by
          rw [BitVec.ofNat_eq_ofNat, BitVec.toNat_ofNat]
          exact Nat.mod_le 4 _
        rw [hsplit, BitVec.toNat_add]
        exact Nat.lt_of_le_of_lt (Nat.mod_le _ _) (by omega)
      rw [loadWords, loadWords, hfirst, hrest]

/-- The word of four bytes. -/
theorem word_of_bytes (v : BitVec 32) :
    v.extractLsb' 24 8 ++ v.extractLsb' 16 8 ++ v.extractLsb' 8 8 ++ v.extractLsb' 0 8 = v := by
  apply BitVec.eq_of_getLsbD_eq
  intro i hi
  simp only [BitVec.getLsbD_append, BitVec.getLsbD_extractLsb']
  grind

theorem load_store_word (m : ByteMemory w) (a : BitVec w) (v : BitVec 32) (hw : 4 ≤ 2 ^ w) :
    (m.storeWord a v).loadWord a = v := by
  have hbyte : ∀ i (hi : i < 4), m.storeWord a v (a + BitVec.ofNat w i) = (wordBytes v)[i] :=
    fun i hi => store_bytes_inside m a hi hw
  have hzero := hbyte 0 (by decide)
  rw [BitVec.add_zero] at hzero
  rw [loadWord, show m.storeWord a v (a + 3) = _ from hbyte 3 (by decide),
    show m.storeWord a v (a + 2) = _ from hbyte 2 (by decide),
    show m.storeWord a v (a + 1) = _ from hbyte 1 (by decide), hzero]
  exact word_of_bytes v

theorem length_word_bytes (vs : List (BitVec 32)) :
    (vs.flatMap wordBytes).length = 4 * vs.length := by
  induction vs with
  | nil => rfl
  | cons v vs ih =>
      rw [List.flatMap_cons, List.length_append, ih, List.length_cons]
      show 4 + 4 * vs.length = _
      omega

theorem store_bytes_append (m : ByteMemory w) (a : BitVec w) (bs cs : List (BitVec 8)) :
    m.storeBytes a (bs ++ cs) = (m.storeBytes a bs).storeBytes (a + BitVec.ofNat w bs.length) cs := by
  induction bs generalizing m a with
  | nil =>
      rw [List.nil_append, storeBytes, List.length_nil, BitVec.add_zero]
  | cons b bs ih =>
      have hshift : a + BitVec.ofNat w (bs.length + 1) = a + 1 + BitVec.ofNat w bs.length := by
        rw [Nat.add_comm, BitVec.ofNat_add, BitVec.add_assoc]
        rfl
      rw [List.cons_append, storeBytes, ih, List.length_cons, hshift, storeBytes]

/-- Words that are stored in a row are loaded as they were. -/
theorem load_store_words (m : ByteMemory w) (a : BitVec w) (vs : List (BitVec 32))
    (hw : 4 * vs.length ≤ 2 ^ w) : (m.storeWords a vs).loadWords a vs.length = vs := by
  induction vs generalizing m a with
  | nil => rfl
  | cons v vs ih =>
      rw [List.length_cons] at hw
      have hstore : m.storeWords a (v :: vs) = (m.storeWord a v).storeWords (a + 4) vs := by
        rw [storeWords, List.flatMap_cons, store_bytes_append]
        rfl
      have hfour : (4 : BitVec w).toNat = 4 % 2 ^ w := BitVec.toNat_ofNat ..
      rw [hstore, List.length_cons, loadWords, ih _ _ (by omega)]
      have hfirst : ((m.storeWord a v).storeWords (a + 4) vs).loadWord a =
          (m.storeWord a v).loadWord a := by
        refine load_word_congr (SameOn.store _ _ fun x hx => ?_) (by omega)
        have hx : (x - a).toNat < 4 := hx
        rw [length_word_bytes, ← BitVec.sub_sub, BitVec.toNat_sub, hfour]
        rcases Nat.lt_or_ge 4 (2 ^ w) with hlt | hge
        · rw [Nat.mod_eq_of_lt hlt, Nat.mod_eq_of_lt (by omega)]
          omega
        · omega
      rw [hfirst, load_store_word _ _ _ (by omega)]

/-- A word that a store does not touch. -/
theorem load_store_apart (m : ByteMemory 32) {x y : BitVec 32} (v : BitVec 32)
    (h : 4 ≤ (y - x).toNat) (hend : (y - x).toNat + 4 ≤ 2 ^ 32) :
    (m.storeWord x v).loadWord y = m.loadWord y := by
  refine load_word_congr (SameOn.store m (wordBytes v) fun a ha => ?_) (by decide)
  have ha : (a - y).toNat < 4 := ha
  show 4 ≤ (a - x).toNat
  bv_omega

/-- Words at two offsets of one address. -/
theorem load_store_off (m : ByteMemory 32) (a : BitVec 32) {x y : BitVec 32} (v : BitVec 32)
    (h : 4 ≤ (y - x).toNat) (hend : (y - x).toNat + 4 ≤ 2 ^ 32) :
    (m.storeWord (a + x) v).loadWord (a + y) = m.loadWord (a + y) := by
  have hsub : a + y - (a + x) = y - x := by bv_omega
  exact load_store_apart m v (by rwa [hsub]) (by rwa [hsub])

end ByteMemory

end XBook
