import XBook.Kernel.SignalLeft

/-!
# Signal frames

`BuildSignalFrame` puts a frame below the user stack for each signal that `DoSignal` handles, so the
frames of one pass lie on top of each other. `Stacked` says this of a memory. The handlers then run
from the last to the first, and each `SysSignalReturn` takes its frame. `SysSignalReturn` trusts
what it finds on the stack: it returns to user mode only if the frame there says so.
-/

namespace XBook.Signal

open ByteMemory SignalTask

/-! ## The frame in memory -/

theorem TrapFrame.words_inj {f g : TrapFrame} (h : f.words = g.words) : f = g := by
  cases f
  cases g
  simp only [TrapFrame.words, List.cons.injEq, and_true] at h
  simp only [TrapFrame.mk.injEq]
  exact h

theorem TrapFrame.load_words (m : UserMemory) (a : BitVec 32) :
    (TrapFrame.load m a).words = m.loadWords a 19 := by
  simp [TrapFrame.words, TrapFrame.load, loadWords, BitVec.add_assoc]

theorem TrapFrame.load_congr {m m' : UserMemory} {a : BitVec 32} (h : SameOn a 76 m m') :
    TrapFrame.load m' a = TrapFrame.load m a := by
  apply TrapFrame.words_inj
  rw [TrapFrame.load_words, TrapFrame.load_words]
  exact load_words_congr h (by decide)

/-- The code on the stack that makes the system call. -/
def HasReturnCode (m : UserMemory) (code : BitVec 32) : Prop :=
  m code = 0xb8 ∧ m.loadWord (code + 1) = sysSigret ∧ m (code + 5) = 0xcd ∧ m (code + 6) = 0x80

/-- What `BuildSignalFrame` leaves at an address. -/
structure Image (m : UserMemory) (a signo : BitVec 32) (frame : TrapFrame) : Prop where
  retAddr : m.loadWord a = a + 84
  signo : m.loadWord (a + 4) = signo
  frame : TrapFrame.load m (a + 8) = frame
  code : HasReturnCode m (a + 84)

/-- An image depends on its own bytes. -/
theorem Image.congr {m m' : UserMemory} {a signo : BitVec 32} {frame : TrapFrame}
    (h : Image m a signo frame) (hsame : SameOn a 92 m m') : Image m' a signo frame := by
  have hword : ∀ p, p + 4 ≤ 92 → m'.loadWord (a + BitVec.ofNat 32 p) =
      m.loadWord (a + BitVec.ofNat 32 p) :=
    fun p hp => load_word_congr (SameOn.part hsame hp) (by decide)
  have hcode : ∀ i, a + 84 + BitVec.ofNat 32 i = a + BitVec.ofNat 32 (84 + i) := by
    intro i
    rw [BitVec.ofNat_add, BitVec.add_assoc]
    rfl
  constructor
  · have hfirst := hword 0 (by decide)
    rw [BitVec.add_zero] at hfirst
    exact hfirst.trans h.retAddr
  · exact (hword 4 (by decide)).trans h.signo
  · refine (TrapFrame.load_congr ?_).trans h.frame
    exact SameOn.part hsame (p := 8) (by decide)
  · obtain ⟨hmov, hnumber, hint, hvector⟩ := h.code
    refine ⟨?_, ?_, ?_, ?_⟩
    · exact (SameOn.byte hsame (i := 84) (by decide) (by decide)).trans hmov
    · rw [show a + 84 + 1 = a + BitVec.ofNat 32 85 from hcode 1] at hnumber ⊢
      exact (hword 85 (by decide)).trans hnumber
    · rw [show a + 84 + 5 = a + BitVec.ofNat 32 89 from hcode 5] at hint ⊢
      exact (SameOn.byte hsame (by decide) (by decide)).trans hint
    · rw [show a + 84 + 6 = a + BitVec.ofNat 32 90 from hcode 6] at hvector ⊢
      exact (SameOn.byte hsame (by decide) (by decide)).trans hvector

/-- The stores of `BuildSignalFrame` change only the frame. -/
theorem store_signal_frame_same (m : UserMemory) (a signo : BitVec 32) (frame : TrapFrame)
    {base : BitVec 32} {len : Nat} (h : ∀ x, Within base len x → 92 ≤ (x - a).toNat) :
    SameOn base len m (storeSignalFrame m a signo frame) := by
  have hstep : ∀ (n : UserMemory) (o : Nat) (bs : List (BitVec 8)), o + bs.length ≤ 92 →
      SameOn base len n (n.storeBytes (a + BitVec.ofNat 32 o) bs) := by
    intro n o bs ho
    refine SameOn.store n bs fun x hx => ?_
    have hfar := h x hx
    rw [← BitVec.sub_sub, BitVec.toNat_sub, BitVec.toNat_ofNat]
    have hlt := (x - a).isLt
    omega
  have hword : ∀ (n : UserMemory) (o : Nat) (v : BitVec 32), o + 4 ≤ 92 →
      SameOn base len n (n.storeWord (a + BitVec.ofNat 32 o) v) := fun n o v ho => hstep n o _ ho
  have hframe : ∀ n : UserMemory, SameOn base len n (n.storeWords (a + 8) frame.words) := by
    intro n
    refine hstep n 8 _ ?_
    rw [length_word_bytes]
    show 8 + 4 * 19 ≤ 92
    decide
  have haddr : ∀ (n : UserMemory) (v : BitVec 32), SameOn base len n (n.storeWord a v) := by
    intro n v
    have hzero := hword n 0 v (by decide)
    rwa [BitVec.add_zero] at hzero
  rw [storeSignalFrame]
  refine (hword m 4 signo (by decide)).trans ((hframe _).trans ((haddr _ (a + 84)).trans ?_))
  refine (hstep _ 84 [0xb8] (by decide)).trans ((hword _ 85 sysSigret (by decide)).trans ?_)
  exact hstep _ 89 [0xcd, 0x80] (by decide)

/-- `BuildSignalFrame` leaves the image of the frame. -/
theorem store_signal_frame_image (m : UserMemory) (a signo : BitVec 32) (frame : TrapFrame) :
    Image (storeSignalFrame m a signo frame) a signo frame := by
  -- the memory after each store
  obtain ⟨m₁, h₁⟩ : ∃ n, n = m.storeWord (a + 4) signo := ⟨_, rfl⟩
  obtain ⟨m₂, h₂⟩ : ∃ n, n = m₁.storeWords (a + 8) frame.words := ⟨_, rfl⟩
  obtain ⟨m₃, h₃⟩ : ∃ n, n = m₂.storeWord a (a + 84) := ⟨_, rfl⟩
  obtain ⟨m₄, h₄⟩ : ∃ n, n = m₃.storeBytes (a + 84) [0xb8] := ⟨_, rfl⟩
  obtain ⟨m₅, h₅⟩ : ∃ n, n = m₄.storeWord (a + 85) sysSigret := ⟨_, rfl⟩
  obtain ⟨m₆, h₆⟩ : ∃ n, n = m₅.storeBytes (a + 89) [0xcd, 0x80] := ⟨_, rfl⟩
  have hlast : storeSignalFrame m a signo frame = m₆ := by
    rw [h₆, h₅, h₄, h₃, h₂, h₁]
    rfl
  have hwords : (frame.words.flatMap wordBytes).length = 76 := length_word_bytes frame.words
  have hcode : ∀ i, a + 84 + BitVec.ofNat 32 i = a + BitVec.ofNat 32 (84 + i) := by
    intro i
    rw [BitVec.ofNat_add, BitVec.add_assoc]
    rfl
  have hzero : a + BitVec.ofNat 32 0 = a := BitVec.add_zero a
  -- the last three stores are above the return address, the signal and the trap frame
  have htail : SameOn a 84 m₃ m₆ := by
    have htail₄ : SameOn (a + BitVec.ofNat 32 0) 84 m₃ m₄ := by
      rw [h₄]
      exact SameOn.store_at m₃ a (o := 84) [0xb8] (.inl (by decide)) (by decide) (by decide)
    have htail₅ : SameOn (a + BitVec.ofNat 32 0) 84 m₄ m₅ := by
      rw [h₅]
      exact SameOn.store_at m₄ a (o := 85) (wordBytes sysSigret) (.inl (by decide)) (by decide)
        (by decide)
    have htail₆ : SameOn (a + BitVec.ofNat 32 0) 84 m₅ m₆ := by
      rw [h₆]
      exact SameOn.store_at m₅ a (o := 89) [0xcd, 0x80] (.inl (by decide)) (by decide) (by decide)
    rw [hzero] at htail₄ htail₅ htail₆
    exact htail₄.trans (htail₅.trans htail₆)
  have hretAddr : SameOn (a + BitVec.ofNat 32 4) 80 m₂ m₃ := by
    have hstore := SameOn.store_at m₂ a (o := 0) (p := 4) (n := 80) (wordBytes (a + 84))
      (.inr (by show 0 + 4 ≤ 4; decide)) (by show 0 + 4 ≤ 2 ^ 32; decide) (by decide)
    rw [hzero] at hstore
    rw [h₃]
    exact hstore
  rw [hlast]
  constructor
  · have hword : m₆.loadWord a = m₃.loadWord a := by
      refine load_word_congr (htail.mono fun x hx => ?_) (by decide)
      exact Nat.lt_of_lt_of_le hx (by decide)
    rw [hword, h₃]
    exact load_store_word m₂ a _ (by decide)
  · have hword : m₆.loadWord (a + 4) = m₁.loadWord (a + 4) := by
      have h₆₃ : m₆.loadWord (a + 4) = m₃.loadWord (a + 4) :=
        load_word_congr (SameOn.part htail (p := 4) (by decide)) (by decide)
      have h₃₂ : m₃.loadWord (a + 4) = m₂.loadWord (a + 4) := by
        refine load_word_congr (hretAddr.mono fun x hx => ?_) (by decide)
        exact Nat.lt_of_lt_of_le hx (by decide)
      have h₂₁ : m₂.loadWord (a + 4) = m₁.loadWord (a + 4) := by
        rw [h₂]
        refine load_word_congr ?_ (by decide)
        exact SameOn.store_at m₁ a (o := 8) (p := 4) _ (.inl (by decide)) (by rw [hwords]; decide)
          (by decide)
      rw [h₆₃, h₃₂, h₂₁]
    rw [hword, h₁]
    exact load_store_word m (a + 4) signo (by decide)
  · apply TrapFrame.words_inj
    rw [TrapFrame.load_words]
    have h₆₃ : m₆.loadWords (a + 8) 19 = m₃.loadWords (a + 8) 19 :=
      load_words_congr (SameOn.part htail (p := 8) (by decide)) (by decide)
    have h₃₂ : m₃.loadWords (a + 8) 19 = m₂.loadWords (a + 8) 19 := by
      refine load_words_congr ?_ (by decide)
      have hpart := SameOn.part hretAddr (p := 4) (n := 76) (by decide)
      have hadd : a + BitVec.ofNat 32 4 + BitVec.ofNat 32 4 = a + 8 := by
        rw [BitVec.add_assoc]
        rfl
      rwa [hadd] at hpart
    rw [h₆₃, h₃₂, h₂]
    exact load_store_words m₁ (a + 8) frame.words (show 4 * 19 ≤ 2 ^ 32 by decide)
  · refine ⟨?_, ?_, ?_, ?_⟩
    · have h₆₅ : m₆ (a + 84) = m₅ (a + 84) := by
        rw [h₆]
        exact (SameOn.store_at m₅ a (o := 89) (p := 84) (n := 1) [0xcd, 0x80] (.inl (by decide))
          (by decide) (by decide)) _ (within_self _)
      have h₅₄ : m₅ (a + 84) = m₄ (a + 84) := by
        rw [h₅]
        exact (SameOn.store_at m₄ a (o := 85) (p := 84) (n := 1) (wordBytes sysSigret)
          (.inl (by decide)) (by decide) (by decide)) _ (within_self _)
      rw [h₆₅, h₅₄, h₄]
      have hinside := store_bytes_inside m₃ (a + 84)
        (show 0 < [(0xb8 : BitVec 8)].length by decide) (by decide)
      rw [BitVec.add_zero] at hinside
      exact hinside
    · rw [show a + 84 + 1 = a + BitVec.ofNat 32 85 from hcode 1]
      have h₆₅ : m₆.loadWord (a + BitVec.ofNat 32 85) = m₅.loadWord (a + BitVec.ofNat 32 85) := by
        rw [h₆]
        refine load_word_congr ?_ (by decide)
        exact SameOn.store_at m₅ a (o := 89) [0xcd, 0x80] (.inl (by decide)) (by decide) (by decide)
      rw [h₆₅, h₅]
      exact load_store_word m₄ (a + 85) sysSigret (by decide)
    · rw [show a + 84 + 5 = a + BitVec.ofNat 32 89 from hcode 5, h₆]
      have hinside := store_bytes_inside m₅ (a + 89)
        (show 0 < [(0xcd : BitVec 8), 0x80].length by decide) (by decide)
      rw [BitVec.add_zero] at hinside
      exact hinside
    · have hnext : a + 84 + 6 = a + 89 + BitVec.ofNat 32 1 := by
        rw [BitVec.add_assoc, BitVec.add_assoc]
        rfl
      rw [hnext, h₆]
      exact store_bytes_inside m₅ (a + 89)
        (show 1 < [(0xcd : BitVec 8), 0x80].length by decide) (by decide)

/-! ## Frames on top of each other -/

/-- `BuildSignalFrame` goes down by the size of the frame, and by what the alignment takes. -/
theorem signal_frame_at_gap (esp : BitVec 32) :
    92 ≤ (esp - signalFrameAt esp).toNat ∧ (esp - signalFrameAt esp).toNat ≤ 99 := by
  have hlow : ((esp - signalFrameSize) &&& 7#32).toNat ≤ 7 := by
    rw [BitVec.toNat_and]
    exact Nat.and_le_right
  have hgap : esp - signalFrameAt esp = signalFrameSize + ((esp - signalFrameSize) &&& 7#32) := by
    have hsum := and_not_add_and (esp - signalFrameSize) 7#32
    rw [signalFrameAt]
    generalize (esp - signalFrameSize) &&& 7#32 = low at hsum
    generalize (esp - signalFrameSize) &&& ~~~7#32 = high at hsum
    have hesp : esp = high + low + signalFrameSize := by
      rw [hsum, BitVec.sub_add_cancel]
    rw [hesp, BitVec.add_assoc, BitVec.add_comm high, BitVec.add_sub_cancel, BitVec.add_comm]
  have hsize : signalFrameSize.toNat = 92 := rfl
  rw [hgap, BitVec.toNat_add, hsize, Nat.mod_eq_of_lt (by omega)]
  omega

/-- The frames of the signals lie on the stack between `f` and `top`, the last one first. -/
def Stacked (action : Int → SignalAction) (m : UserMemory) (top f : TrapFrame) : List Int → Prop
  | [] => f = top
  | sig :: rest => ∃ g, f = (buildSignalFrame sig (action sig) ⟨g, m⟩).frame ∧
      Image m f.esp (BitVec.ofInt 32 sig) g ∧ Stacked action m top g rest

theorem toNat_sub_add (a b c : BitVec 32) (h : (a - b).toNat + (b - c).toNat < 2 ^ 32) :
    (a - c).toNat = (a - b).toNat + (b - c).toNat := by
  have hsplit : a - c = (a - b) + (b - c) := by
    rw [BitVec.sub_eq_add_neg, BitVec.sub_eq_add_neg, BitVec.sub_eq_add_neg,
      BitVec.add_assoc a, ← BitVec.add_assoc (-b), BitVec.add_comm (-b), BitVec.add_right_neg,
      BitVec.zero_add]
  rw [hsplit, BitVec.toNat_add, Nat.mod_eq_of_lt h]

variable {action : Int → SignalAction} {m m' : UserMemory} {top f : TrapFrame} {l : List Int}

/-- The frames take at most 99 bytes each. -/
theorem Stacked.depth (h : Stacked action m top f l) (hl : l.length ≤ 31) :
    (top.esp - f.esp).toNat ≤ 99 * l.length := by
  induction l generalizing f with
  | nil =>
      have heq : f = top := h
      rw [heq, BitVec.sub_self]
      exact Nat.zero_le _
  | cons sig rest ih =>
      obtain ⟨g, rfl, -, hrest⟩ := h
      rw [List.length_cons] at hl ⊢
      have hdepth := ih hrest (by omega)
      have hgap := signal_frame_at_gap g.esp
      show (top.esp - signalFrameAt g.esp).toNat ≤ 99 * (rest.length + 1)
      rw [toNat_sub_add top.esp g.esp _ (by omega)]
      omega

/-- The frames depend on the stack between them and the top. -/
theorem Stacked.congr (h : Stacked action m top f l) (hl : l.length ≤ 31)
    (hsame : SameOn f.esp (top.esp - f.esp).toNat m m') : Stacked action m' top f l := by
  induction l generalizing f with
  | nil => exact h
  | cons sig rest ih =>
      obtain ⟨g, rfl, himage, hrest⟩ := h
      rw [List.length_cons] at hl
      have hdepth := hrest.depth (by omega)
      have hgap := signal_frame_at_gap g.esp
      have hlen : (top.esp - signalFrameAt g.esp).toNat =
          (top.esp - g.esp).toNat + (g.esp - signalFrameAt g.esp).toNat :=
        toNat_sub_add _ _ _ (by omega)
      have hsame : SameOn (signalFrameAt g.esp) (top.esp - signalFrameAt g.esp).toNat m m' := hsame
      refine ⟨g, rfl, ?_, ?_⟩
      · refine himage.congr (SameOn.mono hsame fun x hx => ?_)
        exact Nat.lt_of_lt_of_le hx (by omega)
      · refine ih hrest (by omega) (SameOn.mono hsame fun x hx => ?_)
        have hx : (x - g.esp).toNat < (top.esp - g.esp).toNat := hx
        show (x - signalFrameAt g.esp).toNat < _
        rw [toNat_sub_add x g.esp _ (by omega)]
        omega

/-- Another frame is built. -/
theorem Stacked.build (h : Stacked action m top f l) (hl : l.length ≤ 31) (sig : Int) :
    Stacked action (buildSignalFrame sig (action sig) ⟨f, m⟩).mem top
      (buildSignalFrame sig (action sig) ⟨f, m⟩).frame (sig :: l) := by
  have hdepth := h.depth hl
  have hgap := signal_frame_at_gap f.esp
  refine ⟨f, rfl, store_signal_frame_image m (signalFrameAt f.esp) (BitVec.ofInt 32 sig) f, ?_⟩
  refine h.congr hl (store_signal_frame_same m (signalFrameAt f.esp) _ f fun x hx => ?_)
  have hx : (x - f.esp).toNat < (top.esp - f.esp).toNat := hx
  rw [toNat_sub_add x f.esp _ (by omega)]
  omega

/-! ## The way in -/

/-- The frames of the signals that the pass handles are on the stack. -/
theorem do_signal_from_stacked {rest : List Int} {s : SignalTask} {u : UserContext}
    {d : List Int} (hgood : ∀ sig ∈ rest, isBadSignal sig = false) (hnodup : rest.Nodup)
    (hlength : rest.length + d.length ≤ 31)
    (hleft : s.signalLeft = true ∨ ∀ b, sigismember s.signalPending b = false)
    (haction : ∀ sig ∈ rest, s.action sig = action sig)
    (huser : ∀ sig ∈ rest, s.deliverable sig = true →
      (action sig).handler ≠ sigDfl ∧ (action sig).handler ≠ sigIgn)
    (hstacked : Stacked action u.mem top u.frame d) :
    (s.doSignalFrom u rest).2.2 = false ∧
      Stacked action (s.doSignalFrom u rest).2.1.mem top (s.doSignalFrom u rest).2.1.frame
        ((rest.filter s.deliverable).reverse ++ d) ∧
      (s.doSignalFrom u rest).1.signalBlocked = s.signalBlocked ∧
      (∀ b, sigismember (s.doSignalFrom u rest).1.signalPending b =
        (sigismember s.signalPending b && !(decide (b ∈ rest) && s.deliverable b))) := by
  induction rest generalizing s u d with
  | nil =>
      refine ⟨rfl, hstacked, rfl, fun b => ?_⟩
      rw [decide_eq_false List.not_mem_nil, Bool.false_and, Bool.not_false, Bool.and_true]
      rfl
  | cons sig rest ih =>
      obtain ⟨hnotin, hnodup⟩ := List.nodup_cons.mp hnodup
      have hsig := hgood sig List.mem_cons_self
      have hrest : ∀ b ∈ rest, isBadSignal b = false :=
        fun b hb => hgood b (List.mem_cons_of_mem sig hb)
      rw [List.length_cons] at hlength
      rw [doSignalFrom]
      split
      · next hflag =>
          cases hdeliverable : s.deliverable sig with
          | false =>
              have hdeliver : s.deliver u sig = (s, u, .none) := by
                rw [deliver, hdeliverable, if_neg Bool.false_ne_true]
              have hmem : ∀ b, (decide (b ∈ sig :: rest) && s.deliverable b) =
                  (decide (b ∈ rest) && s.deliverable b) := by
                intro b
                by_cases heq : b = sig
                · rw [heq, hdeliverable, Bool.and_false, Bool.and_false]
                · simp only [List.mem_cons, heq, false_or]
              simp only [hdeliver, reduceCtorEq, if_false, hmem,
                List.filter_cons_of_neg (Bool.eq_false_iff.mp hdeliverable)]
              exact ih hrest hnodup (by omega) (.inl hflag)
                (fun b hb => haction b (List.mem_cons_of_mem sig hb))
                (fun b hb => huser b (List.mem_cons_of_mem sig hb)) hstacked
          | true =>
              obtain ⟨hdfl, hign⟩ := huser sig List.mem_cons_self hdeliverable
              have hsame := haction sig List.mem_cons_self
              have hpass := s.deliver_pending u sig
              have hkeeps := s.deliver_keeps u sig
              have hdeliver : (s.deliver u sig).2 =
                  (buildSignalFrame sig (action sig) u, .handled) := by
                have htaken : (s.takeSignal sig).action sig = action sig := hsame
                rw [deliver, if_pos hdeliverable]
                simp only [htaken, if_neg hign, if_neg hdfl, handleSignal]
                split
                · rfl
                · rfl
              obtain ⟨hall, hpending⟩ := hpass.1 hdeliverable
              have hhandled : (s.deliver u sig).2.2 = .handled := congrArg Prod.snd hdeliver
              have hcontext : (s.deliver u sig).2.1 = buildSignalFrame sig (action sig) u :=
                congrArg Prod.fst hdeliver
              have hnotexit : (s.deliver u sig).2.2 ≠ .exited := by
                rw [hhandled]
                rintro ⟨⟩
              have hpending := hpending hnotexit
              have hother : ∀ b ∈ rest, (s.deliver u sig).1.deliverable b = s.deliverable b := by
                intro b hb
                have hne : sig ≠ b := by
                  rintro rfl
                  exact hnotin hb
                rw [deliverable_eq _ (hrest b hb), deliverable_eq _ (hrest b hb), hpending,
                  hkeeps.1, decide_eq_true hne, Bool.and_true]
              have hfilter : rest.filter (s.deliver u sig).1.deliverable =
                  rest.filter s.deliverable := List.filter_congr hother
              have hthis := ih (s := (s.deliver u sig).1) (u := (s.deliver u sig).2.1)
                (d := sig :: d) hrest hnodup (by rw [List.length_cons]; omega) ?_ ?_ ?_ ?_
              · simp only [if_neg hnotexit]
                obtain ⟨hended, hstack, hblocked, hleft⟩ := hthis
                refine ⟨hended, ?_, hblocked.trans hkeeps.1, fun b => ?_⟩
                · rw [hfilter] at hstack
                  rw [List.filter_cons_of_pos hdeliverable, List.reverse_cons, List.append_assoc]
                  exact hstack
                · rw [hleft, hpending]
                  by_cases heq : sig = b
                  · rw [← heq, hdeliverable, decide_eq_false (not_not.mpr rfl),
                      decide_eq_true List.mem_cons_self]
                    simp
                  · have hne : ¬ b = sig := fun h => heq h.symm
                    by_cases hb : b ∈ rest
                    · rw [hother b hb, decide_eq_true heq, Bool.and_true, decide_eq_true hb,
                        decide_eq_true (List.mem_cons_of_mem sig hb)]
                    · have hb' : b ∉ sig :: rest := by
                        rw [List.mem_cons, not_or]
                        exact ⟨hne, hb⟩
                      rw [decide_eq_true heq, Bool.and_true, decide_eq_false hb,
                        decide_eq_false hb', Bool.false_and, Bool.false_and]
              · by_cases hflag : (s.deliver u sig).1.signalLeft = true
                · exact .inl hflag
                · exact .inr fun b => Bool.eq_false_iff.mpr fun hb => hflag (hall b hb)
              · intro b hb
                have hne : b ≠ sig := by
                  rintro rfl
                  exact hnotin hb
                rw [hkeeps.2]
                split
                · rw [Function.update_of_ne hne]
                  exact haction b (List.mem_cons_of_mem sig hb)
                · exact haction b (List.mem_cons_of_mem sig hb)
              · intro b hb hdel
                rw [hother b hb] at hdel
                exact huser b (List.mem_cons_of_mem sig hb) hdel
              · rw [hcontext]
                exact hstacked.build (by omega) sig
      · next hflag =>
          have hnone := hleft.resolve_left hflag
          have hfilter : (sig :: rest).filter s.deliverable = [] := by
            rw [List.filter_eq_nil_iff]
            intro b hb hdel
            rw [deliverable_eq _ (hgood b hb), hnone b] at hdel
            cases hdel
          refine ⟨rfl, ?_, rfl, fun b => ?_⟩
          · rw [hfilter]
            exact hstacked
          · show sigismember s.signalPending b = _
            rw [hnone b, Bool.false_and]

/-- `DoSignal` does nothing when no signal is pending and not blocked. -/
theorem do_signal_idle {s : SignalTask} (u : UserContext)
    (h : ∀ sig ∈ signals, s.deliverable sig = false) : s.doSignal u = (s, u, false) := by
  have hfrom : ∀ l : List Int, (∀ sig ∈ l, s.deliverable sig = false) →
      s.doSignalFrom u l = (s, u, false) := by
    intro l hl
    induction l with
    | nil => rfl
    | cons sig rest ih =>
        have hdeliver : s.deliver u sig = (s, u, .none) := by
          rw [deliver, hl sig List.mem_cons_self, if_neg Bool.false_ne_true]
        rw [doSignalFrom]
        split
        · simp only [hdeliver, reduceCtorEq, if_false]
          exact ih fun b hb => hl b (List.mem_cons_of_mem sig hb)
        · rfl
  rw [doSignal]
  split
  · split
    · exact hfrom signals h
    · rfl
  · rfl

/-! ## The way out -/

/-- The handler that has been entered runs up to its return, and the code at its return address makes
a system call. -/
def handlerReturn (run : UserContext → UserContext) (u : UserContext) : Option UserContext :=
  let v := run u
  let code := v.mem.loadWord u.frame.esp
  if v.mem code = 0xb8 ∧ v.mem (code + 5) = 0xcd ∧ v.mem (code + 6) = 0x80 then
    some { v with frame := { v.frame with
      vecNo := 0x80
      errorCode := 0
      eax := v.mem.loadWord (code + 1)
      eip := code + 7
      esp := u.frame.esp + 4
      cs := userCodeSel
      ss := userStackSel } }
  else none

/-- The system call on the way back from a handler, with the `DoSignal` behind it. -/
def returnFromSignal (s : SignalTask) (u : UserContext) : Option (SignalTask × UserContext) :=
  if u.frame.eax = sysSigret then
    let r := s.sysSignalReturn u
    let d := r.1.doSignal r.2
    if d.2.2 then none else some (d.1, d.2.1)
  else none

/-- The handlers run one after the other. The address and the argument with which each is entered are
noted. -/
def unwind : List (UserContext → UserContext) → SignalTask → UserContext →
    Option (SignalTask × UserContext × List (BitVec 32 × BitVec 32))
  | [], s, u => some (s, u, [])
  | run :: runs, s, u =>
      (handlerReturn run u).bind fun v =>
        (returnFromSignal s v).bind fun r =>
          (unwind runs r.1 r.2).map fun w =>
            (w.1, w.2.1, (u.frame.eip, u.mem.loadWord (u.frame.esp + 4)) :: w.2.2)

/-- A handler leaves the stack between its own frame and `top` as it is. -/
def LeavesIntact (top : BitVec 32) (run : UserContext → UserContext) : Prop :=
  ∀ u, SameOn u.frame.esp (top - u.frame.esp).toNat u.mem (run u).mem

/-- The handlers of the frames on the stack run, and the last frame is gone. -/
theorem unwind_stacked {runs : List (UserContext → UserContext)} {l : List Int} {s : SignalTask}
    {u : UserContext} {top : TrapFrame} {action : Int → SignalAction}
    (hstacked : Stacked action u.mem top u.frame l) (hl : l.length ≤ 31)
    (hruns : runs.length = l.length) (hintact : ∀ run ∈ runs, LeavesIntact top.esp run)
    (hidle : ∀ sig ∈ signals, s.deliverable sig = false) :
    ∃ t v, unwind runs s u = some (t, v, l.map fun sig =>
      ((action sig).handler, BitVec.ofInt 32 sig)) ∧ v.frame = top := by
  induction l generalizing runs s u with
  | nil =>
      cases runs with
      | nil => exact ⟨s, u, rfl, hstacked⟩
      | cons run runs => cases hruns
  | cons sig rest ih =>
      cases runs with
      | nil => cases hruns
      | cons run runs =>
          rw [List.length_cons] at hl
          rw [List.length_cons, List.length_cons, Nat.add_right_cancel_iff] at hruns
          have hkept := hstacked.congr hl (hintact run List.mem_cons_self u)
          obtain ⟨g, hframe, himage, hrest⟩ := hkept
          obtain ⟨_, _, hentry, _⟩ := hstacked
          obtain ⟨hmov, hnumber, hint, hvector⟩ := himage.code
          have heip : u.frame.eip = (action sig).handler := by
            rw [hframe]
            rfl
          -- the return address leads to the code of the frame
          obtain ⟨v, hv, hmem, heax, hesp⟩ : ∃ v, handlerReturn run u = some v ∧
              v.mem = (run u).mem ∧ v.frame.eax = sysSigret ∧ v.frame.esp = u.frame.esp + 4 := by
            refine ⟨_, if_pos ?_, rfl, ?_, rfl⟩
            · rw [himage.retAddr]
              exact ⟨hmov, hint, hvector⟩
            · show (run u).mem.loadWord ((run u).mem.loadWord u.frame.esp + 1) = sysSigret
              rw [himage.retAddr]
              exact hnumber
          have hback : (s.sysSignalReturn v).2 = ⟨g, (run u).mem⟩ := by
            have haddr : v.frame.esp - 4 + 8 = u.frame.esp + 8 := by
              rw [hesp, BitVec.add_sub_cancel]
            have hload : TrapFrame.load v.mem (v.frame.esp - 4 + 8) = g := by
              rw [haddr, hmem]
              exact himage.frame
            show UserContext.mk (TrapFrame.load v.mem (v.frame.esp - 4 + 8)) v.mem = _
            rw [hload, hmem]
          have hreturn : returnFromSignal s v = some ({ s with signalCatched := true },
              ⟨g, (run u).mem⟩) := by
            have hdo := do_signal_idle (s := { s with signalCatched := true }) ⟨g, (run u).mem⟩ hidle
            rw [returnFromSignal, if_pos heax]
            simp only [hback]
            simp only [sysSignalReturn, hdo, Bool.false_eq_true, if_false]
          obtain ⟨t, w, hunwind, hw⟩ := ih (s := { s with signalCatched := true })
            (u := ⟨g, (run u).mem⟩) hrest (by omega) hruns
            (fun r hr => hintact r (List.mem_cons_of_mem run hr)) hidle
          refine ⟨t, w, ?_, hw⟩
          rw [unwind, hv, Option.bind_some, hreturn, Option.bind_some, hunwind, Option.map_some,
            heip, hentry.signo]
          rfl

/-- The signals that the next `DoSignal` handles. -/
def handledNext (s : SignalTask) (u : UserContext) : List Int :=
  if s.signalLeft = true ∧ u.frame.cs = userCodeSel then signals.filter s.deliverable else []

/-- The handlers of one `DoSignal` run from the last signal to the first, each of them once with its
own signal, and the task is back in the frame where it was. -/
theorem nested_frames_unwind (s : SignalTask) (u : UserContext)
    (runs : List (UserContext → UserContext))
    (huser : ∀ sig ∈ handledNext s u,
      (s.action sig).handler ≠ sigDfl ∧ (s.action sig).handler ≠ sigIgn)
    (hruns : runs.length = (handledNext s u).length)
    (hintact : ∀ run ∈ runs, LeavesIntact u.frame.esp run) :
    ∃ t v, unwind runs (s.doSignal u).1 (s.doSignal u).2.1 =
      some (t, v, (handledNext s u).reverse.map fun sig =>
        ((s.action sig).handler, BitVec.ofInt 32 sig)) ∧ v.frame = u.frame := by
  have hnodup : signals.Nodup := by decide
  have hempty : handledNext s u = [] → s.doSignal u = (s, u, false) →
      ∃ t v, unwind runs (s.doSignal u).1 (s.doSignal u).2.1 =
        some (t, v, (handledNext s u).reverse.map fun sig =>
          ((s.action sig).handler, BitVec.ofInt 32 sig)) ∧ v.frame = u.frame := by
    intro hnone hsame
    rw [hnone] at hruns
    rw [List.eq_nil_of_length_eq_zero hruns, hnone, hsame]
    exact ⟨s, u, rfl, rfl⟩
  by_cases hflag : s.signalLeft = true
  · by_cases hmode : u.frame.cs = userCodeSel
    · have hnext : handledNext s u = signals.filter s.deliverable := if_pos ⟨hflag, hmode⟩
      rw [hnext] at huser hruns
      have hpass : s.doSignal u = s.doSignalFrom u signals := by
        rw [doSignal, if_pos hflag, if_pos hmode]
      obtain ⟨-, hstacked, hblocked, hpending⟩ := do_signal_from_stacked (d := []) (u := u)
        (fun sig hsig => (mem_signals sig).mp hsig) hnodup (by decide) (.inl hflag)
        (fun _ _ => rfl) (fun sig hsig hdel => huser sig (List.mem_filter.mpr ⟨hsig, hdel⟩))
        (show Stacked s.action u.mem u.frame u.frame [] from rfl)
      rw [List.append_nil] at hstacked
      have hlength : (signals.filter s.deliverable).reverse.length ≤ 31 := by
        rw [List.length_reverse]
        exact List.length_filter_le s.deliverable signals
      rw [hpass, hnext]
      refine unwind_stacked hstacked hlength ?_ hintact fun sig hsig => ?_
      · rw [hruns, List.length_reverse]
      · have hgood := (mem_signals sig).mp hsig
        rw [deliverable_eq _ hgood, hpending, hblocked, decide_eq_true hsig, Bool.true_and,
          deliverable_eq _ hgood]
        cases sigismember s.signalPending sig <;> cases sigismember s.signalBlocked sig <;> rfl
    · refine hempty (if_neg fun hand => hmode hand.2) ?_
      rw [doSignal, if_pos hflag, if_neg hmode]
  · refine hempty (if_neg fun hand => hflag hand.1) ?_
    rw [doSignal, if_neg hflag]

/-- A task with two handlers whose signals are pending. -/
def twoHandlers : SignalTask :=
  let s := ((SignalTask.init 1).sysSignal 0 sigint 4096).1
  let s := (s.sysSignalAction sigusr1 (some ⟨8192, 0⟩)).1
  let s := (s.doSendSignal sigint 1).1
  (s.doSendSignal sigusr1 1).1

theorem two_handlers_unwind : ∃ t v, unwind [id, id] (twoHandlers.doSignal blankContext).1
    (twoHandlers.doSignal blankContext).2.1 = some (t, v, [(8192, 10), (4096, 2)]) ∧
      v.frame = blankContext.frame := by
  have hnext : handledNext twoHandlers blankContext = [2, 10] := by decide
  have hunwind := nested_frames_unwind twoHandlers blankContext [id, id] (by decide) (by decide)
    fun run hrun u => by
      have hid : run = id := by simpa using hrun
      rw [hid]
      exact fun _ _ => rfl
  rw [hnext] at hunwind
  exact hunwind

/-! ## Forged frames -/

/-- The frame returns to user mode, with interrupts on and without access to ports. -/
structure UserFrame (f : TrapFrame) : Prop where
  cs : f.cs = userCodeSel
  ss : f.ss = userStackSel
  ds : f.ds = userDataSel
  es : f.es = userDataSel
  fs : f.fs = userDataSel
  gs : f.gs = userDataSel
  interrupts : f.eflags.getLsbD 9 = true
  iopl : f.eflags.extractLsb' 12 2 = 0

/-- The words on the user stack where `SysSignalReturn` expects the segment registers and the flags
are those of a task in user mode. -/
structure UserWords (m : UserMemory) (esp : BitVec 32) : Prop where
  gs : m.loadWord (esp + 40) = userDataSel
  fs : m.loadWord (esp + 44) = userDataSel
  es : m.loadWord (esp + 48) = userDataSel
  ds : m.loadWord (esp + 52) = userDataSel
  cs : m.loadWord (esp + 64) = userCodeSel
  interrupts : (m.loadWord (esp + 68)).getLsbD 9 = true
  iopl : (m.loadWord (esp + 68)).extractLsb' 12 2 = 0
  ss : m.loadWord (esp + 76) = userStackSel

/-- `SysSignalReturn` returns to user mode exactly when the words on the stack say so. -/
theorem sigreturn_user_iff (s : SignalTask) (u : UserContext) :
    UserFrame (s.sysSignalReturn u).2.frame ↔ UserWords u.mem u.frame.esp := by
  have hload : (s.sysSignalReturn u).2.frame = TrapFrame.load u.mem (u.frame.esp + 4) := by
    have haddr : u.frame.esp - 4 + 8 = u.frame.esp + 4 := by
      have hsplit : (8 : BitVec 32) = 4 + 4 := rfl
      rw [hsplit, ← BitVec.add_assoc, BitVec.sub_add_cancel]
    show TrapFrame.load u.mem (u.frame.esp - 4 + 8) = _
    rw [haddr]
  have hword : ∀ k : BitVec 32, u.mem.loadWord (u.frame.esp + 4 + k) =
      u.mem.loadWord (u.frame.esp + (4 + k)) := fun k => by rw [BitVec.add_assoc]
  rw [hload]
  constructor
  · rintro ⟨hcs, hss, hds, hes, hfs, hgs, hif, hiopl⟩
    exact ⟨(hword 36).symm.trans hgs, (hword 40).symm.trans hfs, (hword 44).symm.trans hes,
      (hword 48).symm.trans hds, (hword 60).symm.trans hcs,
      (congrArg (BitVec.getLsbD · 9) (hword 64)).symm.trans hif,
      (congrArg (BitVec.extractLsb' 12 2) (hword 64)).symm.trans hiopl, (hword 72).symm.trans hss⟩
  · rintro ⟨hgs, hfs, hes, hds, hcs, hif, hiopl, hss⟩
    exact ⟨(hword 60).trans hcs, (hword 72).trans hss, (hword 48).trans hds, (hword 44).trans hes,
      (hword 40).trans hfs, (hword 36).trans hgs,
      (congrArg (BitVec.getLsbD · 9) (hword 64)).trans hif,
      (congrArg (BitVec.extractLsb' 12 2) (hword 64)).trans hiopl⟩

/-- The selector of the kernel's code. -/
def kernelCodeSel : BitVec 32 := 8

/-- A user stack with a forged frame that returns into the kernel. -/
def forgedContext : UserContext :=
  let forged := { blankContext.frame with cs := kernelCodeSel, eflags := 0x3000 }
  { frame := { blankContext.frame with esp := 4100 }
    mem := storeSignalFrame blankContext.mem 4096 sysSigret forged }

theorem forged_frame_enters_kernel :
    ((SignalTask.init 1).sysSignalReturn forgedContext).2.frame.cs = kernelCodeSel ∧
      ¬ UserFrame ((SignalTask.init 1).sysSignalReturn forgedContext).2.frame := by
  have hcs : ((SignalTask.init 1).sysSignalReturn forgedContext).2.frame.cs = kernelCodeSel := by
    decide +kernel
  refine ⟨hcs, fun huser => ?_⟩
  rw [huser.cs] at hcs
  exact absurd hcs (by decide)

end XBook.Signal
