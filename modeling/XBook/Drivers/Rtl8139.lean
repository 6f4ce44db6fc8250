import XBook.Lib.Bytes
import XBook.Lib.Ring
import XBook.Lib.Transition

/-!
# The receive ring of the network card

`Rtl8139Receive` of `drivers/network/rtl8139.c` with the card that fills its ring. `RCR` programs a
ring of 32K, the buffer has 16K, and the offset that is kept between interrupts is a byte.
`ring_right` says that the packets are handed over as they came in, as long as each of them lies in
the buffer and each interrupt ends within the first 256 bytes of the ring.

Bytes are numbered from the start of the buffer; the card also writes behind it.
-/

namespace XBook.Rtl8139

open Transition

/-- `rxBufferLen`, which is `4 * PAGE_SIZE`. -/
abbrev rxBufferLen : Nat := 4 * 4096

/-- The value that `InitRtl8139Driver` writes to `RTL8139_RCR`. -/
def rcr : UInt32 := (2 : UInt32) <<< 11 ||| 0xf

/-- The length of the ring that a value of the register programs. -/
def programmedLength (rcr : UInt32) : Nat := 8192 * 2 ^ (rcr >>> 11 &&& 3).toNat

abbrev ringLength : Nat := programmedLength rcr

/-! ## The card -/

/-- A packet, as the card receives it. -/
structure Packet where
  status : UInt16
  data : List UInt8
  crc : List UInt8
  crc_length : crc.length = 4
  fits : data.length + 4 < 2 ^ 16

namespace Packet

/-- The length in the header, which counts the CRC. -/
def size (p : Packet) : Nat := p.data.length + 4

def header (p : Packet) : List UInt8 :=
  [p.status.toUInt8, (p.status >>> 8).toUInt8, UInt8.ofNat p.size, UInt8.ofNat (p.size / 256)]

/-- What the card writes. -/
def bytes (p : Packet) : List UInt8 := p.header ++ p.data ++ p.crc

/-- The bytes up to the next packet, which starts at a multiple of 4. -/
def slot (p : Packet) : Nat := (4 + p.size + 3) / 4 * 4

end Packet

/-- The bytes of some packets. -/
def total : List Packet → Nat
  | [] => 0
  | p :: ps => p.slot + total ps

structure Card where
  memory : Nat → UInt8
  /-- Where the first packet that is not read starts in the ring. -/
  first : Nat
  unread : List Packet
  capr : UInt16
  /-- `RTL8139_RX_OK` of the interrupt status. -/
  rxOk : Bool

/-- The place that `RTL8139_CAPR` stands for. -/
def readPosition (capr : UInt16) : Nat := (capr.toNat + 16) % ringLength

/-- The packets after some bytes. -/
def dropBytes : Nat → List Packet → List Packet
  | _, [] => []
  | n, p :: ps => if p.slot ≤ n then dropBytes (n - p.slot) ps else p :: ps

namespace Card

/-- The card writes a packet behind the others, unless the ring would be full. -/
def receive (c : Card) (p : Packet) : Option Card :=
  if total c.unread + p.slot < ringLength then
    some ⟨Ring.write ringLength c.memory (c.first + total c.unread) p.bytes, c.first,
      c.unread ++ [p], c.capr, true⟩
  else none

/-- `RTL8139_CAPR` is written, which gives the bytes before it back to the card. -/
def release (c : Card) (capr : UInt16) : Card :=
  ⟨c.memory, readPosition capr,
    dropBytes ((readPosition capr + ringLength - c.first) % ringLength) c.unread, capr, c.rxOk⟩

end Card

/-! ## The driver -/

/-- The card and the driver, with what came in and what was handed to `NlltReceive`. -/
structure State where
  card : Card
  currentRX : UInt8
  /-- `cur`, while `Rtl8139Receive` runs. -/
  cur : Option UInt32
  /-- The places that are read, each with the number of its bytes. -/
  read : List (Nat × Nat)
  handed : List (List UInt8)
  arrived : List Packet

/-- A word of the memory. -/
def load32 (memory : Nat → UInt8) (i : Nat) : UInt32 :=
  (memory i).toUInt32 ||| (memory (i + 1)).toUInt32 <<< 8 ||| (memory (i + 2)).toUInt32 <<< 16 |||
    (memory (i + 3)).toUInt32 <<< 24

/-- The loop body of `Rtl8139Receive`. -/
def receiveOne (s : State) (cur : UInt32) : State :=
  let offset := cur.toNat % rxBufferLen
  let size := load32 s.card.memory offset >>> 16
  let len := (size - 4).toNat
  let next := (cur + size + 7) &&& ~~~3
  ⟨s.card.release (next - 16).toUInt16, s.currentRX, some next,
    s.read ++ [(offset, 4), (offset + 4, 16), (offset + 4, len)],
    s.handed ++ [(List.range len).map fun i => s.card.memory (offset + 4 + i)], s.arrived⟩

inductive Event where
  /-- The card receives a packet. -/
  | arrive (p : Packet)
  /-- `Rtl8139Handler` calls `Rtl8139Receive`. -/
  | interrupt
  /-- The loop makes a round, as the buffer is not empty. -/
  | round
  /-- The loop ends, as the buffer is empty. -/
  | finish

def next (s : State) : Event → Option State
  | .arrive p =>
      (s.card.receive p).map fun card =>
        ⟨card, s.currentRX, s.cur, s.read, s.handed, s.arrived ++ [p]⟩
  | .interrupt =>
      if s.cur.isNone ∧ s.card.rxOk then
        some ⟨{ s.card with rxOk := false }, s.currentRX, some s.currentRX.toUInt32, s.read,
          s.handed, s.arrived⟩
      else none
  | .round => if s.card.unread.isEmpty then none else s.cur.map (receiveOne s)
  | .finish =>
      if s.card.unread.isEmpty then
        s.cur.map fun cur => ⟨s.card, cur.toUInt8, none, s.read, s.handed, s.arrived⟩
      else none

/-- `InitRtl8139Driver`, with any contents of the memory. -/
def init (memory : Nat → UInt8) : State := ⟨⟨memory, 0, [], 0, false⟩, 0, none, [], [], []⟩

/-- The packets are handed over one by one and as they came in, from within the buffer, and all of
them when the interrupts are served; and the driver then goes on where the card does. -/
structure Right (s : State) : Prop where
  handed : s.handed ++ s.card.unread.map Packet.data = s.arrived.map Packet.data
  inside : ∀ r ∈ s.read, r.1 + r.2 ≤ rxBufferLen
  served : s.cur = none → s.card.rxOk = false → s.card.unread = []
  position : s.cur = none → s.handed ≠ [] → s.currentRX.toNat = readPosition s.card.capr

/-- The next packet lies in the buffer, and an interrupt ends within the first 256 bytes. -/
def InBuffer (s : State) : Event → Prop
  | .round => ∀ p ∈ s.card.unread.head?,
      s.card.first + 20 ≤ rxBufferLen ∧ s.card.first + p.size ≤ rxBufferLen
  | .finish => s.card.first < 256
  | _ => True

instance (s : State) (event : Event) : Decidable (InBuffer s event) :=
  match event with
  | .arrive _ => .isTrue trivial
  | .interrupt => .isTrue trivial
  | .round =>
      have (p : Packet) : Decidable (s.card.first + 20 ≤ rxBufferLen ∧
          s.card.first + p.size ≤ rxBufferLen) := instDecidableAnd
      Option.decidableForallMem s.card.unread.head?
  | .finish => Nat.decLt s.card.first 256

theorem ring_length : ringLength = 32768 := rfl

namespace Packet

variable (p : Packet)

@[simp] theorem length_bytes : p.bytes.length = 4 + p.size := by
  simp [bytes, header, size, p.crc_length]
  omega

theorem length_le_slot : p.bytes.length ≤ p.slot := by
  rw [length_bytes, slot]
  omega

theorem slot_pos : 0 < p.slot := by
  rw [slot, size]
  omega

end Packet

/-! ## Words of the memory -/

/-- A byte in its place of a word. -/
theorem byte_shift (b : UInt8) {k : UInt32} (hk : k.toNat ≤ 24) :
    (b.toUInt32 <<< k).toNat = b.toNat * 2 ^ k.toNat := by
  have hb := b.toNat_lt
  have hlt : b.toNat * 2 ^ k.toNat < 2 ^ 32 := by
    calc b.toNat * 2 ^ k.toNat
        < 2 ^ 8 * 2 ^ k.toNat := Nat.mul_lt_mul_of_pos_right hb (Nat.two_pow_pos _)
      _ ≤ 2 ^ 8 * 2 ^ 24 :=
        Nat.mul_le_mul_left _ (Nat.pow_le_pow_right Nat.zero_lt_two hk)
      _ = 2 ^ 32 := rfl
  rw [UInt32.toNat_shiftLeft, UInt8.toNat_toUInt32, Nat.mod_eq_of_lt (a := k.toNat) (by omega),
    Nat.shiftLeft_eq, Nat.mod_eq_of_lt hlt]

/-- The upper half of a word is in its last two bytes. -/
theorem load_upper_half (memory : Nat → UInt8) (i : Nat) :
    (load32 memory i >>> 16).toNat = (memory (i + 2)).toNat + 256 * (memory (i + 3)).toNat := by
  have h0 := (memory i).toNat_lt
  have h1 := (memory (i + 1)).toNat_lt
  have h2 := (memory (i + 2)).toNat_lt
  have hor : (load32 memory i).toNat = (memory i).toNat ||| (memory (i + 1)).toNat * 2 ^ 8 |||
      (memory (i + 2)).toNat * 2 ^ 16 ||| (memory (i + 3)).toNat * 2 ^ 24 := by
    rw [load32, UInt32.toNat_or, UInt32.toNat_or, UInt32.toNat_or, byte_shift _ (by decide),
      byte_shift _ (by decide), byte_shift _ (by decide)]
    rfl
  have hlow : (memory i).toNat / 2 ^ 16 = 0 ∧ (memory (i + 1)).toNat * 2 ^ 8 / 2 ^ 16 = 0 := by
    omega
  have hhigh : (memory (i + 2)).toNat * 2 ^ 16 / 2 ^ 16 = (memory (i + 2)).toNat ∧
      (memory (i + 3)).toNat * 2 ^ 24 / 2 ^ 16 = (memory (i + 3)).toNat <<< 8 := by
    rw [Nat.shiftLeft_eq]
    omega
  have hshift : (load32 memory i >>> 16).toNat = (load32 memory i).toNat >>> 16 :=
    UInt32.toNat_shiftRight ..
  rw [hshift, hor, Nat.shiftRight_or_distrib, Nat.shiftRight_or_distrib, Nat.shiftRight_or_distrib]
  simp only [Nat.shiftRight_eq_div_pow]
  rw [hlow.1, hlow.2, hhigh.1, hhigh.2, Nat.zero_or, Nat.zero_or, Nat.or_comm,
    ← Nat.shiftLeft_add_eq_or_of_lt h2, Nat.shiftLeft_eq]
  omega

/-- `& ~3` rounds down to a multiple of 4. -/
theorem and_not_three (x : UInt32) : (x &&& ~~~3).toNat = x.toNat / 4 * 4 := by
  have hx := x.toNat_lt
  have hsum := congrArg BitVec.toNat (and_not_add_and x.toBitVec 3#32)
  have hlow : (x.toBitVec &&& 3#32).toNat = x.toNat % 4 := Nat.and_two_pow_sub_one_eq_mod _ 2
  have hhigh : (x.toBitVec &&& ~~~3#32).toNat ≤ x.toNat := by
    rw [BitVec.toNat_and]
    exact Nat.and_le_left
  rw [BitVec.toNat_add, hlow] at hsum
  have hx' : x.toBitVec.toNat = x.toNat := rfl
  show (x.toBitVec &&& ~~~3#32).toNat = _
  omega

/-! ## What the ring holds -/

/-- The ring holds the packets from a place on. -/
def Stored (memory : Nat → UInt8) : Nat → List Packet → Prop
  | _, [] => True
  | i, p :: ps => Ring.Holds ringLength memory i p.bytes ∧ Stored memory (i + p.slot) ps

theorem Stored.congr {memory : Nat → UInt8} {i j : Nat} {ps : List Packet}
    (h : Stored memory i ps) (hij : j % ringLength = i % ringLength) : Stored memory j ps := by
  induction ps generalizing i j with
  | nil => trivial
  | cons p ps ih =>
      refine ⟨h.1.congr hij, ih h.2 ?_⟩
      rw [Nat.add_mod, hij, ← Nat.add_mod]

theorem total_cons (p : Packet) (ps : List Packet) : total (p :: ps) = p.slot + total ps := rfl

theorem total_concat (ps : List Packet) (p : Packet) : total (ps ++ [p]) = total ps + p.slot := by
  induction ps with
  | nil => exact Nat.add_comm _ _
  | cons q ps ih => rw [List.cons_append, total_cons, total_cons, ih, Nat.add_assoc]

/-- A packet is written behind the others. -/
theorem Stored.receive {memory : Nat → UInt8} {i : Nat} {ps : List Packet} {p : Packet}
    (h : Stored memory i ps) (hroom : total ps + p.slot < ringLength) :
    Stored (Ring.write ringLength memory (i + total ps) p.bytes) i (ps ++ [p]) := by
  have hp := p.length_le_slot
  suffices hkept : ∀ (first : Nat) (rest : List Packet), Stored memory first rest →
      i + total ps = first + total rest → i ≤ first →
      Stored (Ring.write ringLength memory (i + total ps) p.bytes) first (rest ++ [p]) from
    hkept i ps h rfl (Nat.le_refl i)
  intro first rest hrest hend hle
  induction rest generalizing first with
  | nil =>
      rw [hend]
      exact ⟨Ring.write_holds _ _ (by omega), trivial⟩
  | cons q rest ih =>
      have hq := q.length_le_slot
      rw [total_cons] at hend
      exact ⟨hrest.1.write (by omega) (by omega), ih _ hrest.2 (by omega) (by omega)⟩

/-! ## A round of the loop -/

section Round

variable {memory : Nat → UInt8} {first : Nat} {p : Packet}

/-- A packet that does not go around the ring. -/
theorem stored_byte (h : Ring.Holds ringLength memory first p.bytes)
    (hend : first + 4 + p.size ≤ ringLength) {j : Nat} (hj : j < p.bytes.length) :
    memory (first + j) = p.bytes[j] := by
  have hlength := p.length_bytes
  have hslot := h.slot j hj
  rwa [Nat.mod_eq_of_lt (by omega)] at hslot

/-- The driver reads the length that the card wrote. -/
theorem stored_size (h : Ring.Holds ringLength memory first p.bytes)
    (hend : first + 4 + p.size ≤ ringLength) :
    (load32 memory first >>> 16).toNat = p.size := by
  have hlength := p.length_bytes
  have hfits : p.size < 2 ^ 16 := p.fits
  have hlow : memory (first + 2) = UInt8.ofNat p.size := stored_byte h hend (by omega)
  have hhigh : memory (first + 3) = UInt8.ofNat (p.size / 256) := stored_byte h hend (by omega)
  rw [load_upper_half, hlow, hhigh, UInt8.toNat_ofNat', UInt8.toNat_ofNat']
  omega

/-- The driver hands over the bytes that the card wrote. -/
theorem stored_data (h : Ring.Holds ringLength memory first p.bytes)
    (hend : first + 4 + p.size ≤ ringLength) :
    ((List.range p.data.length).map fun i => memory (first + 4 + i)) = p.data := by
  have hlength := p.length_bytes
  apply List.ext_getElem
  · rw [List.length_map, List.length_range]
  · intro i hi hi'
    have hsize : p.size = p.data.length + 4 := rfl
    have hheader : p.header.length = 4 := rfl
    rw [List.getElem_map, List.getElem_range, Nat.add_assoc,
      stored_byte h hend (j := 4 + i) (by omega)]
    simp only [Packet.bytes]
    rw [List.getElem_append_left (by rw [List.length_append]; omega),
      List.getElem_append_right (by omega)]
    congr 1
    omega

/-- `cur` goes on to where the next packet starts. -/
theorem next_place {cur size : UInt32} (hcur : cur.toNat % ringLength = first)
    (haligned : first % 4 = 0) (hsize : size.toNat = p.size) :
    ((cur + size + 7) &&& ~~~3).toNat % ringLength = (first + p.slot) % ringLength := by
  have hseven : (7 : UInt32).toNat = 7 := rfl
  rw [ring_length] at hcur ⊢
  rw [and_not_three, UInt32.toNat_add, UInt32.toNat_add, hsize, hseven, Packet.slot]
  omega

/-- `RTL8139_CAPR` is off by 16. -/
theorem read_position_capr (next : UInt32) :
    readPosition (next - 16).toUInt16 = next.toNat % ringLength := by
  have hsixteen : (16 : UInt32).toNat = 16 := rfl
  have hnext := next.toNat_lt
  rw [readPosition, ring_length, UInt32.toNat_toUInt16, UInt32.toNat_sub, hsixteen]
  omega

/-- The card gets the bytes of the first packet back. -/
theorem drop_first (ps : List Packet) (hfirst : first < ringLength) (hslot : p.slot < ringLength) :
    dropBytes (((first + p.slot) % ringLength + ringLength - first) % ringLength) (p :: ps) =
      ps := by
  have hgap : ((first + p.slot) % ringLength + ringLength - first) % ringLength = p.slot := by
    rw [ring_length] at *
    omega
  rw [hgap, dropBytes, if_pos (Nat.le_refl _), Nat.sub_self]
  cases ps with
  | nil => rfl
  | cons q ps => rw [dropBytes, if_neg (Nat.not_le_of_lt q.slot_pos)]

end Round

/-! ## Runs -/

structure Inv (s : State) : Prop where
  first_lt : s.card.first < ringLength
  aligned : s.card.first % 4 = 0
  room : total s.card.unread < ringLength
  stored : Stored s.card.memory s.card.first s.card.unread
  handed : s.handed ++ s.card.unread.map Packet.data = s.arrived.map Packet.data
  inside : ∀ r ∈ s.read, r.1 + r.2 ≤ rxBufferLen
  served : s.cur = none → s.card.rxOk = false → s.card.unread = []
  capr : s.handed ≠ [] → readPosition s.card.capr = s.card.first
  saved : s.cur = none → s.currentRX.toNat = s.card.first
  running : ∀ cur ∈ s.cur, cur.toNat % ringLength = s.card.first

theorem Inv.right {s : State} (h : Inv s) : Right s where
  handed := h.handed
  inside := h.inside
  served := h.served
  position hcur hhanded := (h.saved hcur).trans (h.capr hhanded).symm

theorem inv_init (memory : Nat → UInt8) : Inv (init memory) where
  first_lt := ring_length.symm ▸ Nat.zero_lt_succ 32767
  aligned := rfl
  room := ring_length.symm ▸ Nat.zero_lt_succ 32767
  stored := trivial
  handed := rfl
  inside r hr := absurd hr List.not_mem_nil
  served _ _ := rfl
  capr h := absurd rfl h
  saved _ := rfl
  running cur hcur := by cases hcur

/-- What a round leaves, when the packet is in the buffer. -/
theorem Inv.receive_one {s : State} (h : Inv s) {cur : UInt32} (hcur : s.cur = some cur)
    {p : Packet} {ps : List Packet} (hunread : s.card.unread = p :: ps)
    (hend : s.card.first + p.size ≤ rxBufferLen) :
    ∃ next : UInt32, next.toNat % ringLength = (s.card.first + p.slot) % ringLength ∧
      receiveOne s cur =
        ⟨⟨s.card.memory, (s.card.first + p.slot) % ringLength, ps, (next - 16).toUInt16,
            s.card.rxOk⟩, s.currentRX, some next,
          s.read ++ [(s.card.first, 4), (s.card.first + 4, 16),
            (s.card.first + 4, p.data.length)],
          s.handed ++ [p.data], s.arrived⟩ := by
  have hstored := h.stored
  have hroom := h.room
  have hplace := h.running cur hcur
  rw [hunread] at hstored hroom
  rw [total_cons] at hroom
  have hsize : p.size = p.data.length + 4 := rfl
  have hring := ring_length
  have hbuffer : rxBufferLen = 16384 := rfl
  have hinring : s.card.first + 4 + p.size ≤ ringLength := by omega
  have hoffset : cur.toNat % rxBufferLen = s.card.first := by
    rw [ring_length] at hplace
    rw [hbuffer]
    omega
  have hslot : p.slot < ringLength := by omega
  have hloaded := stored_size hstored.1 hinring
  have hlen : (load32 s.card.memory s.card.first >>> 16 - 4).toNat = p.data.length := by
    have hfour : (4 : UInt32).toNat = 4 := rfl
    have hle : (4 : UInt32) ≤ load32 s.card.memory s.card.first >>> 16 := by
      rw [UInt32.le_iff_toNat_le, hfour, hloaded]
      omega
    rw [UInt32.toNat_sub_of_le _ _ hle, hfour, hloaded]
    omega
  have hnext := next_place hplace h.aligned hloaded
  refine ⟨_, hnext, ?_⟩
  simp only [receiveOne, Card.release, hoffset, hlen, stored_data hstored.1 hinring,
    read_position_capr, hnext, hunread, drop_first ps h.first_lt hslot]

/-- A packet in the buffer is handed over. -/
theorem Inv.round {s : State} (h : Inv s) {cur : UInt32} (hcur : s.cur = some cur) {p : Packet}
    {ps : List Packet} (hunread : s.card.unread = p :: ps)
    (hdump : s.card.first + 20 ≤ rxBufferLen) (hend : s.card.first + p.size ≤ rxBufferLen) :
    Inv (receiveOne s cur) := by
  obtain ⟨next, hnext, heq⟩ := h.receive_one hcur hunread hend
  have hstored := h.stored
  have hroom := h.room
  have hhanded := h.handed
  have haligned := h.aligned
  rw [hunread] at hstored hroom hhanded
  rw [total_cons] at hroom
  rw [heq]
  refine ⟨Nat.mod_lt _ ?_, ?_, ?_, hstored.2.congr (Nat.mod_mod _ _), ?_, ?_, ?_, ?_, ?_, ?_⟩
  · exact ring_length.symm ▸ Nat.zero_lt_succ 32767
  · show (s.card.first + p.slot) % ringLength % 4 = 0
    rw [ring_length, Packet.slot]
    omega
  · show total ps < ringLength
    omega
  · show s.handed ++ [p.data] ++ ps.map Packet.data = _
    rw [← hhanded, List.append_assoc]
    rfl
  · intro r hr
    have hsize : p.size = p.data.length + 4 := rfl
    rcases List.mem_append.mp hr with hr | hr
    · exact h.inside r hr
    · simp only [List.mem_cons, List.not_mem_nil, or_false] at hr
      rcases hr with rfl | rfl | rfl
      · show s.card.first + 4 ≤ rxBufferLen
        omega
      · show s.card.first + 4 + 16 ≤ rxBufferLen
        omega
      · show s.card.first + 4 + p.data.length ≤ rxBufferLen
        omega
  · intro hnone
    cases hnone
  · intro _
    exact (read_position_capr next).trans hnext
  · intro hnone
    cases hnone
  · intro cur' hcur'
    cases hcur'
    exact hnext

/-- A packet comes in behind the others. -/
theorem Inv.arrive {s : State} (h : Inv s) {p : Packet} {card : Card}
    (hreceive : s.card.receive p = some card) :
    Inv ⟨card, s.currentRX, s.cur, s.read, s.handed, s.arrived ++ [p]⟩ := by
  unfold Card.receive at hreceive
  split at hreceive
  · next hroom =>
      cases hreceive
      refine ⟨h.first_lt, h.aligned, ?_, h.stored.receive hroom, ?_, h.inside, ?_, h.capr, h.saved,
        h.running⟩
      · show total (s.card.unread ++ [p]) < ringLength
        rw [total_concat]
        exact hroom
      · show s.handed ++ (s.card.unread ++ [p]).map Packet.data = (s.arrived ++ [p]).map Packet.data
        rw [List.map_append, List.map_append, ← List.append_assoc, h.handed]
      · intro _ hrxOk
        cases hrxOk
  · cases hreceive

theorem Inv.step {s t : State} {event : Event} (h : Inv s) (hevent : InBuffer s event)
    (hnext : next s event = some t) : Inv t := by
  cases event with
  | arrive p =>
      obtain ⟨card, hcard, rfl⟩ := Option.map_eq_some_iff.mp hnext
      exact h.arrive hcard
  | interrupt =>
      simp only [next] at hnext
      split at hnext
      · next hidle =>
          cases hnext
          have hcur : s.cur = none := Option.isNone_iff_eq_none.mp hidle.1
          refine ⟨h.first_lt, h.aligned, h.room, h.stored, h.handed, h.inside, ?_, h.capr, ?_, ?_⟩
          · intro hnone
            cases hnone
          · intro hnone
            cases hnone
          · intro cur hsome
            cases hsome
            have hsaved := h.saved hcur
            have hfirst := h.first_lt
            show s.currentRX.toUInt32.toNat % ringLength = s.card.first
            rw [UInt8.toNat_toUInt32, hsaved, Nat.mod_eq_of_lt hfirst]
      · cases hnext
  | round =>
      simp only [next] at hnext
      split at hnext
      · cases hnext
      · next hunread =>
          obtain ⟨cur, hcur, rfl⟩ := Option.map_eq_some_iff.mp hnext
          cases hps : s.card.unread with
          | nil =>
              rw [hps] at hunread
              exact absurd rfl hunread
          | cons p ps =>
              have hin := hevent p (by rw [hps]; rfl)
              exact h.round hcur hps hin.1 hin.2
  | finish =>
      simp only [next] at hnext
      split at hnext
      · next hempty =>
          obtain ⟨cur, hcur, rfl⟩ := Option.map_eq_some_iff.mp hnext
          have hunread : s.card.unread = [] := List.isEmpty_iff.mp hempty
          have hplace := h.running cur hcur
          have hlast : s.card.first < 256 := hevent
          refine ⟨h.first_lt, h.aligned, h.room, h.stored, h.handed, h.inside, fun _ _ => hunread,
            h.capr, ?_, ?_⟩
          · intro _
            show cur.toUInt8.toNat = s.card.first
            rw [UInt32.toNat_toUInt8]
            rw [ring_length] at hplace
            omega
          · intro cur' hsome
            cases hsome
      · cases hnext

/-- As long as each packet lies in the buffer and each interrupt ends within the first 256 bytes,
the packets are handed over as they came in, for any packets and any interrupts. -/
theorem ring_right {memory : Nat → UInt8} {events : List Event} {s : State}
    (h : Run (stepOf next) InBuffer (init memory) events s) : Right s :=
  (h.invariant (fun s _ _ (hinv : Inv s) hevent hnext => hinv.step hevent hnext)
    (inv_init memory)).right

/-- A packet of `n` zeros. -/
def zeros (n : Nat) (h : n + 4 < 2 ^ 16) : Packet :=
  ⟨1, List.replicate n 0, [0, 0, 0, 0], rfl, by rwa [List.length_replicate]⟩

/-- A single packet. -/
def onePacket (n : Nat) (h : n + 4 < 2 ^ 16) : List Event :=
  [.arrive (zeros n h), .interrupt, .round, .finish]

theorem sixty_fits : 60 + 4 < 2 ^ 16 := by decide

/-- The shortest frame is handed over. -/
theorem short_packet_received : ∃ s,
    Run (stepOf next) InBuffer (init fun _ => 0) (onePacket 60 sixty_fits) s ∧
      s.handed = [List.replicate 60 0] ∧ Right s := by
  obtain ⟨_, s, hstart, hrun, hhanded⟩ := exists_run_checked next InBuffer
    (some (init fun _ => 0)) (onePacket 60 sixty_fits) State.handed
    (v := [List.replicate 60 0]) (by decide)
  cases hstart
  exact ⟨s, hrun, hhanded, ring_right hrun⟩

theorem frame_fits : 252 + 4 < 2 ^ 16 := by decide

/-- After a packet that takes 260 bytes the driver goes on at 4. -/
theorem offset_cut_off : ¬ ∀ (memory : Nat → UInt8) (events : List Event) (s : State),
    Run (stepOf next) anyLabel (init memory) events s → Right s := by
  intro hall
  obtain ⟨_, s, hstart, hrun, hview⟩ := exists_run_all next (some (init fun _ => 0))
    (onePacket 252 frame_fits)
    (fun s => (s.cur.isNone, s.handed.length, s.currentRX.toNat, readPosition s.card.capr))
    (v := (true, 1, 4, 260)) (by decide +kernel)
  cases hstart
  obtain ⟨hcur, hlength, hsaved, hcard⟩ : s.cur.isNone = true ∧ s.handed.length = 1 ∧
      s.currentRX.toNat = 4 ∧ readPosition s.card.capr = 260 := by
    simpa using hview
  have hhanded : s.handed ≠ [] := by
    intro hnil
    rw [hnil] at hlength
    exact absurd hlength (by decide)
  have hposition := (hall _ _ s hrun).position (Option.isNone_iff_eq_none.mp hcur) hhanded
  rw [hsaved, hcard] at hposition
  exact absurd hposition (by decide)

end XBook.Rtl8139
