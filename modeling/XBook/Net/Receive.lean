import Mathlib.Data.List.GetD
import XBook.Net.ArpCache
import XBook.Share.Vsprintf

/-!
# Receiving frames

`EthernetReceive` of `net/ethernet.c` and `ArpReceive` of `net/arp.c`, with the bytes that they read
and store. A frame is copied into a net buffer that has been cleared. The length of the header is
never tested, and a frame for this host is printed as a string; `ethernet_receive_iff` says which
frames are taken safely.
-/

namespace XBook.Ethernet

open Arp Printf

/-- `NET_BUF_DATA_SIZE`. -/
abbrev netBufDataSize : Nat := 2024

abbrev sizeofEthernetHeader : Nat := 14
abbrev sizeofArpHeader : Nat := 28
abbrev protoIp : UInt16 := 0x0800
abbrev protoArp : UInt16 := 0x0806
abbrev arpOpRequest : UInt16 := 1
abbrev arpOpReply : UInt16 := 2

/-! ## Fields -/

/-- A field of two bytes. -/
def load16 (data : List UInt8) (i : Nat) : UInt16 :=
  (data.getD i 0).toUInt16 ||| (data.getD (i + 1) 0).toUInt16 <<< 8

/-- A field of four bytes. -/
def load32 (data : List UInt8) (i : Nat) : UInt32 :=
  (load16 data i).toUInt32 ||| (load16 data (i + 2)).toUInt32 <<< 16

/-- An address of `ETH_ADDR_LEN` bytes. -/
def loadAddress (data : List UInt8) (i : Nat) : EthernetAddress :=
  Vector.ofFn fun k => data.getD (i + k.val) 0

def store16 (v : UInt16) : List UInt8 := [v.toUInt8, (v >>> 8).toUInt8]

def store32 (v : UInt32) : List UInt8 := store16 v.toUInt16 ++ store16 (v >>> 16).toUInt16

/-- `htons`, and `ntohs`. -/
def htons (v : UInt16) : UInt16 := (v &&& 0xFF) <<< 8 ||| (v &&& 0xFF00) >>> 8

/-- `htonl`, and `ntohl`. -/
def htonl (v : UInt32) : UInt32 :=
  (v &&& 0xFF) <<< 24 ||| (v &&& 0xFF00) <<< 8 ||| (v &&& 0xFF0000) >>> 8 |||
    (v &&& 0xFF000000) >>> 24

/-- The places of some bytes. -/
abbrev span (i n : Nat) : List Nat := List.range' i n

/-! ## Printing -/

theorem no_width : false = false → ∀ d ∈ ([] : List (Fin 10)).head?, d.val ≠ 0 := by
  intro _ d hd
  cases hd

/-- The width 2. -/
abbrev two : List (Fin 10) := [⟨2, Nat.le_add_left 3 7⟩]

theorem width_two : false = false → ∀ d ∈ two.head?, d.val ≠ 0 := by
  intro _ d hd
  cases hd
  exact Nat.succ_ne_zero 1

/-- The literal characters of a format. -/
def lits (s : String) : List Item :=
  s.toList.filterMap fun c =>
    if h : c.toUInt8 ≠ 37 ∧ c.toUInt8 ≠ 0 then some (.literal c.toUInt8 h) else none

/-- `%d`. -/
def dec (w : BitVec 32) : Item := .conversion ⟨false, [], no_width, .dec w⟩

/-- `%x`. -/
def hex (w : BitVec 32) : Item := .conversion ⟨false, [], no_width, .hex w⟩

/-- `%2x` of a byte. -/
def hexByte (b : UInt8) : Item := .conversion ⟨false, two, width_two, .hex (b.toBitVec.setWidth 32)⟩

/-- `%s`. -/
def str (s : List UInt8) (h : 0 ∉ s) : Item := .conversion ⟨false, [], no_width, .str s h⟩

/-- `%2x:%2x:%2x:%2x:%2x:%2x` of an address. -/
def hexAddress (a : EthernetAddress) : List Item :=
  ((a.toList.map fun b => [hexByte b]).intersperse (lits ":")).flatten

/-- `%d.%d.%d.%d` of the bytes of an address, the last of which comes first. -/
def dottedAddress (ip : UInt32) : List Item :=
  ((([24, 16, 8, 0] : List UInt32).map fun k => [dec (ip >>> k &&& 0xFF).toBitVec]).intersperse
    (lits ".")).flatten

/-- What `printk` stores in its `buf`, and what `vsprintf` stores in `inner_buf`. -/
def printk (items : List Item) : Printed :=
  ((vsprintf (items.flatMap Item.format) (items.flatMap Item.args)).map Prod.fst).getD ⟨[], []⟩

/-- The size of the buffer of `printk`. -/
abbrev printkSize : Nat := 256

/-! ## Receiving -/

/-- The host: its addresses, how many net buffers are not in use, and the ARP table. -/
structure Host where
  ethernetAddress : EthernetAddress
  networkAddress : UInt32
  free : Nat
  cache : CacheTable

/-- What a call does: the places of the frame that it reads and those of the net buffers that it
stores to, what it prints, the ARP table behind it, and the frames that it sends. -/
structure Reception where
  read : List Nat
  stored : List Nat
  prints : List Printed
  cache : CacheTable
  sent : List (List UInt8)

/-- `EthernetSend`, with the places that are stored to, what is printed and the frames sent. -/
def ethernetSend (host : Host) (free : Nat) (destAddr : EthernetAddress) (protocol : UInt16)
    (data : List UInt8) : List Nat × List Printed × List (List UInt8) :=
  let length := if data.length < 46 then 46 else data.length
  let total := length + sizeofEthernetHeader
  if total ≤ netBufDataSize ∧ 0 < free then
    (List.range netBufDataSize ++ List.range total, [],
      [destAddr.toList ++ host.ethernetAddress.toList ++ store16 (htons protocol) ++ data ++
        List.replicate (length - data.length) 0])
  else ([], [printk (lits "alloc net buffer failed!\n")], [])

/-- `ArpHeaderInit`. -/
def arpHeaderInit (hwType protoType : UInt16) (hwLen protoLen : UInt8) (opcode : UInt16)
    (srcEthAddr : EthernetAddress) (srcProtoAddr : UInt32) (dstEthAddr : EthernetAddress)
    (dstProtoAddr : UInt32) : List UInt8 :=
  store16 hwType ++ store16 protoType ++ [hwLen, protoLen] ++ store16 opcode ++
    srcEthAddr.toList ++ store32 srcProtoAddr ++ dstEthAddr.toList ++ store32 dstProtoAddr

/-- `ArpReceive` over the contents of the net buffer, whose `data` is behind the Ethernet header.
The address of the sender is the one in that header. -/
def arpReceive (host : Host) (free : Nat) (data : List UInt8) (dataLen : UInt32) : Reception :=
  if dataLen.toNat < sizeofArpHeader then ⟨[], [], [], host.cache, []⟩
  else
    let sourceIP := htonl (load32 data 28)
    let destIP := htonl (load32 data 38)
    let sourceEthernet := loadAddress data 22
    let opcode := htons (load16 data 20)
    let read := span 28 4 ++ span 38 4 ++ span 22 6 ++ span 20 2
    if opcode = arpOpRequest then
      let asked := printk (dottedAddress sourceIP ++ lits " want to know who have IP: " ++
        dottedAddress destIP ++ lits "\n")
      if destIP = host.networkAddress then
        let header := arpHeaderInit (htons 1) (htons protoIp) 6 4 (htons arpOpReply)
          host.ethernetAddress (htonl host.networkAddress) (loadAddress data 6) (htonl sourceIP)
        let reply := header ++ data.drop (sizeofEthernetHeader + sizeofArpHeader)
        let out := ethernetSend host free (loadAddress data 6) protoArp (reply.take dataLen.toNat)
        ⟨read ++ span 6 6 ++ span sizeofEthernetHeader dataLen.toNat,
          span sizeofEthernetHeader sizeofArpHeader ++ out.1,
          [asked, printk (lits "oh, I have it\n"), printk (lits "will send back!\n")] ++ out.2.1,
          host.cache, out.2.2⟩
      else
        ⟨read, [],
          [asked, printk (lits "host:" ++ [hex host.networkAddress.toBitVec] ++
            lits " not the dest that " ++ [hex destIP.toBitVec] ++ lits " want to now!\n")],
          host.cache, []⟩
    else if opcode = arpOpReply then
      ⟨read, [],
        [printk (lits "arp reply [" ++ dottedAddress sourceIP ++ lits "] -> [" ++
          hexAddress sourceEthernet ++ lits "]\n")],
        (arpAddCache host.cache sourceIP sourceEthernet).1, []⟩
    else ⟨read, [], [], host.cache, []⟩

/-- The string at the start of a memory. -/
def stringAt (mem : List UInt8) : List UInt8 := mem.takeWhile (· ≠ 0)

theorem string_at_ne_zero (mem : List UInt8) : 0 ∉ stringAt mem := by
  intro hmem
  have hne := List.mem_takeWhile_imp hmem
  exact absurd rfl (of_decide_eq_true hne)

/-- What the net buffer holds of a frame. -/
def contents (frame : List UInt8) : List UInt8 :=
  frame ++ List.replicate (netBufDataSize - frame.length) 0

/-- `EthernetReceive` of a frame, with the memory behind the net buffer up to a 0. -/
def ethernetReceive (host : Host) (frame beyond : List UInt8) : Reception :=
  if netBufDataSize < frame.length ∨ host.free = 0 then ⟨[], [], [], host.cache, []⟩
  else
    let data := contents frame
    let read := List.range frame.length ++ span 12 2
    let stored := List.range netBufDataSize ++ List.range frame.length
    if htons (load16 data 12) = protoArp then
      let arp := arpReceive host (host.free - 1) data (UInt32.ofNat frame.length - 14)
      ⟨read ++ arp.read, stored ++ arp.stored, arp.prints, arp.cache, arp.sent⟩
    else
      let fromTo := printk (lits "net receive from [" ++ hexAddress (loadAddress data 6) ++
        lits "] to [" ++ hexAddress (loadAddress data 0) ++ lits "]\n")
      if loadAddress data 0 = host.ethernetAddress then
        let p := stringAt (data ++ beyond)
        ⟨read ++ span 0 12 ++ List.range (p.length + 1), stored,
          [fromTo, printk (lits "data: " ++ [str p (string_at_ne_zero _)] ++ lits "\n")],
          host.cache, []⟩
      else ⟨read ++ span 0 12, stored, [fromTo], host.cache, []⟩

/-! ## What should happen -/

/-- Only received bytes are read, and all stores are in the buffers. A frame without room for both
headers adds nothing to the ARP table and is not replied to. -/
structure FrameSafe (host : Host) (frame : List UInt8) (r : Reception) : Prop where
  read : ∀ i ∈ r.read, i < frame.length
  stored : ∀ i ∈ r.stored, i < netBufDataSize
  prints : ∀ p ∈ r.prints, p.text.length ≤ printkSize ∧ ∀ n ∈ p.inner, n ≤ strDefaultLen
  complete : frame.length < sizeofEthernetHeader + sizeofArpHeader →
    r.cache = host.cache ∧ r.sent = []

/-- No net buffer is allocated, or the header has been received, and a frame that is printed has a
terminator in time. -/
def Receivable (host : Host) (frame : List UInt8) : Prop :=
  netBufDataSize < frame.length ∨ host.free = 0 ∨
    sizeofEthernetHeader ≤ frame.length ∧
      (htons (load16 frame 12) = protoArp ∨ loadAddress frame 0 ≠ host.ethernetAddress ∨
        ∃ text rest, frame = text ++ 0 :: rest ∧ 0 ∉ text ∧ text.length + 8 ≤ printkSize)

/-! ## What is printed -/

/-- The most characters that a value may take. -/
def valueRoom : Value → Nat
  | .char _ _ => 11
  | .dec _ => 11
  | .hex _ => 11
  | .str s _ => s.length

/-- The most characters that an item may take. -/
def room : Item → Nat
  | .literal _ _ => 1
  | .percent => 1
  | .conversion c => max c.minimum (valueRoom c.value)

theorem value_length_le_room (v : Value) : v.text.length ≤ valueRoom v := by
  cases v with
  | char w h => exact Nat.le_add_left 1 10
  | dec w => exact decimal_length_le w
  | hex w => exact (hexadecimal_length_le w).trans (Nat.le_add_left 8 3)
  | str s h => exact Nat.le_refl _

theorem written_le {v : Value} (h : valueRoom v < strDefaultLen) :
    v.written.length ≤ strDefaultLen := by
  cases v with
  | char w hw => exact Nat.le_add_left 1 255
  | dec w =>
      rcases eq_or_ne w (BitVec.intMin 32) with rfl | hmin
      · rw [Value.written, itoa_signed_min]
        decide
      · rw [Value.written, itoa_signed_eq hmin]
        exact (decimal_length_le w).trans (by decide)
  | hex w =>
      rw [Value.written, itoa16_align_eq, List.length_append]
      exact (Nat.succ_le_succ (hexadecimal_length_le w)).trans (by decide)
  | str s hs =>
      rw [Value.written, List.length_append]
      exact h

theorem text_length_le (item : Item) : item.text.length ≤ room item := by
  cases item with
  | literal c h => exact Nat.le_refl 1
  | percent => exact Nat.le_refl 1
  | conversion c =>
      have hvalue := value_length_le_room c.value
      show c.text.length ≤ max c.minimum (valueRoom c.value)
      rw [Conversion.text, List.length_append, List.length_replicate]
      omega

theorem stored_le {item : Item} (h : room item < strDefaultLen) :
    ∀ n ∈ item.stored, n ≤ strDefaultLen := by
  cases item with
  | literal c hc => exact fun n hn => absurd hn List.not_mem_nil
  | percent => exact fun n hn => absurd hn List.not_mem_nil
  | conversion c =>
      rw [Item.stored, List.forall_mem_singleton]
      exact written_le (Nat.lt_of_le_of_lt (Nat.le_max_right _ _) h)

theorem printk_eq (items : List Item) : printk items =
    ⟨items.flatMap Item.shown ++ [0], items.reverse.flatMap Item.stored⟩ := by
  rw [printk, vsprintf_eq]
  rfl

/-- The most characters that some items may take. -/
def roomOf (items : List Item) : Nat := (items.map room).sum

@[simp] theorem room_of_append (items items' : List Item) :
    roomOf (items ++ items') = roomOf items + roomOf items' := by
  rw [roomOf, List.map_append, List.sum_append, roomOf, roomOf]

theorem room_le_of_mem {item : Item} {items : List Item} (h : item ∈ items) :
    room item ≤ roomOf items := by
  obtain ⟨before, behind, rfl⟩ := List.append_of_mem h
  rw [room_of_append, roomOf, roomOf, List.map_cons, List.sum_cons]
  omega

theorem shown_length_le {items : List Item} (h : roomOf items < printkSize) :
    (items.flatMap Item.shown).length ≤ roomOf items := by
  induction items with
  | nil => exact Nat.le_refl 0
  | cons item items ih =>
      have htext := text_length_le item
      have hroom : roomOf (item :: items) = room item + roomOf items := by
        rw [roomOf, List.map_cons, List.sum_cons, roomOf]
      rw [hroom] at h ⊢
      have hlimit : printkSize < 2 ^ 32 := by decide
      have hlength : item.shown.length = item.text.length := item_shown_length (by omega)
      have hrest := ih (by omega)
      rw [List.flatMap_cons, List.length_append]
      omega

/-- What the two buffers have room for. -/
theorem printk_fits {items : List Item} (h : roomOf items < printkSize) :
    (printk items).text.length ≤ printkSize ∧ ∀ n ∈ (printk items).inner, n ≤ strDefaultLen := by
  have hlength := shown_length_le h
  rw [printk_eq]
  constructor
  · rw [List.length_append, List.length_singleton]
    omega
  · intro n hn
    obtain ⟨item, hitem, hstored⟩ := List.mem_flatMap.mp hn
    have hle := room_le_of_mem (List.mem_reverse.mp hitem)
    exact stored_le (Nat.lt_of_le_of_lt hle h) n hstored

/-- Numbers with separators between them. -/
theorem room_of_intersperse {α : Type*} (f : α → Item) (hf : ∀ a, room (f a) = 11)
    {sep : String} (hsep : roomOf (lits sep) = 1) (l : List α) :
    roomOf ((l.map fun a => [f a]).intersperse (lits sep)).flatten ≤ 12 * l.length := by
  induction l with
  | nil => exact Nat.zero_le _
  | cons a l ih =>
      have hfirst : roomOf [f a] = 11 := by
        rw [roomOf, List.map_singleton, List.sum_singleton, hf]
      cases l with
      | nil =>
          rw [List.map_singleton, List.intersperse_singleton, List.flatten_singleton, hfirst]
          exact Nat.le_succ 11
      | cons b l =>
          rw [List.map_cons, List.map_cons, List.intersperse_cons_cons, List.flatten_cons,
            List.flatten_cons, room_of_append, room_of_append, hfirst, hsep]
          rw [List.map_cons, List.length_cons] at ih
          rw [List.length_cons, List.length_cons]
          omega

theorem room_of_hex (a : EthernetAddress) : roomOf (hexAddress a) ≤ 72 := by
  have hcolon : roomOf (lits ":") = 1 := by decide
  have hle := room_of_intersperse hexByte (fun _ => rfl) hcolon a.toList
  rw [Vector.length_toList] at hle
  exact hle

theorem room_of_dotted (ip : UInt32) : roomOf (dottedAddress ip) ≤ 48 :=
  room_of_intersperse (fun k : UInt32 => dec (ip >>> k &&& 0xFF).toBitVec) (fun _ => rfl)
    (by decide : roomOf (lits ".") = 1) [24, 16, 8, 0]

/-! ## `ArpReceive` -/

theorem sizes : sizeofEthernetHeader = 14 ∧ sizeofArpHeader = 28 ∧ netBufDataSize = 2024 ∧
    printkSize = 256 := ⟨rfl, rfl, rfl, rfl⟩

/-- What is printed fits into its buffers. -/
def Fits (p : Printed) : Prop := p.text.length ≤ printkSize ∧ ∀ n ∈ p.inner, n ≤ strDefaultLen

theorem mem_span {i n k : Nat} (h : k ∈ span i n) : k < i + n := (List.mem_range'_1.mp h).2

section

variable {host : Host} {free : Nat} {data : List UInt8} {dataLen : UInt32}

/-- The frame is sent from within its net buffer. -/
theorem ethernet_send_stored (host : Host) (free : Nat) (dest : EthernetAddress)
    (protocol : UInt16) (data : List UInt8) :
    (∀ i ∈ (ethernetSend host free dest protocol data).1, i < netBufDataSize) ∧
      ∀ p ∈ (ethernetSend host free dest protocol data).2.1, Fits p := by
  rw [ethernetSend]
  generalize (if data.length < 46 then 46 else data.length) = length
  split
  · next hroom =>
      refine ⟨fun i hi => ?_, fun p hp => absurd hp List.not_mem_nil⟩
      rcases List.mem_append.mp hi with hclear | hdata
      · exact List.mem_range.mp hclear
      · exact Nat.lt_of_lt_of_le (List.mem_range.mp hdata) hroom.1
  · refine ⟨fun i hi => absurd hi List.not_mem_nil, ?_⟩
    rw [List.forall_mem_singleton]
    exact printk_fits (by decide)

theorem asked_fits (sourceIP destIP : UInt32) :
    Fits (printk (dottedAddress sourceIP ++ lits " want to know who have IP: " ++
      dottedAddress destIP ++ lits "\n")) := by
  refine printk_fits ?_
  have hsizes := sizes
  have hsource := room_of_dotted sourceIP
  have hdest := room_of_dotted destIP
  have htext : roomOf (lits " want to know who have IP: ") = 27 := by decide
  have hnewline : roomOf (lits "\n") = 1 := by decide
  rw [room_of_append, room_of_append, room_of_append, htext, hnewline]
  omega

theorem not_the_dest_fits (ip destIP : BitVec 32) :
    Fits (printk (lits "host:" ++ [hex ip] ++ lits " not the dest that " ++ [hex destIP] ++
      lits " want to now!\n")) := by
  refine printk_fits ?_
  have hsizes := sizes
  have hhex : ∀ w, roomOf [hex w] = 11 := fun _ => rfl
  have hhost : roomOf (lits "host:") = 5 := by decide
  have hnot : roomOf (lits " not the dest that ") = 19 := by decide
  have hwant : roomOf (lits " want to now!\n") = 14 := by decide
  rw [room_of_append, room_of_append, room_of_append, room_of_append, hhex, hhex, hhost, hnot,
    hwant]
  omega

theorem reply_fits (sourceIP : UInt32) (sourceEthernet : EthernetAddress) :
    Fits (printk (lits "arp reply [" ++ dottedAddress sourceIP ++ lits "] -> [" ++
      hexAddress sourceEthernet ++ lits "]\n")) := by
  refine printk_fits ?_
  have hsizes := sizes
  have hsource := room_of_dotted sourceIP
  have hethernet := room_of_hex sourceEthernet
  have hreply : roomOf (lits "arp reply [") = 11 := by decide
  have harrow : roomOf (lits "] -> [") = 6 := by decide
  have hend : roomOf (lits "]\n") = 2 := by decide
  rw [room_of_append, room_of_append, room_of_append, room_of_append, hreply, harrow, hend]
  omega

theorem received_fits (source dest : EthernetAddress) :
    Fits (printk (lits "net receive from [" ++ hexAddress source ++ lits "] to [" ++
      hexAddress dest ++ lits "]\n")) := by
  refine printk_fits ?_
  have hsizes := sizes
  have hsource := room_of_hex source
  have hdest := room_of_hex dest
  have hfrom : roomOf (lits "net receive from [") = 18 := by decide
  have hto : roomOf (lits "] to [") = 6 := by decide
  have hend : roomOf (lits "]\n") = 2 := by decide
  rw [room_of_append, room_of_append, room_of_append, room_of_append, hfrom, hto, hend]
  omega

theorem arp_receive_short (h : dataLen.toNat < sizeofArpHeader) :
    arpReceive host free data dataLen = ⟨[], [], [], host.cache, []⟩ := if_pos h

/-- `ArpReceive` is safe where `dataLen` is what has been received behind the header. -/
theorem arp_receive_safe {frame : List UInt8}
    (hlen : frame.length = sizeofEthernetHeader + dataLen.toNat) :
    FrameSafe host frame (arpReceive host free data dataLen) := by
  have hsizes := sizes
  by_cases hshort : dataLen.toNat < sizeofArpHeader
  · rw [arp_receive_short hshort]
    exact ⟨fun i hi => absurd hi List.not_mem_nil, fun i hi => absurd hi List.not_mem_nil,
      fun p hp => absurd hp List.not_mem_nil, fun _ => ⟨rfl, rfl⟩⟩
  · have hheader : ∀ i ∈ span 28 4 ++ span 38 4 ++ span 22 6 ++ span 20 2, i < frame.length := by
      have hspans : ∀ i ∈ span 28 4 ++ span 38 4 ++ span 22 6 ++ span 20 2, i < 42 := by decide
      exact fun i hi => Nat.lt_of_lt_of_le (hspans i hi) (by omega)
    have hcomplete : frame.length < sizeofEthernetHeader + sizeofArpHeader → False := by omega
    rw [arpReceive, if_neg hshort]
    dsimp only
    split
    · split
      · refine ⟨?_, ?_, ?_, fun h => (hcomplete h).elim⟩
        · intro i hi
          rcases List.mem_append.mp hi with hi | hdata
          · rcases List.mem_append.mp hi with hi | haddress
            · exact hheader i hi
            · have hlt := mem_span haddress
              omega
          · have hlt := mem_span hdata
            omega
        · intro i hi
          rcases List.mem_append.mp hi with harp | hout
          · have hlt := mem_span harp
            omega
          · exact (ethernet_send_stored ..).1 i hout
        · have hreplied : ∀ p ∈ [printk (lits "oh, I have it\n"),
              printk (lits "will send back!\n")], Fits p :=
            List.forall_mem_cons.mpr ⟨printk_fits (by decide),
              List.forall_mem_singleton.mpr (printk_fits (by decide))⟩
          exact List.forall_mem_append.mpr
            ⟨List.forall_mem_cons.mpr ⟨asked_fits .., hreplied⟩, (ethernet_send_stored ..).2⟩
      · refine ⟨hheader, fun i hi => absurd hi List.not_mem_nil, ?_, fun h => (hcomplete h).elim⟩
        exact List.forall_mem_cons.mpr
          ⟨asked_fits .., List.forall_mem_singleton.mpr (not_the_dest_fits ..)⟩
    · split
      · refine ⟨hheader, fun i hi => absurd hi List.not_mem_nil, ?_, fun h => (hcomplete h).elim⟩
        exact List.forall_mem_singleton.mpr (reply_fits ..)
      · exact ⟨hheader, fun i hi => absurd hi List.not_mem_nil,
          fun p hp => absurd hp List.not_mem_nil, fun h => (hcomplete h).elim⟩

end

/-! ## `EthernetReceive` -/

/-- A byte of the frame, or a cleared one behind it. -/
theorem contents_get (frame : List UInt8) (i : Nat) :
    (contents frame).getD i 0 = frame.getD i 0 := by
  rw [contents]
  by_cases hi : i < frame.length
  · exact List.getD_append _ _ _ _ hi
  · have hle := Nat.not_lt.mp hi
    rw [List.getD_append_right _ _ _ _ hle, List.getD_eq_default _ _ hle,
      List.getD_eq_getElem?_getD, List.getElem?_replicate]
    split <;> rfl

theorem contents_load (frame : List UInt8) (i : Nat) :
    load16 (contents frame) i = load16 frame i ∧
      loadAddress (contents frame) i = loadAddress frame i := by
  constructor
  · rw [load16, load16, contents_get, contents_get]
  · rw [loadAddress, loadAddress]
    congr 1
    funext k
    exact contents_get frame _

/-- The string in the net buffer is one of the frame where the frame has a terminator. -/
theorem string_at_text {text rest : List UInt8} (htext : 0 ∉ text) (beyond : List UInt8) :
    stringAt (contents (text ++ 0 :: rest) ++ beyond) = text := by
  rw [contents, stringAt, List.append_assoc, List.append_assoc, List.takeWhile_append_of_pos,
    List.cons_append, List.takeWhile_cons_of_neg (by simp), List.append_nil]
  intro c hc
  simpa using ne_of_mem_of_not_mem hc htext

/-- Otherwise it goes on behind the frame. -/
theorem string_at_long {frame : List UInt8} (hframe : 0 ∉ frame) (beyond : List UInt8) :
    frame.length ≤ (stringAt (contents frame ++ beyond)).length := by
  rw [contents, stringAt, List.append_assoc, List.takeWhile_append_of_pos, List.length_append]
  · exact Nat.le_add_right _ _
  · intro c hc
    simpa using ne_of_mem_of_not_mem hc hframe

/-- A string is printed as it is. -/
theorem str_shown (s : List UInt8) (h : 0 ∉ s) : (str s h).shown = s := by
  show Conversion.shown _ = _
  rw [Conversion.shown]
  have hwidth : alignNr (Conversion.mk false [] no_width (.str s h)).widthChars = 0 := rfl
  rw [hwidth, if_neg (by simp)]
  exact take_while_append h

/-- A string is printed with eight characters more. -/
theorem data_fits_iff (s : List UInt8) (h : 0 ∉ s) :
    Fits (printk (lits "data: " ++ [str s h] ++ lits "\n")) ↔ s.length + 8 ≤ printkSize := by
  have hsizes := sizes
  have hdata : roomOf (lits "data: ") = 6 := by decide
  have hnewline : roomOf (lits "\n") = 1 := by decide
  constructor
  · intro hfits
    have hdata : ((lits "data: ").flatMap Item.shown).length = 6 := by decide
    have hnewline : ((lits "\n").flatMap Item.shown).length = 1 := by decide
    have htext := hfits.1
    rw [printk_eq, List.flatMap_append, List.flatMap_append, List.flatMap_singleton, str_shown,
      List.length_append, List.length_append, List.length_append, List.length_singleton, hdata,
      hnewline] at htext
    omega
  · intro hshort
    have hstr : roomOf [str s h] = s.length := Nat.zero_max _
    refine printk_fits ?_
    rw [room_of_append, room_of_append, hdata, hstr, hnewline]
    omega

section

variable {host : Host} {frame : List UInt8}

/-- The protocol is read, whatever has been received. -/
theorem protocol_read (h : ¬(netBufDataSize < frame.length ∨ host.free = 0))
    (beyond : List UInt8) : 13 ∈ (ethernetReceive host frame beyond).read := by
  have hread : 13 ∈ List.range frame.length ++ span 12 2 :=
    List.mem_append_right _ (by decide)
  rw [ethernetReceive, if_neg h]
  dsimp only
  split
  · exact List.mem_append_left _ hread
  · split
    · exact List.mem_append_left _ (List.mem_append_left _ hread)
    · exact List.mem_append_left _ hread

/-- What `EthernetReceive` itself reads of a frame with a header. -/
theorem header_read (hlong : sizeofEthernetHeader ≤ frame.length) :
    ∀ i ∈ List.range frame.length ++ span 12 2 ++ span 0 12, i < frame.length := by
  have hsizes := sizes
  intro i hi
  rcases List.mem_append.mp hi with hi | haddress
  · rcases List.mem_append.mp hi with hcopied | hprotocol
    · exact List.mem_range.mp hcopied
    · have hlt := mem_span hprotocol
      omega
  · have hlt := mem_span haddress
    omega

theorem buffer_stored (hfits : frame.length ≤ netBufDataSize) :
    ∀ i ∈ List.range netBufDataSize ++ List.range frame.length, i < netBufDataSize := by
  intro i hi
  rcases List.mem_append.mp hi with hclear | hcopied
  · exact List.mem_range.mp hclear
  · exact Nat.lt_of_lt_of_le (List.mem_range.mp hcopied) hfits

/-- The ARP packet is what has been received behind the header. -/
theorem arp_length (hlong : sizeofEthernetHeader ≤ frame.length)
    (hfits : frame.length ≤ netBufDataSize) :
    frame.length = sizeofEthernetHeader + (UInt32.ofNat frame.length - 14).toNat := by
  have hsizes := sizes
  have hlength : (UInt32.ofNat frame.length).toNat = frame.length := by
    rw [UInt32.toNat_ofNat', Nat.mod_eq_of_lt (by omega)]
  have hheader : (14 : UInt32) ≤ UInt32.ofNat frame.length := by
    rw [UInt32.le_iff_toNat_le, hlength]
    exact hlong
  rw [UInt32.toNat_sub_of_le _ _ hheader, hlength]
  exact (Nat.add_sub_cancel' hlong).symm

/-- A frame for this host is safe where it is printed safely. -/
theorem own_frame_iff (hlong : sizeofEthernetHeader ≤ frame.length)
    (hfits : frame.length ≤ netBufDataSize)
    (harp : htons (load16 frame 12) ≠ protoArp)
    (hnone : ¬(netBufDataSize < frame.length ∨ host.free = 0))
    (hown : loadAddress frame 0 = host.ethernetAddress) (beyond : List UInt8) :
    FrameSafe host frame (ethernetReceive host frame beyond) ↔
      (stringAt (contents frame ++ beyond)).length < frame.length ∧
        (stringAt (contents frame ++ beyond)).length + 8 ≤ printkSize := by
  rw [ethernetReceive, if_neg hnone]
  dsimp only
  rw [(contents_load frame 12).1, if_neg harp, (contents_load frame 0).2, if_pos hown,
    ← data_fits_iff _ (string_at_ne_zero _)]
  constructor
  · intro hsafe
    refine ⟨hsafe.read _ (List.mem_append_right _ List.self_mem_range_succ), ?_⟩
    exact hsafe.prints _ (List.mem_cons_of_mem _ List.mem_cons_self)
  · rintro ⟨hstring, hprinted⟩
    refine ⟨?_, buffer_stored hfits, ?_, fun _ => ⟨rfl, rfl⟩⟩
    · intro i hi
      rcases List.mem_append.mp hi with hheader | hdata
      · exact header_read hlong i hheader
      · have hlt := List.mem_range.mp hdata
        omega
    · exact List.forall_mem_cons.mpr ⟨received_fits .., List.forall_mem_singleton.mpr hprinted⟩

/-- A terminator in time is one that the string of the net buffer ends at. -/
theorem terminated_iff (frame beyond : List UInt8) :
    (stringAt (contents frame ++ beyond)).length < frame.length ∧
        (stringAt (contents frame ++ beyond)).length + 8 ≤ printkSize ↔
      ∃ text rest, frame = text ++ 0 :: rest ∧ 0 ∉ text ∧ text.length + 8 ≤ printkSize := by
  constructor
  · rintro ⟨hinside, hshort⟩
    have hzero : 0 ∈ frame := by
      by_contra hmem
      exact absurd hinside (Nat.not_lt.mpr (string_at_long hmem beyond))
    obtain ⟨text, rest, heq, htext⟩ := List.eq_append_cons_of_mem hzero
    rw [heq, string_at_text htext] at hshort
    exact ⟨text, rest, heq, htext, hshort⟩
  · rintro ⟨text, rest, rfl, htext, hshort⟩
    rw [string_at_text htext]
    refine ⟨?_, hshort⟩
    rw [List.length_append, List.length_cons]
    omega

end

/-- A frame is received safely exactly where no net buffer is allocated for it, or it has an
Ethernet header and, if it is printed, a string of no more than 248 characters. -/
theorem ethernet_receive_iff (host : Host) (frame beyond : List UInt8) :
    FrameSafe host frame (ethernetReceive host frame beyond) ↔ Receivable host frame := by
  have hsizes := sizes
  rw [Receivable, ← or_assoc]
  by_cases hnone : netBufDataSize < frame.length ∨ host.free = 0
  · rw [ethernetReceive, if_pos hnone]
    exact iff_of_true ⟨fun i hi => absurd hi List.not_mem_nil,
      fun i hi => absurd hi List.not_mem_nil, fun p hp => absurd hp List.not_mem_nil,
      fun _ => ⟨rfl, rfl⟩⟩ (.inl hnone)
  · rw [or_iff_right hnone]
    have hfits : frame.length ≤ netBufDataSize := Nat.not_lt.mp fun h => hnone (.inl h)
    by_cases hlong : sizeofEthernetHeader ≤ frame.length
    · rw [and_iff_right hlong]
      by_cases harp : htons (load16 frame 12) = protoArp
      · refine iff_of_true ?_ (.inl harp)
        rw [ethernetReceive, if_neg hnone]
        dsimp only
        rw [(contents_load frame 12).1, if_pos harp]
        have hsafe : FrameSafe host frame (arpReceive host (host.free - 1) (contents frame)
            (UInt32.ofNat frame.length - 14)) := arp_receive_safe (arp_length hlong hfits)
        refine ⟨?_, ?_, hsafe.prints, hsafe.complete⟩
        · intro i hi
          rcases List.mem_append.mp hi with hheader | hrest
          · exact header_read hlong i (List.mem_append_left _ hheader)
          · exact hsafe.read i hrest
        · intro i hi
          rcases List.mem_append.mp hi with hbuffer | hrest
          · exact buffer_stored hfits i hbuffer
          · exact hsafe.stored i hrest
      · rw [or_iff_right harp]
        by_cases hown : loadAddress frame 0 = host.ethernetAddress
        · rw [or_iff_right (not_not.mpr hown), ← terminated_iff frame beyond]
          exact own_frame_iff hlong hfits harp hnone hown beyond
        · refine iff_of_true ?_ (.inl hown)
          rw [ethernetReceive, if_neg hnone]
          dsimp only
          rw [(contents_load frame 12).1, if_neg harp, (contents_load frame 0).2, if_neg hown]
          refine ⟨header_read hlong, buffer_stored hfits, ?_, fun _ => ⟨rfl, rfl⟩⟩
          exact List.forall_mem_singleton.mpr (received_fits ..)
    · refine iff_of_false (fun hsafe => hlong ?_) fun h => hlong h.1
      have hread := hsafe.read 13 (protocol_read hnone beyond)
      omega

/-- Of a frame of one byte the protocol is read. -/
theorem short_frame_read_behind : ¬∀ (host : Host) (frame beyond : List UInt8),
    FrameSafe host frame (ethernetReceive host frame beyond) := by
  intro hall
  have hread := (hall ⟨Vector.replicate 6 0, 0, 64, initArp⟩ [0] []).read 13
    (protocol_read (by decide) [])
  exact absurd hread (by decide)

end XBook.Ethernet
