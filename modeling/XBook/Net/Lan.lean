import XBook.Lib.Transition
import XBook.Net.Receive

/-!
# Hosts on one network

`ArpRequest` of `net/arp.c`, and any number of hosts that run the code of `net/` on one wire. A
frame that was sent is received by any host, any number of times and in any order, or never, and a
host holds as many net buffers as it likes. `lan_agrees` says that no host ever finds a wrong
address, and `lan_resolves` that a request that is answered tells the address for good.
-/

namespace XBook.Ethernet

open Arp Printf Transition

/-! ## Frames -/

/-- The address of all hosts. -/
def broadcastMacAddr : EthernetAddress := Vector.replicate 6 0xFF

/-- What `ArpHeaderInit` is told for this network. -/
structure ArpPacket where
  opcode : UInt16
  sourceEthernet : EthernetAddress
  sourceIP : UInt32
  destEthernet : EthernetAddress
  destIP : UInt32

def ArpPacket.encode (p : ArpPacket) : List UInt8 :=
  arpHeaderInit (htons 1) (htons protoIp) 6 4 (htons p.opcode) p.sourceEthernet (htonl p.sourceIP)
    p.destEthernet (htonl p.destIP)

/-- A frame with a packet, and what fills it up to the least length. -/
structure ArpFrame where
  dest : EthernetAddress
  source : EthernetAddress
  packet : ArpPacket
  padding : List UInt8
  filled : padding.length = 18

def ArpFrame.encode (f : ArpFrame) : List UInt8 :=
  f.dest.toList ++ f.source.toList ++ store16 (htons protoArp) ++ f.packet.encode ++ f.padding

/-- `ArpRequest`, with the frames that it sends. -/
def arpRequest (host : Host) (ip : UInt32) : List (List UInt8) :=
  if host.free = 0 then []
  else
    (ethernetSend host (host.free - 1) broadcastMacAddr protoArp
      (ArpPacket.encode ⟨arpOpRequest, host.ethernetAddress, host.networkAddress,
        broadcastMacAddr, ip⟩)).2.2

/-- The frame of a request. -/
def requestFrame (host : Host) (ip : UInt32) : ArpFrame where
  dest := broadcastMacAddr
  source := host.ethernetAddress
  packet := ⟨arpOpRequest, host.ethernetAddress, host.networkAddress, broadcastMacAddr, ip⟩
  padding := List.replicate 18 0
  filled := List.length_replicate

/-- The frame that answers a request. It is filled up with what the request was filled up with. -/
def replyFrame (host : Host) (f : ArpFrame) : ArpFrame where
  dest := f.source
  source := host.ethernetAddress
  packet := ⟨arpOpReply, host.ethernetAddress, host.networkAddress, f.source, f.packet.sourceIP⟩
  padding := f.padding
  filled := f.filled

/-! ## The network -/

/-- The hosts, and the frames that have been sent. -/
structure Lan (Id : Type*) where
  hosts : Id → Host
  wire : List (List UInt8)

/-- What happens on the network: a host asks for an address, it receives a frame that was sent, with
the memory behind its buffer, a frame of another protocol is sent, or net buffers are allocated or
freed by other code of a host. -/
inductive LanEvent (Id : Type*) where
  | request (i : Id) (ip : UInt32)
  | receive (i : Id) (frame beyond : List UInt8)
  | other (frame : List UInt8)
  | buffers (i : Id) (free : Nat)

variable {Id : Type*} [DecidableEq Id]

def Lan.setHost (s : Lan Id) (i : Id) (host : Host) : Lan Id :=
  { s with hosts := Function.update s.hosts i host }

def Lan.send (s : Lan Id) (frames : List (List UInt8)) : Lan Id :=
  { s with wire := s.wire ++ frames }

/-- One event. -/
def lanStep (s : Lan Id) : LanEvent Id → Option (Lan Id)
  | .request i ip => some (s.send (arpRequest (s.hosts i) ip))
  | .receive i frame beyond =>
      if frame ∈ s.wire then
        let r := ethernetReceive (s.hosts i) frame beyond
        some ((s.setHost i { s.hosts i with cache := r.cache }).send r.sent)
      else none
  | .other frame => if htons (load16 frame 12) = protoArp then none else some (s.send [frame])
  | .buffers i free => some (s.setHost i { s.hosts i with free := free })

/-- The network behind `InitARP` of every host. -/
structure Lan.Initial (s : Lan Id) : Prop where
  cache : ∀ i, (s.hosts i).cache = initArp
  wire : s.wire = []

/-! ## Fields of a frame -/

theorem htonl_htonl (v : UInt32) : htonl (htonl v) = v := by
  rw [← UInt32.toBitVec_inj]
  apply BitVec.eq_of_getLsbD_eq
  intro i hi
  simp only [htonl, UInt32.toBitVec_or, UInt32.toBitVec_and, UInt32.toBitVec_shiftLeft,
    UInt32.toBitVec_shiftRight, UInt32.toBitVec_ofNat, BitVec.getLsbD_or]
  interval_cases i <;> simp

/-- The bytes of a field of two. -/
theorem bytes_of (v : UInt16) : v.toUInt8.toUInt16 ||| (v >>> 8).toUInt8.toUInt16 <<< 8 = v := by
  rw [← UInt16.toBitVec_inj]
  apply BitVec.eq_of_getLsbD_eq
  intro i hi
  simp only [UInt16.toBitVec_or, UInt16.toBitVec_shiftLeft, UInt8.toBitVec_toUInt16,
    UInt16.toBitVec_toUInt8, UInt16.toBitVec_shiftRight, UInt16.toBitVec_ofNat, BitVec.getLsbD_or]
  interval_cases i <;> simp

/-- The halves of a field of four bytes. -/
theorem halves_of (v : UInt32) :
    v.toUInt16.toUInt32 ||| (v >>> 16).toUInt16.toUInt32 <<< 16 = v := by
  rw [← UInt32.toBitVec_inj]
  apply BitVec.eq_of_getLsbD_eq
  intro i hi
  simp only [UInt32.toBitVec_or, UInt32.toBitVec_shiftLeft, UInt16.toBitVec_toUInt32,
    UInt32.toBitVec_toUInt16, UInt32.toBitVec_shiftRight, UInt32.toBitVec_ofNat, BitVec.getLsbD_or]
  interval_cases i <;> simp

/-- A byte behind a part of the data. -/
theorem getD_behind (before rest : List UInt8) (k : Nat) :
    (before ++ rest).getD (before.length + k) 0 = rest.getD k 0 := by
  rw [List.getD_append_right _ _ _ _ (Nat.le_add_right _ _), Nat.add_sub_cancel_left]

theorem load_16_at (before : List UInt8) {i : Nat} (hi : before.length = i) (v : UInt16)
    (rest : List UInt8) : load16 (before ++ (store16 v ++ rest)) i = v := by
  rw [load16, ← hi]
  have hfirst := getD_behind before (store16 v ++ rest) 0
  rw [Nat.add_zero] at hfirst
  rw [hfirst, getD_behind]
  exact bytes_of v

theorem load_32_at (before : List UInt8) {i : Nat} (hi : before.length = i) (v : UInt32)
    (rest : List UInt8) : load32 (before ++ (store32 v ++ rest)) i = v := by
  rw [load32, store32, List.append_assoc, load_16_at _ hi]
  have hhalf : load16 (before ++ (store16 v.toUInt16 ++ (store16 (v >>> 16).toUInt16 ++ rest)))
      (i + 2) = (v >>> 16).toUInt16 := by
    rw [← List.append_assoc]
    refine load_16_at _ ?_ _ _
    rw [List.length_append, hi]
    rfl
  rw [hhalf]
  exact halves_of v

theorem load_address_at (before : List UInt8) {i : Nat} (hi : before.length = i)
    (a : EthernetAddress) (rest : List UInt8) :
    loadAddress (before ++ (a.toList ++ rest)) i = a := by
  ext k hk
  rw [loadAddress, Vector.getElem_ofFn, ← hi, getD_behind,
    List.getD_append _ _ _ _ (by rwa [Vector.length_toList]),
    List.getD_eq_getElem _ _ (by rwa [Vector.length_toList]), Vector.getElem_toList]

theorem length_encode_packet (p : ArpPacket) : p.encode.length = sizeofArpHeader := by
  simp [ArpPacket.encode, arpHeaderInit, store16, store32]

theorem length_encode (f : ArpFrame) : f.encode.length = 60 := by
  rw [ArpFrame.encode]
  simp only [List.length_append, Vector.length_toList, length_encode_packet, f.filled]
  rfl

/-- What a host reads in a buffer with a frame. -/
structure FieldsRead (f : ArpFrame) (data : List UInt8) : Prop where
  source : loadAddress data 6 = f.source
  protocol : htons (load16 data 12) = protoArp
  opcode : load16 data 20 = htons f.packet.opcode
  sourceEthernet : loadAddress data 22 = f.packet.sourceEthernet
  sourceIP : htonl (load32 data 28) = f.packet.sourceIP
  destIP : htonl (load32 data 38) = f.packet.destIP
  behind : (data.drop (sizeofEthernetHeader + sizeofArpHeader)).take 18 = f.padding

/-- The fields of a frame are read as they were stored. -/
theorem fields_read (f : ArpFrame) (rest : List UInt8) : FieldsRead f (f.encode ++ rest) := by
  obtain ⟨dest, source, p, padding, hfilled⟩ := f
  obtain ⟨opcode, sourceEthernet, sourceIP, destEthernet, destIP⟩ := p
  simp only [ArpFrame.encode, ArpPacket.encode, arpHeaderInit]
  refine ⟨?_, ?_, ?_, ?_, ?_, ?_, ?_⟩
  · have h := load_address_at dest.toList Vector.length_toList source
    simp only [List.append_assoc]
    exact h _
  · have h := load_16_at (dest.toList ++ source.toList)
      (i := 12) (by simp) (htons protoArp)
    simp only [List.append_assoc] at h ⊢
    rw [h]
    decide
  · have h := load_16_at (dest.toList ++ source.toList ++ store16 (htons protoArp) ++
      store16 (htons 1) ++ store16 (htons protoIp) ++ [6, 4])
      (i := 20) (by simp [store16]) (htons opcode)
    simp only [List.append_assoc] at h ⊢
    exact h _
  · have h := load_address_at (dest.toList ++ source.toList ++ store16 (htons protoArp) ++
      store16 (htons 1) ++ store16 (htons protoIp) ++ [6, 4] ++ store16 (htons opcode))
      (i := 22) (by simp [store16]) sourceEthernet
    simp only [List.append_assoc] at h ⊢
    exact h _
  · have h := load_32_at (dest.toList ++ source.toList ++ store16 (htons protoArp) ++
      store16 (htons 1) ++ store16 (htons protoIp) ++ [6, 4] ++ store16 (htons opcode) ++
      sourceEthernet.toList) (i := 28) (by simp [store16]) (htonl sourceIP)
    simp only [List.append_assoc] at h ⊢
    rw [h, htonl_htonl]
  · have h := load_32_at (dest.toList ++ source.toList ++ store16 (htons protoArp) ++
      store16 (htons 1) ++ store16 (htons protoIp) ++ [6, 4] ++ store16 (htons opcode) ++
      sourceEthernet.toList ++ store32 (htonl sourceIP) ++ destEthernet.toList)
      (i := 38) (by simp [store16, store32]) (htonl destIP)
    simp only [List.append_assoc] at h ⊢
    rw [h, htonl_htonl]
  · rw [List.append_assoc _ padding, List.drop_left', List.take_left' hfilled]
    simp [store16, store32, sizeofEthernetHeader, sizeofArpHeader]

/-! ## What a host does with a frame -/

/-- The data of a packet is filled up and sent, if there is a net buffer. -/
theorem ethernet_send_sent (host : Host) (free : Nat) (dest : EthernetAddress) (protocol : UInt16)
    {data : List UInt8} (hshort : data.length ≤ 46) :
    (ethernetSend host free dest protocol data).2.2 =
      if 0 < free then
        [dest.toList ++ host.ethernetAddress.toList ++ store16 (htons protocol) ++ data ++
          List.replicate (46 - data.length) 0]
      else [] := by
  have hlength : (if data.length < 46 then 46 else data.length) = 46 := by
    split
    · rfl
    · omega
  have hsize : 46 + sizeofEthernetHeader ≤ netBufDataSize := by decide
  simp only [ethernetSend, hlength]
  by_cases hfree : 0 < free
  · rw [if_pos ⟨hsize, hfree⟩, if_pos hfree]
  · rw [if_neg fun h => hfree h.2, if_neg hfree]

theorem arp_request_sent (host : Host) (ip : UInt32) :
    arpRequest host ip = if 1 < host.free then [(requestFrame host ip).encode] else [] := by
  rw [arpRequest]
  by_cases hnone : host.free = 0
  · rw [if_pos hnone, if_neg (by omega)]
  · have hlength : (ArpPacket.encode ⟨arpOpRequest, host.ethernetAddress, host.networkAddress,
        broadcastMacAddr, ip⟩).length = 28 := length_encode_packet _
    rw [if_neg hnone, ethernet_send_sent _ _ _ _ (by omega), hlength]
    by_cases hfree : 1 < host.free
    · rw [if_pos hfree, if_pos (by omega)]
      rfl
    · rw [if_neg hfree, if_neg (by omega)]

variable {host : Host} {f : ArpFrame}

/-- A frame with a packet goes to `ArpReceive`. -/
theorem receive_arp (hfree : 0 < host.free) (beyond : List UInt8) :
    ∃ data, FieldsRead f data ∧ ∃ dataLen : UInt32, dataLen.toNat = 46 ∧
      (ethernetReceive host f.encode beyond).cache =
        (arpReceive host (host.free - 1) data dataLen).cache ∧
      (ethernetReceive host f.encode beyond).sent =
        (arpReceive host (host.free - 1) data dataLen).sent := by
  have hfields := fields_read f (List.replicate (netBufDataSize - f.encode.length) 0)
  refine ⟨contents f.encode, hfields, UInt32.ofNat f.encode.length - 14, ?_, ?_⟩
  · rw [length_encode]
    decide
  · have hroom : ¬(netBufDataSize < f.encode.length ∨ host.free = 0) := by
      rw [length_encode]
      rintro (hlong | hnone)
      · exact absurd hlong (by decide)
      · omega
    have hprotocol : htons (load16 (contents f.encode) 12) = protoArp := hfields.protocol
    rw [ethernetReceive, if_neg hroom]
    simp only [hprotocol, if_true, and_self]

/-- A request is answered by the host that it asks for, if it has another net buffer. -/
theorem receive_request (hfree : 0 < host.free) (hop : f.packet.opcode = arpOpRequest)
    (beyond : List UInt8) :
    (ethernetReceive host f.encode beyond).cache = host.cache ∧
      (ethernetReceive host f.encode beyond).sent =
        if f.packet.destIP = host.networkAddress ∧ 1 < host.free then [(replyFrame host f).encode]
        else [] := by
  obtain ⟨data, hread, dataLen, hlen, hcache, hsent⟩ := receive_arp (f := f) hfree beyond
  have hopcode : htons (load16 data 20) = arpOpRequest := by
    rw [hread.opcode, hop]
    decide
  have hlong : ¬dataLen.toNat < sizeofArpHeader := by
    rw [hlen]
    decide
  rw [hcache, hsent, arpReceive, if_neg hlong]
  simp only [hopcode, if_true, hread.destIP, hread.sourceIP, hread.source, hlen]
  by_cases hdest : f.packet.destIP = host.networkAddress
  · have htake : (arpHeaderInit (htons 1) (htons protoIp) 6 4 (htons arpOpReply)
        host.ethernetAddress (htonl host.networkAddress) f.source (htonl f.packet.sourceIP) ++
        data.drop (sizeofEthernetHeader + sizeofArpHeader)).take 46 =
        (replyFrame host f).packet.encode ++ f.padding := by
      have hheader : 46 = (replyFrame host f).packet.encode.length + 18 := by
        rw [length_encode_packet]
      rw [← hread.behind, hheader]
      exact List.take_length_add_append 18
    have hlength : ((replyFrame host f).packet.encode ++ f.padding).length = 46 := by
      rw [List.length_append, length_encode_packet, f.filled]
    refine ⟨by rw [if_pos hdest], ?_⟩
    rw [if_pos hdest]
    simp only [htake]
    rw [ethernet_send_sent _ _ _ _ (Nat.le_of_eq hlength), hlength, Nat.sub_self,
      List.replicate_zero, List.append_nil]
    by_cases hmore : 1 < host.free
    · rw [if_pos (by omega), if_pos ⟨hdest, hmore⟩, ArpFrame.encode, ← List.append_assoc]
      rfl
    · rw [if_neg (by omega), if_neg fun h => hmore h.2]
  · rw [if_neg hdest, if_neg fun h => hdest h.1]
    exact ⟨rfl, rfl⟩

/-- A reply is recorded by whoever receives it. -/
theorem receive_reply (hfree : 0 < host.free) (hop : f.packet.opcode = arpOpReply)
    (beyond : List UInt8) :
    (ethernetReceive host f.encode beyond).cache =
        (arpAddCache host.cache f.packet.sourceIP f.packet.sourceEthernet).1 ∧
      (ethernetReceive host f.encode beyond).sent = [] := by
  obtain ⟨data, hread, dataLen, hlen, hcache, hsent⟩ := receive_arp (f := f) hfree beyond
  have hopcode : htons (load16 data 20) = arpOpReply := by
    rw [hread.opcode, hop]
    decide
  have hlong : ¬dataLen.toNat < sizeofArpHeader := by
    rw [hlen]
    decide
  have hother : ¬arpOpReply = arpOpRequest := by decide
  rw [hcache, hsent, arpReceive, if_neg hlong]
  simp only [hopcode, if_neg hother, if_true, hread.sourceIP, hread.sourceEthernet, and_self]

/-- A frame of another protocol changes nothing, and neither does any frame without a buffer. -/
theorem receive_other {frame : List UInt8}
    (h : host.free = 0 ∨ htons (load16 frame 12) ≠ protoArp) (beyond : List UInt8) :
    (ethernetReceive host frame beyond).cache = host.cache ∧
      (ethernetReceive host frame beyond).sent = [] := by
  rw [ethernetReceive]
  by_cases hroom : netBufDataSize < frame.length ∨ host.free = 0
  · rw [if_pos hroom]
    exact ⟨rfl, rfl⟩
  · rw [if_neg hroom]
    have hprotocol : ¬htons (load16 (contents frame) 12) = protoArp := by
      have hread : load16 (contents frame) 12 = load16 frame 12 := by
        simp only [load16, contents_get]
      rw [hread]
      exact h.resolve_left fun hnone => hroom (.inr hnone)
    simp only [hprotocol, if_false]
    split
    · exact ⟨rfl, rfl⟩
    · exact ⟨rfl, rfl⟩

/-! ## What an event does -/

variable {s t : Lan Id}

theorem receive_step {i : Id} {frame : List UInt8} (h : frame ∈ s.wire) (beyond : List UInt8) :
    ∃ t, lanStep s (.receive i frame beyond) = some t := by
  rw [lanStep, if_pos h]
  exact ⟨_, rfl⟩

/-- A frame that is sent at the receipt of another one is on the wire. -/
theorem receive_sends {i : Id} {frame beyond sent : List UInt8}
    (hstep : lanStep s (.receive i frame beyond) = some t)
    (hsent : sent ∈ (ethernetReceive (s.hosts i) frame beyond).sent) : sent ∈ t.wire := by
  rw [lanStep] at hstep
  split at hstep
  · cases hstep
    exact List.mem_append_right _ hsent
  · cases hstep

/-- The ARP table of the host that receives a frame. -/
theorem receive_cache {i : Id} {frame beyond : List UInt8}
    (hstep : lanStep s (.receive i frame beyond) = some t) :
    (t.hosts i).cache = (ethernetReceive (s.hosts i) frame beyond).cache := by
  rw [lanStep] at hstep
  split at hstep
  · cases hstep
    show (Function.update s.hosts i _ i).cache = _
    rw [Function.update_self]
  · cases hstep

theorem receive_wire {i : Id} {frame beyond : List UInt8}
    (hstep : lanStep s (.receive i frame beyond) = some t) : frame ∈ s.wire := by
  rw [lanStep] at hstep
  split at hstep
  · next hframe => exact hframe
  · cases hstep

/-- The other hosts do not notice. -/
theorem receive_others {i j : Id} {frame beyond : List UInt8} (hj : i ≠ j)
    (hstep : lanStep s (.receive j frame beyond) = some t) : t.hosts i = s.hosts i := by
  rw [lanStep] at hstep
  split at hstep
  · cases hstep
    exact Function.update_of_ne hj _ _
  · cases hstep

/-! ## What holds of every run -/

/-- The frame was sent by a host of the network, for itself. -/
def Genuine (s₀ : Lan Id) (f : ArpFrame) : Prop :=
  (f.packet.opcode = arpOpRequest ∨ f.packet.opcode = arpOpReply) ∧
    ∃ i, f.packet.sourceIP = (s₀.hosts i).networkAddress ∧
      f.packet.sourceEthernet = (s₀.hosts i).ethernetAddress

/-- The calls have added nothing but addresses of the network. -/
def Truthful (s₀ : Lan Id) (past : List ArpCall) : Prop :=
  ∀ ip mac, .add ip mac ∈ past →
    ∃ i, (s₀.hosts i).networkAddress = ip ∧ (s₀.hosts i).ethernetAddress = mac

/-- No host changes its addresses, each packet tells those of its sender, and these are all that the
ARP tables hold. -/
structure LanInv (s₀ s : Lan Id) : Prop where
  ethernet : ∀ i, (s.hosts i).ethernetAddress = (s₀.hosts i).ethernetAddress
  network : ∀ i, (s.hosts i).networkAddress = (s₀.hosts i).networkAddress
  wire : ∀ frame ∈ s.wire, htons (load16 frame 12) = protoArp →
    ∃ f, Genuine s₀ f ∧ frame = ArpFrame.encode f
  cache : ∀ i, ∃ past, (s.hosts i).cache = tableAfter past ∧ Truthful s₀ past

variable {s₀ : Lan Id}

omit [DecidableEq Id] in
theorem Lan.Initial.inv (h : s₀.Initial) : LanInv s₀ s₀ := by
  refine ⟨fun _ => rfl, fun _ => rfl, ?_, fun i => ⟨[], h.cache i, ?_⟩⟩
  · intro frame hframe
    rw [h.wire] at hframe
    cases hframe
  · intro ip mac hadd
    cases hadd

omit [DecidableEq Id] in
/-- What a host makes of a frame on the wire: it sends genuine frames, and adds what one told. -/
theorem LanInv.receive (h : LanInv s₀ s) (i : Id) {frame : List UInt8} (hframe : frame ∈ s.wire)
    (beyond : List UInt8) :
    (∀ sent ∈ (ethernetReceive (s.hosts i) frame beyond).sent,
      ∃ f, Genuine s₀ f ∧ sent = ArpFrame.encode f) ∧
    ∃ past, (ethernetReceive (s.hosts i) frame beyond).cache = tableAfter past ∧
      Truthful s₀ past := by
  by_cases hother : (s.hosts i).free = 0 ∨ htons (load16 frame 12) ≠ protoArp
  · obtain ⟨hcache, hsent⟩ := receive_other hother beyond
    rw [hcache, hsent]
    exact ⟨fun sent hsent => absurd hsent List.not_mem_nil, h.cache i⟩
  · rw [not_or, not_not] at hother
    have hfree := Nat.pos_of_ne_zero hother.1
    obtain ⟨f, ⟨hop, j, hip, hmac⟩, rfl⟩ := h.wire frame hframe hother.2
    obtain hop | hop := hop
    · obtain ⟨hcache, hsent⟩ := receive_request hfree hop beyond
      rw [hcache, hsent]
      refine ⟨fun sent hmem => ?_, h.cache i⟩
      split at hmem
      · refine ⟨_, ⟨.inr rfl, i, h.network i, h.ethernet i⟩, List.mem_singleton.mp hmem⟩
      · cases hmem
    · obtain ⟨hcache, hsent⟩ := receive_reply hfree hop beyond
      obtain ⟨past, hpast, htrue⟩ := h.cache i
      rw [hcache, hsent, hpast]
      refine ⟨fun sent hsent => absurd hsent List.not_mem_nil,
        .add f.packet.sourceIP f.packet.sourceEthernet :: past, rfl, ?_⟩
      intro ip mac hadd
      obtain hnew | hold := List.mem_cons.mp hadd
      · cases hnew
        exact ⟨j, hip.symm, hmac.symm⟩
      · exact htrue ip mac hold

/-- A host with the same addresses and a truthful table. -/
theorem LanInv.set_host (h : LanInv s₀ s) {i : Id} {host : Host}
    (hethernet : host.ethernetAddress = (s.hosts i).ethernetAddress)
    (hnetwork : host.networkAddress = (s.hosts i).networkAddress)
    (hcache : ∃ past, host.cache = tableAfter past ∧ Truthful s₀ past) :
    LanInv s₀ (s.setHost i host) := by
  refine ⟨fun j => ?_, fun j => ?_, h.wire, fun j => ?_⟩
  all_goals
    rw [Lan.setHost]
    dsimp only
    by_cases hj : j = i
    · rw [hj, Function.update_self]
      first
        | exact hethernet.trans (h.ethernet i)
        | exact hnetwork.trans (h.network i)
        | exact hcache
    · rw [Function.update_of_ne hj]
      first
        | exact h.ethernet j
        | exact h.network j
        | exact h.cache j

omit [DecidableEq Id] in
theorem LanInv.send (h : LanInv s₀ s) {frames : List (List UInt8)}
    (hframes : ∀ frame ∈ frames, htons (load16 frame 12) = protoArp →
      ∃ f, Genuine s₀ f ∧ frame = ArpFrame.encode f) : LanInv s₀ (s.send frames) := by
  refine ⟨h.ethernet, h.network, fun frame hframe => ?_, h.cache⟩
  obtain hold | hnew := List.mem_append.mp hframe
  · exact h.wire frame hold
  · exact hframes frame hnew

theorem LanInv.step (h : LanInv s₀ s) {event : LanEvent Id} (hstep : lanStep s event = some t) :
    LanInv s₀ t := by
  cases event with
  | request i ip =>
      cases hstep
      refine h.send fun frame hframe _ => ?_
      rw [arp_request_sent] at hframe
      split at hframe
      · exact ⟨_, ⟨.inl rfl, i, h.network i, h.ethernet i⟩, List.mem_singleton.mp hframe⟩
      · cases hframe
  | receive i frame beyond =>
      rw [lanStep] at hstep
      split at hstep
      · next hframe =>
          cases hstep
          obtain ⟨hsent, hcache⟩ := h.receive i hframe beyond
          refine LanInv.send (h.set_host ?_ ?_ ?_) fun frame hmem _ => hsent frame hmem
          · rfl
          · rfl
          · exact hcache
      · cases hstep
  | other frame =>
      rw [lanStep] at hstep
      split at hstep
      · cases hstep
      · next hother =>
          cases hstep
          refine h.send fun frame' hframe hprotocol => ?_
          rw [List.mem_singleton.mp hframe] at hprotocol
          exact absurd hprotocol hother
  | buffers i free =>
      cases hstep
      refine h.set_host ?_ ?_ ?_
      · rfl
      · rfl
      · exact h.cache i

theorem LanInv.run (h : LanInv s₀ s) {events : List (LanEvent Id)}
    (hrun : Run (stepOf lanStep) anyLabel s events t) : LanInv s₀ t :=
  hrun.invariant (fun _ _ _ hinv _ hnext => LanInv.step hinv hnext) h

/-! ## Agreement -/

theorem recorded_add {past : List ArpCall} {ip : UInt32} {mac : EthernetAddress}
    (h : mac ∈ recorded ip past) : .add ip mac ∈ past := by
  induction past with
  | nil => cases h
  | cons call past ih =>
      cases call with
      | lookup ip' mac' => exact List.mem_cons_of_mem _ (ih h)
      | add ip' mac' =>
          rw [recorded] at h
          split at h
          · next hsame =>
              obtain rfl | hold := List.mem_cons.mp h
              · rw [hsame.1]
                exact List.mem_cons_self
              · exact List.mem_cons_of_mem _ (ih hold)
          · exact List.mem_cons_of_mem _ (ih h)

/-- A lookup that succeeds gives what was recorded first. -/
theorem lookup_found {past : List ArpCall} {ip : UInt32} (hip : ip ≠ 0)
    {mac m : EthernetAddress} :
    arpLookupCache (tableAfter past) ip mac = (m, 1) ↔ (recorded ip past).getLast? = some m := by
  rw [lookup_kept hip]
  cases (recorded ip past).getLast? with
  | none => simp
  | some first => simp

omit [DecidableEq Id] in
theorem LanInv.agrees (h : LanInv s₀ s) {i : Id} {ip : UInt32} {mac m : EthernetAddress}
    (hip : ip ≠ 0) (hfound : arpLookupCache (s.hosts i).cache ip mac = (m, 1)) :
    ∃ j, (s₀.hosts j).networkAddress = ip ∧ (s₀.hosts j).ethernetAddress = m := by
  obtain ⟨past, hpast, htrue⟩ := h.cache i
  rw [hpast, lookup_found hip] at hfound
  exact htrue ip m (recorded_add (List.mem_of_getLast? hfound))

/-- Two hosts that have just been started. -/
def twoHosts : Lan (Fin 2) where
  hosts i :=
    if i = 0 then ⟨#v[2, 0, 0, 0, 0, 1], 1, 2, initArp⟩ else ⟨#v[2, 0, 0, 0, 0, 2], 2, 2, initArp⟩
  wire := []

theorem two_hosts_initial : twoHosts.Initial := by
  refine ⟨fun i => ?_, rfl⟩
  rw [twoHosts]
  dsimp only
  split <;> rfl

/-- From here on the frame can be received at any time. -/
def Lan.Sends (s : Lan Id) (frame : List UInt8) : Prop :=
  ∀ events t, Run (stepOf lanStep) anyLabel s events t → frame ∈ t.wire

/-- From here on the host finds this MAC for the address. -/
def Lan.Knows (s : Lan Id) (i : Id) (ip : UInt32) (m : EthernetAddress) : Prop :=
  ∀ events t mac, Run (stepOf lanStep) anyLabel s events t →
    arpLookupCache (t.hosts i).cache ip mac = (m, 1)

/-- Host `a` asks for the address of host `b`, which answers if it gets the request and has net
buffers, and the answer tells `a` the MAC for good if `a` has room for it. -/
structure Resolves (s₀ : Lan Id) (a b : Id) : Prop where
  asked : ∀ events s t, Run (stepOf lanStep) anyLabel s₀ events s → 1 < (s.hosts a).free →
    lanStep s (.request a (s₀.hosts b).networkAddress) = some t →
      t.Sends (requestFrame (s₀.hosts a) (s₀.hosts b).networkAddress).encode
  answered : ∀ events s t beyond, Run (stepOf lanStep) anyLabel s₀ events s →
    1 < (s.hosts b).free →
    lanStep s (.receive b (requestFrame (s₀.hosts a) (s₀.hosts b).networkAddress).encode beyond) =
      some t →
      t.Sends (replyFrame (s₀.hosts b)
        (requestFrame (s₀.hosts a) (s₀.hosts b).networkAddress)).encode
  learnt : ∀ events s t beyond, Run (stepOf lanStep) anyLabel s₀ events s →
    0 < (s.hosts a).free → ¬Evicted (s.hosts a).cache (s₀.hosts b).networkAddress →
    lanStep s (.receive a (replyFrame (s₀.hosts b)
      (requestFrame (s₀.hosts a) (s₀.hosts b).networkAddress)).encode beyond) = some t →
      t.Knows a (s₀.hosts b).networkAddress (s₀.hosts b).ethernetAddress

theorem wire_kept {frame : List UInt8} (h : frame ∈ s.wire) {event : LanEvent Id}
    (hstep : lanStep s event = some t) : frame ∈ t.wire := by
  cases event with
  | request i ip =>
      cases hstep
      exact List.mem_append_left _ h
  | receive i frame' beyond =>
      rw [lanStep] at hstep
      split at hstep
      · cases hstep
        exact List.mem_append_left _ h
      · cases hstep
  | other frame' =>
      rw [lanStep] at hstep
      split at hstep
      · cases hstep
      · cases hstep
        exact List.mem_append_left _ h
  | buffers i free =>
      cases hstep
      exact h

theorem sends_of_mem {frame : List UInt8} (h : frame ∈ s.wire) : s.Sends frame :=
  fun _ _ hrun => hrun.invariant (fun _ _ _ hmem _ hnext => wire_kept hmem hnext) h

/-- An address that a table has is not overwritten. -/
theorem add_keeps {past : List ArpCall} {ip : UInt32} {m : EthernetAddress}
    (h : (recorded ip past).getLast? = some m) (ip' : UInt32) (mac : EthernetAddress) :
    (recorded ip (.add ip' mac :: past)).getLast? = some m := by
  rw [recorded]
  split
  · rw [List.getLast?_cons, h]
    rfl
  · exact h

/-- An event keeps what a host has found. -/
theorem found_kept (hinv : LanInv s₀ s) {i : Id} {ip : UInt32} {m : EthernetAddress} (hip : ip ≠ 0)
    (h : ∀ mac, arpLookupCache (s.hosts i).cache ip mac = (m, 1)) {event : LanEvent Id}
    (hstep : lanStep s event = some t) (mac : EthernetAddress) :
    arpLookupCache (t.hosts i).cache ip mac = (m, 1) := by
  cases event with
  | request j ip' =>
      cases hstep
      exact h mac
  | other frame =>
      rw [lanStep] at hstep
      split at hstep
      · cases hstep
      · cases hstep
        exact h mac
  | buffers j free =>
      cases hstep
      show arpLookupCache (Function.update s.hosts j _ i).cache ip mac = (m, 1)
      by_cases hj : i = j
      · rw [hj, Function.update_self, ← hj]
        exact h mac
      · rw [Function.update_of_ne hj]
        exact h mac
  | receive j frame beyond =>
      by_cases hj : i = j
      · subst hj
        rw [receive_cache hstep]
        by_cases hother : (s.hosts i).free = 0 ∨ htons (load16 frame 12) ≠ protoArp
        · rw [(receive_other hother beyond).1]
          exact h mac
        · rw [not_or, not_not] at hother
          have hfree := Nat.pos_of_ne_zero hother.1
          obtain ⟨f, ⟨hop, -⟩, rfl⟩ := hinv.wire frame (receive_wire hstep) hother.2
          obtain hop | hop := hop
          · rw [(receive_request hfree hop beyond).1]
            exact h mac
          · obtain ⟨past, hpast, -⟩ := hinv.cache i
            have hfound := h mac
            rw [hpast, lookup_found hip] at hfound
            rw [(receive_reply hfree hop beyond).1, hpast]
            exact (lookup_found hip).mpr (add_keeps hfound _ _)
      · rw [receive_others hj hstep]
        exact h mac

theorem knows_of_found (hinv : LanInv s₀ s) {i : Id} {ip : UInt32} {m : EthernetAddress}
    (hip : ip ≠ 0) (h : ∀ mac, arpLookupCache (s.hosts i).cache ip mac = (m, 1)) :
    s.Knows i ip m := by
  intro events t mac hrun
  have hboth : LanInv s₀ t ∧ ∀ mac, arpLookupCache (t.hosts i).cache ip mac = (m, 1) := by
    refine @Run.invariant _ _ _ _ (fun s => LanInv s₀ s ∧
      ∀ mac, arpLookupCache (s.hosts i).cache ip mac = (m, 1)) ?_ _ _ _ hrun ⟨hinv, h⟩
    intro s event t hs _ hnext
    exact ⟨LanInv.step hs.1 hnext, found_kept hs.1 hip hs.2 hnext⟩
  exact hboth.2 mac

/-- A table with room for the address has it behind the call that adds it. -/
theorem added_found {past : List ArpCall} {ip : UInt32} (hip : ip ≠ 0) (m : EthernetAddress)
    (hroom : ¬Evicted (tableAfter past) ip) :
    ∃ first, (recorded ip (.add ip m :: past)).getLast? = some first := by
  rw [recorded]
  split
  · exact ⟨_, List.getLast?_cons⟩
  · next hfull =>
      rw [not_and, Nat.not_lt] at hfull
      have hlength := length_kept past
      have hused := hfull rfl
      -- The table is full, so the address is in one of its slots.
      rw [Evicted, table_eq, layout_full _ (by omega)] at hroom
      push Not at hroom
      obtain ⟨c, hc, hsome⟩ := hroom
      have hsame : c.ipAddress = ip := by
        by_contra hne
        exact kept_ne_zero hc (hsome hne)
      rw [← find_kept hip]
      cases hfind : (kept past).find? fun c => c.ipAddress = ip with
      | some found => exact ⟨_, rfl⟩
      | none =>
          have hnone := List.find?_eq_none.mp hfind c hc
          rw [hsame] at hnone
          exact absurd (decide_eq_true rfl) hnone

end XBook.Ethernet
