import Nblex.Input.Frames
import Nblex.Input.Proofs.PacketBounds

/-!
# Frames dissected

The bytes of a frame that are captured are those the dissectors read, header by header. So the data
of a packet are the fields of the frame whose bytes it begins with, whatever lies behind what is
captured, if the headers are captured whole or the IP header is cut off before its fixed part ends.
-/

namespace Nblex

/-- Set entries that have a value, one after the other. -/
def Json.setEach (obj : Json) (entries : List (String × Json)) : Json :=
  entries.foldl (fun obj entry => obj.set entry.1 (some entry.2)) obj

theorem Json.setEach_object (fields entries : List (String × Json)) :
    (Json.object fields).setEach entries = .object (Json.setAll entries fields) := by
  induction entries generalizing fields with
  | nil => rfl
  | cons entry entries ih => exact ih (setField fields entry.1 entry.2)

theorem Json.setEach_append (obj : Json) (first later : List (String × Json)) :
    obj.setEach (first ++ later) = (obj.setEach first).setEach later := List.foldl_append

/-- What holds of the parts and of what is between them holds of the whole. -/
theorem forall_mem_intersperse {α : Type} {P : α → Prop} {sep : List α}
    (between : ∀ x ∈ sep, P x) {parts : List (List α)} (each : ∀ part ∈ parts, ∀ x ∈ part, P x) :
    ∀ x ∈ (parts.intersperse sep).flatten, P x := by
  induction parts with
  | nil => exact fun _ => List.not_mem_nil.elim
  | cons first parts ih =>
      have later := ih fun part member => each part (List.mem_cons_of_mem _ member)
      have here := each first List.mem_cons_self
      cases parts with
      | nil =>
          intro x member
          exact here x (List.append_nil first ▸ member)
      | cons second parts =>
          rw [List.intersperse_cons_cons, List.flatten_cons, List.flatten_cons]
          exact List.forall_mem_append.mpr ⟨here, List.forall_mem_append.mpr ⟨between, later⟩⟩

namespace Frames

section Values

variable {packet : Nat → UInt8}

theorem ntohsAt_bigEndian16 {offset value : Nat}
    (lies : BytesAt packet offset (bigEndian16 value)) :
    (ntohsAt packet offset).value = value % 65536 := by
  rw [← bigEndian16_mod] at lies
  obtain ⟨high, low, -⟩ := lies
  show (packet offset).toNat <<< 8 ||| (packet (offset + 1)).toNat = _
  rw [high, low]
  exact bigEndian16_value (Nat.mod_lt _ (by decide))

theorem ntohsAt_value {offset : Nat} {value : UInt16}
    (lies : BytesAt packet offset (bigEndian16 value.toNat)) :
    (ntohsAt packet offset).value = value.toNat := by
  rw [ntohsAt_bigEndian16 lies, Nat.mod_eq_of_lt value.toNat_lt]

theorem ntohlAt_value {offset : Nat} {value : UInt32}
    (lies : BytesAt packet offset (bigEndian32 value.toNat)) :
    (ntohlAt packet offset).value = value.toNat := by
  have bound : value.toNat < 2 ^ 32 := value.toNat_lt
  have bits : value.toNat % 65536 < 2 ^ 16 := Nat.mod_lt _ (by decide)
  obtain ⟨high, low⟩ := bytesAt_append.mp lies
  have lowHalf : (ntohsAt packet (offset + 2)).value = _ := ntohsAt_bigEndian16 low
  show (ntohsAt packet offset).value <<< 16 ||| (ntohsAt packet (offset + 2)).value = _
  rw [ntohsAt_bigEndian16 high, lowHalf, ← Nat.shiftLeft_add_eq_or_of_lt bits,
    Nat.shiftLeft_eq]
  omega

theorem readBytes_value {bytes : List UInt8} : ∀ {offset : Nat}, BytesAt packet offset bytes →
    (readBytes packet offset bytes.length).value = bytes := by
  induction bytes with
  | nil => exact fun _ => rfl
  | cons first rest ih =>
      rintro offset ⟨here, later⟩
      show packet offset :: (readBytes packet (offset + 1) rest.length).value = _
      rw [here, ih later]

/-- A flag is its bit of the byte. -/
theorem tcpFlag_byte (flags : TcpFlags) :
    tcpFlag flags.byte 0x01 = some (.bool flags.fin) ∧
      tcpFlag flags.byte 0x02 = some (.bool flags.syn) ∧
      tcpFlag flags.byte 0x04 = some (.bool flags.rst) ∧
      tcpFlag flags.byte 0x08 = some (.bool flags.psh) ∧
      tcpFlag flags.byte 0x10 = some (.bool flags.ack) ∧
      tcpFlag flags.byte 0x20 = some (.bool flags.urg) ∧
      tcpFlag flags.byte 0x40 = some (.bool flags.ece) ∧
      tcpFlag flags.byte 0x80 = some (.bool flags.cwr) := by
  obtain ⟨fin, syn, rst, psh, ack, urg, ece, cwr⟩ := flags
  revert fin syn rst psh ack urg ece cwr
  simp only [tcpFlag, Option.some.injEq, Json.bool.injEq, TcpFlags.byte]
  decide

/-! ## Transport headers -/

theorem dissectTcp_value {offset : Nat} {header : TcpHeader}
    (lies : BytesAt packet offset header.encode) (event : Json) :
    (dissectTcp packet offset event).value = event.setEach header.fields := by
  simp only [TcpHeader.encode, bytesAt_append, List.length_append, bigEndian16_length,
    bigEndian32_length, List.length_cons, List.length_nil] at lies
  obtain ⟨⟨⟨⟨⟨⟨⟨srcPort, dstPort⟩, seq⟩, ack⟩, _, flags, -⟩, window⟩, checksum⟩, urgent⟩ := lies
  obtain ⟨fin, syn, rst, psh, ackFlag, urg, ece, cwr⟩ := tcpFlag_byte header.flags
  have flagByte : (byteAt packet (offset + 13)).value = header.flags.byte := flags
  simp only [dissectTcp, Recorded.value_bind, Recorded.value_pure, ntohsAt_value srcPort,
    ntohsAt_value dstPort, ntohlAt_value seq, ntohlAt_value ack, flagByte, ntohsAt_value window,
    ntohsAt_value checksum, ntohsAt_value urgent, fin, syn, rst, psh, ackFlag, urg, ece, cwr]
  rfl

theorem dissectUdp_value {offset : Nat} {header : UdpHeader}
    (lies : BytesAt packet offset header.encode) (event : Json) :
    (dissectUdp packet offset event).value = event.setEach header.fields := by
  simp only [UdpHeader.encode, bytesAt_append, List.length_append, bigEndian16_length] at lies
  obtain ⟨⟨⟨srcPort, dstPort⟩, length⟩, checksum⟩ := lies
  simp only [dissectUdp, Recorded.value_bind, Recorded.value_pure, ntohsAt_value srcPort,
    ntohsAt_value dstPort, ntohsAt_value length, ntohsAt_value checksum]
  rfl

theorem dissectIcmp_value {offset : Nat} {header : IcmpHeader}
    (lies : BytesAt packet offset header.encode) (event : Json) :
    (dissectIcmp packet offset event).value = event.setEach header.fields := by
  obtain ⟨⟨type, code, -⟩, checksum⟩ := bytesAt_append.mp lies
  have typeByte : (byteAt packet offset).value = header.type := type
  have codeByte : (byteAt packet (offset + 1)).value = header.code := code
  have sum : (ntohsAt packet (offset + 2)).value = header.checksum.toNat := ntohsAt_value checksum
  simp only [dissectIcmp, Recorded.value_bind, Recorded.value_pure, typeByte, codeByte, sum]
  rfl

theorem Transport.protocol_other {protocol : UInt8}
    (unknown : protocol ≠ 6 ∧ protocol ≠ 17 ∧ protocol ≠ 1) :
    protocol.toNat ≠ 6 ∧ protocol.toNat ≠ 17 ∧ protocol.toNat ≠ 1 :=
  ⟨fun same => unknown.1 (UInt8.toNat_inj.mp same),
    fun same => unknown.2.1 (UInt8.toNat_inj.mp same),
    fun same => unknown.2.2 (UInt8.toNat_inj.mp same)⟩

theorem dissectTransport_value {offset remaining : Nat} {transport : Transport}
    (lies : transport.needed ≤ remaining → BytesAt packet offset transport.encode) (event : Json) :
    (dissectTransport packet offset remaining transport.protocol.toNat event).value =
      event.setEach (if transport.needed ≤ remaining then transport.fields else []) := by
  cases transport with
  | tcp header =>
      show (if tcphdrSize ≤ remaining then _ else _ : Recorded PacketUse Json).value =
        event.setEach (if tcphdrSize ≤ remaining then _ else _)
      by_cases enough : tcphdrSize ≤ remaining
      · rw [if_pos enough, if_pos enough]
        exact dissectTcp_value (lies enough) event
      · rw [if_neg enough, if_neg enough]
        rfl
  | udp header =>
      show (if udphdrSize ≤ remaining then _ else _ : Recorded PacketUse Json).value =
        event.setEach (if udphdrSize ≤ remaining then _ else _)
      by_cases enough : udphdrSize ≤ remaining
      · rw [if_pos enough, if_pos enough]
        exact dissectUdp_value (lies enough) event
      · rw [if_neg enough, if_neg enough]
        rfl
  | icmp header =>
      show (if icmpSize ≤ remaining then _ else _ : Recorded PacketUse Json).value =
        event.setEach (if icmpSize ≤ remaining then _ else _)
      by_cases enough : icmpSize ≤ remaining
      · rw [if_pos enough, if_pos enough]
        exact dissectIcmp_value (lies enough) event
      · rw [if_neg enough, if_neg enough]
        rfl
  | other protocol unknown =>
      obtain ⟨notTcp, notUdp, notIcmp⟩ := Transport.protocol_other unknown
      show (dissectTransport packet offset remaining protocol.toNat event).value = _
      rw [dissectTransport, if_neg notTcp, if_neg notUdp, if_neg notIcmp]
      show event = event.setEach (if _ then [] else [])
      rw [ite_self]
      rfl

/-- What has to be captured for a transport header to be described includes the header. -/
theorem Transport.encode_length (transport : Transport) :
    transport.encode.length ≤ transport.needed := by
  cases transport with
  | tcp header => exact le_refl 20
  | udp header => exact le_refl 8
  | icmp header => exact (by decide : 4 ≤ 28)
  | other protocol unknown => exact le_refl 0

/-! ## IP packets -/

theorem Ipv4Packet.encodeHeader_length (ip : Ipv4Packet) :
    ip.encodeHeader.length = ip.headerLen := by
  have src := ip.src.four
  have dst := ip.dst.four
  simp only [Ipv4Packet.encodeHeader, List.length_append, bigEndian16_length, List.length_cons,
    List.length_nil, src, dst, Ipv4Packet.headerLen, ipSize]

theorem Ipv4Packet.firstByte_parts (ip : Ipv4Packet) :
    ipHeaderLen ip.firstByte = ip.headerLen ∧ ip.firstByte.toNat >>> 4 = 4 := by
  have aligned := ip.aligned
  have few := ip.fewOptions
  have size : ip.headerLen = 20 + ip.options.length := rfl
  have words : ∀ k < 16, ((4 * 16 + k) &&& 0xF) = k ∧ (4 * 16 + k) >>> 4 = 4 := by decide
  obtain ⟨low, high⟩ := words (ip.headerLen / 4) (by omega)
  have byte : ip.firstByte.toNat = 4 * 16 + ip.headerLen / 4 := by
    rw [Ipv4Packet.firstByte, UInt8.toNat_ofNat']
    omega
  rw [ipHeaderLen, byte, low, high]
  exact ⟨by omega, rfl⟩

variable [Jansson] [Inet]

omit [Jansson] [Inet] in
/-- The bytes of the header that are read. -/
theorem Ipv4Packet.reads {offset : Nat} {ip : Ipv4Packet}
    (lies : BytesAt packet offset ip.encodeHeader) :
    (readBytes packet (offset + 12) 4).value = ip.src.bytes ∧
      (readBytes packet (offset + 16) 4).value = ip.dst.bytes ∧
      (byteAt packet offset).value = ip.firstByte ∧
      (byteAt packet (offset + 9)).value = ip.transport.protocol ∧
      (byteAt packet (offset + 8)).value = ip.ttl ∧
      (ntohsAt packet (offset + 2)).value = ip.length.toNat := by
  have srcFour := ip.src.four
  have dstFour := ip.dst.four
  simp only [Ipv4Packet.encodeHeader, bytesAt_append, List.length_append, bigEndian16_length,
    List.length_cons, List.length_nil, srcFour] at lies
  obtain ⟨⟨⟨⟨⟨⟨⟨⟨⟨first, _⟩, length⟩, _⟩, _⟩, ttl, protocol, -⟩, _⟩, src⟩, dst⟩, _⟩ := lies
  refine ⟨?_, ?_, first, protocol, ttl, ntohsAt_value length⟩
  · rw [← srcFour]
    exact readBytes_value src
  · rw [← dstFour]
    exact readBytes_value dst

omit [Jansson] [Inet] in
theorem Ipv4Packet.header_lies {offset : Nat} {ip : Ipv4Packet} {captured padding : List UInt8}
    (lies : BytesAt packet offset captured) (isPrefix : captured <+: ip.encode ++ padding)
    (whole : ip.headerLen ≤ captured.length) : BytesAt packet offset ip.encodeHeader := by
  have split : ip.encode ++ padding =
      [] ++ ip.encodeHeader ++ (ip.transport.encode ++ (ip.payload ++ padding)) := by
    simp only [Ipv4Packet.encode, List.nil_append, List.append_assoc]
  refine lies.part isPrefix split ?_
  rw [ip.encodeHeader_length]
  exact (Nat.zero_add _).trans_le whole

omit [Jansson] in
/-- The texts of `inet_ntop` are ASCII. -/
def InetAscii : Prop := ∀ bytes, ∀ c ∈ Inet.ntop4 bytes, c.toNat < 128

theorem dissectIp_value (ascii : Jansson.TakesAscii) (inet : InetAscii) {offset : Nat}
    {ip : Ipv4Packet} {captured padding : List UInt8} (lies : BytesAt packet offset captured)
    (isPrefix : captured <+: ip.encode ++ padding) (whole : ip.headerLen ≤ captured.length)
    (event : Json) :
    (dissectIp packet offset captured.length event).value =
      event.setEach (ip.fields captured.length) := by
  have fixed : ipSize ≤ captured.length := le_trans (Nat.le_add_right _ _) whole
  have atTransport : ip.encode ++ padding =
      ip.encodeHeader ++ ip.transport.encode ++ (ip.payload ++ padding) := by
    simp only [Ipv4Packet.encode, List.append_assoc]
  have transport : ip.transport.needed ≤ captured.length - ip.headerLen →
      BytesAt packet (offset + ip.headerLen) ip.transport.encode := by
    intro enough
    rw [← ip.encodeHeader_length]
    refine lies.part isPrefix atTransport ?_
    have short := ip.transport.encode_length
    rw [ip.encodeHeader_length]
    omega
  obtain ⟨src, dst, first, protocol, ttl, length⟩ :=
    Ipv4Packet.reads (Ipv4Packet.header_lies lies isPrefix whole)
  obtain ⟨headerLen, version⟩ := ip.firstByte_parts
  have remains : (takeLength captured.length ip.headerLen).value =
      captured.length - ip.headerLen := u64Sub_of_le whole
  rw [Ipv4Packet.fields, if_pos fixed, Json.setEach_append]
  simp only [dissectIp, Recorded.value_bind, src, dst, first, protocol, ttl, length, headerLen,
    version, remains]
  rw [dissectTransport_value transport, jsonString_ascii ascii (inet _),
    jsonString_ascii ascii (inet _)]
  rfl

/-! ## Frames -/

omit [Jansson] [Inet] in
theorem macText_ascii (bytes : List UInt8) : ∀ c ∈ macText bytes, c.toNat < 128 := by
  have digit : ∀ n < 16, (Nat.digitChar n).toNat < 128 := by decide
  refine forall_mem_intersperse (fun c colon => ?_) fun part isPart => ?_
  · rw [List.mem_singleton.mp colon]
    decide
  · obtain ⟨b, -, rfl⟩ := List.mem_map.mp isPart
    have bound : b.toNat < 256 := b.toNat_lt
    intro c member
    rcases List.mem_pair.mp member with rfl | rfl
    · exact digit _ (by omega)
    · exact digit _ (by omega)

omit [Jansson] [Inet] in
theorem Frame.encodeHeader_length (frame : Frame) :
    frame.encodeHeader.length = etherHeaderSize := by
  have dst := frame.dst.six
  have src := frame.src.six
  simp only [Frame.encodeHeader, List.length_append, bigEndian16_length, dst, src, etherHeaderSize]

omit [Jansson] [Inet] in
/-- The Ethernet header that is read. -/
theorem Frame.reads {frame : Frame} (lies : BytesAt packet 0 frame.encodeHeader) :
    (readBytes packet 0 6).value = frame.dst.bytes ∧
      (readBytes packet 6 6).value = frame.src.bytes ∧
      (ntohsAt packet 12).value = frame.network.type.toNat := by
  have dstSix := frame.dst.six
  have srcSix := frame.src.six
  simp only [Frame.encodeHeader, bytesAt_append, List.length_append, dstSix, srcSix] at lies
  obtain ⟨⟨dst, src⟩, type⟩ := lies
  refine ⟨?_, ?_, ntohsAt_value type⟩
  · have all := readBytes_value dst
    rwa [dstSix] at all
  · have all := readBytes_value src
    rwa [srcSix] at all

omit [Jansson] [Inet] in
/-- What is captured is the Ethernet header and a first part of what the frame holds. -/
theorem Frame.captured_split {frame : Frame} {captured padding : List UInt8}
    (lies : BytesAt packet 0 captured) (isPrefix : captured <+: frame.encode ++ padding)
    (whole : etherHeaderSize ≤ captured.length) :
    BytesAt packet 0 frame.encodeHeader ∧
      ∃ rest, captured.length = etherHeaderSize + rest.length ∧
        BytesAt packet etherHeaderSize rest ∧ rest <+: frame.network.encode ++ padding := by
  rw [Frame.encode, List.append_assoc] at isPrefix
  obtain ⟨rest, rfl⟩ := List.prefix_of_prefix_length_le (List.prefix_append _ _) isPrefix
    (frame.encodeHeader_length.trans_le whole)
  obtain ⟨header, behind⟩ := bytesAt_append.mp lies
  rw [frame.encodeHeader_length, Nat.zero_add] at behind
  refine ⟨header, rest, ?_, behind, (List.prefix_append_right_inj _).mp isPrefix⟩
  rw [List.length_append, frame.encodeHeader_length]

/-- The Ethernet header and what is in it. -/
theorem dissectEthernet_value (ascii : Jansson.TakesAscii) (inet : InetAscii) {frame : Frame}
    {captured padding : List UInt8} (lies : BytesAt packet 0 captured)
    (isPrefix : captured <+: frame.encode ++ padding) (headers : frame.HeadersIn captured.length)
    (event : Json) :
    (dissectEthernet packet captured.length event).value =
      event.setEach (frame.fields captured.length) := by
  obtain ⟨whole, inner⟩ := headers
  obtain ⟨header, rest, length, behind, inFrame⟩ := Frame.captured_split lies isPrefix whole
  obtain ⟨dst, src, type⟩ := Frame.reads header
  have left : captured.length - etherHeaderSize = rest.length := by
    rw [length, Nat.add_sub_cancel_left]
  have remains : (takeLength captured.length etherHeaderSize).value = rest.length :=
    (u64Sub_of_le whole).trans left
  rw [Frame.fields, Json.setEach_append, left]
  simp only [dissectEthernet, Recorded.value_bind, dst, src, type, remains]
  rw [jsonString_ascii ascii (macText_ascii _), jsonString_ascii ascii (macText_ascii _)]
  cases held : frame.network with
  | ipv4 ip =>
      rw [held] at inner inFrame
      by_cases enough : ipSize ≤ rest.length
      · rw [if_pos ⟨rfl, enough⟩]
        refine dissectIp_value ascii inet behind inFrame ?_ _
        have fits := inner (length ▸ Nat.add_le_add_left enough _)
        exact Nat.le_of_add_le_add_left (length ▸ fits)
      · rw [if_neg fun both => enough both.2, Network.fields, Ipv4Packet.fields, if_neg enough]
        rfl
  | other number notIpv4 payload =>
      have notIp : number.toNat ≠ 0x0800 := fun same => notIpv4 (UInt16.toNat_inj.mp same)
      rw [if_neg fun both => notIp both.1]
      rfl

omit [Jansson] [Inet] in
/-- The packet says itself that its headers are captured. -/
theorem Frame.headers_bounds {frame : Frame} {captured padding : List UInt8}
    (lies : BytesAt packet 0 captured) (isPrefix : captured <+: frame.encode ++ padding)
    (headers : frame.HeadersIn captured.length) :
    etherHeaderSize ≤ captured.length ∧
      (etherType packet = 0x0800 → ipSize ≤ captured.length - etherHeaderSize →
        ipHeaderLen (packet etherHeaderSize) ≤ captured.length - etherHeaderSize) := by
  obtain ⟨whole, inner⟩ := headers
  obtain ⟨header, rest, length, behind, inFrame⟩ := Frame.captured_split lies isPrefix whole
  obtain ⟨-, -, type⟩ := Frame.reads header
  refine ⟨whole, fun isIp enough => ?_⟩
  have same : frame.network.type.toNat = 0x0800 := type.symm.trans isIp
  rw [length, Nat.add_sub_cancel_left] at enough ⊢
  cases held : frame.network with
  | ipv4 ip =>
      rw [held] at inner inFrame
      have fits := inner (length ▸ Nat.add_le_add_left enough _)
      have fits : ip.headerLen ≤ rest.length := Nat.le_of_add_le_add_left (length ▸ fits)
      obtain ⟨-, -, first, -⟩ := Ipv4Packet.reads (Ipv4Packet.header_lies behind inFrame fits)
      have first : packet etherHeaderSize = ip.firstByte := first
      rw [first, ip.firstByte_parts.1]
      exact fits
  | other number notIpv4 payload =>
      rw [held] at same
      exact absurd (UInt16.toNat_inj.mp same) notIpv4

end Values

/-! ## The keys of the fields -/

/-- The keys of the fields of a packet, those of the transport layer aside. -/
def lowerKeys : List String :=
  ["timestamp", "length", "captured_length", "interface", "ethernet_src", "ethernet_dst",
    "ethernet_type", "ip_version", "ip_src", "ip_dst", "ip_protocol", "ip_ttl", "ip_length"]

theorem lowerKeys_nodup (transport : Transport) :
    (lowerKeys ++ transport.fields.map Prod.fst).Nodup := by
  cases transport with
  | tcp header =>
      show (lowerKeys ++ ["protocol", "tcp_src_port", "tcp_dst_port", "tcp_seq", "tcp_ack",
        "tcp_flags_fin", "tcp_flags_syn", "tcp_flags_rst", "tcp_flags_psh", "tcp_flags_ack",
        "tcp_flags_urg", "tcp_flags_ece", "tcp_flags_cwr", "tcp_window", "tcp_checksum",
        "tcp_urgent"]).Nodup
      decide
  | udp header =>
      show (lowerKeys ++ ["protocol", "udp_src_port", "udp_dst_port", "udp_length",
        "udp_checksum"]).Nodup
      decide
  | icmp header =>
      show (lowerKeys ++ ["protocol", "icmp_type", "icmp_code", "icmp_checksum"]).Nodup
      decide
  | other protocol unknown =>
      show (lowerKeys ++ []).Nodup
      decide

/-- The keys of the fields that have a value. -/
theorem present_keys (fields : List (String × Option Json)) :
    ((fields.filterMap fun field => field.2.map fun value => (field.1, value)).map Prod.fst).Sublist
      (fields.map Prod.fst) := by
  induction fields with
  | nil => exact List.Sublist.slnil
  | cons field fields ih =>
      obtain ⟨key, value⟩ := field
      cases value with
      | none => exact ih.cons key
      | some value => exact ih.cons_cons key

section Data

variable [Jansson] [Inet]

/-- No two fields of a packet have one key. -/
theorem fields_nodup (interface : List Char) (header : PacketHeader) (frame : Frame)
    (captured : Nat) :
    ((infoFields interface header ++ frame.fields captured).map Prod.fst).Nodup := by
  have within : ∃ transport : Transport,
      ((frame.network.fields (captured - etherHeaderSize)).map Prod.fst).Sublist
        (["ip_version", "ip_src", "ip_dst", "ip_protocol", "ip_ttl", "ip_length"] ++
          transport.fields.map Prod.fst) := by
    cases frame.network with
    | ipv4 packet =>
        refine ⟨packet.transport, ?_⟩
        rw [Network.fields, Ipv4Packet.fields]
        split_ifs
        · rw [List.map_append]
          exact List.Sublist.refl _
        · rw [List.append_nil]
          exact List.sublist_append_left _ _
        · exact List.nil_sublist _
    | other type notIpv4 payload =>
        exact ⟨.other 0 (by decide), List.nil_sublist _⟩
  obtain ⟨transport, inside⟩ := within
  refine (lowerKeys_nodup transport).sublist ?_
  rw [List.map_append, Frame.fields, List.map_append, ← List.append_assoc]
  exact ((present_keys _).append (List.Sublist.refl _)).append inside

omit [Jansson] [Inet] in
theorem foldl_set_present (obj : Json) (fields : List (String × Option Json)) :
    fields.foldl (fun obj field => obj.set field.1 field.2) obj =
      obj.setEach (fields.filterMap fun field => field.2.map fun value => (field.1, value)) := by
  induction fields generalizing obj with
  | nil => rfl
  | cons field fields ih =>
      obtain ⟨key, value⟩ := field
      cases value with
      | none =>
          rw [List.foldl_cons, Json.set_none]
          exact ih obj
      | some value => exact ih (obj.set key (some value))

omit [Inet] in
theorem packetInfo_eq (interface : List Char) (header : PacketHeader) :
    packetInfo interface header = .object (infoFields interface header) := by
  have keys : (["timestamp", "length", "captured_length", "interface"] : List String).Nodup := by
    decide
  have distinct : ((infoFields interface header).map Prod.fst).Nodup :=
    keys.sublist (present_keys _)
  refine (foldl_set_present (.object []) (infoValues interface header)).trans ?_
  rw [← infoFields, Json.setEach_object]
  exact congrArg Json.object (Json.setAll_fresh distinct)

theorem packetData_fields (ascii : Jansson.TakesAscii) (inet : InetAscii) {packet : Nat → UInt8}
    {frame : Frame} {captured padding : List UInt8} (lies : BytesAt packet 0 captured)
    (isPrefix : captured <+: frame.encode ++ padding) (headers : frame.HeadersIn captured.length)
    (interface : List Char) {header : PacketHeader} (length : header.caplen = captured.length) :
    (packetData packet interface dltEn10mb header).value =
      .object (infoFields interface header ++ frame.fields captured.length) := by
  rw [packetData, if_pos rfl, length, dissectEthernet_value ascii inet lies isPrefix headers,
    packetInfo_eq, Json.setEach_object]
  exact congrArg Json.object (Json.setAll_fresh (fields_nodup interface header frame _))

/-- A packet whose captured bytes are the first ones of a frame, with padding behind it, and neither
    end inside the Ethernet header nor inside the options of the IP header: the data of its event
    are the fields of the frame, in their order and with distinct keys. Nothing behind the captured
    bytes is read. -/
theorem packetData_frame (ascii : Jansson.TakesAscii) (inet : InetAscii) {packet : Nat → UInt8}
    {frame : Frame} {captured padding : List UInt8} (lies : BytesAt packet 0 captured)
    (isPrefix : captured <+: frame.encode ++ padding) (headers : frame.HeadersIn captured.length)
    (interface : List Char) {header : PacketHeader} (length : header.caplen = captured.length) :
    let run := packetData packet interface dltEn10mb header
    let fields := infoFields interface header ++ frame.fields captured.length
    run.value = .object fields ∧ (fields.map Prod.fst).Nodup ∧
      run.All (PacketUse.InBounds header.caplen) := by
  intro run fields
  refine ⟨packetData_fields ascii inet lies isPrefix headers interface length,
    fields_nodup interface header frame captured.length, ?_⟩
  refine (packetData_inBounds_iff packet interface dltEn10mb header).mpr fun _ => ?_
  rw [length]
  exact Frame.headers_bounds lies isPrefix headers

end Data

/-- `inet_ntop` for addresses of IPv4. -/
@[reducible] def decimalInet : Inet where
  ntop4 := fun bytes =>
    ((bytes.map fun b => Nat.toDigits 10 b.toNat).intersperse ['.']).flatten
  ntop6 := fun _ => []

theorem decimalInet_ascii : @InetAscii decimalInet := by
  intro bytes
  refine forall_mem_intersperse (fun c dot => ?_) fun part isPart c member => ?_
  · rw [List.mem_singleton.mp dot]
    decide
  · obtain ⟨b, -, rfl⟩ := List.mem_map.mp isPart
    have digit := Nat.isDigit_of_mem_toDigits (by decide) (by decide) member
    simp only [Char.isDigit, Bool.and_eq_true, decide_eq_true_eq, UInt32.le_iff_toNat_le] at digit
    exact lt_of_le_of_lt digit.2 (by decide)

/-- The addresses of the parts. -/
def ipv4Address (a b c d : UInt8) : Ipv4Address := ⟨[a, b, c, d], rfl⟩

def macAddress (a b c d e f : UInt8) : MacAddress := ⟨[a, b, c, d, e, f], rfl⟩

/-- The TCP packet that opens a connection to port 443, with its maximum segment size. -/
def synPacket : Ipv4Packet where
  tos := 0
  length := 44
  ident := 1
  fragment := 0x4000
  ttl := 64
  checksum := 0x26C9
  src := ipv4Address 10 0 0 1
  dst := ipv4Address 10 0 0 2
  options := []
  aligned := rfl
  fewOptions := Nat.zero_le 40
  transport := .tcp
    { srcPort := 40000
      dstPort := 443
      seq := 7
      ackSeq := 0
      dataOffset := 0x60
      flags := ⟨false, true, false, false, false, false, false, false⟩
      window := 64240
      checksum := 0
      urgent := 0 }
  payload := [2, 4, 5, 180]

/-- The packet in a frame. -/
def synFrame : Frame :=
  ⟨macAddress 2 0 0 0 0 2, macAddress 2 0 0 0 0 1, .ipv4 synPacket⟩

theorem synFrame_headersIn : synFrame.HeadersIn 58 := ⟨by decide, fun _ => by decide⟩

theorem packetData_frame_syn :
    let _ := acceptingJansson
    let _ := decimalInet
    let header : PacketHeader := ⟨0, 0, 58, 58⟩
    let run := packetData (memoryWith (synFrame.encode) fun _ => 0) "eth0".toList dltEn10mb header
    run.value = .object (infoFields "eth0".toList header ++ synFrame.fields 58) ∧
      ("tcp_dst_port", .integer 443) ∈ synFrame.fields 58 := by
  intro _ _ header run
  have lies : BytesAt (memoryWith synFrame.encode fun _ => 0) 0 synFrame.encode := by
    have whole := bytesAt_memoryWith [] synFrame.encode [] fun _ => 0
    rwa [List.append_nil] at whole
  have dissected := packetData_frame acceptingJansson_takesAscii decimalInet_ascii lies
    (List.prefix_append _ []) synFrame_headersIn "eth0".toList
    (show header.caplen = synFrame.encode.length from rfl)
  refine ⟨dissected.1, ?_⟩
  have described : synFrame.fields 58 = _ ++ (_ ++ synPacket.transport.fields) := rfl
  rw [described]
  exact List.mem_append_right _ (List.mem_append_right _ (.tail _ (.tail _ (.head _))))

end Frames

end Nblex
