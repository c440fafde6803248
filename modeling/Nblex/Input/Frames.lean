import Nblex.Input.PcapInput
import Nblex.Misc.ByteMemory

/-!
# Frames

The layout of the frames that `src/input/pcap_input.c` takes apart: an Ethernet header, in it an
IPv4 header with its options, and the headers of TCP, UDP and ICMP; and the fields by which the data
of an event describe a frame.
-/

namespace Nblex

namespace Frames

/-- A MAC address. -/
structure MacAddress where
  bytes : List UInt8
  six : bytes.length = 6

/-- An address of IPv4. -/
structure Ipv4Address where
  bytes : List UInt8
  four : bytes.length = 4

/-! ## Transport headers -/

/-- The flags of a TCP header. -/
structure TcpFlags where
  fin : Bool
  syn : Bool
  rst : Bool
  psh : Bool
  ack : Bool
  urg : Bool
  ece : Bool
  cwr : Bool

/-- The byte of the flags. -/
def TcpFlags.byte (flags : TcpFlags) : UInt8 :=
  UInt8.ofNat (flags.fin.toNat + 2 * flags.syn.toNat + 4 * flags.rst.toNat + 8 * flags.psh.toNat +
    16 * flags.ack.toNat + 32 * flags.urg.toNat + 64 * flags.ece.toNat + 128 * flags.cwr.toNat)

/-- A TCP header without its options; `dataOffset` is the byte that says how long they are. -/
structure TcpHeader where
  srcPort : UInt16
  dstPort : UInt16
  seq : UInt32
  ackSeq : UInt32
  dataOffset : UInt8
  flags : TcpFlags
  window : UInt16
  checksum : UInt16
  urgent : UInt16

/-- The header on the wire. -/
def TcpHeader.encode (header : TcpHeader) : List UInt8 :=
  bigEndian16 header.srcPort.toNat ++ bigEndian16 header.dstPort.toNat ++
    bigEndian32 header.seq.toNat ++ bigEndian32 header.ackSeq.toNat ++
    [header.dataOffset, header.flags.byte] ++ bigEndian16 header.window.toNat ++
    bigEndian16 header.checksum.toNat ++ bigEndian16 header.urgent.toNat

/-- The fields of the header. -/
def TcpHeader.fields (header : TcpHeader) : List (String × Json) :=
  [("protocol", .string "tcp"),
    ("tcp_src_port", .integer header.srcPort.toNat),
    ("tcp_dst_port", .integer header.dstPort.toNat),
    ("tcp_seq", .integer header.seq.toNat),
    ("tcp_ack", .integer header.ackSeq.toNat),
    ("tcp_flags_fin", .bool header.flags.fin),
    ("tcp_flags_syn", .bool header.flags.syn),
    ("tcp_flags_rst", .bool header.flags.rst),
    ("tcp_flags_psh", .bool header.flags.psh),
    ("tcp_flags_ack", .bool header.flags.ack),
    ("tcp_flags_urg", .bool header.flags.urg),
    ("tcp_flags_ece", .bool header.flags.ece),
    ("tcp_flags_cwr", .bool header.flags.cwr),
    ("tcp_window", .integer header.window.toNat),
    ("tcp_checksum", .integer header.checksum.toNat),
    ("tcp_urgent", .integer header.urgent.toNat)]

/-- A UDP header. -/
structure UdpHeader where
  srcPort : UInt16
  dstPort : UInt16
  length : UInt16
  checksum : UInt16

/-- The header on the wire. -/
def UdpHeader.encode (header : UdpHeader) : List UInt8 :=
  bigEndian16 header.srcPort.toNat ++ bigEndian16 header.dstPort.toNat ++
    bigEndian16 header.length.toNat ++ bigEndian16 header.checksum.toNat

/-- The fields of the header. -/
def UdpHeader.fields (header : UdpHeader) : List (String × Json) :=
  [("protocol", .string "udp"),
    ("udp_src_port", .integer header.srcPort.toNat),
    ("udp_dst_port", .integer header.dstPort.toNat),
    ("udp_length", .integer header.length.toNat),
    ("udp_checksum", .integer header.checksum.toNat)]

/-- The part of an ICMP header that all messages have. -/
structure IcmpHeader where
  type : UInt8
  code : UInt8
  checksum : UInt16

/-- The header on the wire. -/
def IcmpHeader.encode (header : IcmpHeader) : List UInt8 :=
  [header.type, header.code] ++ bigEndian16 header.checksum.toNat

/-- The fields of the header. -/
def IcmpHeader.fields (header : IcmpHeader) : List (String × Json) :=
  [("protocol", .string "icmp"),
    ("icmp_type", .integer header.type.toNat),
    ("icmp_code", .integer header.code.toNat),
    ("icmp_checksum", .integer header.checksum.toNat)]

/-- What an IP packet holds. -/
inductive Transport where
  | tcp (header : TcpHeader)
  | udp (header : UdpHeader)
  | icmp (header : IcmpHeader)
  | other (protocol : UInt8) (unknown : protocol ≠ 6 ∧ protocol ≠ 17 ∧ protocol ≠ 1)

/-- The number of the protocol. -/
def Transport.protocol : Transport → UInt8
  | .tcp _ => 6
  | .udp _ => 17
  | .icmp _ => 1
  | .other protocol _ => protocol

/-- The header on the wire. -/
def Transport.encode : Transport → List UInt8
  | .tcp header => header.encode
  | .udp header => header.encode
  | .icmp header => header.encode
  | .other _ _ => []

/-- How much has to be captured behind the IP header for the fields to be given. For ICMP this is
    more than the header, so a short message is not described. -/
def Transport.needed : Transport → Nat
  | .tcp _ => tcphdrSize
  | .udp _ => udphdrSize
  | .icmp _ => icmpSize
  | .other _ _ => 0

/-- The fields of the header. -/
def Transport.fields : Transport → List (String × Json)
  | .tcp header => header.fields
  | .udp header => header.fields
  | .icmp header => header.fields
  | .other _ _ => []

/-! ## Network headers -/

/-- An IPv4 packet. What follows the transport header is its payload. -/
structure Ipv4Packet where
  tos : UInt8
  length : UInt16
  ident : UInt16
  fragment : UInt16
  ttl : UInt8
  checksum : UInt16
  src : Ipv4Address
  dst : Ipv4Address
  options : List UInt8
  aligned : options.length % 4 = 0
  fewOptions : options.length ≤ 40
  transport : Transport
  payload : List UInt8

/-- The length of the header. -/
def Ipv4Packet.headerLen (packet : Ipv4Packet) : Nat := ipSize + packet.options.length

/-- The version and the length of the header in words. -/
def Ipv4Packet.firstByte (packet : Ipv4Packet) : UInt8 :=
  UInt8.ofNat (4 * 16 + packet.headerLen / 4)

/-- The header on the wire. -/
def Ipv4Packet.encodeHeader (packet : Ipv4Packet) : List UInt8 :=
  [packet.firstByte, packet.tos] ++ bigEndian16 packet.length.toNat ++
    bigEndian16 packet.ident.toNat ++ bigEndian16 packet.fragment.toNat ++
    [packet.ttl, packet.transport.protocol] ++ bigEndian16 packet.checksum.toNat ++
    packet.src.bytes ++ packet.dst.bytes ++ packet.options

/-- The packet on the wire. -/
def Ipv4Packet.encode (packet : Ipv4Packet) : List UInt8 :=
  packet.encodeHeader ++ packet.transport.encode ++ packet.payload

/-- What an Ethernet frame holds: an IPv4 packet, or bytes of another type. -/
inductive Network where
  | ipv4 (packet : Ipv4Packet)
  | other (type : UInt16) (notIpv4 : type ≠ 0x0800) (payload : List UInt8)

/-- The type of what a frame holds. -/
def Network.type : Network → UInt16
  | .ipv4 _ => 0x0800
  | .other type _ _ => type

/-- What a frame holds, on the wire. -/
def Network.encode : Network → List UInt8
  | .ipv4 packet => packet.encode
  | .other _ _ payload => payload

/-- A frame. -/
structure Frame where
  dst : MacAddress
  src : MacAddress
  network : Network

/-- The Ethernet header on the wire. -/
def Frame.encodeHeader (frame : Frame) : List UInt8 :=
  frame.dst.bytes ++ frame.src.bytes ++ bigEndian16 frame.network.type.toNat

/-- The frame on the wire. -/
def Frame.encode (frame : Frame) : List UInt8 := frame.encodeHeader ++ frame.network.encode

/-! ## What is captured of a frame -/

/-- So many bytes of a frame have its Ethernet header whole; and its IP header, unless they have
    not even the fixed part of it. -/
def Frame.HeadersIn (frame : Frame) (captured : Nat) : Prop :=
  etherHeaderSize ≤ captured ∧
    match frame.network with
    | .ipv4 packet =>
        etherHeaderSize + ipSize ≤ captured → etherHeaderSize + packet.headerLen ≤ captured
    | .other _ _ _ => True

section Fields

variable [Inet]

/-- The fields of a packet of which so many bytes are captured. -/
def Ipv4Packet.fields (packet : Ipv4Packet) (captured : Nat) : List (String × Json) :=
  if ipSize ≤ captured then
    [("ip_version", .integer 4),
      ("ip_src", .string (String.ofList (Inet.ntop4 packet.src.bytes))),
      ("ip_dst", .string (String.ofList (Inet.ntop4 packet.dst.bytes))),
      ("ip_protocol", .integer packet.transport.protocol.toNat),
      ("ip_ttl", .integer packet.ttl.toNat),
      ("ip_length", .integer packet.length.toNat)] ++
    if packet.transport.needed ≤ captured - packet.headerLen then packet.transport.fields else []
  else []

/-- The fields of what a frame holds. -/
def Network.fields (network : Network) (captured : Nat) : List (String × Json) :=
  match network with
  | .ipv4 packet => packet.fields captured
  | .other _ _ _ => []

/-- The fields of a frame of which so many bytes are captured. -/
def Frame.fields (frame : Frame) (captured : Nat) : List (String × Json) :=
  [("ethernet_src", .string (String.ofList (macText frame.src.bytes))),
    ("ethernet_dst", .string (String.ofList (macText frame.dst.bytes))),
    ("ethernet_type", .integer frame.network.type.toNat)] ++
  frame.network.fields (captured - etherHeaderSize)

end Fields

/-- What stands for every packet; jansson does not take every text and number. -/
def infoValues [Jansson] (interface : List Char) (header : PacketHeader) :
    List (String × Option Json) :=
  [("timestamp", jsonReal (header.tvSec + header.tvUsec / 1000000 : ℚ)),
    ("length", some (.integer header.len)),
    ("captured_length", some (.integer header.caplen)),
    ("interface", jsonString interface)]

/-- The fields of every packet. -/
def infoFields [Jansson] (interface : List Char) (header : PacketHeader) : List (String × Json) :=
  (infoValues interface header).filterMap fun field => field.2.map fun value => (field.1, value)

end Frames

end Nblex
