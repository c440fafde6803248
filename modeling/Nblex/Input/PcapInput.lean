import Nblex.Core.EventOwnership
import Nblex.Misc.Recorded
import Nblex.Parsers.DnsParser

/-!
# Captured packets

What `packet_handler` of `src/input/pcap_input.c` and its dissectors take from a packet. Every byte
that is read is recorded, and every subtraction from the length that remains. The bytes behind the
captured ones are arbitrary, since a read may lead there. The structs are those of Linux headers.
-/

namespace Nblex

/-- `struct pcap_pkthdr`: the seconds and microseconds of the time, and the two lengths. -/
structure PacketHeader where
  tvSec : Int
  tvUsec : Int
  caplen : Nat
  len : Nat

/-- What may go wrong with a packet: a byte is read, or a number subtracted from what remains. -/
inductive PacketUse where
  | read (index : Nat)
  | subtract (remaining length : Nat)

/-- The bytes are inside the packet, and what remains does not become negative. -/
def PacketUse.InBounds (caplen : Nat) : PacketUse → Prop
  | .read index => index < caplen
  | .subtract remaining length => length ≤ remaining

section Packet

variable (packet : Nat → UInt8)

/-- A byte of the packet. -/
def byteAt (offset : Nat) : Recorded PacketUse UInt8 := .record (.read offset) (packet offset)

/-- `ntohs` of two bytes. -/
def ntohsAt (offset : Nat) : Recorded PacketUse Nat := do
  let high ← byteAt packet offset
  let low ← byteAt packet (offset + 1)
  pure (high.toNat <<< 8 ||| low.toNat)

/-- `ntohl` of four bytes. -/
def ntohlAt (offset : Nat) : Recorded PacketUse Nat := do
  let high ← ntohsAt packet offset
  let low ← ntohsAt packet (offset + 2)
  pure (high <<< 16 ||| low)

/-- Consecutive bytes. -/
def readBytes (offset : Nat) : Nat → Recorded PacketUse (List UInt8)
  | 0 => pure []
  | count + 1 => do
      let first ← byteAt packet offset
      let rest ← readBytes (offset + 1) count
      pure (first :: rest)

/-- `remaining -= length` on a `size_t`. -/
def takeLength (remaining length : Nat) : Recorded PacketUse Nat :=
  .record (.subtract remaining length) (u64Sub remaining length)

/-- `%02x`. -/
def hexByte (b : UInt8) : List Char := [Nat.digitChar (b.toNat / 16), Nat.digitChar (b.toNat % 16)]

/-- The text of a MAC address. -/
def macText (bytes : List UInt8) : List Char := (bytes.map hexByte).intersperse [':'] |>.flatten

/-- A flag of the TCP header. -/
def tcpFlag (flags : UInt8) (mask : Nat) : Option Json := some (.bool (flags.toNat &&& mask ≠ 0))

/-- `dissect_tcp`. -/
def dissectTcp (offset : Nat) (event : Json) : Recorded PacketUse Json := do
  let srcPort ← ntohsAt packet offset
  let dstPort ← ntohsAt packet (offset + 2)
  let seq ← ntohlAt packet (offset + 4)
  let ack ← ntohlAt packet (offset + 8)
  let flags ← byteAt packet (offset + 13)
  let window ← ntohsAt packet (offset + 14)
  let checksum ← ntohsAt packet (offset + 16)
  let urgent ← ntohsAt packet (offset + 18)
  pure (event.set "protocol" (some (.string "tcp"))
    |>.set "tcp_src_port" (some (.integer srcPort))
    |>.set "tcp_dst_port" (some (.integer dstPort))
    |>.set "tcp_seq" (some (.integer seq))
    |>.set "tcp_ack" (some (.integer ack))
    |>.set "tcp_flags_fin" (tcpFlag flags 0x01)
    |>.set "tcp_flags_syn" (tcpFlag flags 0x02)
    |>.set "tcp_flags_rst" (tcpFlag flags 0x04)
    |>.set "tcp_flags_psh" (tcpFlag flags 0x08)
    |>.set "tcp_flags_ack" (tcpFlag flags 0x10)
    |>.set "tcp_flags_urg" (tcpFlag flags 0x20)
    |>.set "tcp_flags_ece" (tcpFlag flags 0x40)
    |>.set "tcp_flags_cwr" (tcpFlag flags 0x80)
    |>.set "tcp_window" (some (.integer window))
    |>.set "tcp_checksum" (some (.integer checksum))
    |>.set "tcp_urgent" (some (.integer urgent)))

/-- `dissect_udp`. -/
def dissectUdp (offset : Nat) (event : Json) : Recorded PacketUse Json := do
  let srcPort ← ntohsAt packet offset
  let dstPort ← ntohsAt packet (offset + 2)
  let length ← ntohsAt packet (offset + 4)
  let checksum ← ntohsAt packet (offset + 6)
  pure (event.set "protocol" (some (.string "udp"))
    |>.set "udp_src_port" (some (.integer srcPort))
    |>.set "udp_dst_port" (some (.integer dstPort))
    |>.set "udp_length" (some (.integer length))
    |>.set "udp_checksum" (some (.integer checksum)))

/-- `dissect_icmp`. -/
def dissectIcmp (offset : Nat) (event : Json) : Recorded PacketUse Json := do
  let type ← byteAt packet offset
  let code ← byteAt packet (offset + 1)
  let checksum ← ntohsAt packet (offset + 2)
  pure (event.set "protocol" (some (.string "icmp"))
    |>.set "icmp_type" (some (.integer type.toNat))
    |>.set "icmp_code" (some (.integer code.toNat))
    |>.set "icmp_checksum" (some (.integer checksum)))

/-- `sizeof(struct ether_header)`, `sizeof(struct ip)`, `sizeof(struct tcphdr)`,
    `sizeof(struct udphdr)` and `sizeof(struct icmp)`. -/
def etherHeaderSize : Nat := 14
def ipSize : Nat := 20
def tcphdrSize : Nat := 20
def udphdrSize : Nat := 8
def icmpSize : Nat := 28

/-- The `switch` on the protocol. -/
def dissectTransport (offset remaining protocol : Nat) (event : Json) :
    Recorded PacketUse Json :=
  if protocol = 6 then
    if tcphdrSize ≤ remaining then dissectTcp packet offset event else pure event
  else if protocol = 17 then
    if udphdrSize ≤ remaining then dissectUdp packet offset event else pure event
  else if protocol = 1 then
    if icmpSize ≤ remaining then dissectIcmp packet offset event else pure event
  else pure event

/-- `ip->ip_hl * 4`, from the first byte of the header. -/
def ipHeaderLen (first : UInt8) : Nat := (first.toNat &&& 0xF) * 4

variable [Jansson] [Inet]

/-- The IP packet at an offset. -/
def dissectIp (offset remaining : Nat) (event : Json) : Recorded PacketUse Json := do
  let src ← readBytes packet (offset + 12) 4
  let dst ← readBytes packet (offset + 16) 4
  let first ← byteAt packet offset
  let protocol ← byteAt packet (offset + 9)
  let ttl ← byteAt packet (offset + 8)
  let length ← ntohsAt packet (offset + 2)
  let event := event.set "ip_version" (some (.integer (first.toNat >>> 4 : Nat)))
    |>.set "ip_src" (jsonString (Inet.ntop4 src))
    |>.set "ip_dst" (jsonString (Inet.ntop4 dst))
    |>.set "ip_protocol" (some (.integer protocol.toNat))
    |>.set "ip_ttl" (some (.integer ttl.toNat))
    |>.set "ip_length" (some (.integer length))
  let remaining ← takeLength remaining (ipHeaderLen first)
  dissectTransport packet (offset + ipHeaderLen first) remaining protocol.toNat event

/-- The Ethernet frame. -/
def dissectEthernet (caplen : Nat) (event : Json) : Recorded PacketUse Json := do
  let dst ← readBytes packet 0 6
  let src ← readBytes packet 6 6
  let etherType ← ntohsAt packet 12
  let event := event.set "ethernet_src" (jsonString (macText src))
    |>.set "ethernet_dst" (jsonString (macText dst))
    |>.set "ethernet_type" (some (.integer etherType))
  let remaining ← takeLength caplen etherHeaderSize
  -- `ETHERTYPE_IP`
  if etherType = 0x0800 ∧ ipSize ≤ remaining then
    dissectIp packet etherHeaderSize remaining event
  else pure event

/-- The fields of every packet. -/
def packetInfo (interface : List Char) (header : PacketHeader) : Json :=
  (Json.object []).set "timestamp" (jsonReal (header.tvSec + header.tvUsec / 1000000 : ℚ))
    |>.set "length" (some (.integer header.len))
    |>.set "captured_length" (some (.integer header.caplen))
    |>.set "interface" (jsonString interface)

/-- `DLT_EN10MB`. -/
def dltEn10mb : Nat := 1

/-- What `packet_handler` puts into the data of the event. -/
def packetData (interface : List Char) (datalink : Nat) (header : PacketHeader) :
    Recorded PacketUse Json :=
  if datalink = dltEn10mb then dissectEthernet packet header.caplen (packetInfo interface header)
  else pure (packetInfo interface header)

/-- The callback of an input on the packet, if the event and its data can be allocated. -/
def packetCapture (input : Input) (interface : List Char) (datalink : Nat)
    (header : PacketHeader) (now : Nat) (allocs : Owned.EngineAllocs) : Owned.Capture where
  input := input
  now := now
  event := true
  data := some (packetData packet interface datalink header).value
  allocs := allocs

end Packet

end Nblex
