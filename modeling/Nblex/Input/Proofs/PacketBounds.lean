import Nblex.Input.PcapInput

/-!
# What a dissector reads

The guards of the dissectors compare the length that remains with the size of the next header. The
length of the Ethernet header and that of an IP header, which the packet says itself, are subtracted
without a guard. So every byte read is in the packet, and no subtraction wraps, just in case the
packet has these two headers whole.
-/

namespace Nblex

section Bounds

variable {packet : Nat → UInt8} {caplen : Nat}

theorem byteAt_all (offset : Nat) :
    (byteAt packet offset).All (PacketUse.InBounds caplen) ↔ offset < caplen :=
  Recorded.all_record _ _

theorem ntohsAt_all (offset : Nat) :
    (ntohsAt packet offset).All (PacketUse.InBounds caplen) ↔ offset + 1 < caplen := by
  simp only [ntohsAt, Recorded.all_bind, byteAt_all, Recorded.all_pure, and_true]
  omega

theorem ntohlAt_all (offset : Nat) :
    (ntohlAt packet offset).All (PacketUse.InBounds caplen) ↔ offset + 3 < caplen := by
  simp only [ntohlAt, Recorded.all_bind, ntohsAt_all, Recorded.all_pure, and_true]
  omega

theorem readBytes_all (count : Nat) : ∀ offset,
    (readBytes packet offset count).All (PacketUse.InBounds caplen) ↔
      (0 < count → offset + count ≤ caplen) := by
  induction count with
  | zero =>
      intro offset
      exact ⟨fun _ => nofun, fun _ => Recorded.all_pure _⟩
  | succ count ih =>
      intro offset
      simp only [readBytes, Recorded.all_bind, byteAt_all, ih, Recorded.all_pure, and_true]
      omega

/-- The bytes that a dissector reads lie in the header whose size its guard asks for. -/
theorem dissectTcp_all {offset : Nat} (inside : offset + tcphdrSize ≤ caplen) (event : Json) :
    (dissectTcp packet offset event).All (PacketUse.InBounds caplen) := by
  unfold tcphdrSize at inside
  simp only [dissectTcp, Recorded.all_bind, ntohsAt_all, ntohlAt_all, byteAt_all,
    Recorded.all_pure, and_true]
  omega

theorem dissectUdp_all {offset : Nat} (inside : offset + udphdrSize ≤ caplen) (event : Json) :
    (dissectUdp packet offset event).All (PacketUse.InBounds caplen) := by
  unfold udphdrSize at inside
  simp only [dissectUdp, Recorded.all_bind, ntohsAt_all, Recorded.all_pure, and_true]
  omega

theorem dissectIcmp_all {offset : Nat} (inside : offset + icmpSize ≤ caplen) (event : Json) :
    (dissectIcmp packet offset event).All (PacketUse.InBounds caplen) := by
  unfold icmpSize at inside
  simp only [dissectIcmp, Recorded.all_bind, ntohsAt_all, byteAt_all, Recorded.all_pure, and_true]
  omega

/-- What remains is what lies in the packet behind the offset. -/
theorem dissectTransport_all {offset remaining : Nat} (lies : offset + remaining = caplen)
    (protocol : Nat) (event : Json) :
    (dissectTransport packet offset remaining protocol event).All
      (PacketUse.InBounds caplen) := by
  unfold dissectTransport
  split
  · split
    · next enough => exact dissectTcp_all (by omega) event
    · exact Recorded.all_pure event
  · split
    · split
      · next enough => exact dissectUdp_all (by omega) event
      · exact Recorded.all_pure event
    · split
      · split
        · next enough => exact dissectIcmp_all (by omega) event
        · exact Recorded.all_pure event
      · exact Recorded.all_pure event

variable [Jansson] [Inet]

theorem dissectIp_all_iff {offset remaining : Nat} (lies : offset + remaining = caplen)
    (enough : ipSize ≤ remaining) (event : Json) :
    (dissectIp packet offset remaining event).All (PacketUse.InBounds caplen) ↔
      ipHeaderLen (packet offset) ≤ remaining := by
  unfold ipSize at enough
  have first : (byteAt packet offset).value = packet offset := rfl
  simp only [dissectIp, Recorded.all_bind, readBytes_all, byteAt_all, ntohsAt_all, first,
    takeLength, Recorded.all_record, Recorded.value_record, PacketUse.InBounds]
  constructor
  · rintro ⟨-, -, -, -, -, -, fits, -⟩
    exact fits
  · intro fits
    refine ⟨by omega, by omega, by omega, by omega, by omega, by omega, fits, ?_⟩
    apply dissectTransport_all
    rw [u64Sub_of_le fits]
    omega

/-- `ntohs(eth->ether_type)`. -/
def etherType (packet : Nat → UInt8) : Nat := (ntohsAt packet 12).value

theorem dissectEthernet_all_iff (event : Json) :
    (dissectEthernet packet caplen event).All (PacketUse.InBounds caplen) ↔
      etherHeaderSize ≤ caplen ∧
        (etherType packet = 0x0800 → ipSize ≤ caplen - etherHeaderSize →
          ipHeaderLen (packet etherHeaderSize) ≤ caplen - etherHeaderSize) := by
  have type : (ntohsAt packet 12).value = etherType packet := rfl
  simp only [dissectEthernet, Recorded.all_bind, readBytes_all, ntohsAt_all, takeLength,
    Recorded.all_record, Recorded.value_record, PacketUse.InBounds, type]
  constructor
  · rintro ⟨-, -, -, whole, inIp⟩
    refine ⟨whole, fun isIp enough => ?_⟩
    rw [u64Sub_of_le whole] at inIp
    have inside := ((Recorded.all_ite _ _ _).mp inIp).1 ⟨isIp, enough⟩
    exact (dissectIp_all_iff (Nat.add_sub_of_le whole) enough _).mp inside
  · rintro ⟨whole, fits⟩
    have bound : 14 ≤ caplen := whole
    refine ⟨by omega, by omega, by omega, whole, ?_⟩
    rw [u64Sub_of_le whole]
    refine (Recorded.all_ite _ _ _).mpr ⟨fun both => ?_, fun _ => Recorded.all_pure _⟩
    exact (dissectIp_all_iff (Nat.add_sub_of_le whole) both.2 _).mpr (fits both.1 both.2)

/-- Every byte of a packet that is read has been captured, and the remaining length does not wrap,
    just in case the Ethernet header has been captured whole and so has an IP header in it, by the
    length it gives itself, if its fixed part has. -/
theorem packetData_inBounds_iff (packet : Nat → UInt8) (interface : List Char) (datalink : Nat)
    (header : PacketHeader) :
    (packetData packet interface datalink header).All (PacketUse.InBounds header.caplen) ↔
      (datalink = dltEn10mb → etherHeaderSize ≤ header.caplen ∧
        (etherType packet = 0x0800 → ipSize ≤ header.caplen - etherHeaderSize →
          ipHeaderLen (packet etherHeaderSize) ≤ header.caplen - etherHeaderSize)) := by
  rw [packetData, Recorded.all_ite]
  refine (and_iff_left (fun _ => Recorded.all_pure _)).trans (imp_congr_right fun _ => ?_)
  exact dissectEthernet_all_iff _

/-- An IP packet in an Ethernet frame of 34 captured bytes, TCP and with the longest header length
    there is: 60 bytes. -/
def overlongIpPacket : Nat → UInt8
  | 12 => 0x08
  | 14 => 0x4F
  | 23 => 6
  | _ => 0

end Bounds

/-- 60 bytes are taken from the 20 that remain. -/
theorem overlongIpPacket_wraps :
    ¬∀ header : PacketHeader,
      (@packetData overlongIpPacket acceptingJansson ⟨fun _ => [], fun _ => []⟩ "eth0".toList
        dltEn10mb header).All (PacketUse.InBounds header.caplen) := by
  intro all
  let _ := acceptingJansson
  let _ : Inet := ⟨fun _ => [], fun _ => []⟩
  have fits := (packetData_inBounds_iff overlongIpPacket _ _ _).mp (all ⟨0, 0, 34, 34⟩) rfl
  exact absurd (fits.2 (by decide) (by decide)) (by decide)

end Nblex
