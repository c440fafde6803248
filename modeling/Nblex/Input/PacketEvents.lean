import Nblex.Input.PcapInput
import Nblex.Misc.Ledger

/-!
# Packet events

`packet_handler` of `src/input/pcap_input.c` with the event it emits, and `on_pcap_readable`, which
hands it the packets that the kernel holds. How many packets `pcap_dispatch` hands over, of the ten
it is asked for, and whether it fails behind them is its own. Allocation is assumed to succeed. The
events are handles of a ledger, and a run goes on behind a second free, as if the allocator did not
mind it.
-/

namespace Nblex

/-- A packet the kernel has captured. -/
structure CapturedPacket where
  header : PacketHeader
  packet : Nat → UInt8

/-- `nblex_input_s` of a packet input, as far as capturing looks at it. -/
structure PcapInput where
  filter : Option FilterNode
  interface : List Char
  datalink : Nat

/-- A packet input at work: what the kernel holds, whether the handle is polled, the fields of
    `nblex_pcap_input_data`, the world, how many events the input has made, and which of them have
    been freed. -/
structure PcapCapture where
  waiting : List CapturedPacket
  polled : Bool
  capturing : Bool
  packetsCaptured : Nat
  world : World
  created : Nat
  ledger : Ledger

/-- What `pcap_dispatch` does: it hands over so many packets and returns their number, or fails
    behind them. -/
structure Dispatch where
  count : Nat
  failed : Bool

/-- The most packets that one call of `pcap_dispatch` is asked for. -/
def dispatchLimit : Nat := 10

/-- `UV_READABLE`. -/
def uvReadable : Nat := 1

section Capture

variable [Pcre2] [Jansson] [Inet]
variable (input : PcapInput) (clock : Nat → Nat) (depth : Nat)

omit [Pcre2] in
/-- The event of a packet. `created` events were made before it, and `clock` is the time at each. -/
def packetEvent (created : Nat) (captured : CapturedPacket) : Event :=
  { nblexEventNew .network (some ⟨input.filter⟩) (clock created) with
    id := created
    data := some
      (packetData captured.packet input.interface input.datalink captured.header).value }

omit [Pcre2] [Jansson] [Inet] in
/-- What becomes of the event of a packet: `nblex_event_emit` frees it, whether the filter lets it
    through or not, and `packet_handler` frees it again. -/
def freeTwice (ledger : Ledger) : Ledger :=
  (ledger.issue.release ledger.next).release ledger.next

/-- `packet_handler`. -/
def PcapInput.packetHandler (capture : PcapCapture) (captured : CapturedPacket) :
    Option PcapCapture :=
  (nblexEventEmit depth capture.world (packetEvent input clock capture.created captured)).map
    fun world =>
      { capture with
        world := world
        created := capture.created + 1
        ledger := freeTwice capture.ledger }

/-- `on_pcap_readable`. -/
def PcapInput.onPcapReadable (capture : PcapCapture) (status : Int) (events : Nat)
    (dispatch : Dispatch) : Option PcapCapture :=
  if status < 0 then some capture
  else if events &&& uvReadable = 0 then some capture
  else
    let handed := capture.waiting.take (min dispatchLimit dispatch.count)
    let left := capture.waiting.drop (min dispatchLimit dispatch.count)
    (handed.foldlM (input.packetHandler clock depth) { capture with waiting := left }).map
      fun capture =>
        if dispatch.failed then { capture with polled := false, capturing := false }
        else { capture with packetsCaptured := u64Add capture.packetsCaptured handed.length }

/-- One step: the kernel captures a packet, or it has told that the handle is readable. -/
inductive CaptureOp where
  | arrive (captured : CapturedPacket)
  | readable (status : Int) (events : Nat) (dispatch : Dispatch)

/-- One step. A handle that is no longer polled gets no callbacks. -/
def captureStep (capture : PcapCapture) : CaptureOp → Option PcapCapture
  | .arrive captured => some { capture with waiting := capture.waiting ++ [captured] }
  | .readable status events dispatch =>
      if capture.polled then input.onPcapReadable clock depth capture status events dispatch
      else some capture

/-- A sequence of steps. -/
def captureRun (capture : PcapCapture) (ops : List CaptureOp) : Option PcapCapture :=
  ops.foldlM (captureStep input clock depth) capture

end Capture

/-- An input that has just been started. -/
def startedCapture (world : World) : PcapCapture where
  waiting := []
  polled := true
  capturing := true
  packetsCaptured := 0
  world := world
  created := 0
  ledger := Ledger.empty

end Nblex
