import Nblex.Core.FilterEngine.Proofs.PushedAtoms
import Nblex.Core.Proofs.EventReleases
import Nblex.Input.PacketEvents
import Nblex.Input.Proofs.Frames
import Nblex.Input.Proofs.LogLines

/-!
# The events of captured packets

Every packet the kernel has captured is handed over once, in order, whatever the calls of
`pcap_dispatch` take at a time; its event reaches the handler if the filter of the input lets it
through. A filter that is pushed down to the kernel in part lets no packet through, as the fields it
asks for are not among those the dissectors give.
-/

namespace Nblex

section Capture

variable [Pcre2] [Jansson] [Inet]
variable (input : PcapInput) (clock : Nat → Nat) (depth : Nat)

omit [Pcre2] in
/-- The events of consecutive packets. -/
def packetEvents (created : Nat) (packets : List CapturedPacket) : List Event :=
  (packets.zipIdx created).map fun entry => packetEvent input clock entry.2 entry.1

omit [Pcre2] in
theorem packetEvents_append (created : Nat) (first later : List CapturedPacket) :
    packetEvents input clock created (first ++ later) =
      packetEvents input clock created first ++
        packetEvents input clock (created + first.length) later := by
  rw [packetEvents, List.zipIdx_append, List.map_append]
  rfl

omit [Pcre2] [Jansson] [Inet] in
theorem freeTwice_next (ledger : Ledger) : (freeTwice ledger).next = ledger.next + 1 := by
  rw [freeTwice, Ledger.release_next, Ledger.release_next, Ledger.issue_next]

omit [Pcre2] [Jansson] [Inet] in
theorem freeTwice_released (ledger : Ledger) (handle : Nat) :
    (freeTwice ledger).released handle =
      if handle = ledger.next then 2 else ledger.released handle := by
  have known : ledger.next < ledger.issue.next := Nat.lt_succ_self _
  rw [freeTwice, Ledger.release_released (by rwa [Ledger.release_next]),
    Ledger.release_released known, Ledger.issue_released, List.count_singleton]
  by_cases same : handle = ledger.next
  · rw [if_pos same, if_pos (by simpa using same.symm), same,
      Ledger.released_of_le (Nat.le_refl _)]
  · rw [if_neg same, if_neg (by simpa using Ne.symm same), Nat.add_zero]

/-- The model of the event objects has the event of a packet freed as often. -/
theorem packetHandler_freeTwice {σ : Type} {handler : Owned.EventHandler σ}
    (harmless : Owned.Harmless handler) {world : Owned.World σ} (accounted : Owned.Accounted world)
    (captured : CapturedPacket) (now : Nat) (allocs : Owned.EngineAllocs) :
    (Owned.packetHandler handler world (packetCapture captured.packet ⟨input.filter⟩
        input.interface input.datalink captured.header now allocs)).releaseCounts =
      (freeTwice world.ledger).released world.ledger.next :: world.releaseCounts := by
  rw [freeTwice_released, if_pos rfl]
  exact (Owned.loopStep_spec harmless accounted (.packet _)).2

omit [Pcre2] [Jansson] [Inet] in
/-- Every event has been freed twice. -/
theorem freeTwice_iterate (count : Nat) {ledger : Ledger}
    (twice : ∀ handle < ledger.next, ledger.released handle = 2) :
    (freeTwice^[count] ledger).next = ledger.next + count ∧
      ∀ handle < ledger.next + count, (freeTwice^[count] ledger).released handle = 2 := by
  induction count with
  | zero => exact ⟨rfl, twice⟩
  | succ count ih =>
      rw [Function.iterate_succ_apply', freeTwice_next, ih.1]
      refine ⟨rfl, fun handle inside => ?_⟩
      rw [freeTwice_released, ih.1]
      split
      · rfl
      · exact ih.2 handle (by omega)

/-- Handing packets over is emitting their events. -/
theorem packetHandler_events (packets : List CapturedPacket) (capture : PcapCapture) :
    packets.foldlM (input.packetHandler clock depth) capture =
      (worldRun depth capture.world
        ((packetEvents input clock capture.created packets).map .emit)).map fun world =>
          { capture with
            world := world
            created := capture.created + packets.length
            ledger := freeTwice^[packets.length] capture.ledger } := by
  induction packets generalizing capture with
  | nil => rfl
  | cons packet packets ih =>
      rw [packetEvents, List.zipIdx_cons, List.map_cons, List.map_cons, worldRun, List.foldlM_cons,
        List.foldlM_cons, worldStep, PcapInput.packetHandler]
      cases nblexEventEmit depth capture.world
          (packetEvent input clock capture.created packet) with
      | none => rfl
      | some world =>
          refine (ih { capture with
            world := world
            created := capture.created + 1
            ledger := freeTwice capture.ledger }).trans ?_
          rw [List.length_cons, Nat.add_right_comm, Nat.add_assoc]
          rfl

/-- The packets that have come, the first `created` of which have been handed over. The counter
    counts them until a call fails, and each of their events has been freed twice. -/
structure Captured (start : World) (packets : List CapturedPacket) (capture : PcapCapture) :
    Prop where
  some_left : capture.created ≤ packets.length
  waiting : capture.waiting = packets.drop capture.created
  polled : capture.polled = capture.capturing
  counted : capture.capturing = true → capture.packetsCaptured = capture.created % 2 ^ 64
  handled : capture.world.handled.filter isNetworkEvent = start.handled.filter isNetworkEvent ++
    (packetEvents input clock 0 (packets.take capture.created)).filter inputAccepts
  issued : capture.ledger.next = capture.created
  twice : ∀ handle < capture.created, capture.ledger.released handle = 2

variable {input clock} {start : World} {packets : List CapturedPacket}
  {capture : PcapCapture}

omit [Pcre2] in
theorem packetEvents_network (created : Nat) (packets : List CapturedPacket) :
    ∀ event ∈ packetEvents input clock created packets, isNetworkEvent event = true := by
  intro event member
  obtain ⟨entry, -, rfl⟩ := List.mem_map.mp member
  rfl

/-- Packets that wait are handed over. -/
theorem Captured.handOver (captured : Captured input clock start packets capture) (count : Nat) :
    ∃ next, (capture.waiting.take count).foldlM (input.packetHandler clock (depth + 2))
        { capture with waiting := capture.waiting.drop count } = some next ∧
      next.packetsCaptured = capture.packetsCaptured ∧ next.polled = capture.polled ∧
      next.capturing = capture.capturing ∧
      next.created = capture.created + (capture.waiting.take count).length ∧
      next.created ≤ packets.length ∧ next.waiting = packets.drop next.created ∧
      next.world.handled.filter isNetworkEvent = start.handled.filter isNetworkEvent ++
        (packetEvents input clock 0 (packets.take next.created)).filter inputAccepts ∧
      next.ledger.next = next.created ∧
      ∀ handle < next.created, next.ledger.released handle = 2 := by
  have noPairs : ∀ result : Event, result.type = .correlation → isNetworkEvent result = false := by
    intro result isPair
    simp [isNetworkEvent, isPair]
  obtain ⟨world, run, handled⟩ := worldRun_handled depth
    (packetEvents input clock capture.created (capture.waiting.take count)) noPairs capture.world
  -- the packets are those handed over before, those handed over now, and those left
  have parts : packets.take capture.created ++ capture.waiting.take count ++
      capture.waiting.drop count = packets := by
    rw [List.append_assoc, List.take_append_drop, captured.waiting, List.take_append_drop]
  have before : (packets.take capture.created).length = capture.created :=
    List.length_take_of_le captured.some_left
  have length : (packets.take capture.created ++ capture.waiting.take count).length =
      capture.created + (capture.waiting.take count).length := by
    rw [List.length_append, before]
  obtain ⟨issued, twice⟩ := freeTwice_iterate (capture.waiting.take count).length
    (captured.issued ▸ captured.twice)
  rw [captured.issued] at issued twice
  refine ⟨⟨capture.waiting.drop count, capture.polled, capture.capturing, capture.packetsCaptured,
    world, capture.created + (capture.waiting.take count).length,
    freeTwice^[(capture.waiting.take count).length] capture.ledger⟩, ?_, rfl, rfl, rfl, rfl, ?_, ?_,
    ?_, issued, twice⟩
  · rw [packetHandler_events]
    dsimp only
    rw [run]
    rfl
  · have bound := congrArg List.length parts
    rw [List.length_append, length] at bound
    exact Nat.le.intro bound
  · calc capture.waiting.drop count
        = (packets.take capture.created ++ capture.waiting.take count ++
            capture.waiting.drop count).drop _ := (List.drop_left' length).symm
      _ = packets.drop _ := by rw [parts]
  · have taken : packets.take (capture.created + (capture.waiting.take count).length) =
        packets.take capture.created ++ capture.waiting.take count := by
      calc packets.take _
          = (packets.take capture.created ++ capture.waiting.take count ++
              capture.waiting.drop count).take _ := by rw [parts]
        _ = _ := List.take_left' length
    rw [List.filter_eq_self.mpr fun event member =>
      packetEvents_network _ _ event (List.mem_of_mem_filter member)] at handled
    dsimp only
    rw [handled, captured.handled, taken, packetEvents_append, before, Nat.zero_add,
      List.filter_append, List.append_assoc]

/-! ## Runs -/

omit [Pcre2] [Jansson] [Inet] in
/-- The packets that the kernel captures in a run. -/
def arrivedPackets (ops : List CaptureOp) : List CapturedPacket :=
  ops.filterMap fun op =>
    match op with
    | .arrive captured => some captured
    | .readable _ _ _ => none

/-- A step keeps count of the packets. -/
theorem Captured.step (captured : Captured input clock start packets capture) (op : CaptureOp) :
    ∃ next, captureStep input clock (depth + 2) capture op = some next ∧
      Captured input clock start (packets ++ arrivedPackets [op]) next := by
  cases op with
  | arrive packet =>
      refine ⟨_, rfl, ?_, ?_, captured.polled, captured.counted, ?_, captured.issued,
        captured.twice⟩
      · exact captured.some_left.trans (List.length_append ▸ Nat.le_add_right _ _)
      · show capture.waiting ++ [packet] = (packets ++ [packet]).drop capture.created
        rw [captured.waiting, List.drop_append_of_le_length captured.some_left]
      · show _ = _ ++ (packetEvents input clock 0 ((packets ++ [packet]).take _)).filter _
        rw [List.take_append_of_le_length captured.some_left]
        exact captured.handled
  | readable status events dispatch =>
      have same : packets ++ arrivedPackets [.readable status events dispatch] = packets :=
        List.append_nil packets
      rw [same, captureStep]
      by_cases polled : capture.polled = true
      · rw [if_pos polled, PcapInput.onPcapReadable]
        by_cases error : status < 0
        · exact ⟨capture, if_pos error, captured⟩
        · rw [if_neg error]
          by_cases quiet : events &&& uvReadable = 0
          · exact ⟨capture, if_pos quiet, captured⟩
          · rw [if_neg quiet]
            obtain ⟨next, handed, counter, polls, captures, made, some_left, waiting, handled,
              issued, twice⟩ := captured.handOver depth (min dispatchLimit dispatch.count)
            dsimp only
            rw [handed, Option.map_some]
            cases failed : dispatch.failed with
            | true =>
                exact ⟨_, rfl, some_left, waiting, rfl, fun running => Bool.noConfusion running,
                  handled, issued, twice⟩
            | false =>
                refine ⟨_, rfl, some_left, waiting, ?_, fun running => ?_, handled, issued, twice⟩
                · exact polls.trans (captured.polled.trans captures.symm)
                · have before := captured.counted (captures ▸ running)
                  show u64Add next.packetsCaptured _ = _
                  rw [counter, before, made, u64Add, Nat.mod_add_mod]
                  rfl
      · exact ⟨capture, if_neg polled, captured⟩

theorem Captured.run (captured : Captured input clock start packets capture)
    (ops : List CaptureOp) :
    ∃ next, captureRun input clock (depth + 2) capture ops = some next ∧
      Captured input clock start (packets ++ arrivedPackets ops) next := by
  induction ops generalizing packets capture with
  | nil => exact ⟨capture, rfl, (List.append_nil packets).symm ▸ captured⟩
  | cons op ops ih =>
      obtain ⟨between, here, captured⟩ := captured.step depth op
      obtain ⟨next, later, captured⟩ := ih captured
      refine ⟨next, ?_, ?_⟩
      · rw [captureRun, List.foldlM_cons, here]
        exact later
      · have split : arrivedPackets (op :: ops) = arrivedPackets [op] ++ arrivedPackets ops :=
          List.filterMap_append (l := [op])
        rwa [split, ← List.append_assoc]

theorem captured_started (input : PcapInput) (clock : Nat → Nat) (world : World) :
    Captured input clock world [] (startedCapture world) where
  some_left := le_refl 0
  waiting := rfl
  polled := rfl
  counted := fun _ => rfl
  handled := (List.append_nil _).symm
  issued := rfl
  twice := nofun

end Capture

/-- Every run of a packet input that gets past the second free of each event: the packets handed
    over are the first ones that came, the others wait; the handler has the events of those the
    filter lets through, each once and in the order the packets came; as long as no call of
    `pcap_dispatch` has failed the counter has counted them; and every event made has been freed
    twice. -/
theorem captureRun_delivers [Pcre2] [Jansson] [Inet] (input : PcapInput) (clock : Nat → Nat)
    (depth : Nat) (world : World) (ops : List CaptureOp) :
    ∃ capture, captureRun input clock (depth + 2) (startedCapture world) ops = some capture ∧
      capture.created ≤ (arrivedPackets ops).length ∧
      capture.waiting = (arrivedPackets ops).drop capture.created ∧
      (capture.capturing = true → capture.packetsCaptured = capture.created % 2 ^ 64) ∧
      capture.world.handled.filter isNetworkEvent = world.handled.filter isNetworkEvent ++
        (packetEvents input clock 0
          ((arrivedPackets ops).take capture.created)).filter inputAccepts ∧
      ∀ handle < capture.created, capture.ledger.released handle = 2 := by
  obtain ⟨capture, run, captured⟩ :=
    (captured_started input clock world).run depth ops
  exact ⟨capture, run, captured.some_left, captured.waiting, captured.counted, captured.handled,
    captured.twice⟩

/-! ## Packets to a port -/

theorem Json.get?_append (first later : List (String × Json)) (key : String) :
    (Json.object (first ++ later)).get? key =
      ((Json.object first).get? key).or ((Json.object later).get? key) := by
  simp only [get?, List.find?_append, Option.map_or]

/-- A key that is not there has no value. -/
theorem Json.get?_absent {fields : List (String × Json)} {key : String}
    (absent : key ∉ fields.map Prod.fst) : (Json.object fields).get? key = none := by
  rw [get?, Option.map_eq_none_iff, List.find?_eq_none]
  intro entry member same
  exact absent (List.mem_map.mpr ⟨entry, member, beq_iff_eq.mp same⟩)

namespace Frames

/-- The TCP header of a frame, if it is captured. -/
def Frame.tcpHeader (frame : Frame) (captured : Nat) : Option TcpHeader :=
  match frame.network with
  | .ipv4 ip =>
      match ip.transport with
      | .tcp header =>
          if etherHeaderSize + ip.headerLen + tcphdrSize ≤ captured then some header else none
      | _ => none
  | .other _ _ _ => none

variable [Jansson] [Inet]

omit [Inet] in
theorem infoFields_absent {key : String}
    (other : key ∉ ["timestamp", "length", "captured_length", "interface"])
    (interface : List Char) (header : PacketHeader) :
    (Json.object (infoFields interface header)).get? key = none :=
  Json.get?_absent fun member => other ((present_keys _).subset member)

/-- The port is there just in case a TCP header is. -/
theorem frame_tcpDstPort (interface : List Char) (header : PacketHeader) (frame : Frame)
    (captured : Nat) :
    (Json.object (infoFields interface header ++ frame.fields captured)).get? "tcp_dst_port" =
      (frame.tcpHeader captured).map fun tcp => .integer tcp.dstPort.toNat := by
  have noInfo : (Json.object (infoFields interface header)).get? "tcp_dst_port" = none :=
    infoFields_absent (by decide) interface header
  have ethernet : ∀ src dst type : Json, (Json.object [("ethernet_src", src),
      ("ethernet_dst", dst), ("ethernet_type", type)]).get? "tcp_dst_port" = none :=
    fun _ _ _ => rfl
  rw [Json.get?_append, noInfo, Option.none_or, Frame.fields, Json.get?_append, ethernet,
    Option.none_or, Frame.tcpHeader]
  cases frame.network with
  | other type notIpv4 payload => rfl
  | ipv4 ip =>
      have size : ip.headerLen = ipSize + ip.options.length := rfl
      show (Json.object (ip.fields (captured - etherHeaderSize))).get? "tcp_dst_port" = _
      rw [Ipv4Packet.fields]
      dsimp only
      by_cases fixed : ipSize ≤ captured - etherHeaderSize
      · rw [if_pos fixed, Json.get?_append]
        show Option.or none _ = _
        rw [Option.none_or]
        cases ip.transport with
        | tcp tcp =>
            dsimp only
            by_cases whole : etherHeaderSize + ip.headerLen + tcphdrSize ≤ captured
            · have enough : tcphdrSize ≤ captured - etherHeaderSize - ip.headerLen := by omega
              rw [if_pos whole, Transport.needed, if_pos enough]
              rfl
            · have short : ¬tcphdrSize ≤ captured - etherHeaderSize - ip.headerLen := by
                unfold tcphdrSize at *
                omega
              rw [if_neg whole, Transport.needed, if_neg short]
              rfl
        | udp udp =>
            dsimp only
            split_ifs
            · rfl
            · rfl
        | icmp icmp =>
            dsimp only
            split_ifs
            · rfl
            · rfl
        | other protocol unknown =>
            dsimp only
            split_ifs
            · rfl
            · rfl
      · rw [if_neg fixed]
        cases ip.transport with
        | tcp tcp =>
            dsimp only
            rw [if_neg (by omega)]
            rfl
        | udp udp => rfl
        | icmp icmp => rfl
        | other protocol unknown => rfl

/-- What is captured are the first bytes of the frame and its padding, with the headers. -/
structure Captures (frame : Frame) (captured : CapturedPacket) : Prop where
  bytes : ∃ bytes padding, BytesAt captured.packet 0 bytes ∧ bytes <+: frame.encode ++ padding ∧
    captured.header.caplen = bytes.length
  headers : frame.HeadersIn captured.header.caplen

theorem packetData_captures (ascii : Jansson.TakesAscii) (inet : InetAscii) {frame : Frame}
    {captured : CapturedPacket} (captures : Captures frame captured) (interface : List Char) :
    (packetData captured.packet interface dltEn10mb captured.header).value =
      .object (infoFields interface captured.header ++ frame.fields captured.header.caplen) := by
  obtain ⟨⟨bytes, padding, lies, isPrefix, length⟩, headers⟩ := captures
  rw [length] at headers ⊢
  exact packetData_fields ascii inet lies isPrefix headers interface length

/-- The frame holds a TCP packet to the port, and its header is captured. -/
def Frame.isTcpTo (frame : Frame) (captured : Nat) (port : UInt16) : Bool :=
  (frame.tcpHeader captured).any fun tcp => tcp.dstPort = port

end Frames

/-- `tcp_dst_port == 443`, for any port. -/
def portFilterText (port : UInt16) : List Char :=
  "tcp_dst_port == ".toList ++ Nat.toDigits 10 port.toNat

theorem nblexFilterNew_port [Pcre2] (port : UInt16) :
    nblexFilterNew (portFilterText port) =
      some (.expr ⟨"tcp_dst_port", .eq, .integer port.toNat, none⟩) := by
  have small : port.toNat < 65536 := port.toNat_lt
  let atom : FilterAtom :=
    { field := "tcp_dst_port".toList
      op := .eq
      literal := .integer false (Nat.toDigits 10 port.toNat)
      fieldNonempty := by decide
      fieldChars := by simp [isFieldChar, isalnum, Char.isAlphanum]
      comparison := isComparison_eq
      valid := toDigits_digits port.toNat }
  have value : toInt32 (clampLong (signed false ((port.toNat : Nat) : Int))) = port.toNat := by
    unfold toInt32 clampLong signed
    rw [if_neg Bool.false_ne_true]
    omega
  have node : atom.node [] = some (.expr ⟨"tcp_dst_port", .eq,
      .integer (toInt32 (clampLong (signed false
        (decimalValue (Nat.toDigits 10 port.toNat) : Int)))), none⟩) := rfl
  rw [decimalValue_toDigits, value] at node
  exact (nblexFilterNew_atom atom).trans node

/-- The filter takes the packets to the port. -/
theorem inputAccepts_port [Pcre2] [Jansson] [Inet] (ascii : Jansson.TakesAscii)
    (inet : Frames.InetAscii) {input : PcapInput} (ethernet : input.datalink = dltEn10mb)
    {port : UInt16} (filtered : input.filter = nblexFilterNew (portFilterText port))
    {frame : Frames.Frame} {captured : CapturedPacket} (captures : Frames.Captures frame captured)
    (clock : Nat → Nat) (created : Nat) :
    inputAccepts (packetEvent input clock created captured) =
      frame.isTcpTo captured.header.caplen port := by
  have data : (packetEvent input clock created captured).data = some (.object
      (Frames.infoFields input.interface captured.header ++
        frame.fields captured.header.caplen)) := by
    rw [packetEvent, ethernet, Frames.packetData_captures ascii inet captures]
  have source : (packetEvent input clock created captured).input =
      some ⟨some (.expr ⟨"tcp_dst_port", .eq, .integer port.toNat, none⟩)⟩ := by
    rw [packetEvent, filtered, nblexFilterNew_port]
    rfl
  rw [inputAccepts, source]
  dsimp only
  rw [nblexFilterMatches, data]
  dsimp only
  rw [evaluateFilterNode, evaluateFilterExpr, Frames.frame_tcpDstPort, Frames.Frame.isTcpTo]
  cases frame.tcpHeader captured.header.caplen with
  | none => rfl
  | some tcp =>
      show ((tcp.dstPort.toNat : Int) == port.toNat) = decide (tcp.dstPort = port)
      rw [Bool.eq_iff_iff, beq_iff_eq, decide_eq_true_eq, Int.natCast_inj, UInt16.toNat_inj]

/-- An Ethernet input with a filter for a TCP port, on frames that are not cut inside their Ethernet
    header or IP options: in a run that gets past the second free of each event, of the packets
    handed over the handler gets those of the frames that hold a TCP packet to the port and have its
    header captured. -/
theorem captureRun_dstPort [Pcre2] [Jansson] [Inet] (ascii : Jansson.TakesAscii)
    (inet : Frames.InetAscii) {input : PcapInput} (ethernet : input.datalink = dltEn10mb)
    {port : UInt16} (filtered : input.filter = nblexFilterNew (portFilterText port))
    (clock : Nat → Nat) (depth : Nat) (world : World)
    {frames : List (Frames.Frame × CapturedPacket)}
    (each : ∀ entry ∈ frames, Frames.Captures entry.1 entry.2) {ops : List CaptureOp}
    (arrived : arrivedPackets ops = frames.map Prod.snd) :
    ∃ capture, captureRun input clock (depth + 2) (startedCapture world) ops = some capture ∧
      capture.created ≤ frames.length ∧
      capture.world.handled.filter isNetworkEvent = world.handled.filter isNetworkEvent ++
        ((frames.take capture.created).zipIdx.filter fun entry =>
          entry.1.1.isTcpTo entry.1.2.header.caplen port).map fun entry =>
            packetEvent input clock entry.2 entry.1.2 := by
  obtain ⟨capture, run, captured⟩ :=
    (captured_started input clock world).run depth ops
  rw [List.nil_append, arrived] at captured
  refine ⟨capture, run, captured.some_left.trans_eq (List.length_map _), ?_⟩
  rw [captured.handled, ← List.map_take, packetEvents, List.zipIdx_map, List.map_map,
    List.filter_map]
  refine congrArg (_ ++ List.map _ ·) (List.filter_congr fun entry member => ?_)
  have inside := each entry.1 (List.mem_of_mem_take (List.fst_mem_of_mem_zipIdx member))
  exact inputAccepts_port ascii inet ethernet filtered inside clock entry.2

/-- An input with the filter `tcp_dst_port == 443`. -/
def httpsInput : PcapInput :=
  ⟨some (.expr ⟨"tcp_dst_port", .eq, .integer 443, none⟩), "eth0".toList, dltEn10mb⟩

/-- The frame that opens a connection, captured whole. -/
def Frames.synCaptured : CapturedPacket :=
  ⟨⟨0, 0, 58, 58⟩, memoryWith Frames.synFrame.encode fun _ => 0⟩

theorem captureRun_dstPort_syn :
    let _ := literalPcre2
    let _ := acceptingJansson
    let _ := Frames.decimalInet
    Frames.synFrame.isTcpTo 58 443 = true ∧
    ∃ capture, captureRun httpsInput id 2 (startedCapture (openedWorld 100))
        [.arrive Frames.synCaptured, .readable 0 1 ⟨1, false⟩] = some capture ∧
      capture.created ≤ 1 ∧
      capture.world.handled.filter isNetworkEvent =
        (([(Frames.synFrame, Frames.synCaptured)].take capture.created).zipIdx.filter fun entry =>
          entry.1.1.isTcpTo entry.1.2.header.caplen 443).map fun entry =>
            packetEvent httpsInput id entry.2 entry.1.2 := by
  intro _ _ _
  have lies : BytesAt Frames.synCaptured.packet 0 Frames.synFrame.encode := by
    have whole := bytesAt_memoryWith [] Frames.synFrame.encode [] fun _ => 0
    rwa [List.append_nil] at whole
  have captures : Frames.Captures Frames.synFrame Frames.synCaptured :=
    ⟨⟨_, [], lies, List.prefix_append _ [], rfl⟩, Frames.synFrame_headersIn⟩
  have filtered : httpsInput.filter = nblexFilterNew (portFilterText 443) :=
    (nblexFilterNew_port 443).symm
  have each : ∀ entry ∈ [(Frames.synFrame, Frames.synCaptured)],
      Frames.Captures entry.1 entry.2 := by
    intro entry member
    rw [List.mem_singleton.mp member]
    exact captures
  exact ⟨by decide, captureRun_dstPort acceptingJansson_takesAscii Frames.decimalInet_ascii rfl
    filtered id 0 (openedWorld 100) each rfl⟩

/-! ## Filters that are pushed down -/

/-- The fields that are pushed down to the kernel. -/
def networkKeys : List String :=
  ["network.dst_port", "network.src_port", "network.protocol", "network.src_ip", "network.dst_ip"]

section Pushed

variable {packet : Nat → UInt8} {key : String}

theorem get?_set_network (network : key ∈ networkKeys) {other : String}
    (outside : other ∉ networkKeys) (obj : Json) (value : Option Json) :
    (obj.set other value).get? key = obj.get? key := by
  refine Json.get?_set_of_ne ?_ obj value
  rintro rfl
  exact outside network

/-- None of the dissectors gives a field that is pushed down. -/
theorem dissectTransport_get? (network : key ∈ networkKeys) (offset remaining protocol : Nat)
    (event : Json) :
    (dissectTransport packet offset remaining protocol event).value.get? key = event.get? key := by
  rw [dissectTransport]
  split_ifs
  · simp (disch := decide) only [dissectTcp, Recorded.value_bind, Recorded.value_pure,
      get?_set_network network]
  · rfl
  · simp (disch := decide) only [dissectUdp, Recorded.value_bind, Recorded.value_pure,
      get?_set_network network]
  · rfl
  · simp (disch := decide) only [dissectIcmp, Recorded.value_bind, Recorded.value_pure,
      get?_set_network network]
  · rfl
  · rfl

variable [Jansson] [Inet]

theorem dissectIp_get? (network : key ∈ networkKeys) (offset remaining : Nat) (event : Json) :
    (dissectIp packet offset remaining event).value.get? key = event.get? key := by
  simp (disch := decide) only [dissectIp, Recorded.value_bind, dissectTransport_get? network,
    get?_set_network network]

theorem dissectEthernet_get? (network : key ∈ networkKeys) (caplen : Nat) (event : Json) :
    (dissectEthernet packet caplen event).value.get? key = event.get? key := by
  simp (disch := decide) only [dissectEthernet, Recorded.value_bind, Recorded.value_ite,
    Recorded.value_pure, apply_ite (Json.get? · key), dissectIp_get? network,
    get?_set_network network, ite_self]

theorem packetData_get? (network : key ∈ networkKeys) (interface : List Char) (datalink : Nat)
    (header : PacketHeader) :
    (packetData packet interface datalink header).value.get? key = none := by
  have info : (packetInfo interface header).get? key = none := by
    simp (disch := decide) only [packetInfo, get?_set_network network]
    rfl
  rw [packetData, Recorded.value_ite, apply_ite (Json.get? · key), dissectEthernet_get? network]
  exact (ite_self _).trans info

omit [Jansson] [Inet] in
theorem portPrimitive_field {field : String} {port : Int} {text : List Char}
    (pushed : portPrimitive field port = some text) : field ∈ networkKeys := by
  rw [portPrimitive] at pushed
  split_ifs at pushed with dst src
  · exact dst ▸ by decide
  · exact src ▸ by decide

omit [Jansson] [Inet] in
theorem textPrimitive_field {field value : String} {text : List Char}
    (pushed : textPrimitive field value = some text) : field ∈ networkKeys := by
  rw [textPrimitive] at pushed
  split_ifs at pushed with protocol known src dst
  · exact protocol ▸ by decide
  · exact src ▸ by decide
  · exact dst ▸ by decide

omit [Jansson] [Inet] in
/-- What is pushed down asks for one of the fields. -/
theorem translation_field {e : FilterExpr} {text : List Char} (pushed : translation e = some text) :
    e.field ∈ networkKeys := by
  obtain ⟨field, op, value, regexCode⟩ := e
  cases op with
  | eq =>
      cases value with
      | integer n => exact portPrimitive_field pushed
      | real q => exact portPrimitive_field pushed
      | string s => exact textPrimitive_field pushed
      | unset | bool | pattern => cases pushed
  | ne | lt | le | gt | ge | patMatch | patNmatch | isIn | contains => cases pushed

/-- A filter with something to push down takes no packet. -/
theorem inputAccepts_pushed [Pcre2] {input : PcapInput} {filter : FilterNode}
    (filtered : input.filter = some filter) (pushed : nblexFilterToBpf filter ≠ none)
    (clock : Nat → Nat) (created : Nat) (captured : CapturedPacket) :
    inputAccepts (packetEvent input clock created captured) = false := by
  have some_text : pushedTexts filter ≠ [] := fun nothing =>
    pushed (by rw [nblexFilterToBpf_eq, if_pos nothing])
  obtain ⟨text, member⟩ := List.exists_mem_of_ne_nil _ some_text
  obtain ⟨e, onSpine, translated⟩ := List.mem_filterMap.mp member
  have source : (packetEvent input clock created captured).input = some ⟨some filter⟩ := by
    rw [packetEvent, filtered]
    rfl
  refine Bool.eq_false_iff.mpr fun accepts => ?_
  rw [inputAccepts, source] at accepts
  have holds := andSpine_implied accepts e onSpine
  rw [evaluateFilterExpr, packetData_get? (translation_field translated)] at holds
  exact Bool.false_ne_true holds

end Pushed

/-- A packet input whose filter is pushed down to the kernel, in whole or in part: in no run does a
    packet reach the handler, as the data of packets have none of the fields that are pushed
    down. -/
theorem captureRun_pushed [Pcre2] [Jansson] [Inet] {input : PcapInput} {filter : FilterNode}
    (filtered : input.filter = some filter) (pushed : nblexFilterToBpf filter ≠ none)
    (clock : Nat → Nat) (depth : Nat) (world : World) (ops : List CaptureOp) :
    ∃ capture, captureRun input clock (depth + 2) (startedCapture world) ops = some capture ∧
      capture.world.handled.filter isNetworkEvent = world.handled.filter isNetworkEvent := by
  obtain ⟨capture, run, captured⟩ :=
    (captured_started input clock world).run depth ops
  have nothing : (packetEvents input clock 0
      (([] ++ arrivedPackets ops).take capture.created)).filter
      inputAccepts = [] := by
    refine List.filter_eq_nil_iff.mpr fun event member => ?_
    obtain ⟨entry, -, rfl⟩ := List.mem_map.mp member
    exact Bool.eq_false_iff.mp (inputAccepts_pushed filtered pushed clock entry.2 entry.1)
  refine ⟨capture, run, captured.handled.trans ?_⟩
  rw [nothing, List.append_nil]

/-- `network.dst_port == 443`. -/
def pushedInput : PcapInput :=
  ⟨some (.expr ⟨"network.dst_port", .eq, .integer 443, none⟩), "eth0".toList, dltEn10mb⟩

theorem captureRun_pushed_syn :
    let _ := literalPcre2
    let _ := acceptingJansson
    let _ := Frames.decimalInet
    ∃ capture, captureRun pushedInput id 2 (startedCapture (openedWorld 100))
        [.arrive Frames.synCaptured, .readable 0 1 ⟨1, false⟩] = some capture ∧
      capture.world.handled.filter isNetworkEvent = [] := by
  intro _ _ _
  have pushed : nblexFilterToBpf (.expr ⟨"network.dst_port", .eq, .integer 443, none⟩) ≠ none := by
    decide
  exact captureRun_pushed rfl pushed id 0 (openedWorld 100) _

end Nblex
