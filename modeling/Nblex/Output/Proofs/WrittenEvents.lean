import Nblex.Input.Proofs.RecordFiles
import Nblex.Output.FileOutput
import Nblex.Output.JsonOutput

/-!
# Written events read back

A file output and a file input on the same file. The output appends whole lines, so no read comes
while a line is half written, and the input makes one event of each event that was written. Its
data are the object that was written. Rotation is off, as it takes the file from the input.
-/

namespace Nblex

open Http Lines

/-! ## Reading keeps the file -/

theorem fgets_content (file : TailedFile) : (fgets file).2.content = file.content := by
  unfold fgets
  split
  · rfl
  · rfl

theorem readLines_content {fuel : Nat} {file next : TailedFile} {read : List (List UInt8)}
    (ran : readLines fuel file = some (read, next)) : next.content = file.content := by
  induction fuel generalizing file next read with
  | zero => cases ran
  | succ fuel ih =>
      rw [readLines] at ran
      have kept := fgets_content file
      cases here : fgets file with
      | mk buffer after =>
          rw [here] at ran kept
          cases buffer with
          | none =>
              obtain ⟨-, rfl⟩ := Prod.mk.inj (Option.some.inj ran)
              exact kept
          | some buffer =>
              obtain ⟨rest, later, same⟩ := Option.map_eq_some_iff.mp ran
              obtain ⟨-, rfl⟩ := Prod.mk.inj same
              exact (ih later).trans kept

theorem fileReadNewData_content {file next : TailedFile} {statOk : Bool}
    {read : List (List UInt8)} (ran : fileReadNewData file statOk = some (read, next)) :
    next.content = file.content := by
  rw [fileReadNewData] at ran
  split_ifs at ran
  · exact (readLines_content ran).trans rfl
  · obtain ⟨-, rfl⟩ := Prod.mk.inj (Option.some.inj ran)
    rfl
  · exact readLines_content ran
  · exact (readLines_content ran).trans rfl

section Relay

variable [Pcre2] [Jansson] [JanssonTexts] [LocalTime]

theorem readNewEvents_content {input : TailInput} {clock : Nat → Nat} {turns depth : Nat}
    {tail next : Tail} {statOk : Bool}
    (ran : readNewEvents input clock turns depth tail statOk = some next) :
    next.file.content = tail.file.content := by
  rw [readNewEvents_eq] at ran
  obtain ⟨⟨lines, file⟩, read, emitted⟩ := Option.bind_eq_some_iff.mp ran
  obtain ⟨last, -, rfl⟩ := Option.map_eq_some_iff.mp emitted
  exact fileReadNewData_content read

/-! ## An output and an input on one file -/

/-- A file output, the file system, and a file input on the file of the output. -/
structure Relay where
  output : FileOutput
  files : Files
  tail : Tail

/-- One step: an event of an input is written, or new data are read. -/
inductive RelayOp where
  | write (source : Option InputType) (event : Event) (now : Int)
  | read (statOk : Bool)

variable (strftime : Int → List Char) (input : TailInput) (clock : Nat → Nat) (turns depth : Nat)

/-- One step. The input sees what the file holds after a write. -/
def relayStep (relay : Relay) : RelayOp → Option Relay
  | .write source event now =>
      (nblexFileOutputWrite strftime
        (fun event => (nblexEventToJsonString source event).map charBytes)
        relay.output relay.files event now).map fun written =>
          { output := written.output
            files := written.files
            tail := { relay.tail with file := { relay.tail.file with
              content := written.files.contents (fileAt written.output.path) } } }
  | .read statOk =>
      (readNewEvents input clock turns depth relay.tail statOk).map fun tail =>
        { relay with tail := tail }

/-- A sequence of steps. -/
def relayRun (relay : Relay) (ops : List RelayOp) : Option Relay :=
  ops.foldlM (relayStep strftime input clock turns depth) relay

/-- An output that does not rotate, opened on a path, and an input that is started on it. -/
def newRelay (files : Files) (path : List Char) (maxCount now : Int) (world : World) : Relay where
  output := nblexFileOutputSetRotation (nblexFileOutputNew files path none now).1 0 0 maxCount
  files := (nblexFileOutputNew files path none now).2
  tail := ⟨fileInputStart (files.contents (fileAt path)), world, 0⟩

/-- The objects that are written in a run. -/
def writtenObjects (ops : List RelayOp) : List Json :=
  ops.filterMap fun op =>
    match op with
    | .write source event _ => some (eventObject source event)
    | .read _ => none

/-- The text of an object. -/
def dumpedText (root : Json) : List Char := (JanssonTexts.jsonDumps root).getD []

/-- jansson writes the object as one line of a file and reads the line as the object. -/
structure Document (root : Json) : Prop where
  dumps : JanssonTexts.jsonDumps root = some (dumpedText root)
  loads : JanssonTexts.jsonLoads (dumpedText root) = some root
  line : LineText (dumpedText root)

/-- What a step is for the input alone. -/
def RelayOp.tailOp : RelayOp → TailOp
  | .write source event _ =>
      .append (charBytes (dumpedText (eventObject source event)) ++ [newline])
  | .read statOk => .pollTimer statOk

/-- The output does not rotate, and the input sees its file. -/
structure Watching (relay : Relay) : Prop where
  noSize : relay.output.rotationMaxSize = 0
  noAge : relay.output.rotationMaxAge = 0
  has : relay.files.Has (fileAt relay.output.path)
  same : relay.files.contents (fileAt relay.output.path) = relay.tail.file.content

omit [Pcre2] [Jansson] [JanssonTexts] [LocalTime] in
theorem watching_newRelay (files : Files) (path : List Char) (maxCount now : Int) (world : World) :
    Watching (newRelay files path maxCount now world) where
  noSize := rfl
  noAge := rfl
  has := files.openAppend_has (fileAt path) now
  same := files.contents_openAppend (fileAt path) (fileAt path) now

omit [Pcre2] [Jansson] [LocalTime] in
/-- Without rotation a write appends the line and does nothing else. -/
theorem Watching.written {relay : Relay} (watching : Watching relay) {source : Option InputType}
    {event : Event} (document : Document (eventObject source event)) (now : Int) :
    nblexFileOutputWrite strftime
        (fun event => (nblexEventToJsonString source event).map charBytes)
        relay.output relay.files event now =
      let line := charBytes (dumpedText (eventObject source event)) ++ [newline]
      some ⟨{ relay.output with currentSize := relay.output.currentSize + line.length },
        relay.files.append (fileAt relay.output.path) now line, none, line⟩ := by
  have young : ageReached relay.output now = some false := by
    rw [ageReached, watching.noAge, if_pos (le_refl 0)]
  have small : sizeReached relay.output relay.files = false := by
    rw [sizeReached, watching.noSize]
    exact decide_eq_false fun reached => absurd reached.1 (lt_irrefl 0)
  have text : (nblexEventToJsonString source event).map charBytes =
      some (charBytes (dumpedText (eventObject source event))) := by
    rw [nblexEventToJsonString, document.dumps]
    rfl
  rw [nblexFileOutputWrite, rotateFileIfNeeded, young, Option.map_some, Option.map_some, small,
    if_neg (by simp)]
  dsimp only
  rw [text]
  rfl

/-- A step of the input alone is a step of both. -/
theorem Watching.step {relay : Relay} (watching : Watching relay) {op : RelayOp}
    (documents : ∀ root ∈ writtenObjects [op], Document root) {tail : Tail}
    (stepped : tailStep input clock turns depth relay.tail op.tailOp = some tail) :
    ∃ next, relayStep strftime input clock turns depth relay op = some next ∧
      next.tail = tail ∧ Watching next := by
  cases op with
  | write source event now =>
      have document := documents (eventObject source event) List.mem_cons_self
      have content := Directory.contents_append watching.has now
        (charBytes (dumpedText (eventObject source event)) ++ [newline])
      obtain rfl := Option.some.inj stepped
      rw [relayStep, watching.written strftime document now]
      refine ⟨_, rfl, ?_, watching.noSize, watching.noAge,
        Directory.append_has watching.has now _, rfl⟩
      show Tail.mk _ _ _ = Tail.mk _ _ _
      dsimp only
      rw [content, watching.same]
  | read statOk =>
      refine ⟨{ relay with tail := tail }, ?_, rfl, watching.noSize, watching.noAge, watching.has,
        watching.same.trans (readNewEvents_content stepped).symm⟩
      rw [relayStep]
      exact congrArg (Option.map _) stepped

/-- A run of the input alone is a run of both. -/
theorem Watching.run {relay : Relay} (watching : Watching relay) (ops : List RelayOp)
    (documents : ∀ root ∈ writtenObjects ops, Document root) {tail : Tail}
    (ran : tailRun input clock turns depth relay.tail (ops.map RelayOp.tailOp) = some tail) :
    ∃ next, relayRun strftime input clock turns depth relay ops = some next ∧
      next.tail = tail := by
  induction ops generalizing relay with
  | nil => exact ⟨relay, rfl, Option.some.inj ran⟩
  | cons op ops ih =>
      rw [List.map_cons, tailRun, List.foldlM_cons] at ran
      obtain ⟨between, stepped, later⟩ := Option.bind_eq_some_iff.mp ran
      have split : writtenObjects (op :: ops) = writtenObjects [op] ++ writtenObjects ops :=
        List.filterMap_append (l := [op])
      obtain ⟨next, here, rfl, watching'⟩ := watching.step strftime input clock turns depth
        (fun root member => documents root (split ▸ List.mem_append_left _ member)) stepped
      obtain ⟨last, rest, same⟩ := ih watching'
        (fun root member => documents root (split ▸ List.mem_append_right _ member)) later
      refine ⟨last, ?_, same⟩
      rw [relayRun, List.foldlM_cons, here]
      exact rest

/-! ## What the input sees -/

omit [Pcre2] [Jansson] [LocalTime] in
theorem tailedBytes_tailOps (input : TailInput) (ops : List RelayOp) :
    tailedBytes input (ops.map RelayOp.tailOp) =
      fileBytes ((writtenObjects ops).map dumpedText) := by
  induction ops with
  | nil => rfl
  | cons op ops ih =>
      rw [tailedBytes, List.map_cons, List.flatMap_cons]
      cases op with
      | write source event now =>
          exact (appendedBytes_append _ _).trans (congrArg (_ ++ ·) ih)
      | read statOk => exact (appendedBytes_poll _ _).trans ih

omit [Pcre2] [Jansson] [LocalTime] in
/-- Every read comes after a whole line. -/
theorem cleanPolls_tailOps (input : TailInput) (ops : List RelayOp) (statOk : Bool)
    {pending : List UInt8} (ends : EndsLine newline pending) :
    CleanPolls pending (tailedOps input (ops.map RelayOp.tailOp) statOk) := by
  induction ops generalizing pending with
  | nil => exact ⟨.inl ends, trivial⟩
  | cons op ops ih =>
      cases op with
      | write source event now =>
          refine ih fun byte last => ?_
          rw [← List.append_assoc, List.getLast?_concat] at last
          exact (Option.some.inj last).symm
      | read statOk => exact ⟨.inl ends, ih fun byte last => by cases last⟩

omit [Pcre2] in
/-- The line of a document is read as the document. -/
theorem Document.lineData {root : Json} (document : Document root) (isObject : root.isObject = true)
    (turns : Nat) : lineData turns .json (charBytes (dumpedText root)) = some root := by
  rw [Nblex.lineData, parseLine,
    bufferText_charBytes_of_lt fun c member => (document.line.inLine c member).1,
    nblexParseJsonLine, document.loads]
  dsimp only
  rw [if_pos isObject]
  rfl

end Relay

/-- A JSON output that does not rotate and an input on its file, for objects whose lines fit into
    the buffer: whenever the reads come between the writes, after the last one the input has made
    one event of each event that was written, in their order, and the handler has those its filter
    lets through. The data of an event are the object that was written. -/
theorem relayRun_delivers [Pcre2] [Jansson] [JanssonTexts] [LocalTime]
    (strftime : Int → List Char) {input : TailInput} (json : input.format = .json)
    (clock : Nat → Nat) (turns depth : Nat) (files : Files) (path : List Char) (maxCount now : Int)
    (world : World) (ops : List RelayOp) (statOk : Bool)
    (documents : ∀ root ∈ writtenObjects ops, Document root) :
    ∃ relay, relayRun strftime input clock turns (depth + 2)
        (newRelay files path maxCount now world) (ops ++ [.read statOk]) = some relay ∧
      relay.tail.created = (writtenObjects ops).length ∧
      relay.tail.world.handled.filter isLogEvent = world.handled.filter isLogEvent ++
        (lineEvents ⟨input.filter⟩ clock 0 (writtenObjects ops)).filter inputAccepts := by
  have each : ∀ text ∈ (writtenObjects ops).map dumpedText, LineText text := by
    intro text member
    obtain ⟨root, isRoot, rfl⟩ := List.mem_map.mp member
    exact (documents root isRoot).line
  have objects : ∀ root ∈ writtenObjects ops, root.isObject = true := by
    intro root member
    obtain ⟨op, -, here⟩ := List.mem_filterMap.mp member
    cases op with
    | write source event now =>
        obtain rfl := Option.some.inj here
        exact eventObject_isObject source event
    | read statOk => cases here
  have parsed : List.Forall₂ (fun line data => lineData turns input.format line = some data)
      (lines newline (tailedBytes input (ops.map RelayOp.tailOp))) (writtenObjects ops) := by
    rw [tailedBytes_tailOps, lines_fileBytes each, List.map_map, List.forall₂_map_left_iff,
      List.forall₂_same]
    intro root member
    rw [json]
    exact (documents root member).lineData (objects root member) turns
  obtain ⟨file, tailed⟩ := tailRun_emits clock (depth + 2) (files.contents (fileAt path)) world
    (cleanTail_fileBytes each (tailedBytes_tailOps input ops)
      (cleanPolls_tailOps input ops statOk fun byte last => by cases last)) parsed
  obtain ⟨next, run, handled⟩ := worldRun_logs depth
    (lineEvents_log ⟨input.filter⟩ clock 0 (writtenObjects ops)) world
  rw [run, Option.map_some] at tailed
  have same : writtenObjects (ops ++ [.read statOk]) = writtenObjects ops :=
    List.filterMap_append.trans (List.append_nil _)
  have steps : (ops ++ [RelayOp.read statOk]).map RelayOp.tailOp =
      ops.map RelayOp.tailOp ++ [.pollTimer statOk] := List.map_append
  obtain ⟨relay, relayed, same⟩ := (watching_newRelay files path maxCount now world).run strftime
    input clock turns (depth + 2) (ops ++ [.read statOk])
    (fun root member => documents root (same ▸ member)) (steps.symm ▸ tailed)
  exact ⟨relay, relayed, same ▸ rfl, same ▸ handled⟩

/-- A log event with a message. -/
def messageEvent : Event :=
  { nblexEventNew .log (some ⟨none⟩) 5 with
    data := some (.object [("message", .string "x")]) }

/-- The text of the event. -/
def messageEventText : List Char :=
  "\x7b\"type\":\"log\",\"timestamp_ns\":5,\"data\":\x7b\"message\":\"x\"\x7d\x7d".toList

/-- jansson on this event. -/
@[reducible] def messageTexts : JanssonTexts where
  jsonLoads := fun _ => some (eventObject none messageEvent)
  jsonDumps := fun _ => some messageEventText

/-- An input of JSON lines. -/
def jsonInput : TailInput := ⟨.json, none, "/var/log/a".toList, ['a']⟩

theorem relayRun_delivers_message :
    let _ := literalPcre2
    let _ := acceptingJansson
    let _ := epochTime
    let _ := messageTexts
    let events := lineEvents ⟨none⟩ id 0 [eventObject none messageEvent]
    ∃ relay, relayRun (fun _ => []) jsonInput id 0 2
        (newRelay ⟨[], List.nodup_nil⟩ "/var/log/a".toList 10 0 (openedWorld 100))
        ([.read true, .write none messageEvent 0] ++ [.read true]) = some relay ∧
      relay.tail.created = 1 ∧
      relay.tail.world.handled.filter isLogEvent = events.filter inputAccepts := by
  intro _ _ _ texts events
  have length : messageEventText.length = 54 := by decide
  have check : messageEventText.all
      (fun c => c.toNat < 256 && c ≠ '\n' && c ≠ '\x00') = true := by decide +kernel
  have line : LineText messageEventText := by
    refine ⟨List.ne_nil_of_length_pos (by omega), by rw [length, lineLimit]; omega, ?_⟩
    intro c member
    simpa [and_assoc] using List.all_eq_true.mp check c member
  have documents : ∀ root ∈ writtenObjects [.read true, .write none messageEvent 0],
      Document root := by
    intro root member
    obtain rfl : root = eventObject none messageEvent := List.mem_singleton.mp member
    exact ⟨rfl, rfl, line⟩
  exact relayRun_delivers (fun _ => []) rfl id 0 0 ⟨[], List.nodup_nil⟩
    "/var/log/a".toList 10 0 (openedWorld 100)
    [.read true, .write none messageEvent 0] true documents

end Nblex
