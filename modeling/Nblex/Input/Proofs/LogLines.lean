import Nblex.Input.LogLines
import Nblex.Input.Proofs.TailedLines
import Nblex.Correlation.Proofs.Pairs

/-!
# The events of a tailed file

Reading with the events it makes is reading the lines and emitting the events of them afterwards,
as emitting leaves the stream alone. So what is known of the lines of a run holds of its events:
each line makes one, with the data its parser finds in it, and the handler gets those the filter of
the input lets through, in the order of the lines.
-/

namespace Nblex

open Lines

/-- The stream of a tail replaced. -/
def Tail.withFile (tail : Tail) (file : TailedFile) : Tail := { tail with file := file }

/-- What a step does to the stream. -/
def TailOp.fileOps (input : TailInput) : TailOp → List FileOp
  | .append bytes => [.append bytes]
  | .pollTimer statOk => [.poll statOk]
  | .fsEvent filename events status statOk =>
      if fsEventReads input filename events status then [.poll statOk] else []

section Split

variable [Pcre2] [Jansson] [JanssonTexts] [LocalTime]
variable (input : TailInput) (clock : Nat → Nat) (turns depth : Nat)

/-- Emitting leaves the stream alone, and does not look at it. -/
theorem emitLines_withFile (file : TailedFile) (lines : List (List UInt8)) (tail : Tail) :
    emitLines input clock turns depth (tail.withFile file) lines =
      (emitLines input clock turns depth tail lines).map (·.withFile file) := by
  induction lines generalizing tail with
  | nil => rfl
  | cons line lines ih =>
      simp only [emitLines, List.foldlM_cons] at ih ⊢
      cases lineData turns input.format line with
      | none => rfl
      | some data =>
          simp only [Tail.withFile, Option.bind_eq_bind, Option.bind_some] at ih ⊢
          cases nblexEventEmit depth tail.world
              (lineEvent ⟨input.filter⟩ clock tail.created data) with
          | none => rfl
          | some world => exact ih ⟨tail.file, world, tail.created + 1⟩

theorem emitLines_append (tail : Tail) (first later : List (List UInt8)) :
    emitLines input clock turns depth tail (first ++ later) =
      (emitLines input clock turns depth tail first).bind fun tail =>
        emitLines input clock turns depth tail later := List.foldlM_append

/-- What reading makes of the lines it gives and the stream it leaves. -/
def emitRead (tail : Tail) (read : Option (List (List UInt8) × TailedFile)) : Option Tail :=
  read.bind fun read =>
    (emitLines input clock turns depth tail read.1).map (·.withFile read.2)

/-- Lines that are read before others are emitted before them. -/
theorem emitRead_cons (tail : Tail) (first : List (List UInt8))
    (read : Option (List (List UInt8) × TailedFile)) :
    emitRead input clock turns depth tail (read.map fun read => (first ++ read.1, read.2)) =
      (emitLines input clock turns depth tail first).bind fun tail =>
        emitRead input clock turns depth tail read := by
  cases read with
  | none =>
      cases emitLines input clock turns depth tail first with
      | none => rfl
      | some tail => rfl
  | some read =>
      show (emitLines input clock turns depth tail (first ++ read.1)).map _ = _
      rw [emitLines_append]
      cases emitLines input clock turns depth tail first with
      | none => rfl
      | some tail => rfl

theorem emitRead_withFile (tail : Tail) (file : TailedFile)
    (read : Option (List (List UInt8) × TailedFile)) :
    emitRead input clock turns depth (tail.withFile file) read =
      emitRead input clock turns depth tail read := by
  cases read with
  | none => rfl
  | some read =>
      show (emitLines input clock turns depth (tail.withFile file) read.1).map _ = _
      rw [emitLines_withFile, Option.map_map]
      rfl

/-- The reading loop reads its lines and emits their events. The induction is on the fuel; the
    lines of the buffer are emitted before those read later. -/
theorem readEvents_eq (fuel : Nat) (tail : Tail) :
    readEvents input clock turns depth fuel tail =
      emitRead input clock turns depth tail (readLines fuel tail.file) := by
  induction fuel generalizing tail with
  | zero => rfl
  | succ fuel ih =>
      rw [readEvents, readLines]
      cases read : fgets tail.file with
      | mk buffer file =>
          cases buffer with
          | none => rfl
          | some buffer =>
              dsimp only
              rw [emitRead_cons]
              show (emitLines input clock turns depth (tail.withFile file) _).bind _ = _
              rw [emitLines_withFile]
              cases emitted : emitLines input clock turns depth tail (bufferLine buffer) with
              | none => rfl
              | some next =>
                  rw [Option.map_some, Option.bind_some, Option.bind_some, ih,
                    emitRead_withFile]
                  rfl

theorem readNewEvents_eq (tail : Tail) (statOk : Bool) :
    readNewEvents input clock turns depth tail statOk =
      emitRead input clock turns depth tail (fileReadNewData tail.file statOk) := by
  have cleared : ∀ fuel, readEvents input clock turns depth fuel
        (tail.withFile { tail.file with eof := false }) =
      emitRead input clock turns depth tail (readLines fuel { tail.file with eof := false }) := by
    intro fuel
    rw [readEvents_eq, emitRead_withFile]
    rfl
  rw [readNewEvents, fileReadNewData]
  split_ifs
  · exact cleared _
  · rfl
  · exact readEvents_eq input clock turns depth _ tail
  · exact cleared _

/-! ## Runs -/

/-- A step that reads is the polls of the stream before the later steps. -/
theorem emitRead_poll (tail : Tail) (statOk : Bool) (ops : List FileOp) :
    emitRead input clock turns depth tail (fileRun tail.file (.poll statOk :: ops)) =
      (emitRead input clock turns depth tail (fileReadNewData tail.file statOk)).bind fun tail =>
        emitRead input clock turns depth tail (fileRun tail.file ops) := by
  rw [fileRun]
  cases fileReadNewData tail.file statOk with
  | none => rfl
  | some read =>
      dsimp only
      rw [emitRead_cons]
      show _ = ((emitLines input clock turns depth tail read.1).map _).bind _
      cases emitLines input clock turns depth tail read.1 with
      | none => rfl
      | some next =>
          rw [Option.map_some, Option.bind_some, Option.bind_some, emitRead_withFile]
          rfl

/-- A run is the run of its stream, with the events of the lines emitted. -/
theorem tailRun_eq (tail : Tail) (ops : List TailOp) :
    tailRun input clock turns depth tail ops =
      emitRead input clock turns depth tail
        (fileRun tail.file (ops.flatMap (TailOp.fileOps input))) := by
  induction ops generalizing tail with
  | nil => rfl
  | cons op ops ih =>
      have reads : ∀ statOk, (readNewEvents input clock turns depth tail statOk).bind
            (fun tail => tailRun input clock turns depth tail ops) =
          emitRead input clock turns depth tail
            (fileRun tail.file (.poll statOk :: ops.flatMap (TailOp.fileOps input))) := by
        intro statOk
        rw [readNewEvents_eq, emitRead_poll]
        simp only [ih]
      rw [tailRun, List.foldlM_cons, List.flatMap_cons]
      cases op with
      | append bytes =>
          refine (ih { tail with
            file := { tail.file with content := tail.file.content ++ bytes } }).trans ?_
          exact emitRead_withFile input clock turns depth tail _ _
      | pollTimer statOk => exact reads statOk
      | fsEvent filename events status statOk =>
          rw [tailStep, TailOp.fileOps]
          by_cases here : fsEventReads input filename events status = true
          · rw [if_pos here, if_pos here]
            exact reads statOk
          · rw [if_neg here, if_neg here]
            exact ih tail

end Split

/-! ## Emissions -/

/-- The events of the data of consecutive lines. -/
def lineEvents (input : Input) (clock : Nat → Nat) (created : Nat) (datas : List Json) :
    List Event :=
  (datas.zipIdx created).map fun entry => lineEvent input clock entry.2 entry.1

section Emit

variable [Pcre2]

/-- Emitting an event ends, and hands it over if its input lets it through; what else is handed over
    are correlations. -/
theorem nblexEventEmit_handled (depth : Nat) (world : World) (event : Event)
    {wanted : Event → Bool}
    (noPairs : ∀ result, result.type = .correlation → wanted result = false) :
    ∃ next, nblexEventEmit (depth + 2) world event = some next ∧
      next.handled.filter wanted =
        world.handled.filter wanted ++ ([event].filter inputAccepts).filter wanted := by
  cases accepts : inputAccepts event with
  | false =>
      refine ⟨world, ?_, by simp [accepts]⟩
      rw [nblexEventEmit, if_neg (by simp [accepts])]
  | true =>
      cases engine : world.correlation with
      | none =>
          refine ⟨{ world with
            eventsProcessed := world.eventsProcessed + 1
            handled := world.handled ++ [event] }, ?_, by simp [accepts]⟩
          rw [nblexEventEmit, if_pos accepts, nblexCorrelationProcessEvent, correlationCheckEvent]
          simp only [engine, Option.map_some, Option.map_none]
      | some corr =>
          refine ⟨world.afterEmit corr event, nblexEventEmit_step engine accepts, ?_⟩
          have noResults : ((foundPairs corr event).map (pairEvent corr.windowNs)).filter
              wanted = [] := by
            refine List.filter_eq_nil_iff.mpr fun result member => ?_
            obtain ⟨pair, -, rfl⟩ := List.mem_map.mp member
            exact Bool.eq_false_iff.mp (noPairs _ rfl)
          simp [World.afterEmit, noResults, accepts]

/-- Events that are emitted are handed over in their order, those that are let through. -/
theorem worldRun_handled (depth : Nat) (events : List Event) {wanted : Event → Bool}
    (noPairs : ∀ result, result.type = .correlation → wanted result = false) (world : World) :
    ∃ next, worldRun (depth + 2) world (events.map .emit) = some next ∧
      next.handled.filter wanted =
        world.handled.filter wanted ++ (events.filter inputAccepts).filter wanted := by
  induction events generalizing world with
  | nil => exact ⟨world, rfl, (List.append_nil _).symm⟩
  | cons event events ih =>
      obtain ⟨here, emitted, handled⟩ := nblexEventEmit_handled depth world event noPairs
      obtain ⟨next, run, later⟩ := ih here
      refine ⟨next, ?_, ?_⟩
      · rw [worldRun, List.map_cons, List.foldlM_cons, worldStep, emitted]
        exact run
      · have split : (event :: events).filter inputAccepts =
            [event].filter inputAccepts ++ events.filter inputAccepts :=
              List.filter_append [event] events
        rw [later, handled, split, List.append_assoc, List.filter_append (p := wanted)]

theorem worldRun_logs (depth : Nat) {events : List Event}
    (logs : ∀ event ∈ events, event.type = .log) (world : World) :
    ∃ next, worldRun (depth + 2) world (events.map .emit) = some next ∧
      next.handled.filter isLogEvent =
        world.handled.filter isLogEvent ++ events.filter inputAccepts := by
  have noPairs : ∀ result : Event, result.type = .correlation → isLogEvent result = false := by
    intro result isPair
    simp [isLogEvent, isPair]
  obtain ⟨next, run, handled⟩ := worldRun_handled depth events noPairs world
  refine ⟨next, run, handled.trans (congrArg _ (List.filter_eq_self.mpr fun event member => ?_))⟩
  exact decide_eq_true (logs event (List.mem_of_mem_filter member))

variable [Jansson] [JanssonTexts] [LocalTime]

/-- The events of lines whose data are known are emitted one after the other. -/
theorem emitLines_events (input : TailInput) (clock : Nat → Nat) (turns depth : Nat)
    {lines : List (List UInt8)} {datas : List Json}
    (parsed : List.Forall₂ (fun line data => lineData turns input.format line = some data)
      lines datas) (tail : Tail) :
    emitLines input clock turns depth tail lines =
      (worldRun depth tail.world
        ((lineEvents ⟨input.filter⟩ clock tail.created datas).map .emit)).map fun world =>
          { tail with world := world, created := tail.created + datas.length } := by
  induction parsed generalizing tail with
  | nil => rfl
  | cons here later ih =>
      rename_i line data lines datas
      rw [lineEvents, List.zipIdx_cons, List.map_cons, List.map_cons, worldRun, List.foldlM_cons,
        worldStep]
      simp only [emitLines, List.foldlM_cons, here, Option.bind_eq_bind, Option.bind_some] at ih ⊢
      cases nblexEventEmit depth tail.world
          (lineEvent ⟨input.filter⟩ clock tail.created data) with
      | none => rfl
      | some world =>
          refine (ih ⟨tail.file, world, tail.created + 1⟩).trans ?_
          rw [Option.bind_some, List.length_cons, Nat.add_right_comm, Nat.add_assoc]
          rfl

end Emit

/-! ## Deliveries -/

/-- The bytes appended in a run. -/
def tailedBytes (input : TailInput) (ops : List TailOp) : List UInt8 :=
  appendedBytes (ops.flatMap (TailOp.fileOps input))

/-- The steps of a run that ends with a read, on the stream. -/
def tailedOps (input : TailInput) (ops : List TailOp) (statOk : Bool) : List FileOp :=
  ops.flatMap (TailOp.fileOps input) ++ [.poll statOk]

/-- No read of a run comes while a line is half written, and no line holds a NUL or is longer than
    the buffer. -/
structure CleanTail (input : TailInput) (ops : List TailOp) (statOk : Bool) : Prop where
  noNul : ∀ byte ∈ tailedBytes input ops, byte ≠ 0
  whole : CleanPolls [] (tailedOps input ops statOk)
  short : ∀ line ∈ lines newline (tailedBytes input ops), line.length ≤ lineLimit

/-- The lines read in a run are those that were appended. -/
theorem CleanTail.fileRun {input : TailInput} {ops : List TailOp} {statOk : Bool}
    (clean : CleanTail input ops statOk) (content : List UInt8) :
    ∃ file, fileRun (fileInputStart content) (tailedOps input ops statOk) =
      some (lines newline (tailedBytes input ops), file) := by
  have nothing : (fileInputStart content).unread = [] :=
    List.drop_eq_nil_iff.mpr (Nat.le_refl _)
  have bytes : appendedBytes (tailedOps input ops statOk) = tailedBytes input ops := by
    rw [tailedOps, appendedBytes, List.flatMap_append]
    exact List.append_nil _
  have inside : (fileInputStart content).pos ≤ (fileInputStart content).content.length :=
    Nat.le_refl _
  obtain ⟨pieces, file, run, read⟩ := fileRun_spec (tailedOps input ops statOk) inside
    (by rw [nothing, List.nil_append, bytes]; exact clean.noNul)
  have compare := lines_pieces_iff read
  rw [nothing, tailedOps, pollParts_flatten, List.nil_append, ← tailedOps] at compare
  refine ⟨file, run.trans ?_⟩
  rw [compare.mpr ⟨(cleanPolls_iff statOk _ _).mp clean.whole, clean.short⟩]
  rfl

theorem lineEvents_log (input : Input) (clock : Nat → Nat) (created : Nat) (datas : List Json) :
    ∀ event ∈ lineEvents input clock created datas, event.type = .log := by
  intro event member
  obtain ⟨entry, -, rfl⟩ := List.mem_map.mp member
  rfl

/-- A run that ends with a read emits the events of the lines that were appended. -/
theorem tailRun_emits [Pcre2] [Jansson] [JanssonTexts] [LocalTime] {input : TailInput}
    (clock : Nat → Nat) {turns : Nat} (depth : Nat) (content : List UInt8) (world : World)
    {ops : List TailOp} {statOk : Bool} (clean : CleanTail input ops statOk) {datas : List Json}
    (parsed : List.Forall₂ (fun line data => lineData turns input.format line = some data)
      (lines newline (tailedBytes input ops)) datas) :
    ∃ file, tailRun input clock turns depth ⟨fileInputStart content, world, 0⟩
        (ops ++ [.pollTimer statOk]) =
      (worldRun depth world ((lineEvents ⟨input.filter⟩ clock 0 datas).map .emit)).map
        fun next => ⟨file, next, datas.length⟩ := by
  obtain ⟨file, read⟩ := clean.fileRun content
  have steps : (ops ++ [TailOp.pollTimer statOk]).flatMap (TailOp.fileOps input) =
      tailedOps input ops statOk := List.flatMap_append
  refine ⟨file, ?_⟩
  rw [tailRun_eq, steps, read, emitRead, Option.bind_some,
    emitLines_events input clock turns depth parsed, Option.map_map, Nat.zero_add]
  rfl

/-- What the handler gets of a tailed file whose run ends with a read, if no read comes inside a
    line, no line is longer than the buffer or holds a NUL, and the parser ends on every line: the
    log events of the lines that were appended, with the data their parser found, in their order,
    those the filter lets through. The world is left as by emitting these events. -/
theorem tailRun_delivers [Pcre2] [Jansson] [JanssonTexts] [LocalTime] (input : TailInput)
    (clock : Nat → Nat) (turns depth : Nat) (content : List UInt8) (world : World)
    (ops : List TailOp) (statOk : Bool) (clean : CleanTail input ops statOk)
    {datas : List Json}
    (parsed : List.Forall₂ (fun line data => lineData turns input.format line = some data)
      (lines newline (tailedBytes input ops)) datas) :
    ∃ tail, tailRun input clock turns (depth + 2) ⟨fileInputStart content, world, 0⟩
        (ops ++ [.pollTimer statOk]) = some tail ∧
      tail.created = datas.length ∧
      worldRun (depth + 2) world ((lineEvents ⟨input.filter⟩ clock 0 datas).map .emit) =
        some tail.world ∧
      tail.world.handled.filter isLogEvent = world.handled.filter isLogEvent ++
        (lineEvents ⟨input.filter⟩ clock 0 datas).filter inputAccepts := by
  obtain ⟨next, run, handled⟩ :=
    worldRun_logs depth (lineEvents_log ⟨input.filter⟩ clock 0 datas) world
  obtain ⟨file, tailed⟩ := tailRun_emits clock (depth + 2) content world clean parsed
  refine ⟨⟨file, next, datas.length⟩, ?_, rfl, run, handled⟩
  rw [tailed, run]
  rfl

/-- An input of lines that are messages. -/
def messageInput : TailInput := ⟨.regex, none, "/var/log/a".toList, ['a']⟩

/-- Two lines, with a change of another file between them. -/
def twoLineOps : List TailOp :=
  [.append [120, 10], .fsEvent (some ['b']) 2 0 true, .append [121, 10]]

theorem twoLineOps_clean : CleanTail messageInput twoLineOps true where
  noNul := by
    have check : (tailedBytes messageInput twoLineOps).all (fun byte => byte ≠ 0) = true := by
      decide
    exact fun byte member => of_decide_eq_true (List.all_eq_true.mp check byte member)
  whole := by
    refine ⟨.inl fun byte last => ?_, trivial⟩
    simpa [newline, eq_comm] using last
  short := by
    rw [show lines newline (tailedBytes messageInput twoLineOps) = [[120], [121]] by decide]
    decide

theorem tailRun_delivers_twoLines :
    let _ := literalPcre2
    let _ := acceptingJansson
    let _ := epochTime
    let _ : JanssonTexts := ⟨fun _ => none, fun _ => none⟩
    let events := lineEvents ⟨none⟩ id 0 [messageObject ['x'], messageObject ['y']]
    ∃ tail, tailRun messageInput id 0 2 ⟨fileInputStart [], openedWorld 100, 0⟩
        (twoLineOps ++ [.pollTimer true]) = some tail ∧
      tail.created = 2 ∧
      worldRun 2 (openedWorld 100) (events.map .emit) = some tail.world ∧
      tail.world.handled.filter isLogEvent = events.filter inputAccepts := by
  intro _ _ _ _ events
  have parsed : List.Forall₂ (fun line data => lineData 0 messageInput.format line = some data)
      (lines newline (tailedBytes messageInput twoLineOps))
      [messageObject ['x'], messageObject ['y']] := by
    rw [show lines newline (tailedBytes messageInput twoLineOps) = [[120], [121]] by decide]
    exact .cons rfl (.cons rfl .nil)
  exact tailRun_delivers messageInput id 0 0 [] (openedWorld 100) twoLineOps true twoLineOps_clean
    parsed

end Nblex
