import Nblex.Output.MetricsOutput
import Nblex.Misc.Guarded

/-!
# The file of a metrics output

A flush writes over the start of the file and leaves the rest of it alone. So the file holds the
exposition of the counters and of the metrics since the last flush, and nothing else, just in case
no flush writes less than the file holds.
-/

namespace Nblex

/-! ## What has been written -/

section Expected

variable (jsonDumpb : Json → Nat)

/-- The size of the text of an event. -/
def eventBytes (event : Event) : Nat :=
  match event.data with
  | none => 0
  | some data => jsonDumpb data

/-- How many events of a type there are. -/
def typeCount (events : List Event) (type : EventType) : Nat :=
  (events.filter (fun event => event.type = type)).length

/-- The counters after a list of events. -/
def countersOf (events : List Event) : MetricsCounters where
  eventsTotal := events.length % 2 ^ 64
  eventsByType :=
    [EventType.log, .network, .correlation, .error].map (fun type =>
      typeCount events type % 2 ^ 64)
  bytesProcessed := (events.map (eventBytes jsonDumpb)).sum % 2 ^ 64
  correlationsFound := typeCount events .correlation % 2 ^ 64

/-- The metrics of a list of events, the last one first. -/
def metricsOf (events : List Event) : List AggregationMetric :=
  (events.flatMap eventMetrics).reverse

theorem u64Add_mod (a b : Nat) : u64Add (a % 2 ^ 64) b = (a + b) % 2 ^ 64 :=
  Nat.mod_add_mod a (2 ^ 64) b

theorem typeCount_snoc (events : List Event) (event : Event) (type : EventType) :
    typeCount (events ++ [event]) type =
      typeCount events type + if event.type = type then 1 else 0 := by
  unfold typeCount
  rw [List.filter_append, List.length_append]
  split <;> simp_all

/-- The counters follow the events. -/
theorem countersOf_snoc (events : List Event) (event : Event) :
    countersOf jsonDumpb (events ++ [event]) =
      countEvent jsonDumpb (countersOf jsonDumpb events) event := by
  refine MetricsCounters.ext ?_ ?_ ?_ ?_
  · simp only [countersOf, countEvent, u64Add_mod, List.length_append, List.length_singleton]
  · simp only [countersOf, countEvent, typeCount_snoc]
    cases event.type <;> simp [EventType.index, u64Add]
  · simp only [countersOf, countEvent, List.map_append, List.sum_append, List.map_cons,
      List.map_nil, List.sum_cons, List.sum_nil, eventBytes]
    cases event.data with
    | none => rfl
    | some data => exact (u64Add_mod _ _).symm
  · simp only [countersOf, countEvent, typeCount_snoc]
    split
    · exact (u64Add_mod _ _).symm
    · rfl

theorem metricsOf_snoc (events : List Event) (event : Event) :
    metricsOf (events ++ [event]) = (eventMetrics event).reverse ++ metricsOf events := by
  simp [metricsOf]

end Expected

/-! ## Runs -/

/-- A run: the output, unless its behaviour has become undefined, all events that have been
    written, and those since the last flush. -/
structure MetricsRun where
  output : Option MetricsOutput
  events : List Event
  recent : List Event

/-- A flush: the content of the file after it, and the exposition the file should hold. -/
structure FlushRecord where
  content : Option (List UInt8)
  expected : Option String

section Run

variable (jsonDumpb : Json → Nat)

/-- An event has been written. -/
def MetricsRun.add (run : MetricsRun) (event : Event) : MetricsRun :=
  { run with
    events := run.events ++ [event]
    recent := run.recent ++ [event] }

/-- A flush has been done, with the output after it. -/
def MetricsRun.flushed (run : MetricsRun) (output : Option MetricsOutput) :
    MetricsRun × List FlushRecord :=
  (⟨output, run.events, []⟩, [⟨output.map MetricsOutput.file,
    exposition (countersOf jsonDumpb run.events) (metricsOf run.recent)⟩])

/-- One call, with the flush it does. -/
def metricsStep (run : MetricsRun) (op : MetricsOp) : MetricsRun × List FlushRecord :=
  match run.output with
  | none => (run, [])
  | some output =>
      match op with
      | .write event now now' =>
          let written := nblexMetricsOutputWrite jsonDumpb output event now now'
          if flushIsDue (recordEvent jsonDumpb output event) now then
            (run.add event).flushed jsonDumpb written
          else ({ run.add event with output := written }, [])
      | .flush now => run.flushed jsonDumpb (nblexMetricsOutputFlush output now)
      | .setFlushInterval seconds =>
          ({ run with output := some (nblexMetricsOutputSetFlushInterval output seconds) }, [])

/-- A Prometheus output before the first call. -/
def newMetricsRun (now : Int) : MetricsRun :=
  ⟨some (nblexMetricsOutputNew (some "prometheus") now), [], []⟩

/-- The output follows the events of the run. -/
def MetricsRun.Follows (run : MetricsRun) (output : MetricsOutput) : Prop :=
  output.format = "prometheus" ∧ output.counters = countersOf jsonDumpb run.events ∧
    output.aggregationMetrics = metricsOf run.recent

theorem MetricsRun.Follows.add {run : MetricsRun} {output : MetricsOutput}
    (follows : run.Follows jsonDumpb output) (event : Event) :
    (run.add event).Follows jsonDumpb (recordEvent jsonDumpb output event) := by
  obtain ⟨format, counters, metrics⟩ := follows
  refine ⟨format, ?_, ?_⟩
  · show countEvent jsonDumpb output.counters event = _
    rw [counters, MetricsRun.add, countersOf_snoc]
  · show (eventMetrics event).reverse ++ output.aggregationMetrics = _
    rw [metrics, MetricsRun.add, metricsOf_snoc]

theorem MetricsRun.Follows.text {run : MetricsRun} {output : MetricsOutput}
    (follows : run.Follows jsonDumpb output) :
    flushText output = exposition (countersOf jsonDumpb run.events) (metricsOf run.recent) := by
  obtain ⟨format, counters, metrics⟩ := follows
  rw [flushText, if_pos format, counters, metrics]

theorem flushed_follows {run : MetricsRun} {output after : MetricsOutput}
    (follows : run.Follows jsonDumpb output) {now : Int}
    (flushed : nblexMetricsOutputFlush output now = some after) :
    (run.flushed jsonDumpb (some after)).1.Follows jsonDumpb after := by
  obtain ⟨text, -, rfl⟩ := Option.map_eq_some_iff.mp flushed
  exact ⟨follows.1, follows.2.1, rfl⟩

theorem metricsStep_follows {run : MetricsRun}
    (follows : ∀ output ∈ run.output, run.Follows jsonDumpb output) (op : MetricsOp) :
    ∀ output ∈ (metricsStep jsonDumpb run op).1.output,
      (metricsStep jsonDumpb run op).1.Follows jsonDumpb output := by
  unfold metricsStep
  cases running : run.output with
  | none =>
      intro output member
      exact follows output member
  | some output =>
      have here := follows output running
      cases op with
      | write event now now' =>
          dsimp only [nblexMetricsOutputWrite]
          have added := here.add jsonDumpb event
          split
          · intro after flushed
            exact flushed_follows jsonDumpb added flushed
          · rintro after ⟨⟩
            exact added
      | flush now =>
          intro after flushed
          exact flushed_follows jsonDumpb here flushed
      | setFlushInterval seconds =>
          rintro after ⟨⟩
          dsimp only [nblexMetricsOutputSetFlushInterval]
          split <;> exact here

end Run

/-- The result of `aggregate count()`. -/
def countResult : Event where
  type := .log
  timestampNs := 1000
  input := none
  data := some (.object
    [("nql_result_type", .string "aggregation"), ("metrics", .object [("count", .integer 10)])])

end Nblex
