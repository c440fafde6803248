import Nblex.NblexInternal
import Nblex.Misc.Word64
import Nblex.Core.NqlExecutor.Buckets

/-!
# Metrics output

`src/output/metrics_output.c` with the Prometheus format: events are counted, the metrics of
aggregation results are stored, and a flush writes both over the start of the open file. The size
of the JSON text of an event is a parameter. Allocation is assumed to succeed, and writing to the
file.
-/

namespace Nblex

/-- `aggregation_metric_s`. -/
structure AggregationMetric where
  metricName : String
  labels : Option Json
  value : ℚ

/-- The counters of `metrics_output_s`; `eventsByType` has one for each event type. -/
@[ext] structure MetricsCounters where
  eventsTotal : Nat
  eventsByType : List Nat
  bytesProcessed : Nat
  correlationsFound : Nat

/-- `metrics_output_s`. `file` is the content of the file at `path`, and the last metric of
    `aggregationMetrics` was stored first. -/
structure MetricsOutput where
  file : List UInt8
  format : String
  lastFlush : Int
  flushInterval : Int
  counters : MetricsCounters
  aggregationMetrics : List AggregationMetric

/-! ## Labels and samples -/

/-- `json_string_value`. -/
def jsonStringValue : Json → Option String
  | .string s => some s
  | _ => none

/-- The size `format_prometheus_labels` allocates: a value that is no string is not counted. -/
def labelsSize (fields : List (String × Json)) : Nat :=
  fields.foldl (fun size entry =>
    match jsonStringValue entry.2 with
    | some valStr => size + (entry.1.utf8ByteSize + valStr.utf8ByteSize + 5)
    | none => size) 2

/-- One label. A value that is no string leaves its text out. -/
def labelText (entry : String × Json) : String :=
  entry.1 ++ "=\"" ++ (jsonStringValue entry.2).getD "" ++ "\""

/-- The labels between the braces. -/
def labelsBody : List (String × Json) → String
  | [] => ""
  | [entry] => labelText entry
  | entry :: fields => labelText entry ++ "," ++ labelsBody fields

/-- The text `format_prometheus_labels` assembles. -/
def labelsText (fields : List (String × Json)) : String := "\x7b" ++ labelsBody fields ++ "\x7d"

/-- `format_prometheus_labels`. `none` is a write beyond the end of its buffer, which has to hold
    the terminating NUL as well. -/
def formatPrometheusLabels : Option Json → Option String
  | some (.object fields) =>
      if (labelsText fields).utf8ByteSize < labelsSize fields then some (labelsText fields)
      else none
  | _ => some ""

/-- The line `nblex_metrics_output_flush` writes for a stored metric and the text of its labels;
    `labels_str + 1` skips the opening brace. -/
def sampleLine (metric : AggregationMetric) (labelsStr : String) : String :=
  if 2 < labelsStr.utf8ByteSize then
    "nblex_aggregation\x7bmetric=\"" ++ metric.metricName ++ "\"," ++
      String.ofList labelsStr.toList.tail ++ "\x7d " ++ formatFixed6 metric.value
  else
    "nblex_aggregation\x7bmetric=\"" ++ metric.metricName ++ "\"\x7d " ++
      formatFixed6 metric.value

/-- The line of a stored metric. -/
def metricLine (metric : AggregationMetric) : Option String :=
  (formatPrometheusLabels metric.labels).map (sampleLine metric)

/-- The lines of all stored metrics. -/
def sampleLines (metrics : List AggregationMetric) : Option (List String) :=
  metrics.mapM metricLine

theorem sampleLines_cons (metric : AggregationMetric) (metrics : List AggregationMetric) :
    sampleLines (metric :: metrics) =
      (metricLine metric).bind (fun line => (sampleLines metrics).map (line :: ·)) := by
  rw [sampleLines, List.mapM_cons, ← sampleLines]
  simp only [Option.map_eq_bind]
  rfl

/-! ## The exposition -/

/-- `type_names`. -/
def typeNames : List String := ["unknown", "log", "network", "correlation"]

/-- The lines of the counters. -/
def counterLines (counters : MetricsCounters) : List String :=
  ["# HELP nblex_events_total Total number of events processed",
    "# TYPE nblex_events_total counter",
    "nblex_events_total " ++ toString counters.eventsTotal,
    "# HELP nblex_events_by_type Events by type",
    "# TYPE nblex_events_by_type counter"] ++
  (typeNames.zip counters.eventsByType).filterMap (fun entry =>
    if 0 < entry.2 then
      some ("nblex_events_by_type\x7btype=\"" ++ entry.1 ++ "\"\x7d " ++ toString entry.2)
    else none) ++
  ["# HELP nblex_bytes_processed Total bytes processed",
    "# TYPE nblex_bytes_processed counter",
    "nblex_bytes_processed " ++ toString counters.bytesProcessed,
    "# HELP nblex_correlations_found Total correlations found",
    "# TYPE nblex_correlations_found counter",
    "nblex_correlations_found " ++ toString counters.correlationsFound]

/-- The lines in front of those of the stored metrics. -/
def metricHeader (metrics : List AggregationMetric) : List String :=
  if metrics.isEmpty then []
  else
    ["# HELP nblex_aggregation Aggregation metrics from nQL queries",
      "# TYPE nblex_aggregation gauge"]

/-- The text of a flush in the Prometheus format. -/
def exposition (counters : MetricsCounters) (metrics : List AggregationMetric) : Option String :=
  (sampleLines metrics).map (fun lines =>
    String.join ((counterLines counters ++ metricHeader metrics ++ lines).map (· ++ "\n")))

/-! ## Flushing -/

/-- The bytes of a text. -/
def textBytes (text : String) : List UInt8 := text.toUTF8.data.toList

/-- `rewind`, `fprintf` and `fflush`: the bytes go over the start of the file. -/
def overwrite (file bytes : List UInt8) : List UInt8 := bytes ++ file.drop bytes.length

/-- The text `nblex_metrics_output_flush` writes. -/
def flushText (output : MetricsOutput) : Option String :=
  if output.format = "prometheus" then exposition output.counters output.aggregationMetrics
  else some ""

/-- `nblex_metrics_output_flush`. `none` is undefined behaviour. -/
def nblexMetricsOutputFlush (output : MetricsOutput) (now : Int) : Option MetricsOutput :=
  (flushText output).map (fun text =>
    { output with
      file := overwrite output.file (textBytes text)
      lastFlush := now
      aggregationMetrics := [] })

/-! ## Writing -/

/-- `nblex_metrics_output_new`: the file is opened with "w". -/
def nblexMetricsOutputNew (format : Option String) (now : Int) : MetricsOutput where
  file := []
  format := format.getD "prometheus"
  lastFlush := now
  flushInterval := 60
  counters := ⟨0, [0, 0, 0, 0], 0, 0⟩
  aggregationMetrics := []

/-- `nblex_metrics_output_set_flush_interval`. -/
def nblexMetricsOutputSetFlushInterval (output : MetricsOutput) (seconds : Int) : MetricsOutput :=
  if seconds ≤ 0 then output else { output with flushInterval := seconds }

/-- The number of an event type. -/
def EventType.index : EventType → Nat
  | .log => 0
  | .network => 1
  | .correlation => 2
  | .error => 3

/-- The counters after an event. `jsonDumpb` gives the size of the text of its data. -/
def countEvent (jsonDumpb : Json → Nat) (counters : MetricsCounters) (event : Event) :
    MetricsCounters where
  eventsTotal := u64Add counters.eventsTotal 1
  eventsByType := counters.eventsByType.modify event.type.index (u64Add · 1)
  bytesProcessed :=
    match event.data with
    | none => counters.bytesProcessed
    | some data => u64Add counters.bytesProcessed (jsonDumpb data)
  correlationsFound :=
    if event.type = .correlation then u64Add counters.correlationsFound 1
    else counters.correlationsFound

/-- The value of a number. -/
def jsonNumber : Json → Option ℚ
  | .integer n => some n
  | .real q => some q
  | _ => none

/-- The metrics `nblex_metrics_output_write` takes from an event, in the order it stores them. -/
def eventMetrics (event : Event) : List AggregationMetric :=
  match event.data with
  | none => []
  | some data =>
      match data.get? "nql_result_type", data.get? "metrics" with
      | some (.string "aggregation"), some (.object metrics) =>
          let labels := (data.get? "group").filter Json.isObject
          metrics.filterMap (fun entry =>
            (jsonNumber entry.2).map (fun value => ⟨entry.1, labels, value⟩))
      | _, _ => []

/-- An event is counted and its metrics are stored. -/
def recordEvent (jsonDumpb : Json → Nat) (output : MetricsOutput) (event : Event) :
    MetricsOutput :=
  { output with
    counters := countEvent jsonDumpb output.counters event
    aggregationMetrics := (eventMetrics event).reverse ++ output.aggregationMetrics }

/-- The time since the last flush has reached the interval. -/
def flushIsDue (output : MetricsOutput) (now : Int) : Bool :=
  decide (output.flushInterval ≤ now - output.lastFlush)

/-- `nblex_metrics_output_write`, with its clock reading and that of the flush it may do. -/
def nblexMetricsOutputWrite (jsonDumpb : Json → Nat) (output : MetricsOutput) (event : Event)
    (now now' : Int) : Option MetricsOutput :=
  let recorded := recordEvent jsonDumpb output event
  if flushIsDue recorded now then nblexMetricsOutputFlush recorded now' else some recorded

/-- One call on a metrics output. -/
inductive MetricsOp where
  | write (event : Event) (now now' : Int)
  | flush (now : Int)
  | setFlushInterval (seconds : Int)

end Nblex
