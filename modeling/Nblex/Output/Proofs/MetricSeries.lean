import Nblex.Output.Proofs.MetricsFile

/-!
# The series of a flush

The size of the buffer for the labels counts no label whose value is no string, and has no room for
the terminating NUL of an empty group. A flush writes a line for every metric that has been received
since the one before, so that a series that has been received twice is written twice.
-/

namespace Nblex

/-! ## The buffer of the labels -/

/-- The text of the labels fits its buffer, with the terminating NUL. -/
def LabelsFit (fields : List (String × Json)) : Prop :=
  (labelsText fields).utf8ByteSize + 1 ≤ labelsSize fields

instance (fields : List (String × Json)) : Decidable (LabelsFit fields) :=
  inferInstanceAs (Decidable (_ ≤ _))

/-- The value of a label is a string. -/
def hasText (entry : String × Json) : Bool := (jsonStringValue entry.2).isSome

/-- What a label adds to the size. -/
def countedSize (entry : String × Json) : Nat :=
  match jsonStringValue entry.2 with
  | some valStr => entry.1.utf8ByteSize + valStr.utf8ByteSize + 5
  | none => 0

theorem labelsSize_eq (fields : List (String × Json)) :
    labelsSize fields = 2 + (fields.map countedSize).sum := by
  have sums : ∀ size, fields.foldl (fun size entry =>
      match jsonStringValue entry.2 with
      | some valStr => size + (entry.1.utf8ByteSize + valStr.utf8ByteSize + 5)
      | none => size) size = size + (fields.map countedSize).sum := by
    induction fields with
    | nil => exact fun size => rfl
    | cons entry fields ih =>
        intro size
        rw [List.foldl_cons, ih, List.map_cons, List.sum_cons, countedSize]
        cases jsonStringValue entry.2 with
        | none => exact congrArg (size + ·) (Nat.zero_add _).symm
        | some valStr => exact Nat.add_assoc _ _ _
  exact sums 2

theorem labelText_size (entry : String × Json) :
    (labelText entry).utf8ByteSize =
      entry.1.utf8ByteSize + ((jsonStringValue entry.2).getD "").utf8ByteSize + 3 := by
  have opening : ("=\"").utf8ByteSize = 2 := rfl
  have closing : ("\"").utf8ByteSize = 1 := rfl
  rw [labelText, String.utf8ByteSize_append, String.utf8ByteSize_append,
    String.utf8ByteSize_append, opening, closing]
  omega

/-- Between two labels stands a comma. -/
theorem labelsBody_commas {fields : List (String × Json)} (some_label : fields ≠ []) :
    (labelsBody fields).utf8ByteSize + 1 =
      (fields.map (fun entry => (labelText entry).utf8ByteSize + 1)).sum := by
  induction fields with
  | nil => exact absurd rfl some_label
  | cons entry fields ih =>
      cases fields with
      | nil => simp [labelsBody]
      | cons next fields =>
          have comma : (",").utf8ByteSize = 1 := rfl
          rw [List.map_cons, List.sum_cons, ← ih (List.cons_ne_nil _ _), labelsBody,
            String.utf8ByteSize_append, String.utf8ByteSize_append, comma]
          · omega
          · exact List.cons_ne_nil _ _

/-- A label with a string has one byte more than it needs, and the others lack all of theirs. -/
theorem labelText_sum (fields : List (String × Json)) :
    (fields.map (fun entry => (labelText entry).utf8ByteSize + 1)).sum + fields.countP hasText =
      (fields.map countedSize).sum +
        ((fields.filter (fun entry => !hasText entry)).map (·.1.utf8ByteSize + 4)).sum := by
  induction fields with
  | nil => rfl
  | cons entry fields ih =>
      have text := labelText_size entry
      cases value : jsonStringValue entry.2 with
      | none =>
          have missing : hasText entry = false := by rw [hasText, value]; rfl
          have counted : countedSize entry = 0 := by rw [countedSize, value]
          have empty : ("").utf8ByteSize = 0 := rfl
          rw [value, Option.getD_none, empty] at text
          rw [List.map_cons, List.sum_cons, List.map_cons, List.sum_cons,
            List.countP_cons_of_neg (by simp [missing]),
            List.filter_cons_of_pos (by simp [missing]), List.map_cons, List.sum_cons,
            text, counted]
          omega
      | some valStr =>
          have present : hasText entry = true := by rw [hasText, value]; rfl
          have counted : countedSize entry = entry.1.utf8ByteSize + valStr.utf8ByteSize + 5 := by
            rw [countedSize, value]
          rw [value, Option.getD_some] at text
          rw [List.map_cons, List.sum_cons, List.map_cons, List.sum_cons,
            List.countP_cons_of_pos present, List.filter_cons_of_neg (by simp [present]), text,
            counted]
          omega

theorem labelsFit_iff_sum (fields : List (String × Json)) :
    LabelsFit fields ↔ fields ≠ [] ∧
      ((fields.filter (fun entry => !hasText entry)).map (·.1.utf8ByteSize + 4)).sum ≤
        fields.countP hasText := by
  have opening : ("\x7b").utf8ByteSize = 1 := rfl
  have closing : ("\x7d").utf8ByteSize = 1 := rfl
  rw [LabelsFit, labelsText, String.utf8ByteSize_append, String.utf8ByteSize_append, opening,
    closing, labelsSize_eq]
  by_cases empty : fields = []
  · rw [empty]
    decide
  · have body := labelsBody_commas empty
    have sums := labelText_sum fields
    rw [ne_eq, and_iff_right empty]
    omega

/-- The result of an aggregation over a group. -/
def groupResult (fields : List (String × Json)) : Event where
  type := .log
  timestampNs := 1000
  input := none
  data := some (.object
    [("nql_result_type", .string "aggregation"), ("group", .object fields),
      ("metrics", .object [("count", .integer 10)])])

theorem groupResult_metrics (fields : List (String × Json)) :
    eventMetrics (groupResult fields) = [⟨"count", some (.object fields), 10⟩] := by
  rfl

/-- Every object can be the group of an event. Its labels fit just in case there are some, and the
    labels that have no string need no more bytes than there are labels that have one. -/
theorem labelsFit_iff (fields : List (String × Json)) :
    (∃ event, ∃ metric ∈ eventMetrics event, metric.labels = some (.object fields)) ∧
    (LabelsFit fields ↔ fields ≠ [] ∧
      ((fields.filter (fun entry => !hasText entry)).map (·.1.utf8ByteSize + 4)).sum ≤
        fields.countP hasText) := by
  refine ⟨⟨groupResult fields, ⟨"count", some (.object fields), 10⟩, ?_, rfl⟩,
    labelsFit_iff_sum fields⟩
  rw [groupResult_metrics]
  exact List.mem_singleton_self _

/-- A port is a number. -/
theorem port_not_labelsFit :
    ¬∀ event, ∀ metric ∈ eventMetrics event, ∀ fields, metric.labels = some (.object fields) →
      LabelsFit fields := by
  intro fits
  have port := fits (groupResult [("port", .integer 443)]) _ (List.mem_singleton_self _) _ rfl
  exact absurd port (by decide)

/-! ## Series -/

/-- The labels of a stored metric, as they are written. -/
def AggregationMetric.writtenLabels (metric : AggregationMetric) : List (String × String) :=
  match metric.labels with
  | some (.object fields) => fields.map (fun entry => (entry.1, (jsonStringValue entry.2).getD ""))
  | _ => []

/-- Two metrics are of the same series: they have the same name and the same set of labels. -/
def SameSeries (a b : AggregationMetric) : Prop :=
  a.metricName = b.metricName ∧ a.writtenLabels.Perm b.writtenLabels

instance (a b : AggregationMetric) : Decidable (SameSeries a b) :=
  inferInstanceAs (Decidable (_ ∧ _))

/-- A flush: the stored metrics with their lines, unless it is undefined, and the metrics that have
    been received since the flush before, the last one first. -/
structure SeriesFlush where
  samples : Option (List (AggregationMetric × String))
  received : List AggregationMetric

/-- The flush writes no series twice, and each with the value that has been received last. -/
def SeriesFlush.Latest (flush : SeriesFlush) : Prop :=
  ∃ samples, flush.samples = some samples ∧
    samples.Pairwise (fun a b => ¬SameSeries a.1 b.1) ∧
    ∀ sample ∈ samples, ∃ latest,
      flush.received.find? (fun metric => decide (SameSeries sample.1 metric)) = some latest ∧
        sample.1.value = latest.value

/-- The stored metrics with their lines. -/
def samplesOf (metrics : List AggregationMetric) : Option (List (AggregationMetric × String)) :=
  (sampleLines metrics).map metrics.zip

/-- The flush of an output. -/
def MetricsOutput.seriesFlush (output : MetricsOutput) (recent : List Event) : SeriesFlush :=
  ⟨samplesOf output.aggregationMetrics, metricsOf recent⟩

section Run

variable (jsonDumpb : Json → Nat)

/-- One call, with the series its flush writes. -/
def seriesStep (run : MetricsRun) (op : MetricsOp) : MetricsRun × List SeriesFlush :=
  ((metricsStep jsonDumpb run op).1,
    match run.output with
    | none => []
    | some output =>
        match op with
        | .write event now _ =>
            let recorded := recordEvent jsonDumpb output event
            if flushIsDue recorded now then [recorded.seriesFlush (run.recent ++ [event])] else []
        | .flush _ => [output.seriesFlush run.recent]
        | .setFlushInterval _ => [])

/-- The labels of metrics fit their buffers, and no two are of the same series. -/
def DistinctSeries (metrics : List AggregationMetric) : Prop :=
  (∀ metric ∈ metrics, ∀ fields, metric.labels = some (.object fields) → LabelsFit fields) ∧
    metrics.Pairwise fun a b => ¬SameSeries a b

/-- If the call flushes, the metrics since the flush before are of different series. -/
def FlushDistinct (run : MetricsRun) (op : MetricsOp) : Prop :=
  ∀ output ∈ run.output,
    match op with
    | .write event now _ =>
        flushIsDue (recordEvent jsonDumpb output event) now = true →
          DistinctSeries (metricsOf (run.recent ++ [event]))
    | .flush _ => DistinctSeries (metricsOf run.recent)
    | .setFlushInterval _ => True

end Run

/-! ### What a flush writes -/

theorem SameSeries.refl (metric : AggregationMetric) : SameSeries metric metric :=
  ⟨rfl, List.Perm.refl _⟩

theorem SameSeries.symm {a b : AggregationMetric} (same : SameSeries a b) : SameSeries b a :=
  ⟨same.1.symm, same.2.symm⟩

theorem formatPrometheusLabels_isSome_iff (labels : Option Json) :
    (∃ text, formatPrometheusLabels labels = some text) ↔
      ∀ fields, labels = some (.object fields) → LabelsFit fields := by
  unfold formatPrometheusLabels
  split
  · next fields =>
      constructor
      · rintro ⟨text, written⟩ others same
        obtain rfl := Json.object.inj (Option.some.inj same)
        split at written
        · next fits => exact fits
        · cases written
      · intro fit
        exact ⟨_, if_pos (fit fields rfl)⟩
  · next other =>
      exact ⟨fun _ fields same => absurd same (other fields), fun _ => ⟨"", rfl⟩⟩

theorem metricLine_isSome_iff (metric : AggregationMetric) :
    (∃ line, metricLine metric = some line) ↔
      ∀ fields, metric.labels = some (.object fields) → LabelsFit fields := by
  rw [← formatPrometheusLabels_isSome_iff, metricLine]
  constructor
  · rintro ⟨line, written⟩
    obtain ⟨text, labels, -⟩ := Option.map_eq_some_iff.mp written
    exact ⟨text, labels⟩
  · rintro ⟨text, labels⟩
    exact ⟨_, Option.map_eq_some_iff.mpr ⟨text, labels, rfl⟩⟩

/-- There are lines just in case the labels of all metrics fit. -/
theorem sampleLines_isSome_iff (metrics : List AggregationMetric) :
    (∃ lines, sampleLines metrics = some lines) ↔
      ∀ metric ∈ metrics, ∀ fields, metric.labels = some (.object fields) → LabelsFit fields := by
  induction metrics with
  | nil => exact ⟨fun _ => nofun, fun _ => ⟨[], rfl⟩⟩
  | cons metric metrics ih =>
      rw [List.forall_mem_cons, ← ih, ← metricLine_isSome_iff, sampleLines_cons]
      constructor
      · rintro ⟨lines, written⟩
        obtain ⟨line, here, written⟩ := Option.bind_eq_some_iff.mp written
        obtain ⟨others, later, -⟩ := Option.map_eq_some_iff.mp written
        exact ⟨⟨line, here⟩, others, later⟩
      · rintro ⟨⟨line, here⟩, others, later⟩
        refine ⟨line :: others, ?_⟩
        rw [here, later]
        rfl

/-- There is a line for each metric. -/
theorem sampleLines_length {metrics : List AggregationMetric} {lines : List String}
    (written : sampleLines metrics = some lines) : lines.length = metrics.length := by
  induction metrics generalizing lines with
  | nil =>
      obtain rfl : [] = lines := Option.some.inj written
      rfl
  | cons metric metrics ih =>
      rw [sampleLines_cons] at written
      obtain ⟨line, -, written⟩ := Option.bind_eq_some_iff.mp written
      obtain ⟨others, later, rfl⟩ := Option.map_eq_some_iff.mp written
      rw [List.length_cons, List.length_cons, ih later]

/-- The text of a flush holds the lines of the samples behind those of the counters. -/
theorem exposition_samples (counters : MetricsCounters) (metrics : List AggregationMetric) :
    exposition counters metrics = (samplesOf metrics).map (fun samples =>
      String.join ((counterLines counters ++ metricHeader metrics ++
        samples.map Prod.snd).map (· ++ "\n"))) := by
  rw [exposition, samplesOf, Option.map_map]
  cases written : sampleLines metrics with
  | none => rfl
  | some lines =>
      rw [Option.map_some, Option.map_some, Function.comp_apply,
        List.map_snd_zip (sampleLines_length written).le]

/-- Of metrics of different series each is found under its own. -/
theorem find?_series {metrics : List AggregationMetric}
    (apart : metrics.Pairwise fun a b => ¬SameSeries a b) {metric : AggregationMetric}
    (member : metric ∈ metrics) :
    metrics.find? (fun other => decide (SameSeries metric other)) = some metric := by
  induction metrics with
  | nil => cases member
  | cons first metrics ih =>
      obtain ⟨here, later⟩ := List.pairwise_cons.mp apart
      rcases List.mem_cons.mp member with rfl | inside
      · exact List.find?_cons_of_pos (decide_eq_true (SameSeries.refl metric))
      · have other : ¬SameSeries metric first := fun same => here metric inside same.symm
        rw [List.find?_cons_of_neg (by simpa using other)]
        exact ih later inside

/-- A flush writes each series once and as received last just in case the metrics it has are of
    different series. -/
theorem seriesFlush_latest_iff {output : MetricsOutput} {recent : List Event}
    (stored : output.aggregationMetrics = metricsOf recent) :
    (output.seriesFlush recent).Latest ↔ DistinctSeries (metricsOf recent) := by
  rw [DistinctSeries, ← sampleLines_isSome_iff, SeriesFlush.Latest, MetricsOutput.seriesFlush,
    stored]
  constructor
  · rintro ⟨samples, written, apart, -⟩
    obtain ⟨lines, lines_eq, rfl⟩ := Option.map_eq_some_iff.mp written
    refine ⟨⟨lines, lines_eq⟩, ?_⟩
    have metrics := List.map_fst_zip (sampleLines_length lines_eq).ge
    rw [← metrics]
    exact List.pairwise_map.mpr apart
  · rintro ⟨⟨lines, lines_eq⟩, apart⟩
    have metrics := List.map_fst_zip (sampleLines_length lines_eq).ge
    refine ⟨(metricsOf recent).zip lines, ?_, ?_, ?_⟩
    · dsimp only
      rw [samplesOf, lines_eq, Option.map_some]
    · rw [← metrics] at apart
      exact List.pairwise_map.mp apart
    · intro sample member
      have inside : sample.1 ∈ metricsOf recent := metrics ▸ List.mem_map_of_mem member
      exact ⟨sample.1, find?_series apart inside, rfl⟩

section Runs

variable (jsonDumpb : Json → Nat)

/-- In a run that follows its events, what a call records is as it should be just in case its flush
    has metrics of different series. -/
theorem seriesStep_latest_iff {run : MetricsRun}
    (follows : ∀ output ∈ run.output, run.Follows jsonDumpb output) (op : MetricsOp) :
    (∀ flush ∈ (seriesStep jsonDumpb run op).2, flush.Latest) ↔ FlushDistinct jsonDumpb run op := by
  unfold seriesStep FlushDistinct
  cases running : run.output with
  | none => exact ⟨fun _ => nofun, fun _ => nofun⟩
  | some output =>
      have here := follows output running
      simp only [Option.mem_some_iff, forall_eq']
      cases op with
      | write event now now' =>
          dsimp only
          cases due : flushIsDue (recordEvent jsonDumpb output event) now with
          | true =>
              simp only [if_true, forall_const, List.forall_mem_singleton]
              exact seriesFlush_latest_iff (here.add jsonDumpb event).2.2
          | false => simp
      | flush now =>
          rw [List.forall_mem_singleton]
          exact seriesFlush_latest_iff here.2.2
      | setFlushInterval seconds => simp

/-- Every flush of a run writes each series at most once, with the value received last since the
    flush before, just in case at every flush the labels fit and the metrics that have been
    received since the flush before are of different series. -/
theorem flushes_latest_iff (now : Int) (ops : List MetricsOp) :
    (∀ flush ∈ (Guarded.run (seriesStep jsonDumpb) (newMetricsRun now) ops).2, flush.Latest) ↔
      Guarded.Meets (fun run op => (metricsStep jsonDumpb run op).1) (FlushDistinct jsonDumpb)
        (newMetricsRun now) ops := by
  refine Guarded.run_allowed_iff
    (fun run => ∀ output ∈ run.output, run.Follows jsonDumpb output)
    (fun run op follows => seriesStep_latest_iff jsonDumpb follows op)
    (fun run op follows _ => metricsStep_follows jsonDumpb follows op) ?_ ops
  rintro output ⟨⟩
  exact ⟨rfl, rfl, rfl⟩

end Runs

/-- An output that has received a count twice. -/
def countedTwice : MetricsOutput :=
  { nblexMetricsOutputNew (some "prometheus") 0 with
    aggregationMetrics := metricsOf [countResult, countResult] }

/-- A count that is received twice is written twice. -/
theorem countResult_twice :
    ¬∀ ops : List MetricsOp,
      ∀ flush ∈ (Guarded.run (seriesStep (fun _ => 70)) (newMetricsRun 0) ops).2,
        flush.Latest := by
  intro latest
  have twice : (countedTwice.seriesFlush [countResult, countResult]).Latest :=
    latest [.write countResult 1 1, .write countResult 1 1, .flush 2] _ (List.mem_singleton_self _)
  obtain ⟨-, apart⟩ := (seriesFlush_latest_iff rfl).mp twice
  exact (List.pairwise_cons.mp apart).1 _ (List.mem_singleton_self _) (SameSeries.refl _)

end Nblex
