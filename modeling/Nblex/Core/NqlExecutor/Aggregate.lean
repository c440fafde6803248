import Nblex.Core.NqlExecutor.Buckets
import Nblex.Core.FilterEngine.Eval
import Mathlib.Data.Rat.Floor
import Mathlib.Algebra.Order.Ring.Unbundled.Rat

/-!
# Aggregate queries

Updating a bucket, building its result, executing an aggregate query on an event and flushing
the windows on a timer tick. A result is emitted with `nblex_event_emit`; the handler is
assumed not to call back into the executor. Each emission is recorded as the bucket that
`create_agg_result_event` is given, as it is at that call.
-/

namespace Nblex

/-- `get_numeric_value`: `0.0` for a missing field and for a value that is no number. -/
def getNumericValue (obj : Json) (field : String) : ℚ :=
  match jsonGetPath obj field with
  | some (.integer n) => n
  | some (.real q) => q
  | _ => 0

/-- `if (value < bucket->min) bucket->min = value;` -/
def minWith (min : Option ℚ) (value : ℚ) : Option ℚ :=
  match min with
  | none => some value
  | some old => if value < old then some value else some old

/-- `if (value > bucket->max) bucket->max = value;` -/
def maxWith (max : Option ℚ) (value : ℚ) : Option ℚ :=
  match max with
  | none => some value
  | some old => if old < value then some value else some old

/-- `fabs(existing - value) < 1e-9`. -/
def closeTo (existing value : ℚ) : Bool := |existing - value| < 1 / 1000000000

/-- The `switch` of `update_bucket_with_event` on one function with a field. -/
def updateWithValue (bucket : Bucket) (type : AggFuncType) (value : ℚ) : Bucket :=
  match type with
  | .count => bucket
  | .sum | .avg =>
      { bucket with
        sum := bucket.sum + value
        sumSquares := bucket.sumSquares + value * value
        min := minWith bucket.min value
        max := maxWith bucket.max value }
  | .min => { bucket with min := minWith bucket.min value }
  | .max => { bucket with max := maxWith bucket.max value }
  | .percentile => { bucket with percentileValues := bucket.percentileValues ++ [value] }
  | .distinct =>
      if bucket.distinctValues.any (closeTo · value) then bucket
      else
        { bucket with
          distinctValues := bucket.distinctValues ++ [value]
          distinctCount := bucket.distinctCount + 1 }

/-- One turn of the loop over the functions: `count` and a missing field are skipped. -/
def updateWithFunc (data : Json) (bucket : Bucket) (func : AggFunc) : Bucket :=
  match func.type, func.field with
  | .count, _ => bucket
  | _, none => bucket
  | type, some field => updateWithValue bucket type (getNumericValue data field)

/-- `update_bucket_with_event`. Events without data read every field as missing. -/
def updateBucketWithEvent (window : Window) (funcs : List AggFunc) (bucket : Bucket)
    (event : Event) (now : Nat) : Bucket :=
  let counted := { bucket with count := bucket.count + 1 }
  let dated :=
    if window.type = .session ∧ counted.lastEventNs < eventTimestamp event now then
      { counted with lastEventNs := eventTimestamp event now }
    else counted
  funcs.foldl (updateWithFunc (event.data.getD .null)) dated

/-- Update the bucket at an address in the list. -/
def AggState.updateAt (state : AggState) (addr : Nat) (f : Bucket → Bucket) : AggState :=
  { state with
    buckets := state.buckets.map (fun bucket => if bucket.addr = addr then f bucket else bucket) }

/-! ## Result events -/

/-- The inner loop of the exchange sort: `values[j]` is swapped with every later value that is
    smaller. -/
def exchangeInner (x : ℚ) : List ℚ → ℚ × List ℚ
  | [] => (x, [])
  | y :: rest =>
      if y < x then
        let (least, rest) := exchangeInner y rest
        (least, x :: rest)
      else
        let (least, rest) := exchangeInner x rest
        (least, y :: rest)

/-- The exchange sort of `create_agg_result_event`, run on a list of the given length. -/
def exchangeSort : Nat → List ℚ → List ℚ
  | 0, values => values
  | _, [] => []
  | n + 1, x :: rest =>
      let (least, rest) := exchangeInner x rest
      least :: exchangeSort n rest

/-- `(size_t)((percentile / 100.0) * size)`, at most `size - 1`. A negative product below
    `-1` has no defined conversion in C and is read as zero, and so is one that is not finite. -/
def percentileIndex (percentile : ℚ) (size : Nat) : Nat :=
  let index := ⌊percentile / 100 * size⌋.toNat
  if size ≤ index then size - 1 else index

/-- The percentile of a list of values; `none` for an empty list. -/
def percentileOf (values : List ℚ) (percentile : ℚ) : Option ℚ :=
  (exchangeSort values.length values)[percentileIndex percentile values.length]?

/-- `%.0f`, with ties to even. -/
def formatFixed0 (q : ℚ) : String :=
  let remainder := q - ⌊q⌋
  let rounded :=
    if remainder < 1 / 2 then ⌊q⌋
    else if 1 / 2 < remainder then ⌊q⌋ + 1
    else if ⌊q⌋ % 2 = 0 then ⌊q⌋ else ⌊q⌋ + 1
  (if q < 0 then "-" else "") ++ toString rounded.natAbs

/-- `%.0f` of any double. -/
def formatDouble0 : Double → String
  | .finite q => formatFixed0 q
  | .infinity negative => if negative then "-inf" else "inf"
  | .nan negative => if negative then "-nan" else "nan"

/-- `snprintf` into `char name[256]`. -/
def metricName (text : String) : String := String.ofList (text.toList.take 255)

/-- The value of one function, `none` where the source leaves it out: a missing field, an
    infinity (`json_real` returns `NULL` on it), or a percentile of nothing. -/
def aggFuncValue (bucket : Bucket) (func : AggFunc) : Option Json :=
  match func.type with
  | .count => some (.integer (toInt64 bucket.count))
  | .sum => func.field.map (fun _ => .real bucket.sum)
  | .avg =>
      func.field.map (fun _ => .real (if bucket.count > 0 then bucket.sum / bucket.count else 0))
  | .min => func.field.bind (fun _ => bucket.min.map .real)
  | .max => func.field.bind (fun _ => bucket.max.map .real)
  | .percentile =>
      func.field.bind (fun _ =>
        (percentileOf bucket.percentileValues func.percentile.value).map .real)
  | .distinct => func.field.map (fun _ => .integer (toInt64 bucket.distinctCount))

/-- The key of one function in the `metrics` object. -/
def aggFuncName (func : AggFunc) : String :=
  let field := func.field.getD ""
  match func.type with
  | .count => "count"
  | .sum => field
  | .avg => metricName ("avg_" ++ field)
  | .min => metricName ("min_" ++ field)
  | .max => metricName ("max_" ++ field)
  | .percentile => metricName ("p" ++ formatDouble0 func.percentile ++ "_" ++ field)
  | .distinct => metricName ("distinct_" ++ field)

/-- The `metrics` object of a result. -/
def aggMetrics (funcs : List AggFunc) (bucket : Bucket) : Json :=
  funcs.foldl (fun metrics func => metrics.set (aggFuncName func) (aggFuncValue bucket func))
    (.object [])

/-- The `group` object of a result, if there is one. -/
def aggGroup (groupByFields : List String) (bucket : Bucket) : Option Json :=
  match bucket.groupKeys with
  | some keys =>
      if 0 < keys.length ∧ 0 < groupByFields.length then
        some ((groupByFields.zip keys).foldl
          (fun groups entry => groups.set entry.1 (some (.string entry.2))) (.object []))
      else none
  | none => none

/-- The `window` object of a result, if the query has a window. The bounds are stored as
    signed integers. -/
def aggWindow (window : Window) (bucket : Bucket) : Option Json :=
  if window.type = .none then none
  else
    some (.object [("start_ns", .integer (toInt64 bucket.windowStartNs)),
      ("end_ns", .integer (toInt64 bucket.windowEndNs))])

/-- `create_agg_result_event`. -/
def createAggResultEvent (state : AggState) (bucket : Bucket) (now : Nat) : Event :=
  let result := (Json.object []).set "nql_result_type" (some (.string "aggregation"))
  let result := result.set "group" (aggGroup state.groupByFields bucket)
  let result := result.set "metrics" (some (aggMetrics state.funcs bucket))
  let result := result.set "window" (aggWindow state.window bucket)
  { nblexEventNew .log none now with data := some result }

/-! ## Executing and flushing -/

/-- The state `get_agg_state` creates for a query (`copy_agg_config`). -/
def newAggState (query : Aggregate) : AggState where
  window := query.window
  funcs := query.funcs
  groupByFields := query.groupByFields
  buckets := []
  bucketCount := 0
  lastFlushNs := 0
  nextAddr := 0

/-- The `where` clause of an aggregate query, tested before any state is touched. -/
def whereAccepts [Pcre2] (query : Aggregate) (event : Event) : Bool :=
  match query.whereFilter with
  | none => true
  | some filter => nblexFilterMatches filter event

/-- `execute_aggregate` after the `where` clause: the event goes into its buckets, and a query
    without a window emits at once. `now` and `now'` are the clock readings that replace a
    zero timestamp when the buckets are searched and when they are updated. -/
def aggregateEvent (state : AggState) (event : Event) (now now' : Nat) :
    Option (AggState × List Bucket) :=
  let keys := extractGroupKeys state.groupByFields event
  match getOrCreateBucketsForEvent state keys (eventTimestamp event now) with
  | none => none
  | some (found, buckets) =>
      let updated := buckets.foldl (fun state bucket => state.updateAt bucket.addr
        (fun bucket => updateBucketWithEvent state.window state.funcs bucket event now')) found
      let emitted :=
        match state.window.type, buckets with
        | .none, bucket :: _ => (updated.buckets.find? (fun b => b.addr == bucket.addr)).toList
        | _, _ => []
      some (updated, emitted)

/-- `execute_aggregate` on the state of its query. -/
def executeAggregate [Pcre2] (query : Aggregate) (state : AggState) (event : Event)
    (now now' : Nat) : Option (AggState × List Bucket) :=
  if whereAccepts query event then aggregateEvent state event now now' else some (state, [])

/-- What `window_flush_cb` does to one bucket: the bucket after the step, whether a result is
    emitted from it, and whether it is removed. -/
structure FlushStep where
  bucket : Bucket
  shouldFlush : Bool
  shouldRemove : Bool

/-- The accumulators a tumbling bucket starts its next window with. -/
def resetBucket (bucket : Bucket) : Bucket :=
  { bucket with
    count := 0
    sum := 0
    min := none
    max := none
    sumSquares := 0
    distinctCount := 0
    distinctValues := []
    percentileValues := [] }

/-- A session bucket expires when it has been idle for the timeout. -/
def flushSession (window : Window) (now : Nat) (bucket : Bucket) : FlushStep :=
  let expired := decide (0 < bucket.count ∧ timeoutNs window ≤ u64Sub now bucket.lastEventNs)
  ⟨bucket, expired, expired⟩

/-- Give a bucket the window of `windowSize` that starts at `windowStart`. -/
def moveBucket (bucket : Bucket) (windowSize windowStart : Nat) : Bucket :=
  { bucket with
    windowStartNs := windowStart
    windowEndNs := u64Add windowStart windowSize }

/-- A tumbling bucket whose window is over is cleared and moved to the window of `now`, both
    before the result is built. -/
def flushTumbling (window : Window) (now : Nat) (bucket : Bucket) : Option FlushStep :=
  if bucket.windowEndNs ≤ now then
    (u64Div (u64Sub now bucket.windowStartNs) (windowSizeNs window)).map (fun windowsPassed =>
      ⟨moveBucket (resetBucket bucket) (windowSizeNs window)
          (u64Add bucket.windowStartNs (u64Mul windowsPassed (windowSizeNs window))),
        decide (0 < bucket.count), false⟩)
  else some ⟨bucket, false, false⟩

/-- A sliding bucket whose window is over is removed. -/
def flushSliding (now : Nat) (bucket : Bucket) : FlushStep :=
  if bucket.windowEndNs ≤ now then ⟨bucket, decide (0 < bucket.count), true⟩
  else ⟨bucket, false, false⟩

/-- The body of the loop of `window_flush_cb`. -/
def flushBucket (window : Window) (now : Nat) (bucket : Bucket) : Option FlushStep :=
  match window.type with
  | .session => some (flushSession window now bucket)
  | .tumbling => flushTumbling window now bucket
  | .sliding => some (flushSliding now bucket)
  | .none => some ⟨bucket, false, false⟩

/-- The loop of `window_flush_cb`: the buckets that stay, in their order, and the buckets the
    results are built from, in the order of emission. -/
def flushLoop (window : Window) (now : Nat) :
    List Bucket → Option (List Bucket × List Bucket)
  | [] => some ([], [])
  | bucket :: rest =>
      match flushBucket window now bucket, flushLoop window now rest with
      | some step, some (kept, emitted) =>
          some ((if step.shouldRemove then [] else [step.bucket]) ++ kept,
            (if step.shouldFlush then [step.bucket] else []) ++ emitted)
      | _, _ => none

/-- `window_flush_cb`, once it has found the world of its context. -/
def windowFlushCb (state : AggState) (now : Nat) : Option (AggState × List Bucket) :=
  match flushLoop state.window now state.buckets with
  | none => none
  | some (kept, emitted) =>
      some ({ state with
        buckets := kept
        bucketCount := state.bucketCount - (state.buckets.length - kept.length)
        lastFlushNs := now }, emitted)

/-! ## Runs -/

/-- One step of an aggregate query: an event with its clock readings, or a timer tick. -/
inductive AggOp where
  | event (event : Event) (now now' : Nat)
  | tick (now : Nat)

/-- One step on the state of the query. -/
def aggStep [Pcre2] (query : Aggregate) (state : AggState) :
    AggOp → Option (AggState × List Bucket)
  | .event event now now' => executeAggregate query state event now now'
  | .tick now => windowFlushCb state now

/-- A sequence of steps, with everything emitted on the way. `none` is a division by zero. -/
def aggRunFrom [Pcre2] (query : Aggregate) :
    AggState → List AggOp → Option (AggState × List Bucket)
  | state, [] => some (state, [])
  | state, op :: ops =>
      match aggStep query state op with
      | none => none
      | some (state, emitted) =>
          (aggRunFrom query state ops).map (fun result => (result.1, emitted ++ result.2))

/-- A run of a query from the state it is created with. -/
def aggRun [Pcre2] (query : Aggregate) (ops : List AggOp) :
    Option (AggState × List Bucket) :=
  aggRunFrom query (newAggState query) ops

/-- The states a query can reach. -/
def AggReachable [Pcre2] (query : Aggregate) (state : AggState) : Prop :=
  ∃ ops emitted, aggRun query ops = some (state, emitted)

theorem newAggState_reachable [Pcre2] (query : Aggregate) :
    AggReachable query (newAggState query) := ⟨[], [], rfl⟩

end Nblex
