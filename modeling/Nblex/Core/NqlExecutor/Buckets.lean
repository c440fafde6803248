import Nblex.NblexInternal
import Nblex.Parsers.NqlQuery
import Nblex.Misc.Word64

/-!
# Aggregation buckets

The aggregation state of `src/core/nql_executor.c` and the functions that find or create the
buckets of an event. Accumulators are exact rationals; `min` and `max` start at the infinities,
which `none` stands for. Allocation is assumed to succeed. A bucket has its group keys by value
here; the arrays they are in, which several buckets may refer to and one of them frees, are in
`KeyMemory`.
-/

namespace Nblex

/-- `MAX_SLIDING_WINDOWS`. -/
def maxSlidingWindows : Nat := 1000

/-- `nql_agg_bucket_t`. `addr` is the identity of the heap cell. `group_keys` is `NULL` or an
    array of `group_keys_count` strings. -/
structure Bucket where
  addr : Nat
  groupKeys : Option (List String)
  count : Nat
  sum : ℚ
  min : Option ℚ
  max : Option ℚ
  sumSquares : ℚ
  distinctCount : Nat
  distinctValues : List ℚ
  percentileValues : List ℚ
  windowStartNs : Nat
  windowEndNs : Nat
  lastEventNs : Nat
  deriving DecidableEq

/-- `nql_agg_state_t`. `nextAddr` is the allocator: the address of the next bucket. -/
structure AggState where
  window : Window
  funcs : List AggFunc
  groupByFields : List String
  buckets : List Bucket
  bucketCount : Nat
  lastFlushNs : Nat
  nextAddr : Nat
  deriving DecidableEq

/-- `window.size_ms * 1000000ULL`. -/
def windowSizeNs (window : Window) : Nat := u64Mul window.sizeMs 1000000

/-- `slide_ns`: the slide if there is one, else the window size. -/
def slideNs (window : Window) : Nat :=
  if window.slideMs > 0 then u64Mul window.slideMs 1000000 else windowSizeNs window

/-- `window.timeout_ms * 1000000ULL`. -/
def timeoutNs (window : Window) : Nat := u64Mul window.timeoutMs 1000000

/-- `group_keys_count` of a key array. -/
def groupKeysCount (keys : Option (List String)) : Nat := (keys.map List.length).getD 0

/-- `compare_group_keys(keys1, keys2, count) == 0`. A count of zero compares equal whatever
    the arrays are. -/
def compareGroupKeys (keys1 keys2 : Option (List String)) (count : Nat) : Bool :=
  if count = 0 then true
  else
    match keys1, keys2 with
    | some keys1, some keys2 => keys1.take count == keys2.take count
    | none, none => true
    | _, _ => false

/-- `round(q * 10^6)` with ties to even, and the six-digit text `%.6f` prints. -/
def formatFixed6 (q : ℚ) : String :=
  let scaled := q * 1000000
  let floor := scaled.num / scaled.den
  let remainder := scaled - floor
  let rounded :=
    if remainder < 1 / 2 then floor
    else if 1 / 2 < remainder then floor + 1
    else if floor % 2 = 0 then floor else floor + 1
  let digits := (Nat.toDigits 10 (rounded.natAbs % 1000000))
  (if q < 0 then "-" else "") ++ toString (rounded.natAbs / 1000000) ++ "." ++
    String.ofList (List.replicate (6 - digits.length) '0' ++ digits)

/-- The key text of one `by` field. Numbers are printed into `char buf[64]`, which all integers
    fit into. -/
def groupKeyText (value : Option Json) : String :=
  match value with
  | some (.string s) => s
  | some (.integer n) => toString n
  | some (.real q) => String.ofList ((formatFixed6 q).toList.take 63)
  | _ => "null"

/-- `extract_group_keys`: no keys for an event without data and for a query without `by`. -/
def extractGroupKeys (groupByFields : List String) (event : Event) : Option (List String) :=
  match event.data with
  | none => none
  | some data =>
      if groupByFields = [] then none
      else some (groupByFields.map (fun field => groupKeyText (jsonGetPath data field)))

/-- `find_bucket_by_window`. -/
def findBucketByWindow (state : AggState) (keys : Option (List String))
    (windowStart : Nat) : Option Bucket :=
  state.buckets.find? (fun bucket =>
    compareGroupKeys bucket.groupKeys keys (groupKeysCount keys) &&
      bucket.windowStartNs == windowStart)

/-- The bucket `create_bucket_with_window` allocates. -/
def newBucket (addr : Nat) (keys : Option (List String)) (windowStart windowEnd : Nat) :
    Bucket where
  addr := addr
  groupKeys := keys
  count := 0
  sum := 0
  min := none
  max := none
  sumSquares := 0
  distinctCount := 0
  distinctValues := []
  percentileValues := []
  windowStartNs := windowStart
  windowEndNs := windowEnd
  lastEventNs := windowStart

/-- `create_bucket_with_window`: the new bucket is the head of the list. -/
def createBucketWithWindow (state : AggState) (keys : Option (List String))
    (windowStart windowEnd : Nat) : AggState × Bucket :=
  let bucket := newBucket state.nextAddr keys windowStart windowEnd
  ({ state with
      buckets := bucket :: state.buckets
      bucketCount := state.bucketCount + 1
      nextAddr := state.nextAddr + 1 }, bucket)

/-- Use the bucket a search found, or create one for the window. -/
def findOrCreate (state : AggState) (found : Option Bucket) (keys : Option (List String))
    (windowStart windowEnd : Nat) : AggState × Bucket :=
  match found with
  | some bucket => (state, bucket)
  | none => createBucketWithWindow state keys windowStart windowEnd

/-- `find_bucket_by_window`, else `create_bucket_with_window`, on the window that starts at
    `windowStart`. -/
def windowBucket (state : AggState) (keys : Option (List String))
    (windowSize windowStart : Nat) : AggState × Bucket :=
  findOrCreate state (findBucketByWindow state keys windowStart) keys windowStart
    (u64Add windowStart windowSize)

/-- The bucket array of the branches that assign an event to one bucket. -/
def singleBucket (result : AggState × Bucket) : AggState × List Bucket :=
  (result.1, [result.2])

/-- The loop over the sliding windows of an event. The fuel is `max_windows - count`. -/
def slidingLoop (keys : Option (List String)) (timestamp windowSize slide : Nat) :
    Nat → AggState → Nat → AggState × List Bucket
  | 0, state, _ => (state, [])
  | fuel + 1, state, current =>
      if current ≤ timestamp ∧ timestamp < u64Add current windowSize then
        let result := windowBucket state keys windowSize current
        let rest :=
          slidingLoop keys timestamp windowSize slide fuel result.1 (u64Add current slide)
        (rest.1, result.2 :: rest.2)
      else (state, [])

/-- The rounded lower bound of the sliding windows of an event. -/
def earliestWindowStart (timestamp windowSize slide : Nat) : Nat :=
  ((if windowSize ≤ timestamp then timestamp - windowSize else 0) / slide) * slide

/-- The number of windows the sliding loop may visit. -/
def maxWindows (timestamp windowSize slide : Nat) : Nat :=
  let windowStart := (timestamp / slide) * slide
  min ((windowStart - earliestWindowStart timestamp windowSize slide) / slide + 1)
    maxSlidingWindows

/-- The branch without a window: one bucket per group, over all time. -/
def noWindowBuckets (state : AggState) (keys : Option (List String)) :
    AggState × List Bucket :=
  let found := state.buckets.find? (fun bucket =>
    compareGroupKeys bucket.groupKeys keys (groupKeysCount keys) &&
      bucket.windowStartNs == 0 && bucket.windowEndNs == u64Max)
  singleBucket (findOrCreate state found keys 0 u64Max)

/-- The session branch takes the first open bucket of the group whose last event is less than
    the timeout away, and opens one if there is none. -/
def sessionBuckets (state : AggState) (keys : Option (List String)) (timestamp : Nat) :
    AggState × List Bucket :=
  let found := state.buckets.find? (fun bucket =>
    compareGroupKeys bucket.groupKeys keys (groupKeysCount keys) &&
      bucket.windowEndNs == u64Max && decide (bucket.lastEventNs ≤ timestamp) &&
      decide (timestamp - bucket.lastEventNs < timeoutNs state.window))
  singleBucket (findOrCreate state found keys timestamp u64Max)

/-- The tumbling branch: the one aligned window of the timestamp. -/
def tumblingBuckets (state : AggState) (keys : Option (List String)) (timestamp : Nat) :
    Option (AggState × List Bucket) :=
  (u64Div timestamp (windowSizeNs state.window)).map (fun index =>
    singleBucket (windowBucket state keys (windowSizeNs state.window)
      (u64Mul index (windowSizeNs state.window))))

/-- The sliding branch. -/
def slidingBuckets (state : AggState) (keys : Option (List String)) (timestamp : Nat) :
    Option (AggState × List Bucket) :=
  if slideNs state.window = 0 then none
  else
    some (slidingLoop keys timestamp (windowSizeNs state.window) (slideNs state.window)
      (maxWindows timestamp (windowSizeNs state.window) (slideNs state.window)) state
      (earliestWindowStart timestamp (windowSizeNs state.window) (slideNs state.window)))

/-- `get_or_create_buckets_for_event`: the state with the buckets created, and the buckets of
    the event. `none` is a division by a window size or slide of zero. -/
def getOrCreateBucketsForEvent (state : AggState) (keys : Option (List String))
    (timestamp : Nat) : Option (AggState × List Bucket) :=
  match state.window.type with
  | .none => some (noWindowBuckets state keys)
  | .session => some (sessionBuckets state keys timestamp)
  | .tumbling => tumblingBuckets state keys timestamp
  | .sliding => slidingBuckets state keys timestamp

end Nblex
