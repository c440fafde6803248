import Nblex.Core.NqlExecutor.Proofs.GroupViews
import Nblex.Core.NqlExecutor.Proofs.TumblingFlush
import Nblex.Misc.Isolation

/-!
# Groups do not interfere

What the executor does for one group is a machine of its own on the buckets of the group. The
executor runs the machines of all groups side by side in one list of buckets, and an event of one
group leaves the others alone.
-/

namespace Nblex

/-! ## The machine of one group -/

/-- A bucket an event asks for: the test that finds it among the buckets of the group, and the
    window it is created for if the test finds none. -/
structure BucketRequest where
  test : Bucket → Bool
  windowStart : Nat
  windowEnd : Nat

/-- The bucket of the window that starts at a time. -/
def windowRequest (windowSize windowStart : Nat) : BucketRequest where
  test := fun bucket => bucket.windowStartNs == windowStart
  windowStart := windowStart
  windowEnd := u64Add windowStart windowSize

/-- The bucket over all time. -/
def wholeRequest : BucketRequest where
  test := fun bucket => bucket.windowStartNs == 0 && bucket.windowEndNs == u64Max
  windowStart := 0
  windowEnd := u64Max

/-- The open session an event is near to. -/
def sessionRequest (timeout timestamp : Nat) : BucketRequest where
  test := fun bucket => bucket.windowEndNs == u64Max &&
    decide (bucket.lastEventNs ≤ timestamp) && decide (timestamp - bucket.lastEventNs < timeout)
  windowStart := timestamp
  windowEnd := u64Max

/-- The starts of the windows the sliding loop visits. -/
def slidingStarts (timestamp windowSize slide : Nat) : Nat → Nat → List Nat
  | 0, _ => []
  | fuel + 1, current =>
      if current ≤ timestamp ∧ timestamp < u64Add current windowSize then
        current :: slidingStarts timestamp windowSize slide fuel (u64Add current slide)
      else []

/-- The buckets an event asks for, in order. `none` is a division by zero. -/
def bucketRequests (window : Window) (timestamp : Nat) : Option (List BucketRequest) :=
  match window.type with
  | .none => some [wholeRequest]
  | .session => some [sessionRequest (timeoutNs window) timestamp]
  | .tumbling => (u64Div timestamp (windowSizeNs window)).map (fun index =>
      [windowRequest (windowSizeNs window) (u64Mul index (windowSizeNs window))])
  | .sliding =>
      if slideNs window = 0 then none
      else some ((slidingStarts timestamp (windowSizeNs window) (slideNs window)
        (maxWindows timestamp (windowSizeNs window) (slideNs window))
        (earliestWindowStart timestamp (windowSizeNs window) (slideNs window))).map
          (windowRequest (windowSizeNs window)))

/-- Update the bucket that is asked for, or a new one. -/
def serve (keys : Option (List String)) (f : Bucket → Bucket) (view : List Bucket)
    (request : BucketRequest) : List Bucket :=
  upsert request.test (newBucket 0 keys request.windowStart request.windowEnd) f view

/-- The update an event makes on each of its buckets. -/
def eventUpdate (query : Aggregate) (event : Event) (now' : Nat) (bucket : Bucket) : Bucket :=
  updateBucketWithEvent query.window query.funcs bucket event now'

/-- An event of the group. -/
def groupEvent (query : Aggregate) (keys : Option (List String)) (view : List Bucket)
    (event : Event) (now now' : Nat) : Option (List Bucket × List Bucket) :=
  (bucketRequests query.window (eventTimestamp event now)).map (fun requests =>
    let served := requests.foldl
      (serve keys (eventUpdate query event now')) view
    (served, if query.window.type = .none then (served.find? wholeRequest.test).toList else []))

/-- One step of the machine of a group. -/
def groupStep [Pcre2] (query : Aggregate) (keys : Option (List String)) (view : List Bucket) :
    AggOp → Option (List Bucket × List Bucket)
  | .event event now now' =>
      if whereAccepts query event then groupEvent query keys view event now now'
      else some (view, [])
  | .tick now => flushLoop query.window now view

/-! ## The executor serves requests -/

/-- Find or create the bucket that is asked for in the list of all groups, and update it. -/
def serveState (keys : Option (List String)) (f : Bucket → Bucket) (state : AggState)
    (request : BucketRequest) : AggState :=
  let result := findOrCreate state ((bucketsOf keys state.buckets).find? request.test) keys
    request.windowStart request.windowEnd
  result.1.updateAt result.2.addr f

/-- What the buckets of all groups satisfy between two requests. -/
structure AggState.Grouped (query : Aggregate) (state : AggState) : Prop where
  addrs : (state.buckets.map Bucket.addr).Nodup
  fresh : ∀ bucket ∈ state.buckets, bucket.addr < state.nextAddr
  keyed : state.Keyed query

/-- A test that does not read the address of a bucket. -/
def BucketRequest.Blind (request : BucketRequest) : Prop :=
  ∀ b : Bucket, request.test b.content = request.test b

theorem wholeRequest_blind : wholeRequest.Blind := fun _ => rfl

theorem bucketRequests_blind {window : Window} {timestamp : Nat} {requests : List BucketRequest}
    (asked : bucketRequests window timestamp = some requests) :
    ∀ request ∈ requests, request.Blind := by
  unfold bucketRequests at asked
  intro request member
  cases type : window.type with
  | none =>
      rw [type] at asked
      obtain rfl := Option.some.inj asked
      obtain rfl := List.mem_singleton.mp member
      exact wholeRequest_blind
  | session =>
      rw [type] at asked
      obtain rfl := Option.some.inj asked
      obtain rfl := List.mem_singleton.mp member
      intro b
      rfl
  | tumbling =>
      rw [type] at asked
      obtain ⟨index, -, rfl⟩ := Option.map_eq_some_iff.mp asked
      obtain rfl := List.mem_singleton.mp member
      intro b
      rfl
  | sliding =>
      rw [type] at asked
      by_cases zero : slideNs window = 0
      · simp [zero] at asked
      · simp only [zero, if_false] at asked
        obtain rfl := Option.some.inj asked
        obtain ⟨start, -, rfl⟩ := List.mem_map.mp member
        intro b
        rfl

section Serve

variable {query : Aggregate} {state : AggState} {keys other : Option (List String)}
  {f : Bucket → Bucket} {request : BucketRequest}

theorem AggState.Grouped.findOrCreate (grouped : state.Grouped query)
    (fit : KeysFit query.groupByFields keys) (found : Option Bucket) (ws we : Nat) :
    (findOrCreate state found keys ws we).1.Grouped query := by
  cases found with
  | some bucket => exact grouped
  | none =>
      refine ⟨?_, ?_, createBucketWithWindow_keyed grouped.keyed fit ws we⟩
      · refine List.nodup_cons.mpr ⟨?_, grouped.addrs⟩
        intro member
        obtain ⟨bucket, inside, same⟩ := List.mem_map.mp member
        have below := grouped.fresh bucket inside
        rw [same] at below
        exact Nat.lt_irrefl _ below
      · intro bucket member
        rcases List.mem_cons.mp member with rfl | old
        · exact Nat.lt_succ_self _
        · exact Nat.lt_succ_of_lt (grouped.fresh bucket old)

theorem AggState.Grouped.updateAt (grouped : state.Grouped query) (quiet : Quiet f)
    (addr : Nat) : (state.updateAt addr f).Grouped query := by
  have addrs : (state.updateAt addr f).buckets.map Bucket.addr =
      state.buckets.map Bucket.addr := map_addr_updateAt addr quiet.addr
  refine ⟨addrs ▸ grouped.addrs, ?_, updateAt_keyed grouped.keyed quiet addr⟩
  intro bucket member
  have kept := List.mem_map_of_mem (f := Bucket.addr) member
  rw [addrs] at kept
  obtain ⟨old, inside, same⟩ := List.mem_map.mp kept
  exact same ▸ grouped.fresh old inside

theorem serveState_grouped (grouped : state.Grouped query)
    (fit : KeysFit query.groupByFields keys) (quiet : Quiet f) (request : BucketRequest) :
    (serveState keys f state request).Grouped query :=
  (grouped.findOrCreate fit _ _ _).updateAt quiet _

/-- To its own group a request is a step on the buckets of the group. -/
theorem serveState_groupView (grouped : state.Grouped query)
    (fit : KeysFit query.groupByFields keys) (quiet : Quiet f) (blind : request.Blind) :
    (serveState keys f state request).groupView keys =
      serve keys f (state.groupView keys) request := by
  rw [AggState.groupView, serveState,
    bucketsOf_findOrCreate (grouped.findOrCreate fit _ _ _).addrs quiet.groupKeys rfl,
    upsert_map blind quiet.content]
  rfl

/-- The bucket a request leads to. -/
theorem findOrCreate_mem (state : AggState) (keys : Option (List String))
    (found : Option Bucket) (ws we : Nat)
    (search : ∀ bucket, found = some bucket → bucket ∈ bucketsOf keys state.buckets) :
    (findOrCreate state found keys ws we).2 ∈ (findOrCreate state found keys ws we).1.buckets ∧
      (findOrCreate state found keys ws we).2.groupKeys = keys := by
  cases found with
  | none => exact ⟨List.mem_cons_self, rfl⟩
  | some bucket => exact mem_bucketsOf.mp (search bucket rfl)

/-- To the other groups it is nothing. -/
theorem serveState_groupView_other (grouped : state.Grouped query)
    (fit : KeysFit query.groupByFields keys) (quiet : Quiet f) (request : BucketRequest)
    (different : keys ≠ other) :
    (serveState keys f state request).groupView other = state.groupView other := by
  obtain ⟨inside, ofGroup⟩ := findOrCreate_mem state keys
    ((bucketsOf keys state.buckets).find? request.test) request.windowStart request.windowEnd
    (fun bucket found => List.mem_of_find?_eq_some found)
  have elsewhere : (findOrCreate state ((bucketsOf keys state.buckets).find? request.test) keys
      request.windowStart request.windowEnd).2.groupKeys ≠ other := by
    rw [ofGroup]
    exact different
  rw [serveState, updateAt_groupView_other (grouped.findOrCreate fit _ _ _).addrs quiet inside
    elsewhere]
  exact findOrCreate_groupView_other _ different _ _

/-- The requests of an event, one after the other. -/
theorem serveState_foldl (fit : KeysFit query.groupByFields keys) (quiet : Quiet f)
    {requests : List BucketRequest} (blind : ∀ request ∈ requests, request.Blind) :
    ∀ {state : AggState}, state.Grouped query →
      (requests.foldl (serveState keys f) state).Grouped query ∧
        (requests.foldl (serveState keys f) state).groupView keys =
          requests.foldl (serve keys f) (state.groupView keys) ∧
        ∀ other, keys ≠ other →
          (requests.foldl (serveState keys f) state).groupView other = state.groupView other := by
  induction requests with
  | nil =>
      intro state grouped
      exact ⟨grouped, rfl, fun _ _ => rfl⟩
  | cons request requests ih =>
      intro state grouped
      obtain ⟨kept, own, others⟩ := ih (fun r member => blind r (List.mem_cons_of_mem _ member))
        (serveState_grouped grouped fit quiet request)
      rw [List.foldl_cons, List.foldl_cons]
      refine ⟨kept, ?_, ?_⟩
      · rw [own, serveState_groupView grouped fit quiet (blind request List.mem_cons_self)]
      · intro other different
        rw [others other different,
          serveState_groupView_other grouped fit quiet request different]

end Serve

/-! ## The buckets of an event are those it asks for -/

section Events

variable {query : Aggregate} {state : AggState} {keys : Option (List String)}
  {f : Bucket → Bucket}

/-- An update that leaves the window a bucket is found by alone. -/
theorem findBucketByWindow_updateAt (quiet : Quiet f)
    (starts : ∀ b, (f b).windowStartNs = b.windowStartNs) (addr windowStart : Nat) :
    findBucketByWindow (state.updateAt addr f) keys windowStart =
      (findBucketByWindow state keys windowStart).map
        (fun b => if b.addr = addr then f b else b) := by
  rw [findBucketByWindow, AggState.updateAt, List.find?_map]
  refine congrArg _ (congrArg (fun p => state.buckets.find? p) (funext ?_))
  intro b
  rw [Function.comp_apply]
  by_cases here : b.addr = addr
  · rw [if_pos here, quiet.groupKeys, starts]
  · rw [if_neg here]

/-- Creating a bucket and updating an older one commute. -/
theorem windowBucket_updateAt (keys : Option (List String)) (quiet : Quiet f)
    (starts : ∀ b, (f b).windowStartNs = b.windowStartNs) {addr : Nat}
    (older : addr < state.nextAddr) (windowSize windowStart : Nat) :
    (windowBucket (state.updateAt addr f) keys windowSize windowStart).1 =
        (windowBucket state keys windowSize windowStart).1.updateAt addr f ∧
      (windowBucket (state.updateAt addr f) keys windowSize windowStart).2.addr =
        (windowBucket state keys windowSize windowStart).2.addr := by
  rw [windowBucket, windowBucket, findBucketByWindow_updateAt quiet starts]
  cases findBucketByWindow state keys windowStart with
  | some bucket =>
      refine ⟨rfl, ?_⟩
      show (if bucket.addr = addr then f bucket else bucket).addr = bucket.addr
      by_cases here : bucket.addr = addr
      · rw [if_pos here, quiet.addr]
      · rw [if_neg here]
  | none =>
      refine ⟨?_, rfl⟩
      have new : ¬state.nextAddr = addr := Nat.ne_of_gt older
      simp [findOrCreate, createBucketWithWindow, AggState.updateAt, newBucket, new]

theorem windowBucket_nextAddr (windowSize windowStart : Nat) :
    state.nextAddr ≤ (windowBucket state keys windowSize windowStart).1.nextAddr := by
  rw [windowBucket]
  cases findBucketByWindow state keys windowStart with
  | some bucket => exact Nat.le_refl _
  | none => exact Nat.le_succ _

/-- The loop over the windows and an update of an older bucket commute. -/
theorem slidingLoop_updateAt (keys : Option (List String)) (quiet : Quiet f)
    (starts : ∀ b, (f b).windowStartNs = b.windowStartNs) (timestamp windowSize slide addr : Nat) :
    ∀ (fuel : Nat) (state : AggState) (current : Nat), addr < state.nextAddr →
      (slidingLoop keys timestamp windowSize slide fuel (state.updateAt addr f) current).1 =
          (slidingLoop keys timestamp windowSize slide fuel state current).1.updateAt addr f ∧
        (slidingLoop keys timestamp windowSize slide fuel (state.updateAt addr f)
            current).2.map Bucket.addr =
          (slidingLoop keys timestamp windowSize slide fuel state current).2.map Bucket.addr := by
  intro fuel
  induction fuel with
  | zero =>
      intro state current older
      exact ⟨rfl, rfl⟩
  | succ fuel ih =>
      intro state current older
      rw [slidingLoop, slidingLoop]
      by_cases inside : current ≤ timestamp ∧ timestamp < u64Add current windowSize
      · rw [if_pos inside, if_pos inside]
        obtain ⟨sameState, sameAddr⟩ :=
          windowBucket_updateAt keys quiet starts older windowSize current
        obtain ⟨laterState, laterAddrs⟩ :=
          ih (windowBucket state keys windowSize current).1 (u64Add current slide)
            (Nat.lt_of_lt_of_le older (windowBucket_nextAddr windowSize current))
        dsimp only
        rw [sameState, List.map_cons, List.map_cons, sameAddr, laterState, laterAddrs]
        exact ⟨rfl, rfl⟩
      · rw [if_neg inside, if_neg inside]
        exact ⟨rfl, rfl⟩

/-- Update the buckets at some addresses, one after the other. -/
def AggState.updateAll (state : AggState) (addrs : List Nat) (f : Bucket → Bucket) : AggState :=
  addrs.foldl (fun state addr => state.updateAt addr f) state

/-- A window the loop visits is a request of its own. -/
theorem windowBucket_eq (keyed : state.Keyed query) (fit : KeysFit query.groupByFields keys)
    (windowSize windowStart : Nat) :
    windowBucket state keys windowSize windowStart =
      findOrCreate state ((bucketsOf keys state.buckets).find?
        (windowRequest windowSize windowStart).test) keys windowStart
        (u64Add windowStart windowSize) := by
  rw [windowBucket, findBucketByWindow]
  exact congrArg (fun found => findOrCreate state found keys windowStart
    (u64Add windowStart windowSize))
    (find?_group keyed fit (windowRequest windowSize windowStart).test)

/-- The bucket a request leads to is an old one for all later requests. -/
theorem windowBucket_older (grouped : state.Grouped query) (windowSize windowStart : Nat) :
    (windowBucket state keys windowSize windowStart).2.addr <
      (windowBucket state keys windowSize windowStart).1.nextAddr := by
  rw [windowBucket]
  cases search : findBucketByWindow state keys windowStart with
  | some bucket => exact grouped.fresh bucket (List.mem_of_find?_eq_some search)
  | none => exact Nat.lt_succ_self _

/-- Creating the buckets of all windows before updating them is serving the windows one by
    one. -/
theorem slidingLoop_serve (fit : KeysFit query.groupByFields keys) (quiet : Quiet f)
    (starts : ∀ b, (f b).windowStartNs = b.windowStartNs) (timestamp windowSize slide : Nat) :
    ∀ (fuel : Nat) (state : AggState) (current : Nat), state.Grouped query →
      (slidingLoop keys timestamp windowSize slide fuel state current).1.updateAll
          ((slidingLoop keys timestamp windowSize slide fuel state current).2.map Bucket.addr) f =
        ((slidingStarts timestamp windowSize slide fuel current).map
          (windowRequest windowSize)).foldl (serveState keys f) state := by
  intro fuel
  induction fuel with
  | zero =>
      intro state current grouped
      rfl
  | succ fuel ih =>
      intro state current grouped
      rw [slidingLoop, slidingStarts]
      by_cases inside : current ≤ timestamp ∧ timestamp < u64Add current windowSize
      · rw [if_pos inside, if_pos inside, List.map_cons, List.map_cons, List.foldl_cons]
        have served : serveState keys f state (windowRequest windowSize current) =
            (windowBucket state keys windowSize current).1.updateAt
              (windowBucket state keys windowSize current).2.addr f := by
          rw [windowBucket_eq grouped.keyed fit]
          rfl
        have kept := serveState_grouped grouped fit quiet (windowRequest windowSize current)
        have later := ih _ (u64Add current slide) kept
        obtain ⟨sameState, sameAddrs⟩ := slidingLoop_updateAt keys quiet starts
          timestamp windowSize slide (windowBucket state keys windowSize current).2.addr fuel
          (windowBucket state keys windowSize current).1 (u64Add current slide)
          (windowBucket_older grouped windowSize current)
        rw [← later, served, sameState, sameAddrs]
        rfl
      · rw [if_neg inside, if_neg inside]
        rfl

/-- A window type with one bucket for an event makes one request. -/
theorem singleBucket_serve {found : Option Bucket} (request : BucketRequest)
    (search : found = (bucketsOf keys state.buckets).find? request.test) :
    (singleBucket (findOrCreate state found keys request.windowStart
        request.windowEnd)).1.updateAll
        ((singleBucket (findOrCreate state found keys request.windowStart
          request.windowEnd)).2.map Bucket.addr) f =
      [request].foldl (serveState keys f) state := by
  subst search
  rfl

/-- The buckets of an event are found and updated by serving its requests. -/
theorem getOrCreate_serve (wf : state.WellFormed query) (keyed : state.Keyed query)
    (fit : KeysFit query.groupByFields keys) (quiet : Quiet f)
    (starts : ∀ b, (f b).windowStartNs = b.windowStartNs) (timestamp : Nat) :
    (getOrCreateBucketsForEvent state keys timestamp).map
        (fun result => result.1.updateAll (result.2.map Bucket.addr) f) =
      (bucketRequests query.window timestamp).map
        (fun requests => requests.foldl (serveState keys f) state) := by
  have grouped : state.Grouped query := ⟨wf.addrs, wf.fresh, keyed⟩
  rw [getOrCreateBucketsForEvent, bucketRequests, wf.window]
  cases type : query.window.type with
  | none =>
      refine congrArg some (singleBucket_serve wholeRequest ?_)
      rw [← find?_group keyed fit]
      simp only [wholeRequest, Bool.and_assoc]
  | session =>
      refine congrArg some (singleBucket_serve
        (sessionRequest (timeoutNs query.window) timestamp) ?_)
      rw [← find?_group keyed fit, wf.window]
      simp only [sessionRequest, Bool.and_assoc]
  | tumbling =>
      dsimp only
      rw [tumblingBuckets, wf.window, Option.map_map, Option.map_map]
      refine congrArg (fun g => (u64Div timestamp (windowSizeNs query.window)).map g) (funext ?_)
      intro index
      simp only [Function.comp_apply]
      rw [windowBucket_eq keyed fit]
      exact singleBucket_serve (windowRequest (windowSizeNs query.window)
        (u64Mul index (windowSizeNs query.window))) rfl
  | sliding =>
      dsimp only
      rw [slidingBuckets, wf.window]
      by_cases zero : slideNs query.window = 0
      · rw [if_pos zero, if_pos zero]
        rfl
      · rw [if_neg zero, if_neg zero]
        exact congrArg some (slidingLoop_serve fit quiet starts timestamp _ _ _ state _ grouped)

/-! ## An event, seen by a group -/

theorem eventUpdate_quiet (query : Aggregate) (event : Event) (now' : Nat) :
    Quiet (eventUpdate query event now') :=
  updateBucketWithEvent_quiet query.window query.funcs event now'

/-- What an event emits at once: its bucket, for a query without a window. -/
def emittedAtOnce (type : WindowType) (updated : AggState) (buckets : List Bucket) :
    List Bucket :=
  match type, buckets with
  | .none, bucket :: _ => (updated.buckets.find? (fun b => b.addr == bucket.addr)).toList
  | _, _ => []

theorem aggregateEvent_updateAll (wf : state.WellFormed query) (event : Event)
    (now now' : Nat) :
    aggregateEvent state event now now' =
      (getOrCreateBucketsForEvent state (extractGroupKeys query.groupByFields event)
        (eventTimestamp event now)).map (fun result =>
          let updated := result.1.updateAll (result.2.map Bucket.addr)
            (eventUpdate query event now')
          (updated, emittedAtOnce query.window.type updated result.2)) := by
  have updates : ∀ (buckets : List Bucket) (found : AggState), found.window = query.window →
      found.funcs = query.funcs →
      buckets.foldl (fun (state : AggState) bucket => state.updateAt bucket.addr (fun bucket =>
        updateBucketWithEvent state.window state.funcs bucket event now')) found =
        found.updateAll (buckets.map Bucket.addr) (eventUpdate query event now') := by
    intro buckets
    induction buckets with
    | nil =>
        intro found window funcs
        rfl
    | cons bucket buckets ih =>
        intro found window funcs
        rw [List.foldl_cons, List.map_cons, window, funcs]
        exact ih (found.updateAt bucket.addr (eventUpdate query event now')) window funcs
  rw [aggregateEvent, wf.groupByFields]
  cases search : getOrCreateBucketsForEvent state (extractGroupKeys query.groupByFields event)
      (eventTimestamp event now) with
  | none => rfl
  | some result =>
      have kept := wf.getOrCreate search
      dsimp only [Option.map_some]
      rw [updates result.2 result.1 kept.window kept.funcs, wf.window]
      rfl

/-- An event of a query with a window emits nothing and serves its requests. -/
theorem aggregateEvent_windowed (wf : state.WellFormed query) (keyed : state.Keyed query)
    (windowed : query.window.type ≠ .none) {event : Event}
    (fit : KeysFit query.groupByFields (extractGroupKeys query.groupByFields event))
    (now now' : Nat) :
    aggregateEvent state event now now' =
      (bucketRequests query.window (eventTimestamp event now)).map (fun requests =>
        (requests.foldl (serveState (extractGroupKeys query.groupByFields event)
          (eventUpdate query event now')) state, [])) := by
  have served := congrArg (Option.map (fun state => (state, ([] : List Bucket))))
    (getOrCreate_serve wf keyed fit (eventUpdate_quiet query event now')
      (fun b => updateBucketWithEvent_windowStartNs _ _ b _ _) (eventTimestamp event now))
  rw [Option.map_map, Option.map_map] at served
  rw [aggregateEvent_updateAll wf]
  refine Eq.trans ?_ served
  refine congrArg (fun g => Option.map g _) (funext ?_)
  intro result
  cases type : query.window.type with
  | none => exact absurd type windowed
  | tumbling => rfl
  | sliding => rfl
  | session => rfl

/-- The bucket at an address, after an update at the address. -/
theorem find?_addr_updateAt (addrs : (state.buckets.map Bucket.addr).Nodup) (quiet : Quiet f)
    {bucket : Bucket} (member : bucket ∈ state.buckets) :
    (state.updateAt bucket.addr f).buckets.find? (fun b => b.addr == bucket.addr) =
      some (f bucket) := by
  have here : state.buckets.find? (fun b => b.addr == bucket.addr) = some bucket := by
    cases search : state.buckets.find? (fun b => b.addr == bucket.addr) with
    | none =>
        have missed := List.find?_eq_none.mp search bucket member
        exact absurd (beq_self_eq_true bucket.addr) missed
    | some other =>
        have same := eq_of_beq (List.find?_some (p :=
          fun b : Bucket => b.addr == bucket.addr) search)
        rw [List.inj_on_of_nodup_map addrs (List.mem_of_find?_eq_some search) member same]
  have test : ((fun b : Bucket => b.addr == bucket.addr) ∘
      fun b : Bucket => if b.addr = bucket.addr then f b else b) =
        fun b => b.addr == bucket.addr := by
    funext b
    rw [Function.comp_apply]
    by_cases same : b.addr = bucket.addr
    · rw [if_pos same, quiet.addr]
    · rw [if_neg same]
  rw [AggState.updateAt, List.find?_map, test, here, Option.map_some, if_pos rfl]

/-- An event of a query without a window serves one request, and the bucket it updates is
    emitted. -/
theorem aggregateEvent_whole (wf : state.WellFormed query) (keyed : state.Keyed query)
    (whole : query.window.type = .none) {event : Event}
    (fit : KeysFit query.groupByFields (extractGroupKeys query.groupByFields event))
    (now now' : Nat) :
    aggregateEvent state event now now' =
      some (serveState (extractGroupKeys query.groupByFields event)
          (eventUpdate query event now') state wholeRequest,
        [eventUpdate query event now'
          ((((bucketsOf (extractGroupKeys query.groupByFields event) state.buckets).find?
            wholeRequest.test).getD (newBucket state.nextAddr
              (extractGroupKeys query.groupByFields event) 0 u64Max)))]) := by
  have grouped : state.Grouped query := ⟨wf.addrs, wf.fresh, keyed⟩
  have search : getOrCreateBucketsForEvent state (extractGroupKeys query.groupByFields event)
      (eventTimestamp event now) =
      some (singleBucket (findOrCreate state
        ((bucketsOf (extractGroupKeys query.groupByFields event) state.buckets).find?
          wholeRequest.test) (extractGroupKeys query.groupByFields event) 0 u64Max)) := by
    rw [getOrCreateBucketsForEvent, wf.window, whole, ← find?_group keyed fit]
    simp only [noWindowBuckets, wholeRequest, Bool.and_assoc]
  obtain ⟨inside, -⟩ := findOrCreate_mem state (extractGroupKeys query.groupByFields event)
    ((bucketsOf (extractGroupKeys query.groupByFields event) state.buckets).find?
      wholeRequest.test) 0 u64Max (fun bucket found => List.mem_of_find?_eq_some found)
  have emitted := find?_addr_updateAt (grouped.findOrCreate fit _ _ _).addrs
    (eventUpdate_quiet query event now') inside
  rw [aggregateEvent_updateAll wf, search, Option.map_some, ← findOrCreate_bucket]
  refine congrArg some (Prod.ext rfl ?_)
  rw [whole]
  exact congrArg Option.toList emitted

/-- An event of the group is a step of the machine of the group. -/
theorem aggregateEvent_own (wf : state.WellFormed query) (keyed : state.Keyed query)
    {event : Event} (own : extractGroupKeys query.groupByFields event = keys)
    (fit : KeysFit query.groupByFields keys) (now now' : Nat) :
    (aggregateEvent state event now now').map
        (fun result => (result.1.groupView keys, result.2.filterMap (seenBy keys))) =
      groupEvent query keys (state.groupView keys) event now now' := by
  subst own
  have grouped : state.Grouped query := ⟨wf.addrs, wf.fresh, keyed⟩
  have quiet := eventUpdate_quiet query event now'
  by_cases whole : query.window.type = .none
  · have asked : bucketRequests query.window (eventTimestamp event now) =
        some [wholeRequest] := by
      rw [bucketRequests, whole]
    have view := serveState_groupView grouped fit quiet wholeRequest_blind
    have tested : ∀ b, wholeRequest.test (eventUpdate query event now' b) =
        wholeRequest.test b := by
      intro b
      simp [wholeRequest, eventUpdate]
    have emits : (serve (extractGroupKeys query.groupByFields event)
        (eventUpdate query event now') (state.groupView (extractGroupKeys query.groupByFields
          event)) wholeRequest).find? wholeRequest.test = some _ :=
      find?_upsert tested rfl _
    have search : (state.groupView (extractGroupKeys query.groupByFields event)).find?
        wholeRequest.test = ((bucketsOf (extractGroupKeys query.groupByFields event)
          state.buckets).find? wholeRequest.test).map Bucket.content := List.find?_map
    obtain ⟨-, ofGroup⟩ := findOrCreate_mem state (extractGroupKeys query.groupByFields event)
      ((bucketsOf (extractGroupKeys query.groupByFields event) state.buckets).find?
        wholeRequest.test) 0 u64Max (fun bucket found => List.mem_of_find?_eq_some found)
    rw [aggregateEvent_whole wf keyed whole fit, groupEvent, asked, Option.map_some,
      Option.map_some, List.foldl_cons, List.foldl_nil]
    dsimp only
    rw [emits, search, view, if_pos whole, ← findOrCreate_bucket, List.filterMap_cons, seenBy,
      quiet.groupKeys, ofGroup, if_pos rfl, quiet.content, findOrCreate_bucket]
    cases (bucketsOf (extractGroupKeys query.groupByFields event) state.buckets).find?
        wholeRequest.test with
    | none => rfl
    | some bucket => rfl
  · rw [aggregateEvent_windowed wf keyed whole fit, groupEvent, Option.map_map]
    cases asked : bucketRequests query.window (eventTimestamp event now) with
    | none => rfl
    | some requests =>
        obtain ⟨-, view, -⟩ := serveState_foldl fit quiet (bucketRequests_blind asked) grouped
        rw [Option.map_some, Option.map_some, Function.comp_apply, view]
        dsimp only
        rw [if_neg whole]
        rfl

/-- An event of another group is nothing to the group. -/
theorem aggregateEvent_other (wf : state.WellFormed query) (keyed : state.Keyed query)
    {event : Event} (different : extractGroupKeys query.groupByFields event ≠ keys)
    (fit : KeysFit query.groupByFields (extractGroupKeys query.groupByFields event))
    {now now' : Nat} {next : AggState} {emitted : List Bucket}
    (stepped : aggregateEvent state event now now' = some (next, emitted)) :
    next.groupView keys = state.groupView keys ∧ emitted.filterMap (seenBy keys) = [] := by
  have grouped : state.Grouped query := ⟨wf.addrs, wf.fresh, keyed⟩
  have quiet := eventUpdate_quiet query event now'
  by_cases whole : query.window.type = .none
  · rw [aggregateEvent_whole wf keyed whole fit] at stepped
    obtain ⟨rfl, rfl⟩ := Prod.mk.inj (Option.some.inj stepped)
    refine ⟨serveState_groupView_other grouped fit quiet wholeRequest different, ?_⟩
    obtain ⟨-, ofGroup⟩ := findOrCreate_mem state (extractGroupKeys query.groupByFields event)
      ((bucketsOf (extractGroupKeys query.groupByFields event) state.buckets).find?
        wholeRequest.test) 0 u64Max (fun bucket found => List.mem_of_find?_eq_some found)
    rw [← findOrCreate_bucket, List.filterMap_cons_none, List.filterMap_nil]
    rw [seenBy, quiet.groupKeys, ofGroup, if_neg different]
  · rw [aggregateEvent_windowed wf keyed whole fit] at stepped
    obtain ⟨requests, asked, same⟩ := Option.map_eq_some_iff.mp stepped
    obtain ⟨rfl, rfl⟩ := Prod.mk.inj same
    obtain ⟨-, -, others⟩ := serveState_foldl fit quiet (bucketRequests_blind asked) grouped
    exact ⟨others keys different, rfl⟩

end Events

/-! ## A tick, seen by a group -/

/-- A flush step but for the address of its bucket. -/
def FlushStep.content (step : FlushStep) : FlushStep :=
  { step with bucket := step.bucket.content }

theorem flushBucket_content (window : Window) (now : Nat) (bucket : Bucket) :
    flushBucket window now bucket.content =
      (flushBucket window now bucket).map FlushStep.content := by
  unfold flushBucket
  cases window.type with
  | none => rfl
  | session => rfl
  | tumbling =>
      show flushTumbling window now bucket.content =
        (flushTumbling window now bucket).map FlushStep.content
      have ends : bucket.content.windowEndNs = bucket.windowEndNs := rfl
      unfold flushTumbling
      rw [ends]
      by_cases due : bucket.windowEndNs ≤ now
      · rw [if_pos due, if_pos due, Option.map_map]
        rfl
      · rw [if_neg due, if_neg due]
        rfl
  | sliding =>
      show some (flushSliding now bucket.content) =
        (some (flushSliding now bucket)).map FlushStep.content
      have ends : bucket.content.windowEndNs = bucket.windowEndNs := rfl
      unfold flushSliding
      rw [ends]
      by_cases due : bucket.windowEndNs ≤ now
      · rw [if_pos due, if_pos due]
        rfl
      · rw [if_neg due, if_neg due]
        rfl

theorem flushBucket_total {window : Window} {bucket : Bucket} (shape : BucketShape window bucket)
    (now : Nat) : ∃ step, flushBucket window now bucket = some step := by
  unfold flushBucket
  cases type : window.type with
  | none => exact ⟨_, rfl⟩
  | session => exact ⟨_, rfl⟩
  | sliding => exact ⟨_, rfl⟩
  | tumbling =>
      have positive := ((bucketShape_tumbling type).mp shape).1
      exact ⟨_, flushTumbling_eq positive now bucket⟩

section Ticks

variable {window : Window} {now : Nat}

/-- What a group sees of emitted buckets. -/
theorem filterMap_seenBy (keys : Option (List String)) (buckets : List Bucket) :
    buckets.filterMap (seenBy keys) = (bucketsOf keys buckets).map Bucket.content := by
  induction buckets with
  | nil => rfl
  | cons bucket buckets ih =>
      by_cases ofGroup : bucket.groupKeys = keys
      · rw [List.filterMap_cons, seenBy, if_pos ofGroup, bucketsOf_cons_of_eq ofGroup,
          List.map_cons]
        exact congrArg _ ih
      · rw [List.filterMap_cons, seenBy, if_neg ofGroup, bucketsOf_cons_of_ne ofGroup]
        exact ih

/-- The loop of a tick flushes a group as if it were alone. -/
theorem flushLoop_groupView (keys : Option (List String)) {buckets : List Bucket}
    (total : ∀ bucket ∈ buckets, ∃ step, flushBucket window now bucket = some step) :
    ∃ kept emitted, flushLoop window now buckets = some (kept, emitted) ∧
      flushLoop window now ((bucketsOf keys buckets).map Bucket.content) =
        some ((bucketsOf keys kept).map Bucket.content,
          (bucketsOf keys emitted).map Bucket.content) := by
  induction buckets with
  | nil => exact ⟨[], [], rfl, rfl⟩
  | cons bucket buckets ih =>
      obtain ⟨step, stepped⟩ := total bucket List.mem_cons_self
      obtain ⟨kept, emitted, flushed, seen⟩ :=
        ih (fun other member => total other (List.mem_cons_of_mem _ member))
      have same := (flushBucket_keeps stepped).2.1
      refine ⟨_, _, by rw [flushLoop, stepped, flushed], ?_⟩
      rw [bucketsOf_append, bucketsOf_append, List.map_append, List.map_append]
      by_cases ofGroup : bucket.groupKeys = keys
      · have stepOf : bucketsOf keys [step.bucket] = [step.bucket] :=
          bucketsOf_cons_of_eq (same.trans ofGroup)
        rw [bucketsOf_cons_of_eq ofGroup, List.map_cons, flushLoop, flushBucket_content, stepped,
          Option.map_some, seen]
        refine congrArg some (Prod.ext (congrArg (· ++ _) ?_) (congrArg (· ++ _) ?_))
        · show (if step.shouldRemove then [] else [step.bucket.content]) = _
          cases step.shouldRemove with
          | true => rfl
          | false => exact (congrArg (List.map Bucket.content) stepOf).symm
        · show (if step.shouldFlush then [step.bucket.content] else []) = _
          cases step.shouldFlush with
          | true => exact (congrArg (List.map Bucket.content) stepOf).symm
          | false => rfl
      · have stepOf : bucketsOf keys [step.bucket] = [] :=
          bucketsOf_cons_of_ne (fun of => ofGroup (same.symm.trans of))
        have keptNone : bucketsOf keys (if step.shouldRemove then [] else [step.bucket]) = [] := by
          cases step.shouldRemove with
          | true => rfl
          | false => exact stepOf
        have emittedNone :
            bucketsOf keys (if step.shouldFlush then [step.bucket] else []) = [] := by
          cases step.shouldFlush with
          | true => exact stepOf
          | false => rfl
        rw [bucketsOf_cons_of_ne ofGroup, seen, keptNone, emittedNone]
        rfl

end Ticks

theorem windowFlushCb_own {query : Aggregate} {state : AggState} (wf : state.WellFormed query)
    (keys : Option (List String)) (now : Nat) :
    (windowFlushCb state now).map
        (fun result => (result.1.groupView keys, result.2.filterMap (seenBy keys))) =
      flushLoop query.window now (state.groupView keys) := by
  obtain ⟨kept, emitted, flushed, seen⟩ := flushLoop_groupView keys
    (fun bucket member => flushBucket_total (wf.shape bucket member) now)
  rw [windowFlushCb, wf.window, flushed, AggState.groupView, seen, Option.map_some,
    filterMap_seenBy]
  rfl

/-! ## Runs -/

section Runs

variable [Pcre2] {query : Aggregate} {state : AggState} {keys : Option (List String)}

/-- The operations a group takes part in: its own events and all ticks. -/
def AggOp.concerns (query : Aggregate) (keys : Option (List String)) : AggOp → Bool
  | .event e _ _ => decide (extractGroupKeys query.groupByFields e = keys)
  | .tick _ => true

/-- An event of the operation carries data. -/
def AggOp.HasData : AggOp → Prop
  | .event e _ _ => e.data.isSome
  | .tick _ => True

instance : DecidablePred AggOp.HasData
  | .event e _ _ => inferInstanceAs (Decidable (e.data.isSome = true))
  | .tick _ => .isTrue trivial

/-- An operation the group takes part in is a step of the machine of the group. -/
theorem aggStep_own (wf : state.WellFormed query) (keyed : state.Keyed query) {op : AggOp}
    (hasData : op.HasData) (concerns : op.concerns query keys = true) :
    (aggStep query state op).map
        (fun result => (result.1.groupView keys, result.2.filterMap (seenBy keys))) =
      groupStep query keys (state.groupView keys) op := by
  cases op with
  | tick now => exact windowFlushCb_own wf keys now
  | event event now now' =>
      have own : extractGroupKeys query.groupByFields event = keys := of_decide_eq_true concerns
      rw [aggStep, executeAggregate, groupStep]
      by_cases accepts : whereAccepts query event = true
      · rw [if_pos accepts, if_pos accepts]
        exact aggregateEvent_own wf keyed own (own ▸ extractGroupKeys_fit (Or.inl hasData)) now now'
      · rw [if_neg accepts, if_neg accepts]
        rfl

/-- Any other operation is nothing to the group. -/
theorem aggStep_other (wf : state.WellFormed query) (keyed : state.Keyed query) {op : AggOp}
    (hasData : op.HasData) (concerns : op.concerns query keys = false) {next : AggState}
    {emitted : List Bucket} (stepped : aggStep query state op = some (next, emitted)) :
    next.groupView keys = state.groupView keys ∧ emitted.filterMap (seenBy keys) = [] := by
  cases op with
  | tick now => cases concerns
  | event event now now' =>
      have different : extractGroupKeys query.groupByFields event ≠ keys :=
        of_decide_eq_false concerns
      rw [aggStep, executeAggregate] at stepped
      by_cases accepts : whereAccepts query event = true
      · rw [if_pos accepts] at stepped
        exact aggregateEvent_other wf keyed different
          (extractGroupKeys_fit (Or.inl hasData)) stepped
      · rw [if_neg accepts] at stepped
        obtain ⟨rfl, rfl⟩ := Prod.mk.inj (Option.some.inj stepped)
        exact ⟨rfl, rfl⟩

/-- The buckets keep the keys that fit. -/
theorem aggStep_keyed (wf : state.WellFormed query) (keyed : state.Keyed query) {op : AggOp}
    (hasData : op.HasData) {next : AggState} {emitted : List Bucket}
    (stepped : aggStep query state op = some (next, emitted)) : next.Keyed query := by
  have grouped : state.Grouped query := ⟨wf.addrs, wf.fresh, keyed⟩
  cases op with
  | tick now =>
      intro bucket member
      obtain ⟨old, inside, -, keys⟩ := windowFlushCb_kept stepped bucket member
      rw [keys]
      exact keyed old inside
  | event event now now' =>
      rw [aggStep, executeAggregate] at stepped
      by_cases accepts : whereAccepts query event = true
      · rw [if_pos accepts] at stepped
        have fit : KeysFit query.groupByFields (extractGroupKeys query.groupByFields event) :=
          extractGroupKeys_fit (Or.inl hasData)
        have quiet := eventUpdate_quiet query event now'
        by_cases whole : query.window.type = .none
        · rw [aggregateEvent_whole wf keyed whole fit] at stepped
          obtain ⟨rfl, -⟩ := Prod.mk.inj (Option.some.inj stepped)
          exact (serveState_grouped grouped fit quiet wholeRequest).keyed
        · rw [aggregateEvent_windowed wf keyed whole fit] at stepped
          obtain ⟨requests, asked, same⟩ := Option.map_eq_some_iff.mp stepped
          obtain ⟨rfl, -⟩ := Prod.mk.inj same
          exact (serveState_foldl fit quiet (bucketRequests_blind asked) grouped).1.keyed
      · rw [if_neg accepts] at stepped
        obtain ⟨rfl, -⟩ := Prod.mk.inj (Option.some.inj stepped)
        exact keyed

/-- The executor is isolated for every group. -/
theorem aggStep_isolated (query : Aggregate) (keys : Option (List String)) :
    Isolation.Isolated (aggStep query)
      (fun state => state.WellFormed query ∧ state.Keyed query) AggOp.HasData
      (AggOp.concerns query keys) (AggState.groupView keys) (seenBy keys) where
  keeps := by
    intro state op next emitted inv valid stepped
    exact ⟨AggState.WellFormed.step inv.1 stepped, aggStep_keyed inv.1 inv.2 valid stepped⟩
  respects := by
    intro state op next emitted inv valid others stepped
    exact aggStep_other inv.1 inv.2 valid others stepped
  consistent := by
    intro state other op next emitted inv invOther valid own same stepped
    have here := aggStep_own inv.1 inv.2 valid own
    have there := aggStep_own invOther.1 invOther.2 valid own
    rw [stepped, same, ← there] at here
    obtain ⟨⟨next', emitted'⟩, stepped', seen⟩ := Option.map_eq_some_iff.mp here.symm
    obtain ⟨view, results⟩ := Prod.mk.inj seen
    exact ⟨next', emitted', stepped', view.symm, results.symm⟩

theorem aggRunFrom_eq_run (ops : List AggOp) (state : AggState) :
    aggRunFrom query state ops = Isolation.run (aggStep query) state ops := by
  induction ops generalizing state with
  | nil => rfl
  | cons op ops ih =>
      rw [aggRunFrom, Isolation.run]
      cases aggStep query state op with
      | none => rfl
      | some result =>
          exact congrArg (Option.map (fun last => (last.1, result.2 ++ last.2))) (ih result.1)

end Runs

/-- A count by level, over all time. -/
def levelCountQuery : Aggregate where
  funcs := [{ type := .count }]
  groupByFields := ["level"]
  whereFilter := none
  window := { type := .none }

/-- A log event of a level. -/
def levelEvent (level : String) (timestamp : Nat) : Event where
  type := .log
  timestampNs := timestamp
  input := none
  data := some (.object [("level", .string level)])

end Nblex
