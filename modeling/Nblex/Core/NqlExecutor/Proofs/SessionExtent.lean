import Nblex.Core.NqlExecutor.CountedEvents
import Nblex.Core.NqlExecutor.Proofs.RunningCounts
import Nblex.Core.NqlExecutor.Proofs.SessionWindow

/-!
# The extent of a session in its result

A session bucket starts at its first event and follows its last one, but its end is the mark of an
open session. The result has the mark, which is `-1` as a signed integer, for the end of the window,
and the clock for its own time.
-/

namespace Nblex

/-- The `window` object of a result. -/
theorem createAggResultEvent_window (state : AggState) (bucket : Bucket) (now : Nat)
    (key : String) : (createAggResultEvent state bucket now).entry "window" key =
      (aggWindow state.window bucket).bind (·.get? key) := by
  show (((((((Json.object []).set "nql_result_type" _).set "group" _).set "metrics" _).set
    "window" _).get? "window").bind (·.get? key)) = _
  cases aggWindow state.window bucket with
  | some window =>
      cases aggGroup state.groupByFields bucket with
      | none => rfl
      | some group => rfl
  | none =>
      cases aggGroup state.groupByFields bucket with
      | none => rfl
      | some group => rfl

/-- A result reports the extent of the session of these events: the time of the first one, an end
    that is not before the last one, and this end as its own time. -/
structure SessionExtent (events : List Event) (result : Event) : Prop where
  start : ∃ first, events.head? = some first ∧
    result.entry "window" "start_ns" = some (.integer first.timestampNs)
  covers : ∃ last endNs, events.getLast? = some last ∧
    result.entry "window" "end_ns" = some (.integer endNs) ∧ (last.timestampNs : Int) ≤ endNs
  dated : result.entry "window" "end_ns" = some (.integer result.timestampNs)

section Runs

variable [Pcre2] {query : Aggregate} {state : AggState}

/-- Every result of a tick of the run reports the extent of the session its bucket counts. -/
def ReportsExtents (query : Aggregate) (ops : List AggOp) : Prop :=
  ∀ before now after, ops = before ++ .tick now :: after →
    ∃ state emitted next flushed, aggRun query before = some (state, emitted) ∧
      windowFlushCb state now = some (next, flushed) ∧
      ∀ bucket ∈ flushed, ∀ clock,
        SessionExtent (countedEvents query bucket.addr (newAggState query) before)
          (createAggResultEvent state bucket clock)

/-- No tick of the run comes when a session with events has been idle for the timeout. -/
def QuietTicks (query : Aggregate) (ops : List AggOp) : Prop :=
  ∀ before now after, ops = before ++ .tick now :: after →
    ∀ state emitted, aggRun query before = some (state, emitted) →
      ∀ bucket ∈ state.buckets, 0 < bucket.count →
        u64Sub now bucket.lastEventNs < timeoutNs query.window

/-- Timestamps that are set, and that a signed integer can hold. -/
def AggOp.Stamped : AggOp → Prop
  | .event e _ _ => e.timestampNs ≠ 0 ∧ e.timestampNs < 2 ^ 63
  | .tick _ => True

/-! ## What a session bucket says about its events -/

/-- A session bucket of these events. -/
structure SessionOf (events : List Event) (bucket : Bucket) : Prop where
  start : events.head?.map Event.timestampNs = some bucket.windowStartNs
  last : events.getLast?.map Event.timestampNs = some bucket.lastEventNs
  count : bucket.count = events.length
  small : bucket.windowStartNs < 2 ^ 63

/-- After some of a run, `log` has the events that the bucket at each address has counted. -/
structure SessionLog (query : Aggregate) (log : Nat → List Event) (state : AggState) : Prop where
  wf : state.WellFormed query
  fresh : ∀ addr, state.nextAddr ≤ addr → log addr = []
  logged : ∀ bucket ∈ state.buckets, SessionOf (log bucket.addr) bucket

omit [Pcre2] in
theorem newAggState_sessionLog (query : Aggregate) :
    SessionLog query (fun _ => []) (newAggState query) :=
  ⟨newAggState_wellFormed query, fun _ _ => rfl, nofun⟩

/-- The bucket that an event goes into: a session whose last event is not later, or a new bucket
    at the time of the event. -/
def Awaits (events : List Event) (timestamp : Nat) (bucket : Bucket) : Prop :=
  SessionOf events bucket ∧ bucket.lastEventNs ≤ timestamp ∨
    events = [] ∧ bucket.count = 0 ∧ bucket.windowStartNs = timestamp ∧
      bucket.lastEventNs = timestamp

omit [Pcre2] in
/-- The bucket of an event after it is updated. -/
theorem Awaits.update (type : query.window.type = .session) {events : List Event}
    {bucket : Bucket} {event : Event} (stamped : event.timestampNs ≠ 0)
    (small : event.timestampNs < 2 ^ 63) (now : Nat)
    (before : Awaits events event.timestampNs bucket) :
    SessionOf (events ++ [event])
      (updateBucketWithEvent query.window query.funcs bucket event now) := by
  have lastEvent : (updateBucketWithEvent query.window query.funcs bucket event now).lastEventNs =
      event.timestampNs := by
    have notLater : bucket.lastEventNs ≤ event.timestampNs := by
      rcases before with ⟨_, later⟩ | ⟨_, _, _, same⟩
      · exact later
      · exact same.le
    rw [updateBucketWithEvent_lastEventNs, dateAfter, eventTimestamp_of_ne_zero now stamped]
    split
    · rfl
    · rename_i earlier
      have : ¬bucket.lastEventNs < event.timestampNs := fun lt => earlier ⟨type, lt⟩
      omega
  constructor
  · rw [updateBucketWithEvent_windowStartNs]
    rcases before with ⟨session, _⟩ | ⟨rfl, _, start, _⟩
    · cases events with
      | nil => cases session.start
      | cons first rest => exact session.start
    · exact congrArg some start.symm
  · rw [lastEvent, List.getLast?_concat]
    rfl
  · rw [updateBucketWithEvent_count, List.length_append, List.length_singleton]
    rcases before with ⟨session, _⟩ | ⟨rfl, zero, _⟩
    · rw [session.count]
    · rw [zero]
      rfl
  · rw [updateBucketWithEvent_windowStartNs]
    rcases before with ⟨session, _⟩ | ⟨_, _, start, _⟩
    · exact session.small
    · exact start ▸ small

omit [Pcre2] in
/-- The bucket of an event, found or created. -/
theorem sessionBuckets_awaits {log : Nat → List Event} (inv : SessionLog query log state)
    (type : query.window.type = .session) (keys : Option (List String)) (timestamp : Nat) :
    ∃ found : AggState × Bucket, sessionBuckets state keys timestamp = singleBucket found ∧
      found.1.WellFormed query ∧ found.2 ∈ found.1.buckets ∧
      Awaits (log found.2.addr) timestamp found.2 ∧
      (∀ bucket ∈ found.1.buckets, bucket.addr ≠ found.2.addr → bucket ∈ state.buckets) ∧
      ∀ addr, found.1.nextAddr ≤ addr → log addr = [] := by
  refine ⟨_, rfl, inv.wf.session type keys timestamp, ?_⟩
  generalize searched : state.buckets.find? _ = search
  cases search with
  | some bucket =>
      have member := List.mem_of_find?_eq_some searched
      have tested := List.find?_some searched
      simp only [Bool.and_eq_true, decide_eq_true_eq] at tested
      exact ⟨member, .inl ⟨inv.logged bucket member, tested.1.2⟩, fun _ inside _ => inside,
        inv.fresh⟩
  | none =>
      refine ⟨List.mem_cons_self, .inr ⟨inv.fresh _ (le_refl _), rfl, rfl, rfl⟩, ?_, ?_⟩
      · intro bucket inside other
        rcases List.mem_cons.mp inside with rfl | old
        · exact absurd rfl other
        · exact old
      · intro addr later
        exact inv.fresh addr (Nat.le_of_succ_le later)

omit [Pcre2] in
/-- What a tick flushes, and what it leaves. -/
theorem windowFlushCb_expired (wf : state.WellFormed query) (type : query.window.type = .session)
    (now : Nat) :
    ∃ next flushed, windowFlushCb state now = some (next, flushed) ∧
      flushed = state.buckets.filter (fun bucket => decide
        (0 < bucket.count ∧ timeoutNs query.window ≤ u64Sub now bucket.lastEventNs)) ∧
      next.nextAddr = state.nextAddr ∧ ∀ bucket ∈ next.buckets, bucket ∈ state.buckets := by
  have total : ∀ bucket ∈ state.buckets, flushBucket query.window now bucket =
      some (flushSession query.window now bucket) := by
    intro bucket _
    rw [flushBucket, type]
  have looped := flushLoop_of_total total
  rw [windowFlushCb, wf.window, looped]
  refine ⟨_, _, rfl, ?_, rfl, ?_⟩
  · rw [List.filter_map, List.map_map]
    exact List.map_id _
  · intro bucket member
    obtain ⟨step, inside, rfl⟩ := List.mem_map.mp member
    obtain ⟨old, oldMember, rfl⟩ := List.mem_map.mp (List.mem_filter.mp inside).1
    exact oldMember

/-- A step keeps the log, with what it counts added to it. -/
theorem SessionLog.step {log : Nat → List Event} (inv : SessionLog query log state)
    (type : query.window.type = .session) {op : AggOp} (stamped : op.Stamped) :
    ∃ next emitted, aggStep query state op = some (next, emitted) ∧
      SessionLog query (fun addr => log addr ++ countedHere query addr state op) next := by
  cases op with
  | event event now now' =>
      obtain ⟨nonzero, small⟩ := stamped
      by_cases accepts : whereAccepts query event
      · obtain ⟨found, assigned, wf, inside, awaits, others, fresh⟩ := sessionBuckets_awaits inv
          type (extractGroupKeys query.groupByFields event) event.timestampNs
        have got : getOrCreateBucketsForEvent state (extractGroupKeys query.groupByFields event)
            (eventTimestamp event now) = some (singleBucket found) := by
          rw [getOrCreateBucketsForEvent, inv.wf.window, type,
            eventTimestamp_of_ne_zero now nonzero]
          exact congrArg some assigned
        have counts : ∀ addr, countedHere query addr state (.event event now now') =
            if addr = found.2.addr then [event] else [] := by
          intro addr
          rw [countedHere, countingBuckets, if_pos accepts, inv.wf.groupByFields, got]
          simp [singleBucket]
        have stepped := aggregateEvent_single inv.wf (by simp [type]) got now'
        have ran := stepped
        rw [← @if_pos _ _ accepts _ (aggregateEvent state event now now') (some (state, []))] at ran
        refine ⟨_, [], ran, inv.wf.aggregateEvent stepped, ?_, ?_⟩
        · intro addr later
          have notHere : addr ≠ found.2.addr := by
            have below := wf.fresh found.2 inside
            rintro rfl
            exact absurd later (Nat.not_le.mpr below)
          rw [counts, if_neg notHere, List.append_nil]
          exact fresh addr later
        · intro bucket member
          obtain ⟨old, oldMember, rfl⟩ := List.mem_map.mp member
          by_cases here : old.addr = found.2.addr
          · obtain rfl : old = found.2 :=
              List.inj_on_of_nodup_map wf.addrs oldMember inside here
            rw [if_pos rfl, updateBucketWithEvent_addr, counts, if_pos rfl]
            exact awaits.update type nonzero small now'
          · rw [if_neg here, counts, if_neg here, List.append_nil]
            exact inv.logged old (others old oldMember here)
      · have rejected : ∀ addr, countedHere query addr state (.event event now now') = [] := by
          intro addr
          simp [countedHere, countingBuckets, accepts]
        refine ⟨state, [], ?_, ?_⟩
        · rw [aggStep, executeAggregate, if_neg accepts]
        · simpa only [rejected, List.append_nil] using inv
  | tick now =>
      obtain ⟨next, flushed, ran, -, sameAddr, kept⟩ := windowFlushCb_expired inv.wf type now
      refine ⟨next, flushed, ran, inv.wf.flush ran, ?_, ?_⟩
      · intro addr later
        rw [countedHere, List.append_nil]
        exact inv.fresh addr (sameAddr ▸ later)
      · intro bucket member
        rw [countedHere, List.append_nil]
        exact inv.logged bucket (kept bucket member)

/-- A run goes through and keeps the log. -/
theorem SessionLog.run (type : query.window.type = .session) (ops : List AggOp) :
    ∀ {log : Nat → List Event} {state : AggState}, SessionLog query log state →
      (∀ op ∈ ops, op.Stamped) →
      ∃ last emitted, aggRunFrom query state ops = some (last, emitted) ∧
        SessionLog query (fun addr => log addr ++ countedEvents query addr state ops) last := by
  induction ops with
  | nil =>
      intro log state inv _
      refine ⟨state, [], rfl, ?_⟩
      simpa only [countedEvents, List.append_nil] using inv
  | cons op ops ih =>
      intro log state inv stamped
      obtain ⟨next, emitted, stepped, inv'⟩ := inv.step type (stamped op List.mem_cons_self)
      obtain ⟨last, rest, ran, inv''⟩ :=
        ih inv' (fun later member => stamped later (List.mem_cons_of_mem _ member))
      refine ⟨last, emitted ++ rest, ?_, ?_⟩
      · rw [aggRunFrom, stepped]
        simp only [ran, Option.map_some]
      · simpa only [countedEvents, stepped, List.append_assoc] using inv''

/-! ## What a result says -/

omit [Pcre2] in
/-- The result of a session starts at its first event and ends at `-1`. -/
theorem createAggResultEvent_session (type : state.window.type = .session) {events : List Event}
    {bucket : Bucket} (session : SessionOf events bucket) (open' : bucket.windowEndNs = u64Max)
    (clock : Nat) :
    (∃ first, events.head? = some first ∧
      (createAggResultEvent state bucket clock).entry "window" "start_ns" =
        some (.integer first.timestampNs)) ∧
      (createAggResultEvent state bucket clock).entry "window" "end_ns" = some (.integer (-1)) := by
  have window : aggWindow state.window bucket = some (.object
      [("start_ns", .integer (toInt64 bucket.windowStartNs)),
        ("end_ns", .integer (toInt64 bucket.windowEndNs))]) := if_neg (by simp [type])
  rw [createAggResultEvent_window, createAggResultEvent_window, window, open']
  obtain ⟨first, head, start⟩ := Option.map_eq_some_iff.mp session.start
  have signed := toInt64_of_lt session.small
  refine ⟨⟨first, head, ?_⟩, rfl⟩
  rw [start, ← signed]
  rfl

omit [Pcre2] in
/-- No result of a session reports its extent. -/
theorem not_sessionExtent (type : state.window.type = .session) {events : List Event}
    {bucket : Bucket} (session : SessionOf events bucket) (open' : bucket.windowEndNs = u64Max)
    (clock : Nat) : ¬SessionExtent events (createAggResultEvent state bucket clock) := by
  obtain ⟨-, ends⟩ := createAggResultEvent_session type session open' clock
  intro extent
  obtain ⟨last, endNs, -, reported, notBefore⟩ := extent.covers
  rw [ends] at reported
  obtain rfl : -1 = endNs := Json.integer.inj (Option.some.inj reported)
  omega

/-- What a run holds when it comes to a tick. -/
theorem sessionLog_before_tick (type : query.window.type = .session) {ops : List AggOp}
    (stamped : ∀ op ∈ ops, op.Stamped) {before after : List AggOp} {now : Nat}
    (split : ops = before ++ .tick now :: after) :
    ∃ state emitted, aggRun query before = some (state, emitted) ∧
      SessionLog query (fun addr => countedEvents query addr (newAggState query) before) state := by
  subst split
  exact (newAggState_sessionLog query).run type before
    (fun op member => stamped op (List.mem_append_left _ member))

/-- A result that is emitted does not report the extent of its session. -/
theorem ReportsExtents.quiet (type : query.window.type = .session) {ops : List AggOp}
    (stamped : ∀ op ∈ ops, op.Stamped) (reports : ReportsExtents query ops) :
    QuietTicks query ops := by
  intro before now after split state emitted ran bucket member counted
  by_contra late
  obtain ⟨_, _, ran', inv⟩ := sessionLog_before_tick type stamped split
  obtain ⟨rfl, rfl⟩ := Prod.mk.inj (Option.some.inj (ran.symm.trans ran'))
  obtain ⟨_, _, next, flushed, ran'', flushes, extents⟩ := reports before now after split
  obtain ⟨rfl, rfl⟩ := Prod.mk.inj (Option.some.inj (ran.symm.trans ran''))
  obtain ⟨_, _, flushes', rfl, -⟩ := windowFlushCb_expired inv.wf type now
  obtain ⟨rfl, rfl⟩ := Prod.mk.inj (Option.some.inj (flushes.symm.trans flushes'))
  have shape := inv.wf.shape bucket member
  simp only [BucketShape, type] at shape
  refine not_sessionExtent (inv.wf.window ▸ type) (inv.logged bucket member) shape 0
    (extents bucket (List.mem_filter.mpr ⟨member, ?_⟩) 0)
  exact decide_eq_true ⟨counted, Nat.le_of_not_lt late⟩

/-- Every result of a tick reports the extent of the session it counts, if and only if no tick
    comes when a session has been idle for the timeout, so that there are no results. -/
theorem reportsExtents_iff (type : query.window.type = .session) {ops : List AggOp}
    (stamped : ∀ op ∈ ops, op.Stamped) : ReportsExtents query ops ↔ QuietTicks query ops := by
  refine ⟨fun reports => reports.quiet type stamped, ?_⟩
  intro quiet before now after split
  obtain ⟨state, emitted, ran, inv⟩ := sessionLog_before_tick type stamped split
  obtain ⟨next, flushed, flushes, rfl, -⟩ := windowFlushCb_expired inv.wf type now
  refine ⟨state, emitted, next, _, ran, flushes, ?_⟩
  intro bucket member
  obtain ⟨inside, expired⟩ := List.mem_filter.mp member
  obtain ⟨counted, late⟩ := of_decide_eq_true expired
  exact absurd (quiet before now after split state emitted ran bucket inside counted)
    (Nat.not_lt.mpr late)

end Runs

/-- `count() window session(1ms)`. -/
def sessionCountQuery : Aggregate where
  funcs := [{ type := .count }]
  groupByFields := []
  whereFilter := none
  window := { type := .session, timeoutMs := 1 }

/-- Two events within the timeout, a tick between them and a tick after the session is over. -/
def sessionCountOps : List AggOp :=
  [.event { type := .log, timestampNs := 1000000, input := none, data := some (.object []) } 0 0,
    .tick 1400000,
    .event { type := .log, timestampNs := 1500000, input := none, data := some (.object []) } 0 0,
    .tick 3000000]

theorem sessionCountOps_stamped : ∀ op ∈ sessionCountOps, op.Stamped := by
  simp [sessionCountOps, AggOp.Stamped]

theorem reportsExtents_iff_sessionCountQuery :
    @ReportsExtents literalPcre2 sessionCountQuery sessionCountOps ↔
      @QuietTicks literalPcre2 sessionCountQuery sessionCountOps :=
  @reportsExtents_iff literalPcre2 sessionCountQuery rfl sessionCountOps sessionCountOps_stamped

/-- The session of the two events is over at the second tick, and its result ends at `-1`. -/
theorem sessionCountOps_unreported :
    sessionCountOps.Pairwise AggOp.Before ∧ (∀ op ∈ sessionCountOps, op.Stamped) ∧
      ¬@ReportsExtents literalPcre2 sessionCountQuery sessionCountOps := by
  refine ⟨by simp [sessionCountOps, AggOp.Before, AggOp.time], sessionCountOps_stamped, ?_⟩
  intro reports
  have quiet := @ReportsExtents.quiet literalPcre2 sessionCountQuery rfl sessionCountOps
    sessionCountOps_stamped reports
  have early := quiet (sessionCountOps.take 3) 3000000 [] rfl _ _ rfl _ List.mem_cons_self
    (by decide)
  exact absurd early (by decide)

end Nblex
