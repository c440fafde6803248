import Nblex.Core.NqlExecutor.Proofs.GroupKeys
import Nblex.Misc.GapRuns
import Nblex.Misc.Guarded
import Nblex.Parsers.NqlParser

/-!
# Session windows

Over a whole run of events and timer ticks the sessions of a group, flushed and buffered, are
the maximal runs of the group's events. Per group, the bucket list is a tracker of `GapRuns`:
the search of the executor can only find the newest bucket of the group. An event without group
keys is another matter: it is taken for an event of whatever group has a session open.
-/

namespace Nblex

open GapRuns

/-- What a bucket says about its session. -/
def Bucket.session (bucket : Bucket) : Summary :=
  ⟨bucket.windowStartNs, bucket.lastEventNs, bucket.count⟩

/-- The sessions of a group. -/
def sessionsOf (keys : Option (List String)) (buckets : List Bucket) : List Summary :=
  (bucketsOf keys buckets).map Bucket.session

/-- The time an operation happens at. -/
def AggOp.time : AggOp → Nat
  | .event e _ _ => e.timestampNs
  | .tick now => now

/-- Events come in the order of their timestamps, and a tick comes between the events before
    and after it. Two ticks with no event in between may come in any order. -/
def AggOp.Before : AggOp → AggOp → Prop
  | .tick _, .tick _ => True
  | first, second => first.time ≤ second.time

/-- The timestamp of an event that a query counts in a group. -/
def AggOp.countedIn [Pcre2] (query : Aggregate) (keys : Option (List String)) :
    AggOp → Option Nat
  | .event e _ _ =>
      if whereAccepts query e ∧ extractGroupKeys query.groupByFields e = keys then
        some e.timestampNs
      else none
  | .tick _ => none

/-- The times of the events that a query counts in a group. -/
def groupTimes [Pcre2] (query : Aggregate) (keys : Option (List String)) (ops : List AggOp) :
    List Nat := ops.filterMap (AggOp.countedIn query keys)

/-- The time of a tick. -/
def AggOp.tickTime : AggOp → Option Nat
  | .event _ _ _ => none
  | .tick now => some now

/-! ## Events -/

variable {query : Aggregate} {state : AggState}

/-- Updating a session bucket with a later event moves its last time and counts the event. -/
theorem updateBucketWithEvent_session {window : Window} (type : window.type = .session)
    (funcs : List AggFunc) {bucket : Bucket} {event : Event} (now : Nat)
    (stamped : event.timestampNs ≠ 0) (later : bucket.lastEventNs ≤ event.timestampNs) :
    (updateBucketWithEvent window funcs bucket event now).session =
      ⟨bucket.windowStartNs, event.timestampNs, bucket.count + 1⟩ := by
  have date : dateAfter window bucket event now = event.timestampNs := by
    unfold dateAfter
    rw [eventTimestamp_of_ne_zero now stamped]
    by_cases earlier : bucket.lastEventNs < event.timestampNs
    · rw [if_pos ⟨type, earlier⟩]
    · rw [if_neg (fun both => earlier both.2)]
      omega
  simp [Bucket.session, updateBucketWithEvent_lastEventNs, date]

/-- The session is open to an event of this time. -/
def Bucket.openTo (window : Window) (timestamp : Nat) (bucket : Bucket) : Bool :=
  bucket.windowEndNs == u64Max && decide (bucket.lastEventNs ≤ timestamp) &&
    decide (timestamp - bucket.lastEventNs < timeoutNs window)

/-- The search of the session branch, in terms of the buckets of the group. -/
theorem sessionSearch_eq (wf : state.WellFormed query) (type : query.window.type = .session)
    (labelled : state.Labelled query) {keys : Option (List String)}
    (label : keys = none ∨ KeysFit query.groupByFields keys) (timestamp : Nat)
    (own : keys = none → ∀ bucket,
      state.buckets.find? (Bucket.openTo query.window timestamp) = some bucket →
        bucket.groupKeys = none) :
    state.buckets.find? (fun bucket =>
        compareGroupKeys bucket.groupKeys keys (groupKeysCount keys) &&
          bucket.windowEndNs == u64Max && decide (bucket.lastEventNs ≤ timestamp) &&
          decide (timestamp - bucket.lastEventNs < timeoutNs state.window)) =
      (bucketsOf keys state.buckets).find? (fun bucket =>
        decide (bucket.lastEventNs ≤ timestamp) &&
          decide (timestamp - bucket.lastEventNs < timeoutNs query.window)) := by
  have group : state.buckets.find? (fun bucket =>
      compareGroupKeys bucket.groupKeys keys (groupKeysCount keys) &&
        bucket.openTo query.window timestamp) =
        (bucketsOf keys state.buckets).find? (Bucket.openTo query.window timestamp) := by
    rcases label with rfl | fit
    · exact find?_unkeyed (own rfl)
    · exact find?_labelled labelled fit _
  rw [wf.window]
  refine Eq.trans (List.find?_congr fun bucket member => ?_) (group.trans
    (List.find?_congr fun bucket member => ?_))
  · simp only [Bucket.openTo, Bool.and_assoc]
  · have shape := wf.shape bucket (mem_bucketsOf.mp member).1
    simp only [BucketShape, type] at shape
    simp [Bucket.openTo, shape]

/-- The session state after an event whose search found no bucket: a new one holds the event,
    in front of the others of its group. -/
theorem opened_session (wf : state.WellFormed query) (type : query.window.type = .session)
    (labelled : state.Labelled query) {keys : Option (List String)}
    (label : keys = none ∨ KeysFit query.groupByFields keys) {event : Event}
    (stamped : event.timestampNs ≠ 0) (now' : Nat) {state' : AggState}
    (updated : state' = (createBucketWithWindow state keys event.timestampNs u64Max).1.updateAt
      (createBucketWithWindow state keys event.timestampNs u64Max).2.addr (fun bucket =>
        updateBucketWithEvent query.window query.funcs bucket event now')) :
    state'.Labelled query ∧
      (∀ other, other ≠ keys → sessionsOf other state'.buckets = sessionsOf other state.buckets) ∧
      sessionsOf keys state'.buckets =
        ⟨event.timestampNs, event.timestampNs, 1⟩ :: sessionsOf keys state.buckets := by
  have created : (createBucketWithWindow state keys event.timestampNs u64Max).1.WellFormed
      query := wf.create keys _ _ (by simp [BucketShape, type, newBucket])
  have keeps : ∀ b : Bucket,
      (updateBucketWithEvent query.window query.funcs b event now').groupKeys = b.groupKeys :=
    fun b => updateBucketWithEvent_groupKeys _ _ _ _ _
  have buckets : (createBucketWithWindow state keys event.timestampNs u64Max).1.buckets =
      (createBucketWithWindow state keys event.timestampNs u64Max).2 :: state.buckets := rfl
  have bucketKeys : (createBucketWithWindow state keys event.timestampNs u64Max).2.groupKeys =
      keys := rfl
  have session : (updateBucketWithEvent query.window query.funcs
      (createBucketWithWindow state keys event.timestampNs u64Max).2 event now').session =
        ⟨event.timestampNs, event.timestampNs, 1⟩ :=
    updateBucketWithEvent_session type query.funcs now' stamped (Nat.le_refl _)
  rw [updated]
  generalize createBucketWithWindow state keys event.timestampNs u64Max = result at *
  obtain ⟨found, bucket⟩ := result
  dsimp only at created buckets bucketKeys session ⊢
  refine ⟨?_, ?_, ?_⟩
  · intro other member
    obtain ⟨old, inside, same⟩ := updateAt_groupKeys keeps member
    rw [same]
    rw [buckets] at inside
    rcases List.mem_cons.mp inside with rfl | inside
    · rw [bucketKeys]
      exact label
    · exact labelled old inside
  · intro other different
    have unrelated : ¬ keys = other := fun same => different same.symm
    simp only [sessionsOf]
    rw [bucketsOf_updateAt_other created.addrs keeps (buckets ▸ List.mem_cons_self)
      (by rw [bucketKeys]; exact unrelated), bucketsOf, buckets,
      List.filter_cons_of_neg (by simpa [bucketKeys] using unrelated), bucketsOf]
  · have head : bucketsOf keys found.buckets = bucket :: bucketsOf keys state.buckets := by
      rw [bucketsOf, buckets, List.filter_cons_of_pos (by simp [bucketKeys]), bucketsOf]
    simp only [sessionsOf]
    rw [bucketsOf_updateAt_head created.addrs keeps head, List.map_cons]
    exact congrArg (· :: _) session

/-- The session state after an event whose search found the newest bucket of its group. -/
theorem joined_session (wf : state.WellFormed query) (type : query.window.type = .session)
    (labelled : state.Labelled query) {keys : Option (List String)} {event : Event}
    (stamped : event.timestampNs ≠ 0) (now' : Nat)
    {bucket : Bucket} {rest : List Bucket}
    (head : bucketsOf keys state.buckets = bucket :: rest)
    (later : bucket.lastEventNs ≤ event.timestampNs) {state' : AggState}
    (updated : state' = state.updateAt bucket.addr (fun bucket =>
      updateBucketWithEvent query.window query.funcs bucket event now')) :
    state'.Labelled query ∧
      (∀ other, other ≠ keys → sessionsOf other state'.buckets = sessionsOf other state.buckets) ∧
      sessionsOf keys state'.buckets =
        ⟨bucket.windowStartNs, event.timestampNs, bucket.count + 1⟩ ::
          rest.map Bucket.session := by
  have keeps : ∀ b : Bucket,
      (updateBucketWithEvent query.window query.funcs b event now').groupKeys = b.groupKeys :=
    fun b => updateBucketWithEvent_groupKeys _ _ _ _ _
  have inside : bucket ∈ bucketsOf keys state.buckets := head ▸ List.mem_cons_self
  obtain ⟨member, bucketKeys⟩ := mem_bucketsOf.mp inside
  rw [updated]
  refine ⟨?_, ?_, ?_⟩
  · intro other otherMember
    obtain ⟨old, oldMember, same⟩ := updateAt_groupKeys keeps otherMember
    rw [same]
    exact labelled old oldMember
  · intro other different
    simp only [sessionsOf]
    rw [bucketsOf_updateAt_other wf.addrs keeps member]
    rw [bucketKeys]
    exact fun same => different same.symm
  · simp only [sessionsOf]
    rw [bucketsOf_updateAt_head wf.addrs keeps head, List.map_cons,
      updateBucketWithEvent_session type query.funcs now' stamped later]

/-- What an event that is counted does to a session state: its group's sessions see it arrive,
    and no other group changes. -/
theorem aggregateEvent_session (wf : state.WellFormed query)
    (type : query.window.type = .session) (labelled : state.Labelled query) {event : Event}
    (stamped : event.timestampNs ≠ 0) (now now' : Nat) {keys : Option (List String)}
    (keysEq : extractGroupKeys query.groupByFields event = keys)
    (own : keys = none → ∀ bucket,
      state.buckets.find? (Bucket.openTo query.window event.timestampNs) = some bucket →
        bucket.groupKeys = none)
    (later : ∀ s ∈ sessionsOf keys state.buckets, s.last ≤ event.timestampNs)
    (restFar : ∀ {s rest}, sessionsOf keys state.buckets = s :: rest →
      ∀ older ∈ rest, timeoutNs query.window ≤ event.timestampNs - older.last) :
    ∃ state', aggregateEvent state event now now' = some (state', []) ∧
      state'.Labelled query ∧
      (∀ other, other ≠ keys → sessionsOf other state'.buckets = sessionsOf other state.buckets) ∧
      Arrival (timeoutNs query.window) event.timestampNs (sessionsOf keys state.buckets)
        (sessionsOf keys state'.buckets) := by
  have label := extractGroupKeys_keyed query.groupByFields event
  have search := sessionSearch_eq wf type labelled label event.timestampNs (keysEq.symm ▸ own)
  have assign : getOrCreateBucketsForEvent state (extractGroupKeys query.groupByFields event)
      (eventTimestamp event now) =
        some (sessionBuckets state (extractGroupKeys query.groupByFields event)
          event.timestampNs) := by
    rw [getOrCreateBucketsForEvent, wf.window, type, eventTimestamp_of_ne_zero now stamped]
  rw [sessionBuckets, search] at assign
  have execute := aggregateEvent_single wf (by simp [type]) assign now'
  rw [keysEq] at label execute
  clear assign search
  -- A search among the buckets of the group succeeds on the newest one or not at all.
  by_cases nearby : ∃ bucket rest, bucketsOf keys state.buckets = bucket :: rest ∧
      event.timestampNs - bucket.lastEventNs < timeoutNs query.window
  · obtain ⟨bucket, rest, head, close⟩ := nearby
    have sessions : sessionsOf keys state.buckets = bucket.session :: rest.map Bucket.session := by
      rw [sessionsOf, head, List.map_cons]
    have before : bucket.lastEventNs ≤ event.timestampNs :=
      later bucket.session (sessions ▸ List.mem_cons_self)
    have found : (bucketsOf keys state.buckets).find? (fun bucket =>
        decide (bucket.lastEventNs ≤ event.timestampNs) &&
          decide (event.timestampNs - bucket.lastEventNs < timeoutNs query.window)) =
        some bucket := by
      rw [head, List.find?_cons_of_pos]
      simp [before, close]
    simp only [found, findOrCreate] at execute
    obtain ⟨keep, others, joined⟩ := joined_session wf type labelled stamped now' head before rfl
    refine ⟨_, execute, keep, others, ?_⟩
    rw [sessions, joined]
    exact Arrival.joins close
  · have far : ∀ s ∈ sessionsOf keys state.buckets,
        timeoutNs query.window ≤ event.timestampNs - s.last := by
      intro s member
      obtain ⟨bucket, inside, rfl⟩ := List.mem_map.mp member
      obtain ⟨head, rest, order⟩ := List.exists_cons_of_ne_nil (List.ne_nil_of_mem inside)
      rw [order] at inside
      rcases List.mem_cons.mp inside with rfl | older
      · by_contra close
        exact nearby ⟨bucket, rest, order, Nat.lt_of_not_le close⟩
      · have sessions : sessionsOf keys state.buckets =
            head.session :: rest.map Bucket.session := by
          rw [sessionsOf, order, List.map_cons]
        exact restFar sessions _ (List.mem_map_of_mem older)
    have missed : (bucketsOf keys state.buckets).find? (fun bucket =>
        decide (bucket.lastEventNs ≤ event.timestampNs) &&
          decide (event.timestampNs - bucket.lastEventNs < timeoutNs query.window)) = none := by
      rw [List.find?_eq_none]
      intro bucket member
      have old := far bucket.session (List.mem_map_of_mem member)
      simp only [Bool.and_eq_true, decide_eq_true_eq, not_and, Nat.not_lt]
      exact fun _ => old
    simp only [missed, findOrCreate] at execute
    obtain ⟨keep, others, opened⟩ := opened_session wf type labelled label stamped now' rfl
    refine ⟨_, execute, keep, others, ?_⟩
    rw [opened]
    exact Arrival.opens far

/-! ## Ticks -/

/-- A tick closes the sessions that have been idle for the timeout. -/
theorem windowFlushCb_session (wf : state.WellFormed query)
    (type : query.window.type = .session) (now : Nat)
    (later : ∀ bucket ∈ state.buckets, bucket.lastEventNs ≤ now)
    (counted : ∀ bucket ∈ state.buckets, 0 < bucket.count) :
    ∃ state', windowFlushCb state now = some (state', state.buckets.filter
        (fun bucket => expired (timeoutNs query.window) now bucket.session)) ∧
      state'.buckets = state.buckets.filter
        (fun bucket => !expired (timeoutNs query.window) now bucket.session) := by
  have turns : ∀ bucket ∈ state.buckets, flushBucket query.window now bucket = some
      ⟨bucket, expired (timeoutNs query.window) now bucket.session,
        expired (timeoutNs query.window) now bucket.session⟩ := by
    intro bucket member
    rw [flushBucket, type]
    simp only [flushSession, counted bucket member, true_and,
      u64Sub_of_le (later bucket member)]
    rfl
  have looped := flushLoop_of_total turns
  rw [List.filter_map, List.filter_map, List.map_map, List.map_map] at looped
  rw [windowFlushCb, wf.window, looped]
  refine ⟨_, congrArg some (Prod.ext rfl ?_), ?_⟩
  · simp [Function.comp_def]
  · simp [Function.comp_def]

theorem sessionsOf_filter (keys : Option (List String)) (p : Summary → Bool)
    (buckets : List Bucket) :
    sessionsOf keys (buckets.filter (fun bucket => p bucket.session)) =
      (sessionsOf keys buckets).filter p := by
  simp only [sessionsOf, bucketsOf, List.filter_map, List.filter_filter]
  refine congrArg _ (List.filter_congr ?_)
  intro bucket _
  simp [Bool.and_comm]

/-! ## Runs -/

section Runs

variable [Pcre2] {ops : List AggOp} {op : AggOp} {keys : Option (List String)}
  {emitted : List Bucket}

/-- An event of the operation has a timestamp. -/
def AggOp.Timed : AggOp → Prop
  | .event e _ _ => e.timestampNs ≠ 0
  | .tick _ => True

/-- An event without group keys that the `where` clause accepts: the first session of the list that
    is open to it has no group keys either, or there is none. -/
def JoinsOwn (query : Aggregate) (state : AggState) : AggOp → Prop
  | .event e now _ =>
      whereAccepts query e = true → extractGroupKeys query.groupByFields e = none →
        ∀ bucket,
          state.buckets.find? (Bucket.openTo query.window (eventTimestamp e now)) = some bucket →
            bucket.groupKeys = none
  | .tick _ => True

instance (query : Aggregate) (state : AggState) (op : AggOp) :
    Decidable (JoinsOwn query state op) :=
  match op with
  | .event e now _ =>
      inferInstanceAs (Decidable (whereAccepts query e = true →
        extractGroupKeys query.groupByFields e = none →
          ∀ bucket ∈
            state.buckets.find? (Bucket.openTo query.window (eventTimestamp e now)),
              bucket.groupKeys = none))
  | .tick _ => .isTrue trivial

/-- The state after a step. -/
def aggNext (query : Aggregate) (state : AggState) (op : AggOp) : AggState :=
  ((aggStep query state op).map Prod.fst).getD state

/-- After a run, the buckets of every group track the times of the group. -/
structure SessionInv (query : Aggregate) (ops : List AggOp) (emitted : List Bucket)
    (state : AggState) : Prop where
  wf : state.WellFormed query
  labelled : state.Labelled query
  tracks : ∀ keys, Tracks (timeoutNs query.window) (groupTimes query keys ops)
    (ops.filterMap AggOp.tickTime) (sessionsOf keys emitted) (sessionsOf keys state.buckets)

theorem groupTimes_concat_event (e : Event) (now now' : Nat) :
    groupTimes query keys (ops ++ [.event e now now']) = groupTimes query keys ops ++
      if whereAccepts query e ∧ extractGroupKeys query.groupByFields e = keys then
        [e.timestampNs] else [] := by
  unfold groupTimes
  rw [List.filterMap_append]
  refine congrArg (_ ++ ·) ?_
  simp only [List.filterMap_cons, List.filterMap_nil, AggOp.countedIn]
  by_cases counted : whereAccepts query e ∧ extractGroupKeys query.groupByFields e = keys
  · rw [if_pos counted, if_pos counted]
  · rw [if_neg counted, if_neg counted]

theorem mem_groupTimes {t : Nat} (member : t ∈ groupTimes query keys ops) :
    ∃ e now now', AggOp.event e now now' ∈ ops ∧ e.timestampNs = t := by
  obtain ⟨op, inside, counted⟩ := List.mem_filterMap.mp member
  cases op with
  | event e now now' =>
      simp only [AggOp.countedIn] at counted
      split at counted
      · exact ⟨e, now, now', inside, Option.some.inj counted⟩
      · cases counted
  | tick now => cases counted

/-- The events of a group come before the operation at the end of an ordered run. -/
theorem groupTimes_le (ordered : (ops ++ [op]).Pairwise AggOp.Before) :
    ∀ t ∈ groupTimes query keys ops, t ≤ op.time := by
  intro t member
  obtain ⟨e, now, now', inside, rfl⟩ := mem_groupTimes member
  have before := (List.pairwise_append.mp ordered).2.2 _ inside op (by simp)
  cases op with
  | event e' now now' => exact before
  | tick now => exact before

theorem groupTimes_sorted (ordered : ops.Pairwise AggOp.Before) :
    (groupTimes query keys ops).Pairwise (· ≤ ·) := by
  unfold groupTimes
  rw [List.pairwise_filterMap]
  refine ordered.imp ?_
  intro first second before t counted t' counted'
  cases first with
  | tick now => cases counted
  | event e now now' =>
      cases second with
      | tick now => cases counted'
      | event e' now now' =>
          simp only [AggOp.countedIn] at counted counted'
          split at counted
          · split at counted'
            · rw [← Option.some.inj counted, ← Option.some.inj counted']
              exact before
            · cases counted'
          · cases counted

omit [Pcre2] in
/-- The ticks of an ordered run come before the event at its end. -/
theorem ticks_le {e : Event} {now now' : Nat}
    (ordered : (ops ++ [AggOp.event e now now']).Pairwise AggOp.Before) :
    ∀ t ∈ ops.filterMap AggOp.tickTime, t ≤ e.timestampNs := by
  intro t member
  obtain ⟨op, inside, tick⟩ := List.mem_filterMap.mp member
  cases op with
  | event e now now' => cases tick
  | tick t' =>
      have before := (List.pairwise_append.mp ordered).2.2 _ inside (.event e now now') (by simp)
      rw [← Option.some.inj tick]
      exact before

theorem SessionInv.event (inv : SessionInv query ops emitted state)
    (type : query.window.type = .session) {e : Event} {now now' : Nat}
    (ordered : (ops ++ [AggOp.event e now now']).Pairwise AggOp.Before)
    (stamped : e.timestampNs ≠ 0) (own : JoinsOwn query state (.event e now now')) :
    ∃ state', aggStep query state (.event e now now') = some (state', []) ∧
      SessionInv query (ops ++ [.event e now now']) emitted state' := by
  have sorted := (List.pairwise_append.mp ordered).1
  have ticks : (ops ++ [AggOp.event e now now']).filterMap AggOp.tickTime =
      ops.filterMap AggOp.tickTime := by
    simp [AggOp.tickTime]
  by_cases accepted : whereAccepts query e = true
  · have tracked := inv.tracks (extractGroupKeys query.groupByFields e)
    have joins := own accepted
    rw [eventTimestamp_of_ne_zero now stamped] at joins
    obtain ⟨state', executed, labelled, others, arrival⟩ :=
      aggregateEvent_session inv.wf type inv.labelled stamped now now' rfl joins
        (fun s member => groupTimes_le ordered _ (tracked.last_mem member))
        (fun order => (order ▸ tracked).rest_far (groupTimes_sorted sorted)
          (groupTimes_le ordered))
    refine ⟨state', ?_, inv.wf.aggregateEvent executed, labelled, ?_⟩
    · rw [aggStep, executeAggregate, if_pos accepted, executed]
    · intro keys
      rw [groupTimes_concat_event, ticks]
      by_cases same : extractGroupKeys query.groupByFields e = keys
      · rw [if_pos ⟨accepted, same⟩, ← same]
        exact tracked.arrive arrival (ticks_le ordered)
      · rw [if_neg (fun both => same both.2), List.append_nil, others keys (Ne.symm same)]
        exact inv.tracks keys
  · refine ⟨state, ?_, inv.wf, inv.labelled, ?_⟩
    · rw [aggStep, executeAggregate, if_neg accepted]
    · intro keys
      rw [groupTimes_concat_event, ticks, if_neg (fun both => accepted both.1), List.append_nil]
      exact inv.tracks keys

theorem SessionInv.tick (inv : SessionInv query ops emitted state)
    (type : query.window.type = .session) {now : Nat}
    (ordered : (ops ++ [AggOp.tick now]).Pairwise AggOp.Before) :
    ∃ state' emitted', aggStep query state (.tick now) = some (state', emitted') ∧
      SessionInv query (ops ++ [.tick now]) (emitted ++ emitted') state' := by
  have sorted := (List.pairwise_append.mp ordered).1
  have isSession : ∀ bucket ∈ state.buckets,
      bucket.session ∈ sessionsOf bucket.groupKeys state.buckets := fun bucket member =>
    List.mem_map_of_mem (mem_bucketsOf.mpr ⟨member, rfl⟩)
  obtain ⟨state', flushed, kept⟩ := windowFlushCb_session inv.wf type now
    (fun bucket member => groupTimes_le ordered _
      ((inv.tracks bucket.groupKeys).last_mem (isSession bucket member)))
    (fun bucket member => (inv.tracks bucket.groupKeys).count_pos (isSession bucket member))
  refine ⟨state', _, flushed, inv.wf.flush flushed, ?_, ?_⟩
  · intro bucket member
    rw [kept] at member
    exact inv.labelled bucket (List.mem_filter.mp member).1
  · intro keys
    have times : groupTimes query keys (ops ++ [.tick now]) = groupTimes query keys ops := by
      simp [groupTimes, AggOp.countedIn]
    have ticks : (ops ++ [AggOp.tick now]).filterMap AggOp.tickTime =
        ops.filterMap AggOp.tickTime ++ [now] := by
      simp [AggOp.tickTime]
    have appended : ∀ more, sessionsOf keys (emitted ++ more) =
        sessionsOf keys emitted ++ sessionsOf keys more := by
      intro more
      simp [sessionsOf, bucketsOf]
    have closed := sessionsOf_filter keys (expired (timeoutNs query.window) now) state.buckets
    have opened := sessionsOf_filter keys
      (fun s => !expired (timeoutNs query.window) now s) state.buckets
    rw [times, ticks, appended, closed, kept, opened]
    exact (inv.tracks keys).expire (groupTimes_sorted sorted) now

/-- The sessions of every group are the maximal runs of its events: the flushed ones are the first
    runs, in some order, and the buffered ones the runs after those, the newest in front. Each
    has the first and the last time of its run and its number of events. -/
def SessionsAreRuns (query : Aggregate) (ops : List AggOp) : Prop :=
  ∃ state emitted, aggRun query ops = some (state, emitted) ∧ ∀ keys, ∃ done live,
    gapRuns (query.window.timeoutMs * 1000000) (groupTimes query keys ops) = done ++ live ∧
      (sessionsOf keys emitted).Perm (done.map summary) ∧
      sessionsOf keys state.buckets = (live.map summary).reverse

theorem SessionInv.sessionsAreRuns (inv : SessionInv query ops emitted state)
    (noWrap : query.window.timeoutMs * 1000000 < 2 ^ 64)
    (ran : aggRun query ops = some (state, emitted)) : SessionsAreRuns query ops := by
  have timeout : timeoutNs query.window = query.window.timeoutMs * 1000000 :=
    u64Mul_of_lt noWrap
  refine ⟨state, emitted, ran, fun keys => ?_⟩
  obtain ⟨done, live, runs, flushed, buffered, -⟩ := inv.tracks keys
  rw [timeout] at runs
  exact ⟨done, live, runs, flushed, buffered⟩

/-- How many events a list of sessions counts. -/
def sessionEvents (keys : Option (List String)) (buckets : List Bucket) : Nat :=
  ((sessionsOf keys buckets).map Summary.count).sum

/-- Sessions that are the runs of a group count its events. -/
theorem SessionsAreRuns.counts (runs : SessionsAreRuns query ops)
    (ran : aggRun query ops = some (state, emitted)) (keys : Option (List String)) :
    sessionEvents keys emitted + sessionEvents keys state.buckets =
      (groupTimes query keys ops).length := by
  obtain ⟨state', emitted', ran', sessions⟩ := runs
  obtain ⟨rfl, rfl⟩ := Prod.mk.inj (Option.some.inj (ran.symm.trans ran'))
  obtain ⟨done, live, whole, flushed, buffered⟩ := sessions keys
  rw [sessionEvents, sessionEvents, buffered, List.map_reverse, List.sum_reverse,
    (flushed.map Summary.count).sum_eq]
  exact sum_count_gapRuns whole

omit [Pcre2] in
/-- A session that takes in one more event counts one more. -/
theorem sessionEvents_updateAt (wf : state.WellFormed query) {bucket : Bucket}
    (member : bucket ∈ state.buckets) (event : Event) (now : Nat) :
    sessionEvents bucket.groupKeys (state.updateAt bucket.addr fun b =>
        updateBucketWithEvent query.window query.funcs b event now).buckets =
      sessionEvents bucket.groupKeys state.buckets + 1 := by
  have keeps : ∀ b : Bucket,
      (updateBucketWithEvent query.window query.funcs b event now).groupKeys = b.groupKeys :=
    fun b => updateBucketWithEvent_groupKeys _ _ _ _ _
  have inside : bucket ∈ bucketsOf bucket.groupKeys state.buckets :=
    mem_bucketsOf.mpr ⟨member, rfl⟩
  have addrs : ((bucketsOf bucket.groupKeys state.buckets).map Bucket.addr).Nodup :=
    (List.filter_sublist.map _).nodup wf.addrs
  rw [sessionEvents, sessionEvents, sessionsOf, sessionsOf,
    bucketsOf_updateAt bucket.addr keeps]
  generalize bucketsOf bucket.groupKeys state.buckets = buckets at inside addrs
  obtain ⟨front, back, rfl⟩ := List.append_of_mem inside
  rw [List.map_append, List.map_cons, List.nodup_middle, List.nodup_cons, List.mem_append,
    not_or] at addrs
  rw [List.map_append, List.map_cons, if_pos rfl, map_update_fresh addrs.1.1,
    map_update_fresh addrs.1.2]
  simp only [List.map_append, List.map_cons, List.sum_append, List.sum_cons, Bucket.session,
    updateBucketWithEvent_count]
  omega

/-- An event without group keys that joins the session of a group is counted there. -/
theorem SessionInv.intruded (inv : SessionInv query ops emitted state)
    (type : query.window.type = .session) (noWrap : query.window.timeoutMs * 1000000 < 2 ^ 64)
    (ran : aggRun query ops = some (state, emitted)) {e : Event} {now now' : Nat}
    (stamped : e.timestampNs ≠ 0) (intrudes : ¬JoinsOwn query state (.event e now now')) :
    ¬SessionsAreRuns query (ops ++ [.event e now now']) := by
  simp only [JoinsOwn, not_forall, eventTimestamp_of_ne_zero now stamped] at intrudes
  obtain ⟨accepted, unkeyed, bucket, found, keyed⟩ := intrudes
  -- no keys compare equal to whatever keys a bucket has
  have search : state.buckets.find? (fun bucket =>
      compareGroupKeys bucket.groupKeys none (groupKeysCount none) &&
        bucket.windowEndNs == u64Max && decide (bucket.lastEventNs ≤ e.timestampNs) &&
        decide (e.timestampNs - bucket.lastEventNs < timeoutNs state.window)) = some bucket := by
    rw [inv.wf.window]
    exact found
  have assign : getOrCreateBucketsForEvent state (extractGroupKeys query.groupByFields e)
      (eventTimestamp e now) = some (singleBucket (state, bucket)) := by
    rw [getOrCreateBucketsForEvent, inv.wf.window, type, eventTimestamp_of_ne_zero now stamped,
      unkeyed, sessionBuckets, search]
    rfl
  have execute := aggregateEvent_single inv.wf (by simp [type]) assign now'
  have stepped : aggStep query state (.event e now now') =
      some (state.updateAt bucket.addr fun b =>
        updateBucketWithEvent query.window query.funcs b e now', []) := by
    rw [aggStep, executeAggregate, if_pos accepted, execute]
  have ran' := aggRun_concat ran stepped
  have unheard : groupTimes query bucket.groupKeys (ops ++ [.event e now now']) =
      groupTimes query bucket.groupKeys ops := by
    rw [groupTimes_concat_event, if_neg (fun both => keyed (both.2.symm.trans unkeyed)),
      List.append_nil]
  intro runs
  have before := (inv.sessionsAreRuns noWrap ran).counts ran bucket.groupKeys
  have after := runs.counts ran' bucket.groupKeys
  rw [unheard, ← before, List.append_nil,
    sessionEvents_updateAt inv.wf (List.mem_of_find?_eq_some found)] at after
  omega

/-- A run whose events join sessions of their own goes through and keeps the invariant. -/
theorem aggRun_session (type : query.window.type = .session) :
    ∀ {ops : List AggOp}, ops.Pairwise AggOp.Before → (∀ op ∈ ops, op.Timed) →
      Guarded.Meets (aggNext query) (JoinsOwn query) (newAggState query) ops →
      ∃ emitted, aggRun query ops = some (ops.foldl (aggNext query) (newAggState query), emitted) ∧
        SessionInv query ops emitted (ops.foldl (aggNext query) (newAggState query)) := by
  intro ops
  induction ops using List.reverseRecOn with
  | nil =>
      intro ordered stamped own
      exact ⟨[], rfl, newAggState_wellFormed query, nofun, fun keys => Tracks.nil _⟩
  | append_singleton ops op ih =>
      intro ordered stamped own
      obtain ⟨before, here⟩ := Guarded.meets_concat.mp own
      obtain ⟨emitted, ran, inv⟩ := ih (List.pairwise_append.mp ordered).1
        (fun op member => stamped op (List.mem_append_left _ member)) before
      rw [List.foldl_append, List.foldl_cons, List.foldl_nil]
      generalize ops.foldl (aggNext query) (newAggState query) = state at ran inv here
      cases op with
      | event e now now' =>
          obtain ⟨state', stepped, inv'⟩ := inv.event type ordered
            (stamped (.event e now now') (List.mem_append_right _ (List.mem_singleton_self _))) here
          have next : aggNext query state (.event e now now') = state' := by
            rw [aggNext, stepped]
            rfl
          rw [next]
          exact ⟨emitted ++ [], aggRun_concat ran stepped,
            (List.append_nil emitted).symm ▸ inv'⟩
      | tick now =>
          obtain ⟨state', emitted', stepped, inv'⟩ := inv.tick type ordered
          have next : aggNext query state (.tick now) = state' := by
            rw [aggNext, stepped]
            rfl
          rw [next]
          exact ⟨emitted ++ emitted', aggRun_concat ran stepped, inv'⟩

/-- The sessions are the maximal runs of the events at all times of a run just in case no event
    without group keys joins the session of a group. -/
theorem sessions_gapRuns_iff (query : Aggregate) (type : query.window.type = .session)
    (noWrap : query.window.timeoutMs * 1000000 < 2 ^ 64) {ops : List AggOp}
    (ordered : ops.Pairwise AggOp.Before) (stamped : ∀ op ∈ ops, op.Timed) :
    (∀ ran, ran <+: ops → SessionsAreRuns query ran) ↔
      Guarded.Meets (aggNext query) (JoinsOwn query) (newAggState query) ops := by
  induction ops using List.reverseRecOn with
  | nil =>
      refine iff_of_true (fun ran first => ?_) trivial
      obtain rfl := List.prefix_nil.mp first
      exact ⟨newAggState query, [], rfl, fun keys => ⟨[], [], rfl, .nil, rfl⟩⟩
  | append_singleton ops op ih =>
      have ordered' := (List.pairwise_append.mp ordered).1
      have stamped' : ∀ op ∈ ops, op.Timed := fun op member =>
        stamped op (List.mem_append_left _ member)
      have ih := ih ordered' stamped'
      rw [Guarded.meets_concat, ← ih]
      constructor
      · intro all
        have before : ∀ ran, ran <+: ops → SessionsAreRuns query ran := fun ran first =>
          all ran (first.trans (List.prefix_append ops [op]))
        refine ⟨before, ?_⟩
        obtain ⟨emitted, ran, inv⟩ := aggRun_session type ordered' stamped' (ih.mp before)
        cases op with
        | tick now => trivial
        | event e now now' =>
            by_contra intrudes
            exact inv.intruded type noWrap ran
              (stamped (.event e now now') (List.mem_append_right _ (List.mem_singleton_self _)))
              intrudes (all _ (List.prefix_refl _))
      · rintro ⟨before, here⟩ ran first
        rcases List.prefix_concat_iff.mp first with rfl | earlier
        · obtain ⟨emitted, ran, inv⟩ := aggRun_session type ordered stamped
            (Guarded.meets_concat.mpr ⟨ih.mp before, here⟩)
          exact inv.sessionsAreRuns noWrap ran
        · exact before ran earlier

end Runs

/-- `aggregate count() by level window session(1ms)`. -/
def levelSessionQuery : Aggregate where
  funcs := [{ type := .count }]
  groupByFields := ["level"]
  whereFilter := none
  window := { type := .session, timeoutMs := 1 }

/-- An event of level a. -/
def levelA (timestamp : Nat) : AggOp :=
  .event { type := .log, timestampNs := timestamp, input := none,
           data := some (.object [("level", .string "a")]) } 0 0

/-- An event without data. -/
def noLevel (timestamp : Nat) : AggOp :=
  .event { type := .log, timestampNs := timestamp, input := none, data := none } 0 0

/-- Two sessions of level a and, after the first of them is over, one of the events without data. -/
def levelSessionOps : List AggOp :=
  [levelA 1000000, levelA 1500000, noLevel 5000000, .tick 5200000, noLevel 5600000, levelA 5700000,
    .tick 6700000]

theorem sessions_gapRuns_iff_levelSessionQuery :
    (∀ ran, ran <+: levelSessionOps → @SessionsAreRuns literalPcre2 levelSessionQuery ran) ∧
      ((@aggRun literalPcre2 levelSessionQuery levelSessionOps).map fun result =>
        result.2.map fun bucket => (bucket.groupKeys, bucket.session)) =
          some [(some ["a"], ⟨1000000, 1500000, 2⟩), (some ["a"], ⟨5700000, 5700000, 1⟩),
            (none, ⟨5000000, 5600000, 2⟩)] := by
  let := literalPcre2
  have ordered : levelSessionOps.Pairwise AggOp.Before := by
    simp [levelSessionOps, levelA, noLevel, AggOp.Before, AggOp.time]
  have stamped : ∀ op ∈ levelSessionOps, op.Timed := by
    simp [levelSessionOps, levelA, noLevel, AggOp.Timed]
  refine ⟨(sessions_gapRuns_iff levelSessionQuery rfl (by decide) ordered stamped).mpr ?_,
    by decide⟩
  exact ⟨by decide, by decide, by decide, by decide, by decide, by decide, by decide, trivial⟩

/-- An event without data half a millisecond after an event of level a is counted in its session. -/
theorem noLevel_joinsSession :
    @nqlParse literalPcre2 "aggregate count() by level window session(1ms)".toList =
        some (.single (.aggregate levelSessionQuery)) ∧
      ((@aggRun literalPcre2 levelSessionQuery [levelA 1000000, noLevel 1500000]).map
        fun result => result.1.buckets.map fun bucket => (bucket.groupKeys, bucket.session)) =
          some [(some ["a"], ⟨1000000, 1500000, 2⟩)] ∧
      ¬@SessionsAreRuns literalPcre2 levelSessionQuery [levelA 1000000, noLevel 1500000] := by
  refine ⟨by decide, by decide, fun runs => ?_⟩
  let := literalPcre2
  have counts := runs.counts rfl (some ["a"])
  revert counts
  decide

end Nblex
