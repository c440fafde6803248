import Nblex.Core.NqlExecutor.Proofs.CorrelatePairs
import Nblex.Correlation.Proofs.Pairs

/-!
# Cleanup ticks

Both correlation engines drop the entries more than two windows old on every tick. A dropped
entry is out of reach of every later event, unless the subtraction of the two windows from the
clock wraps around: then every entry is dropped. A run whose ticks all come at least two windows
after the origin of the clock finds what the run without ticks finds.
-/

namespace Nblex

open WindowJoin

/-- The clock values of a run: they never go back, and no two of them are so far apart that a
    window after their distance reaches `2 ^ 64`. -/
structure RunClock (windowNs : Nat) (times : List Nat) : Prop where
  monotone : times.Pairwise (· ≤ ·)
  span : ∀ t ∈ times, ∀ t' ∈ times, t' + windowNs < t + 2 ^ 64

/-- The test of a cleanup: the entry is not older than the cutoff. -/
def keptAt (windowNs now : Nat) (entry : Event) : Bool :=
  decide (u64Sub now (u64Mul windowNs 2) ≤ entry.timestampNs)

/-- An entry that a tick drops is out of the window of every event from the tick on. -/
theorem keptAt_of_later {windowNs now : Nat} (noWrap : 2 * windowNs ≤ now)
    (window : 2 * windowNs < 2 ^ 64) {entry event : Event} (after : now ≤ event.timestampNs)
    (span : event.timestampNs + windowNs < entry.timestampNs + 2 ^ 64)
    (dropped : keptAt windowNs now entry = false) :
    withinWindow windowNs entry.timestampNs event.timestampNs = false ∧
      withinWindow windowNs event.timestampNs entry.timestampNs = false := by
  rw [keptAt, u64Mul_of_lt (by omega), u64Sub_of_le (by omega), decide_eq_false_iff_not] at dropped
  have far : withinWindow windowNs event.timestampNs entry.timestampNs = false :=
    withinWindow_of_later (by omega) span
  exact ⟨withinWindow_comm _ _ _ ▸ far, far⟩

/-! ## Correlate queries -/

/-- The clock value of a step. -/
def CorrOp.time : CorrOp → Nat
  | .event e => e.timestampNs
  | .tick now => now

/-- The events of a run. -/
def corrEvents (ops : List CorrOp) : List Event :=
  ops.filterMap (fun op => match op with | .event e => some e | .tick _ => none)

theorem arrivals_corrEvents (withinMs : Nat) (ops : List CorrOp) :
    arrivals (ops.map (CorrOp.toJoinOp withinMs)) = corrEvents ops := by
  rw [arrivals, corrEvents, List.filterMap_map]
  refine List.filterMap_congr ?_
  intro op _
  cases op with
  | event event => rfl
  | tick now => rfl

/-- With ticks at least two windows after the origin, a query reports what it reports without
    them. -/
theorem corrRun_corrEvents [Pcre2] (corr : Correlate) (ops : List CorrOp)
    (fits : corr.withinMs < 2 ^ 32)
    (clock : RunClock (corr.withinMs * 1000000) (ops.map CorrOp.time))
    (noWrap : ∀ now, CorrOp.tick now ∈ ops → 2 * (corr.withinMs * 1000000) ≤ now) :
    (corrRun corr ops).2 = corrResults corr (corrEvents ops) := by
  have stateWindow : (newCorrState corr).withinMs = corr.withinMs := Nat.mod_eq_of_lt fits
  have windowNs : corrWindowNs corr = corr.withinMs * 1000000 := u64Mul_of_lt (by omega)
  have safe : PruneSafe (nblexFilterMatches corr.leftFilter)
      (nblexFilterMatches corr.rightFilter) (corrNear corr) (newCorrState corr).buffers
      (ops.map (CorrOp.toJoinOp corr.withinMs)) := by
    refine pruneSafe_of_clock CorrOp.time Event.timestampNs
      (fun event => event.timestampNs ∈ ops.map CorrOp.time)
      (List.pairwise_map.mp clock.monotone) ?_ ?_ ?_ ?_
    · intro op member event arrives
      cases op with
      | event e =>
          obtain rfl : e = event := JoinOp.arrive.inj arrives
          exact ⟨rfl, List.mem_map_of_mem (f := CorrOp.time) member⟩
      | tick now => cases arrives
    · intro op member keep prunes entry event inEntry inEvent after dropped
      cases op with
      | event e => cases prunes
      | tick now =>
          obtain rfl := JoinOp.prune.inj prunes
          have early : keptAt (corr.withinMs * 1000000) now entry = false := by
            rw [← windowNs]
            exact dropped
          have far := keptAt_of_later (noWrap now member) (by omega) after
            (clock.span _ inEntry _ inEvent) early
          rw [← windowNs] at far
          exact far
    · intro entry member
      cases member
    · intro entry member
      cases member
  rw [corrRun, corrRunFrom_results, stateWindow,
    prunedRun_eq_joinRun (fun _ _ => ⟨rfl, rfl⟩) safe, arrivals_corrEvents, corrResults_eq]
  rfl

/-! ## The time-based engine -/

/-- The clock value of a step. -/
def WorldOp.time : WorldOp → Nat
  | .emit event => event.timestampNs
  | .tick now => now

/-- The events emitted in a run. -/
def worldEvents (ops : List WorldOp) : List Event :=
  ops.filterMap (fun op => match op with | .emit event => some event | .tick _ => none)

/-- A new engine with a window of `windowNs`. -/
def windowedEngine (windowNs : Nat) : Correlation :=
  { nblexCorrelationNew with windowNs := windowNs }

/-- An opened world with that engine. -/
def windowedWorld (windowNs : Nat) : World :=
  { openedWorld 100 with correlation := some (windowedEngine windowNs) }

/-- Setting the window in milliseconds gives such a world. -/
theorem openedWorld_windowed (windowMs : Nat) :
    openedWorld windowMs = windowedWorld (u64Mul windowMs 1000000) := rfl

theorem cleanupOldEvents_count {bufferHead : List Event} {count : Nat}
    (counted : count = bufferHead.length) (cutoffTime : Nat) :
    (cleanupOldEvents bufferHead count cutoffTime).2 =
      (cleanupOldEvents bufferHead count cutoffTime).1.length := by
  have shorter : (bufferHead.filter
      (fun entry => decide (cutoffTime ≤ entry.timestampNs))).length ≤ bufferHead.length :=
    List.length_filter_le _ _
  simp only [cleanupOldEvents, counted]
  omega

/-- A tick prunes the buffers and keeps the counters right. -/
theorem cleanupTimerCb_spec {corr : Correlation} (counted : corr.Counted) (now : Nat) :
    (cleanupTimerCb corr now).buffers = corr.buffers.prune (keptAt corr.windowNs now) ∧
      (cleanupTimerCb corr now).Counted ∧
      (cleanupTimerCb corr now).windowNs = corr.windowNs ∧
      (cleanupTimerCb corr now).correlationsFound = corr.correlationsFound :=
  ⟨rfl, ⟨cleanupOldEvents_count counted.log _, cleanupOldEvents_count counted.network _⟩,
    rfl, rfl⟩

theorem Buffers.Room.prune {b : Buffers Event} {events : List Event}
    (room : Buffers.Room b events) (keep : Event → Bool) :
    Buffers.Room (b.prune keep) events := by
  obtain ⟨log, network⟩ := room
  have left : (b.left.filter keep).length ≤ b.left.length := List.length_filter_le _ _
  have right : (b.right.filter keep).length ≤ b.right.length := List.length_filter_le _ _
  constructor
  · simp only [Buffers.prune]
    omega
  · simp only [Buffers.prune]
    omega

section Lockstep

variable [Pcre2]

/-- A step of a run, as a step of a pruned join: an event that its input rejects changes
    nothing. -/
def WorldOp.toJoinOp (windowNs : Nat) : WorldOp → JoinOp Event
  | .emit event => if inputAccepts event then .arrive event else .prune (fun _ => true)
  | .tick now => .prune (keptAt windowNs now)

/-- The emitted events that reach the engine. -/
theorem arrivals_worldEvents (windowNs : Nat) (ops : List WorldOp) :
    arrivals (ops.map (WorldOp.toJoinOp windowNs)) = (worldEvents ops).filter inputAccepts := by
  rw [arrivals, worldEvents, List.filterMap_map]
  induction ops with
  | nil => rfl
  | cons op ops ih =>
      cases op with
      | emit event =>
          cases accepted : inputAccepts event with
          | true => simp [WorldOp.toJoinOp, accepted, ih]
          | false => simp [WorldOp.toJoinOp, accepted, ih]
      | tick now => exact ih

/-- Two worlds have handled the same events and counted the same. -/
structure SameResults (world world' : World) : Prop where
  handled : world.handled = world'.handled
  eventsProcessed : world.eventsProcessed = world'.eventsProcessed
  eventsCorrelated : world.eventsCorrelated = world'.eventsCorrelated
  correlationsFound : world.correlation.map Correlation.correlationsFound =
    world'.correlation.map Correlation.correlationsFound

/-- Two worlds, the first with ticks behind it and the second without, that go on to find the
    same pairs for the events to come. -/
structure Lockstep (future : List Event) (world : World) (corr : Correlation) (world' : World)
    (corr' : Correlation) : Prop where
  engine : world.correlation = some corr
  engine' : world'.correlation = some corr'
  results : SameResults world world'
  windowNs : corr'.windowNs = corr.windowNs
  counted : corr.Counted
  counted' : corr'.Counted
  room : Buffers.Room corr.buffers future
  room' : Buffers.Room corr'.buffers future
  same : SameFor (timeNear corr.windowNs) future corr.buffers corr'.buffers

omit [Pcre2] in
/-- Both worlds emit the same results for the next event and stay in step. -/
theorem Lockstep.emit {event : Event} {future : List Event} {world world' : World}
    {corr corr' : Correlation} (step : Lockstep (event :: future) world corr world' corr') :
    ∃ next next', Lockstep future (world.afterEmit corr event) next
      (world'.afterEmit corr' event) next' ∧ next.windowNs = corr.windowNs ∧
      next.buffers = corr.buffers.add isLogEvent isNetworkEvent event := by
  obtain ⟨engine, engine', results, windowNs, counted, counted', room, room', same⟩ := step
  have found : foundPairs corr' event = foundPairs corr event := by
    unfold foundPairs
    rw [windowNs]
    exact (SameFor.found isLogEvent isNetworkEvent same).symm
  obtain ⟨next, nextEngine, buffers, nextCounted, window, count⟩ :=
    afterEmit_engine counted room world
  obtain ⟨next', nextEngine', buffers', nextCounted', window', count'⟩ :=
    afterEmit_engine counted' room' world'
  obtain ⟨handled, processed, correlated, total⟩ := results
  rw [engine, engine'] at total
  have totals : corr.correlationsFound = corr'.correlationsFound := Option.some.inj total
  refine ⟨next, next', ⟨nextEngine, nextEngine', ⟨?_, ?_, ?_, ?_⟩, ?_, nextCounted,
    nextCounted', buffers ▸ room.add, buffers' ▸ room'.add, ?_⟩, window, buffers⟩
  · simp only [World.afterEmit, handled, found, windowNs]
  · simp only [World.afterEmit, processed, found, List.length_map]
  · simp only [World.afterEmit, correlated, found, List.length_map]
  · rw [nextEngine, nextEngine', Option.map_some, Option.map_some, count, count', totals, found]
  · rw [window, window', windowNs]
  · rw [window, buffers, buffers']
    exact same.add

omit [Pcre2] in
/-- A safe tick in the first world keeps the two in step. -/
theorem Lockstep.tick {now : Nat} {future : List Event} {world world' : World}
    {corr corr' : Correlation} (step : Lockstep future world corr world' corr')
    (safe : ∀ x ∈ future,
      (∀ l ∈ corr.buffers.left, timeNear corr.windowNs l x = true →
        keptAt corr.windowNs now l = true) ∧
      ∀ r ∈ corr.buffers.right, timeNear corr.windowNs x r = true →
        keptAt corr.windowNs now r = true) :
    Lockstep future
      { world with correlation := world.correlation.map (cleanupTimerCb · now) }
      (cleanupTimerCb corr now) world' corr' := by
  obtain ⟨engine, engine', results, windowNs, counted, counted', room, room', same⟩ := step
  obtain ⟨buffers, nextCounted, window, found⟩ := cleanupTimerCb_spec counted now
  refine ⟨?_, engine', ⟨results.handled, results.eventsProcessed, results.eventsCorrelated, ?_⟩,
    ?_, nextCounted, counted', ?_, room', ?_⟩
  · rw [engine]
    rfl
  · rw [← results.correlationsFound, engine]
    rfl
  · rw [windowNs, window]
  · rw [buffers]
    exact room.prune _
  · rw [window, buffers]
    exact same.prune safe

/-- Worlds in step give the same results when the ticks of the first are safe and the second
    has none. -/
theorem worldRun_lockstep (fuel : Nat) :
    ∀ (ops : List WorldOp) {world world' : World} (corr corr' : Correlation),
      Lockstep (arrivals (ops.map (WorldOp.toJoinOp corr.windowNs))) world corr world' corr' →
      PruneSafe isLogEvent isNetworkEvent (timeNear corr.windowNs) corr.buffers
        (ops.map (WorldOp.toJoinOp corr.windowNs)) →
      ∃ last last', worldRun (fuel + 2) world ops = some last ∧
        worldRun (fuel + 2) world' ((worldEvents ops).map WorldOp.emit) = some last' ∧
        SameResults last last' := by
  intro ops
  induction ops with
  | nil =>
      intro world world' corr corr' step safe
      exact ⟨world, world', rfl, rfl, step.results⟩
  | cons op ops ih =>
      intro world world' corr corr' step safe
      cases op with
      | emit event =>
          cases accepted : inputAccepts event with
          | true =>
              have arrives : WorldOp.toJoinOp corr.windowNs (.emit event) = .arrive event := by
                rw [WorldOp.toJoinOp, if_pos accepted]
              rw [List.map_cons, arrives] at step safe
              obtain ⟨next, next', step', window, buffers⟩ := Lockstep.emit step
              rw [← window] at step' safe
              have safe' : PruneSafe isLogEvent isNetworkEvent (timeNear next.windowNs)
                  next.buffers (ops.map (WorldOp.toJoinOp next.windowNs)) := by
                rw [buffers]
                exact safe
              obtain ⟨last, last', run, run', results⟩ := ih next next' step' safe'
              refine ⟨last, last', ?_, ?_, results⟩
              · rw [worldRun, List.foldlM_cons, worldStep,
                  nblexEventEmit_step step.engine accepted]
                exact run
              · have events : worldEvents (.emit event :: ops) = event :: worldEvents ops := rfl
                rw [worldRun, events, List.map_cons, List.foldlM_cons, worldStep,
                  nblexEventEmit_step step.engine' accepted]
                exact run'
          | false =>
              have rejects : WorldOp.toJoinOp corr.windowNs (.emit event) =
                  .prune (fun _ => true) := by
                rw [WorldOp.toJoinOp, if_neg (by simp [accepted])]
              have ignored : ∀ world, nblexEventEmit (fuel + 2) world event = some world := by
                intro world
                rw [nblexEventEmit, if_neg (by simp [accepted])]
              have unpruned : corr.buffers.prune (fun _ => true) = corr.buffers := by
                simp [Buffers.prune]
              rw [List.map_cons, rejects] at step safe
              have safe' := safe.2
              rw [unpruned] at safe'
              obtain ⟨last, last', run, run', results⟩ := ih corr corr' step safe'
              refine ⟨last, last', ?_, ?_, results⟩
              · rw [worldRun, List.foldlM_cons, worldStep, ignored]
                exact run
              · have events : worldEvents (.emit event :: ops) = event :: worldEvents ops := rfl
                rw [worldRun, events, List.map_cons, List.foldlM_cons, worldStep, ignored]
                exact run'
      | tick now =>
          obtain ⟨buffers, -, window, -⟩ := cleanupTimerCb_spec step.counted now
          have safe' : PruneSafe isLogEvent isNetworkEvent
              (timeNear (cleanupTimerCb corr now).windowNs) (cleanupTimerCb corr now).buffers
              (ops.map (WorldOp.toJoinOp (cleanupTimerCb corr now).windowNs)) := by
            rw [buffers, window]
            exact safe.2
          exact ih (cleanupTimerCb corr now) corr' (step.tick safe.1) safe'

/-- With ticks at least two windows after the origin, a world handles and counts what it does
    without them. -/
theorem worldRun_worldEvents (fuel windowNs : Nat) (ops : List WorldOp)
    (window : 2 * windowNs < 2 ^ 64) (clock : RunClock windowNs (ops.map WorldOp.time))
    (noWrap : ∀ now, WorldOp.tick now ∈ ops → 2 * windowNs ≤ now)
    (room : Buffers.Room Buffers.empty ((worldEvents ops).filter inputAccepts)) :
    ∃ world world', worldRun (fuel + 2) (windowedWorld windowNs) ops = some world ∧
      worldRun (fuel + 2) (windowedWorld windowNs) ((worldEvents ops).map WorldOp.emit) =
        some world' ∧
      SameResults world world' := by
  have safe : PruneSafe isLogEvent isNetworkEvent (timeNear windowNs) Buffers.empty
      (ops.map (WorldOp.toJoinOp windowNs)) := by
    refine pruneSafe_of_clock WorldOp.time Event.timestampNs
      (fun event => event.timestampNs ∈ ops.map WorldOp.time)
      (List.pairwise_map.mp clock.monotone) ?_ ?_ ?_ ?_
    · intro op member event arrives
      cases op with
      | emit e =>
          cases accepted : inputAccepts e with
          | true =>
              rw [WorldOp.toJoinOp, if_pos accepted] at arrives
              obtain rfl : e = event := JoinOp.arrive.inj arrives
              exact ⟨rfl, List.mem_map_of_mem (f := WorldOp.time) member⟩
          | false =>
              rw [WorldOp.toJoinOp, if_neg (by simp [accepted])] at arrives
              cases arrives
      | tick now => cases arrives
    · intro op member keep prunes entry event inEntry inEvent after dropped
      cases op with
      | emit e =>
          cases accepted : inputAccepts e with
          | true =>
              rw [WorldOp.toJoinOp, if_pos accepted] at prunes
              cases prunes
          | false =>
              rw [WorldOp.toJoinOp, if_neg (by simp [accepted])] at prunes
              obtain rfl := JoinOp.prune.inj prunes
              cases dropped
      | tick now =>
          obtain rfl := JoinOp.prune.inj prunes
          exact keptAt_of_later (noWrap now member) window after
            (clock.span _ inEntry _ inEvent) dropped
    · intro entry member
      cases member
    · intro entry member
      cases member
  have roomAhead : Buffers.Room Buffers.empty
      (arrivals (ops.map (WorldOp.toJoinOp windowNs))) := by
    rw [arrivals_worldEvents]
    exact room
  have start : Lockstep (arrivals (ops.map (WorldOp.toJoinOp windowNs)))
      (windowedWorld windowNs) (windowedEngine windowNs) (windowedWorld windowNs)
      (windowedEngine windowNs) :=
    ⟨rfl, rfl, ⟨rfl, rfl, rfl, rfl⟩, rfl, ⟨rfl, rfl⟩, ⟨rfl, rfl⟩, roomAhead, roomAhead,
      fun _ _ => ⟨rfl, rfl⟩⟩
  exact worldRun_lockstep fuel ops (windowedEngine windowNs) (windowedEngine windowNs) start safe

end Lockstep

/-! ## Both engines -/

/-- For both engines and every run whose ticks come at least two windows after the origin of the
    clock, the results are those of the run without its ticks. The window of a query also has to
    fit the `uint32_t` that the cleanup reads it from, and the buffers of the time-based engine
    have to hold the events of the run. -/
theorem cleanup_harmless [Pcre2] :
    (∀ (corr : Correlate) (ops : List CorrOp), corr.withinMs < 2 ^ 32 →
      RunClock (corr.withinMs * 1000000) (ops.map CorrOp.time) →
      (∀ now, CorrOp.tick now ∈ ops → 2 * (corr.withinMs * 1000000) ≤ now) →
      (corrRun corr ops).2 = corrResults corr (corrEvents ops)) ∧
    ∀ (fuel windowNs : Nat) (ops : List WorldOp), 2 * windowNs < 2 ^ 64 →
      RunClock windowNs (ops.map WorldOp.time) →
      (∀ now, WorldOp.tick now ∈ ops → 2 * windowNs ≤ now) →
      Buffers.Room Buffers.empty ((worldEvents ops).filter inputAccepts) →
      ∃ world world', worldRun (fuel + 2) (windowedWorld windowNs) ops = some world ∧
        worldRun (fuel + 2) (windowedWorld windowNs) ((worldEvents ops).map WorldOp.emit) =
          some world' ∧
        SameResults world world' :=
  ⟨corrRun_corrEvents, worldRun_worldEvents⟩

/-- `correlate type == "log" with type == "network" within 1000 ms`. -/
def secondQuery : Correlate := { logNetworkQuery with withinMs := 1000 }

/-- A network event. -/
def networkEventAt (timestampNs : Nat) : Event where
  id := 1
  type := .network
  timestampNs := timestampNs
  input := none
  data := some (.object [("type", .string "network")])

/-- A log event. -/
def logEventAt (timestampNs : Nat) : Event where
  id := 2
  type := .log
  timestampNs := timestampNs
  input := none
  data := some (.object [("type", .string "log")])

/-- A network event at one time and a log event at a later one, with a tick between them, as a
    run of a query. -/
def tickedCorrOps (network tick log : Nat) : List CorrOp :=
  [.event (networkEventAt network), .tick tick, .event (logEventAt log)]

/-- The same run of a world. -/
def tickedWorldOps (network tick log : Nat) : List WorldOp :=
  [.emit (networkEventAt network), .tick tick, .emit (logEventAt log)]

theorem cleanup_harmless_late :
    (@corrRun literalPcre2 secondQuery
        (tickedCorrOps 3000000000 3050000000 3090000000)).2 =
      @corrResults literalPcre2 secondQuery
        (corrEvents (tickedCorrOps 3000000000 3050000000 3090000000)) ∧
    ∃ world world',
      @worldRun literalPcre2 2 (windowedWorld 1000000000)
        (tickedWorldOps 3000000000 3050000000 3090000000) = some world ∧
      @worldRun literalPcre2 2 (windowedWorld 1000000000)
        ((worldEvents (tickedWorldOps 3000000000 3050000000 3090000000)).map WorldOp.emit) =
          some world' ∧
      SameResults world world' := by
  let _ := literalPcre2
  refine ⟨cleanup_harmless.1 secondQuery _ (by decide) ⟨by decide, by decide⟩ ?_,
    cleanup_harmless.2 0 1000000000 _ (by decide) ⟨by decide, by decide⟩ ?_
      ⟨by decide, by decide⟩⟩
  · simp [tickedCorrOps, secondQuery]
  · simp [tickedWorldOps]

/-- 50 ms after the origin of the clock plus one window, a tick drops an event 950 ms old, and the
    log event 990 ms after it is not paired with it by either engine. With a window of `2 ^ 32`
    ms the cleanup of a query takes it for zero. -/
theorem cleanup_early_drops :
    RunClock 1000000000 [100000000, 1050000000, 1090000000] ∧
    (@corrRun literalPcre2 secondQuery
      (tickedCorrOps 100000000 1050000000 1090000000)).2.length = 0 ∧
    (@corrResults literalPcre2 secondQuery
      (corrEvents (tickedCorrOps 100000000 1050000000 1090000000))).length = 1 ∧
    (@worldRun literalPcre2 2 (windowedWorld 1000000000)
      (tickedWorldOps 100000000 1050000000 1090000000)).map World.eventsCorrelated = some 0 ∧
    (@worldRun literalPcre2 2 (windowedWorld 1000000000)
      ((worldEvents (tickedWorldOps 100000000 1050000000 1090000000)).map
        WorldOp.emit)).map World.eventsCorrelated = some 1 ∧
    (@corrRun literalPcre2 { secondQuery with withinMs := 2 ^ 32 }
      (tickedCorrOps 9000000000000000 9000000050000000 9000000090000000)).2.length = 0 ∧
    (@corrResults literalPcre2 { secondQuery with withinMs := 2 ^ 32 }
      (corrEvents (tickedCorrOps 9000000000000000 9000000050000000 9000000090000000))).length =
        1 :=
  ⟨⟨by decide, by decide⟩, by decide, by decide, by decide, by decide, by decide, by decide⟩

end Nblex
