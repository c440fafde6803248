import Nblex.Core.NblexEvent
import Nblex.Misc.WindowJoin

/-!
# Pairs found by the time-based engine

Emitting an event runs the engine, which emits one correlation event for every buffered event of
the other type within the window. The buffers of the engine are those of a window join, and the
counters and the handled events of a run follow from the pairs of the join.
-/

namespace Nblex

open WindowJoin

/-- The buffers of the engine: log events on the left, network events on the right. -/
def Correlation.buffers (corr : Correlation) : Buffers Event :=
  ⟨corr.logEvents, corr.networkEvents⟩

def isLogEvent (event : Event) : Bool := decide (event.type = .log)

def isNetworkEvent (event : Event) : Bool := decide (event.type = .network)

/-- The window test of the engine on a log event and a network event. -/
def timeNear (windowNs : Nat) (logEvent networkEvent : Event) : Bool :=
  withinWindow windowNs logEvent.timestampNs networkEvent.timestampNs

/-- The correlation event of a pair. -/
def pairEvent (windowNs : Nat) (p : Event × Event) : Event :=
  createCorrelationEvent windowNs p.1 p.2

/-- The pairs the engine finds for a new event. -/
def foundPairs (corr : Correlation) (event : Event) : List (Event × Event) :=
  corr.buffers.found isLogEvent isNetworkEvent (timeNear corr.windowNs) event

/-- A world after `k` correlations, before the events that made them are handled. -/
def World.correlated (world : World) (corr : Correlation) (results : List Event) : World where
  correlation := some { corr with correlationsFound := corr.correlationsFound + results.length }
  eventsProcessed := world.eventsProcessed + results.length
  eventsCorrelated := world.eventsCorrelated + results.length
  handled := world.handled ++ results

/-! ## One emission -/

section Step

variable [Pcre2] {fuel : Nat} {world : World} {corr : Correlation}

/-- An event of another type is counted and handled, and that is all. -/
theorem nblexEventEmit_other {event : Event} (noFilter : inputAccepts event = true)
    (notLog : event.type ≠ .log) (notNetwork : event.type ≠ .network) :
    nblexEventEmit (fuel + 1) world event =
      some { world with
        eventsProcessed := world.eventsProcessed + 1
        handled := world.handled ++ [event] } := by
  have noBuffer : ∀ corr, checkBuffer corr event = [] := by
    intro corr
    unfold checkBuffer
    split
    · contradiction
    · contradiction
    · rfl
  have unbuffered : ∀ corr, bufferEvent corr event = corr := by
    intro corr
    unfold bufferEvent
    split
    · contradiction
    · contradiction
    · rfl
  obtain ⟨correlation, processed, correlated, handled⟩ := world
  rw [nblexEventEmit, if_pos noFilter]
  cases correlation with
  | none => rfl
  | some corr =>
      simp only [nblexCorrelationProcessEvent, correlationCheckEvent, noBuffer, List.foldlM_nil,
        Option.pure_def, Option.map_some, unbuffered]

/-- The loop of `correlation_check_event` emits one correlation event for each entry of the
    buffer within the window. -/
theorem foldlM_correlationCheckEntry (event : Event) :
    ∀ (buffer : List Event) {world : World} {corr : Correlation},
      world.correlation = some corr →
      buffer.foldlM (correlationCheckEntry (nblexEventEmit (fuel + 1)) event) world =
        some (world.correlated corr
          ((buffer.filter (fun entry =>
            withinWindow corr.windowNs event.timestampNs entry.timestampNs)).map
              (fun entry => pairEvent corr.windowNs (orientPair event entry)))) := by
  intro buffer
  induction buffer with
  | nil =>
      intro world corr engine
      obtain ⟨correlation, processed, correlated, handled⟩ := world
      obtain rfl := engine
      simp [World.correlated]
  | cons entry buffer ih =>
      intro world corr engine
      rw [List.foldlM_cons]
      cases close : withinWindow corr.windowNs event.timestampNs entry.timestampNs with
      | false =>
          have stays : correlationCheckEntry (nblexEventEmit (fuel + 1)) event world entry =
              some world := by
            simp only [correlationCheckEntry, engine, close, Bool.false_eq_true, if_false]
          rw [stays, List.filter_cons_of_neg (by simp [close])]
          exact ih engine
      | true =>
          have emits : correlationCheckEntry (nblexEventEmit (fuel + 1)) event world entry =
              some (world.correlated corr
                [pairEvent corr.windowNs (orientPair event entry)]) := by
            simp only [correlationCheckEntry, engine, close, if_true]
            rw [nblexEventEmit_other]
            · rfl
            · rfl
            · exact fun type => EventType.noConfusion type
            · exact fun type => EventType.noConfusion type
          have here : (entry :: buffer).filter (fun entry =>
              withinWindow corr.windowNs event.timestampNs entry.timestampNs) =
                entry :: buffer.filter (fun entry =>
                  withinWindow corr.windowNs event.timestampNs entry.timestampNs) := by
            rw [List.filter_cons, if_pos close]
          rw [emits, here, List.map_cons]
          refine (ih rfl).trans (congrArg some ?_)
          simp only [World.correlated, List.length_cons, List.length_nil, List.append_assoc,
            List.singleton_append, World.mk.injEq, Option.some.injEq, Correlation.mk.injEq,
            true_and, and_true]
          omega

/-- The world after an emission: the pairs found are emitted, then the event is buffered and
    handled. -/
def World.afterEmit (world : World) (corr : Correlation) (event : Event) : World :=
  let results := (foundPairs corr event).map (pairEvent corr.windowNs)
  { correlation := some (bufferEvent
      { corr with correlationsFound := corr.correlationsFound + results.length } event)
    eventsProcessed := world.eventsProcessed + 1 + results.length
    eventsCorrelated := world.eventsCorrelated + results.length
    handled := world.handled ++ results ++ [event] }

omit [Pcre2] in
/-- The entries the loop takes from the buffer it walks are the pairs of the join. -/
theorem checkBuffer_pairs (corr : Correlation) (event : Event) :
    ((checkBuffer corr event).filter (fun entry =>
        withinWindow corr.windowNs event.timestampNs entry.timestampNs)).map
          (fun entry => pairEvent corr.windowNs (orientPair event entry)) =
      (foundPairs corr event).map (pairEvent corr.windowNs) := by
  have swap : ∀ buffer : List Event, buffer.filter (fun entry =>
      withinWindow corr.windowNs event.timestampNs entry.timestampNs) =
        buffer.filter (fun entry => timeNear corr.windowNs entry event) := by
    intro buffer
    refine List.filter_congr ?_
    intro entry _
    exact withinWindow_comm _ _ _
  have same : ∀ buffer : List Event, buffer.filter (fun entry =>
      withinWindow corr.windowNs event.timestampNs entry.timestampNs) =
        buffer.filter (fun entry => timeNear corr.windowNs event entry) := fun _ => rfl
  unfold foundPairs Buffers.found Buffers.add checkBuffer isLogEvent isNetworkEvent orientPair
    Correlation.buffers
  cases event.type with
  | log => simp [same, Function.comp_def]
  | network => simp [swap, Function.comp_def]
  | correlation => simp
  | error => simp

/-- Emitting an event whose input lets it through, with fuel for one level of nesting. -/
theorem nblexEventEmit_step (engine : world.correlation = some corr) {event : Event}
    (noFilter : inputAccepts event = true) :
    nblexEventEmit (fuel + 2) world event = some (world.afterEmit corr event) := by
  obtain ⟨correlation, processed, correlated, handled⟩ := world
  obtain rfl := engine
  have checked : (checkBuffer corr event).foldlM
      (correlationCheckEntry (nblexEventEmit (fuel + 1)) event)
      ⟨some corr, processed + 1, correlated, handled⟩ = _ :=
    foldlM_correlationCheckEntry event (checkBuffer corr event) rfl
  rw [checkBuffer_pairs] at checked
  rw [nblexEventEmit, if_pos noFilter, nblexCorrelationProcessEvent, correlationCheckEvent]
  simp only [checked]
  rfl

end Step

/-! ## Runs without ticks -/

/-- The counters of the buffers are their lengths. -/
structure Correlation.Counted (corr : Correlation) : Prop where
  log : corr.logEventsCount = corr.logEvents.length
  network : corr.networkEventsCount = corr.networkEvents.length

/-- The buffers have room for the events of a list. -/
structure Buffers.Room (b : Buffers Event) (events : List Event) : Prop where
  log : b.left.length + (events.filter isLogEvent).length ≤ maxBufferSize
  network : b.right.length + (events.filter isNetworkEvent).length ≤ maxBufferSize

theorem Buffers.Room.add {b : Buffers Event} {event : Event} {events : List Event}
    (room : Buffers.Room b (event :: events)) :
    Buffers.Room (b.add isLogEvent isNetworkEvent event) events := by
  obtain ⟨log, network⟩ := room
  constructor
  · cases side : isLogEvent event with
    | true =>
        rw [List.filter_cons_of_pos side, List.length_cons] at log
        simp only [Buffers.add, side, if_true, List.length_cons]
        omega
    | false =>
        rw [List.filter_cons_of_neg (by simp [side])] at log
        simpa only [Buffers.add, side, Bool.false_eq_true, if_false] using log
  · cases side : isNetworkEvent event with
    | true =>
        rw [List.filter_cons_of_pos side, List.length_cons] at network
        simp only [Buffers.add, side, if_true, List.length_cons]
        omega
    | false =>
        rw [List.filter_cons_of_neg (by simp [side])] at network
        simpa only [Buffers.add, side, Bool.false_eq_true, if_false] using network

/-- With room in the buffers an event is buffered on its side. -/
theorem bufferEvent_spec {corr : Correlation} (counted : corr.Counted) {event : Event}
    {events : List Event} (room : Buffers.Room corr.buffers (event :: events)) :
    (bufferEvent corr event).buffers = corr.buffers.add isLogEvent isNetworkEvent event ∧
      (bufferEvent corr event).Counted ∧
      (bufferEvent corr event).windowNs = corr.windowNs ∧
      (bufferEvent corr event).correlationsFound = corr.correlationsFound := by
  obtain ⟨log, network⟩ := counted
  obtain ⟨logRoom, networkRoom⟩ := room
  unfold Correlation.buffers at *
  cases type : event.type with
  | log =>
      have side : isLogEvent event = true := decide_eq_true type
      have other : isNetworkEvent event = false := by simp [isNetworkEvent, type]
      rw [List.filter_cons_of_pos side, List.length_cons] at logRoom
      have free : ¬ maxBufferSize ≤ corr.logEventsCount := by
        dsimp only at logRoom
        omega
      have buffered : bufferEvent corr event =
          { corr with
            logEvents := event :: corr.logEvents
            logEventsCount := corr.logEventsCount + 1 } := by
        simp only [bufferEvent, type, addToBuffer, if_neg free, nblexEventClone]
      rw [buffered]
      refine ⟨?_, ⟨congrArg (· + 1) log, network⟩, rfl, rfl⟩
      simp only [Buffers.add, side, other, if_true, Bool.false_eq_true, if_false]
  | network =>
      have side : isNetworkEvent event = true := decide_eq_true type
      have other : isLogEvent event = false := by simp [isLogEvent, type]
      rw [List.filter_cons_of_pos side, List.length_cons] at networkRoom
      have free : ¬ maxBufferSize ≤ corr.networkEventsCount := by
        dsimp only at networkRoom
        omega
      have buffered : bufferEvent corr event =
          { corr with
            networkEvents := event :: corr.networkEvents
            networkEventsCount := corr.networkEventsCount + 1 } := by
        simp only [bufferEvent, type, addToBuffer, if_neg free, nblexEventClone]
      rw [buffered]
      refine ⟨?_, ⟨log, congrArg (· + 1) network⟩, rfl, rfl⟩
      simp only [Buffers.add, side, other, if_true, Bool.false_eq_true, if_false]
  | correlation | error =>
      have notLog : isLogEvent event = false := by simp [isLogEvent, type]
      have notNetwork : isNetworkEvent event = false := by simp [isNetworkEvent, type]
      have buffered : bufferEvent corr event = corr := by simp only [bufferEvent, type]
      rw [buffered]
      refine ⟨?_, ⟨log, network⟩, rfl, rfl⟩
      simp only [Buffers.add, notLog, notNetwork, Bool.false_eq_true, if_false]

/-- The engine after an emission. -/
theorem afterEmit_engine {corr : Correlation} (counted : corr.Counted) {event : Event}
    {events : List Event} (room : Buffers.Room corr.buffers (event :: events)) (world : World) :
    ∃ corr', (world.afterEmit corr event).correlation = some corr' ∧
      corr'.buffers = corr.buffers.add isLogEvent isNetworkEvent event ∧ corr'.Counted ∧
      corr'.windowNs = corr.windowNs ∧
      corr'.correlationsFound = corr.correlationsFound + (foundPairs corr event).length := by
  have counted' : Correlation.Counted { corr with
      correlationsFound := corr.correlationsFound +
        ((foundPairs corr event).map (pairEvent corr.windowNs)).length } :=
    ⟨counted.log, counted.network⟩
  obtain ⟨buffers, next, window, found⟩ := bufferEvent_spec counted' room
  refine ⟨_, rfl, buffers, next, window, found.trans ?_⟩
  rw [List.length_map]

/-- What a run without ticks leaves: `found` are the pairs of the join of its events. -/
structure EmittedRun (world : World) (corr : Correlation) (events : List Event) (world' : World)
    (corr' : Correlation) (found : List (Event × Event)) : Prop where
  engine : world'.correlation = some corr'
  buffers : corr'.buffers = (joinRun isLogEvent isNetworkEvent (timeNear corr.windowNs)
    corr.buffers events).1
  correlationsFound : corr'.correlationsFound = corr.correlationsFound + found.length
  eventsCorrelated : world'.eventsCorrelated = world.eventsCorrelated + found.length
  eventsProcessed : world'.eventsProcessed =
    world.eventsProcessed + events.length + found.length
  handled : world'.handled.Perm
    (world.handled ++ (events ++ found.map (pairEvent corr.windowNs)))

theorem worldRun_emit [Pcre2] (fuel : Nat) :
    ∀ (events : List Event) {world : World} {corr : Correlation},
      world.correlation = some corr → corr.Counted → Buffers.Room corr.buffers events →
      (∀ event ∈ events, inputAccepts event = true) →
      ∃ world' corr', worldRun (fuel + 2) world (events.map WorldOp.emit) = some world' ∧
        EmittedRun world corr events world' corr' (joinRun isLogEvent isNetworkEvent
          (timeNear corr.windowNs) corr.buffers events).2 := by
  intro events
  induction events with
  | nil =>
      intro world corr engine counted room accepted
      exact ⟨world, corr, rfl, engine, rfl, rfl, rfl, rfl, by simp [joinRun]⟩
  | cons event events ih =>
      intro world corr engine counted room accepted
      have step : worldStep (fuel + 2) world (.emit event) = some (world.afterEmit corr event) :=
        nblexEventEmit_step engine (accepted event List.mem_cons_self)
      obtain ⟨next, engine', buffers, counted', window, count⟩ :=
        afterEmit_engine counted room world
      have room' : Buffers.Room next.buffers events := buffers ▸ room.add
      obtain ⟨last, lastCorr, run, rest⟩ := ih engine' counted' room'
        (fun other member => accepted other (List.mem_cons_of_mem _ member))
      obtain ⟨lastEngine, lastBuffers, lastFound, lastCorrelated, lastProcessed, lastHandled⟩ :=
        rest
      rw [buffers, window] at lastBuffers lastFound lastCorrelated lastProcessed lastHandled
      have here : (joinRun isLogEvent isNetworkEvent (timeNear corr.windowNs) corr.buffers
          (event :: events)).2 = foundPairs corr event ++
            (joinRun isLogEvent isNetworkEvent (timeNear corr.windowNs)
              (corr.buffers.add isLogEvent isNetworkEvent event) events).2 := rfl
      refine ⟨last, lastCorr, ?_, lastEngine, lastBuffers, ?_, ?_, ?_, ?_⟩
      · rw [worldRun, List.map_cons, List.foldlM_cons, step]
        exact run
      · rw [lastFound, count, here, List.length_append]
        omega
      · rw [lastCorrelated, here, List.length_append, World.afterEmit]
        simp only [List.length_map]
        omega
      · rw [lastProcessed, here, List.length_append, World.afterEmit]
        simp only [List.length_map, List.length_cons]
        omega
      · refine lastHandled.trans ?_
        rw [here, List.map_append, World.afterEmit]
        simp only [List.append_assoc, List.cons_append, List.nil_append]
        refine List.Perm.append_left _ ?_
        exact List.perm_middle.trans ((List.perm_append_comm_assoc _ _ _).cons event)

/-- The engine of an opened world. -/
theorem openedWorld_engine (windowMs : Nat) :
    ∃ corr, (openedWorld windowMs).correlation = some corr ∧ corr.buffers = Buffers.empty ∧
      corr.Counted ∧ corr.windowNs = u64Mul windowMs 1000000 ∧ corr.correlationsFound = 0 :=
  ⟨_, rfl, rfl, ⟨rfl, rfl⟩, rfl, rfl⟩

/-! ## The pairs of a run -/

/-- The pairs of a log event and a network event within the window. -/
def timePairs (windowNs : Nat) (events : List Event) : List (Event × Event) :=
  (events ×ˢ events).filter (fun p => decide (p.1.type = .log ∧ p.2.type = .network ∧
    ((p.1.timestampNs : Int) - p.2.timestampNs).natAbs ≤ windowNs))

theorem timePairs_perm (windowNs : Nat) {events events' : List Event}
    (perm : events'.Perm events) : (timePairs windowNs events').Perm (timePairs windowNs events) :=
  (perm.product perm).filter _

theorem joinRun_timePairs (windowNs : Nat) (window : windowNs < 2 ^ 63) {events : List Event}
    (stamps : ∀ event ∈ events, event.timestampNs < 2 ^ 63) :
    (joinRun isLogEvent isNetworkEvent (timeNear windowNs) Buffers.empty events).2.Perm
      (timePairs windowNs events) := by
  refine (joinRun_pairs events).trans (List.Perm.of_eq ?_)
  rw [pairs_filter, timePairs]
  refine List.filter_congr ?_
  rintro ⟨logEvent, networkEvent⟩ member
  obtain ⟨inLog, inNetwork⟩ := List.mem_product.mp member
  have close := withinWindow_iff window (stamps logEvent inLog) (stamps networkEvent inNetwork)
  rw [Bool.eq_iff_iff]
  simp only [timeNear, isLogEvent, isNetworkEvent, Bool.and_eq_true, decide_eq_true_eq, close,
    and_assoc]

/-- A correlation event carries the data of its log event and its network event. -/
def PairCarries (windowNs : Nat) (p : Event × Event) : Prop :=
  ∃ data, (pairEvent windowNs p).data = some data ∧ data.get? "log" = p.1.data ∧
    data.get? "network" = p.2.data

theorem pairCarries (windowNs : Nat) (p : Event × Event) : PairCarries windowNs p := by
  obtain ⟨logEvent, networkEvent⟩ := p
  refine ⟨_, rfl, ?_, ?_⟩
  · cases logEvent.data with
    | none => cases networkEvent.data with
      | none => rfl
      | some data => rfl
    | some data => cases networkEvent.data with
      | none => rfl
      | some data => rfl
  · cases logEvent.data with
    | none => cases networkEvent.data with
      | none => rfl
      | some data => rfl
    | some data => cases networkEvent.data with
      | none => rfl
      | some data => rfl

/-- The outcome of a run in an opened world with a window: one correlation event for every pair
    of a log event and a network event within the window, handled beside the events themselves,
    and counters that agree. Only log events and network events are buffered. -/
structure PairsOnce (windowNs : Nat) (events : List Event) (world : World)
    (corr : Correlation) : Prop where
  engine : world.correlation = some corr
  handled : world.handled.Perm
    (events ++ (timePairs windowNs events).map (pairEvent windowNs))
  carries : ∀ p ∈ timePairs windowNs events, PairCarries windowNs p
  correlationsFound : corr.correlationsFound = (timePairs windowNs events).length
  eventsCorrelated : world.eventsCorrelated = (timePairs windowNs events).length
  eventsProcessed : world.eventsProcessed = events.length + (timePairs windowNs events).length
  logEvents : corr.logEvents = (events.filter isLogEvent).reverse
  networkEvents : corr.networkEvents = (events.filter isNetworkEvent).reverse

/-- Every sequence of emissions into an opened world pairs every log event with every network
    event within the window exactly once, and the pairs do not depend on the order of
    arrival. -/
theorem emitted_pairs_once [Pcre2] (fuel windowMs : Nat) (window : windowMs < 2 ^ 32)
    (events : List Event) (accepted : ∀ event ∈ events, inputAccepts event = true)
    (stamps : ∀ event ∈ events, event.timestampNs < 2 ^ 63)
    (logRoom : (events.filter isLogEvent).length ≤ maxBufferSize)
    (networkRoom : (events.filter isNetworkEvent).length ≤ maxBufferSize) :
    (∃ world corr, worldRun (fuel + 2) (openedWorld windowMs) (events.map WorldOp.emit) =
        some world ∧ PairsOnce (windowMs * 1000000) events world corr) ∧
      ∀ events', events'.Perm events →
        (timePairs (windowMs * 1000000) events').Perm
          (timePairs (windowMs * 1000000) events) := by
  have windowNs : u64Mul windowMs 1000000 = windowMs * 1000000 := u64Mul_of_lt (by omega)
  refine ⟨?_, fun events' perm => timePairs_perm _ perm⟩
  obtain ⟨first, opened, empty, counted, windowEq, none⟩ := openedWorld_engine windowMs
  have room : Buffers.Room first.buffers events := by
    rw [empty]
    exact ⟨by simpa [Buffers.empty] using logRoom, by simpa [Buffers.empty] using networkRoom⟩
  obtain ⟨world, corr, run, engine, buffers, found, correlated, processed, handled⟩ :=
    worldRun_emit fuel events opened counted room accepted
  rw [empty, windowEq, windowNs] at buffers found correlated processed handled
  obtain ⟨left, right⟩ := joinRun_buffers (timeNear (windowMs * 1000000))
    Buffers.empty events
  have pairs := joinRun_timePairs (windowMs * 1000000) (by omega) stamps
  refine ⟨world, corr, run, engine, ?_, fun p _ => pairCarries _ p, ?_, ?_, ?_, ?_, ?_⟩
  · exact handled.trans ((pairs.map _).append_left events)
  · rw [found, none, Nat.zero_add, pairs.length_eq]
  · rw [correlated, pairs.length_eq]
    exact Nat.zero_add _
  · rw [processed, pairs.length_eq]
    exact congrArg (· + _) (Nat.zero_add _)
  · have side := congrArg Buffers.left buffers
    rw [left] at side
    simpa [Correlation.buffers, Buffers.empty] using side
  · have side := congrArg Buffers.right buffers
    rw [right] at side
    simpa [Correlation.buffers, Buffers.empty] using side

/-- A network event, a log event 40 ms later and a third event of another type. -/
def sampleEvents : List Event :=
  [{ type := .network, timestampNs := 1000000000, input := none, data := some (.object []) },
    { type := .log, timestampNs := 1040000000, input := none, data := some (.object []) },
    { type := .error, timestampNs := 1040000000, input := none, data := none }]

theorem emitted_pairs_once_sampleEvents :
    (∃ world corr, @worldRun literalPcre2 2 (openedWorld 100) (sampleEvents.map WorldOp.emit) =
        some world ∧ PairsOnce (100 * 1000000) sampleEvents world corr) ∧
      ∀ events', events'.Perm sampleEvents →
        (timePairs (100 * 1000000) events').Perm (timePairs (100 * 1000000) sampleEvents) :=
  letI := literalPcre2
  emitted_pairs_once 0 100 (by decide) sampleEvents (by simp [sampleEvents, inputAccepts])
    (by simp [sampleEvents]) (by decide) (by decide)

end Nblex
