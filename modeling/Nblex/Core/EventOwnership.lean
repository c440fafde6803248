import Nblex.Core.NblexEvent
import Nblex.Misc.Ledger

/-!
# Event objects

Who allocates and who frees an event: `nblex_event_new`, `nblex_event_clone`, `nblex_event_free`
and `nblex_event_emit` of `src/core/nblex_event.c`, the buffers of
`src/correlation/time_correlation.c`, and the two callers in `src/input/pcap_input.c` and
`src/input/file_input.c`. An event object is a handle, and the ledger counts the calls of
`nblex_event_free` on it. Every allocation may fail.
-/

namespace Nblex

namespace Owned

/-- A pointer to an `nblex_event_s`: the object it points to and its contents. -/
structure EventRef where
  handle : Nat
  event : Event

/-- `nblex_correlation_s`; the buffers hold clones. -/
structure Correlation where
  windowNs : Nat
  logEvents : List EventRef
  networkEvents : List EventRef
  logEventsCount : Nat
  networkEventsCount : Nat
  correlationsFound : Nat

/-- The part of `nblex_world_s` that emission reads and writes, with the ledger of all event
    objects. `created` lists the objects that inputs have created, the last one first. -/
structure World (σ : Type) where
  ledger : Ledger
  correlation : Option Correlation
  eventsProcessed : Nat
  eventsCorrelated : Nat
  eventHandlerData : σ
  created : List Nat

/-- The outcomes of the allocations that the correlation engine makes for one event: the buffer
    entry and the copy in it, and for each buffered event that matches the correlation event and
    its JSON object. -/
structure EngineAllocs where
  entry : Bool
  copy : Bool
  correlation : EventRef → Bool
  correlationData : EventRef → Bool

variable {σ : Type}

/-- The events in both buffers. -/
def Correlation.buffered (corr : Correlation) : List EventRef :=
  corr.logEvents ++ corr.networkEvents

/-- The events in both buffers of the engine, if there is one. -/
def World.buffered (world : World σ) : List EventRef :=
  match world.correlation with
  | none => []
  | some corr => corr.buffered

/-- A successful allocation of an event. -/
def World.issue (world : World σ) : World σ := { world with ledger := world.ledger.issue }

/-- `nblex_event_free`. -/
def eventFree (world : World σ) (ref : EventRef) : World σ :=
  { world with ledger := world.ledger.release ref.handle }

/-- `add_to_buffer`: the buffer takes a clone, with the ledger after it. -/
def addToBuffer (allocs : EngineAllocs) (ledger : Ledger) (bufferHead : List EventRef)
    (count : Nat) (ref : EventRef) : Ledger × List EventRef × Nat :=
  if maxBufferSize ≤ count then (ledger, bufferHead, count)
  else if allocs.entry && allocs.copy then
    (ledger.issue, ⟨ledger.next, nblexEventClone ref.event⟩ :: bufferHead, count + 1)
  else (ledger, bufferHead, count)

/-- The end of `nblex_correlation_process_event`: the event goes into the buffer of its type. -/
def bufferEvent (allocs : EngineAllocs) (ledger : Ledger) (corr : Correlation) (ref : EventRef) :
    Ledger × Correlation :=
  match ref.event.type with
  | .log =>
      let added := addToBuffer allocs ledger corr.logEvents corr.logEventsCount ref
      (added.1, { corr with logEvents := added.2.1, logEventsCount := added.2.2 })
  | .network =>
      let added := addToBuffer allocs ledger corr.networkEvents corr.networkEventsCount ref
      (added.1, { corr with networkEvents := added.2.1, networkEventsCount := added.2.2 })
  | _ => (ledger, corr)

section Emit

variable (allocs : EngineAllocs) (emit : World σ → EventRef → World σ)

/-- The body of the loop of `correlation_check_event` on one buffered event: a correlation event
    is created and emitted. Without its JSON object it is freed at once. -/
def correlationCheckEntry (newEvent : EventRef) (world : World σ) (buffered : EventRef) :
    World σ :=
  match world.correlation with
  | none => world
  | some corr =>
      if withinWindow corr.windowNs newEvent.event.timestampNs buffered.event.timestampNs then
        let pair := orientPair newEvent.event buffered.event
        let corrEvent : EventRef :=
          ⟨world.ledger.next, createCorrelationEvent corr.windowNs pair.1 pair.2⟩
        if allocs.correlation buffered then
          if allocs.correlationData buffered then
            emit
              { world.issue with
                correlation := some { corr with correlationsFound := corr.correlationsFound + 1 }
                eventsCorrelated := world.eventsCorrelated + 1 }
              corrEvent
          else eventFree world.issue corrEvent
        else world
      else world

/-- The buffer `correlation_check_event` walks: events of other types have none. -/
def checkBuffer (corr : Correlation) (newEvent : EventRef) : List EventRef :=
  match newEvent.event.type with
  | .log => corr.networkEvents
  | .network => corr.logEvents
  | _ => []

/-- `correlation_check_event`. -/
def correlationCheckEvent (world : World σ) (newEvent : EventRef) : World σ :=
  match world.correlation with
  | none => world
  | some corr =>
      (checkBuffer corr newEvent).foldl (correlationCheckEntry allocs emit newEvent) world

/-- `nblex_correlation_process_event`. -/
def correlationProcessEvent (world : World σ) (ref : EventRef) : World σ :=
  let checked := correlationCheckEvent allocs emit world ref
  match checked.correlation with
  | none => checked
  | some corr =>
      let buffered := bufferEvent allocs checked.ledger corr ref
      { checked with ledger := buffered.1, correlation := some buffered.2 }

end Emit

/-- `world->event_handler`, with the user data in the world. -/
abbrev EventHandler (σ : Type) := World σ → EventRef → World σ

section Handler

variable [Pcre2] (handler : EventHandler σ)

/-- `nblex_event_emit`, given what the correlation engine does with the event. Either way the
    event is freed. -/
def emitWith (process : World σ → EventRef → World σ) (world : World σ) (ref : EventRef) :
    World σ :=
  if inputAccepts ref.event then
    eventFree
      (handler (process { world with eventsProcessed := world.eventsProcessed + 1 } ref) ref) ref
  else eventFree world ref

/-- `nblex_event_emit`. The engine calls it again on correlation events only, which it leaves
    alone. -/
def eventEmit (allocs : EngineAllocs) : World σ → EventRef → World σ :=
  emitWith handler (correlationProcessEvent allocs (emitWith handler (fun world _ => world)))

/-- What a callback of an input finds: the input, the clock, whether the event and its data can
    be allocated, and the contents of the data. -/
structure Capture where
  input : Input
  now : Nat
  event : Bool
  data : Option Json
  allocs : EngineAllocs

/-- The event that `nblex_event_new` makes in an input. -/
def Capture.newEvent (capture : Capture) (type : EventType) (world : World σ) : EventRef :=
  ⟨world.ledger.next, nblexEventNew type (some capture.input) capture.now⟩

/-- The world in which an input has created an event. -/
def World.create (world : World σ) : World σ :=
  { world.issue with created := world.ledger.next :: world.created }

/-- `packet_handler`: the event is emitted, and freed again. -/
def packetHandler (world : World σ) (capture : Capture) : World σ :=
  if capture.event then
    let ref := capture.newEvent .network world
    match capture.data with
    | none => eventFree world.create ref
    | some jsonData =>
        let ref := { ref with event := { ref.event with data := some jsonData } }
        eventFree (eventEmit handler capture.allocs world.create ref) ref
  else world

/-- The body of the loop of `file_read_new_data` on a line that is not empty: the event is
    emitted. -/
def fileReadLine (world : World σ) (capture : Capture) : World σ :=
  if capture.event then
    let ref := capture.newEvent .log world
    match capture.data with
    | none => eventFree world.create ref
    | some data =>
        eventEmit handler capture.allocs world.create
          { ref with event := { ref.event with data := some data } }
  else world

/-- `cleanup_old_events`: the entries that leave the buffer are freed. -/
def cleanupOldEvents (ledger : Ledger) (bufferHead : List EventRef) (count cutoffTime : Nat) :
    Ledger × List EventRef × Nat :=
  let kept := bufferHead.filter (fun ref => decide (cutoffTime ≤ ref.event.timestampNs))
  let old := bufferHead.filter (fun ref => !decide (cutoffTime ≤ ref.event.timestampNs))
  (old.foldl (fun ledger ref => ledger.release ref.handle) ledger, kept, count - old.length)

/-- `cleanup_timer_cb`. -/
def cleanupTimerCb (world : World σ) (now : Nat) : World σ :=
  match world.correlation with
  | none => world
  | some corr =>
      let cutoff := u64Sub now (u64Mul corr.windowNs 2)
      let logs := cleanupOldEvents world.ledger corr.logEvents corr.logEventsCount cutoff
      let networks := cleanupOldEvents logs.1 corr.networkEvents corr.networkEventsCount cutoff
      { world with
        ledger := networks.1
        correlation := some
          { corr with
            logEvents := logs.2.1
            logEventsCount := logs.2.2
            networkEvents := networks.2.1
            networkEventsCount := networks.2.2 } }

/-! ## Runs -/

/-- One step of the event loop. -/
inductive LoopOp where
  | packet (capture : Capture)
  | line (capture : Capture)
  | cleanup (now : Nat)

/-- One step of the event loop on the world. -/
def loopStep (world : World σ) : LoopOp → World σ
  | .packet capture => packetHandler handler world capture
  | .line capture => fileReadLine handler world capture
  | .cleanup now => cleanupTimerCb world now

/-- A run of the event loop. -/
def loopRun (world : World σ) (ops : List LoopOp) : World σ :=
  ops.foldl (loopStep handler) world

end Handler

/-- A world before its first event, with the window of its engine if it has been opened. -/
def newWorld (windowMs : Option Nat) (data : σ) : World σ where
  ledger := Ledger.empty
  correlation := windowMs.map (fun windowMs => ⟨u64Mul windowMs 1000000, [], [], 0, 0, 0⟩)
  eventsProcessed := 0
  eventsCorrelated := 0
  eventHandlerData := data
  created := []

end Owned

end Nblex
