import Nblex.NblexInternal
import Nblex.Misc.Word64

/-!
# Time-based correlation

The engine of `src/correlation/time_correlation.c`. Checking an event emits correlation events
through `nblex_event_emit`, which calls the engine again; the emission is a parameter here and
`Nblex.Core.NblexEvent` closes the loop. Allocation is assumed to succeed.
-/

namespace Nblex

/-- `MAX_BUFFER_SIZE`. -/
def maxBufferSize : Nat := 10000

/-- `nblex_correlation_s`. -/
structure Correlation where
  windowNs : Nat
  logEvents : List Event
  networkEvents : List Event
  logEventsCount : Nat
  networkEventsCount : Nat
  correlationsFound : Nat

/-- The part of `nblex_world_s` that emission reads and writes. `handled` records the events
    the registered handler has been called with; the handler itself emits nothing. -/
structure World where
  correlation : Option Correlation
  eventsProcessed : Nat
  eventsCorrelated : Nat
  handled : List Event

/-- `nblex_correlation_new`: the default window is 100 ms. -/
def nblexCorrelationNew : Correlation where
  windowNs := u64Mul 100 1000000
  logEvents := []
  networkEvents := []
  logEventsCount := 0
  networkEventsCount := 0
  correlationsFound := 0

/-- `nblex_correlation_add_strategy`; `window_ms` is a `uint32_t`. -/
def nblexCorrelationAddStrategy (corr : Correlation) (windowMs : Nat) : Correlation :=
  { corr with windowNs := u64Mul windowMs 1000000 }

/-- A world after `nblex_world_open`, with the window of its engine set to `windowMs`. -/
def openedWorld (windowMs : Nat) : World where
  correlation := some (nblexCorrelationAddStrategy
    (nblexCorrelationAddStrategy nblexCorrelationNew 100) windowMs)
  eventsProcessed := 0
  eventsCorrelated := 0
  handled := []

/-- `add_to_buffer`: a full buffer stays as it is. -/
def addToBuffer (bufferHead : List Event) (count : Nat) (event : Event) : List Event × Nat :=
  if maxBufferSize ≤ count then (bufferHead, count)
  else (nblexEventClone event :: bufferHead, count + 1)

/-- `cleanup_old_events`. -/
def cleanupOldEvents (bufferHead : List Event) (count cutoffTime : Nat) : List Event × Nat :=
  let kept := bufferHead.filter (fun entry => decide (cutoffTime ≤ entry.timestampNs))
  (kept, count - (bufferHead.length - kept.length))

/-- `create_correlation_event`. -/
def createCorrelationEvent (windowNs : Nat) (logEvent networkEvent : Event) : Event :=
  let corrData := (Json.object []).set "correlation_type" (some (.string "time_based"))
  let corrData := corrData.set "window_ms" (some (.integer (toInt64 (windowNs / 1000000))))
  let corrData := corrData.set "log" logEvent.data
  let corrData := corrData.set "network" networkEvent.data
  let timeDiffNs := toInt64 logEvent.timestampNs - toInt64 networkEvent.timestampNs
  let corrData := corrData.set "time_diff_ms" (some (.real ((timeDiffNs : ℚ) / 1000000)))
  { type := .correlation
    timestampNs := logEvent.timestampNs
    input := none
    data := some corrData }

/-- The log event and the network event of a match, by the type of the new event. -/
def orientPair (newEvent bufferedEvent : Event) : Event × Event :=
  if newEvent.type = .log then (newEvent, bufferedEvent) else (bufferedEvent, newEvent)

section Emit

variable (emit : World → Event → Option World)

/-- The body of the loop of `correlation_check_event` on one buffered event. -/
def correlationCheckEntry (newEvent : Event) (world : World) (bufferedEvent : Event) :
    Option World :=
  match world.correlation with
  | none => some world
  | some corr =>
      if withinWindow corr.windowNs newEvent.timestampNs bufferedEvent.timestampNs then
        emit
          { world with
            correlation := some { corr with correlationsFound := corr.correlationsFound + 1 }
            eventsCorrelated := world.eventsCorrelated + 1 }
          (createCorrelationEvent corr.windowNs (orientPair newEvent bufferedEvent).1
            (orientPair newEvent bufferedEvent).2)
      else some world

/-- The buffer `correlation_check_event` walks: events of other types have none. -/
def checkBuffer (corr : Correlation) (newEvent : Event) : List Event :=
  match newEvent.type with
  | .log => corr.networkEvents
  | .network => corr.logEvents
  | _ => []

/-- `correlation_check_event`. -/
def correlationCheckEvent (world : World) (newEvent : Event) : Option World :=
  match world.correlation with
  | none => some world
  | some corr => (checkBuffer corr newEvent).foldlM (correlationCheckEntry emit newEvent) world

/-- The end of `nblex_correlation_process_event`: the event goes into the buffer of its type. -/
def bufferEvent (corr : Correlation) (event : Event) : Correlation :=
  match event.type with
  | .log =>
      { corr with
        logEvents := (addToBuffer corr.logEvents corr.logEventsCount event).1
        logEventsCount := (addToBuffer corr.logEvents corr.logEventsCount event).2 }
  | .network =>
      { corr with
        networkEvents := (addToBuffer corr.networkEvents corr.networkEventsCount event).1
        networkEventsCount := (addToBuffer corr.networkEvents corr.networkEventsCount event).2 }
  | _ => corr

/-- `nblex_correlation_process_event`: the event is checked before it is buffered. -/
def nblexCorrelationProcessEvent (world : World) (event : Event) : Option World :=
  (correlationCheckEvent emit world event).map (fun world =>
    { world with correlation := world.correlation.map (bufferEvent · event) })

end Emit

/-- `cleanup_timer_cb`: `now - window_ns * 2` wraps around below zero. -/
def cleanupTimerCb (corr : Correlation) (now : Nat) : Correlation :=
  let cutoff := u64Sub now (u64Mul corr.windowNs 2)
  { corr with
    logEvents := (cleanupOldEvents corr.logEvents corr.logEventsCount cutoff).1
    logEventsCount := (cleanupOldEvents corr.logEvents corr.logEventsCount cutoff).2
    networkEvents := (cleanupOldEvents corr.networkEvents corr.networkEventsCount cutoff).1
    networkEventsCount :=
      (cleanupOldEvents corr.networkEvents corr.networkEventsCount cutoff).2 }

end Nblex
