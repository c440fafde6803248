import Nblex.Core.NblexEvent
import Nblex.Misc.LinkedMemory
import Nblex.Misc.Loop

/-!
# The buffers of the time-based engine in memory

`add_to_buffer`, `cleanup_old_events` and the loop of `correlation_check_event` of
`src/correlation/time_correlation.c` once more, on the linked lists that hold the buffered events.
Every read of an entry is a read of the memory, and a read of memory that is not an entry makes
the run `none`. Allocation is a parameter that may fail.
-/

namespace Nblex

namespace LinkedBuffers

open LinkedMemory

/-- `nblex_correlation_s`: the buffers are the addresses of their first entries. -/
structure Correlation where
  windowNs : Nat
  logEvents : Option Nat
  networkEvents : Option Nat
  logEventsCount : Nat
  networkEventsCount : Nat
  correlationsFound : Nat

/-- A world with its engine, and the memory that the buffer entries are in. -/
structure World where
  correlation : Correlation
  memory : Memory Event
  eventsProcessed : Nat
  eventsCorrelated : Nat
  handled : List Event

/-- A world whose engine has not seen an event. -/
def newWorld (windowNs : Nat) : World where
  correlation := ⟨windowNs, none, none, 0, 0, 0⟩
  memory := fun _ => none
  eventsProcessed := 0
  eventsCorrelated := 0
  handled := []

/-- The list of buffered log events. -/
def World.logBuffer (world : World) : Rooted Event := ⟨world.correlation.logEvents, world.memory⟩

/-- The list of buffered network events. -/
def World.networkBuffer (world : World) : Rooted Event :=
  ⟨world.correlation.networkEvents, world.memory⟩

/-- Write the list of buffered log events and its counter. -/
def World.setLog (world : World) (buffer : Rooted Event × Nat) : World :=
  { world with
    correlation :=
      { world.correlation with logEvents := buffer.1.head, logEventsCount := buffer.2 }
    memory := buffer.1.memory }

/-- Write the list of buffered network events and its counter. -/
def World.setNetwork (world : World) (buffer : Rooted Event × Nat) : World :=
  { world with
    correlation :=
      { world.correlation with networkEvents := buffer.1.head, networkEventsCount := buffer.2 }
    memory := buffer.1.memory }

/-! ## Cleanup -/

/-- The variables of the loop of `cleanup_old_events`. -/
structure CleanupState where
  entryPtr : Link
  buffer : Rooted Event
  count : Nat

/-- A turn of the loop of `cleanup_old_events`. It leaves with `none` at a read of a free
    address. -/
def cleanupTurn (cutoffTime : Nat) (state : CleanupState) :
    Turn CleanupState (Option (Rooted Event × Nat)) :=
  match state.buffer.load state.entryPtr with
  | none => .leave none
  | some none => .leave (some (state.buffer, state.count))
  | some (some entry) =>
      match state.buffer.memory entry with
      | none => .leave none
      | some cell =>
          if cell.value.timestampNs < cutoffTime then
            .again
              { state with
                buffer := (state.buffer.store state.entryPtr cell.next).release entry
                count := u64Sub state.count 1 }
          else .again { state with entryPtr := .next entry }

/-- `cleanup_old_events`. -/
def cleanupOldEvents (turns : Nat) (bufferHead : Rooted Event) (count cutoffTime : Nat) :
    Option (Rooted Event × Nat) :=
  (runLoop (cleanupTurn cutoffTime) turns ⟨.head, bufferHead, count⟩).join

/-- `cleanup_timer_cb`, from where it has its cutoff on. -/
def cleanupBuffers (turns : Nat) (world : World) (cutoff : Nat) : Option World := do
  let log ← cleanupOldEvents turns world.logBuffer world.correlation.logEventsCount cutoff
  let world := world.setLog log
  let network ← cleanupOldEvents turns world.networkBuffer world.correlation.networkEventsCount
    cutoff
  pure (world.setNetwork network)

/-- `cleanup_timer_cb`. -/
def cleanupTimerCb (turns : Nat) (world : World) (now : Nat) : Option World :=
  cleanupBuffers turns world (u64Sub now (u64Mul world.correlation.windowNs 2))

/-! ## Events -/

section Malloc

variable (malloc : Memory Event → Option Nat)

/-- `add_to_buffer`. The allocations of the entry and of the copy of the event are one here: the
    function returns without an entry if either fails. -/
def addToBuffer (bufferHead : Rooted Event) (count : Nat) (event : Event) :
    Rooted Event × Nat :=
  if maxBufferSize ≤ count then (bufferHead, count)
  else
    match malloc bufferHead.memory with
    | none => (bufferHead, count)
    | some entry =>
        ({ head := some entry
           memory := Function.update bufferHead.memory entry
             (some ⟨nblexEventClone event, bufferHead.head⟩) }, count + 1)

/-- The end of `nblex_correlation_process_event`. -/
def bufferEvent (world : World) (event : Event) : World :=
  match event.type with
  | .log =>
      world.setLog (addToBuffer malloc world.logBuffer world.correlation.logEventsCount event)
  | .network =>
      world.setNetwork
        (addToBuffer malloc world.networkBuffer world.correlation.networkEventsCount event)
  | _ => world

/-- The buffer that `correlation_check_event` walks. -/
def checkBuffer (corr : Correlation) (newEvent : Event) : Option Nat :=
  match newEvent.type with
  | .log => corr.networkEvents
  | .network => corr.logEvents
  | _ => none

section Emit

variable (emit : World → Event → Option World)

/-- The body of the loop of `correlation_check_event` on one buffered event. -/
def correlationCheckEntry (newEvent : Event) (world : World) (bufferedEvent : Event) :
    Option World :=
  let corr := world.correlation
  if withinWindow corr.windowNs newEvent.timestampNs bufferedEvent.timestampNs then
    emit
      { world with
        correlation := { corr with correlationsFound := corr.correlationsFound + 1 }
        eventsCorrelated := world.eventsCorrelated + 1 }
      (createCorrelationEvent corr.windowNs (orientPair newEvent bufferedEvent).1
        (orientPair newEvent bufferedEvent).2)
  else some world

/-- The loop of `correlation_check_event`. The link to the next entry is read after the
    emission. -/
def correlationCheckLoop (newEvent : Event) : Nat → Option Nat → World → Option World
  | 0, _, _ => none
  | _ + 1, none, world => some world
  | turns + 1, some entry, world => do
      let cell ← world.memory entry
      let world ← correlationCheckEntry emit newEvent world cell.value
      let cell ← world.memory entry
      correlationCheckLoop newEvent turns cell.next world

/-- `nblex_correlation_process_event`. -/
def nblexCorrelationProcessEvent (turns : Nat) (world : World) (event : Event) :
    Option World :=
  (correlationCheckLoop emit event turns (checkBuffer world.correlation event) world).map
    (bufferEvent malloc · event)

end Emit

variable [Pcre2]

/-- `nblex_event_emit`. `none` means that the nesting was deeper than the fuel, or that an entry
    was read that is not there. -/
def nblexEventEmit (turns : Nat) : Nat → World → Event → Option World
  | 0, _, _ => none
  | fuel + 1, world, event =>
      if inputAccepts event then
        (nblexCorrelationProcessEvent malloc (nblexEventEmit turns fuel) turns
          { world with eventsProcessed := world.eventsProcessed + 1 } event).map
          (fun world => { world with handled := world.handled ++ [event] })
      else some world

/-! ## Runs -/

/-- One step of an engine: an event that it processes, or a cleanup with its cutoff. -/
inductive EngineOp where
  | process (event : Event)
  | cleanup (cutoff : Nat)

/-- One step of an engine. -/
def engineStep (turns fuel : Nat) (world : World) : EngineOp → Option World
  | .process event =>
      nblexCorrelationProcessEvent malloc (nblexEventEmit malloc turns fuel) turns world event
  | .cleanup cutoff => cleanupBuffers turns world cutoff

/-- A sequence of steps. -/
def engineRun (turns fuel : Nat) (world : World) (ops : List EngineOp) : Option World :=
  ops.foldlM (engineStep malloc turns fuel) world

end Malloc

end LinkedBuffers

end Nblex
