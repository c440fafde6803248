import Nblex.Core.FilterEngine.Syntax

/-!
# Events

The event types of `include/nblex/nblex.h` and `src/nblex_internal.h`, and the constructors
of `src/core/nblex_event.c`. Allocation is assumed to succeed.
-/

namespace Nblex

/-- `nblex_event_type`. -/
inductive EventType where
  | log | network | correlation | error
  deriving DecidableEq, Repr

/-- The part of `nblex_input_s` that emission reads: the filter of the input. -/
structure Input where
  filter : Option FilterNode

/-- `nblex_event_s`. `id` stands for the event object itself, so that two events with the
    same contents can be told apart; no code reads it. Timestamps are `uint64_t`. -/
structure Event where
  id : Nat := 0
  type : EventType
  timestampNs : Nat
  input : Option Input
  data : Option Json

/-- `nblex_event_new`: the timestamp is the clock at the call. -/
def nblexEventNew (type : EventType) (input : Option Input) (now : Nat) : Event :=
  { type := type, timestampNs := now, input := input, data := none }

/-- `nblex_event_clone`: a copy of the struct that shares the JSON data. -/
def nblexEventClone (src : Event) : Event := src

/-- `event->timestamp_ns ? event->timestamp_ns : nblex_timestamp_now()`. -/
def eventTimestamp (event : Event) (now : Nat) : Nat :=
  if event.timestampNs = 0 then now else event.timestampNs

theorem eventTimestamp_of_ne_zero {event : Event} (now : Nat) (h : event.timestampNs ≠ 0) :
    eventTimestamp event now = event.timestampNs := if_neg h

end Nblex
