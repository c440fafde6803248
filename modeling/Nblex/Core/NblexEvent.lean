import Nblex.Correlation.TimeCorrelation
import Nblex.Core.FilterEngine.Eval

/-!
# Emitting events

`nblex_event_emit` of `src/core/nblex_event.c`. It processes an event through the correlation
engine, which emits correlation events through it again; the fuel bounds that nesting.
-/

namespace Nblex

variable [Pcre2]

/-- The filter of the input an event comes from lets it through. -/
def inputAccepts (event : Event) : Bool :=
  match event.input with
  | some { filter := some filter } => nblexFilterMatches filter event
  | _ => true

/-- `nblex_event_emit`. `none` means that the nesting was deeper than the fuel. -/
def nblexEventEmit : Nat → World → Event → Option World
  | 0, _, _ => none
  | fuel + 1, world, event =>
      if inputAccepts event then
        (nblexCorrelationProcessEvent (nblexEventEmit fuel)
          { world with eventsProcessed := world.eventsProcessed + 1 } event).map
          (fun world => { world with handled := world.handled ++ [event] })
      else some world

/-! ## Runs -/

/-- One step of a world: an emitted event, or a cleanup tick with its clock reading. -/
inductive WorldOp where
  | emit (event : Event)
  | tick (now : Nat)

/-- One step of a world. -/
def worldStep (fuel : Nat) (world : World) : WorldOp → Option World
  | .emit event => nblexEventEmit fuel world event
  | .tick now =>
      some { world with correlation := world.correlation.map (cleanupTimerCb · now) }

/-- A sequence of steps. -/
def worldRun (fuel : Nat) (world : World) (ops : List WorldOp) : Option World :=
  ops.foldlM (worldStep fuel) world

end Nblex
