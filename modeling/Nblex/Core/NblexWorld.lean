import Nblex.Input.InputHandles
import Nblex.Misc.Guarded

/-!
# The life of a world

`nblex_world_open`, `nblex_world_start`, `nblex_world_stop` and `nblex_world_free` of
`src/core/nblex_world.c`, with `nblex_correlation_start` and `nblex_correlation_free` of
`src/correlation/time_correlation.c`, and the handles that they open and close. The event loop
runs between these calls, so that `running` is false in all of them.
-/

namespace Nblex

namespace Lifecycle

/-- The timer of `nblex_correlation_s`. -/
structure CorrelationTimer where
  timerInitialized : Bool
  cleanupTimer : HandleState
  deriving DecidableEq, Repr

/-- The part of `nblex_world_s` that starting and stopping read and write. A world is opened just
    in case it has a correlation engine. -/
structure World (ι : Type) where
  started : Bool
  correlation : Option CorrelationTimer
  inputs : List ι
  deriving DecidableEq, Repr

/-- `nblex_correlation_start`, with the outcomes of `uv_timer_init` and `uv_timer_start`. -/
def correlationStart (timerInit timerStart : Bool) (corr : CorrelationTimer) :
    Bool × CorrelationTimer × List HandleEvent :=
  if !timerInit then (false, corr, [.initialised corr.cleanupTimer])
  else if !timerStart then
    (false, { timerInitialized := false, cleanupTimer := corr.cleanupTimer.init true },
      [.initialised corr.cleanupTimer])
  else
    (true,
      { timerInitialized := true, cleanupTimer := (corr.cleanupTimer.init true).start true },
      [.initialised corr.cleanupTimer])

/-- `nblex_correlation_free`: an initialised timer is closed, and the memory released by its close
    callback. -/
def correlationFree (corr : CorrelationTimer) : List HandleEvent :=
  if corr.timerInitialized then [.released corr.cleanupTimer.stop.close.finish]
  else [.released corr.cleanupTimer]

/-- The outcomes of the calls of `nblex_world_start`, those of an input by its place. -/
structure StartOutcomes (ω : Type) where
  timerInit : Bool
  timerStart : Bool
  inputs : Nat → ω

section Vtable

variable {ι ω : Type} (vtable : InputVtable ι ω)

/-- `nblex_world_new`. -/
def newWorld : World ι := ⟨false, none, []⟩

/-- `nblex_world_open`, with the outcome of the allocation of the engine. -/
def worldOpen (world : World ι) (alloc : Bool) : World ι :=
  match world.correlation with
  | some _ => world
  | none => if alloc then { world with correlation := some ⟨false, .unused⟩ } else world

/-- The loop of `nblex_world_start` over the inputs from place `i` on. It ends at the first one
    that fails. -/
def startInputs (outcomes : Nat → ω) : Nat → List ι → Bool × List ι × List HandleEvent
  | _, [] => (true, [], [])
  | i, input :: inputs =>
      let here := vtable.start (outcomes i) input
      if here.1 then
        let rest := startInputs outcomes (i + 1) inputs
        (rest.1, here.2.1 :: rest.2.1, here.2.2 ++ rest.2.2)
      else (false, here.2.1 :: inputs, here.2.2)

/-- `nblex_world_start`. -/
def worldStart (world : World ι) (outcomes : StartOutcomes ω) :
    Int × World ι × List HandleEvent :=
  match world.correlation with
  | none => (-1, world, [])
  | some corr =>
      if world.started then (-1, world, [])
      else
        let timer := correlationStart outcomes.timerInit outcomes.timerStart corr
        let world := { world with correlation := some timer.2.1 }
        if !timer.1 then (-1, world, timer.2.2)
        else
          let inputs := startInputs vtable outcomes.inputs 0 world.inputs
          let world := { world with inputs := inputs.2.1 }
          if !inputs.1 then (-1, world, timer.2.2 ++ inputs.2.2)
          else (0, { world with started := true }, timer.2.2 ++ inputs.2.2)

/-- The loop over the inputs in `nblex_world_stop` and `nblex_world_free`. -/
def stopInputs (inputs : List ι) : List ι × List HandleEvent :=
  (inputs.map (fun input => (vtable.stop input).1),
    inputs.flatMap (fun input => (vtable.stop input).2))

/-- `nblex_world_stop`. -/
def worldStop (world : World ι) : World ι × List HandleEvent :=
  ({ world with started := false, inputs := (stopInputs vtable world.inputs).1 },
    (stopInputs vtable world.inputs).2)

/-- `nblex_world_free`: the inputs are stopped only if the world is started, and released before
    the loop turns again. -/
def worldFree (world : World ι) : List HandleEvent :=
  let stopped := if world.started then stopInputs vtable world.inputs else (world.inputs, [])
  stopped.2 ++ (world.correlation.toList.flatMap correlationFree) ++ stopped.1.flatMap vtable.free

/-- A turn of the event loop, which finishes what is closing. -/
def worldTurn (world : World ι) : World ι :=
  { world with
    correlation := world.correlation.map (fun corr =>
      { corr with cleanupTimer := corr.cleanupTimer.finish })
    inputs := world.inputs.map vtable.turn }

/-! ## Runs -/

/-- One operation on a world. -/
inductive WorldOp (ω : Type) where
  | openWorld (alloc : Bool)
  | create
  | start (outcomes : StartOutcomes ω)
  | stop
  | turn
  | free

/-- One operation, with what it does to handles. An input that is created is `newInput`; nothing
    is done with a world that has been freed. -/
def worldStep (newInput : ι) :
    Option (World ι) → WorldOp ω → Option (World ι) × List HandleEvent
  | none, _ => (none, [])
  | some world, .openWorld alloc => (some (worldOpen world alloc), [])
  | some world, .create => (some { world with inputs := world.inputs ++ [newInput] }, [])
  | some world, .start outcomes =>
      (some (worldStart vtable world outcomes).2.1, (worldStart vtable world outcomes).2.2)
  | some world, .stop => (some (worldStop vtable world).1, (worldStop vtable world).2)
  | some world, .turn => (some (worldTurn vtable world), [])
  | some world, .free => (none, worldFree vtable world)

end Vtable

end Lifecycle

end Nblex
