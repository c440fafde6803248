import Nblex.Core.EventOwnership
import Nblex.Core.NqlExecutor.Execute

/-!
# The command-line tool

The run of `cli/main.c` with `--query` and JSON output. `event_handler_query` executes the query
on an event and prints the event if the query matched. The executor emits its results through
`nblex_event_emit`, which calls the handler again, and the timers of its contexts emit there too.
What is printed is recorded by the event object it is the text of.
-/

namespace Nblex

namespace Cli

open Owned

/-- What the run with `--query` reads and writes next to the world: the execution contexts, the
    event objects of the results the executor has emitted and those that have been printed, the
    last ones first. Undefined behaviour of the executor ends the run. -/
structure QueryRun where
  exec : Executor
  results : List Nat
  printed : List Nat
  isDefined : Bool

/-- Before the first event. -/
def newQueryRun : QueryRun where
  exec := newExecutor
  results := []
  printed := []
  isDefined := true

/-- The world of the run. -/
abbrev CliWorld := Owned.World QueryRun

/-- What one call of the executor finds: its clock readings, and for each event object that is
    created in it the clock and the outcomes of the allocations of the engine. -/
structure CallEnv where
  clock : Nat → Nat
  resultNow : Nat → Nat
  allocs : Nat → EngineAllocs

/-- The world of the run as the executor sees it. -/
def worldRef : WorldRef := ⟨0, 0⟩

/-- The event of a result. -/
def resultEvent (now : Nat) : ExecResult → Event
  | .agg _ state bucket => createAggResultEvent state bucket now
  | .corr _ corr left right => createCorrResultEvent corr left right now

section Handler

variable [Pcre2] (nqlParse : String → Option NqlQuery) (query : String) (env : CallEnv)

/-- An event object for a result is allocated. -/
def recordResult (world : CliWorld) : CliWorld :=
  let run := world.eventHandlerData
  { world.issue with
    eventHandlerData := { run with results := world.ledger.next :: run.results } }

/-- A result leaves the executor: its event is created and emitted. -/
def emitResult (handler : EventHandler QueryRun) (world : CliWorld) (result : ExecResult) :
    CliWorld :=
  let handle := world.ledger.next
  eventEmit handler (env.allocs handle) (recordResult world)
    ⟨handle, resultEvent (env.resultNow handle) result⟩

/-- A call of the executor has changed its contexts. -/
def recordExecuted (world : CliWorld) (executed : Executed) : CliWorld :=
  let run := world.eventHandlerData
  { world with
    eventHandlerData :=
      { run with
        exec := executed.exec
        isDefined := executed.result.isSome } }

/-- The world after a call of the executor, which emits its new results in order. -/
def afterExecuted (handler : EventHandler QueryRun) (world : CliWorld) (executed : Executed) :
    CliWorld :=
  (executed.exec.results.drop world.eventHandlerData.exec.results.length).foldl
    (emitResult env handler) (recordExecuted world executed)

/-- `nblex_event_to_json` and `printf`. -/
def printEvent (world : CliWorld) (ref : EventRef) : CliWorld :=
  let run := world.eventHandlerData
  { world with eventHandlerData := { run with printed := ref.handle :: run.printed } }

/-- `event_handler_query`, given the handler that the results go to. The world is taken from the
    input of the event. -/
def queryHandlerWith (inner : EventHandler QueryRun) (world : CliWorld) (ref : EventRef) :
    CliWorld :=
  match ref.event.input with
  | none => world
  | some _ =>
      let executed :=
        nqlExecute nqlParse world.eventHandlerData.exec query ref.event (some worldRef) env.clock
      let after := afterExecuted env inner world executed
      match executed.result with
      | some true => printEvent after ref
      | _ => after

/-- `event_handler_query`. The results it is called with again have no input. -/
def eventHandlerQuery : EventHandler QueryRun :=
  queryHandlerWith nqlParse query env (fun world _ => world)

/-! ## Runs -/

/-- One step of the run: a callback of an input or of the engine, or a timer of the context whose
    state is at `addr`. -/
inductive CliOp where
  | loop (op : LoopOp) (env : CallEnv)
  | timer (addr now : Nat) (env : CallEnv)

/-- One step of the run. -/
def cliStep (world : CliWorld) (op : CliOp) : CliWorld :=
  if world.eventHandlerData.isDefined then
    match op with
    | .loop op env => loopStep (eventHandlerQuery nqlParse query env) world op
    | .timer addr now env =>
        afterExecuted env (eventHandlerQuery nqlParse query env) world
          (timerTick world.eventHandlerData.exec addr now)
  else world

/-- A run, with the window of the engine in milliseconds. -/
def cliRun (windowMs : Option Nat) (ops : List CliOp) : CliWorld :=
  ops.foldl (cliStep nqlParse query) (Owned.newWorld windowMs newQueryRun)

end Handler

end Cli

end Nblex
