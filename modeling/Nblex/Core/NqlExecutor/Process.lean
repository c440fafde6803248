import Nblex.Core.NqlExecutor.Proofs.OwnState

/-!
# Worlds and execution contexts

The execution contexts of `src/core/nql_executor.c` are a global list that outlives the worlds they
belong to. A process creates worlds, starts, stops and frees them, and executes queries in them; an
allocator may give a new world the address of one that has been freed. The timers of the states are
created by the lookups in a started world and closed by `nblex_exec_contexts_shutdown_world`.
-/

namespace Nblex

/-- `window_timer` or `cleanup_timer` of the state at the address `state`: the world whose loop it
    runs on, and whether it has been closed. The pointer to it is never cleared. -/
structure StateTimer where
  state : Nat
  world : WorldRef
  closed : Bool
  deriving DecidableEq

/-- A world that has not been freed. -/
structure LiveWorld where
  ref : WorldRef
  started : Bool
  deriving DecidableEq

/-- The state of the process. `defined` is false once the behaviour of a query was undefined, after
    which the run stops. `demands` and `requests` are its history: the states that were looked up
    in a started world and need a timer, and the requests of the queries that were executed. -/
structure Process where
  exec : Executor
  timers : List StateTimer
  worlds : List LiveWorld
  generation : Nat
  defined : Bool
  demands : List (Nat × WorldRef)
  requests : List StageRequest

/-- Before the first world. -/
def newProcess : Process where
  exec := newExecutor
  timers := []
  worlds := []
  generation := 0
  defined := true
  demands := []
  requests := []

/-- The state has a timer: every correlation state, and an aggregation state with a window. -/
def ExecState.isTimed : ExecState → Bool
  | .agg state => decide (state.window.type ≠ .none)
  | .corr _ => true

/-- What `get_agg_state`, `ensure_agg_timer_initialized`, `get_corr_state` and `execute_correlate`
    do for the timer of the state a stage is given: without one, a started world makes one. -/
def ensureTimer (started : Bool) (timers : List StateTimer) (lookup : Lookup) :
    List StateTimer :=
  if started && lookup.ctx.state.isTimed &&
      timers.all (fun timer => decide (timer.state ≠ lookup.ctx.addr)) then
    ⟨lookup.ctx.addr, lookup.request.world, false⟩ :: timers
  else timers

/-- What a lookup demands: in a started world, a timer for a state that has one. -/
def timerDemand (started : Bool) (lookup : Lookup) : List (Nat × WorldRef) :=
  if started && lookup.ctx.state.isTimed then [(lookup.ctx.addr, lookup.request.world)] else []

/-- `nblex_exec_contexts_shutdown_world`: the timers of the contexts whose world is at the address
    are closed. -/
def nblexExecContextsShutdownWorld (contexts : List ExecCtx) (timers : List StateTimer)
    (addr : Nat) : List StateTimer :=
  timers.map (fun timer =>
    if contexts.any (fun ctx => decide (ctx.addr = timer.state ∧ ctx.world.addr = addr)) then
      { timer with closed := true }
    else timer)

/-- The world at an address. -/
def Process.liveAt (process : Process) (addr : Nat) : Option LiveWorld :=
  process.worlds.find? (fun live => decide (live.ref.addr = addr))

/-- `nblex_world_new`, where the allocator returns the address `addr`. It returns none that is in
    use. -/
def Process.newWorld (process : Process) (addr : Nat) : Process :=
  match process.liveAt addr with
  | some _ => process
  | none =>
      { process with
        worlds := ⟨⟨addr, process.generation⟩, false⟩ :: process.worlds
        generation := process.generation + 1 }

/-- `nblex_world_start` and `nblex_world_stop`, as far as `world->started` goes. -/
def Process.setStarted (process : Process) (addr : Nat) (started : Bool) : Process :=
  { process with
    worlds := process.worlds.map (fun live =>
      if live.ref.addr = addr then { live with started := started } else live) }

/-- `nblex_world_free`, as far as the execution contexts go. -/
def Process.freeWorld (process : Process) (addr : Nat) : Process :=
  match process.liveAt addr with
  | none => process
  | some _ =>
      { process with
        timers := nblexExecContextsShutdownWorld process.exec.contexts process.timers addr
        worlds := process.worlds.filter (fun live => decide (live.ref.addr ≠ addr)) }

/-! ## Runs -/

/-- One step of a process. A query is executed in the world at an address, or without a world. -/
inductive ProcessOp where
  | newWorld (addr : Nat)
  | setStarted (addr : Nat) (started : Bool)
  | free (addr : Nat)
  | execute (queryStr : String) (event : Event) (addr : Option Nat) (clock : Nat → Nat)
  | tick (state now : Nat)

section Step

variable [Pcre2] (nqlParse : String → Option NqlQuery)

/-- Executing a query in a world of the process: the lookups it makes see to the timers. -/
def Process.execute (process : Process) (queryStr : String) (event : Event)
    (live : Option LiveWorld) (clock : Nat → Nat) : Process :=
  let world := live.map LiveWorld.ref
  let started := live.any LiveWorld.started
  let executed := nqlExecute nqlParse process.exec queryStr event world clock
  let made := executed.exec.lookups.drop process.exec.lookups.length
  { process with
    exec := executed.exec
    timers := made.foldl (ensureTimer started) process.timers
    defined := executed.result.isSome
    demands := process.demands ++ made.flatMap (timerDemand started)
    requests :=
      process.requests ++ (ExecOp.execute queryStr event world clock).requests nqlParse }

/-- One step of a process whose behaviour is defined so far. Nothing is done with an address at
    which there is no world. -/
def processStep (process : Process) (op : ProcessOp) : Process :=
  if process.defined then
    match op with
    | .newWorld addr => process.newWorld addr
    | .setStarted addr started => process.setStarted addr started
    | .free addr => process.freeWorld addr
    | .execute queryStr event none clock => process.execute nqlParse queryStr event none clock
    | .execute queryStr event (some addr) clock =>
        match process.liveAt addr with
        | none => process
        | some live => process.execute nqlParse queryStr event (some live) clock
    | .tick state now =>
        { process with
          exec := (timerTick process.exec state now).exec
          defined := (timerTick process.exec state now).result.isSome }
  else process

/-- A run of a process. -/
def processRun (ops : List ProcessOp) : Process := ops.foldl (processStep nqlParse) newProcess

end Step

end Nblex
