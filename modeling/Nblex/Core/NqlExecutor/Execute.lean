import Nblex.Core.NqlExecutor.Aggregate
import Nblex.Core.NqlExecutor.Correlate

/-!
# Executing queries

The execution contexts of `src/core/nql_executor.c`, which keep the state of a stage between
events, and `nql_execute` over all kinds of queries. What `create_agg_result_event` and
`create_corr_result_event` are called with is recorded; the handler of results is assumed not
to call back into the executor. `nql_parse` is a parameter.
-/

namespace Nblex

/-- A world as the executor sees it: `addr` is the pointer it compares. `generation` tells
    apart the worlds that are allocated at one address one after the other; no code reads it. -/
structure WorldRef where
  addr : Nat
  generation : Nat
  deriving DecidableEq

/-- A stage that asks for its state: the text of its query, the world, and its position among
    the stages. The source passes the first two only. -/
structure StageRequest where
  queryStr : Option String
  world : WorldRef
  stage : Nat
  deriving DecidableEq

/-- The union of `nql_exec_ctx_t` and its `query_type`. The lookups read the union only. -/
inductive ExecState where
  | agg (state : AggState)
  | corr (state : CorrState)

/-- `nql_exec_ctx_t`. `addr` is the address of the state it owns and `creator` the stage it
    was created for; no code reads the latter. -/
structure ExecCtx where
  addr : Nat
  world : WorldRef
  queryString : Option String
  state : ExecState
  creator : StageRequest

/-- What a result event is built from. -/
inductive ExecResult where
  | agg (world : WorldRef) (state : AggState) (bucket : Bucket)
  | corr (world : WorldRef) (corr : Correlate) (left right : Event)

/-- A lookup of the run: the stage that asked and the context it was given, as it was then. -/
structure Lookup where
  request : StageRequest
  ctx : ExecCtx

/-- `exec_contexts`, with the allocator of states, the results emitted so far and the lookups
    made so far. -/
structure Executor where
  contexts : List ExecCtx
  nextAddr : Nat
  results : List ExecResult
  lookups : List Lookup

/-- Before the first query. -/
def newExecutor : Executor where
  contexts := []
  nextAddr := 0
  results := []
  lookups := []

/-- The search of `get_agg_state` and `get_corr_state`. A `NULL` text finds nothing, and the
    union member that is tested for `NULL` never is. -/
def findCtx (contexts : List ExecCtx) (world : WorldRef) (queryStr : Option String) :
    Option ExecCtx :=
  queryStr.bind (fun text => contexts.find? (fun ctx =>
    decide (ctx.queryString = some text ∧ ctx.world.addr = world.addr)))

/-- The context both lookups end with: the one found, or a new one in front of the others. -/
def getState (exec : Executor) (request : StageRequest) (newState : ExecState) :
    Executor × ExecCtx :=
  match findCtx exec.contexts request.world request.queryStr with
  | some ctx => ({ exec with lookups := exec.lookups ++ [⟨request, ctx⟩] }, ctx)
  | none =>
      let ctx : ExecCtx :=
        { addr := exec.nextAddr
          world := request.world
          queryString := request.queryStr
          state := newState
          creator := request }
      ({ exec with
        contexts := ctx :: exec.contexts
        nextAddr := exec.nextAddr + 1
        lookups := exec.lookups ++ [⟨request, ctx⟩] }, ctx)

/-- `get_agg_state`. -/
def getAggState (exec : Executor) (agg : Aggregate) (request : StageRequest) :
    Executor × ExecCtx :=
  getState exec request (.agg (newAggState agg))

/-- `get_corr_state`. -/
def getCorrState (exec : Executor) (corr : Correlate) (request : StageRequest) :
    Executor × ExecCtx :=
  getState exec request (.corr (newCorrState corr))

/-- Write the state at an address. -/
def Executor.setState (exec : Executor) (addr : Nat) (state : ExecState) : Executor :=
  { exec with
    contexts := exec.contexts.map
      (fun ctx => if ctx.addr = addr then { ctx with state := state } else ctx) }

/-- Emit results. -/
def Executor.emit (exec : Executor) (results : List ExecResult) : Executor :=
  { exec with results := exec.results ++ results }

/-- What executing a query leaves: the executor and the return value. `none` is undefined
    behaviour, after which the run stops: a state of the other kind behind the union, or a
    division by zero. -/
structure Executed where
  exec : Executor
  result : Option Bool

section Stages

variable [Pcre2]

/-- Where and for which stage a query is executed. `world` is `none` for `NULL`. -/
structure StageCall where
  queryStr : Option String
  world : Option WorldRef
  stage : Nat

/-- `execute_filter`. -/
def executeFilter (exec : Executor) (filter : FilterNode) (event : Event) : Executed :=
  ⟨exec, some (nblexFilterMatches filter event)⟩

/-- The `where` clause of a show query. -/
def showAccepts (shown : Show) (event : Event) : Bool :=
  match shown.whereFilter with
  | none => true
  | some filter => nblexFilterMatches filter event

/-- `execute_show`. -/
def executeShow (exec : Executor) (shown : Show) (event : Event) : Executed :=
  ⟨exec, some (showAccepts shown event)⟩

/-- One of the two sides of a correlate query takes the event. -/
def eitherSide (corr : Correlate) (event : Event) : Bool :=
  nblexFilterMatches corr.leftFilter event || nblexFilterMatches corr.rightFilter event

/-- `execute_correlate`, from the lookup of its state on. -/
def executeCorrelateStage (exec : Executor) (corr : Correlate) (event : Event)
    (call : StageCall) : Executed :=
  if eitherSide corr event then
    match call.world with
    | none => ⟨exec, some false⟩
    | some world =>
        let found := getCorrState exec corr ⟨call.queryStr, world, call.stage⟩
        match found.2.state with
        | .agg _ => ⟨found.1, none⟩
        | .corr state =>
            let step := executeCorrelate corr state event
            ⟨(found.1.setState found.2.addr (.corr step.1)).emit
              (step.2.map (fun p => .corr world corr p.1 p.2)), some true⟩
  else ⟨exec, some false⟩

/-- `execute_aggregate`, with the two clock readings of `aggregateEvent`. -/
def executeAggregateStage (exec : Executor) (agg : Aggregate) (event : Event)
    (call : StageCall) (now now' : Nat) : Executed :=
  if whereAccepts agg event then
    match call.world with
    | none => ⟨exec, some false⟩
    | some world =>
        let found := getAggState exec agg ⟨call.queryStr, world, call.stage⟩
        match found.2.state with
        | .corr _ => ⟨found.1, none⟩
        | .agg state =>
            match aggregateEvent state event now now' with
            | none => ⟨found.1, none⟩
            | some (state, emitted) =>
                ⟨(found.1.setState found.2.addr (.agg state)).emit
                  (emitted.map (fun bucket => .agg world state bucket)), some true⟩
  else ⟨exec, some false⟩

/-- `execute_query` on a query that is not a pipeline. `clock` gives the readings in the order
    they are taken, two for each stage. -/
def executeStage (exec : Executor) (stage : Stage) (event : Event) (call : StageCall)
    (clock : Nat → Nat) : Executed :=
  match stage with
  | .filter filter => executeFilter exec filter event
  | .correlate corr => executeCorrelateStage exec corr event call
  | .show shown => executeShow exec shown event
  | .aggregate agg =>
      executeAggregateStage exec agg event call (clock (2 * call.stage))
        (clock (2 * call.stage + 1))

/-- `execute_pipeline` from the stage at position `i` on: every stage is given the same event
    and the text of the whole pipeline. -/
def executePipeline (exec : Executor) (event : Event) (queryStr : Option String)
    (world : Option WorldRef) (clock : Nat → Nat) : Nat → List Stage → Executed
  | _, [] => ⟨exec, some true⟩
  | i, stage :: stages =>
      let executed := executeStage exec stage event ⟨queryStr, world, i⟩ clock
      match executed.result with
      | some true => executePipeline executed.exec event queryStr world clock (i + 1) stages
      | _ => executed

/-- `execute_query`. -/
def executeQuery (exec : Executor) (query : NqlQuery) (event : Event)
    (queryStr : Option String) (world : Option WorldRef) (clock : Nat → Nat) : Executed :=
  match query with
  | .single stage => executeStage exec stage event ⟨queryStr, world, 0⟩ clock
  | .pipeline stages => executePipeline exec event queryStr world clock 0 stages

/-- `nql_execute`. -/
def nqlExecute (nqlParse : String → Option NqlQuery) (exec : Executor) (queryStr : String)
    (event : Event) (world : Option WorldRef) (clock : Nat → Nat) : Executed :=
  match nqlParse queryStr with
  | none => ⟨exec, some false⟩
  | some query => executeQuery exec query event (some queryStr) world clock

end Stages

/-! ## Timers -/

/-- A timer of the context whose state is at `addr` fires. -/
def timerTick (exec : Executor) (addr now : Nat) : Executed :=
  match exec.contexts.find? (fun ctx => decide (ctx.addr = addr)) with
  | none => ⟨exec, some true⟩
  | some ctx =>
      match ctx.state with
      | .corr state => ⟨exec.setState addr (.corr (corrCleanupCb state now)), some true⟩
      | .agg state =>
          match windowFlushCb state now with
          | none => ⟨exec, none⟩
          | some (state, emitted) =>
              ⟨(exec.setState addr (.agg state)).emit
                (emitted.map (fun bucket => .agg ctx.world state bucket)), some true⟩

/-! ## Runs -/

/-- One step of the executor: a query executed on an event, or a timer that fires. -/
inductive ExecOp where
  | execute (queryStr : String) (event : Event) (world : Option WorldRef) (clock : Nat → Nat)
  | tick (addr now : Nat)

/-- One step of the executor. -/
def execStep [Pcre2] (nqlParse : String → Option NqlQuery) (exec : Executor) :
    ExecOp → Executed
  | .execute queryStr event world clock => nqlExecute nqlParse exec queryStr event world clock
  | .tick addr now => timerTick exec addr now

/-- A sequence of steps, up to the first one whose behaviour is undefined. -/
def execRunFrom [Pcre2] (nqlParse : String → Option NqlQuery) :
    Executor → List ExecOp → Executed
  | exec, [] => ⟨exec, some true⟩
  | exec, op :: ops =>
      let executed := execStep nqlParse exec op
      match executed.result with
      | none => executed
      | some _ => execRunFrom nqlParse executed.exec ops

/-- A run from the empty list of contexts. -/
def execRun [Pcre2] (nqlParse : String → Option NqlQuery) (ops : List ExecOp) : Executed :=
  execRunFrom nqlParse newExecutor ops

end Nblex
