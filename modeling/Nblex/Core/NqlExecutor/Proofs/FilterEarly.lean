import Nblex.Core.NqlExecutor.Proofs.QueryIsolation
import Nblex.Misc.Lockstep

/-!
# Filtering early in a pipeline

A pipeline of filter and show stages in front of an aggregate stage does, event by event and
tick by tick, what the aggregate stage alone does with the filters in its `where` clause.
-/

namespace Nblex

section Stages

variable [Pcre2]

/-- All stages let the event through. -/
def allAccept (stages : List Stage) (event : Event) : Bool :=
  stages.all (fun stage => stage.accepts event)

/-- A stage without a state only passes the event on or stops it. -/
theorem queryStage_stateless (view : Option (WorldRef × ExecState)) (world : WorldRef)
    {stage : Stage} (stateless : stage.isStateful = false) (event : Event) (clock : Nat → Nat)
    (i : Nat) :
    queryStage view world stage event clock i = ⟨view, [], some (stage.accepts event)⟩ := by
  cases stage with
  | filter filter => rfl
  | «show» shown => rfl
  | correlate corr => cases stateless
  | aggregate agg => cases stateless

/-- An aggregate stage at the end of a pipeline. -/
theorem queryPipeline_last (view : Option (WorldRef × ExecState)) (world : WorldRef)
    (agg : Aggregate) (event : Event) (clock : Nat → Nat) (i : Nat) :
    queryPipeline view world event clock i [.aggregate agg] =
      queryAggregate view world agg event (clock (2 * i)) (clock (2 * i + 1)) := by
  rw [queryPipeline]
  dsimp only [queryStage, queryPipeline]
  generalize queryAggregate view world agg event (clock (2 * i)) (clock (2 * i + 1)) = step
  obtain ⟨next, results, result⟩ := step
  rcases result with _ | passed
  · rfl
  · cases passed with
    | true => exact congrArg (fun r => QueryStep.mk next r (some true)) (List.append_nil results)
    | false => rfl

/-- Stages without a state in front of an aggregate stage. -/
theorem queryPipeline_stateless (view : Option (WorldRef × ExecState)) (world : WorldRef)
    (agg : Aggregate) (event : Event) (clock : Nat → Nat) (stages : List Stage) :
    ∀ (i : Nat), (∀ stage ∈ stages, stage.isStateful = false) →
      queryPipeline view world event clock i (stages ++ [.aggregate agg]) =
        if allAccept stages event then
          queryAggregate view world agg event (clock (2 * (i + stages.length)))
            (clock (2 * (i + stages.length) + 1))
        else ⟨view, [], some false⟩ := by
  induction stages with
  | nil =>
      intro i stateless
      exact queryPipeline_last view world agg event clock i
  | cons stage stages ih =>
      intro i stateless
      have here := queryStage_stateless view world (stateless stage List.mem_cons_self) event
        clock i
      have later := ih (i + 1) (fun s member => stateless s (List.mem_cons_of_mem _ member))
      have length : i + 1 + stages.length = i + (stage :: stages).length := by
        rw [List.length_cons]
        omega
      rw [List.cons_append, queryPipeline, here]
      rw [length] at later
      cases accepts : stage.accepts event with
      | true =>
          have all : allAccept (stage :: stages) event = allAccept stages event := by
            simp [allAccept, accepts]
          dsimp only
          rw [later, all]
          rfl
      | false =>
          have none : allAccept (stage :: stages) event = false := by
            simp [allAccept, accepts]
          rw [none]
          rfl

/-- Two aggregate stages that differ in their `where` clause only. -/
structure SameUpToWhere (agg agg' : Aggregate) : Prop where
  window : agg'.window = agg.window
  funcs : agg'.funcs = agg.funcs
  groupByFields : agg'.groupByFields = agg.groupByFields

/-- The stages in front of an aggregate stage may as well stand in its `where` clause. -/
theorem queryAggregate_conjunction {stages : List Stage} {agg agg' : Aggregate}
    (same : SameUpToWhere agg agg')
    (equivalent : ∀ event, whereAccepts agg' event =
      (allAccept stages event && whereAccepts agg event))
    (view : Option (WorldRef × ExecState)) (world : WorldRef) (event : Event) (now now' : Nat) :
    queryAggregate view world agg' event now now' =
      if allAccept stages event then queryAggregate view world agg event now now'
      else ⟨view, [], some false⟩ := by
  have start : newAggState agg' = newAggState agg := by
    rw [newAggState, newAggState, same.window, same.funcs, same.groupByFields]
  rw [queryAggregate, queryAggregate, equivalent, start]
  cases allAccept stages event with
  | true => rw [Bool.true_and, if_pos rfl]
  | false => rw [Bool.false_and, if_neg Bool.false_ne_true, if_neg Bool.false_ne_true]

/-- The filter of a stage without a state. A show stage without one lets everything through. -/
def Stage.filter? : Stage → Option FilterNode
  | .filter f => some f
  | .show shown => shown.whereFilter
  | _ => none

/-- The conjunction of filters, some of which may be missing. -/
def conjunction : List (Option FilterNode) → Option FilterNode
  | [] => none
  | none :: rest => conjunction rest
  | some filter :: rest =>
      match conjunction rest with
      | none => some filter
      | some others => some (.and filter others)

/-- An aggregate stage with the filters of the stages before it in its `where` clause. -/
def Aggregate.conjoin (agg : Aggregate) (stages : List Stage) : Aggregate :=
  { agg with whereFilter := conjunction (stages.map Stage.filter? ++ [agg.whereFilter]) }

/-- A filter that may be missing lets an event through. -/
def mayMatch (filter : Option FilterNode) (event : Event) : Bool :=
  match filter with
  | none => true
  | some filter => nblexFilterMatches filter event

theorem nblexFilterMatches_and (left right : FilterNode) (event : Event) :
    nblexFilterMatches (.and left right) event =
      (nblexFilterMatches left event && nblexFilterMatches right event) := by
  unfold nblexFilterMatches
  cases event.data with
  | none => rfl
  | some data => rfl

theorem mayMatch_conjunction (filters : List (Option FilterNode)) (event : Event) :
    mayMatch (conjunction filters) event = filters.all (mayMatch · event) := by
  induction filters with
  | nil => rfl
  | cons filter filters ih =>
      rw [List.all_cons, ← ih]
      cases filter with
      | none => rfl
      | some filter =>
          rw [conjunction]
          cases conjunction filters with
          | none => exact (Bool.and_true _).symm
          | some others => exact nblexFilterMatches_and filter others event

/-- The conjunction lets through what all of the filters let through. -/
theorem whereAccepts_conjoin {stages : List Stage}
    (stateless : ∀ stage ∈ stages, stage.isStateful = false) (agg : Aggregate) (event : Event) :
    whereAccepts (agg.conjoin stages) event =
      (allAccept stages event && whereAccepts agg event) := by
  have accepts : ∀ stage ∈ stages, mayMatch stage.filter? event = stage.accepts event := by
    intro stage member
    cases stage with
    | filter filter => rfl
    | «show» shown => rfl
    | correlate corr => cases stateless _ member
    | aggregate agg => cases stateless _ member
  show mayMatch (conjunction (stages.map Stage.filter? ++ [agg.whereFilter])) event = _
  rw [mayMatch_conjunction, List.all_append, List.all_map]
  have early : stages.all ((mayMatch · event) ∘ Stage.filter?) = allAccept stages event := by
    rw [allAccept, Bool.eq_iff_iff, List.all_eq_true, List.all_eq_true]
    refine forall₂_congr ?_
    intro stage member
    rw [Function.comp_apply, accepts stage member]
  rw [early, List.all_cons, List.all_nil, Bool.and_true]
  rfl

end Stages

/-! ## Runs -/

/-- What a query is given: an event, with the clock readings an aggregate stage takes, or a tick of
    its timer. -/
inductive QueryInput where
  | event (event : Event) (now now' : Nat)
  | tick (now : Nat)

/-- The operation on a query in a world. -/
def QueryInput.on (text : String) (world : WorldRef) : QueryInput → QueryOp
  | .event e now now' => .execute text e world (fun i => if i % 2 = 0 then now else now')
  | .tick now => .tick text world now

/-- What a step shows: the return value of an execution, and the results emitted. -/
structure Observed where
  returned : Option Bool
  results : List ExecResult

section Runs

variable [Pcre2]

/-- One step of the executor, with what it shows. -/
def observedStep (nqlParse : String → Option NqlQuery) (exec : Executor) (op : QueryOp) :
    Option (Executor × List Observed) :=
  match op.execOp exec with
  | none => some (exec, [⟨some true, []⟩])
  | some execOp =>
      let executed := execStep nqlParse exec execOp
      executed.result.map (fun returned => (executed.exec,
        [⟨some returned, executed.exec.results.drop exec.results.length⟩]))

/-- A run of the executor, with what its steps show. -/
def observedRun (nqlParse : String → Option NqlQuery) (ops : List QueryOp) :
    Option (Executor × List Observed) :=
  Isolation.run (observedStep nqlParse) newExecutor ops

/-- What a step shows is what the machine of its text and world shows. -/
theorem observedStep_eq (nqlParse : String → Option NqlQuery) {exec : Executor}
    (distinct : exec.Distinct) (op : QueryOp) {step : QueryStep}
    (machine : queryMachine nqlParse (exec.queryView op.text op.world) op = step) :
    (observedStep nqlParse exec op = none ∧ step.result = none) ∨
      ∃ next returned, step.result = some returned ∧
        observedStep nqlParse exec op = some (next, [⟨some returned, step.results⟩]) ∧
        next.Distinct ∧ next.queryView op.text op.world = step.view := by
  subst machine
  rw [observedStep]
  cases here : op.execOp exec with
  | none =>
      have still := queryMachine_noContext nqlParse here
      refine Or.inr ⟨exec, true, congrArg QueryStep.result still, ?_, distinct,
        (congrArg QueryStep.view still).symm⟩
      exact congrArg (fun step => some (exec, [Observed.mk (some true) step.results])) still.symm
  | some execOp =>
      have mirrors := execStep_mirrors nqlParse distinct here
      rw [← mirrors.result]
      cases result : (execStep nqlParse exec execOp).result with
      | none =>
          refine Or.inl ⟨?_, rfl⟩
          dsimp only
          rw [result]
          rfl
      | some returned =>
          refine Or.inr ⟨_, returned, rfl, ?_, mirrors.distinct, mirrors.view⟩
          dsimp only
          rw [result, Option.map_some, mirrors.results, List.drop_left]

/-- The two queries are in step: one keeps what the other keeps. -/
structure InStep (early late : String) (world : WorldRef) (exec exec' : Executor) : Prop where
  distinct : exec.Distinct
  distinct' : exec'.Distinct
  view : exec.queryView early world = exec'.queryView late world

/-- The pipeline and the aggregate stage alone, on what they are given. -/
theorem queryMachine_early {nqlParse : String → Option NqlQuery} {stages : List Stage}
    {agg agg' : Aggregate} {early late : String}
    (stateless : ∀ stage ∈ stages, stage.isStateful = false) (same : SameUpToWhere agg agg')
    (equivalent : ∀ event, whereAccepts agg' event =
      (allAccept stages event && whereAccepts agg event))
    (parsed : nqlParse early = some (.pipeline (stages ++ [.aggregate agg])))
    (parsed' : nqlParse late = some (.single (.aggregate agg')))
    (view : Option (WorldRef × ExecState)) (world : WorldRef) (input : QueryInput) :
    queryMachine nqlParse view (input.on early world) =
      queryMachine nqlParse view (input.on late world) := by
  cases input with
  | tick now => rfl
  | event event now now' =>
      have even : ∀ k, 2 * k % 2 = 0 := fun k => by omega
      have odd : ∀ k, ¬(2 * k + 1) % 2 = 0 := fun k => by omega
      rw [QueryInput.on, QueryInput.on, queryMachine, queryMachine, parsed, parsed']
      dsimp only [NqlQuery.stages]
      rw [queryPipeline_stateless view world agg event _ stages 0 stateless, queryPipeline_last,
        queryAggregate_conjunction same equivalent, if_pos (even _), if_neg (odd _),
        if_pos (even _), if_neg (odd _)]

/-- Filters in front of an aggregate stage and the same filters in its `where` clause are
    interchangeable: over every sequence of events and ticks the two queries return the same,
    emit the same and keep the same buckets. -/
theorem filter_early {nqlParse : String → Option NqlQuery} {stages : List Stage}
    {agg agg' : Aggregate} {early late : String}
    (stateless : ∀ stage ∈ stages, stage.isStateful = false) (same : SameUpToWhere agg agg')
    (equivalent : ∀ event, whereAccepts agg' event =
      (allAccept stages event && whereAccepts agg event))
    (parsed : nqlParse early = some (.pipeline (stages ++ [.aggregate agg])))
    (parsed' : nqlParse late = some (.single (.aggregate agg')))
    (world : WorldRef) (inputs : List QueryInput) :
    Isolation.Agree (InStep early late world)
      (observedRun nqlParse (inputs.map (QueryInput.on early world)))
      (observedRun nqlParse (inputs.map (QueryInput.on late world))) := by
  refine Isolation.run_agree _ _ ?_ inputs ⟨newExecutor_distinct, newExecutor_distinct, rfl⟩
  intro exec exec' input inStep
  have textOf : ∀ text, (input.on text world).text = text := by
    intro text
    cases input with
    | event event now now' => rfl
    | tick now => rfl
  have worldOf : ∀ text, (input.on text world).world = world := by
    intro text
    cases input with
    | event event now now' => rfl
    | tick now => rfl
  have left := observedStep_eq nqlParse inStep.distinct (input.on early world) rfl
  have right := observedStep_eq nqlParse inStep.distinct' (input.on late world) rfl
  rw [textOf, worldOf] at left right
  rw [← inStep.view, ← queryMachine_early stateless same equivalent parsed parsed'] at right
  rcases left with ⟨left, undefined⟩ | ⟨next, returned, defined, left, kept, view⟩
  · rcases right with ⟨right, -⟩ | ⟨next', returned, defined, right, -, -⟩
    · rw [left, right]
      exact Option.Rel.none
    · rw [undefined] at defined
      cases defined
  · rcases right with ⟨right, undefined⟩ | ⟨next', returned', defined', right, kept', view'⟩
    · rw [undefined] at defined
      cases defined
    · rw [defined] at defined'
      obtain rfl := Option.some.inj defined'
      rw [left, right]
      exact Option.Rel.some ⟨⟨kept, kept', view.trans view'.symm⟩, rfl⟩

end Runs

/-- `level == "error"`. -/
def errorFilter : FilterNode :=
  .expr { field := "level", op := .eq, value := .string "error", regexCode := none }

/-- The filter in front of the count, and in its `where` clause. -/
def earlyParse (text : String) : Option NqlQuery :=
  if text = "level == \"error\" | aggregate count()" then
    some (.pipeline ([.filter errorFilter] ++ [.aggregate countAggregate]))
  else if text = "aggregate count() where level == \"error\"" then
    some (.single (.aggregate (countAggregate.conjoin [.filter errorFilter])))
  else none

/-- A log event of a level. -/
def leveledEvent (level : String) (timestamp : Nat) : Event where
  type := .log
  timestampNs := timestamp
  input := none
  data := some (.object [("level", .string level)])

/-- A warning, an error and a tick. -/
def earlyInputs : List QueryInput :=
  [.event (leveledEvent "warn" 1) 0 0, .event (leveledEvent "error" 2) 0 0, .tick 3]

theorem filter_early_earlyInputs :
    @Isolation.Agree _ _ _ (InStep "level == \"error\" | aggregate count()"
        "aggregate count() where level == \"error\"" ⟨1, 0⟩)
      (@observedRun literalPcre2 earlyParse (earlyInputs.map
        (QueryInput.on "level == \"error\" | aggregate count()" ⟨1, 0⟩)))
      (@observedRun literalPcre2 earlyParse (earlyInputs.map
        (QueryInput.on "aggregate count() where level == \"error\"" ⟨1, 0⟩))) ∧
    (@observedRun literalPcre2 earlyParse (earlyInputs.map
        (QueryInput.on "level == \"error\" | aggregate count()" ⟨1, 0⟩))).map
      (fun last => last.2.map (fun shown => (shown.returned, shown.results.length))) =
      some [(some false, 0), (some true, 1), (some true, 0)] := by
  let := literalPcre2
  have stateless : ∀ stage ∈ [Stage.filter errorFilter], stage.isStateful = false := by
    intro stage member
    obtain rfl := List.mem_singleton.mp member
    rfl
  constructor
  · have same : SameUpToWhere countAggregate (countAggregate.conjoin [.filter errorFilter]) :=
      ⟨rfl, rfl, rfl⟩
    exact filter_early stateless same (whereAccepts_conjoin stateless countAggregate)
      (by decide +kernel) (by decide +kernel) ⟨1, 0⟩ earlyInputs
  · decide +kernel

end Nblex
