import Nblex.Core.NqlExecutor.Proofs.OwnState

/-!
# What the executor keeps

Executing a query and firing a timer change the executor in three ways: a state is looked up or
created, a state is written, and results are emitted. A property that these three keep is kept by
every query and every timer.
-/

namespace Nblex

/-- A state before its first event. -/
def ExecState.IsEmpty : ExecState → Prop
  | .agg state => state.buckets = []
  | .corr state => state.leftEvents = [] ∧ state.rightEvents = []

section Executor

variable {P : Executor → Prop}

/-- A property of the executor that a timer keeps if writing a state and emitting keep it. -/
theorem timerTick_keeps (write : ∀ exec addr state, P exec → P (exec.setState addr state))
    (emit : ∀ exec results, P exec → P (exec.emit results)) {exec : Executor} (holds : P exec)
    (addr now : Nat) : P (timerTick exec addr now).exec := by
  unfold timerTick
  cases exec.contexts.find? (fun ctx => decide (ctx.addr = addr)) with
  | none => exact holds
  | some ctx =>
      dsimp only
      cases ctx.state with
      | corr state => exact write _ _ _ holds
      | agg state =>
          dsimp only
          cases windowFlushCb state now with
          | none => exact holds
          | some outcome => exact emit _ _ (write _ _ _ holds)

variable [Pcre2] {text : String} {world : Option WorldRef}

/-- A property of the executor that a stage keeps if a lookup in its world, writing a state and
    emitting keep it. -/
theorem executeStage_keeps
    (lookup : ∀ exec w stage newState, world = some w → newState.IsEmpty → P exec →
      P (getState exec ⟨some text, w, stage⟩ newState).1)
    (write : ∀ exec addr state, P exec → P (exec.setState addr state))
    (emit : ∀ exec results, P exec → P (exec.emit results)) {exec : Executor} (holds : P exec)
    (stage : Stage) (event : Event) (i : Nat) (clock : Nat → Nat) :
    P (executeStage exec stage event ⟨some text, world, i⟩ clock).exec := by
  cases stage with
  | filter f => exact holds
  | «show» shown => exact holds
  | correlate corr =>
      simp only [executeStage, executeCorrelateStage]
      split
      · cases world with
        | none => exact holds
        | some w =>
            have found := lookup exec w i (.corr (newCorrState corr)) rfl ⟨rfl, rfl⟩ holds
            dsimp only [getCorrState]
            cases (getState exec ⟨some text, w, i⟩ (.corr (newCorrState corr))).2.state with
            | agg state => exact found
            | corr state => exact emit _ _ (write _ _ _ found)
      · exact holds
  | aggregate agg =>
      simp only [executeStage, executeAggregateStage]
      split
      · cases world with
        | none => exact holds
        | some w =>
            have found := lookup exec w i (.agg (newAggState agg)) rfl rfl holds
            dsimp only [getAggState]
            cases (getState exec ⟨some text, w, i⟩ (.agg (newAggState agg))).2.state with
            | corr state => exact found
            | agg state =>
                dsimp only
                cases aggregateEvent state event (clock (2 * i)) (clock (2 * i + 1)) with
                | none => exact found
                | some outcome => exact emit _ _ (write _ _ _ found)
      · exact holds

theorem nqlExecute_keeps
    (lookup : ∀ exec w stage newState, world = some w → newState.IsEmpty → P exec →
      P (getState exec ⟨some text, w, stage⟩ newState).1)
    (write : ∀ exec addr state, P exec → P (exec.setState addr state))
    (emit : ∀ exec results, P exec → P (exec.emit results)) {exec : Executor} (holds : P exec)
    (nqlParse : String → Option NqlQuery) (event : Event) (clock : Nat → Nat) :
    P (nqlExecute nqlParse exec text event world clock).exec := by
  have pipeline : ∀ (stages : List Stage) (i : Nat) (exec : Executor), P exec →
      P (executePipeline exec event (some text) world clock i stages).exec := by
    intro stages
    induction stages with
    | nil => exact fun _ _ holds => holds
    | cons stage stages ih =>
        intro i exec holds
        have here := executeStage_keeps lookup write emit holds stage event i clock
        rw [executePipeline]
        cases (executeStage exec stage event ⟨some text, world, i⟩ clock).result with
        | none => exact here
        | some passed =>
            cases passed with
            | true => exact ih (i + 1) _ here
            | false => exact here
  unfold nqlExecute
  cases nqlParse text with
  | none => exact holds
  | some query =>
      dsimp only
      rw [executeQuery_stages]
      exact pipeline query.stages 0 exec holds

end Executor

end Nblex
