import Nblex.Core.NqlExecutor.Divisions
import Nblex.Core.NqlExecutor.Proofs.ExecutorKeeps
import Nblex.Core.NqlExecutor.Proofs.OwnState
import Nblex.Core.NqlExecutor.Proofs.PipelineFlow
import Nblex.Core.NqlExecutor.Proofs.QueryIsolation
import Nblex.Parsers.NqlParser

/-!
# Windows that divide by zero

A duration of zero is accepted by the parser, and so is one whose nanoseconds wrap around to zero.
The state of a text in a world has the window of the first stage of the text that keeps state, so
the executor divides by zero as soon as an event gets through to that stage, and not before: a
flush divides only for buckets that are there.
-/

namespace Nblex

/-- The divisor of the window is zero in 64 bits: a million nanoseconds have six factors of two. -/
def ZeroWindow (window : Window) : Prop :=
  match window.type with
  | .none | .session => False
  | .tumbling => 2 ^ 58 ∣ window.sizeMs
  | .sliding => 2 ^ 58 ∣ if window.slideMs > 0 then window.slideMs else window.sizeMs

section Queries

variable [Pcre2]

/-- The event gets through to the first stage that keeps state, and the window of that stage
    divides by zero. -/
def ReachesZero (event : Event) : List Stage → Prop
  | [] => False
  | stage :: stages =>
      stage.accepts event = true ∧
        match stage with
        | .aggregate agg => ZeroWindow agg.window
        | .correlate _ => False
        | .filter _ | .show _ => ReachesZero event stages

/-- A query executed in a world on an event that gets through in this way. -/
def ExecOp.ReachesZero (nqlParse : String → Option NqlQuery) : ExecOp → Prop
  | .execute queryStr event (some _) _ =>
      ∃ query, nqlParse queryStr = some query ∧ Nblex.ReachesZero event query.stages
  | .execute _ _ none _ => False
  | .tick _ _ => False

end Queries

/-- The state is that of the first stage of the text that keeps state. -/
def FirstOwns (nqlParse : String → Option NqlQuery) (text : String) (state : ExecState) : Prop :=
  ∃ query stage, nqlParse text = some query ∧
    query.stages.find? Stage.isStateful = some stage ∧ stage.Owns state

/-- The divisor of the state is not zero, if it has a window. -/
def ExecState.NonZero : ExecState → Prop
  | .agg state => ¬ZeroWindow state.window
  | .corr _ => True

/-- All contexts belong to texts. -/
def Executor.HasTexts (exec : Executor) : Prop :=
  ∀ ctx ∈ exec.contexts, ctx.queryString.isSome = true

/-- The states that the executor keeps are those of the first stages. -/
structure FirstStates (nqlParse : String → Option NqlQuery) (exec : Executor) : Prop where
  distinct : exec.Distinct
  texts : exec.HasTexts
  views : ∀ text world owner state, exec.queryView text world = some (owner, state) →
    FirstOwns nqlParse text state

section Stages

variable [Pcre2] {nqlParse : String → Option NqlQuery} {text : String} {query : NqlQuery}
  {event : Event}

/-- What is to come of a pipeline: its first stage that keeps state, behind which nothing is divided
    by zero; or that stage has been executed. -/
def Ahead (event : Event) (query : NqlQuery) (stages : List Stage)
    (view : Option (WorldRef × ExecState)) : Prop :=
  (query.stages.find? Stage.isStateful = stages.find? Stage.isStateful ∧
      ¬ReachesZero event stages) ∨
    ∃ owner state, view = some (owner, state) ∧ state.NonZero

omit [Pcre2] in
theorem Stage.Owns.stateful {stage : Stage} {state : ExecState} (owns : stage.Owns state) :
    stage.isStateful = true := by
  cases stage with
  | aggregate agg => rfl
  | correlate corr => rfl
  | filter filter => exact owns.elim
  | «show» shown => exact owns.elim

/-- A stage that the event gets through to, and that does not divide by zero, owns no state that
    would. -/
theorem Stage.Owns.nonZero {stage : Stage} {stages : List Stage} {state : ExecState}
    (owns : stage.Owns state) (accepted : stage.accepts event = true)
    (safe : ¬ReachesZero event (stage :: stages)) : state.NonZero := by
  cases stage with
  | filter filter => exact owns.elim
  | «show» shown => exact owns.elim
  | correlate corr =>
      cases state with
      | agg state => exact owns.elim
      | corr state => exact trivial
  | aggregate agg =>
      cases state with
      | corr state => exact owns.elim
      | agg state =>
          intro zero
          rw [AggState.WellFormed.window owns] at zero
          exact safe ⟨accepted, zero⟩

/-- What a stage that the event gets through to is given: a state of the first stage, whose divisor
    is not zero. -/
theorem Ahead.owned {view : Option (WorldRef × ExecState)} {stage : Stage} {stages : List Stage}
    (ahead : Ahead event query (stage :: stages) view) (parsed : nqlParse text = some query)
    (sound : ∀ owner state, view = some (owner, state) → FirstOwns nqlParse text state)
    (accepted : stage.accepts event = true) (newState : ExecState) (owns : stage.Owns newState)
    (world : WorldRef) :
    FirstOwns nqlParse text (view.getD (world, newState)).2 ∧
      (view.getD (world, newState)).2.NonZero := by
  have here : (stage :: stages).find? Stage.isStateful = some stage :=
    List.find?_cons_of_pos owns.stateful
  cases view with
  | none =>
      rcases ahead with ⟨first, safe⟩ | ⟨owner, state, view, -⟩
      · exact ⟨⟨query, stage, parsed, first.trans here, owns⟩, owns.nonZero accepted safe⟩
      · cases view
  | some kept =>
      obtain ⟨owner, state⟩ := kept
      refine ⟨sound owner state rfl, ?_⟩
      rcases ahead with ⟨first, safe⟩ | ⟨owner', state', view, nonZero⟩
      · obtain ⟨query', stage', parsed', first', owns'⟩ := sound owner state rfl
        obtain rfl := Option.some.inj (parsed'.symm.trans parsed)
        obtain rfl := Option.some.inj (first'.symm.trans (first.trans here))
        exact owns'.nonZero accepted safe
      · cases view
        exact nonZero

variable {exec : Executor}

omit [Pcre2] in
/-- A view is that of an address. -/
theorem queryView_congr {world world' : WorldRef} (same : world'.addr = world.addr) :
    exec.queryView text world' = exec.queryView text world := by
  rw [Executor.queryView, Executor.queryView, findCtx, findCtx, same]

omit [Pcre2] in
/-- A step of one text in one world leaves the states of the others. -/
theorem FirstStates.mirrors (states : FirstStates nqlParse exec) {world : WorldRef}
    {executed : Executed} {step : QueryStep} (mirrors : Mirrors exec text world executed step)
    (texts : executed.exec.HasTexts)
    (views : ∀ owner state, step.view = some (owner, state) → FirstOwns nqlParse text state) :
    FirstStates nqlParse executed.exec := by
  refine ⟨mirrors.distinct, texts, ?_⟩
  intro text' world' owner state view
  by_cases elsewhere : Elsewhere text world text' world'
  · rw [mirrors.others text' world' elsewhere] at view
    exact states.views text' world' owner state view
  · obtain ⟨sameText, sameAddr⟩ := Prod.mk.inj (not_not.mp elsewhere)
    obtain rfl := Option.some.inj sameText
    rw [queryView_congr sameAddr, mirrors.view] at view
    exact views owner state view

omit [Pcre2] in
theorem Executor.HasTexts.setState (texts : exec.HasTexts) (addr : Nat) (state : ExecState) :
    (exec.setState addr state).HasTexts := by
  intro ctx member
  obtain ⟨old, inside, -, key, -⟩ := mem_setState member
  rw [show ctx.queryString = old.queryString from congrArg Prod.fst key]
  exact texts old inside

omit [Pcre2] in
/-- A timer keeps the states of the first stages. -/
theorem FirstOwns.tick {state : ExecState} (owns : FirstOwns nqlParse text state)
    (world : WorldRef) (now : Nat) {owner : WorldRef} {after : ExecState}
    (ticked : (queryTick (some (world, state)) now).view = some (owner, after)) :
    FirstOwns nqlParse text after := by
  obtain ⟨query, stage, parsed, first, owns⟩ := owns
  refine ⟨query, stage, parsed, first, ?_⟩
  cases stage with
  | filter filter => exact owns.elim
  | «show» shown => exact owns.elim
  | correlate corr =>
      cases state with
      | agg state => exact owns.elim
      | corr state =>
          cases ticked
          exact owns
  | aggregate agg =>
      cases state with
      | corr state => exact owns.elim
      | agg state =>
          unfold queryTick at ticked
          dsimp only at ticked
          cases flushed : windowFlushCb state now with
          | none =>
              rw [flushed] at ticked
              cases ticked
              exact owns
          | some outcome =>
              rw [flushed] at ticked
              cases ticked
              exact AggState.WellFormed.flush owns flushed

theorem ReachesZero.first {stages : List Stage} (reaches : ReachesZero event stages) :
    ∃ agg, stages.find? Stage.isStateful = some (.aggregate agg) ∧ ZeroWindow agg.window := by
  induction stages with
  | nil => exact reaches.elim
  | cons stage stages ih =>
      obtain ⟨-, reaches⟩ := reaches
      cases stage with
      | correlate corr => exact reaches.elim
      | filter filter => exact ih reaches
      | «show» shown => exact ih reaches
      | aggregate agg => exact ⟨agg, rfl, reaches⟩

end Stages

/-- An infinite percentile is accepted. -/
example : (@nqlParse literalPcre2 "aggregate percentile(x, inf) window 0ms".toList).isSome =
    true := by decide

end Nblex
