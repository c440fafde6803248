import Nblex.Core.NqlExecutor.Proofs.FilterEarly
import Nblex.Parsers.NqlParser

/-!
# The data flow of a pipeline

By the documentation the right side of a pipe operates on the results of the left. The executor
hands every stage the event the pipeline was executed on, and results leave through the event
handler. The two agree exactly as long as no event gets through a correlate or aggregate stage
that another stage follows.
-/

namespace Nblex

/-- What a stage is executed on: the event the pipeline is executed on, or a result that a stage
    has emitted. -/
inductive StageInput where
  | incoming (event : Event)
  | derived (result : ExecResult)

/-- What happens in a pipeline: a stage is executed, or emits a result. -/
inductive FlowEvent where
  | executed (stage : Nat) (input : StageInput)
  | emitted (stage : Nat) (result : ExecResult)

/-- What a stage has been executed on, in order. -/
def inputsOf (stage : Nat) (flow : List FlowEvent) : List StageInput :=
  flow.filterMap (fun event => match event with
    | .executed i input => if i = stage then some input else none
    | .emitted _ _ => none)

/-- The results a stage has emitted, in order. -/
def resultsOf (stage : Nat) (flow : List FlowEvent) : List ExecResult :=
  flow.filterMap (fun event => match event with
    | .executed _ _ => none
    | .emitted i result => if i = stage then some result else none)

/-- The event of a result. Its time is left out, which filters do not read. -/
def ExecResult.event : ExecResult → Event
  | .agg _ state bucket => createAggResultEvent state bucket 0
  | .corr _ query left right => createCorrResultEvent query left right 0

/-- The event a stage is executed on. -/
def StageInput.event : StageInput → Event
  | .incoming e => e
  | .derived result => result.event

section Flow

variable [Pcre2]

/-- The documented data flow: the stage after a correlate or aggregate stage is executed on each
    result of that stage and on nothing else, and the stage after a filter or show stage on what
    that stage lets through. -/
def Documented (stages : List Stage) (flow : List FlowEvent) : Prop :=
  ∀ i stage, stages[i]? = some stage → i + 1 < stages.length →
    inputsOf (i + 1) flow =
      if stage.isStateful then (resultsOf i flow).map .derived
      else (inputsOf i flow).filter (fun input => stage.accepts input.event)

/-- What happens when `execute_pipeline` runs the stages from position `i` on. -/
def pipelineFlow (exec : Executor) (event : Event) (queryStr : Option String)
    (world : Option WorldRef) (clock : Nat → Nat) : Nat → List Stage → List FlowEvent
  | _, [] => []
  | i, stage :: stages =>
      let executed := executeStage exec stage event ⟨queryStr, world, i⟩ clock
      .executed i (.incoming event) ::
        (executed.exec.results.drop exec.results.length).map (.emitted i) ++
        match executed.result with
        | some true => pipelineFlow executed.exec event queryStr world clock (i + 1) stages
        | _ => []

/-- What the timer of a context emits counts as emitted by the stage it was created for. -/
def tickFlow (exec : Executor) (ctx : ExecCtx) (now : Nat) : List FlowEvent :=
  ((timerTick exec ctx.addr now).exec.results.drop exec.results.length).map
    (.emitted ctx.creator.stage)

/-- A pipeline in a world on a list of events and ticks, up to the first step whose behaviour is
    undefined. -/
def flowRun (text : String) (world : WorldRef) (stages : List Stage) :
    Executor → List QueryInput → Executed × List FlowEvent
  | exec, [] => (⟨exec, some true⟩, [])
  | exec, .event e now now' :: inputs =>
      let clock := fun i => if i % 2 = 0 then now else now'
      let executed := executePipeline exec e (some text) (some world) clock 0 stages
      let flow := pipelineFlow exec e (some text) (some world) clock 0 stages
      match executed.result with
      | none => (executed, flow)
      | some _ =>
          let rest := flowRun text world stages executed.exec inputs
          (rest.1, flow ++ rest.2)
  | exec, .tick now :: inputs =>
      match findCtx exec.contexts world (some text) with
      | none => flowRun text world stages exec inputs
      | some ctx =>
          let executed := timerTick exec ctx.addr now
          let flow := tickFlow exec ctx now
          match executed.result with
          | none => (executed, flow)
          | some _ =>
              let rest := flowRun text world stages executed.exec inputs
              (rest.1, flow ++ rest.2)

/-- The event gets through all filters up to a correlate or aggregate stage and through that
    stage, and another stage follows. -/
def leaks (event : Event) : List Stage → Bool
  | [] => false
  | stage :: stages =>
      stage.accepts event && if stage.isStateful then !stages.isEmpty else leaks event stages

end Flow

/-! ## Lists of what happens -/

section Lists

variable (stage : Nat) (first second : List FlowEvent)

theorem inputsOf_append :
    inputsOf stage (first ++ second) = inputsOf stage first ++ inputsOf stage second :=
  List.filterMap_append

theorem resultsOf_append :
    resultsOf stage (first ++ second) = resultsOf stage first ++ resultsOf stage second :=
  List.filterMap_append

theorem inputsOf_emitted (i : Nat) (results : List ExecResult) :
    inputsOf stage (results.map (.emitted i)) = [] := by
  rw [inputsOf, List.filterMap_map]
  exact List.filterMap_eq_nil_iff.mpr (fun _ _ => rfl)

theorem resultsOf_emitted (i : Nat) (results : List ExecResult) :
    resultsOf stage (results.map (.emitted i)) = if i = stage then results else [] := by
  rw [resultsOf, List.filterMap_map]
  by_cases same : i = stage
  · rw [if_pos same]
    exact (List.filterMap_congr (fun _ _ => if_pos same)).trans List.filterMap_some
  · rw [if_neg same]
    exact List.filterMap_eq_nil_iff.mpr (fun _ _ => if_neg same)

/-- What a stage is executed on in a turn of the pipeline and after it. -/
theorem inputsOf_turn (i : Nat) (input : StageInput) (results : List ExecResult)
    (tail : List FlowEvent) :
    inputsOf stage (.executed i input :: results.map (.emitted i) ++ tail) =
      (if i = stage then [input] else []) ++ inputsOf stage tail := by
  rw [List.cons_append, ← List.singleton_append, inputsOf_append, inputsOf_append,
    inputsOf_emitted, List.nil_append]
  refine congrArg (· ++ _) ?_
  by_cases same : i = stage
  · simp [inputsOf, same]
  · simp [inputsOf, same]

/-- What a stage emits in a turn of the pipeline and after it. -/
theorem resultsOf_turn (i : Nat) (input : StageInput) (results : List ExecResult)
    (tail : List FlowEvent) :
    resultsOf stage (.executed i input :: results.map (.emitted i) ++ tail) =
      (if i = stage then results else []) ++ resultsOf stage tail := by
  rw [List.cons_append, ← List.singleton_append, resultsOf_append, resultsOf_append,
    resultsOf_emitted]
  rfl

/-- Nothing happens in the stages before a position. -/
def From (i : Nat) (flow : List FlowEvent) : Prop :=
  ∀ j, j < i → inputsOf j flow = [] ∧ resultsOf j flow = []

end Lists

section Stages

variable [Pcre2] {exec : Executor} {text : String} {world : WorldRef}

/-- Where its behaviour is defined, a stage passes on the events its filters let through. -/
theorem executeStage_result (exec : Executor) (text : String) (world : WorldRef) (stage : Stage)
    (event : Event) (clock : Nat → Nat) (i : Nat) :
    (executeStage exec stage event ⟨some text, some world, i⟩ clock).result = none ∨
      (executeStage exec stage event ⟨some text, some world, i⟩ clock).result =
        some (stage.accepts event) := by
  cases stage with
  | filter filter => exact Or.inr rfl
  | «show» shown => exact Or.inr rfl
  | correlate corr =>
      show (executeCorrelateStage exec corr event _).result = none ∨
        (executeCorrelateStage exec corr event _).result = some (eitherSide corr event)
      unfold executeCorrelateStage
      cases accepts : eitherSide corr event with
      | false => exact Or.inr rfl
      | true =>
          rw [if_pos rfl]
          dsimp only
          cases (getCorrState exec corr ⟨some text, world, i⟩).2.state with
          | agg state => exact Or.inl rfl
          | corr state => exact Or.inr rfl
  | aggregate agg =>
      show (executeAggregateStage exec agg event _ _ _).result = none ∨
        (executeAggregateStage exec agg event _ _ _).result = some (whereAccepts agg event)
      unfold executeAggregateStage
      cases accepts : whereAccepts agg event with
      | false => exact Or.inr rfl
      | true =>
          rw [if_pos rfl]
          dsimp only
          cases (getAggState exec agg ⟨some text, world, i⟩).2.state with
          | corr state => exact Or.inl rfl
          | agg state =>
              dsimp only
              cases aggregateEvent state event _ _ with
              | none => exact Or.inl rfl
              | some outcome => exact Or.inr rfl

/-- A stage that is not stateful, or does not let the event through, leaves everything as it
    is. -/
theorem executeStage_still {stage : Stage} {event : Event}
    (still : stage.isStateful = false ∨ stage.accepts event = false) (call : StageCall)
    (clock : Nat → Nat) :
    executeStage exec stage event call clock = ⟨exec, some (stage.accepts event)⟩ := by
  cases stage with
  | filter filter => rfl
  | «show» shown => rfl
  | correlate corr =>
      have rejects : eitherSide corr event = false := by
        rcases still with stateless | rejects
        · cases stateless
        · exact rejects
      show executeCorrelateStage exec corr event call = ⟨exec, some (eitherSide corr event)⟩
      rw [executeCorrelateStage, rejects, if_neg Bool.false_ne_true]
  | aggregate agg =>
      have rejects : whereAccepts agg event = false := by
        rcases still with stateless | rejects
        · cases stateless
        · exact rejects
      show executeAggregateStage exec agg event call _ _ = ⟨exec, some (whereAccepts agg event)⟩
      rw [executeAggregateStage, rejects, if_neg Bool.false_ne_true]

omit [Pcre2] in
theorem getState_creator {request : StageRequest} {newState : ExecState} {ctx : ExecCtx}
    (member : ctx ∈ (getState exec request newState).1.contexts) :
    ctx ∈ exec.contexts ∨ ctx.creator = request := by
  unfold getState at member
  cases search : findCtx exec.contexts request.world request.queryStr with
  | some found =>
      rw [search] at member
      exact Or.inl member
  | none =>
      rw [search] at member
      rcases List.mem_cons.mp member with rfl | old
      · exact Or.inr rfl
      · exact Or.inl old

/-- A context is an old one, or was created for the stage. -/
theorem executeStage_creator {stage : Stage} {event : Event} {clock : Nat → Nat} {i : Nat}
    {ctx : ExecCtx} (member : ctx ∈
      (executeStage exec stage event ⟨some text, some world, i⟩ clock).exec.contexts) :
    (∃ old ∈ exec.contexts, ctx.creator = old.creator) ∨ ctx.creator.stage = i := by
  have looked : ∀ (newState : ExecState) (found : ExecCtx),
      found ∈ (getState exec ⟨some text, world, i⟩ newState).1.contexts →
      (∃ old ∈ exec.contexts, found.creator = old.creator) ∨ found.creator.stage = i := by
    intro newState found inside
    rcases getState_creator inside with old | new
    · exact Or.inl ⟨found, old, rfl⟩
    · exact Or.inr (by rw [new])
  have written : ∀ (newState : ExecState) (addr : Nat) (state : ExecState) (found : ExecCtx),
      found ∈ ((getState exec ⟨some text, world, i⟩ newState).1.setState addr state).contexts →
      (∃ old ∈ exec.contexts, found.creator = old.creator) ∨ found.creator.stage = i := by
    intro newState addr state found inside
    obtain ⟨old, oldInside, -, -, creator, -⟩ := mem_setState inside
    rw [creator]
    exact looked newState old oldInside
  cases stage with
  | filter filter => exact Or.inl ⟨ctx, member, rfl⟩
  | «show» shown => exact Or.inl ⟨ctx, member, rfl⟩
  | correlate corr =>
      have inside : ctx ∈ (executeCorrelateStage exec corr event
        ⟨some text, some world, i⟩).exec.contexts := member
      unfold executeCorrelateStage at inside
      by_cases accepts : eitherSide corr event = true
      · rw [if_pos accepts] at inside
        dsimp only [getCorrState] at inside
        cases kind : (getState exec ⟨some text, world, i⟩
            (.corr (newCorrState corr))).2.state with
        | agg state =>
            rw [kind] at inside
            exact looked _ ctx inside
        | corr state =>
            rw [kind] at inside
            exact written _ _ _ ctx inside
      · rw [if_neg accepts] at inside
        exact Or.inl ⟨ctx, inside, rfl⟩
  | aggregate agg =>
      have inside : ctx ∈ (executeAggregateStage exec agg event
        ⟨some text, some world, i⟩ (clock (2 * i)) (clock (2 * i + 1))).exec.contexts := member
      unfold executeAggregateStage at inside
      by_cases accepts : whereAccepts agg event = true
      · rw [if_pos accepts] at inside
        dsimp only [getAggState] at inside
        cases kind : (getState exec ⟨some text, world, i⟩ (.agg (newAggState agg))).2.state with
        | corr state =>
            rw [kind] at inside
            exact looked _ ctx inside
        | agg state =>
            rw [kind] at inside
            dsimp only at inside
            cases step : aggregateEvent state event (clock (2 * i)) (clock (2 * i + 1)) with
            | none =>
                rw [step] at inside
                exact looked _ ctx inside
            | some outcome =>
                rw [step] at inside
                exact written _ _ _ ctx inside
      · rw [if_neg accepts] at inside
        exact Or.inl ⟨ctx, inside, rfl⟩

/-! ## One event -/

/-- The documented data flow of the stages from position `i` on. -/
def DocumentedFrom (i : Nat) (stages : List Stage) (flow : List FlowEvent) : Prop :=
  ∀ j stage, stages[j]? = some stage → j + 1 < stages.length →
    inputsOf (i + j + 1) flow =
      if stage.isStateful then (resultsOf (i + j) flow).map .derived
      else (inputsOf (i + j) flow).filter (fun input => stage.accepts input.event)

theorem documentedFrom_zero {stages : List Stage} {flow : List FlowEvent} :
    DocumentedFrom 0 stages flow ↔ Documented stages flow := by
  unfold DocumentedFrom Documented
  simp only [Nat.zero_add]

/-- What the stages from position `i` on do with an event. -/
structure PipelineTurn (i : Nat) (event : Event) (stages : List Stage) (flow : List FlowEvent) :
    Prop where
  before : From i flow
  first : inputsOf i flow = if stages = [] then [] else [.incoming event]
  documented : DocumentedFrom i stages flow

theorem PipelineTurn.none (i : Nat) (event : Event) : PipelineTurn i event [] [] :=
  ⟨fun _ _ => ⟨rfl, rfl⟩, rfl, nofun⟩

/-- A stage in front of what the stages after it do. -/
theorem PipelineTurn.cons {i : Nat} {event : Event} {stage : Stage} {stages : List Stage}
    {results : List ExecResult} {tail : List FlowEvent} (before : From (i + 1) tail)
    (documented : DocumentedFrom (i + 1) stages tail)
    (link : stages ≠ [] → inputsOf (i + 1) tail =
      if stage.isStateful then results.map .derived
      else [StageInput.incoming event].filter (fun input => stage.accepts input.event)) :
    PipelineTurn i event (stage :: stages)
      (.executed i (.incoming event) :: results.map (.emitted i) ++ tail) := by
  refine ⟨?_, ?_, ?_⟩
  · intro j below
    have apart : ¬i = j := by omega
    rw [inputsOf_turn, resultsOf_turn, if_neg apart, if_neg apart]
    exact before j (by omega)
  · rw [inputsOf_turn, if_pos rfl, (before i (Nat.lt_succ_self i)).1]
    rfl
  · intro j here inside more
    cases j with
    | zero =>
        obtain rfl : stage = here := Option.some.inj inside
        have follows : stages ≠ [] := by
          rintro rfl
          simp at more
        have apart : ¬i = i + 1 := by omega
        simp only [Nat.add_zero]
        rw [inputsOf_turn, inputsOf_turn, resultsOf_turn, if_neg apart,
          List.nil_append, if_pos rfl, if_pos rfl, (before i (Nat.lt_succ_self i)).1,
          (before i (Nat.lt_succ_self i)).2, List.append_nil, List.append_nil]
        exact link follows
    | succ j =>
        have later := documented j here inside (by simpa using more)
        have apart : ¬i = i + (j + 1) + 1 := by omega
        have apart' : ¬i = i + (j + 1) := by omega
        have shift : i + (j + 1) = i + 1 + j := by omega
        rw [inputsOf_turn, inputsOf_turn, resultsOf_turn, if_neg apart, if_neg apart',
          if_neg apart', List.nil_append, List.nil_append, List.nil_append, shift]
        exact later

/-- An event that does not leak flows through the stages as documented. -/
theorem pipelineFlow_turn (text : String) (world : WorldRef) (event : Event)
    (clock : Nat → Nat) (stages : List Stage) :
    ∀ (i : Nat) (exec : Executor), leaks event stages = false →
      PipelineTurn i event stages
        (pipelineFlow exec event (some text) (some world) clock i stages) := by
  induction stages with
  | nil =>
      intro i exec tight
      exact PipelineTurn.none i event
  | cons stage stages ih =>
      intro i exec tight
      rw [pipelineFlow]
      rw [leaks] at tight
      generalize tailIs : (match (executeStage exec stage event ⟨some text, some world, i⟩
          clock).result with
        | some true => pipelineFlow (executeStage exec stage event ⟨some text, some world, i⟩
            clock).exec event (some text) (some world) clock (i + 1) stages
        | _ => []) = tail
      cases accepts : stage.accepts event with
      | false =>
          -- The event goes no further, and nothing is emitted.
          rw [executeStage_still (Or.inr accepts), accepts] at tailIs
          rw [executeStage_still (Or.inr accepts)]
          subst tailIs
          refine PipelineTurn.cons (fun _ _ => ⟨rfl, rfl⟩) ?_ ?_
          · intro j here inside more
            cases here.isStateful with
            | true => rfl
            | false => rfl
          · intro follows
            rw [List.drop_length]
            cases stage.isStateful with
            | true => rfl
            | false => simp [StageInput.event, accepts, inputsOf]
      | true =>
          rw [accepts, Bool.true_and] at tight
          cases stateful : stage.isStateful with
          | false =>
              rw [stateful] at tight
              rw [executeStage_still (Or.inl stateful), accepts] at tailIs
              rw [executeStage_still (Or.inl stateful)]
              obtain ⟨before, first, documented⟩ := ih (i + 1) exec tight
              subst tailIs
              refine PipelineTurn.cons before documented ?_
              intro follows
              rw [first, if_neg follows, stateful, if_neg Bool.false_ne_true]
              simp [StageInput.event, accepts]
          | true =>
              -- A stateful stage that lets the event through is the last one.
              rw [stateful] at tight
              have last : stages = [] := by simpa using tight
              subst last
              have nothing : tail = [] := by
                rw [← tailIs]
                split
                · rfl
                · rfl
              subst nothing
              exact PipelineTurn.cons (fun _ _ => ⟨rfl, rfl⟩) nofun
                (fun follows => absurd rfl follows)

/-- A context is an old one, or was created for the last stage. -/
theorem executePipeline_creator (event : Event) (clock : Nat → Nat) (stages : List Stage) :
    ∀ (i : Nat) (exec : Executor), leaks event stages = false →
      ∀ ctx ∈ (executePipeline exec event (some text) (some world) clock i stages).exec.contexts,
        (∃ old ∈ exec.contexts, ctx.creator = old.creator) ∨
          i + stages.length = ctx.creator.stage + 1 := by
  induction stages with
  | nil =>
      intro i exec tight ctx member
      exact Or.inl ⟨ctx, member, rfl⟩
  | cons stage stages ih =>
      intro i exec tight ctx member
      rw [executePipeline] at member
      rw [leaks] at tight
      by_cases still : stage.isStateful = false ∨ stage.accepts event = false
      · rw [executeStage_still still] at member
        cases accepts : stage.accepts event with
        | false =>
            rw [accepts] at member
            exact Or.inl ⟨ctx, member, rfl⟩
        | true =>
            rw [accepts] at member still tight
            have stateless : stage.isStateful = false := by simpa using still
            rw [stateless] at tight
            rcases ih (i + 1) exec tight ctx member with old | last
            · exact Or.inl old
            · refine Or.inr ?_
              rw [List.length_cons]
              omega
      · rw [not_or, Bool.not_eq_false, Bool.not_eq_false] at still
        rw [still.1, still.2] at tight
        have last : stages = [] := by simpa using tight
        subst last
        have inside : ctx ∈ (executeStage exec stage event ⟨some text, some world, i⟩
            clock).exec.contexts := by
          split at member
          · exact member
          · exact member
        rcases executeStage_creator inside with old | here
        · exact Or.inl old
        · exact Or.inr (by rw [List.length_singleton, here])

/-! ## Runs -/

/-- Flows one after the other. -/
theorem DocumentedFrom.append {i : Nat} {stages : List Stage}
    {first second : List FlowEvent} (firstDocumented : DocumentedFrom i stages first)
    (secondDocumented : DocumentedFrom i stages second) :
    DocumentedFrom i stages (first ++ second) := by
  intro j stage inside more
  have left := firstDocumented j stage inside more
  have right := secondDocumented j stage inside more
  rw [inputsOf_append, inputsOf_append, resultsOf_append, left, right]
  cases stage.isStateful with
  | true => exact (List.map_append).symm
  | false => exact (List.filter_append _ _).symm

/-- All contexts were created for the last stage. -/
def LastOnly (stages : List Stage) (exec : Executor) : Prop :=
  ∀ ctx ∈ exec.contexts, stages.length ≤ ctx.creator.stage + 1

/-- What the timer of the last stage emits is no stage's input. -/
theorem tickFlow_documented (exec : Executor) {stages : List Stage} {ctx : ExecCtx}
    (last : stages.length ≤ ctx.creator.stage + 1) (now : Nat) :
    DocumentedFrom 0 stages (tickFlow exec ctx now) := by
  intro j stage inside more
  have apart : ¬ctx.creator.stage = 0 + j := by omega
  rw [tickFlow, inputsOf_emitted, inputsOf_emitted, resultsOf_emitted, if_neg apart]
  cases stage.isStateful with
  | true => rfl
  | false => rfl

omit [Pcre2] in
theorem timerTick_creator {addr now : Nat} {ctx : ExecCtx}
    (member : ctx ∈ (timerTick exec addr now).exec.contexts) :
    ∃ old ∈ exec.contexts, ctx.creator = old.creator := by
  have written : ∀ (state : ExecState) (found : ExecCtx),
      found ∈ (exec.setState addr state).contexts →
      ∃ old ∈ exec.contexts, found.creator = old.creator := by
    intro state found inside
    obtain ⟨old, oldInside, -, -, creator, -⟩ := mem_setState inside
    exact ⟨old, oldInside, creator⟩
  unfold timerTick at member
  split at member
  · exact ⟨ctx, member, rfl⟩
  · split at member
    · exact written _ ctx member
    · split at member
      · exact ⟨ctx, member, rfl⟩
      · exact written _ ctx member

/-- The events a pipeline is given. -/
def QueryInput.events (inputs : List QueryInput) : List Event :=
  inputs.filterMap (fun input => match input with
    | .event e _ _ => some e
    | .tick _ => none)

/-- Without an event that leaks, everything flows as documented. -/
theorem flowRun_documented {stages : List Stage} (inputs : List QueryInput) :
    ∀ {exec : Executor}, LastOnly stages exec →
      (∀ event ∈ QueryInput.events inputs, leaks event stages = false) →
      Documented stages (flowRun text world stages exec inputs).2 := by
  intro exec last tight
  rw [← documentedFrom_zero]
  have empty : DocumentedFrom 0 stages [] := by
    intro j stage inside more
    cases stage.isStateful with
    | true => rfl
    | false => rfl
  induction inputs generalizing exec with
  | nil => exact empty
  | cons input inputs ih =>
      cases input with
      | event event now now' =>
          have tightHere : leaks event stages = false := tight event List.mem_cons_self
          have tightLater : ∀ e ∈ QueryInput.events inputs, leaks e stages = false :=
            fun e member => tight e (List.mem_cons_of_mem _ member)
          rw [flowRun]
          have turn := (pipelineFlow_turn text world event
            (fun i => if i % 2 = 0 then now else now') stages 0 exec tightHere).documented
          split
          · exact turn
          · refine turn.append (ih ?_ tightLater)
            intro ctx member
            rcases executePipeline_creator event _ stages 0 exec tightHere ctx member with
              ⟨old, inside, same⟩ | here
            · rw [same]
              exact last old inside
            · omega
      | tick now =>
          have tightLater : ∀ e ∈ QueryInput.events inputs, leaks e stages = false := tight
          rw [flowRun]
          cases search : findCtx exec.contexts world (some text) with
          | none => exact ih last tightLater
          | some ctx =>
              dsimp only
              have turn := tickFlow_documented exec (last ctx (findCtx_some search).1) now
              split
              · exact turn
              · refine turn.append (ih ?_ tightLater)
                intro other member
                obtain ⟨old, inside, same⟩ := timerTick_creator member
                rw [same]
                exact last old inside

/-- An event that leaks is handed to the stage after a stateful one. -/
theorem pipelineFlow_leak (text : String) (world : WorldRef) (event : Event)
    (clock : Nat → Nat) (stages : List Stage) :
    ∀ (i : Nat) (exec : Executor), leaks event stages = true →
      (executePipeline exec event (some text) (some world) clock i stages).result ≠ none →
      ∃ k stage, stages[k]? = some stage ∧ stage.isStateful = true ∧ k + 1 < stages.length ∧
        .incoming event ∈ inputsOf (i + k + 1)
          (pipelineFlow exec event (some text) (some world) clock i stages) := by
  induction stages with
  | nil =>
      intro i exec leak defined
      cases leak
  | cons stage stages ih =>
      intro i exec leak defined
      rw [leaks, Bool.and_eq_true] at leak
      obtain ⟨accepts, leak⟩ := leak
      rw [executePipeline] at defined
      rw [pipelineFlow]
      rcases executeStage_result exec text world stage event clock i with undefined | passed
      · rw [undefined] at defined
        exact absurd undefined defined
      · rw [passed, accepts] at defined ⊢
        dsimp only at defined ⊢
        cases stateful : stage.isStateful with
        | true =>
            rw [stateful, if_pos rfl] at leak
            cases stages with
            | nil => cases leak
            | cons next stages =>
                refine ⟨0, stage, rfl, stateful, by simp, ?_⟩
                have apart : ¬i = i + 0 + 1 := by omega
                rw [inputsOf_turn, if_neg apart, pipelineFlow, inputsOf_turn, if_pos rfl]
                exact List.mem_append_right _ (List.mem_append_left _ List.mem_cons_self)
        | false =>
            rw [stateful, if_neg Bool.false_ne_true] at leak
            obtain ⟨k, later, inside, laterStateful, more, member⟩ := ih (i + 1) _ leak defined
            refine ⟨k + 1, later, inside, laterStateful, by simpa using more, ?_⟩
            have apart : ¬i = i + (k + 1) + 1 := by omega
            have shift : i + (k + 1) + 1 = i + 1 + k + 1 := by omega
            rw [inputsOf_turn, if_neg apart, shift]
            exact List.mem_append_right _ member

/-- In a run that is defined to its end, an event that leaks is against the documentation. -/
theorem flowRun_leak {stages : List Stage} (inputs : List QueryInput) :
    ∀ {exec : Executor}, (flowRun text world stages exec inputs).1.result ≠ none →
      ∀ event ∈ QueryInput.events inputs, leaks event stages = true →
        ∃ k stage, stages[k]? = some stage ∧ stage.isStateful = true ∧ k + 1 < stages.length ∧
          .incoming event ∈ inputsOf (k + 1) (flowRun text world stages exec inputs).2 := by
  induction inputs with
  | nil =>
      intro exec defined event member leak
      cases member
  | cons input inputs ih =>
      intro exec defined event member leak
      cases input with
      | event first now now' =>
          rw [flowRun] at defined ⊢
          cases result : (executePipeline exec first (some text) (some world)
              (fun i => if i % 2 = 0 then now else now') 0 stages).result with
          | none =>
              rw [result] at defined
              exact absurd result defined
          | some passed =>
              rw [result] at defined
              dsimp only at defined ⊢
              rcases List.mem_cons.mp member with rfl | later
              · have handed := pipelineFlow_leak text world event
                  (fun i => if i % 2 = 0 then now else now') stages 0 exec leak
                  (by rw [result]; exact Option.some_ne_none passed)
                obtain ⟨k, stage, inside, stateful, more, member⟩ := handed
                refine ⟨k, stage, inside, stateful, more, ?_⟩
                rw [Nat.zero_add] at member
                rw [inputsOf_append]
                exact List.mem_append_left _ member
              · obtain ⟨k, stage, inside, stateful, more, member⟩ := ih defined event later leak
                refine ⟨k, stage, inside, stateful, more, ?_⟩
                rw [inputsOf_append]
                exact List.mem_append_right _ member
      | tick now =>
          have later : event ∈ QueryInput.events inputs := member
          rw [flowRun] at defined ⊢
          cases search : findCtx exec.contexts world (some text) with
          | none =>
              rw [search] at defined
              exact ih defined event later leak
          | some ctx =>
              rw [search] at defined
              dsimp only at defined ⊢
              cases result : (timerTick exec ctx.addr now).result with
              | none =>
                  rw [result] at defined
                  exact absurd result defined
              | some passed =>
                  rw [result] at defined
                  dsimp only at defined ⊢
                  obtain ⟨k, stage, inside, stateful, more, member⟩ := ih defined event later leak
                  refine ⟨k, stage, inside, stateful, more, ?_⟩
                  rw [inputsOf_append]
                  exact List.mem_append_right _ member

/-- The runs are runs of `nql_execute` and of the timers. -/
theorem flowRun_execRun {nqlParse : String → Option NqlQuery} {stages : List Stage}
    (parsed : nqlParse text = some (.pipeline stages)) (inputs : List QueryInput) :
    ∀ (exec : Executor), ∃ execOps,
      execRunFrom nqlParse exec execOps = (flowRun text world stages exec inputs).1 := by
  induction inputs with
  | nil => exact fun exec => ⟨[], rfl⟩
  | cons input inputs ih =>
      intro exec
      have extend : ∀ (op : ExecOp) (executed : Executed), execStep nqlParse exec op = executed →
          ∃ execOps, execRunFrom nqlParse exec execOps =
            match executed.result with
            | none => executed
            | some _ => (flowRun text world stages executed.exec inputs).1 := by
        intro op executed stepped
        obtain ⟨execOps, later⟩ := ih executed.exec
        refine ⟨op :: execOps, ?_⟩
        rw [execRunFrom, stepped]
        cases executed.result with
        | none => rfl
        | some passed => exact later
      cases input with
      | event event now now' =>
          have stepped : execStep nqlParse exec (.execute text event (some world)
              (fun i => if i % 2 = 0 then now else now')) =
              executePipeline exec event (some text) (some world)
                (fun i => if i % 2 = 0 then now else now') 0 stages := by
            rw [execStep, nqlExecute, parsed]
            rfl
          obtain ⟨execOps, ran⟩ := extend _ _ stepped
          refine ⟨execOps, ?_⟩
          rw [ran, flowRun]
          cases (executePipeline exec event (some text) (some world)
            (fun i => if i % 2 = 0 then now else now') 0 stages).result with
          | none => rfl
          | some passed => rfl
      | tick now =>
          rw [flowRun]
          cases findCtx exec.contexts world (some text) with
          | none => exact ih exec
          | some ctx =>
              have stepped : execStep nqlParse exec (.tick ctx.addr now) =
                  timerTick exec ctx.addr now := rfl
              obtain ⟨execOps, ran⟩ := extend _ _ stepped
              refine ⟨execOps, ?_⟩
              rw [ran]
              dsimp only
              cases (timerTick exec ctx.addr now).result with
              | none => rfl
              | some passed => rfl

/-- A pipeline flows as documented in every run in which no event gets through a correlate or
    aggregate stage that another stage follows, and in a run that is defined to its end, only
    then. -/
theorem documented_iff (text : String) (world : WorldRef) (stages : List Stage)
    (inputs : List QueryInput) :
    ((∀ event ∈ QueryInput.events inputs, leaks event stages = false) →
      Documented stages (flowRun text world stages newExecutor inputs).2) ∧
    ((flowRun text world stages newExecutor inputs).1.result ≠ none →
      Documented stages (flowRun text world stages newExecutor inputs).2 →
      ∀ event ∈ QueryInput.events inputs, leaks event stages = false) := by
  constructor
  · exact flowRun_documented inputs nofun
  · intro defined documented event member
    by_contra leak
    rw [Bool.not_eq_false] at leak
    obtain ⟨k, stage, inside, stateful, more, handed⟩ :=
      flowRun_leak inputs defined event member leak
    rw [documented k stage inside more, if_pos stateful] at handed
    obtain ⟨result, -, same⟩ := List.mem_map.mp handed
    cases same

end Stages

/-- What `nql_parse` makes of `type == "log" | aggregate count()`. -/
def filterThenCount : List Stage :=
  [.filter (.expr ⟨"type", .eq, .string "log", none⟩), .aggregate countAggregate]

def filterThenCountText : String := "type == \"log\" | aggregate count()"

/-- An event that the filter does not let through. -/
def otherEvent : Event where
  type := .log
  timestampNs := 5000000
  input := none
  data := some (.object [("type", .string "error")])

/-- Two events that the filter lets through, and another one between them. -/
def filteredInputs : List QueryInput :=
  [.event loggedEvent 0 0, .event otherEvent 0 0, .event loggedEvent 0 0, .tick 7000000]

theorem documented_filterThenCount :
    @nqlParse literalPcre2 filterThenCountText.toList = some (.pipeline filterThenCount) ∧
      let flow := (@flowRun literalPcre2 filterThenCountText ⟨1, 0⟩ filterThenCount newExecutor
        filteredInputs).2
      @Documented literalPcre2 filterThenCount flow ∧
        (inputsOf 0 flow).length = 3 ∧ (inputsOf 1 flow).length = 2 ∧
        (resultsOf 1 flow).length = 2 := by
  let := literalPcre2
  refine ⟨by decide, ?_, by decide +kernel, by decide +kernel, by decide +kernel⟩
  refine (documented_iff filterThenCountText ⟨1, 0⟩ filterThenCount filteredInputs).1 ?_
  simp only [filteredInputs, QueryInput.events, List.filterMap_cons, List.filterMap_nil,
    List.forall_mem_cons]
  decide

/-- `correlate type == "log" with type == "network" within 1 ms | aggregate count()`. -/
def correlateThenCount : List Stage := [.correlate logNetworkQuery, .aggregate countAggregate]

/-- A log event alone correlates with nothing, and still the aggregate stage is executed on
    it. -/
theorem correlateThenCount_counts_events :
    ¬@Documented literalPcre2 correlateThenCount
      (@flowRun literalPcre2 correlateAggregateText ⟨1, 0⟩ correlateThenCount newExecutor
        [.event loggedEvent 0 0]).2 := by
  let := literalPcre2
  intro documented
  have handed : inputsOf 1 (flowRun correlateAggregateText ⟨1, 0⟩ correlateThenCount newExecutor
      [.event loggedEvent 0 0]).2 = (resultsOf 0 (flowRun correlateAggregateText ⟨1, 0⟩
        correlateThenCount newExecutor [.event loggedEvent 0 0]).2).map .derived :=
    documented 0 _ rfl (by decide)
  have executed : (inputsOf 1 (flowRun correlateAggregateText ⟨1, 0⟩ correlateThenCount
      newExecutor [.event loggedEvent 0 0]).2).length = 1 := by
    decide +kernel
  have emitted : (resultsOf 0 (flowRun correlateAggregateText ⟨1, 0⟩ correlateThenCount
      newExecutor [.event loggedEvent 0 0]).2).length = 0 := by
    decide +kernel
  have same := congrArg List.length handed
  rw [List.length_map, emitted, executed] at same
  cases same

end Nblex
