import Nblex.Core.NqlExecutor.Proofs.OwnState
import Nblex.Misc.Isolation

/-!
# Queries do not interfere

What the executor does for one query text in one world is a machine of its own on the one state
it keeps for them. The contexts of all texts and worlds stand side by side in one list, and
executing one query leaves the states of the others alone.
-/

namespace Nblex

/-! ## The machine of one query in one world -/

/-- What the executor keeps for a text and a world: the world its context was created with and
    the state, if there is a context. -/
def Executor.queryView (text : String) (world : WorldRef) (exec : Executor) :
    Option (WorldRef × ExecState) :=
  (findCtx exec.contexts world (some text)).map (fun ctx => (ctx.world, ctx.state))

/-- What a step of the machine leaves: its state, the results emitted, and the return value. -/
structure QueryStep where
  view : Option (WorldRef × ExecState)
  results : List ExecResult
  result : Option Bool

section Machine

variable [Pcre2]

/-- A correlate stage. -/
def queryCorrelate (view : Option (WorldRef × ExecState)) (world : WorldRef) (corr : Correlate)
    (event : Event) : QueryStep :=
  if eitherSide corr event then
    let owned := view.getD (world, .corr (newCorrState corr))
    match owned.2 with
    | .agg _ => ⟨some owned, [], none⟩
    | .corr state =>
        let step := executeCorrelate corr state event
        ⟨some (owned.1, .corr step.1), step.2.map (fun p => .corr world corr p.1 p.2), some true⟩
  else ⟨view, [], some false⟩

/-- An aggregate stage. -/
def queryAggregate (view : Option (WorldRef × ExecState)) (world : WorldRef) (agg : Aggregate)
    (event : Event) (now now' : Nat) : QueryStep :=
  if whereAccepts agg event then
    let owned := view.getD (world, .agg (newAggState agg))
    match owned.2 with
    | .corr _ => ⟨some owned, [], none⟩
    | .agg state =>
        match aggregateEvent state event now now' with
        | none => ⟨some owned, [], none⟩
        | some (state, emitted) =>
            ⟨some (owned.1, .agg state), emitted.map (fun bucket => .agg world state bucket),
              some true⟩
  else ⟨view, [], some false⟩

/-- One stage. -/
def queryStage (view : Option (WorldRef × ExecState)) (world : WorldRef) (stage : Stage)
    (event : Event) (clock : Nat → Nat) (i : Nat) : QueryStep :=
  match stage with
  | .filter filter => ⟨view, [], some (nblexFilterMatches filter event)⟩
  | .correlate corr => queryCorrelate view world corr event
  | .show shown => ⟨view, [], some (showAccepts shown event)⟩
  | .aggregate agg =>
      queryAggregate view world agg event (clock (2 * i)) (clock (2 * i + 1))

/-- The stages from position `i` on. -/
def queryPipeline (view : Option (WorldRef × ExecState)) (world : WorldRef) (event : Event)
    (clock : Nat → Nat) : Nat → List Stage → QueryStep
  | _, [] => ⟨view, [], some true⟩
  | i, stage :: stages =>
      let first := queryStage view world stage event clock i
      match first.result with
      | some true =>
          let rest := queryPipeline first.view world event clock (i + 1) stages
          ⟨rest.view, first.results ++ rest.results, rest.result⟩
      | _ => first

/-- The timer of the state. -/
def queryTick (view : Option (WorldRef × ExecState)) (now : Nat) : QueryStep :=
  match view with
  | none => ⟨none, [], some true⟩
  | some (world, .corr state) => ⟨some (world, .corr (corrCleanupCb state now)), [], some true⟩
  | some (world, .agg state) =>
      match windowFlushCb state now with
      | none => ⟨view, [], none⟩
      | some (state, emitted) =>
          ⟨some (world, .agg state), emitted.map (fun bucket => .agg world state bucket),
            some true⟩

end Machine

/-! ## The list of contexts -/

/-- Contexts can be told apart by what the lookups compare and by their addresses. -/
structure Executor.Distinct (exec : Executor) : Prop where
  keys : (exec.contexts.map ExecCtx.key).Nodup
  addrs : (exec.contexts.map ExecCtx.addr).Nodup
  fresh : ∀ ctx ∈ exec.contexts, ctx.addr < exec.nextAddr

theorem newExecutor_distinct : newExecutor.Distinct :=
  ⟨List.nodup_nil, List.nodup_nil, nofun⟩

section Contexts

variable {exec : Executor} {text : String} {world : WorldRef} {ctx : ExecCtx}

/-- The context of a text and a world is the one that is found. -/
theorem findCtx_of_mem (distinct : exec.Distinct) (inside : ctx ∈ exec.contexts)
    (key : ctx.key = (some text, world.addr)) :
    findCtx exec.contexts world (some text) = some ctx := by
  cases search : findCtx exec.contexts world (some text) with
  | none =>
      have missing := findCtx_none search
      rw [← key] at missing
      exact absurd (List.mem_map_of_mem inside) missing
  | some other =>
      obtain ⟨otherInside, otherKey⟩ := findCtx_some search
      rw [List.inj_on_of_nodup_map distinct.keys otherInside inside (otherKey.trans key.symm)]

theorem findCtx_cons_of_ne {contexts : List ExecCtx}
    (different : ctx.key ≠ (some text, world.addr)) :
    findCtx (ctx :: contexts) world (some text) = findCtx contexts world (some text) := by
  refine List.find?_cons_of_neg (p := fun ctx : ExecCtx =>
    decide (ctx.queryString = some text ∧ ctx.world.addr = world.addr)) ?_
  rw [decide_eq_true_eq]
  rintro ⟨sameText, sameAddr⟩
  exact different (Prod.ext sameText sameAddr)

/-- A text and a world whose lookups differ from those of another. -/
def Elsewhere (text : String) (world : WorldRef) (text' : String) (world' : WorldRef) : Prop :=
  (some text', world'.addr) ≠ (some text, world.addr)

/-- Writing a state changes what is kept for its text and world, and nothing else. -/
theorem setState_queryView (distinct : exec.Distinct) (inside : ctx ∈ exec.contexts)
    (key : ctx.key = (some text, world.addr)) (state : ExecState) :
    (exec.setState ctx.addr state).queryView text world = some (ctx.world, state) ∧
      ∀ text' world', Elsewhere text world text' world' →
        (exec.setState ctx.addr state).queryView text' world' =
          exec.queryView text' world' := by
  have find : ∀ (text' : String) (world' : WorldRef),
      findCtx (exec.setState ctx.addr state).contexts world' (some text') =
        (findCtx exec.contexts world' (some text')).map
          (fun c => if c.addr = ctx.addr then { c with state := state } else c) := by
    intro text' world'
    show List.find? _ (exec.setState ctx.addr state).contexts = _
    rw [Executor.setState, List.find?_map]
    refine congrArg (Option.map _) (congrArg (fun p => exec.contexts.find? p) (funext ?_))
    intro c
    rw [Function.comp_apply]
    by_cases here : c.addr = ctx.addr
    · rw [if_pos here]
    · rw [if_neg here]
  constructor
  · rw [Executor.queryView, find, findCtx_of_mem distinct inside key, Option.map_some, if_pos rfl]
    rfl
  · intro text' world' different
    rw [Executor.queryView, Executor.queryView, find]
    cases search : findCtx exec.contexts world' (some text') with
    | none => rfl
    | some other =>
        obtain ⟨otherInside, otherKey⟩ := findCtx_some search
        have apart : other.addr ≠ ctx.addr := by
          intro same
          have equal := List.inj_on_of_nodup_map distinct.addrs otherInside inside same
          exact different (otherKey.symm.trans ((congrArg ExecCtx.key equal).trans key))
        rw [Option.map_some, if_neg apart]

theorem Executor.Distinct.setState (distinct : exec.Distinct) (addr : Nat)
    (state : ExecState) : (exec.setState addr state).Distinct := by
  refine ⟨?_, ?_, ?_⟩
  · rw [map_setState addr state ExecCtx.key (fun _ => rfl)]
    exact distinct.keys
  · rw [map_setState addr state ExecCtx.addr (fun _ => rfl)]
    exact distinct.addrs
  · intro other member
    obtain ⟨old, inside, same, -⟩ := mem_setState member
    rw [same]
    exact distinct.fresh old inside

/-- What a lookup leaves. -/
structure Obtained (exec : Executor) (text : String) (world : WorldRef) (newState : ExecState)
    (found : Executor × ExecCtx) : Prop where
  distinct : found.1.Distinct
  inside : found.2 ∈ found.1.contexts
  key : found.2.key = (some text, world.addr)
  owned : (found.2.world, found.2.state) = (exec.queryView text world).getD (world, newState)
  results : found.1.results = exec.results
  others : ∀ text' world', Elsewhere text world text' world' →
    found.1.queryView text' world' = exec.queryView text' world'

theorem getState_obtained (distinct : exec.Distinct) (text : String) (world : WorldRef) (i : Nat)
    (newState : ExecState) :
    Obtained exec text world newState (getState exec ⟨some text, world, i⟩ newState) := by
  unfold getState
  cases search : findCtx exec.contexts world (some text) with
  | some ctx =>
      obtain ⟨inside, key⟩ := findCtx_some search
      refine ⟨⟨distinct.keys, distinct.addrs, distinct.fresh⟩, inside, key, ?_, rfl,
        fun _ _ _ => rfl⟩
      rw [Executor.queryView, search]
      rfl
  | none =>
      refine ⟨⟨?_, ?_, ?_⟩, List.mem_cons_self, rfl, ?_, rfl, ?_⟩
      · exact List.nodup_cons.mpr ⟨findCtx_none search, distinct.keys⟩
      · refine List.nodup_cons.mpr ⟨?_, distinct.addrs⟩
        intro member
        obtain ⟨ctx, inside, same⟩ := List.mem_map.mp member
        have below := distinct.fresh ctx inside
        rw [same] at below
        exact Nat.lt_irrefl _ below
      · intro ctx member
        rcases List.mem_cons.mp member with rfl | member
        · exact Nat.lt_succ_self _
        · exact Nat.lt_succ_of_lt (distinct.fresh ctx member)
      · rw [Executor.queryView, search]
        rfl
      · intro text' world' different
        exact congrArg (Option.map _) (findCtx_cons_of_ne different.symm)

end Contexts

/-! ## The executor runs the machines side by side -/

/-- Executing is a step of the machine of a text and a world. -/
structure Mirrors (exec : Executor) (text : String) (world : WorldRef) (executed : Executed)
    (step : QueryStep) : Prop where
  distinct : executed.exec.Distinct
  view : executed.exec.queryView text world = step.view
  results : executed.exec.results = exec.results ++ step.results
  result : executed.result = step.result
  others : ∀ text' world', Elsewhere text world text' world' →
    executed.exec.queryView text' world' = exec.queryView text' world'

section Steps

variable [Pcre2] {exec : Executor} {text : String} {world : WorldRef}

omit [Pcre2] in
/-- A step that touches nothing. -/
theorem Mirrors.still (distinct : exec.Distinct) (result : Option Bool) :
    Mirrors exec text world ⟨exec, result⟩ ⟨exec.queryView text world, [], result⟩ :=
  ⟨distinct, rfl, (List.append_nil _).symm, rfl, fun _ _ _ => rfl⟩

omit [Pcre2] in
/-- A lookup whose state turns out to be of the other kind. -/
theorem Mirrors.lookup {newState : ExecState} {found : Executor × ExecCtx}
    (obtained : Obtained exec text world newState found) (result : Option Bool) :
    Mirrors exec text world ⟨found.1, result⟩
      ⟨some ((exec.queryView text world).getD (world, newState)), [], result⟩ := by
  refine ⟨obtained.distinct, ?_, ?_, rfl, obtained.others⟩
  · rw [Executor.queryView, findCtx_of_mem obtained.distinct obtained.inside obtained.key,
      ← obtained.owned]
    rfl
  · rw [List.append_nil]
    exact obtained.results

omit [Pcre2] in
/-- A lookup whose state is written and results emitted. -/
theorem Mirrors.write {newState : ExecState} {found : Executor × ExecCtx}
    (obtained : Obtained exec text world newState found) (state : ExecState)
    (results : List ExecResult) (result : Option Bool) :
    Mirrors exec text world ⟨(found.1.setState found.2.addr state).emit results, result⟩
      ⟨some (((exec.queryView text world).getD (world, newState)).1, state), results,
        result⟩ := by
  obtain ⟨view, others⟩ :=
    setState_queryView obtained.distinct obtained.inside obtained.key state
  have kept := obtained.distinct.setState found.2.addr state
  refine ⟨⟨kept.keys, kept.addrs, kept.fresh⟩, ?_, ?_, rfl, ?_⟩
  · rw [← obtained.owned]
    exact view
  · show found.1.results ++ results = _
    rw [obtained.results]
  · intro text' world' different
    exact (others text' world' different).trans (obtained.others text' world' different)

theorem executeCorrelateStage_mirrors (distinct : exec.Distinct) (corr : Correlate)
    (event : Event) (i : Nat) :
    Mirrors exec text world (executeCorrelateStage exec corr event ⟨some text, some world, i⟩)
      (queryCorrelate (exec.queryView text world) world corr event) := by
  unfold executeCorrelateStage queryCorrelate
  by_cases accepted : eitherSide corr event = true
  · rw [if_pos accepted, if_pos accepted]
    have obtained := getState_obtained distinct text world i (.corr (newCorrState corr))
    dsimp only [getCorrState]
    have owned := congrArg Prod.snd obtained.owned
    cases kind : (getState exec ⟨some text, world, i⟩ (.corr (newCorrState corr))).2.state with
    | agg state =>
        rw [kind] at owned
        rw [← owned]
        exact Mirrors.lookup obtained none
    | corr state =>
        rw [kind] at owned
        rw [← owned]
        exact Mirrors.write obtained _ _ _
  · rw [if_neg accepted, if_neg accepted]
    exact Mirrors.still distinct _

theorem executeAggregateStage_mirrors (distinct : exec.Distinct) (agg : Aggregate)
    (event : Event) (i now now' : Nat) :
    Mirrors exec text world
      (executeAggregateStage exec agg event ⟨some text, some world, i⟩ now now')
      (queryAggregate (exec.queryView text world) world agg event now now') := by
  unfold executeAggregateStage queryAggregate
  by_cases accepted : whereAccepts agg event = true
  · rw [if_pos accepted, if_pos accepted]
    have obtained := getState_obtained distinct text world i (.agg (newAggState agg))
    dsimp only [getAggState]
    have owned := congrArg Prod.snd obtained.owned
    cases kind : (getState exec ⟨some text, world, i⟩ (.agg (newAggState agg))).2.state with
    | corr state =>
        rw [kind] at owned
        rw [← owned]
        exact Mirrors.lookup obtained none
    | agg state =>
        rw [kind] at owned
        rw [← owned]
        dsimp only
        cases aggregateEvent state event now now' with
        | none => exact Mirrors.lookup obtained none
        | some outcome => exact Mirrors.write obtained _ _ _
  · rw [if_neg accepted, if_neg accepted]
    exact Mirrors.still distinct _

theorem executeStage_mirrors (text : String) (world : WorldRef) (distinct : exec.Distinct)
    (stage : Stage) (event : Event) (clock : Nat → Nat) (i : Nat) :
    Mirrors exec text world (executeStage exec stage event ⟨some text, some world, i⟩ clock)
      (queryStage (exec.queryView text world) world stage event clock i) := by
  cases stage with
  | filter filter => exact Mirrors.still distinct _
  | «show» shown => exact Mirrors.still distinct _
  | correlate corr => exact executeCorrelateStage_mirrors distinct corr event i
  | aggregate agg => exact executeAggregateStage_mirrors distinct agg event i _ _

theorem executePipeline_mirrors (event : Event) (clock : Nat → Nat) (stages : List Stage) :
    ∀ (i : Nat) {exec : Executor}, exec.Distinct →
      Mirrors exec text world (executePipeline exec event (some text) (some world) clock i stages)
        (queryPipeline (exec.queryView text world) world event clock i stages) := by
  induction stages with
  | nil =>
      intro i exec distinct
      exact Mirrors.still distinct _
  | cons stage stages ih =>
      intro i exec distinct
      have first := executeStage_mirrors text world distinct stage event clock i
      rw [executePipeline, queryPipeline]
      dsimp only
      rw [← first.result]
      cases result : (executeStage exec stage event ⟨some text, some world, i⟩ clock).result with
      | none => exact first
      | some passed =>
          cases passed with
          | false => exact first
          | true =>
              have rest := ih (i + 1) first.distinct
              rw [first.view] at rest
              refine ⟨rest.distinct, rest.view, ?_, rest.result, ?_⟩
              · dsimp only
                rw [rest.results, first.results, List.append_assoc]
              · intro text' world' different
                exact (rest.others text' world' different).trans
                  (first.others text' world' different)

end Steps

/-! ## Runs -/

/-- A query executed on an event in a world, or the timer of the query in the world fires. -/
inductive QueryOp where
  | execute (text : String) (event : Event) (world : WorldRef) (clock : Nat → Nat)
  | tick (text : String) (world : WorldRef) (now : Nat)

def QueryOp.text : QueryOp → String
  | .execute text _ _ _ => text
  | .tick text _ _ => text

def QueryOp.world : QueryOp → WorldRef
  | .execute _ _ world _ => world
  | .tick _ world _ => world

/-- The step of the executor. A timer fires on the state it was started for. -/
def QueryOp.execOp (exec : Executor) : QueryOp → Option ExecOp
  | .execute text event world clock => some (.execute text event (some world) clock)
  | .tick text world now =>
      (findCtx exec.contexts world (some text)).map (fun ctx => .tick ctx.addr now)

section Runs

variable [Pcre2]

/-- The machine of a text and a world on one step. -/
def queryMachine (nqlParse : String → Option NqlQuery) (view : Option (WorldRef × ExecState)) :
    QueryOp → QueryStep
  | .execute text event world clock =>
      match nqlParse text with
      | none => ⟨view, [], some false⟩
      | some query => queryPipeline view world event clock 0 query.stages
  | .tick _ _ now => queryTick view now

variable {nqlParse : String → Option NqlQuery} {exec : Executor}

omit [Pcre2] in
theorem timerTick_mirrors (distinct : exec.Distinct) {text : String} {world : WorldRef}
    {ctx : ExecCtx} (search : findCtx exec.contexts world (some text) = some ctx) (now : Nat) :
    Mirrors exec text world (timerTick exec ctx.addr now)
      (queryTick (exec.queryView text world) now) := by
  obtain ⟨inside, key⟩ := findCtx_some search
  have here : exec.contexts.find? (fun c => decide (c.addr = ctx.addr)) = some ctx := by
    cases found : exec.contexts.find? (fun c => decide (c.addr = ctx.addr)) with
    | none => exact absurd (decide_eq_true rfl) (List.find?_eq_none.mp found ctx inside)
    | some other =>
        have same : other.addr = ctx.addr := of_decide_eq_true
          (List.find?_some (p := fun c : ExecCtx => decide (c.addr = ctx.addr)) found)
        rw [List.inj_on_of_nodup_map distinct.addrs (List.mem_of_find?_eq_some found) inside same]
  have view : exec.queryView text world = some (ctx.world, ctx.state) := by
    rw [Executor.queryView, search]
    rfl
  rw [timerTick, here, view]
  dsimp only
  cases kind : ctx.state with
  | corr state =>
      obtain ⟨after, others⟩ :=
        setState_queryView distinct inside key (.corr (corrCleanupCb state now))
      exact ⟨distinct.setState _ _, after, (List.append_nil _).symm, rfl, others⟩
  | agg state =>
      dsimp only [queryTick]
      rw [kind] at view
      cases windowFlushCb state now with
      | none =>
          rw [← view]
          exact Mirrors.still distinct none
      | some outcome =>
          obtain ⟨after, others⟩ := setState_queryView distinct inside key (.agg outcome.1)
          have kept := distinct.setState ctx.addr (.agg outcome.1)
          exact ⟨⟨kept.keys, kept.addrs, kept.fresh⟩, after, rfl, rfl, others⟩

/-- A step is a step of the machine of its text and world. -/
theorem execStep_mirrors (nqlParse : String → Option NqlQuery) (distinct : exec.Distinct)
    {op : QueryOp} {execOp : ExecOp}
    (here : op.execOp exec = some execOp) :
    Mirrors exec op.text op.world (execStep nqlParse exec execOp)
      (queryMachine nqlParse (exec.queryView op.text op.world) op) := by
  cases op with
  | tick text world now =>
      obtain ⟨ctx, search, rfl⟩ := Option.map_eq_some_iff.mp here
      exact timerTick_mirrors distinct search now
  | execute text event world clock =>
      obtain rfl := Option.some.inj here
      rw [execStep, nqlExecute, queryMachine]
      cases nqlParse text with
      | none => exact Mirrors.still distinct _
      | some query =>
          dsimp only
          rw [executeQuery_stages]
          exact executePipeline_mirrors event clock query.stages 0 distinct

/-- A tick without a context finds nothing and emits nothing. -/
theorem queryMachine_noContext (nqlParse : String → Option NqlQuery) {op : QueryOp}
    (here : op.execOp exec = none) :
    queryMachine nqlParse (exec.queryView op.text op.world) op =
      ⟨exec.queryView op.text op.world, [], some true⟩ := by
  cases op with
  | execute text event world clock => cases here
  | tick text world now =>
      have missing : exec.queryView text world = none := by
        rw [Executor.queryView, Option.map_eq_none_iff.mp here]
        rfl
      show queryTick (exec.queryView text world) now = ⟨exec.queryView text world, [], some true⟩
      rw [missing]
      rfl

end Runs

/-- A query that correlates. -/
def correlateText : String := "correlate type == \"log\" with type == \"network\" within 1 ms"

end Nblex
