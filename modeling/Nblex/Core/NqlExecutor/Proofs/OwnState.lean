import Nblex.Core.NqlExecutor.Execute
import Nblex.Core.NqlExecutor.Proofs.WellFormed
import Nblex.Core.NqlExecutor.Proofs.CorrelatePairs

/-!
# Whose state a stage obtains

The lookups of the executor compare the text of the whole query and the address of the world, so
two stages of a pipeline, and two worlds at one address, share a state. A run in which no two
requests agree in these and differ in anything else gives every stage the state that was created
for it, and only such a run does.
-/

namespace Nblex

/-- A state of the kind and with the configuration of a stage. -/
def Stage.Owns : Stage → ExecState → Prop
  | .aggregate agg, .agg state => state.WellFormed agg
  | .correlate corr, .corr state => state.withinMs = corr.withinMs % 2 ^ 32
  | _, _ => False

/-- What the lookups compare of a request. -/
def StageRequest.key (request : StageRequest) : Option String × Nat :=
  (request.queryStr, request.world.addr)

/-- What the lookups compare of a context. -/
def ExecCtx.key (ctx : ExecCtx) : Option String × Nat := (ctx.queryString, ctx.world.addr)

/-- No two different requests look the same to the lookups. -/
def Unambiguous (requests : List StageRequest) : Prop :=
  ∀ r ∈ requests, ∀ r' ∈ requests, r.key = r'.key → r = r'

instance (requests : List StageRequest) : Decidable (Unambiguous requests) :=
  inferInstanceAs (Decidable (∀ r ∈ requests, ∀ r' ∈ requests, r.key = r'.key → r = r'))

section Ownership

variable (nqlParse : String → Option NqlQuery)

/-- A state that fits the stage a request is made for. -/
def StateFor (request : StageRequest) (state : ExecState) : Prop :=
  ∃ text query stage, request.queryStr = some text ∧ nqlParse text = some query ∧
    query.stages[request.stage]? = some stage ∧ stage.Owns state

/-- A lookup that gave the stage the state created for it. -/
structure Lookup.Own (lookup : Lookup) : Prop where
  creator : lookup.ctx.creator = lookup.request
  state : StateFor nqlParse lookup.request lookup.ctx.state

/-- The invariant of the executor. -/
structure ExecInv (exec : Executor) : Prop where
  keys : (exec.contexts.map ExecCtx.key).Nodup
  addrs : (exec.contexts.map ExecCtx.addr).Nodup
  fresh : ∀ ctx ∈ exec.contexts, ctx.addr < exec.nextAddr
  creatorKey : ∀ ctx ∈ exec.contexts, ctx.key = ctx.creator.key
  creatorAsked : ∀ ctx ∈ exec.contexts, ctx.creator ∈ exec.lookups.map Lookup.request
  state : ∀ ctx ∈ exec.contexts, StateFor nqlParse ctx.creator ctx.state
  lookups : ∀ lookup ∈ exec.lookups, StateFor nqlParse lookup.ctx.creator lookup.ctx.state ∧
    ∃ ctx ∈ exec.contexts, ctx.key = lookup.request.key ∧ ctx.creator = lookup.ctx.creator

end Ownership

section Invariant

variable {nqlParse : String → Option NqlQuery} {exec : Executor}

theorem newExecutor_inv : ExecInv nqlParse newExecutor := by
  constructor
  · exact List.nodup_nil
  · exact List.nodup_nil
  all_goals
    intro x member
    cases member

/-- The states obtained are the own ones exactly when the requests made are unambiguous. -/
theorem ExecInv.own_iff (inv : ExecInv nqlParse exec) :
    (∀ lookup ∈ exec.lookups, lookup.Own nqlParse) ↔
      Unambiguous (exec.lookups.map Lookup.request) := by
  constructor
  · intro own r member r' member' same
    obtain ⟨lookup, asked, rfl⟩ := List.mem_map.mp member
    obtain ⟨lookup', asked', rfl⟩ := List.mem_map.mp member'
    obtain ⟨-, ctx, inside, key, creator⟩ := inv.lookups lookup asked
    obtain ⟨-, ctx', inside', key', creator'⟩ := inv.lookups lookup' asked'
    have shared : ctx = ctx' :=
      List.inj_on_of_nodup_map inv.keys inside inside' (key.trans (same.trans key'.symm))
    rw [← (own lookup asked).creator, ← (own lookup' asked').creator, ← creator, ← creator', shared]
  · intro unambiguous lookup asked
    obtain ⟨state, ctx, inside, key, creator⟩ := inv.lookups lookup asked
    have same : lookup.ctx.creator = lookup.request := by
      rw [← creator]
      refine unambiguous _ (inv.creatorAsked ctx inside) _ (List.mem_map_of_mem (f := _) asked) ?_
      rw [← inv.creatorKey ctx inside, key]
    exact ⟨same, same ▸ state⟩

theorem ExecInv.emit (inv : ExecInv nqlParse exec) (results : List ExecResult) :
    ExecInv nqlParse (exec.emit results) :=
  ⟨inv.keys, inv.addrs, inv.fresh, inv.creatorKey, inv.creatorAsked, inv.state, inv.lookups⟩

/-- A context of another address is left as it is; the one at the address keeps all but its
    state. -/
theorem mem_setState {addr : Nat} {state : ExecState} {ctx : ExecCtx}
    (member : ctx ∈ (exec.setState addr state).contexts) :
    ∃ old ∈ exec.contexts, ctx.addr = old.addr ∧ ctx.key = old.key ∧
      ctx.creator = old.creator ∧
      (ctx.state = old.state ∨ (old.addr = addr ∧ ctx.state = state)) := by
  obtain ⟨old, inside, rfl⟩ := List.mem_map.mp member
  refine ⟨old, inside, ?_⟩
  by_cases here : old.addr = addr
  · rw [if_pos here]
    exact ⟨rfl, rfl, rfl, Or.inr ⟨here, rfl⟩⟩
  · rw [if_neg here]
    exact ⟨rfl, rfl, rfl, Or.inl rfl⟩

theorem map_setState {β : Type*} (addr : Nat) (state : ExecState) (f : ExecCtx → β)
    (same : ∀ ctx : ExecCtx, f { ctx with state := state } = f ctx) :
    (exec.setState addr state).contexts.map f = exec.contexts.map f := by
  rw [Executor.setState, List.map_map]
  refine List.map_congr_left ?_
  intro ctx _
  rw [Function.comp_apply]
  split
  · exact same ctx
  · rfl

/-- Writing a state that fits the creator of its context. -/
theorem ExecInv.setState (inv : ExecInv nqlParse exec) {ctx : ExecCtx}
    (inside : ctx ∈ exec.contexts) {state : ExecState}
    (fits : StateFor nqlParse ctx.creator state) :
    ExecInv nqlParse (exec.setState ctx.addr state) := by
  constructor
  · rw [map_setState ctx.addr state ExecCtx.key (fun _ => rfl)]
    exact inv.keys
  · rw [map_setState ctx.addr state ExecCtx.addr (fun _ => rfl)]
    exact inv.addrs
  · intro other member
    obtain ⟨old, oldInside, addr, -, -, -⟩ := mem_setState member
    rw [addr]
    exact inv.fresh old oldInside
  · intro other member
    obtain ⟨old, oldInside, -, key, creator, -⟩ := mem_setState member
    rw [key, creator]
    exact inv.creatorKey old oldInside
  · intro other member
    obtain ⟨old, oldInside, -, -, creator, -⟩ := mem_setState member
    rw [creator]
    exact inv.creatorAsked old oldInside
  · intro other member
    obtain ⟨old, oldInside, -, -, creator, kept | ⟨addr, written⟩⟩ := mem_setState member
    · rw [creator, kept]
      exact inv.state old oldInside
    · have same : old = ctx := List.inj_on_of_nodup_map inv.addrs oldInside inside addr
      rw [creator, written, same]
      exact fits
  · intro lookup asked
    obtain ⟨state', ctx', inside', key, creator⟩ := inv.lookups lookup asked
    refine ⟨state', _, List.mem_map_of_mem (f := _) inside', ?_, ?_⟩
    · rw [← key]
      split
      · rfl
      · rfl
    · rw [← creator]
      split
      · rfl
      · rfl

theorem findCtx_some {contexts : List ExecCtx} {world : WorldRef} {text : String}
    {ctx : ExecCtx} (found : findCtx contexts world (some text) = some ctx) :
    ctx ∈ contexts ∧ ctx.key = (some text, world.addr) := by
  have passes := List.find?_some found
  rw [decide_eq_true_eq] at passes
  exact ⟨List.mem_of_find?_eq_some found, Prod.ext passes.1 passes.2⟩

theorem findCtx_none {contexts : List ExecCtx} {world : WorldRef} {text : String}
    (missing : findCtx contexts world (some text) = none) :
    (some text, world.addr) ∉ contexts.map ExecCtx.key := by
  intro member
  obtain ⟨ctx, inside, key⟩ := List.mem_map.mp member
  have fails := List.find?_eq_none.mp missing ctx inside
  apply fails
  rw [decide_eq_true_eq]
  exact ⟨congrArg Prod.fst key, congrArg Prod.snd key⟩

/-- A lookup adds itself to the lookups made and ends in a context of the list. -/
theorem ExecInv.getState (inv : ExecInv nqlParse exec) {request : StageRequest}
    {newState : ExecState} (fits : StateFor nqlParse request newState) :
    ExecInv nqlParse (getState exec request newState).1 ∧
      (getState exec request newState).2 ∈ (getState exec request newState).1.contexts ∧
      (getState exec request newState).1.lookups =
        exec.lookups ++ [⟨request, (getState exec request newState).2⟩] := by
  obtain ⟨text, query, stage, isText, parsed, here, owns⟩ := fits
  have key : request.key = (some text, request.world.addr) := by
    rw [StageRequest.key, isText]
  unfold Nblex.getState
  rw [isText]
  cases search : findCtx exec.contexts request.world (some text) with
  | some ctx =>
      obtain ⟨inside, ctxKey⟩ := findCtx_some search
      refine ⟨⟨inv.keys, inv.addrs, inv.fresh, inv.creatorKey, ?_, inv.state, ?_⟩, inside, rfl⟩
      · intro other member
        rw [List.map_append]
        exact List.mem_append_left _ (inv.creatorAsked other member)
      · intro lookup asked
        rcases List.mem_append.mp asked with before | last
        · exact inv.lookups lookup before
        · obtain rfl := List.mem_singleton.mp last
          exact ⟨inv.state ctx inside, ctx, inside, ctxKey.trans key.symm, rfl⟩
  | none =>
      have newKey := findCtx_none search
      refine ⟨⟨?_, ?_, ?_, ?_, ?_, ?_, ?_⟩, List.mem_cons_self, rfl⟩
      · exact List.nodup_cons.mpr ⟨newKey, inv.keys⟩
      · refine List.nodup_cons.mpr ⟨?_, inv.addrs⟩
        intro member
        obtain ⟨ctx, inside, same⟩ := List.mem_map.mp member
        have below := inv.fresh ctx inside
        rw [same] at below
        exact lt_irrefl _ below
      · intro ctx member
        rcases List.mem_cons.mp member with rfl | member
        · exact Nat.lt_succ_self _
        · exact Nat.lt_succ_of_lt (inv.fresh ctx member)
      · intro ctx member
        rcases List.mem_cons.mp member with rfl | member
        · exact key.symm
        · exact inv.creatorKey ctx member
      · intro ctx member
        rw [List.map_append]
        rcases List.mem_cons.mp member with rfl | member
        · exact List.mem_append_right _ List.mem_cons_self
        · exact List.mem_append_left _ (inv.creatorAsked ctx member)
      · intro ctx member
        rcases List.mem_cons.mp member with rfl | member
        · exact ⟨text, query, stage, isText, parsed, here, owns⟩
        · exact inv.state ctx member
      · intro lookup asked
        rcases List.mem_append.mp asked with before | last
        · obtain ⟨state, ctx, inside, same⟩ := inv.lookups lookup before
          exact ⟨state, ctx, List.mem_cons_of_mem _ inside, same⟩
        · obtain rfl := List.mem_singleton.mp last
          exact ⟨⟨text, query, stage, isText, parsed, here, owns⟩, _, List.mem_cons_self,
            key.symm, rfl⟩

end Invariant

/-! ## The requests of a run -/

section Requests

variable [Pcre2]

/-- The filters of a stage let the event through. -/
def Stage.accepts (stage : Stage) (event : Event) : Bool :=
  match stage with
  | .filter f => nblexFilterMatches f event
  | .correlate corr => eitherSide corr event
  | .show shown => showAccepts shown event
  | .aggregate agg => whereAccepts agg event

/-- The request a stage makes on an event that reaches it. -/
def stageRequests (queryStr : Option String) (world : Option WorldRef) (event : Event) (i : Nat)
    (stage : Stage) : List StageRequest :=
  match world with
  | none => []
  | some world =>
      if stage.isStateful && stage.accepts event then [⟨queryStr, world, i⟩] else []

/-- The requests the stages from position `i` on make on an event: it reaches a stage when the
    filters of all stages before it let it through. -/
def pipelineRequests (queryStr : Option String) (world : Option WorldRef) (event : Event) :
    Nat → List Stage → List StageRequest
  | _, [] => []
  | i, stage :: stages =>
      stageRequests queryStr world event i stage ++
        if stage.accepts event then pipelineRequests queryStr world event (i + 1) stages else []

/-- The requests of a step. -/
def ExecOp.requests (nqlParse : String → Option NqlQuery) : ExecOp → List StageRequest
  | .execute queryStr event world _ =>
      match nqlParse queryStr with
      | none => []
      | some query => pipelineRequests (some queryStr) world event 0 query.stages
  | .tick _ _ => []

/-- The requests of a run, as far as its behaviour is defined. -/
def execRequests (nqlParse : String → Option NqlQuery) (ops : List ExecOp) : List StageRequest :=
  ops.flatMap (ExecOp.requests nqlParse)

end Requests

section Steps

variable [Pcre2] {nqlParse : String → Option NqlQuery} {exec : Executor}

omit [Pcre2] in
theorem StateFor.agg {request : StageRequest} {state state' : AggState}
    (fits : StateFor nqlParse request (.agg state))
    (keeps : ∀ query, state.WellFormed query → state'.WellFormed query) :
    StateFor nqlParse request (.agg state') := by
  obtain ⟨text, query, stage, isText, parsed, here, owns⟩ := fits
  cases stage with
  | aggregate agg => exact ⟨text, query, _, isText, parsed, here, keeps agg owns⟩
  | filter filter => exact owns.elim
  | correlate corr => exact owns.elim
  | «show» shown => exact owns.elim

omit [Pcre2] in
theorem StateFor.corr {request : StageRequest} {state state' : CorrState}
    (fits : StateFor nqlParse request (.corr state)) (same : state'.withinMs = state.withinMs) :
    StateFor nqlParse request (.corr state') := by
  obtain ⟨text, query, stage, isText, parsed, here, owns⟩ := fits
  cases stage with
  | correlate corr => exact ⟨text, query, _, isText, parsed, here, same.trans owns⟩
  | filter filter => exact owns.elim
  | aggregate agg => exact owns.elim
  | «show» shown => exact owns.elim

/-- What executing a stage leaves: the invariant, its requests after those made before, and,
    where the return value is defined and there is a world, whether the event passes. -/
structure Served (nqlParse : String → Option NqlQuery) (exec : Executor) (event : Event)
    (call : StageCall) (stage : Stage) (executed : Executed) : Prop where
  inv : ExecInv nqlParse executed.exec
  made : executed.exec.lookups.map Lookup.request = exec.lookups.map Lookup.request ++
    stageRequests call.queryStr call.world event call.stage stage
  passes : ∀ result, executed.result = some result →
    result = stage.accepts event ∨ call.world = none

theorem stageRequests_stateless {stage : Stage} (stateless : stage.isStateful = false)
    (queryStr : Option String) (world : Option WorldRef) (event : Event) (i : Nat) :
    stageRequests queryStr world event i stage = [] := by
  cases world with
  | none => rfl
  | some world => rw [stageRequests, stateless, Bool.false_and, if_neg Bool.false_ne_true]

theorem stageRequests_rejected {stage : Stage} {event : Event}
    (rejected : stage.accepts event = false) (queryStr : Option String)
    (world : Option WorldRef) (i : Nat) : stageRequests queryStr world event i stage = [] := by
  cases world with
  | none => rfl
  | some world => rw [stageRequests, rejected, Bool.and_false, if_neg Bool.false_ne_true]

/-- A stage without a state leaves the executor as it is. -/
theorem Served.stateless (inv : ExecInv nqlParse exec) {event : Event} {call : StageCall}
    {stage : Stage} (stateless : stage.isStateful = false) :
    Served nqlParse exec event call stage ⟨exec, some (stage.accepts event)⟩ := by
  refine ⟨inv, ?_, fun result returned => Or.inl (Option.some.inj returned).symm⟩
  rw [stageRequests_stateless stateless, List.append_nil]

/-- So does one whose filters reject the event. -/
theorem Served.rejected (inv : ExecInv nqlParse exec) {event : Event} {call : StageCall}
    (stage : Stage) (rejected : stage.accepts event = false) :
    Served nqlParse exec event call stage ⟨exec, some false⟩ := by
  refine ⟨inv, ?_, fun result returned => Or.inl ?_⟩
  · rw [stageRequests_rejected rejected, List.append_nil]
  · rw [rejected]
    exact (Option.some.inj returned).symm

/-- Without a world there is no state. -/
theorem Served.worldless (inv : ExecInv nqlParse exec) {event : Event}
    {queryStr : Option String} {i : Nat} {stage : Stage} (result : Option Bool) :
    Served nqlParse exec event ⟨queryStr, none, i⟩ stage ⟨exec, result⟩ :=
  ⟨inv, (List.append_nil _).symm, fun _ _ => Or.inr rfl⟩

/-- A stateful stage that the event passes makes one lookup, and returns one where it returns at
    all. -/
theorem Served.lookup (inv : ExecInv nqlParse exec) {event : Event} {queryStr : Option String}
    {world : WorldRef} {i : Nat} (stage : Stage) (stateful : stage.isStateful = true)
    (accepted : stage.accepts event = true) {newState : ExecState}
    (fits : StateFor nqlParse ⟨queryStr, world, i⟩ newState) {executed : Executed}
    (after : ∀ found, getState exec ⟨queryStr, world, i⟩ newState = found →
      ExecInv nqlParse found.1 → found.2 ∈ found.1.contexts →
      ExecInv nqlParse executed.exec ∧ executed.exec.lookups = found.1.lookups ∧
        ∀ result, executed.result = some result → result = true) :
    Served nqlParse exec event ⟨queryStr, some world, i⟩ stage executed := by
  obtain ⟨inv', inside, made⟩ := inv.getState fits
  obtain ⟨last, lookups, returns⟩ := after _ rfl inv' inside
  refine ⟨last, ?_, fun result returned => Or.inl ?_⟩
  · rw [lookups, made, List.map_append, stageRequests, stateful, accepted]
    rfl
  · rw [accepted]
    exact returns result returned

/-- Executing a correlate stage. -/
theorem executeCorrelateStage_served (inv : ExecInv nqlParse exec) {text : String}
    {query : NqlQuery} {i : Nat} {corr : Correlate} (parsed : nqlParse text = some query)
    (here : query.stages[i]? = some (.correlate corr)) (event : Event)
    (world : Option WorldRef) :
    Served nqlParse exec event ⟨some text, world, i⟩ (.correlate corr)
      (executeCorrelateStage exec corr event ⟨some text, world, i⟩) := by
  unfold executeCorrelateStage
  by_cases accepted : eitherSide corr event = true
  · rw [if_pos accepted]
    cases world with
    | none => exact Served.worldless inv _
    | some world =>
        have fits : StateFor nqlParse ⟨some text, world, i⟩ (.corr (newCorrState corr)) :=
          ⟨text, query, _, rfl, parsed, here, rfl⟩
        apply Served.lookup inv (.correlate corr) rfl accepted fits
        intro found lookup inv' inside
        dsimp only [getCorrState]
        rw [lookup]
        have owned := inv'.state found.2 inside
        cases kind : found.2.state with
        | agg state => exact ⟨inv', rfl, fun result returned => by cases returned⟩
        | corr state =>
            rw [kind] at owned
            have kept := owned.corr (executeCorrelate_withinMs corr state event)
            refine ⟨(inv'.setState inside kept).emit _, rfl, fun result returned => ?_⟩
            exact (Option.some.inj returned).symm
  · rw [if_neg accepted]
    exact Served.rejected inv (.correlate corr) (Bool.eq_false_iff.mpr accepted)

/-- Executing an aggregate stage. -/
theorem executeAggregateStage_served (inv : ExecInv nqlParse exec) {text : String}
    {query : NqlQuery} {i : Nat} {agg : Aggregate} (parsed : nqlParse text = some query)
    (here : query.stages[i]? = some (.aggregate agg)) (event : Event)
    (world : Option WorldRef) (now now' : Nat) :
    Served nqlParse exec event ⟨some text, world, i⟩ (.aggregate agg)
      (executeAggregateStage exec agg event ⟨some text, world, i⟩ now now') := by
  unfold executeAggregateStage
  by_cases accepted : whereAccepts agg event = true
  · rw [if_pos accepted]
    cases world with
    | none => exact Served.worldless inv _
    | some world =>
        have fits : StateFor nqlParse ⟨some text, world, i⟩ (.agg (newAggState agg)) :=
          ⟨text, query, _, rfl, parsed, here, newAggState_wellFormed agg⟩
        apply Served.lookup inv (.aggregate agg) rfl accepted fits
        intro found lookup inv' inside
        dsimp only [getAggState]
        rw [lookup]
        have owned := inv'.state found.2 inside
        cases kind : found.2.state with
        | corr state => exact ⟨inv', rfl, fun result returned => by cases returned⟩
        | agg state =>
            rw [kind] at owned
            dsimp only
            cases step : aggregateEvent state event now now' with
            | none => exact ⟨inv', rfl, fun result returned => by cases returned⟩
            | some outcome =>
                have kept := owned.agg (fun query wf => wf.aggregateEvent step)
                refine ⟨(inv'.setState inside kept).emit _, rfl, fun result returned => ?_⟩
                exact (Option.some.inj returned).symm
  · rw [if_neg accepted]
    exact Served.rejected inv (.aggregate agg) (Bool.eq_false_iff.mpr accepted)

/-- Executing a stage of a query. -/
theorem executeStage_served (inv : ExecInv nqlParse exec) {text : String} {query : NqlQuery}
    {i : Nat} {stage : Stage} (parsed : nqlParse text = some query)
    (here : query.stages[i]? = some stage) (event : Event) (world : Option WorldRef)
    (clock : Nat → Nat) :
    Served nqlParse exec event ⟨some text, world, i⟩ stage
      (executeStage exec stage event ⟨some text, world, i⟩ clock) := by
  cases stage with
  | filter f => exact Served.stateless inv rfl
  | «show» shown => exact Served.stateless inv rfl
  | correlate corr => exact executeCorrelateStage_served inv parsed here event world
  | aggregate agg => exact executeAggregateStage_served inv parsed here event world _ _

/-- What a part of a run leaves: the invariant, and after the requests made before a first part
    of the ones to be made, which is all of them where the behaviour is defined. -/
structure Progress (nqlParse : String → Option NqlQuery) (exec : Executor)
    (requests : List StageRequest) (executed : Executed) : Prop where
  inv : ExecInv nqlParse executed.exec
  made : ∃ made, made <+: requests ∧
    executed.exec.lookups.map Lookup.request = exec.lookups.map Lookup.request ++ made ∧
    (executed.result ≠ none → made = requests)

omit [Pcre2] in
/-- A part that stops with all its requests made. -/
theorem Progress.stop {requests : List StageRequest} {executed : Executed}
    (inv : ExecInv nqlParse executed.exec)
    (made : executed.exec.lookups.map Lookup.request =
      exec.lookups.map Lookup.request ++ requests) :
    Progress nqlParse exec requests executed :=
  ⟨inv, requests, List.prefix_rfl, made, fun _ => rfl⟩

omit [Pcre2] in
/-- A part whose behaviour is undefined makes none of the requests after it. -/
theorem Progress.undefined {requests : List StageRequest} {executed : Executed}
    (progress : Progress nqlParse exec requests executed) (undefined : executed.result = none)
    (rest : List StageRequest) : Progress nqlParse exec (requests ++ rest) executed := by
  obtain ⟨inv, first, isPrefix, made, -⟩ := progress
  exact ⟨inv, first, isPrefix.trans (List.prefix_append _ _), made,
    fun defined => absurd undefined defined⟩

omit [Pcre2] in
/-- Two parts one after the other. -/
theorem Progress.trans {next : Executor} {requests rest : List StageRequest}
    {executed : Executed}
    (made : next.lookups.map Lookup.request = exec.lookups.map Lookup.request ++ requests)
    (progress : Progress nqlParse next rest executed) :
    Progress nqlParse exec (requests ++ rest) executed := by
  obtain ⟨inv, first, isPrefix, after, all⟩ := progress
  refine ⟨inv, requests ++ first, ?_, ?_, ?_⟩
  · exact (List.prefix_append_right_inj requests).mpr isPrefix
  · rw [after, made, List.append_assoc]
  · intro defined
    rw [all defined]

theorem pipelineRequests_worldless (queryStr : Option String) (event : Event) :
    ∀ (stages : List Stage) (i : Nat), pipelineRequests queryStr none event i stages = [] := by
  intro stages
  induction stages with
  | nil =>
      intro i
      rfl
  | cons stage stages ih =>
      intro i
      simp only [pipelineRequests, stageRequests, ih, List.nil_append, ite_self]

/-- Executing the stages of a query from position `i` on. -/
theorem executePipeline_progress {text : String} {query : NqlQuery}
    (parsed : nqlParse text = some query) (event : Event) (world : Option WorldRef)
    (clock : Nat → Nat) :
    ∀ (stages : List Stage) (i : Nat) {exec : Executor}, query.stages.drop i = stages →
      ExecInv nqlParse exec →
      Progress nqlParse exec (pipelineRequests (some text) world event i stages)
        (executePipeline exec event (some text) world clock i stages) := by
  intro stages
  induction stages with
  | nil =>
      intro i exec rest inv
      exact Progress.stop inv (List.append_nil _).symm
  | cons stage stages ih =>
      intro i exec rest inv
      have here : query.stages[i]? = some stage := by
        rw [← List.head?_drop, rest]
        rfl
      have rest' : query.stages.drop (i + 1) = stages := by
        rw [← List.tail_drop, rest]
        rfl
      obtain ⟨inv', made, passes⟩ := executeStage_served inv parsed here event world clock
      rw [executePipeline, pipelineRequests]
      cases result : (executeStage exec stage event ⟨some text, world, i⟩ clock).result with
      | none =>
          dsimp only
          exact (Progress.stop inv' made).undefined result _
      | some passed =>
          have accepted := passes passed result
          cases passed with
          | true =>
              dsimp only
              refine Progress.trans made ?_
              rcases accepted with accepted | noWorld
              · rw [← accepted, if_pos rfl]
                exact ih (i + 1) rest' inv'
              · obtain rfl : world = none := noWorld
                have next := ih (i + 1) rest' inv'
                rw [pipelineRequests_worldless] at next ⊢
                rw [ite_self]
                exact next
          | false =>
              dsimp only
              have nothing : (if stage.accepts event then
                  pipelineRequests (some text) world event (i + 1) stages else []) = [] := by
                rcases accepted with rejected | noWorld
                · rw [← rejected, if_neg Bool.false_ne_true]
                · obtain rfl : world = none := noWorld
                  rw [pipelineRequests_worldless, ite_self]
              rw [nothing, List.append_nil]
              exact Progress.stop inv' made

/-- Executing a query is executing its stages in order. -/
theorem executeQuery_stages (exec : Executor) (query : NqlQuery) (event : Event)
    (queryStr : Option String) (world : Option WorldRef) (clock : Nat → Nat) :
    executeQuery exec query event queryStr world clock =
      executePipeline exec event queryStr world clock 0 query.stages := by
  cases query with
  | pipeline stages => rfl
  | single stage =>
      dsimp only [executeQuery, NqlQuery.stages, executePipeline]
      generalize executeStage exec stage event ⟨queryStr, world, 0⟩ clock = executed
      obtain ⟨next, result⟩ := executed
      rcases result with _ | passed
      · rfl
      · cases passed with
        | true => rfl
        | false => rfl

omit [Pcre2] in
/-- A timer that fires makes no request. -/
theorem timerTick_progress (inv : ExecInv nqlParse exec) (addr now : Nat) :
    Progress nqlParse exec [] (timerTick exec addr now) := by
  unfold timerTick
  cases search : exec.contexts.find? (fun ctx => decide (ctx.addr = addr)) with
  | none => exact Progress.stop inv (List.append_nil _).symm
  | some ctx =>
      have inside := List.mem_of_find?_eq_some search
      have owned := inv.state ctx inside
      have here := List.find?_some search
      obtain rfl : ctx.addr = addr := of_decide_eq_true here
      dsimp only
      cases kind : ctx.state with
      | corr state =>
          rw [kind] at owned
          exact Progress.stop (inv.setState inside (owned.corr rfl)) (List.append_nil _).symm
      | agg state =>
          rw [kind] at owned
          dsimp only
          cases flushed : windowFlushCb state now with
          | none => exact Progress.stop inv (List.append_nil _).symm
          | some outcome =>
              have kept := owned.agg (fun query wf => wf.flush flushed)
              exact Progress.stop ((inv.setState inside kept).emit _) (List.append_nil _).symm

/-- One step of the executor. -/
theorem execStep_progress (inv : ExecInv nqlParse exec) (op : ExecOp) :
    Progress nqlParse exec (op.requests nqlParse) (execStep nqlParse exec op) := by
  cases op with
  | tick addr now => exact timerTick_progress inv addr now
  | execute queryStr event world clock =>
      dsimp only [execStep, nqlExecute, ExecOp.requests]
      cases parsed : nqlParse queryStr with
      | none => exact Progress.stop inv (List.append_nil _).symm
      | some query =>
          dsimp only
          rw [executeQuery_stages]
          exact executePipeline_progress parsed event world clock query.stages 0 rfl inv

/-- A run of the executor. -/
theorem execRunFrom_progress (ops : List ExecOp) :
    ∀ {exec : Executor}, ExecInv nqlParse exec →
      Progress nqlParse exec (execRequests nqlParse ops) (execRunFrom nqlParse exec ops) := by
  induction ops with
  | nil =>
      intro exec inv
      exact Progress.stop inv (List.append_nil _).symm
  | cons op ops ih =>
      intro exec inv
      have step := execStep_progress inv op
      have requests : execRequests nqlParse (op :: ops) =
          op.requests nqlParse ++ execRequests nqlParse ops := List.flatMap_cons
      rw [execRunFrom, requests]
      cases result : (execStep nqlParse exec op).result with
      | none =>
          simp only
          exact step.undefined result _
      | some passed =>
          simp only
          obtain ⟨inv', made, isPrefix, lookups, all⟩ := step
          have complete := all (by rw [result]; exact Option.some_ne_none passed)
          rw [complete] at lookups
          exact Progress.trans lookups (ih inv')

end Steps

/-! ## Every lookup of a run -/

theorem Unambiguous.of_prefix {requests made : List StageRequest}
    (unambiguous : Unambiguous requests) (isPrefix : made <+: requests) : Unambiguous made :=
  fun r member r' member' =>
    unambiguous r (isPrefix.subset member) r' (isPrefix.subset member')

/-- In a run whose requests are unambiguous every stage obtains the state created for it. Where
    the behaviour of the run is defined, only then. -/
theorem ownStates_iff [Pcre2] (nqlParse : String → Option NqlQuery) (ops : List ExecOp) :
    (Unambiguous (execRequests nqlParse ops) →
      ∀ lookup ∈ (execRun nqlParse ops).exec.lookups, lookup.Own nqlParse) ∧
    ((execRun nqlParse ops).result ≠ none →
      (∀ lookup ∈ (execRun nqlParse ops).exec.lookups, lookup.Own nqlParse) →
      Unambiguous (execRequests nqlParse ops)) := by
  obtain ⟨inv, made, isPrefix, lookups, all⟩ :=
    @execRunFrom_progress _ nqlParse ops _ newExecutor_inv
  have requests : (execRun nqlParse ops).exec.lookups.map Lookup.request = made := lookups
  constructor
  · intro unambiguous
    apply inv.own_iff.mpr
    show Unambiguous ((execRun nqlParse ops).exec.lookups.map Lookup.request)
    rw [requests]
    exact unambiguous.of_prefix isPrefix
  · intro defined own
    have unambiguous := inv.own_iff.mp own
    rw [← all defined, ← requests]
    exact unambiguous

/-- A query that correlates and then aggregates. -/
def correlateAggregateText : String :=
  "correlate type == \"log\" with type == \"network\" within 1 ms | aggregate count()"

/-- A query of one stage. -/
def aggregateText : String := "aggregate count()"

/-- What `nql_parse` makes of `aggregate count()`. -/
def countAggregate : Aggregate where
  funcs := [{ type := .count }]
  groupByFields := []
  whereFilter := none
  window := { type := .none }

/-- `nql_parse` on the two texts. -/
def sampleParse (text : String) : Option NqlQuery :=
  if text = correlateAggregateText then
    some (.pipeline [.correlate logNetworkQuery, .aggregate countAggregate])
  else if text = aggregateText then some (.single (.aggregate countAggregate))
  else none

/-- A log event. -/
def loggedEvent : Event where
  type := .log
  timestampNs := 5000000
  input := none
  data := some (.object [("type", .string "log")])

/-- The event executed twice in one world. -/
def aggregateTwice : List ExecOp :=
  [.execute aggregateText loggedEvent (some ⟨1, 0⟩) (fun _ => 0),
    .execute aggregateText loggedEvent (some ⟨1, 0⟩) (fun _ => 0)]

theorem ownStates_aggregateTwice :
    ∀ lookup ∈ (@execRun literalPcre2 sampleParse aggregateTwice).exec.lookups,
      lookup.Own sampleParse :=
  (@ownStates_iff literalPcre2 sampleParse aggregateTwice).1 (by decide)

/-- The aggregate stage is given the state of the correlate stage, and its behaviour is
    undefined. A world at the address of an earlier one is given the state of that one. -/
theorem states_shared :
    (@execRun literalPcre2 sampleParse
      [.execute correlateAggregateText loggedEvent (some ⟨1, 0⟩)
        (fun _ => 0)]).exec.lookups.map
      (fun lookup => decide (lookup.ctx.creator = lookup.request)) = [true, false] ∧
    (@execRun literalPcre2 sampleParse
      [.execute correlateAggregateText loggedEvent (some ⟨1, 0⟩)
        (fun _ => 0)]).result = none ∧
    (@execRun literalPcre2 sampleParse
      [.execute aggregateText loggedEvent (some ⟨1, 0⟩) (fun _ => 0),
        .execute aggregateText loggedEvent (some ⟨1, 1⟩) (fun _ => 0)]).exec.lookups.map
      (fun lookup => decide (lookup.ctx.creator = lookup.request)) = [true, false] :=
  ⟨by decide +kernel, by decide +kernel, by decide +kernel⟩

end Nblex
