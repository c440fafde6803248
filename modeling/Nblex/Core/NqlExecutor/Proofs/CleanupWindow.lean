import Nblex.Core.NqlExecutor.Proofs.QueryIsolation
import Nblex.Parsers.NqlParser

/-!
# The window of the cleanup

The matcher of a correlate query reads the window from the parsed query, the cleanup from the state,
where `get_corr_state` has stored it in 32 bits. The two agree below `2 ^ 32` milliseconds.
-/

namespace Nblex

/-- The cleanup of a state works with the window that the query matches with: its horizon is twice
    that window. -/
structure CleanupAgrees (corr : Correlate) (state : CorrState) : Prop where
  stored : state.withinMs = corr.withinMs
  horizon : ∀ now, corrCutoff state now = u64Sub now (2 * (corr.withinMs * 1000000))
  matcher : corrWindowNs corr = corr.withinMs * 1000000

/-- A window of less than `2 ^ 32` milliseconds overflows nowhere. -/
theorem cleanupAgrees_iff {corr : Correlate} {state : CorrState}
    (owns : Stage.Owns (.correlate corr) (.corr state)) :
    CleanupAgrees corr state ↔ corr.withinMs < 2 ^ 32 := by
  have stored : state.withinMs = corr.withinMs % 2 ^ 32 := owns
  constructor
  · intro agrees
    rw [← agrees.stored, stored]
    exact Nat.mod_lt _ (by decide)
  · intro short
    rw [Nat.mod_eq_of_lt short] at stored
    have once : u64Mul corr.withinMs 1000000 = corr.withinMs * 1000000 := u64Mul_of_lt (by omega)
    have twice : u64Mul (corr.withinMs * 1000000) 2 = corr.withinMs * 1000000 * 2 :=
      u64Mul_of_lt (by omega)
    refine ⟨stored, fun now => ?_, once⟩
    rw [corrCutoff, stored, once, twice, Nat.mul_comm]

section Runs

variable [Pcre2] {text : String} {corr : Correlate}

/-- The state of a correlate query, in any run of the executor. -/
theorem correlate_state (parsed : nqlParse text.toList = some (.single (.correlate corr)))
    (ops : List ExecOp) {ctx : ExecCtx}
    (member : ctx ∈ (execRun (fun text => nqlParse text.toList) ops).exec.contexts)
    (ofQuery : ctx.queryString = some text) :
    ∃ state, ctx.state = .corr state ∧ Stage.Owns (.correlate corr) (.corr state) := by
  obtain ⟨inv, -⟩ :=
    @execRunFrom_progress _ (fun text => nqlParse text.toList) ops _ newExecutor_inv
  obtain ⟨text', query, stage, asked, parsed', here, owns⟩ := inv.state ctx member
  have sameText : ctx.queryString = ctx.creator.queryStr :=
    congrArg Prod.fst (inv.creatorKey ctx member)
  obtain rfl : text = text' := Option.some.inj (ofQuery.symm.trans (sameText.trans asked))
  obtain rfl : query = .single (.correlate corr) := Option.some.inj (parsed'.symm.trans parsed)
  obtain rfl : stage = .correlate corr := (List.mem_singleton.mp (List.mem_of_getElem? here))
  cases kept : ctx.state with
  | agg state =>
      rw [kept] at owns
      exact owns.elim
  | corr state => exact ⟨state, rfl, kept ▸ owns⟩

/-- The cleanup of a correlate query agrees with its matcher just in case the window is shorter than
    `2 ^ 32` milliseconds. -/
theorem cleanupWindow_iff (parsed : nqlParse text.toList = some (.single (.correlate corr)))
    (ops : List ExecOp) {ctx : ExecCtx}
    (member : ctx ∈ (execRun (fun text => nqlParse text.toList) ops).exec.contexts)
    (ofQuery : ctx.queryString = some text) :
    ∃ state, ctx.state = .corr state ∧ (CleanupAgrees corr state ↔ corr.withinMs < 2 ^ 32) := by
  obtain ⟨state, kept, owns⟩ := correlate_state parsed ops member ofQuery
  exact ⟨state, kept, cleanupAgrees_iff owns⟩

/-- The first event that either side takes creates the state. -/
theorem correlate_creates (parsed : nqlParse text.toList = some (.single (.correlate corr)))
    {event : Event} (taken : eitherSide corr event = true) (world : WorldRef) (clock : Nat → Nat) :
    ∃ ctx ∈ (execRun (fun text => nqlParse text.toList)
        [.execute text event (some world) clock]).exec.contexts,
      ctx.queryString = some text ∧
        ctx.state = .corr (executeCorrelate corr (newCorrState corr) event).1 := by
  simp only [execRun, execRunFrom, execStep, nqlExecute, parsed, executeQuery, executeStage,
    executeCorrelateStage, taken, if_true]
  exact ⟨_, List.mem_singleton_self _, rfl, rfl⟩

end Runs

theorem cleanupWindow_iff_correlateText :
    ∃ ctx ∈ (@execRun literalPcre2 (fun text => @nqlParse literalPcre2 text.toList)
        [.execute correlateText loggedEvent (some ⟨1, 0⟩) (fun _ => 0)]).exec.contexts,
      ∃ state, ctx.state = .corr state ∧
        (CleanupAgrees logNetworkQuery state ↔ logNetworkQuery.withinMs < 2 ^ 32) := by
  have parsed : @nqlParse literalPcre2 correlateText.toList =
      some (.single (.correlate logNetworkQuery)) := by decide
  obtain ⟨ctx, member, ofQuery, -⟩ :=
    @correlate_creates literalPcre2 _ _ parsed loggedEvent (by decide) ⟨1, 0⟩ (fun _ => 0)
  exact ⟨ctx, member, @cleanupWindow_iff literalPcre2 _ _ parsed _ _ member ofQuery⟩

/-- A window of one millisecond more than the stored value can hold. -/
def longWindowText : String :=
  "correlate type == \"log\" with type == \"network\" within 4294967297 ms"

/-- The query it is parsed to. -/
def longWindowQuery : Correlate := { logNetworkQuery with withinMs := 4294967297 }

/-- The cleanup is left with one millisecond. -/
theorem longWindow_cut :
    @nqlParse literalPcre2 longWindowText.toList = some (.single (.correlate longWindowQuery)) ∧
      ∃ ctx ∈ (@execRun literalPcre2 (fun text => @nqlParse literalPcre2 text.toList)
          [.execute longWindowText loggedEvent (some ⟨1, 0⟩) (fun _ => 0)]).exec.contexts,
        ctx.queryString = some longWindowText ∧
          ∃ state, ctx.state = .corr state ∧ state.withinMs = 1 ∧
            ¬CleanupAgrees longWindowQuery state := by
  have parsed : @nqlParse literalPcre2 longWindowText.toList =
      some (.single (.correlate longWindowQuery)) := by decide
  obtain ⟨ctx, member, ofQuery, kept⟩ :=
    @correlate_creates literalPcre2 _ _ parsed loggedEvent (by decide) ⟨1, 0⟩ (fun _ => 0)
  refine ⟨parsed, ctx, member, ofQuery, _, kept, rfl, fun agrees => ?_⟩
  exact absurd agrees.stored (by decide)

end Nblex
