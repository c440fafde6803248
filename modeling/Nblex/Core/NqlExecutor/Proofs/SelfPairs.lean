import Nblex.Core.NqlExecutor.Proofs.CorrelatePairs
import Nblex.Parsers.NqlParser

/-!
# Events paired with themselves

`execute_correlate` buffers an event on the left, searches the right buffer, buffers the event on
the right and searches the left buffer. By then the left buffer holds the event itself, if it
matches both filters.
-/

namespace Nblex

open WindowJoin

/-- The steps of a run with their events numbered. The number is the identity of an event: two
    executions are of two events, even if these look the same. -/
def numberedOps : Nat → List CorrOp → List CorrOp
  | _, [] => []
  | number, .event event :: ops =>
      .event { event with id := number } :: numberedOps (number + 1) ops
  | number, .tick now :: ops => .tick now :: numberedOps number ops

/-- The events of a run. -/
def corrEventsOf : List CorrOp → List Event
  | [] => []
  | .event event :: ops => event :: corrEventsOf ops
  | .tick _ :: ops => corrEventsOf ops

theorem arrivals_toJoinOp (withinMs : Nat) (ops : List CorrOp) :
    arrivals (ops.map (CorrOp.toJoinOp withinMs)) = corrEventsOf ops := by
  induction ops with
  | nil => rfl
  | cons op ops ih =>
      cases op with
      | event event => exact congrArg (event :: ·) ih
      | tick now => exact ih

theorem numberedOps_ids (ops : List CorrOp) : ∀ number,
    (corrEventsOf (numberedOps number ops)).map Event.id =
      List.range' number (corrEventsOf ops).length := by
  induction ops with
  | nil => exact fun _ => rfl
  | cons op ops ih =>
      intro number
      cases op with
      | event event => exact congrArg (number :: ·) (ih (number + 1))
      | tick now => exact ih number

/-- What is said of the events without their identities holds of the numbered ones. -/
theorem forall_numberedOps {P : Event → Prop} (blind : ∀ event number,
    P { event with id := number } ↔ P event) (ops : List CorrOp) : ∀ number,
    (∀ event ∈ corrEventsOf (numberedOps number ops), P event) ↔
      ∀ event ∈ corrEventsOf ops, P event := by
  induction ops with
  | nil => exact fun _ => Iff.rfl
  | cons op ops ih =>
      intro number
      cases op with
      | event event =>
          exact List.forall_mem_cons.trans
            ((and_congr (blind event number) (ih (number + 1))).trans List.forall_mem_cons.symm)
      | tick now => exact ih number

/-- A window reaches an event itself unless it is negative as a signed number. -/
theorem corrNear_self (corr : Correlate) (event : Event) :
    corrNear corr event event = true ↔ corrWindowNs corr < 2 ^ 63 :=
  withinWindow_self_iff (Nat.mod_lt _ (by decide)) event.timestampNs

section Runs

variable [Pcre2] (corr : Correlate)

/-- No result of a run has one event on both sides. -/
def NoSelfPair (ops : List CorrOp) : Prop :=
  ∀ result ∈ (corrRun corr (numberedOps 0 ops)).2, result.1.id ≠ result.2.id

/-- Both filters of a query match an event. -/
def bothSides (event : Event) : Bool :=
  nblexFilterMatches corr.leftFilter event && nblexFilterMatches corr.rightFilter event

/-- Events are paired with themselves just when they match both filters, unless the window is
    negative as a signed number, which nothing is within. -/
theorem noSelfPair_iff (ops : List CorrOp) :
    NoSelfPair corr ops ↔
      (∀ event ∈ corrEventsOf ops, bothSides corr event = false) ∨ 2 ^ 63 ≤ corrWindowNs corr := by
  have distinct : ((arrivals ((numberedOps 0 ops).map
      (CorrOp.toJoinOp (newCorrState corr).withinMs))).map Event.id).Nodup := by
    rw [arrivals_toJoinOp, numberedOps_ids]
    exact List.nodup_range'
  rw [NoSelfPair, corrRun, corrRunFrom_results]
  have empty : ∀ event ∈ ([] : List Event), ∀ other ∈ arrivals ((numberedOps 0 ops).map
      (CorrOp.toJoinOp (newCorrState corr).withinMs)), event.id ≠ other.id :=
    fun _ => List.not_mem_nil.elim
  refine (prunedRun_keys_ne_iff _ distinct empty empty).trans ?_
  rw [arrivals_toJoinOp]
  refine (forall_numberedOps (fun _ _ => Iff.rfl) ops 0).trans ?_
  simp only [corrNear_self]
  constructor
  · intro apart
    rcases Nat.lt_or_ge (corrWindowNs corr) (2 ^ 63) with within | beyond
    · refine .inl fun event member => Bool.eq_false_iff.mpr fun both => ?_
      obtain ⟨onLeft, onRight⟩ := (Bool.and_eq_true _ _).mp both
      exact apart event member ⟨onLeft, onRight, within⟩
    · exact .inr beyond
  · rintro (oneSide | beyond) event member ⟨onLeft, onRight, within⟩
    · have neither := oneSide event member
      rw [bothSides, onLeft, onRight] at neither
      cases neither
    · exact Nat.not_lt.mpr beyond within

end Runs

/-- `correlate type == "log" with level == "error"`. -/
def logErrorQuery : Correlate where
  leftFilter := .expr ⟨"type", .eq, .string "log", none⟩
  rightFilter := .expr ⟨"level", .eq, .string "error", none⟩
  withinMs := 100

/-- An event that is both. -/
def logErrorEvent : Event where
  type := .log
  timestampNs := 1
  input := none
  data := some (.object [("type", .string "log"), ("level", .string "error")])

/-- The event is reported as correlated with itself. -/
theorem logErrorEvent_selfPair :
    @nqlParse literalPcre2 "correlate type == \"log\" with level == \"error\"".toList =
        some (.single (.correlate logErrorQuery)) ∧
      (@corrRun literalPcre2 logErrorQuery (numberedOps 0 [.event logErrorEvent])).2 =
        [(logErrorEvent, logErrorEvent)] ∧
      ¬@NoSelfPair literalPcre2 logErrorQuery [.event logErrorEvent] := by
  have run : (@corrRun literalPcre2 logErrorQuery (numberedOps 0 [.event logErrorEvent])).2 =
      [(logErrorEvent, logErrorEvent)] := rfl
  refine ⟨by decide, run, fun apart => ?_⟩
  exact apart (logErrorEvent, logErrorEvent) (run ▸ List.mem_cons_self) rfl

end Nblex
