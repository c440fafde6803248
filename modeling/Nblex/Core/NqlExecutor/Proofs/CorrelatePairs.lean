import Nblex.Core.NqlExecutor.Correlate
import Nblex.Misc.WindowJoin
import Mathlib.Data.List.Nodup

/-!
# Pairs found by correlate queries

The state of a correlate query is the buffers of a window join, an event is an arrival and a
cleanup tick a prune. Without ticks every matching ordered pair of events is reported once,
whatever the order of arrival.
-/

namespace Nblex

open WindowJoin

/-- The buffers of a correlation state. -/
def CorrState.buffers (state : CorrState) : Buffers Event :=
  ⟨state.leftEvents, state.rightEvents⟩

/-- The window test of a query on a left and a right event. -/
def corrNear (corr : Correlate) (left right : Event) : Bool :=
  withinWindow (corrWindowNs corr) left.timestampNs right.timestampNs

section Simulation

variable [Pcre2] (corr : Correlate)

theorem executeCorrelate_buffers (state : CorrState) (event : Event) :
    (executeCorrelate corr state event).1.buffers =
      state.buffers.add (nblexFilterMatches corr.leftFilter)
        (nblexFilterMatches corr.rightFilter) event := by
  unfold executeCorrelate CorrState.buffers Buffers.add addCorrEvent nblexEventClone
  cases nblexFilterMatches corr.leftFilter event with
  | true => cases nblexFilterMatches corr.rightFilter event with
    | true => rfl
    | false => rfl
  | false => cases nblexFilterMatches corr.rightFilter event with
    | true => rfl
    | false => rfl

theorem executeCorrelate_withinMs (state : CorrState) (event : Event) :
    (executeCorrelate corr state event).1.withinMs = state.withinMs := by
  unfold executeCorrelate addCorrEvent
  cases nblexFilterMatches corr.leftFilter event with
  | true => cases nblexFilterMatches corr.rightFilter event with
    | true => rfl
    | false => rfl
  | false => cases nblexFilterMatches corr.rightFilter event with
    | true => rfl
    | false => rfl

theorem executeCorrelate_results (state : CorrState) (event : Event) :
    (executeCorrelate corr state event).2 =
      state.buffers.found (nblexFilterMatches corr.leftFilter)
        (nblexFilterMatches corr.rightFilter) (corrNear corr) event := by
  have swap : ∀ buffer, corrMatches corr event buffer =
      buffer.filter (fun entry => corrNear corr entry event) := by
    intro buffer
    refine List.filter_congr ?_
    intro entry _
    exact withinWindow_comm _ _ _
  have rightSearch : ∀ buffer, corrMatches corr event buffer =
      buffer.filter (fun entry => corrNear corr event entry) := fun buffer => rfl
  unfold executeCorrelate Buffers.found Buffers.add CorrState.buffers
  cases nblexFilterMatches corr.leftFilter event with
  | true => cases nblexFilterMatches corr.rightFilter event with
    | true => simp [addCorrEvent, nblexEventClone, ← swap, ← rightSearch]
    | false => simp [addCorrEvent, ← rightSearch]
  | false => cases nblexFilterMatches corr.rightFilter event with
    | true => simp [addCorrEvent, ← swap]
    | false => simp

/-- A step of a run, as a step of a pruned join. The cutoff of a tick depends on the window of
    the state only. -/
def CorrOp.toJoinOp (withinMs : Nat) : CorrOp → JoinOp Event
  | .event e => .arrive e
  | .tick now => .prune (fun entry =>
      decide (u64Sub now (u64Mul (u64Mul withinMs 1000000) 2) ≤ entry.timestampNs))

/-- A run reports what the pruned join finds. -/
theorem corrRunFrom_results (ops : List CorrOp) :
    ∀ state : CorrState, (corrRunFrom corr state ops).2 =
      (prunedRun (nblexFilterMatches corr.leftFilter) (nblexFilterMatches corr.rightFilter)
        (corrNear corr) state.buffers (ops.map (CorrOp.toJoinOp state.withinMs))).2 := by
  induction ops with
  | nil =>
      intro state
      rfl
  | cons op ops ih =>
      intro state
      cases op with
      | event event =>
          have rest := ih (executeCorrelate corr state event).1
          rw [executeCorrelate_buffers, executeCorrelate_withinMs] at rest
          simp only [corrRunFrom, rest, executeCorrelate_results]
          rfl
      | tick now => exact ih (corrCleanupCb state now)

end Simulation

/-! ## Runs without ticks -/

section Pairs

variable [Pcre2]

/-- The results a query emits for a sequence of events. -/
def corrResults (corr : Correlate) (events : List Event) : List (Event × Event) :=
  (corrRun corr (events.map CorrOp.event)).2

/-- The results for pairs of two different events. -/
def corrPairResults (corr : Correlate) (events : List Event) : List (Event × Event) :=
  (corrResults corr events).filter (fun p => decide (p.1.id ≠ p.2.id))

/-- The ordered pairs of different events that a query asks for. -/
def corrPairs (corr : Correlate) (events : List Event) : List (Event × Event) :=
  (events ×ˢ events).filter (fun p => decide (p.1.id ≠ p.2.id ∧
    nblexFilterMatches corr.leftFilter p.1 = true ∧
    nblexFilterMatches corr.rightFilter p.2 = true ∧
    ((p.1.timestampNs : Int) - p.2.timestampNs).natAbs ≤ corr.withinMs * 1000000))

theorem corrResults_eq (corr : Correlate) (events : List Event) :
    corrResults corr events =
      (joinRun (nblexFilterMatches corr.leftFilter) (nblexFilterMatches corr.rightFilter)
        (corrNear corr) Buffers.empty events).2 := by
  have arrived : arrivals ((events.map CorrOp.event).map
      (CorrOp.toJoinOp (newCorrState corr).withinMs)) = events := by
    simp [arrivals, CorrOp.toJoinOp, Function.comp_def, List.filterMap_map]
  have safe : ∀ b, PruneSafe (nblexFilterMatches corr.leftFilter)
      (nblexFilterMatches corr.rightFilter) (corrNear corr) b
      ((events.map CorrOp.event).map (CorrOp.toJoinOp (newCorrState corr).withinMs)) := by
    clear arrived
    induction events with
    | nil =>
        intro b
        trivial
    | cons event events ih => exact fun b => ih _
  rw [corrResults, corrRun, corrRunFrom_results,
    prunedRun_eq_joinRun (fun _ _ => ⟨rfl, rfl⟩) (safe _), arrived]
  rfl

/-- The results do not depend on the order of arrival. -/
theorem corrPairResults_perm (corr : Correlate) {events events' : List Event}
    (perm : events'.Perm events) :
    (corrPairResults corr events').Perm (corrPairResults corr events) := by
  unfold corrPairResults
  rw [corrResults_eq, corrResults_eq]
  exact (joinRun_perm perm).filter _

/-- The results for pairs of different events are the pairs the query asks for. -/
theorem corrPairResults_pairs (corr : Correlate) {events : List Event}
    (window : corr.withinMs * 1000000 < 2 ^ 63)
    (stamps : ∀ event ∈ events, event.timestampNs < 2 ^ 63) :
    (corrPairResults corr events).Perm (corrPairs corr events) := by
  have windowNs : corrWindowNs corr = corr.withinMs * 1000000 := u64Mul_of_lt (by omega)
  unfold corrPairResults corrPairs
  rw [corrResults_eq]
  refine ((joinRun_pairs events).filter _).trans (List.Perm.of_eq ?_)
  rw [pairs_filter, List.filter_filter]
  refine List.filter_congr ?_
  rintro ⟨left, right⟩ member
  obtain ⟨inLeft, inRight⟩ := List.mem_product.mp member
  have close := withinWindow_iff window (stamps left inLeft) (stamps right inRight)
  rw [Bool.eq_iff_iff]
  simp only [corrNear, windowNs, Bool.and_eq_true, decide_eq_true_eq, close, and_assoc]

end Pairs

/-! ## What a result says -/

/-- A result carries the data of its two events and the later of their timestamps. -/
def ResultCarries (corr : Correlate) (left right : Event) : Prop :=
  ∀ now, ∃ data, (createCorrResultEvent corr left right now).data = some data ∧
    data.get? "left_event" = left.data ∧ data.get? "right_event" = right.data ∧
    (createCorrResultEvent corr left right now).timestampNs =
      max left.timestampNs right.timestampNs

theorem resultCarries (corr : Correlate) (left right : Event) :
    ResultCarries corr left right := by
  intro now
  refine ⟨_, rfl, ?_, ?_, ?_⟩
  · cases left.data with
    | none => cases right.data with
      | none => rfl
      | some data => rfl
    | some data => cases right.data with
      | none => rfl
      | some data => rfl
  · cases left.data with
    | none => cases right.data with
      | none => rfl
      | some data => rfl
    | some data => cases right.data with
      | none => rfl
      | some data => rfl
  · simp only [createCorrResultEvent]
    by_cases later : right.timestampNs < left.timestampNs
    · rw [if_pos later, max_eq_left later.le]
    · rw [if_neg later, max_eq_right (not_lt.mp later)]

/-- For every sequence of different events the results for pairs of two of them are, one each,
    the pairs of a left and a right event within the window; they carry the data of their
    events, and another order of arrival gives the same results. -/
theorem correlate_pairs [Pcre2] (corr : Correlate) (events : List Event)
    (window : corr.withinMs * 1000000 < 2 ^ 63)
    (stamps : ∀ event ∈ events, event.timestampNs < 2 ^ 63)
    (distinct : (events.map Event.id).Nodup) :
    (corrPairResults corr events).Perm (corrPairs corr events) ∧
      (corrPairs corr events).Nodup ∧
      (∀ p ∈ corrPairResults corr events, ResultCarries corr p.1 p.2) ∧
      ∀ events', events'.Perm events →
        (corrPairResults corr events').Perm (corrPairResults corr events) := by
  have nodup : events.Nodup := List.Nodup.of_map _ distinct
  refine ⟨corrPairResults_pairs corr window stamps, ?_, ?_, ?_⟩
  · exact (nodup.product nodup).filter _
  · intro p _
    exact resultCarries corr p.1 p.2
  · intro events' perm
    exact corrPairResults_perm corr perm

/-- `correlate type == "log" with type == "network" within 1 ms`. -/
def logNetworkQuery : Correlate where
  leftFilter := .expr ⟨"type", .eq, .string "log", none⟩
  rightFilter := .expr ⟨"type", .eq, .string "network", none⟩
  withinMs := 1

/-- A network event and, half a millisecond later, a log event. -/
def logNetworkEvents : List Event :=
  [{ id := 1, type := .network, timestampNs := 5000000, input := none,
     data := some (.object [("type", .string "network")]) },
    { id := 2, type := .log, timestampNs := 5500000, input := none,
      data := some (.object [("type", .string "log")]) }]

theorem correlate_pairs_logNetworkQuery :
    (@corrPairResults literalPcre2 logNetworkQuery logNetworkEvents).Perm
        (@corrPairs literalPcre2 logNetworkQuery logNetworkEvents) ∧
      (@corrPairs literalPcre2 logNetworkQuery logNetworkEvents).Nodup ∧
      (∀ p ∈ @corrPairResults literalPcre2 logNetworkQuery logNetworkEvents,
        ResultCarries logNetworkQuery p.1 p.2) ∧
      ∀ events', events'.Perm logNetworkEvents →
        (@corrPairResults literalPcre2 logNetworkQuery events').Perm
          (@corrPairResults literalPcre2 logNetworkQuery logNetworkEvents) :=
  letI := literalPcre2
  correlate_pairs logNetworkQuery logNetworkEvents (by decide)
    (by simp [logNetworkEvents]) (by decide)

end Nblex
