import Nblex.Core.FilterEngine.Eval
import Nblex.Parsers.NqlQuery
import Nblex.Misc.Word64

/-!
# Correlate queries

The correlation state of `src/core/nql_executor.c`, executing a correlate query on an event and
the cleanup on a timer tick. A result is recorded as the two events `create_corr_result_event`
is given. The handler of results is assumed not to call back into the executor.
-/

namespace Nblex

/-- `nql_corr_state_t`. `within_ms` is a `uint32_t` here. -/
structure CorrState where
  withinMs : Nat
  leftEvents : List Event
  rightEvents : List Event
  leftCount : Nat
  rightCount : Nat

/-- The state `get_corr_state` creates for a query; the window loses its high bits. -/
def newCorrState (corr : Correlate) : CorrState where
  withinMs := corr.withinMs % 2 ^ 32
  leftEvents := []
  rightEvents := []
  leftCount := 0
  rightCount := 0

/-- `add_corr_event`. -/
def addCorrEvent (state : CorrState) (event : Event) (isLeft : Bool) : CorrState :=
  if isLeft then
    { state with
      leftEvents := nblexEventClone event :: state.leftEvents
      leftCount := state.leftCount + 1 }
  else
    { state with
      rightEvents := nblexEventClone event :: state.rightEvents
      rightCount := state.rightCount + 1 }

/-- `corr->within_ms * 1000000ULL`. -/
def corrWindowNs (corr : Correlate) : Nat := u64Mul corr.withinMs 1000000

/-- The walk over a buffer for the entries within the window of an event. -/
def corrMatches (corr : Correlate) (event : Event) (buffer : List Event) : List Event :=
  buffer.filter (fun entry => withinWindow (corrWindowNs corr) event.timestampNs entry.timestampNs)

/-- `execute_correlate` on the state of its query. An event that matches the left side is
    buffered before the right buffer is searched; one that matches the right side is buffered
    before the left buffer is searched, which may hold the event itself by then. -/
def executeCorrelate [Pcre2] (corr : Correlate) (state : CorrState) (event : Event) :
    CorrState × List (Event × Event) :=
  let matchesLeft := nblexFilterMatches corr.leftFilter event
  let matchesRight := nblexFilterMatches corr.rightFilter event
  let afterLeft := if matchesLeft then addCorrEvent state event true else state
  let leftResults :=
    if matchesLeft then
      (corrMatches corr event afterLeft.rightEvents).map (fun entry => (event, entry))
    else []
  let afterRight := if matchesRight then addCorrEvent afterLeft event false else afterLeft
  let rightResults :=
    if matchesRight then
      (corrMatches corr event afterRight.leftEvents).map (fun entry => (entry, event))
    else []
  (afterRight, leftResults ++ rightResults)

/-- `create_corr_result_event`: the new event's own timestamp is replaced by the later of the
    two. -/
def createCorrResultEvent (corr : Correlate) (left right : Event) (now : Nat) : Event :=
  let corrData := (Json.object []).set "nql_result_type" (some (.string "correlation"))
  let corrData := corrData.set "window_ms" (some (.integer (toInt64 corr.withinMs)))
  let corrData := corrData.set "left_event" left.data
  let corrData := corrData.set "right_event" right.data
  let timeDiffNs := toInt64 left.timestampNs - toInt64 right.timestampNs
  let corrData := corrData.set "time_diff_ms" (some (.real ((timeDiffNs : ℚ) / 1000000)))
  { nblexEventNew .correlation none now with
    data := some corrData
    timestampNs :=
      if right.timestampNs < left.timestampNs then left.timestampNs else right.timestampNs }

/-- The cutoff of `corr_cleanup_cb`: `now - window_ns * 2`, which wraps around below zero. -/
def corrCutoff (state : CorrState) (now : Nat) : Nat :=
  u64Sub now (u64Mul (u64Mul state.withinMs 1000000) 2)

/-- `corr_cleanup_cb`. -/
def corrCleanupCb (state : CorrState) (now : Nat) : CorrState :=
  let kept := fun (entry : Event) => decide (corrCutoff state now ≤ entry.timestampNs)
  { state with
    leftEvents := state.leftEvents.filter kept
    rightEvents := state.rightEvents.filter kept
    leftCount := state.leftCount - (state.leftEvents.length - (state.leftEvents.filter kept).length)
    rightCount :=
      state.rightCount - (state.rightEvents.length - (state.rightEvents.filter kept).length) }

/-! ## Runs -/

/-- One step of a correlate query: an event, or a cleanup tick with its clock reading. -/
inductive CorrOp where
  | event (event : Event)
  | tick (now : Nat)

/-- A sequence of steps with the results on the way. -/
def corrRunFrom [Pcre2] (corr : Correlate) :
    CorrState → List CorrOp → CorrState × List (Event × Event)
  | state, [] => (state, [])
  | state, .event event :: ops =>
      let step := executeCorrelate corr state event
      let rest := corrRunFrom corr step.1 ops
      (rest.1, step.2 ++ rest.2)
  | state, .tick now :: ops => corrRunFrom corr (corrCleanupCb state now) ops

/-- A run of a query from the state it is created with. -/
def corrRun [Pcre2] (corr : Correlate) (ops : List CorrOp) : CorrState × List (Event × Event) :=
  corrRunFrom corr (newCorrState corr) ops

end Nblex
