import Nblex.Core.FilterEngine.Syntax
import Nblex.Misc.Double

/-!
# nQL query trees

The AST of `src/parsers/nql_parser.h`. The parser puts single queries into a pipeline and
never a pipeline, so a query is one stage or a list of stages.
-/

namespace Nblex

/-- `nql_agg_func_type_t`. -/
inductive AggFuncType where
  | count | sum | avg | min | max | percentile | distinct
  deriving DecidableEq, Repr

/-- `nql_window_type_t`. -/
inductive WindowType where
  | none | tumbling | sliding | session
  deriving DecidableEq, Repr

/-- `nql_agg_func_t`; the field is `NULL` for `count()`. -/
structure AggFunc where
  type : AggFuncType
  field : Option String := none
  percentile : Double := 0
  deriving DecidableEq

/-- `nql_window_t`; the durations are `uint64_t` milliseconds. -/
structure Window where
  type : WindowType
  sizeMs : Nat := 0
  slideMs : Nat := 0
  timeoutMs : Nat := 0
  deriving DecidableEq, Repr

/-- `nql_aggregate_t`. -/
structure Aggregate where
  funcs : List AggFunc
  groupByFields : List String
  whereFilter : Option FilterNode
  window : Window
  deriving DecidableEq

/-- `nql_correlate_t`; `within_ms` is a `uint64_t`. -/
structure Correlate where
  leftFilter : FilterNode
  rightFilter : FilterNode
  withinMs : Nat
  deriving DecidableEq

/-- `nql_show_t`. -/
structure Show where
  fields : List String
  selectAll : Bool
  whereFilter : Option FilterNode
  deriving DecidableEq

/-- A query that is not a pipeline. -/
inductive Stage where
  | filter (f : FilterNode)
  | correlate (c : Correlate)
  | aggregate (a : Aggregate)
  | show (s : Show)
  deriving DecidableEq

/-- `nql_query_t`. -/
inductive NqlQuery where
  | single (stage : Stage)
  | pipeline (stages : List Stage)
  deriving DecidableEq

/-- The stages in the order `execute_pipeline` runs them. -/
def NqlQuery.stages : NqlQuery → List Stage
  | .single stage => [stage]
  | .pipeline stages => stages

/-- A stage that keeps state between events. -/
def Stage.isStateful : Stage → Bool
  | .correlate _ | .aggregate _ => true
  | .filter _ | .show _ => false

end Nblex
