import Nblex.NblexInternal

/-!
# Filter evaluation

`evaluate_filter_expr`, `evaluate_filter_node` and `nblex_filter_matches`.
-/

namespace Nblex

/-- The comparison shared by `==` and `!=`: the types must agree, and other field types are
    equal to nothing. -/
def fieldEquals (fieldValue : Json) (value : FilterValue) : Bool :=
  match fieldValue, value with
  | .string s, .string t => s == t
  | .integer n, .integer m => n == m
  | .real q, .real r => q == r
  | .bool b, .bool c => b == c
  | _, _ => false

/-- The inner `switch` on the ordering operators. -/
def orderHolds {α : Type} [LT α] [LE α] [DecidableLT α] [DecidableLE α] (op : FilterOp)
    (fieldVal exprVal : α) : Bool :=
  match op with
  | .lt => fieldVal < exprVal
  | .le => fieldVal ≤ exprVal
  | .gt => exprVal < fieldVal
  | .ge => exprVal ≤ fieldVal
  | _ => false

/-- The ordering operators: two integers are compared as integers, a mixture as reals. -/
def fieldOrdered (op : FilterOp) (fieldValue : Json) (value : FilterValue) : Bool :=
  match fieldValue, value with
  | .integer n, .integer m => orderHolds op n m
  | .integer n, .real r => orderHolds op (n : ℚ) r
  | .real q, .integer m => orderHolds op q (m : ℚ)
  | .real q, .real r => orderHolds op q r
  | _, _ => false

/-- `=~` on a string field with a compiled pattern; `none` is the early `return 0`. -/
def fieldMatches [Pcre2] (fieldValue : Json) (regexCode : Option String) : Option Bool :=
  match fieldValue, regexCode with
  | .string s, some pattern => some (Pcre2.exec pattern s)
  | _, _ => none

/-- `evaluate_filter_expr`. -/
def evaluateFilterExpr [Pcre2] (expr : FilterExpr) (event : Json) : Bool :=
  match event.get? expr.field with
  | none => false
  | some fieldValue =>
      match expr.op with
      | .eq => fieldEquals fieldValue expr.value
      | .ne => !fieldEquals fieldValue expr.value
      | .lt | .le | .gt | .ge => fieldOrdered expr.op fieldValue expr.value
      | .patMatch => (fieldMatches fieldValue expr.regexCode).getD false
      | .patNmatch => ((fieldMatches fieldValue expr.regexCode).map (!·)).getD false
      | .isIn | .contains => false

/-- `evaluate_filter_node`. -/
def evaluateFilterNode [Pcre2] : FilterNode → Json → Bool
  | .and left right, event => evaluateFilterNode left event && evaluateFilterNode right event
  | .or left right, event => evaluateFilterNode left event || evaluateFilterNode right event
  | .not operand, event => !evaluateFilterNode operand event
  | .expr e, event => evaluateFilterExpr e event

/-- `nblex_filter_matches`: an event without data matches nothing. -/
def nblexFilterMatches [Pcre2] (filter : FilterNode) (event : Event) : Bool :=
  match event.data with
  | none => false
  | some data => evaluateFilterNode filter data

end Nblex
