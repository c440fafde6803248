import Nblex.Json

/-!
# Filter trees

The data types of `src/core/filter_engine.c`, and the part of PCRE2 the engine calls.
-/

namespace Nblex

/-- `filter_op_t`; `patMatch`, `patNmatch` and `isIn` are `=~`, `!~` and `in`. -/
inductive FilterOp where
  | eq | ne | lt | le | gt | ge | patMatch | patNmatch | isIn | contains
  deriving DecidableEq, Repr

/-- `value_type` together with the member of `value` it selects. `unset` is the zero that
    `calloc` leaves when no value was recognised; `pattern` is the `JSON_STRING` type with a
    null `string_val` that a bare regular expression gets. -/
inductive FilterValue where
  | unset
  | string (s : String)
  | integer (n : Int)
  | real (q : ℚ)
  | bool (b : Bool)
  | pattern
  deriving DecidableEq

/-- `filter_expr_t`; `regexCode` is the pattern `pcre2_compile` accepted. -/
structure FilterExpr where
  field : String
  op : FilterOp
  value : FilterValue
  regexCode : Option String
  deriving DecidableEq

/-- `filter_node_t`. -/
inductive FilterNode where
  | and (left right : FilterNode)
  | or (left right : FilterNode)
  | not (operand : FilterNode)
  | expr (e : FilterExpr)
  deriving DecidableEq

/-- `pcre2_compile` and `pcre2_match` as the engine uses them: whether a pattern compiles,
    and whether a compiled pattern matches a subject. -/
class Pcre2 where
  compile : String → Bool
  exec : String → String → Bool

/-- PCRE2 on patterns without metacharacters, where matching is a substring search. Other
    patterns are rejected here. -/
@[reducible] def literalPcre2 : Pcre2 where
  compile := fun pattern => pattern.toList.all Char.isAlphanum
  exec := fun pattern subject => subject.toList.tails.any pattern.toList.isPrefixOf

end Nblex
