import Nblex.Core.FilterEngine.Grammar

/-!
# Filters with whole keywords

The reading of a filter in which `NOT`, `AND`, `OR`, `in` and `contains` are keywords only where
they end as words, and the places where the parser takes letters for a keyword that do not end
there. The parser itself compares prefixes.
-/

namespace Nblex

/-- Behind a keyword stands white space, a parenthesis or a quote. -/
def endsWord : List Char → Bool
  | c :: _ => isspace c || c = '(' || c = ')' || c = '"'
  | [] => false

/-- A `NOT` that ends there. -/
def wordNot (pos : List Char) : Bool := atNot pos && endsWord (pos.drop 3)

/-- An operator; one that is a word ends there. -/
def wordFilterOp (pos : List Char) : Option (FilterOp × List Char) :=
  match parseFilterOp pos with
  | none => none
  | some (op, rest) =>
      if (op = .isIn ∨ op = .contains) ∧ endsWord rest = false then none else some (op, rest)

/-- A connective that ends there. -/
def wordConnective (pos : List Char) :
    Option ((FilterNode → FilterNode → FilterNode) × List Char) :=
  match parseConnective pos with
  | none => none
  | some (node, rest) => if endsWord rest then some (node, rest) else none

section Reading

variable [Pcre2]

/-- One comparison. -/
def wordFilterAtom (pos : List Char) : Option (FilterNode × List Char) :=
  match pos.takeWhile isFieldChar with
  | [] => none
  | field =>
      match wordFilterOp (skipSpace (pos.dropWhile isFieldChar)) with
      | none => none
      | some (op, pos) =>
          let (value, regexCode, pos) := parseFilterValue op (skipSpace pos)
          some (.expr ⟨String.ofList field, op, value, regexCode⟩, pos)

/-- A term. -/
def wordFilterExpr : Nat → List Char → Option (FilterNode × List Char)
  | 0, _ => none
  | fuel + 1, expr =>
      match skipSpace expr with
      | '(' :: rest =>
          match wordFilterExpr fuel rest with
          | none => none
          | some (node, pos) => some (node, skipClose (skipSpace pos))
      | pos =>
          if wordNot pos then
            match wordFilterExpr fuel (pos.drop 3) with
            | none => none
            | some (operand, pos) => some (.not operand, pos)
          else wordFilterAtom pos

/-- The terms behind connectives. -/
def wordFilterLoop : Nat → FilterNode → List Char → Option (FilterNode × List Char)
  | 0, _, _ => none
  | fuel + 1, left, pos =>
      match wordConnective (skipSpace pos) with
      | none => some (left, skipSpace pos)
      | some (node, pos) =>
          match wordFilterExpr fuel pos with
          | none => none
          | some (right, pos) => wordFilterLoop fuel (node left right) pos

/-- The filter of a text. -/
def wordFilterNew (expr : List Char) : Option FilterNode :=
  match wordFilterExpr (expr.length + 1) expr with
  | none => none
  | some (left, pos) => (wordFilterLoop (expr.length + 1) left pos).map Prod.fst

end Reading

/-- In the term that begins here letters are taken for a `NOT`, an `in` or a `contains` that do not
    end there. -/
inductive TermSlips : List Char → Prop where
  | group {pos rest : List Char} (paren : skipSpace pos = '(' :: rest) (inner : TermSlips rest) :
      TermSlips pos
  | negation {pos : List Char} (negation : atNot (skipSpace pos) = true)
      (glued : endsWord ((skipSpace pos).drop 3) = false) : TermSlips pos
  | operand {pos : List Char} (negation : atNot (skipSpace pos) = true)
      (inner : TermSlips ((skipSpace pos).drop 3)) : TermSlips pos
  | operator {pos rest : List Char} {op : FilterOp} (noNegation : atNot (skipSpace pos) = false)
      (field : (skipSpace pos).takeWhile isFieldChar ≠ [])
      (operator : parseFilterOp (skipSpace ((skipSpace pos).dropWhile isFieldChar)) =
        some (op, rest))
      (word : op = .isIn ∨ op = .contains) (glued : endsWord rest = false) : TermSlips pos

/-- That happens in the first term, at the connective behind it, or further on. -/
inductive FilterSlips : List Char → Prop where
  | here {pos : List Char} (slips : TermSlips pos) : FilterSlips pos
  | connective {pos after next : List Char} {node : FilterNode → FilterNode → FilterNode}
      (term : TermRead pos after)
      (connective : parseConnective (skipSpace after) = some (node, next))
      (glued : endsWord next = false) : FilterSlips pos
  | later {pos after next : List Char} {node : FilterNode → FilterNode → FilterNode}
      (term : TermRead pos after)
      (connective : parseConnective (skipSpace after) = some (node, next))
      (slips : FilterSlips next) : FilterSlips pos

end Nblex
