import Nblex.Core.FilterEngine.Proofs.Atoms

/-!
# Well-formed filters

The grammar of filter expressions over tokens, and the texts that spell them; and, for comparison,
where the parser stops for want of a term. `parse_filter_expr` gives up only where it finds no
field or no operator, and `parse_filter_full` looks for a term only at the start and behind a
connective that it reaches.
-/

namespace Nblex

/-- A quoted string, a number or a boolean. -/
inductive LiteralText : List Char → Prop where
  | string {body : List Char} (quoted : Quoted body) : LiteralText ('"' :: (body ++ ['"']))
  | number {text : List Char} (number : startsNumber text = true) (whole : (strtod text).2 = []) :
      LiteralText text
  | isTrue : LiteralText ['t', 'r', 'u', 'e']
  | isFalse : LiteralText ['f', 'a', 'l', 's', 'e']

/-- The tokens of a filter. -/
inductive FilterToken where
  | field
  | op (op : FilterOp)
  | literal
  | pattern
  | and
  | or
  | not
  | opening
  | closing

/-- The texts of a token. -/
inductive FilterToken.Spelling : FilterToken → List Char → Prop where
  | field {name : List Char} (nonempty : name ≠ []) (chars : ∀ c ∈ name, isFieldChar c = true) :
      Spelling .field name
  | op (op : FilterOp) : Spelling (.op op) op.text
  | literal {text : List Char} (literal : LiteralText text) : Spelling .literal text
  | pattern {text : List Char} (nonempty : text ≠ []) (solid : ∀ c ∈ text, isspace c = false) :
      Spelling .pattern text
  | and : Spelling .and ['A', 'N', 'D']
  | andLower : Spelling .and ['a', 'n', 'd']
  | or : Spelling .or ['O', 'R']
  | orLower : Spelling .or ['o', 'r']
  | not : Spelling .not ['N', 'O', 'T']
  | notLower : Spelling .not ['n', 'o', 't']
  | opening : Spelling .opening ['(']
  | closing : Spelling .closing [')']

/-- What may stand directly behind a token: a name ends where no character of names follows, and a
    pattern at a blank, a closing parenthesis or the end. -/
def FilterToken.EndsBefore : FilterToken → List Char → Prop
  | .field, rest => ∀ c ∈ rest.head?, isFieldChar c = false
  | .pattern, rest => ∀ c ∈ rest.head?, isspace c = true ∨ c = ')'
  | _, _ => True

/-- The text spells the tokens, with blanks between them where one likes. -/
inductive Spells : List FilterToken → List Char → Prop where
  | nil {blanks : List Char} (blank : ∀ c ∈ blanks, isspace c = true) : Spells [] blanks
  | cons {token : FilterToken} {tokens : List FilterToken} {blanks text rest : List Char}
      (blank : ∀ c ∈ blanks, isspace c = true) (spelling : token.Spelling text)
      (ends : token.EndsBefore rest) (spells : Spells tokens rest) :
      Spells (token :: tokens) (blanks ++ (text ++ rest))

/-- The filter expressions: comparisons of a field with a literal, matches of a field with a
    pattern, negations, connections and groups. -/
inductive FilterExpression : List FilterToken → Prop where
  | comparison (op : FilterOp) : FilterExpression [.field, .op op, .literal]
  | matching {op : FilterOp} (isMatch : op = .patMatch ∨ op = .patNmatch) :
      FilterExpression [.field, .op op, .pattern]
  | not {tokens : List FilterToken} (operand : FilterExpression tokens) :
      FilterExpression (.not :: tokens)
  | and {left right : List FilterToken} (first : FilterExpression left)
      (second : FilterExpression right) : FilterExpression (left ++ .and :: right)
  | or {left right : List FilterToken} (first : FilterExpression left)
      (second : FilterExpression right) : FilterExpression (left ++ .or :: right)
  | group {tokens : List FilterToken} (inner : FilterExpression tokens) :
      FilterExpression (.opening :: (tokens ++ [.closing]))

/-- The whole text is one filter expression. -/
def WellFormedFilter (text : List Char) : Prop :=
  ∃ tokens, FilterExpression tokens ∧ Spells tokens text

/-- No term begins here: behind blanks, opening parentheses and `NOT`s there is no field, or no
    operator behind it. -/
inductive TermMissing : List Char → Prop where
  | group {pos rest : List Char} (paren : skipSpace pos = '(' :: rest)
      (missing : TermMissing rest) :
      TermMissing pos
  | not {pos : List Char} (negation : atNot (skipSpace pos) = true)
      (missing : TermMissing ((skipSpace pos).drop 3)) : TermMissing pos
  | field {pos : List Char} (noParen : (skipSpace pos).head? ≠ some '(')
      (noField : (skipSpace pos).takeWhile isFieldChar = []) : TermMissing pos
  | operator {pos : List Char} (noNegation : atNot (skipSpace pos) = false)
      (field : (skipSpace pos).takeWhile isFieldChar ≠ [])
      (noOperator : parseFilterOp (skipSpace ((skipSpace pos).dropWhile isFieldChar)) = none) :
      TermMissing pos

/-- The text behind what the parser takes for the value: a quoted text up to its closing quote or
    to the end, the digits of a number, a boolean, a pattern, and nothing of any other text. -/
def literalEnd (op : FilterOp) : List Char → List Char
  | '"' :: rest => (scanQuoted rest).2.drop 1
  | pos =>
      if startsNumber pos then if pos.contains '.' then (strtod pos).2 else (strtol pos).2
      else if startsWith pos ['t', 'r', 'u', 'e'] then pos.drop 4
      else if startsWith pos ['f', 'a', 'l', 's', 'e'] then pos.drop 5
      else if op = .patMatch ∨ op = .patNmatch then pos.dropWhile (fun c => !isspace c)
      else pos

/-- The term that begins here, and the text behind it. A parenthesis that closes it is part of the
    term when it is there. -/
inductive TermRead : List Char → List Char → Prop where
  | group {pos rest after : List Char} (paren : skipSpace pos = '(' :: rest)
      (inner : TermRead rest after) : TermRead pos (skipClose (skipSpace after))
  | not {pos after : List Char} (negation : atNot (skipSpace pos) = true)
      (operand : TermRead ((skipSpace pos).drop 3) after) : TermRead pos after
  | comparison {pos rest : List Char} {op : FilterOp} (noNegation : atNot (skipSpace pos) = false)
      (field : (skipSpace pos).takeWhile isFieldChar ≠ [])
      (operator : parseFilterOp (skipSpace ((skipSpace pos).dropWhile isFieldChar)) =
        some (op, rest)) :
      TermRead pos (literalEnd op (skipSpace rest))

/-- A term is missing at the start or behind a connective that follows on the terms before. -/
inductive RejectedFilter : List Char → Prop where
  | here {pos : List Char} (missing : TermMissing pos) : RejectedFilter pos
  | later {pos after next : List Char} {node : FilterNode → FilterNode → FilterNode}
      (term : TermRead pos after)
      (connective : parseConnective (skipSpace after) = some (node, next))
      (rejected : RejectedFilter next) : RejectedFilter pos

end Nblex
