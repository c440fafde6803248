import Nblex.Core.FilterEngine.Syntax
import Nblex.Misc.CString
import Nblex.Misc.Word64

/-!
# The filter parser

`parse_filter_expr`, `parse_filter_full` and `nblex_filter_new`. Positions are suffixes of
the text. Both C functions recurse or loop only after consuming a character, so the length of
the text bounds them; it is the fuel here. Allocation is assumed to succeed.
-/

namespace Nblex

/-- The characters of a field name: `isalnum(*pos) || *pos == '_' || *pos == '.'`. -/
def isFieldChar (c : Char) : Bool := isalnum c || c = '_' || c = '.'

/-- The operator at `pos`. The order of the tests is the source's: `<=` before `<`, and the
    word operators last, without a check that the word ends there. -/
def parseFilterOp (pos : List Char) : Option (FilterOp × List Char) :=
  if startsWith pos ['=', '='] then some (.eq, pos.drop 2)
  else if startsWith pos ['!', '='] then some (.ne, pos.drop 2)
  else if startsWith pos ['<', '='] then some (.le, pos.drop 2)
  else if startsWith pos ['>', '='] then some (.ge, pos.drop 2)
  else if startsWith pos ['<'] then some (.lt, pos.drop 1)
  else if startsWith pos ['>'] then some (.gt, pos.drop 1)
  else if startsWith pos ['=', '~'] then some (.patMatch, pos.drop 2)
  else if startsWith pos ['!', '~'] then some (.patNmatch, pos.drop 2)
  else if startsWith pos ['i', 'n'] then some (.isIn, pos.drop 2)
  else if startsWith pos ['c', 'o', 'n', 't', 'a', 'i', 'n', 's'] then
    some (.contains, pos.drop 8)
  else none

/-- The loop over a quoted string: the characters up to the closing quote, with each
    backslash and the character after it kept as they are, and the text from there on. -/
def scanQuoted : List Char → List Char × List Char
  | [] => ([], [])
  | '"' :: rest => ([], '"' :: rest)
  | '\\' :: c :: rest =>
      let (body, tail) := scanQuoted rest
      ('\\' :: c :: body, tail)
  | c :: rest =>
      let (body, tail) := scanQuoted rest
      (c :: body, tail)

/-- `isdigit(*pos) || (*pos == '-' && isdigit(*(pos + 1)))`. -/
def startsNumber : List Char → Bool
  | '-' :: c :: _ => isdigit c
  | c :: _ => isdigit c
  | [] => false

/-- The value at `pos`, with the compiled pattern if it is one. A number is read as a real
    when `strchr(pos, '.')` finds a dot anywhere in the rest of the text. -/
def parseFilterValue [Pcre2] (op : FilterOp) (pos : List Char) :
    FilterValue × Option String × List Char :=
  match pos with
  | '"' :: rest =>
      match scanQuoted rest with
      | (body, '"' :: tail) => (.string (String.ofList body), none, tail)
      | (_, tail) => (.unset, none, tail)
  | _ =>
      if startsNumber pos then
        if pos.contains '.' then
          let (value, tail) := strtod pos
          (.real value, none, tail)
        else
          let (value, tail) := strtol pos
          (.integer (toInt32 value), none, tail)
      else if startsWith pos ['t', 'r', 'u', 'e'] then (.bool true, none, pos.drop 4)
      else if startsWith pos ['f', 'a', 'l', 's', 'e'] then (.bool false, none, pos.drop 5)
      else if op = .patMatch ∨ op = .patNmatch then
        let pattern := String.ofList (pos.takeWhile (fun c => !isspace c))
        (.pattern, if Pcre2.compile pattern then some pattern else none,
          pos.dropWhile (fun c => !isspace c))
      else (.unset, none, pos)

/-- One comparison: field, operator, value. -/
def parseFilterAtom [Pcre2] (pos : List Char) : Option (FilterNode × List Char) :=
  match pos.takeWhile isFieldChar with
  | [] => none
  | field =>
      match parseFilterOp (skipSpace (pos.dropWhile isFieldChar)) with
      | none => none
      | some (op, pos) =>
          let (value, regexCode, pos) := parseFilterValue op (skipSpace pos)
          some (.expr ⟨String.ofList field, op, value, regexCode⟩, pos)

/-- `strncmp(pos, "NOT", 3) == 0 || strncmp(pos, "not", 3) == 0`. -/
def atNot (pos : List Char) : Bool :=
  startsWith pos ['N', 'O', 'T'] || startsWith pos ['n', 'o', 't']

/-- `if (*pos == ')') pos++`. -/
def skipClose : List Char → List Char
  | ')' :: rest => rest
  | pos => pos

/-- `parse_filter_expr`: a parenthesis or a `NOT` is followed by a call of the function
    itself, which reads a single term and no `AND` or `OR`. -/
def parseFilterExpr [Pcre2] : Nat → List Char → Option (FilterNode × List Char)
  | 0, _ => none
  | fuel + 1, expr =>
      match skipSpace expr with
      | '(' :: rest =>
          match parseFilterExpr fuel rest with
          | none => none
          | some (node, pos) => some (node, skipClose (skipSpace pos))
      | pos =>
          if atNot pos then
            match parseFilterExpr fuel (pos.drop 3) with
            | none => none
            | some (operand, pos) => some (.not operand, pos)
          else parseFilterAtom pos

attribute [grind =] parseFilterExpr

/-- The connective at `pos`, as the node it builds. -/
def parseConnective (pos : List Char) :
    Option ((FilterNode → FilterNode → FilterNode) × List Char) :=
  if startsWith pos ['A', 'N', 'D'] || startsWith pos ['a', 'n', 'd'] then
    some (.and, pos.drop 3)
  else if startsWith pos ['O', 'R'] || startsWith pos ['o', 'r'] then some (.or, pos.drop 2)
  else none

/-- The loop of `parse_filter_full`: the tree so far and the text it has not read yet. A text
    that is no connective ends the loop, and what is left of it is dropped. -/
def parseFilterLoop [Pcre2] : Nat → FilterNode → List Char →
    Option (FilterNode × List Char)
  | 0, _, _ => none
  | fuel + 1, left, pos =>
      match parseConnective (skipSpace pos) with
      | none => some (left, skipSpace pos)
      | some (node, pos) =>
          match parseFilterExpr fuel pos with
          | none => none
          | some (right, pos) => parseFilterLoop fuel (node left right) pos

/-- `parse_filter_full`. -/
def parseFilterFull [Pcre2] (expr : List Char) : Option FilterNode :=
  match parseFilterExpr (expr.length + 1) expr with
  | none => none
  | some (left, pos) => (parseFilterLoop (expr.length + 1) left pos).map Prod.fst

/-- `nblex_filter_new`: the root of the filter, or `none` for `NULL`. -/
def nblexFilterNew [Pcre2] (expression : List Char) : Option FilterNode :=
  parseFilterFull expression

end Nblex
