import Nblex.Core.FilterEngine.Parser
import Nblex.Parsers.JsonText
import Nblex.Misc.Loop

/-!
# The logfmt parser

`src/parsers/logfmt_parser.c`. A position is a suffix of the line. The loop over the pairs is one
whose turns are made under a bound, since nothing in the code bounds them. Allocation is assumed
to succeed.
-/

namespace Nblex

namespace Logfmt

/-- The characters of a key. -/
def isKeyChar (c : Char) : Bool := c ≠ '=' && !isspace c

/-- The value behind the `=` of a pair, and the position behind it. The loop over a quoted value is
    the one over a quoted string in a filter. -/
def parseValue (pos : List Char) : Option (List Char × List Char) :=
  match pos with
  | '"' :: quoted =>
      match scanQuoted quoted with
      | (body, '"' :: rest) => some (body, rest)
      | _ => none
  | _ => some (pos.takeWhile fun c => !isspace c, pos.dropWhile fun c => !isspace c)

/-- `parse_key_value_pair`: the key, the value and the position behind the pair. -/
def parseKeyValuePair (pos : List Char) : Option (List Char × List Char × List Char) :=
  match (skipSpace pos).dropWhile isKeyChar with
  | '=' :: value =>
      if (skipSpace pos).takeWhile isKeyChar = [] then none
      else (parseValue value).map fun read => ((skipSpace pos).takeWhile isKeyChar, read)
  | _ => none

/-- The first character of a number. -/
def startsNumber : List Char → Bool
  | [] => false
  | c :: _ => c = '-' || ('0' ≤ c && c ≤ '9')

/-- The value as a number, if the whole of it is one. -/
def numberValue (value : List Char) : Option Json :=
  if startsNumber value then
    let (n, rest) := strtol value
    match rest with
    | [] => some (.integer n)
    | c :: _ =>
        if c = '.' ∨ c = 'e' ∨ c = 'E' then
          let (q, rest) := strtod value
          if rest = [] then jsonReal q else none
        else none
  else none

/-- The JSON value of a pair: a number, a boolean or a string. -/
def jsonValue [Jansson] (value : List Char) : Option Json :=
  match numberValue value with
  | some number => some number
  | none =>
      if value = ['t', 'r', 'u', 'e'] then some (.bool true)
      else if value = ['f', 'a', 'l', 's', 'e'] then some (.bool false)
      else jsonString value

/-- The variables of the loop. -/
structure LineState where
  pos : List Char
  root : Json
  foundPairs : Nat

/-- One turn of the loop over the pairs of a line. -/
def lineTurn [Jansson] (state : LineState) : Turn LineState (Option Json) :=
  if state.pos = [] then .leave (if state.foundPairs = 0 then none else some state.root)
  else
    match parseKeyValuePair state.pos with
    | none => .again { state with pos := state.pos.dropWhile fun c => !isspace c }
    | some (key, value, rest) =>
        match jsonValue value with
        | none => .leave none
        | some json =>
            if Jansson.utf8CheckString key then
              .again ⟨rest, state.root.set (String.ofList key) (some json), state.foundPairs + 1⟩
            else .leave none

end Logfmt

/-- `nblex_parse_logfmt_line`, with a bound on the turns of its loop. -/
def nblexParseLogfmtLine [Jansson] (fuel : Nat) (line : List Char) : Option (Option Json) :=
  if line = [] then some none else runLoop Logfmt.lineTurn fuel ⟨line, .object [], 0⟩

end Nblex
