import Nblex.Core.FilterEngine.Parser
import Nblex.Parsers.NqlQuery
import Mathlib.Data.List.DropRight

/-!
# The nQL parser

`src/parsers/nql_parser.c`. A position is a suffix of the input; a function of the parser returns
what it has read and the position after it, or the message of `parser_set_error`. The loops run
only as long as they consume a character, so the length of the input bounds them; it is the fuel
here. Allocation is assumed to succeed.
-/

namespace Nblex

namespace NqlParser

/-- `DEFAULT_CORRELATE_WITHIN_MS`. -/
def defaultCorrelateWithinMs : Nat := 100

/-- What is read and the position after it, or an error. -/
abbrev Parsed (α : Type) := Except String (α × List Char)

/-- Go on from what has been read; an error ends the parse. -/
def andThen {α β : Type} (read : Parsed α) (next : α → List Char → Parsed β) : Parsed β :=
  match read with
  | .error message => .error message
  | .ok (value, pos) => next value pos

/-- `isalpha`. -/
def isalpha (c : Char) : Bool := c.isAlpha

/-- `strtoull(pos, &end, 10)`: `none` where `end` is `pos`. A minus sign negates in the unsigned
    type, a value out of range is `ULLONG_MAX`. -/
def strtoull (pos : List Char) : Option (Nat × List Char) :=
  let (negative, unsigned) := takeSign (skipSpace pos)
  match unsigned.takeWhile isdigit with
  | [] => none
  | digits =>
      let value := decimalValue digits
      some (if u64Max < value then u64Max else if negative then u64Sub 0 value else value,
        unsigned.dropWhile isdigit)

/-- `strncasecmp(pos, keyword, strlen(keyword)) == 0`. -/
def startsWithCase (pos keyword : List Char) : Bool :=
  startsWith (pos.map Char.toLower) (keyword.map Char.toLower)

/-- The character after a keyword ends it. -/
def endsKeyword : List Char → Bool
  | [] => true
  | next :: _ => isspace next || next = '(' || next = ')' || next = ','

/-- The character before a keyword, if there is one, lets it start. -/
def beginsKeyword : Option Char → Bool
  | none => true
  | some prev => isspace prev || prev = '(' || prev = ','

/-- `consume_char`: blanks are skipped in either case. -/
def consumeChar (expected : Char) (pos : List Char) : Bool × List Char :=
  match skipSpace pos with
  | [] => (false, [])
  | c :: rest => if c = expected then (true, rest) else (false, c :: rest)

/-- `match_keyword`: blanks are skipped in either case. -/
def matchKeyword (keyword pos : List Char) : Bool × List Char :=
  if startsWithCase (skipSpace pos) keyword &&
      endsKeyword ((skipSpace pos).drop keyword.length) then
    (true, (skipSpace pos).drop keyword.length)
  else (false, skipSpace pos)

/-- `keyword_at_position`, given the character before the position. -/
def keywordAtPosition (prev : Option Char) (position keyword : List Char) : Bool :=
  startsWithCase position keyword && beginsKeyword prev &&
    endsKeyword (position.drop keyword.length)

/-- `parse_identifier`; every caller reports an error on `NULL`. -/
def parseIdentifier (pos : List Char) : Option (String × List Char) :=
  match skipSpace pos with
  | [] => none
  | c :: rest =>
      if isalpha c || c = '_' then
        some (String.ofList ((c :: rest).takeWhile isFieldChar), (c :: rest).dropWhile isFieldChar)
      else none

/-- `parse_identifier` with the message of its caller. -/
def parseField (message : String) (pos : List Char) : Parsed String :=
  match parseIdentifier pos with
  | none => .error message
  | some read => .ok read

/-- `parse_duration`. -/
def parseDuration (pos : List Char) : Parsed Nat :=
  match strtoull (skipSpace pos) with
  | none => .error "expected duration value"
  | some (value, rest) =>
      let rest := skipSpace rest
      if startsWith rest ['m', 's'] then .ok (u64Mul value 1, rest.drop 2)
      else if startsWith rest ['s'] then .ok (u64Mul value 1000, rest.drop 1)
      else if startsWith rest ['m'] then .ok (u64Mul value (60 * 1000), rest.drop 1)
      else if startsWith rest ['h'] then .ok (u64Mul value (60 * 60 * 1000), rest.drop 1)
      else .error "expected duration unit (ms, s, m, h)"

/-! ## Embedded filters -/

/-- Put a character in front of what was scanned. -/
def keep (c : Char) (scanned : List Char × List Char) : List Char × List Char :=
  (c :: scanned.1, scanned.2)

/-- The loop of `parse_filter_expr`: what it runs over, and `current` where it stops. `quote` is
    the open quote of `in_single` and `in_double`. -/
def scanFilter (keywords : List (List Char)) (stopOnPipe : Bool) :
    Option Char → Option Char → Nat → List Char → List Char × List Char
  | _, _, _, [] => ([], [])
  | _, some quote, depth, '\\' :: c :: rest =>
      keep '\\' (keep c (scanFilter keywords stopOnPipe (some c) (some quote) depth rest))
  | _, some quote, depth, ch :: rest =>
      keep ch (scanFilter keywords stopOnPipe (some ch)
        (if ch = quote then none else some quote) depth rest)
  | prev, none, depth, ch :: rest =>
      if ch = '\'' ∨ ch = '"' then
        keep ch (scanFilter keywords stopOnPipe (some ch) (some ch) depth rest)
      else if ch = '(' then
        keep ch (scanFilter keywords stopOnPipe (some ch) none (depth + 1) rest)
      else if ch = ')' then
        keep ch (scanFilter keywords stopOnPipe (some ch) none (depth - 1) rest)
      else if stopOnPipe ∧ ch = '|' ∧ depth = 0 then ([], ch :: rest)
      else if depth = 0 ∧ keywords.any (keywordAtPosition prev (ch :: rest)) then ([], ch :: rest)
      else keep ch (scanFilter keywords stopOnPipe (some ch) none depth rest)

attribute [grind =] scanFilter

/-- `*(position - 1)`; `none` at the start of the input. -/
def charBefore (input position : List Char) : Option Char :=
  (input.take (input.length - position.length)).getLast?

/-- `parse_filter_expr`. -/
def parseFilterExpr [Pcre2] (input : List Char) (keywords : List (List Char))
    (stopOnPipe : Bool) (pos : List Char) : Parsed FilterNode :=
  let start := skipSpace pos
  let (scanned, current) := scanFilter keywords stopOnPipe (charBefore input start) none 0 start
  let buffer := scanned.rdropWhile isspace
  if buffer = [] then .error "expected filter expression"
  else
    match nblexFilterNew buffer with
    | none => .error "invalid filter expression"
    | some filter => .ok (filter, current)

/-! ## Aggregations -/

/-- The closing parenthesis after a value. -/
def closeWith {α : Type} (message : String) (value : α) (pos : List Char) : Parsed α :=
  match consumeChar ')' pos with
  | (true, pos) => .ok (value, pos)
  | (false, _) => .error message

/-- The functions of one field, by name. -/
def fieldFuncType (funcName : String) : Option AggFuncType :=
  if funcName = "sum" then some .sum
  else if funcName = "avg" then some .avg
  else if funcName = "min" then some .min
  else if funcName = "max" then some .max
  else if funcName = "distinct" then some .distinct
  else none

/-- The arguments of `percentile`. -/
def parsePercentile (pos : List Char) : Parsed AggFunc :=
  andThen (parseField "expected field name in percentile()" pos) fun field pos =>
  match consumeChar ',' pos with
  | (false, _) => .error "expected ',' in percentile()"
  | (true, pos) =>
      let (percentile, tail) := strtodDouble (skipSpace pos)
      if tail = skipSpace pos then .error "expected percentile value"
      else closeWith "expected ')' after percentile()" ⟨.percentile, some field, percentile⟩ tail

/-- `parse_agg_function`; the name has to fit into `char func_name[32]`. -/
def parseAggFunction (pos : List Char) : Parsed AggFunc :=
  let name := (skipSpace pos).takeWhile isalpha
  if name = [] then .error "expected aggregation function"
  else if 32 ≤ name.length then .error "aggregation function name too long"
  else
    let funcName := String.ofList (name.map Char.toLower)
    match consumeChar '(' ((skipSpace pos).dropWhile isalpha) with
    | (false, _) => .error "expected '(' after aggregation function"
    | (true, pos) =>
        if funcName = "count" then closeWith "expected ')' after count()" ⟨.count, none, 0⟩ pos
        else if funcName = "percentile" then parsePercentile pos
        else
          match fieldFuncType funcName with
          | none => .error ("unknown aggregation function '" ++ funcName ++ "'")
          | some type =>
              andThen (parseField "expected field name for aggregation" pos) fun field pos =>
              closeWith "expected ')' after aggregation" ⟨type, some field, 0⟩ pos

/-- A loop `while (consume_char(parser, ','))` over items. -/
def commaLoop {α : Type} (item : List Char → Parsed α) : Nat → List Char → Parsed (List α)
  | 0, pos => .ok ([], pos)
  | fuel + 1, pos =>
      match consumeChar ',' pos with
      | (false, pos) => .ok ([], pos)
      | (true, pos) =>
          andThen (item pos) fun first pos =>
          andThen (commaLoop item fuel pos) fun rest pos =>
          .ok (first :: rest, pos)

/-- A list of items with commas between them. -/
def commaList {α : Type} (item : List Char → Parsed α) (pos : List Char) : Parsed (List α) :=
  andThen (item pos) fun first rest =>
  andThen (commaLoop item (rest.length + 1) rest) fun items pos =>
  .ok (first :: items, pos)

/-- The durations in the parentheses of a window: `tumbling(size)`, `sliding(size, slide)` and
    `session(timeout)`. -/
def parseWindowSize (name : String) (pos : List Char) : Parsed Nat :=
  match consumeChar '(' pos with
  | (false, _) => .error ("expected '(' after " ++ name)
  | (true, pos) => parseDuration pos

/-- The slide of a sliding window. -/
def parseSlide (pos : List Char) : Parsed Nat :=
  match consumeChar ',' pos with
  | (false, _) => .error "expected ',' in sliding window"
  | (true, pos) => parseDuration pos

/-- What follows the keyword `window`; a bare duration is a tumbling window. -/
def parseWindow (pos : List Char) : Parsed Window :=
  match matchKeyword "tumbling".toList pos with
  | (true, pos) =>
      andThen (parseWindowSize "tumbling" pos) fun size pos =>
      closeWith "expected ')' after tumbling window" ⟨.tumbling, size, 0, 0⟩ pos
  | (false, pos) =>
      match matchKeyword "sliding".toList pos with
      | (true, pos) =>
          andThen (parseWindowSize "sliding" pos) fun size pos =>
          andThen (parseSlide pos) fun slide pos =>
          closeWith "expected ')' after sliding window" ⟨.sliding, size, slide, 0⟩ pos
      | (false, pos) =>
          match matchKeyword "session".toList pos with
          | (true, pos) =>
              andThen (parseWindowSize "session" pos) fun timeout pos =>
              closeWith "expected ')' after session window" ⟨.session, 0, 0, timeout⟩ pos
          | (false, pos) =>
              andThen (parseDuration pos) fun size pos =>
              .ok (⟨.tumbling, size, 0, 0⟩, pos)

/-! ## Statements -/

/-- An optional clause: its keyword and what follows it, or the value without it. -/
def parseClause {α : Type} (keyword : String) (clause : List Char → Parsed α) (without : α)
    (pos : List Char) : Parsed α :=
  match matchKeyword keyword.toList pos with
  | (true, pos) => clause pos
  | (false, pos) => .ok (without, pos)

section Statements

variable [Pcre2]

/-- A `where` clause. -/
def parseWhere (input : List Char) (keywords : List (List Char)) (pos : List Char) :
    Parsed (Option FilterNode) :=
  parseClause "where" (fun pos =>
    andThen (parseFilterExpr input keywords true pos) fun filter pos =>
    .ok (some filter, pos)) none pos

/-- `parse_correlate`; `none` is `NULL` without an error. -/
def parseCorrelate (input pos : List Char) : Option (Parsed Stage) :=
  match matchKeyword "correlate".toList pos with
  | (false, _) => none
  | (true, pos) => some <|
      andThen (parseFilterExpr input ["with".toList, "within".toList, "|".toList] true pos)
        fun left pos =>
      match matchKeyword "with".toList pos with
      | (false, _) => .error "expected 'with' in correlate clause"
      | (true, pos) =>
          andThen (parseFilterExpr input ["within".toList, "|".toList] true pos) fun right pos =>
          andThen (parseClause "within" parseDuration 0 pos) fun within pos =>
          .ok (.correlate ⟨left, right,
            if within = 0 then defaultCorrelateWithinMs else within⟩, pos)

/-- The function list of an aggregation, in parentheses or not. -/
def parseFunctions (pos : List Char) : Parsed (List AggFunc) :=
  match consumeChar '(' pos with
  | (false, pos) => commaList parseAggFunction pos
  | (true, pos) =>
      andThen (commaList parseAggFunction pos) fun funcs pos =>
      closeWith "expected ')' after aggregation function list" funcs pos

/-- `parse_aggregate`. -/
def parseAggregate (input pos : List Char) : Option (Parsed Stage) :=
  match matchKeyword "aggregate".toList pos with
  | (false, _) => none
  | (true, pos) => some <|
      andThen (parseFunctions pos) fun funcs pos =>
      andThen (parseClause "by" (commaList (parseField "expected field after 'by'")) [] pos)
        fun fields pos =>
      andThen (parseWhere input ["window".toList, "|".toList] pos) fun filter pos =>
      andThen (parseClause "window" parseWindow ⟨.none, 0, 0, 0⟩ pos) fun window pos =>
      .ok (.aggregate ⟨funcs, fields, filter, window⟩, pos)

/-- The fields of a `show`, whose messages for the first and the other fields differ. -/
def parseShowFields (pos : List Char) : Parsed (List String) :=
  andThen (parseField "expected field list for show" pos) fun first rest =>
  andThen (commaLoop (parseField "expected field in show list") (rest.length + 1) rest)
    fun fields pos =>
  .ok (first :: fields, pos)

/-- `parse_show`. -/
def parseShow (input pos : List Char) : Option (Parsed Stage) :=
  match matchKeyword "show".toList pos with
  | (false, _) => none
  | (true, pos) => some <|
      match consumeChar '*' pos with
      | (true, pos) =>
          andThen (parseWhere input ["|".toList] pos) fun filter pos =>
          .ok (.show ⟨[], true, filter⟩, pos)
      | (false, pos) =>
          andThen (parseShowFields pos) fun fields pos =>
          andThen (parseWhere input ["|".toList] pos) fun filter pos =>
          .ok (.show ⟨fields, false, filter⟩, pos)

/-- `parse_select_all`. -/
def parseSelectAll (input pos : List Char) : Option (Parsed Stage) :=
  match consumeChar '*' pos with
  | (false, _) => none
  | (true, pos) => some <|
      andThen (parseWhere input ["|".toList] pos) fun filter pos =>
      .ok (.show ⟨[], true, filter⟩, pos)

/-- `parse_filter_query`. -/
def parseFilterQuery (input pos : List Char) : Parsed Stage :=
  andThen (parseFilterExpr input ["|".toList] true pos) fun filter pos =>
  .ok (.filter filter, pos)

/-- `parse_single_query`: the statement forms in the order they are tried, each from the same
    position. -/
def parseSingleQuery (input pos : List Char) : Parsed Stage :=
  match parseCorrelate input pos with
  | some query => query
  | none =>
      match parseAggregate input pos with
      | some query => query
      | none =>
          match parseShow input pos with
          | some query => query
          | none =>
              match parseSelectAll input pos with
              | some query => query
              | none => parseFilterQuery input pos

/-- The loop of `parse_pipeline` over the stages after the first. -/
def parseStages (input : List Char) : Nat → List Char → Parsed (List Stage)
  | 0, pos => .ok ([], pos)
  | fuel + 1, pos =>
      match skipSpace pos with
      | '|' :: pos =>
          andThen (parseSingleQuery input pos) fun stage pos =>
          andThen (parseStages input fuel pos) fun stages pos =>
          .ok (stage :: stages, pos)
      | pos => .ok ([], pos)

/-- `parse_pipeline`: a single stage is not made a pipeline. -/
def parsePipeline (input pos : List Char) : Parsed NqlQuery :=
  andThen (parseSingleQuery input pos) fun first pos =>
  andThen (parseStages input (input.length + 1) pos) fun stages pos =>
  .ok (if stages = [] then .single first else .pipeline (first :: stages), pos)

end Statements

end NqlParser

open NqlParser in
/-- `nql_parse_ex` with `parse_entry`: the query or the error message. -/
def nqlParseEx [Pcre2] (queryStr : List Char) : Except String NqlQuery :=
  if skipSpace queryStr = [] then .error "empty query"
  else
    match parsePipeline queryStr (skipSpace queryStr) with
    | .error message => .error message
    | .ok (query, pos) =>
        if skipSpace pos = [] then .ok query else .error "unexpected trailing input"

/-- `nql_parse`. -/
def nqlParse [Pcre2] (queryStr : List Char) : Option NqlQuery := (nqlParseEx queryStr).toOption

end Nblex
