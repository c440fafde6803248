import Nblex.Core.FilterEngine.FilterReads
import Nblex.Parsers.NqlParser

/-!
# What the nQL parser reads

The functions of `src/parsers/nql_parser.c` once more, on the parser that they share: a pointer into
the text in memory and the error message beside it. Every character is read where the source reads
it, `none` is `NULL`, and an alternative that has returned `NULL` is left by putting the pointer
back. `turns` bounds the turns of each loop.
-/

namespace Nblex

namespace NqlReads

open NqlParser (isalpha strtoull fieldFuncType defaultCorrelateWithinMs)

/-- `nql_parser_t`; its input is the text. -/
structure Parser where
  pos : Nat
  errorMsg : Option String := none

/-- `parser_set_error`: the first message stays; it is printed into `char buffer[256]`. -/
def parserSetError (parser : Parser) (message : String) : Parser :=
  match parser.errorMsg with
  | some _ => parser
  | none => { parser with errorMsg := some (String.ofList (message.toList.take 255)) }

/-- `NULL` with a message. -/
def fail {α : Type} (message : String) (parser : Parser) : Except Fault (Option α × Parser) :=
  pure (none, parserSetError parser message)

/-- Go on from a result; `NULL` is passed on. -/
def unlessNull {α β : Type} (read : Except Fault (Option α × Parser))
    (next : α → Parser → Except Fault (Option β × Parser)) :
    Except Fault (Option β × Parser) := do
  match ← read with
  | (none, parser) => pure (none, parser)
  | (some value, parser) => next value parser

/-- The character after a keyword ends it. -/
def endsKeyword (next : Char) : Bool :=
  next = nul || (isspace next || next = '(' || next = ')' || next = ',')

/-- The character before a keyword lets it start. -/
def beginsKeyword (prev : Char) : Bool :=
  prev = nul || (isspace prev || prev = '(' || prev = ',')

section Words

variable (text : List Char) (turns : Nat)

/-- `skip_whitespace`. -/
def skipWhitespace (parser : Parser) : Except Fault Parser := do
  let pos ← scanWhile text isspace turns parser.pos
  pure { parser with pos := pos }

/-- `consume_char`. -/
def consumeChar (expected : Char) (parser : Parser) : Except Fault (Bool × Parser) := do
  let parser ← skipWhitespace text turns parser
  let c ← readAt text parser.pos
  if c = expected then pure (true, { parser with pos := parser.pos + 1 })
  else pure (false, parser)

/-- `match_keyword`. -/
def matchKeyword (keyword : List Char) (parser : Parser) : Except Fault (Bool × Parser) := do
  let parser ← skipWhitespace text turns parser
  if ← matchesAt text Char.toLower parser.pos keyword then do
    let next ← readAt text (parser.pos + keyword.length)
    if endsKeyword next then pure (true, { parser with pos := parser.pos + keyword.length })
    else pure (false, parser)
  else pure (false, parser)

/-- `(position == parser->input) ? '\0' : *(position - 1)`. -/
def charInFront (position : Nat) : Except Fault Char :=
  if position = 0 then pure nul else readBack text position

/-- `keyword_at_position`. -/
def keywordAtPosition (position : Nat) (keyword : List Char) : Except Fault Bool := do
  if ← matchesAt text Char.toLower position keyword then do
    let prev ← charInFront text position
    if beginsKeyword prev then do
      let next ← readAt text (position + keyword.length)
      pure (endsKeyword next)
    else pure false
  else pure false

/-- One of the keywords stands there. -/
def anyKeyword (position : Nat) : List (List Char) → Except Fault Bool
  | [] => pure false
  | keyword :: keywords => do
      if ← keywordAtPosition text position keyword then pure true else anyKeyword position keywords

/-- `parse_identifier`. -/
def parseIdentifier (parser : Parser) : Except Fault (Option String × Parser) := do
  let parser ← skipWhitespace text turns parser
  let c ← readAt text parser.pos
  if isalpha c || c = '_' then do
    let pos ← scanWhile text isFieldChar turns parser.pos
    let name ← copyFrom text parser.pos (pos - parser.pos)
    pure (some (String.ofList name), { parser with pos := pos })
  else pure (none, parser)

/-- `parse_identifier` with the message of its caller. -/
def parseField (message : String) (parser : Parser) : Except Fault (Option String × Parser) := do
  match ← parseIdentifier text turns parser with
  | (none, parser) => fail message parser
  | (some field, parser) => pure (some field, parser)

/-- `parser->pos[0] == 'm' && parser->pos[1] == 's'`. -/
def atMilliseconds (pos : Nat) : Except Fault Bool := do
  let c ← readAt text pos
  if c = 'm' then do
    let next ← readAt text (pos + 1)
    pure (next = 's')
  else pure false

/-- `parse_duration`; `strtoull` is given the pointer. -/
def parseDuration (parser : Parser) : Except Fault (Nat × Parser) := do
  let parser ← skipWhitespace text turns parser
  let rest ← stringAt text parser.pos
  match strtoull rest with
  | none => pure (0, parserSetError parser "expected duration value")
  | some (value, tail) => do
      let parser ← skipWhitespace text turns { parser with pos := text.length - tail.length }
      let milliseconds ← atMilliseconds text parser.pos
      let c ← readAt text parser.pos
      if milliseconds then pure (u64Mul value 1, { parser with pos := parser.pos + 2 })
      else if c = 's' then pure (u64Mul value 1000, { parser with pos := parser.pos + 1 })
      else if c = 'm' then pure (u64Mul value (60 * 1000), { parser with pos := parser.pos + 1 })
      else if c = 'h' then
        pure (u64Mul value (60 * 60 * 1000), { parser with pos := parser.pos + 1 })
      else pure (0, parserSetError parser "expected duration unit (ms, s, m, h)")

/-- `parse_duration` and the test of `parser->error_msg` behind each of its calls. -/
def durationOrNull (parser : Parser) : Except Fault (Option Nat × Parser) := do
  let (value, parser) ← parseDuration text turns parser
  if parser.errorMsg.isSome then pure (none, parser) else pure (some value, parser)

end Words

/-! ## Embedded filters -/

section Filters

variable (text : List Char)

/-- `ch == '\\' && current[1]`. -/
def escapes (ch : Char) (current : Nat) : Except Fault Bool := do
  if ch = '\\' then do
    let next ← readAt text (current + 1)
    pure (next ≠ nul)
  else pure false

/-- The loop of `parse_filter_expr`, with `in_single`, `in_double` and `paren_depth`. -/
def scanFilter (keywords : List (List Char)) (stopOnPipe : Bool) :
    Nat → Bool → Bool → Nat → Nat → Except Fault Nat
  | 0, _, _, _, _ => .error .turns
  | turns + 1, inSingle, inDouble, depth, current => do
      let ch ← readAt text current
      if ch = nul then pure current
      else if inSingle then do
        if ← escapes text ch current then
          scanFilter keywords stopOnPipe turns true inDouble depth (current + 2)
        else scanFilter keywords stopOnPipe turns (ch ≠ '\'') inDouble depth (current + 1)
      else if inDouble then do
        if ← escapes text ch current then
          scanFilter keywords stopOnPipe turns false true depth (current + 2)
        else scanFilter keywords stopOnPipe turns false (ch ≠ '"') depth (current + 1)
      else if ch = '\'' then scanFilter keywords stopOnPipe turns true false depth (current + 1)
      else if ch = '"' then scanFilter keywords stopOnPipe turns false true depth (current + 1)
      else if ch = '(' then
        scanFilter keywords stopOnPipe turns false false (depth + 1) (current + 1)
      else if ch = ')' then
        scanFilter keywords stopOnPipe turns false false (depth - 1) (current + 1)
      else if stopOnPipe ∧ ch = '|' ∧ depth = 0 then pure current
      else if depth = 0 then do
        if ← anyKeyword text current keywords then pure current
        else scanFilter keywords stopOnPipe turns false false depth (current + 1)
      else scanFilter keywords stopOnPipe turns false false depth (current + 1)

attribute [grind =] scanFilter

/-- `while (end > start && isspace(*(end - 1))) end--`. -/
def trimEnd (start : Nat) : Nat → Nat → Except Fault Nat
  | 0, _ => .error .turns
  | turns + 1, stop => do
      if start < stop then do
        let c ← readBack text stop
        if isspace c then trimEnd start turns (stop - 1) else pure stop
      else pure stop

variable (turns : Nat)

/-- `parse_filter_expr`; the filter parser is given a copy of the text. -/
def parseFilterExpr [Pcre2] (keywords : List (List Char)) (stopOnPipe : Bool) (parser : Parser) :
    Except Fault (Option FilterNode × Parser) := do
  let parser ← skipWhitespace text turns parser
  let start := parser.pos
  let current ← scanFilter text keywords stopOnPipe turns false false 0 start
  let stop ← trimEnd text start turns current
  if stop = start then fail "expected filter expression" parser
  else do
    let buffer ← copyFrom text start (stop - start)
    match ← FilterReads.nblexFilterNew buffer turns with
    | none => fail "invalid filter expression" parser
    | some filter => pure (some filter, { parser with pos := current })

end Filters

/-! ## Aggregations -/

section Aggregations

variable (text : List Char) (turns : Nat)

/-- The closing parenthesis after a value. -/
def closeWith {α : Type} (message : String) (value : α) (parser : Parser) :
    Except Fault (Option α × Parser) := do
  let (closed, parser) ← consumeChar text turns ')' parser
  if closed then pure (some value, parser) else fail message parser

/-- The end of an aggregation function, whose blanks are skipped first. -/
def closeFunction (message : String) (func : AggFunc) (parser : Parser) :
    Except Fault (Option AggFunc × Parser) := do
  let parser ← skipWhitespace text turns parser
  closeWith text turns message func parser

/-- The arguments of `percentile`; `strtod` is given the pointer. -/
def parsePercentile (parser : Parser) : Except Fault (Option AggFunc × Parser) :=
  unlessNull (parseField text turns "expected field name in percentile()" parser)
    fun field parser => do
  let (comma, parser) ← consumeChar text turns ',' parser
  if comma then do
    let parser ← skipWhitespace text turns parser
    let rest ← stringAt text parser.pos
    let (percentile, tail) := strtodDouble rest
    if tail = rest then fail "expected percentile value" parser
    else
      closeFunction text turns "expected ')' after percentile()"
        ⟨.percentile, some field, percentile⟩ { parser with pos := text.length - tail.length }
  else fail "expected ',' in percentile()" parser

/-- The arguments of an aggregation function, by its name. -/
def parseArguments (funcName : String) (parser : Parser) :
    Except Fault (Option AggFunc × Parser) :=
  if funcName = "count" then
    closeFunction text turns "expected ')' after count()" ⟨.count, none, 0⟩ parser
  else if funcName = "percentile" then parsePercentile text turns parser
  else
    match fieldFuncType funcName with
    | none => fail ("unknown aggregation function '" ++ funcName ++ "'") parser
    | some type =>
        unlessNull (parseField text turns "expected field name for aggregation" parser)
          fun field parser =>
        closeFunction text turns "expected ')' after aggregation" ⟨type, some field, 0⟩ parser

/-- `parse_agg_function`; the name is copied into `char func_name[32]`. -/
def parseAggFunction (parser : Parser) : Except Fault (Option AggFunc × Parser) := do
  let parser ← skipWhitespace text turns parser
  let start := parser.pos
  let pos ← scanWhile text isalpha turns start
  let parser := { parser with pos := pos }
  if pos = start then fail "expected aggregation function" parser
  else if 32 ≤ pos - start then fail "aggregation function name too long" parser
  else do
    let name ← copyFrom text start (pos - start)
    let (opened, parser) ← consumeChar text turns '(' parser
    if opened then parseArguments text turns (String.ofList (name.map Char.toLower)) parser
    else fail "expected '(' after aggregation function" parser

/-- A loop `while (consume_char(parser, ','))` over items. -/
def commaLoop {α : Type} (item : Parser → Except Fault (Option α × Parser)) :
    Nat → Parser → Except Fault (Option (List α) × Parser)
  | 0, _ => .error .turns
  | left + 1, parser => do
      let (comma, parser) ← consumeChar text turns ',' parser
      if comma then
        unlessNull (item parser) fun first parser =>
        unlessNull (commaLoop item left parser) fun rest parser =>
        pure (some (first :: rest), parser)
      else pure (some [], parser)

/-- Items with commas between them. -/
def commaList {α : Type} (first item : Parser → Except Fault (Option α × Parser))
    (parser : Parser) : Except Fault (Option (List α) × Parser) :=
  unlessNull (first parser) fun value parser =>
  unlessNull (commaLoop text turns item turns parser) fun values parser =>
  pure (some (value :: values), parser)

/-- The function list of an aggregation, in parentheses or not. -/
def parseFunctions (parser : Parser) : Except Fault (Option (List AggFunc) × Parser) := do
  let (wrapped, parser) ← consumeChar text turns '(' parser
  unlessNull (commaList text turns (parseAggFunction text turns) (parseAggFunction text turns)
    parser) fun funcs parser =>
  if wrapped then closeWith text turns "expected ')' after aggregation function list" funcs parser
  else pure (some funcs, parser)

/-- The first duration in the parentheses of a window. -/
def parseWindowSize (name : String) (parser : Parser) : Except Fault (Option Nat × Parser) := do
  let (opened, parser) ← consumeChar text turns '(' parser
  if opened then durationOrNull text turns parser else fail ("expected '(' after " ++ name) parser

/-- The slide of a sliding window. -/
def parseSlide (parser : Parser) : Except Fault (Option Nat × Parser) := do
  let (comma, parser) ← consumeChar text turns ',' parser
  if comma then durationOrNull text turns parser else fail "expected ',' in sliding window" parser

/-- What follows the keyword `window`. -/
def parseWindow (parser : Parser) : Except Fault (Option Window × Parser) := do
  let (tumbling, parser) ← matchKeyword text turns "tumbling".toList parser
  if tumbling then
    unlessNull (parseWindowSize text turns "tumbling" parser) fun size parser =>
    closeWith text turns "expected ')' after tumbling window" ⟨.tumbling, size, 0, 0⟩ parser
  else do
    let (sliding, parser) ← matchKeyword text turns "sliding".toList parser
    if sliding then
      unlessNull (parseWindowSize text turns "sliding" parser) fun size parser =>
      unlessNull (parseSlide text turns parser) fun slide parser =>
      closeWith text turns "expected ')' after sliding window" ⟨.sliding, size, slide, 0⟩ parser
    else do
      let (session, parser) ← matchKeyword text turns "session".toList parser
      if session then
        unlessNull (parseWindowSize text turns "session" parser) fun timeout parser =>
        closeWith text turns "expected ')' after session window" ⟨.session, 0, 0, timeout⟩ parser
      else
        unlessNull (durationOrNull text turns parser) fun size parser =>
        pure (some ⟨.tumbling, size, 0, 0⟩, parser)

end Aggregations

/-! ## Statements -/

section Statements

variable (text : List Char) (turns : Nat)

/-- An optional clause: its keyword and what follows it, or the value without it. -/
def parseClause {α : Type} (keyword : String)
    (clause : Parser → Except Fault (Option α × Parser)) (without : α) (parser : Parser) :
    Except Fault (Option α × Parser) := do
  let (found, parser) ← matchKeyword text turns keyword.toList parser
  if found then clause parser else pure (some without, parser)

variable [Pcre2]

/-- A `where` clause. -/
def parseWhere (keywords : List (List Char)) (parser : Parser) :
    Except Fault (Option (Option FilterNode) × Parser) :=
  parseClause text turns "where" (fun parser =>
    unlessNull (parseFilterExpr text turns keywords true parser) fun filter parser =>
    pure (some (some filter), parser)) none parser

/-- `parse_correlate`. -/
def parseCorrelate (parser : Parser) : Except Fault (Option Stage × Parser) := do
  let saved := parser.pos
  let (found, parser) ← matchKeyword text turns "correlate".toList parser
  if found then
    unlessNull (parseFilterExpr text turns ["with".toList, "within".toList, "|".toList] true parser)
      fun left parser => do
    let (found, parser) ← matchKeyword text turns "with".toList parser
    if found then
      unlessNull (parseFilterExpr text turns ["within".toList, "|".toList] true parser)
        fun right parser =>
      unlessNull (parseClause text turns "within" (durationOrNull text turns) 0 parser)
        fun within parser =>
      pure (some (.correlate ⟨left, right,
        if within = 0 then defaultCorrelateWithinMs else within⟩), parser)
    else fail "expected 'with' in correlate clause" parser
  else pure (none, { parser with pos := saved })

/-- `parse_aggregate`. -/
def parseAggregate (parser : Parser) : Except Fault (Option Stage × Parser) := do
  let saved := parser.pos
  let (found, parser) ← matchKeyword text turns "aggregate".toList parser
  if found then
    unlessNull (parseFunctions text turns parser) fun funcs parser =>
    unlessNull (parseClause text turns "by" (commaList text turns
      (parseField text turns "expected field after 'by'")
      (parseField text turns "expected field after 'by'")) [] parser) fun fields parser =>
    unlessNull (parseWhere text turns ["window".toList, "|".toList] parser) fun filter parser =>
    unlessNull (parseClause text turns "window" (parseWindow text turns) ⟨.none, 0, 0, 0⟩ parser)
      fun window parser =>
    pure (some (.aggregate ⟨funcs, fields, filter, window⟩), parser)
  else pure (none, { parser with pos := saved })

/-- `parse_show`. -/
def parseShow (parser : Parser) : Except Fault (Option Stage × Parser) := do
  let saved := parser.pos
  let (found, parser) ← matchKeyword text turns "show".toList parser
  if found then do
    let (star, parser) ← consumeChar text turns '*' parser
    if star then
      unlessNull (parseWhere text turns ["|".toList] parser) fun filter parser =>
      pure (some (.show ⟨[], true, filter⟩), parser)
    else
      unlessNull (commaList text turns (parseField text turns "expected field list for show")
        (parseField text turns "expected field in show list") parser) fun fields parser =>
      unlessNull (parseWhere text turns ["|".toList] parser) fun filter parser =>
      pure (some (.show ⟨fields, false, filter⟩), parser)
  else pure (none, { parser with pos := saved })

/-- `parse_select_all`. -/
def parseSelectAll (parser : Parser) : Except Fault (Option Stage × Parser) := do
  let saved := parser.pos
  let (star, parser) ← consumeChar text turns '*' parser
  if star then
    unlessNull (parseWhere text turns ["|".toList] parser) fun filter parser =>
    pure (some (.show ⟨[], true, filter⟩), parser)
  else pure (none, { parser with pos := saved })

/-- `parse_filter_query`. -/
def parseFilterQuery (parser : Parser) : Except Fault (Option Stage × Parser) :=
  unlessNull (parseFilterExpr text turns ["|".toList] true parser) fun filter parser =>
  pure (some (.filter filter), parser)

/-- `if (query || parser->error_msg) return query`; otherwise the next form is tried from where this
    one was. -/
def orTry (form next : Parser → Except Fault (Option Stage × Parser)) (parser : Parser) :
    Except Fault (Option Stage × Parser) := do
  let saved := parser.pos
  let (query, parser) ← form parser
  if query.isSome ∨ parser.errorMsg.isSome then pure (query, parser)
  else next { parser with pos := saved }

/-- `parse_single_query`. -/
def parseSingleQuery (parser : Parser) : Except Fault (Option Stage × Parser) :=
  orTry (parseCorrelate text turns) (orTry (parseAggregate text turns) (orTry (parseShow text turns)
    (orTry (parseSelectAll text turns) (parseFilterQuery text turns)))) parser

/-- The loop of `parse_pipeline`. -/
def parseStages : Nat → Parser → Except Fault (Option (List Stage) × Parser)
  | 0, _ => .error .turns
  | left + 1, parser => do
      let parser ← skipWhitespace text turns parser
      let c ← readAt text parser.pos
      if c = '|' then
        unlessNull (parseSingleQuery text turns { parser with pos := parser.pos + 1 })
          fun stage parser =>
        unlessNull (parseStages left parser) fun stages parser =>
        pure (some (stage :: stages), parser)
      else pure (some [], parser)

/-- `parse_pipeline`. -/
def parsePipeline (parser : Parser) : Except Fault (Option NqlQuery × Parser) :=
  unlessNull (parseSingleQuery text turns parser) fun first parser =>
  unlessNull (parseStages text turns turns parser) fun stages parser =>
  pure (some (if stages = [] then .single first else .pipeline (first :: stages)), parser)

/-- `parse_entry`. -/
def parseEntry (parser : Parser) : Except Fault (Option NqlQuery × Parser) := do
  let parser ← skipWhitespace text turns parser
  let c ← readAt text parser.pos
  if c = nul then fail "empty query" parser else parsePipeline text turns parser

/-- `nql_parse_ex` for a string; the message of the parser is what it stores in `*error_out`. -/
def nqlParseEx : Except Fault (Option NqlQuery × Parser) := do
  let (query, parser) ← parseEntry text turns ⟨0, none⟩
  if query.isSome ∧ parser.errorMsg = none then do
    let parser ← skipWhitespace text turns parser
    let c ← readAt text parser.pos
    if c ≠ nul then fail "unexpected trailing input" parser else pure (query, parser)
  else pure (query, parser)

end Statements

end NqlReads

end Nblex
