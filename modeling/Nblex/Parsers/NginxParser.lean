import Nblex.Misc.Words
import Nblex.Parsers.JsonText

/-!
# The access log parser

`src/parsers/nginx_parser.c`. The steps of `nblex_parse_nginx_line` share the object they fill and
one position; a step that does not find its part leaves both alone, or leaves the position behind
the bracket or quote it has passed. Allocation is assumed to succeed.
-/

namespace Nblex

namespace Nginx

/-- The object so far and the position. -/
structure LineState where
  root : Json
  pos : List Char

/-- The loop over a quoted string: an escaped quote does not end it. -/
def quotedBody : List Char → List Char × List Char
  | [] => ([], [])
  | '"' :: rest => ([], '"' :: rest)
  | '\\' :: '"' :: rest =>
      let (body, tail) := quotedBody rest
      ('\\' :: '"' :: body, tail)
  | c :: rest =>
      let (body, tail) := quotedBody rest
      (c :: body, tail)

/-- A quoted string: what stands between the quotes, if both are there, and the position after it.
    Without a closing quote the position stays behind the opening one. -/
def quotedAt (pos : List Char) : Option (List Char) × List Char :=
  match pos with
  | '"' :: rest =>
      match quotedBody rest with
      | (body, '"' :: tail) => (some body, tail)
      | _ => (none, rest)
  | pos => (none, pos)

/-- The text in brackets, in the same way. -/
def bracketedAt (pos : List Char) : Option (List Char) × List Char :=
  match pos with
  | '[' :: rest =>
      match rest.dropWhile (· ≠ ']') with
      | [] => (none, rest)
      | _ :: tail => (some (rest.takeWhile (· ≠ ']')), tail)
  | pos => (none, pos)

/-- Skip whitespace. -/
def skipBlanks (state : LineState) : LineState := { state with pos := skipSpace state.pos }

/-- Skip whitespace and dashes. -/
def skipDashes (state : LineState) : LineState :=
  { state with pos := state.pos.dropWhile fun c => isspace c || c = '-' }

/-- The characters of the user. -/
def isUserChar (c : Char) : Bool := !isspace c && c ≠ '['

/-- `isdigit(*pos)`. -/
def atDigit : List Char → Bool
  | [] => false
  | c :: _ => isdigit c

/-- `status` and `body_bytes_sent`. -/
def parseNumber (key : String) (state : LineState) : LineState :=
  if atDigit state.pos then
    let (value, rest) := strtol state.pos
    if rest.length < state.pos.length then
      { root := state.root.set key (some (.integer value)), pos := rest }
    else state
  else state

section Steps

variable [Jansson]

/-- `json_object_set_new(root, key, json_string(text))`. -/
def setText (root : Json) (key : String) (text : List Char) : Json := root.set key (jsonString text)

/-- Everything up to the first blank. -/
def parseRemoteAddr (state : LineState) : LineState where
  root :=
    if wordAt state.pos = [] then state.root
    else setText state.root "remote_addr" (wordAt state.pos)
  pos := wordEnd state.pos

/-- Everything up to a blank or `[`. -/
def parseRemoteUser (state : LineState) : LineState where
  root :=
    if state.pos.takeWhile isUserChar ≠ [] ∧ state.pos.head? ≠ some '-' then
      setText state.root "remote_user" (state.pos.takeWhile isUserChar)
    else state.root
  pos := state.pos.dropWhile isUserChar

/-- `[DD/Mon/YYYY:HH:MM:SS TZ]`. -/
def parseTimeLocal (state : LineState) : LineState where
  root :=
    match (bracketedAt state.pos).1 with
    | some time => setText state.root "time_local" time
    | none => state.root
  pos := (bracketedAt state.pos).2

/-- The request is cut in place at its first two spaces. -/
def splitRequest (root : Json) (request : List Char) : Json :=
  match request.dropWhile (· ≠ ' ') with
  | [] => root
  | _ :: path =>
      let root := setText root "method" (request.takeWhile (· ≠ ' '))
      match path.dropWhile (· ≠ ' ') with
      | [] => setText root "path" path
      | _ :: protocol =>
          let root := setText root "path" (path.takeWhile (· ≠ ' '))
          if protocol = [] then root else setText root "protocol" protocol

/-- `"METHOD PATH PROTOCOL"`. -/
def parseRequest (state : LineState) : LineState where
  root :=
    match (quotedAt state.pos).1 with
    | some request => splitRequest (setText state.root "request" request) request
    | none => state.root
  pos := (quotedAt state.pos).2

/-- `http_referer` and `http_user_agent`: nothing is set for an empty text and for `-`. -/
def parseOptional (key : String) (state : LineState) : LineState where
  root :=
    match (quotedAt state.pos).1 with
    | some text =>
        if text ≠ [] ∧ text ≠ ['-'] then setText state.root key text else state.root
    | none => state.root
  pos := (quotedAt state.pos).2

end Steps

end Nginx

open Nginx in
/-- `nblex_parse_nginx_line`. -/
def nblexParseNginxLine [Jansson] (line : List Char) : Option Json :=
  if line = [] then none
  else
    let state := skipDashes (parseRemoteAddr ⟨.object [], line⟩)
    let state := skipBlanks (parseRemoteUser state)
    let state := skipBlanks (parseTimeLocal state)
    let state := skipBlanks (parseRequest state)
    let state := skipBlanks (parseNumber "status" state)
    let state := skipBlanks (parseNumber "body_bytes_sent" state)
    let state := skipBlanks (parseOptional "http_referer" state)
    some (parseOptional "http_user_agent" state).root

end Nblex
