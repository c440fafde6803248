import Nblex.Misc.BoundedText
import Nblex.Parsers.HttpParser

/-!
# What the HTTP dissector reads

The functions of `src/parsers/http_parser.c` once more, on indexes. A byte of the payload is read
only in front of its end, and a character of the copied first line only up to its first NUL: any
other read is a fault. The length of what lies between two pointers is a `size_t`. `turns` bounds
the turns of each loop.
-/

namespace Nblex

namespace HttpReads

open Http (cString isLineEnd isLastWordChar)

variable [Jansson]

section Line

variable (line : List Char) (turns : Nat)

/-- What lies between two pointers is copied and set, unless it is empty. -/
def setBetween (key : String) (start pos : Nat) (http : Json) : Except Fault Json :=
  if start < pos then do
    let word ← copyFrom line start (u64Sub pos start)
    pure (http.set key (jsonString word))
  else pure http

/-- `parse_http_request_line`; `none` is `-1`. -/
def parseHttpRequestLine (http : Json) : Except Fault (Option Json) := do
  let pos ← scanWhile line (fun c => !isspace c) turns 0
  if pos = 0 then pure none
  else do
    let method ← copyFrom line 0 (u64Sub pos 0)
    let http := http.set "method" (jsonString method)
    let start ← scanWhile line isspace turns pos
    let pos ← scanWhile line (fun c => !isspace c) turns start
    let http ← setBetween line "uri" start pos http
    let start ← scanWhile line isspace turns pos
    let pos ← scanWhile line isLastWordChar turns start
    let http ← setBetween line "version" start pos http
    pure (some http)

/-- The status code, unless there is no digit; `atoi` is given the pointer. -/
def setStatusCode (start pos : Nat) (http : Json) : Except Fault Json :=
  if start < pos then do
    let digits ← stringAt line start
    pure (http.set "status_code" (some (.integer (toInt32 (strtol digits).1))))
  else pure http

/-- `parse_http_status_line`. -/
def parseHttpStatusLine (http : Json) : Except Fault (Option Json) := do
  let pos ← scanWhile line (fun c => !isspace c) turns 0
  let http ← setBetween line "version" 0 pos http
  let start ← scanWhile line isspace turns pos
  let pos ← scanWhile line isdigit turns start
  let http ← setStatusCode line start pos http
  let start ← scanWhile line isspace turns pos
  let pos ← scanWhile line isLastWordChar turns start
  let http ← setBetween line "reason" start pos http
  pure (some http)

/-- The request line or the status line, into a new object. -/
def parseFirstLine (isRequest : Bool) : Except Fault (Option Json) :=
  if isRequest then parseHttpRequestLine line turns (.object [])
  else parseHttpStatusLine line turns (.object [])

end Line

section Payload

variable (data : List Char) (stop turns : Nat)

/-- `if (pos < end && *pos == c) pos++;` -/
def skipOne (c : Char) (pos : Nat) : Except Fault Nat :=
  if pos < stop then do
    let d ← readIn data pos
    if d = c then pure (pos + 1) else pure pos
  else pure pos

/-- The steps from the end of a line to the start of the next one. -/
def nextLine (lineEnd : Nat) : Except Fault Nat := do
  let pos ← skipOne data stop '\r' lineEnd
  skipOne data stop '\n' pos

/-- One header line. -/
def setHeader (pos colon lineEnd : Nat) (headers : Json) : Except Fault Json :=
  if colon < lineEnd then do
    let name ← copyIn data pos (u64Sub colon pos)
    let name := cString (name.map Char.toLower)
    let valueStart ← scanTo data isspace lineEnd turns (colon + 1)
    let value ← copyIn data valueStart (u64Sub lineEnd valueStart)
    if Jansson.utf8CheckString name then
      pure (headers.set (String.ofList name) (jsonString (cString value)))
    else pure headers
  else pure headers

/-- The loop of `parse_http_headers`. -/
def parseHttpHeaders : Nat → Nat → Json → Except Fault Json
  | 0, _, _ => .error .turns
  | left + 1, pos, headers =>
      if pos < stop then do
        let lineEnd ← scanTo data (fun c => !isLineEnd c) stop turns pos
        if lineEnd = pos then pure headers
        else do
          let colon ← scanTo data (· ≠ ':') lineEnd turns pos
          let headers ← setHeader data turns pos colon lineEnd headers
          let pos ← nextLine data stop lineEnd
          parseHttpHeaders left pos headers
      else pure headers

end Payload

open Http (bufferText) in
/-- `nblex_parse_http_payload`. -/
def nblexParseHttpPayload (bytes : List UInt8) (turns : Nat) (isRequest : Bool) :
    Except Fault (Option Json) :=
  let data := bufferText bytes
  let stop := data.length
  if stop = 0 then pure none
  else do
    let lineEnd ← scanTo data (fun c => !isLineEnd c) stop turns 0
    if lineEnd = 0 then pure none
    else do
      let firstLine ← copyIn data 0 (u64Sub lineEnd 0)
      match ← parseFirstLine (cString firstLine) turns isRequest with
      | none => pure none
      | some http => do
          let pos ← nextLine data stop lineEnd
          let remaining := u64Sub stop pos
          let headers ← parseHttpHeaders data (pos + remaining) turns turns pos (.object [])
          pure (some (http.set "headers" (some headers)))

end HttpReads

end Nblex
