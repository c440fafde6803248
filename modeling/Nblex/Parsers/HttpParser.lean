import Nblex.Misc.Word64
import Nblex.Misc.Words
import Nblex.Parsers.JsonText

/-!
# The HTTP dissector

`src/parsers/http_parser.c`. A payload is a list of bytes; its lines are cut by the length of the
payload, and what is copied out of it is a C string from then on. A pointer into the payload is the
suffix that starts there. Allocation is assumed to succeed.
-/

namespace Nblex

namespace Http

/-- The bytes of a buffer as characters. -/
def bufferText (data : List UInt8) : List Char := data.map fun byte => Char.ofNat byte.toNat

/-- A copied buffer as a C string: it ends at the first NUL. -/
def cString (buffer : List Char) : List Char := buffer.takeWhile fun c => c ≠ '\x00'

/-- `\r` and `\n`. -/
def isLineEnd (c : Char) : Bool := c = '\r' || c = '\n'

/-- `if (pos < end && *pos == c) pos++;` -/
def skipOne (c : Char) : List Char → List Char
  | [] => []
  | d :: rest => if d = c then rest else d :: rest

/-- The steps from the end of a line to the start of the next one. -/
def nextLine (pos : List Char) : List Char := skipOne '\n' (skipOne '\r' pos)

/-- The line at a position. -/
def lineAt (pos : List Char) : List Char := pos.takeWhile fun c => !isLineEnd c

/-- The position behind that line. -/
def lineEnd (pos : List Char) : List Char := pos.dropWhile fun c => !isLineEnd c

/-- The end of the version and of the reason. -/
def isLastWordChar (c : Char) : Bool := !isspace c && c ≠ '\r' && c ≠ '\n'

section Lines

variable [Jansson]

/-- Set a field to a text, unless the text is empty. -/
def setWord (http : Json) (key : String) (word : List Char) : Json :=
  if word = [] then http else http.set key (jsonString word)

/-- `parse_http_request_line`; `none` is `-1`. -/
def parseHttpRequestLine (line : List Char) (http : Json) : Option Json :=
  let method := wordAt line
  if method = [] then none
  else
    let http := http.set "method" (jsonString method)
    let pos := skipSpace (wordEnd line)
    let http := setWord http "uri" (wordAt pos)
    let pos := skipSpace (wordEnd pos)
    some (setWord http "version" (pos.takeWhile isLastWordChar))

/-- `parse_http_status_line`. -/
def parseHttpStatusLine (line : List Char) (http : Json) : Option Json :=
  let http := setWord http "version" (wordAt line)
  let pos := skipSpace (wordEnd line)
  let http :=
    if pos.takeWhile isdigit = [] then http
    else http.set "status_code" (some (.integer (toInt32 (strtol pos).1)))
  let pos := skipSpace (pos.dropWhile isdigit)
  some (setWord http "reason" (pos.takeWhile isLastWordChar))

/-- One header line; a line without a colon is passed over. -/
def setHeader (line : List Char) (headers : Json) : Json :=
  match line.dropWhile (· ≠ ':') with
  | [] => headers
  | _ :: value =>
      let name := cString ((line.takeWhile (· ≠ ':')).map Char.toLower)
      if Jansson.utf8CheckString name then
        headers.set (String.ofList name) (jsonString (cString (skipSpace value)))
      else headers

omit [Jansson] in
theorem skipOne_length_le (c : Char) (pos : List Char) : (skipOne c pos).length ≤ pos.length := by
  cases pos with
  | nil => exact Nat.le_refl _
  | cons d rest =>
      rw [skipOne]
      split
      · exact Nat.le_succ _
      · exact Nat.le_refl _

omit [Jansson] in
/-- Behind a line that is not empty less is left. -/
theorem nextLine_length_lt {pos : List Char} (line : lineAt pos ≠ []) :
    (nextLine (lineEnd pos)).length < pos.length := by
  have parts := congrArg List.length
    (List.takeWhile_append_dropWhile (p := fun c => !isLineEnd c) (l := pos))
  have some : 0 < (lineAt pos).length := List.length_pos_iff.mpr line
  have skipped : (nextLine (lineEnd pos)).length ≤ (lineEnd pos).length :=
    (skipOne_length_le _ _).trans (skipOne_length_le _ _)
  rw [List.length_append] at parts
  unfold lineAt at some
  unfold lineEnd at skipped ⊢
  omega

/-- The loop of `parse_http_headers`: lines up to the first empty one. -/
def parseHttpHeaders (pos : List Char) (headers : Json) : Json :=
  if _line : lineAt pos = [] then headers
  else parseHttpHeaders (nextLine (lineEnd pos)) (setHeader (lineAt pos) headers)
termination_by pos.length
decreasing_by exact nextLine_length_lt _line

end Lines

end Http

open Http in
/-- `nblex_parse_http_payload`. -/
def nblexParseHttpPayload [Jansson] (data : List UInt8) (isRequest : Bool) : Option Json :=
  let pos := bufferText data
  if lineAt pos = [] then none
  else
    let line := cString (lineAt pos)
    let http :=
      if isRequest then parseHttpRequestLine line (.object [])
      else parseHttpStatusLine line (.object [])
    http.map fun http =>
      http.set "headers" (some (parseHttpHeaders (nextLine (lineEnd pos)) (.object [])))

end Nblex
