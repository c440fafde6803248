import Nblex.Core.NblexEvent
import Nblex.Input.FileInput
import Nblex.Input.InputBase
import Nblex.Parsers.HttpParser
import Nblex.Parsers.LogfmtParser
import Nblex.Parsers.NginxParser
import Nblex.Parsers.SyslogParser

/-!
# Log lines

`file_read_new_data` of `src/input/file_input.c` with the events it makes: a line is parsed in the
format of the input, and what is no record of the format becomes a message. The callbacks that
start reading are here too. Reading JSON is a parameter. Allocation is assumed to succeed.
-/

namespace Nblex

open Http (bufferText)

section Parse

variable [Jansson] [JanssonTexts] [LocalTime]

/-- What the parser of a format makes of a line; `none` is a loop that has not ended within the
    fuel. There is no parser for the regex format. -/
def parseLine (fuel : Nat) (line : List Char) : LogFormat → Option (Option Json)
  | .json => some (nblexParseJsonLine line)
  | .logfmt => nblexParseLogfmtLine fuel line
  | .syslog => some (nblexParseSyslogLine line)
  | .nginx => some (nblexParseNginxLine line)
  | .regex => some none

/-- The object of a line that is no record. -/
def messageObject (line : List Char) : Json := (Json.object []).set "message" (jsonString line)

/-- `event->data` of a line. -/
def lineData (fuel : Nat) (format : LogFormat) (line : List UInt8) : Option Json :=
  (parseLine fuel (bufferText line) format).map fun parsed =>
    parsed.getD (messageObject (bufferText line))

end Parse

/-- The event of a line. `created` events were made before it, and `clock` is the time at each. -/
def lineEvent (input : Input) (clock : Nat → Nat) (created : Nat) (data : Json) : Event :=
  { nblexEventNew .log (some input) (clock created) with
    id := created
    data := some data }

/-- `nblex_input_s` of a file input, as far as reading looks at it. -/
structure TailInput where
  format : LogFormat
  filter : Option FilterNode
  path : List Char
  filename : List Char

/-- A file input at work: its stream, the world, and how many events it has made. -/
structure Tail where
  file : TailedFile
  world : World
  created : Nat

section Read

variable [Pcre2] [Jansson] [JanssonTexts] [LocalTime]
variable (input : TailInput) (clock : Nat → Nat) (turns depth : Nat)

/-- The events of the lines in a buffer are made and emitted. `turns` bounds the loop of the logfmt
    parser, `depth` the nesting of emissions. -/
def emitLines (tail : Tail) (lines : List (List UInt8)) : Option Tail :=
  lines.foldlM (fun tail line => do
    let data ← lineData turns input.format line
    let world ← nblexEventEmit depth tail.world (lineEvent ⟨input.filter⟩ clock tail.created data)
    some { tail with world := world, created := tail.created + 1 }) tail

/-- The reading loop of `file_read_new_data`, with fuel for the calls of `fgets`. -/
def readEvents : Nat → Tail → Option Tail
  | 0, _ => none
  | fuel + 1, tail =>
      match fgets tail.file with
      | (none, file) => some { tail with file := file }
      | (some buffer, file) =>
          (emitLines input clock turns depth { tail with file := file } (bufferLine buffer)).bind
            (readEvents fuel)

/-- `file_read_new_data`, with the outcome of `stat`. -/
def readNewEvents (tail : Tail) (statOk : Bool) : Option Tail :=
  let fuel := tail.file.content.length - tail.file.pos + 1
  let cleared := { tail with file := { tail.file with eof := false } }
  if statOk then
    if tail.file.pos < tail.file.content.length then readEvents input clock turns depth fuel cleared
    else if tail.file.eof then some tail
    else readEvents input clock turns depth fuel tail
  else readEvents input clock turns depth fuel cleared

/-- `UV_RENAME | UV_CHANGE`. -/
def watchedChanges : Nat := 3

/-- `file_fs_event_cb` reads when the change is of this file, or of a file without a name. -/
def fsEventReads (filename : Option (List Char)) (events : Nat) (status : Int) : Bool :=
  (filename.all fun name => name = input.filename) && status = 0 && events &&& watchedChanges ≠ 0

/-- One step of a tailed file: bytes are appended to it, `file_poll_timer_cb` is called, or
    `file_fs_event_cb` is, each with the outcome of `stat`. -/
inductive TailOp where
  | append (bytes : List UInt8)
  | pollTimer (statOk : Bool)
  | fsEvent (filename : Option (List Char)) (events : Nat) (status : Int) (statOk : Bool)

/-- One step. -/
def tailStep (tail : Tail) : TailOp → Option Tail
  | .append bytes =>
      some { tail with file := { tail.file with content := tail.file.content ++ bytes } }
  | .pollTimer statOk => readNewEvents input clock turns depth tail statOk
  | .fsEvent filename events status statOk =>
      if fsEventReads input filename events status then
        readNewEvents input clock turns depth tail statOk
      else some tail

/-- A sequence of steps. -/
def tailRun (tail : Tail) (ops : List TailOp) : Option Tail :=
  ops.foldlM (tailStep input clock turns depth) tail

end Read

end Nblex
