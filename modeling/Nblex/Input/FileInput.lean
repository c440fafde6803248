import Nblex.Misc.Lines

/-!
# File input

Tailing a file: `file_input_start` and `file_read_new_data` of `src/input/file_input.c`. The lines
that become events are recorded as bytes; how a line is parsed does not decide whether it becomes
one, as the source falls back to a message object.
-/

namespace Nblex

open Lines

/-- `'\\n'`. -/
def newline : UInt8 := 10

/-- `data->file`: the contents of the file with the position and the end-of-file flag of the
    stream. -/
structure TailedFile where
  content : List UInt8
  pos : Nat
  eof : Bool

/-- `file_input_start`: the stream is put at the end of the file. -/
def fileInputStart (content : List UInt8) : TailedFile where
  content := content
  pos := content.length
  eof := false

/-- `sizeof(buffer) - 1`, the most bytes `fgets` stores. -/
def lineLimit : Nat := 4095

/-- `fgets`: up to a newline, the limit or the end of the file. Reaching the end sets the flag,
    and a set flag ends reading. -/
def fgets (file : TailedFile) : Option (List UInt8) × TailedFile :=
  if file.eof then (none, file)
  else
    let piece := (takePiece newline lineLimit (file.content.drop file.pos)).1
    (if piece = [] then none else some piece,
      { file with
        pos := file.pos + piece.length
        eof := decide (piece.length < lineLimit ∧ piece.getLast? ≠ some newline) })

/-- The line in a buffer that `fgets` has filled: up to the first NUL and without the newline.
    An empty line is skipped. -/
def bufferLine (buffer : List UInt8) : List (List UInt8) :=
  let text := buffer.takeWhile (fun byte => decide (byte ≠ 0))
  let line := if text.getLast? = some newline then text.dropLast else text
  if line = [] then [] else [line]

/-- The reading loop of `file_read_new_data`, with fuel for the calls of `fgets`. -/
def readLines : Nat → TailedFile → Option (List (List UInt8) × TailedFile)
  | 0, _ => none
  | fuel + 1, file =>
      match fgets file with
      | (none, file) => some ([], file)
      | (some buffer, file) =>
          (readLines fuel file).map (fun rest => (bufferLine buffer ++ rest.1, rest.2))

/-- `file_read_new_data`, with the outcome of `stat`. -/
def fileReadNewData (file : TailedFile) (statOk : Bool) :
    Option (List (List UInt8) × TailedFile) :=
  let fuel := file.content.length - file.pos + 1
  if statOk then
    if file.pos < file.content.length then readLines fuel { file with eof := false }
    else if file.eof then some ([], file)
    else readLines fuel file
  else readLines fuel { file with eof := false }

/-! ## Runs -/

/-- One step of a tailed file: bytes are appended to it, or it is polled. -/
inductive FileOp where
  | append (bytes : List UInt8)
  | poll (statOk : Bool)

/-- The bytes appended in a run. -/
def appendedBytes (ops : List FileOp) : List UInt8 :=
  ops.flatMap (fun op => match op with | .append bytes => bytes | .poll _ => [])

/-- A sequence of steps, with the lines that become events. -/
def fileRun : TailedFile → List FileOp → Option (List (List UInt8) × TailedFile)
  | file, [] => some ([], file)
  | file, .append bytes :: ops => fileRun { file with content := file.content ++ bytes } ops
  | file, .poll statOk :: ops =>
      match fileReadNewData file statOk with
      | none => none
      | some (lines, file) =>
          (fileRun file ops).map (fun rest => (lines ++ rest.1, rest.2))

end Nblex
