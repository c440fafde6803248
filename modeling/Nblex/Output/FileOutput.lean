import Nblex.Core.NblexEvent
import Nblex.Misc.CString
import Nblex.Misc.Directory
import Nblex.Misc.FixedBuffer
import Mathlib.Data.List.DropRight
import Mathlib.Data.List.Sort

/-!
# File output

`src/output/file_output.c`: events are appended to a file as lines of JSON. A file that has become
too large or too old is renamed, with the time in its new name, and a new one is opened; rotated
files beyond a limit are removed. The text of an event and `strftime` are parameters. Allocation is
assumed to succeed, and the calls on files.
-/

namespace Nblex

/-! ## Paths -/

/-- `basename`. -/
def basename (path : List Char) : List Char :=
  let stripped := path.rdropWhile (· = '/')
  if path = [] then ['.']
  else if stripped = [] then ['/']
  else stripped.rtakeWhile (· ≠ '/')

/-- `dirname`. -/
def dirname (path : List Char) : List Char :=
  let parent := (path.rdropWhile (· = '/')).rdropWhile (· ≠ '/')
  if path = [] then ['.']
  else if path.rdropWhile (· = '/') = [] then ['/']
  else if parent = [] then ['.']
  else if parent.rdropWhile (· = '/') = [] then ['/']
  else parent.rdropWhile (· = '/')

/-- A file as the file system finds it: a directory and a name in it. -/
structure FileName where
  dir : List Char
  base : List Char
  deriving DecidableEq

/-- The file at a path. -/
def fileAt (path : List Char) : FileName := ⟨dirname path, basename path⟩

/-- The files of the file system. -/
abbrev Files := Directory FileName UInt8

/-! ## The output -/

/-- `file_output_s`; its file is open. The sizes and ages of the settings are `int`. -/
structure FileOutput where
  path : List Char
  format : String
  rotationMaxSize : Int
  rotationMaxAge : Int
  rotationMaxCount : Int
  lastRotation : Int
  currentSize : Int

/-- `nblex_file_output_new`, with the files after it. -/
def nblexFileOutputNew (files : Files) (path : List Char) (format : Option String) (now : Int) :
    FileOutput × Files :=
  ({  path := path
      format := format.getD "json"
      rotationMaxSize := 100
      rotationMaxAge := 7
      rotationMaxCount := 10
      lastRotation := now
      currentSize := 0 },
    files.openAppend (fileAt path) now)

/-- `nblex_file_output_set_rotation`. -/
def nblexFileOutputSetRotation (output : FileOutput) (maxSizeMb maxAgeDays maxCount : Int) :
    FileOutput :=
  { output with
    rotationMaxSize := maxSizeMb
    rotationMaxAge := maxAgeDays
    rotationMaxCount := maxCount }

/-! ## Removing rotated files -/

/-- `rotated_file_entry`. -/
structure RotatedFileEntry where
  path : List Char
  mtime : Int

/-- A name in the directory has the base name in front of a dot and something that looks like a
    timestamp. -/
def looksRotated (base name : List Char) : Bool :=
  let timestampPart := name.drop (base.length + 1)
  startsWith name base && name[base.length]? = some '.' && 15 ≤ timestampPart.length &&
    timestampPart[8]? = some '_'

/-- The entry of a name that `readdir` gives; a path that leads to no file has none. -/
def rotatedEntry (files : Files) (dir name : List Char) : Option RotatedFileEntry :=
  let fullPath := snprintf 1024 (dir ++ '/' :: name)
  (files.find? (fileAt fullPath)).map (fun file => ⟨fullPath, file.mtime⟩)

/-- The entries of the rotated files, in the order of `readdir`. -/
def rotatedEntries (files : Files) (path : List Char) : List RotatedFileEntry :=
  let dir := snprintf 1024 (dirname path)
  let base := snprintf 256 (basename path)
  let names :=
    (files.files.filter (fun file => file.name.dir = dir)).map (fun file => file.name.base)
  (names.filter (looksRotated base)).filterMap (rotatedEntry files dir)

/-- `cleanup_old_rotated_files`: the newest files are kept. -/
def cleanupOldRotatedFiles (output : FileOutput) (files : Files) : Files :=
  let entries := rotatedEntries files output.path
  if output.rotationMaxCount ≤ 0 then files
  else if output.rotationMaxCount < entries.length then
    ((entries.mergeSort (fun a b => b.mtime ≤ a.mtime)).drop output.rotationMaxCount.toNat).foldl
      (fun files entry => files.unlink (fileAt entry.path)) files
  else files

/-! ## Rotation -/

/-- The size of the file has reached the maximum. -/
def sizeReached (output : FileOutput) (files : Files) : Bool :=
  decide (0 < output.rotationMaxSize ∧
    output.rotationMaxSize ≤ (files.contents (fileAt output.path)).length / (1024 * 1024))

/-- The time since the last rotation has reached the maximum. `none` is the overflow of
    `rotation_max_age * 24 * 60 * 60`. -/
def ageReached (output : FileOutput) (now : Int) : Option Bool :=
  if output.rotationMaxAge ≤ 0 then some false
  else if output.rotationMaxAge * 24 * 60 * 60 < 2 ^ 31 then
    some (decide (output.rotationMaxAge * 24 * 60 * 60 ≤ now - output.lastRotation))
  else none

section Clock

variable (strftime : Int → List Char)

/-- The path a file is renamed to. -/
def rotatedPath (path : List Char) (now : Int) : List Char :=
  snprintf 1024 (path ++ '.' :: strftime now)

/-- `rotate_file_if_needed`: the output and the files after it, and the path the file has been
    renamed to if there was a rotation. `none` is undefined behaviour. -/
def rotateFileIfNeeded (output : FileOutput) (files : Files) (now : Int) :
    Option (FileOutput × Files × Option (List Char)) :=
  (ageReached output now).map (fun old =>
    if sizeReached output files || old then
      let rotated := rotatedPath strftime output.path now
      let renamed := files.rename (fileAt output.path) (fileAt rotated)
      ({ output with lastRotation := now, currentSize := 0 },
        (cleanupOldRotatedFiles output renamed).openAppend (fileAt output.path) now,
        some rotated)
    else (output, files, none))

variable (toJsonString : Event → Option (List UInt8))

/-- What a write leaves: the output, the files, the path the file has been renamed to if there was
    a rotation, and the line, if one was written. -/
structure FileWritten where
  output : FileOutput
  files : Files
  rotated : Option (List Char)
  line : List UInt8

/-- `nblex_file_output_write`. An event without a text is not written, after the rotation. -/
def nblexFileOutputWrite (output : FileOutput) (files : Files) (event : Event) (now : Int) :
    Option FileWritten :=
  (rotateFileIfNeeded strftime output files now).map (fun (output, files, rotated) =>
    match toJsonString event with
    | none => ⟨output, files, rotated, []⟩
    | some jsonStr =>
        let line := jsonStr ++ [10]
        ⟨{ output with currentSize := output.currentSize + line.length },
          files.append (fileAt output.path) now line, rotated, line⟩)

end Clock

end Nblex
