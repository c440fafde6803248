import Nblex.Misc.Qsort
import Nblex.Output.FileOutput

/-!
# Which rotated files are removed

`cleanup_old_rotated_files` once more, with the array its entries are collected in and with any
`qsort`. The array is made larger when it is full; an entry that is written behind its end is
undefined.
-/

namespace Nblex

/-- `compare_rotated_files`: newest first. -/
def compareRotatedFiles (fa fb : RotatedFileEntry) : Int :=
  if fb.mtime < fa.mtime then -1 else if fa.mtime < fb.mtime then 1 else 0

/-- `files`, `files_count` and `files_capacity`. -/
structure EntryArray where
  files : List RotatedFileEntry
  filesCapacity : Nat

/-- One entry more. -/
def EntryArray.add (array : EntryArray) (entry : RotatedFileEntry) : Option EntryArray :=
  let filesCapacity :=
    if array.filesCapacity ≤ array.files.length then
      if array.filesCapacity = 0 then 16 else array.filesCapacity * 2
    else array.filesCapacity
  if array.files.length < filesCapacity then some ⟨array.files ++ [entry], filesCapacity⟩ else none

/-- One turn of the loop over the directory. -/
def collectName (files : Files) (dir base : List Char) (array : EntryArray) (name : List Char) :
    Option EntryArray :=
  if looksRotated base name then
    match rotatedEntry files dir name with
    | some entry => array.add entry
    | none => some array
  else some array

/-- The names `readdir` gives. -/
def namesIn (files : Files) (dir : List Char) : List (List Char) :=
  (files.files.filter (fun file => file.name.dir = dir)).map (fun file => file.name.base)

/-- `cleanup_old_rotated_files` with a `qsort`. `none` is undefined behaviour. -/
def cleanupWith (qsort : Qsort RotatedFileEntry) (output : FileOutput) (files : Files) :
    Option Files :=
  let dir := snprintf 1024 (dirname output.path)
  let base := snprintf 256 (basename output.path)
  if output.rotationMaxCount ≤ 0 then some files
  else if dir = [] ∨ base = [] then some files
  else
    ((namesIn files dir).foldlM (collectName files dir base) ⟨[], 0⟩).map (fun array =>
      if output.rotationMaxCount < array.files.length then
        ((qsort compareRotatedFiles array.files).drop output.rotationMaxCount.toNat).foldl
          (fun files entry => files.unlink (fileAt entry.path)) files
      else files)

end Nblex
