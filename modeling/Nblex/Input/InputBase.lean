import Nblex.Core.FilterEngine.Parser
import Nblex.Correlation.TimeCorrelation

/-!
# Creating inputs

`src/input/input_base.c`, the constructors `nblex_input_file_new` and `nblex_input_pcap_new`, and
`nblex_world_add_input` of `src/core/nblex_world.c`. An input object is known by its place among
the objects that have been created in a world; the array of inputs holds such places.
-/

namespace Nblex

/-- `nblex_input_type`. -/
inductive InputType where
  | file | syslog | pcap | socket
  deriving DecidableEq, Repr

/-- `nblex_log_format`. -/
inductive LogFormat where
  | json | logfmt | syslog | nginx | regex
  deriving DecidableEq, Repr

/-- `nblex_input_s`, with the path of a file input or the interface of a packet input. -/
structure NblexInput where
  type : InputType
  format : LogFormat
  location : String
  filter : Option FilterNode

/-- `INITIAL_INPUTS_CAPACITY`. -/
def initialInputsCapacity : Nat := 8

/-- The part of `nblex_world_s` that creating inputs reads and writes, with the input objects in
    the order of their creation. The array of inputs has room for those in it. -/
structure InputWorld where
  correlation : Option Correlation
  objects : List NblexInput
  inputs : List Nat
  inputsCapacity : Nat
  positive : 0 < inputsCapacity
  fits : inputs.length ≤ inputsCapacity

/-- `nblex_world_new`, with an engine if the world has been opened. -/
def newInputWorld (correlation : Option Correlation) : InputWorld where
  correlation := correlation
  objects := []
  inputs := []
  inputsCapacity := initialInputsCapacity
  positive := by decide
  fits := Nat.zero_le _

/-- `nblex_world_add_input`: a full array is doubled, and `array` is the outcome of that. -/
def nblexWorldAddInput (world : InputWorld) (input : Nat) (array : Bool) : InputWorld × Int :=
  if room : world.inputs.length < world.inputsCapacity then
    ({ world with
      inputs := world.inputs ++ [input]
      fits := by rw [List.length_append]; exact room }, 0)
  else if array then
    ({ world with
      inputs := world.inputs ++ [input]
      inputsCapacity := world.inputsCapacity * 2
      positive := Nat.mul_pos world.positive (by decide)
      fits := by
        rw [List.length_append, List.length_singleton]
        have := world.positive
        have := world.fits
        omega }, 0)
  else (world, -1)

/-- The outcomes of the allocations of a constructor: those of the object and what belongs to it,
    and the growth of the array. -/
structure InputAllocs where
  object : Bool
  array : Bool

/-- `nblex_input_new`, with the data of its type. The format is JSON and there is no filter. -/
def nblexInputNew (type : InputType) (location : String) : NblexInput :=
  ⟨type, .json, location, none⟩

/-- A new object in a world. -/
def InputWorld.create (world : InputWorld) (input : NblexInput) : InputWorld :=
  { world with objects := world.objects ++ [input] }

/-- `nblex_input_file_new`: the result of adding the input to the world is not looked at. -/
def nblexInputFileNew (world : InputWorld) (path : String) (allocs : InputAllocs) :
    InputWorld × Option Nat :=
  if allocs.object then
    ((nblexWorldAddInput (world.create (nblexInputNew .file path)) world.objects.length
        allocs.array).1,
      some world.objects.length)
  else (world, none)

/-- `nblex_input_pcap_new`. -/
def nblexInputPcapNew (world : InputWorld) (interface : String) (allocs : InputAllocs) :
    InputWorld × Option Nat :=
  if allocs.object then
    (world.create (nblexInputNew .pcap interface), some world.objects.length)
  else (world, none)

/-- A change of an input object. -/
def InputWorld.update (world : InputWorld) (input : Nat) (f : NblexInput → NblexInput) :
    InputWorld :=
  { world with objects := world.objects.modify input f }

/-- `nblex_input_set_format`. -/
def nblexInputSetFormat (world : InputWorld) (input : Nat) (format : LogFormat) : InputWorld :=
  world.update input (fun object => { object with format := format })

/-- `nblex_input_set_filter`: an empty text clears the filter, one that is not a filter changes
    nothing. -/
def nblexInputSetFilter [Pcre2] (world : InputWorld) (input : Nat) (filterExpr : String) :
    InputWorld :=
  if filterExpr = "" then world.update input (fun object => { object with filter := none })
  else
    match nblexFilterNew filterExpr.toList with
    | none => world
    | some filter => world.update input (fun object => { object with filter := some filter })

/-- `nblex_detect_log_format`: by the extension, then by words in the path, whatever their case. -/
def nblexDetectLogFormat (path : String) : LogFormat :=
  let lower := path.toList.map Char.toLower
  -- `strrchr(path, '.')`: the text from the last dot on
  let ext := (lower.reverse.takeWhile (fun c => decide (c ≠ '.'))).reverse
  let named := lower.any (fun c => decide (c = '.'))
  if named && (decide (ext = "jsonl".toList) || decide (ext = "json".toList)) then .json
  else if (strstr lower "nginx".toList).isSome then .nginx
  else if (strstr lower "syslog".toList).isSome then .syslog
  else if (strstr lower "logfmt".toList).isSome then .logfmt
  else .json

end Nblex
