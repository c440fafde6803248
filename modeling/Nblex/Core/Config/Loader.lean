import Nblex.Misc.CString
import Nblex.Misc.Word64

/-!
# Loading the configuration file

`nblex_config_load_yaml` drives libyaml's parser and keeps, between two events, seven flags, the
last key and pointers to the input and the output being read. A pointer into the array of inputs
is the index of its element.
-/

namespace Nblex

/-- The events of libyaml's parser. -/
inductive YamlEvent where
  | streamStart
  | streamEnd
  | documentStart
  | documentEnd
  | aliasNode
  | scalar (value : String)
  | sequenceStart
  | sequenceEnd
  | mappingStart
  | mappingEnd
  deriving DecidableEq

/-- `nblex_input_config_t`; `none` is the null pointer. -/
structure NblexInputConfig where
  name : Option String := none
  type : Option String := none
  path : Option String := none
  interface : Option String := none
  filter : Option String := none
  format : Option String := none
  deriving DecidableEq

/-- `nblex_output_config_t`. -/
structure NblexOutputConfig where
  name : Option String := none
  type : Option String := none
  path : Option String := none
  url : Option String := none
  format : Option String := none
  deriving DecidableEq

/-- `nblex_config_s` without its capacities, and its defaults. -/
@[ext]
structure NblexConfig where
  version : String := "1.0"
  inputs : List NblexInputConfig := []
  outputs : List NblexOutputConfig := []
  correlationEnabled : Bool := true
  correlationWindowMs : Int := 100
  workerThreads : Int := 4
  bufferSize : Nat := 64 * 1024 * 1024
  memoryLimit : Nat := 1024 * 1024 * 1024
  deriving DecidableEq

/-- `atoi`. -/
def atoi (value : String) : Int := toInt32 (strtol value.toList).1

/-- A size with one of the units `KB`, `MB` and `GB`, in a `size_t`. -/
def parseSize (value : String) : Nat :=
  let size := (atoi value % 2 ^ 64).toNat
  if (strstr value.toList ['G', 'B']).isSome then size * (1024 * 1024 * 1024) % 2 ^ 64
  else if (strstr value.toList ['M', 'B']).isSome then size * (1024 * 1024) % 2 ^ 64
  else if (strstr value.toList ['K', 'B']).isSome then size * 1024 % 2 ^ 64
  else size

/-- The field of an input that a key names. -/
def NblexInputConfig.assign (key value : String) (input : NblexInputConfig) : NblexInputConfig :=
  if key = "name" then { input with name := some value }
  else if key = "type" then { input with type := some value }
  else if key = "path" then { input with path := some value }
  else if key = "interface" then { input with interface := some value }
  else if key = "filter" then { input with filter := some value }
  else if key = "format" then { input with format := some value }
  else input

/-- The field of an output that a key names. -/
def NblexOutputConfig.assign (key value : String) (output : NblexOutputConfig) :
    NblexOutputConfig :=
  if key = "name" then { output with name := some value }
  else if key = "type" then { output with type := some value }
  else if key = "path" then { output with path := some value }
  else if key = "url" then { output with url := some value }
  else if key = "format" then { output with format := some value }
  else output

/-- The correlation setting that a key names. -/
def NblexConfig.assignCorrelation (key value : String) (config : NblexConfig) : NblexConfig :=
  if key = "enabled" then { config with correlationEnabled := value = "true" || value = "1" }
  else if key = "window_ms" then { config with correlationWindowMs := atoi value }
  else config

/-- The performance setting that a key names. -/
def NblexConfig.assignPerformance (key value : String) (config : NblexConfig) : NblexConfig :=
  if key = "worker_threads" then { config with workerThreads := atoi value }
  else if key = "buffer_size" then { config with bufferSize := parseSize value }
  else if key = "memory_limit" then { config with memoryLimit := parseSize value }
  else config

/-- The variables of the event loop. -/
structure Loader where
  config : NblexConfig := {}
  inInputs : Bool := false
  inOutputs : Bool := false
  inCorrelation : Bool := false
  inPerformance : Bool := false
  inLogs : Bool := false
  inNetwork : Bool := false
  expectingKey : Bool := true
  currentKey : Option String := none
  currentInput : Option Nat := none
  currentOutput : Option Nat := none

namespace Loader

/-- What becomes of a value under a key. -/
def assign (key value : String) (l : Loader) : NblexConfig :=
  if key = "version" then { l.config with version := value }
  else
    match l.currentInput with
    | some i => { l.config with inputs := l.config.inputs.modify i (·.assign key value) }
    | none =>
        match l.currentOutput with
        | some i => { l.config with outputs := l.config.outputs.modify i (·.assign key value) }
        | none =>
            if l.inCorrelation then l.config.assignCorrelation key value
            else if l.inPerformance then l.config.assignPerformance key value
            else l.config

/-- A scalar where a key is expected. -/
def readKey (value : String) (l : Loader) : Loader :=
  { l with
    currentKey := some value
    expectingKey := false
    inInputs := l.inInputs || value = "inputs"
    inOutputs := l.inOutputs || value = "outputs"
    inCorrelation := l.inCorrelation || value = "correlation"
    inPerformance := l.inPerformance || value = "performance" }

/-- A scalar where a value is expected. The key is there whenever no key is expected. -/
def readValue (value : String) (l : Loader) : Loader :=
  { l with
    config := l.assign (l.currentKey.getD "") value
    currentKey := none
    expectingKey := true }

/-- The start of a mapping: of a new input, of a new output, or of neither. -/
def openMapping (l : Loader) : Loader :=
  if l.inInputs && !l.inLogs && !l.inNetwork then
    { l with
      config := { l.config with inputs := l.config.inputs ++ [{}] }
      currentInput := some l.config.inputs.length
      expectingKey := true }
  else if l.inOutputs then
    { l with
      config := { l.config with outputs := l.config.outputs ++ [{}] }
      currentOutput := some l.config.outputs.length
      expectingKey := true }
  else { l with expectingKey := true }

/-- The end of a mapping, of any of them. -/
def closeMapping (l : Loader) : Loader :=
  { l with
    inLogs := false
    inNetwork := false
    inCorrelation := false
    inPerformance := false
    currentInput := none
    currentOutput := none
    expectingKey := true }

/-- The start of a sequence. -/
def openSequence (l : Loader) : Loader :=
  { l with
    inLogs := l.inLogs || l.currentKey = some "logs"
    inNetwork := l.inNetwork || l.currentKey = some "network" }

/-- The `switch` of the event loop. -/
def step (l : Loader) : YamlEvent → Loader
  | .mappingStart => l.openMapping
  | .mappingEnd => l.closeMapping
  | .sequenceStart => l.openSequence
  | .scalar value => if l.expectingKey then l.readKey value else l.readValue value
  | .sequenceEnd | .streamStart | .streamEnd | .documentStart | .documentEnd | .aliasNode => l

/-- The event loop. It stops after the end of the stream; an event that is missing before is a
    parse error. -/
def parse : List YamlEvent → Loader → Option NblexConfig
  | [], _ => none
  | event :: events, l =>
      if event = .streamEnd then some (l.step event).config else parse events (l.step event)

end Loader

/-- `nblex_config_load_yaml` on a file whose events are these. -/
def nblexConfigLoadYaml (events : List YamlEvent) : Option NblexConfig := Loader.parse events {}

end Nblex
