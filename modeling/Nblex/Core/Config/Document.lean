import Nblex.Core.Config.Loader

/-!
# Configuration documents

The documents a configuration file is meant to hold: the five sections, each at most once and in
any order, the events libyaml reports for them, and the configuration they describe. A section
or a list that is left out is not the same document as an empty one.
-/

namespace Nblex

/-- The values of a C `int`. -/
abbrev CInt := { n : Int // -2 ^ 31 ≤ n ∧ n < 2 ^ 31 }

/-- The number as it is written. -/
def CInt.text (n : CInt) : String := toString n.val

/-- The units of a size. -/
inductive SizeUnit where
  | bytes
  | kilobytes
  | megabytes
  | gigabytes
  deriving DecidableEq

/-- The unit as it is written. -/
def SizeUnit.text : SizeUnit → String
  | .bytes => ""
  | .kilobytes => "KB"
  | .megabytes => "MB"
  | .gigabytes => "GB"

/-- The bytes of a unit. -/
def SizeUnit.value : SizeUnit → Nat
  | .bytes => 1
  | .kilobytes => 1024
  | .megabytes => 1024 * 1024
  | .gigabytes => 1024 * 1024 * 1024

/-- A size in the configuration file. -/
structure ConfigSize where
  count : Nat
  unit : SizeUnit
  small : count < 2 ^ 31

/-- The size as it is written. -/
def ConfigSize.text (size : ConfigSize) : String := toString size.count ++ size.unit.text

/-- The bytes of a size. -/
def ConfigSize.value (size : ConfigSize) : Nat := size.count * size.unit.value

/-- The names of the sections. -/
inductive SectionKey where
  | version
  | inputs
  | outputs
  | correlation
  | performance
  deriving DecidableEq

/-- The name as it is written. -/
def SectionKey.text : SectionKey → String
  | .version => "version"
  | .inputs => "inputs"
  | .outputs => "outputs"
  | .correlation => "correlation"
  | .performance => "performance"

/-- A section of the document. -/
inductive ConfigSection where
  | version (text : String)
  | inputs (logs network : Option (List NblexInputConfig))
  | outputs (items : List NblexOutputConfig)
  | correlation (enabled : Option Bool) (windowMs : Option CInt)
  | performance (workerThreads : Option CInt) (bufferSize memoryLimit : Option ConfigSize)

/-- A value under its key, when it is given. -/
abbrev ConfigField := String × Option String

/-- The fields of an input. -/
def NblexInputConfig.fields (input : NblexInputConfig) : List ConfigField :=
  [("name", input.name), ("type", input.type), ("path", input.path),
    ("interface", input.interface), ("filter", input.filter), ("format", input.format)]

/-- The fields of an output. -/
def NblexOutputConfig.fields (output : NblexOutputConfig) : List ConfigField :=
  [("name", output.name), ("type", output.type), ("path", output.path), ("url", output.url),
    ("format", output.format)]

/-- The fields of the correlation section. -/
def correlationFields (enabled : Option Bool) (windowMs : Option CInt) : List ConfigField :=
  [("enabled", enabled.map (fun b => if b then "true" else "false")),
    ("window_ms", windowMs.map CInt.text)]

/-- The fields of the performance section. -/
def performanceFields (workerThreads : Option CInt) (bufferSize memoryLimit : Option ConfigSize) :
    List ConfigField :=
  [("worker_threads", workerThreads.map CInt.text), ("buffer_size", bufferSize.map ConfigSize.text),
    ("memory_limit", memoryLimit.map ConfigSize.text)]

/-- The events of a field. -/
def fieldEvents : ConfigField → List YamlEvent
  | (key, some value) => [.scalar key, .scalar value]
  | (_, none) => []

/-- The events of a mapping of fields. -/
def mappingEvents (fields : List ConfigField) : List YamlEvent :=
  .mappingStart :: (fields.flatMap fieldEvents ++ [.mappingEnd])

/-- The events of a sequence of mappings. -/
def sequenceEvents (items : List (List ConfigField)) : List YamlEvent :=
  .sequenceStart :: (items.flatMap mappingEvents ++ [.sequenceEnd])

/-- The events of a list of inputs under its key, when it is given. -/
def inputListEvents (key : String) : Option (List NblexInputConfig) → List YamlEvent
  | some items => .scalar key :: sequenceEvents (items.map NblexInputConfig.fields)
  | none => []

namespace ConfigSection

/-- The name of a section. -/
def key : ConfigSection → SectionKey
  | .version _ => .version
  | .inputs _ _ => .inputs
  | .outputs _ => .outputs
  | .correlation _ _ => .correlation
  | .performance _ _ _ => .performance

/-- The events of what stands under the name. -/
def body : ConfigSection → List YamlEvent
  | .version text => [.scalar text]
  | .inputs logs network =>
      .mappingStart ::
        (inputListEvents "logs" logs ++ (inputListEvents "network" network ++ [.mappingEnd]))
  | .outputs items => sequenceEvents (items.map NblexOutputConfig.fields)
  | .correlation enabled windowMs => mappingEvents (correlationFields enabled windowMs)
  | .performance workerThreads bufferSize memoryLimit =>
      mappingEvents (performanceFields workerThreads bufferSize memoryLimit)

/-- The events of a section. -/
def events (s : ConfigSection) : List YamlEvent := .scalar s.key.text :: s.body

/-- A section of settings: correlation or performance. -/
def isSettings : ConfigSection → Bool
  | .correlation _ _ | .performance _ _ _ => true
  | .version _ | .inputs _ _ | .outputs _ => false

/-- The configuration with what the section says. -/
def describe (config : NblexConfig) : ConfigSection → NblexConfig
  | .version text => { config with version := text }
  | .inputs logs network => { config with inputs := logs.getD [] ++ network.getD [] }
  | .outputs items => { config with outputs := items }
  | .correlation enabled windowMs =>
      { config with
        correlationEnabled := enabled.getD config.correlationEnabled
        correlationWindowMs := (windowMs.map (·.val)).getD config.correlationWindowMs }
  | .performance workerThreads bufferSize memoryLimit =>
      { config with
        workerThreads := (workerThreads.map (·.val)).getD config.workerThreads
        bufferSize := (bufferSize.map ConfigSize.value).getD config.bufferSize
        memoryLimit := (memoryLimit.map ConfigSize.value).getD config.memoryLimit }

end ConfigSection

/-- A document: sections of different names. -/
structure ConfigDocument where
  sections : List ConfigSection
  distinct : (sections.map ConfigSection.key).Nodup

namespace ConfigDocument

/-- The events of a document. -/
def events (document : ConfigDocument) : List YamlEvent :=
  .streamStart :: .documentStart :: .mappingStart ::
    (document.sections.flatMap ConfigSection.events ++ [.mappingEnd, .documentEnd, .streamEnd])

/-- The configuration a document describes: the defaults with what its sections say. -/
def described (document : ConfigDocument) : NblexConfig :=
  document.sections.foldl ConfigSection.describe {}

/-- The sections after one of a name. -/
def after (document : ConfigDocument) (key : SectionKey) : List ConfigSection :=
  (document.sections.dropWhile (fun s => s.key ≠ key)).tail

/-- The version does not directly follow an empty list of outputs, unless it is the default. -/
def VersionKept (document : ConfigDocument) : Prop :=
  .outputs [] ∈ document.sections →
    ∀ text, (document.after .outputs).head? = some (.version text) → text = "1.0"

/-- The documents without inputs that load as they should: no settings stand after the
    outputs. -/
def LoadsWithoutInputs (document : ConfigDocument) : Prop :=
  (∀ s ∈ document.sections, s.key ≠ .inputs) ∧
    (document.after .outputs).filter ConfigSection.isSettings = []

/-- The documents with inputs that load as they should. There are no outputs, and their empty
    list does not stand before the inputs; and either one of the two lists of inputs is empty and
    the settings stand before the inputs, or neither is empty, the network inputs have no fields
    and one section of settings, which says nothing but the defaults, stands after the
    inputs. -/
def LoadsWithInputs (document : ConfigDocument) : Prop :=
  ∃ logs network, .inputs logs network ∈ document.sections ∧
    (∀ items, .outputs items ∈ document.sections → items = []) ∧
    (∀ s ∈ document.after .outputs, s.key ≠ .inputs) ∧
    ((document.after .inputs).filter ConfigSection.isSettings = [] ∧
        (logs.getD [] = [] ↔ network.getD [] ≠ []) ∨
      ∃ s, (document.after .inputs).filter ConfigSection.isSettings = [s] ∧ s.describe {} = {} ∧
        logs.getD [] ≠ [] ∧ network.getD [] ≠ [] ∧ ∀ input ∈ network.getD [], input = {})

/-- The documents that load as they should. -/
def LoadsExactly (document : ConfigDocument) : Prop :=
  document.VersionKept ∧ (document.LoadsWithoutInputs ∨ document.LoadsWithInputs)

end ConfigDocument

end Nblex
