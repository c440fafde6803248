import Nblex.Core.Config.Loader

/-!
# Keys the loader does not know

A configuration file may hold entries the loader has no use for, with any node of YAML as their
value. The documents here have the six kinds of mapping the loader reads and may hold anything
else besides; a place is a gap in one of these mappings, into which an entry can be put.
-/

namespace Nblex

/-- A node of a YAML document. -/
inductive YamlNode where
  | scalar (value : String)
  | alias
  | sequence (items : List YamlNode)
  | mapping (entries : List (YamlNode × YamlNode))

mutual

/-- The events of a node. -/
def YamlNode.events : YamlNode → List YamlEvent
  | .scalar value => [.scalar value]
  | .alias => [.aliasNode]
  | .sequence items => .sequenceStart :: (itemEvents items ++ [.sequenceEnd])
  | .mapping entries => .mappingStart :: (pairEvents entries ++ [.mappingEnd])

/-- The events of the items of a sequence. -/
def itemEvents : List YamlNode → List YamlEvent
  | [] => []
  | item :: items => item.events ++ itemEvents items

/-- The events of the entries of a mapping. -/
def pairEvents : List (YamlNode × YamlNode) → List YamlEvent
  | [] => []
  | (key, value) :: entries => key.events ++ (value.events ++ pairEvents entries)

end

/-- An entry of a mapping: a key and any node. -/
abbrev YamlEntry := String × YamlNode

/-- The events of an entry. -/
def entryEvents (entry : YamlEntry) : List YamlEvent := .scalar entry.1 :: entry.2.events

/-- The events of a mapping. -/
def blockEvents (entries : List YamlEntry) : List YamlEvent :=
  .mappingStart :: (entries.flatMap entryEvents ++ [.mappingEnd])

/-- The two lists of inputs. -/
inductive InputListKey where
  | logs
  | network

/-- The key as it is written. -/
def InputListKey.text : InputListKey → String
  | .logs => "logs"
  | .network => "network"

/-- The two mappings of settings. -/
inductive SettingsKey where
  | correlation
  | performance

/-- The key as it is written. -/
def SettingsKey.text : SettingsKey → String
  | .correlation => "correlation"
  | .performance => "performance"

/-- An entry of the mapping under `inputs`. -/
inductive InputsEntry where
  | items (key : InputListKey) (inputs : List (List YamlEntry))
  | other (entry : YamlEntry)

/-- The events of an entry of the inputs. -/
def InputsEntry.events : InputsEntry → List YamlEvent
  | .items key inputs =>
      .scalar key.text :: .sequenceStart :: (inputs.flatMap blockEvents ++ [.sequenceEnd])
  | .other entry => entryEvents entry

/-- An entry of the document. -/
inductive DocumentEntry where
  | inputs (entries : List InputsEntry)
  | outputs (items : List (List YamlEntry))
  | settings (key : SettingsKey) (entries : List YamlEntry)
  | other (entry : YamlEntry)

/-- The events of an entry of the document. -/
def DocumentEntry.events : DocumentEntry → List YamlEvent
  | .inputs entries =>
      .scalar "inputs" :: .mappingStart :: (entries.flatMap InputsEntry.events ++ [.mappingEnd])
  | .outputs items =>
      .scalar "outputs" :: .sequenceStart :: (items.flatMap blockEvents ++ [.sequenceEnd])
  | .settings key entries => .scalar key.text :: blockEvents entries
  | .other entry => entryEvents entry

/-- A place in one of the mappings of a document, with what stands before and after it there and
    in the mappings and lists around. -/
inductive ConfigPlace where
  | document (before after : List DocumentEntry)
  | inputs (before : List DocumentEntry) (entries later : List InputsEntry)
      (after : List DocumentEntry)
  | input (before : List DocumentEntry) (entries : List InputsEntry) (key : InputListKey)
      (items : List (List YamlEntry)) (fields fieldsAfter : List YamlEntry)
      (itemsAfter : List (List YamlEntry)) (later : List InputsEntry) (after : List DocumentEntry)
  | output (before : List DocumentEntry) (items : List (List YamlEntry))
      (fields fieldsAfter : List YamlEntry) (itemsAfter : List (List YamlEntry))
      (after : List DocumentEntry)
  | settings (before : List DocumentEntry) (key : SettingsKey) (fields fieldsAfter : List YamlEntry)
      (after : List DocumentEntry)

/-- The events of a document before some entry of it. -/
def documentHead (before : List DocumentEntry) : List YamlEvent :=
  .streamStart :: .documentStart :: .mappingStart :: before.flatMap DocumentEntry.events

/-- The events of a document after some entry of it. -/
def documentTail (after : List DocumentEntry) : List YamlEvent :=
  after.flatMap DocumentEntry.events ++ [.mappingEnd, .documentEnd, .streamEnd]

namespace ConfigPlace

/-- The events before the place. -/
def eventsBefore : ConfigPlace → List YamlEvent
  | .document before _ => documentHead before
  | .inputs before entries _ _ =>
      documentHead before ++ .scalar "inputs" :: .mappingStart ::
        entries.flatMap InputsEntry.events
  | .input before entries key items fields _ _ _ _ =>
      documentHead before ++ .scalar "inputs" :: .mappingStart ::
        (entries.flatMap InputsEntry.events ++ .scalar key.text :: .sequenceStart ::
          (items.flatMap blockEvents ++ .mappingStart :: fields.flatMap entryEvents))
  | .output before items fields _ _ _ =>
      documentHead before ++ .scalar "outputs" :: .sequenceStart ::
        (items.flatMap blockEvents ++ .mappingStart :: fields.flatMap entryEvents)
  | .settings before key fields _ _ =>
      documentHead before ++ .scalar key.text :: .mappingStart :: fields.flatMap entryEvents

/-- The events after the place. -/
def eventsAfter : ConfigPlace → List YamlEvent
  | .document _ after => documentTail after
  | .inputs _ _ later after =>
      later.flatMap InputsEntry.events ++ .mappingEnd :: documentTail after
  | .input _ _ _ _ _ fieldsAfter itemsAfter later after =>
      fieldsAfter.flatMap entryEvents ++ .mappingEnd ::
        (itemsAfter.flatMap blockEvents ++ .sequenceEnd ::
          (later.flatMap InputsEntry.events ++ .mappingEnd :: documentTail after))
  | .output _ _ _ fieldsAfter itemsAfter after =>
      fieldsAfter.flatMap entryEvents ++ .mappingEnd ::
        (itemsAfter.flatMap blockEvents ++ .sequenceEnd :: documentTail after)
  | .settings _ _ _ fieldsAfter after =>
      fieldsAfter.flatMap entryEvents ++ .mappingEnd :: documentTail after

/-- The events of the document. -/
def events (place : ConfigPlace) : List YamlEvent := place.eventsBefore ++ place.eventsAfter

/-- The events of the document with an entry put in at the place. -/
def eventsWith (place : ConfigPlace) (entry : YamlEntry) : List YamlEvent :=
  place.eventsBefore ++ (entryEvents entry ++ place.eventsAfter)

end ConfigPlace

/-- The words that the loader acts on when it takes them for a key. -/
def settingWords : List String :=
  ["version", "inputs", "outputs", "correlation", "performance", "name", "type", "path",
    "interface", "filter", "format", "url", "enabled", "window_ms", "worker_threads",
    "buffer_size", "memory_limit"]

/-- The words that the loader acts on when a list begins under them. -/
def listWords : List String := ["logs", "network"]

/-- A key the loader does not know. -/
def ForeignKey (key : String) : Prop := key ∉ settingWords ∧ key ∉ listWords

instance (key : String) : Decidable (ForeignKey key) := inferInstanceAs (Decidable (_ ∧ _))

/-- Whether a key is due after some events. Every scalar is a key or a value in turn, on
    whatever level it stands, and wherever a mapping begins or ends a key is due. -/
def keyDue (due : Bool) : List YamlEvent → Bool
  | [] => due
  | .scalar _ :: events => keyDue (!due) events
  | .mappingStart :: events | .mappingEnd :: events => keyDue true events
  | _ :: events => keyDue due events

/-- The scalars the loader takes for keys. -/
def keysRead (due : Bool) : List YamlEvent → List String
  | [] => []
  | .scalar word :: events =>
      if due then word :: keysRead false events else keysRead true events
  | .mappingStart :: events | .mappingEnd :: events => keysRead true events
  | _ :: events => keysRead due events

/-- Those among the keys under which a list begins; `pending` is the key whose value is due. -/
def listsRead (pending : Option String) : List YamlEvent → List String
  | [] => []
  | .scalar word :: events =>
      match pending with
      | none => listsRead (some word) events
      | some _ => listsRead none events
  | .sequenceStart :: events => pending.toList ++ listsRead pending events
  | .mappingStart :: events | .mappingEnd :: events => listsRead none events
  | _ :: events => listsRead pending events

/-- The loader reads the entry as it reads a scalar under a key it does not know: there is no
    mapping in the value; its scalars are odd in number, so that a key is due again; and the
    loader acts on none of those it takes for keys, which are every other one. -/
structure ReadsAsScalar (entry : YamlEntry) : Prop where
  noMapping : .mappingStart ∉ entry.2.events
  due : keyDue true (entryEvents entry) = true
  quietKeys : ∀ word ∈ keysRead true (entryEvents entry), word ∉ settingWords
  quietLists : ∀ word ∈ listsRead none (entryEvents entry), word ∉ listWords

/-- A key is due at the place. -/
def ConfigPlace.due (place : ConfigPlace) : Bool := keyDue true place.eventsBefore

/-- The entry changes no configuration at the places where a key is due, or at those where none
    is. -/
def InertWhere (due : Bool) (entry : YamlEntry) : Prop :=
  ∀ place : ConfigPlace, place.due = due →
    nblexConfigLoadYaml (place.eventsWith entry) = nblexConfigLoadYaml place.events

end Nblex
