import Nblex.Core.Config.Proofs.Values

/-!
# What the loader makes of a mapping

Wherever a mapping of fields stands, the loader comes out of it between two keys and with all
pointers and flags cleared but `in_inputs` and `in_outputs`. Only where the fields went depends on
the state it came in with.
-/

namespace Nblex

/-- The field, when it is given. -/
def NblexInputConfig.put (input : NblexInputConfig) : ConfigField → NblexInputConfig
  | (key, some value) => input.assign key value
  | (_, none) => input

/-- The field, when it is given. -/
def NblexOutputConfig.put (output : NblexOutputConfig) : ConfigField → NblexOutputConfig
  | (key, some value) => output.assign key value
  | (_, none) => output

/-- An output that was read as an input. -/
def NblexOutputConfig.asInput (output : NblexOutputConfig) : NblexInputConfig :=
  { name := output.name, type := output.type, path := output.path, format := output.format }

/-- A key that names no section. -/
def PlainKey (key : String) : Prop := ∀ s : SectionKey, key ≠ s.text

theorem plainKey_iff (key : String) :
    PlainKey key ↔ key ≠ "version" ∧ key ≠ "inputs" ∧ key ≠ "outputs" ∧ key ≠ "correlation" ∧
      key ≠ "performance" := by
  constructor
  · intro plain
    exact ⟨plain .version, plain .inputs, plain .outputs, plain .correlation, plain .performance⟩
  · rintro ⟨version, inputs, outputs, correlation, performance⟩ (_ | _ | _ | _ | _)
    · exact version
    · exact inputs
    · exact outputs
    · exact correlation
    · exact performance

theorem plainKey_network : PlainKey "network" := by simp [plainKey_iff]

/-- The keys of a mapping name no section. -/
def PlainFields (fields : List ConfigField) : Prop := ∀ f ∈ fields, PlainKey f.1

theorem NblexInputConfig.fields_plain (input : NblexInputConfig) : PlainFields input.fields := by
  simp [PlainFields, NblexInputConfig.fields, plainKey_iff]

theorem NblexOutputConfig.fields_plain (output : NblexOutputConfig) :
    PlainFields output.fields := by
  simp [PlainFields, NblexOutputConfig.fields, plainKey_iff]

theorem correlationFields_plain (enabled : Option Bool) (windowMs : Option CInt) :
    PlainFields (correlationFields enabled windowMs) := by
  simp [PlainFields, correlationFields, plainKey_iff]

theorem performanceFields_plain (workerThreads : Option CInt)
    (bufferSize memoryLimit : Option ConfigSize) :
    PlainFields (performanceFields workerThreads bufferSize memoryLimit) := by
  simp [PlainFields, performanceFields, plainKey_iff]

/-- The fields of an input make the input. -/
theorem NblexInputConfig.foldl_put_fields (input : NblexInputConfig) :
    input.fields.foldl NblexInputConfig.put {} = input := by
  obtain ⟨name, type, path, interface, filter, format⟩ := input
  have named : NblexInputConfig.put {} ("name", name) = { name := name } := by
    cases name <;> simp [put, assign]
  have typed : NblexInputConfig.put { name := name } ("type", type) =
      { name := name, type := type } := by
    cases type <;> simp [put, assign]
  have placed : NblexInputConfig.put { name := name, type := type } ("path", path) =
      { name := name, type := type, path := path } := by
    cases path <;> simp [put, assign]
  have interfaced : NblexInputConfig.put { name := name, type := type, path := path }
      ("interface", interface) =
      { name := name, type := type, path := path, interface := interface } := by
    cases interface <;> simp [put, assign]
  have filtered : NblexInputConfig.put
      { name := name, type := type, path := path, interface := interface } ("filter", filter) =
      { name := name, type := type, path := path, interface := interface, filter := filter } := by
    cases filter <;> simp [put, assign]
  rw [fields, List.foldl_cons, named, List.foldl_cons, typed, List.foldl_cons, placed,
    List.foldl_cons, interfaced, List.foldl_cons, filtered, List.foldl_cons, List.foldl_nil]
  cases format <;> simp [put, assign]

/-- The fields of an output make the output. -/
theorem NblexOutputConfig.foldl_put_fields (output : NblexOutputConfig) :
    output.fields.foldl NblexOutputConfig.put {} = output := by
  obtain ⟨name, type, path, url, format⟩ := output
  have named : NblexOutputConfig.put {} ("name", name) = { name := name } := by
    cases name <;> simp [put, assign]
  have typed : NblexOutputConfig.put { name := name } ("type", type) =
      { name := name, type := type } := by
    cases type <;> simp [put, assign]
  have placed : NblexOutputConfig.put { name := name, type := type } ("path", path) =
      { name := name, type := type, path := path } := by
    cases path <;> simp [put, assign]
  have addressed : NblexOutputConfig.put { name := name, type := type, path := path }
      ("url", url) = { name := name, type := type, path := path, url := url } := by
    cases url <;> simp [put, assign]
  rw [fields, List.foldl_cons, named, List.foldl_cons, typed, List.foldl_cons, placed,
    List.foldl_cons, addressed, List.foldl_cons, List.foldl_nil]
  cases format <;> simp [put, assign]

/-- The fields of an output, put into an input, lose the address. -/
theorem NblexOutputConfig.foldl_put_asInput (output : NblexOutputConfig) :
    output.fields.foldl NblexInputConfig.put {} = output.asInput := by
  rw [← output.asInput.foldl_put_fields]
  obtain ⟨name, type, path, url, format⟩ := output
  cases url <;>
    simp [fields, asInput, NblexInputConfig.fields, NblexInputConfig.put, NblexInputConfig.assign]

/-- The settings are no fields of an input. -/
theorem foldl_put_correlation (enabled : Option Bool) (windowMs : Option CInt) :
    (correlationFields enabled windowMs).foldl NblexInputConfig.put {} = {} := by
  cases enabled <;> cases windowMs <;>
    simp [correlationFields, NblexInputConfig.put, NblexInputConfig.assign]

theorem foldl_put_performance (workerThreads : Option CInt)
    (bufferSize memoryLimit : Option ConfigSize) :
    (performanceFields workerThreads bufferSize memoryLimit).foldl NblexInputConfig.put {} =
      {} := by
  cases workerThreads <;> cases bufferSize <;> cases memoryLimit <;>
    simp [performanceFields, NblexInputConfig.put, NblexInputConfig.assign]

namespace Loader

/-- The event loop over events that do not end the stream. -/
def run (l : Loader) (events : List YamlEvent) : Loader := events.foldl step l

@[simp] theorem run_nil (l : Loader) : l.run [] = l := rfl

@[simp] theorem run_cons (l : Loader) (event : YamlEvent) (events : List YamlEvent) :
    l.run (event :: events) = (l.step event).run events := rfl

theorem run_append (l : Loader) (events later : List YamlEvent) :
    l.run (events ++ later) = (l.run events).run later := List.foldl_append

/-- The loop returns the configuration it has at the end of the stream. -/
theorem parse_append_streamEnd {events : List YamlEvent} (l : Loader)
    (inside : .streamEnd ∉ events) :
    parse (events ++ [.streamEnd]) l = some (l.run events).config := by
  induction events generalizing l with
  | nil => rfl
  | cons event events ih =>
      rw [List.mem_cons, not_or] at inside
      obtain ⟨here, later⟩ := inside
      rw [List.cons_append, parse, if_neg (Ne.symm here), run_cons]
      exact ih (l.step event) later

/-- The loader between two keys, outside of every item. -/
def between (config : NblexConfig) (inInputs inOutputs : Bool) (key : Option String) : Loader :=
  { config, inInputs, inOutputs, currentKey := key }

/-- The loader that takes the next scalar for the value of a key, outside of every item. -/
def awaiting (config : NblexConfig) (inInputs inOutputs : Bool) (key : String) : Loader :=
  { config, inInputs, inOutputs, currentKey := some key, expectingKey := false }

/-- The configuration after the fields of a mapping. -/
def assigned (l : Loader) (fields : List ConfigField) : NblexConfig :=
  fields.foldl (fun config f => match f.2 with
    | some value => ({ l with config } : Loader).assign f.1 value
    | none => config) l.config

theorem assigned_cons_some (l : Loader) (key value : String) (fields : List ConfigField) :
    l.assigned ((key, some value) :: fields) =
      ({ l with config := l.assign key value } : Loader).assigned fields := rfl

theorem readKey_plain {key : String} (plain : PlainKey key) (l : Loader) :
    l.readKey key = { l with currentKey := some key, expectingKey := false } := by
  obtain ⟨-, inputs, outputs, correlation, performance⟩ := (plainKey_iff key).mp plain
  simp [readKey, inputs, outputs, correlation, performance]

theorem run_fields {fields : List ConfigField} (plain : PlainFields fields) {l : Loader}
    (aligned : l.expectingKey = true) :
    ∃ key, l.run (fields.flatMap fieldEvents) =
      { l with config := l.assigned fields, currentKey := key } := by
  induction fields generalizing l with
  | nil => exact ⟨l.currentKey, rfl⟩
  | cons f fields ih =>
      obtain ⟨key, value⟩ := f
      have later : PlainFields fields := fun f member => plain f (List.mem_cons_of_mem _ member)
      rw [List.flatMap_cons, run_append]
      cases value with
      | none => exact ih later aligned
      | some value =>
          have here : l.run (fieldEvents (key, some value)) =
              { l with config := l.assign key value, currentKey := none } := by
            have plainHere : PlainKey key := plain (key, some value) List.mem_cons_self
            simp [fieldEvents, step, aligned, readKey_plain plainHere, readValue, assign]
          rw [here]
          exact ih (l := { l with config := l.assign key value, currentKey := none }) later aligned

theorem openMapping_aligned (l : Loader) : l.openMapping.expectingKey = true := by
  unfold openMapping
  split
  · rfl
  · split <;> rfl

theorem openMapping_sections (l : Loader) :
    l.openMapping.inInputs = l.inInputs ∧ l.openMapping.inOutputs = l.inOutputs := by
  unfold openMapping
  split
  · exact ⟨rfl, rfl⟩
  · split <;> exact ⟨rfl, rfl⟩

/-- A mapping of fields, wherever it stands. -/
theorem run_mapping {fields : List ConfigField} (plain : PlainFields fields) (l : Loader) :
    ∃ key, l.run (mappingEvents fields) =
      between (l.openMapping.assigned fields) l.inInputs l.inOutputs key := by
  obtain ⟨key, inside⟩ := run_fields plain l.openMapping_aligned
  obtain ⟨inInputs, inOutputs⟩ := l.openMapping_sections
  refine ⟨key, ?_⟩
  rw [mappingEvents, run_cons, run_append]
  have opened : l.step .mappingStart = l.openMapping := rfl
  rw [opened, inside, ← inInputs, ← inOutputs]
  rfl

theorem modify_last {α : Type} (f : α → α) (x : α) (xs : List α) :
    (xs ++ [x]).modify xs.length f = xs ++ [f x] := by
  induction xs with
  | nil => rfl
  | cons y xs ih => exact congrArg (y :: ·) ih

/-- The fields go into the input that is being read. -/
theorem assigned_input {fields : List ConfigField} (plain : PlainFields fields) {l : Loader}
    {inputs : List NblexInputConfig} {input : NblexInputConfig}
    (last : l.config.inputs = inputs ++ [input]) (current : l.currentInput = some inputs.length) :
    l.assigned fields =
      { l.config with inputs := inputs ++ [fields.foldl NblexInputConfig.put input] } := by
  induction fields generalizing l input with
  | nil => rw [List.foldl_nil, ← last, assigned, List.foldl_nil]
  | cons f fields ih =>
      obtain ⟨key, value⟩ := f
      have later : PlainFields fields := fun f member => plain f (List.mem_cons_of_mem _ member)
      cases value with
      | none => exact ih later last current
      | some value =>
          have notVersion : key ≠ "version" := plain (key, some value) List.mem_cons_self .version
          have here : l.assign key value =
              { l.config with inputs := inputs ++ [input.assign key value] } := by
            simp only [assign, if_neg notVersion, current, last, modify_last]
          rw [assigned_cons_some, here]
          exact ih later rfl current

/-- The fields go into the output that is being read, when no input is. -/
theorem assigned_output {fields : List ConfigField} (plain : PlainFields fields) {l : Loader}
    {outputs : List NblexOutputConfig} {output : NblexOutputConfig}
    (last : l.config.outputs = outputs ++ [output]) (noInput : l.currentInput = none)
    (current : l.currentOutput = some outputs.length) :
    l.assigned fields =
      { l.config with outputs := outputs ++ [fields.foldl NblexOutputConfig.put output] } := by
  induction fields generalizing l output with
  | nil => rw [List.foldl_nil, ← last, assigned, List.foldl_nil]
  | cons f fields ih =>
      obtain ⟨key, value⟩ := f
      have later : PlainFields fields := fun f member => plain f (List.mem_cons_of_mem _ member)
      cases value with
      | none => exact ih later last noInput current
      | some value =>
          have notVersion : key ≠ "version" := plain (key, some value) List.mem_cons_self .version
          have here : l.assign key value =
              { l.config with outputs := outputs ++ [output.assign key value] } := by
            simp only [assign, if_neg notVersion, noInput, current, last, modify_last]
          rw [assigned_cons_some, here]
          exact ih later rfl noInput current

/-- No input and no output is being read, and no settings are. -/
theorem assigned_nowhere {fields : List ConfigField} (plain : PlainFields fields) {l : Loader}
    (noInput : l.currentInput = none) (noOutput : l.currentOutput = none)
    (noCorrelation : l.inCorrelation = false) (noPerformance : l.inPerformance = false) :
    l.assigned fields = l.config := by
  induction fields generalizing l with
  | nil => rfl
  | cons f fields ih =>
      obtain ⟨key, value⟩ := f
      have later : PlainFields fields := fun f member => plain f (List.mem_cons_of_mem _ member)
      cases value with
      | none => exact ih later noInput noOutput noCorrelation noPerformance
      | some value =>
          have notVersion : key ≠ "version" := plain (key, some value) List.mem_cons_self .version
          have here : l.assign key value = l.config := by
            simp only [assign, if_neg notVersion, noInput, noOutput, noCorrelation, noPerformance,
              Bool.false_eq_true, if_false]
          rw [assigned_cons_some, here]
          exact ih later noInput noOutput noCorrelation noPerformance

/-- A mapping among the inputs but outside of their two lists is a new input. -/
theorem assigned_newInput {fields : List ConfigField} (plain : PlainFields fields) {l : Loader}
    (inInputs : l.inInputs = true) (noLogs : l.inLogs = false) (noNetwork : l.inNetwork = false) :
    l.openMapping.assigned fields =
      { l.config with
        inputs := l.config.inputs ++ [fields.foldl NblexInputConfig.put {}] } := by
  have opened : l.openMapping =
      { l with
        config := { l.config with inputs := l.config.inputs ++ [{}] }
        currentInput := some l.config.inputs.length
        expectingKey := true } := by
    simp [openMapping, inInputs, noLogs, noNetwork]
  rw [opened]
  exact assigned_input plain rfl rfl

/-- A mapping among the outputs, with no inputs before, is a new output. -/
theorem assigned_newOutput {fields : List ConfigField} (plain : PlainFields fields) {l : Loader}
    (noInputs : l.inInputs = false) (inOutputs : l.inOutputs = true)
    (noInput : l.currentInput = none) :
    l.openMapping.assigned fields =
      { l.config with
        outputs := l.config.outputs ++ [fields.foldl NblexOutputConfig.put {}] } := by
  have opened : l.openMapping =
      { l with
        config := { l.config with outputs := l.config.outputs ++ [{}] }
        currentOutput := some l.config.outputs.length
        expectingKey := true } := by
    simp [openMapping, noInputs, inOutputs]
  rw [opened]
  exact assigned_output plain rfl noInput rfl

end Loader

end Nblex
