import Nblex.Core.Config.Proofs.Mappings

/-!
# What the loader makes of a section

A section of settings or a version that stands before the inputs and the outputs is read as it is
meant. The mapping of the inputs is taken for an input of its own, which the first item of the
first list fills. Whatever mapping stands after the inputs is taken for an input again.
-/

namespace Nblex

/-- The inputs that come of the two lists: the mapping around them is the first one, and the first
    network input finds no place when there are log inputs. -/
def gathered : List NblexInputConfig → List NblexInputConfig → List NblexInputConfig
  | [], [] => [{}]
  | [], network => network
  | logs, network => logs ++ network.tail

/-- What a section makes of the configuration when it stands after the inputs. -/
def ConfigSection.afterInputs (config : NblexConfig) : ConfigSection → NblexConfig
  | .version text => { config with version := text }
  | .outputs items => { config with inputs := config.inputs ++ items.map NblexOutputConfig.asInput }
  | .inputs _ _ | .correlation _ _ | .performance _ _ _ =>
      { config with inputs := config.inputs ++ [{}] }

namespace Loader

theorem step_scalar_between (config : NblexConfig) (inInputs inOutputs : Bool)
    (key : Option String) (value : String) :
    (between config inInputs inOutputs key).step (.scalar value) =
      (between config inInputs inOutputs key).readKey value := rfl

/-- A value that has lost its place is dropped. -/
theorem step_scalar_awaiting (config : NblexConfig) (inInputs inOutputs : Bool) {key : String}
    (notVersion : key ≠ "version") (value : String) :
    (awaiting config inInputs inOutputs key).step (.scalar value) =
      between config inInputs inOutputs none := by
  simp [step, awaiting, readValue, assign, notVersion, between]

theorem run_version (config : NblexConfig) (inInputs inOutputs : Bool) (key : Option String)
    (text : String) :
    (between config inInputs inOutputs key).run (ConfigSection.version text).events =
      between { config with version := text } inInputs inOutputs none := by
  simp [ConfigSection.events, ConfigSection.key, ConfigSection.body, SectionKey.text, step,
    between, readKey, readValue, assign]

theorem closeMapping_eq (l : Loader) :
    l.closeMapping = between l.config l.inInputs l.inOutputs l.currentKey := rfl

/-- A version or settings before the inputs and the outputs. -/
theorem run_plain (config : NblexConfig) (key : Option String) {s : ConfigSection}
    (noInputs : s.key ≠ .inputs) (noOutputs : s.key ≠ .outputs) :
    ∃ key', (between config false false key).run s.events =
      between (s.describe config) false false key' := by
  cases s with
  | version text => exact ⟨none, run_version config false false key text⟩
  | inputs logs network => exact absurd rfl noInputs
  | outputs items => exact absurd rfl noOutputs
  | correlation enabled windowMs =>
      obtain ⟨key', ran⟩ := run_mapping (correlationFields_plain enabled windowMs)
        ((between config false false key).readKey "correlation")
      refine ⟨key', ran.trans ?_⟩
      cases enabled with
      | none =>
          cases windowMs <;>
            simp [assigned, correlationFields, assign, openMapping, readKey, between,
              NblexConfig.assignCorrelation, ConfigSection.describe, atoi_text]
      | some enabled =>
          cases enabled <;> cases windowMs <;>
            simp [assigned, correlationFields, assign, openMapping, readKey, between,
              NblexConfig.assignCorrelation, ConfigSection.describe, atoi_text]
  | performance workerThreads bufferSize memoryLimit =>
      obtain ⟨key', ran⟩ := run_mapping
        (performanceFields_plain workerThreads bufferSize memoryLimit)
        ((between config false false key).readKey "performance")
      refine ⟨key', ran.trans ?_⟩
      cases workerThreads <;> cases bufferSize <;> cases memoryLimit <;>
        simp [assigned, performanceFields, assign, openMapping, readKey, between,
          NblexConfig.assignPerformance, ConfigSection.describe, atoi_text, parseSize_text]

/-- Mappings that are each appended to what has been placed are all appended to it. -/
theorem run_mappings {place : List (List ConfigField) → NblexConfig} {inInputs inOutputs : Bool}
    (each : ∀ placed fields key, PlainFields fields →
      ∃ key', (between (place placed) inInputs inOutputs key).run (mappingEvents fields) =
        between (place (placed ++ [fields])) inInputs inOutputs key')
    {items : List (List ConfigField)} (plain : ∀ fields ∈ items, PlainFields fields)
    (placed : List (List ConfigField)) (key : Option String) :
    ∃ key', (between (place placed) inInputs inOutputs key).run (items.flatMap mappingEvents) =
      between (place (placed ++ items)) inInputs inOutputs key' := by
  induction items generalizing placed key with
  | nil => exact ⟨key, by rw [List.append_nil]; rfl⟩
  | cons fields items ih =>
      obtain ⟨here, ran⟩ := each placed fields key (plain fields List.mem_cons_self)
      obtain ⟨key', rest⟩ := ih (fun f member => plain f (List.mem_cons_of_mem _ member))
        (placed ++ [fields]) here
      refine ⟨key', ?_⟩
      rw [List.flatMap_cons, run_append, ran, rest, List.append_assoc]
      rfl

/-- The configuration with the mappings as further inputs. -/
def addInputs (config : NblexConfig) (items : List (List ConfigField)) :
    NblexConfig :=
  { config with inputs := config.inputs ++ items.map (fun f => f.foldl NblexInputConfig.put {}) }

/-- The configuration with the mappings as further outputs. -/
def addOutputs (config : NblexConfig) (items : List (List ConfigField)) :
    NblexConfig :=
  { config with
    outputs := config.outputs ++ items.map (fun f => f.foldl NblexOutputConfig.put {}) }

/-- Mappings after the inputs are inputs. -/
theorem run_mappings_inInputs {items : List (List ConfigField)}
    (plain : ∀ fields ∈ items, PlainFields fields) (config : NblexConfig) (inOutputs : Bool)
    (key : Option String) :
    ∃ key', (between config true inOutputs key).run (items.flatMap mappingEvents) =
      between (addInputs config items) true inOutputs key' := by
  have each : ∀ placed fields key, PlainFields fields →
      ∃ key', (between (addInputs config placed) true inOutputs key).run (mappingEvents fields) =
        between (addInputs config (placed ++ [fields])) true inOutputs key' := by
    intro placed fields key plainHere
    obtain ⟨here, ran⟩ :=
      run_mapping plainHere (between (addInputs config placed) true inOutputs key)
    rw [assigned_newInput plainHere rfl rfl rfl] at ran
    refine ⟨here, ran.trans ?_⟩
    simp [addInputs, between]
  have start : addInputs config [] = config := by simp [addInputs]
  obtain ⟨key', ran⟩ := run_mappings each plain [] key
  rw [start] at ran
  exact ⟨key', ran⟩

/-- Mappings after the outputs are outputs, when no inputs stand before. -/
theorem run_mappings_inOutputs {items : List (List ConfigField)}
    (plain : ∀ fields ∈ items, PlainFields fields) (config : NblexConfig) (key : Option String) :
    ∃ key', (between config false true key).run (items.flatMap mappingEvents) =
      between (addOutputs config items) false true key' := by
  have each : ∀ placed fields key, PlainFields fields →
      ∃ key', (between (addOutputs config placed) false true key).run (mappingEvents fields) =
        between (addOutputs config (placed ++ [fields])) false true key' := by
    intro placed fields key plainHere
    obtain ⟨here, ran⟩ :=
      run_mapping plainHere (between (addOutputs config placed) false true key)
    rw [assigned_newOutput plainHere rfl rfl rfl] at ran
    refine ⟨here, ran.trans ?_⟩
    simp [addOutputs, between]
  have start : addOutputs config [] = config := by simp [addOutputs]
  obtain ⟨key', ran⟩ := run_mappings each plain [] key
  rw [start] at ran
  exact ⟨key', ran⟩

theorem plain_inputs (items : List NblexInputConfig) :
    ∀ fields ∈ items.map NblexInputConfig.fields, PlainFields fields := by
  intro fields member
  obtain ⟨input, -, rfl⟩ := List.mem_map.mp member
  exact input.fields_plain

theorem plain_outputs (items : List NblexOutputConfig) :
    ∀ fields ∈ items.map NblexOutputConfig.fields, PlainFields fields := by
  intro fields member
  obtain ⟨output, -, rfl⟩ := List.mem_map.mp member
  exact output.fields_plain

theorem map_put_inputs (items : List NblexInputConfig) :
    (items.map NblexInputConfig.fields).map (fun f => f.foldl NblexInputConfig.put {}) =
      items := by
  rw [List.map_map]
  refine Eq.trans (List.map_congr_left ?_) (List.map_id items)
  intro input _
  exact input.foldl_put_fields

theorem map_put_outputs (items : List NblexOutputConfig) :
    (items.map NblexOutputConfig.fields).map (fun f => f.foldl NblexOutputConfig.put {}) =
      items := by
  rw [List.map_map]
  refine Eq.trans (List.map_congr_left ?_) (List.map_id items)
  intro output _
  exact output.foldl_put_fields

theorem map_put_asInput (items : List NblexOutputConfig) :
    (items.map NblexOutputConfig.fields).map (fun f => f.foldl NblexInputConfig.put {}) =
      items.map NblexOutputConfig.asInput := by
  rw [List.map_map]
  refine List.map_congr_left ?_
  intro output _
  exact output.foldl_put_asInput

/-- The loader among the inputs while the mapping around their lists is the input being read. -/
def inside (config : NblexConfig) (inLogs inNetwork expectingKey : Bool) (key : Option String) :
    Loader :=
  { config := { config with inputs := config.inputs ++ [{}] }
    inInputs := true
    inLogs, inNetwork, expectingKey
    currentKey := key
    currentInput := some config.inputs.length }

/-- The first item of the first list fills the input of the mapping around it. -/
theorem run_items_inside (config : NblexConfig) {inLogs inNetwork : Bool}
    (inList : (inLogs || inNetwork) = true) (expectingKey : Bool) (key : Option String)
    (input : NblexInputConfig) (items : List NblexInputConfig) :
    ∃ key', (inside config inLogs inNetwork expectingKey key).run
        (((input :: items).map NblexInputConfig.fields).flatMap mappingEvents) =
      between { config with inputs := config.inputs ++ input :: items } true false key' := by
  obtain ⟨here, ran⟩ :=
    run_mapping input.fields_plain (inside config inLogs inNetwork expectingKey key)
  have opened : (inside config inLogs inNetwork expectingKey key).openMapping =
      inside config inLogs inNetwork true key := by
    cases inLogs with
    | true => rfl
    | false =>
        rw [Bool.false_or] at inList
        rw [inList]
        rfl
  rw [opened, assigned_input input.fields_plain rfl rfl, input.foldl_put_fields] at ran
  obtain ⟨key', rest⟩ := run_mappings_inInputs (plain_inputs items)
    { config with inputs := config.inputs ++ [input] } false here
  refine ⟨key', ?_⟩
  rw [List.map_cons, List.flatMap_cons, run_append, ran]
  refine rest.trans ?_
  rw [addInputs, map_put_inputs, List.append_assoc]
  rfl

/-- The first item of the second list finds no place. -/
theorem run_items_lost (config : NblexConfig) (key : Option String) (input : NblexInputConfig)
    (items : List NblexInputConfig) :
    ∃ key', (between config true false key).run
        (inputListEvents "network" (some (input :: items))) =
      between { config with inputs := config.inputs ++ items } true false key' := by
  obtain ⟨here, ran⟩ := run_mapping input.fields_plain
    { between config true false (some "network") with inNetwork := true, expectingKey := false }
  rw [assigned_nowhere input.fields_plain rfl rfl rfl rfl] at ran
  obtain ⟨key', rest⟩ := run_mappings_inInputs (plain_inputs items) config false here
  refine ⟨key', ?_⟩
  have start : (between config true false key).run (inputListEvents "network"
      (some (input :: items))) =
      (({ between config true false (some "network") with
          inNetwork := true, expectingKey := false } : Loader).run
        (mappingEvents input.fields)).run
          ((items.map NblexInputConfig.fields).flatMap mappingEvents ++ [.sequenceEnd]) := by
    rw [inputListEvents, run_cons, step_scalar_between, readKey_plain plainKey_network,
      sequenceEvents, run_cons, List.map_cons, List.flatMap_cons, List.append_assoc, run_append]
    simp [step, openSequence, between]
  rw [start, ran, run_append]
  refine (congrArg (run · [.sequenceEnd]) rest).trans ?_
  rw [addInputs, map_put_inputs]
  rfl

/-- A list that is read inside of the mapping around it, and is not empty. -/
theorem run_list_inside {l : Loader} {key : String} {config : NblexConfig}
    {inLogs inNetwork expectingKey : Bool} {last : Option String}
    (opened : l.run [.scalar key, .sequenceStart] =
      inside config inLogs inNetwork expectingKey last)
    (inList : (inLogs || inNetwork) = true) (input : NblexInputConfig)
    (items : List NblexInputConfig) :
    ∃ key', l.run (inputListEvents key (some (input :: items))) =
      between { config with inputs := config.inputs ++ input :: items } true false key' := by
  obtain ⟨key', ran⟩ := run_items_inside config inList expectingKey last input items
  refine ⟨key', ?_⟩
  have split : inputListEvents key (some (input :: items)) =
      [.scalar key, .sequenceStart] ++
        ((((input :: items).map NblexInputConfig.fields).flatMap mappingEvents) ++
          [.sequenceEnd]) := rfl
  rw [split, run_append, opened, run_append, ran]
  rfl

theorem inside_logs (config : NblexConfig) (key : Option String) :
    (inside config false false true key).run [.scalar "logs", .sequenceStart] =
      inside config true false false (some "logs") := by
  simp [inside, step, readKey, openSequence]

theorem inside_network (config : NblexConfig) (key : Option String) :
    (inside config false false true key).run [.scalar "network", .sequenceStart] =
      inside config false true false (some "network") := by
  simp [inside, step, readKey, openSequence]

/-- After an empty list the name of the next one is taken for a value. -/
theorem inside_swallowed (config : NblexConfig) :
    (inside config true false false (some "logs")).run [.scalar "network", .sequenceStart] =
      inside config true false true none := by
  simp [inside, step, readValue, assign, openSequence, modify_last, NblexInputConfig.assign]

/-- The mapping of the inputs up to its end. -/
theorem run_lists (config : NblexConfig) (key : Option String)
    (logs network : Option (List NblexInputConfig)) :
    ∃ l : Loader, (inside config false false true key).run
        (inputListEvents "logs" logs ++ inputListEvents "network" network) = l ∧
      l.config = { config with
        inputs := config.inputs ++ gathered (logs.getD []) (network.getD []) } ∧
      l.inInputs = true ∧ l.inOutputs = false := by
  refine ⟨_, rfl, ?_⟩
  rw [run_append]
  cases logs with
  | none =>
      cases network with
      | none => exact ⟨rfl, rfl, rfl⟩
      | some network =>
          cases network with
          | nil =>
              have ran : ((inside config false false true key).run
                  (inputListEvents "logs" none)).run (inputListEvents "network" (some [])) =
                  inside config false true false (some "network") := inside_network config key
              rw [ran]
              exact ⟨rfl, rfl, rfl⟩
          | cons input network =>
              obtain ⟨key', ran⟩ := run_list_inside (inside_network config key) rfl input network
              have none : (inside config false false true key).run (inputListEvents "logs" none) =
                  inside config false false true key := rfl
              rw [none, ran]
              exact ⟨rfl, rfl, rfl⟩
  | some logs =>
      cases logs with
      | nil =>
          have first : (inside config false false true key).run
              (inputListEvents "logs" (some [])) =
              inside config true false false (some "logs") := inside_logs config key
          rw [first]
          cases network with
          | none => exact ⟨rfl, rfl, rfl⟩
          | some network =>
              cases network with
              | nil =>
                  have ran : (inside config true false false (some "logs")).run
                      (inputListEvents "network" (some [])) =
                      inside config true false true none := inside_swallowed config
                  rw [ran]
                  exact ⟨rfl, rfl, rfl⟩
              | cons input network =>
                  obtain ⟨key', ran⟩ := run_list_inside (inside_swallowed config) rfl input network
                  rw [ran]
                  exact ⟨rfl, rfl, rfl⟩
      | cons input logs =>
          obtain ⟨key', first⟩ := run_list_inside (inside_logs config key) rfl input logs
          rw [first]
          cases network with
          | none => exact ⟨by simp [between, gathered, inputListEvents], rfl, rfl⟩
          | some network =>
              cases network with
              | nil =>
                  simp [inputListEvents, sequenceEvents, step, between, readKey, openSequence,
                    gathered]
              | cons other network =>
                  obtain ⟨key'', ran⟩ := run_items_lost
                    { config with inputs := config.inputs ++ input :: logs } key' other network
                  rw [ran]
                  refine ⟨?_, rfl, rfl⟩
                  simp [between, gathered]

/-- The inputs, when no outputs stand before. -/
theorem run_inputs (config : NblexConfig) (key : Option String)
    (logs network : Option (List NblexInputConfig)) :
    ∃ key', (between config false false key).run (ConfigSection.inputs logs network).events =
      between
        { config with
          inputs := config.inputs ++ gathered (logs.getD []) (network.getD []) }
        true false key' := by
  obtain ⟨l, ran, configEq, inInputs, inOutputs⟩ :=
    run_lists config (some "inputs") logs network
  have start : ((between config false false key).step (.scalar "inputs")).step .mappingStart =
      inside config false false true (some "inputs") := by
    simp [inside, step, between, readKey, openMapping]
  refine ⟨l.currentKey, ?_⟩
  have split : (ConfigSection.inputs logs network).events =
      [.scalar "inputs", .mappingStart] ++
        ((inputListEvents "logs" logs ++ inputListEvents "network" network) ++
          [.mappingEnd]) := by
    simp [ConfigSection.events, ConfigSection.key, ConfigSection.body, SectionKey.text]
  rw [split, run_append, run_cons, run_cons, run_nil, start, run_append, ran, run_cons, run_nil]
  refine (closeMapping_eq l).trans ?_
  rw [configEq, inInputs, inOutputs]

/-- Settings after the inputs are a blank input, whether their name is read or not. -/
theorem run_settings_body {s : ConfigSection} (settings : s.isSettings = true) {l : Loader}
    (inInputs : l.inInputs = true) (noLogs : l.inLogs = false) (noNetwork : l.inNetwork = false) :
    ∃ key, l.run s.body = between (s.afterInputs l.config) true l.inOutputs key := by
  cases s with
  | version text => cases settings
  | inputs logs network => cases settings
  | outputs items => cases settings
  | correlation enabled windowMs =>
      obtain ⟨key, ran⟩ := run_mapping (correlationFields_plain enabled windowMs) l
      rw [assigned_newInput (correlationFields_plain enabled windowMs) inInputs noLogs noNetwork,
        foldl_put_correlation, inInputs] at ran
      exact ⟨key, ran⟩
  | performance workerThreads bufferSize memoryLimit =>
      have plain := performanceFields_plain workerThreads bufferSize memoryLimit
      obtain ⟨key, ran⟩ := run_mapping plain l
      rw [assigned_newInput plain inInputs noLogs noNetwork, foldl_put_performance, inInputs] at ran
      exact ⟨key, ran⟩

theorem run_settings_between (config : NblexConfig) (inOutputs : Bool) (key : Option String)
    {s : ConfigSection} (settings : s.isSettings = true) :
    ∃ inOutputs' key', (between config true inOutputs key).run s.events =
      between (s.afterInputs config) true inOutputs' key' := by
  obtain ⟨key', ran⟩ := run_settings_body settings
    (l := (between config true inOutputs key).readKey s.key.text) rfl rfl rfl
  exact ⟨_, key', ran⟩

theorem run_settings_awaiting (config : NblexConfig) (inOutputs : Bool) {key : String}
    (notVersion : key ≠ "version") {s : ConfigSection} (settings : s.isSettings = true) :
    ∃ key', (awaiting config true inOutputs key).run s.events =
      between (s.afterInputs config) true inOutputs key' := by
  obtain ⟨key', ran⟩ := run_settings_body settings (l := between config true inOutputs none)
    rfl rfl rfl
  refine ⟨key', ?_⟩
  rw [ConfigSection.events, run_cons, step_scalar_awaiting config true inOutputs notVersion, ran]
  rfl

theorem run_outputs_nil (config : NblexConfig) (inInputs inOutputs : Bool) (key : Option String) :
    (between config inInputs inOutputs key).run (ConfigSection.outputs []).events =
      awaiting config inInputs true "outputs" := by
  simp [ConfigSection.events, ConfigSection.key, ConfigSection.body, SectionKey.text,
    sequenceEvents, step, between, readKey, openSequence, awaiting]

theorem outputs_events (item : NblexOutputConfig) (items : List NblexOutputConfig) :
    (ConfigSection.outputs (item :: items)).events =
      [.scalar "outputs", .sequenceStart] ++
        (mappingEvents item.fields ++
          ((items.map NblexOutputConfig.fields).flatMap mappingEvents ++ [.sequenceEnd])) := by
  simp [ConfigSection.events, ConfigSection.key, ConfigSection.body, SectionKey.text,
    sequenceEvents]

/-- Outputs after the inputs are inputs. -/
theorem run_outputs_inInputs (config : NblexConfig) (inOutputs : Bool) (key : Option String)
    (item : NblexOutputConfig) (items : List NblexOutputConfig) :
    ∃ key', (between config true inOutputs key).run (ConfigSection.outputs (item :: items)).events =
      between ((ConfigSection.outputs (item :: items)).afterInputs config) true true key' := by
  have start : (between config true inOutputs key).run [.scalar "outputs", .sequenceStart] =
      awaiting config true true "outputs" := by
    simp [step, between, readKey, openSequence, awaiting]
  obtain ⟨here, first⟩ := run_mapping item.fields_plain (awaiting config true true "outputs")
  rw [assigned_newInput item.fields_plain rfl rfl rfl, item.foldl_put_asInput] at first
  obtain ⟨key', rest⟩ := run_mappings_inInputs (plain_outputs items)
    { config with inputs := config.inputs ++ [item.asInput] } true here
  refine ⟨key', ?_⟩
  rw [outputs_events, run_append, start, run_append, first, run_append]
  refine (congrArg (run · [.sequenceEnd]) rest).trans ?_
  rw [addInputs, map_put_asInput, List.append_assoc]
  rfl

/-- Outputs are read as they are meant when neither inputs nor outputs stand before. -/
theorem run_outputs (config : NblexConfig) (key : Option String) (item : NblexOutputConfig)
    (items : List NblexOutputConfig) :
    ∃ key', (between config false false key).run
        (ConfigSection.outputs (item :: items)).events =
      between { config with outputs := config.outputs ++ item :: items } false true key' := by
  have start : (between config false false key).run [.scalar "outputs", .sequenceStart] =
      awaiting config false true "outputs" := by
    simp [step, between, readKey, openSequence, awaiting]
  obtain ⟨here, first⟩ := run_mapping item.fields_plain (awaiting config false true "outputs")
  rw [assigned_newOutput item.fields_plain rfl rfl rfl, item.foldl_put_fields] at first
  obtain ⟨key', rest⟩ := run_mappings_inOutputs (plain_outputs items)
    { config with outputs := config.outputs ++ [item] } here
  refine ⟨key', ?_⟩
  rw [outputs_events, run_append, start, run_append, first, run_append]
  refine (congrArg (run · [.sequenceEnd]) rest).trans ?_
  rw [addOutputs, map_put_outputs, List.append_assoc]
  rfl

/-- The sections of a document one after the other. -/
def runSections (l : Loader) (sections : List ConfigSection) : Loader :=
  l.run (sections.flatMap ConfigSection.events)

@[simp] theorem runSections_nil (l : Loader) : l.runSections [] = l := rfl

theorem runSections_cons (l : Loader) (s : ConfigSection) (sections : List ConfigSection) :
    l.runSections (s :: sections) = (l.run s.events).runSections sections := by
  rw [runSections, List.flatMap_cons, run_append]
  rfl

theorem runSections_append (l : Loader) (sections later : List ConfigSection) :
    l.runSections (sections ++ later) = (l.runSections sections).runSections later := by
  rw [runSections, List.flatMap_append, run_append]
  rfl

/-- Sections before the inputs and the outputs are read as they are meant. -/
theorem runSections_plain {sections : List ConfigSection}
    (plain : ∀ s ∈ sections, s.key ≠ .inputs ∧ s.key ≠ .outputs) (config : NblexConfig)
    (key : Option String) :
    ∃ key', (between config false false key).runSections sections =
      between (sections.foldl ConfigSection.describe config) false false key' := by
  induction sections generalizing config key with
  | nil => exact ⟨key, rfl⟩
  | cons s sections ih =>
      obtain ⟨noInputs, noOutputs⟩ := plain s List.mem_cons_self
      obtain ⟨here, first⟩ := run_plain config key noInputs noOutputs
      rw [runSections_cons, first]
      exact ih (fun t member => plain t (List.mem_cons_of_mem _ member)) (s.describe config) here

/-- Sections after the inputs, as long as no empty list of outputs is among them. -/
theorem runSections_afterInputs {sections : List ConfigSection}
    (noInputs : ∀ s ∈ sections, s.key ≠ .inputs) (filled : .outputs [] ∉ sections)
    (config : NblexConfig) (inOutputs : Bool) (key : Option String) :
    ∃ inOutputs' key', (between config true inOutputs key).runSections sections =
      between (sections.foldl ConfigSection.afterInputs config) true inOutputs' key' := by
  induction sections generalizing config inOutputs key with
  | nil => exact ⟨inOutputs, key, rfl⟩
  | cons s sections ih =>
      have step : ∃ inOutputs' key', (between config true inOutputs key).run s.events =
          between (s.afterInputs config) true inOutputs' key' := by
        cases s with
        | version text => exact ⟨inOutputs, none, run_version config true inOutputs key text⟩
        | inputs logs network => exact absurd rfl (noInputs _ List.mem_cons_self)
        | outputs items =>
            cases items with
            | nil => exact absurd List.mem_cons_self filled
            | cons item items =>
                exact ⟨true, run_outputs_inInputs config inOutputs key item items⟩
        | correlation enabled windowMs =>
            exact run_settings_between config inOutputs key (s := .correlation enabled windowMs) rfl
        | performance workerThreads bufferSize memoryLimit =>
            exact run_settings_between config inOutputs key
              (s := .performance workerThreads bufferSize memoryLimit) rfl
      obtain ⟨inOutputs', here, first⟩ := step
      rw [runSections_cons, first]
      exact ih (fun t member => noInputs t (List.mem_cons_of_mem _ member))
        (fun member => filled (List.mem_cons_of_mem _ member)) (s.afterInputs config) inOutputs'
        here

end Loader

end Nblex
