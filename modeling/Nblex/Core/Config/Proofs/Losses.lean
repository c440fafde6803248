import Nblex.Core.Config.Proofs.Sections

/-!
# What the loader loses

The two arrays only grow. Once the outputs have been read, every mapping that is not inside of
the inputs is a further output; and after an empty list of outputs the next name is taken for a
value, so that a version that follows there is lost.
-/

namespace Nblex

namespace Loader

theorem assign_lengths (key value : String) (l : Loader) :
    (l.assign key value).inputs.length = l.config.inputs.length ∧
      (l.assign key value).outputs.length = l.config.outputs.length := by
  unfold assign
  split
  · exact ⟨rfl, rfl⟩
  · split
    · exact ⟨List.length_modify _ _ _, rfl⟩
    · split
      · exact ⟨rfl, List.length_modify _ _ _⟩
      · split
        · unfold NblexConfig.assignCorrelation
          split_ifs <;> exact ⟨rfl, rfl⟩
        · split
          · unfold NblexConfig.assignPerformance
            split_ifs <;> exact ⟨rfl, rfl⟩
          · exact ⟨rfl, rfl⟩

theorem step_lengths (l : Loader) (event : YamlEvent) :
    l.config.inputs.length ≤ (l.step event).config.inputs.length ∧
      l.config.outputs.length ≤ (l.step event).config.outputs.length := by
  cases event with
  | scalar value =>
      rw [step]
      split
      · exact ⟨Nat.le_refl _, Nat.le_refl _⟩
      · obtain ⟨inputs, outputs⟩ := assign_lengths (l.currentKey.getD "") value l
        exact ⟨Nat.le_of_eq inputs.symm, Nat.le_of_eq outputs.symm⟩
  | mappingStart =>
      rw [step, openMapping]
      split
      · simp
      · split <;> simp
  | streamStart => exact ⟨Nat.le_refl _, Nat.le_refl _⟩
  | streamEnd => exact ⟨Nat.le_refl _, Nat.le_refl _⟩
  | documentStart => exact ⟨Nat.le_refl _, Nat.le_refl _⟩
  | documentEnd => exact ⟨Nat.le_refl _, Nat.le_refl _⟩
  | aliasNode => exact ⟨Nat.le_refl _, Nat.le_refl _⟩
  | sequenceStart => exact ⟨Nat.le_refl _, Nat.le_refl _⟩
  | sequenceEnd => exact ⟨Nat.le_refl _, Nat.le_refl _⟩
  | mappingEnd => exact ⟨Nat.le_refl _, Nat.le_refl _⟩

/-- The arrays only grow. -/
theorem run_lengths (l : Loader) (events : List YamlEvent) :
    l.config.inputs.length ≤ (l.run events).config.inputs.length ∧
      l.config.outputs.length ≤ (l.run events).config.outputs.length := by
  induction events generalizing l with
  | nil => exact ⟨Nat.le_refl _, Nat.le_refl _⟩
  | cons event events ih =>
      obtain ⟨inputs, outputs⟩ := step_lengths l event
      obtain ⟨inputs', outputs'⟩ := ih (l.step event)
      exact ⟨Nat.le_trans inputs inputs', Nat.le_trans outputs outputs'⟩

/-- A mapping that is a further output. -/
theorem run_mappingStart_outputs {l : Loader} (events : List YamlEvent)
    (notInput : (l.inInputs && !l.inLogs && !l.inNetwork) = false)
    (inOutputs : l.inOutputs = true) :
    l.config.outputs.length < (l.run (.mappingStart :: events)).config.outputs.length := by
  have opened : (l.step .mappingStart).config.outputs.length = l.config.outputs.length + 1 := by
    simp [step, openMapping, notInput, inOutputs]
  have grown := (run_lengths (l.step .mappingStart) events).2
  rw [run_cons]
  omega

theorem ConfigSection_body_settings {s : ConfigSection} (settings : s.isSettings = true) :
    ∃ events, s.body = .mappingStart :: events := by
  cases s with
  | version text => cases settings
  | inputs logs network => cases settings
  | outputs items => cases settings
  | correlation enabled windowMs => exact ⟨_, rfl⟩
  | performance workerThreads bufferSize memoryLimit => exact ⟨_, rfl⟩

/-- Settings after the outputs are a further output. -/
theorem run_settings_outputs {s : ConfigSection} (settings : s.isSettings = true)
    (config : NblexConfig) (key : Option String) :
    config.outputs.length <
      ((between config false true key).run s.events).config.outputs.length := by
  obtain ⟨events, body⟩ := ConfigSection_body_settings settings
  have name : s.key.text ≠ "inputs" := by
    cases s <;> simp [ConfigSection.isSettings, ConfigSection.key, SectionKey.text] at *
  rw [ConfigSection.events, body, run_cons, step_scalar_between]
  refine run_mappingStart_outputs (l := (between config false true key).readKey s.key.text)
    events ?_ rfl
  simp [readKey, between, name]

/-- Nothing but the version keeps its place after an empty list of outputs. -/
theorem run_awaiting_outputs {s : ConfigSection} (notVersion : s.key ≠ .version)
    (notOutputs : s.key ≠ .outputs) (config : NblexConfig) {key : String}
    (other : key ≠ "version") :
    config.outputs.length <
      ((awaiting config false true key).run s.events).config.outputs.length := by
  have body : ∃ events, s.body = .mappingStart :: events := by
    cases s with
    | version text => exact absurd rfl notVersion
    | inputs logs network => exact ⟨_, rfl⟩
    | outputs items => exact absurd rfl notOutputs
    | correlation enabled windowMs => exact ⟨_, rfl⟩
    | performance workerThreads bufferSize memoryLimit => exact ⟨_, rfl⟩
  obtain ⟨events, body⟩ := body
  rw [ConfigSection.events, body, run_cons, step_scalar_awaiting config false true other]
  exact run_mappingStart_outputs (l := between config false true none) events rfl rfl

/-- Inputs after the outputs are an input too many or an output too many. -/
theorem run_inputs_outputs (config : NblexConfig) (key : Option String)
    (logs network : Option (List NblexInputConfig)) :
    (logs.getD [] ++ network.getD [] = [] ∧
        0 < ((between config false true key).run
          (ConfigSection.inputs logs network).events).config.inputs.length) ∨
      config.outputs.length < ((between config false true key).run
        (ConfigSection.inputs logs network).events).config.outputs.length := by
  -- the first item of either list is opened inside of the list
  have item : ∀ (start events : List YamlEvent),
      (ConfigSection.inputs logs network).events = start ++ .mappingStart :: events →
      (((between config false true key).run start).inInputs &&
        !((between config false true key).run start).inLogs &&
        !((between config false true key).run start).inNetwork) = false →
      ((between config false true key).run start).inOutputs = true →
      config.outputs.length < ((between config false true key).run
        (ConfigSection.inputs logs network).events).config.outputs.length := by
    intro start events split notInput inOutputs
    have before := (run_lengths (between config false true key) start).2
    have here := run_mappingStart_outputs events notInput inOutputs
    rw [split, run_append]
    exact Nat.lt_of_le_of_lt before here
  cases logs with
  | none =>
      cases network with
      | none =>
          refine Or.inl ⟨rfl, ?_⟩
          simp [ConfigSection.events, ConfigSection.key, ConfigSection.body, SectionKey.text,
            inputListEvents, step, between, readKey, openMapping, closeMapping]
      | some network =>
          cases network with
          | nil =>
              refine Or.inl ⟨rfl, ?_⟩
              simp [ConfigSection.events, ConfigSection.key, ConfigSection.body, SectionKey.text,
                inputListEvents, sequenceEvents, step, between, readKey, openMapping,
                closeMapping, openSequence]
          | cons input network =>
              refine Or.inr (item [.scalar "inputs", .mappingStart, .scalar "network",
                .sequenceStart] _ rfl ?_ ?_) <;>
              simp [step, between, readKey, openMapping, openSequence]
  | some logs =>
      cases logs with
      | nil =>
          cases network with
          | none =>
              refine Or.inl ⟨rfl, ?_⟩
              simp [ConfigSection.events, ConfigSection.key, ConfigSection.body, SectionKey.text,
                inputListEvents, sequenceEvents, step, between, readKey, openMapping,
                closeMapping, openSequence]
          | some network =>
              cases network with
              | nil =>
                  refine Or.inl ⟨rfl, ?_⟩
                  simp [ConfigSection.events, ConfigSection.key, ConfigSection.body,
                    SectionKey.text, inputListEvents, sequenceEvents, step, between, readKey,
                    openMapping, closeMapping, openSequence, readValue, assign]
              | cons input network =>
                  refine Or.inr (item [.scalar "inputs", .mappingStart, .scalar "logs",
                    .sequenceStart, .sequenceEnd, .scalar "network", .sequenceStart] _
                    rfl ?_ ?_) <;>
                  simp [step, between, readKey, openMapping, openSequence, readValue, assign]
      | cons input logs =>
          refine Or.inr (item [.scalar "inputs", .mappingStart, .scalar "logs",
            .sequenceStart] _ rfl ?_ ?_) <;>
          simp [step, between, readKey, openMapping, openSequence]

/-- The version is what it is, and no value that follows will be taken for it. -/
def Calm (version : String) (l : Loader) : Prop :=
  l.config.version = version ∧ (l.expectingKey = true ∨ l.currentKey ≠ some "version")

theorem assign_version {key : String} (other : key ≠ "version") (value : String) (l : Loader) :
    (l.assign key value).version = l.config.version := by
  unfold assign
  rw [if_neg other]
  split
  · rfl
  · split
    · rfl
    · split
      · unfold NblexConfig.assignCorrelation
        split_ifs <;> rfl
      · split
        · unfold NblexConfig.assignPerformance
          split_ifs <;> rfl
        · rfl

theorem assigned_version {fields : List ConfigField} (plain : PlainFields fields) (l : Loader) :
    (l.assigned fields).version = l.config.version := by
  induction fields generalizing l with
  | nil => rfl
  | cons f fields ih =>
      obtain ⟨key, value⟩ := f
      have later : PlainFields fields := fun f member => plain f (List.mem_cons_of_mem _ member)
      cases value with
      | none => exact ih later l
      | some value =>
          have notVersion : key ≠ "version" := plain (key, some value) List.mem_cons_self .version
          rw [assigned_cons_some, ih later]
          exact assign_version notVersion value l

namespace Calm

theorem step_scalar {version value : String} {l : Loader} (calm : Calm version l)
    (other : value ≠ "version") : Calm version (l.step (.scalar value)) := by
  obtain ⟨same, safe⟩ := calm
  rw [Loader.step]
  split
  · refine ⟨same, Or.inr ?_⟩
    intro isVersion
    exact other (Option.some.inj isVersion)
  · rename_i notKey
    have notVersion : l.currentKey.getD "" ≠ "version" := by
      have safe' := safe.resolve_left notKey
      cases here : l.currentKey with
      | none => simp
      | some key => simpa [here] using safe'
    exact ⟨(assign_version notVersion value l).trans same, Or.inl rfl⟩

theorem openMapping {version : String} {l : Loader} (calm : Calm version l) :
    Calm version l.openMapping := by
  refine ⟨?_, Or.inl l.openMapping_aligned⟩
  refine Eq.trans ?_ calm.1
  unfold Loader.openMapping
  split
  · rfl
  · split <;> rfl

theorem run_mapping {version : String} {l : Loader} (calm : Calm version l)
    {fields : List ConfigField} (plain : PlainFields fields) :
    Calm version (l.run (mappingEvents fields)) := by
  obtain ⟨key, ran⟩ := Loader.run_mapping plain l
  rw [ran]
  exact ⟨(assigned_version plain l.openMapping).trans calm.openMapping.1, Or.inl rfl⟩

theorem run_mappings {version : String} {l : Loader} (calm : Calm version l)
    {items : List (List ConfigField)} (plain : ∀ fields ∈ items, PlainFields fields) :
    Calm version (l.run (items.flatMap mappingEvents)) := by
  induction items generalizing l with
  | nil => exact calm
  | cons fields items ih =>
      rw [List.flatMap_cons, run_append]
      exact ih (calm.run_mapping (plain fields List.mem_cons_self))
        (fun f member => plain f (List.mem_cons_of_mem _ member))

theorem run_sequence {version : String} {l : Loader} (calm : Calm version l)
    {items : List (List ConfigField)} (plain : ∀ fields ∈ items, PlainFields fields) :
    Calm version (l.run (sequenceEvents items)) := by
  have opened : Calm version l.openSequence := calm
  rw [sequenceEvents, run_cons, run_append]
  exact opened.run_mappings plain

theorem run_inputList {version : String} {l : Loader} (calm : Calm version l) {key : String}
    (other : key ≠ "version") (items : Option (List NblexInputConfig)) :
    Calm version (l.run (inputListEvents key items)) := by
  cases items with
  | none => exact calm
  | some items =>
      rw [inputListEvents, run_cons]
      exact (calm.step_scalar other).run_sequence (plain_inputs items)

/-- Only a version changes the version. -/
theorem run_body {version : String} {l : Loader} (calm : Calm version l) {s : ConfigSection}
    (other : s.key ≠ .version) : Calm version (l.run s.body) := by
  cases s with
  | version text => exact absurd rfl other
  | inputs logs network =>
      rw [ConfigSection.body, run_cons, run_append, run_append]
      have logsOther : "logs" ≠ "version" := by simp
      have networkOther : "network" ≠ "version" := by simp
      have lists := (calm.openMapping.run_inputList logsOther logs).run_inputList networkOther
        network
      exact ⟨lists.1, Or.inl rfl⟩
  | outputs items => exact calm.run_sequence (plain_outputs items)
  | correlation enabled windowMs => exact calm.run_mapping (correlationFields_plain _ _)
  | performance workerThreads bufferSize memoryLimit =>
      exact calm.run_mapping (performanceFields_plain _ _ _)

theorem runSections {version : String} {l : Loader} (calm : Calm version l)
    {sections : List ConfigSection} (other : ∀ s ∈ sections, s.key ≠ .version) :
    Calm version (l.runSections sections) := by
  induction sections generalizing l with
  | nil => exact calm
  | cons s sections ih =>
      have here : s.key ≠ .version := other s List.mem_cons_self
      have name : s.key.text ≠ "version" := by
        cases s <;> simp [ConfigSection.key, SectionKey.text] at *
      rw [runSections_cons, ConfigSection.events, run_cons]
      exact ih ((calm.step_scalar name).run_body here)
        (fun t member => other t (List.mem_cons_of_mem _ member))

end Calm

/-- A version directly after an empty list of outputs is lost. -/
theorem version_lost {config : NblexConfig} (default : config.version = "1.0")
    (inInputs inOutputs : Bool) {text : String} (changed : text ≠ "1.0")
    {sections : List ConfigSection} (other : ∀ s ∈ sections, s.key ≠ .version) :
    ((awaiting config inInputs inOutputs "outputs").runSections
      (.version text :: sections)).config.version ≠ text := by
  have start : (awaiting config inInputs inOutputs "outputs").run
      (ConfigSection.version text).events =
      (between config inInputs inOutputs none).readKey text := by
    rw [ConfigSection.events, run_cons,
      step_scalar_awaiting config inInputs inOutputs (by simp)]
    rfl
  rw [runSections_cons, start]
  by_cases isVersion : text = "version"
  · subst isVersion
    cases sections with
    | nil =>
        intro kept
        have same : config.version = "version" := kept
        rw [default] at same
        exact changed same.symm
    | cons s sections =>
        -- the name of the next section is taken for the version
        have here : s.key ≠ .version := other s List.mem_cons_self
        have name : s.key.text ≠ "version" := by
          cases s <;> simp [ConfigSection.key, SectionKey.text] at *
        have taken : Calm s.key.text
            (((between config inInputs inOutputs none).readKey "version").step
              (.scalar s.key.text)) := by
          refine ⟨?_, Or.inl rfl⟩
          simp [step, readKey, readValue, assign]
        rw [runSections_cons, ConfigSection.events, run_cons]
        have kept := ((taken.run_body here).runSections
          (fun t member => other t (List.mem_cons_of_mem _ member))).1
        rw [kept]
        exact name
  · have calm : Calm "1.0" ((between config inInputs inOutputs none).readKey text) := by
      refine ⟨default, Or.inr ?_⟩
      intro same
      exact isVersion (Option.some.inj same)
    rw [(calm.runSections other).1]
    exact Ne.symm changed

end Loader

end Nblex
