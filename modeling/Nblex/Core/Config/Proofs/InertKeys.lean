import Nblex.Core.Config.Proofs.SettingsCommute

/-!
# Which entries are inert

Every entry that does not read as a scalar changes what some document loads as: a mapping in it
becomes an item, an even number of scalars turns keys into values, and a word that the loader acts
on is acted on. At the places where no key is due every entry is taken apart.
-/

namespace Nblex

open Loader

namespace Loader

/-- The inputs and outputs that have been begun. -/
def items (l : Loader) : Nat := l.config.inputs.length + l.config.outputs.length

theorem run_items (l : Loader) (events : List YamlEvent) : l.items ≤ (l.run events).items := by
  obtain ⟨inputs, outputs⟩ := run_lengths l events
  exact Nat.add_le_add inputs outputs

/-- The loader is in a place where every mapping is an input or an output. -/
def Filling (l : Loader) : Prop :=
  l.inOutputs = true ∨ l.inInputs = true ∧ l.inLogs = false ∧ l.inNetwork = false

theorem run_filling {l : Loader} (filling : l.Filling) (events : List YamlEvent) :
    l.items < (l.run (.mappingStart :: events)).items := by
  have opened : l.openMapping.items = l.items + 1 := by
    obtain inOutputs | ⟨inInputs, noLogs, noNetwork⟩ := filling
    · rw [openMapping]
      split
      · simp only [items, List.length_append, List.length_singleton]
        omega
      · simp only [items, List.length_append, List.length_singleton]
        omega
    · simp only [openMapping, inInputs, noLogs, noNetwork, items, Bool.not_false, Bool.and_self,
        if_true, List.length_append, List.length_singleton]
      omega
  have grown := run_items l.openMapping events
  rw [run_cons]
  exact Nat.lt_of_lt_of_le (by omega) grown

/-- The flags of the inputs and of the outputs stay. -/
theorem run_sections (l : Loader) (events : List YamlEvent) :
    (l.inInputs = true → (l.run events).inInputs = true) ∧
      (l.inOutputs = true → (l.run events).inOutputs = true) := by
  induction events generalizing l with
  | nil => exact ⟨id, id⟩
  | cons event events ih =>
      obtain ⟨inputs, outputs⟩ := ih (l.step event)
      have here : (l.inInputs = true → (l.step event).inInputs = true) ∧
          (l.inOutputs = true → (l.step event).inOutputs = true) := by
        cases event with
        | scalar value =>
            rw [step]
            split
            · simp +contextual [readKey]
            · exact ⟨id, id⟩
        | mappingStart =>
            obtain ⟨inInputs, inOutputs⟩ := l.openMapping_sections
            rw [step, inInputs, inOutputs]
            exact ⟨id, id⟩
        | _ => exact ⟨id, id⟩
      exact ⟨fun h => inputs (here.1 h), fun h => outputs (here.2 h)⟩

theorem run_outputs_grows {l : Loader} (inOutputs : l.inOutputs = true) {events : List YamlEvent}
    (member : .mappingStart ∈ events) : l.items < (l.run events).items := by
  obtain ⟨before, after, rfl⟩ := List.append_of_mem member
  have reached := run_items l before
  have grown := run_filling (Or.inl ((l.run_sections before).2 inOutputs)) after
  rw [run_append]
  omega

end Loader

/-- The rest of a document that ends here writes nothing. -/
theorem parse_documentTail (l : Loader) : parse (documentTail []) l = some l.config := rfl

namespace InertWhere

variable {entry : YamlEntry}

/-- At the end of a document the entry leaves the configuration as it is. -/
theorem at_end (inert : InertWhere true entry) (before : List DocumentEntry)
    (due : (ConfigPlace.document before []).due = true) :
    ((ConfigPlace.document before []).loader.run (entryEvents entry)).config =
      (ConfigPlace.document before []).loader.config := by
  have same := inert (.document before []) due
  rw [ConfigPlace.load_eventsWith, ConfigPlace.load_events] at same
  exact Option.some.inj same

/-- A mapping after the outputs is an output. -/
theorem noMapping (inert : InertWhere true entry) : .mappingStart ∉ entry.2.events := by
  intro member
  have same := inert.at_end [.outputs [[]]] rfl
  have grown := run_outputs_grows (l := (ConfigPlace.document [.outputs [[]]] []).loader) rfl
    (List.mem_cons_of_mem (.scalar entry.1) member)
  rw [items, items] at grown
  rw [entryEvents] at same
  rw [same] at grown
  exact Nat.lt_irrefl _ grown

end InertWhere

namespace Loader

/-- When no key is due, the name of the version is taken for a value and the version for a key. -/
theorem parse_shifted {l : Loader} (notDue : l.expectingKey = false) {text : String}
    (quiet : text ∉ settingWords) :
    parse (documentTail [.other ("version", .scalar text)]) l =
      some (l.assign (l.currentKey.getD "") "version") := by
  have value : (l.readValue "version").step (.scalar text) =
      { l.readValue "version" with currentKey := some text, expectingKey := false } :=
    step_key rfl quiet
  show parse (.scalar "version" :: .scalar text :: documentTail []) l = _
  rw [parse, if_neg (by simp), step_notDue notDue, parse, if_neg (by simp), value,
    parse_documentTail]
  rfl

/-- A key that is read is read where a key is due. -/
theorem run_reads {events : List YamlEvent} {l : Loader} {word : String}
    (member : word ∈ keysRead l.expectingKey events) :
    ∃ before after, events = before ++ .scalar word :: after ∧
      (l.run before).expectingKey = true := by
  induction events generalizing l with
  | nil => exact absurd member List.not_mem_nil
  | cons event events ih =>
      have later (rest : word ∈ keysRead (l.step event).expectingKey events) :
          ∃ before after, event :: events = before ++ .scalar word :: after ∧
            (l.run before).expectingKey = true := by
        obtain ⟨before, after, rfl, due⟩ := ih rest
        exact ⟨event :: before, after, rfl, due⟩
      cases event with
      | scalar value =>
          cases due : l.expectingKey with
          | true =>
              rw [keysRead, if_pos due, List.mem_cons] at member
              obtain rfl | rest := member
              · exact ⟨[], events, rfl, due⟩
              · apply later
                rw [step_due due]
                exact rest
          | false =>
              rw [keysRead, if_neg (by simp [due])] at member
              apply later
              rw [step_notDue due]
              exact member
      | mappingStart =>
          apply later
          rw [step, openMapping_aligned]
          exact member
      | _ => exact later member

/-- A name of a section among the keys sets the flag of the section. -/
theorem run_reads_sections (l : Loader) (events : List YamlEvent) :
    ("inputs" ∈ keysRead l.expectingKey events → (l.run events).inInputs = true) ∧
      ("outputs" ∈ keysRead l.expectingKey events → (l.run events).inOutputs = true) := by
  constructor
  · intro member
    obtain ⟨before, after, rfl, due⟩ := run_reads member
    rw [run_append, run_cons, step_due due]
    exact (run_sections _ after).1 (by simp [readKey])
  · intro member
    obtain ⟨before, after, rfl, due⟩ := run_reads member
    rw [run_append, run_cons, step_due due]
    exact (run_sections _ after).2 (by simp [readKey])

/-- When a section of items has been begun, the second of two mappings is an item. -/
theorem run_mappings_grow {l : Loader} (sections : l.inInputs = true ∨ l.inOutputs = true)
    (later : List YamlEvent) :
    l.items < (l.run (.scalar "" :: .mappingStart :: .mappingEnd :: .scalar "" ::
      .mappingStart :: later)).items := by
  have closed := run_items l [.scalar "", .mappingStart, .mappingEnd, .scalar ""]
  obtain ⟨inputs, outputs⟩ := run_sections l [.scalar "", .mappingStart, .mappingEnd, .scalar ""]
  have filling : (l.run [.scalar "", .mappingStart, .mappingEnd, .scalar ""]).Filling := by
    obtain inInputs | inOutputs := sections
    · exact Or.inr ⟨inputs inInputs, rfl, rfl⟩
    · exact Or.inl (outputs inOutputs)
  have grown := run_filling filling later
  rw [← run_append] at grown
  exact Nat.lt_of_le_of_lt closed grown

end Loader

/-- A value whose scalars are even in number takes the next name for a value. -/
theorem InertWhere.due {entry : YamlEntry} (inert : InertWhere true entry) :
    keyDue true (entryEvents entry) = true := by
  by_contra notDue
  have shifted : ∀ text, text ∉ settingWords →
      nblexConfigLoadYaml (ConfigPlace.document [] [.other ("version", .scalar text)]).events =
        some (let l := (ConfigPlace.document [] []).loader.run (entryEvents entry)
          l.assign (l.currentKey.getD "") "version") := by
    intro text quiet
    rw [← inert _ rfl, ConfigPlace.load_eventsWith]
    apply parse_shifted _ quiet
    rw [run_keyDue]
    exact Bool.eq_false_iff.mpr notDue
  have first := shifted "1" (by decide)
  have second := shifted "2" (by decide)
  rw [← second] at first
  revert first
  decide

/-- A name of a section of items makes items of the mappings that follow. -/
theorem InertWhere.noSections {entry : YamlEntry} (inert : InertWhere true entry) :
    "inputs" ∉ keysRead true (entryEvents entry) ∧
      "outputs" ∉ keysRead true (entryEvents entry) := by
  rw [← not_or]
  intro member
  have same := inert (.document [] [.other ("", .mapping []), .other ("", .mapping [])]) rfl
  have original : nblexConfigLoadYaml
      (ConfigPlace.document [] [.other ("", .mapping []), .other ("", .mapping [])]).events =
      some {} := by decide
  rw [original, ConfigPlace.load_eventsWith] at same
  have ended := @parse_append_streamEnd [.scalar "", .mappingStart, .mappingEnd, .scalar "",
    .mappingStart, .mappingEnd, .mappingEnd, .documentEnd]
    ((ConfigPlace.document [] []).loader.run (entryEvents entry)) (by decide)
  have sections := run_reads_sections (ConfigPlace.document [] []).loader (entryEvents entry)
  have grown := run_mappings_grow (member.imp sections.1 sections.2)
    [.mappingEnd, .mappingEnd, .documentEnd]
  rw [items, items, Option.some.inj (ended.symm.trans same)] at grown
  exact Nat.not_lt_zero _ grown

namespace Loader

/-- Without mappings the items and the pointers to them stay. -/
theorem run_flat {events : List YamlEvent} (noStart : .mappingStart ∉ events)
    (noEnd : .mappingEnd ∉ events) (l : Loader) :
    (l.run events).currentInput = l.currentInput ∧ (l.run events).currentOutput = l.currentOutput ∧
      (l.run events).config.inputs.length = l.config.inputs.length := by
  induction events generalizing l with
  | nil => exact ⟨rfl, rfl, rfl⟩
  | cons event events ih =>
      rw [List.mem_cons, not_or] at noStart noEnd
      obtain ⟨input, output, inputs⟩ := ih noStart.2 noEnd.2 (l.step event)
      rw [run_cons, input, output, inputs]
      cases event with
      | scalar value =>
          rw [step]
          split
          · exact ⟨rfl, rfl, rfl⟩
          · exact ⟨rfl, rfl, (assign_lengths (l.currentKey.getD "") value l).1⟩
      | mappingStart => exact absurd rfl noStart.1
      | mappingEnd => exact absurd rfl noEnd.1
      | _ => exact ⟨rfl, rfl, rfl⟩

/-- Without mappings the flags of the settings stay. -/
theorem run_flags {events : List YamlEvent} (noStart : .mappingStart ∉ events)
    (noEnd : .mappingEnd ∉ events) (l : Loader) :
    (l.inCorrelation = true → (l.run events).inCorrelation = true) ∧
      (l.inPerformance = true → (l.run events).inPerformance = true) ∧
      (l.inLogs = true ∨ l.inNetwork = true →
        (l.run events).inLogs = true ∨ (l.run events).inNetwork = true) := by
  induction events generalizing l with
  | nil => exact ⟨id, id, id⟩
  | cons event events ih =>
      rw [List.mem_cons, not_or] at noStart noEnd
      obtain ⟨correlation, performance, lists⟩ := ih noStart.2 noEnd.2 (l.step event)
      have here : (l.inCorrelation = true → (l.step event).inCorrelation = true) ∧
          (l.inPerformance = true → (l.step event).inPerformance = true) ∧
          (l.inLogs = true ∨ l.inNetwork = true →
            (l.step event).inLogs = true ∨ (l.step event).inNetwork = true) := by
        cases event with
        | scalar value =>
            rw [step]
            split
            · simp +contextual [readKey]
            · exact ⟨id, id, id⟩
        | sequenceStart =>
            refine ⟨id, id, ?_⟩
            rintro (logs | network)
            · exact Or.inl (by simp [step, openSequence, logs])
            · exact Or.inr (by simp [step, openSequence, network])
        | mappingStart => exact absurd rfl noStart.1
        | mappingEnd => exact absurd rfl noEnd.1
        | _ => exact ⟨id, id, id⟩
      exact ⟨fun h => correlation (here.1 h), fun h => performance (here.2.1 h),
        fun h => lists (here.2.2 h)⟩

/-- A name of settings among the keys of a value without mappings sets the flag. -/
theorem run_reads_settings {events : List YamlEvent} (noStart : .mappingStart ∉ events)
    (noEnd : .mappingEnd ∉ events) (l : Loader) :
    ("correlation" ∈ keysRead l.expectingKey events → (l.run events).inCorrelation = true) ∧
      ("performance" ∈ keysRead l.expectingKey events → (l.run events).inPerformance = true) := by
  have reach {word : String} (member : word ∈ keysRead l.expectingKey events) :
      ∃ m after, .mappingStart ∉ after ∧ .mappingEnd ∉ after ∧
        l.run events = (readKey word m).run after := by
    obtain ⟨before, after, rfl, due⟩ := run_reads member
    simp only [List.mem_append, List.mem_cons, not_or] at noStart noEnd
    refine ⟨l.run before, after, noStart.2.2, noEnd.2.2, ?_⟩
    rw [run_append, run_cons, step_due due]
  constructor
  · intro member
    obtain ⟨m, after, noStart, noEnd, ran⟩ := reach member
    rw [ran]
    exact (run_flags noStart noEnd _).1 (by simp [readKey])
  · intro member
    obtain ⟨m, after, noStart, noEnd, ran⟩ := reach member
    rw [ran]
    exact (run_flags noStart noEnd _).2.1 (by simp [readKey])

/-- Only a key sets the flag of the correlation. -/
theorem run_inCorrelation {events : List YamlEvent} {l : Loader}
    (unread : "correlation" ∉ keysRead l.expectingKey events) (off : l.inCorrelation = false) :
    (l.run events).inCorrelation = false := by
  induction events generalizing l with
  | nil => exact off
  | cons event events ih =>
      rw [run_cons]
      cases event with
      | scalar value =>
          cases due : l.expectingKey with
          | true =>
              rw [keysRead, if_pos due, List.mem_cons, not_or] at unread
              rw [step_due due]
              exact ih unread.2 (by simp [readKey, off, Ne.symm unread.1])
          | false =>
              rw [keysRead, if_neg (by simp [due])] at unread
              rw [step_notDue due]
              exact ih unread off
      | mappingStart =>
          have flag : (l.step .mappingStart).inCorrelation = l.inCorrelation := by
            rw [step, openMapping]
            split
            · rfl
            · split <;> rfl
          apply ih
          · rw [step, openMapping_aligned]
            exact unread
          · rw [flag, off]
      | mappingEnd => exact ih unread rfl
      | _ => exact ih unread off

/-- A list that begins under the name of a list of inputs sets its flag. -/
theorem run_lists_read {events : List YamlEvent} (noStart : .mappingStart ∉ events)
    (noEnd : .mappingEnd ∉ events) (pending : Option String) {l : Loader}
    (waiting : Waiting pending l) {word : String} (member : word ∈ listsRead pending events)
    (isList : word ∈ listWords) :
    (l.run events).inLogs = true ∨ (l.run events).inNetwork = true := by
  induction events generalizing pending l with
  | nil => exact absurd member List.not_mem_nil
  | cons event events ih =>
      obtain ⟨expectingKey, currentKey⟩ := waiting
      rw [List.mem_cons, not_or] at noStart noEnd
      cases event with
      | scalar value =>
          cases pending with
          | none =>
              rw [run_cons, step_due expectingKey]
              exact ih noStart.2 noEnd.2 _ ⟨rfl, rfl⟩ member
          | some key =>
              rw [run_cons, step_notDue expectingKey]
              exact ih noStart.2 noEnd.2 _ ⟨rfl, rfl⟩ member
      | sequenceStart =>
          rw [listsRead, List.mem_append, Option.mem_toList] at member
          obtain here | later := member
          · rw [run_cons]
            apply (run_flags noStart.2 noEnd.2 _).2.2
            have under : l.currentKey = some word := currentKey.trans here
            simp only [listWords, List.mem_cons, List.not_mem_nil, or_false] at isList
            obtain rfl | rfl := isList
            · exact Or.inl (by simp [step, openSequence, under])
            · exact Or.inr (by simp [step, openSequence, under])
          · exact ih (l := l.step .sequenceStart) noStart.2 noEnd.2 pending
                ⟨expectingKey, currentKey⟩ later
      | mappingStart => exact absurd rfl noStart.1
      | mappingEnd => exact absurd rfl noEnd.1
      | _ => exact ih noStart.2 noEnd.2 pending ⟨expectingKey, currentKey⟩ member

end Loader

namespace Loader

/-- A mapping within one of the two lists is no new input. -/
theorem parse_hidden {l : Loader} (due : l.expectingKey = true)
    (hidden : l.inLogs = true ∨ l.inNetwork = true) :
    ∃ config, parse (documentTail [.other ("", .mapping [])]) l = some config ∧
      config.inputs = l.config.inputs := by
  have closed : (l.inInputs && !l.inLogs && !l.inNetwork) = false := by
    obtain logs | network := hidden
    · simp [logs]
    · simp [network]
  have ended := @parse_append_streamEnd
    [.scalar "", .mappingStart, .mappingEnd, .mappingEnd, .documentEnd] l (by decide)
  refine ⟨_, ended, ?_⟩
  rw [run_cons, step_key due (by decide), run_cons, step, openMapping]
  dsimp only
  rw [closed]
  cases l.inOutputs <;> rfl

/-- A setting at the end of a document. -/
theorem parse_field {l : Loader} (due : l.expectingKey = true) {key : String}
    (plain : PlainKey key) (value : String) :
    parse (documentTail [.other (key, .scalar value)]) l = some (l.assign key value) := by
  show parse (.scalar key :: .scalar value :: documentTail []) l = _
  rw [parse, if_neg (by simp), step_due due, readKey_plain plain, parse, if_neg (by simp),
    step_notDue rfl, parse_documentTail]
  rfl

end Loader

namespace InertWhere

variable {entry : YamlEntry}

theorem noStart (inert : InertWhere true entry) : .mappingStart ∉ entryEvents entry := by
  simp [entryEvents, inert.noMapping]

theorem noEnd (inert : InertWhere true entry) : .mappingEnd ∉ entryEvents entry := by
  simp [entryEvents, entry.2.mappingEnd_not_mem inert.noMapping]

/-- A key is due after the entry as well. -/
theorem due_after (inert : InertWhere true entry) (place : ConfigPlace)
    (due : place.due = true) : (place.loader.run (entryEvents entry)).expectingKey = true := by
  rw [run_keyDue, place.loader_expectingKey, due]
  exact inert.due

/-- A list under `logs` or `network` hides the next input. -/
theorem quietLists (inert : InertWhere true entry) {word : String}
    (member : word ∈ listsRead none (entryEvents entry)) : word ∉ listWords := by
  intro isList
  let place := ConfigPlace.document [.inputs []] [.other ("", .mapping [])]
  have same := inert place rfl
  have original : nblexConfigLoadYaml place.events = some { inputs := [{}, {}] } := by decide
  rw [original, ConfigPlace.load_eventsWith] at same
  have due := inert.due_after place rfl
  have hidden := run_lists_read inert.noMapping (entry.2.mappingEnd_not_mem inert.noMapping)
    (some entry.1) (l := place.loader.readKey entry.1) ⟨rfl, rfl⟩ member isList
  obtain ⟨config, parsed, inputs⟩ := parse_hidden due hidden
  obtain ⟨-, -, length⟩ := run_flat inert.noStart inert.noEnd place.loader
  rw [← inputs, Option.some.inj (parsed.symm.trans same)] at length
  exact absurd length (by decide)

/-- A setting outside of the settings is dropped after the entry too. -/
theorem dropped (inert : InertWhere true entry) {key : String} (value : String)
    (plain : PlainKey key)
    (original : nblexConfigLoadYaml
      (ConfigPlace.document [] [.other (key, .scalar value)]).events = some {}) :
    ((ConfigPlace.document [] []).loader.run (entryEvents entry)).assign key value = {} := by
  have same := inert (.document [] [.other (key, .scalar value)]) rfl
  rw [original, ConfigPlace.load_eventsWith] at same
  have due := inert.due_after (.document [] []) rfl
  exact Option.some.inj ((parse_field due plain value).symm.trans same)

/-- The name of the correlation makes its settings of the keys that follow. -/
theorem noCorrelation (inert : InertWhere true entry) :
    "correlation" ∉ keysRead true (entryEvents entry) := by
  intro member
  let l := (ConfigPlace.document [] []).loader
  obtain ⟨input, output, -⟩ := run_flat inert.noStart inert.noEnd l
  have noInput : l.currentInput = none := rfl
  have noOutput : l.currentOutput = none := rfl
  have inCorrelation := (run_reads_settings inert.noStart inert.noEnd l).1 member
  have plain : PlainKey "enabled" := by simp [plainKey_iff]
  have config := inert.dropped "false" plain (by decide)
  have enabled := congrArg NblexConfig.correlationEnabled config
  simp [assign, l, input, output, noInput, noOutput, inCorrelation,
    NblexConfig.assignCorrelation] at enabled

/-- The name of the performance section makes its settings of the keys that follow. -/
theorem noPerformance (inert : InertWhere true entry) :
    "performance" ∉ keysRead true (entryEvents entry) := by
  intro member
  let l := (ConfigPlace.document [] []).loader
  obtain ⟨input, output, -⟩ := run_flat inert.noStart inert.noEnd l
  have noInput : l.currentInput = none := rfl
  have noOutput : l.currentOutput = none := rfl
  have noCorrelation := run_inCorrelation (l := l) inert.noCorrelation rfl
  have inPerformance := (run_reads_settings inert.noStart inert.noEnd l).2 member
  have plain : PlainKey "buffer_size" := by simp [plainKey_iff]
  have config := inert.dropped "1" plain (by decide)
  have size := congrArg NblexConfig.bufferSize config
  have one : parseSize "1" = 1 := by decide
  simp [assign, l, input, output, noInput, noOutput, noCorrelation, inPerformance, one,
    NblexConfig.assignPerformance] at size

end InertWhere

namespace InertWhere

variable {entry : YamlEntry}

/-- A setting is overwritten when the entry has the same key. -/
theorem overwritten (inert : InertWhere true entry) {word : String}
    (member : word ∈ keysRead true (entryEvents entry))
    (read : ∀ l : Loader, l.readKey word =
      { l with currentKey := some word, expectingKey := false })
    (base : ConfigPlace) {one two : ConfigPlace} (due : base.due = true)
    (first : one.eventsBefore = base.eventsBefore ++ entryEvents (word, .scalar "1"))
    (second : two.eventsBefore = base.eventsBefore ++ entryEvents (word, .scalar "2"))
    (after : one.eventsAfter = two.eventsAfter) :
    nblexConfigLoadYaml one.events = nblexConfigLoadYaml two.events := by
  let l : Loader := { base.loader with currentKey := none }
  have expecting : base.loader.expectingKey = true := base.loader_expectingKey.trans due
  have loaded {place : ConfigPlace} {value : String}
      (before : place.eventsBefore = base.eventsBefore ++ entryEvents (word, .scalar value)) :
      place.loader = { l with config := l.put word value l.config } := by
    rw [ConfigPlace.loader, before, run_append]
    exact run_setting expecting read value
  have dueThere {place : ConfigPlace} {value : String}
      (before : place.eventsBefore = base.eventsBefore ++ entryEvents (word, .scalar value)) :
      place.due = true := by
    rw [← place.loader_expectingKey, loaded before]
    exact expecting
  rw [← inert one (dueThere first), ← inert two (dueThere second), ConfigPlace.load_eventsWith,
    ConfigPlace.load_eventsWith, after, loaded first, loaded second]
  congr 1
  have there : l.expectingKey = true := expecting
  apply run_put inert.noStart inert.noEnd (by rw [there]; exact inert.due)
    (by rw [there]; exact inert.noCorrelation) (by rw [there]; exact inert.noPerformance)
  rw [there]
  exact Or.inl member

/-- A field of an input is overwritten by the same key. -/
theorem inputField (inert : InertWhere true entry) {word : String}
    (member : word ∈ keysRead true (entryEvents entry)) (plain : PlainKey word) :
    nblexConfigLoadYaml
        (ConfigPlace.input [] [] .logs [] [(word, .scalar "1")] [] [] [] []).events =
      nblexConfigLoadYaml
        (ConfigPlace.input [] [] .logs [] [(word, .scalar "2")] [] [] [] []).events :=
  inert.overwritten member (readKey_plain plain) (.input [] [] .logs [] [] [] [] [] []) rfl rfl rfl
    rfl

theorem outputField (inert : InertWhere true entry) {word : String}
    (member : word ∈ keysRead true (entryEvents entry)) (plain : PlainKey word) :
    nblexConfigLoadYaml (ConfigPlace.output [] [] [(word, .scalar "1")] [] [] []).events =
      nblexConfigLoadYaml (ConfigPlace.output [] [] [(word, .scalar "2")] [] [] []).events :=
  inert.overwritten member (readKey_plain plain) (.output [] [] [] [] [] []) rfl rfl rfl rfl

theorem setting (inert : InertWhere true entry) {word : String}
    (member : word ∈ keysRead true (entryEvents entry)) (plain : PlainKey word)
    (key : SettingsKey) :
    nblexConfigLoadYaml (ConfigPlace.settings [] key [(word, .scalar "1")] [] []).events =
      nblexConfigLoadYaml (ConfigPlace.settings [] key [(word, .scalar "2")] [] []).events := by
  cases key <;>
    exact inert.overwritten member (readKey_plain plain) (.settings [] _ [] [] []) rfl rfl rfl rfl

/-- Each word the loader acts on changes some document. -/
theorem quietKeys (inert : InertWhere true entry) {word : String}
    (member : word ∈ keysRead true (entryEvents entry)) : word ∉ settingWords := by
  intro acting
  simp only [settingWords, List.mem_cons, List.not_mem_nil, or_false] at acting
  rcases acting with rfl | rfl | rfl | rfl | rfl | rfl | rfl | rfl | rfl | rfl | rfl | rfl | rfl |
    rfl | rfl | rfl | rfl
  · have read (l : Loader) : l.readKey "version" =
        { l with currentKey := some "version", expectingKey := false } := by simp [readKey]
    have same := @overwritten entry inert "version" member read (.document [] [])
      (.document [.other ("version", .scalar "1")] [])
      (.document [.other ("version", .scalar "2")] []) rfl rfl rfl rfl
    exact absurd same (by decide)
  · exact inert.noSections.1 member
  · exact inert.noSections.2 member
  · exact inert.noCorrelation member
  · exact inert.noPerformance member
  · exact absurd (inert.inputField member (by simp [plainKey_iff])) (by decide)
  · exact absurd (inert.inputField member (by simp [plainKey_iff])) (by decide)
  · exact absurd (inert.inputField member (by simp [plainKey_iff])) (by decide)
  · exact absurd (inert.inputField member (by simp [plainKey_iff])) (by decide)
  · exact absurd (inert.inputField member (by simp [plainKey_iff])) (by decide)
  · exact absurd (inert.inputField member (by simp [plainKey_iff])) (by decide)
  · exact absurd (inert.outputField member (by simp [plainKey_iff])) (by decide)
  · exact absurd (inert.setting member (by simp [plainKey_iff]) .correlation) (by decide)
  · exact absurd (inert.setting member (by simp [plainKey_iff]) .correlation) (by decide)
  · exact absurd (inert.setting member (by simp [plainKey_iff]) .performance) (by decide)
  · exact absurd (inert.setting member (by simp [plainKey_iff]) .performance) (by decide)
  · exact absurd (inert.setting member (by simp [plainKey_iff]) .performance) (by decide)

end InertWhere

namespace Loader

end Loader

/-- A scalar under a key the loader does not know. -/
theorem ForeignKey.readsAsScalar {key : String} (foreign : ForeignKey key) (value : String) :
    ReadsAsScalar (key, .scalar value) where
  noMapping := by simp [YamlNode.events]
  due := rfl
  quietKeys := by simp [keysRead, entryEvents, YamlNode.events, foreign.1]
  quietLists := by simp [listsRead, entryEvents, YamlNode.events]

end Nblex
