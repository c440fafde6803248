import Mathlib.Data.List.TakeWhile
import Nblex.Core.Config.Proofs.SectionOrder

/-!
# Which documents load as they should

The configuration a document describes does not depend on the order of its sections. The one that
is loaded does, and it is the one described for very few documents: the ones of
`ConfigDocument.LoadsExactly`.
-/

namespace Nblex

open NblexConfig (AgreeOn)
open Loader

theorem streamEnd_not_mem_mapping (fields : List ConfigField) :
    YamlEvent.streamEnd ∉ mappingEvents fields := by
  have inFields : YamlEvent.streamEnd ∉ fields.flatMap fieldEvents := by
    rw [List.mem_flatMap]
    rintro ⟨⟨key, value⟩, -, member⟩
    cases value <;> simp [fieldEvents] at member
  simp [mappingEvents, inFields]

theorem streamEnd_not_mem_sequence (items : List (List ConfigField)) :
    YamlEvent.streamEnd ∉ sequenceEvents items := by
  have inItems : YamlEvent.streamEnd ∉ items.flatMap mappingEvents := by
    rw [List.mem_flatMap]
    rintro ⟨fields, -, member⟩
    exact streamEnd_not_mem_mapping fields member
  simp [sequenceEvents, inItems]

theorem streamEnd_not_mem_inputList (key : String) (items : Option (List NblexInputConfig)) :
    YamlEvent.streamEnd ∉ inputListEvents key items := by
  cases items with
  | none => simp [inputListEvents]
  | some items => simp [inputListEvents, streamEnd_not_mem_sequence]

theorem streamEnd_not_mem_section (s : ConfigSection) : YamlEvent.streamEnd ∉ s.events := by
  cases s <;> simp [ConfigSection.events, ConfigSection.body, streamEnd_not_mem_mapping,
    streamEnd_not_mem_sequence, streamEnd_not_mem_inputList]

namespace ConfigDocument

/-- The configuration after the sections of a document. -/
def loaded (document : ConfigDocument) : NblexConfig :=
  ((between {} false false none).runSections document.sections).config

theorem nblexConfigLoadYaml_events (document : ConfigDocument) :
    nblexConfigLoadYaml document.events = some document.loaded := by
  have inside : YamlEvent.streamEnd ∉ YamlEvent.streamStart :: .documentStart :: .mappingStart ::
      (document.sections.flatMap ConfigSection.events ++ [.mappingEnd, .documentEnd]) := by
    have inSections : YamlEvent.streamEnd ∉ document.sections.flatMap ConfigSection.events := by
      rw [List.mem_flatMap]
      rintro ⟨s, -, member⟩
      exact streamEnd_not_mem_section s member
    simp [inSections]
  have split : document.events = (YamlEvent.streamStart :: .documentStart :: .mappingStart ::
      (document.sections.flatMap ConfigSection.events ++ [.mappingEnd, .documentEnd])) ++
        [.streamEnd] := by
    simp [ConfigDocument.events]
  rw [split, nblexConfigLoadYaml, parse_append_streamEnd {} inside]
  have start : ((({} : Loader).step .streamStart).step .documentStart).step .mappingStart =
      between {} false false none := rfl
  rw [run_cons, run_cons, run_cons, start, run_append]
  rfl

/-- A document has no section of a name, or one that sections of other names surround. -/
theorem splits (document : ConfigDocument) (key : SectionKey) :
    (∀ s ∈ document.sections, s.key ≠ key) ∨
      ∃ before s later, document.sections = before ++ s :: later ∧ s.key = key ∧
        (∀ t ∈ before, t.key ≠ key) ∧ ∀ t ∈ later, t.key ≠ key := by
  by_cases present : ∃ s ∈ document.sections, s.key = key
  · obtain ⟨s, member, rfl⟩ := present
    obtain ⟨before, later, split⟩ := List.append_of_mem member
    have distinct := document.distinct
    rw [split, List.map_append, List.map_cons, List.nodup_middle, List.nodup_cons,
      List.mem_append, not_or] at distinct
    refine Or.inr ⟨before, s, later, split, rfl, ?_, ?_⟩
    · intro t inBefore same
      exact distinct.1.1 (List.mem_map.mpr ⟨t, inBefore, same⟩)
    · intro t inLater same
      exact distinct.1.2 (List.mem_map.mpr ⟨t, inLater, same⟩)
  · exact Or.inl (fun s member same => present ⟨s, member, same⟩)

theorem after_eq {document : ConfigDocument} {before later : List ConfigSection}
    {s : ConfigSection} (split : document.sections = before ++ s :: later)
    (other : ∀ t ∈ before, t.key ≠ s.key) : document.after s.key = later := by
  rw [after, split, List.dropWhile_append_of_pos]
  · rw [List.dropWhile_cons_of_neg (by simp), List.tail_cons]
  · intro t member
    exact decide_eq_true (other t member)

theorem after_none {document : ConfigDocument} {key : SectionKey}
    (other : ∀ s ∈ document.sections, s.key ≠ key) : document.after key = [] := by
  have all : document.sections.dropWhile (fun s => s.key ≠ key) = [] := by
    rw [List.dropWhile_eq_nil_iff]
    intro s member
    exact decide_eq_true (other s member)
  rw [after, all, List.tail_nil]

/-- What a section says stands in the configuration that is described. -/
theorem described_mem {document : ConfigDocument} {s : ConfigSection}
    (member : s ∈ document.sections) : AgreeOn s.key document.described (s.describe {}) := by
  rcases document.splits s.key with other | ⟨before, t, later, split, same, inBefore, inLater⟩
  · exact absurd rfl (other s member)
  · have here : s = t := by
      rw [split, List.mem_append, List.mem_cons] at member
      rcases member with bad | rfl | bad
      · exact absurd rfl (inBefore s bad)
      · rfl
      · exact absurd rfl (inLater s bad)
    subst here
    rw [described, split]
    exact ConfigSection.foldl_describe_split inBefore inLater {}

theorem described_not_mem {document : ConfigDocument} {key : SectionKey}
    (other : ∀ s ∈ document.sections, s.key ≠ key) : AgreeOn key document.described {} :=
  ConfigSection.foldl_describe_other other {}

/-- Sections of different names without outputs leave the loader between two keys. -/
theorem runSections_noOutputs {sections : List ConfigSection}
    (distinct : (sections.map ConfigSection.key).Nodup)
    (noOutputs : ∀ s ∈ sections, s.key ≠ .outputs) :
    ∃ config inInputs inOutputs key, (between {} false false none).runSections sections =
      between config inInputs inOutputs key := by
  rcases ConfigDocument.splits ⟨sections, distinct⟩ .inputs with
    noInputs | ⟨before, s, later, rfl, isInputs, inBefore, inLater⟩
  · obtain ⟨key, ran⟩ := runSections_plain (fun s member => ⟨noInputs s member,
      noOutputs s member⟩) {} none
    exact ⟨_, _, _, key, ran⟩
  · have plain : ∀ t ∈ before, t.key ≠ .inputs ∧ t.key ≠ .outputs :=
      fun t member => ⟨inBefore t member, noOutputs t (List.mem_append_left _ member)⟩
    have filled : .outputs [] ∉ later := fun member =>
      noOutputs _ (List.mem_append_right _ (List.mem_cons_of_mem _ member)) rfl
    cases s with
    | version text => cases isInputs
    | inputs logs network =>
        obtain ⟨key, ran⟩ := runSections_plain plain {} none
        obtain ⟨key', opened⟩ :=
            run_inputs (before.foldl ConfigSection.describe {}) key logs network
        rw [runSections_append, ran, runSections_cons, opened]
        obtain ⟨inOutputs, key'', ended⟩ := runSections_afterInputs inLater filled
          { before.foldl ConfigSection.describe {} with
            inputs := (before.foldl ConfigSection.describe {}).inputs ++
              gathered (logs.getD []) (network.getD []) } false key'
        exact ⟨_, _, inOutputs, key'', ended⟩
    | outputs items => cases isInputs
    | correlation enabled windowMs => cases isInputs
    | performance workerThreads bufferSize memoryLimit => cases isInputs

/-- A document that loads as it should keeps its version. -/
theorem versionKept_of_loaded {document : ConfigDocument}
    (exact : document.loaded = document.described) : document.VersionKept := by
  intro empty text follows
  by_contra changed
  rcases document.splits .outputs with
    other | ⟨before, s, later, split, isOutputs, inBefore, inLater⟩
  · exact other _ empty rfl
  · rw [← isOutputs, after_eq split (isOutputs.symm ▸ inBefore)] at follows
    have here : s = .outputs [] := by
      rw [split, List.mem_append, List.mem_cons] at empty
      rcases empty with bad | same | bad
      · exact absurd rfl (inBefore _ bad)
      · exact same.symm
      · exact absurd rfl (inLater _ bad)
    subst here
    cases later with
    | nil => cases follows
    | cons t rest =>
        obtain rfl : t = .version text := Option.some.inj follows
        have distinct := document.distinct
        rw [split, List.map_append, List.map_cons, List.map_cons] at distinct
        obtain ⟨distinctBefore, distinctLater, apart⟩ := List.nodup_append.mp distinct
        obtain ⟨config, inInputs, inOutputs, key, ran⟩ :=
          runSections_noOutputs distinctBefore inBefore
        have noVersionBefore : ∀ u ∈ before, u.key ≠ .version := by
          intro u member same
          exact apart u.key (List.mem_map.mpr ⟨u, member, rfl⟩) .version (by
            simp [ConfigSection.key]) same
        have noVersionRest : ∀ u ∈ rest, u.key ≠ .version := by
          intro u member same
          have once := (List.nodup_cons.mp (List.nodup_cons.mp distinctLater).2).1
          exact once (List.mem_map.mpr ⟨u, member, same⟩)
        have default : config.version = "1.0" := by
          have calm : Calm "1.0" (between {} false false none) := ⟨rfl, Or.inl rfl⟩
          have kept := (calm.runSections noVersionBefore).1
          rw [ran] at kept
          exact kept
        have lost := version_lost default inInputs true changed noVersionRest
        have loadedEq : document.loaded = ((awaiting config inInputs true "outputs").runSections
            (.version text :: rest)).config := by
          rw [loaded, split, runSections_append, ran, runSections_cons, run_outputs_nil]
        have described : document.described.version = text :=
          described_mem (s := .version text) (by rw [split]; simp)
        rw [← loadedEq, exact, described] at lost
        exact lost rfl

/-- The sections around one of a document have other names than those after it. -/
theorem apart {document : ConfigDocument} {before later : List ConfigSection} {s : ConfigSection}
    (split : document.sections = before ++ s :: later) {t : ConfigSection} (member : t ∈ later) :
    (∀ u ∈ before, u.key ≠ t.key) ∧ s.key ≠ t.key := by
  have distinct := document.distinct
  rw [split, List.map_append, List.map_cons] at distinct
  obtain ⟨-, distinctLater, apart⟩ := List.nodup_append.mp distinct
  constructor
  · intro u inBefore same
    exact apart u.key (List.mem_map.mpr ⟨u, inBefore, rfl⟩) t.key
      (List.mem_cons_of_mem _ (List.mem_map.mpr ⟨t, member, rfl⟩)) same
  · intro same
    exact (List.nodup_cons.mp distinctLater).1 (List.mem_map.mpr ⟨t, member, same.symm⟩)

theorem distinct_later {document : ConfigDocument} {before later : List ConfigSection}
    {s : ConfigSection} (split : document.sections = before ++ s :: later) :
    (later.map ConfigSection.key).Nodup := by
  have distinct := document.distinct
  rw [split, List.map_append, List.map_cons] at distinct
  exact (List.nodup_cons.mp (List.nodup_append.mp distinct).2.1).2

/-- With no inputs before them the outputs are read between two keys. -/
theorem loaded_outputs {document : ConfigDocument} {before later : List ConfigSection}
    {items : List NblexOutputConfig}
    (split : document.sections = before ++ .outputs items :: later)
    (plain : ∀ s ∈ before, s.key ≠ .inputs ∧ s.key ≠ .outputs) :
    ∃ key, document.loaded =
      (((between (before.foldl ConfigSection.describe {}) false false key).run
        (ConfigSection.outputs items).events).runSections later).config := by
  obtain ⟨key, ran⟩ := runSections_plain plain {} none
  exact ⟨key, by rw [loaded, split, runSections_append, ran, runSections_cons]⟩

/-- A mapping after the outputs, with no inputs before them, spoils the document. -/
theorem loaded_ne_of_mapping {document : ConfigDocument} {before later : List ConfigSection}
    {items : List NblexOutputConfig}
    (split : document.sections = before ++ .outputs items :: later)
    (plain : ∀ s ∈ before, s.key ≠ .inputs ∧ s.key ≠ .outputs)
    (inLater : ∀ s ∈ later, s.key ≠ .outputs) (mapping : ∃ s ∈ later, s.key ≠ .version)
    (kept : document.VersionKept) : document.loaded ≠ document.described := by
  intro exact
  obtain ⟨key, loadedEq⟩ := loaded_outputs split plain
  have outputs : document.described.outputs = items :=
    described_mem (s := .outputs items) (by rw [split]; simp)
  have noOutputs : (before.foldl ConfigSection.describe {}).outputs = [] :=
    ConfigSection.foldl_describe_other (fun s member => (plain s member).2) {}
  cases items with
  | nil =>
      have head : ∀ text, later.head? = some (.version text) → text = "1.0" := by
        intro text follows
        refine kept (by rw [split]; simp) text ?_
        have after := after_eq split (fun s member => (plain s member).2)
        rw [show SectionKey.outputs = (ConfigSection.outputs []).key from rfl, after, follows]
      have more := runSections_awaiting_outputs inLater (distinct_later split) head mapping
        (before.foldl ConfigSection.describe {})
      rw [run_outputs_nil] at loadedEq
      rw [← loadedEq, exact, outputs] at more
      exact absurd more (Nat.not_lt_zero _)
  | cons item items =>
      obtain ⟨key', opened⟩ := run_outputs (before.foldl ConfigSection.describe {}) key item items
      rw [opened, noOutputs, List.nil_append] at loadedEq
      rcases runSections_between_outputs inLater mapping
        { before.foldl ConfigSection.describe {} with outputs := item :: items } key' with
        ⟨logs, network, member, empty, positive⟩ | more
      · have inputs : document.described.inputs = logs.getD [] ++ network.getD [] :=
          described_mem (s := .inputs logs network) (by
            rw [split]
            exact List.mem_append_right _ (List.mem_cons_of_mem _ member))
        rw [← loadedEq, exact, inputs, empty] at positive
        exact absurd positive (Nat.lt_irrefl _)
      · rw [← loadedEq, exact, outputs] at more
        exact absurd more (Nat.lt_irrefl _)

/-- Versions are read wherever the loader stands between two keys. -/
theorem runSections_versions {sections : List ConfigSection}
    (versions : ∀ s ∈ sections, s.key = .version) (config : NblexConfig)
    (inInputs inOutputs : Bool) (key : Option String) :
    ∃ key', (between config inInputs inOutputs key).runSections sections =
      between (sections.foldl ConfigSection.describe config) inInputs inOutputs key' := by
  induction sections generalizing config key with
  | nil => exact ⟨key, rfl⟩
  | cons s rest ih =>
      have here := versions s List.mem_cons_self
      cases s with
      | version text =>
          rw [runSections_cons, run_version]
          exact ih (fun t member => versions t (List.mem_cons_of_mem _ member)) _ none
      | inputs logs network => cases here
      | outputs items => cases here
      | correlation enabled windowMs => cases here
      | performance workerThreads bufferSize memoryLimit => cases here

/-- Outputs that nothing but a version follows. -/
theorem loaded_of_versions {document : ConfigDocument} {before later : List ConfigSection}
    {items : List NblexOutputConfig}
    (split : document.sections = before ++ .outputs items :: later)
    (plain : ∀ s ∈ before, s.key ≠ .inputs ∧ s.key ≠ .outputs)
    (versions : ∀ s ∈ later, s.key = .version) (kept : document.VersionKept) :
    document.loaded = document.described := by
  obtain ⟨key, loadedEq⟩ := loaded_outputs split plain
  have noOutputs : (before.foldl ConfigSection.describe {}).outputs = [] :=
    ConfigSection.foldl_describe_other (fun s member => (plain s member).2) {}
  have describedEq : document.described = later.foldl ConfigSection.describe
      { before.foldl ConfigSection.describe {} with outputs := items } := by
    rw [described, split, List.foldl_append]
    rfl
  cases items with
  | nil =>
      have same : { before.foldl ConfigSection.describe {} with outputs := [] } =
          before.foldl ConfigSection.describe {} :=
        NblexConfig.ext rfl rfl noOutputs.symm rfl rfl rfl rfl rfl
      rw [same] at describedEq
      rw [loadedEq, describedEq, run_outputs_nil]
      cases later with
      | nil => rfl
      | cons s rest =>
          have here := versions s List.mem_cons_self
          cases s with
          | version text =>
              obtain rfl : text = "1.0" := by
                refine kept (by rw [split]; simp) text ?_
                have after := after_eq split (fun s member => (plain s member).2)
                rw [show SectionKey.outputs = (ConfigSection.outputs []).key from rfl, after]
                rfl
              have last : rest = [] := by
                cases rest with
                | nil => rfl
                | cons t rest =>
                    have once := (List.nodup_cons.mp (distinct_later split)).1
                    exact absurd (List.mem_map.mpr ⟨t, List.mem_cons_self, versions t (by simp)⟩)
                      once
              subst last
              have noVersion : (before.foldl ConfigSection.describe {}).version = "1.0" :=
                ConfigSection.foldl_describe_other
                  (apart split (t := .version "1.0") (by simp)).1 {}
              rw [runSections_cons, ConfigSection.events, run_cons,
                step_scalar_awaiting _ _ _ (by simp)]
              exact NblexConfig.ext noVersion rfl rfl rfl rfl rfl rfl rfl
          | inputs logs network => cases here
          | outputs items => cases here
          | correlation enabled windowMs => cases here
          | performance workerThreads bufferSize memoryLimit => cases here
  | cons item items =>
      obtain ⟨key', opened⟩ := run_outputs (before.foldl ConfigSection.describe {}) key item items
      obtain ⟨key'', ended⟩ := runSections_versions versions
        { before.foldl ConfigSection.describe {} with outputs := item :: items } false true key'
      rw [opened, noOutputs, List.nil_append] at loadedEq
      rw [loadedEq, describedEq, ended]
      rfl

/-- Without inputs. -/
theorem loaded_iff_withoutInputs {document : ConfigDocument}
    (noInputs : ∀ s ∈ document.sections, s.key ≠ .inputs) (kept : document.VersionKept) :
    document.loaded = document.described ↔
      (document.after .outputs).filter ConfigSection.isSettings = [] := by
  rcases document.splits .outputs with
    other | ⟨before, s, later, split, isOutputs, inBefore, inLater⟩
  · obtain ⟨key, ran⟩ := runSections_plain
      (fun s member => ⟨noInputs s member, other s member⟩) {} none
    rw [after_none other, loaded, ran]
    exact ⟨fun _ => rfl, fun _ => rfl⟩
  · have plain : ∀ t ∈ before, t.key ≠ .inputs ∧ t.key ≠ .outputs := fun t member =>
      ⟨noInputs t (by rw [split]; exact List.mem_append_left _ member), inBefore t member⟩
    have noInputsLater : ∀ t ∈ later, t.key ≠ .inputs := fun t member =>
      noInputs t (by rw [split]; exact List.mem_append_right _ (List.mem_cons_of_mem _ member))
    cases s with
    | version text => cases isOutputs
    | inputs logs network => cases isOutputs
    | correlation enabled windowMs => cases isOutputs
    | performance workerThreads bufferSize memoryLimit => cases isOutputs
    | outputs items =>
        have after : document.after .outputs = later := after_eq split inBefore
        rw [after, List.filter_eq_nil_iff]
        constructor
        · intro exact t member settings
          refine loaded_ne_of_mapping split plain inLater ⟨t, member, ?_⟩ kept exact
          intro isVersion
          rcases (t.isSettings_iff).mp settings with isCorrelation | isPerformance
          · cases isVersion.symm.trans isCorrelation
          · cases isVersion.symm.trans isPerformance
        · intro noSettings
          refine loaded_of_versions split plain ?_ kept
          intro t member
          have settings := noSettings t member
          have notInputs := noInputsLater t member
          have notOutputs := inLater t member
          cases t <;> first | rfl | exact absurd rfl settings | exact absurd rfl notInputs |
            exact absurd rfl notOutputs

/-- What is loaded when the inputs stand before the outputs. -/
theorem loaded_of_inputs_first {document : ConfigDocument} {before later : List ConfigSection}
    {logs network : Option (List NblexInputConfig)}
    (split : document.sections = before ++ .inputs logs network :: later)
    (plain : ∀ s ∈ before, s.key ≠ .inputs ∧ s.key ≠ .outputs)
    (inLater : ∀ s ∈ later, s.key ≠ .inputs) (kept : document.VersionKept) :
    document.loaded = later.foldl ConfigSection.afterInputs
      { before.foldl ConfigSection.describe {} with
        inputs := gathered (logs.getD []) (network.getD []) } := by
  obtain ⟨key, ran⟩ := runSections_plain plain {} none
  obtain ⟨key', opened⟩ := run_inputs (before.foldl ConfigSection.describe {}) key logs network
  have noInputs : (before.foldl ConfigSection.describe {}).inputs = [] :=
    ConfigSection.foldl_describe_other (fun s member => (plain s member).1) {}
  rw [noInputs, List.nil_append] at opened
  rw [loaded, split, runSections_append, ran, runSections_cons, opened]
  by_cases filled : .outputs [] ∈ later
  · obtain ⟨first, last, parts⟩ := List.append_of_mem filled
    subst parts
    have split' : document.sections =
        (before ++ .inputs logs network :: first) ++ .outputs [] :: last := by
      rw [split, List.append_assoc, List.cons_append]
    have inFirst : ∀ s ∈ before ++ .inputs logs network :: first, s.key ≠ .outputs := by
      intro s member same
      have distinct := document.distinct
      rw [split', List.map_append, List.map_cons] at distinct
      exact (List.nodup_append.mp distinct).2.2 s.key (List.mem_map.mpr ⟨s, member, rfl⟩)
        .outputs List.mem_cons_self same
    have inLast : ∀ s ∈ last, s.key ≠ .inputs ∧ s.key ≠ .outputs := fun s member =>
      ⟨inLater s (List.mem_append_right _ (List.mem_cons_of_mem _ member)),
        Ne.symm (apart split' member).2⟩
    have notAgain : .outputs [] ∉ first := fun member =>
      inFirst _ (List.mem_append_right _ (List.mem_cons_of_mem _ member)) rfl
    obtain ⟨inOutputs, key'', middle⟩ := runSections_afterInputs
      (fun s member => inLater s (List.mem_append_left _ member)) notAgain
      { before.foldl ConfigSection.describe {} with
        inputs := gathered (logs.getD []) (network.getD []) } false key'
    rw [runSections_append, middle, runSections_cons, run_outputs_nil,
      runSections_awaiting inLast (distinct_later split'), List.foldl_append, List.foldl_cons,
      ConfigSection.afterInputs_noOutputs]
    · intro text follows
      constructor
      · refine kept (by rw [split']; simp) text ?_
        have after := after_eq split' inFirst
        rw [show SectionKey.outputs = (ConfigSection.outputs []).key from rfl, after, follows]
      · obtain ⟨rest, rfl⟩ : ∃ rest, last = .version text :: rest := by
          cases last with
          | nil => cases follows
          | cons s rest => exact ⟨rest, by rw [Option.some.inj follows]⟩
        have noVersion := (apart split' (t := .version text) (by simp)).1
        rw [ConfigSection.foldl_afterInputs_version
          (c := { before.foldl ConfigSection.describe {} with
            inputs := gathered (logs.getD []) (network.getD []) })
          (d := before.foldl ConfigSection.describe {}) rfl, ← List.foldl_append]
        suffices other : ∀ s ∈ before ++ first, s.key ≠ .version from
          ConfigSection.foldl_describe_other other {}
        intro s member
        rcases List.mem_append.mp member with inBefore | inFirst
        · exact noVersion s (List.mem_append_left _ inBefore)
        · exact noVersion s (List.mem_append_right _ (List.mem_cons_of_mem _ inFirst))
  · obtain ⟨inOutputs, key'', ended⟩ := runSections_afterInputs inLater filled
      { before.foldl ConfigSection.describe {} with
        inputs := gathered (logs.getD []) (network.getD []) } false key'
    rw [ended]
    rfl

section InputsFirst

variable {document : ConfigDocument} {before later : List ConfigSection}
  {logs network : Option (List NblexInputConfig)}

/-- Nothing that stands after the inputs changes settings or outputs. -/
theorem loaded_agreeOn (split : document.sections = before ++ .inputs logs network :: later)
    (plain : ∀ s ∈ before, s.key ≠ .inputs ∧ s.key ≠ .outputs)
    (inLater : ∀ s ∈ later, s.key ≠ .inputs) (kept : document.VersionKept) {key : SectionKey}
    (notVersion : key ≠ .version) (notInputs : key ≠ .inputs) :
    AgreeOn key document.loaded (before.foldl ConfigSection.describe {}) := by
  rw [loaded_of_inputs_first split plain inLater kept]
  refine (ConfigSection.foldl_afterInputs_other notVersion notInputs later _).trans ?_
  cases key with
  | version => exact absurd rfl notVersion
  | inputs => exact absurd rfl notInputs
  | outputs => rfl
  | correlation => exact ⟨rfl, rfl⟩
  | performance => exact ⟨rfl, rfl, rfl⟩

theorem described_eq (split : document.sections = before ++ .inputs logs network :: later) :
    document.described = later.foldl ConfigSection.describe
      { before.foldl ConfigSection.describe {} with
        inputs := logs.getD [] ++ network.getD [] } := by
  rw [described, split, List.foldl_append]
  rfl

theorem described_inputs (split : document.sections = before ++ .inputs logs network :: later) :
    document.described.inputs = logs.getD [] ++ network.getD [] :=
  described_mem (s := .inputs logs network) (by rw [split]; simp)

theorem loaded_inputs (split : document.sections = before ++ .inputs logs network :: later)
    (plain : ∀ s ∈ before, s.key ≠ .inputs ∧ s.key ≠ .outputs)
    (inLater : ∀ s ∈ later, s.key ≠ .inputs) (kept : document.VersionKept)
    (noOutputs : ∀ items, .outputs items ∈ document.sections → items = []) :
    document.loaded.inputs = gathered (logs.getD []) (network.getD []) ++
      List.replicate (later.filter ConfigSection.isSettings).length ({} : NblexInputConfig) := by
  rw [loaded_of_inputs_first split plain inLater kept, ConfigSection.foldl_afterInputs_inputs
    inLater]
  intro items member
  refine noOutputs items ?_
  rw [split]
  exact List.mem_append_right _ (List.mem_cons_of_mem _ member)

/-- Settings after the inputs are lost: what is loaded are the defaults. -/
theorem loaded_default (split : document.sections = before ++ .inputs logs network :: later)
    (plain : ∀ s ∈ before, s.key ≠ .inputs ∧ s.key ≠ .outputs)
    (inLater : ∀ s ∈ later, s.key ≠ .inputs) (kept : document.VersionKept) {s : ConfigSection}
    (member : s ∈ later) (settings : s.isSettings = true) : AgreeOn s.key document.loaded {} := by
  have notVersion : s.key ≠ .version := by
    intro same
    rcases (s.isSettings_iff).mp settings with isCorrelation | isPerformance
    · cases same.symm.trans isCorrelation
    · cases same.symm.trans isPerformance
  exact (loaded_agreeOn split plain inLater kept notVersion (inLater s member)).trans
    (ConfigSection.foldl_describe_other (apart split member).1 {})

/-- No inputs follow outputs that do not stand before the inputs. -/
theorem after_outputs (split : document.sections = before ++ .inputs logs network :: later)
    (inBefore : ∀ s ∈ before, s.key ≠ .outputs) (inLater : ∀ s ∈ later, s.key ≠ .inputs) :
    ∀ s ∈ document.after .outputs, s.key ≠ .inputs := by
  have sublist : document.after .outputs <:+ later := by
    rw [after, split, List.dropWhile_append_of_pos (fun t member =>
      decide_eq_true (inBefore t member)), List.dropWhile_cons_of_pos (by simp [ConfigSection.key])]
    exact (List.tail_suffix _).trans (List.dropWhile_suffix _)
  intro s member
  exact inLater s (sublist.subset member)

/-- With inputs that no outputs precede. -/
theorem loaded_iff_inputs_first
    (split : document.sections = before ++ .inputs logs network :: later)
    (plain : ∀ s ∈ before, s.key ≠ .inputs ∧ s.key ≠ .outputs)
    (inLater : ∀ s ∈ later, s.key ≠ .inputs) (kept : document.VersionKept) :
    document.loaded = document.described ↔
      (∀ items, .outputs items ∈ document.sections → items = []) ∧
        (later.filter ConfigSection.isSettings = [] ∧ (logs.getD [] = [] ↔ network.getD [] ≠ []) ∨
          ∃ s, later.filter ConfigSection.isSettings = [s] ∧ s.describe {} = {} ∧
            logs.getD [] ≠ [] ∧ network.getD [] ≠ [] ∧
              ∀ input ∈ network.getD [], input = {}) := by
  have notVersion : SectionKey.outputs ≠ .version := nofun
  have loadedOutputs : document.loaded.outputs = [] :=
    (loaded_agreeOn split plain inLater kept notVersion nofun).trans
      (ConfigSection.foldl_describe_other (fun s member => (plain s member).2) {})
  constructor
  · intro exact
    have noOutputs : ∀ items, .outputs items ∈ document.sections → items = [] := by
      intro items member
      have described : document.described.outputs = items :=
        described_mem (s := .outputs items) member
      rw [← described, ← exact, loadedOutputs]
    refine ⟨noOutputs, ?_⟩
    have inputs := loaded_inputs split plain inLater kept noOutputs
    rw [exact, described_inputs split] at inputs
    rcases (gathered_append_blank _ _ _).mp inputs.symm with
      ⟨none, alternative⟩ | ⟨one, someLogs, someNetwork, blank⟩
    · exact Or.inl ⟨List.length_eq_zero_iff.mp none, alternative⟩
    · obtain ⟨s, only⟩ := List.length_eq_one_iff.mp one
      refine Or.inr ⟨s, only, ?_, someLogs, someNetwork, blank⟩
      have member : s ∈ later.filter ConfigSection.isSettings := by
        rw [only]
        exact List.mem_singleton_self s
      obtain ⟨inHere, settings⟩ := List.mem_filter.mp member
      apply ConfigSection.describe_default
      have inDocument : s ∈ document.sections := by
        rw [split]
        exact List.mem_append_right _ (List.mem_cons_of_mem _ inHere)
      have lost := loaded_default split plain inLater kept inHere settings
      rw [exact] at lost
      exact (described_mem inDocument).symm.trans lost
  · rintro ⟨noOutputs, alternatives⟩
    have defaults : ∀ s ∈ later, s.isSettings = true → s.describe {} = {} := by
      intro s member settings
      have inFilter : s ∈ later.filter ConfigSection.isSettings :=
        List.mem_filter.mpr ⟨member, settings⟩
      rcases alternatives with ⟨none, -⟩ | ⟨t, only, default, -⟩
      · rw [none] at inFilter
        cases inFilter
      · rw [only] at inFilter
        rw [List.mem_singleton.mp inFilter]
        exact default
    have settingsAgree : ∀ key, key = .correlation ∨ key = .performance →
        AgreeOn key document.loaded document.described := by
      intro key isSettings
      have notVersion : key ≠ .version := by rcases isSettings with rfl | rfl <;> nofun
      have notInputs : key ≠ .inputs := by rcases isSettings with rfl | rfl <;> nofun
      by_cases present : ∃ s ∈ later, s.key = key
      · obtain ⟨s, member, rfl⟩ := present
        have settings := s.isSettings_iff.mpr isSettings
        have inDocument : s ∈ document.sections := by
          rw [split]
          exact List.mem_append_right _ (List.mem_cons_of_mem _ member)
        have described := described_mem inDocument
        rw [defaults s member settings] at described
        exact (loaded_default split plain inLater kept member settings).trans described.symm
      · have other : ∀ s ∈ later, s.key ≠ key := fun s member same => present ⟨s, member, same⟩
        refine (loaded_agreeOn split plain inLater kept notVersion notInputs).trans ?_
        rw [described_eq split]
        refine AgreeOn.symm ((ConfigSection.foldl_describe_other other _).trans ?_)
        rcases isSettings with rfl | rfl
        · exact ⟨rfl, rfl⟩
        · exact ⟨rfl, rfl, rfl⟩
    apply AgreeOn.eq
    intro key
    cases key with
    | version =>
        show document.loaded.version = document.described.version
        rw [loaded_of_inputs_first split plain inLater kept, described_eq split]
        exact ConfigSection.foldl_afterInputs_version rfl
    | inputs =>
        show document.loaded.inputs = document.described.inputs
        rw [loaded_inputs split plain inLater kept noOutputs, described_inputs split,
          gathered_append_blank]
        rcases alternatives with ⟨none, alternative⟩ | ⟨t, only, -, rest⟩
        · exact Or.inl ⟨by rw [none]; rfl, alternative⟩
        · exact Or.inr ⟨by rw [only]; rfl, rest⟩
    | outputs =>
        show document.loaded.outputs = document.described.outputs
        rw [loadedOutputs]
        by_cases present : ∃ items, ConfigSection.outputs items ∈ document.sections
        · obtain ⟨items, member⟩ := present
          have described : document.described.outputs = items :=
            described_mem (s := .outputs items) member
          rw [described, noOutputs items member]
        · have other : ∀ s ∈ document.sections, s.key ≠ .outputs := by
            intro s member same
            cases s <;> cases same
            exact present ⟨_, member⟩
          exact Eq.symm (described_not_mem other)
    | correlation => exact settingsAgree .correlation (Or.inl rfl)
    | performance => exact settingsAgree .performance (Or.inr rfl)

end InputsFirst

/-- With inputs. -/
theorem loaded_iff_withInputs {document : ConfigDocument} {before later : List ConfigSection}
    {logs network : Option (List NblexInputConfig)}
    (split : document.sections = before ++ .inputs logs network :: later)
    (inBefore : ∀ s ∈ before, s.key ≠ .inputs) (inLater : ∀ s ∈ later, s.key ≠ .inputs)
    (kept : document.VersionKept) :
    document.loaded = document.described ↔ document.LoadsWithInputs := by
  have here : ConfigSection.inputs logs network ∈ document.sections := by
    rw [split]
    simp
  have unique : ∀ logs' network', ConfigSection.inputs logs' network' ∈ document.sections →
      logs' = logs ∧ network' = network := by
    intro logs' network' member
    rw [split, List.mem_append, List.mem_cons] at member
    rcases member with bad | same | bad
    · exact absurd rfl (inBefore _ bad)
    · exact ConfigSection.inputs.inj same
    · exact absurd rfl (inLater _ bad)
  by_cases outputsFirst : ∃ items, ConfigSection.outputs items ∈ before
  · obtain ⟨items, member⟩ := outputsFirst
    obtain ⟨first, last, rfl⟩ := List.append_of_mem member
    have split' : document.sections =
        first ++ .outputs items :: (last ++ .inputs logs network :: later) := by
      rw [split, List.append_assoc, List.cons_append]
    have inputsLast : ConfigSection.inputs logs network ∈
        last ++ .inputs logs network :: later :=
      List.mem_append_right _ List.mem_cons_self
    have plain : ∀ s ∈ first, s.key ≠ .inputs ∧ s.key ≠ .outputs := by
      intro s inFirst
      refine ⟨inBefore s (List.mem_append_left _ inFirst), fun same => ?_⟩
      have distinct := document.distinct
      rw [split', List.map_append, List.map_cons] at distinct
      exact (List.nodup_append.mp distinct).2.2 s.key (List.mem_map.mpr ⟨s, inFirst, rfl⟩)
        .outputs List.mem_cons_self same
    have after : document.after .outputs = last ++ .inputs logs network :: later :=
      after_eq split' (fun s inFirst => (plain s inFirst).2)
    constructor
    · intro exact
      exact absurd exact (loaded_ne_of_mapping split' plain
        (fun s inLast => Ne.symm (apart split' inLast).2) ⟨_, inputsLast, nofun⟩ kept)
    · rintro ⟨_, _, _, _, noInputs, _⟩
      rw [after] at noInputs
      exact absurd rfl (noInputs _ inputsLast)
  · have plain : ∀ s ∈ before, s.key ≠ .inputs ∧ s.key ≠ .outputs := by
      intro s member
      refine ⟨inBefore s member, fun same => ?_⟩
      cases s <;> cases same
      exact outputsFirst ⟨_, member⟩
    have afterInputs : document.after .inputs = later := after_eq split inBefore
    rw [loaded_iff_inputs_first split plain inLater kept, LoadsWithInputs, afterInputs]
    constructor
    · rintro ⟨noOutputs, alternatives⟩
      exact ⟨logs, network, here, noOutputs,
        after_outputs split (fun s member => (plain s member).2) inLater, alternatives⟩
    · rintro ⟨logs', network', member, noOutputs, -, alternatives⟩
      obtain ⟨rfl, rfl⟩ := unique logs' network' member
      exact ⟨noOutputs, alternatives⟩

/-- The loader reads exactly the documents of `LoadsExactly` as they are meant. -/
theorem nblexConfigLoadYaml_described_iff (document : ConfigDocument) :
    nblexConfigLoadYaml document.events = some document.described ↔ document.LoadsExactly := by
  rw [nblexConfigLoadYaml_events, Option.some_inj, LoadsExactly]
  by_cases kept : document.VersionKept
  · rcases document.splits .inputs with
      noInputs | ⟨before, s, later, split, isInputs, inBefore, inLater⟩
    · rw [loaded_iff_withoutInputs noInputs kept]
      constructor
      · intro noSettings
        exact ⟨kept, Or.inl ⟨noInputs, noSettings⟩⟩
      · rintro ⟨-, ⟨-, noSettings⟩ | ⟨_, _, member, -⟩⟩
        · exact noSettings
        · exact absurd rfl (noInputs _ member)
    · cases s with
      | version text => cases isInputs
      | outputs items => cases isInputs
      | correlation enabled windowMs => cases isInputs
      | performance workerThreads bufferSize memoryLimit => cases isInputs
      | inputs logs network =>
          rw [loaded_iff_withInputs split inBefore inLater kept]
          constructor
          · intro loads
            exact ⟨kept, Or.inr loads⟩
          · rintro ⟨-, ⟨noInputs, -⟩ | loads⟩
            · exact absurd rfl (noInputs (.inputs logs network) (by rw [split]; simp))
            · exact loads
  · constructor
    · intro exact
      exact absurd (versionKept_of_loaded exact) kept
    · rintro ⟨kept', -⟩
      exact absurd kept' kept

/-- One log input, and correlation switched off after it. -/
def loggedDocument : ConfigDocument where
  sections :=
    [.version "1.0",
      .inputs (some [{ name := some "app", type := some "file", path := some "/var/log/app.log" }])
        (some []),
      .outputs [], .correlation (some false) none, .performance none none none]
  distinct := by decide

/-- The same document with the correlation before the inputs. -/
def reorderedDocument : ConfigDocument where
  sections :=
    [.version "1.0", .correlation (some false) none, .performance none none none,
      .inputs (some [{ name := some "app", type := some "file", path := some "/var/log/app.log" }])
        (some []),
      .outputs []]
  distinct := by decide

/-- The settings after the inputs are two further inputs, and the correlation stays on; in the
    other order the document is read as it is meant. -/
theorem loggedDocument_misread :
    nblexConfigLoadYaml loggedDocument.events ≠ some loggedDocument.described ∧
      loggedDocument.described = reorderedDocument.described ∧
      nblexConfigLoadYaml reorderedDocument.events = some reorderedDocument.described := by
  decide

end ConfigDocument

end Nblex
