import Nblex.Core.Config.Proofs.Losses

/-!
# Sections in their order

What the sections of a document say does not depend on their order: each stands for itself in the
configuration they describe. What the loader makes of them does, and here are the runs over all
sections that follow the inputs or the outputs.
-/

namespace Nblex

/-- Two configurations agree on what a section says. -/
def NblexConfig.AgreeOn (key : SectionKey) (c d : NblexConfig) : Prop :=
  match key with
  | .version => c.version = d.version
  | .inputs => c.inputs = d.inputs
  | .outputs => c.outputs = d.outputs
  | .correlation =>
      c.correlationEnabled = d.correlationEnabled ∧ c.correlationWindowMs = d.correlationWindowMs
  | .performance =>
      c.workerThreads = d.workerThreads ∧ c.bufferSize = d.bufferSize ∧
        c.memoryLimit = d.memoryLimit

namespace NblexConfig.AgreeOn

theorem refl (key : SectionKey) (c : NblexConfig) : AgreeOn key c c := by
  cases key with
  | version => rfl
  | inputs => rfl
  | outputs => rfl
  | correlation => exact ⟨rfl, rfl⟩
  | performance => exact ⟨rfl, rfl, rfl⟩

theorem symm {key : SectionKey} {c d : NblexConfig} (agree : AgreeOn key c d) :
    AgreeOn key d c := by
  cases key with
  | version => exact Eq.symm agree
  | inputs => exact Eq.symm agree
  | outputs => exact Eq.symm agree
  | correlation => exact ⟨agree.1.symm, agree.2.symm⟩
  | performance => exact ⟨agree.1.symm, agree.2.1.symm, agree.2.2.symm⟩

theorem trans {key : SectionKey} {c d e : NblexConfig} (first : AgreeOn key c d)
    (second : AgreeOn key d e) : AgreeOn key c e := by
  cases key with
  | version => exact Eq.trans first second
  | inputs => exact Eq.trans first second
  | outputs => exact Eq.trans first second
  | correlation => exact ⟨first.1.trans second.1, first.2.trans second.2⟩
  | performance =>
      exact ⟨first.1.trans second.1, first.2.1.trans second.2.1, first.2.2.trans second.2.2⟩

/-- Configurations that agree on every section are equal. -/
theorem eq {c d : NblexConfig} (agree : ∀ key, AgreeOn key c d) : c = d :=
  NblexConfig.ext (agree .version) (agree .inputs) (agree .outputs) (agree .correlation).1
    (agree .correlation).2 (agree .performance).1 (agree .performance).2.1
    (agree .performance).2.2

end NblexConfig.AgreeOn

open NblexConfig (AgreeOn)

namespace ConfigSection

theorem isSettings_iff (s : ConfigSection) :
    s.isSettings = true ↔ s.key = .correlation ∨ s.key = .performance := by
  cases s <;> simp [isSettings, key]

theorem describe_other {key : SectionKey} {s : ConfigSection} (other : s.key ≠ key)
    (c : NblexConfig) : AgreeOn key (s.describe c) c := by
  cases key with
  | version => cases s <;> first | exact absurd rfl other | rfl
  | inputs => cases s <;> first | exact absurd rfl other | rfl
  | outputs => cases s <;> first | exact absurd rfl other | rfl
  | correlation => cases s <;> first | exact absurd rfl other | exact ⟨rfl, rfl⟩
  | performance => cases s <;> first | exact absurd rfl other | exact ⟨rfl, rfl, rfl⟩

theorem describe_same {c d : NblexConfig} (s : ConfigSection) (agree : AgreeOn s.key c d) :
    AgreeOn s.key (s.describe c) (s.describe d) := by
  cases s with
  | version text => rfl
  | inputs logs network => rfl
  | outputs items => rfl
  | correlation enabled windowMs =>
      obtain ⟨enabledEq, windowEq⟩ := agree
      exact ⟨by simp only [describe, enabledEq], by simp only [describe, windowEq]⟩
  | performance workerThreads bufferSize memoryLimit =>
      obtain ⟨threadsEq, bufferEq, memoryEq⟩ := agree
      exact ⟨by simp only [describe, threadsEq], by simp only [describe, bufferEq],
        by simp only [describe, memoryEq]⟩

theorem foldl_describe_other {key : SectionKey} {sections : List ConfigSection}
    (other : ∀ s ∈ sections, s.key ≠ key) (c : NblexConfig) :
    AgreeOn key (sections.foldl describe c) c := by
  induction sections generalizing c with
  | nil => exact AgreeOn.refl key c
  | cons s sections ih =>
      have rest := ih (fun t member => other t (List.mem_cons_of_mem _ member)) (s.describe c)
      exact rest.trans (describe_other (other s List.mem_cons_self) c)

/-- What a section says stands in the configuration that sections of other names surround. -/
theorem foldl_describe_split {before later : List ConfigSection} {s : ConfigSection}
    (otherBefore : ∀ t ∈ before, t.key ≠ s.key) (otherLater : ∀ t ∈ later, t.key ≠ s.key)
    (c : NblexConfig) :
    AgreeOn s.key ((before ++ s :: later).foldl describe c) (s.describe c) := by
  rw [List.foldl_append, List.foldl_cons]
  exact (foldl_describe_other otherLater _).trans
    (s.describe_same (foldl_describe_other otherBefore c))

/-- Settings that say nothing but the defaults. -/
theorem describe_default {s : ConfigSection} (agree : AgreeOn s.key (s.describe {}) {}) :
    s.describe {} = {} := by
  apply AgreeOn.eq
  intro key
  by_cases same : s.key = key
  · subst same
    exact agree
  · exact describe_other same {}

theorem afterInputs_noOutputs (c : NblexConfig) :
    (ConfigSection.outputs []).afterInputs c = c :=
  NblexConfig.ext rfl (List.append_nil _) rfl rfl rfl rfl rfl rfl

theorem afterInputs_other {key : SectionKey} {s : ConfigSection} (notVersion : key ≠ .version)
    (notInputs : key ≠ .inputs) (c : NblexConfig) : AgreeOn key (s.afterInputs c) c := by
  cases key with
  | version => exact absurd rfl notVersion
  | inputs => exact absurd rfl notInputs
  | outputs => cases s <;> rfl
  | correlation => cases s <;> exact ⟨rfl, rfl⟩
  | performance => cases s <;> exact ⟨rfl, rfl, rfl⟩

theorem foldl_afterInputs_other {key : SectionKey} (notVersion : key ≠ .version)
    (notInputs : key ≠ .inputs) (sections : List ConfigSection) (c : NblexConfig) :
    AgreeOn key (sections.foldl afterInputs c) c := by
  induction sections generalizing c with
  | nil => exact AgreeOn.refl key c
  | cons s sections ih =>
      exact (ih (s.afterInputs c)).trans (afterInputs_other notVersion notInputs c)

/-- The version is read after the inputs as before them. -/
theorem foldl_afterInputs_version {sections : List ConfigSection} {c d : NblexConfig}
    (same : c.version = d.version) :
    (sections.foldl afterInputs c).version = (sections.foldl describe d).version := by
  induction sections generalizing c d with
  | nil => exact same
  | cons s sections ih =>
      refine ih ?_
      cases s with
      | version text => rfl
      | inputs logs network => exact same
      | outputs items => exact same
      | correlation enabled windowMs => exact same
      | performance workerThreads bufferSize memoryLimit => exact same

/-- After the inputs every section of settings is one more input without fields. -/
theorem foldl_afterInputs_inputs {sections : List ConfigSection}
    (noInputs : ∀ s ∈ sections, s.key ≠ .inputs)
    (noOutputs : ∀ items, .outputs items ∈ sections → items = []) (c : NblexConfig) :
    (sections.foldl afterInputs c).inputs =
      c.inputs ++ List.replicate (sections.filter isSettings).length ({} : NblexInputConfig) := by
  induction sections generalizing c with
  | nil => exact (List.append_nil _).symm
  | cons s sections ih =>
      have rest := ih (fun t member => noInputs t (List.mem_cons_of_mem _ member))
        (fun items member => noOutputs items (List.mem_cons_of_mem _ member)) (s.afterInputs c)
      rw [List.foldl_cons, rest]
      cases s with
      | version text => rfl
      | inputs logs network => exact absurd rfl (noInputs _ List.mem_cons_self)
      | outputs items =>
          rw [noOutputs items List.mem_cons_self]
          exact congrArg (· ++ _) (List.append_nil c.inputs)
      | correlation enabled windowMs =>
          rw [List.filter_cons_of_pos rfl, List.length_cons, List.replicate_succ]
          exact List.append_assoc c.inputs [{}] _
      | performance workerThreads bufferSize memoryLimit =>
          rw [List.filter_cons_of_pos rfl, List.length_cons, List.replicate_succ]
          exact List.append_assoc c.inputs [{}] _

end ConfigSection

theorem append_blank (input : NblexInputConfig) (network : List NblexInputConfig) :
    network ++ [({} : NblexInputConfig)] = input :: network ↔
      ∀ i ∈ input :: network, i = {} := by
  induction network generalizing input with
  | nil =>
      rw [List.nil_append, List.forall_mem_singleton, List.cons.injEq]
      exact ⟨fun same => same.1.symm, fun blank => ⟨blank.symm, rfl⟩⟩
  | cons other network ih =>
      rw [List.cons_append, List.cons.injEq, ih other]
      constructor
      · rintro ⟨same, blank⟩
        exact List.forall_mem_cons.mpr ⟨same ▸ blank other List.mem_cons_self, blank⟩
      · intro blank
        obtain ⟨here, rest⟩ := List.forall_mem_cons.mp blank
        exact ⟨(rest other List.mem_cons_self).trans here.symm, rest⟩

/-- When blank inputs make up for the network input that is lost. -/
theorem gathered_append_blank (logs network : List NblexInputConfig) (n : Nat) :
    gathered logs network ++ List.replicate n ({} : NblexInputConfig) = logs ++ network ↔
      (n = 0 ∧ (logs = [] ↔ network ≠ [])) ∨
        (n = 1 ∧ logs ≠ [] ∧ network ≠ [] ∧ ∀ input ∈ network, input = {}) := by
  cases logs with
  | nil =>
      cases network with
      | nil => simp [gathered]
      | cons input network => simp [gathered]
  | cons log logs =>
      cases network with
      | nil => simp [gathered]
      | cons input network =>
          have lost : gathered (log :: logs) (input :: network) = (log :: logs) ++ network := rfl
          rw [lost, List.append_assoc, List.append_cancel_left_eq]
          constructor
          · intro same
            have one : n = 1 := by
              have lengths := congrArg List.length same
              rw [List.length_append, List.length_replicate, List.length_cons] at lengths
              omega
            subst one
            exact Or.inr ⟨rfl, List.cons_ne_nil _ _, List.cons_ne_nil _ _,
              (append_blank input network).mp same⟩
          · rintro (⟨-, bad⟩ | ⟨rfl, -, -, blank⟩)
            · exact absurd (bad.mpr (List.cons_ne_nil _ _)) (List.cons_ne_nil _ _)
            · exact (append_blank input network).mpr blank

namespace Loader

/-- Sections after an empty list of outputs that stands after the inputs. -/
theorem runSections_awaiting {sections : List ConfigSection}
    (plain : ∀ s ∈ sections, s.key ≠ .inputs ∧ s.key ≠ .outputs)
    (distinct : (sections.map ConfigSection.key).Nodup) {config : NblexConfig}
    (kept : ∀ text, sections.head? = some (.version text) →
      text = "1.0" ∧ config.version = "1.0") :
    ((awaiting config true true "outputs").runSections sections).config =
      sections.foldl ConfigSection.afterInputs config := by
  -- a name that is swallowed is one of settings, which are a blank input all the same
  have swallowed : ∀ {sections : List ConfigSection}, (∀ s ∈ sections, s.key ≠ .inputs ∧
      s.key ≠ .outputs) → ∀ {key : String}, key ≠ "version" → ∀ config : NblexConfig,
      (∀ s ∈ sections, s.key ≠ .version) ∨ (∃ s rest, sections = s :: rest ∧
        s.isSettings = true) →
      ((awaiting config true true key).runSections sections).config =
        sections.foldl ConfigSection.afterInputs config := by
    intro sections plain key other config first
    cases sections with
    | nil => rfl
    | cons s rest =>
        obtain ⟨noInputs, noOutputs⟩ := plain s List.mem_cons_self
        have settings : s.isSettings = true := by
          rcases first with noVersion | ⟨t, _, same, settings⟩
          · have notVersion := noVersion s List.mem_cons_self
            cases s <;> first | rfl | exact absurd rfl notVersion | exact absurd rfl noInputs |
              exact absurd rfl noOutputs
          · rw [(List.cons.inj same).1]
            exact settings
        have later : ∀ t ∈ rest, t.key ≠ .inputs ∧ t.key ≠ .outputs :=
          fun t member => plain t (List.mem_cons_of_mem _ member)
        obtain ⟨key', ran⟩ := run_settings_awaiting config true other settings
        obtain ⟨_, _, ended⟩ := runSections_afterInputs (fun t member => (later t member).1)
          (fun member => (later _ member).2 rfl) (s.afterInputs config) true key'
        rw [runSections_cons, ran, ended]
        rfl
  have outputsOther : "outputs" ≠ "version" := by simp
  cases sections with
  | nil => rfl
  | cons s rest =>
      have later : ∀ t ∈ rest, t.key ≠ .inputs ∧ t.key ≠ .outputs :=
        fun t member => plain t (List.mem_cons_of_mem _ member)
      by_cases isVersion : s.key = .version
      · cases s with
        | version text =>
            obtain ⟨rfl, default⟩ := kept text rfl
            have ran : (awaiting config true true "outputs").run
                (ConfigSection.version "1.0").events = awaiting config true true "1.0" := by
              rw [ConfigSection.events, run_cons,
                step_scalar_awaiting config true true outputsOther]
              simp [ConfigSection.body, step, between, readKey, awaiting]
            have same : (ConfigSection.version "1.0").afterInputs config = config := by
              rw [ConfigSection.afterInputs, ← default]
            rw [runSections_cons, ran, List.foldl_cons, same]
            refine swallowed later (by simp) config (Or.inl ?_)
            intro t member sameKey
            rw [List.map_cons, List.nodup_cons] at distinct
            exact distinct.1 (List.mem_map.mpr ⟨t, member, sameKey⟩)
        | inputs logs network => cases isVersion
        | outputs items => cases isVersion
        | correlation enabled windowMs => cases isVersion
        | performance workerThreads bufferSize memoryLimit => cases isVersion
      · refine swallowed plain outputsOther config (Or.inr ⟨s, rest, rfl, ?_⟩)
        obtain ⟨noInputs, noOutputs⟩ := plain s List.mem_cons_self
        cases s <;> first | rfl | exact absurd rfl isVersion | exact absurd rfl noInputs |
          exact absurd rfl noOutputs

/-- After an empty list of outputs every mapping, where no inputs stand before, is a further
    output. -/
theorem runSections_awaiting_outputs {sections : List ConfigSection}
    (noOutputs : ∀ s ∈ sections, s.key ≠ .outputs)
    (distinct : (sections.map ConfigSection.key).Nodup)
    (kept : ∀ text, sections.head? = some (.version text) → text = "1.0")
    (mapping : ∃ s ∈ sections, s.key ≠ .version) (config : NblexConfig) :
    config.outputs.length <
      ((awaiting config false true "outputs").runSections sections).config.outputs.length := by
  have opened : ∀ (s : ConfigSection) (rest : List ConfigSection) (key : String),
      s.key ≠ .version → s.key ≠ .outputs → key ≠ "version" →
      config.outputs.length <
        ((awaiting config false true key).runSections (s :: rest)).config.outputs.length := by
    intro s rest key notVersion notOutputs other
    rw [runSections_cons]
    exact Nat.lt_of_lt_of_le (run_awaiting_outputs notVersion notOutputs config other)
      (run_lengths _ _).2
  cases sections with
  | nil =>
      obtain ⟨s, member, -⟩ := mapping
      cases member
  | cons s rest =>
      by_cases isVersion : s.key = .version
      · cases s with
        | version text =>
            have default : text = "1.0" := kept text rfl
            subst default
            have ran : (awaiting config false true "outputs").run
                (ConfigSection.version "1.0").events = awaiting config false true "1.0" := by
              rw [ConfigSection.events, run_cons, step_scalar_awaiting config false true (by simp)]
              simp [ConfigSection.body, step, between, readKey, awaiting]
            rw [runSections_cons, ran]
            cases rest with
            | nil =>
                obtain ⟨t, member, notVersion⟩ := mapping
                rw [List.mem_singleton.mp member] at notVersion
                exact absurd rfl notVersion
            | cons t rest =>
                refine opened t rest "1.0" ?_ (noOutputs t (by simp)) (by simp)
                intro sameKey
                rw [List.map_cons, List.nodup_cons] at distinct
                exact distinct.1 (List.mem_map.mpr ⟨t, List.mem_cons_self, sameKey⟩)
        | inputs logs network => cases isVersion
        | outputs items => cases isVersion
        | correlation enabled windowMs => cases isVersion
        | performance workerThreads bufferSize memoryLimit => cases isVersion
      · exact opened s rest "outputs" isVersion (noOutputs s List.mem_cons_self) (by simp)

/-- After outputs every mapping, where no inputs stand before, is a further output, unless it is
    the one of inputs that are empty. -/
theorem runSections_between_outputs {sections : List ConfigSection}
    (noOutputs : ∀ s ∈ sections, s.key ≠ .outputs) (mapping : ∃ s ∈ sections, s.key ≠ .version)
    (config : NblexConfig) (key : Option String) :
    (∃ logs network, .inputs logs network ∈ sections ∧ logs.getD [] ++ network.getD [] = [] ∧
        0 < ((between config false true key).runSections sections).config.inputs.length) ∨
      config.outputs.length <
        ((between config false true key).runSections sections).config.outputs.length := by
  induction sections generalizing config key with
  | nil =>
      obtain ⟨s, member, -⟩ := mapping
      cases member
  | cons s rest ih =>
      rw [runSections_cons]
      have grows := run_lengths ((between config false true key).run s.events)
        (rest.flatMap ConfigSection.events)
      cases s with
      | version text =>
          obtain ⟨t, member, notVersion⟩ := mapping
          have inRest : t ∈ rest := by
            rcases List.mem_cons.mp member with rfl | inRest
            · exact absurd rfl notVersion
            · exact inRest
          rw [run_version]
          rcases ih (fun u inRest' => noOutputs u (List.mem_cons_of_mem _ inRest'))
            ⟨t, inRest, notVersion⟩ { config with version := text } none with
            ⟨logs, network, here, empty, positive⟩ | more
          · exact Or.inl ⟨logs, network, List.mem_cons_of_mem _ here, empty, positive⟩
          · exact Or.inr more
      | inputs logs network =>
          rcases run_inputs_outputs config key logs network with ⟨empty, positive⟩ | more
          · exact Or.inl ⟨logs, network, List.mem_cons_self, empty,
              Nat.lt_of_lt_of_le positive grows.1⟩
          · exact Or.inr (Nat.lt_of_lt_of_le more grows.2)
      | outputs items => exact absurd rfl (noOutputs _ List.mem_cons_self)
      | correlation enabled windowMs =>
          exact Or.inr (Nat.lt_of_lt_of_le
            (run_settings_outputs (s := .correlation enabled windowMs) rfl config key) grows.2)
      | performance workerThreads bufferSize memoryLimit =>
          exact Or.inr (Nat.lt_of_lt_of_le
            (run_settings_outputs (s := .performance workerThreads bufferSize memoryLimit) rfl
              config key) grows.2)

end Loader

end Nblex
