import Nblex.Core.Config.Proofs.QuietEntries

/-!
# Settings of different keys

A setting that is read later under the same key takes the place of the earlier one; settings under
different keys are read in any order. So an entry that holds a key forgets what the key was set
to before.
-/

namespace Nblex

/-- Two fields are set in any order. -/
theorem set_comm {α : Type} {k key : String} (other : k ≠ key) (word : String) (a b x : α) :
    (if k = word then b else if key = word then a else x) =
      if key = word then a else if k = word then b else x := by
  split_ifs with here there
  · exact absurd (here.trans there.symm) other
  all_goals rfl

theorem set_set {α : Type} (key word : String) (a b x : α) :
    (if key = word then b else if key = word then a else x) = if key = word then b else x := by
  split_ifs <;> rfl

namespace NblexInputConfig

theorem assign_eq (key value : String) (input : NblexInputConfig) :
    input.assign key value =
      { name := if key = "name" then some value else input.name
        type := if key = "type" then some value else input.type
        path := if key = "path" then some value else input.path
        interface := if key = "interface" then some value else input.interface
        filter := if key = "filter" then some value else input.filter
        format := if key = "format" then some value else input.format } := by
  by_cases name : key = "name"
  · subst key
    rfl
  by_cases type : key = "type"
  · subst key
    rfl
  by_cases path : key = "path"
  · subst key
    rfl
  by_cases interface : key = "interface"
  · subst key
    rfl
  by_cases filter : key = "filter"
  · subst key
    rfl
  by_cases format : key = "format"
  · subst key
    rfl
  simp only [assign, name, type, path, interface, filter, format, if_false]

theorem assign_assign (key a b : String) (input : NblexInputConfig) :
    (input.assign key a).assign key b = input.assign key b := by
  simp only [assign_eq, set_set]

theorem assign_comm {k key : String} (other : k ≠ key) (a b : String) (input : NblexInputConfig) :
    (input.assign key a).assign k b = (input.assign k b).assign key a := by
  simp only [assign_eq]
  congr 1 <;> exact set_comm other _ _ _ _

end NblexInputConfig

namespace NblexOutputConfig

theorem assign_eq (key value : String) (output : NblexOutputConfig) :
    output.assign key value =
      { name := if key = "name" then some value else output.name
        type := if key = "type" then some value else output.type
        path := if key = "path" then some value else output.path
        url := if key = "url" then some value else output.url
        format := if key = "format" then some value else output.format } := by
  by_cases name : key = "name"
  · subst key
    rfl
  by_cases type : key = "type"
  · subst key
    rfl
  by_cases path : key = "path"
  · subst key
    rfl
  by_cases url : key = "url"
  · subst key
    rfl
  by_cases format : key = "format"
  · subst key
    rfl
  simp only [assign, name, type, path, url, format, if_false]

theorem assign_assign (key a b : String) (output : NblexOutputConfig) :
    (output.assign key a).assign key b = output.assign key b := by
  simp only [assign_eq, set_set]

theorem assign_comm {k key : String} (other : k ≠ key) (a b : String)
    (output : NblexOutputConfig) :
    (output.assign key a).assign k b = (output.assign k b).assign key a := by
  simp only [assign_eq]
  congr 1 <;> exact set_comm other _ _ _ _

end NblexOutputConfig

namespace NblexConfig

theorem assignCorrelation_eq (key value : String) (config : NblexConfig) :
    config.assignCorrelation key value =
      { config with
        correlationEnabled :=
          if key = "enabled" then value = "true" || value = "1" else config.correlationEnabled
        correlationWindowMs :=
          if key = "window_ms" then atoi value else config.correlationWindowMs } := by
  by_cases enabled : key = "enabled"
  · subst key
    rfl
  by_cases windowMs : key = "window_ms"
  · subst key
    rfl
  simp only [assignCorrelation, enabled, windowMs, if_false]

theorem assignPerformance_eq (key value : String) (config : NblexConfig) :
    config.assignPerformance key value =
      { config with
        workerThreads := if key = "worker_threads" then atoi value else config.workerThreads
        bufferSize := if key = "buffer_size" then parseSize value else config.bufferSize
        memoryLimit := if key = "memory_limit" then parseSize value else config.memoryLimit } := by
  by_cases workerThreads : key = "worker_threads"
  · subst key
    rfl
  by_cases bufferSize : key = "buffer_size"
  · subst key
    rfl
  by_cases memoryLimit : key = "memory_limit"
  · subst key
    rfl
  simp only [assignPerformance, workerThreads, bufferSize, memoryLimit, if_false]

theorem assignCorrelation_assign (key a b : String) (config : NblexConfig) :
    (config.assignCorrelation key a).assignCorrelation key b = config.assignCorrelation key b := by
  simp only [assignCorrelation_eq, set_set]

theorem assignPerformance_assign (key a b : String) (config : NblexConfig) :
    (config.assignPerformance key a).assignPerformance key b = config.assignPerformance key b := by
  simp only [assignPerformance_eq, set_set]

theorem assignCorrelation_comm {k key : String} (other : k ≠ key) (a b : String)
    (config : NblexConfig) :
    (config.assignCorrelation key a).assignCorrelation k b =
      (config.assignCorrelation k b).assignCorrelation key a := by
  simp only [assignCorrelation_eq]
  congr 1 <;> exact set_comm other _ _ _ _

theorem assignPerformance_comm {k key : String} (other : k ≠ key) (a b : String)
    (config : NblexConfig) :
    (config.assignPerformance key a).assignPerformance k b =
      (config.assignPerformance k b).assignPerformance key a := by
  simp only [assignPerformance_eq]
  congr 1 <;> exact set_comm other _ _ _ _

end NblexConfig

namespace Loader

/-- The configuration after a setting. -/
def put (l : Loader) (key value : String) (config : NblexConfig) : NblexConfig :=
  ({ l with config } : Loader).assign key value

/-- The later value of a key wins. -/
theorem put_put (l : Loader) (key a b : String) (config : NblexConfig) :
    l.put key b (l.put key a config) = l.put key b config := by
  simp only [put, assign]
  split
  · rfl
  · cases l.currentInput with
    | some i =>
        simp only [List.modify_modify_eq]
        congr 2
        funext input
        exact input.assign_assign key a b
    | none =>
        cases l.currentOutput with
        | some i =>
            simp only [List.modify_modify_eq]
            congr 2
            funext output
            exact output.assign_assign key a b
        | none =>
            dsimp only
            split_ifs
            · exact config.assignCorrelation_assign key a b
            · exact config.assignPerformance_assign key a b
            · rfl

/-- The version and another setting are set in any order. -/
theorem put_version_comm (l : Loader) {key : String} (notVersion : key ≠ "version")
    (a b : String) (config : NblexConfig) :
    l.put "version" b (l.put key a config) = l.put key a (l.put "version" b config) := by
  simp only [put, assign, if_neg notVersion]
  cases l.currentInput with
  | some i => rfl
  | none =>
      cases l.currentOutput with
      | some i => rfl
      | none =>
          dsimp only
          simp only [NblexConfig.assignCorrelation_eq, NblexConfig.assignPerformance_eq]
          split_ifs <;> rfl

/-- Different keys are set in any order. -/
theorem put_comm (l : Loader) {k key : String} (other : k ≠ key) (a b : String)
    (config : NblexConfig) :
    l.put k b (l.put key a config) = l.put key a (l.put k b config) := by
  by_cases version : k = "version"
  · subst k
    exact l.put_version_comm (Ne.symm other) a b config
  by_cases version' : key = "version"
  · subst key
    exact (l.put_version_comm version b a config).symm
  simp only [put, assign, if_neg version, if_neg version']
  cases l.currentInput with
  | some i =>
      simp only [List.modify_modify_eq]
      congr 2
      funext input
      exact input.assign_comm other a b
  | none =>
      cases l.currentOutput with
      | some i =>
          simp only [List.modify_modify_eq]
          congr 2
          funext output
          exact output.assign_comm other a b
      | none =>
          dsimp only
          split_ifs
          · exact config.assignCorrelation_comm other a b
          · exact config.assignPerformance_comm other a b
          · rfl

/-- What the value of a key was before makes no difference once the key is read. -/
theorem run_put {events : List YamlEvent} {word : String} {l : Loader} {config : NblexConfig}
    (noStart : .mappingStart ∉ events) (noEnd : .mappingEnd ∉ events)
    (due : keyDue l.expectingKey events = true)
    (noCorrelation : "correlation" ∉ keysRead l.expectingKey events)
    (noPerformance : "performance" ∉ keysRead l.expectingKey events)
    (read : word ∈ keysRead l.expectingKey events ∨
      l.expectingKey = false ∧ l.currentKey = some word) (a b : String) :
    ({ l with config := l.put word a config } : Loader).run events =
      ({ l with config := l.put word b config } : Loader).run events := by
  induction events generalizing l config with
  | nil =>
      obtain member | ⟨notDue, -⟩ := read
      · exact absurd member List.not_mem_nil
      · exact absurd (notDue.symm.trans due) (by simp)
  | cons event events ih =>
      rw [List.mem_cons, not_or] at noStart noEnd
      cases event with
      | scalar value =>
          rw [run_cons, run_cons]
          cases expecting : l.expectingKey with
          | true =>
              have keys : keysRead l.expectingKey (.scalar value :: events) =
                  value :: keysRead false events := by rw [keysRead, if_pos expecting]
              rw [keys, List.mem_cons] at noCorrelation noPerformance read
              rw [not_or] at noCorrelation noPerformance
              have step (c : NblexConfig) : ({ l with config := c } : Loader).step (.scalar value) =
                  { l.readKey value with config := c } :=
                step_due (l := { l with config := c }) expecting value
              have same (x : String) : l.put word x config =
                  (l.readKey value).put word x config := by
                simp [put, assign, readKey, Ne.symm noCorrelation.1, Ne.symm noPerformance.1]
              rw [← expecting, step, step, same, same]
              apply ih noStart.2 noEnd.2 (by rw [expecting] at due; exact due) noCorrelation.2
                noPerformance.2
              obtain (rfl | later) | ⟨notDue, -⟩ := read
              · exact Or.inr ⟨rfl, rfl⟩
              · exact Or.inl later
              · exact absurd (expecting.symm.trans notDue) (by simp)
          | false =>
              have keys : keysRead l.expectingKey (.scalar value :: events) =
                  keysRead true events := by rw [keysRead, if_neg (by simp [expecting])]
              rw [keys] at noCorrelation noPerformance read
              have step (c : NblexConfig) : ({ l with config := c } : Loader).step (.scalar value) =
                  { l with
                    config := l.put (l.currentKey.getD "") value c
                    currentKey := none
                    expectingKey := true } :=
                step_notDue (l := { l with config := c }) expecting value
              rw [← expecting, step, step]
              by_cases here : l.currentKey.getD "" = word
              · rw [here, put_put, put_put]
              · rw [l.put_comm here, l.put_comm here]
                apply ih (l := { l with currentKey := none, expectingKey := true })
                    noStart.2 noEnd.2
                  (by rw [expecting] at due; exact due) noCorrelation noPerformance
                obtain later | ⟨-, pending⟩ := read
                · exact Or.inl later
                · exact absurd (by rw [pending]; rfl) here
      | sequenceStart =>
          exact ih (l := l.openSequence) noStart.2 noEnd.2 due noCorrelation noPerformance read
      | mappingStart => exact absurd rfl noStart.1
      | mappingEnd => exact absurd rfl noEnd.1
      | _ => exact ih noStart.2 noEnd.2 due noCorrelation noPerformance read

/-- A setting. -/
theorem run_setting {l : Loader} (due : l.expectingKey = true) {word : String}
    (read : ∀ l : Loader, l.readKey word =
      { l with currentKey := some word, expectingKey := false })
    (value : String) :
    l.run (entryEvents (word, .scalar value)) =
      { l with config := l.put word value l.config, currentKey := none } := by
  have written : l.run (entryEvents (word, .scalar value)) =
      { l with config := l.put word value l.config, currentKey := none, expectingKey := true } := by
    show (l.step (.scalar word)).step (.scalar value) = _
    rw [step_due due, read, step_notDue rfl]
    rfl
  rw [written, due]

end Loader

end Nblex
