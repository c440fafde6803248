import Nblex.Core.Config.ForeignKeys
import Nblex.Core.Config.Proofs.Losses

/-!
# Entries that read as scalars

The loader knows no levels: what an entry leaves behind is the flags it has set, the mappings it
has opened and closed, and whether a key is due. An entry that reads as a scalar leaves nothing
behind wherever a key is due but the last key, and the next key takes its place.
-/

namespace Nblex

mutual

theorem YamlNode.streamEnd_not_mem : ∀ node : YamlNode, .streamEnd ∉ node.events
  | .scalar value => by simp [YamlNode.events]
  | .alias => by simp [YamlNode.events]
  | .sequence items => by simp [YamlNode.events, streamEnd_not_mem_items items]
  | .mapping entries => by simp [YamlNode.events, streamEnd_not_mem_pairs entries]

theorem streamEnd_not_mem_items : ∀ items : List YamlNode, .streamEnd ∉ itemEvents items
  | [] => by simp [itemEvents]
  | item :: items => by
      simp [itemEvents, item.streamEnd_not_mem, streamEnd_not_mem_items items]

theorem streamEnd_not_mem_pairs :
    ∀ entries : List (YamlNode × YamlNode), .streamEnd ∉ pairEvents entries
  | [] => by simp [pairEvents]
  | (key, value) :: entries => by
      simp [pairEvents, key.streamEnd_not_mem, value.streamEnd_not_mem,
        streamEnd_not_mem_pairs entries]

end

mutual

/-- A mapping does not end in a node in which none begins. -/
theorem YamlNode.mappingEnd_not_mem :
    ∀ node : YamlNode, .mappingStart ∉ node.events → .mappingEnd ∉ node.events
  | .scalar value => by simp [YamlNode.events]
  | .alias => by simp [YamlNode.events]
  | .sequence items => by
      intro none
      have inItems := mappingEnd_not_mem_items items
      simp only [YamlNode.events, List.mem_cons, List.mem_append, List.not_mem_nil, or_false,
        reduceCtorEq, false_or] at none ⊢
      exact inItems none
  | .mapping entries => by simp [YamlNode.events]

theorem mappingEnd_not_mem_items :
    ∀ items : List YamlNode, .mappingStart ∉ itemEvents items → .mappingEnd ∉ itemEvents items
  | [] => by simp [itemEvents]
  | item :: items => by
      intro none
      have inItem := item.mappingEnd_not_mem
      have inItems := mappingEnd_not_mem_items items
      simp only [itemEvents, List.mem_append, not_or] at none ⊢
      exact ⟨inItem none.1, inItems none.2⟩

end

theorem streamEnd_not_mem_entry (entry : YamlEntry) : .streamEnd ∉ entryEvents entry := by
  simp [entryEvents, entry.2.streamEnd_not_mem]

theorem streamEnd_not_mem_entries (entries : List YamlEntry) :
    .streamEnd ∉ entries.flatMap entryEvents := by
  simp [List.mem_flatMap, streamEnd_not_mem_entry]

theorem streamEnd_not_mem_block (entries : List YamlEntry) : .streamEnd ∉ blockEvents entries := by
  simp only [blockEvents, List.mem_cons, List.mem_append, reduceCtorEq, false_or, List.not_mem_nil,
    or_false]
  exact streamEnd_not_mem_entries entries

theorem streamEnd_not_mem_blocks (blocks : List (List YamlEntry)) :
    .streamEnd ∉ blocks.flatMap blockEvents := by
  simp [List.mem_flatMap, streamEnd_not_mem_block]

theorem streamEnd_not_mem_inputs (entries : List InputsEntry) :
    .streamEnd ∉ entries.flatMap InputsEntry.events := by
  rw [List.mem_flatMap]
  rintro ⟨entry, -, member⟩
  cases entry with
  | items key inputs => simp [InputsEntry.events, streamEnd_not_mem_block] at member
  | other entry => exact streamEnd_not_mem_entry entry member

theorem streamEnd_not_mem_document (entries : List DocumentEntry) :
    .streamEnd ∉ entries.flatMap DocumentEntry.events := by
  rw [List.mem_flatMap]
  rintro ⟨entry, -, member⟩
  cases entry with
  | inputs entries =>
      have inEntries := streamEnd_not_mem_inputs entries
      rw [List.mem_flatMap] at inEntries
      simp [DocumentEntry.events, inEntries] at member
  | outputs items => simp [DocumentEntry.events, streamEnd_not_mem_block] at member
  | settings key entries => simp [DocumentEntry.events, streamEnd_not_mem_block] at member
  | other entry => exact streamEnd_not_mem_entry entry member

theorem ConfigPlace.streamEnd_not_mem (place : ConfigPlace) :
    .streamEnd ∉ place.eventsBefore := by
  cases place <;>
    simp only [eventsBefore, documentHead, List.mem_cons, List.mem_append, reduceCtorEq, false_or,
      streamEnd_not_mem_document, streamEnd_not_mem_inputs, streamEnd_not_mem_blocks,
      streamEnd_not_mem_entries, not_false_eq_true]

namespace Loader

/-- The loop goes on after events that do not end the stream. -/
theorem parse_append {events : List YamlEvent} (l : Loader) (inside : .streamEnd ∉ events)
    (later : List YamlEvent) : parse (events ++ later) l = parse later (l.run events) := by
  induction events generalizing l with
  | nil => rfl
  | cons event events ih =>
      rw [List.mem_cons, not_or] at inside
      obtain ⟨here, inside⟩ := inside
      rw [List.cons_append, parse, if_neg (Ne.symm here), run_cons]
      exact ih (l.step event) inside

theorem run_keyDue (l : Loader) (events : List YamlEvent) :
    (l.run events).expectingKey = keyDue l.expectingKey events := by
  induction events generalizing l with
  | nil => rfl
  | cons event events ih =>
      rw [run_cons, ih]
      cases event with
      | scalar value =>
          rw [step, keyDue]
          cases due : l.expectingKey <;> simp [readKey, readValue]
      | mappingStart => rw [step, openMapping_aligned, keyDue]
      | mappingEnd => rfl
      | _ => rfl

/-- A word that the loader does not act on is a key and nothing else. -/
theorem readKey_quiet {word : String} (quiet : word ∉ settingWords) (l : Loader) :
    l.readKey word = { l with currentKey := some word, expectingKey := false } := by
  apply readKey_plain
  rw [plainKey_iff]
  refine ⟨?_, ?_, ?_, ?_, ?_⟩ <;>
    · rintro rfl
      exact quiet (by decide)

/-- The loader in the middle of a value without mappings: it waits for a key, or for the value of
    the key it has read. -/
structure Waiting (pending : Option String) (l : Loader) : Prop where
  expectingKey : l.expectingKey = pending.isNone
  currentKey : l.currentKey = pending

theorem step_due {l : Loader} (due : l.expectingKey = true) (word : String) :
    l.step (.scalar word) = l.readKey word := if_pos due

theorem step_notDue {l : Loader} (notDue : l.expectingKey = false) (value : String) :
    l.step (.scalar value) = l.readValue value := if_neg (by simp [notDue])

theorem step_key {l : Loader} (due : l.expectingKey = true) {word : String}
    (quiet : word ∉ settingWords) :
    l.step (.scalar word) = { l with currentKey := some word, expectingKey := false } := by
  rw [step_due due, readKey_quiet quiet]

end Loader

open Loader

namespace ConfigPlace

/-- The loader at the place. -/
def loader (place : ConfigPlace) : Loader := ({} : Loader).run place.eventsBefore

theorem loader_expectingKey (place : ConfigPlace) : place.loader.expectingKey = place.due :=
  run_keyDue {} place.eventsBefore

theorem load_events (place : ConfigPlace) :
    nblexConfigLoadYaml place.events = parse place.eventsAfter place.loader :=
  parse_append {} place.streamEnd_not_mem _

theorem load_eventsWith (place : ConfigPlace) (entry : YamlEntry) :
    nblexConfigLoadYaml (place.eventsWith entry) =
      parse place.eventsAfter (place.loader.run (entryEvents entry)) := by
  rw [nblexConfigLoadYaml, eventsWith, parse_append {} place.streamEnd_not_mem,
    parse_append _ (streamEnd_not_mem_entry entry)]
  rfl

end ConfigPlace

end Nblex
