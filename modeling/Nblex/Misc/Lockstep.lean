import Nblex.Misc.Isolation
import Mathlib.Data.Option.Basic

/-!
# Two machines in step

Two machines of partial steps that a relation between their states keeps in step: where one is
undefined so is the other, and otherwise they emit the same.
-/

namespace Nblex

namespace Isolation

variable {State State' Op Op' Out : Type}

/-- The outcomes of two steps agree: both undefined, or the same emitted and the states
    related. -/
def Agree (related : State → State' → Prop) :
    Option (State × List Out) → Option (State' × List Out) → Prop :=
  Option.Rel (fun left right => related left.1 right.1 ∧ left.2 = right.2)

theorem Agree.cases {related : State → State' → Prop} {left : Option (State × List Out)}
    {right : Option (State' × List Out)} (agree : Agree related left right) :
    (left = none ∧ right = none) ∨ ∃ state state' emitted, left = some (state, emitted) ∧
      right = some (state', emitted) ∧ related state state' := by
  cases agree with
  | none => exact Or.inl ⟨rfl, rfl⟩
  | @some result result' both =>
      obtain ⟨state, emitted⟩ := result
      obtain ⟨state', emitted'⟩ := result'
      obtain ⟨next, rfl⟩ : related state state' ∧ emitted = emitted' := both
      exact Or.inr ⟨state, state', emitted, rfl, rfl, next⟩

/-- Machines in step at every operation are in step over every run. -/
theorem run_agree {step : State → Op → Option (State × List Out)}
    {step' : State' → Op' → Option (State' × List Out)} {related : State → State' → Prop}
    {Item : Type} (left : Item → Op) (right : Item → Op')
    (inStep : ∀ state state' item, related state state' →
      Agree related (step state (left item)) (step' state' (right item)))
    (items : List Item) :
    ∀ {state : State} {state' : State'}, related state state' →
      Agree related (run step state (items.map left)) (run step' state' (items.map right)) := by
  induction items with
  | nil =>
      intro state state' start
      exact Option.Rel.some ⟨start, rfl⟩
  | cons item items ih =>
      intro state state' start
      rw [List.map_cons, List.map_cons, run, run]
      rcases (inStep state state' item start).cases with
        ⟨first, second⟩ | ⟨next, next', emitted, first, second, inNext⟩
      · rw [first, second]
        exact Option.Rel.none
      · rw [first, second]
        dsimp only
        rcases (ih inNext).cases with
          ⟨rest, rest'⟩ | ⟨last, last', later, rest, rest', inLast⟩
        · rw [rest, rest']
          exact Option.Rel.none
        · rw [rest, rest']
          exact Option.Rel.some ⟨inLast, rfl⟩

end Isolation

end Nblex
