import Mathlib.Data.List.Basic

/-!
# Guarded runs

A machine whose steps may meet a guard in the state before them. If, in the states of an invariant,
what a step records is allowed just in case the step meets the guard, and guarded steps keep the
invariant, then what a run records is allowed just in case each of its steps meets the guard. And a
property that follows from an invariant of guarded steps and that other steps break for good holds
after a run just in case each step of the run meets the guard.
-/

namespace Nblex

namespace Guarded

variable {State Op Event : Type}

/-- Every step of the run meets the guard in the state before it. -/
def Meets (next : State → Op → State) (guard : State → Op → Prop) : State → List Op → Prop
  | _, [] => True
  | state, op :: ops => guard state op ∧ Meets next guard (next state op) ops

theorem meets_concat {next : State → Op → State} {guard : State → Op → Prop} {op : Op} :
    ∀ {ops : List Op} {state : State}, Meets next guard state (ops ++ [op]) ↔
      Meets next guard state ops ∧ guard (ops.foldl next state) op := by
  intro ops
  induction ops with
  | nil => exact fun {state} => ⟨fun met => ⟨trivial, met.1⟩, fun met => ⟨met.2, trivial⟩⟩
  | cons first ops ih =>
      intro state
      rw [List.cons_append, Meets, Meets, List.foldl_cons, ih, and_assoc]

/-- A run, with everything that is recorded. -/
def run (step : State → Op → State × List Event) : State → List Op → State × List Event
  | state, [] => (state, [])
  | state, op :: ops =>
      ((run step (step state op).1 ops).1, (step state op).2 ++ (run step (step state op).1 ops).2)

theorem run_allowed_iff {step : State → Op → State × List Event} {guard : State → Op → Prop}
    {allowed : Event → Prop} (Inv : State → Prop)
    (stepIff : ∀ state op, Inv state →
      ((∀ event ∈ (step state op).2, allowed event) ↔ guard state op))
    (keeps : ∀ state op, Inv state → guard state op → Inv (step state op).1)
    {state : State} (inv : Inv state) (ops : List Op) :
    (∀ event ∈ (run step state ops).2, allowed event) ↔
      Meets (fun state op => (step state op).1) guard state ops := by
  induction ops generalizing state with
  | nil => exact ⟨fun _ => trivial, fun _ => nofun⟩
  | cons op ops ih =>
      have here := stepIff state op inv
      constructor
      · intro all
        have guarded : guard state op :=
          here.mp (fun event member => all event (List.mem_append_left _ member))
        refine ⟨guarded, (ih (keeps state op inv guarded)).mp ?_⟩
        exact fun event member => all event (List.mem_append_right _ member)
      · rintro ⟨guarded, later⟩ event member
        rcases List.mem_append.mp member with first | rest
        · exact here.mpr guarded event first
        · exact (ih (keeps state op inv guarded)).mpr later event rest

section Kept

variable {next : State → Op → State} {guard : State → Op → Prop} {claimed : State → Prop}

theorem foldl_broken {broken : State → Prop}
    (stays : ∀ state op, broken state → broken (next state op)) {state : State}
    (lost : broken state) (ops : List Op) : broken (ops.foldl next state) := by
  induction ops generalizing state with
  | nil => exact lost
  | cons op ops ih => exact ih (stays state op lost)

theorem foldl_claimed_iff (Inv broken : State → Prop)
    (keeps : ∀ state op, Inv state → guard state op → Inv (next state op))
    (breaks : ∀ state op, Inv state → ¬guard state op → broken (next state op))
    (stays : ∀ state op, broken state → broken (next state op))
    (enough : ∀ state, Inv state → claimed state)
    (apart : ∀ state, broken state → ¬claimed state) {state : State} (inv : Inv state)
    (ops : List Op) : claimed (ops.foldl next state) ↔ Meets next guard state ops := by
  induction ops generalizing state with
  | nil => exact ⟨fun _ => trivial, fun _ => enough state inv⟩
  | cons op ops ih =>
      by_cases guarded : guard state op
      · exact (ih (keeps state op inv guarded)).trans ⟨fun rest => ⟨guarded, rest⟩, And.right⟩
      · refine ⟨fun final => absurd final (apart _ ?_), fun met => absurd met.1 guarded⟩
        exact foldl_broken stays (breaks state op inv guarded) ops

end Kept

end Guarded

end Nblex
