import Mathlib.Data.List.Basic

/-!
# Isolation in a run of partial steps

A machine takes operations one after the other and emits on the way; a step may fail. An observer
sees a part of its state and of what it emits. If the operations of others change nothing that
the observer sees, and the observer's own do to what it sees what the part it sees determines, then
the observer sees the same in a run and in that run without the operations of others.
-/

namespace Nblex

namespace Isolation

variable {State Op Out View Seen : Type}

/-- A run of partial steps, with everything emitted on the way. -/
def run (step : State → Op → Option (State × List Out)) :
    State → List Op → Option (State × List Out)
  | state, [] => some (state, [])
  | state, op :: ops =>
      match step state op with
      | none => none
      | some (next, emitted) =>
          (run step next ops).map (fun result => (result.1, emitted ++ result.2))

/-- What makes a machine look the same to an observer without the operations of others. -/
structure Isolated (step : State → Op → Option (State × List Out)) (Inv : State → Prop)
    (Valid : Op → Prop) (mine : Op → Bool) (view : State → View) (see : Out → Option Seen) :
    Prop where
  keeps : ∀ {state op next emitted}, Inv state → Valid op →
    step state op = some (next, emitted) → Inv next
  respects : ∀ {state op next emitted}, Inv state → Valid op → mine op = false →
    step state op = some (next, emitted) →
    view next = view state ∧ emitted.filterMap see = []
  consistent : ∀ {state other op next emitted}, Inv state → Inv other → Valid op →
    mine op = true → view state = view other → step state op = some (next, emitted) →
    ∃ next' emitted', step other op = some (next', emitted') ∧ view next = view next' ∧
      emitted.filterMap see = emitted'.filterMap see

variable {step : State → Op → Option (State × List Out)} {Inv : State → Prop} {Valid : Op → Prop}
  {mine : Op → Bool} {view : State → View} {see : Out → Option Seen}

theorem run_cons {state last : State} {op : Op} {ops : List Op} {emitted : List Out}
    (ran : run step state (op :: ops) = some (last, emitted)) :
    ∃ next first rest, step state op = some (next, first) ∧ run step next ops = some (last, rest) ∧
      emitted = first ++ rest := by
  rw [run] at ran
  cases stepped : step state op with
  | none =>
      rw [stepped] at ran
      cases ran
  | some result =>
      obtain ⟨next, first⟩ := result
      rw [stepped] at ran
      obtain ⟨⟨last', rest⟩, later, same⟩ := Option.map_eq_some_iff.mp ran
      obtain ⟨rfl, rfl⟩ := Prod.mk.inj same
      exact ⟨next, first, rest, rfl, later, rfl⟩

theorem Isolated.run_keeps (isolated : Isolated step Inv Valid mine view see) {ops : List Op} :
    ∀ {state last : State} {emitted : List Out}, Inv state → (∀ op ∈ ops, Valid op) →
      run step state ops = some (last, emitted) → Inv last := by
  induction ops with
  | nil =>
      intro state last emitted inv valid ran
      obtain ⟨rfl, -⟩ := Prod.mk.inj (Option.some.inj ran)
      exact inv
  | cons op ops ih =>
      intro state last emitted inv valid ran
      obtain ⟨validHere, validLater⟩ := List.forall_mem_cons.mp valid
      obtain ⟨next, first, rest, stepped, later, -⟩ := run_cons ran
      exact ih (isolated.keeps inv validHere stepped) validLater later

/-- The observer sees the same without the operations of others. -/
theorem Isolated.run_filter (isolated : Isolated step Inv Valid mine view see) {ops : List Op} :
    ∀ {state other last : State} {emitted : List Out}, Inv state → Inv other →
      (∀ op ∈ ops, Valid op) → view state = view other →
      run step state ops = some (last, emitted) →
      ∃ last' emitted', run step other (ops.filter mine) = some (last', emitted') ∧
        view last = view last' ∧ emitted.filterMap see = emitted'.filterMap see := by
  induction ops with
  | nil =>
      intro state other last emitted inv invOther valid same ran
      obtain ⟨rfl, rfl⟩ := Prod.mk.inj (Option.some.inj ran)
      exact ⟨other, [], rfl, same, rfl⟩
  | cons op ops ih =>
      intro state other last emitted inv invOther valid same ran
      obtain ⟨next, first, rest, stepped, later, rfl⟩ := run_cons ran
      have validHere : Valid op := valid op List.mem_cons_self
      have validLater : ∀ o ∈ ops, Valid o := fun o member =>
        valid o (List.mem_cons_of_mem _ member)
      have invNext : Inv next := isolated.keeps inv validHere stepped
      by_cases own : mine op = true
      · obtain ⟨next', first', stepped', sameNext, sameFirst⟩ :=
          isolated.consistent inv invOther validHere own same stepped
        have invNext' : Inv next' := isolated.keeps invOther validHere stepped'
        obtain ⟨last', rest', later', sameLast, sameRest⟩ :=
          ih invNext invNext' validLater sameNext later
        refine ⟨last', first' ++ rest', ?_, sameLast, ?_⟩
        · rw [List.filter_cons_of_pos own, run, stepped']
          simp only [later', Option.map_some]
        · rw [List.filterMap_append, List.filterMap_append, sameFirst, sameRest]
      · rw [Bool.not_eq_true] at own
        obtain ⟨sameNext, unseen⟩ := isolated.respects inv validHere own stepped
        obtain ⟨last', rest', later', sameLast, sameRest⟩ :=
          ih invNext invOther validLater (sameNext.trans same) later
        refine ⟨last', rest', ?_, sameLast, ?_⟩
        · rw [List.filter_cons_of_neg (by rw [own]; exact Bool.false_ne_true)]
          exact later'
        · rw [List.filterMap_append, unseen, List.nil_append, sameRest]

/-! ## Guarded steps -/

/-- A step where it meets a guard, and a failure where it does not. -/
def guarded (guard : State → Op → Prop) [∀ state op, Decidable (guard state op)]
    (step : State → Op → Option (State × List Out)) (state : State) (op : Op) :
    Option (State × List Out) :=
  if guard state op then step state op else none

variable {guard : State → Op → Prop} [∀ state op, Decidable (guard state op)]

theorem guarded_eq_some {state next : State} {op : Op} {emitted : List Out} :
    guarded guard step state op = some (next, emitted) ↔
      guard state op ∧ step state op = some (next, emitted) := by
  rw [guarded]
  by_cases met : guard state op
  · rw [if_pos met]
    exact ⟨fun stepped => ⟨met, stepped⟩, And.right⟩
  · rw [if_neg met]
    exact ⟨nofun, fun both => absurd both.1 met⟩

/-- A run whose guarded steps succeed is a run. -/
theorem run_of_guarded {ops : List Op} :
    ∀ {state last : State} {emitted : List Out},
      run (guarded guard step) state ops = some (last, emitted) →
      run step state ops = some (last, emitted) := by
  induction ops with
  | nil =>
      intro state last emitted ran
      exact ran
  | cons op ops ih =>
      intro state last emitted ran
      obtain ⟨next, first, rest, stepped, later, rfl⟩ := run_cons ran
      rw [run, (guarded_eq_some.mp stepped).2]
      simp only [ih later, Option.map_some]

end Isolation

end Nblex
