import Mathlib.Data.Fintype.Card
import Mathlib.Data.Set.Finite.Basic
import Mathlib.Logic.Relation
import Mathlib.Tactic.Common

/-!
# Loops that may not end

A loop is a function that makes one turn of it: it leaves with a result or goes on with another
state. Fuel bounds the turns that are made; a loop that leaves does so with the same result
whatever fuel is left.
-/

namespace Nblex

/-- What a turn of a loop does. -/
inductive Turn (σ ρ : Type) where
  | leave (result : ρ)
  | again (state : σ)

section Loop

variable {σ ρ : Type} (turn : σ → Turn σ ρ)

/-- The loop from a state; `none` if the fuel is spent first. -/
def runLoop : Nat → σ → Option ρ
  | 0, _ => none
  | fuel + 1, state =>
      match turn state with
      | .leave result => some result
      | .again state => runLoop fuel state

/-- The loop ends. -/
def Halts (state : σ) : Prop := ∃ fuel, (runLoop turn fuel state).isSome

/-- A turn leads from one state to the next. -/
def GoesOn (state next : σ) : Prop := turn state = .again next

variable {turn}

theorem runLoop_leave {state : σ} {result : ρ} (leaves : turn state = .leave result)
    (fuel : Nat) : runLoop turn (fuel + 1) state = some result := by
  rw [runLoop, leaves]

theorem runLoop_again {state next : σ} (again : turn state = .again next) (fuel : Nat) :
    runLoop turn (fuel + 1) state = runLoop turn fuel next := by
  rw [runLoop, again]

/-- More fuel does not change a result. -/
theorem runLoop_more {fuel : Nat} {state : σ} {result : ρ}
    (done : runLoop turn fuel state = some result) (more : Nat) :
    runLoop turn (fuel + more) state = some result := by
  induction fuel generalizing state with
  | zero => cases done
  | succ fuel ih =>
      rw [Nat.add_right_comm]
      cases step : turn state with
      | leave value =>
          rw [runLoop_leave step] at done ⊢
          exact done
      | again next =>
          rw [runLoop_again step] at done ⊢
          exact ih done

/-- The result does not depend on the fuel. -/
theorem runLoop_unique {fuel fuel' : Nat} {state : σ} {result result' : ρ}
    (done : runLoop turn fuel state = some result)
    (done' : runLoop turn fuel' state = some result') :
    result = result' := by
  have more := runLoop_more done fuel'
  have more' := runLoop_more done' fuel
  rw [Nat.add_comm] at more'
  exact Option.some.inj (more.symm.trans more')

theorem halts_of_leave {state : σ} {result : ρ} (leaves : turn state = .leave result) :
    Halts turn state := by
  refine ⟨1, ?_⟩
  rw [runLoop_leave leaves]
  rfl

theorem halts_again_iff {state next : σ} (again : turn state = .again next) :
    Halts turn state ↔ Halts turn next := by
  constructor
  · rintro ⟨fuel, done⟩
    cases fuel with
    | zero => cases done
    | succ fuel =>
        rw [runLoop_again again] at done
        exact ⟨fuel, done⟩
  · rintro ⟨fuel, done⟩
    refine ⟨fuel + 1, ?_⟩
    rw [runLoop_again again]
    exact done

/-- States from which every turn leads back into them are never left. -/
theorem not_halts_of_closed {stuck : σ → Prop}
    (closed : ∀ state, stuck state → ∃ next, turn state = .again next ∧ stuck next) {state : σ}
    (here : stuck state) : ¬ Halts turn state := by
  rintro ⟨fuel, done⟩
  induction fuel generalizing state with
  | zero => cases done
  | succ fuel ih =>
      obtain ⟨next, step, there⟩ := closed state here
      rw [runLoop_again step] at done
      exact ih there done

/-- Induction over the turns of a loop that ends. -/
theorem Halts.induct {motive : σ → Prop}
    (leave : ∀ state result, turn state = .leave result → motive state)
    (again : ∀ state next, turn state = .again next → motive next → motive state) {state : σ}
    (halts : Halts turn state) : motive state := by
  obtain ⟨fuel, done⟩ := halts
  induction fuel generalizing state with
  | zero => cases done
  | succ fuel ih =>
      cases step : turn state with
      | leave result => exact leave state result step
      | again next =>
          rw [runLoop_again step] at done
          exact again state next step (ih done)

/-! ## Cycles -/

/-- States that turns lead to from a state. -/
def Reaches (turn : σ → Turn σ ρ) : σ → σ → Prop := Relation.ReflTransGen (GoesOn turn)

/-- Turns lead back to the state. -/
def OnCycle (turn : σ → Turn σ ρ) (state : σ) : Prop := Relation.TransGen (GoesOn turn) state state

theorem Halts.reaches {state later : σ} (halts : Halts turn state)
    (reaches : Reaches turn state later) : Halts turn later := by
  induction reaches with
  | refl => exact halts
  | tail _ step ih => exact (halts_again_iff step).mp ih

theorem OnCycle.next {state : σ} (cycle : OnCycle turn state) :
    ∃ next, turn state = .again next ∧ OnCycle turn next := by
  obtain ⟨next, step, back⟩ := Relation.TransGen.head'_iff.mp cycle
  exact ⟨next, step, Relation.TransGen.tail' back step⟩

theorem OnCycle.not_halts {state : σ} (cycle : OnCycle turn state) : ¬ Halts turn state :=
  not_halts_of_closed (fun _ here => here.next) cycle

/-- A run that ends leaves from a state that the turns lead to. -/
theorem runLoop_iff_reaches {state : σ} {result : ρ} :
    (∃ fuel, runLoop turn fuel state = some result) ↔
      ∃ last, Reaches turn state last ∧ turn last = .leave result := by
  constructor
  · rintro ⟨fuel, done⟩
    induction fuel generalizing state with
    | zero => cases done
    | succ fuel ih =>
        cases step : turn state with
        | leave value =>
            rw [runLoop_leave step] at done
            rw [Option.some.inj done] at step
            exact ⟨state, .refl, step⟩
        | again next =>
            rw [runLoop_again step] at done
            obtain ⟨last, reaches, leaves⟩ := ih done
            exact ⟨last, .head step reaches, leaves⟩
  · rintro ⟨last, reaches, leaves⟩
    induction reaches using Relation.ReflTransGen.head_induction_on with
    | refl => exact ⟨1, runLoop_leave leaves 0⟩
    | head step _ ih =>
        obtain ⟨fuel, done⟩ := ih
        exact ⟨fuel + 1, by rw [runLoop_again step, done]⟩

/-- A loop that comes to finitely many states ends unless it comes to a cycle. -/
theorem halts_iff_acyclic {state : σ} (finite : {later | Reaches turn state later}.Finite) :
    Halts turn state ↔ ∀ later, Reaches turn state later → ¬ OnCycle turn later := by
  constructor
  · intro halts later reaches cycle
    exact cycle.not_halts (halts.reaches reaches)
  · intro acyclic
    let Place := {later // Reaches turn state later}
    have : Finite Place := finite
    let Before : Place → Place → Prop := fun x y => Relation.TransGen (GoesOn turn) y.val x.val
    have : IsTrans Place Before := ⟨fun x y z first second => second.trans first⟩
    have : Std.Irrefl Before := ⟨fun x cycle => acyclic x.val x.property cycle⟩
    have wellFounded : WellFounded Before := Finite.wellFounded_of_trans_of_irrefl Before
    have all : ∀ place : Place, Halts turn place.val := by
      intro place
      induction place using wellFounded.induction with
      | _ place ih =>
          cases step : turn place.val with
          | leave result => exact halts_of_leave step
          | again next =>
              have goesOn : GoesOn turn place.val next := step
              have there : Reaches turn state next := place.property.tail goesOn
              exact (halts_again_iff step).mpr (ih ⟨next, there⟩ (.single goesOn))
    exact all ⟨state, .refl⟩

end Loop

end Nblex
