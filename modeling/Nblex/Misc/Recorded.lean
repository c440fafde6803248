import Nblex.Misc.Loop

/-!
# Recorded computations

A computation that records what it does on the way, such as the cells of a memory it reads. That
all records are allowed is the same for a sequence of computations as for each of them, given the
values of those before it; and for a loop under every bound on its turns, as for every turn the
loop comes to.
-/

namespace Nblex

/-- A value and what has been recorded. -/
structure Recorded (ε α : Type) where
  value : α
  trace : List ε

namespace Recorded

variable {ε α β σ ρ : Type}

instance : Monad (Recorded ε) where
  pure value := ⟨value, []⟩
  bind first next := ⟨(next first.value).value, first.trace ++ (next first.value).trace⟩

/-- A value that is recorded to have been taken. -/
def record (event : ε) (value : α) : Recorded ε α := ⟨value, [event]⟩

/-- Everything recorded is allowed. -/
def All (allowed : ε → Prop) (recorded : Recorded ε α) : Prop :=
  ∀ event ∈ recorded.trace, allowed event

@[simp] theorem value_pure (value : α) : (pure value : Recorded ε α).value = value := rfl

@[simp] theorem value_bind (first : Recorded ε α) (next : α → Recorded ε β) :
    (first >>= next).value = (next first.value).value := rfl

@[simp] theorem value_record (event : ε) (value : α) : (record event value).value = value := rfl

theorem value_ite (c : Prop) [Decidable c] (yes no : Recorded ε α) :
    (if c then yes else no).value = if c then yes.value else no.value := apply_ite value c yes no

variable {allowed : ε → Prop}

@[simp] theorem all_pure (value : α) : (pure value : Recorded ε α).All allowed := nofun

@[simp] theorem all_bind (first : Recorded ε α) (next : α → Recorded ε β) :
    (first >>= next).All allowed ↔ first.All allowed ∧ (next first.value).All allowed :=
  List.forall_mem_append

@[simp] theorem all_record (event : ε) (value : α) :
    (record event value).All allowed ↔ allowed event := List.forall_mem_singleton

/-- Only the records of the branch taken count. -/
theorem all_ite (c : Prop) [Decidable c] (yes no : Recorded ε α) :
    (if c then yes else no).All allowed ↔ (c → yes.All allowed) ∧ (¬c → no.All allowed) := by
  by_cases holds : c
  · rw [if_pos holds]
    exact ⟨fun all => ⟨fun _ => all, fun fails => absurd holds fails⟩, fun both => both.1 holds⟩
  · rw [if_neg holds]
    exact ⟨fun all => ⟨fun here => absurd here holds, fun _ => all⟩, fun both => both.2 holds⟩

/-! ## Loops -/

/-- A loop whose turns record. -/
def loop (turn : σ → Recorded ε (Turn σ ρ)) : Nat → σ → Recorded ε (Option ρ)
  | 0, _ => pure none
  | fuel + 1, state => do
      match ← turn state with
      | .leave result => pure (some result)
      | .again state => loop turn fuel state

variable {turn : σ → Recorded ε (Turn σ ρ)}

/-- The value is that of the loop without records. -/
theorem loop_value (turn : σ → Recorded ε (Turn σ ρ)) (fuel : Nat) (state : σ) :
    (loop turn fuel state).value = runLoop (fun state => (turn state).value) fuel state := by
  induction fuel generalizing state with
  | zero => rfl
  | succ fuel ih =>
      rw [loop, runLoop, value_bind]
      cases (turn state).value with
      | leave result => rfl
      | again next => exact ih next

/-- Under every bound everything recorded is allowed, just in case it is in every turn that the
    loop comes to. -/
theorem loop_all_iff {state : σ} :
    (∀ fuel, (loop turn fuel state).All allowed) ↔
      ∀ later, Reaches (fun state => (turn state).value) state later →
        (turn later).All allowed := by
  constructor
  · intro all later reaches
    have here : ∀ fuel, (loop turn fuel later).All allowed := by
      induction reaches with
      | refl => exact all
      | @tail before after _ step ih =>
          intro fuel
          have turned : (turn before).value = .again after := step
          have behind := ((all_bind _ _).mp (ih (fuel + 1))).2
          rw [turned] at behind
          exact behind
    exact ((all_bind _ _).mp (here 1)).1
  · intro all fuel
    induction fuel generalizing state with
    | zero => exact all_pure none
    | succ fuel ih =>
        refine (all_bind _ _).mpr ⟨all state .refl, ?_⟩
        cases turned : (turn state).value with
        | leave result => exact all_pure _
        | again next =>
            exact ih (fun later reaches => all later (.head turned reaches))

/-- What is recorded under a bound is recorded under a greater one. -/
theorem loop_all_of_more {fuel more : Nat} : ∀ {state : σ},
    (loop turn (fuel + more) state).All allowed → (loop turn fuel state).All allowed := by
  induction fuel with
  | zero => exact fun _ => all_pure none
  | succ fuel ih =>
      intro state all
      rw [Nat.add_right_comm] at all
      obtain ⟨here, behind⟩ := (all_bind _ _).mp all
      refine (all_bind _ _).mpr ⟨here, ?_⟩
      cases turned : (turn state).value with
      | leave result => exact all_pure _
      | again next =>
          rw [turned] at behind
          exact ih behind

/-! ## Memories -/

variable {ι κ : Type}

/-- The computation is the same on a memory that agrees in the cells it has recorded. -/
def ReadsRecorded (run : (ι → κ) → Recorded ι α) : Prop :=
  ∀ memory memory', (∀ i ∈ (run memory).trace, memory i = memory' i) → run memory' = run memory

theorem readsRecorded_pure (value : α) :
    ReadsRecorded fun _ : ι → κ => (pure value : Recorded ι α) := fun _ _ _ => rfl

theorem ReadsRecorded.bind {first : (ι → κ) → Recorded ι α} {next : (ι → κ) → α → Recorded ι β}
    (reads : ReadsRecorded first)
    (readsNext : ∀ value, ReadsRecorded fun memory => next memory value) :
    ReadsRecorded fun memory => first memory >>= next memory := by
  intro memory memory' agree
  have same := reads memory memory' fun i read => agree i (List.mem_append_left _ read)
  have sameNext : next memory' (first memory).value = next memory (first memory).value :=
    readsNext (first memory).value memory memory' fun i read =>
      agree i (List.mem_append_right _ read)
  show (first memory' >>= next memory') = (first memory >>= next memory)
  rw [same]
  show (⟨_, _⟩ : Recorded ι β) = ⟨_, _⟩
  rw [sameNext]

/-- A condition that does not look at the memory. -/
theorem ReadsRecorded.ite {c : Prop} [Decidable c] {yes no : (ι → κ) → Recorded ι α}
    (readsYes : ReadsRecorded yes) (readsNo : ReadsRecorded no) :
    ReadsRecorded fun memory => if c then yes memory else no memory := by
  by_cases holds : c
  · simpa only [if_pos holds] using readsYes
  · simpa only [if_neg holds] using readsNo

theorem readsRecorded_loop {turn : (ι → κ) → σ → Recorded ι (Turn σ ρ)}
    (reads : ∀ state, ReadsRecorded fun memory => turn memory state) (fuel : Nat) :
    ∀ state, ReadsRecorded fun memory => loop (turn memory) fuel state := by
  induction fuel with
  | zero => exact fun _ => readsRecorded_pure none
  | succ fuel ih =>
      intro state
      apply (reads state).bind
      rintro (result | next)
      · exact readsRecorded_pure _
      · exact ih next

end Recorded

end Nblex
