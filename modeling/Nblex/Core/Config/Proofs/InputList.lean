import Nblex.Core.Config.Apply
import Nblex.Misc.Guarded

/-!
# The input list of a world

The array of inputs of a world holds the inputs that have been created, in the order of their
creation, exactly as long as no packet input is created and the array grows whenever a file input
needs room: `nblex_input_pcap_new` does not add its input to the world, and `nblex_input_file_new`
returns an input that could not be added.
-/

namespace Nblex

section Inputs

variable [Pcre2]

/-- A call of a constructor, or of a part of `nblex_config_apply`. -/
inductive InputStep where
  | file (path : String) (allocs : InputAllocs)
  | pcap (interface : String) (allocs : InputAllocs)
  | settings (config : NblexConfig)
  | input (cfg : NblexInputConfig) (allocs : InputAllocs)

/-- One step on a world. -/
def inputStep (world : InputWorld) : InputStep → InputWorld
  | .file path allocs => (nblexInputFileNew world path allocs).1
  | .pcap interface allocs => (nblexInputPcapNew world interface allocs).1
  | .settings config => applyCorrelation config world
  | .input cfg allocs => applyInput world cfg allocs

omit [Pcre2] in
/-- The steps of a call. -/
def InputOp.steps : InputOp → List InputStep
  | .file path allocs => [.file path allocs]
  | .pcap interface allocs => [.pcap interface allocs]
  | .configure config allocs =>
      .settings config :: config.inputs.zipIdx.map (fun cfg => .input cfg.1 (allocs cfg.2))

theorem inputRun_steps (world : InputWorld) (ops : List InputOp) :
    inputRun world ops = (ops.flatMap InputOp.steps).foldl inputStep world := by
  induction ops generalizing world with
  | nil => rfl
  | cons op ops ih =>
      have here : inputOpStep world op = op.steps.foldl inputStep world := by
        cases op with
        | file path allocs => rfl
        | pcap interface allocs => rfl
        | configure config allocs =>
            rw [InputOp.steps, List.foldl_cons, List.foldl_map]
            rfl
      rw [List.flatMap_cons, List.foldl_append, ← here]
      exact ih _

/-- The type of the input that a step creates, with the outcomes of its allocations. -/
def InputStep.creates : InputStep → Option (InputType × InputAllocs)
  | .file _ allocs => some (.file, allocs)
  | .pcap _ allocs => some (.pcap, allocs)
  | .settings _ => none
  | .input cfg allocs => cfg.constructor.map (fun call => (call.1, allocs))

/-- If the step creates an input, it is a file input, and the array has room for it or grows. -/
def Registers (world : InputWorld) (step : InputStep) : Prop :=
  ∀ type allocs, step.creates = some (type, allocs) → allocs.object = true →
    type = .file ∧ (world.inputs.length < world.inputsCapacity ∨ allocs.array = true)

/-- The inputs of the world are those that have been created, in the order of their creation. -/
def Registered (world : InputWorld) : Prop := world.inputs = List.range world.objects.length

omit [Pcre2] in
/-- What becomes of a world in a step: no input is created, one is created and added to the array,
    or, if the step does not register it, one is created that the array does not hold. -/
def Fate (registers : Prop) (world next : InputWorld) : Prop :=
  (registers ∧ next.inputs = world.inputs ∧ next.objects.length = world.objects.length) ∨
  (registers ∧ next.inputs = world.inputs ++ [world.objects.length] ∧
    next.objects.length = world.objects.length + 1) ∨
  (¬registers ∧ next.inputs = world.inputs ∧
    next.objects.length = world.objects.length + 1)

omit [Pcre2] in
/-- A change of the objects that are there. -/
def Alters (world next : InputWorld) : Prop :=
  next.inputs = world.inputs ∧ next.objects.length = world.objects.length

omit [Pcre2] in
theorem Fate.alter {registers : Prop} {world next final : InputWorld}
    (fate : Fate registers world next) (alters : Alters next final) :
    Fate registers world final := by
  obtain ⟨inputs, objects⟩ := alters
  rw [Fate, inputs, objects]
  exact fate

omit [Pcre2] in
theorem update_alters (world : InputWorld) (input : Nat) (f : NblexInput → NblexInput) :
    Alters world (world.update input f) := ⟨rfl, List.length_modify f _ _⟩

theorem applyFilter_alters (cfg : NblexInputConfig) (world : InputWorld) (input : Option Nat) :
    Alters world (applyFilter cfg (world, input)) := by
  unfold applyFilter
  split
  · unfold nblexInputSetFilter
    split
    · exact update_alters _ _ _
    · split
      · exact ⟨rfl, rfl⟩
      · exact update_alters _ _ _
  · exact ⟨rfl, rfl⟩

omit [Pcre2] in
theorem nblexInputFileNew_fate (world : InputWorld) (path : String) (allocs : InputAllocs) :
    Fate (allocs.object = true →
        world.inputs.length < world.inputsCapacity ∨ allocs.array = true)
      world (nblexInputFileNew world path allocs).1 := by
  unfold nblexInputFileNew
  by_cases object : allocs.object = true
  · rw [if_pos object]
    have objects : (world.create (nblexInputNew .file path)).objects.length =
        world.objects.length + 1 := by
      rw [InputWorld.create, List.length_append, List.length_singleton]
    unfold nblexWorldAddInput
    split
    · rename_i room
      exact Or.inr (Or.inl ⟨fun _ => Or.inl room, rfl, objects⟩)
    · rename_i full
      split
      · rename_i array
        exact Or.inr (Or.inl ⟨fun _ => Or.inr array, rfl, objects⟩)
      · rename_i failed
        exact Or.inr (Or.inr ⟨fun fits => (fits object).elim full failed, rfl, objects⟩)
  · rw [if_neg object]
    exact Or.inl ⟨fun made => absurd made object, rfl, rfl⟩

omit [Pcre2] in
theorem nblexInputPcapNew_fate (world : InputWorld) (interface : String)
    (allocs : InputAllocs) :
    Fate (allocs.object = false) world (nblexInputPcapNew world interface allocs).1 := by
  unfold nblexInputPcapNew
  cases allocs.object with
  | false => exact Or.inl ⟨rfl, rfl, rfl⟩
  | true => exact Or.inr (Or.inr ⟨nofun, rfl, by simp [InputWorld.create]⟩)

omit [Pcre2] in
theorem registers_file {world : InputWorld} {step : InputStep} {allocs : InputAllocs}
    (creates : step.creates = some (.file, allocs)) :
    Registers world step ↔
      (allocs.object = true →
        world.inputs.length < world.inputsCapacity ∨ allocs.array = true) := by
  rw [Registers, creates]
  constructor
  · exact fun all made => (all .file allocs rfl made).2
  · rintro fits type allocs same made
    obtain ⟨rfl, rfl⟩ := Prod.mk.inj (Option.some.inj same)
    exact ⟨rfl, fits made⟩

omit [Pcre2] in
theorem registers_other {world : InputWorld} {step : InputStep} {type : InputType}
    {allocs : InputAllocs} (creates : step.creates = some (type, allocs))
    (other : type ≠ .file) : Registers world step ↔ allocs.object = false := by
  rw [Registers, creates]
  constructor
  · intro all
    by_contra made
    exact other (all type allocs rfl (Bool.not_eq_false _ ▸ made)).1
  · rintro none type allocs same made
    obtain ⟨rfl, rfl⟩ := Prod.mk.inj (Option.some.inj same)
    rw [none] at made
    cases made

omit [Pcre2] in
theorem registers_none {world : InputWorld} {step : InputStep} (creates : step.creates = none) :
    Registers world step := by
  intro type allocs same
  rw [creates] at same
  cases same

theorem inputStep_fate (world : InputWorld) (step : InputStep) :
    Fate (Registers world step) world (inputStep world step) := by
  cases step with
  | file path allocs =>
      rw [propext (registers_file rfl)]
      exact nblexInputFileNew_fate world path allocs
  | pcap interface allocs =>
      have creates : InputStep.creates (.pcap interface allocs) = some (.pcap, allocs) := rfl
      rw [propext (registers_other creates nofun)]
      exact nblexInputPcapNew_fate world interface allocs
  | settings config =>
      refine Or.inl ⟨registers_none rfl, ?_⟩
      show Alters world (applyCorrelation config world)
      unfold applyCorrelation
      split <;> exact ⟨rfl, rfl⟩
  | input cfg allocs =>
      show Fate (Registers world (.input cfg allocs)) world (applyInput world cfg allocs)
      unfold applyInput
      cases call : cfg.constructor with
      | none =>
          have creates : InputStep.creates (.input cfg allocs) = none := by
            rw [InputStep.creates, call]
            rfl
          exact Or.inl ⟨registers_none creates, rfl, rfl⟩
      | some made =>
          obtain ⟨type, location⟩ := made
          have creates : InputStep.creates (.input cfg allocs) = some (type, allocs) := by
            rw [InputStep.creates, call]
            rfl
          have packet : type ≠ .file → Fate (Registers world (.input cfg allocs)) world
              (applyFilter cfg (nblexInputPcapNew world location allocs)) := by
            intro other
            rw [propext (registers_other creates other)]
            exact (nblexInputPcapNew_fate world location allocs).alter
              (applyFilter_alters cfg _ _)
          cases type with
          | file =>
              rw [propext (registers_file creates)]
              refine ((nblexInputFileNew_fate world location allocs).alter ?_).alter
                (applyFilter_alters cfg _ _)
              split
              · exact update_alters _ _ _
              · exact ⟨rfl, rfl⟩
          | syslog => exact packet nofun
          | pcap => exact packet nofun
          | socket => exact packet nofun

/-! ## Runs -/

theorem registered_step {world : InputWorld} (registered : Registered world) (step : InputStep)
    (registers : Registers world step) : Registered (inputStep world step) := by
  unfold Registered at registered ⊢
  rcases inputStep_fate world step with ⟨-, inputs, objects⟩ | ⟨-, inputs, objects⟩ | ⟨fails, -⟩
  · rw [inputs, objects, registered]
  · rw [inputs, objects, registered, List.range_succ]
  · exact absurd registers fails

/-- Fewer inputs are in the array than have been created. -/
def Misses (world : InputWorld) : Prop := world.inputs.length < world.objects.length

theorem misses_of_not_registers {world : InputWorld} (registered : Registered world)
    (step : InputStep) (fails : ¬Registers world step) : Misses (inputStep world step) := by
  rcases inputStep_fate world step with ⟨holds, -⟩ | ⟨holds, -⟩ | ⟨-, inputs, objects⟩
  · exact absurd holds fails
  · exact absurd holds fails
  · rw [Misses, inputs, objects, registered, List.length_range]
    exact Nat.lt_succ_self _

theorem misses_step {world : InputWorld} (step : InputStep) (misses : Misses world) :
    Misses (inputStep world step) := by
  unfold Misses at misses ⊢
  rcases inputStep_fate world step with ⟨-, inputs, objects⟩ | ⟨-, inputs, objects⟩ |
    ⟨-, inputs, objects⟩
  · rwa [inputs, objects]
  · rw [inputs, objects, List.length_append]
    exact Nat.succ_lt_succ misses
  · rw [inputs, objects]
    exact Nat.lt_succ_of_lt misses

/-- After a sequence of calls the array of inputs holds the inputs that have been created, in the
    order of their creation, just in case every step registers what it creates. -/
theorem registered_iff (correlation : Option Correlation) (ops : List InputOp) :
    Registered (inputRun (newInputWorld correlation) ops) ↔
      Guarded.Meets inputStep Registers (newInputWorld correlation)
        (ops.flatMap InputOp.steps) := by
  have start : Registered (newInputWorld correlation) := rfl
  rw [inputRun_steps]
  refine Guarded.foldl_claimed_iff Registered Misses
    (fun _ step holds => registered_step holds step)
    (fun _ step holds => misses_of_not_registers holds step) (fun _ step => misses_step step)
    (fun _ holds => holds) ?_ start _
  intro world misses registered
  rw [Misses, registered, List.length_range] at misses
  exact Nat.lt_irrefl _ misses

end Inputs

/-- A packet input that is created is not in the array. -/
theorem pcap_not_registered :
    ¬∀ ops : List InputOp, Registered (@inputRun literalPcre2 (newInputWorld none) ops) := by
  intro all
  have missing : _ = List.range 2 :=
    all [.file "/var/log/app.log" ⟨true, true⟩, .pcap "eth0" ⟨true, true⟩]
  exact absurd missing (by decide)

end Nblex
