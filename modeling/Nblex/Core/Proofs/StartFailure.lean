import Nblex.Core.NblexWorld

/-!
# A start that fails

`nblex_world_start` returns at the first input that fails and undoes nothing: the timer of the
engine keeps running, and so do the inputs before the one that failed, in a world that is not
started.
-/

namespace Nblex

namespace Lifecycle

/-- The call gets past its guards and the engine, and an input fails. -/
def InputFails (world : World AnyInput) (outcomes : StartOutcomes AnyOutcomes) : Prop :=
  world.correlation.isSome = true ∧ world.started = false ∧
    outcomes.timerInit = true ∧ outcomes.timerStart = true ∧
    ∃ i, ∃ input : AnyInput, world.inputs[i]? = some input ∧
      input.startable (outcomes.inputs i) = false

/-- If the call returns non-zero because an input fails, no input is left started, the timer of the
    engine is not left running, and the world is not started. -/
def AllOrNothing (world : World AnyInput) (outcomes : StartOutcomes AnyOutcomes) : Prop :=
  (worldStart anyInputVtable world outcomes).1 ≠ 0 → InputFails world outcomes →
    (∀ input ∈ (worldStart anyInputVtable world outcomes).2.1.inputs,
      input.isStarted = false) ∧
    (∀ corr ∈ (worldStart anyInputVtable world outcomes).2.1.correlation,
      corr.cleanupTimer ≠ .active) ∧
    (worldStart anyInputVtable world outcomes).2.1.started = false

theorem start_startable (outcomes : AnyOutcomes) (input : AnyInput) :
    (anyInputVtable.start outcomes input).1 = input.startable outcomes := by
  cases input with
  | file data =>
      show (fileInputStart outcomes.file data).1 = outcomes.file.fopen
      unfold fileInputStart
      cases outcomes.file.fopen <;> rfl
  | pcap data =>
      show (pcapInputStart outcomes.pcap data).1 = AnyInput.startable outcomes (.pcap data)
      simp only [pcapInputStart, AnyInput.startable]
      cases outcomes.pcap.openLive <;> cases outcomes.pcap.setnonblock <;>
        cases outcomes.pcap.selectableFd <;> cases outcomes.pcap.pollInit <;>
        cases outcomes.pcap.pollStart <;> rfl

theorem start_isStarted {outcomes : AnyOutcomes} {input : AnyInput}
    (startable : input.startable outcomes = true) :
    (anyInputVtable.start outcomes input).2.1.isStarted = true := by
  cases input with
  | file data =>
      have fopen : outcomes.file.fopen = true := startable
      show (fileInputStart outcomes.file data).2.1.watching = true
      rw [fileInputStart, if_pos fopen]
  | pcap data =>
      simp only [AnyInput.startable, Bool.and_eq_true] at startable
      obtain ⟨⟨⟨⟨openLive, setnonblock⟩, selectableFd⟩, pollInit⟩, pollStart⟩ := startable
      show (pcapInputStart outcomes.pcap data).2.1.capturing = true
      simp [pcapInputStart, openLive, setnonblock, selectableFd, pollInit, pollStart]

/-- The loop over the inputs ends at the first one that fails; those before it are started and
    those after it are not touched. -/
theorem startInputs_fails (outcomes : Nat → AnyOutcomes) :
    ∀ (inputs : List AnyInput) (i : Nat),
      (∃ k, ∃ input : AnyInput, inputs[k]? = some input ∧
        input.startable (outcomes (i + k)) = false) →
      (startInputs anyInputVtable outcomes i inputs).1 = false ∧
      ∃ front failing back started after, inputs = front ++ failing :: back ∧
        failing.startable (outcomes (i + front.length)) = false ∧
        (startInputs anyInputVtable outcomes i inputs).2.1 = started ++ after :: back ∧
        started.length = front.length ∧ ∀ input ∈ started, input.isStarted = true := by
  intro inputs
  induction inputs with
  | nil =>
      rintro i ⟨k, input, inside, -⟩
      cases inside
  | cons input inputs ih =>
      intro i fails
      unfold startInputs
      dsimp only
      rw [start_startable]
      cases startable : input.startable (outcomes i) with
      | false => exact ⟨rfl, [], input, inputs, [], _, rfl, startable, rfl, rfl, nofun⟩
      | true =>
          have later : ∃ k, ∃ other : AnyInput, inputs[k]? = some other ∧
              other.startable (outcomes (i + 1 + k)) = false := by
            obtain ⟨k, other, inside, fails⟩ := fails
            cases k with
            | zero =>
                obtain rfl : input = other := Option.some.inj inside
                rw [Nat.add_zero, startable] at fails
                cases fails
            | succ k => exact ⟨k, other, inside, by rwa [Nat.add_right_comm]⟩
          obtain ⟨failed, front, failing, back, started, after, rfl, stops, result, same, all⟩ :=
            ih (i + 1) later
          refine ⟨failed, input :: front, failing, back, _ :: started, after, rfl, ?_, ?_,
            congrArg (· + 1) same, List.forall_mem_cons.mpr ⟨start_isStarted startable, all⟩⟩
          · rwa [List.length_cons, Nat.add_comm front.length, ← Nat.add_assoc]
          · rw [if_pos rfl, result]
            rfl

/-- What a failed start leaves: a world that is not started, with a running timer and with the
    inputs started that come before the one that failed. -/
theorem worldStart_leaves {world : World AnyInput} {outcomes : StartOutcomes AnyOutcomes}
    (fails : InputFails world outcomes) :
    (worldStart anyInputVtable world outcomes).1 = -1 ∧
      (worldStart anyInputVtable world outcomes).2.1.started = false ∧
      (worldStart anyInputVtable world outcomes).2.1.correlation = some ⟨true, .active⟩ ∧
      ∃ front failing back started after, world.inputs = front ++ failing :: back ∧
        failing.startable (outcomes.inputs front.length) = false ∧
        (worldStart anyInputVtable world outcomes).2.1.inputs = started ++ after :: back ∧
        started.length = front.length ∧ ∀ input ∈ started, input.isStarted = true := by
  obtain ⟨opened, unstarted, timerInit, timerStart, i, input, inside, stops⟩ := fails
  obtain ⟨corr, engine⟩ := Option.isSome_iff_exists.mp opened
  obtain ⟨failed, front, failing, back, started, after, split, failing', result, same, all⟩ :=
    startInputs_fails outcomes.inputs world.inputs 0
      ⟨i, input, inside, by rwa [Nat.zero_add]⟩
  rw [Nat.zero_add] at failing'
  have call : worldStart anyInputVtable world outcomes =
      (-1, ⟨false, some ⟨true, .active⟩,
        (startInputs anyInputVtable outcomes.inputs 0 world.inputs).2.1⟩,
        .initialised corr.cleanupTimer ::
          (startInputs anyInputVtable outcomes.inputs 0 world.inputs).2.2) := by
    simp [worldStart, correlationStart, engine, unstarted, timerInit, timerStart, failed,
      HandleState.init, HandleState.start, HandleState.isOpen]
  rw [call]
  exact ⟨rfl, rfl, rfl, front, failing, back, started, after, split, failing', result, same, all⟩

/-- A start is all or nothing just in case no input fails. -/
theorem allOrNothing_iff (world : World AnyInput) (outcomes : StartOutcomes AnyOutcomes) :
    AllOrNothing world outcomes ↔ ¬InputFails world outcomes := by
  constructor
  · intro allOrNothing fails
    obtain ⟨code, -, engine, -⟩ := worldStart_leaves fails
    obtain ⟨-, idle, -⟩ := allOrNothing (by rw [code]; decide) fails
    exact idle _ engine rfl
  · intro none _ fails
    exact absurd fails none

/-- The calls of both kinds of inputs succeed. -/
def allStart : AnyOutcomes := ⟨⟨true, true, true, true, true⟩, ⟨true, true, true, true, true⟩⟩

/-- The second of two files cannot be opened. -/
theorem second_file_missing :
    ¬∀ (world : World AnyInput) (outcomes : StartOutcomes AnyOutcomes),
      AllOrNothing world outcomes := by
  intro all
  obtain ⟨stopped, -, -⟩ := all
    ⟨false, some ⟨false, .unused⟩, [.file newFileInputData, .file newFileInputData]⟩
    ⟨true, true, fun i => if i = 1 then { allStart with file.fopen := false } else allStart⟩
    (by decide) ⟨rfl, rfl, rfl, rfl, 1, .file newFileInputData, rfl, rfl⟩
  exact absurd stopped (by decide)

end Lifecycle

end Nblex
