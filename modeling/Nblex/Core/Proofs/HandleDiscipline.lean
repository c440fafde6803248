import Nblex.Core.NblexWorld

/-!
# The handles of a world

A world with file inputs keeps to the rules for handles exactly as long as it is not started
again, no input that has a watch on its directory is stopped, and it is freed with nothing left
open that the flags do not lead to.
-/

namespace Nblex

namespace Lifecycle

/-- What is known of an input: its handles are active only while it is watching, and the watch only
    with `use_fs_event`. -/
structure FileInputData.Sound (data : FileInputData) : Prop where
  unwatched : data.watching = false → data.fsEvent ≠ .active ∧ data.pollTimer ≠ .active
  flagged : data.fsEvent = .active → data.useFsEvent = true

/-- The states of the timer of the engine: never initialised, left idle by a start that failed, or
    running. -/
def CorrelationTimer.Sound (corr : CorrelationTimer) : Prop :=
  corr = ⟨false, .unused⟩ ∨ corr = ⟨false, .idle⟩ ∨ corr = ⟨true, .active⟩

/-- What is known of a world as long as the rules are kept. -/
structure World.Sound (world : World FileInputData) : Prop where
  timer : ∀ corr ∈ world.correlation, corr.Sound
  unstarted : (∀ corr ∈ world.correlation, corr.timerInitialized = false) →
    ∀ input ∈ world.inputs, input.watching = false
  inputs : ∀ input ∈ world.inputs, input.Sound

/-- The memory of an input may be released: strictly if none of its handles is open or closing,
    otherwise if the only ones that are open are those that the input is known by to be stopped
    first. -/
def FileInputData.Freeable (strict started : Bool) (data : FileInputData) : Prop :=
  if strict then data.fsEvent.isGone = true ∧ data.pollTimer.isGone = true
  else
    (data.fsEvent.isOpen = true → started = true ∧ data.watching = true ∧
      data.useFsEvent = true) ∧
    (data.pollTimer.isOpen = true → started = true ∧ data.watching = true ∧
      data.useFsEvent = false)

/-- The operation keeps to the rules: a start comes before the timer of the engine is initialised,
    a stop while no input with a watch has a running timer, and a world is freed while its engine
    has no idle timer and its inputs may be released. -/
def Careful (strict : Bool) : Option (World FileInputData) → WorldOp FileOutcomes → Prop
  | some world, .start _ =>
      ∀ corr ∈ world.correlation, world.started = false → corr.timerInitialized = false
  | some world, .stop =>
      ∀ input ∈ world.inputs, input.watching = true → input.useFsEvent = true →
        input.pollTimer ≠ .active
  | some world, .free =>
      (∀ corr ∈ world.correlation, corr.cleanupTimer ≠ .idle) ∧
        ∀ input ∈ world.inputs, input.Freeable strict world.started
  | _, _ => True

/-! ## Inputs -/

theorem newFileInputData_sound : newFileInputData.Sound := ⟨fun _ => ⟨nofun, nofun⟩, nofun⟩

theorem fileInputStart_sound {data : FileInputData} (sound : data.Sound)
    (unwatched : data.watching = false) (outcomes : FileOutcomes) :
    (fileInputStart outcomes data).2.1.Sound := by
  obtain ⟨fsIdle, pollIdle⟩ := sound.unwatched unwatched
  unfold fileInputStart
  split
  · refine ⟨nofun, ?_⟩
    intro active
    cases init : outcomes.fsEventInit with
    | false =>
        simp only [init, HandleState.init] at active
        exact absurd active fsIdle
    | true =>
        cases start : outcomes.fsEventStart with
        | false =>
            simp only [init, start, HandleState.init] at active
            cases active
        | true => simp
  · exact ⟨fun _ => ⟨fsIdle, pollIdle⟩, fun active => absurd active fsIdle⟩

theorem fileInputStart_allowed {data : FileInputData} (sound : data.Sound)
    (unwatched : data.watching = false) (strict : Bool) (outcomes : FileOutcomes) :
    ∀ event ∈ (fileInputStart outcomes data).2.2, event.Allowed strict := by
  obtain ⟨fsIdle, pollIdle⟩ := sound.unwatched unwatched
  unfold fileInputStart
  split
  · intro event member
    rcases List.mem_pair.mp member with rfl | rfl
    · exact fsIdle
    · exact pollIdle
  · exact nofun

theorem fileInputStop_fsEvent (data : FileInputData) :
    (fileInputStop data).1.fsEvent =
      if data.watching = true ∧ data.useFsEvent = true then data.fsEvent.close
      else data.fsEvent := by
  unfold fileInputStop
  cases data.watching <;> cases data.useFsEvent <;> simp

theorem fileInputStop_pollTimer (data : FileInputData) :
    (fileInputStop data).1.pollTimer =
      if data.watching = true ∧ data.useFsEvent = false then data.pollTimer.close
      else data.pollTimer := by
  unfold fileInputStop
  cases data.watching <;> cases data.useFsEvent <;> simp

theorem fileInputStop_watching (data : FileInputData) :
    (fileInputStop data).1.watching = false := by
  unfold fileInputStop
  cases data.watching <;> cases data.useFsEvent <;> simp

theorem fileInputStop_allowed {data : FileInputData} {strict : Bool} :
    (∀ event ∈ (fileInputStop data).2, event.Allowed strict) ↔
      (data.fsEvent = .active → (fileInputStop data).1.fsEvent.isOpen = false) ∧
        (data.pollTimer = .active → (fileInputStop data).1.pollTimer.isOpen = false) :=
  List.forall_mem_cons.trans (and_congr_right fun _ => List.forall_mem_singleton)

/-- Stopping an input leaves a handle running just in case the input has a watch and a running
    timer. -/
theorem fileInputStop_allowed_iff {data : FileInputData} (sound : data.Sound) (strict : Bool) :
    (∀ event ∈ (fileInputStop data).2, event.Allowed strict) ↔
      (data.watching = true → data.useFsEvent = true → data.pollTimer ≠ .active) := by
  rw [fileInputStop_allowed, fileInputStop_fsEvent, fileInputStop_pollTimer]
  constructor
  · rintro ⟨-, poll⟩ watching useFsEvent active
    have stillOpen := poll active
    rw [if_neg (by simp [useFsEvent]), active] at stillOpen
    cases stillOpen
  · intro idle
    constructor
    · intro active
      have watching : data.watching = true := by
        by_contra unwatched
        exact (sound.unwatched (Bool.not_eq_true _ ▸ unwatched)).1 active
      rw [if_pos ⟨watching, sound.flagged active⟩]
      exact HandleState.isOpen_close _
    · intro active
      have watching : data.watching = true := by
        by_contra unwatched
        exact (sound.unwatched (Bool.not_eq_true _ ▸ unwatched)).2 active
      have useFsEvent : data.useFsEvent = false := by
        by_contra flagged
        exact idle watching (Bool.not_eq_false _ ▸ flagged) active
      rw [if_pos ⟨watching, useFsEvent⟩]
      exact HandleState.isOpen_close _

/-- A handle that was closed or left alone by an allowed stop is not active. -/
theorem ne_active_of_stopped {before after : HandleState} {closes : Prop} [Decidable closes]
    (result : after = if closes then before.close else before)
    (allowed : before = .active → after.isOpen = false) : after ≠ .active := by
  intro active
  by_cases closed : closes
  · rw [if_pos closed] at result
    have notOpen := HandleState.isOpen_close before
    rw [← result, active] at notOpen
    cases notOpen
  · rw [if_neg closed] at result
    have notOpen := allowed (result ▸ active)
    rw [active] at notOpen
    cases notOpen

theorem fileInputStop_sound {data : FileInputData} {strict : Bool}
    (allowed : ∀ event ∈ (fileInputStop data).2, event.Allowed strict) :
    (fileInputStop data).1.Sound := by
  obtain ⟨fs, poll⟩ := fileInputStop_allowed.mp allowed
  have fsIdle := ne_active_of_stopped (fileInputStop_fsEvent data) fs
  have pollIdle := ne_active_of_stopped (fileInputStop_pollTimer data) poll
  exact ⟨fun _ => ⟨fsIdle, pollIdle⟩, fun active => absurd active fsIdle⟩

theorem finish_eq_active {state : HandleState} : state.finish = .active ↔ state = .active := by
  cases state <;> simp [HandleState.finish]

theorem FileInputData.Sound.turn {data : FileInputData} (sound : data.Sound) :
    (fileInputVtable.turn data).Sound where
  unwatched := fun unwatched =>
    ⟨fun active => (sound.unwatched unwatched).1 (finish_eq_active.mp active),
      fun active => (sound.unwatched unwatched).2 (finish_eq_active.mp active)⟩
  flagged := fun active => sound.flagged (finish_eq_active.mp active)

/-- What is left of an input when it is released, stopped first if the world is started. -/
def FileInputData.left (started : Bool) (data : FileInputData) : FileInputData :=
  if started then (fileInputStop data).1 else data

theorem left_fsEvent (started : Bool) (data : FileInputData) :
    (data.left started).fsEvent =
      if started = true ∧ data.watching = true ∧ data.useFsEvent = true then data.fsEvent.close
      else data.fsEvent := by
  cases started with
  | false => simp [FileInputData.left]
  | true => simp [FileInputData.left, fileInputStop_fsEvent]

theorem left_pollTimer (started : Bool) (data : FileInputData) :
    (data.left started).pollTimer =
      if started = true ∧ data.watching = true ∧ data.useFsEvent = false then
        data.pollTimer.close
      else data.pollTimer := by
  cases started with
  | false => simp [FileInputData.left]
  | true => simp [FileInputData.left, fileInputStop_pollTimer]

/-- A handle that is closed in one case may be released. -/
theorem released_allowed_iff {before after : HandleState} {closes : Prop} [Decidable closes]
    (result : after = if closes then before.close else before) (strict : Bool) :
    (HandleEvent.released after).Allowed strict ↔
      if strict then before.isGone = true else (before.isOpen = true → closes) := by
  rw [HandleEvent.Allowed, result]
  cases strict with
  | true =>
      by_cases closed : closes
      · simp [closed, HandleState.isGone_close]
      · simp [closed]
  | false =>
      by_cases closed : closes
      · simp [closed, HandleState.isOpen_close]
      · simp [closed]

theorem free_allowed_iff (strict started : Bool) (data : FileInputData) :
    (∀ event ∈ fileInputVtable.free (data.left started), event.Allowed strict) ↔
      data.Freeable strict started := by
  have split : (∀ event ∈ fileInputVtable.free (data.left started), event.Allowed strict) ↔
      (HandleEvent.released (data.left started).fsEvent).Allowed strict ∧
        (HandleEvent.released (data.left started).pollTimer).Allowed strict :=
    List.forall_mem_cons.trans (and_congr_right fun _ => List.forall_mem_singleton)
  rw [split, released_allowed_iff (left_fsEvent started data),
    released_allowed_iff (left_pollTimer started data), FileInputData.Freeable]
  cases strict <;> rfl

/-- An input that may be released after it has been stopped was stopped by the rules. -/
theorem FileInputData.Freeable.stop_allowed {strict : Bool} {data : FileInputData}
    (freeable : data.Freeable strict true) :
    ∀ event ∈ (fileInputStop data).2, event.Allowed strict := by
  obtain ⟨fs, poll⟩ : (HandleEvent.released (data.left true).fsEvent).Allowed strict ∧
      (HandleEvent.released (data.left true).pollTimer).Allowed strict :=
    ⟨(free_allowed_iff strict true data).mpr freeable _ List.mem_cons_self,
      (free_allowed_iff strict true data).mpr freeable _
        (List.mem_cons_of_mem _ List.mem_cons_self)⟩
  have notOpen : ∀ {state : HandleState}, (HandleEvent.released state).Allowed strict →
      state.isOpen = false := by
    intro state allowed
    cases strict with
    | true => exact HandleState.isOpen_of_isGone allowed
    | false => exact allowed
  exact fileInputStop_allowed.mpr ⟨fun _ => notOpen fs, fun _ => notOpen poll⟩

/-! ## The world -/

theorem startInputs_spec (strict : Bool) (outcomes : Nat → FileOutcomes) :
    ∀ (inputs : List FileInputData) (i : Nat),
      (∀ input ∈ inputs, input.Sound ∧ input.watching = false) →
      (∀ event ∈ (startInputs fileInputVtable outcomes i inputs).2.2, event.Allowed strict) ∧
        ∀ input ∈ (startInputs fileInputVtable outcomes i inputs).2.1, input.Sound := by
  intro inputs
  induction inputs with
  | nil => exact fun _ _ => ⟨nofun, nofun⟩
  | cons input inputs ih =>
      intro i fresh
      obtain ⟨sound, unwatched⟩ := fresh input List.mem_cons_self
      have allowed := fileInputStart_allowed sound unwatched strict (outcomes i)
      have started := fileInputStart_sound sound unwatched (outcomes i)
      obtain ⟨laterAllowed, laterSound⟩ :=
        ih (i + 1) (fun other member => fresh other (List.mem_cons_of_mem _ member))
      unfold startInputs
      dsimp only
      split
      · refine ⟨?_, List.forall_mem_cons.mpr ⟨started, laterSound⟩⟩
        intro event member
        rcases List.mem_append.mp member with here | later
        · exact allowed event here
        · exact laterAllowed event later
      · refine ⟨allowed, List.forall_mem_cons.mpr ⟨started, ?_⟩⟩
        exact fun other member => (fresh other (List.mem_cons_of_mem _ member)).1

theorem CorrelationTimer.Sound.not_active_iff {corr : CorrelationTimer} (sound : corr.Sound) :
    corr.cleanupTimer ≠ .active ↔ corr.timerInitialized = false := by
  rcases sound with rfl | rfl | rfl <;> simp

theorem correlationStart_sound {corr : CorrelationTimer} (sound : corr.Sound)
    (timerInit timerStart : Bool) :
    (correlationStart timerInit timerStart corr).2.1.Sound ∧
      ((correlationStart timerInit timerStart corr).1 = true →
        (correlationStart timerInit timerStart corr).2.1.timerInitialized = true) := by
  cases timerInit with
  | false => exact ⟨sound, nofun⟩
  | true =>
      cases timerStart with
      | false => exact ⟨Or.inr (Or.inl rfl), nofun⟩
      | true => exact ⟨Or.inr (Or.inr rfl), fun _ => rfl⟩

theorem correlationStart_allowed (corr : CorrelationTimer)
    (strict timerInit timerStart : Bool) :
    (∀ event ∈ (correlationStart timerInit timerStart corr).2.2, event.Allowed strict) ↔
      corr.cleanupTimer ≠ .active := by
  cases timerInit <;> cases timerStart <;> exact List.forall_mem_singleton

/-- The first start past the guards keeps to the rules, and no other. -/
theorem worldStart_allowed_iff {world : World FileInputData} (sound : world.Sound)
    (strict : Bool) (outcomes : StartOutcomes FileOutcomes) :
    (∀ event ∈ (worldStart fileInputVtable world outcomes).2.2, event.Allowed strict) ↔
      ∀ corr ∈ world.correlation, world.started = false → corr.timerInitialized = false := by
  unfold worldStart
  cases engine : world.correlation with
  | none => exact ⟨fun _ => nofun, fun _ => nofun⟩
  | some corr =>
      cases started : world.started with
      | true => exact ⟨fun _ _ _ => nofun, fun _ => nofun⟩
      | false =>
          have timerSound : corr.Sound := sound.timer corr engine
          have timerAllowed := (correlationStart_allowed corr strict outcomes.timerInit
            outcomes.timerStart).trans timerSound.not_active_iff
          have guard : (∀ c ∈ some corr, false = false → c.timerInitialized = false) ↔
              corr.timerInitialized = false :=
            ⟨fun all => all corr rfl rfl, fun here c same _ => Option.some.inj same ▸ here⟩
          rw [guard, ← timerAllowed]
          dsimp only
          rw [if_neg Bool.false_ne_true]
          split
          · exact Iff.rfl
          · have both : (∀ event ∈
                (correlationStart outcomes.timerInit outcomes.timerStart corr).2.2 ++
                  (startInputs fileInputVtable outcomes.inputs 0 world.inputs).2.2,
                event.Allowed strict) ↔
                ∀ event ∈ (correlationStart outcomes.timerInit outcomes.timerStart corr).2.2,
                  event.Allowed strict := by
              refine ⟨fun all event member => all event (List.mem_append_left _ member), ?_⟩
              intro here event member
              rcases List.mem_append.mp member with first | later
              · exact here event first
              · have unstarted : corr.timerInitialized = false := timerAllowed.mp here
                refine (startInputs_spec strict outcomes.inputs world.inputs 0 ?_).1 event later
                intro input inside
                refine ⟨sound.inputs input inside, sound.unstarted ?_ input inside⟩
                rw [engine]
                exact fun c same => Option.some.inj same ▸ unstarted
            split
            · exact both
            · exact both

theorem worldStart_sound {world : World FileInputData} (sound : world.Sound)
    (outcomes : StartOutcomes FileOutcomes)
    (first : ∀ corr ∈ world.correlation, world.started = false →
      corr.timerInitialized = false) :
    (worldStart fileInputVtable world outcomes).2.1.Sound := by
  unfold worldStart
  cases engine : world.correlation with
  | none => exact sound
  | some corr =>
      cases started : world.started with
      | true => exact sound
      | false =>
          have unstarted : ∀ c ∈ world.correlation, c.timerInitialized = false :=
            fun c member => first c member started
          obtain ⟨timerSound, initialized⟩ := correlationStart_sound
            (sound.timer corr engine) outcomes.timerInit outcomes.timerStart
          dsimp only
          rw [if_neg Bool.false_ne_true]
          split
          · refine ⟨?_, fun _ => sound.unstarted unstarted, sound.inputs⟩
            exact fun c same => Option.some.inj same ▸ timerSound
          · rename_i timed
            rw [Bool.not_eq_true, Bool.not_eq_false'] at timed
            have inputsSound := (startInputs_spec true outcomes.inputs world.inputs 0
              (fun input inside =>
                ⟨sound.inputs input inside, sound.unstarted unstarted input inside⟩)).2
            have begun : World.Sound ⟨false, some
                (correlationStart outcomes.timerInit outcomes.timerStart corr).2.1,
                (startInputs fileInputVtable outcomes.inputs 0 world.inputs).2.1⟩ := by
              refine ⟨fun c same => Option.some.inj same ▸ timerSound, ?_, inputsSound⟩
              intro none
              have contradiction := none _ rfl
              rw [initialized timed] at contradiction
              cases contradiction
            split
            · exact begun
            · exact ⟨begun.timer, begun.unstarted, begun.inputs⟩

theorem worldStop_allowed_iff {world : World FileInputData} (sound : world.Sound)
    (strict : Bool) :
    (∀ event ∈ (worldStop fileInputVtable world).2, event.Allowed strict) ↔
      ∀ input ∈ world.inputs, input.watching = true → input.useFsEvent = true →
        input.pollTimer ≠ .active := by
  rw [worldStop, stopInputs, List.forall_mem_flatMap]
  exact forall₂_congr fun input member =>
    fileInputStop_allowed_iff (sound.inputs input member) strict

theorem worldStop_sound {world : World FileInputData} {strict : Bool} (sound : world.Sound)
    (allowed : ∀ event ∈ (worldStop fileInputVtable world).2, event.Allowed strict) :
    (worldStop fileInputVtable world).1.Sound where
  timer := sound.timer
  unstarted := by
    intro _ input member
    obtain ⟨before, -, rfl⟩ := List.mem_map.mp member
    exact fileInputStop_watching before
  inputs := by
    intro input member
    obtain ⟨before, inside, rfl⟩ := List.mem_map.mp member
    exact fileInputStop_sound
      (fun event here => allowed event (List.mem_flatMap_of_mem inside here))

theorem worldOpen_sound {world : World FileInputData} (sound : world.Sound) (alloc : Bool) :
    (worldOpen world alloc).Sound := by
  unfold worldOpen
  cases engine : world.correlation with
  | some corr => exact sound
  | none =>
      cases alloc with
      | false => exact sound
      | true =>
          refine ⟨?_, fun _ => sound.unstarted ?_, sound.inputs⟩
          · exact fun c same => Option.some.inj same ▸ Or.inl rfl
          · rw [engine]
            exact nofun

theorem worldTurn_sound {world : World FileInputData} (sound : world.Sound) :
    (worldTurn fileInputVtable world).Sound where
  timer := by
    intro corr member
    obtain ⟨before, engine, rfl⟩ := Option.map_eq_some_iff.mp member
    rcases sound.timer before engine with rfl | rfl | rfl
    · exact Or.inl rfl
    · exact Or.inr (Or.inl rfl)
    · exact Or.inr (Or.inr rfl)
  unstarted := by
    intro unstarted input member
    obtain ⟨before, inside, rfl⟩ := List.mem_map.mp member
    refine sound.unstarted ?_ before inside
    intro corr engine
    exact unstarted { corr with cleanupTimer := corr.cleanupTimer.finish }
      (Option.map_eq_some_iff.mpr ⟨corr, engine, rfl⟩)
  inputs := by
    intro input member
    obtain ⟨before, inside, rfl⟩ := List.mem_map.mp member
    exact (sound.inputs before inside).turn

theorem create_sound {world : World FileInputData} (sound : world.Sound) :
    World.Sound { world with inputs := world.inputs ++ [newFileInputData] } where
  timer := sound.timer
  unstarted := by
    intro unstarted
    refine List.forall_mem_append.mpr ⟨sound.unstarted unstarted, ?_⟩
    exact List.forall_mem_singleton.mpr rfl
  inputs := List.forall_mem_append.mpr
    ⟨sound.inputs, List.forall_mem_singleton.mpr newFileInputData_sound⟩

theorem correlationFree_allowed_iff {corr : CorrelationTimer} (sound : corr.Sound)
    (strict : Bool) :
    (∀ event ∈ correlationFree corr, event.Allowed strict) ↔ corr.cleanupTimer ≠ .idle := by
  rcases sound with rfl | rfl | rfl <;> cases strict <;> decide

theorem worldFree_allowed_iff {world : World FileInputData} (sound : world.Sound)
    (strict : Bool) :
    (∀ event ∈ worldFree fileInputVtable world, event.Allowed strict) ↔
      (∀ corr ∈ world.correlation, corr.cleanupTimer ≠ .idle) ∧
        ∀ input ∈ world.inputs, input.Freeable strict world.started := by
  have timer : (∀ event ∈ world.correlation.toList.flatMap correlationFree,
      event.Allowed strict) ↔ ∀ corr ∈ world.correlation, corr.cleanupTimer ≠ .idle := by
    rw [List.forall_mem_flatMap]
    constructor
    · intro all corr engine
      exact (correlationFree_allowed_iff (sound.timer corr engine) strict).mp
        (all corr (Option.mem_toList.mpr engine))
    · intro all corr member
      have engine := Option.mem_toList.mp member
      exact (correlationFree_allowed_iff (sound.timer corr engine) strict).mpr (all corr engine)
  have inputs : (∀ event ∈ (world.inputs.map (FileInputData.left world.started)).flatMap
      fileInputVtable.free, event.Allowed strict) ↔
      ∀ input ∈ world.inputs, input.Freeable strict world.started := by
    rw [List.forall_mem_flatMap, List.forall_mem_map]
    exact forall₂_congr fun input _ => free_allowed_iff strict world.started input
  have left : world.inputs.map (FileInputData.left world.started) =
      (if world.started then stopInputs fileInputVtable world.inputs
        else (world.inputs, [])).1 := by
    cases world.started with
    | false => exact List.map_id _
    | true => rfl
  rw [worldFree, List.forall_mem_append, List.forall_mem_append, timer, ← left, inputs]
  refine ⟨fun all => ⟨all.1.2, all.2⟩, fun all => ⟨⟨?_, all.1⟩, all.2⟩⟩
  -- the stops before the release are allowed because the releases are
  cases started : world.started with
  | false => exact nofun
  | true =>
      refine List.forall_mem_flatMap.mpr ?_
      intro input member
      exact FileInputData.Freeable.stop_allowed (started ▸ all.2 input member)

/-! ## Runs -/

theorem newWorld_sound : (newWorld : World FileInputData).Sound := ⟨nofun, fun _ => nofun, nofun⟩

theorem worldStep_allowed_iff (strict : Bool) {state : Option (World FileInputData)}
    (sound : ∀ world ∈ state, world.Sound) (op : WorldOp FileOutcomes) :
    (∀ event ∈ (worldStep fileInputVtable newFileInputData state op).2, event.Allowed strict) ↔
      Careful strict state op := by
  cases state with
  | none => exact ⟨fun _ => trivial, fun _ => nofun⟩
  | some world =>
      have here : world.Sound := sound world rfl
      cases op with
      | openWorld alloc => exact ⟨fun _ => trivial, fun _ => nofun⟩
      | create => exact ⟨fun _ => trivial, fun _ => nofun⟩
      | start outcomes => exact worldStart_allowed_iff here strict outcomes
      | stop => exact worldStop_allowed_iff here strict
      | turn => exact ⟨fun _ => trivial, fun _ => nofun⟩
      | free => exact worldFree_allowed_iff here strict

theorem worldStep_sound (strict : Bool) {state : Option (World FileInputData)}
    (sound : ∀ world ∈ state, world.Sound) (op : WorldOp FileOutcomes)
    (careful : Careful strict state op) :
    ∀ world ∈ (worldStep fileInputVtable newFileInputData state op).1, world.Sound := by
  cases state with
  | none => exact nofun
  | some world =>
      have here : world.Sound := sound world rfl
      intro next same
      cases op with
      | openWorld alloc => exact Option.some.inj same ▸ worldOpen_sound here alloc
      | create => exact Option.some.inj same ▸ create_sound here
      | start outcomes => exact Option.some.inj same ▸ worldStart_sound here outcomes careful
      | stop =>
          exact Option.some.inj same ▸
            worldStop_sound here ((worldStop_allowed_iff here strict).mpr careful)
      | turn => exact Option.some.inj same ▸ worldTurn_sound here
      | free => cases same

/-- In a run of operations on a new world the rules for handles are kept just in case every
    operation is careful. -/
theorem handles_allowed_iff (strict : Bool) (ops : List (WorldOp FileOutcomes)) :
    (∀ event ∈ (Guarded.run (worldStep fileInputVtable newFileInputData) (some newWorld) ops).2,
      event.Allowed strict) ↔
      Guarded.Meets (fun state op => (worldStep fileInputVtable newFileInputData state op).1)
        (Careful strict) (some newWorld) ops :=
  Guarded.run_allowed_iff (fun state => ∀ world ∈ state, world.Sound)
    (fun _ op sound => worldStep_allowed_iff strict sound op)
    (fun _ op sound careful => worldStep_sound strict sound op careful)
    (fun _ same => Option.some.inj same ▸ newWorld_sound) ops

/-- All calls succeed. -/
def allSucceed : FileOutcomes := ⟨true, true, true, true, true⟩

/-- A world with one input is opened, started, stopped and freed. The watch is closed, the polling
    timer is not. -/
theorem stop_leaves_pollTimer :
    ¬∀ ops : List (WorldOp FileOutcomes),
      ∀ event ∈ (Guarded.run (worldStep fileInputVtable newFileInputData) (some newWorld)
        ops).2, event.Allowed false := by
  intro allowed
  refine absurd (allowed [.openWorld true, .create, .start ⟨true, true, fun _ => allSucceed⟩,
    .stop, .turn, .free] (.stopped .active .active) ?_) (by decide)
  decide

end Lifecycle

end Nblex
