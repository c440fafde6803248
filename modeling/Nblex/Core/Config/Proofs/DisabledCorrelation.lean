import Nblex.Core.Config.Apply
import Nblex.Correlation.Proofs.Cleanup

/-!
# Configurations that disable correlation

`nblex_world_open` sets the engine up, and `nblex_config_apply` calls it only to set a window. A
configuration that disables correlation leaves the engine of an opened world as it is, and whatever
has happened to that world before, some sequence of events is correlated after it.
-/

namespace Nblex

/-! ## Applying leaves the engine alone -/

section Apply

variable [Pcre2] {world : InputWorld}

omit [Pcre2] in
theorem nblexWorldAddInput_correlation (input : Nat) (array : Bool) :
    (nblexWorldAddInput world input array).1.correlation = world.correlation := by
  unfold nblexWorldAddInput
  split
  · rfl
  · split <;> rfl

theorem applyFilter_correlation (cfg : NblexInputConfig) (created : InputWorld × Option Nat) :
    (applyFilter cfg created).correlation = created.1.correlation := by
  unfold applyFilter
  split
  · unfold nblexInputSetFilter
    split
    · rfl
    · split <;> rfl
  · rfl

omit [Pcre2] in
theorem nblexInputFileNew_correlation (path : String) (allocs : InputAllocs) :
    (nblexInputFileNew world path allocs).1.correlation = world.correlation := by
  unfold nblexInputFileNew
  split
  · exact nblexWorldAddInput_correlation _ _
  · rfl

theorem applyInput_correlation (cfg : NblexInputConfig) (allocs : InputAllocs) :
    (applyInput world cfg allocs).correlation = world.correlation := by
  unfold applyInput
  split
  · rw [applyFilter_correlation]
    dsimp only
    split
    · exact nblexInputFileNew_correlation _ _
    · exact nblexInputFileNew_correlation _ _
  · rw [applyFilter_correlation]
    unfold nblexInputPcapNew
    split <;> rfl
  · rfl

/-- Only the correlation settings reach the engine. -/
theorem nblexConfigApply_correlation (config : NblexConfig) (allocs : Nat → InputAllocs) :
    (nblexConfigApply config world allocs).correlation =
      (applyCorrelation config world).correlation := by
  unfold nblexConfigApply
  generalize applyCorrelation config world = applied
  induction config.inputs.zipIdx generalizing applied with
  | nil => rfl
  | cons cfg rest ih => exact (ih _).trans (applyInput_correlation cfg.1 (allocs cfg.2))

end Apply

/-! ## Opened worlds -/

section Worlds

variable [Pcre2]

/-- A world that has been opened, and what may have happened to it since. -/
inductive Opened : World → Prop where
  | fresh : Opened (openedWorld 100)
  | strategy {world : World} (windowMs : Nat) (fits : windowMs < 2 ^ 32) : Opened world →
      Opened { world with
        correlation := world.correlation.map (nblexCorrelationAddStrategy · windowMs) }
  | step {world next : World} (fuel : Nat) (op : WorldOp) : Opened world →
      worldStep (fuel + 2) world op = some next → Opened next

/-- What holds of the engine of every opened world. -/
structure EngineReady (world : World) (corr : Correlation) : Prop where
  engine : world.correlation = some corr
  counted : corr.Counted
  window : corr.windowNs < 2 ^ 63

omit [Pcre2] in
theorem addStrategy_windowNs (corr : Correlation) {windowMs : Nat} (fits : windowMs < 2 ^ 32) :
    (nblexCorrelationAddStrategy corr windowMs).windowNs < 2 ^ 63 := by
  have small : windowMs * 1000000 < 2 ^ 64 := by omega
  simp only [nblexCorrelationAddStrategy, u64Mul_of_lt small]
  omega

omit [Pcre2] in
theorem Correlation.Counted.withWindow {corr : Correlation} (counted : corr.Counted)
    (windowNs : Nat) : Correlation.Counted { corr with windowNs := windowNs } :=
  ⟨counted.log, counted.network⟩

omit [Pcre2] in
/-- A full buffer is left as it is, and otherwise the counter goes with the buffer. -/
theorem addToBuffer_counted {buffer : List Event} {count : Nat} (counted : count = buffer.length)
    (event : Event) :
    (addToBuffer buffer count event).2 = (addToBuffer buffer count event).1.length := by
  unfold addToBuffer
  split
  · exact counted
  · exact congrArg (· + 1) counted

omit [Pcre2] in
theorem bufferEvent_counted {corr : Correlation} (counted : corr.Counted) (event : Event) :
    (bufferEvent corr event).Counted ∧ (bufferEvent corr event).windowNs = corr.windowNs := by
  unfold bufferEvent
  split
  · exact ⟨⟨addToBuffer_counted counted.log event, counted.network⟩, rfl⟩
  · exact ⟨⟨counted.log, addToBuffer_counted counted.network event⟩, rfl⟩
  · exact ⟨counted, rfl⟩

omit [Pcre2] in
theorem EngineReady.afterEmit {world : World} {corr : Correlation} (ready : EngineReady world corr)
    (event : Event) : EngineReady (world.afterEmit corr event) (bufferEvent
      { corr with correlationsFound := corr.correlationsFound +
        ((foundPairs corr event).map (pairEvent corr.windowNs)).length } event) := by
  obtain ⟨counted, same⟩ := @bufferEvent_counted
    { corr with correlationsFound := corr.correlationsFound +
      ((foundPairs corr event).map (pairEvent corr.windowNs)).length }
    ⟨ready.counted.log, ready.counted.network⟩ event
  exact ⟨rfl, counted, lt_of_eq_of_lt same ready.window⟩

theorem Opened.ready {world : World} (opened : Opened world) :
    ∃ corr, EngineReady world corr := by
  induction opened with
  | fresh => exact ⟨_, rfl, ⟨rfl, rfl⟩, addStrategy_windowNs _ (by decide)⟩
  | strategy windowMs fits opened ih =>
      obtain ⟨corr, engine, counted, window⟩ := ih
      refine ⟨nblexCorrelationAddStrategy corr windowMs, by rw [engine, Option.map_some], ?_,
        addStrategy_windowNs corr fits⟩
      exact counted.withWindow (u64Mul windowMs 1000000)
  | @step world next fuel op opened ran ih =>
      obtain ⟨corr, engine, counted, window⟩ := ih
      cases op with
      | tick now =>
          obtain rfl := Option.some.inj ran
          obtain ⟨-, counted', same, -⟩ := cleanupTimerCb_spec counted now
          exact ⟨cleanupTimerCb corr now, by rw [engine]; rfl, counted', same ▸ window⟩
      | emit event =>
          rw [worldStep] at ran
          by_cases accepted : inputAccepts event = true
          · rw [nblexEventEmit_step engine accepted] at ran
            obtain rfl := Option.some.inj ran
            exact ⟨_, EngineReady.afterEmit ⟨engine, counted, window⟩ event⟩
          · rw [nblexEventEmit, if_neg accepted] at ran
            obtain rfl := Option.some.inj ran
            exact ⟨corr, engine, counted, window⟩

/-! ## Events that are correlated -/

/-- Whatever is emitted into the world, its handler is called with that and nothing else. -/
def NeverCorrelates (world : World) : Prop :=
  ∀ (fuel : Nat) (events : List Event) (after : World),
    worldRun (fuel + 2) world (events.map .emit) = some after →
      after.handled = world.handled ++ events.filter inputAccepts

section Never

variable {world : World} {corr : Correlation}

theorem worldRun_cons (engine : world.correlation = some corr) {event : Event}
    (accepted : inputAccepts event = true) (fuel : Nat) (events : List Event) :
    worldRun (fuel + 2) world ((event :: events).map .emit) =
      worldRun (fuel + 2) (world.afterEmit corr event) (events.map .emit) := by
  have step : worldStep (fuel + 2) world (.emit event) = some (world.afterEmit corr event) :=
    nblexEventEmit_step engine accepted
  rw [worldRun, List.map_cons, List.foldlM_cons, step]
  rfl

theorem NeverCorrelates.found (never : NeverCorrelates world)
    (engine : world.correlation = some corr) {event : Event}
    (accepted : inputAccepts event = true) :
    foundPairs corr event = [] := by
  have handled := never 0 [event] _ (worldRun_cons engine accepted 0 [])
  rw [List.filter_cons_of_pos accepted, World.afterEmit, List.append_assoc] at handled
  have results : (foundPairs corr event).map (pairEvent corr.windowNs) ++ [event] = [event] :=
    List.append_cancel_left handled
  simpa using results

theorem NeverCorrelates.next (never : NeverCorrelates world)
    (engine : world.correlation = some corr) {event : Event}
    (accepted : inputAccepts event = true) :
    NeverCorrelates (world.afterEmit corr event) := by
  intro fuel events after ran
  have handled := never fuel (event :: events) after
    ((worldRun_cons engine accepted fuel events).trans ran)
  rw [handled, List.filter_cons_of_pos accepted, World.afterEmit, never.found engine accepted]
  simp

end Never

/-- An event without data, which no input has filtered. -/
def bareEvent (type : EventType) (timestampNs : Nat) : Event where
  type := type
  timestampNs := timestampNs
  input := none
  data := none

omit [Pcre2] in
/-- A network event is found near a log event of its time. -/
theorem found_sameTime {corr : Correlation} (window : corr.windowNs < 2 ^ 63) {logged : Event}
    (buffered : logged ∈ corr.logEvents) :
    foundPairs corr (bareEvent .network logged.timestampNs) ≠ [] := by
  have near : timeNear corr.windowNs logged (bareEvent .network logged.timestampNs) = true :=
    (withinWindow_self_iff (window.trans (by decide)) logged.timestampNs).mpr window
  have pair : (logged, bareEvent .network logged.timestampNs) ∈
      foundPairs corr (bareEvent .network logged.timestampNs) :=
    List.mem_append_right _ (List.mem_map_of_mem (List.mem_filter.mpr ⟨buffered, near⟩))
  exact List.ne_nil_of_mem pair

/-- In an opened world some events are correlated. -/
theorem EngineReady.correlates {world : World} {corr : Correlation}
    (ready : EngineReady world corr) : ¬NeverCorrelates world := by
  intro never
  have engine := ready.engine
  cases logs : corr.logEvents with
  | cons logged rest =>
      exact found_sameTime ready.window (logs ▸ List.mem_cons_self) (never.found engine rfl)
  | nil =>
      -- A log event is buffered first: the buffer is empty, so that there is room.
      have accepted : inputAccepts (bareEvent .log 0) = true := rfl
      have later := never.next engine accepted
      have next := ready.afterEmit (bareEvent .log 0)
      have none : corr.logEventsCount = 0 := ready.counted.log.trans (by rw [logs]; rfl)
      have buffered : bareEvent .log 0 ∈ (bufferEvent
          { corr with correlationsFound := corr.correlationsFound +
            ((foundPairs corr (bareEvent .log 0)).map (pairEvent corr.windowNs)).length }
          (bareEvent .log 0)).logEvents := by
        simp [bufferEvent, bareEvent, addToBuffer, none, maxBufferSize, nblexEventClone]
      exact found_sameTime next.window buffered (later.found next.engine rfl)

/-! ## Disabling correlation -/

/-- What `nblex_config_apply` leaves of a world to the events that are emitted into it. -/
def World.configured (world : World) (config : NblexConfig) (inputs : InputWorld)
    (allocs : Nat → InputAllocs) : World :=
  { world with
    correlation := (nblexConfigApply config { inputs with correlation := world.correlation }
      allocs).correlation }

/-- A configuration that disables correlation changes nothing for events. -/
theorem configured_disabled {config : NblexConfig} (disabled : config.correlationEnabled = false)
    (world : World) (inputs : InputWorld) (allocs : Nat → InputAllocs) :
    world.configured config inputs allocs = world := by
  rw [World.configured, nblexConfigApply_correlation, applyCorrelation, if_neg (by simp [disabled])]

/-- No configuration that disables correlation keeps the events of an opened world from being
    correlated. -/
theorem disabled_correlates {config : NblexConfig} (disabled : config.correlationEnabled = false)
    {world : World} (opened : Opened world) (inputs : InputWorld) (allocs : Nat → InputAllocs) :
    ¬NeverCorrelates (world.configured config inputs allocs) := by
  rw [configured_disabled disabled]
  obtain ⟨corr, ready⟩ := opened.ready
  exact ready.correlates

end Worlds

/-- The default configuration, with correlation disabled. -/
def disabledConfig : NblexConfig := { correlationEnabled := false }

theorem disabled_correlates_disabledConfig :
    ¬@NeverCorrelates literalPcre2
      (@World.configured literalPcre2 (openedWorld 100) disabledConfig (newInputWorld none)
        (fun _ => ⟨true, true⟩)) :=
  @disabled_correlates literalPcre2 disabledConfig rfl _ (@Opened.fresh literalPcre2) _ _

/-- A log event and a network event at the same time are handled together with a third event. -/
theorem disabledConfig_threeHandled :
    ∃ after, @worldRun literalPcre2 2
        (@World.configured literalPcre2 (openedWorld 100) disabledConfig (newInputWorld none)
          (fun _ => ⟨true, true⟩))
        [.emit (bareEvent .log 1), .emit (bareEvent .network 1)] = some after ∧
      after.handled.map Event.type = [.log, .correlation, .network] ∧
      after.eventsCorrelated = 1 := by
  rw [@configured_disabled literalPcre2 disabledConfig rfl]
  exact ⟨_, rfl, by decide, rfl⟩

end Nblex
