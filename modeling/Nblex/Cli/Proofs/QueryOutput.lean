import Nblex.Cli.Main
import Nblex.Core.Proofs.EventReleases
import Nblex.Core.NqlExecutor.Proofs.ExecutorKeeps

/-!
# The results of a query on standard output

The executor emits its results without an input, and `event_handler_query` takes the world of an
event from its input. So no result is printed, whatever the query and the events are.
-/

namespace Nblex

namespace Owned

/-! ## Emission and the user data of the handler -/

section Data

variable {σ : Type}

/-- Emission of an event without an input leaves the user data of the handler alone. -/
def KeepsData (emit : World σ → EventRef → World σ) : Prop :=
  ∀ world ref, ref.event.input = none → (emit world ref).eventHandlerData = world.eventHandlerData

variable (allocs : EngineAllocs) {emit : World σ → EventRef → World σ}

theorem correlationCheckEntry_data (keeps : KeepsData emit) (newEvent : EventRef)
    (world : World σ) (buffered : EventRef) :
    (correlationCheckEntry allocs emit newEvent world buffered).eventHandlerData =
      world.eventHandlerData := by
  unfold correlationCheckEntry
  cases world.correlation with
  | none => rfl
  | some corr =>
      dsimp only
      split
      · split
        · split
          · exact keeps _ ⟨_, createCorrelationEvent _ _ _⟩ rfl
          · rfl
        · rfl
      · rfl

theorem correlationProcessEvent_data (keeps : KeepsData emit) (world : World σ)
    (ref : EventRef) :
    (correlationProcessEvent allocs emit world ref).eventHandlerData =
      world.eventHandlerData := by
  have checked : (correlationCheckEvent allocs emit world ref).eventHandlerData =
      world.eventHandlerData := by
    unfold correlationCheckEvent
    cases world.correlation with
    | none => rfl
    | some corr =>
        dsimp only
        generalize checkBuffer corr ref = entries
        induction entries generalizing world with
        | nil => rfl
        | cons entry entries ih =>
            rw [List.foldl_cons, ih, correlationCheckEntry_data allocs keeps]
  unfold correlationProcessEvent
  generalize correlationCheckEvent allocs emit world ref = middle at checked
  dsimp only
  cases middle.correlation with
  | none => exact checked
  | some corr => exact checked

variable [Pcre2] {handler : EventHandler σ}

theorem emitWith_keepsData {process : World σ → EventRef → World σ} (quiet : KeepsData handler)
    (calm : ∀ world ref, (process world ref).eventHandlerData = world.eventHandlerData) :
    KeepsData (emitWith handler process) := by
  intro world ref noInput
  unfold emitWith
  split
  · exact (quiet _ ref noInput).trans (calm _ ref)
  · rfl

/-- The engine leaves the user data alone if the handler does so on events without an input. -/
theorem engine_data (quiet : KeepsData handler) (world : World σ) (ref : EventRef) :
    (correlationProcessEvent allocs (emitWith handler (fun world _ => world)) world
      ref).eventHandlerData = world.eventHandlerData :=
  correlationProcessEvent_data allocs (emitWith_keepsData quiet (fun _ _ => rfl)) world ref

theorem eventEmit_keepsData (quiet : KeepsData handler) : KeepsData (eventEmit handler allocs) :=
  emitWith_keepsData quiet (engine_data allocs quiet)

/-- An event that its input accepts reaches the handler in a world with the same user data. -/
theorem eventEmit_accepted (quiet : KeepsData handler) (harmless : Harmless handler)
    (world : World σ) (ref : EventRef) (accepted : inputAccepts ref.event = true) :
    ∃ middle, middle.eventHandlerData = world.eventHandlerData ∧
      world.ledger.next ≤ middle.ledger.next ∧
      eventEmit handler allocs world ref = eventFree (handler middle ref) ref := by
  refine ⟨correlationProcessEvent allocs (emitWith handler (fun world _ => world))
    { world with eventsProcessed := world.eventsProcessed + 1 } ref, ?_, ?_, ?_⟩
  · exact engine_data allocs quiet _ ref
  · have calm := correlationProcessEvent_calm allocs
      (emitWith_frees harmless (fun world _ => Calm.refl world))
      { world with eventsProcessed := world.eventsProcessed + 1 } ref
    exact calm.spends.next_le
  · rw [eventEmit, emitWith, if_pos accepted]

/-- Two handlers that agree on events without an input do the same with such an event. -/
theorem eventEmit_congr {other : EventHandler σ}
    (agree : ∀ world ref, ref.event.input = none → handler world ref = other world ref)
    (world : World σ) {ref : EventRef} (noInput : ref.event.input = none) :
    eventEmit handler allocs world ref = eventEmit other allocs world ref := by
  have nested : correlationCheckEntry allocs (emitWith handler (fun world _ => world)) ref =
      correlationCheckEntry allocs (emitWith other (fun world _ => world)) ref := by
    funext world buffered
    have same : ∀ world : World σ, ∀ pair : Event × Event, ∀ windowNs handle : Nat,
        emitWith handler (fun world _ => world) world
            ⟨handle, createCorrelationEvent windowNs pair.1 pair.2⟩ =
          emitWith other (fun world _ => world) world
            ⟨handle, createCorrelationEvent windowNs pair.1 pair.2⟩ := by
      intro world pair windowNs handle
      simp only [emitWith, agree _ ⟨handle, createCorrelationEvent _ _ _⟩ rfl]
    unfold correlationCheckEntry
    simp only [same]
  simp only [eventEmit, emitWith, correlationProcessEvent, correlationCheckEvent, nested,
    agree _ ref noInput]

end Data

end Owned

namespace Cli

open Owned

section Run

variable [Pcre2] (nqlParse : String → Option NqlQuery) (query : String) (env : CallEnv)

/-! ## The handler -/

omit [Pcre2] in
theorem resultEvent_input (now : Nat) (result : ExecResult) :
    (resultEvent now result).input = none := by
  cases result <;> rfl

theorem queryHandlerWith_quiet (inner : EventHandler QueryRun) (world : CliWorld)
    {ref : EventRef} (noInput : ref.event.input = none) :
    queryHandlerWith nqlParse query env inner world ref = world := by
  rw [queryHandlerWith, noInput]

theorem eventHandlerQuery_keepsData : KeepsData (eventHandlerQuery nqlParse query env) :=
  fun world _ noInput =>
    congrArg World.eventHandlerData (queryHandlerWith_quiet nqlParse query env _ world noInput)

/-- What a call of the executor does to the run: the results get event objects of their own. -/
structure Emitted (world after : CliWorld) (executed : Executed) (handles : List Nat) : Prop where
  fresh : ∀ handle ∈ handles, world.ledger.next ≤ handle ∧ handle < after.ledger.next
  next_le : world.ledger.next ≤ after.ledger.next
  length : handles.length =
    executed.exec.results.length - world.eventHandlerData.exec.results.length
  run : after.eventHandlerData =
    { world.eventHandlerData with
      exec := executed.exec
      isDefined := executed.result.isSome
      results := handles ++ world.eventHandlerData.results }

section Inner

variable {handler : EventHandler QueryRun}

theorem emitResult_frees (harmless : Harmless handler) (world : CliWorld)
    (result : ExecResult) :
    Calm (recordResult world) (emitResult env handler world result) [world.ledger.next] :=
  eventEmit_frees harmless _ (recordResult world) ⟨world.ledger.next, _⟩ (Nat.lt_succ_self _)

theorem emitResult_calm (harmless : Harmless handler) (world : CliWorld) (result : ExecResult) :
    Calm world (emitResult env handler world result) [] := by
  have recorded : Calm world.issue (recordResult world) [] := Calm.of_same rfl rfl rfl
  exact Calm.issued (recorded.trans (emitResult_frees env harmless world result))

theorem emitResult_next_lt (harmless : Harmless handler) (world : CliWorld)
    (result : ExecResult) :
    world.ledger.next < (emitResult env handler world result).ledger.next :=
  (emitResult_frees env harmless world result).spends.next_le

theorem emitResult_data (quiet : KeepsData handler) (world : CliWorld) (result : ExecResult) :
    (emitResult env handler world result).eventHandlerData =
      { world.eventHandlerData with
        results := world.ledger.next :: world.eventHandlerData.results } :=
  eventEmit_keepsData _ quiet _ _ (resultEvent_input _ result)

theorem afterExecuted_calm (harmless : Harmless handler) (world : CliWorld)
    (executed : Executed) : Calm world (afterExecuted env handler world executed) [] := by
  have recorded : Calm world (recordExecuted world executed) [] := Calm.of_same rfl rfl rfl
  refine recorded.trans ?_
  unfold afterExecuted
  generalize executed.exec.results.drop world.eventHandlerData.exec.results.length = emitted
  generalize recordExecuted world executed = start
  induction emitted generalizing start with
  | nil => exact Calm.refl start
  | cons result emitted ih => exact (emitResult_calm env harmless start result).trans (ih _)

theorem foldl_emitResult (harmless : Harmless handler) (quiet : KeepsData handler)
    (emitted : List ExecResult) (world : CliWorld) :
    ∃ handles : List Nat,
      (∀ handle ∈ handles, world.ledger.next ≤ handle ∧
        handle < (emitted.foldl (emitResult env handler) world).ledger.next) ∧
      world.ledger.next ≤ (emitted.foldl (emitResult env handler) world).ledger.next ∧
      handles.length = emitted.length ∧
      (emitted.foldl (emitResult env handler) world).eventHandlerData =
        { world.eventHandlerData with
          results := handles ++ world.eventHandlerData.results } := by
  induction emitted generalizing world with
  | nil => exact ⟨[], fun _ => List.not_mem_nil.elim, Nat.le_refl _, rfl, rfl⟩
  | cons result emitted ih =>
      have later := emitResult_next_lt env harmless world result
      obtain ⟨handles, fresh, grows, length, run⟩ := ih (emitResult env handler world result)
      rw [List.foldl_cons]
      refine ⟨handles ++ [world.ledger.next], ?_, by omega, by simp [length], ?_⟩
      · intro handle member
        rcases List.mem_append.mp member with inside | here
        · have := fresh handle inside
          omega
        · obtain rfl := List.mem_singleton.mp here
          omega
      · rw [run, emitResult_data env quiet, List.append_assoc]
        rfl

theorem afterExecuted_spec (harmless : Harmless handler) (quiet : KeepsData handler)
    (world : CliWorld) (executed : Executed) :
    ∃ handles, Emitted world (afterExecuted env handler world executed) executed handles := by
  obtain ⟨handles, fresh, grows, length, run⟩ := foldl_emitResult env harmless quiet
    (executed.exec.results.drop world.eventHandlerData.exec.results.length)
    (recordExecuted world executed)
  exact ⟨handles, fresh, grows, length.trans List.length_drop, run⟩

theorem queryHandlerWith_harmless (harmless : Harmless handler) :
    Harmless (queryHandlerWith nqlParse query env handler) := by
  intro world ref
  unfold queryHandlerWith
  cases ref.event.input with
  | none => exact Calm.refl world
  | some input =>
      dsimp only
      generalize nqlExecute nqlParse world.eventHandlerData.exec query ref.event (some worldRef)
        env.clock = executed
      have calm := afterExecuted_calm env harmless world executed
      split
      · exact calm.trans (Calm.of_same rfl rfl rfl)
      · exact calm

end Inner

theorem eventHandlerQuery_harmless : Harmless (eventHandlerQuery nqlParse query env) :=
  queryHandlerWith_harmless nqlParse query env (fun world _ => Calm.refl world)

/-- `event_handler_query` as it is written: its results are handled by `event_handler_query`
    itself. -/
theorem eventHandlerQuery_eq :
    eventHandlerQuery nqlParse query env =
      queryHandlerWith nqlParse query env (eventHandlerQuery nqlParse query env) := by
  have emitted : emitResult env (fun world _ => world) =
      emitResult env (eventHandlerQuery nqlParse query env) := by
    funext world result
    refine eventEmit_congr _ ?_ _ (resultEvent_input _ result)
    intro world ref noInput
    exact (queryHandlerWith_quiet nqlParse query env _ world noInput).symm
  funext world ref
  show queryHandlerWith nqlParse query env (fun world _ => world) world ref = _
  simp only [queryHandlerWith, afterExecuted, emitted]

/-! ## Steps -/

/-- The event objects of results are apart from those of printed events, and there is one for each
    result of the executor. -/
structure Separate (world : CliWorld) : Prop where
  results : ∀ handle ∈ world.eventHandlerData.results, handle < world.ledger.next
  printed : ∀ handle ∈ world.eventHandlerData.printed,
    handle < world.ledger.next ∧ handle ∉ world.eventHandlerData.results
  counted : world.eventHandlerData.results.length = world.eventHandlerData.exec.results.length

omit [Pcre2] in
theorem Separate.of_same {world after : CliWorld} (separate : Separate world)
    (data : after.eventHandlerData = world.eventHandlerData)
    (next_le : world.ledger.next ≤ after.ledger.next) : Separate after where
  results := by
    rw [data]
    exact fun handle member => Nat.lt_of_lt_of_le (separate.results handle member) next_le
  printed := by
    rw [data]
    intro handle member
    obtain ⟨known, apart⟩ := separate.printed handle member
    exact ⟨Nat.lt_of_lt_of_le known next_le, apart⟩
  counted := data ▸ separate.counted

omit [Pcre2] in
theorem Emitted.separate {world after : CliWorld} {executed : Executed} {handles : List Nat}
    (emitted : Emitted world after executed handles) (separate : Separate world)
    (grows : world.eventHandlerData.exec.results.length ≤ executed.exec.results.length) :
    Separate after where
  results := by
    rw [emitted.run]
    intro handle member
    rcases List.mem_append.mp member with new | old
    · exact (emitted.fresh handle new).2
    · exact Nat.lt_of_lt_of_le (separate.results handle old) emitted.next_le
  printed := by
    rw [emitted.run]
    intro handle member
    obtain ⟨known, apart⟩ := separate.printed handle member
    refine ⟨Nat.lt_of_lt_of_le known emitted.next_le, ?_⟩
    intro result
    rcases List.mem_append.mp result with new | old
    · exact Nat.not_lt.mpr (emitted.fresh handle new).1 known
    · exact apart old
  counted := by
    have counted := separate.counted
    have length := emitted.length
    rw [emitted.run]
    simp only [List.length_append]
    omega

theorem nqlExecute_grows (exec : Executor) (text : String) (event : Event)
    (world : Option WorldRef) (clock : Nat → Nat) :
    exec.results.length ≤
      (nqlExecute nqlParse exec text event world clock).exec.results.length := by
  refine nqlExecute_keeps (P := fun after => exec.results.length ≤ after.results.length)
    ?_ (fun _ _ _ grows => grows) ?_ (Nat.le_refl _) nqlParse event clock
  · intro middle ref stage newState _ _ grows
    unfold getState
    split <;> exact grows
  · intro middle emitted grows
    exact Nat.le_trans grows (by simp [Executor.emit])

omit [Pcre2] in
theorem timerTick_grows (exec : Executor) (addr now : Nat) :
    exec.results.length ≤ (timerTick exec addr now).exec.results.length := by
  refine timerTick_keeps (P := fun after => exec.results.length ≤ after.results.length)
    (fun _ _ _ grows => grows) ?_ (Nat.le_refl _) addr now
  intro middle emitted grows
  exact Nat.le_trans grows (by simp [Executor.emit])

/-- From `run` to `after` the executor has taken the step, if there is one. -/
def Follows (run after : QueryRun) : Option ExecOp → Prop
  | none => after.exec = run.exec ∧ after.isDefined = run.isDefined
  | some op =>
      after.exec = (execStep nqlParse run.exec op).exec ∧
        after.isDefined = (execStep nqlParse run.exec op).result.isSome

/-- The handler on an event of an input. -/
theorem eventHandlerQuery_spec {world : CliWorld} (separate : Separate world) (ref : EventRef)
    {input : Input} (hasInput : ref.event.input = some input)
    (known : ref.handle < world.ledger.next)
    (apart : ref.handle ∉ world.eventHandlerData.results) :
    Separate (eventHandlerQuery nqlParse query env world ref) ∧
      Follows nqlParse world.eventHandlerData
        (eventHandlerQuery nqlParse query env world ref).eventHandlerData
        (some (.execute query ref.event (some worldRef) env.clock)) := by
  have grows := nqlExecute_grows nqlParse world.eventHandlerData.exec query ref.event
    (some worldRef) env.clock
  rw [eventHandlerQuery, queryHandlerWith, hasInput]
  simp only [Follows, execStep]
  generalize nqlExecute nqlParse world.eventHandlerData.exec query ref.event (some worldRef)
    env.clock = executed at grows
  have harmless : Harmless (fun (world : CliWorld) (_ : EventRef) => world) :=
    fun world _ => Calm.refl world
  obtain ⟨handles, emitted⟩ :=
    afterExecuted_spec env harmless (fun _ _ _ => rfl) world executed
  have after := emitted.separate separate grows
  split
  · refine ⟨⟨after.results, ?_, after.counted⟩, ?_⟩
    · intro handle member
      rcases List.mem_cons.mp member with rfl | earlier
      · refine ⟨Nat.lt_of_lt_of_le known emitted.next_le, ?_⟩
        intro result
        simp only [printEvent, emitted.run] at result
        rcases List.mem_append.mp result with new | old
        · exact Nat.not_lt.mpr (emitted.fresh _ new).1 known
        · exact apart old
      · exact after.printed handle earlier
    · simp only [printEvent, emitted.run, and_self]
  · exact ⟨after, by simp only [emitted.run, and_self]⟩

/-- The step of the executor on an event that an input emits. -/
def executeOp (event : Event) : Option ExecOp :=
  if inputAccepts event then some (.execute query event (some worldRef) env.clock) else none

/-- An input creates an event and emits it. -/
theorem emitCreated_spec {world : CliWorld} (separate : Separate world) (allocs : EngineAllocs)
    (event : Event) {input : Input} (hasInput : event.input = some input) :
    Separate (eventEmit (eventHandlerQuery nqlParse query env) allocs world.create
        ⟨world.ledger.next, event⟩) ∧
      Follows nqlParse world.eventHandlerData
        (eventEmit (eventHandlerQuery nqlParse query env) allocs world.create
          ⟨world.ledger.next, event⟩).eventHandlerData
        (executeOp query env event) := by
  cases accepted : inputAccepts event with
  | false =>
      rw [eventEmit, emitWith, if_neg (by simp [accepted]), executeOp, if_neg (by simp [accepted])]
      have next : (eventFree world.create ⟨world.ledger.next, event⟩).ledger.next =
          world.ledger.next + 1 := Ledger.release_next _ _
      exact ⟨separate.of_same rfl (by omega), rfl, rfl⟩
  | true =>
      obtain ⟨middle, data, next_le, emitted⟩ := eventEmit_accepted allocs
        (eventHandlerQuery_keepsData nqlParse query env)
        (eventHandlerQuery_harmless nqlParse query env) world.create
        ⟨world.ledger.next, event⟩ accepted
      have known : world.ledger.next < middle.ledger.next := next_le
      have before : Separate middle := separate.of_same data (Nat.le_of_lt known)
      have apart : world.ledger.next ∉ middle.eventHandlerData.results := by
        rw [data]
        exact fun member => Nat.lt_irrefl _ (separate.results _ member)
      obtain ⟨after, follows⟩ := eventHandlerQuery_spec nqlParse query env before
        ⟨world.ledger.next, event⟩ hasInput known apart
      rw [emitted, executeOp, if_pos accepted]
      rw [data] at follows
      exact ⟨after.of_same rfl (Nat.le_of_eq (Ledger.release_next _ _).symm), follows⟩

/-- The step of the executor that a captured event of an input leads to. -/
def captureOp (type : EventType) (capture : Capture) : Option ExecOp :=
  if capture.event then
    capture.data.bind (fun data => executeOp query env
      { nblexEventNew type (some capture.input) capture.now with data := some data })
  else none

/-- The step of the executor that a step of the run leads to. -/
def CliOp.execOp : CliOp → Option ExecOp
  | .loop (.packet capture) env => captureOp query env .network capture
  | .loop (.line capture) env => captureOp query env .log capture
  | .loop (.cleanup _) _ => none
  | .timer addr now _ => some (.tick addr now)

omit [Pcre2] in
theorem eventFree_separate {world : CliWorld} (separate : Separate world) (ref : EventRef) :
    Separate (eventFree world ref) :=
  separate.of_same rfl (Nat.le_of_eq (Ledger.release_next _ _).symm)

omit [Pcre2] in
theorem create_separate {world : CliWorld} (separate : Separate world) : Separate world.create :=
  separate.of_same rfl (Nat.le_succ _)

omit [Pcre2] in
theorem cleanupTimerCb_data (world : CliWorld) (now : Nat) :
    (Owned.cleanupTimerCb world now).eventHandlerData = world.eventHandlerData := by
  unfold Owned.cleanupTimerCb
  cases world.correlation <;> rfl

omit [Pcre2] in
theorem cleanupTimerCb_next (world : CliWorld) (now : Nat) :
    (Owned.cleanupTimerCb world now).ledger.next = world.ledger.next := by
  have kept : ∀ (ledger : Ledger) (refs : List EventRef),
      (refs.foldl (fun ledger ref => ledger.release ref.handle) ledger).next = ledger.next := by
    intro ledger refs
    induction refs generalizing ledger with
    | nil => rfl
    | cons ref refs ih => rw [List.foldl_cons, ih, Ledger.release_next]
  unfold Owned.cleanupTimerCb
  cases world.correlation with
  | none => rfl
  | some corr => simp only [Owned.cleanupOldEvents, kept]

/-- A callback of an input or of the engine. -/
theorem loopStep_follows {world : CliWorld} (separate : Separate world) (op : LoopOp) :
    Separate (loopStep (eventHandlerQuery nqlParse query env) world op) ∧
      Follows nqlParse world.eventHandlerData
        (loopStep (eventHandlerQuery nqlParse query env) world op).eventHandlerData
        (CliOp.execOp query (.loop op env)) := by
  cases op with
  | packet capture =>
      simp only [loopStep, packetHandler, CliOp.execOp, captureOp]
      split
      · cases capture.data with
        | none => exact ⟨eventFree_separate (create_separate separate) _, rfl, rfl⟩
        | some data =>
            obtain ⟨after, follows⟩ := emitCreated_spec nqlParse query env separate capture.allocs
              { nblexEventNew .network (some capture.input) capture.now with
                data := some data } rfl
            exact ⟨eventFree_separate after _, follows⟩
      · exact ⟨separate, rfl, rfl⟩
  | line capture =>
      simp only [loopStep, fileReadLine, CliOp.execOp, captureOp]
      split
      · cases capture.data with
        | none => exact ⟨eventFree_separate (create_separate separate) _, rfl, rfl⟩
        | some data =>
            exact emitCreated_spec nqlParse query env separate capture.allocs
              { nblexEventNew .log (some capture.input) capture.now with
                data := some data } rfl
      · exact ⟨separate, rfl, rfl⟩
  | cleanup now =>
      have data := cleanupTimerCb_data world now
      refine ⟨separate.of_same data (Nat.le_of_eq (cleanupTimerCb_next world now).symm), ?_, ?_⟩
      · exact congrArg QueryRun.exec data
      · exact congrArg QueryRun.isDefined data

/-- A step of a run takes the step of the executor that it leads to. -/
theorem cliStep_spec {world : CliWorld} (separate : Separate world)
    (running : world.eventHandlerData.isDefined = true) (op : CliOp) :
    Separate (cliStep nqlParse query world op) ∧
      Follows nqlParse world.eventHandlerData (cliStep nqlParse query world op).eventHandlerData
        (op.execOp query) := by
  unfold cliStep
  rw [if_pos running]
  cases op with
  | loop op env => exact loopStep_follows nqlParse query env separate op
  | timer addr now env =>
      obtain ⟨handles, emitted⟩ := afterExecuted_spec env
        (eventHandlerQuery_harmless nqlParse query env)
        (eventHandlerQuery_keepsData nqlParse query env) world
        (timerTick world.eventHandlerData.exec addr now)
      refine ⟨emitted.separate separate (timerTick_grows _ addr now), ?_⟩
      simp only [Follows, CliOp.execOp, execStep, emitted.run, and_self]

/-! ## Runs -/

theorem cliRun_stopped {world : CliWorld} (stopped : world.eventHandlerData.isDefined = false)
    (ops : List CliOp) : ops.foldl (cliStep nqlParse query) world = world := by
  induction ops with
  | nil => rfl
  | cons op ops ih =>
      have same : cliStep nqlParse query world op = world := if_neg (by simp [stopped])
      rw [List.foldl_cons, same, ih]

/-- A run takes the steps of the executor that its steps lead to. -/
theorem cliRun_spec {world : CliWorld} (separate : Separate world)
    (running : world.eventHandlerData.isDefined = true) (ops : List CliOp) :
    Separate (ops.foldl (cliStep nqlParse query) world) ∧
      (ops.foldl (cliStep nqlParse query) world).eventHandlerData.exec =
        (execRunFrom nqlParse world.eventHandlerData.exec
          (ops.filterMap (CliOp.execOp query))).exec := by
  induction ops generalizing world with
  | nil => exact ⟨separate, rfl⟩
  | cons op ops ih =>
      obtain ⟨after, follows⟩ := cliStep_spec nqlParse query separate running op
      rw [List.foldl_cons]
      cases taken : op.execOp query with
      | none =>
          rw [taken] at follows
          obtain ⟨exec, isDefined⟩ := follows
          rw [List.filterMap_cons_none taken, ← exec]
          exact ih after (isDefined.trans running)
      | some execOp =>
          rw [taken] at follows
          obtain ⟨exec, isDefined⟩ := follows
          rw [List.filterMap_cons_some taken, execRunFrom]
          cases result : (execStep nqlParse world.eventHandlerData.exec execOp).result with
          | none =>
              rw [result] at isDefined
              rw [cliRun_stopped nqlParse query isDefined]
              exact ⟨after, exec⟩
          | some matched =>
              rw [result] at isDefined
              dsimp only
              rw [← exec]
              exact ih after isDefined

omit [Pcre2] in
theorem newWorld_separate (windowMs : Option Nat) :
    Separate (Owned.newWorld windowMs newQueryRun) :=
  ⟨nofun, nofun, rfl⟩

/-- No result that the executor emits in a run is printed. So each is printed exactly once just in
    case the executor, by itself on the same events and ticks, emits none. -/
theorem resultsPrinted_iff (windowMs : Option Nat) (ops : List CliOp) :
    (∀ result ∈ (cliRun nqlParse query windowMs ops).eventHandlerData.results,
      (cliRun nqlParse query windowMs ops).eventHandlerData.printed.count result = 0) ∧
    ((∀ result ∈ (cliRun nqlParse query windowMs ops).eventHandlerData.results,
        (cliRun nqlParse query windowMs ops).eventHandlerData.printed.count result = 1) ↔
      (execRun nqlParse (ops.filterMap (CliOp.execOp query))).exec.results = []) := by
  obtain ⟨separate, exec⟩ := cliRun_spec nqlParse query (newWorld_separate windowMs) rfl ops
  have unprinted : ∀ result ∈ (cliRun nqlParse query windowMs ops).eventHandlerData.results,
      (cliRun nqlParse query windowMs ops).eventHandlerData.printed.count result = 0 := by
    intro result member
    refine List.count_eq_zero.mpr ?_
    exact fun printed => (separate.printed result printed).2 member
  refine ⟨unprinted, ?_⟩
  have counted : (cliRun nqlParse query windowMs ops).eventHandlerData.results.length =
      (execRun nqlParse (ops.filterMap (CliOp.execOp query))).exec.results.length :=
    separate.counted.trans (congrArg (fun exec => exec.results.length) exec)
  rw [← List.length_eq_zero_iff, ← counted, List.length_eq_zero_iff]
  constructor
  · intro once
    refine List.eq_nil_iff_forall_not_mem.mpr ?_
    intro result member
    exact absurd ((unprinted result member).symm.trans (once result member)) (by decide)
  · intro none result member
    rw [none] at member
    cases member

end Run

/-- A line of a log, read by an input without a filter. -/
def loggedLine : CliOp :=
  .loop (.line captured) ⟨fun _ => 0, fun _ => 0, fun _ => captured.allocs⟩

/-- The count that `aggregate count()` emits for the first event is not printed. -/
theorem count_not_printed :
    ¬∀ (query : String) (ops : List CliOp),
      ∀ result ∈ (@cliRun literalPcre2 sampleParse query (some 100) ops).eventHandlerData.results,
        (@cliRun literalPcre2 sampleParse query (some 100)
          ops).eventHandlerData.printed.count result = 1 := by
  intro once
  let _ := literalPcre2
  have results : (cliRun sampleParse aggregateText (some 100)
      [loggedLine]).eventHandlerData.results = [2] := by decide +kernel
  have printed : (cliRun sampleParse aggregateText (some 100)
      [loggedLine]).eventHandlerData.printed = [0] := by decide +kernel
  have once := once aggregateText [loggedLine] 2 (by rw [results]; exact List.mem_singleton_self 2)
  rw [printed] at once
  exact absurd once (by decide)

end Cli

end Nblex
