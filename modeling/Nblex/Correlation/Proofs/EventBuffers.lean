import Nblex.Correlation.EventBuffers
import Nblex.Correlation.Proofs.Cleanup

/-!
# The counters of the buffers

In every run of the engine the two buffers are linked lists with no entry in common, and each
counter is the length of its list.
-/

namespace Nblex

namespace LinkedBuffers

open LinkedMemory

/-! ## The loop of a cleanup -/

/-- The entry is not older than the cutoff. -/
def recent (cutoff : Nat) (event : Event) : Bool := decide (cutoff ≤ event.timestampNs)

/-- The number of entries that a cleanup takes out. -/
def removed (cutoff : Nat) (cells : List (Nat × Event)) : Nat :=
  (values cells).countP (fun event => decide (event.timestampNs < cutoff))

theorem removed_add_kept (cutoff : Nat) (cells : List (Nat × Event)) :
    removed cutoff cells + (cells.filter (fun cell => recent cutoff cell.2)).length =
      cells.length := by
  induction cells with
  | nil => rfl
  | cons cell cells ih =>
      by_cases old : cell.2.timestampNs < cutoff
      · simp [removed, recent, old, Nat.not_le.mpr old] at ih ⊢
        omega
      · simp [removed, recent, old, Nat.not_lt.mp old] at ih ⊢
        omega

section Turn

variable {cutoff : Nat} {state : CleanupState}

theorem cleanupTurn_end (reads : state.buffer.load state.entryPtr = some none) :
    cleanupTurn cutoff state = .leave (some (state.buffer, state.count)) := by
  rw [cleanupTurn, reads]

theorem cleanupTurn_old {entry : Nat} {cell : Cell Event}
    (reads : state.buffer.load state.entryPtr = some (some entry))
    (here : state.buffer.memory entry = some cell) (old : cell.value.timestampNs < cutoff) :
    cleanupTurn cutoff state = .again
      { state with
        buffer := (state.buffer.store state.entryPtr cell.next).release entry
        count := u64Sub state.count 1 } := by
  simp only [cleanupTurn, reads, here, if_pos old]

theorem cleanupTurn_recent {entry : Nat} {cell : Cell Event}
    (reads : state.buffer.load state.entryPtr = some (some entry))
    (here : state.buffer.memory entry = some cell) (new : ¬cell.value.timestampNs < cutoff) :
    cleanupTurn cutoff state = .again { state with entryPtr := .next entry } := by
  simp only [cleanupTurn, reads, here, if_neg new]

end Turn

theorem removed_cons_old {cutoff : Nat} {cell : Nat × Event} (old : cell.2.timestampNs < cutoff)
    (cells : List (Nat × Event)) : removed cutoff (cell :: cells) = removed cutoff cells + 1 :=
  List.countP_cons_of_pos (decide_eq_true old)

theorem removed_cons_recent {cutoff : Nat} {cell : Nat × Event}
    (new : ¬cell.2.timestampNs < cutoff) (cells : List (Nat × Event)) :
    removed cutoff (cell :: cells) = removed cutoff cells :=
  List.countP_cons_of_neg (by simpa using new)

/-- The loop takes the old entries behind its link out, and counts down for each of them. -/
theorem runLoop_cleanupTurn (cutoff : Nat) : ∀ (cells : List (Nat × Event))
    {state : CleanupState} {turns : Nat}, Behind state.buffer state.entryPtr cells →
    cells.length < turns → cells.length ≤ state.count →
    ∃ buffer, runLoop (cleanupTurn cutoff) turns state =
        some (some (buffer, state.count - removed cutoff cells)) ∧
      Replaces state.buffer state.entryPtr cells
        (cells.filter (fun cell => recent cutoff cell.2)) buffer := by
  intro cells
  induction cells with
  | nil =>
      intro state turns behind enough _
      obtain ⟨turns, rfl⟩ : ∃ fewer, turns = fewer + 1 := Nat.exists_eq_add_one.mpr enough
      refine ⟨state.buffer, ?_, replaces_nil behind⟩
      rw [runLoop_leave (cleanupTurn_end behind.nil)]
      rfl
  | cons entry cells ih =>
      intro state turns behind enough counted
      rw [List.length_cons] at enough counted
      obtain ⟨turns, rfl⟩ : ∃ fewer, turns = fewer + 1 := Nat.exists_eq_add_one.mpr (by omega)
      obtain ⟨reads, next, here, -⟩ := behind.cons
      by_cases old : entry.2.timestampNs < cutoff
      · have countDown : u64Sub state.count 1 = state.count - 1 := u64Sub_of_le (by omega)
        have left := @ih
          ⟨state.entryPtr, (state.buffer.store state.entryPtr next).release entry.1,
            u64Sub state.count 1⟩ turns (behind.drop here) (by omega)
          (by simp only [countDown]; omega)
        obtain ⟨buffer, run, rest⟩ := left
        refine ⟨buffer, ?_, ?_⟩
        · rw [runLoop_again (cleanupTurn_old reads here old), run, removed_cons_old old, countDown,
            Nat.sub_sub, Nat.add_comm]
        · rw [List.filter_cons_of_neg (by simpa [recent] using old)]
          exact rest.drop behind
      · obtain ⟨buffer, run, rest⟩ := @ih { state with entryPtr := .next entry.1 } turns
          behind.keep (by omega) (Nat.le_of_succ_le counted)
        refine ⟨buffer, ?_, ?_⟩
        · rw [runLoop_again (cleanupTurn_recent reads here old), run, removed_cons_recent old]
        · rw [List.filter_cons_of_pos (by simpa [recent] using old)]
          exact rest.keep behind

/-! ## The buffers -/

/-- The buffers of a world are the lists of these entries, none of them in both, and the counters
    are the lengths of the lists. -/
structure Holds (world : World) (logs networks : List (Nat × Event)) : Prop where
  log : Spans world.memory world.correlation.logEvents logs
  network : Spans world.memory world.correlation.networkEvents networks
  distinct : (addresses (logs ++ networks)).Nodup
  logCount : world.correlation.logEventsCount = logs.length
  networkCount : world.correlation.networkEventsCount = networks.length
  logBound : logs.length ≤ maxBufferSize
  networkBound : networks.length ≤ maxBufferSize

/-- The engine with its buffers as lists of events. -/
def Correlation.listed (corr : Correlation) (logs networks : List (Nat × Event)) :
    Nblex.Correlation where
  windowNs := corr.windowNs
  logEvents := values logs
  networkEvents := values networks
  logEventsCount := corr.logEventsCount
  networkEventsCount := corr.networkEventsCount
  correlationsFound := corr.correlationsFound

/-- The world with its buffers as lists of events. -/
def World.listed (world : World) (logs networks : List (Nat × Event)) : Nblex.World where
  correlation := some (world.correlation.listed logs networks)
  eventsProcessed := world.eventsProcessed
  eventsCorrelated := world.eventsCorrelated
  handled := world.handled

theorem holds_newWorld (windowNs : Nat) : Holds (newWorld windowNs) [] [] :=
  ⟨rfl, rfl, List.nodup_nil, rfl, rfl, Nat.zero_le _, Nat.zero_le _⟩

section Holds

variable {world : World} {logs networks : List (Nat × Event)}

theorem Holds.apart (holds : Holds world logs networks) :
    (addresses logs).Nodup ∧ (addresses networks).Nodup ∧
      ∀ address ∈ addresses logs, address ∉ addresses networks := by
  have distinct := holds.distinct
  rw [addresses_append, List.nodup_append] at distinct
  obtain ⟨log, network, different⟩ := distinct
  exact ⟨log, network, fun address inLog inNetwork => different _ inLog _ inNetwork rfl⟩

/-- What does not touch the buffers keeps what they hold. -/
theorem Holds.congr (holds : Holds world logs networks) {world' : World}
    (memory : world'.memory = world.memory)
    (log : world'.correlation.logEvents = world.correlation.logEvents ∧
      world'.correlation.logEventsCount = world.correlation.logEventsCount)
    (network : world'.correlation.networkEvents = world.correlation.networkEvents ∧
      world'.correlation.networkEventsCount = world.correlation.networkEventsCount) :
    Holds world' logs networks := by
  refine ⟨?_, ?_, holds.distinct, ?_, ?_, holds.logBound, holds.networkBound⟩
  · rw [memory, log.1]
    exact holds.log
  · rw [memory, network.1]
    exact holds.network
  · rw [log.2]
    exact holds.logCount
  · rw [network.2]
    exact holds.networkCount

/-- Writing a list of log events that has no entry in common with the network events. -/
theorem Holds.setLog (holds : Holds world logs networks) {buffer : Rooted Event}
    {cells : List (Nat × Event)} (spans : Spans buffer.memory buffer.head cells)
    (others : Spans buffer.memory world.correlation.networkEvents networks)
    (distinct : (addresses (cells ++ networks)).Nodup) (bound : cells.length ≤ maxBufferSize) :
    Holds (world.setLog (buffer, cells.length)) cells networks :=
  ⟨spans, others, distinct, rfl, holds.networkCount, bound, holds.networkBound⟩

/-- Writing a list of network events that has no entry in common with the log events. -/
theorem Holds.setNetwork (holds : Holds world logs networks) {buffer : Rooted Event}
    {cells : List (Nat × Event)} (spans : Spans buffer.memory buffer.head cells)
    (others : Spans buffer.memory world.correlation.logEvents logs)
    (distinct : (addresses (logs ++ cells)).Nodup) (bound : cells.length ≤ maxBufferSize) :
    Holds (world.setNetwork (buffer, cells.length)) logs cells :=
  ⟨others, spans, distinct, holds.logCount, rfl, holds.logBound, bound⟩

end Holds

/-- The list that a head variable leads to is behind it. -/
theorem behind_head {buffer : Rooted Event} {cells : List (Nat × Event)}
    (spans : Spans buffer.memory buffer.head cells) (distinct : (addresses cells).Nodup) :
    Behind buffer .head cells :=
  ⟨⟨buffer.head, rfl, spans⟩, distinct, fun _ _ => nofun⟩

/-- `cleanup_old_events` keeps the entries that are not older than the cutoff, in their order, and
    counts down by the number of the others. -/
theorem cleanupOldEvents_spec (cutoff : Nat) {turns : Nat} {buffer : Rooted Event}
    {cells : List (Nat × Event)} (spans : Spans buffer.memory buffer.head cells)
    (distinct : (addresses cells).Nodup) (enough : cells.length < turns) :
    ∃ buffer', cleanupOldEvents turns buffer cells.length cutoff =
        some (buffer', (cells.filter (fun cell => recent cutoff cell.2)).length) ∧
      Replaces buffer .head cells (cells.filter (fun cell => recent cutoff cell.2)) buffer' := by
  have behind := behind_head spans distinct
  obtain ⟨buffer', run, replaced⟩ :=
    @runLoop_cleanupTurn cutoff cells ⟨.head, buffer, cells.length⟩ turns behind enough (le_refl _)
  have counts := removed_add_kept cutoff cells
  have left : cells.length - removed cutoff cells =
      (cells.filter (fun cell => recent cutoff cell.2)).length := by omega
  refine ⟨buffer', ?_, replaced⟩
  rw [cleanupOldEvents, run, Option.join_some, left]

/-- A cleanup of both buffers. -/
theorem cleanupBuffers_spec {turns : Nat} (enough : maxBufferSize < turns) {world : World}
    {logs networks : List (Nat × Event)} (holds : Holds world logs networks) (cutoff : Nat) :
    ∃ next, cleanupBuffers turns world cutoff = some next ∧
      Holds next (logs.filter (fun cell => recent cutoff cell.2))
        (networks.filter (fun cell => recent cutoff cell.2)) ∧
      next.listed (logs.filter (fun cell => recent cutoff cell.2))
          (networks.filter (fun cell => recent cutoff cell.2)) =
        { world.listed logs networks with
          correlation := some
            { world.correlation.listed (logs.filter (fun cell => recent cutoff cell.2))
                (networks.filter (fun cell => recent cutoff cell.2)) with
              logEventsCount := (logs.filter (fun cell => recent cutoff cell.2)).length
              networkEventsCount :=
                (networks.filter (fun cell => recent cutoff cell.2)).length } } := by
  obtain ⟨logDistinct, networkDistinct, apart⟩ := holds.apart
  have logKept := List.filter_sublist (l := logs) (p := fun cell => recent cutoff cell.2)
  have networkKept := List.filter_sublist (l := networks) (p := fun cell => recent cutoff cell.2)
  obtain ⟨log, logRun, logReplaced⟩ := @cleanupOldEvents_spec cutoff turns world.logBuffer logs
    holds.log logDistinct (Nat.lt_of_le_of_lt holds.logBound enough)
  have cleaned := holds.setLog logReplaced.spans
    (logReplaced.frame holds.network (fun address inNetwork inLog => apart _ inLog inNetwork))
    (holds.distinct.sublist ((logKept.append_right networks).map Prod.fst))
    (logKept.length_le.trans holds.logBound)
  obtain ⟨network, networkRun, networkReplaced⟩ := @cleanupOldEvents_spec cutoff turns
    (world.setLog (log, _)).networkBuffer networks cleaned.network networkDistinct
    (Nat.lt_of_le_of_lt holds.networkBound enough)
  refine ⟨_, ?_, cleaned.setNetwork networkReplaced.spans (networkReplaced.frame cleaned.log ?_)
    (cleaned.distinct.sublist ((networkKept.append_left _).map Prod.fst))
    (networkKept.length_le.trans holds.networkBound), rfl⟩
  · rw [← cleaned.networkCount] at networkRun
    simp only [cleanupBuffers, holds.logCount, logRun, Option.bind_eq_bind, Option.bind_some,
      networkRun, Option.pure_def]
  · intro address member
    exact apart address (mem_addresses_of_filter member)

/-! ## Events -/

section Malloc

variable {malloc : Memory Event → Option Nat}

/-- What `add_to_buffer` makes of a buffer: the other lists in the memory stay as they are, and if
    the allocation succeeds the values are those of the buffer as a list of events. -/
structure Added (malloc : Memory Event → Option Nat) (event : Event)
    (buffer buffer' : Rooted Event) (cells cells' : List (Nat × Event)) : Prop where
  spans : Spans buffer'.memory buffer'.head cells'
  bound : cells'.length ≤ maxBufferSize
  others : ∀ {pointer others}, Spans buffer.memory pointer others →
    Spans buffer'.memory pointer others
  distinct : ∀ {pointer others}, Spans buffer.memory pointer others →
    (addresses (cells ++ others)).Nodup → (addresses (cells' ++ others)).Nodup
  events : malloc buffer.memory ≠ none →
    (Nblex.addToBuffer (values cells) cells.length event).1 = values cells'
  count : malloc buffer.memory ≠ none →
    (Nblex.addToBuffer (values cells) cells.length event).2 = cells'.length

theorem addToBuffer_spec {buffer : Rooted Event} {cells : List (Nat × Event)} (event : Event)
    (fresh : ∀ memory address, malloc memory = some address → memory address = none)
    (spans : Spans buffer.memory buffer.head cells) (bound : cells.length ≤ maxBufferSize) :
    ∃ buffer' cells', addToBuffer malloc buffer cells.length event = (buffer', cells'.length) ∧
      Added malloc event buffer buffer' cells cells' := by
  unfold addToBuffer
  by_cases full : maxBufferSize ≤ cells.length
  · have unchanged : Nblex.addToBuffer (values cells) cells.length event =
        (values cells, cells.length) := if_pos full
    exact ⟨buffer, cells, if_pos full, spans, bound, id, fun _ => id,
      fun _ => congrArg Prod.fst unchanged, fun _ => congrArg Prod.snd unchanged⟩
  · rw [if_neg full]
    cases got : malloc buffer.memory with
    | none =>
        exact ⟨buffer, cells, rfl, spans, bound, id, fun _ => id, fun some => absurd got some,
          fun some => absurd got some⟩
    | some address =>
        have free : buffer.memory address = none := fresh _ _ got
        have pushed : Nblex.addToBuffer (values cells) cells.length event =
            (event :: values cells, cells.length + 1) := if_neg full
        refine ⟨_, (address, event) :: cells, rfl, spans.push free event, ?_, ?_, ?_,
          fun _ => congrArg Prod.fst pushed, fun _ => congrArg Prod.snd pushed⟩
        · exact Nat.lt_of_not_le full
        · exact fun others => others.update free _
        · intro pointer others there distinct
          refine List.nodup_cons.mpr ⟨?_, distinct⟩
          rw [List.append_eq, List.map_append, List.mem_append, not_or]
          exact ⟨fun member => spans.taken address member free,
            fun member => there.taken address member free⟩

/-- Buffering an event leaves the buffer of the other type alone. -/
theorem bufferEvent_spec {world : World} {logs networks : List (Nat × Event)} (event : Event)
    (fresh : ∀ memory address, malloc memory = some address → memory address = none)
    (holds : Holds world logs networks) :
    ∃ logs' networks', Holds (bufferEvent malloc world event) logs' networks' ∧
      (event.type ≠ .log → logs' = logs) ∧ (event.type ≠ .network → networks' = networks) ∧
      (malloc world.memory ≠ none → (bufferEvent malloc world event).listed logs' networks' =
        { world.listed logs networks with
          correlation := some
            (Nblex.bufferEvent (world.correlation.listed logs networks) event) }) := by
  unfold bufferEvent
  split
  · rename_i isLog
    obtain ⟨buffer, logs', adds, added⟩ :=
      @addToBuffer_spec malloc world.logBuffer logs event fresh holds.log holds.logBound
    rw [holds.logCount, adds]
    refine ⟨logs', networks, holds.setLog added.spans (added.others holds.network)
      (added.distinct holds.network holds.distinct) added.bound,
      fun notLog => absurd isLog notLog, fun _ => rfl, ?_⟩
    intro succeeds
    simp only [World.listed, World.setLog, Correlation.listed, Nblex.bufferEvent, isLog,
      holds.logCount, added.events succeeds, added.count succeeds]
  · rename_i isNetwork
    obtain ⟨buffer, networks', adds, added⟩ :=
      @addToBuffer_spec malloc world.networkBuffer networks event fresh holds.network
        holds.networkBound
    have swap : ∀ cells cells' : List (Nat × Event), (addresses (cells ++ cells')).Nodup →
        (addresses (cells' ++ cells)).Nodup := by
      intro cells cells' distinct
      rw [addresses_append] at distinct ⊢
      exact List.nodup_append_comm.mp distinct
    rw [holds.networkCount, adds]
    refine ⟨logs, networks', holds.setNetwork added.spans (added.others holds.log)
      (swap _ _ (added.distinct holds.log (swap _ _ holds.distinct))) added.bound, fun _ => rfl,
      fun notNetwork => absurd isNetwork notNetwork, ?_⟩
    intro succeeds
    simp only [World.listed, World.setNetwork, Correlation.listed, Nblex.bufferEvent, isNetwork,
      holds.networkCount, added.events succeeds, added.count succeeds]
  · refine ⟨logs, networks, holds, fun _ => rfl, fun _ => rfl, fun _ => ?_⟩
    rename_i notLog notNetwork
    have unbuffered : ∀ corr, Nblex.bufferEvent corr event = corr := by
      intro corr
      unfold Nblex.bufferEvent
      split
      · contradiction
      · contradiction
      · rfl
    rw [unbuffered]
    rfl

/-! ## Emissions -/

/-- The buffers of the second world are those of the first. -/
structure SameBuffers (world next : World) : Prop where
  memory : next.memory = world.memory
  engine : next.correlation =
    { world.correlation with correlationsFound := next.correlation.correlationsFound }

theorem SameBuffers.holds {world next : World} (same : SameBuffers world next)
    {logs networks : List (Nat × Event)} (holds : Holds world logs networks) :
    Holds next logs networks := by
  refine holds.congr same.memory ?_ ?_
  · rw [same.engine]
    exact ⟨rfl, rfl⟩
  · rw [same.engine]
    exact ⟨rfl, rfl⟩

theorem SameBuffers.trans {world next last : World} (first : SameBuffers world next)
    (second : SameBuffers next last) : SameBuffers world last := by
  refine ⟨second.memory.trans first.memory, ?_⟩
  rw [second.engine, first.engine]

section Emit

variable [Pcre2] {turns fuel : Nat}

/-- A correlation event is counted and handled, and that is all. -/
theorem nblexEventEmit_correlation {event : Event} (noInput : event.input = none)
    (type : event.type = .correlation) (world : World) :
    nblexEventEmit malloc (turns + 1) (fuel + 1) world event =
      some { world with
        eventsProcessed := world.eventsProcessed + 1
        handled := world.handled ++ [event] } := by
  have accepted : inputAccepts event = true := by rw [inputAccepts, noInput]
  have noBuffer : ∀ corr, checkBuffer corr event = none := by
    intro corr
    rw [checkBuffer, type]
  have unbuffered : ∀ world, bufferEvent malloc world event = world := by
    intro world
    rw [bufferEvent, type]
  rw [nblexEventEmit, if_pos accepted, nblexCorrelationProcessEvent, noBuffer,
    correlationCheckLoop]
  simp only [Option.map_some, unbuffered]

/-- The body of the loop of `correlation_check_event` leaves the buffers alone, and does to the
    rest of the world what it does over lists. -/
theorem correlationCheckEntry_spec (event buffered : Event) (world : World)
    (logs networks : List (Nat × Event)) :
    ∃ next, correlationCheckEntry (nblexEventEmit malloc (turns + 1) (fuel + 1)) event world
        buffered = some next ∧ SameBuffers world next ∧
      Nblex.correlationCheckEntry (Nblex.nblexEventEmit (fuel + 1)) event
        (world.listed logs networks) buffered = some (next.listed logs networks) := by
  unfold correlationCheckEntry Nblex.correlationCheckEntry
  by_cases close : withinWindow world.correlation.windowNs event.timestampNs buffered.timestampNs
  · refine ⟨_, (if_pos close).trans (nblexEventEmit_correlation rfl rfl _), ⟨rfl, rfl⟩, ?_⟩
    refine (if_pos close).trans ?_
    rw [nblexEventEmit_other rfl (fun type => EventType.noConfusion type)
      (fun type => EventType.noConfusion type)]
    rfl
  · exact ⟨world, if_neg close, ⟨rfl, rfl⟩, if_neg close⟩

/-- The loop of `correlation_check_event`. -/
theorem correlationCheckLoop_spec (event : Event) (logs networks : List (Nat × Event)) :
    ∀ (cells : List (Nat × Event)) {pointer : Option Nat} {world : World} {left : Nat},
      Spans world.memory pointer cells → cells.length < left →
      ∃ next, correlationCheckLoop (nblexEventEmit malloc (turns + 1) (fuel + 1)) event left
          pointer world = some next ∧ SameBuffers world next ∧
        (values cells).foldlM (Nblex.correlationCheckEntry (Nblex.nblexEventEmit (fuel + 1)) event)
          (world.listed logs networks) = some (next.listed logs networks) := by
  intro cells
  induction cells with
  | nil =>
      intro pointer world left spans enough
      obtain rfl : pointer = none := spans
      obtain ⟨left, rfl⟩ := Nat.exists_eq_add_one.mpr enough
      exact ⟨world, rfl, ⟨rfl, rfl⟩, rfl⟩
  | cons cell cells ih =>
      rintro pointer world left ⟨rfl, next, here, spans⟩ enough
      rw [List.length_cons] at enough
      obtain ⟨left, rfl⟩ : ∃ fewer, left = fewer + 1 := Nat.exists_eq_add_one.mpr (by omega)
      obtain ⟨world', step, same, listed⟩ :=
        @correlationCheckEntry_spec malloc _ turns fuel event cell.2 world logs networks
      rw [← same.memory] at here spans
      obtain ⟨last, loop, same', listed'⟩ := ih spans (Nat.lt_of_succ_lt_succ enough)
      refine ⟨last, ?_, same.trans same', ?_⟩
      · rw [correlationCheckLoop, ← same.memory, here]
        simp only [Option.bind_eq_bind, Option.bind_some, step, here, loop]
      · rw [values_cons, List.foldlM_cons, listed]
        exact listed'

/-- `nblex_correlation_process_event`: it never reads what is not there, changes no buffer but the
    one of the type of the event, and does what it does over lists if the allocation succeeds. -/
theorem nblexCorrelationProcessEvent_spec (enough : maxBufferSize < turns)
    (fresh : ∀ memory address, malloc memory = some address → memory address = none)
    {world : World} {logs networks : List (Nat × Event)} (holds : Holds world logs networks)
    (event : Event) :
    ∃ next logs' networks',
      nblexCorrelationProcessEvent malloc (nblexEventEmit malloc turns (fuel + 1)) turns world
        event = some next ∧
      Holds next logs' networks' ∧
      (event.type ≠ .log → logs' = logs) ∧ (event.type ≠ .network → networks' = networks) ∧
      (malloc world.memory ≠ none →
        Nblex.nblexCorrelationProcessEvent (Nblex.nblexEventEmit (fuel + 1))
          (world.listed logs networks) event = some (next.listed logs' networks')) := by
  obtain ⟨turns, rfl⟩ : ∃ fewer, turns = fewer + 1 := Nat.exists_eq_add_one.mpr (by omega)
  have walked : ∃ cells, Spans world.memory (checkBuffer world.correlation event) cells ∧
      cells.length < turns + 1 ∧
      values cells = Nblex.checkBuffer (world.correlation.listed logs networks) event := by
    unfold checkBuffer Nblex.checkBuffer
    cases event.type with
    | log => exact ⟨networks, holds.network, Nat.lt_of_le_of_lt holds.networkBound enough, rfl⟩
    | network => exact ⟨logs, holds.log, Nat.lt_of_le_of_lt holds.logBound enough, rfl⟩
    | correlation | error => exact ⟨[], rfl, Nat.succ_pos _, rfl⟩
  obtain ⟨cells, spans, shorter, buffer⟩ := walked
  obtain ⟨checked, loop, same, listed⟩ :=
    @correlationCheckLoop_spec malloc _ turns fuel event logs networks cells _ _ _ spans shorter
  obtain ⟨logs', networks', holds', log, network, pushed⟩ :=
    bufferEvent_spec event fresh (same.holds holds)
  refine ⟨bufferEvent malloc checked event, logs', networks', ?_, holds', log, network, ?_⟩
  · rw [nblexCorrelationProcessEvent, loop]
    rfl
  · intro succeeds
    rw [← same.memory] at succeeds
    rw [pushed succeeds, Nblex.nblexCorrelationProcessEvent, Nblex.correlationCheckEvent]
    simp only [World.listed] at listed ⊢
    rw [← buffer, listed]
    rfl

/-! ## Runs -/

/-- One step of an engine keeps what its buffers hold in order. -/
theorem engineStep_holds (enough : maxBufferSize < turns)
    (fresh : ∀ memory address, malloc memory = some address → memory address = none)
    {world : World} {logs networks : List (Nat × Event)} (holds : Holds world logs networks)
    (op : EngineOp) :
    ∃ next logs' networks', engineStep malloc turns (fuel + 1) world op = some next ∧
      Holds next logs' networks' := by
  cases op with
  | process event =>
      obtain ⟨next, logs', networks', step, holds', -⟩ :=
        @nblexCorrelationProcessEvent_spec malloc _ turns fuel enough fresh _ _ _ holds event
      exact ⟨next, logs', networks', step, holds'⟩
  | cleanup cutoff =>
      obtain ⟨next, step, holds', -⟩ := cleanupBuffers_spec enough holds cutoff
      exact ⟨next, _, _, step, holds'⟩

theorem engineRun_holds (enough : maxBufferSize < turns)
    (fresh : ∀ memory address, malloc memory = some address → memory address = none)
    (ops : List EngineOp) :
    ∀ {world : World} {logs networks : List (Nat × Event)}, Holds world logs networks →
      ∃ last logs' networks', engineRun malloc turns (fuel + 1) world ops = some last ∧
        Holds last logs' networks' := by
  induction ops with
  | nil =>
      intro world logs networks holds
      exact ⟨world, logs, networks, rfl, holds⟩
  | cons op ops ih =>
      intro world logs networks holds
      obtain ⟨next, logs', networks', step, holds'⟩ :=
        @engineStep_holds malloc _ turns fuel enough fresh _ _ _ holds op
      obtain ⟨last, logs'', networks'', run, holds''⟩ := ih holds'
      refine ⟨last, logs'', networks'', ?_, holds''⟩
      rw [engineRun, List.foldlM_cons, step]
      exact run

end Emit

end Malloc

/-- `cleanup_old_events` does to the entries what it does over lists. -/
theorem cleanupOldEvents_listed (cutoff : Nat) (cells : List (Nat × Event)) :
    Nblex.cleanupOldEvents (values cells) cells.length cutoff =
      (values (cells.filter (fun cell => recent cutoff cell.2)),
        (cells.filter (fun cell => recent cutoff cell.2)).length) := by
  have kept := values_filter (recent cutoff) cells
  have sameLength : ∀ part : List (Nat × Event), (values part).length = part.length :=
    fun part => List.length_map _
  have shorter : (cells.filter (fun cell => recent cutoff cell.2)).length ≤ cells.length :=
    List.length_filter_le _ _
  have filtered : (values cells).filter (fun entry => decide (cutoff ≤ entry.timestampNs)) =
      values (cells.filter (fun cell => recent cutoff cell.2)) := kept.symm
  simp only [Nblex.cleanupOldEvents, filtered, sameLength]
  congr 1
  omega

/-- A tick does to the buffers what it does over lists. -/
theorem cleanupTimerCb_listed {turns : Nat} (enough : maxBufferSize < turns) {world : World}
    {logs networks : List (Nat × Event)} (holds : Holds world logs networks) (now : Nat) :
    ∃ next logs' networks', cleanupTimerCb turns world now = some next ∧
      Holds next logs' networks' ∧
      next.listed logs' networks' =
        { world.listed logs networks with
          correlation := some
            (Nblex.cleanupTimerCb (world.correlation.listed logs networks) now) } := by
  obtain ⟨next, step, holds', listed⟩ := cleanupBuffers_spec enough holds
    (u64Sub now (u64Mul world.correlation.windowNs 2))
  refine ⟨next, _, _, step, holds', ?_⟩
  rw [listed]
  simp only [World.listed, Correlation.listed, Nblex.cleanupTimerCb, holds.logCount,
    holds.networkCount, cleanupOldEvents_listed]

/-- After every run of events and cleanups, whether its allocations succeed or not, the counters
    are the lengths of the lists and not above `MAX_BUFFER_SIZE`. An event then changes no buffer
    but the one of its type, and a cleanup keeps the entries that are not older than its cutoff, in
    their order, and counts down by the number of the others. -/
theorem buffer_counts [Pcre2] (malloc : Memory Event → Option Nat)
    (fresh : ∀ memory address, malloc memory = some address → memory address = none)
    (turns fuel windowNs : Nat) (enough : maxBufferSize < turns) (ops : List EngineOp) :
    ∃ world logs networks,
      engineRun malloc turns (fuel + 1) (newWorld windowNs) ops = some world ∧
      Holds world logs networks ∧
      (∀ event, ∃ next logs' networks',
        engineStep malloc turns (fuel + 1) world (.process event) = some next ∧
        Holds next logs' networks' ∧
        (event.type ≠ .log → logs' = logs) ∧ (event.type ≠ .network → networks' = networks)) ∧
      ∀ cutoff, ∃ next,
        engineStep malloc turns (fuel + 1) world (.cleanup cutoff) = some next ∧
        Holds next (logs.filter (fun cell => recent cutoff cell.2))
          (networks.filter (fun cell => recent cutoff cell.2)) ∧
        next.correlation.logEventsCount + removed cutoff logs =
          world.correlation.logEventsCount ∧
        next.correlation.networkEventsCount + removed cutoff networks =
          world.correlation.networkEventsCount := by
  obtain ⟨world, logs, networks, run, holds⟩ :=
    @engineRun_holds malloc _ turns fuel enough fresh ops _ _ _ (holds_newWorld windowNs)
  refine ⟨world, logs, networks, run, holds, ?_, ?_⟩
  · intro event
    obtain ⟨next, logs', networks', step, holds', log, network, -⟩ :=
      @nblexCorrelationProcessEvent_spec malloc _ turns fuel enough fresh _ _ _ holds event
    exact ⟨next, logs', networks', step, holds', log, network⟩
  · intro cutoff
    obtain ⟨next, step, holds', -⟩ := cleanupBuffers_spec enough holds cutoff
    refine ⟨next, step, holds', ?_, ?_⟩
    · rw [holds'.logCount, holds.logCount, Nat.add_comm]
      exact removed_add_kept cutoff logs
    · rw [holds'.networkCount, holds.networkCount, Nat.add_comm]
      exact removed_add_kept cutoff networks

/-- An allocator with room for two entries. -/
def twoEntries (memory : Memory Event) : Option Nat :=
  [1, 2].find? (fun address => (memory address).isNone)

theorem twoEntries_fresh (memory : Memory Event) (address : Nat)
    (got : twoEntries memory = some address) : memory address = none := by
  have free : (memory address).isNone = true :=
    List.find?_some (p := fun address => (memory address).isNone) got
  exact Option.isNone_iff_eq_none.mp free

/-- A network event, a log event in its window, a second log event for which there is no entry, and
    a cleanup between their times. -/
def crowdedOps : List EngineOp :=
  [.process (networkEventAt 1000), .process (logEventAt 3000), .process (logEventAt 4000),
    .cleanup 2000]

theorem buffer_counts_crowded : ∃ world logs networks,
    @engineRun twoEntries literalPcre2 10001 1 (newWorld 100000000) crowdedOps = some world ∧
      Holds world logs networks := by
  let _ := literalPcre2
  obtain ⟨world, logs, networks, run, holds, -⟩ :=
    buffer_counts twoEntries twoEntries_fresh 10001 0 100000000 (by decide) crowdedOps
  exact ⟨world, logs, networks, run, holds⟩

end LinkedBuffers

end Nblex
