import Nblex.Core.EventOwnership
import Nblex.Core.NqlExecutor.Proofs.FieldPaths

/-!
# Releases of event objects

`nblex_event_emit` owns the event it is given: it frees it once on every path. The packet callback
frees the event of a packet again after it has emitted it; the file callback does not.
-/

namespace Nblex

namespace Owned

variable {σ : Type}

/-- From `before` to `after` the event objects `gone` are freed among those allocated before, no
    input has created an event, and what has come into a buffer was allocated on the way. -/
structure Calm (before after : World σ) (gone : List Nat) : Prop where
  spends : before.ledger.Spends after.ledger gone
  created : after.created = before.created
  buffered : ∀ ref ∈ after.buffered, ref ∈ before.buffered ∨
    before.ledger.next ≤ ref.handle ∧ ref.handle < after.ledger.next

theorem Calm.refl (world : World σ) : Calm world world [] :=
  ⟨Ledger.Spends.refl _, rfl, fun _ member => Or.inl member⟩

theorem Calm.trans {first second third : World σ} {gone gone' : List Nat}
    (left : Calm first second gone) (right : Calm second third gone') :
    Calm first third (gone ++ gone') where
  spends := left.spends.trans right.spends
  created := right.created.trans left.created
  buffered := by
    intro ref member
    rcases right.buffered ref member with earlier | ⟨low, high⟩
    · rcases left.buffered ref earlier with first | ⟨low, high⟩
      · exact Or.inl first
      · exact Or.inr ⟨low, Nat.lt_of_lt_of_le high right.spends.next_le⟩
    · exact Or.inr ⟨Nat.le_trans left.spends.next_le low, high⟩

theorem Calm.own {before after : World σ} {gone : List Nat} (calm : Calm before after gone)
    (fresh : ∀ handle ∈ gone, before.ledger.next ≤ handle) : Calm before after [] :=
  ⟨calm.spends.own fresh, calm.created, calm.buffered⟩

/-- A change of the counters and the user data only. -/
theorem Calm.of_same {before after : World σ} (ledger : after.ledger = before.ledger)
    (created : after.created = before.created) (buffered : after.buffered = before.buffered) :
    Calm before after [] where
  spends := ledger ▸ Ledger.Spends.refl _
  created := created
  buffered := fun _ member => Or.inl (buffered ▸ member)

theorem issue_calm (world : World σ) : Calm world world.issue [] :=
  ⟨Ledger.Spends.issue _, rfl, fun _ member => Or.inl member⟩

theorem eventFree_calm {world : World σ} (ref : EventRef)
    (known : ref.handle < world.ledger.next) : Calm world (eventFree world ref) [ref.handle] :=
  ⟨Ledger.Spends.release known, rfl, fun _ member => Or.inl member⟩

/-- An event that is allocated on the way and freed. -/
theorem Calm.issued {world after : World σ} (calm : Calm world.issue after [world.ledger.next]) :
    Calm world after [] :=
  ((issue_calm world).trans calm).own (by simp)

/-! ## The correlation engine -/

section Engine

variable (allocs : EngineAllocs) {emit : World σ → EventRef → World σ}

/-- Emission frees the event it is given once. -/
def FreesOnce (emit : World σ → EventRef → World σ) : Prop :=
  ∀ world ref, ref.handle < world.ledger.next → Calm world (emit world ref) [ref.handle]

/-- An event that is freed after its emission is freed twice. -/
theorem FreesOnce.freed_again {emit : World σ → EventRef → World σ} (frees : FreesOnce emit)
    {world : World σ} (ref : EventRef) (known : ref.handle < world.ledger.next) :
    Calm world (eventFree (emit world ref) ref) [ref.handle, ref.handle] :=
  (frees world ref known).trans (eventFree_calm ref
    (Nat.lt_of_lt_of_le known (frees world ref known).spends.next_le))

/-- Emission in a world of which only counters have changed. -/
theorem FreesOnce.of_same {emit : World σ → EventRef → World σ} (frees : FreesOnce emit)
    {world counted : World σ} (ref : EventRef) (ledger : counted.ledger = world.ledger)
    (created : counted.created = world.created) (buffered : counted.buffered = world.buffered)
    (known : ref.handle < world.ledger.next) : Calm world (emit counted ref) [ref.handle] :=
  (Calm.of_same ledger created buffered).trans (frees counted ref (ledger ▸ known))

theorem correlationCheckEntry_calm (frees : FreesOnce emit) (newEvent : EventRef)
    (world : World σ) (buffered : EventRef) :
    Calm world (correlationCheckEntry allocs emit newEvent world buffered) [] := by
  unfold correlationCheckEntry
  cases engine : world.correlation with
  | none => exact Calm.refl world
  | some corr =>
      dsimp only
      split
      · split
        · split
          · -- the correlation event is allocated on the way and freed by its emission
            refine Calm.issued (frees.of_same ⟨world.ledger.next, _⟩ rfl rfl ?_
              (Nat.lt_succ_self _))
            simp only [World.buffered, World.issue, engine]
            rfl
          · exact Calm.issued (eventFree_calm ⟨world.ledger.next, _⟩ (Nat.lt_succ_self _))
        · exact Calm.refl world
      · exact Calm.refl world

theorem correlationCheckEvent_calm (frees : FreesOnce emit) (world : World σ)
    (newEvent : EventRef) :
    Calm world (correlationCheckEvent allocs emit world newEvent) [] := by
  unfold correlationCheckEvent
  cases world.correlation with
  | none => exact Calm.refl world
  | some corr =>
      dsimp only
      generalize checkBuffer corr newEvent = entries
      induction entries generalizing world with
      | nil => exact Calm.refl world
      | cons entry entries ih =>
          exact (correlationCheckEntry_calm allocs frees newEvent world entry).trans (ih _)

/-- A buffer after an event has been added: its clone is allocated on the way. -/
theorem addToBuffer_spec (ledger : Ledger) (bufferHead : List EventRef) (count : Nat)
    (ref : EventRef) :
    ledger.Spends (addToBuffer allocs ledger bufferHead count ref).1 [] ∧
      ∀ entry ∈ (addToBuffer allocs ledger bufferHead count ref).2.1, entry ∈ bufferHead ∨
        ledger.next ≤ entry.handle ∧
          entry.handle < (addToBuffer allocs ledger bufferHead count ref).1.next := by
  unfold addToBuffer
  split
  · exact ⟨Ledger.Spends.refl _, fun _ member => Or.inl member⟩
  · split
    · refine ⟨Ledger.Spends.issue _, ?_⟩
      intro entry member
      rcases List.mem_cons.mp member with rfl | earlier
      · exact Or.inr ⟨Nat.le_refl _, Nat.lt_succ_self _⟩
      · exact Or.inl earlier
    · exact ⟨Ledger.Spends.refl _, fun _ member => Or.inl member⟩

theorem bufferEvent_spec (ledger : Ledger) (corr : Correlation) (ref : EventRef) :
    ledger.Spends (bufferEvent allocs ledger corr ref).1 [] ∧
      ∀ entry ∈ (bufferEvent allocs ledger corr ref).2.buffered, entry ∈ corr.buffered ∨
        ledger.next ≤ entry.handle ∧
          entry.handle < (bufferEvent allocs ledger corr ref).1.next := by
  unfold bufferEvent
  split
  · obtain ⟨spends, entries⟩ :=
      addToBuffer_spec allocs ledger corr.logEvents corr.logEventsCount ref
    refine ⟨spends, ?_⟩
    intro entry member
    rcases List.mem_append.mp member with log | network
    · exact (entries entry log).imp_left (List.mem_append_left _)
    · exact Or.inl (List.mem_append_right _ network)
  · obtain ⟨spends, entries⟩ :=
      addToBuffer_spec allocs ledger corr.networkEvents corr.networkEventsCount ref
    refine ⟨spends, ?_⟩
    intro entry member
    rcases List.mem_append.mp member with log | network
    · exact Or.inl (List.mem_append_left _ log)
    · exact (entries entry network).imp_left (List.mem_append_right _)
  · exact ⟨Ledger.Spends.refl _, fun _ member => Or.inl member⟩

theorem correlationProcessEvent_calm (frees : FreesOnce emit) (world : World σ)
    (ref : EventRef) : Calm world (correlationProcessEvent allocs emit world ref) [] := by
  have checked := correlationCheckEvent_calm allocs frees world ref
  unfold correlationProcessEvent
  generalize correlationCheckEvent allocs emit world ref = middle at checked
  dsimp only
  cases engine : middle.correlation with
  | none => exact checked
  | some corr =>
      obtain ⟨spends, entries⟩ := bufferEvent_spec allocs middle.ledger corr ref
      refine checked.trans ⟨spends, rfl, ?_⟩
      simpa only [World.buffered, engine] using entries

/-- The emission of a correlation event leaves the engine alone. -/
theorem correlationProcessEvent_correlation (world : World σ) {ref : EventRef}
    (type : ref.event.type = .correlation) :
    correlationProcessEvent allocs emit world ref = world := by
  cases world with | mk ledger correlation processed correlated data created =>
  cases correlation with
  | none => rfl
  | some corr =>
      simp only [correlationProcessEvent, correlationCheckEvent, checkBuffer, bufferEvent, type,
        List.foldl_nil]

end Engine

/-! ## Accounts -/

/-- The objects that inputs have created are allocated, and no buffer holds one of them. -/
structure Accounted (world : World σ) : Prop where
  known : ∀ handle ∈ world.created, handle < world.ledger.next
  copies : ∀ ref ∈ world.buffered, ref.handle < world.ledger.next ∧ ref.handle ∉ world.created

/-- How often each event that an input has created has been freed, the last one first. -/
def World.releaseCounts (world : World σ) : List Nat := world.created.map world.ledger.released

theorem Calm.accounted {before after : World σ} {gone : List Nat}
    (calm : Calm before after gone) (accounted : Accounted before) : Accounted after where
  known := by
    intro handle member
    rw [calm.created] at member
    exact Nat.lt_of_lt_of_le (accounted.known handle member) calm.spends.next_le
  copies := by
    intro ref member
    rw [calm.created]
    rcases calm.buffered ref member with earlier | ⟨low, high⟩
    · obtain ⟨known, apart⟩ := accounted.copies ref earlier
      exact ⟨Nat.lt_of_lt_of_le known calm.spends.next_le, apart⟩
    · exact ⟨high, fun created => Nat.not_lt.mpr low (accounted.known _ created)⟩

theorem Calm.releaseCounts {before after : World σ} {gone : List Nat}
    (calm : Calm before after gone) (accounted : Accounted before) :
    after.releaseCounts =
      before.created.map (fun handle => before.ledger.released handle + gone.count handle) := by
  rw [World.releaseCounts, calm.created]
  refine List.map_congr_left ?_
  intro handle member
  exact calm.spends.released_eq handle (accounted.known handle member)

theorem Accounted.create {world : World σ} (accounted : Accounted world) :
    Accounted world.create where
  known := by
    intro handle member
    rcases List.mem_cons.mp member with rfl | earlier
    · exact Nat.lt_succ_self _
    · exact Nat.lt_succ_of_lt (accounted.known handle earlier)
  copies := by
    intro ref member
    obtain ⟨known, apart⟩ := accounted.copies ref member
    refine ⟨Nat.lt_succ_of_lt known, ?_⟩
    intro created
    rcases List.mem_cons.mp created with here | earlier
    · exact Nat.ne_of_lt known here
    · exact apart earlier

/-- An input creates an event, which is freed `times` times. -/
theorem create_releaseCounts {world after : World σ} (accounted : Accounted world) (times : Nat)
    (calm : Calm world.create after (List.replicate times world.ledger.next)) :
    after.releaseCounts = times :: world.releaseCounts := by
  have fresh : world.ledger.released world.ledger.next = 0 :=
    Ledger.released_of_le (Nat.le_refl _)
  rw [calm.releaseCounts accounted.create]
  refine congrArg₂ List.cons ?_ ?_
  · show world.ledger.released world.ledger.next + _ = times
    rw [fresh, List.count_replicate_self, Nat.zero_add]
  · refine List.map_congr_left ?_
    intro handle member
    have other : handle ≠ world.ledger.next := Nat.ne_of_lt (accounted.known handle member)
    rw [List.count_replicate, if_neg (by simpa using other.symm)]
    rfl

theorem foldl_release_spends {ledger : Ledger} {refs : List EventRef}
    (known : ∀ ref ∈ refs, ref.handle < ledger.next) :
    ledger.Spends (refs.foldl (fun ledger ref => ledger.release ref.handle) ledger)
      (refs.map EventRef.handle) := by
  induction refs generalizing ledger with
  | nil => exact Ledger.Spends.refl ledger
  | cons ref refs ih =>
      refine (Ledger.Spends.release (known ref List.mem_cons_self)).trans (ih ?_)
      intro other member
      rw [Ledger.release_next]
      exact known other (List.mem_cons_of_mem _ member)

theorem cleanupOldEvents_spec {ledger : Ledger} {bufferHead : List EventRef}
    (known : ∀ ref ∈ bufferHead, ref.handle < ledger.next) (count cutoffTime : Nat) :
    ∃ gone, ledger.Spends (cleanupOldEvents ledger bufferHead count cutoffTime).1 gone ∧
      (∀ handle ∈ gone, ∃ ref ∈ bufferHead, ref.handle = handle) ∧
      ∀ ref ∈ (cleanupOldEvents ledger bufferHead count cutoffTime).2.1, ref ∈ bufferHead := by
  refine ⟨_, foldl_release_spends ?_, ?_, fun ref member => List.mem_of_mem_filter member⟩
  · exact fun ref member => known ref (List.mem_of_mem_filter member)
  · intro handle member
    obtain ⟨ref, inside, same⟩ := List.mem_map.mp member
    exact ⟨ref, List.mem_of_mem_filter inside, same⟩

theorem cleanupTimerCb_calm {world : World σ} (accounted : Accounted world) (now : Nat) :
    ∃ gone, Calm world (cleanupTimerCb world now) gone ∧
      ∀ handle ∈ gone, handle ∉ world.created := by
  unfold cleanupTimerCb
  have copies := accounted.copies
  cases engine : world.correlation with
  | none => exact ⟨[], Calm.refl world, nofun⟩
  | some corr =>
      simp only [World.buffered, engine] at copies
      have logs := fun ref member => copies ref (List.mem_append_left _ member)
      have networks := fun ref member => copies ref (List.mem_append_right _ member)
      obtain ⟨goneLogs, spendsLogs, oldLogs, keptLogs⟩ := cleanupOldEvents_spec
        (fun ref member => (logs ref member).1) corr.logEventsCount
        (u64Sub now (u64Mul corr.windowNs 2))
      obtain ⟨goneNetworks, spendsNetworks, oldNetworks, keptNetworks⟩ := cleanupOldEvents_spec
        (fun ref member => Nat.lt_of_lt_of_le (networks ref member).1 spendsLogs.next_le)
        corr.networkEventsCount (u64Sub now (u64Mul corr.windowNs 2))
      refine ⟨_, ⟨spendsLogs.trans spendsNetworks, rfl, ?_⟩, ?_⟩
      · intro ref member
        refine Or.inl ?_
        simp only [World.buffered, engine]
        rcases List.mem_append.mp member with log | network
        · exact List.mem_append_left _ (keptLogs ref log)
        · exact List.mem_append_right _ (keptNetworks ref network)
      · intro handle member
        rcases List.mem_append.mp member with log | network
        · obtain ⟨ref, inside, rfl⟩ := oldLogs handle log
          exact (logs ref inside).2
        · obtain ⟨ref, inside, rfl⟩ := oldNetworks handle network
          exact (networks ref inside).2

theorem newWorld_accounted (windowMs : Option Nat) (data : σ) :
    Accounted (newWorld windowMs data) where
  known := nofun
  copies := by
    intro ref member
    cases windowMs <;> cases member

/-- Every event that an input has created has been freed exactly once. -/
def ReleasedOnce (world : World σ) : Prop :=
  ∀ handle ∈ world.created, world.ledger.released handle = 1

/-! ## Emission -/

/-- A handler that frees none of the events there are when it is called. It may create and emit
    events of its own. -/
def Harmless (handler : EventHandler σ) : Prop :=
  ∀ world ref, Calm world (handler world ref) []

section Handler

variable [Pcre2] {handler : EventHandler σ}

theorem emitWith_frees {process : World σ → EventRef → World σ} (harmless : Harmless handler)
    (calm : ∀ world ref, Calm world (process world ref) []) :
    FreesOnce (emitWith handler process) := by
  intro world ref known
  unfold emitWith
  split
  · have counted : Calm world { world with eventsProcessed := world.eventsProcessed + 1 } [] :=
      Calm.of_same rfl rfl rfl
    have handled := (counted.trans (calm _ ref)).trans (harmless _ ref)
    exact handled.trans
      (eventFree_calm ref (Nat.lt_of_lt_of_le known handled.spends.next_le))
  · exact eventFree_calm ref known

/-- Emission frees the event it is given once, filtered out or processed. -/
theorem eventEmit_frees (harmless : Harmless handler) (allocs : EngineAllocs) :
    FreesOnce (eventEmit handler allocs) :=
  emitWith_frees harmless (fun world ref => correlationProcessEvent_calm allocs
    (emitWith_frees harmless (fun world _ => Calm.refl world)) world ref)

/-- `nblex_event_emit` as it is written: the engine emits through `nblex_event_emit` itself. -/
theorem eventEmit_eq (allocs : EngineAllocs) :
    eventEmit handler allocs =
      emitWith handler (correlationProcessEvent allocs (eventEmit handler allocs)) := by
  have nested : ∀ (world : World σ) (ref : EventRef), ref.event.type = .correlation →
      emitWith handler (fun world _ => world) world ref = eventEmit handler allocs world ref := by
    intro world ref type
    simp only [eventEmit, emitWith, correlationProcessEvent_correlation _ _ type]
  have entry : ∀ newEvent, correlationCheckEntry (σ := σ) allocs
      (emitWith handler (fun world _ => world)) newEvent =
      correlationCheckEntry allocs (eventEmit handler allocs) newEvent := by
    intro newEvent
    funext world buffered
    unfold correlationCheckEntry
    cases world.correlation with
    | none => rfl
    | some corr => simp only [nested _ ⟨_, createCorrelationEvent _ _ _⟩ rfl]
  have process : correlationProcessEvent (σ := σ) allocs
      (emitWith handler (fun world _ => world)) =
      correlationProcessEvent allocs (eventEmit handler allocs) := by
    funext world ref
    simp only [correlationProcessEvent, correlationCheckEvent, entry]
  rw [← process]
  rfl

/-! ## Runs -/

/-- How often the event that a step creates is freed in that step. -/
def LoopOp.frees : LoopOp → Option Nat
  | .packet capture =>
      if capture.event then some (if capture.data.isSome then 2 else 1) else none
  | .line capture => if capture.event then some 1 else none
  | .cleanup _ => none

theorem loopStep_spec (harmless : Harmless handler) {world : World σ}
    (accounted : Accounted world) (op : LoopOp) :
    Accounted (loopStep handler world op) ∧
      (loopStep handler world op).releaseCounts = op.frees.toList ++ world.releaseCounts := by
  have known : world.ledger.next < world.create.ledger.next := Nat.lt_succ_self _
  cases op with
  | packet capture =>
      simp only [loopStep, packetHandler, LoopOp.frees]
      split
      · cases capture.data with
        | none =>
            have calm := eventFree_calm (capture.newEvent .network world) known
            exact ⟨calm.accounted accounted.create, create_releaseCounts accounted 1 calm⟩
        | some data =>
            have calm := (eventEmit_frees harmless capture.allocs).freed_again
              ⟨world.ledger.next, { (capture.newEvent .network world).event with
                data := some data }⟩ known
            exact ⟨calm.accounted accounted.create, create_releaseCounts accounted 2 calm⟩
      · exact ⟨accounted, rfl⟩
  | line capture =>
      simp only [loopStep, fileReadLine, LoopOp.frees]
      split
      · cases capture.data with
        | none =>
            have calm := eventFree_calm (capture.newEvent .log world) known
            exact ⟨calm.accounted accounted.create, create_releaseCounts accounted 1 calm⟩
        | some data =>
            have calm := eventEmit_frees harmless capture.allocs world.create
              ⟨world.ledger.next, { (capture.newEvent .log world).event with
                data := some data }⟩ known
            exact ⟨calm.accounted accounted.create, create_releaseCounts accounted 1 calm⟩
      · exact ⟨accounted, rfl⟩
  | cleanup now =>
      obtain ⟨gone, calm, apart⟩ := cleanupTimerCb_calm accounted now
      refine ⟨calm.accounted accounted, ?_⟩
      rw [show loopStep handler world (.cleanup now) = cleanupTimerCb world now from rfl,
        calm.releaseCounts accounted]
      refine List.map_congr_left ?_
      intro handle member
      rw [List.count_eq_zero.mpr (fun inside => apart handle inside member), Nat.add_zero]

/-- The release counters after a run, event by event. -/
theorem loopRun_releaseCounts (harmless : Harmless handler) {world : World σ}
    (accounted : Accounted world) (ops : List LoopOp) :
    (loopRun handler world ops).releaseCounts =
      (ops.filterMap LoopOp.frees).reverse ++ world.releaseCounts := by
  induction ops generalizing world with
  | nil => rfl
  | cons op ops ih =>
      obtain ⟨kept, counts⟩ := loopStep_spec harmless accounted op
      have later := ih kept
      rw [counts] at later
      rw [show loopRun handler world (op :: ops) =
        loopRun handler (loopStep handler world op) ops from rfl, later]
      cases frees : op.frees with
      | none => rw [List.filterMap_cons_none frees]; rfl
      | some times =>
          rw [List.filterMap_cons_some frees, List.reverse_cons, List.append_assoc]
          rfl

/-- The step is a packet whose event and data can be allocated. -/
def LoopOp.isCaptured : LoopOp → Bool
  | .packet capture => capture.event && capture.data.isSome
  | .line _ => false
  | .cleanup _ => false

omit [Pcre2] in
theorem LoopOp.frees_eq_one_iff (op : LoopOp) :
    (∀ times ∈ op.frees, times = 1) ↔ op.isCaptured = false := by
  cases op with
  | packet capture =>
      simp only [LoopOp.frees, LoopOp.isCaptured]
      cases capture.event <;> cases capture.data <;> simp
  | line capture => cases h : capture.event <;> simp [LoopOp.frees, LoopOp.isCaptured, h]
  | cleanup now => simp [LoopOp.frees, LoopOp.isCaptured]

/-- In a run every event is freed exactly once just in case no packet is captured in it: the
    event of a packet is freed twice. -/
theorem releasedOnce_iff (harmless : Harmless handler) (windowMs : Option Nat) (data : σ)
    (ops : List LoopOp) :
    ReleasedOnce (loopRun handler (newWorld windowMs data) ops) ↔
      ∀ op ∈ ops, op.isCaptured = false := by
  have counts := loopRun_releaseCounts harmless (newWorld_accounted windowMs data) ops
  have once : ReleasedOnce (loopRun handler (newWorld windowMs data) ops) ↔
      ∀ times ∈ (loopRun handler (newWorld windowMs data) ops).releaseCounts, times = 1 := by
    rw [World.releaseCounts, List.forall_mem_map]
    rfl
  rw [once, counts]
  constructor
  · intro all op member
    refine op.frees_eq_one_iff.mp ?_
    intro times freed
    refine all times (List.mem_append_left _ (List.mem_reverse.mpr ?_))
    exact List.mem_filterMap.mpr ⟨op, member, freed⟩
  · intro none times member
    rcases List.mem_append.mp member with inside | before
    · obtain ⟨op, member, freed⟩ := List.mem_filterMap.mp (List.mem_reverse.mp inside)
      exact op.frees_eq_one_iff.mpr (none op member) times freed
    · cases before

end Handler

/-- A handler that counts the events it is called with. -/
def countingHandler : EventHandler Nat :=
  fun world _ => { world with eventHandlerData := world.eventHandlerData + 1 }

theorem countingHandler_harmless : Harmless countingHandler :=
  fun _ _ => Calm.of_same rfl rfl rfl

/-- An input without a filter, and allocations that succeed but for that of the data. -/
def dataLost : Capture where
  input := ⟨none⟩
  now := 1000
  event := true
  data := none
  allocs := ⟨true, true, fun _ => true, fun _ => true⟩

/-- An input without a filter, and allocations that succeed. -/
def captured : Capture := { dataLost with data := some (.object [("length", .integer 60)]) }

theorem releasedOnce_lines :
    ReleasedOnce (@loopRun Nat literalPcre2 countingHandler (newWorld (some 100) 0)
      [.line captured, .packet dataLost, .line captured, .cleanup 5000]) := by
  let := literalPcre2
  exact (releasedOnce_iff countingHandler_harmless (some 100) 0 _).mpr (by decide)

/-- One captured packet is enough. -/
theorem packet_released_twice :
    ¬∀ handler : EventHandler Nat, Harmless handler →
      ∀ captures : List Capture,
        ReleasedOnce (@loopRun Nat literalPcre2 handler (newWorld (some 100) 0)
          (captures.map .packet)) := by
  intro once
  have twice := once countingHandler countingHandler_harmless [captured] 0 (by decide)
  exact absurd twice (by decide)

end Owned

end Nblex
