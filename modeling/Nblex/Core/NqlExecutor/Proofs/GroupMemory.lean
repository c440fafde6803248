import Nblex.Core.NqlExecutor.Divisions
import Nblex.Core.NqlExecutor.Proofs.KeyMemory

/-!
# Groups in memory

Groups share the list of buckets and the process. A group is left alone by the others as long as no
event opens two sliding windows at once, after which a tick may read the keys of freed arrays, and
as long as none divides by zero.
-/

namespace Nblex

section Steps

variable [Pcre2] {query : Aggregate} {keys : Option (List String)}

/-- An event that the `where` clause accepts has the window divide by zero. -/
def AggOp.Divides (query : Aggregate) : AggOp → Prop
  | .event e _ _ => whereAccepts query e = true ∧ 0 ∈ bucketDivisors query.window
  | .tick _ => False

/-- A step without such a division has a result. -/
theorem aggStep_total {state : AggState} (wf : state.WellFormed query) {op : AggOp}
    (divides : ¬op.Divides query) : ∃ result, aggStep query state op = some result := by
  cases op with
  | tick now =>
      obtain ⟨kept, emitted, flushed, -⟩ := flushLoop_groupView none
        (fun bucket member => flushBucket_total (wf.shape bucket member) now)
      rw [aggStep, windowFlushCb, wf.window, flushed]
      exact ⟨_, rfl⟩
  | event event now now' =>
      rw [aggStep, executeAggregate]
      by_cases accepts : whereAccepts query event = true
      · rw [if_pos accepts, aggregateEvent]
        cases got : getOrCreateBucketsForEvent state (extractGroupKeys state.groupByFields event)
            (eventTimestamp event now) with
        | none =>
            have zero := (getOrCreateBucketsForEvent_eq_none_iff _ _ _).mp got
            exact absurd ⟨accepts, wf.window ▸ zero⟩ divides
        | some found => exact ⟨_, rfl⟩
      · rw [if_neg accepts]
        exact ⟨_, rfl⟩

omit [Pcre2] in
/-- The windows that an event opens are a matter of its own group. -/
theorem openedWindows_groupView {state other : AggState} (keyed : state.Keyed query)
    (keyedOther : other.Keyed query) (fit : KeysFit query.groupByFields keys)
    (window : state.window = other.window) (same : state.groupView keys = other.groupView keys)
    (timestamp : Nat) :
    KeyState.openedWindows state keys timestamp = KeyState.openedWindows other keys timestamp := by
  have found : ∀ (s : AggState), s.Keyed query → ∀ start,
      (findBucketByWindow s keys start).isNone =
        ((s.groupView keys).find? fun bucket => bucket.windowStartNs == start).isNone := by
    intro s keyed start
    rw [findBucketByWindow, find?_group keyed fit fun bucket => bucket.windowStartNs == start,
      AggState.groupView, List.find?_map, Option.isNone_map]
    rfl
  simp only [KeyState.openedWindows, KeyState.missingWindows, window, found state keyed,
    found other keyedOther, same]

end Steps

namespace KeyMemory

section Runs

variable [Pcre2] {query : Aggregate} {keys : Option (List String)} {owning other : KeyState}

/-- A step that opens at most one sliding window and does not divide by zero. -/
def Guard (query : Aggregate) (owning : KeyState) (op : AggOp) : Prop :=
  KeyState.OpensOne query owning op ∧ ¬op.Divides query

instance (query : Aggregate) (owning : KeyState) (op : AggOp) :
    Decidable (Guard query owning op) :=
  match op with
  | .tick _ => .isTrue ⟨trivial, id⟩
  | .event event now _ =>
      inferInstanceAs (Decidable
        ((owning.running → whereAccepts query event → query.window.type = .sliding →
          ∀ keys ∈ extractGroupKeys query.groupByFields event,
            (KeyState.openedWindows owning.state (some keys) (eventTimestamp event now)).card ≤ 1) ∧
        ¬(whereAccepts query event = true ∧ 0 ∈ bucketDivisors query.window)))

/-- What holds between the steps of a guarded run. -/
def Apart (query : Aggregate) (owning : KeyState) : Prop :=
  Owned query owning ∧ owning.state.Keyed query

/-- In memory the guarded executor is isolated for every group. -/
theorem guarded_isolated (query : Aggregate) (keys : Option (List String)) :
    Isolation.Isolated (Isolation.guarded (Guard query) (step query)) (Apart query) AggOp.HasData
      (AggOp.concerns query keys) (fun owning => owning.state.groupView keys) (seenBy keys) where
  keeps := by
    intro owning op next emitted inv valid stepped
    obtain ⟨guard, stepped⟩ := Isolation.guarded_eq_some.mp stepped
    obtain ⟨kept, -, byValue⟩ := inv.1.step guard.1 stepped
    exact ⟨kept, aggStep_keyed inv.1.sound.wellFormed inv.2 valid byValue⟩
  respects := by
    intro owning op next emitted inv valid others stepped
    obtain ⟨guard, stepped⟩ := Isolation.guarded_eq_some.mp stepped
    obtain ⟨-, -, byValue⟩ := inv.1.step guard.1 stepped
    exact aggStep_other inv.1.sound.wellFormed inv.2 valid others byValue
  consistent := by
    intro owning other op next emitted inv invOther valid own same stepped
    obtain ⟨guard, stepped⟩ := Isolation.guarded_eq_some.mp stepped
    obtain ⟨-, -, byValue⟩ := inv.1.step guard.1 stepped
    obtain ⟨next', emitted', steppedOther, view, results⟩ :=
      (aggStep_isolated query keys).consistent ⟨inv.1.sound.wellFormed, inv.2⟩
        ⟨invOther.1.sound.wellFormed, invOther.2⟩ valid own same byValue
    -- the step of the other run opens the same windows
    have guardOther : Guard query other op := by
      refine ⟨?_, guard.2⟩
      cases op with
      | tick now => trivial
      | event event now now' =>
          intro running accepts sliding texts extracted
          have mine : extractGroupKeys query.groupByFields event = keys := of_decide_eq_true own
          have fit : KeysFit query.groupByFields keys := mine ▸ extractGroupKeys_fit (.inl valid)
          have few := guard.1 inv.1.running accepts sliding texts extracted
          obtain rfl : some texts = keys := extracted.symm.trans mine
          rwa [openedWindows_groupView inv.2 invOther.2 fit (inv.1.sound.wellFormed.window.trans
            invOther.1.sound.wellFormed.window.symm) same] at few
    have inMemory := (step_eq invOther.1.sound invOther.1.owned op).1
    rw [steppedOther] at inMemory
    obtain ⟨⟨after, emittedOther⟩, steppedMemory, seen⟩ := Option.map_eq_some_iff.mp inMemory
    obtain ⟨rfl, rfl⟩ := Prod.mk.inj seen
    exact ⟨after, emittedOther, Isolation.guarded_eq_some.mpr ⟨guardOther, steppedMemory⟩, view,
      results⟩

/-- A guarded run has a result. -/
theorem run_guarded {ops : List AggOp} :
    ∀ {owning : KeyState}, Owned query owning →
      Guarded.Meets (keyStep query) (Guard query) owning ops →
      ∃ after emitted, Isolation.run (Isolation.guarded (Guard query) (step query)) owning ops =
        some (after, emitted) := by
  induction ops with
  | nil =>
      intro owning inv met
      exact ⟨owning, [], rfl⟩
  | cons op ops ih =>
      intro owning inv met
      obtain ⟨result, byValue⟩ := aggStep_total inv.sound.wellFormed met.1.2
      have inMemory := (step_eq inv.sound inv.owned op).1
      rw [byValue] at inMemory
      obtain ⟨⟨next, first⟩, stepped, -⟩ := Option.map_eq_some_iff.mp inMemory
      obtain ⟨kept, same, -⟩ := inv.step met.1.1 stepped
      obtain ⟨after, rest, ran⟩ := ih kept (same ▸ met.2)
      have taken := Isolation.guarded_eq_some.mpr ⟨met.1, stepped⟩
      refine ⟨after, first ++ rest, ?_⟩
      rw [Isolation.run, taken]
      simp only [ran, Option.map_some]

/-- The run and the run without the events of all other groups come to their ends, with the keys of
    all buckets still there, and leave the same buckets of the group and the same results for it. -/
def GroupIsolated (query : Aggregate) (keys : Option (List String)) (ops : List AggOp) : Prop :=
  ∃ after emitted after' emitted',
    run query ops = some (after, emitted) ∧
    run query (ops.filter (AggOp.concerns query keys)) = some (after', emitted') ∧
    after.Readable ∧ after'.Readable ∧
    after.state.groupView keys = after'.state.groupView keys ∧
    emitted.filterMap (seenBy keys) = emitted'.filterMap (seenBy keys)

end Runs

end KeyMemory

/-- Groups do not interfere in a run whose events open one sliding window at a time and do not
    divide by zero. -/
theorem groups_isolated [Pcre2] (query : Aggregate) (keys : Option (List String))
    {ops : List AggOp} (hasData : ∀ op ∈ ops, op.HasData)
    (met : Guarded.Meets (keyStep query) (KeyMemory.Guard query) (newKeyState query) ops) :
    KeyMemory.GroupIsolated query keys ops := by
  have start : KeyMemory.Apart query (newKeyState query) :=
    ⟨KeyMemory.newKeyState_owned query, nofun⟩
  have isolated := KeyMemory.guarded_isolated query keys
  obtain ⟨after, emitted, ran⟩ := KeyMemory.run_guarded start.1 met
  obtain ⟨after', emitted', ran', view, results⟩ :=
    isolated.run_filter start start hasData rfl ran
  have kept := isolated.run_keeps start hasData ran
  have kept' := isolated.run_keeps start
    (fun op member => hasData op (List.mem_of_mem_filter member)) ran'
  exact ⟨after, emitted, after', emitted', Isolation.run_of_guarded ran,
    Isolation.run_of_guarded ran', KeyMemory.readable_of_owned kept.1.owned,
    KeyMemory.readable_of_owned kept'.1.owned, view, results⟩

/-- Errors and warnings in two windows that are opened one after the other, and the ticks at which
    the windows are over. -/
def openedLevelOps : List AggOp :=
  [.event (levelEvent "error" 500000) 0 0, .event (levelEvent "warn" 500000) 0 0,
    .event (levelEvent "error" 1500000) 0 0, .event (levelEvent "warn" 1500000) 0 0,
    .tick 2000000, .tick 3000000]

theorem groups_isolated_slidingLevelQuery :
    @KeyMemory.GroupIsolated literalPcre2 slidingLevelQuery (some ["warn"]) openedLevelOps ∧
      ((@KeyMemory.run literalPcre2 slidingLevelQuery openedLevelOps).map fun result =>
        result.2.map fun bucket => (bucket.groupKeys, bucket.windowStartNs, bucket.count)) =
          some [(some ["warn"], 0, 2), (some ["error"], 0, 2), (some ["warn"], 1000000, 1),
            (some ["error"], 1000000, 1)] := by
  let := literalPcre2
  refine ⟨groups_isolated slidingLevelQuery (some ["warn"]) ?_ ?_, ?_⟩
  · decide
  · exact ⟨by decide, by decide, by decide, by decide, by decide, by decide, trivial⟩
  · decide

/-- A warning in one window, an error in two, and the tick at which all of them are over. -/
def sharedLevelOps : List AggOp :=
  [.event (levelEvent "warn" 500000) 0 0, .event (levelEvent "error" 1500000) 0 0, .tick 3000000]

/-- The tick frees the keys of the error's windows with the first of them and reads them again for
    the second, before it comes to the warning, which without the error is reported. -/
theorem sharedLevelOps_interfere :
    @nqlParse literalPcre2 "aggregate count() by level window sliding(2ms,1ms)".toList =
        some (.single (.aggregate slidingLevelQuery)) ∧
      @KeyMemory.run literalPcre2 slidingLevelQuery sharedLevelOps = none ∧
      ((@KeyMemory.run literalPcre2 slidingLevelQuery
          (sharedLevelOps.filter (AggOp.concerns slidingLevelQuery (some ["warn"])))).map
        fun result => result.2.map fun bucket => (bucket.groupKeys, bucket.count)) =
          some [(some ["warn"], 1)] ∧
      ¬@KeyMemory.GroupIsolated literalPcre2 slidingLevelQuery (some ["warn"]) sharedLevelOps := by
  have undefined : @KeyMemory.run literalPcre2 slidingLevelQuery sharedLevelOps = none := by decide
  refine ⟨by decide, undefined, by decide, ?_⟩
  rintro ⟨after, emitted, -, -, ran, -⟩
  rw [undefined] at ran
  cases ran

end Nblex
