import Nblex.Correlation.Proofs.Cleanup

/-!
# Correlations are pairs

What a correlation engine finds in a run is among the pairs of the events that reach it, and no pair
is found more often than it is there: whatever the ticks of the cleanup are and however early they
come, and also when the buffers of the time-based engine are full and turn events away.
-/

namespace Nblex

open WindowJoin

/-- An event is buffered on its side or turned away. -/
theorem bufferEvent_within {corr : Correlation} {b : Buffers Event} (within : corr.buffers.Within b)
    (event : Event) :
    (bufferEvent corr event).buffers.Within (b.add isLogEvent isNetworkEvent event) := by
  have added : ∀ {held greater : List Event} (count : Nat), held.Sublist greater →
      (addToBuffer held count event).1.Sublist (event :: greater) := by
    intro held greater count sub
    rw [addToBuffer]
    split_ifs
    · exact sub.cons event
    · exact sub.cons_cons event
  unfold bufferEvent Buffers.add isLogEvent isNetworkEvent
  cases event.type with
  | log => exact ⟨added _ within.left, within.right⟩
  | network => exact ⟨within.left, added _ within.right⟩
  | correlation => exact within
  | error => exact within

theorem bufferEvent_kept (corr : Correlation) (event : Event) :
    (bufferEvent corr event).windowNs = corr.windowNs ∧
      (bufferEvent corr event).correlationsFound = corr.correlationsFound := by
  unfold bufferEvent
  cases event.type with
  | log | network | correlation | error => exact ⟨rfl, rfl⟩

/-- What a run leaves, with ticks and full buffers: the pairs `found` are counted and handed over as
    correlation events, beside the events that were let through. -/
structure LossyRun (world : World) (corr : Correlation) (events : List Event) (world' : World)
    (found : List (Event × Event)) : Prop where
  correlationsFound : world'.correlation.map Correlation.correlationsFound =
    some (corr.correlationsFound + found.length)
  eventsCorrelated : world'.eventsCorrelated = world.eventsCorrelated + found.length
  eventsProcessed : world'.eventsProcessed =
    world.eventsProcessed + events.length + found.length
  handled : world'.handled.Perm
    (world.handled ++ (events ++ found.map (pairEvent corr.windowNs)))

theorem worldRun_lossy [Pcre2] (fuel : Nat) (ops : List WorldOp) :
    ∀ {world : World} {corr : Correlation} {b : Buffers Event},
      world.correlation = some corr → corr.buffers.Within b →
      ∃ world' found, worldRun (fuel + 2) world ops = some world' ∧
        LossyRun world corr ((worldEvents ops).filter inputAccepts) world' found ∧
        found.Sublist (joinRun isLogEvent isNetworkEvent (timeNear corr.windowNs) b
          ((worldEvents ops).filter inputAccepts)).2 := by
  induction ops with
  | nil =>
      intro world corr b engine within
      refine ⟨world, [], rfl, ⟨?_, rfl, rfl, ?_⟩, List.Sublist.refl []⟩
      · rw [engine]
        rfl
      · exact List.Perm.of_eq (List.append_nil _).symm
  | cons op ops ih =>
      intro world corr b engine within
      rw [worldRun, List.foldlM_cons]
      cases op with
      | tick now =>
          have engine' : (World.correlation { world with
              correlation := world.correlation.map (cleanupTimerCb · now) }) =
                some (cleanupTimerCb corr now) := congrArg (Option.map _) engine
          obtain ⟨last, found, run, left, sub⟩ := ih engine'
            (within.prune (keptAt corr.windowNs now))
          exact ⟨last, found, run, ⟨left.correlationsFound, left.eventsCorrelated,
            left.eventsProcessed, left.handled⟩, sub⟩
      | emit event =>
          cases accepts : inputAccepts event with
          | false =>
              have stays : worldStep (fuel + 2) world (.emit event) = some world := by
                rw [worldStep, nblexEventEmit, if_neg (by simp [accepts])]
              have dropped : (worldEvents (.emit event :: ops)).filter inputAccepts =
                  (worldEvents ops).filter inputAccepts :=
                List.filter_cons_of_neg (by simp [accepts])
              rw [stays, dropped]
              exact ih engine within
          | true =>
              have step : worldStep (fuel + 2) world (.emit event) =
                  some (world.afterEmit corr event) := nblexEventEmit_step engine accepts
              have kept : (worldEvents (.emit event :: ops)).filter inputAccepts =
                  event :: (worldEvents ops).filter inputAccepts :=
                List.filter_cons_of_pos accepts
              let counted := { corr with
                correlationsFound := corr.correlationsFound +
                  ((foundPairs corr event).map (pairEvent corr.windowNs)).length }
              have within' : counted.buffers.Within b := within
              obtain ⟨window, count⟩ := bufferEvent_kept counted event
              have engine' : (world.afterEmit corr event).correlation =
                  some (bufferEvent counted event) := rfl
              obtain ⟨last, found, run, left, sub⟩ :=
                ih engine' (bufferEvent_within within' event)
              rw [window] at sub
              obtain ⟨correlationsFound, eventsCorrelated, eventsProcessed, handled⟩ := left
              rw [step, kept]
              refine ⟨last, foundPairs corr event ++ found, run, ⟨?_, ?_, ?_, ?_⟩,
                (within.found event).append sub⟩
              · rw [correlationsFound, count, List.length_append, ← Nat.add_assoc]
                show some (_ + ((foundPairs corr event).map _).length + _) = _
                rw [List.length_map]
              · rw [eventsCorrelated, List.length_append, World.afterEmit]
                simp only [List.length_map]
                omega
              · rw [eventsProcessed, List.length_append, List.length_cons, World.afterEmit]
                simp only [List.length_map]
                omega
              · refine handled.trans ?_
                rw [window, List.map_append, World.afterEmit]
                simp only [List.append_assoc, List.cons_append, List.nil_append]
                refine List.Perm.append_left _ ?_
                exact List.perm_middle.trans ((List.perm_append_comm_assoc _ _ _).cons event)

/-- Every run of the time-based engine in an opened world and of a correlate query: the correlations
    are pairs of a left event and a right event that reached the engine and are near each other, and
    no pair is found more often than it is there. In the world they are counted and handed over
    beside the events. -/
theorem correlations_among_pairs [Pcre2] :
    (∀ (fuel windowMs : Nat) (ops : List WorldOp),
      let windowNs := u64Mul windowMs 1000000
      let events := (worldEvents ops).filter inputAccepts
      ∃ world found, worldRun (fuel + 2) (openedWorld windowMs) ops = some world ∧
        List.Subperm found
          (pairs (timeNear windowNs) (events.filter isLogEvent) (events.filter isNetworkEvent)) ∧
        world.handled.Perm (events ++ found.map (pairEvent windowNs)) ∧
        world.correlation.map Correlation.correlationsFound = some found.length ∧
        world.eventsCorrelated = found.length ∧
        world.eventsProcessed = events.length + found.length) ∧
    ∀ (corr : Correlate) (ops : List CorrOp),
      List.Subperm (corrRun corr ops).2
        (pairs (corrNear corr) ((corrEvents ops).filter (nblexFilterMatches corr.leftFilter))
          ((corrEvents ops).filter (nblexFilterMatches corr.rightFilter))) := by
  constructor
  · intro fuel windowMs ops windowNs events
    obtain ⟨first, opened, empty, -, window, none⟩ := openedWorld_engine windowMs
    obtain ⟨world, found, run, left, sub⟩ := worldRun_lossy fuel ops opened (Buffers.Within.refl _)
    obtain ⟨correlationsFound, eventsCorrelated, eventsProcessed, handled⟩ := left
    rw [window] at sub handled
    rw [empty] at sub
    refine ⟨world, found, run, sub.subperm.trans (joinRun_pairs events).subperm,
      handled, ?_, ?_, ?_⟩
    · rw [correlationsFound, none, Nat.zero_add]
    · exact eventsCorrelated.trans (Nat.zero_add _)
    · exact eventsProcessed.trans (congrArg (· + _) (Nat.zero_add _))
  · intro corr ops
    have sub : (prunedRun (nblexFilterMatches corr.leftFilter)
        (nblexFilterMatches corr.rightFilter) (corrNear corr) Buffers.empty
        (ops.map (CorrOp.toJoinOp (newCorrState corr).withinMs))).2.Sublist _ :=
      prunedRun_sublist _ (Buffers.Within.refl Buffers.empty)
    rw [arrivals_corrEvents] at sub
    rw [corrRun, corrRunFrom_results]
    exact sub.subperm.trans (joinRun_pairs (corrEvents ops)).subperm

end Nblex
