import Nblex.Core.NqlExecutor.Proofs.WellFormed

/-!
# Flushing tumbling windows

What a timer tick emits for the tumbling windows that are over, compared with what their
buckets accumulated.
-/

namespace Nblex

/-- What a result says about a bucket: its group, what it accumulated, and in which window. -/
structure AggReport where
  groupKeys : Option (List String)
  count : Nat
  sum : ℚ
  min : Option ℚ
  max : Option ℚ
  distinctCount : Nat
  percentileValues : List ℚ
  windowStartNs : Nat
  windowEndNs : Nat

/-- The report of a bucket as it stands. -/
def Bucket.report (bucket : Bucket) : AggReport where
  groupKeys := bucket.groupKeys
  count := bucket.count
  sum := bucket.sum
  min := bucket.min
  max := bucket.max
  distinctCount := bucket.distinctCount
  percentileValues := bucket.percentileValues
  windowStartNs := bucket.windowStartNs
  windowEndNs := bucket.windowEndNs

/-- A bucket holds events and its window is over. -/
def Bucket.Due (now : Nat) (bucket : Bucket) : Prop :=
  0 < bucket.count ∧ bucket.windowEndNs ≤ now

instance (now : Nat) (bucket : Bucket) : Decidable (bucket.Due now) :=
  inferInstanceAs (Decidable (_ ∧ _))

/-- A tick at `now` emits one result for each due bucket, and it reports what the bucket
    accumulated and the window it accumulated it in. -/
def FlushReports (state : AggState) (now : Nat) : Prop :=
  ∃ state' emitted, windowFlushCb state now = some (state', emitted) ∧
    (emitted.map Bucket.report).Perm
      ((state.buckets.filter (fun bucket => bucket.Due now)).map Bucket.report)

/-- The turn of the flush loop on a tumbling bucket, when the window size is not zero. -/
def tumblingTurn (window : Window) (now : Nat) (bucket : Bucket) : FlushStep :=
  if bucket.windowEndNs ≤ now then
    ⟨moveBucket (resetBucket bucket) (windowSizeNs window)
        (u64Add bucket.windowStartNs
          (u64Mul (u64Sub now bucket.windowStartNs / windowSizeNs window)
            (windowSizeNs window))),
      decide (0 < bucket.count), false⟩
  else ⟨bucket, false, false⟩

theorem flushTumbling_eq {window : Window} (positive : 0 < windowSizeNs window) (now : Nat)
    (bucket : Bucket) :
    flushTumbling window now bucket = some (tumblingTurn window now bucket) := by
  unfold flushTumbling tumblingTurn
  by_cases ended : bucket.windowEndNs ≤ now
  · rw [if_pos ended, if_pos ended, u64Div_of_pos positive, Option.map_some]
  · rw [if_neg ended, if_neg ended]

/-- A turn that flushes comes from a due bucket, and the bucket it flushes is empty. -/
theorem tumblingTurn_flush {window : Window} {now : Nat} {bucket : Bucket}
    (flushes : (tumblingTurn window now bucket).shouldFlush = true) :
    bucket.Due now ∧ (tumblingTurn window now bucket).bucket.count = 0 := by
  unfold tumblingTurn at flushes ⊢
  by_cases ended : bucket.windowEndNs ≤ now
  · rw [if_pos ended] at flushes ⊢
    exact ⟨⟨of_decide_eq_true flushes, ended⟩, rfl⟩
  · rw [if_neg ended] at flushes
    cases flushes

variable {query : Aggregate} {state : AggState}

theorem tumblingTurn_keeps (window : Window) (now : Nat) (bucket : Bucket) :
    (tumblingTurn window now bucket).shouldRemove = false := by
  unfold tumblingTurn
  split <;> rfl

/-- What a tick leaves and emits in a tumbling state, and that it never divides by zero: a bucket
    exists only when the window size is positive. -/
theorem windowFlushCb_tumbling (wf : state.WellFormed query)
    (tumbling : query.window.type = .tumbling) (now : Nat) :
    ∃ state', windowFlushCb state now = some (state',
      (((state.buckets.map (tumblingTurn query.window now)).filter
        (·.shouldFlush)).map FlushStep.bucket)) ∧
      state'.buckets =
        state.buckets.map (fun bucket => (tumblingTurn query.window now bucket).bucket) := by
  have turns : ∀ bucket ∈ state.buckets,
      flushBucket query.window now bucket = some (tumblingTurn query.window now bucket) := by
    intro bucket member
    have shape := (bucketShape_tumbling tumbling).mp (wf.shape bucket member)
    rw [flushBucket, tumbling]
    exact flushTumbling_eq shape.1 now bucket
  have looped := flushLoop_of_total turns
  have kept : (state.buckets.map (tumblingTurn query.window now)).filter (!·.shouldRemove) =
      state.buckets.map (tumblingTurn query.window now) := by
    rw [List.filter_eq_self]
    intro turn member
    obtain ⟨bucket, -, rfl⟩ := List.mem_map.mp member
    rw [tumblingTurn_keeps]
    rfl
  rw [windowFlushCb, wf.window, looped, kept]
  exact ⟨_, rfl, List.map_map⟩

/-- Everything a tick emits in a tumbling state comes from a due bucket and counts nothing. -/
theorem mem_emitted_tumbling (wf : state.WellFormed query)
    (tumbling : query.window.type = .tumbling) {now : Nat} {state' : AggState}
    {emitted : List Bucket} (flushed : windowFlushCb state now = some (state', emitted))
    {bucket : Bucket} (member : bucket ∈ emitted) :
    bucket.count = 0 ∧ ∃ old ∈ state.buckets, old.Due now := by
  obtain ⟨state'', flushed', -⟩ := windowFlushCb_tumbling wf tumbling now
  rw [flushed] at flushed'
  obtain ⟨-, rfl⟩ := Prod.mk.inj (Option.some.inj flushed')
  obtain ⟨turn, turned, rfl⟩ := List.mem_map.mp member
  obtain ⟨mapped, flushes⟩ := List.mem_filter.mp turned
  obtain ⟨old, mem, rfl⟩ := List.mem_map.mp mapped
  obtain ⟨due, empty⟩ := tumblingTurn_flush flushes
  exact ⟨empty, old, mem, due⟩

/-- In every state a tumbling query can reach, a tick reports the windows that are over exactly
    when there are none to report. -/
theorem flushReports_iff [Pcre2] (reachable : AggReachable query state)
    (tumbling : query.window.type = .tumbling) (now : Nat) :
    FlushReports state now ↔ ∀ bucket ∈ state.buckets, ¬ bucket.Due now := by
  have wf := reachable.wellFormed
  constructor
  · rintro ⟨state', emitted, flushed, perm⟩ bucket member due
    have expected : bucket.report ∈
        (state.buckets.filter (fun bucket => bucket.Due now)).map Bucket.report := by
      refine List.mem_map_of_mem (List.mem_filter.mpr ⟨member, ?_⟩)
      exact decide_eq_true due
    obtain ⟨sent, sentMember, same⟩ := List.mem_map.mp (perm.mem_iff.mpr expected)
    have empty := (mem_emitted_tumbling wf tumbling flushed sentMember).1
    have counts : sent.count = bucket.count := congrArg AggReport.count same
    have positive := due.1
    omega
  · intro noneDue
    obtain ⟨state', flushed, -⟩ := windowFlushCb_tumbling wf tumbling now
    refine ⟨state', _, flushed, ?_⟩
    have silent := List.eq_nil_iff_forall_not_mem.mpr (fun bucket member => by
      obtain ⟨-, old, mem, due⟩ := mem_emitted_tumbling wf tumbling flushed member
      exact noneDue old mem due)
    have nothing : state.buckets.filter (fun bucket => bucket.Due now) = [] := by
      rw [List.filter_eq_nil_iff]
      intro bucket member due
      exact noneDue bucket member (of_decide_eq_true due)
    rw [silent, nothing]

/-- `count() window tumbling(1ms)`. -/
def tumblingCountQuery : Aggregate where
  funcs := [{ type := .count }]
  groupByFields := []
  whereFilter := none
  window := { type := .tumbling, sizeMs := 1 }

/-- One event, in the window `[1 ms, 2 ms)`. -/
def tumblingCountEvent : AggOp :=
  .event { type := .log, timestampNs := 1500000, input := none, data := some (.object []) } 0 0

/-- The bucket of the event is left alone up to the end of its window, and forgotten there. -/
theorem flushReports_tumblingCountEvent :
    ∃ state, @aggRun literalPcre2 tumblingCountQuery [tumblingCountEvent] = some (state, []) ∧
      (state.buckets.map fun bucket => (bucket.count, bucket.windowEndNs)) = [(1, 2000000)] ∧
      FlushReports state 1999999 ∧ ¬ FlushReports state 2000000 := by
  let := literalPcre2
  have reachable : ∀ {state}, aggRun tumblingCountQuery [tumblingCountEvent] = some (state, []) →
      AggReachable tumblingCountQuery state := fun ran => ⟨_, [], ran⟩
  refine ⟨_, rfl, by decide, ?_, ?_⟩
  · exact (flushReports_iff (reachable rfl) rfl 1999999).mpr (by decide)
  · exact mt (flushReports_iff (reachable rfl) rfl 2000000).mp (by decide)

/-- The tick at 2 ms reports the window of the event with a count of zero. -/
theorem tumblingCountQuery_forgets :
    ∃ state, @aggRun literalPcre2 tumblingCountQuery [tumblingCountEvent] = some (state, []) ∧
      ¬ FlushReports state 2000000 := by
  refine ⟨_, rfl, ?_⟩
  rintro ⟨state', emitted, flushed, perm⟩
  obtain ⟨-, rfl⟩ := Prod.mk.inj (Option.some.inj flushed)
  have counts := (perm.map AggReport.count).sum_eq
  revert counts
  decide

end Nblex
