import Nblex.Core.NqlExecutor.Proofs.GroupKeys
import Nblex.Core.NqlExecutor.Proofs.TumblingFlush

/-!
# Tumbling windows over a run

Events and timer ticks in any order keep every bucket in an aligned window, as long as no window
ends beyond 64 bits. An event goes into one bucket, and no event is counted twice or lost: it
is counted in a bucket or in what a tick has cleared.
-/

namespace Nblex

/-- The window of a time ends below `2 ^ 64`. -/
def WindowFits (size time : Nat) : Prop := (time / size + 1) * size < 2 ^ 64

/-- A bucket in an aligned window. -/
structure Bucket.Aligned (size : Nat) (bucket : Bucket) : Prop where
  start : size ∣ bucket.windowStartNs
  ends : bucket.windowEndNs = bucket.windowStartNs + size

/-- The events that are counted in the buckets. -/
def AggState.counted (state : AggState) : Nat := (state.buckets.map Bucket.count).sum

/-- The events that a tick clears: those of the buckets whose window is over. -/
def AggState.clearedBy (state : AggState) (now : Nat) : Nat :=
  ((state.buckets.filter (fun bucket => bucket.windowEndNs ≤ now)).map Bucket.count).sum

/-- An event is added to one bucket, an old one or a new and empty one in front of the others,
    and the window of the bucket contains the time of the event. -/
def AddedOnce (before after : AggState) (event : Event) (now now' : Nat) : Prop :=
  ∃ front bucket back,
    (front ++ bucket :: back = before.buckets ∨
      front = [] ∧ back = before.buckets ∧ bucket.count = 0) ∧
    bucket.windowStartNs ≤ eventTimestamp event now ∧
    eventTimestamp event now < bucket.windowEndNs ∧
    after.buckets = front ++
      updateBucketWithEvent before.window before.funcs bucket event now' :: back

section Ops

variable [Pcre2] (query : Aggregate)

/-- No window that a step opens or moves a bucket to ends beyond 64 bits. -/
def AggOp.Fits : AggOp → Prop
  | .event e now _ =>
      whereAccepts query e = true → WindowFits query.window.size (eventTimestamp e now)
  | .tick now => WindowFits query.window.size now

/-- The number of events a step adds. -/
def AggOp.accepted : AggOp → Nat
  | .event e _ _ => if whereAccepts query e then 1 else 0
  | .tick _ => 0

/-- The number of events a step clears. -/
def AggOp.cleared (state : AggState) : AggOp → Nat
  | .event _ _ _ => 0
  | .tick now => state.clearedBy now

/-- The number of events that the ticks of a run clear. -/
def clearedAlong : AggState → List AggOp → Nat
  | _, [] => 0
  | state, op :: ops =>
      match aggStep query state op with
      | none => 0
      | some (next, _) => op.cleared state + clearedAlong next ops

end Ops

/-! ## The windows of a time -/

section Arithmetic

variable {size time start : Nat}

theorem windowStart_le (size time : Nat) : time / size * size ≤ time := Nat.div_mul_le_self _ _

theorem lt_windowEnd (positive : 0 < size) (time : Nat) : time < time / size * size + size := by
  have split := Nat.div_add_mod time size
  have rest := Nat.mod_lt time positive
  rw [Nat.mul_comm] at split
  omega

/-- The catch-up step of a tick leads to the window of the tick. -/
theorem caughtUp (aligned : size ∣ start) (passed : start ≤ time) (positive : 0 < size) :
    start + (time - start) / size * size = time / size * size := by
  obtain ⟨index, rfl⟩ := aligned
  have steps : (time - size * index) / size = time / size - index := by
    rw [Nat.sub_mul_div]
  have earlier : index ≤ time / size := by
    rw [Nat.le_div_iff_mul_le positive, Nat.mul_comm]
    exact passed
  rw [steps, Nat.sub_mul, Nat.mul_comm size index]
  have below := Nat.mul_le_mul_right size earlier
  omega

theorem WindowFits.ends (fits : WindowFits size time) : time / size * size + size < 2 ^ 64 := by
  unfold WindowFits at fits
  rwa [Nat.succ_mul] at fits

end Arithmetic

/-! ## One step -/

section Steps

variable {query : Aggregate} {state : AggState}

/-- The bucket a window search leads to: one that it finds, or a new one. -/
theorem windowBucket_cases (state : AggState) (keys : Option (List String)) (size start : Nat) :
    (∃ bucket ∈ state.buckets, windowBucket state keys size start = (state, bucket) ∧
        bucket.windowStartNs = start ∧
        compareGroupKeys bucket.groupKeys keys (groupKeysCount keys) = true) ∨
      (∀ bucket ∈ state.buckets, bucket.windowStartNs = start →
          compareGroupKeys bucket.groupKeys keys (groupKeysCount keys) = false) ∧
        windowBucket state keys size start =
          createBucketWithWindow state keys start (u64Add start size) := by
  cases search : findBucketByWindow state keys start with
  | some bucket =>
      have found := List.find?_some search
      rw [Bool.and_eq_true, beq_iff_eq] at found
      refine Or.inl ⟨bucket, List.mem_of_find?_eq_some search, ?_, found.2, found.1⟩
      rw [windowBucket, search]
      rfl
  | none =>
      refine Or.inr ⟨?_, by rw [windowBucket, search]; rfl⟩
      intro bucket member starts
      have missed := List.find?_eq_none.mp search bucket member
      rw [Bool.and_eq_true, beq_iff_eq] at missed
      rw [Bool.eq_false_iff]
      exact fun same => missed ⟨same, starts⟩

/-- An update at the address of a bucket changes that bucket only. -/
theorem updateAt_split {front back : List Bucket} {bucket : Bucket} (f : Bucket → Bucket)
    (addrs : (state.buckets.map Bucket.addr).Nodup)
    (split : state.buckets = front ++ bucket :: back) :
    (state.updateAt bucket.addr f).buckets = front ++ f bucket :: back := by
  rw [split, List.map_append, List.map_cons, List.nodup_middle, List.nodup_cons,
    List.mem_append, not_or] at addrs
  rw [AggState.updateAt, split, List.map_append, List.map_cons, if_pos rfl,
    map_update_fresh addrs.1.1, map_update_fresh addrs.1.2]

/-- An event of a tumbling query goes through the bucket of its window. -/
theorem aggregateEvent_tumbling (wf : state.WellFormed query)
    (tumbling : query.window.type = .tumbling) (positive : 0 < windowSizeNs query.window)
    (event : Event) (now now' : Nat) :
    aggregateEvent state event now now' =
      some ((windowBucket state (extractGroupKeys query.groupByFields event)
        (windowSizeNs query.window) (u64Mul (eventTimestamp event now / windowSizeNs query.window)
          (windowSizeNs query.window))).1.updateAt
        (windowBucket state (extractGroupKeys query.groupByFields event)
          (windowSizeNs query.window)
          (u64Mul (eventTimestamp event now / windowSizeNs query.window)
            (windowSizeNs query.window))).2.addr
        (fun bucket => updateBucketWithEvent query.window query.funcs bucket event now'), []) := by
  have assigned : getOrCreateBucketsForEvent state (extractGroupKeys query.groupByFields event)
      (eventTimestamp event now) =
      some (singleBucket (windowBucket state (extractGroupKeys query.groupByFields event)
        (windowSizeNs query.window) (u64Mul (eventTimestamp event now / windowSizeNs query.window)
          (windowSizeNs query.window)))) := by
    rw [getOrCreateBucketsForEvent, wf.window, tumbling]
    simp only [tumblingBuckets, wf.window, u64Div_of_pos positive, Option.map_some]
  exact aggregateEvent_single wf (by simp [tumbling]) assigned now'

/-- What an event of a tumbling query does to the buckets. -/
theorem aggregateEvent_tumbling_split (wf : state.WellFormed query)
    (tumbling : query.window.type = .tumbling) (positive : 0 < windowSizeNs query.window)
    (event : Event) (now now' : Nat) :
    ∃ state' front bucket back, aggregateEvent state event now now' = some (state', []) ∧
      state'.buckets =
        front ++ updateBucketWithEvent query.window query.funcs bucket event now' :: back ∧
      bucket.windowStartNs = u64Mul (eventTimestamp event now / windowSizeNs query.window)
        (windowSizeNs query.window) ∧
      (front ++ bucket :: back = state.buckets ∨
        front = [] ∧ back = state.buckets ∧
          bucket = newBucket state.nextAddr (extractGroupKeys query.groupByFields event)
            bucket.windowStartNs (u64Add bucket.windowStartNs (windowSizeNs query.window)) ∧
          ∀ other ∈ state.buckets, other.windowStartNs = bucket.windowStartNs →
            compareGroupKeys other.groupKeys (extractGroupKeys query.groupByFields event)
              (groupKeysCount (extractGroupKeys query.groupByFields event)) = false) := by
  have added := aggregateEvent_tumbling wf tumbling positive event now now'
  rcases windowBucket_cases state (extractGroupKeys query.groupByFields event)
    (windowSizeNs query.window) (u64Mul (eventTimestamp event now / windowSizeNs query.window)
      (windowSizeNs query.window)) with
    ⟨bucket, member, found, starts, -⟩ | ⟨missed, created⟩
  · rw [found] at added
    obtain ⟨front, back, split⟩ := List.append_of_mem member
    exact ⟨_, front, bucket, back, added, updateAt_split _ wf.addrs split, starts,
      Or.inl split.symm⟩
  · rw [created] at added
    have kept : (createBucketWithWindow state (extractGroupKeys query.groupByFields event)
        (u64Mul (eventTimestamp event now / windowSizeNs query.window)
          (windowSizeNs query.window))
        (u64Add (u64Mul (eventTimestamp event now / windowSizeNs query.window)
          (windowSizeNs query.window)) (windowSizeNs query.window))).1.WellFormed query :=
      wf.create _ _ _ ((bucketShape_tumbling tumbling).mpr ⟨positive, rfl⟩)
    exact ⟨_, [], _, state.buckets, added, updateAt_split _ kept.addrs rfl, rfl,
      Or.inr ⟨rfl, rfl, rfl, missed⟩⟩

/-- The turn of a tick on a bucket in an aligned window. -/
theorem tumblingTurn_aligned {bucket : Bucket} {now : Nat} (positive : 0 < query.window.size)
    (small : query.window.size < 2 ^ 64) (aligned : bucket.Aligned query.window.size)
    (fits : WindowFits query.window.size now) :
    (tumblingTurn query.window now bucket).bucket =
      if bucket.windowEndNs ≤ now then
        { resetBucket bucket with
          windowStartNs := now / query.window.size * query.window.size
          windowEndNs := now / query.window.size * query.window.size + query.window.size }
      else bucket := by
  unfold tumblingTurn
  by_cases due : bucket.windowEndNs ≤ now
  · rw [if_pos due, if_pos due, windowSizeNs_of_lt small]
    have ends := fits.ends
    have inside := lt_windowEnd positive now
    have passed : bucket.windowStartNs ≤ now := by
      have bound := aligned.ends
      omega
    have landed := caughtUp aligned.start passed positive
    have below : (now - bucket.windowStartNs) / query.window.size * query.window.size ≤ now :=
      Nat.le_trans (windowStart_le _ _) (Nat.sub_le _ _)
    have moved : u64Add bucket.windowStartNs
        (u64Mul (u64Sub now bucket.windowStartNs / query.window.size) query.window.size) =
        now / query.window.size * query.window.size := by
      rw [u64Sub_of_le passed, u64Mul_of_lt (by omega), u64Add_of_lt (by omega), landed]
    simp only [moveBucket, moved, u64Add_of_lt ends]
  · rw [if_neg due, if_neg due]

/-- An event in a state with aligned windows. -/
theorem aggregateEvent_aligned (wf : state.WellFormed query)
    (tumbling : query.window.type = .tumbling) (positive : 0 < query.window.size)
    (small : query.window.size < 2 ^ 64)
    (aligned : ∀ bucket ∈ state.buckets, bucket.Aligned query.window.size) {event : Event}
    {now : Nat} (fits : WindowFits query.window.size (eventTimestamp event now)) (now' : Nat) :
    ∃ state', aggregateEvent state event now now' = some (state', []) ∧
      (∀ bucket ∈ state'.buckets, bucket.Aligned query.window.size) ∧
      AddedOnce state state' event now now' ∧ state'.counted = state.counted + 1 := by
  have size := windowSizeNs_of_lt small
  obtain ⟨state', front, bucket, back, added, after, starts, before⟩ :=
    aggregateEvent_tumbling_split wf tumbling (by rw [size]; exact positive) event now now'
  have ends := fits.ends
  have inside := lt_windowEnd positive (eventTimestamp event now)
  have lower := windowStart_le query.window.size (eventTimestamp event now)
  rw [size, u64Mul_of_lt (by omega)] at starts
  have others : ∀ other ∈ front ++ back, other.Aligned query.window.size := by
    intro other member
    refine aligned other ?_
    rcases before with same | ⟨rfl, rfl, -⟩
    · rw [← same]
      rcases List.mem_append.mp member with inFront | inBack
      · exact List.mem_append_left _ inFront
      · exact List.mem_append_right _ (List.mem_cons_of_mem _ inBack)
    · exact member
  have here : bucket.Aligned query.window.size := by
    rcases before with same | ⟨-, -, new, -⟩
    · exact aligned bucket (by rw [← same]; simp)
    · refine ⟨by rw [starts]; exact Nat.dvd_mul_left _ _, ?_⟩
      have newEnd : bucket.windowEndNs = u64Add bucket.windowStartNs (windowSizeNs query.window) :=
        congrArg Bucket.windowEndNs new
      rw [newEnd, size, u64Add_of_lt (by omega)]
  refine ⟨state', added, ?_, ?_, ?_⟩
  · intro other member
    rw [after] at member
    rcases List.mem_append.mp member with inFront | atOrInBack
    · exact others other (List.mem_append_left _ inFront)
    · rcases List.mem_cons.mp atOrInBack with rfl | inBack
      · exact ⟨by simpa using here.start, by simpa using here.ends⟩
      · exact others other (List.mem_append_right _ inBack)
  · refine ⟨front, bucket, back, ?_, ?_, ?_, ?_⟩
    · rcases before with same | ⟨noFront, sameBack, new, -⟩
      · exact Or.inl same
      · exact Or.inr ⟨noFront, sameBack, congrArg Bucket.count new⟩
    · omega
    · have bound := here.ends
      omega
    · rw [wf.window, wf.funcs]
      exact after
  · have counts : state.counted + 1 =
        (front.map Bucket.count).sum + (bucket.count + 1 + (back.map Bucket.count).sum) := by
      rcases before with same | ⟨rfl, rfl, new, -⟩
      · simp only [AggState.counted, ← same, List.map_append, List.map_cons, List.sum_append,
          List.sum_cons]
        omega
      · have empty : bucket.count = 0 := congrArg Bucket.count new
        simp only [AggState.counted, empty, List.map_nil, List.sum_nil]
        omega
    rw [counts, AggState.counted, after]
    simp only [List.map_append, List.map_cons, List.sum_append, List.sum_cons,
      updateBucketWithEvent_count]

/-- What a tick clears and what it keeps are all there was. -/
theorem counted_cleared (buckets : List Bucket) (now : Nat) :
    (buckets.map (fun bucket => if bucket.windowEndNs ≤ now then 0 else bucket.count)).sum +
      ((buckets.filter (fun bucket => bucket.windowEndNs ≤ now)).map Bucket.count).sum =
        (buckets.map Bucket.count).sum := by
  induction buckets with
  | nil => rfl
  | cons bucket rest ih =>
      by_cases passed : bucket.windowEndNs ≤ now
      · rw [List.filter_cons_of_pos (by simpa using passed)]
        simp only [List.map_cons, List.sum_cons, if_pos passed]
        omega
      · rw [List.filter_cons_of_neg (by simpa using passed)]
        simp only [List.map_cons, List.sum_cons, if_neg passed]
        omega

/-- A tick in a state with aligned windows. -/
theorem windowFlushCb_aligned (wf : state.WellFormed query)
    (tumbling : query.window.type = .tumbling) (positive : 0 < query.window.size)
    (small : query.window.size < 2 ^ 64)
    (aligned : ∀ bucket ∈ state.buckets, bucket.Aligned query.window.size) {now : Nat}
    (fits : WindowFits query.window.size now) :
    ∃ state' emitted, windowFlushCb state now = some (state', emitted) ∧
      (∀ bucket ∈ state'.buckets, bucket.Aligned query.window.size ∧ now < bucket.windowEndNs) ∧
      state'.counted + state.clearedBy now = state.counted := by
  obtain ⟨state', flushed, kept⟩ := windowFlushCb_tumbling wf tumbling now
  have turns : ∀ bucket ∈ state.buckets, (tumblingTurn query.window now bucket).bucket =
      if bucket.windowEndNs ≤ now then
        { resetBucket bucket with
          windowStartNs := now / query.window.size * query.window.size
          windowEndNs := now / query.window.size * query.window.size + query.window.size }
      else bucket :=
    fun bucket member => tumblingTurn_aligned positive small (aligned bucket member) fits
  refine ⟨state', _, flushed, ?_, ?_⟩
  · intro bucket member
    rw [kept] at member
    obtain ⟨old, inside, rfl⟩ := List.mem_map.mp member
    rw [turns old inside]
    by_cases passed : old.windowEndNs ≤ now
    · rw [if_pos passed]
      exact ⟨⟨Nat.dvd_mul_left _ _, rfl⟩, lt_windowEnd positive now⟩
    · rw [if_neg passed]
      exact ⟨aligned old inside, Nat.lt_of_not_le passed⟩
  · have counts : state'.counted =
        (state.buckets.map
          (fun bucket => if bucket.windowEndNs ≤ now then 0 else bucket.count)).sum := by
      rw [AggState.counted, kept, List.map_map]
      refine congrArg List.sum (List.map_congr_left ?_)
      intro bucket member
      rw [Function.comp_apply, turns bucket member]
      split <;> rfl
    rw [counts]
    exact counted_cleared state.buckets now

end Steps

/-! ## Runs -/

section Runs

variable [Pcre2] {query : Aggregate}

/-- Every run keeps the windows aligned and loses no event. -/
theorem aggRunFrom_aligned (tumbling : query.window.type = .tumbling)
    (positive : 0 < query.window.size) (small : query.window.size < 2 ^ 64) :
    ∀ {ops : List AggOp} {state state' : AggState} {emitted : List Bucket},
      (∀ op ∈ ops, op.Fits query) → state.WellFormed query →
      (∀ bucket ∈ state.buckets, bucket.Aligned query.window.size) →
      aggRunFrom query state ops = some (state', emitted) →
      (∀ bucket ∈ state'.buckets, bucket.Aligned query.window.size) ∧
        state'.counted + clearedAlong query state ops =
          state.counted + (ops.map (AggOp.accepted query)).sum := by
  intro ops
  induction ops with
  | nil =>
      intro state state' emitted fits wf aligned run
      obtain ⟨rfl, -⟩ := Prod.mk.inj (Option.some.inj run)
      exact ⟨aligned, rfl⟩
  | cons op ops ih =>
      intro state state' emitted fits wf aligned run
      have fitsLater : ∀ later ∈ ops, later.Fits query :=
        fun later member => fits later (List.mem_cons_of_mem _ member)
      have step : ∃ next first, aggStep query state op = some (next, first) ∧
          (∀ bucket ∈ next.buckets, bucket.Aligned query.window.size) ∧
          next.counted + op.cleared state = state.counted + op.accepted query := by
        cases op with
        | event e now now' =>
            by_cases accepts : whereAccepts query e = true
            · have fitsHere : WindowFits query.window.size (eventTimestamp e now) :=
                fits (.event e now now') List.mem_cons_self accepts
              obtain ⟨next, added, aligned', -, counts⟩ := aggregateEvent_aligned wf tumbling
                positive small aligned fitsHere now'
              refine ⟨next, [], ?_, aligned', ?_⟩
              · rw [aggStep, executeAggregate, if_pos accepts]
                exact added
              · rw [counts, AggOp.accepted, if_pos accepts]
                rfl
            · refine ⟨state, [], ?_, aligned, ?_⟩
              · rw [aggStep, executeAggregate, if_neg accepts]
              · rw [AggOp.accepted, if_neg accepts]
                rfl
        | tick now =>
            obtain ⟨next, first, flushed, after, counts⟩ := windowFlushCb_aligned wf tumbling
              positive small aligned (fits (.tick now) List.mem_cons_self)
            exact ⟨next, first, flushed, fun bucket member => (after bucket member).1, counts⟩
      obtain ⟨next, first, stepped, aligned', counts⟩ := step
      rw [aggRunFrom, stepped] at run
      obtain ⟨⟨last, rest⟩, ran, same⟩ := Option.map_eq_some_iff.mp run
      obtain ⟨rfl, -⟩ := Prod.mk.inj same
      obtain ⟨kept, total⟩ := ih fitsLater (wf.step stepped) aligned' ran
      refine ⟨kept, ?_⟩
      rw [clearedAlong, stepped, List.map_cons, List.sum_cons]
      show last.counted + (op.cleared state + clearedAlong query next ops) = _
      omega

/-- In every state a tumbling query can reach without an overflow, the windows are aligned and the
    counts in the buckets and the counts cleared at ticks are the accepted events; the next
    event is added to exactly one bucket, whose window contains it, and after the next tick
    every window ends later than the tick. -/
theorem tumbling_run (tumbling : query.window.type = .tumbling)
    (positive : 0 < query.window.size) (small : query.window.size < 2 ^ 64) {ops : List AggOp}
    (fits : ∀ op ∈ ops, op.Fits query) {state : AggState} {emitted : List Bucket}
    (run : aggRun query ops = some (state, emitted)) :
    (∀ bucket ∈ state.buckets, bucket.Aligned query.window.size) ∧
      state.counted + clearedAlong query (newAggState query) ops =
        (ops.map (AggOp.accepted query)).sum ∧
      (∀ event now now', whereAccepts query event = true →
        WindowFits query.window.size (eventTimestamp event now) →
        ∃ state', executeAggregate query state event now now' = some (state', []) ∧
          AddedOnce state state' event now now') ∧
      ∀ now, WindowFits query.window.size now →
        ∃ state' emitted', windowFlushCb state now = some (state', emitted') ∧
          ∀ bucket ∈ state'.buckets, now < bucket.windowEndNs := by
  have wf : state.WellFormed query := AggReachable.wellFormed ⟨ops, emitted, run⟩
  obtain ⟨aligned, counts⟩ := aggRunFrom_aligned tumbling positive small fits
    (newAggState_wellFormed query) nofun run
  refine ⟨aligned, ?_, ?_, ?_⟩
  · have none : (newAggState query).counted = 0 := rfl
    omega
  · intro event now now' accepts fitsHere
    obtain ⟨state', added, -, once, -⟩ := aggregateEvent_aligned wf tumbling positive small
      aligned fitsHere now'
    refine ⟨state', ?_, once⟩
    rw [executeAggregate, if_pos accepts]
    exact added
  · intro now fitsHere
    obtain ⟨state', emitted', flushed, after, -⟩ := windowFlushCb_aligned wf tumbling positive
      small aligned fitsHere
    exact ⟨state', emitted', flushed, fun bucket member => (after bucket member).2⟩

end Runs

/-- One event at 1.5 ms and a tick at 7 ms. -/
def tumblingCountOps : List AggOp :=
  [.event { type := .log, timestampNs := 1500000, input := none, data := some (.object []) } 0 0,
    .tick 7000000]

theorem tumbling_run_tumblingCountQuery :
    ∃ state emitted, @aggRun literalPcre2 tumblingCountQuery tumblingCountOps =
        some (state, emitted) ∧
      (∀ bucket ∈ state.buckets, bucket.Aligned tumblingCountQuery.window.size) ∧
      state.counted + @clearedAlong literalPcre2 tumblingCountQuery
        (newAggState tumblingCountQuery) tumblingCountOps = 1 := by
  let := literalPcre2
  have fits : ∀ op ∈ tumblingCountOps, op.Fits tumblingCountQuery := by
    intro op member
    rcases List.mem_pair.mp member with rfl | rfl
    · intro accepts
      show WindowFits 1000000 1500000
      unfold WindowFits
      decide
    · show WindowFits 1000000 7000000
      unfold WindowFits
      decide
  obtain ⟨aligned, counts, -⟩ := tumbling_run rfl (by decide) (by decide) fits rfl
  exact ⟨_, _, rfl, aligned, counts⟩

end Nblex
