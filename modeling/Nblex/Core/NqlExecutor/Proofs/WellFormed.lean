import Nblex.Core.NqlExecutor.Aggregate

/-!
# Well-formed aggregation states

What every state an aggregate query can reach has in common: the configuration is the one of
the query, bucket addresses are distinct and below the allocator, `bucket_count` is the length
of the list, and the window of every bucket has the shape its window type gives it.
-/

namespace Nblex

/-- The window size in nanoseconds, as a number. -/
def Window.size (window : Window) : Nat := window.sizeMs * 1000000

theorem windowSizeNs_of_lt {window : Window} (h : window.size < 2 ^ 64) :
    windowSizeNs window = window.size := u64Mul_of_lt h

/-- The shape of a bucket's window, by window type. -/
def BucketShape (window : Window) (bucket : Bucket) : Prop :=
  match window.type with
  | .none => bucket.windowStartNs = 0 ∧ bucket.windowEndNs = u64Max
  | .session => bucket.windowEndNs = u64Max
  | .tumbling =>
      0 < windowSizeNs window ∧
        bucket.windowEndNs = u64Add bucket.windowStartNs (windowSizeNs window)
  | .sliding => bucket.windowEndNs = u64Add bucket.windowStartNs (windowSizeNs window)

/-- The invariant of the states of a query. -/
structure AggState.WellFormed (query : Aggregate) (state : AggState) : Prop where
  window : state.window = query.window
  funcs : state.funcs = query.funcs
  groupByFields : state.groupByFields = query.groupByFields
  addrs : (state.buckets.map Bucket.addr).Nodup
  fresh : ∀ bucket ∈ state.buckets, bucket.addr < state.nextAddr
  bucketCount : state.bucketCount = state.buckets.length
  shape : ∀ bucket ∈ state.buckets, BucketShape query.window bucket

theorem bucketShape_tumbling {window : Window} {bucket : Bucket}
    (type : window.type = .tumbling) : BucketShape window bucket ↔
      0 < windowSizeNs window ∧
        bucket.windowEndNs = u64Add bucket.windowStartNs (windowSizeNs window) := by
  simp only [BucketShape, type]

/-! ## What updating a bucket leaves alone -/

section Frame

variable (window : Window) (funcs : List AggFunc) (bucket : Bucket) (event : Event) (now : Nat)

/-- The part of a bucket that the functions of a query never write. -/
def Bucket.frame (bucket : Bucket) : Nat × Option (List String) × Nat × Nat × Nat × Nat :=
  (bucket.addr, bucket.groupKeys, bucket.count, bucket.windowStartNs, bucket.windowEndNs,
    bucket.lastEventNs)

theorem updateWithFunc_frame (data : Json) (func : AggFunc) :
    (updateWithFunc data bucket func).frame = bucket.frame := by
  unfold updateWithFunc
  split
  · rfl
  · rfl
  · unfold updateWithValue
    split
    all_goals first | rfl | skip
    split <;> rfl

theorem foldl_updateWithFunc_frame (data : Json) :
    (funcs.foldl (updateWithFunc data) bucket).frame = bucket.frame := by
  induction funcs generalizing bucket with
  | nil => rfl
  | cons func funcs ih => rw [List.foldl_cons, ih, updateWithFunc_frame]

/-- The last event time `update_bucket_with_event` leaves in a bucket. -/
def dateAfter (window : Window) (bucket : Bucket) (event : Event) (now : Nat) : Nat :=
  if window.type = .session ∧ bucket.lastEventNs < eventTimestamp event now then
    eventTimestamp event now
  else bucket.lastEventNs

theorem updateBucketWithEvent_frame :
    (updateBucketWithEvent window funcs bucket event now).frame =
      (bucket.addr, bucket.groupKeys, bucket.count + 1, bucket.windowStartNs,
        bucket.windowEndNs, dateAfter window bucket event now) := by
  rw [updateBucketWithEvent, foldl_updateWithFunc_frame, dateAfter]
  split <;> rfl

@[simp] theorem updateBucketWithEvent_addr :
    (updateBucketWithEvent window funcs bucket event now).addr = bucket.addr :=
  congrArg (·.1) (updateBucketWithEvent_frame window funcs bucket event now)

@[simp] theorem updateBucketWithEvent_groupKeys :
    (updateBucketWithEvent window funcs bucket event now).groupKeys = bucket.groupKeys :=
  congrArg (·.2.1) (updateBucketWithEvent_frame window funcs bucket event now)

@[simp] theorem updateBucketWithEvent_count :
    (updateBucketWithEvent window funcs bucket event now).count = bucket.count + 1 :=
  congrArg (·.2.2.1) (updateBucketWithEvent_frame window funcs bucket event now)

@[simp] theorem updateBucketWithEvent_windowStartNs :
    (updateBucketWithEvent window funcs bucket event now).windowStartNs =
      bucket.windowStartNs :=
  congrArg (·.2.2.2.1) (updateBucketWithEvent_frame window funcs bucket event now)

@[simp] theorem updateBucketWithEvent_windowEndNs :
    (updateBucketWithEvent window funcs bucket event now).windowEndNs = bucket.windowEndNs :=
  congrArg (·.2.2.2.2.1) (updateBucketWithEvent_frame window funcs bucket event now)

theorem updateBucketWithEvent_lastEventNs :
    (updateBucketWithEvent window funcs bucket event now).lastEventNs =
      dateAfter window bucket event now :=
  congrArg (·.2.2.2.2.2) (updateBucketWithEvent_frame window funcs bucket event now)

theorem BucketShape.update {window' : Window} (h : BucketShape window' bucket) :
    BucketShape window' (updateBucketWithEvent window funcs bucket event now) := by
  unfold BucketShape at h ⊢
  simpa using h

end Frame

/-! ## Preservation -/

theorem newAggState_wellFormed (query : Aggregate) : (newAggState query).WellFormed query where
  window := rfl
  funcs := rfl
  groupByFields := rfl
  addrs := List.nodup_nil
  fresh := by simp [newAggState]
  bucketCount := rfl
  shape := by simp [newAggState]

variable {query : Aggregate} {state : AggState}

theorem AggState.WellFormed.create (wf : state.WellFormed query)
    (keys : Option (List String)) (windowStart windowEnd : Nat)
    (shape : BucketShape query.window (newBucket state.nextAddr keys windowStart windowEnd)) :
    (createBucketWithWindow state keys windowStart windowEnd).1.WellFormed query where
  window := wf.window
  funcs := wf.funcs
  groupByFields := wf.groupByFields
  addrs := by
    simp only [createBucketWithWindow, List.map_cons, List.nodup_cons]
    refine ⟨?_, wf.addrs⟩
    intro member
    obtain ⟨bucket, mem, equal⟩ := List.mem_map.mp member
    have := wf.fresh bucket mem
    simp only [newBucket] at equal
    omega
  fresh := by
    intro bucket member
    rcases List.mem_cons.mp member with rfl | member
    · exact Nat.lt_succ_self _
    · exact Nat.lt_succ_of_lt (wf.fresh bucket member)
  bucketCount := by simp [createBucketWithWindow, wf.bucketCount]
  shape := by
    intro bucket member
    rcases List.mem_cons.mp member with rfl | member
    · exact shape
    · exact wf.shape bucket member

theorem AggState.WellFormed.findOrCreate (wf : state.WellFormed query) (found : Option Bucket)
    (keys : Option (List String)) (windowStart windowEnd : Nat)
    (shape : BucketShape query.window (newBucket state.nextAddr keys windowStart windowEnd)) :
    (findOrCreate state found keys windowStart windowEnd).1.WellFormed query := by
  cases found with
  | some bucket => exact wf
  | none => exact wf.create keys windowStart windowEnd shape

/-- The loop over the sliding windows keeps the invariant: every window it creates ends one
    window size after its start. -/
theorem AggState.WellFormed.slidingLoop (sliding : query.window.type = .sliding)
    (keys : Option (List String)) (timestamp slide : Nat) :
    ∀ (fuel current : Nat) (state : AggState), state.WellFormed query →
      (slidingLoop keys timestamp (windowSizeNs query.window) slide fuel state
        current).1.WellFormed query := by
  intro fuel
  induction fuel with
  | zero => intro current state wf; exact wf
  | succ fuel ih =>
      intro current state wf
      simp only [Nblex.slidingLoop]
      split
      · apply ih
        apply wf.findOrCreate
        simp [BucketShape, sliding, newBucket]
      · exact wf

theorem AggState.WellFormed.noWindow (wf : state.WellFormed query)
    (type : query.window.type = .none) (keys : Option (List String)) :
    (noWindowBuckets state keys).1.WellFormed query := by
  apply wf.findOrCreate
  simp [BucketShape, type, newBucket]

theorem AggState.WellFormed.session (wf : state.WellFormed query)
    (type : query.window.type = .session) (keys : Option (List String)) (timestamp : Nat) :
    (sessionBuckets state keys timestamp).1.WellFormed query := by
  apply wf.findOrCreate
  simp [BucketShape, type, newBucket]

theorem AggState.WellFormed.tumbling (wf : state.WellFormed query)
    (type : query.window.type = .tumbling) {keys : Option (List String)} {timestamp : Nat}
    {state' : AggState} {buckets : List Bucket}
    (h : tumblingBuckets state keys timestamp = some (state', buckets)) :
    state'.WellFormed query := by
  rw [tumblingBuckets, wf.window] at h
  obtain ⟨index, divides, equal⟩ := Option.map_eq_some_iff.mp h
  have positive : 0 < windowSizeNs query.window := pos_of_u64Div divides
  have created := wf.findOrCreate
    (findBucketByWindow state keys (u64Mul index (windowSizeNs query.window))) keys
    (u64Mul index (windowSizeNs query.window))
    (u64Add (u64Mul index (windowSizeNs query.window)) (windowSizeNs query.window))
    ((bucketShape_tumbling type).mpr ⟨positive, rfl⟩)
  obtain ⟨rfl, -⟩ := Prod.mk.inj equal
  exact created

theorem AggState.WellFormed.sliding (wf : state.WellFormed query)
    (type : query.window.type = .sliding) {keys : Option (List String)} {timestamp : Nat}
    {state' : AggState} {buckets : List Bucket}
    (h : slidingBuckets state keys timestamp = some (state', buckets)) :
    state'.WellFormed query := by
  unfold slidingBuckets at h
  rw [wf.window] at h
  split at h
  · cases h
  · have kept := AggState.WellFormed.slidingLoop type keys timestamp (slideNs query.window)
      (maxWindows timestamp (windowSizeNs query.window) (slideNs query.window))
      (earliestWindowStart timestamp (windowSizeNs query.window) (slideNs query.window))
      state wf
    rwa [Option.some.inj h] at kept

/-- Finding or creating the buckets of an event keeps the invariant. -/
theorem AggState.WellFormed.getOrCreate (wf : state.WellFormed query)
    {keys : Option (List String)} {timestamp : Nat} {state' : AggState} {buckets : List Bucket}
    (h : getOrCreateBucketsForEvent state keys timestamp = some (state', buckets)) :
    state'.WellFormed query := by
  have config := wf.window
  unfold getOrCreateBucketsForEvent at h
  rw [config] at h
  cases type : query.window.type with
  | none =>
      rw [type] at h
      have kept := wf.noWindow type keys
      rwa [Option.some.inj h] at kept
  | session =>
      rw [type] at h
      have kept := wf.session type keys timestamp
      rwa [Option.some.inj h] at kept
  | tumbling =>
      rw [type] at h
      exact wf.tumbling type h
  | sliding =>
      rw [type] at h
      exact wf.sliding type h

theorem map_addr_updateAt (addr : Nat) {f : Bucket → Bucket}
    (keepsAddr : ∀ bucket, (f bucket).addr = bucket.addr) :
    (state.updateAt addr f).buckets.map Bucket.addr = state.buckets.map Bucket.addr := by
  rw [AggState.updateAt, List.map_map]
  refine List.map_congr_left fun bucket _ => ?_
  show (if bucket.addr = addr then f bucket else bucket).addr = bucket.addr
  split
  · exact keepsAddr bucket
  · rfl

theorem AggState.WellFormed.updateAt (wf : state.WellFormed query) (addr : Nat)
    {f : Bucket → Bucket} (keepsAddr : ∀ bucket, (f bucket).addr = bucket.addr)
    (keepsShape : ∀ bucket, BucketShape query.window bucket →
      BucketShape query.window (f bucket)) :
    (state.updateAt addr f).WellFormed query := by
  refine ⟨wf.window, wf.funcs, wf.groupByFields, ?_, ?_, ?_, ?_⟩
  · rw [map_addr_updateAt addr keepsAddr]
    exact wf.addrs
  · intro bucket member
    have kept := List.mem_map_of_mem (f := Bucket.addr) member
    rw [map_addr_updateAt addr keepsAddr] at kept
    obtain ⟨old, inside, same⟩ := List.mem_map.mp kept
    exact same ▸ wf.fresh old inside
  · simp [AggState.updateAt, wf.bucketCount]
  · intro bucket member
    obtain ⟨old, mem, rfl⟩ := List.mem_map.mp member
    split
    · exact keepsShape old (wf.shape old mem)
    · exact wf.shape old mem

theorem AggState.WellFormed.aggregateEvent (wf : state.WellFormed query) {event : Event}
    {now now' : Nat} {state' : AggState} {emitted : List Bucket}
    (h : aggregateEvent state event now now' = some (state', emitted)) :
    state'.WellFormed query := by
  unfold Nblex.aggregateEvent at h
  dsimp only at h
  split at h
  · cases h
  · next found buckets get =>
    simp only [Option.some.injEq, Prod.mk.injEq] at h
    rw [← h.1]
    have start := wf.getOrCreate get
    clear get h
    induction buckets generalizing found with
    | nil => exact start
    | cons bucket buckets ih =>
        apply ih
        apply start.updateAt
        · intro bucket
          exact updateBucketWithEvent_addr _ _ _ _ _
        · intro bucket shape
          exact shape.update _ _ _ _ _

/-- One turn of the flush loop keeps the address, the group and the shape of a bucket. -/
theorem flushBucket_keeps {window : Window} {now : Nat} {bucket : Bucket} {step : FlushStep}
    (h : flushBucket window now bucket = some step) :
    step.bucket.addr = bucket.addr ∧ step.bucket.groupKeys = bucket.groupKeys ∧
      (BucketShape window bucket → BucketShape window step.bucket) := by
  unfold flushBucket at h
  split at h
  · obtain rfl := Option.some.inj h
    exact ⟨rfl, rfl, id⟩
  · next type =>
    unfold flushTumbling at h
    split at h
    · obtain ⟨windowsPassed, divides, rfl⟩ := Option.map_eq_some_iff.mp h
      refine ⟨rfl, rfl, ?_⟩
      intro shape
      rw [bucketShape_tumbling type] at shape ⊢
      exact ⟨shape.1, rfl⟩
    · obtain rfl := Option.some.inj h
      exact ⟨rfl, rfl, id⟩
  · obtain rfl := Option.some.inj h
    unfold flushSliding
    split
    · exact ⟨rfl, rfl, id⟩
    · exact ⟨rfl, rfl, id⟩
  · obtain rfl := Option.some.inj h
    exact ⟨rfl, rfl, id⟩

/-- The buckets a flush keeps are, in order, steps of buckets it was given. -/
theorem flushLoop_kept {window : Window} {now : Nat} :
    ∀ {buckets kept emitted : List Bucket},
      flushLoop window now buckets = some (kept, emitted) →
      (kept.map Bucket.addr).Sublist (buckets.map Bucket.addr) ∧
        ∀ bucket ∈ kept, ∃ old ∈ buckets, ∃ step,
          flushBucket window now old = some step ∧ bucket = step.bucket := by
  intro buckets
  induction buckets with
  | nil =>
      intro kept emitted h
      simp only [flushLoop, Option.some.injEq, Prod.mk.injEq] at h
      obtain ⟨rfl, rfl⟩ := h
      simp
  | cons head rest ih =>
      intro kept emitted h
      simp only [flushLoop] at h
      split at h
      · next step kept' emitted' stepped looped =>
        simp only [Option.some.injEq, Prod.mk.injEq] at h
        obtain ⟨rfl, rfl⟩ := h
        obtain ⟨sub, members⟩ := ih looped
        split
        · refine ⟨by simpa using sub.cons head.addr, ?_⟩
          intro bucket member
          obtain ⟨old, mem, step⟩ := members bucket (by simpa using member)
          exact ⟨old, List.mem_cons_of_mem _ mem, step⟩
        · refine ⟨?_, ?_⟩
          · simp only [List.singleton_append, List.map_cons, (flushBucket_keeps stepped).1]
            exact sub.cons_cons head.addr
          · intro bucket member
            rcases List.mem_cons.mp member with rfl | member
            · exact ⟨head, List.mem_cons_self, step, stepped, rfl⟩
            · obtain ⟨old, mem, step⟩ := members bucket (by simpa using member)
              exact ⟨old, List.mem_cons_of_mem _ mem, step⟩
      · cases h

/-- When no bucket divides by zero, the flush loop keeps the buckets that are not removed and
    emits from those that flush. -/
theorem flushLoop_of_total {window : Window} {now : Nat} {turn : Bucket → FlushStep} :
    ∀ {buckets : List Bucket},
      (∀ bucket ∈ buckets, flushBucket window now bucket = some (turn bucket)) →
      flushLoop window now buckets =
        some (((buckets.map turn).filter (!·.shouldRemove)).map FlushStep.bucket,
          ((buckets.map turn).filter (·.shouldFlush)).map FlushStep.bucket) := by
  intro buckets
  induction buckets with
  | nil =>
      intro total
      rfl
  | cons bucket rest ih =>
      intro total
      have here := total bucket List.mem_cons_self
      have later := ih (fun other member => total other (List.mem_cons_of_mem _ member))
      simp only [flushLoop, here, later, List.map_cons, List.filter_cons]
      cases (turn bucket).shouldRemove with
      | true => cases (turn bucket).shouldFlush with
        | true => rfl
        | false => rfl
      | false => cases (turn bucket).shouldFlush with
        | true => rfl
        | false => rfl

/-- A flush leaves buckets that the state has, each with its address and its group. -/
theorem windowFlushCb_kept {now : Nat} {state' : AggState} {emitted : List Bucket}
    (flushed : windowFlushCb state now = some (state', emitted)) :
    ∀ bucket ∈ state'.buckets, ∃ old ∈ state.buckets,
      bucket.addr = old.addr ∧ bucket.groupKeys = old.groupKeys := by
  rw [windowFlushCb] at flushed
  cases looped : flushLoop state.window now state.buckets with
  | none =>
      rw [looped] at flushed
      cases flushed
  | some result =>
      rw [looped] at flushed
      obtain ⟨rfl, -⟩ := Prod.mk.inj (Option.some.inj flushed)
      intro bucket member
      obtain ⟨old, inside, step, turned, rfl⟩ := (flushLoop_kept looped).2 bucket member
      obtain ⟨addr, keys, -⟩ := flushBucket_keeps turned
      exact ⟨old, inside, addr, keys⟩

theorem AggState.WellFormed.flush (wf : state.WellFormed query) {now : Nat}
    {state' : AggState} {emitted : List Bucket}
    (h : windowFlushCb state now = some (state', emitted)) : state'.WellFormed query := by
  unfold windowFlushCb at h
  rw [wf.window] at h
  split at h
  · cases h
  · next kept emitted' looped =>
    simp only [Option.some.injEq, Prod.mk.injEq] at h
    obtain ⟨rfl, rfl⟩ := h
    obtain ⟨sub, members⟩ := flushLoop_kept looped
    refine ⟨rfl, wf.funcs, wf.groupByFields, sub.nodup wf.addrs, ?_, ?_, ?_⟩
    · intro bucket member
      obtain ⟨old, mem, step, stepped, rfl⟩ := members bucket member
      rw [(flushBucket_keeps stepped).1]
      exact wf.fresh old mem
    · have shorter : kept.length ≤ state.buckets.length := by
        simpa using sub.length_le
      simp only [wf.bucketCount]
      omega
    · intro bucket member
      obtain ⟨old, mem, step, stepped, rfl⟩ := members bucket member
      exact (flushBucket_keeps stepped).2.2 (wf.shape old mem)

section Runs

variable [Pcre2]

theorem AggState.WellFormed.step (wf : state.WellFormed query) {op : AggOp}
    {state' : AggState} {emitted : List Bucket}
    (h : aggStep query state op = some (state', emitted)) : state'.WellFormed query := by
  cases op with
  | event event now now' =>
      simp only [aggStep, executeAggregate] at h
      split at h
      · exact wf.aggregateEvent h
      · simp only [Option.some.injEq, Prod.mk.injEq] at h
        exact h.1 ▸ wf
  | tick now => exact wf.flush h

/-- A property of states that every step keeps holds after every run. -/
theorem aggRunFrom_invariant {P : AggState → Prop}
    (keeps : ∀ {state op state' emitted}, aggStep query state op = some (state', emitted) →
      P state → P state') :
    ∀ {ops : List AggOp} {state state' : AggState} {emitted : List Bucket},
      aggRunFrom query state ops = some (state', emitted) → P state → P state' := by
  intro ops
  induction ops with
  | nil =>
      intro state state' emitted h inv
      simp only [aggRunFrom, Option.some.injEq, Prod.mk.injEq] at h
      exact h.1 ▸ inv
  | cons op ops ih =>
      intro state state' emitted h inv
      simp only [aggRunFrom] at h
      split at h
      · cases h
      · next middle first stepped =>
        obtain ⟨⟨last, rest⟩, run, equal⟩ := Option.map_eq_some_iff.mp h
        simp only [Prod.mk.injEq] at equal
        exact equal.1 ▸ ih run (keeps stepped inv)

/-- A run of two parts is the run of the second from where the first ends. -/
theorem aggRunFrom_append {first second : List AggOp} :
    ∀ {state middle : AggState} {emitted : List Bucket},
      aggRunFrom query state first = some (middle, emitted) →
      aggRunFrom query state (first ++ second) =
        (aggRunFrom query middle second).map (fun result => (result.1, emitted ++ result.2)) := by
  induction first with
  | nil =>
      intro state middle emitted h
      simp only [aggRunFrom, Option.some.injEq, Prod.mk.injEq] at h
      obtain ⟨rfl, rfl⟩ := h
      simp
  | cons op ops ih =>
      intro state middle emitted h
      simp only [aggRunFrom] at h
      split at h
      · cases h
      · next next here stepped =>
        obtain ⟨⟨last, rest⟩, run, equal⟩ := Option.map_eq_some_iff.mp h
        simp only [Prod.mk.injEq] at equal
        obtain ⟨rfl, rfl⟩ := equal
        simp only [List.cons_append, aggRunFrom, stepped, ih run, Option.map_map]
        simp [Function.comp_def, List.append_assoc]

/-- One more step at the end of a run. -/
theorem aggRun_concat {ops : List AggOp} {op : AggOp} {state state' : AggState}
    {emitted emitted' : List Bucket} (run : aggRun query ops = some (state, emitted))
    (stepped : aggStep query state op = some (state', emitted')) :
    aggRun query (ops ++ [op]) = some (state', emitted ++ emitted') := by
  rw [aggRun, aggRunFrom_append run]
  simp [aggRunFrom, stepped]

theorem AggReachable.wellFormed (h : AggReachable query state) : state.WellFormed query := by
  obtain ⟨ops, emitted, run⟩ := h
  exact aggRunFrom_invariant (P := AggState.WellFormed query)
    (fun stepped wf => AggState.WellFormed.step wf stepped) run (newAggState_wellFormed query)

end Runs

end Nblex
