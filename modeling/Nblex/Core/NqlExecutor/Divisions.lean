import Nblex.Core.NqlExecutor.Execute

/-!
# Divisions of the executor

What `get_or_create_buckets_for_event` and `window_flush_cb` divide by, in each step of a run. A
division by zero is where the functions of the model have no result.
-/

namespace Nblex

/-- What `get_or_create_buckets_for_event` divides by: once by the window size, or three times by
    the slide. -/
def bucketDivisors (window : Window) : List Nat :=
  match window.type with
  | .none | .session => []
  | .tumbling => [windowSizeNs window]
  | .sliding => [slideNs window, slideNs window, slideNs window]

/-- What `window_flush_cb` divides by: the window size, for each tumbling bucket whose window is
    over. -/
def flushDivisors (state : AggState) (now : Nat) : List Nat :=
  match state.window.type with
  | .none | .session | .sliding => []
  | .tumbling =>
      (state.buckets.filter fun bucket => decide (bucket.windowEndNs ≤ now)).map
        fun _ => windowSizeNs state.window

section Steps

variable [Pcre2]

end Steps

theorem u64Div_eq_none_iff (a b : Nat) : u64Div a b = none ↔ 0 = b := by
  unfold u64Div
  split
  · next zero => exact iff_of_true rfl zero.symm
  · next notZero => exact iff_of_false nofun (Ne.symm notZero)

/-- A division by zero leaves no buckets. -/
theorem getOrCreateBucketsForEvent_eq_none_iff (state : AggState) (keys : Option (List String))
    (timestamp : Nat) :
    getOrCreateBucketsForEvent state keys timestamp = none ↔
      0 ∈ bucketDivisors state.window := by
  unfold getOrCreateBucketsForEvent bucketDivisors
  cases state.window.type with
  | none => exact iff_of_false nofun nofun
  | session => exact iff_of_false nofun nofun
  | tumbling =>
      show tumblingBuckets state keys timestamp = none ↔ 0 ∈ [windowSizeNs state.window]
      rw [tumblingBuckets, Option.map_eq_none_iff, u64Div_eq_none_iff, List.mem_singleton]
  | sliding =>
      show slidingBuckets state keys timestamp = none ↔
        0 ∈ [slideNs state.window, slideNs state.window, slideNs state.window]
      have member : 0 ∈ [slideNs state.window, slideNs state.window, slideNs state.window] ↔
          slideNs state.window = 0 := by simp [eq_comm]
      rw [member, slidingBuckets]
      split
      · next zero => exact iff_of_true rfl zero
      · next notZero => exact iff_of_false nofun notZero

theorem flushLoop_eq_none_iff (window : Window) (now : Nat) (buckets : List Bucket) :
    flushLoop window now buckets = none ↔
      ∃ bucket ∈ buckets, flushBucket window now bucket = none := by
  induction buckets with
  | nil => exact iff_of_false (Option.some_ne_none _) (by simp)
  | cons bucket rest ih =>
      rw [List.exists_mem_cons_iff, ← ih, flushLoop]
      cases flushBucket window now bucket with
      | none => exact iff_of_true rfl (.inl rfl)
      | some step =>
          cases flushLoop window now rest with
          | none => exact iff_of_true rfl (.inr rfl)
          | some kept => exact iff_of_false nofun nofun

/-- So does one in the flush. -/
theorem windowFlushCb_eq_none_iff (state : AggState) (now : Nat) :
    windowFlushCb state now = none ↔ 0 ∈ flushDivisors state now := by
  have loop : windowFlushCb state now = none ↔ flushLoop state.window now state.buckets = none := by
    unfold windowFlushCb
    cases flushLoop state.window now state.buckets with
    | none => exact iff_of_true rfl rfl
    | some kept => exact iff_of_false nofun nofun
  rw [loop, flushLoop_eq_none_iff]
  unfold flushBucket flushDivisors
  -- the other windows flush without a division
  have never : ∀ step : Bucket → FlushStep,
      (∃ bucket ∈ state.buckets, some (step bucket) = none) ↔ 0 ∈ ([] : List Nat) := by
    intro step
    refine iff_of_false ?_ List.not_mem_nil
    rintro ⟨bucket, -, undefined⟩
    cases undefined
  cases state.window.type with
  | none => exact never _
  | session => exact never _
  | sliding => exact never _
  | tumbling =>
      show (∃ bucket ∈ state.buckets, flushTumbling state.window now bucket = none) ↔
        0 ∈ (state.buckets.filter fun bucket => decide (bucket.windowEndNs ≤ now)).map
          fun _ => windowSizeNs state.window
      rw [List.mem_map]
      constructor
      · rintro ⟨bucket, inside, undefined⟩
        unfold flushTumbling at undefined
        split at undefined
        · next ended =>
          rw [Option.map_eq_none_iff, u64Div_eq_none_iff] at undefined
          exact ⟨bucket, List.mem_filter.mpr ⟨inside, decide_eq_true ended⟩, undefined.symm⟩
        · cases undefined
      · rintro ⟨bucket, member, zero⟩
        obtain ⟨inside, ended⟩ := List.mem_filter.mp member
        refine ⟨bucket, inside, ?_⟩
        rw [flushTumbling, if_pos (of_decide_eq_true ended), Option.map_eq_none_iff,
          u64Div_eq_none_iff, zero]

end Nblex
