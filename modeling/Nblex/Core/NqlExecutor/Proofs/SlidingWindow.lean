import Nblex.Core.NqlExecutor.Proofs.WellFormed
import Mathlib.Data.List.Nodup

/-!
# Sliding windows

Which windows `get_or_create_buckets_for_event` assigns an event to. The aligned windows that
contain a timestamp are given by `windowsContaining`; the loop of the executor visits them all
below the window size and none from there on.
-/

namespace Nblex

/-- The slide in nanoseconds, as a number. -/
def Window.slide (window : Window) : Nat :=
  if 0 < window.slideMs then window.slideMs * 1000000 else window.size

theorem slideNs_of_lt {window : Window} (hsize : window.size < 2 ^ 64)
    (hslide : window.slide < 2 ^ 64) : slideNs window = window.slide := by
  unfold slideNs Window.slide at *
  by_cases given : 0 < window.slideMs
  · rw [if_pos given] at hslide ⊢
    rw [if_pos given]
    exact u64Mul_of_lt hslide
  · rw [if_neg given, if_neg given]
    exact windowSizeNs_of_lt hsize

theorem Window.slide_pos {window : Window} (h : 0 < window.size) : 0 < window.slide := by
  unfold Window.slide
  by_cases given : 0 < window.slideMs
  · rw [if_pos given]
    omega
  · rw [if_neg given]
    exact h

/-! ## The aligned windows of a timestamp -/

/-- The starts of the aligned windows that contain a timestamp. -/
def windowsContaining (size slide timestamp : Nat) : List Nat :=
  ((List.range (timestamp / slide + 1)).map (· * slide)).filter
    (fun start => decide (timestamp < start + size))

theorem mem_windowsContaining {size slide timestamp start : Nat} (pos : 0 < slide) :
    start ∈ windowsContaining size slide timestamp ↔
      ∃ k, start = k * slide ∧ start ≤ timestamp ∧ timestamp < start + size := by
  simp only [windowsContaining, List.mem_filter, List.mem_map, List.mem_range,
    decide_eq_true_eq]
  constructor
  · rintro ⟨⟨k, bound, rfl⟩, inside⟩
    refine ⟨k, rfl, ?_, inside⟩
    exact (Nat.le_div_iff_mul_le pos).mp (Nat.lt_succ_iff.mp bound)
  · rintro ⟨k, rfl, below, inside⟩
    refine ⟨⟨k, ?_, rfl⟩, inside⟩
    exact Nat.lt_succ_of_le ((Nat.le_div_iff_mul_le pos).mpr below)

/-- Below the window size every aligned start up to the timestamp counts. -/
theorem windowsContaining_of_lt {size timestamp : Nat} (slide : Nat) (h : timestamp < size) :
    windowsContaining size slide timestamp =
      (List.range (timestamp / slide + 1)).map (· * slide) := by
  unfold windowsContaining
  rw [List.filter_eq_self]
  intro start _
  simp only [decide_eq_true_eq]
  omega

theorem windowsContaining_nodup {size slide timestamp : Nat} (pos : 0 < slide) :
    (windowsContaining size slide timestamp).Nodup := by
  unfold windowsContaining
  refine List.Nodup.filter _ (List.Nodup.map ?_ List.nodup_range)
  intro i j equal
  exact Nat.eq_of_mul_eq_mul_right pos equal

/-- A timestamp past the first window lies in no window at all exactly when it is in the gap
    that a slide longer than the size leaves. -/
theorem windowsContaining_eq_nil_iff {size slide timestamp : Nat} (pos : 0 < slide) :
    windowsContaining size slide timestamp = [] ↔ size ≤ timestamp % slide := by
  have split := Nat.div_add_mod' timestamp slide
  constructor
  · intro empty
    by_contra inside
    have member : timestamp / slide * slide ∈ windowsContaining size slide timestamp := by
      rw [mem_windowsContaining pos]
      exact ⟨timestamp / slide, rfl, by omega, by omega⟩
    rw [empty] at member
    exact List.not_mem_nil member
  · intro gap
    rw [List.eq_nil_iff_forall_not_mem]
    intro start member
    obtain ⟨k, rfl, below, inside⟩ := (mem_windowsContaining pos).mp member
    have last : k * slide ≤ timestamp / slide * slide :=
      Nat.mul_le_mul_right slide ((Nat.le_div_iff_mul_le pos).mpr below)
    omega

/-! ## The loop -/

variable {query : Aggregate} {state : AggState}

/-- The bucket of a window starts where it was asked for and ends one size later. -/
theorem windowBucket_window (wf : state.WellFormed query)
    (sliding : query.window.type = .sliding) (keys : Option (List String)) (start : Nat) :
    (windowBucket state keys (windowSizeNs query.window) start).2.windowStartNs = start ∧
      (windowBucket state keys (windowSizeNs query.window) start).2.windowEndNs =
        u64Add start (windowSizeNs query.window) := by
  unfold windowBucket
  cases search : findBucketByWindow state keys start with
  | none => exact ⟨rfl, rfl⟩
  | some bucket =>
      have found := List.find?_some search
      have shape := wf.shape bucket (List.mem_of_find?_eq_some search)
      simp only [BucketShape, sliding] at shape
      simp only [Bool.and_eq_true, beq_iff_eq] at found
      rw [found.2] at shape
      exact ⟨found.2, shape⟩

theorem AggState.WellFormed.windowBucket (wf : state.WellFormed query)
    (sliding : query.window.type = .sliding) (keys : Option (List String)) (start : Nat) :
    (windowBucket state keys (windowSizeNs query.window) start).1.WellFormed query := by
  apply wf.findOrCreate
  simp [BucketShape, sliding, newBucket]

/-- As long as the windows it comes to contain the timestamp, the loop takes one a turn. -/
theorem slidingLoop_inside (sliding : query.window.type = .sliding)
    (keys : Option (List String)) {timestamp slide : Nat}
    (noWrap : timestamp + windowSizeNs query.window + slide < 2 ^ 64) :
    ∀ {fuel current : Nat} {state : AggState}, state.WellFormed query →
      (∀ i < fuel, current + i * slide ≤ timestamp ∧
        timestamp < current + i * slide + windowSizeNs query.window) →
      (slidingLoop keys timestamp (windowSizeNs query.window) slide fuel state current).2.map
          Bucket.windowStartNs = (List.range fuel).map (fun i => current + i * slide) ∧
        ∀ bucket ∈ (slidingLoop keys timestamp (windowSizeNs query.window) slide fuel state
            current).2,
          bucket.windowEndNs = bucket.windowStartNs + windowSizeNs query.window := by
  intro fuel
  induction fuel with
  | zero =>
      intro current state wf inside
      simp [slidingLoop]
  | succ fuel ih =>
      intro current state wf inside
      have here := inside 0 (Nat.succ_pos fuel)
      rw [Nat.zero_mul, Nat.add_zero] at here
      have upper : u64Add current (windowSizeNs query.window) =
          current + windowSizeNs query.window := u64Add_of_lt (by omega)
      have next : u64Add current slide = current + slide := u64Add_of_lt (by omega)
      have later : ∀ i < fuel, current + slide + i * slide ≤ timestamp ∧
          timestamp < current + slide + i * slide + windowSizeNs query.window := by
        intro i bound
        have step := inside (i + 1) (Nat.succ_lt_succ bound)
        rw [Nat.succ_mul] at step
        omega
      obtain ⟨startEq, endEq⟩ := windowBucket_window wf sliding keys current
      obtain ⟨starts, ends⟩ := ih (wf.windowBucket sliding keys current) later
      have guard : current ≤ timestamp ∧
          timestamp < u64Add current (windowSizeNs query.window) := by
        rw [upper]
        exact here
      simp only [slidingLoop, if_pos guard, next]
      constructor
      · rw [List.map_cons, startEq, starts, List.range_succ_eq_map, List.map_cons, List.map_map,
          Nat.zero_mul, Nat.add_zero]
        refine congrArg (current :: ·) (List.map_congr_left ?_)
        intro i _
        simp only [Function.comp_apply, Nat.succ_mul]
        omega
      · intro bucket member
        rcases List.mem_cons.mp member with rfl | member
        · rw [endEq, startEq, upper]
        · exact ends bucket member

/-- The loop stops at once when the window it starts from is over. -/
theorem slidingLoop_outside (keys : Option (List String)) {timestamp windowSize current : Nat}
    (slide fuel : Nat) (state : AggState)
    (past : ¬ timestamp < u64Add current windowSize) :
    slidingLoop keys timestamp windowSize slide fuel state current = (state, []) := by
  cases fuel with
  | zero => rfl
  | succ fuel =>
      unfold slidingLoop
      rw [if_neg]
      intro guard
      exact past guard.2

/-! ## The assignment -/

/-- An event at `timestamp` goes to exactly the aligned windows that contain it, each once,
    and every bucket it goes to ends one size after its start. -/
def AssignsExactly (state : AggState) (keys : Option (List String)) (timestamp : Nat)
    (window : Window) : Prop :=
  ∃ state' buckets,
    getOrCreateBucketsForEvent state keys timestamp = some (state', buckets) ∧
      (buckets.map Bucket.windowStartNs).Nodup ∧
      (∀ start, start ∈ buckets.map Bucket.windowStartNs ↔
        ∃ k, start = k * window.slide ∧ start ≤ timestamp ∧ timestamp < start + window.size) ∧
      ∀ bucket ∈ buckets, bucket.windowEndNs = bucket.windowStartNs + window.size

/-- What the sliding branch computes when nothing wraps around. -/
theorem getOrCreate_sliding (wf : state.WellFormed query)
    (sliding : query.window.type = .sliding) (keys : Option (List String)) {timestamp : Nat}
    (positive : 0 < query.window.size)
    (noWrap : timestamp + query.window.size + query.window.slide < 2 ^ 64) :
    getOrCreateBucketsForEvent state keys timestamp =
      some (slidingLoop keys timestamp (windowSizeNs query.window) query.window.slide
        (maxWindows timestamp query.window.size query.window.slide) state
        (earliestWindowStart timestamp query.window.size query.window.slide)) := by
  have sizeEq : windowSizeNs query.window = query.window.size := windowSizeNs_of_lt (by omega)
  have slideEq : slideNs query.window = query.window.slide :=
    slideNs_of_lt (by omega) (by omega)
  have slidePos := Window.slide_pos positive
  rw [getOrCreateBucketsForEvent, wf.window, sliding]
  simp only [slidingBuckets, wf.window, slideEq, sizeEq]
  rw [if_neg (by omega)]

/-- Below the window size the assignment is right. -/
theorem assignsExactly_of_lt (wf : state.WellFormed query)
    (sliding : query.window.type = .sliding) (keys : Option (List String)) {timestamp : Nat}
    (positive : 0 < query.window.size)
    (noWrap : timestamp + query.window.size + query.window.slide < 2 ^ 64)
    (few : (windowsContaining query.window.size query.window.slide timestamp).length ≤
      maxSlidingWindows)
    (early : timestamp < query.window.size) :
    AssignsExactly state keys timestamp query.window := by
  have slidePos := Window.slide_pos positive
  have sizeEq : windowSizeNs query.window = query.window.size := windowSizeNs_of_lt (by omega)
  have containing := windowsContaining_of_lt query.window.slide early
  rw [containing, List.length_map, List.length_range] at few
  have first : earliestWindowStart timestamp query.window.size query.window.slide = 0 := by
    unfold earliestWindowStart
    rw [if_neg (by omega), Nat.zero_div, Nat.zero_mul]
  have fuel : maxWindows timestamp query.window.size query.window.slide =
      timestamp / query.window.slide + 1 := by
    simp only [maxWindows, first, Nat.sub_zero, Nat.mul_div_cancel _ slidePos]
    exact Nat.min_eq_left few
  have inside : ∀ i < timestamp / query.window.slide + 1,
      0 + i * query.window.slide ≤ timestamp ∧
        timestamp < 0 + i * query.window.slide + windowSizeNs query.window := by
    intro i bound
    have below := (Nat.le_div_iff_mul_le slidePos).mp (Nat.lt_succ_iff.mp bound)
    rw [sizeEq]
    omega
  have got := getOrCreate_sliding wf sliding keys positive noWrap
  obtain ⟨starts, ends⟩ :=
    slidingLoop_inside sliding keys (by rw [sizeEq]; exact noWrap) wf inside
  rw [first, fuel] at got
  generalize slidingLoop keys timestamp (windowSizeNs query.window) query.window.slide
    (timestamp / query.window.slide + 1) state 0 = result at got starts ends
  obtain ⟨state', buckets⟩ := result
  simp only [Nat.zero_add] at starts
  rw [← containing] at starts
  refine ⟨state', buckets, got, ?_, ?_, ?_⟩
  · rw [starts]
    exact windowsContaining_nodup slidePos
  · intro start
    rw [starts]
    exact mem_windowsContaining slidePos
  · intro bucket member
    rw [ends bucket member, sizeEq]

/-- From the window size on, the rounded lower bound is a window that is already over, and the
    event goes to no window. -/
theorem getOrCreate_sliding_of_le (wf : state.WellFormed query)
    (sliding : query.window.type = .sliding) (keys : Option (List String)) {timestamp : Nat}
    (positive : 0 < query.window.size)
    (noWrap : timestamp + query.window.size + query.window.slide < 2 ^ 64)
    (late : query.window.size ≤ timestamp) :
    getOrCreateBucketsForEvent state keys timestamp = some (state, []) := by
  have sizeEq : windowSizeNs query.window = query.window.size := windowSizeNs_of_lt (by omega)
  rw [getOrCreate_sliding wf sliding keys positive noWrap]
  have bound : earliestWindowStart timestamp query.window.size query.window.slide ≤
      timestamp - query.window.size := by
    unfold earliestWindowStart
    rw [if_pos late]
    exact Nat.div_mul_le_self _ _
  rw [slidingLoop_outside]
  rw [sizeEq, u64Add_of_lt (by omega)]
  omega

/-- The sliding assignment is right exactly below the window size and in the gaps between
    windows. -/
theorem assignsExactly_iff [Pcre2] (reachable : AggReachable query state)
    (sliding : query.window.type = .sliding) (keys : Option (List String)) (timestamp : Nat)
    (positive : 0 < query.window.size)
    (noWrap : timestamp + query.window.size + query.window.slide < 2 ^ 64)
    (few : (windowsContaining query.window.size query.window.slide timestamp).length ≤
      maxSlidingWindows) :
    AssignsExactly state keys timestamp query.window ↔
      timestamp < query.window.size ∨
        query.window.size ≤ timestamp % query.window.slide := by
  have wf := reachable.wellFormed
  have slidePos := Window.slide_pos positive
  by_cases early : timestamp < query.window.size
  · simp only [early, true_or, iff_true]
    exact assignsExactly_of_lt wf sliding keys positive noWrap few early
  · have none := getOrCreate_sliding_of_le wf sliding keys positive noWrap (by omega)
    simp only [early, false_or]
    rw [← windowsContaining_eq_nil_iff slidePos, List.eq_nil_iff_forall_not_mem]
    constructor
    · rintro ⟨state', buckets, got, -, starts, -⟩ start member
      rw [none] at got
      obtain ⟨rfl, rfl⟩ := Prod.mk.inj (Option.some.inj got)
      exact List.not_mem_nil ((starts start).mpr ((mem_windowsContaining slidePos).mp member))
    · intro empty
      refine ⟨state, [], none, List.nodup_nil, ?_, by simp⟩
      intro start
      rw [← mem_windowsContaining slidePos]
      simp only [List.map_nil, List.not_mem_nil, empty start]

/-- `count() window sliding(2ms, 1ms)`. -/
def slidingCountQuery : Aggregate where
  funcs := [{ type := .count }]
  groupByFields := []
  whereFilter := none
  window := { type := .sliding, sizeMs := 2, slideMs := 1 }

theorem assignsExactly_slidingCountQuery :
    AssignsExactly (newAggState slidingCountQuery) none 1500000 slidingCountQuery.window ↔
      1500000 < slidingCountQuery.window.size ∨
        slidingCountQuery.window.size ≤ 1500000 % slidingCountQuery.window.slide :=
  letI := literalPcre2
  assignsExactly_iff (newAggState_reachable slidingCountQuery) rfl none 1500000 (by decide)
    (by decide) (by decide)

/-- Three milliseconds in, an event lies in the windows that start at 2 ms and at 3 ms, and
    goes to neither. -/
theorem slidingCountQuery_drops :
    @AggReachable literalPcre2 slidingCountQuery (newAggState slidingCountQuery) ∧
      slidingCountQuery.window.type = .sliding ∧ 0 < slidingCountQuery.window.size ∧
      3000000 + slidingCountQuery.window.size + slidingCountQuery.window.slide < 2 ^ 64 ∧
      (windowsContaining slidingCountQuery.window.size slidingCountQuery.window.slide
        3000000).length ≤ maxSlidingWindows ∧
      ¬ AssignsExactly (newAggState slidingCountQuery) none 3000000
        slidingCountQuery.window := by
  refine ⟨@newAggState_reachable literalPcre2 slidingCountQuery, rfl, by decide, by decide,
    by decide, ?_⟩
  rintro ⟨state', buckets, got, -, starts, -⟩
  rw [getOrCreate_sliding_of_le (newAggState_wellFormed slidingCountQuery) rfl none (by decide)
    (by decide) (by decide)] at got
  obtain ⟨-, rfl⟩ := Prod.mk.inj (Option.some.inj got)
  have inside := (starts 2000000).mpr ⟨2, by decide, by decide, by decide⟩
  exact List.not_mem_nil inside

end Nblex
