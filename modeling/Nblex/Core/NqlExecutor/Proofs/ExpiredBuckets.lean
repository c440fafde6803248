import Nblex.Core.NqlExecutor.Proofs.GroupMemory
import Nblex.Core.NqlExecutor.Proofs.RunningCounts

/-!
# Expired buckets

What a tick does to the bucket list of a session or sliding window, with the group keys in memory:
the walk unlinks cells while it goes over the list, and frees the keys of each.
-/

namespace Nblex

/-- A session bucket with events that has been idle for the timeout; a sliding bucket whose window
    is over. -/
def bucketExpired (window : Window) (now : Nat) (bucket : Bucket) : Bool :=
  match window.type with
  | .session =>
      decide (0 < bucket.count ∧ window.timeoutMs * 1000000 ≤ now - bucket.lastEventNs)
  | .sliding => decide (bucket.windowEndNs ≤ now)
  | _ => false

/-- A tick emits one result for each expired bucket with events, in the order of the list, removes
    the expired buckets and touches nothing else: the other buckets keep the keys they have. -/
def FlushesExpired (owning : KeyState) (now : Nat) : Prop :=
  let stay := owning.state.buckets.filter fun bucket =>
    !bucketExpired owning.state.window now bucket
  ∃ after emitted, KeyMemory.windowFlushCb owning now = some (after, emitted) ∧
    after.state =
      { owning.state with buckets := stay, bucketCount := stay.length, lastFlushNs := now } ∧
    emitted = owning.state.buckets.filter (fun bucket =>
      bucketExpired owning.state.window now bucket && decide (0 < bucket.count)) ∧
    (∀ bucket ∈ emitted, ∀ clock, (createAggResultEvent owning.state bucket clock).data.bind
      (·.get? "metrics") = some (aggMetrics owning.state.funcs bucket)) ∧
    ∀ bucket ∈ stay, after.keysAt bucket.addr = owning.keysAt bucket.addr ∧
      after.readable bucket = owning.readable bucket

/-- The keys of every expired bucket are there, and no other bucket has them. -/
def ExpireAlone (owning : KeyState) (now : Nat) : Prop :=
  ∀ bucket ∈ owning.state.buckets, bucketExpired owning.state.window now bucket →
    owning.readable bucket ∧ ∀ other ∈ owning.state.buckets, other.addr ≠ bucket.addr →
      KeyMemory.KeysApart owning.keysAt bucket other

variable {state : AggState} {now : Nat}

/-- The decision of the loop on one bucket. -/
def flushDecision (window : Window) (now : Nat) (bucket : Bucket) : Bool :=
  match window.type with
  | .session => decide (0 < bucket.count ∧ timeoutNs window ≤ now - bucket.lastEventNs)
  | _ => decide (bucket.windowEndNs ≤ now)

theorem flushBucket_decision {window : Window} {bucket : Bucket}
    (type : window.type = .session ∨ window.type = .sliding) (later : bucket.lastEventNs ≤ now) :
    flushBucket window now bucket = some ⟨bucket,
      flushDecision window now bucket && decide (0 < bucket.count),
      flushDecision window now bucket⟩ := by
  unfold flushBucket flushDecision
  rcases type with type | type
  · simp only [type, flushSession, u64Sub_of_le later]
    by_cases counted : 0 < bucket.count
    · simp [counted]
    · simp [counted]
  · simp only [type, flushSliding]
    by_cases ended : bucket.windowEndNs ≤ now
    · simp [ended]
    · simp [ended]

/-- What a tick does by value in terms of the decisions. -/
theorem windowFlushCb_decisions
    (type : state.window.type = .session ∨ state.window.type = .sliding)
    (counted : state.bucketCount = state.buckets.length)
    (later : ∀ bucket ∈ state.buckets, bucket.lastEventNs ≤ now) :
    let stay := state.buckets.filter fun bucket => !flushDecision state.window now bucket
    windowFlushCb state now = some
      ({ state with buckets := stay, bucketCount := stay.length, lastFlushNs := now },
        state.buckets.filter fun bucket =>
          flushDecision state.window now bucket && decide (0 < bucket.count)) := by
  have looped := flushLoop_of_total fun bucket member =>
    flushBucket_decision type (later bucket member)
  rw [List.filter_map, List.filter_map, List.map_map, List.map_map] at looped
  rw [windowFlushCb, looped]
  simp only [Function.comp_def, List.map_id_fun', id]
  have shorter := List.length_filter_le
    (fun bucket => !flushDecision state.window now bucket) state.buckets
  rw [counted, Nat.sub_sub_self shorter]

/-- The timeout does not overflow 64 bits, or no bucket has been idle for what is left of it. -/
def TimeoutHolds (state : AggState) (now : Nat) : Prop :=
  state.window.type = .sliding ∨ state.window.timeoutMs * 1000000 < 2 ^ 64 ∨
    ∀ bucket ∈ state.buckets, 0 < bucket.count →
      now - bucket.lastEventNs < timeoutNs state.window

theorem flushDecision_eq (type : state.window.type = .session ∨ state.window.type = .sliding)
    (later : ∀ bucket ∈ state.buckets, bucket.lastEventNs ≤ now) (clock : now < 2 ^ 64)
    (holds : TimeoutHolds state now) :
    ∀ bucket ∈ state.buckets,
      flushDecision state.window now bucket = bucketExpired state.window now bucket := by
  intro bucket member
  unfold flushDecision bucketExpired
  rcases type with session | sliding
  · simp only [session]
    rcases holds with sliding | fits | short
    · rw [session] at sliding
      cases sliding
    · rw [timeoutNs, u64Mul_of_lt fits]
    · by_cases fits : state.window.timeoutMs * 1000000 < 2 ^ 64
      · rw [timeoutNs, u64Mul_of_lt fits]
      · refine decide_eq_decide.mpr ⟨fun idle => ?_, fun idle => ?_⟩
        · exact absurd idle.2 (Nat.not_le_of_lt (short bucket member idle.1))
        · have within := later bucket member
          omega
  · simp only [sliding]

/-- A bucket that is flushed before its time shows in the results. -/
theorem timeoutHolds_of_emitted
    (type : state.window.type = .session ∨ state.window.type = .sliding)
    (same : (state.buckets.filter fun bucket =>
        flushDecision state.window now bucket && decide (0 < bucket.count)) =
      state.buckets.filter fun bucket =>
        bucketExpired state.window now bucket && decide (0 < bucket.count))
    (clock : now < 2 ^ 64) : TimeoutHolds state now := by
  rcases type with session | sliding
  · by_cases fits : state.window.timeoutMs * 1000000 < 2 ^ 64
    · exact .inr (.inl fits)
    · refine .inr (.inr fun bucket member held => ?_)
      by_contra idle
      have here : bucket ∈ state.buckets.filter fun bucket =>
          flushDecision state.window now bucket && decide (0 < bucket.count) := by
        refine List.mem_filter.mpr ⟨member, ?_⟩
        simp [flushDecision, session, held, Nat.le_of_not_lt idle]
      rw [same] at here
      have expires := (List.mem_filter.mp here).2
      simp only [bucketExpired, session, Bool.and_eq_true, decide_eq_true_eq] at expires
      omega
  · exact .inl sliding

variable {owning : KeyState}

/-- A tick flushes what has expired just in case the timeout holds and the expired buckets do not
    share their keys. -/
theorem flushesExpired_iff
    (type : owning.state.window.type = .session ∨ owning.state.window.type = .sliding)
    (distinct : (owning.state.buckets.map Bucket.addr).Nodup)
    (counted : owning.state.bucketCount = owning.state.buckets.length)
    (later : ∀ bucket ∈ owning.state.buckets, bucket.lastEventNs ≤ now) (clock : now < 2 ^ 64)
    (known : ∀ bucket ∈ owning.state.buckets, ∀ handle, owning.keysAt bucket.addr = some handle →
      handle < owning.arrays.next) :
    FlushesExpired owning now ↔ TimeoutHolds owning.state now ∧ ExpireAlone owning now := by
  have total := fun bucket member => flushBucket_decision type (later bucket member)
  have alone := KeyMemory.flush_alone_iff distinct total known
    fun bucket reported => ((Bool.and_eq_true _ _).mp reported).1
  have flushed := KeyMemory.windowFlushCb_eq distinct now
  rw [windowFlushCb_decisions type counted later, Option.map_some] at flushed
  constructor
  · rintro ⟨after, emitted, ran, -, same, -, keeps⟩
    rw [flushed] at ran
    by_cases there : KeyMemory.flushReads owning.state.window now owning.keysAt owning.arrays
        owning.state.buckets = true
    · rw [if_pos there] at ran
      obtain ⟨rfl, rfl⟩ := Prod.mk.inj (Option.some.inj ran)
      have holds := timeoutHolds_of_emitted type same clock
      have agree := flushDecision_eq type later clock holds
      refine ⟨holds, fun bucket member expired => ?_⟩
      refine alone.mp ⟨there, fun other inside stays => ?_⟩ bucket member
        ((agree bucket member).trans expired)
      refine (keeps other (List.mem_filter.mpr ⟨inside, ?_⟩)).2
      rw [← agree other inside]
      exact congrArg (! ·) stays
    · rw [if_neg there] at ran
      cases ran
  · rintro ⟨holds, expireAlone⟩
    have agree := flushDecision_eq type later clock holds
    obtain ⟨there, keeps⟩ := alone.mpr fun bucket member decided =>
      expireAlone bucket member ((agree bucket member).symm.trans decided)
    rw [if_pos there] at flushed
    refine ⟨_, _, flushed, ?_, ?_, fun bucket _ at' =>
      createAggResultEvent_metrics owning.state bucket at', fun other member => ⟨rfl, ?_⟩⟩
    · have stay := List.filter_congr fun bucket member => congrArg (! ·) (agree bucket member)
      rw [stay]
    · exact List.filter_congr fun bucket member => by rw [agree bucket member]
    · obtain ⟨inside, stays⟩ := List.mem_filter.mp member
      refine keeps other inside ((agree other inside).trans ?_)
      rwa [Bool.not_eq_true'] at stays

/-- Two buckets of each level with a key array each, the first two of them over at 2 ms. -/
def levelWindows : KeyState :=
  (openedLevelOps.take 4).foldl (@keyStep literalPcre2 slidingLevelQuery)
    (newKeyState slidingLevelQuery)

theorem flushesExpired_iff_levelWindows :
    FlushesExpired levelWindows 2000000 ∧
      (levelWindows.state.buckets.map fun bucket =>
        (bucket.groupKeys, bucketExpired levelWindows.state.window 2000000 bucket)) =
          [(some ["warn"], false), (some ["error"], false), (some ["warn"], true),
            (some ["error"], true)] := by
  have known : ∀ bucket ∈ levelWindows.state.buckets,
      ∀ handle ∈ levelWindows.keysAt bucket.addr, handle < levelWindows.arrays.next := by decide
  have alone : ∀ bucket ∈ levelWindows.state.buckets,
      bucketExpired levelWindows.state.window 2000000 bucket →
        levelWindows.readable bucket ∧ ∀ other ∈ levelWindows.state.buckets,
          other.addr ≠ bucket.addr → ∀ handle ∈ levelWindows.keysAt bucket.addr,
            levelWindows.keysAt other.addr ≠ some handle := by decide
  refine ⟨(flushesExpired_iff (.inr rfl) (by decide) rfl (by decide) (by decide) known).mpr
    ⟨.inl rfl, alone⟩, by decide⟩

/-- `aggregate count() window session(18446744073710ms)`. -/
def longSessionQuery : Aggregate where
  funcs := [{ type := .count }]
  groupByFields := []
  whereFilter := none
  window := { type := .session, timeoutMs := 18446744073710 }

/-- An event at 1 ns. -/
def earlyEvent : Event :=
  { type := .log, timestampNs := 1, input := none, data := some (.object []) }

/-- The state after that event. -/
def longSession : KeyState :=
  @keyStep literalPcre2 longSessionQuery (newKeyState longSessionQuery) (.event earlyEvent 0 0)

/-- An error in two windows, which share its keys. -/
def sharedWindows : KeyState :=
  @keyStep literalPcre2 slidingLevelQuery (newKeyState slidingLevelQuery)
    (.event (levelEvent "error" 1500000) 0 0)

/-- A session with a timeout of more than 500 years is over after one millisecond, and of two
    windows that are over at once and share their keys the second is reported from freed keys. -/
theorem flushes_early_and_freed :
    @nqlParse literalPcre2 "aggregate count() window session(18446744073710ms)".toList =
        some (.single (.aggregate longSessionQuery)) ∧
      @KeyMemory.run literalPcre2 longSessionQuery [.event earlyEvent 0 0] =
        some (longSession, []) ∧
      ¬FlushesExpired longSession 1000001 ∧
      @KeyMemory.run literalPcre2 slidingLevelQuery [.event (levelEvent "error" 1500000) 0 0] =
        some (sharedWindows, []) ∧
      KeyMemory.windowFlushCb sharedWindows 3000000 = none ∧
      ¬FlushesExpired sharedWindows 3000000 := by
  have undefined : KeyMemory.windowFlushCb sharedWindows 3000000 = none := rfl
  refine ⟨by decide, rfl, ?_, rfl, undefined, ?_⟩
  · rintro ⟨after, emitted, ran, -, rfl, -⟩
    have reported := congrArg (Option.map fun result => result.2.length) ran
    rw [Option.map_some] at reported
    dsimp only at reported
    revert reported
    decide
  · rintro ⟨after, emitted, ran, -⟩
    rw [undefined] at ran
    cases ran

end Nblex
