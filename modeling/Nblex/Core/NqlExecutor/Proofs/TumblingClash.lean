import Nblex.Core.NqlExecutor.Proofs.GroupIsolation
import Nblex.Core.NqlExecutor.Proofs.TumblingWindows

/-!
# Two buckets in one tumbling window

An event looks for the bucket of its window before it opens one, so events never give a group two
buckets in one window. A tick moves a bucket without looking: it puts every bucket whose
window is over into the window of the tick, where another bucket of the group may already be.
-/

namespace Nblex

/-- The group and the window start of a bucket, which lookups go by. -/
def Bucket.place (bucket : Bucket) : Option (List String) × Nat :=
  (bucket.groupKeys, bucket.windowStartNs)

/-- No two buckets have the same group keys and the same window start. -/
def AggState.Apart (state : AggState) : Prop := (state.buckets.map Bucket.place).Nodup

instance (state : AggState) : Decidable state.Apart :=
  inferInstanceAs (Decidable (List.Nodup _))

/-- A lookup by the keys of a group and a window start can find one bucket only. -/
def AggState.Unambiguous (query : Aggregate) (state : AggState) : Prop :=
  ∀ keys, KeysFit query.groupByFields keys → ∀ start, ∀ b ∈ state.buckets, ∀ c ∈ state.buckets,
    compareGroupKeys b.groupKeys keys (groupKeysCount keys) = true → b.windowStartNs = start →
    compareGroupKeys c.groupKeys keys (groupKeysCount keys) = true → c.windowStartNs = start →
    b = c

/-- A tick finds no bucket whose window is over beside another bucket of the group that starts
    at or before the tick. -/
def AggState.TickFindsRoom (state : AggState) (now : Nat) : Prop :=
  ∀ b ∈ state.buckets, ∀ c ∈ state.buckets, b.addr ≠ c.addr → b.groupKeys = c.groupKeys →
    b.windowEndNs ≤ now → now < c.windowStartNs

instance (state : AggState) (now : Nat) : Decidable (state.TickFindsRoom now) :=
  inferInstanceAs (Decidable (∀ b ∈ state.buckets, ∀ c ∈ state.buckets, _))

/-- The condition on one step of a run. -/
def AggOp.FindsRoom (state : AggState) : AggOp → Prop
  | .event _ _ _ => True
  | .tick now => state.TickFindsRoom now

/-- Every step of a run from a state meets the condition. -/
def RunFindsRoom [Pcre2] (query : Aggregate) : AggState → List AggOp → Prop
  | _, [] => True
  | state, op :: ops =>
      op.FindsRoom state ∧
        ∀ next emitted, aggStep query state op = some (next, emitted) →
          RunFindsRoom query next ops

theorem RunFindsRoom.cons [Pcre2] {query : Aggregate} {state next : AggState} {op : AggOp}
    {ops : List AggOp} {emitted : List Bucket} (here : op.FindsRoom state)
    (stepped : aggStep query state op = some (next, emitted))
    (later : RunFindsRoom query next ops) : RunFindsRoom query state (op :: ops) := by
  refine ⟨here, fun other results taken => ?_⟩
  obtain ⟨rfl, -⟩ := Prod.mk.inj (Option.some.inj (stepped.symm.trans taken))
  exact later

/-! ## Where a tick moves a window -/

section Arithmetic

/-- The start of the window a tick moves a bucket to. -/
def movedStart (size now start : Nat) : Nat :=
  u64Add start (u64Mul (u64Sub now start / size) size)

variable {size now start : Nat}

/-- A window that is over although it starts later than the tick has an end that wrapped. -/
theorem wrapped_end (due : u64Add start size ≤ now) (later : now < start) :
    2 ^ 64 ≤ start + size := by
  unfold u64Add at due
  omega

/-- The multiple of the size that a tick adds. -/
theorem steps_bounds (positive : 0 < size) (span : Nat) :
    span / size * size ≤ span ∧ span < span / size * size + size :=
  ⟨windowStart_le size span, lt_windowEnd positive span⟩

theorem movedStart_later (later : now < start) :
    movedStart size now start =
      (start + (now + 2 ^ 64 - start) / size * size) % 2 ^ 64 := by
  have below := windowStart_le size (now + 2 ^ 64 - start)
  have borrow : u64Sub now start = now + 2 ^ 64 - start := if_neg (by omega)
  rw [movedStart, borrow, u64Mul_of_lt (by omega), u64Add]

/-- A tick moves a window to one that starts at or before it, or leaves it alone. -/
theorem movedStart_le_or_same (positive : 0 < size) (narrow : size < 2 ^ 64)
    (fits : start < 2 ^ 64) (due : u64Add start size ≤ now) :
    movedStart size now start ≤ now ∨ movedStart size now start = start := by
  by_cases passed : start ≤ now
  · left
    have below := windowStart_le size (now - start)
    have reduced := Nat.mod_le ((now - start) / size * size) (2 ^ 64)
    rw [movedStart, u64Sub_of_le passed]
    unfold u64Add u64Mul
    have sum := Nat.mod_le (start + (now - start) / size * size % 2 ^ 64) (2 ^ 64)
    omega
  · have later : now < start := Nat.lt_of_not_le passed
    have wrapped := wrapped_end due later
    have below := windowStart_le size (now + 2 ^ 64 - start)
    rw [movedStart_later later]
    cases steps : (now + 2 ^ 64 - start) / size with
    | zero =>
        right
        omega
    | succ count =>
        left
        rw [steps] at below
        have once : size ≤ (count + 1) * size := Nat.le_mul_of_pos_left size (Nat.succ_pos count)
        omega

/-- A tick does not move two windows that start later than it to one place. -/
theorem movedStart_injective {other : Nat} (positive : 0 < size) (narrow : size < 2 ^ 64)
    (fits : start < 2 ^ 64) (due : u64Add start size ≤ now) (later : now < start)
    (otherFits : other < 2 ^ 64) (otherDue : u64Add other size ≤ now) (otherLater : now < other)
    (same : movedStart size now start = movedStart size now other) : start = other := by
  have wrapped := wrapped_end due later
  have otherWrapped := wrapped_end otherDue otherLater
  obtain ⟨below, above⟩ := steps_bounds positive (now + 2 ^ 64 - start)
  obtain ⟨otherBelow, otherAbove⟩ := steps_bounds positive (now + 2 ^ 64 - other)
  rw [movedStart_later later, movedStart_later otherLater] at same
  generalize (now + 2 ^ 64 - start) / size = count at below above same
  generalize (now + 2 ^ 64 - other) / size = otherCount at otherBelow otherAbove same
  -- both sums lie in the last window size before the wrapped time of the tick
  have sums : start + count * size = other + otherCount * size := by omega
  rcases Nat.lt_trichotomy count otherCount with less | equal | more
  · have apart := Nat.mul_le_mul_right size (Nat.succ_le_of_lt less)
    rw [Nat.succ_mul] at apart
    omega
  · rw [equal] at sums
    omega
  · have apart := Nat.mul_le_mul_right size (Nat.succ_le_of_lt more)
    rw [Nat.succ_mul] at apart
    omega

end Arithmetic

/-! ## Steps -/

section Steps

variable {query : Aggregate} {state : AggState}

/-- The invariant of a run whose ticks find room. -/
structure ApartInv (query : Aggregate) (state : AggState) : Prop where
  wellFormed : state.WellFormed query
  apart : state.Apart
  small : ∀ bucket ∈ state.buckets, bucket.windowStartNs < 2 ^ 64
  keyed : ∀ bucket ∈ state.buckets,
    bucket.groupKeys = none ∨ KeysFit query.groupByFields bucket.groupKeys

theorem u64Mul_lt (a b : Nat) : u64Mul a b < 2 ^ 64 := Nat.mod_lt _ (by decide)

/-- An event goes into a bucket only when the window size is not zero. -/
theorem positive_of_aggregateEvent (wf : state.WellFormed query)
    (tumbling : query.window.type = .tumbling) {event : Event} {now now' : Nat}
    {result : AggState × List Bucket}
    (added : aggregateEvent state event now now' = some result) :
    0 < windowSizeNs query.window := by
  apply Nat.pos_of_ne_zero
  intro zero
  have divides : u64Div (eventTimestamp event now) (windowSizeNs query.window) = none := by
    rw [zero]
    rfl
  have stuck : getOrCreateBucketsForEvent state (extractGroupKeys state.groupByFields event)
      (eventTimestamp event now) = none := by
    rw [getOrCreateBucketsForEvent, wf.window, tumbling]
    simp only [tumblingBuckets, wf.window, divides, Option.map_none]
  rw [aggregateEvent, stuck] at added
  cases added

/-- Events never give a group two buckets in one window. -/
theorem ApartInv.event (inv : ApartInv query state) (tumbling : query.window.type = .tumbling)
    {event : Event} {now now' : Nat} {state' : AggState} {emitted : List Bucket}
    (added : aggregateEvent state event now now' = some (state', emitted)) :
    ApartInv query state' := by
  have wf := inv.wellFormed
  have positive := positive_of_aggregateEvent wf tumbling added
  obtain ⟨next, front, bucket, back, added', after, starts, before⟩ :=
    aggregateEvent_tumbling_split wf tumbling positive event now now'
  rw [added] at added'
  obtain ⟨rfl, -⟩ := Prod.mk.inj (Option.some.inj added')
  have places : state'.buckets.map Bucket.place = (front ++ bucket :: back).map Bucket.place := by
    rw [after]
    simp [Bucket.place]
  -- what holds of every bucket before and of the bucket of the event holds after
  have each : ∀ {P : Bucket → Prop}, (∀ b ∈ state.buckets, P b) → P bucket →
      (∀ b, P b → P (updateBucketWithEvent query.window query.funcs b event now')) →
      ∀ b ∈ state'.buckets, P b := by
    intro P old here keeps b member
    have others : ∀ other ∈ front ++ back, other ∈ state.buckets := by
      intro other inside
      rcases before with same | ⟨rfl, rfl, -⟩
      · rw [← same]
        rcases List.mem_append.mp inside with inFront | inBack
        · exact List.mem_append_left _ inFront
        · exact List.mem_append_right _ (List.mem_cons_of_mem _ inBack)
      · exact inside
    rw [after] at member
    rcases List.mem_append.mp member with inFront | atOrInBack
    · exact old b (others b (List.mem_append_left _ inFront))
    · rcases List.mem_cons.mp atOrInBack with rfl | inBack
      · exact keeps bucket here
      · exact old b (others b (List.mem_append_right _ inBack))
  refine ⟨wf.aggregateEvent added, ?_, ?_, ?_⟩
  · rw [AggState.Apart, places]
    rcases before with same | ⟨rfl, rfl, new, missed⟩
    · rw [same]
      exact inv.apart
    · rw [List.nil_append, List.map_cons, List.nodup_cons]
      refine ⟨?_, inv.apart⟩
      intro member
      obtain ⟨other, inside, same⟩ := List.mem_map.mp member
      obtain ⟨sameKeys, sameStart⟩ := Prod.mk.inj same
      have keys : bucket.groupKeys = extractGroupKeys query.groupByFields event :=
        congrArg Bucket.groupKeys new
      have found := missed other inside sameStart
      rw [sameKeys, keys, compareGroupKeys_self] at found
      cases found
  · refine each inv.small ?_ (fun b small => by simpa using small)
    rw [starts]
    exact u64Mul_lt _ _
  · refine each inv.keyed ?_ (fun b keyed => by simpa using keyed)
    rcases before with same | ⟨-, -, new, -⟩
    · exact inv.keyed bucket (by rw [← same]; simp)
    · have keys : bucket.groupKeys = extractGroupKeys query.groupByFields event :=
        congrArg Bucket.groupKeys new
      rw [keys]
      exact extractGroupKeys_keyed query.groupByFields event

/-- Where a tick leaves a bucket. -/
theorem tumblingTurn_place (window : Window) (now : Nat) (bucket : Bucket) :
    (tumblingTurn window now bucket).bucket.place =
      (bucket.groupKeys,
        if bucket.windowEndNs ≤ now then movedStart (windowSizeNs window) now bucket.windowStartNs
        else bucket.windowStartNs) := by
  unfold tumblingTurn
  split <;> rfl

/-- A tick that finds room keeps the buckets apart. -/
theorem ApartInv.tick (inv : ApartInv query state) (tumbling : query.window.type = .tumbling)
    {now : Nat} (room : state.TickFindsRoom now) {state' : AggState} {emitted : List Bucket}
    (flushed : windowFlushCb state now = some (state', emitted)) : ApartInv query state' := by
  have wf := inv.wellFormed
  obtain ⟨next, flushed', kept⟩ := windowFlushCb_tumbling wf tumbling now
  rw [flushed] at flushed'
  obtain ⟨rfl, -⟩ := Prod.mk.inj (Option.some.inj flushed')
  have shape : ∀ bucket ∈ state.buckets, 0 < windowSizeNs query.window ∧
      bucket.windowEndNs = u64Add bucket.windowStartNs (windowSizeNs query.window) :=
    fun bucket member => (bucketShape_tumbling tumbling).mp (wf.shape bucket member)
  have narrow : windowSizeNs query.window < 2 ^ 64 := u64Mul_lt _ _
  have distinct : state.buckets.Nodup := List.Nodup.of_map _ wf.addrs
  refine ⟨wf.flush flushed, ?_, ?_, ?_⟩
  · rw [AggState.Apart, kept, List.map_map]
    refine (List.nodup_map_iff_inj_on distinct).mpr ?_
    intro b inB c inC same
    rw [Function.comp_apply, Function.comp_apply, tumblingTurn_place, tumblingTurn_place] at same
    obtain ⟨sameKeys, sameStart⟩ := Prod.mk.inj same
    by_contra different
    have otherAddr : b.addr ≠ c.addr := fun equal =>
      different (List.inj_on_of_nodup_map wf.addrs inB inC equal)
    have otherStart : b.windowStartNs ≠ c.windowStartNs := by
      intro equal
      refine different (List.inj_on_of_nodup_map inv.apart inB inC ?_)
      rw [Bucket.place, Bucket.place, sameKeys, equal]
    have moved : ∀ bucket ∈ state.buckets, bucket.windowEndNs ≤ now →
        movedStart (windowSizeNs query.window) now bucket.windowStartNs ≤ now ∨
          movedStart (windowSizeNs query.window) now bucket.windowStartNs =
            bucket.windowStartNs := by
      intro bucket member due
      obtain ⟨positive, ends⟩ := shape bucket member
      exact movedStart_le_or_same positive narrow (inv.small bucket member) (ends ▸ due)
    by_cases dueB : b.windowEndNs ≤ now
    · have laterC := room b inB c inC otherAddr sameKeys dueB
      by_cases dueC : c.windowEndNs ≤ now
      · have laterB := room c inC b inB (Ne.symm otherAddr) sameKeys.symm dueC
        rw [if_pos dueB, if_pos dueC] at sameStart
        obtain ⟨positive, endsB⟩ := shape b inB
        obtain ⟨-, endsC⟩ := shape c inC
        exact otherStart (movedStart_injective positive narrow (inv.small b inB) (endsB ▸ dueB)
          laterB (inv.small c inC) (endsC ▸ dueC) laterC sameStart)
      · rw [if_pos dueB, if_neg dueC] at sameStart
        rcases moved b inB dueB with early | stays
        · omega
        · exact otherStart (stays.symm.trans sameStart)
    · by_cases dueC : c.windowEndNs ≤ now
      · have laterB := room c inC b inB (Ne.symm otherAddr) sameKeys.symm dueC
        rw [if_neg dueB, if_pos dueC] at sameStart
        rcases moved c inC dueC with early | stays
        · omega
        · exact otherStart (sameStart.trans stays)
      · rw [if_neg dueB, if_neg dueC] at sameStart
        exact otherStart sameStart
  · intro bucket member
    rw [kept] at member
    obtain ⟨old, inside, rfl⟩ := List.mem_map.mp member
    have place := congrArg Prod.snd (tumblingTurn_place query.window now old)
    have start : (tumblingTurn query.window now old).bucket.windowStartNs = _ := place
    rw [start]
    split
    · exact u64Add_lt _ _
    · exact inv.small old inside
  · intro bucket member
    rw [kept] at member
    obtain ⟨old, inside, rfl⟩ := List.mem_map.mp member
    have place := congrArg Prod.fst (tumblingTurn_place query.window now old)
    have keys : (tumblingTurn query.window now old).bucket.groupKeys = old.groupKeys := place
    rw [keys]
    exact inv.keyed old inside

/-- Buckets that are apart are told apart by a lookup. -/
theorem ApartInv.unambiguous (inv : ApartInv query state) : state.Unambiguous query := by
  intro keys fit start b inB c inC matchesB startsB matchesC startsC
  have isGroup : ∀ bucket ∈ state.buckets,
      compareGroupKeys bucket.groupKeys keys (groupKeysCount keys) = true →
      bucket.groupKeys = keys := by
    intro bucket member matched
    rcases inv.keyed bucket member with keyless | keyed
    · by_cases empty : query.groupByFields = []
      · rw [KeysFit, if_pos empty] at fit
        rw [keyless, fit]
      · rw [KeysFit, if_neg empty] at fit
        obtain ⟨texts, rfl, length⟩ := fit
        have some : texts.length ≠ 0 := by
          rw [length]
          exact fun zero => empty (List.length_eq_zero_iff.mp zero)
        simp [keyless, compareGroupKeys, groupKeysCount, some] at matched
    · rw [compareGroupKeys_fit fit keyed] at matched
      exact of_decide_eq_true matched
  refine List.inj_on_of_nodup_map inv.apart inB inC ?_
  rw [Bucket.place, Bucket.place, isGroup b inB matchesB, isGroup c inC matchesC, startsB, startsC]

/-- Where no window ends beyond 64 bits, a tick that finds no room makes two buckets of one. -/
theorem tick_apart_iff (inv : ApartInv query state) (tumbling : query.window.type = .tumbling)
    (positive : 0 < query.window.size) (small : query.window.size < 2 ^ 64)
    (aligned : ∀ bucket ∈ state.buckets, bucket.Aligned query.window.size) {now : Nat}
    (fits : WindowFits query.window.size now) {state' : AggState} {emitted : List Bucket}
    (flushed : windowFlushCb state now = some (state', emitted)) :
    state'.Apart ↔ state.TickFindsRoom now := by
  constructor
  · intro apart b inB c inC otherAddr sameKeys due
    by_contra early
    obtain ⟨next, flushed', kept⟩ := windowFlushCb_tumbling inv.wellFormed tumbling now
    rw [flushed] at flushed'
    obtain ⟨rfl, -⟩ := Prod.mk.inj (Option.some.inj flushed')
    have landed : ∀ bucket ∈ state.buckets, bucket.windowStartNs ≤ now →
        (tumblingTurn query.window now bucket).bucket.place =
          (bucket.groupKeys, now / query.window.size * query.window.size) := by
      intro bucket member passed
      rw [tumblingTurn_aligned positive small (aligned bucket member) fits]
      by_cases ended : bucket.windowEndNs ≤ now
      · rw [if_pos ended]
        rfl
      · rw [if_neg ended, Bucket.place]
        obtain ⟨index, start⟩ := (aligned bucket member).start
        have ends := (aligned bucket member).ends
        have same : now / query.window.size = index := by
          refine Nat.div_eq_of_lt_le ?_ ?_
          · rw [Nat.mul_comm, ← start]
            exact passed
          · rw [Nat.succ_mul, Nat.mul_comm index, ← start]
            omega
        rw [same, Nat.mul_comm, ← start]
    have passed : b.windowStartNs ≤ now := by
      have ends := (aligned b inB).ends
      omega
    have distinct : state.buckets.Nodup := List.Nodup.of_map _ inv.wellFormed.addrs
    rw [AggState.Apart, kept, List.map_map] at apart
    have same := (List.nodup_map_iff_inj_on distinct).mp apart b inB c inC (by
      rw [Function.comp_apply, Function.comp_apply, landed b inB passed,
        landed c inC (Nat.le_of_not_lt early), sameKeys])
    exact otherAddr (congrArg Bucket.addr same)
  · intro room
    exact (inv.tick tumbling room flushed).apart

theorem newAggState_apart (query : Aggregate) : ApartInv query (newAggState query) :=
  ⟨newAggState_wellFormed query, List.nodup_nil, nofun, nofun⟩

end Steps

/-! ## Runs -/

section Runs

variable [Pcre2] {query : Aggregate}

theorem ApartInv.step (tumbling : query.window.type = .tumbling) {state : AggState}
    (inv : ApartInv query state) {op : AggOp} (room : op.FindsRoom state) {state' : AggState}
    {emitted : List Bucket} (stepped : aggStep query state op = some (state', emitted)) :
    ApartInv query state' := by
  cases op with
  | event event now now' =>
      rw [aggStep, executeAggregate] at stepped
      split at stepped
      · exact inv.event tumbling stepped
      · obtain ⟨rfl, -⟩ := Prod.mk.inj (Option.some.inj stepped)
        exact inv
  | tick now => exact inv.tick tumbling room stepped

theorem ApartInv.run (tumbling : query.window.type = .tumbling) :
    ∀ {ops : List AggOp} {state state' : AggState} {emitted : List Bucket},
      ApartInv query state → RunFindsRoom query state ops →
      aggRunFrom query state ops = some (state', emitted) → ApartInv query state' := by
  intro ops
  induction ops with
  | nil =>
      intro state state' emitted inv room run
      obtain ⟨rfl, -⟩ := Prod.mk.inj (Option.some.inj run)
      exact inv
  | cons op ops ih =>
      intro state state' emitted inv room run
      obtain ⟨here, later⟩ := room
      rw [aggRunFrom] at run
      split at run
      · cases run
      · next next first stepped =>
        obtain ⟨⟨last, rest⟩, ran, same⟩ := Option.map_eq_some_iff.mp run
        obtain ⟨rfl, -⟩ := Prod.mk.inj same
        exact ih (inv.step tumbling here stepped) (later next first stepped) ran

/-- In every run of a tumbling query whose ticks find room, no two buckets of a state that is
    reached have the same group and window start, and lookups are unambiguous. -/
theorem tumbling_apart (tumbling : query.window.type = .tumbling) {ops : List AggOp}
    (room : RunFindsRoom query (newAggState query) ops) {state : AggState}
    {emitted : List Bucket} (run : aggRun query ops = some (state, emitted)) :
    state.Apart ∧ state.Unambiguous query := by
  have inv := ApartInv.run tumbling (newAggState_apart query) room run
  exact ⟨inv.apart, inv.unambiguous⟩

end Runs

/-- `count() by level window tumbling(1ms)`. -/
def levelMillisecondsQuery : Aggregate where
  funcs := [{ type := .count }]
  groupByFields := ["level"]
  whereFilter := none
  window := { type := .tumbling, sizeMs := 1 }

/-- Errors in the first and the third millisecond and a warning in the first, and a tick in the
    second one, which moves a bucket of each group. -/
def roomyLevelOps : List AggOp :=
  [.event (levelEvent "error" 500000) 0 0, .event (levelEvent "warn" 600000) 0 0,
    .event (levelEvent "error" 2500000) 0 0, .tick 1200000, .event (levelEvent "error" 1300000) 0 0]

theorem tumbling_apart_roomyLevelOps :
    ∃ state emitted, @aggRun literalPcre2 levelMillisecondsQuery roomyLevelOps =
        some (state, emitted) ∧
      state.buckets.map Bucket.place =
        [(some ["error"], 2000000), (some ["warn"], 1000000), (some ["error"], 1000000)] ∧
      state.Apart ∧ state.Unambiguous levelMillisecondsQuery := by
  let := literalPcre2
  have room : RunFindsRoom levelMillisecondsQuery (newAggState levelMillisecondsQuery)
      roomyLevelOps := by
    refine .cons trivial rfl (.cons trivial rfl (.cons trivial rfl ?_))
    exact .cons (show AggState.TickFindsRoom _ _ by decide) rfl (.cons trivial rfl trivial)
  exact ⟨_, _, rfl, by decide, tumbling_apart rfl room rfl⟩

/-- An event in the window `[0 ms, 1 ms)`, one in the next window, and a tick in that window. -/
def overtakenTickOps : List AggOp :=
  [.event { type := .log, timestampNs := 500000, input := none, data := some (.object []) } 0 0,
    .event { type := .log, timestampNs := 1500000, input := none, data := some (.object []) } 0 0,
    .tick 1600000]

/-- The tick moves the first bucket to where the second already is. -/
theorem overtakenTickOps_clash :
    ∃ state emitted, @aggRun literalPcre2 tumblingCountQuery overtakenTickOps =
        some (state, emitted) ∧ ¬ state.Apart ∧ ¬ state.Unambiguous tumblingCountQuery := by
  refine ⟨_, _, rfl, by decide, ?_⟩
  intro unambiguous
  have same := unambiguous none rfl 1000000 _ List.mem_cons_self _
    (List.mem_cons_of_mem _ List.mem_cons_self) rfl rfl rfl rfl
  exact absurd (congrArg Bucket.addr same) (by decide)

end Nblex
