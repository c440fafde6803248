import Nblex.Core.NqlExecutor.CountedEvents
import Nblex.Core.NqlExecutor.Proofs.GroupKeys
import Nblex.Parsers.NqlParser
import Std.Data.String.ToInt

/-!
# Groups are apart

All events with data that one bucket counts have the group keys of the bucket. Strings are keys
themselves and integers are printed as decimals, so different values of these types are different
keys; all booleans have the key `null`.
-/

namespace Nblex

/-- Two values of one scalar type that are different. -/
inductive ScalarsDiffer : Json → Json → Prop where
  | strings {s t : String} : s ≠ t → ScalarsDiffer (.string s) (.string t)
  | integers {m n : Int} : m ≠ n → ScalarsDiffer (.integer m) (.integer n)
  | booleans {b c : Bool} : b ≠ c → ScalarsDiffer (.bool b) (.bool c)

/-- Two events that have different values of one scalar type in a field. -/
def DifferIn (field : String) (event other : Event) : Prop :=
  ∃ value value', event.data.bind (jsonGetPath · field) = some value ∧
    other.data.bind (jsonGetPath · field) = some value' ∧ ScalarsDiffer value value'

/-- Two events of one group, one with `true` and one with `false` in a `by` field. -/
def MixBooleans (fields : List String) (event other : Event) : Prop :=
  extractGroupKeys fields event = extractGroupKeys fields other ∧
    ∃ field ∈ fields, ∃ b c : Bool, b ≠ c ∧
      event.data.bind (jsonGetPath · field) = some (.bool b) ∧
      other.data.bind (jsonGetPath · field) = some (.bool c)

/-- The event of a step. -/
def AggOp.event? : AggOp → Option Event
  | .event e _ _ => some e
  | .tick _ => none

/-- No bucket of the run counts two events that differ in a `by` field. -/
def Separated [Pcre2] (query : Aggregate) (ops : List AggOp) : Prop :=
  ∀ addr, ∀ event ∈ countedEvents query addr (newAggState query) ops,
    ∀ other ∈ countedEvents query addr (newAggState query) ops,
      ∀ field ∈ query.groupByFields, ¬DifferIn field event other

/-! ## Key texts -/

theorem groupKeyText_differ {value value' : Json} (differ : ScalarsDiffer value value') :
    groupKeyText (some value) ≠ groupKeyText (some value') ∨
      ∃ b c : Bool, b ≠ c ∧ value = .bool b ∧ value' = .bool c := by
  cases differ with
  | strings different => exact .inl different
  | integers different => exact .inl fun same => different (Int.repr_injective same)
  | booleans different => exact .inr ⟨_, _, different, rfl, rfl⟩

theorem extractGroupKeys_eq {fields : List String} {event : Event} {data : Json}
    (present : event.data = some data) (nonempty : fields ≠ []) :
    extractGroupKeys fields event =
      some (fields.map (fun field => groupKeyText (jsonGetPath data field))) := by
  rw [extractGroupKeys, present]
  exact if_neg nonempty

/-- Two events with the same group keys do not differ in a `by` field, unless by a boolean. -/
theorem not_differIn_of_keys {fields : List String} {event other : Event} {field : String}
    (member : field ∈ fields)
    (same : extractGroupKeys fields event = extractGroupKeys fields other)
    (unmixed : ¬MixBooleans fields event other) : ¬DifferIn field event other := by
  rintro ⟨value, value', found, found', differ⟩
  obtain ⟨data, present, read⟩ := Option.bind_eq_some_iff.mp found
  obtain ⟨data', present', read'⟩ := Option.bind_eq_some_iff.mp found'
  rcases groupKeyText_differ differ with different | ⟨b, c, different, rfl, rfl⟩
  · have nonempty : fields ≠ [] := List.ne_nil_of_mem member
    rw [extractGroupKeys_eq present nonempty, extractGroupKeys_eq present' nonempty] at same
    have texts := List.map_inj_left.mp (Option.some.inj same) field member
    rw [read, read'] at texts
    exact different texts
  · exact unmixed ⟨same, field, member, b, c, different, found, found'⟩

/-! ## The buckets of an event -/

/-- The buckets that an event with these keys is given: they pass the comparison, and new ones have
    the keys. -/
structure Assigns (state : AggState) (keys : Option (List String))
    (result : AggState × List Bucket) : Prop where
  later : state.nextAddr ≤ result.1.nextAddr
  kept : ∀ bucket ∈ state.buckets, bucket ∈ result.1.buckets
  source : ∀ bucket ∈ result.1.buckets,
    bucket ∈ state.buckets ∨ state.nextAddr ≤ bucket.addr ∧ bucket.groupKeys = keys
  assigned : ∀ bucket ∈ result.2, bucket ∈ result.1.buckets ∧
    compareGroupKeys bucket.groupKeys keys (groupKeysCount keys) = true

variable {state : AggState} {keys : Option (List String)}

theorem assigns_findOrCreate {found : Option Bucket}
    (searched : ∀ bucket, found = some bucket → bucket ∈ state.buckets ∧
      compareGroupKeys bucket.groupKeys keys (groupKeysCount keys) = true)
    (windowStart windowEnd : Nat) :
    Assigns state keys (singleBucket (findOrCreate state found keys windowStart windowEnd)) := by
  cases found with
  | some bucket =>
      refine ⟨le_refl _, fun _ member => member, fun _ member => .inl member, ?_⟩
      intro other member
      rw [List.mem_singleton.mp member]
      exact searched bucket rfl
  | none =>
      refine ⟨Nat.le_succ _, fun _ member => List.mem_cons_of_mem _ member, ?_, ?_⟩
      · intro bucket member
        rcases List.mem_cons.mp member with rfl | old
        · exact .inr ⟨le_refl _, rfl⟩
        · exact .inl old
      · intro bucket member
        rw [List.mem_singleton.mp member]
        exact ⟨List.mem_cons_self, compareGroupKeys_self keys _⟩

theorem assigns_windowBucket (state : AggState) (keys : Option (List String))
    (windowSize windowStart : Nat) :
    Assigns state keys (singleBucket (windowBucket state keys windowSize windowStart)) := by
  refine assigns_findOrCreate ?_ _ _
  intro bucket found
  have tested := List.find?_some found
  simp only [Bool.and_eq_true] at tested
  exact ⟨List.mem_of_find?_eq_some found, tested.1⟩

theorem assigns_slidingLoop (keys : Option (List String)) (timestamp windowSize slide : Nat)
    (fuel : Nat) : ∀ (state : AggState) (current : Nat),
      Assigns state keys (slidingLoop keys timestamp windowSize slide fuel state current) := by
  have none (state : AggState) : Assigns state keys (state, []) :=
    ⟨le_refl _, fun _ member => member, fun _ member => .inl member, nofun⟩
  induction fuel with
  | zero => exact fun state _ => none state
  | succ fuel ih =>
      intro state current
      rw [slidingLoop]
      split
      · have first := assigns_windowBucket state keys windowSize current
        have rest := ih (windowBucket state keys windowSize current).1 (u64Add current slide)
        refine ⟨first.later.trans rest.later, ?_, ?_, ?_⟩
        · intro bucket member
          exact rest.kept bucket (first.kept bucket member)
        · intro bucket member
          rcases rest.source bucket member with inside | ⟨new, own⟩
          · exact first.source bucket inside
          · exact .inr ⟨first.later.trans new, own⟩
        · intro bucket member
          rcases List.mem_cons.mp member with rfl | later
          · obtain ⟨inside, passes⟩ := first.assigned _ (List.mem_singleton_self _)
            exact ⟨rest.kept _ inside, passes⟩
          · exact rest.assigned bucket later
      · exact none state

/-- All four searches compare the group keys. -/
theorem getOrCreate_assigns {timestamp : Nat} {result : AggState × List Bucket}
    (got : getOrCreateBucketsForEvent state keys timestamp = some result) :
    Assigns state keys result := by
  unfold getOrCreateBucketsForEvent at got
  cases type : state.window.type with
  | none =>
      rw [type] at got
      obtain rfl := Option.some.inj got
      refine assigns_findOrCreate ?_ _ _
      intro bucket found
      have tested := List.find?_some found
      simp only [Bool.and_eq_true] at tested
      exact ⟨List.mem_of_find?_eq_some found, tested.1.1⟩
  | session =>
      rw [type] at got
      obtain rfl := Option.some.inj got
      refine assigns_findOrCreate ?_ _ _
      intro bucket found
      have tested := List.find?_some found
      simp only [Bool.and_eq_true] at tested
      exact ⟨List.mem_of_find?_eq_some found, tested.1.1.1⟩
  | tumbling =>
      rw [type] at got
      obtain ⟨index, -, rfl⟩ := Option.map_eq_some_iff.mp got
      exact assigns_windowBucket state keys _ _
  | sliding =>
      rw [type] at got
      dsimp only [slidingBuckets] at got
      split at got
      · cases got
      · obtain rfl := Option.some.inj got
        exact assigns_slidingLoop keys _ _ _ _ state _

/-! ## The events of a bucket -/

/-- What does not change when a bucket is updated: where it is and its group. -/
def Bucket.label (bucket : Bucket) : Nat × Option (List String) := (bucket.addr, bucket.groupKeys)

theorem map_label_updates (event : Event) (now : Nat) (buckets : List Bucket) :
    ∀ state : AggState, (buckets.foldl (fun state bucket => state.updateAt bucket.addr
        (fun bucket => updateBucketWithEvent state.window state.funcs bucket event now))
        state).buckets.map Bucket.label = state.buckets.map Bucket.label := by
  induction buckets with
  | nil => exact fun _ => rfl
  | cons bucket buckets ih =>
      intro state
      rw [List.foldl_cons, ih, AggState.updateAt, List.map_map]
      refine List.map_congr_left fun old _ => ?_
      rw [Function.comp_apply]
      split
      · simp [Bucket.label]
      · rfl

theorem nextAddr_updates (event : Event) (now : Nat) (buckets : List Bucket) :
    ∀ state : AggState, (buckets.foldl (fun state bucket => state.updateAt bucket.addr
        (fun bucket => updateBucketWithEvent state.window state.funcs bucket event now))
        state).nextAddr = state.nextAddr := by
  induction buckets with
  | nil => exact fun _ => rfl
  | cons bucket buckets ih => exact fun state => ih _

/-- After some of a run, `log` has the events that the bucket at each address has counted. -/
structure GroupLog (query : Aggregate) (log : Nat → List Event) (state : AggState) : Prop where
  wf : state.WellFormed query
  labelled : ∀ bucket ∈ state.buckets,
    bucket.groupKeys = none ∨ KeysFit query.groupByFields bucket.groupKeys
  fresh : ∀ addr, state.nextAddr ≤ addr → log addr = []
  own : ∀ bucket ∈ state.buckets, ∀ event ∈ log bucket.addr, event.data.isSome →
    extractGroupKeys query.groupByFields event = bucket.groupKeys
  agree : ∀ addr, ∀ event ∈ log addr, ∀ other ∈ log addr, event.data.isSome → other.data.isSome →
    extractGroupKeys query.groupByFields event = extractGroupKeys query.groupByFields other

variable {query : Aggregate} {log : Nat → List Event}

theorem newAggState_groupLog (query : Aggregate) :
    GroupLog query (fun _ => []) (newAggState query) :=
  ⟨newAggState_wellFormed query, nofun, fun _ _ => rfl, nofun, nofun⟩

/-- A state whose buckets are in their places. -/
theorem GroupLog.of_labels (inv : GroupLog query log state) {next : AggState}
    (wf : next.WellFormed query) (same : next.nextAddr = state.nextAddr)
    (labels : ∀ bucket ∈ next.buckets, ∃ old ∈ state.buckets, bucket.label = old.label) :
    GroupLog query log next := by
  refine ⟨wf, ?_, ?_, ?_, inv.agree⟩
  · intro bucket member
    obtain ⟨old, inside, label⟩ := labels bucket member
    rw [(Prod.mk.inj label).2]
    exact inv.labelled old inside
  · intro addr later
    exact inv.fresh addr (same ▸ later)
  · intro bucket member
    obtain ⟨old, inside, label⟩ := labels bucket member
    obtain ⟨addr, keys⟩ := Prod.mk.inj label
    rw [addr, keys]
    exact inv.own old inside

/-- The buckets of an event are found or created, and the event is added to what they count. -/
theorem GroupLog.assign (inv : GroupLog query log state) {event : Event} {found : AggState}
    {buckets : List Bucket} (wf : found.WellFormed query)
    (assigns : Assigns state (extractGroupKeys query.groupByFields event) (found, buckets)) :
    GroupLog query (fun addr => log addr ++ if addr ∈ buckets.map Bucket.addr then [event] else [])
      found := by
  have labelled : ∀ bucket ∈ found.buckets,
      bucket.groupKeys = none ∨ KeysFit query.groupByFields bucket.groupKeys := by
    intro bucket member
    rcases assigns.source bucket member with old | ⟨-, own⟩
    · exact inv.labelled bucket old
    · rw [own]
      exact extractGroupKeys_keyed query.groupByFields event
  -- The keys of an event with data are those of its buckets.
  have keysOf : ∀ bucket ∈ buckets, event.data.isSome →
      bucket.groupKeys = extractGroupKeys query.groupByFields event := by
    intro bucket member hasData
    obtain ⟨inside, passes⟩ := assigns.assigned bucket member
    rw [compareGroupKeys_labelled (extractGroupKeys_fit (.inl hasData)) (labelled bucket inside)]
      at passes
    exact of_decide_eq_true passes
  have logged : ∀ bucket ∈ found.buckets, ∀ other ∈ log bucket.addr, other.data.isSome →
      extractGroupKeys query.groupByFields other = bucket.groupKeys := by
    intro bucket member other counted hasData
    rcases assigns.source bucket member with old | ⟨new, -⟩
    · exact inv.own bucket old other counted hasData
    · rw [inv.fresh bucket.addr new] at counted
      cases counted
  have added : ∀ {addr : Nat} {other : Event},
      other ∈ log addr ++ (if addr ∈ buckets.map Bucket.addr then [event] else []) →
      other ∈ log addr ∨ other = event ∧ ∃ bucket ∈ buckets, bucket.addr = addr := by
    intro addr other member
    rcases List.mem_append.mp member with before | now
    · exact .inl before
    · split at now
      · next here => exact .inr ⟨List.mem_singleton.mp now, List.mem_map.mp here⟩
      · cases now
  refine ⟨wf, labelled, ?_, ?_, ?_⟩
  · intro addr later
    have notHere : addr ∉ buckets.map Bucket.addr := by
      intro here
      obtain ⟨bucket, member, rfl⟩ := List.mem_map.mp here
      have below := wf.fresh bucket (assigns.assigned bucket member).1
      exact absurd later (Nat.not_le.mpr below)
    rw [if_neg notHere, List.append_nil]
    exact inv.fresh addr (assigns.later.trans later)
  · intro bucket member other counted hasData
    rcases added counted with before | ⟨rfl, assigned, inside, here⟩
    · exact logged bucket member other before hasData
    · obtain rfl : assigned = bucket := List.inj_on_of_nodup_map wf.addrs
        (assigns.assigned assigned inside).1 member here
      exact (keysOf assigned inside hasData).symm
  · intro addr first counted second counted' hasData hasData'
    rcases added counted with before | ⟨rfl, assigned, inside, rfl⟩
    · rcases added counted' with before' | ⟨rfl, assigned, inside, rfl⟩
      · exact inv.agree addr first before second before' hasData hasData'
      · rw [← keysOf assigned inside hasData']
        exact logged assigned (assigns.assigned assigned inside).1 first before hasData
    · rw [← keysOf assigned inside hasData]
      rcases added counted' with before' | ⟨rfl, -⟩
      · exact (logged assigned (assigns.assigned assigned inside).1 second before' hasData').symm
      · exact keysOf assigned inside hasData

section Runs

variable [Pcre2]

/-- A step keeps the log, with what it counts added to it. -/
theorem GroupLog.step (inv : GroupLog query log state) {op : AggOp} {next : AggState}
    {emitted : List Bucket} (stepped : aggStep query state op = some (next, emitted)) :
    GroupLog query (fun addr => log addr ++ countedHere query addr state op) next := by
  have wf := inv.wf.step stepped
  cases op with
  | tick now =>
      simp only [countedHere, List.append_nil]
      have kept := windowFlushCb_kept stepped
      rw [aggStep, windowFlushCb] at stepped
      split at stepped
      · cases stepped
      · obtain ⟨rfl, -⟩ := Prod.mk.inj (Option.some.inj stepped)
        refine inv.of_labels wf rfl ?_
        intro bucket member
        obtain ⟨old, inside, addr, keys⟩ := kept bucket member
        exact ⟨old, inside, Prod.ext addr keys⟩
  | event event now now' =>
      rw [aggStep, executeAggregate] at stepped
      by_cases accepts : whereAccepts query event = true
      · rw [if_pos accepts, aggregateEvent] at stepped
        simp only [countedHere, countingBuckets, if_pos accepts]
        rw [inv.wf.groupByFields] at stepped ⊢
        cases got : getOrCreateBucketsForEvent state (extractGroupKeys query.groupByFields event)
            (eventTimestamp event now) with
        | none =>
          rw [got] at stepped
          cases stepped
        | some result =>
          obtain ⟨found, buckets⟩ := result
          rw [got] at stepped
          obtain ⟨rfl, -⟩ := Prod.mk.inj (Option.some.inj stepped)
          have assigned := inv.assign (inv.wf.getOrCreate got) (getOrCreate_assigns got)
          refine assigned.of_labels wf (nextAddr_updates event now' buckets found) ?_
          intro bucket member
          have label := List.mem_map_of_mem (f := Bucket.label) member
          rw [map_label_updates] at label
          obtain ⟨old, inside, same⟩ := List.mem_map.mp label
          exact ⟨old, inside, same.symm⟩
      · rw [if_neg accepts] at stepped
        obtain ⟨rfl, -⟩ := Prod.mk.inj (Option.some.inj stepped)
        simpa [countedHere, countingBuckets, accepts] using inv

/-- A step that divides by zero has counted nothing. -/
theorem countedHere_of_stuck {op : AggOp} (stuck : aggStep query state op = none) (addr : Nat) :
    countedHere query addr state op = [] := by
  cases op with
  | tick now => rfl
  | event event now now' =>
      rw [countedHere, countingBuckets]
      rw [aggStep, executeAggregate] at stuck
      by_cases accepts : whereAccepts query event = true
      · rw [if_pos accepts, aggregateEvent] at stuck
        rw [if_pos accepts]
        cases got : getOrCreateBucketsForEvent state (extractGroupKeys state.groupByFields event)
            (eventTimestamp event now) with
        | none => rfl
        | some result =>
          rw [got] at stuck
          cases stuck
      · rw [if_neg accepts]
        rfl

/-- The events with data that a bucket counts in a run have the same group keys. -/
theorem GroupLog.run (ops : List AggOp) : ∀ {log : Nat → List Event} {state : AggState},
    GroupLog query log state → ∀ addr, ∀ event ∈ log addr ++ countedEvents query addr state ops,
      ∀ other ∈ log addr ++ countedEvents query addr state ops,
        event.data.isSome → other.data.isSome →
          extractGroupKeys query.groupByFields event =
            extractGroupKeys query.groupByFields other := by
  induction ops with
  | nil =>
      intro log state inv addr
      simpa only [countedEvents, List.append_nil] using inv.agree addr
  | cons op ops ih =>
      intro log state inv addr
      rw [countedEvents]
      cases stepped : aggStep query state op with
      | none =>
          rw [countedHere_of_stuck stepped]
          simpa only [List.append_nil] using inv.agree addr
      | some result =>
          have rest := ih (inv.step stepped) addr
          simpa only [List.append_assoc] using rest

/-- What a bucket counts are events of the run. -/
theorem mem_countedEvents {addr : Nat} {event : Event} {ops : List AggOp} :
    ∀ {state : AggState}, event ∈ countedEvents query addr state ops →
      ∃ op ∈ ops, op.event? = some event := by
  have here : ∀ {state : AggState} {op : AggOp}, event ∈ countedHere query addr state op →
      op.event? = some event := by
    intro state op member
    cases op with
    | tick now => cases member
    | event e now now' =>
        rw [countedHere] at member
        split at member
        · exact congrArg some (List.mem_singleton.mp member).symm
        · cases member
  induction ops with
  | nil => exact fun member => absurd member List.not_mem_nil
  | cons op ops ih =>
      intro state member
      rw [countedEvents] at member
      split at member
      · exact ⟨op, List.mem_cons_self, here member⟩
      · rcases List.mem_append.mp member with first | later
        · exact ⟨op, List.mem_cons_self, here first⟩
        · obtain ⟨source, inside, same⟩ := ih later
          exact ⟨source, List.mem_cons_of_mem _ inside, same⟩

/-- Different values are in different groups in every run in which no two events of one group have
    different booleans in a `by` field. -/
theorem separated_of_unmixed {ops : List AggOp}
    (unmixed : ∀ op ∈ ops, ∀ op' ∈ ops, ∀ event other, op.event? = some event →
      op'.event? = some other → ¬MixBooleans query.groupByFields event other) :
    Separated query ops := by
  intro addr event counted other counted' field member differ
  obtain ⟨op, inside, source⟩ := mem_countedEvents counted
  obtain ⟨op', inside', source'⟩ := mem_countedEvents counted'
  have hasData : ∀ {event : Event} {value : Json},
      event.data.bind (jsonGetPath · field) = some value → event.data.isSome := by
    intro event value found
    obtain ⟨data, present, -⟩ := Option.bind_eq_some_iff.mp found
    exact Option.isSome_iff_exists.mpr ⟨data, present⟩
  obtain ⟨value, value', found, found', -⟩ := id differ
  have same := (newAggState_groupLog query).run ops addr event counted other counted'
    (hasData found) (hasData found')
  exact not_differIn_of_keys member same (unmixed op inside op' inside' event other source source')
    differ

end Runs

/-- `aggregate count() by` a field. -/
def countByQuery (field : String) : Aggregate where
  funcs := [{ type := .count }]
  groupByFields := [field]
  whereFilter := none
  window := { type := .none }

/-- A log event with one field. -/
def fieldEvent (field : String) (value : Json) : Event where
  type := .log
  timestampNs := 5
  input := none
  data := some (.object [(field, value)])

theorem fieldEvent_reads (field : String) (value : Json) :
    (fieldEvent field value).data.bind (jsonGetPath · field) = some value :=
  jsonGetPath_direct (by simp [Json.get?])

/-- Two users, and then the first one again. -/
def userOps : List AggOp :=
  [.event (fieldEvent "user" (.string "alice")) 0 0, .event (fieldEvent "user" (.string "bob")) 0 0,
    .event (fieldEvent "user" (.string "alice")) 0 0]

/-- The two users are apart. -/
theorem separated_of_unmixed_users : @Separated literalPcre2 (countByQuery "user") userOps := by
  refine @separated_of_unmixed (countByQuery "user") literalPcre2 userOps ?_
  have noBoolean : ∀ op ∈ userOps, ∀ event, op.event? = some event → ∀ b,
      event.data.bind (jsonGetPath · "user") ≠ some (.bool b) := by
    intro op inside event source b found
    have ofString : ∀ user : String, some (fieldEvent "user" (.string user)) ≠ some event := by
      intro user same
      rw [← Option.some.inj same, fieldEvent_reads] at found
      cases found
    simp only [userOps, List.mem_cons, List.not_mem_nil, or_false] at inside
    rcases inside with rfl | rfl | rfl
    · exact ofString "alice" source
    · exact ofString "bob" source
    · exact ofString "alice" source
  rintro op inside op' inside' event other source source' ⟨-, field, member, b, c, -, found, -⟩
  rw [List.mem_singleton.mp member] at found
  exact noBoolean op inside event source b found

/-- Two events with different booleans are counted in one bucket. -/
theorem successes_merged :
    @nqlParse literalPcre2 "aggregate count() by ok".toList =
        some (.single (.aggregate (countByQuery "ok"))) ∧
      ¬@Separated literalPcre2 (countByQuery "ok")
        [.event (fieldEvent "ok" (.bool true)) 0 0,
         .event (fieldEvent "ok" (.bool false)) 0 0] := by
  let := literalPcre2
  refine ⟨by decide, fun separated => ?_⟩
  have counted : countedEvents (countByQuery "ok") 0 (newAggState (countByQuery "ok"))
      [.event (fieldEvent "ok" (.bool true)) 0 0, .event (fieldEvent "ok" (.bool false)) 0 0] =
        [fieldEvent "ok" (.bool true), fieldEvent "ok" (.bool false)] := rfl
  refine separated 0 _ (counted ▸ List.mem_cons_self) _
    (counted ▸ List.mem_cons_of_mem _ List.mem_cons_self) "ok" List.mem_cons_self ?_
  exact ⟨.bool true, .bool false, rfl, rfl, .booleans (by decide)⟩

end Nblex
