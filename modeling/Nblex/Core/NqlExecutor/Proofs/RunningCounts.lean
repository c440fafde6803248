import Nblex.Core.NqlExecutor.Proofs.FilterEarly
import Nblex.Core.NqlExecutor.Proofs.GroupIsolation
import Nblex.Parsers.NqlParser

/-!
# Running counts

A query without a window keeps one bucket for each group and emits it after every event. What the
bucket counts is what the group has had so far. In the result the count stands under the name
`count`, where a sum of a field of that name is put as well.
-/

namespace Nblex

/-! ## The entries of a result -/

/-- An entry of a part of a result, such as `metrics`. -/
def Event.entry (result : Event) (part key : String) : Option Json :=
  (result.data.bind (·.get? part)).bind (·.get? key)

/-- The label a result has for a field: the group key the event has for a field of the query. -/
def ownLabel (fields : List String) (event : Event) (field : String) : Option Json :=
  if field ∈ fields then
    some (.string (groupKeyText (event.data.bind (jsonGetPath · field))))
  else none

/-- A result has the group keys of an event for its labels, and a count. -/
structure Reports (agg : Aggregate) (event : Event) (count : Nat) (result : Event) : Prop where
  labels : ∀ field, result.entry "group" field = ownLabel agg.groupByFields event field
  count : result.entry "metrics" "count" = some (.integer (toInt64 count))

/-- `sum(count)`. -/
def AggFunc.SumsCount (func : AggFunc) : Prop := func.type = .sum ∧ func.field = some "count"

/-- There is a `count()` with no `sum(count)` behind it. -/
def CountStands (funcs : List AggFunc) : Prop :=
  ∃ before func after, funcs = before ++ func :: after ∧ func.type = .count ∧
    ∀ later ∈ after, ¬later.SumsCount

/-- There is an item of the one kind with no item of the other kind behind it. -/
def Stands {α : Type} (own covers : α → Prop) (items : List α) : Prop :=
  ∃ before item after, items = before ++ item :: after ∧ own item ∧ ∀ later ∈ after, ¬covers later

theorem stands_append_singleton {α : Type} (own covers : α → Prop) (items : List α) (item : α) :
    Stands own covers (items ++ [item]) ↔ own item ∨ Stands own covers items ∧ ¬covers item := by
  constructor
  · rintro ⟨before, standing, after, split, isOwn, clear⟩
    rcases List.eq_nil_or_concat after with rfl | ⟨front, last, rfl⟩
    · obtain ⟨-, same⟩ := List.append_inj' split rfl
      obtain rfl := List.singleton_inj.mp same
      exact .inl isOwn
    · rw [List.concat_eq_append, ← List.cons_append, ← List.append_assoc] at split
      obtain ⟨rfl, same⟩ := List.append_inj' split rfl
      obtain rfl := List.singleton_inj.mp same
      refine .inr ⟨⟨before, standing, front, rfl, isOwn, ?_⟩, ?_⟩
      · intro later member
        exact clear later (by simp [member])
      · exact clear item (by simp)
  · rintro (isOwn | ⟨⟨before, standing, after, rfl, isOwn, clear⟩, other⟩)
    · exact ⟨items, item, [], rfl, isOwn, nofun⟩
    · refine ⟨before, standing, after ++ [item], by simp, isOwn, ?_⟩
      intro later member
      rcases List.mem_append.mp member with inside | last
      · exact clear later inside
      · rwa [List.mem_singleton.mp last]

/-- A name that begins with another letter. -/
theorem metricName_ne_count {c : Char} {rest : List Char} {text : String}
    (begins : text.toList = c :: rest) (other : c ≠ 'c') : metricName text ≠ "count" := by
  intro same
  have letters := congrArg String.toList same
  rw [metricName, String.toList_ofList, begins] at letters
  exact other (List.cons.inj letters).1

/-- The other functions with a value have another name. -/
theorem aggFuncName_ne_count {func : AggFunc} (notCount : func.type ≠ .count)
    (notSum : func.type ≠ .sum) : aggFuncName func ≠ "count" := by
  unfold aggFuncName
  cases type : func.type with
  | count => exact absurd type notCount
  | sum => exact absurd type notSum
  | avg => exact metricName_ne_count (String.toList_append ..) (by decide)
  | min => exact metricName_ne_count (String.toList_append ..) (by decide)
  | max => exact metricName_ne_count (String.toList_append ..) (by decide)
  | distinct => exact metricName_ne_count (String.toList_append ..) (by decide)
  | percentile =>
      dsimp only
      rw [String.append_assoc, String.append_assoc]
      exact metricName_ne_count (String.toList_append ..) (by decide)

theorem aggMetrics_append (funcs : List AggFunc) (func : AggFunc) (bucket : Bucket) :
    aggMetrics (funcs ++ [func]) bucket =
      (aggMetrics funcs bucket).set (aggFuncName func) (aggFuncValue bucket func) := by
  simp [aggMetrics]

theorem aggMetrics_object (funcs : List AggFunc) (bucket : Bucket) :
    ∃ fields, aggMetrics funcs bucket = .object fields := by
  induction funcs using List.reverseRecOn with
  | nil => exact ⟨[], rfl⟩
  | append_singleton funcs func ih =>
      obtain ⟨fields, metrics⟩ := ih
      rw [aggMetrics_append, metrics]
      cases aggFuncValue bucket func with
      | none => exact ⟨fields, rfl⟩
      | some value => exact ⟨_, rfl⟩

/-- A name holds what was put under it last: it has the value of the functions that put this value
    under it, if one of them stands behind those that put another value there. -/
theorem aggMetrics_get?_iff {own covers : AggFunc → Prop} {key : String} {value : Json}
    {bucket : Bucket}
    (puts : ∀ func, own func → aggFuncName func = key ∧ aggFuncValue bucket func = some value)
    (hides : ∀ func, covers func →
      aggFuncName func = key ∧ ∃ other, aggFuncValue bucket func = some other ∧ other ≠ value)
    (apart : ∀ func, ¬own func → ¬covers func → aggFuncName func = key →
      aggFuncValue bucket func = none) (funcs : List AggFunc) :
    (aggMetrics funcs bucket).get? key = some value ↔ Stands own covers funcs := by
  induction funcs using List.reverseRecOn with
  | nil =>
      refine iff_of_false nofun ?_
      rintro ⟨before, func, after, split, -⟩
      simp at split
  | append_singleton funcs func ih =>
      obtain ⟨fields, metrics⟩ := aggMetrics_object funcs bucket
      rw [aggMetrics_append, stands_append_singleton]
      by_cases isOwn : own func
      · obtain ⟨name, put⟩ := puts func isOwn
        rw [name, put, metrics, Json.get?_set_self]
        exact iff_of_true rfl (.inl isOwn)
      · by_cases covered : covers func
        · obtain ⟨name, other, put, different⟩ := hides func covered
          rw [name, put, metrics, Json.get?_set_self]
          refine iff_of_false (fun same => different (Option.some.inj same)) ?_
          rintro (same | ⟨-, clear⟩)
          · exact isOwn same
          · exact clear covered
        · have untouched : ((aggMetrics funcs bucket).set (aggFuncName func)
              (aggFuncValue bucket func)).get? key = (aggMetrics funcs bucket).get? key := by
            by_cases name : aggFuncName func = key
            · rw [apart func isOwn covered name, Json.set_none]
            · exact Json.get?_set_of_ne name _ _
          rw [untouched, ih]
          exact ⟨fun stands => .inr ⟨stands, covered⟩,
            fun either => either.elim (absurd · isOwn) And.left⟩

theorem aggMetrics_count_iff (funcs : List AggFunc) (bucket : Bucket) :
    (aggMetrics funcs bucket).get? "count" = some (.integer (toInt64 bucket.count)) ↔
      CountStands funcs := by
  refine aggMetrics_get?_iff ?_ ?_ ?_ funcs
  · intro func isCount
    exact ⟨by simp [aggFuncName, isCount], by simp [aggFuncValue, isCount]⟩
  · rintro func ⟨type, field⟩
    exact ⟨by simp [aggFuncName, type, field], .real bucket.sum,
      by simp [aggFuncValue, type, field], nofun⟩
  · intro func notCount notOver name
    by_cases isSum : func.type = .sum
    · cases field : func.field with
      | none => simp [aggFuncValue, isSum, field]
      | some summed =>
          have own : aggFuncName func = summed := by simp [aggFuncName, isSum, field]
          exact absurd ⟨isSum, field.trans (congrArg some (own.symm.trans name))⟩ notOver
    · exact absurd name (aggFuncName_ne_count notCount isSum)

/-- Setting labels one after the other. -/
theorem foldl_set_labels (text : String → String) (fields : List String) (field : String) :
    ∀ labels : List (String × Json),
      ((fields.zip (fields.map text)).foldl
        (fun groups entry => groups.set entry.1 (some (.string entry.2)))
          (Json.object labels)).get? field =
        if field ∈ fields then some (.string (text field))
        else (Json.object labels).get? field := by
  induction fields with
  | nil => exact fun labels => rfl
  | cons first fields ih =>
      intro labels
      rw [List.map_cons, List.zip_cons_cons, List.foldl_cons]
      refine (ih _).trans ?_
      by_cases later : field ∈ fields
      · rw [if_pos later, if_pos (List.mem_cons_of_mem _ later)]
      · rw [if_neg later]
        by_cases here : field = first
        · rw [here, if_pos List.mem_cons_self]
          exact Json.get?_setField_self labels first _
        · rw [if_neg (by simp [here, later])]
          exact Json.get?_setField_of_ne (Ne.symm here) labels _

/-- The labels of a bucket with the group keys of an event. -/
theorem aggGroup_labels {fields : List String} {event : Event} {bucket : Bucket} {data : Json}
    (present : event.data = some data)
    (own : bucket.groupKeys = extractGroupKeys fields event) (field : String) :
    (aggGroup fields bucket).bind (·.get? field) = ownLabel fields event field := by
  rw [aggGroup, own, extractGroupKeys, ownLabel, present]
  dsimp only
  by_cases empty : fields = []
  · simp [empty]
  · have positive : 0 < fields.length := List.length_pos_iff.mpr empty
    rw [if_neg empty]
    dsimp only
    rw [List.length_map, if_pos ⟨positive, positive⟩, Option.bind_some, foldl_set_labels]
    rfl

/-- The metrics of a result. -/
theorem createAggResultEvent_metrics (state : AggState) (bucket : Bucket) (now : Nat) :
    (createAggResultEvent state bucket now).data.bind (·.get? "metrics") =
      some (aggMetrics state.funcs bucket) := by
  show (((((Json.object []).set "nql_result_type" _).set "group" _).set "metrics" _).set
    "window" _).get? "metrics" = _
  rw [Json.get?_set_of_ne (by decide)]
  cases aggGroup state.groupByFields bucket with
  | none => rfl
  | some group => rfl

/-- The parts of a result. -/
theorem createAggResultEvent_entry (state : AggState) (bucket : Bucket) (now : Nat) (key : String) :
    (createAggResultEvent state bucket now).entry "group" key =
        (aggGroup state.groupByFields bucket).bind (·.get? key) ∧
      (createAggResultEvent state bucket now).entry "metrics" key =
        (aggMetrics state.funcs bucket).get? key := by
  constructor
  · show (((((((Json.object []).set "nql_result_type" _).set "group" _).set "metrics" _).set
      "window" _).get? "group").bind (·.get? key)) = _
    rw [Json.get?_set_of_ne (by decide), Json.get?_set_of_ne (by decide)]
    cases aggGroup state.groupByFields bucket with
    | none => rfl
    | some group => rfl
  · exact congrArg (·.bind (·.get? key)) (createAggResultEvent_metrics state bucket now)

/-- The result of a bucket with the group keys of an event reports the event, if the count in it
    stands. -/
theorem createAggResultEvent_reports_iff {agg : Aggregate} {state : AggState} {event : Event}
    {bucket : Bucket} {data : Json} (fields : state.groupByFields = agg.groupByFields)
    (funcs : state.funcs = agg.funcs) (present : event.data = some data)
    (own : bucket.groupKeys = extractGroupKeys agg.groupByFields event) (now : Nat) :
    Reports agg event bucket.count (createAggResultEvent state bucket now) ↔
      CountStands agg.funcs := by
  rw [← aggMetrics_count_iff agg.funcs bucket, ← funcs]
  constructor
  · intro reports
    rw [← (createAggResultEvent_entry state bucket now "count").2]
    exact reports.count
  · intro stands
    refine ⟨fun field => ?_, (createAggResultEvent_entry state bucket now "count").2.trans stands⟩
    rw [(createAggResultEvent_entry state bucket now field).1, fields]
    exact aggGroup_labels present own field

/-! ## The buckets of a run -/

section Tally

variable [Pcre2] {agg : Aggregate} {events : List Event} {event : Event} {state : AggState}

/-- The events a group has had: those of its keys that the `where` clause accepts. -/
def acceptedOf (agg : Aggregate) (keys : Option (List String)) (events : List Event) :
    List Event :=
  events.filter fun event =>
    whereAccepts agg event && decide (extractGroupKeys agg.groupByFields event = keys)

theorem acceptedOf_own (accepts : whereAccepts agg event = true) :
    acceptedOf agg (extractGroupKeys agg.groupByFields event) (events ++ [event]) =
      acceptedOf agg (extractGroupKeys agg.groupByFields event) events ++ [event] := by
  simp [acceptedOf, accepts]

theorem acceptedOf_rejected (rejects : whereAccepts agg event = false)
    (keys : Option (List String)) :
    acceptedOf agg keys (events ++ [event]) = acceptedOf agg keys events := by
  simp [acceptedOf, rejects]

theorem acceptedOf_other {keys : Option (List String)}
    (different : extractGroupKeys agg.groupByFields event ≠ keys) :
    acceptedOf agg keys (events ++ [event]) = acceptedOf agg keys events := by
  simp [acceptedOf, different]

/-- The one bucket of a group, if there is one, counts the events the group has had. -/
def Tally (count : Nat) : List Bucket → Prop
  | [] => count = 0
  | [bucket] => wholeRequest.test bucket = true ∧ bucket.count = count
  | _ => False

/-- What the state of a query holds after a sequence of events. -/
structure Tallied (agg : Aggregate) (events : List Event) (state : AggState) : Prop where
  wellFormed : state.WellFormed agg
  keyed : state.Keyed agg
  groups : ∀ keys, Tally (acceptedOf agg keys events).length (bucketsOf keys state.buckets)

theorem newAggState_tallied (agg : Aggregate) : Tallied agg [] (newAggState agg) :=
  ⟨newAggState_wellFormed agg, nofun, fun _ => rfl⟩

theorem Tallied.rejected (tallied : Tallied agg events state)
    (rejects : whereAccepts agg event = false) : Tallied agg (events ++ [event]) state := by
  refine ⟨tallied.wellFormed, tallied.keyed, fun keys => ?_⟩
  rw [acceptedOf_rejected rejects]
  exact tallied.groups keys

/-- The bucket that an event of a group finds or that is created for it. -/
def AggState.wholeBucket (state : AggState) (keys : Option (List String)) : AggState × Bucket :=
  findOrCreate state ((bucketsOf keys state.buckets).find? wholeRequest.test) keys 0 u64Max

/-- It is the only one of its group and counts what the group has had. -/
structure OnlyBucket (agg : Aggregate) (events : List Event) (state : AggState)
    (keys : Option (List String)) (found : AggState × Bucket) : Prop where
  addrs : (found.1.buckets.map Bucket.addr).Nodup
  inside : found.2 ∈ found.1.buckets
  ofGroup : found.2.groupKeys = keys
  alone : bucketsOf keys found.1.buckets = [found.2]
  whole : wholeRequest.test found.2 = true
  count : found.2.count = (acceptedOf agg keys events).length
  others : ∀ other, keys ≠ other → bucketsOf other found.1.buckets = bucketsOf other state.buckets

theorem Tallied.wholeBucket (tallied : Tallied agg events state) {keys : Option (List String)}
    (fit : KeysFit agg.groupByFields keys) :
    OnlyBucket agg events state keys (state.wholeBucket keys) := by
  have grouped : state.Grouped agg :=
    ⟨tallied.wellFormed.addrs, tallied.wellFormed.fresh, tallied.keyed⟩
  have addrs := (grouped.findOrCreate fit
    ((bucketsOf keys state.buckets).find? wholeRequest.test) 0 u64Max).addrs
  obtain ⟨inside, ofGroup⟩ := findOrCreate_mem state keys
    ((bucketsOf keys state.buckets).find? wholeRequest.test) 0 u64Max
    (fun bucket found => List.mem_of_find?_eq_some found)
  have tally := tallied.groups keys
  cases group : bucketsOf keys state.buckets with
  | nil =>
      rw [group] at tally
      have created : state.wholeBucket keys = createBucketWithWindow state keys 0 u64Max := by
        simp [AggState.wholeBucket, group, findOrCreate]
      refine ⟨addrs, inside, ofGroup, ?_, ?_, ?_, ?_⟩
      all_goals rw [created]
      · exact (bucketsOf_cons_of_eq rfl).trans (congrArg _ group)
      · rfl
      · exact tally.symm
      · exact fun other different => bucketsOf_cons_of_ne different
  | cons bucket rest =>
      rw [group] at tally
      cases rest with
      | cons second rest => exact tally.elim
      | nil =>
          obtain ⟨whole, count⟩ := tally
          have there : state.wholeBucket keys = (state, bucket) := by
            simp [AggState.wholeBucket, group, findOrCreate, whole]
          refine ⟨addrs, inside, ofGroup, ?_, ?_, ?_, ?_⟩
          all_goals rw [there]
          · exact group
          · exact whole
          · exact count
          · exact fun _ _ => rfl

/-- An accepted event is counted in the bucket of its group, which is emitted. -/
theorem Tallied.accepted (tallied : Tallied agg events state) (whole : agg.window.type = .none)
    (accepts : whereAccepts agg event = true) (present : event.data.isSome)
    {keys : Option (List String)} (own : extractGroupKeys agg.groupByFields event = keys)
    (now now' : Nat) :
    ∃ next bucket, aggregateEvent state event now now' = some (next, [bucket]) ∧
      Tallied agg (events ++ [event]) next ∧ bucket.groupKeys = keys ∧
      bucket.count = (acceptedOf agg keys (events ++ [event])).length ∧
      ∀ other, keys ≠ other → bucketsOf other next.buckets = bucketsOf other state.buckets := by
  have fit : KeysFit agg.groupByFields (extractGroupKeys agg.groupByFields event) :=
    extractGroupKeys_fit (.inl present)
  have quiet := eventUpdate_quiet agg event now'
  have stepped := aggregateEvent_whole tallied.wellFormed tallied.keyed whole fit now now'
  rw [← findOrCreate_bucket] at stepped
  obtain ⟨next, ran, stays⟩ : ∃ next, aggStep agg state (.event event now now') =
      some (next, [eventUpdate agg event now' (state.wholeBucket keys).2]) ∧
        next = (state.wholeBucket keys).1.updateAt (state.wholeBucket keys).2.addr
          (eventUpdate agg event now') := by
    subst own
    refine ⟨_, ?_, rfl⟩
    rw [aggStep, executeAggregate, if_pos accepts]
    exact stepped
  have only := tallied.wholeBucket (own ▸ fit)
  have counted : (eventUpdate agg event now' (state.wholeBucket keys).2).count =
      (acceptedOf agg keys (events ++ [event])).length := by
    rw [← own, acceptedOf_own accepts, own, List.length_append, ← only.count]
    exact updateBucketWithEvent_count _ _ _ _ _
  have others : ∀ other, keys ≠ other →
      bucketsOf other next.buckets = bucketsOf other state.buckets := by
    intro other different
    have elsewhere : (state.wholeBucket keys).2.groupKeys ≠ other := by rwa [only.ofGroup]
    rw [stays, bucketsOf_updateAt_other only.addrs quiet.groupKeys only.inside elsewhere]
    exact only.others other different
  have valid : (AggOp.event event now now').HasData := present
  have wellFormed := tallied.wellFormed.step ran
  have keyed := aggStep_keyed tallied.wellFormed tallied.keyed valid ran
  rw [aggStep, executeAggregate, if_pos accepts] at ran
  refine ⟨next, _, ran, ⟨wellFormed, keyed, fun group => ?_⟩, ?_, counted, others⟩
  · by_cases same : keys = group
    · subst same
      rw [stays, bucketsOf_updateAt_head only.addrs quiet.groupKeys only.alone]
      refine ⟨?_, counted⟩
      rw [← only.whole]
      simp [wholeRequest, eventUpdate]
    · rw [others group same, acceptedOf_other (own ▸ same)]
      exact tallied.groups group
  · rw [quiet.groupKeys, only.ofGroup]

end Tally

/-! ## Runs of the executor -/

/-- The buckets that are kept for a group of a text in a world. -/
def Executor.bucketsFor (exec : Executor) (text : String) (world : WorldRef)
    (keys : Option (List String)) : List Bucket :=
  match exec.queryView text world with
  | some (_, .agg state) => bucketsOf keys state.buckets
  | _ => []

section Runs

variable [Pcre2]

/-- A text executed on events in a world, each with the clock readings of its execution. -/
def executions (text : String) (world : WorldRef) (inputs : List (Event × (Nat → Nat))) :
    List ExecOp :=
  inputs.map fun input => .execute text input.1 (some world) input.2

/-- What one event more is to do to the executor: an accepted event has one result, which reports
    its group and how many events the group has had with it, and a rejected one has none; the
    buckets of the other groups stay as they are. -/
structure CountsEvent (text : String) (world : WorldRef) (agg : Aggregate) (before : List Event)
    (event : Event) (exec : Executor) (executed : Executed) : Prop where
  defined : executed.result.isSome
  accepted : whereAccepts agg event = true → ∃ state bucket,
    executed.exec.results = exec.results ++ [.agg world state bucket] ∧
      ∀ now, Reports agg event
        (acceptedOf agg (extractGroupKeys agg.groupByFields event) (before ++ [event])).length
        (createAggResultEvent state bucket now)
  rejected : whereAccepts agg event = false → executed.exec.results = exec.results
  others : ∀ keys, extractGroupKeys agg.groupByFields event ≠ keys →
    executed.exec.bucketsFor text world keys = exec.bucketsFor text world keys

/-- Every event of a sequence does this. -/
def CountsEvents (nqlParse : String → Option NqlQuery) (text : String) (world : WorldRef)
    (agg : Aggregate) (inputs : List (Event × (Nat → Nat))) : Prop :=
  ∀ before input after, inputs = before ++ input :: after →
    CountsEvent text world agg (before.map Prod.fst) input.1
      (execRun nqlParse (executions text world before)).exec
      (execRun nqlParse (executions text world (before ++ [input])))

/-- What the executor keeps for the text after a sequence of events. -/
structure Counting (text : String) (world : WorldRef) (agg : Aggregate) (events : List Event)
    (exec : Executor) : Prop where
  distinct : exec.Distinct
  kept : ∃ owner state,
    (exec.queryView text world).getD (world, .agg (newAggState agg)) = (owner, .agg state) ∧
      Tallied agg events state

variable {nqlParse : String → Option NqlQuery} {text : String} {world : WorldRef}
  {agg : Aggregate} {events : List Event} {exec : Executor}

theorem newExecutor_counting (text : String) (world : WorldRef) (agg : Aggregate) :
    Counting text world agg [] newExecutor :=
  ⟨newExecutor_distinct, world, newAggState agg, rfl, newAggState_tallied agg⟩

omit [Pcre2] in
theorem bucketsFor_eq {owner : WorldRef} {state : AggState}
    (kept : (exec.queryView text world).getD (world, .agg (newAggState agg)) =
      (owner, .agg state)) (keys : Option (List String)) :
    exec.bucketsFor text world keys = bucketsOf keys state.buckets := by
  unfold Executor.bucketsFor
  cases view : exec.queryView text world with
  | none =>
      rw [view] at kept
      obtain ⟨-, same⟩ := Prod.mk.inj kept
      obtain rfl := ExecState.agg.inj same
      rfl
  | some found =>
      rw [view] at kept
      obtain rfl : found = (owner, .agg state) := kept
      rfl

/-- One event more. -/
theorem Counting.step (counting : Counting text world agg events exec)
    (parsed : nqlParse text = some (.single (.aggregate agg))) (whole : agg.window.type = .none)
    {event : Event} (present : event.data.isSome) (clock : Nat → Nat) :
    let executed := execStep nqlParse exec (.execute text event (some world) clock)
    executed.result = some (whereAccepts agg event) ∧
      Counting text world agg (events ++ [event]) executed.exec ∧
      (whereAccepts agg event = true → ∃ state bucket,
        executed.exec.results = exec.results ++ [.agg world state bucket] ∧
          state.WellFormed agg ∧
          bucket.groupKeys = extractGroupKeys agg.groupByFields event ∧
          bucket.count = (acceptedOf agg (extractGroupKeys agg.groupByFields event)
            (events ++ [event])).length) ∧
      (whereAccepts agg event = false → executed.exec.results = exec.results) ∧
      ∀ keys, extractGroupKeys agg.groupByFields event ≠ keys →
        executed.exec.bucketsFor text world keys = exec.bucketsFor text world keys := by
  obtain ⟨owner, state, kept, tallied⟩ := counting.kept
  have mirrors : Mirrors exec text world
      (execStep nqlParse exec (.execute text event (some world) clock))
      (queryAggregate (exec.queryView text world) world agg event (clock 0) (clock 1)) := by
    have mirrored := execStep_mirrors nqlParse counting.distinct
      (rfl : (QueryOp.execute text event world clock).execOp exec = _)
    rw [queryMachine, parsed] at mirrored
    exact queryPipeline_last _ world agg event clock 0 ▸ mirrored
  intro executed
  unfold queryAggregate at mirrors
  cases accepts : whereAccepts agg event with
  | false =>
      rw [if_neg (by simp [accepts])] at mirrors
      have still := mirrors.results
      have view : executed.exec.queryView text world = exec.queryView text world := mirrors.view
      refine ⟨mirrors.result, ⟨mirrors.distinct, owner, state, ?_, tallied.rejected accepts⟩,
        fun accepted => Bool.noConfusion accepted, fun _ => ?_, fun keys _ => ?_⟩
      · rw [view]
        exact kept
      · rw [still, List.append_nil]
      · rw [Executor.bucketsFor, view]
        rfl
  | true =>
      obtain ⟨next, bucket, stepped, tally, ofGroup, count, others⟩ :=
        tallied.accepted whole accepts present rfl (clock 0) (clock 1)
      rw [if_pos accepts, kept] at mirrors
      dsimp only at mirrors
      rw [stepped] at mirrors
      have view : (executed.exec.queryView text world).getD
          (world, .agg (newAggState agg)) = (owner, .agg next) := by
        rw [show executed.exec.queryView text world = some (owner, .agg next) from mirrors.view]
        rfl
      refine ⟨mirrors.result, ⟨mirrors.distinct, owner, next, view, tally⟩,
        fun _ => ⟨next, bucket, mirrors.results, tally.wellFormed, ofGroup, count⟩,
        fun rejected => Bool.noConfusion rejected, fun keys different => ?_⟩
      rw [bucketsFor_eq view, bucketsFor_eq kept]
      exact others keys different

/-- A run with one operation more. -/
theorem execRunFrom_append_singleton (op : ExecOp) (ops : List ExecOp) :
    ∀ {exec : Executor}, (execRunFrom nqlParse exec ops).result.isSome →
      let last := execStep nqlParse (execRunFrom nqlParse exec ops).exec op
      (execRunFrom nqlParse exec (ops ++ [op])).exec = last.exec ∧
        (execRunFrom nqlParse exec (ops ++ [op])).result.isSome = last.result.isSome := by
  induction ops with
  | nil =>
      intro exec _
      show (execRunFrom nqlParse exec [op]).exec = (execStep nqlParse exec op).exec ∧
        (execRunFrom nqlParse exec [op]).result.isSome = (execStep nqlParse exec op).result.isSome
      rw [execRunFrom]
      cases result : (execStep nqlParse exec op).result <;> simp [execRunFrom, result]
  | cons first ops ih =>
      intro exec defined
      rw [List.cons_append, execRunFrom, execRunFrom]
      rw [execRunFrom] at defined
      dsimp only at defined ⊢
      cases result : (execStep nqlParse exec first).result with
      | none =>
          rw [result] at defined
          dsimp only at defined
          rw [result] at defined
          cases defined
      | some passed =>
          rw [result] at defined
          exact ih defined

/-- A sequence of events. -/
theorem execRun_counting (parsed : nqlParse text = some (.single (.aggregate agg)))
    (whole : agg.window.type = .none) (inputs : List (Event × (Nat → Nat))) :
    (∀ input ∈ inputs, input.1.data.isSome) →
      (execRun nqlParse (executions text world inputs)).result.isSome ∧
        Counting text world agg (inputs.map Prod.fst)
          (execRun nqlParse (executions text world inputs)).exec := by
  induction inputs using List.reverseRecOn with
  | nil => exact fun _ => ⟨rfl, newExecutor_counting text world agg⟩
  | append_singleton inputs input ih =>
      intro present
      obtain ⟨defined, counting⟩ := ih fun i member => present i (by simp [member])
      obtain ⟨result, after, -⟩ :=
        counting.step parsed whole (present input (by simp)) input.2
      obtain ⟨last, isSome⟩ := execRunFrom_append_singleton
        (.execute text input.1 (some world) input.2) _ defined
      rw [execRun, executions, List.map_append, List.map_append]
      refine ⟨isSome.trans (congrArg Option.isSome result), ?_⟩
      rw [List.map_singleton, List.map_singleton]
      rw [← executions, ← execRun]
      exact last ▸ after

/-- The next event of a sequence. -/
theorem execRun_next (parsed : nqlParse text = some (.single (.aggregate agg)))
    (whole : agg.window.type = .none) {before after : List (Event × (Nat → Nat))}
    {input : Event × (Nat → Nat)}
    (present : ∀ i ∈ before ++ input :: after, i.1.data.isSome) :
    let exec := (execRun nqlParse (executions text world before)).exec
    let executed := execRun nqlParse (executions text world (before ++ [input]))
    executed.result.isSome ∧
      (whereAccepts agg input.1 = true → ∃ state bucket,
        executed.exec.results = exec.results ++ [.agg world state bucket] ∧
          state.WellFormed agg ∧
          bucket.groupKeys = extractGroupKeys agg.groupByFields input.1 ∧
          bucket.count = (acceptedOf agg (extractGroupKeys agg.groupByFields input.1)
            (before.map Prod.fst ++ [input.1])).length) ∧
      (whereAccepts agg input.1 = false → executed.exec.results = exec.results) ∧
      ∀ keys, extractGroupKeys agg.groupByFields input.1 ≠ keys →
        executed.exec.bucketsFor text world keys = exec.bucketsFor text world keys := by
  obtain ⟨defined, counting⟩ := @execRun_counting _ _ _ world _ parsed whole before
    fun i member => present i (List.mem_append_left _ member)
  obtain ⟨result, -, stepped⟩ := counting.step parsed whole (present input (by simp)) input.2
  obtain ⟨last, isSome⟩ := execRunFrom_append_singleton
    (.execute text input.1 (some world) input.2) _ defined
  have split : executions text world (before ++ [input]) =
      executions text world before ++ [.execute text input.1 (some world) input.2] := by
    simp [executions]
  rw [← split] at last isSome
  intro exec executed
  have ran : executed.exec =
      (execStep nqlParse exec (.execute text input.1 (some world) input.2)).exec := last
  rw [ran]
  exact ⟨isSome.trans (congrArg Option.isSome result), stepped⟩

/-- A sequence with an accepted event shows whether the count stands. -/
theorem CountsEvents.countStands (parsed : nqlParse text = some (.single (.aggregate agg)))
    (whole : agg.window.type = .none) {inputs : List (Event × (Nat → Nat))}
    (present : ∀ input ∈ inputs, input.1.data.isSome)
    (counts : CountsEvents nqlParse text world agg inputs) {input : Event × (Nat → Nat)}
    (member : input ∈ inputs) (accepts : whereAccepts agg input.1 = true) :
    CountStands agg.funcs := by
  obtain ⟨data, inside⟩ := Option.isSome_iff_exists.mp (present input member)
  obtain ⟨before, after, rfl⟩ := List.append_of_mem member
  obtain ⟨-, accepted, -⟩ := @execRun_next _ _ _ world _ parsed whole _ _ _ present
  obtain ⟨state, bucket, results, wf, own, count⟩ := accepted accepts
  obtain ⟨state', bucket', results', reports⟩ := (counts before input after rfl).accepted accepts
  obtain ⟨-, same⟩ := List.append_inj' (results.symm.trans results') rfl
  obtain ⟨-, rfl, rfl⟩ := ExecResult.agg.inj (List.singleton_inj.mp same)
  rw [← count] at reports
  exact (createAggResultEvent_reports_iff wf.groupByFields wf.funcs inside own 0).mp (reports 0)

/-- Each accepted event has one result, with its own group keys and the number of accepted events
    of its group so far, and leaves the other groups alone, if and only if the query has a
    `count()` with no `sum(count)` behind it or no event is accepted. -/
theorem countsEvents_iff (parsed : nqlParse text = some (.single (.aggregate agg)))
    (whole : agg.window.type = .none) {inputs : List (Event × (Nat → Nat))}
    (objects : ∀ input ∈ inputs, ∃ fields, input.1.data = some (.object fields)) :
    CountsEvents nqlParse text world agg inputs ↔
      CountStands agg.funcs ∨ ∀ input ∈ inputs, whereAccepts agg input.1 = false := by
  have present : ∀ input ∈ inputs, input.1.data.isSome := by
    intro input member
    obtain ⟨fields, data⟩ := objects input member
    exact Option.isSome_of_eq_some data
  constructor
  · intro counts
    by_cases none : ∀ input ∈ inputs, whereAccepts agg input.1 = false
    · exact .inr none
    · obtain ⟨input, member, accepts⟩ : ∃ input ∈ inputs, whereAccepts agg input.1 = true := by
        simpa using none
      exact .inl (counts.countStands parsed whole present member accepts)
  · rintro either before input after rfl
    obtain ⟨defined, accepted, rejected, others⟩ := execRun_next parsed whole present
    refine ⟨defined, fun accepts => ?_, rejected, others⟩
    obtain ⟨state, bucket, results, wf, own, count⟩ := accepted accepts
    obtain ⟨fields, data⟩ := objects input (by simp)
    refine ⟨state, bucket, results, fun now => ?_⟩
    rw [← count]
    refine (createAggResultEvent_reports_iff wf.groupByFields wf.funcs data own now).mpr ?_
    rcases either with stands | rejects
    · exact stands
    · exact absurd accepts (by simp [rejects input (by simp)])

end Runs

/-- Errors and warnings in turn, each counted for itself. -/
theorem countsEvents_levelCountQuery :
    @CountsEvents literalPcre2 (fun text => @nqlParse literalPcre2 text.toList)
      "aggregate count() by level" ⟨0, 0⟩ levelCountQuery
      [(levelEvent "error" 1, fun _ => 0), (levelEvent "warn" 2, fun _ => 0),
        (levelEvent "error" 3, fun _ => 0)] := by
  refine (@countsEvents_iff literalPcre2 _ _ _ _ (by decide) rfl _ ?_).mpr
    (.inl ⟨[], _, [], rfl, rfl, nofun⟩)
  intro input member
  simp only [List.mem_cons, List.not_mem_nil, or_false] at member
  rcases member with rfl | rfl | rfl <;> exact ⟨_, rfl⟩

/-- A count, and the sum of a field named so. -/
def sumCountQuery : Aggregate where
  funcs := [{ type := .count }, { type := .sum, field := some "count" }]
  groupByFields := []
  whereFilter := none
  window := { type := .none }

/-- An event that has such a field. -/
def countFieldEvent : Event where
  type := .log
  timestampNs := 1
  input := none
  data := some (.object [("count", .integer 5)])

/-- The sum takes the place of the count in the result. -/
theorem sumCountQuery_overwrites :
    @nqlParse literalPcre2 "aggregate count(), sum(count)".toList =
        some (.single (.aggregate sumCountQuery)) ∧
      ¬@CountsEvents literalPcre2 (fun text => @nqlParse literalPcre2 text.toList)
        "aggregate count(), sum(count)" ⟨0, 0⟩ sumCountQuery [(countFieldEvent, fun _ => 0)] := by
  have parsed : @nqlParse literalPcre2 "aggregate count(), sum(count)".toList =
      some (.single (.aggregate sumCountQuery)) := by decide
  let := literalPcre2
  refine ⟨parsed, fun counts => ?_⟩
  have stands : CountStands sumCountQuery.funcs := by
    refine counts.countStands parsed rfl ?_ (List.mem_singleton_self _) rfl
    intro input member
    rw [List.mem_singleton.mp member]
    rfl
  have clear := (stands_append_singleton (fun func : AggFunc => func.type = .count)
    AggFunc.SumsCount [{ type := .count }] _).mp stands
  rcases clear with isCount | ⟨-, other⟩
  · cases isCount
  · exact other ⟨rfl, rfl⟩

end Nblex
