import Nblex.Core.NqlExecutor.DistinctCount
import Nblex.Core.NqlExecutor.Proofs.Accumulators
import Nblex.Core.NqlExecutor.Proofs.MetricNames
import Nblex.Core.NqlExecutor.Proofs.RunningCounts
import Mathlib.Data.Set.Card

/-!
# Distinct counts

What a bucket keeps for `distinct` is the numbers that were read from the fields of all `distinct`
functions, each of them once. The count is put under the names of these functions, where a sum of a
field of such a name is put as well, and a tumbling bucket is cleared before its result is made.
-/

namespace Nblex

/-- The types whose functions add to `distinct_values`. -/
def writesDistinct : AggFuncType → Bool
  | .distinct => true
  | _ => false

/-- The numbers that are read from the fields under `distinct`, event by event. -/
def distinctReadings (funcs : List AggFunc) (rows : List (Event × Nat)) : List ℚ :=
  rows.flatMap (fun row => (fieldsOf writesDistinct funcs).map (fun field =>
    readDouble (jsonGetPath (row.1.data.getD .null) field)))

/-- The values of a field over a sequence of events. -/
def valuesTaken (field : String) (rows : List (Event × Nat)) : Set Json :=
  {value | ∃ row ∈ rows, jsonGetPath (row.1.data.getD .null) field = some value}

/-- `distinct(field)` is reported with the number of the values of the field. -/
def ReportsDistinct (field : String) (rows : List (Event × Nat)) (result : Event) : Prop :=
  result.entry "metrics" ("distinct_" ++ field) =
    some (.integer (valuesTaken field rows).ncard)

/-- A string, an integer or a boolean. -/
def Json.Countable : Json → Prop
  | .string _ | .integer _ | .bool _ => True
  | _ => False

/-- There is a `distinct` function whose metric has the name of the field, with no sum of a field of
    this name behind it. -/
def DistinctStands (field : String) (funcs : List AggFunc) : Prop :=
  Stands
    (fun func => (func.type = .distinct ∧ func.field.isSome) ∧
      aggFuncName func = "distinct_" ++ field)
    (fun func => func.type = .sum ∧ func.field = some ("distinct_" ++ field)) funcs

/-- No number is read from another field under `distinct` that is not read from this one. -/
def AddsNothing (field : String) (funcs : List AggFunc) (rows : List (Event × Nat)) : Prop :=
  ∀ reading ∈ distinctReadings funcs rows,
    ∃ value ∈ valuesTaken field rows, readDouble (some value) = reading

/-! ## What the bucket keeps -/

/-- Add a number that no number there is close to. -/
def addDistinct (values : List ℚ) (value : ℚ) : List ℚ :=
  if values.any (closeTo · value) then values else values ++ [value]

/-- The accumulators of `distinct` hold these numbers. -/
structure Keeps (bucket : Bucket) (values : List ℚ) : Prop where
  numbers : bucket.distinctValues = values
  count : bucket.distinctCount = values.length

theorem Keeps.value {bucket : Bucket} {values : List ℚ} (kept : Keeps bucket values)
    (value : ℚ) :
    Keeps (updateWithValue bucket .distinct value) (addDistinct values value) := by
  obtain ⟨rfl, count⟩ := kept
  unfold updateWithValue addDistinct
  dsimp only
  split
  · exact ⟨rfl, count⟩
  · exact ⟨rfl, by simp [count]⟩

theorem Keeps.func {bucket : Bucket} {values : List ℚ} (kept : Keeps bucket values)
    (data : Json) (func : AggFunc) :
    Keeps (updateWithDouble data bucket func)
      (((fieldsOf writesDistinct [func]).map (fun field =>
        readDouble (jsonGetPath data field))).foldl addDistinct values) := by
  obtain ⟨type, field, percentile⟩ := func
  cases field with
  | none => cases type <;> exact kept
  | some field =>
      cases type with
      | distinct => exact kept.value _
      | count | sum | avg | min | max | percentile => exact ⟨kept.numbers, kept.count⟩

theorem Keeps.funcs (data : Json) (funcs : List AggFunc) :
    ∀ {bucket : Bucket} {values : List ℚ}, Keeps bucket values →
      Keeps (funcs.foldl (updateWithDouble data) bucket)
        (((fieldsOf writesDistinct funcs).map (fun field =>
          readDouble (jsonGetPath data field))).foldl addDistinct values) := by
  induction funcs with
  | nil => exact fun kept => kept
  | cons func funcs ih =>
      intro bucket values kept
      rw [fieldsOf_cons, List.map_append, List.foldl_append]
      exact ih (kept.func data func)

theorem Keeps.event {bucket : Bucket} {values : List ℚ} (kept : Keeps bucket values)
    (window : Window) (funcs : List AggFunc) (row : Event × Nat) :
    Keeps (updateBucketWithDoubles window funcs bucket row.1 row.2)
      ((distinctReadings funcs [row]).foldl addDistinct values) := by
  unfold updateBucketWithDoubles distinctReadings
  rw [List.flatMap_singleton]
  apply Keeps.funcs
  split
  · exact ⟨kept.numbers, kept.count⟩
  · exact ⟨kept.numbers, kept.count⟩

theorem Keeps.fill (window : Window) (funcs : List AggFunc) (rows : List (Event × Nat)) :
    ∀ {bucket : Bucket} {values : List ℚ}, Keeps bucket values →
      Keeps (fillWithDoubles window funcs bucket rows)
        ((distinctReadings funcs rows).foldl addDistinct values) := by
  induction rows with
  | nil => exact fun kept => kept
  | cons row rows ih =>
      intro bucket values kept
      have split : distinctReadings funcs (row :: rows) =
          distinctReadings funcs [row] ++ distinctReadings funcs rows := by
        simp [distinctReadings]
      rw [split, List.foldl_append]
      exact ih (kept.event window funcs row)

/-- Whole numbers are kept once each. -/
theorem foldl_addDistinct (readings : List Int) :
    ∀ values : List Int, values.Nodup → ∃ kept : List Int,
      (readings.map (Int.cast : Int → ℚ)).foldl addDistinct (values.map (Int.cast : Int → ℚ)) =
        kept.map (Int.cast : Int → ℚ) ∧
      kept.Nodup ∧ ∀ n, n ∈ kept ↔ n ∈ values ∨ n ∈ readings := by
  induction readings with
  | nil => exact fun values distinct => ⟨values, rfl, distinct, by simp⟩
  | cons n readings ih =>
      intro values distinct
      have found : (values.map (Int.cast : Int → ℚ)).any (closeTo · (n : ℚ)) = true ↔
          n ∈ values := by
        simp [List.any_eq_true, closeTo_intCast]
      rw [List.map_cons, List.foldl_cons, addDistinct]
      by_cases member : n ∈ values
      · rw [if_pos (found.mpr member)]
        obtain ⟨kept, same, nodup, mem⟩ := ih values distinct
        refine ⟨kept, same, nodup, fun m => (mem m).trans ?_⟩
        grind
      · rw [if_neg (mt found.mp member)]
        have appended : values.map (Int.cast : Int → ℚ) ++ [(n : ℚ)] =
            (values ++ [n]).map (Int.cast : Int → ℚ) := by simp
        rw [appended]
        obtain ⟨kept, same, nodup, mem⟩ := ih (values ++ [n]) (by
          rw [List.nodup_append_comm]
          simpa [member] using distinct)
        refine ⟨kept, same, nodup, fun m => (mem m).trans ?_⟩
        simp [or_assoc]

theorem readDouble_countable {value : Json} (countable : value.Countable) :
    ∃ n : Int, readDouble (some value) = n := by
  cases value with
  | integer n => exact ⟨doubleOfInt n, rfl⟩
  | string | bool => exact ⟨0, rfl⟩
  | null | real | array | object => exact countable.elim

section Counts

variable {field : String} {window : Window} {funcs : List AggFunc} {rows : List (Event × Nat)}

theorem valuesTaken_finite (field : String) (rows : List (Event × Nat)) :
    (valuesTaken field rows).Finite := by
  have listed : valuesTaken field rows ⊆ {value | value ∈ rows.filterMap (fun row =>
      jsonGetPath (row.1.data.getD .null) field)} := by
    rintro value ⟨row, member, found⟩
    exact List.mem_filterMap.mpr ⟨row, member, found⟩
  exact (List.finite_toSet _).subset listed

/-- What is read from the fields under `distinct` is what is read from the values of the one field,
    if no other field adds to it. -/
theorem mem_distinctReadings_iff
    (counts : ∃ func ∈ funcs, func.type = .distinct ∧ func.field = some field)
    (own : AddsNothing field funcs rows) (reading : ℚ) :
    reading ∈ distinctReadings funcs rows ↔
      reading ∈ (fun value => readDouble (some value)) '' valuesTaken field rows := by
  constructor
  · intro member
    exact own reading member
  · rintro ⟨value, ⟨row, member, found⟩, rfl⟩
    obtain ⟨func, inside, type, named⟩ := counts
    refine List.mem_flatMap.mpr ⟨row, member, List.mem_map.mpr ⟨field, ?_, ?_⟩⟩
    · exact mem_fieldsOf.mpr ⟨func, inside, by rw [type]; rfl, named⟩
    · simp only [found]

/-- The bucket counts the numbers that are read from the values of the field. -/
theorem fillWithDoubles_distinctCount {bucket : Bucket} (empty : Keeps bucket [])
    (counts : ∃ func ∈ funcs, func.type = .distinct ∧ func.field = some field)
    (countable : ∀ value ∈ valuesTaken field rows, value.Countable)
    (own : AddsNothing field funcs rows) :
    (fillWithDoubles window funcs bucket rows).distinctCount =
      ((fun value => readDouble (some value)) '' valuesTaken field rows).ncard := by
  obtain ⟨readings, whole⟩ : ∃ readings : List Int,
      readings.map (Int.cast : Int → ℚ) = distinctReadings funcs rows := by
    have inRange : distinctReadings funcs rows ∈ Set.range (List.map (Int.cast : Int → ℚ)) := by
      rw [Set.range_list_map]
      intro reading member
      obtain ⟨value, taken, rfl⟩ := own reading member
      obtain ⟨n, read⟩ := readDouble_countable (countable value taken)
      exact ⟨n, read.symm⟩
    exact inRange
  obtain ⟨kept, same, nodup, mem⟩ := foldl_addDistinct readings [] List.nodup_nil
  have filled := (empty.fill window funcs rows).count
  have distinct : (kept.map (Int.cast : Int → ℚ)).Nodup := nodup.map Int.cast_injective
  have numbers : (fun value => readDouble (some value)) '' valuesTaken field rows =
      ((kept.map (Int.cast : Int → ℚ)).toFinset : Set ℚ) := by
    ext reading
    rw [← mem_distinctReadings_iff counts own, ← whole]
    simp [mem]
  rw [numbers, Set.ncard_coe_finset, List.toFinset_card_of_nodup distinct, filled, ← whole]
  exact congrArg List.length same

end Counts

/-! ## What the result says -/

/-- The functions with the name of a distinct count are `distinct` functions and a sum. -/
theorem aggFuncName_distinct {field : String} {func : AggFunc}
    (name : aggFuncName func = "distinct_" ++ field) :
    (func.type = .distinct ∧ func.field.isSome) ∨
      (func.type = .sum ∧ func.field = some ("distinct_" ++ field)) ∨ func.field = none := by
  have begins : nameLetters func = 'd' :: ("istinct_".toList ++ field.toList) := by
    rw [← aggFuncName_toList, name, String.toList_append]
    rfl
  cases named : func.field with
  | none => exact .inr (.inr rfl)
  | some own =>
      cases type : func.type with
      | count | avg | min | max | percentile => simp [nameLetters, type] at begins
      | distinct => exact .inl ⟨rfl, rfl⟩
      | sum =>
          have summed : aggFuncName func = own := by simp [aggFuncName, type, named]
          exact .inr (.inl ⟨rfl, congrArg some (summed.symm.trans name)⟩)

theorem aggFuncValue_distinct {func : AggFunc} (counts : func.type = .distinct ∧ func.field.isSome)
    (bucket : Bucket) :
    aggFuncValue bucket func = some (.integer (toInt64 bucket.distinctCount)) := by
  obtain ⟨type, named⟩ := counts
  obtain ⟨field, found⟩ := Option.isSome_iff_exists.mp named
  simp [aggFuncValue, type, found]

theorem aggFunc_sum {func : AggFunc} {key : String}
    (sums : func.type = .sum ∧ func.field = some key) (bucket : Bucket) :
    aggFuncName func = key ∧ aggFuncValue bucket func = some (.real bucket.sum) := by
  obtain ⟨type, named⟩ := sums
  exact ⟨by simp [aggFuncName, type, named], by simp [aggFuncValue, type, named]⟩

/-- A function of another kind with the name of a distinct count puts nothing there. -/
theorem aggFuncValue_apart {field : String} {func : AggFunc} (bucket : Bucket)
    (name : aggFuncName func = "distinct_" ++ field)
    (notDistinct : ¬(func.type = .distinct ∧ func.field.isSome))
    (notSum : ¬(func.type = .sum ∧ func.field = some ("distinct_" ++ field))) :
    aggFuncValue bucket func = none := by
  rcases aggFuncName_distinct name with distinct | sums | unnamed
  · exact absurd distinct notDistinct
  · exact absurd sums notSum
  · cases type : func.type with
    | count =>
        have letters := congrArg String.toList name
        simp [aggFuncName_toList, nameLetters, type] at letters
    | sum | avg | min | max | percentile | distinct => simp [aggFuncValue, type, unnamed]

/-- A number is under the name of the field, if and only if it is the count and a `distinct`
    function put it there last. -/
theorem aggMetrics_distinct_iff (field : String) (funcs : List AggFunc) (bucket : Bucket)
    (n : Int) :
    (aggMetrics funcs bucket).get? ("distinct_" ++ field) = some (.integer n) ↔
      DistinctStands field funcs ∧ n = toInt64 bucket.distinctCount := by
  by_cases same : n = toInt64 bucket.distinctCount
  · subst same
    rw [and_iff_left rfl]
    refine aggMetrics_get?_iff ?_ ?_ ?_ funcs
    · rintro func ⟨distinct, name⟩
      exact ⟨name, aggFuncValue_distinct distinct bucket⟩
    · intro func sums
      obtain ⟨name, value⟩ := aggFunc_sum sums bucket
      exact ⟨name, _, value, nofun⟩
    · intro func notDistinct notSum name
      exact aggFuncValue_apart bucket name (fun distinct => notDistinct ⟨distinct, name⟩) notSum
  · refine iff_of_false (fun there => ?_) (fun both => same both.2)
    -- Every value that is put there is another one.
    have stands := (@aggMetrics_get?_iff (fun _ => False)
      (fun func => aggFuncName func = "distinct_" ++ field ∧
        (aggFuncValue bucket func).isSome) _ _ bucket nofun ?_ ?_ funcs).mp there
    · obtain ⟨_, _, _, _, never, _⟩ := stands
      exact never
    · rintro func ⟨name, put⟩
      obtain ⟨value, found⟩ := Option.isSome_iff_exists.mp put
      refine ⟨name, value, found, ?_⟩
      rintro rfl
      rcases aggFuncName_distinct name with distinct | sums | unnamed
      · rw [aggFuncValue_distinct distinct bucket] at found
        exact same (Json.integer.inj (Option.some.inj found)).symm
      · rw [(aggFunc_sum sums bucket).2] at found
        cases found
      · have nothing := aggFuncValue_apart bucket name (by simp [unnamed]) (by simp [unnamed])
        rw [nothing] at found
        cases found
    · intro func _ other name
      exact Option.not_isSome_iff_eq_none.mp fun put => other ⟨name, put⟩

/-- What the result of a bucket is made from: the bucket itself, or a tumbling bucket that had
    events and has been cleared. -/
theorem ResultOf.metrics {state : AggState} {bucket : Bucket} {result : Event}
    (made : ResultOf state bucket result) :
    ∃ shown : Bucket,
      (∀ key, result.entry "metrics" key = (aggMetrics state.funcs shown).get? key) ∧
      (state.window.type ≠ .tumbling ∧ shown.distinctCount = bucket.distinctCount ∨
        state.window.type = .tumbling ∧ shown.distinctCount = 0 ∧ 0 < bucket.count) := by
  cases made with
  | whole clock type =>
      refine ⟨bucket, fun key => (createAggResultEvent_entry state bucket clock key).2, .inl ?_⟩
      exact ⟨by rw [type]; nofun, rfl⟩
  | @flushed now clock step windowed stepped flushes =>
      refine ⟨step.bucket,
        fun key => (createAggResultEvent_entry state step.bucket clock key).2, ?_⟩
      unfold flushBucket at stepped
      cases type : state.window.type with
      | none => exact absurd type windowed
      | session =>
          rw [type] at stepped
          obtain rfl := Option.some.inj stepped
          exact .inl ⟨nofun, rfl⟩
      | sliding =>
          rw [type] at stepped
          obtain rfl := Option.some.inj stepped
          refine .inl ⟨nofun, ?_⟩
          unfold flushSliding
          split <;> rfl
      | tumbling =>
          rw [type] at stepped
          refine .inr ⟨rfl, ?_⟩
          dsimp only [flushTumbling] at stepped
          split at stepped
          · obtain ⟨passed, _, rfl⟩ := Option.map_eq_some_iff.mp stepped
            exact ⟨rfl, of_decide_eq_true flushes⟩
          · obtain rfl := Option.some.inj stepped
            cases flushes

/-- The buckets that are emitted at a tick are made from buckets of the state. -/
theorem flushLoop_resultOf {state : AggState} (windowed : state.window.type ≠ .none) {now : Nat}
    {buckets : List Bucket} : ∀ {kept emitted : List Bucket},
      flushLoop state.window now buckets = some (kept, emitted) →
      ∀ shown ∈ emitted, ∀ clock, ∃ bucket ∈ buckets,
        ResultOf state bucket (createAggResultEvent state shown clock) := by
  induction buckets with
  | nil =>
      rintro kept emitted flushed shown member
      cases flushed
      cases member
  | cons bucket rest ih =>
      intro kept emitted flushed shown member clock
      rw [flushLoop] at flushed
      split at flushed
      · next step keptRest emittedRest stepped flushedRest =>
        obtain ⟨-, rfl⟩ := Prod.mk.inj (Option.some.inj flushed)
        rcases List.mem_append.mp member with here | later
        · by_cases flushes : step.shouldFlush = true
          · rw [if_pos flushes] at here
            rw [List.mem_singleton.mp here]
            exact ⟨bucket, List.mem_cons_self, .flushed now clock windowed stepped flushes⟩
          · rw [if_neg flushes] at here
            cases here
        · obtain ⟨source, inside, made⟩ := ih flushedRest shown later clock
          exact ⟨source, List.mem_cons_of_mem _ inside, made⟩
      · cases flushed

/-- A distinct count is the number of values, if the bucket is not cleared before its result, no sum
    takes the place of the count, and no two values are read as the same number: two strings or
    booleans, or integers that are rounded to one double. -/
structure CountsValues (field : String) (window : Window) (funcs : List AggFunc)
    (rows : List (Event × Nat)) : Prop where
  notCleared : window.type ≠ .tumbling
  stands : DistinctStands field funcs
  apart : Set.InjOn (fun value => readDouble (some value)) (valuesTaken field rows)
  fits : (valuesTaken field rows).ncard < 2 ^ 63

section Reports

variable {field : String} {state : AggState} {bucket : Bucket} {rows : List (Event × Nat)}
  {result : Event}

/-- A count that has at most as many is the number of the values, if no two values are read as the
    same number. -/
theorem ncard_eq_toInt64_iff {taken : Set Json} (finite : taken.Finite) :
    (taken.ncard : Int) =
        toInt64 ((fun value => readDouble (some value)) '' taken).ncard ↔
      Set.InjOn (fun value => readDouble (some value)) taken ∧ taken.ncard < 2 ^ 63 := by
  rw [← Set.ncard_image_iff finite]
  have most := Set.ncard_image_le (f := fun value => readDouble (some value)) finite
  unfold toInt64
  split <;> omega

/-- Nothing is added where no other field is under `distinct`. -/
theorem addsNothing_of_only {funcs : List AggFunc}
    (only : ∀ func ∈ funcs, func.type = .distinct → ∀ other, func.field = some other →
      other = field)
    (present : ∀ row ∈ rows, ∃ value, jsonGetPath (row.1.data.getD .null) field = some value) :
    AddsNothing field funcs rows := by
  intro reading member
  obtain ⟨row, inside, read⟩ := List.mem_flatMap.mp member
  obtain ⟨other, under, rfl⟩ := List.mem_map.mp read
  obtain ⟨func, listed, writes, named⟩ := mem_fieldsOf.mp under
  have type : func.type = .distinct := by
    cases type : func.type with
    | distinct => rfl
    | count | sum | avg | min | max | percentile =>
        rw [type] at writes
        cases writes
  obtain rfl := only func listed type other named
  obtain ⟨value, found⟩ := present row inside
  exact ⟨value, ⟨row, inside, found⟩, congrArg readDouble found.symm⟩

theorem reportsDistinct_iff (fresh : resetBucket bucket = bucket)
    (counts : ∃ func ∈ state.funcs, func.type = .distinct ∧ func.field = some field)
    (countable : ∀ row ∈ rows, ∃ value,
      jsonGetPath (row.1.data.getD .null) field = some value ∧ value.Countable)
    (made : ResultOf state (fillWithDoubles state.window state.funcs bucket rows) result)
    (own : AddsNothing field state.funcs rows) :
    ReportsDistinct field rows result ↔ CountsValues field state.window state.funcs rows := by
  obtain ⟨shown, entries, made⟩ := made.metrics
  rw [ReportsDistinct, entries, aggMetrics_distinct_iff]
  have empty : Keeps bucket [] := by
    rw [← fresh]
    exact ⟨rfl, rfl⟩
  rcases made with ⟨notTumbling, count⟩ | ⟨tumbling, count, events⟩
  · have taken : ∀ value ∈ valuesTaken field rows, value.Countable := by
      rintro value ⟨row, member, found⟩
      obtain ⟨value', found', isCountable⟩ := countable row member
      rwa [Option.some.inj (found.symm.trans found')]
    rw [count, fillWithDoubles_distinctCount empty counts taken own,
      ncard_eq_toInt64_iff (valuesTaken_finite field rows)]
    constructor
    · rintro ⟨stands, apart, fits⟩
      exact ⟨notTumbling, stands, apart, fits⟩
    · intro values
      exact ⟨values.stands, values.apart, values.fits⟩
  · refine iff_of_false ?_ (fun values => values.notCleared tumbling)
    rintro ⟨-, same⟩
    have nothing : (valuesTaken field rows).ncard = 0 := by
      rw [count, toInt64_of_lt (by decide)] at same
      exact_mod_cast same
    cases rows with
    | nil =>
        have untouched : bucket.count = 0 := congrArg Bucket.count fresh.symm
        exact absurd events (by rw [fillWithDoubles, List.foldl_nil, untouched]; exact lt_irrefl 0)
    | cons row rows =>
        obtain ⟨value, found, -⟩ := countable row List.mem_cons_self
        have none := (Set.ncard_eq_zero (valuesTaken_finite field (row :: rows))).mp nothing
        exact Set.notMem_empty value (none ▸ ⟨row, List.mem_cons_self, found⟩)

/-- `distinct(field)` reports the number of different values of the field, if and only if it counts
    values, as long as what the other `distinct` functions read adds nothing to it. -/
theorem distinct_reports_iff (fresh : resetBucket bucket = bucket)
    (counts : ∃ func ∈ state.funcs, func.type = .distinct ∧ func.field = some field)
    (countable : ∀ row ∈ rows, ∃ value,
      jsonGetPath (row.1.data.getD .null) field = some value ∧ value.Countable)
    (made : ResultOf state (fillWithDoubles state.window state.funcs bucket rows) result) :
    (AddsNothing field state.funcs rows ∧ CountsValues field state.window state.funcs rows →
        ReportsDistinct field rows result) ∧
      (AddsNothing field state.funcs rows → ReportsDistinct field rows result →
        CountsValues field state.window state.funcs rows) := by
  constructor
  · rintro ⟨own, values⟩
    exact (reportsDistinct_iff fresh counts countable made own).mpr values
  · intro own reports
    exact (reportsDistinct_iff fresh counts countable made own).mp reports

end Reports

/-- A log event with one field, and a clock reading. -/
def fieldRow (field : String) (value : Json) : Event × Nat :=
  ({ type := .log, timestampNs := 5, input := none, data := some (.object [(field, value)]) }, 0)

theorem jsonGetPath_fieldRow (field : String) (value : Json) :
    jsonGetPath ((fieldRow field value).1.data.getD .null) field = some value :=
  jsonGetPath_direct (by simp [fieldRow, Json.get?])

theorem valuesTaken_fieldRow (field : String) (values : List Json) :
    valuesTaken field (values.map (fieldRow field)) = {value | value ∈ values} := by
  ext value
  constructor
  · rintro ⟨row, member, found⟩
    obtain ⟨own, inside, rfl⟩ := List.mem_map.mp member
    rw [jsonGetPath_fieldRow] at found
    exact Option.some.inj found ▸ inside
  · intro inside
    exact ⟨fieldRow field value, List.mem_map.mpr ⟨value, inside, rfl⟩,
      jsonGetPath_fieldRow field value⟩

/-- A query without a window with one distinct count. -/
def distinctQuery (field : String) : Aggregate where
  funcs := [{ type := .distinct, field := some field }]
  groupByFields := []
  whereFilter := none
  window := { type := .none }

/-- The result of a new bucket of the query after events with these values of the field. -/
def distinctResult (field : String) (values : List Json) : Event :=
  createAggResultEvent (newAggState (distinctQuery field))
    (fillWithDoubles (newAggState (distinctQuery field)).window
      (newAggState (distinctQuery field)).funcs (newBucket 0 none 0 u64Max)
      (values.map (fieldRow field))) 0

theorem fieldRow_countable {field : String} {values : List Json}
    (countable : ∀ value ∈ values, value.Countable) :
    ∀ row ∈ values.map (fieldRow field), ∃ value,
      jsonGetPath (row.1.data.getD .null) field = some value ∧ value.Countable := by
  intro row member
  obtain ⟨value, inside, rfl⟩ := List.mem_map.mp member
  exact ⟨value, jsonGetPath_fieldRow field value, countable value inside⟩

theorem distinctQuery_addsNothing (field : String) (values : List Json) :
    AddsNothing field (distinctQuery field).funcs (values.map (fieldRow field)) := by
  refine addsNothing_of_only ?_ ?_
  · intro func listed _ other named
    rw [List.mem_singleton.mp listed] at named
    exact (Option.some.inj named).symm
  · intro row member
    obtain ⟨value, -, rfl⟩ := List.mem_map.mp member
    exact ⟨value, jsonGetPath_fieldRow field value⟩

/-- Two status codes are two values. -/
theorem distinct_reports_iff_statusCodes :
    ReportsDistinct "status" ([.integer 200, .integer 404].map (fieldRow "status"))
      (distinctResult "status" [.integer 200, .integer 404]) := by
  have plain : ∀ value ∈ [Json.integer 200, Json.integer 404], value.Countable := by
    intro value inside
    rcases List.mem_pair.mp inside with rfl | rfl <;> trivial
  have taken : valuesTaken "status" ([.integer 200, .integer 404].map (fieldRow "status")) =
      {.integer 200, .integer 404} := by
    rw [valuesTaken_fieldRow]
    ext value
    simp
  have stands : DistinctStands "status" (distinctQuery "status").funcs :=
    ⟨[], _, [], rfl, ⟨⟨rfl, rfl⟩, by decide⟩, nofun⟩
  refine (@distinct_reports_iff "status" (newAggState (distinctQuery "status")) _ _ _ rfl
    ⟨_, List.mem_singleton_self _, rfl, rfl⟩ (fieldRow_countable plain) (.whole 0 rfl)).1
      ⟨distinctQuery_addsNothing "status" _, nofun, stands, ?_, ?_⟩
  · rw [taken]
    have low : doubleOfInt 200 = 200 := doubleOfInt_of_lt (by decide)
    have high : doubleOfInt 404 = 404 := doubleOfInt_of_lt (by decide)
    simp [Set.InjOn, readDouble, low, high]
  · rw [taken]
    exact (Set.ncard_insert_le _ _).trans_lt (by simp)

/-- `aggregate distinct(user)` counts two users as one. -/
theorem distinctUsers_merged :
    @nqlParse literalPcre2 "aggregate distinct(user)".toList =
        some (.single (.aggregate (distinctQuery "user"))) ∧
      ¬ReportsDistinct "user" ([.string "alice", .string "bob"].map (fieldRow "user"))
        (distinctResult "user" [.string "alice", .string "bob"]) := by
  refine ⟨by decide, fun reports => ?_⟩
  have plain : ∀ value ∈ [Json.string "alice", Json.string "bob"], value.Countable := by
    intro value inside
    rcases List.mem_pair.mp inside with rfl | rfl <;> trivial
  have counted := (@reportsDistinct_iff "user" (newAggState (distinctQuery "user")) _ _ _ rfl
    ⟨_, List.mem_singleton_self _, rfl, rfl⟩ (fieldRow_countable plain) (.whole 0 rfl)
      (distinctQuery_addsNothing "user" _)).mp reports
  have apart := counted.apart
  rw [valuesTaken_fieldRow] at apart
  have same := @apart (.string "alice") (by simp) (.string "bob") (by simp) rfl
  exact absurd same (by simp)

end Nblex
